import Omp2.Render.Semantic
import Omp2.State.Untouched

/-!
# What the rendering of a session shows

A rendering shows texts in their order when they stand in its output one after the other, with
anything around them. Boxes and callouts indent each line of what they hold, so a text stands there
with the indentation at the start of its lines.
-/

namespace Omp2.Render

open Omp2.Json Omp2.State List

/-! ## Texts in their order -/

/-- The blocks stand in the text one after the other. -/
inductive InOrder {α : Type} : List (List α) → List α → Prop
  | nil (text : List α) : InOrder [] text
  | cons (before block : List α) {blocks : List (List α)} {rest : List α}
      (h : InOrder blocks rest) : InOrder (block :: blocks) (before ++ block ++ rest)

namespace InOrder

variable {α β : Type} {blocks others : List (List α)} {text more : List α}

theorem single (before block after : List α) : InOrder [block] (before ++ block ++ after) :=
  .cons before block (.nil after)

theorem skip (before : List α) (h : InOrder blocks text) : InOrder blocks (before ++ text) := by
  cases h with
  | nil => exact .nil _
  | cons first block h =>
      rw [append_assoc, ← append_assoc, ← append_assoc]
      exact .cons _ block h

theorem append (h : InOrder blocks text) (h' : InOrder others more) :
    InOrder (blocks ++ others) (text ++ more) := by
  induction h with
  | nil text => exact h'.skip text
  | cons before block h ih =>
      rw [cons_append, append_assoc]
      exact .cons before block ih

theorem before (h : InOrder blocks text) (after : List α) : InOrder blocks (text ++ after) := by
  have hboth := h.append (.nil after)
  rwa [append_nil] at hboth

theorem flatMap {f : β → List (List α)} {g : β → List α} {xs : List β}
    (h : ∀ x ∈ xs, InOrder (f x) (g x)) : InOrder (xs.flatMap f) (xs.flatMap g) := by
  induction xs with
  | nil => exact .nil []
  | cons x xs ih =>
      obtain ⟨hx, hxs⟩ := forall_mem_cons.mp h
      rw [flatMap_cons, flatMap_cons]
      exact hx.append (ih hxs)

end InOrder

namespace Component

/-! ## What a component prints -/

/-- The characters that a call writes to a string sink. -/
def writeChars (w : Write) : List Char :=
  w.calls.flatMap Call.chars

/-- The characters that a component writes to a string sink. -/
def printed (c : Component) (indent : Nat) : List Char :=
  (c.renderToSink indent).flatMap writeChars

theorem toList_stringOutput (c : Component) (indent : Nat) :
    (stringOutput (c.calls indent)).toList = c.printed indent := by
  rw [stringOutput_eq]
  exact flatMap_assoc

theorem printed_renderAll (cs : List Component) (indent : Nat) :
    (renderAll cs indent).flatMap writeChars = cs.flatMap fun c => c.printed indent := by
  induction cs with
  | nil => rfl
  | cons c cs ih =>
      rw [renderAll, flatMap_append, flatMap_cons, ih]
      rfl

/-- A text as it stands at an indentation, which begins each of its further lines. -/
def shownAt (indent : Nat) (text : String) : List Char :=
  ('\n' :: List.replicate (2 * indent) ' ').intercalate ((sanitizeText text).toList.splitOn '\n')

@[simp] theorem shownAt_empty (indent : Nat) : shownAt indent "" = [] := rfl

/-- The indentation is printed as it is. -/
theorem writeChars_pad (indent : Nat) :
    writeChars (.plain (padOf indent)) = List.replicate (2 * indent) ' ' := by
  have hallowed : AllowedText (padOf indent) := by
    intro c hc
    rw [padOf, String.toList_ofList] at hc
    rw [eq_of_mem_replicate hc]
    exact (clean_iff_allowed ' ').mp rfl
  have htext : (Run.plain (padOf indent)).text = padOf indent := sanitizeText_of_allowed hallowed
  unfold writeChars
  simp only [Write.calls, flatMap_singleton, Call.chars, htext]
  exact String.toList_ofList

theorem chars_writePad (indent : Nat) :
    (writePad indent).flatMap writeChars = List.replicate (2 * indent) ' ' := by
  unfold writePad
  split
  · next hzero => rw [hzero]; rfl
  · rw [flatMap_singleton, writeChars_pad]

/-- The lines of a text are printed with the start of a line between them. -/
theorem chars_writeParts (style : Style) (atStart : List Write) {parts : List (List Char)}
    (h : ∀ part ∈ parts, ∀ c ∈ part, Allowed c) :
    (writeParts style atStart (parts.map String.ofList)).flatMap writeChars =
      ('\n' :: atStart.flatMap writeChars).intercalate parts := by
  induction parts with
  | nil => rfl
  | cons part parts ih =>
      obtain ⟨hpart, hparts⟩ := forall_mem_cons.mp h
      have hown : writeChars (.own style (String.ofList part)) = part := by
        have htext : (Run.new style (String.ofList part)).text = String.ofList part :=
          sanitizeText_of_allowed fun c hc => hpart c (by rwa [String.toList_ofList] at hc)
        unfold writeChars
        simp only [Write.calls, flatMap_singleton, Call.chars, htext]
        exact String.toList_ofList
      cases parts with
      | nil => rw [map_singleton, writeParts, flatMap_singleton, hown,
          intercalate_singleton]
      | cons next parts =>
        rw [map_cons] at ih ⊢
        rw [map_cons, writeParts, flatMap_append, ih hparts,
          intercalate_cons_cons, flatMap_cons, flatMap_cons, hown]
        · simp [writeChars, Write.calls, Call.chars]
        · exact cons_ne_nil _ _

/-- The runs of a text that is pushed once are printed as the text stands at the indentation. -/
theorem chars_writeRuns (style : Style) (text : String) {indent : Nat} {atStart : List Write}
    (hstart : atStart.flatMap writeChars = List.replicate (2 * indent) ' ') :
    (writeRuns atStart (RichText.fromStyled style text).runs).flatMap writeChars =
      shownAt indent text := by
  unfold RichText.fromStyled RichText.push shownAt
  dsimp only
  split
  · next hempty =>
    rw [String.isEmpty_iff.mp hempty]
    rfl
  · have hallowed : ∀ part ∈ (sanitizeText text).toList.splitOn '\n', ∀ c ∈ part, Allowed c := by
      intro part hpart c hc
      refine allowed_sanitizeText text c ?_
      have hjoined : c ∈ ['\n'].intercalate ((sanitizeText text).toList.splitOn '\n') :=
        mem_intercalate hpart hc
      rwa [intercalate_splitOn] at hjoined
    change (writeRuns atStart [⟨style, sanitizeText text⟩]).flatMap writeChars = _
    rw [writeRuns, flatMap_singleton, partsOf, chars_writeParts style atStart hallowed, hstart]

/-! ## Valid components -/

/-- A component passes its validation. -/
def Valid (c : Component) : Prop :=
  c.validate = .ok ()

theorem validateAll_iff {cs : List Component} : validateAll cs = .ok () ↔ ∀ c ∈ cs, c.Valid := by
  induction cs with
  | nil => exact iff_of_true rfl fun c hc => absurd hc not_mem_nil
  | cons c cs ih =>
      rw [forall_mem_cons, ← ih, validateAll]
      unfold Valid
      cases c.validate with
      | error e => exact iff_of_false nofun nofun
      | ok u => exact (and_iff_right rfl).symm

/-- A component whose own checks pass is made when its children are valid. -/
theorem new_eq_ok (kind : ComponentKind) (props : ComponentProps) {children : List Component}
    (hnode : validateNode kind props children = .ok ()) (h : ∀ c ∈ children, c.Valid) :
    Component.new kind props children = .ok (.node kind props children none) ∧
      (node kind props children none).Valid := by
  have hvalid : (node kind props children none).validate = .ok () := by
    rw [validate, hnode]
    exact validateAll_iff.mpr h
  unfold Component.new
  rw [hvalid]
  exact ⟨rfl, hvalid⟩

theorem valid_text (rich : RichText) : (text rich).Valid := rfl

theorem valid_pre (content : String) : (pre content).Valid := rfl

theorem valid_badge (variant : SemanticColor) (label : String) : (badge variant label).Valid := by
  rfl

theorem valid_image (src alt : String) (width height : UInt32) :
    (image src alt width height).Valid := by
  rfl

theorem valid_usage (prompt completion : UInt64) : (usage prompt completion).Valid := rfl

/-! ## Components that show texts -/

/-- The component is made, is valid, and shows the blocks in their order. -/
def Made (result : Except ValidationError Component) (blocks : List (List Char))
    (indent : Nat) : Prop :=
  ∃ c, result = .ok c ∧ c.Valid ∧ InOrder blocks (c.printed indent)

theorem Made.bind {α : Type} {part : Except ValidationError α} {P : α → Prop}
    {k : α → Except ValidationError Component} {blocks : List (List Char)} {indent : Nat}
    (hpart : ∃ a, part = .ok a ∧ P a) (h : ∀ a, P a → Made (k a) blocks indent) :
    Made (part >>= k) blocks indent := by
  obtain ⟨a, rfl, ha⟩ := hpart
  exact h a ha

/-- The components are valid and show the blocks in their order. -/
structure Kept (blocks : List (List Char)) (cs : List Component) (indent : Nat) : Prop where
  valid : ∀ c ∈ cs, c.Valid
  shown : InOrder blocks (cs.flatMap fun c => c.printed indent)

namespace Kept

variable {blocks others : List (List Char)} {cs ds : List Component} {c : Component} {indent : Nat}

theorem append (h : Kept blocks cs indent) (h' : Kept others ds indent) :
    Kept (blocks ++ others) (cs ++ ds) indent :=
  ⟨forall_mem_append.mpr ⟨h.valid, h'.valid⟩, by
    rw [flatMap_append]
    exact h.shown.append h'.shown⟩

theorem gaps (indent : Nat) (h : ∀ c ∈ cs, c.Valid) : Kept [] cs indent :=
  ⟨h, .nil _⟩

theorem single (hvalid : c.Valid) (h : InOrder blocks (c.printed indent)) :
    Kept blocks [c] indent :=
  ⟨forall_mem_singleton.mpr hvalid, by rwa [flatMap_singleton]⟩

theorem cons (hvalid : c.Valid) (h : Kept blocks cs indent) : Kept blocks (c :: cs) indent :=
  (gaps indent (forall_mem_singleton.mpr hvalid)).append h

theorem before (h : Kept blocks cs indent) (hds : ∀ c ∈ ds, c.Valid) :
    Kept blocks (cs ++ ds) indent := by
  have hboth := h.append (gaps indent hds)
  rwa [append_nil] at hboth

theorem col (h : Kept blocks cs indent) : Made (Component.col cs) blocks indent := by
  obtain ⟨hok, hvalid⟩ := new_eq_ok .col .new rfl h.valid
  refine ⟨_, hok, hvalid, ?_⟩
  have hshown := h.shown
  rwa [← printed_renderAll] at hshown

/-- A box with a border shows what its children show one level deeper. -/
theorem titledBox (h : Kept blocks cs (indent + 1)) (title : String) :
    Made (Component.titledBox title cs) blocks indent := by
  obtain ⟨hok, hvalid⟩ := new_eq_ok .box
    ((ComponentProps.new.set "border" (.bool true)).set "title" (.string title)) rfl h.valid
  refine ⟨_, hok, hvalid, ?_⟩
  have hshown := h.shown
  rw [← printed_renderAll] at hshown
  have hborder : ((((ComponentProps.new.set "border" (.bool true)).set "title"
      (.string title)).getBool "border").getD false) = true := rfl
  unfold printed
  rw [renderToSink, if_pos hborder, flatMap_cons, flatMap_cons, flatMap_append]
  exact ((hshown.before _).skip _).skip _

end Kept

theorem exists_row {cs : List Component} (h : ∀ c ∈ cs, c.Valid) :
    ∃ c, row cs = .ok c ∧ c.Valid :=
  ⟨_, new_eq_ok .row .new rfl h⟩

theorem shows_text (style : Style) (content : String) (indent : Nat) :
    InOrder [shownAt indent content] ((text (.fromStyled style content)).printed indent) := by
  unfold text printed
  rw [renderToSink, flatMap_append, flatMap_append,
    chars_writeRuns style content (chars_writePad indent)]
  exact .single _ _ _

/-- A preformatted text shows itself. -/
theorem shows_pre (content : String) (indent : Nat) :
    InOrder [shownAt indent content] ((pre content).printed indent) := by
  have hstart : [Write.plain (padOf indent)].flatMap writeChars =
      replicate (2 * indent) ' ' := by
    rw [flatMap_singleton, writeChars_pad]
  have hruns := chars_writeRuns .new content hstart
  unfold pre printed
  rw [renderToSink, flatMap_append]
  refine .skip _ ?_
  change (writeRuns _ (RichText.fromPlain content).runs).flatMap writeChars = _ at hruns
  rw [flatMap_cons, flatMap_append, hruns]
  exact .skip _ (.single [] _ _)

/-- A callout shows its body one level deeper. -/
theorem made_callout (variant : SemanticColor) (title body : String) (indent : Nat) :
    Made (callout variant title body) [shownAt (indent + 1) body] indent := by
  have hchildren : ∀ c ∈ [text (.fromStyled (.semantic variant) body)], c.Valid :=
    forall_mem_singleton.mpr (valid_text _)
  obtain ⟨hok, hvalid⟩ := new_eq_ok .callout ((ComponentProps.new.set "variant"
    (.string variant.debug)).set "title" (.string title)) rfl hchildren
  refine ⟨_, hok, hvalid, ?_⟩
  unfold printed
  rw [renderToSink, flatMap_cons, flatMap_cons, printed_renderAll, flatMap_singleton]
  exact ((shows_text _ body (indent + 1)).skip _).skip _

theorem kept_pre (content : Option String) (indent : Nat) :
    Kept (content.map (shownAt indent)).toList (content.map pre).toList indent := by
  cases content with
  | none => exact .gaps indent fun c hc => absurd hc not_mem_nil
  | some content => exact .single (valid_pre content) (shows_pre content indent)

/-- Diagnostics are made, and show their texts. -/
theorem exists_diagnostics (diagnostics : List String) (indent : Nat) :
    ∃ cs, diagnosticCallouts diagnostics = .ok cs ∧
      Kept (diagnostics.map (shownAt (indent + 1))) cs indent := by
  induction diagnostics with
  | nil => exact ⟨[], rfl, .gaps indent fun c hc => absurd hc not_mem_nil⟩
  | cons diagnostic diagnostics ih =>
      obtain ⟨c, hc, hvalid, hshown⟩ := made_callout .warning "Diagnostic" diagnostic indent
      obtain ⟨cs, hcs, hkept⟩ := ih
      refine ⟨c :: cs, ?_, (Kept.single hvalid hshown).append hkept⟩
      unfold diagnosticCallouts at hcs ⊢
      rw [mapM_cons, hc, hcs]
      rfl

theorem exists_badgeRow (rich : RichText) (variant : SemanticColor) (label : String) :
    ∃ c, row [text rich, badge variant label] = .ok c ∧ c.Valid :=
  exists_row (forall_mem_cons.mpr ⟨valid_text rich,
    forall_mem_singleton.mpr (valid_badge variant label)⟩)

theorem exists_titleRow (title : RichText) (status : Status) :
    ∃ c, titleRow title status = .ok c ∧ c.Valid :=
  exists_badgeRow title _ _

/-- What is made of a value that may be absent. -/
theorem exists_whenSome {α : Type} {f : α → Except ValidationError Component} {o : Option α}
    (h : ∀ a ∈ o, ∃ c, f a = .ok c ∧ c.Valid) :
    ∃ cs, whenSome f o = .ok cs ∧ ∀ c ∈ cs, c.Valid := by
  cases o with
  | none => exact ⟨[], rfl, fun c hc => absurd hc not_mem_nil⟩
  | some a =>
      obtain ⟨c, hc, hvalid⟩ := h a rfl
      exact ⟨[c], by rw [whenSome, hc]; rfl, forall_mem_singleton.mpr hvalid⟩

theorem exists_callout (variant : SemanticColor) (title body : String) :
    ∃ c, callout variant title body = .ok c ∧ c.Valid := by
  obtain ⟨c, hc, hvalid, _⟩ := made_callout variant title body 0
  exact ⟨c, hc, hvalid⟩

theorem valid_of_mem_map {α : Type} {f : α → Component} (h : ∀ a, (f a).Valid) (o : Option α) :
    ∀ c ∈ (o.map f).toList, c.Valid := by
  intro c hc
  obtain ⟨a, _, rfl⟩ := Option.map_eq_some_iff.mp (Option.mem_toList.mp hc)
  exact h a

theorem valid_usages (tokens : Option (UInt64 × UInt64)) : ∀ c ∈ usages tokens, c.Valid :=
  valid_of_mem_map (fun _ => valid_usage _ _) tokens

end Component

/-! ## Elements -/

open Component

/-- A message shows its text, and its diagnostics one level deeper. -/
theorem MessageComponent.made [Uppercase] (c : MessageComponent) :
    Made c.toComponent (shownAt 0 c.content :: c.diagnostics.map (shownAt 1)) 0 := by
  have hheader : ∃ cs, c.header = .ok cs ∧ ∀ h ∈ cs, h.Valid := by
    unfold MessageComponent.header
    split
    · split
      · next status _ =>
        obtain ⟨row, hrow, hvalid⟩ := exists_titleRow c.title status
        exact ⟨[row], by rw [hrow]; rfl, forall_mem_singleton.mpr hvalid⟩
      · exact ⟨_, rfl, forall_mem_singleton.mpr (valid_text _)⟩
    · exact ⟨_, rfl, valid_of_mem_map (fun _ => valid_badge _ _) _⟩
  have hcontent : Kept [shownAt 0 c.content]
      (if !c.content.isEmpty || c.thinking.isNone then [plainText c.content] else []) 0 := by
    split
    · exact .single (valid_text _) (shows_text .new c.content 0)
    · next hempty =>
      -- a text that is left out is empty
      have hnothing : c.content = "" := by
        by_contra hne
        exact hempty (by simp [hne])
      rw [hnothing]
      exact ⟨fun h hh => absurd hh not_mem_nil, .cons [] [] (.nil [])⟩
  unfold MessageComponent.toComponent
  refine .bind hheader fun header hvalid => ?_
  refine .bind (exists_whenSome fun _ _ => exists_callout _ _ _) fun thinking hvalid' => ?_
  refine .bind (exists_diagnostics c.diagnostics 0) fun callouts hkept => ?_
  have hall := (((Kept.gaps 0 hvalid).append (.gaps 0 hvalid')).append hcontent).append hkept
  exact (hall.before (valid_usages c.tokens)).col

/-- A read shows its result one level deeper. -/
theorem ReadComponent.made (c : ReadComponent) (hhead : c.headPreview = none)
    (hdiagnostics : c.diagnostics = []) :
    Made c.toComponent (c.blob.map (shownAt 1)).toList 0 := by
  unfold ReadComponent.toComponent
  rw [hhead, hdiagnostics]
  refine .bind (exists_titleRow _ _) fun row hvalid => ?_
  change Made (titledBox "Read Tool"
    (row :: [] ++ (c.blob.map pre).toList ++ [] ++ usages c.usage)) _ 0
  rw [append_nil]
  exact (((kept_pre c.blob 1).cons hvalid).before (valid_usages c.usage)).titledBox "Read Tool"

/-- A command shows its output one level deeper. -/
theorem BashComponent.made (c : BashComponent) :
    Made c.toComponent (c.stdout.map (shownAt 1)).toList 0 := by
  have hstdout : Kept (c.stdout.map (shownAt 1)).toList
      ((c.stdout.filter (!·.isEmpty)).map pre).toList 1 := by
    cases hout : c.stdout with
    | none => exact .gaps 1 fun h hh => absurd hh not_mem_nil
    | some out =>
      by_cases hempty : out.isEmpty
      · rw [String.isEmpty_iff.mp hempty]
        exact ⟨fun h hh => absurd hh not_mem_nil, .cons [] [] (.nil [])⟩
      · rw [Option.filter_some, if_pos (by simpa using hempty)]
        exact kept_pre (some out) 1
  have hcode : ∀ h ∈ (c.exitCode.map fun code =>
      plainText ("exit code: " ++ toString code.toInt)).toList, h.Valid :=
    valid_of_mem_map (fun _ => valid_text _) _
  unfold BashComponent.toComponent
  refine .bind (exists_titleRow _ _) fun row hvalid => ?_
  refine .bind (exists_whenSome fun _ _ => exists_callout _ _ _) fun stderr hvalid₁ => ?_
  refine .bind (exists_whenSome fun _ _ => exists_callout _ _ _) fun notice hvalid₂ => ?_
  have hall := (((Kept.gaps 1 hcode).append hstdout).before hvalid₁).before hvalid₂
  exact (hall.cons hvalid).titledBox "Bash Execution"

/-- An edit shows its hunks one level deeper. -/
theorem EditComponent.made (c : EditComponent) :
    Made c.toComponent (c.hunks.map (shownAt 1)) 0 := by
  have hhunks : Kept (c.hunks.map (shownAt 1)) (c.hunks.map pre) 1 := by
    refine ⟨forall_mem_map.mpr fun hunk _ => valid_pre hunk, ?_⟩
    rw [map_eq_flatMap, flatMap_map]
    exact .flatMap fun hunk _ => shows_pre hunk 1
  unfold EditComponent.toComponent
  refine .bind (exists_titleRow _ _) fun row hvalid => ?_
  exact (hhunks.cons hvalid).titledBox "File Edit"

/-- A report is made. -/
theorem AutoQAComponent.made [Text.Unicode] (c : AutoQAComponent) : Made c.toComponent [] 0 := by
  unfold AutoQAComponent.toComponent
  refine .bind (exists_badgeRow _ _ _) fun row hvalid => ?_
  refine .bind (exists_callout _ _ _) fun expected hvalid₁ => ?_
  refine .bind (exists_callout _ _ _) fun observed hvalid₂ => ?_
  have hrest := Kept.gaps 1 (valid_of_mem_map valid_pre c.reproduction)
  exact (((hrest.cons hvalid₂).cons hvalid₁).cons hvalid).titledBox "Quality Assurance"

/-- The component of an element with a payload is made. -/
theorem semanticOf_made [SerdeJson] {e : ElementSnapshot} {c : Except ValidationError Component}
    (h : semanticOf e = some c) : Made c [] 0 := by
  unfold semanticOf at h
  dsimp only at h
  split_ifs at h
  · cases h
    refine .bind (exists_titleRow _ _) fun row hvalid => ?_
    refine .bind (exists_callout _ _ _) fun task htask => ?_
    exact (((Kept.gaps 1 (valid_of_mem_map valid_pre _)).cons htask).cons hvalid).titledBox _
  · cases h
    refine .bind (exists_titleRow _ _) fun row hvalid => ?_
    refine .bind (exists_whenSome ?_) fun options hoptions => ?_
    · intro badges hbadges
      cases hbadges
      exact exists_row (forall_mem_map.mpr fun label _ => valid_badge .primary label)
    · exact (((Kept.gaps 1 hoptions).cons (valid_text _)).cons hvalid).titledBox _
  · cases h
    refine .bind (exists_titleRow _ _) fun row hvalid => ?_
    exact ((Kept.gaps 0 (valid_of_mem_map (fun _ => valid_text _) _)).cons hvalid).col
  · cases h
    refine .bind (exists_badgeRow _ _ _) fun row hvalid => ?_
    exact (((Kept.gaps 0 (valid_of_mem_map (fun _ => valid_text _) _)).cons (valid_text _)).cons
      hvalid).col
  · cases h
    refine .bind (exists_badgeRow _ _ _) fun row hvalid => ?_
    exact ((Kept.gaps 0 (forall_mem_singleton.mpr (valid_pre _))).cons hvalid).col

/-- The blocks in which the result of a tool is shown. -/
def resultBlocks (name text : String) : List (List Char) :=
  if name = "AutoQA" then []
  else if name ∈ ["Read", "Bash", "Edit"] then [shownAt 1 text]
  else [shownAt 0 text]

section Elements

variable [SerdeJson] [Text.Unicode]

/-- The component of a tool shows the result of the call. -/
theorem primaryOf_made (s : SessionSnapshot) (id : ElementId) (e : ElementSnapshot)
    (name : String) : Made (primaryOf s id e name)
      (((resultOf s id).map (·.text)).toList.flatMap (resultBlocks name)) 0 := by
  have hblocks {f : String → List Char} (o : Option String)
      (h : resultBlocks name = fun text => [f text]) : o.toList.flatMap (resultBlocks name) =
        (o.map f).toList := by
    cases o with
    | none => rfl
    | some text => simp [h]
  unfold primaryOf
  dsimp only
  split_ifs with hread hbash hedit hqa
  · subst hread
    rw [hblocks _ rfl]
    exact ReadComponent.made _ rfl rfl
  · subst hbash
    rw [hblocks _ rfl]
    exact BashComponent.made _
  · subst hedit
    rw [hblocks _ rfl]
    generalize (resultOf s id).map (·.text) = output
    cases output with
    | none => exact EditComponent.made _
    | some text => exact EditComponent.made _
  · subst hqa
    rw [show ∀ o : Option String, o.toList.flatMap (resultBlocks "AutoQA") = [] from
      fun o => flatMap_eq_nil_iff.mpr fun _ _ => rfl]
    exact AutoQAComponent.made _
  · have hother : resultBlocks name = fun text => [shownAt 0 text] := by
      funext text
      simp [resultBlocks, hread, hbash, hedit, hqa]
    rw [hblocks _ hother]
    refine .bind (exists_badgeRow _ _ _) fun row hvalid => ?_
    exact ((kept_pre _ 0).cons hvalid).col

/-- A call shows its result and its diagnostics. -/
theorem callOf_made (s : SessionSnapshot) (id : ElementId) (e : ElementSnapshot) (name : String) :
    Made (callOf s id e name) (((resultOf s id).map (·.text)).toList.flatMap (resultBlocks name) ++
      (diagnosticsOf s id).map (shownAt 1)) 0 := by
  have himages : ∀ c ∈ imagesOf s id, c.Valid := valid_of_mem_map (fun _ => valid_image _ _ _ _) _
  have hextras : ∀ c ∈ extrasOf s id, c.Valid := by
    intro c hc
    obtain ⟨child, _, hchild⟩ := mem_filterMap.mp hc
    split_ifs at hchild
    · cases hchild
      exact valid_text _
    · obtain ⟨_, _, rfl⟩ := Option.map_eq_some_iff.mp hchild
      exact valid_usage _ _
  unfold callOf
  refine .bind (primaryOf_made s id e name) fun primary hprimary => ?_
  refine .bind (exists_diagnostics (diagnosticsOf s id) 0) fun callouts hcallouts => ?_
  have hshown := ((Kept.single hprimary.1 hprimary.2).before himages).append hcallouts
  exact (hshown.before hextras).col

/-! ## Sessions -/

/-- The element can be rendered: a call has the name of its tool. -/
def Renders (e : ElementSnapshot) : Prop :=
  e.kind = "tool_call" → (textAttr e "tool").isSome = true

/-- The blocks that show an element: the text of a message, or the result of a call, and the
diagnostics. -/
def blocksOf (s : SessionSnapshot) (e : ElementSnapshot) : List (List Char) :=
  if e.kind ∈ messageKinds then shownAt 0 e.text :: (diagnosticsOf s e.id).map (shownAt 1)
  else if e.kind = "tool_call" then
    ((resultOf s e.id).map (·.text)).toList.flatMap (resultBlocks ((textAttr e "tool").getD "")) ++
      (diagnosticsOf s e.id).map (shownAt 1)
  else []

variable [Uppercase] {s : SessionSnapshot} {e : ElementSnapshot}

/-- An element of the body is rendered exactly when it can be, and then it is shown. -/
theorem renderSessionElement_spec (hwf : s.WellFormed) (he : e ∈ s.getVisibleBody) :
    (Renders e ∧ ∃ c, SemanticRegistry.new.renderSessionElement s e.id = .ok c ∧ c.Valid ∧
        InOrder (blocksOf s e) (c.printed 0)) ∨
      ¬ Renders e ∧ ∃ error, SemanticRegistry.new.renderSessionElement s e.id = .error error := by
  have helement : s.element e.id = some e := by
    obtain ⟨n, hn, rfl, _⟩ := (State.SessionSnapshot.mem_children_iff hwf).mp he
    unfold SessionSnapshot.element
    rw [hn]
    rfl
  have hmade {result : Except ValidationError Component} (hrenders : Renders e)
      (h : Made result (blocksOf s e) 0) :
      Renders e ∧ ∃ c, shown result = .ok c ∧ c.Valid ∧ InOrder (blocksOf s e) (c.printed 0) := by
    obtain ⟨c, rfl, hc⟩ := h
    exact ⟨hrenders, c, rfl, hc⟩
  unfold SemanticRegistry.renderSessionElement
  simp only [helement]
  unfold blocksOf at hmade ⊢
  by_cases hmessage : e.kind ∈ messageKinds
  · have hkind : Renders e := fun hcall => absurd (hcall ▸ hmessage) (by decide)
    rw [if_pos hmessage] at hmade
    rw [if_pos hmessage, if_pos hmessage]
    exact .inl (hmade hkind (MessageComponent.made _))
  · rw [if_neg hmessage] at hmade
    rw [if_neg hmessage, if_neg hmessage]
    by_cases hcall : e.kind = "tool_call"
    · have hnone : semanticOf e = none := by
        simp [semanticOf, hcall]
      rw [if_pos hcall] at hmade
      rw [if_pos hcall, hnone]
      dsimp only
      rw [if_neg (not_not.mpr hcall)]
      cases hname : textAttr e "tool" with
      | none => exact .inr ⟨fun h => absurd (h hcall) (by rw [hname]; decide), _, rfl⟩
      | some name =>
        rw [hname] at hmade
        exact .inl (hmade (fun _ => by rw [hname]; rfl) (callOf_made s e.id e name))
    · have hkind : Renders e := fun h => absurd h hcall
      rw [if_neg hcall] at hmade
      rw [if_neg hcall]
      cases hsemantic : semanticOf e with
      | some result => exact .inl (hmade hkind (semanticOf_made hsemantic))
      | none =>
        -- no renderer is registered for a further kind
        have hne {kind : String} (h : e.kind ≠ kind) : (e.kind == kind) = false :=
          beq_eq_false_iff_ne.mpr h
        have hlookup : (SemanticRegistry.new : SemanticRegistry).renderers.lookup e.kind =
            none := by
          simp only [messageKinds, List.mem_cons, not_or] at hmessage
          simp only [SemanticRegistry.new, List.lookup_cons, List.lookup_nil, hne hcall, hne hmessage.2.1,
            hne hmessage.2.2.2.2.1]
        dsimp only
        rw [if_pos hcall, SemanticRegistry.renderComponent, hlookup]
        exact .inl ⟨hkind, _, rfl, valid_text _, .nil _⟩

omit [SerdeJson] [Text.Unicode] [Uppercase] in
/-- A list is gone through to its end exactly when each of its members succeeds. -/
theorem mapM_cases {α β ε : Type} {f : α → Except ε β} {P : α → Prop} {Q : α → β → Prop}
    {xs : List α} (h : ∀ x ∈ xs, (P x ∧ ∃ y, f x = .ok y ∧ Q x y) ∨
      ¬ P x ∧ ∃ error, f x = .error error) :
    ((∀ x ∈ xs, P x) ∧ ∃ ys, xs.mapM f = .ok ys ∧ List.Forall₂ Q xs ys) ∨
      (¬ ∀ x ∈ xs, P x) ∧ ∃ error, xs.mapM f = .error error := by
  induction xs with
  | nil => exact .inl ⟨fun x hx => absurd hx not_mem_nil, [], rfl, .nil⟩
  | cons x xs ih =>
      obtain ⟨hx, hxs⟩ := forall_mem_cons.mp h
      rw [mapM_cons, forall_mem_cons]
      rcases hx with ⟨hP, y, hy, hQ⟩ | ⟨hP, error, hy⟩
      · rcases ih hxs with ⟨hPs, ys, hys, hQs⟩ | ⟨hPs, error, hys⟩
        · exact .inl ⟨⟨hP, hPs⟩, y :: ys, by rw [hy, hys]; rfl, .cons hQ hQs⟩
        · exact .inr ⟨fun h => hPs h.2, error, by rw [hy, hys]; rfl⟩
      · exact .inr ⟨fun h => hP h.1, error, by rw [hy]; rfl⟩

/-- What the rendering of a session does. -/
structure SessionShown (s : SessionSnapshot) : Prop where
  succeeds : (∃ c, SemanticRegistry.new.renderSession s = .ok c) ↔ ∀ e ∈ s.getVisibleBody, Renders e
  shows : ∀ c, SemanticRegistry.new.renderSession s = .ok c →
    InOrder (s.getVisibleBody.flatMap (blocksOf s)) (stringOutput (c.calls 0)).toList

omit [SerdeJson] [Text.Unicode] [Uppercase] in
theorem Kept.of_forall₂ {f : ElementSnapshot → List (List Char)} {es : List ElementSnapshot}
    {cs : List Component} {indent : Nat} (h : List.Forall₂ (fun e c => c.Valid ∧
      InOrder (f e) (c.printed indent)) es cs) : Kept (es.flatMap f) cs indent := by
  induction h with
  | nil => exact .gaps indent fun c hc => absurd hc not_mem_nil
  | cons h _ ih => exact (Kept.single h.1 h.2).append ih

/-- A session is rendered exactly when its elements can be, and then all of them are shown. -/
theorem sessionShown (hwf : s.WellFormed) : SessionShown s := by
  rcases mapM_cases fun e he => renderSessionElement_spec hwf he with
    ⟨hrenders, cs, hcs, hall⟩ | ⟨hrenders, error, hcs⟩
  · obtain ⟨c, hc, _, hshown⟩ := (Kept.of_forall₂ hall).col
    have hrender : SemanticRegistry.new.renderSession s = .ok c := by
      unfold SemanticRegistry.renderSession
      rw [hcs]
      exact congrArg Render.shown hc
    refine ⟨iff_of_true ⟨c, hrender⟩ hrenders, fun found hfound => ?_⟩
    rw [hrender] at hfound
    cases hfound
    rwa [toList_stringOutput]
  · have hrender : SemanticRegistry.new.renderSession s = .error error := by
      unfold SemanticRegistry.renderSession
      rw [hcs]
      rfl
    have hnone : ¬ ∃ c, SemanticRegistry.new.renderSession s = .ok c := by
      rintro ⟨c, hc⟩
      rw [hrender] at hc
      cases hc
    exact ⟨iff_of_false hnone hrenders, fun c hc => absurd ⟨c, hc⟩ hnone⟩

end Elements

end Omp2.Render
