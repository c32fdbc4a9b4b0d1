import Omp2.Render.Safety

/-!
# What a rendering shows

The texts of a tree in the order of the document, and what of them a rendering writes. A rendering
never writes a text twice or out of order, and it writes all of them exactly when no text stands
where the renderer of its node does not look and sanitizing leaves each text as it is. Then the
sinks agree as well.
-/

namespace Omp2.Render

open List

/-! ## Lists -/

/-- Parts that lie in others are those others when the whole is the same. -/
theorem append_eq_of_sublists {α : Type} {first first' second second' : List α}
    (h : first.Sublist first') (h' : second.Sublist second') :
    first ++ second = first' ++ second' ↔ first = first' ∧ second = second' := by
  refine ⟨fun heq => ?_, fun heq => heq.1 ▸ heq.2 ▸ rfl⟩
  have hlength := congrArg length heq
  rw [length_append, length_append] at hlength
  have hfirst := h.length_le
  have hsecond := h'.length_le
  exact ⟨h.eq_of_length (by omega), h'.eq_of_length (by omega)⟩

theorem flatMap_eq_of_sublists {α β : Type} {f g : α → List β} {l : List α}
    (h : ∀ a ∈ l, (f a).Sublist (g a)) : l.flatMap f = l.flatMap g ↔ ∀ a ∈ l, f a = g a := by
  induction l with
  | nil => simp
  | cons a l ih =>
      obtain ⟨ha, hl⟩ := forall_mem_cons.mp h
      rw [flatMap_cons, flatMap_cons, forall_mem_cons,
        append_eq_of_sublists ha (.flatMap_right l hl), ih hl]

/-- Joined images that lie in others lie in what the others are joined to. -/
theorem intercalate_sublist {α : Type} {f : List α → List α} (hf : ∀ l, (f l).Sublist l)
    (separator : List α) (parts : List (List α)) :
    (separator.intercalate (parts.map f)).Sublist (separator.intercalate parts) := by
  induction parts with
  | nil => exact .slnil
  | cons part parts ih =>
      cases parts with
      | nil =>
        rw [map_singleton, intercalate_singleton, intercalate_singleton]
        exact hf part
      | cons next parts =>
        rw [map_cons, map_cons, intercalate_cons_cons,
          intercalate_cons_cons, ← map_cons]
        exact ((hf part).append_right separator).append ih

/-- Joined images are the whole exactly when each image is its part. -/
theorem intercalate_map_eq {α : Type} {f : List α → List α} (hf : ∀ l, (f l).Sublist l)
    (separator : List α) (parts : List (List α)) :
    separator.intercalate (parts.map f) = separator.intercalate parts ↔
      ∀ part ∈ parts, f part = part := by
  induction parts with
  | nil => simp
  | cons part parts ih =>
      cases parts with
      | nil =>
        rw [map_singleton, intercalate_singleton, intercalate_singleton,
          forall_mem_singleton]
      | cons next parts =>
        rw [map_cons, map_cons, intercalate_cons_cons,
          intercalate_cons_cons, ← map_cons, forall_mem_cons, ← ih,
          append_eq_of_sublists ((hf part).append_right separator)
            (intercalate_sublist hf separator _), append_left_inj]

/-- The members of a part are among those of what the parts are joined to. -/
theorem mem_intercalate {α : Type} {a : α} {separator part : List α} {parts : List (List α)}
    (hpart : part ∈ parts) (h : a ∈ part) : a ∈ separator.intercalate parts := by
  induction parts with
  | nil => cases hpart
  | cons first parts ih =>
      cases parts with
      | nil =>
        rw [mem_singleton.mp hpart] at h
        rwa [intercalate_singleton]
      | cons next parts =>
        rw [intercalate_cons_cons, mem_append]
        rcases mem_cons.mp hpart with rfl | hpart
        · exact .inl (mem_append_left _ h)
        · exact .inr (ih hpart)

/-- What joined parts are made of. -/
theorem mem_intercalate_singleton {α : Type} {a separator : α} {parts : List (List α)}
    (h : a ∈ [separator].intercalate parts) : a = separator ∨ ∃ part ∈ parts, a ∈ part := by
  induction parts with
  | nil => cases h
  | cons part parts ih =>
      cases parts with
      | nil =>
        rw [intercalate_singleton] at h
        exact .inr ⟨part, mem_cons_self, h⟩
      | cons next parts =>
        rw [intercalate_cons_cons, mem_append, mem_append,
          mem_singleton] at h
        rcases h with (h | h) | h
        · exact .inr ⟨part, mem_cons_self, h⟩
        · exact .inl h
        · rcases ih h with h | ⟨found, hfound, h⟩
          · exact .inl h
          · exact .inr ⟨found, mem_cons_of_mem _ hfound, h⟩

/-! ## Sanitizing leaves characters out -/

/-- What sanitizing keeps are some of the characters in their order. -/
theorem sanitizeChars_sublist (state : EscapeState) (cs : List Char) :
    (sanitizeChars state cs).Sublist cs := by
  induction cs generalizing state with
  | nil => exact .slnil
  | cons c cs ih =>
      unfold sanitizeChars
      split
      · next next kept hscan =>
        have hkept : kept = c := by
          cases state <;> simp only [EscapeState.scan, EscapeState.scanText] at hscan <;>
            split_ifs at hscan <;> simp_all
        rw [hkept]
        exact (ih next).cons_cons c
      · exact (ih _).cons c

theorem sanitizeText_eq_iff (text : String) :
    (sanitizeText text).toList = text.toList ↔ AllowedText text := by
  refine ⟨fun h c hc => ?_, fun h => congrArg String.toList (sanitizeText_of_allowed h)⟩
  exact allowed_sanitizeText text c (h.symm ▸ hc)

theorem sanitizeText_sublist (text : String) : (sanitizeText text).toList.Sublist text.toList := by
  rw [sanitizeText, String.toList_ofList]
  exact sanitizeChars_sublist .text text.toList

namespace Component

/-! ## Texts -/

/-- The characters of some runs. -/
def runChars (runs : List Run) : List Char :=
  runs.flatMap fun run => run.text.toList

/-- The characters of a text that may be absent. -/
def textChars (text : Option RichText) : List Char :=
  runChars (textRuns text)

mutual
/-- The texts of a tree in the order of the document, each before those of the children. -/
def texts : Component → List Char
  | .node _ _ children text => textChars text ++ textsAll children

/-- The texts of some trees. -/
def textsAll : List Component → List Char
  | [] => []
  | child :: children => child.texts ++ textsAll children
end

/-- The characters of texts of nodes that a call writes. -/
def content : Write → List Char
  | .rich text => runChars text.runs
  | .own _ part => (sanitizeText part).toList
  | .ownBreak => ['\n']
  | _ => []

/-- All runs have allowed texts. -/
def AllowedRuns (runs : List Run) : Prop :=
  ∀ r ∈ runs, AllowedText r.text

mutual
/-- Each text that is not empty stands where the renderer looks, and is allowed. -/
def Complete : Component → Prop
  | .node kind _ children text =>
    match kind with
    | .row => textChars text = [] ∧ CompleteRow children
    | .text =>
      if text.isSome then AllowedRuns (textRuns text) ∧ textsAll children = []
      else AllowedRuns (inlineRunsAll children)
    | .pre | .badge | .link | .icon | .usage =>
      AllowedRuns (textRuns text) ∧ textsAll children = []
    | .hr | .image => textChars text = [] ∧ textsAll children = []
    | _ => textChars text = [] ∧ CompleteAll children

/-- `Complete` for each of some trees. -/
def CompleteAll : List Component → Prop
  | [] => True
  | child :: children => child.Complete ∧ CompleteAll children

/-- `Complete` for each child of a row; those inside of the line are looked at as a whole. -/
def CompleteRow : List Component → Prop
  | [] => True
  | child :: children =>
    (if child.kind.isInline then AllowedRuns child.inlineRuns else child.Complete) ∧
      CompleteRow children
end

/-- Some calls write all characters of some texts, and nothing that sanitizing would remove. -/
def Shows (writes : List Write) (chars : List Char) : Prop :=
  writes.flatMap content = chars ∧ AllowedRuns (writes.flatMap richRuns)

/-- Calls that write no text of a node. -/
def Added (writes : List Write) : Prop :=
  writes.flatMap content = [] ∧ writes.flatMap richRuns = []

theorem Added.before {writes more : List Write} {chars : List Char} (h : Added writes) :
    Shows (writes ++ more) chars ↔ Shows more chars := by
  unfold Shows
  rw [flatMap_append, flatMap_append, h.1, h.2, nil_append, nil_append]

theorem Added.after {writes more : List Write} {chars : List Char} (h : Added more) :
    Shows (writes ++ more) chars ↔ Shows writes chars := by
  unfold Shows
  rw [flatMap_append, flatMap_append, h.1, h.2, append_nil, append_nil]

theorem Added.shows {writes : List Write} {chars : List Char} (h : Added writes) :
    Shows writes chars ↔ chars = [] := by
  unfold Shows
  rw [h.1, h.2]
  exact ⟨fun h => h.1.symm, fun h => ⟨h.symm, fun r hr => absurd hr not_mem_nil⟩⟩

theorem allowedRuns_append (runs more : List Run) :
    AllowedRuns (runs ++ more) ↔ AllowedRuns runs ∧ AllowedRuns more :=
  forall_mem_append

/-- Two lists of calls show two texts when each shows its own. -/
theorem shows_append {writes more : List Write} {chars others : List Char}
    (h : (writes.flatMap content).Sublist chars) (h' : (more.flatMap content).Sublist others) :
    Shows (writes ++ more) (chars ++ others) ↔ Shows writes chars ∧ Shows more others := by
  unfold Shows
  rw [flatMap_append, flatMap_append, append_eq_of_sublists h h', allowedRuns_append]
  exact ⟨fun h => ⟨⟨h.1.1, h.2.1⟩, h.1.2, h.2.2⟩, fun h => ⟨⟨h.1.1, h.2.1⟩, h.1.2, h.2.2⟩⟩

theorem shows_writeText (text : Option RichText) :
    Shows (writeText text) (textChars text) ↔ AllowedRuns (textRuns text) := by
  unfold Shows
  rw [richRuns_writeText]
  cases text with
  | none => exact and_iff_right rfl
  | some text => exact and_iff_right (append_nil _)

theorem content_writeText (text : Option RichText) :
    (writeText text).flatMap content = textChars text := by
  cases text with
  | none => rfl
  | some text => exact append_nil _

/-! ## Texts in lines -/

/-- The parts of a run are written with their newlines. -/
theorem content_writeParts (style : Style) {atStart : List Write}
    (hstart : atStart.flatMap content = []) (lines : List (List Char)) :
    (writeParts style atStart (lines.map String.ofList)).flatMap content =
      ['\n'].intercalate (lines.map (sanitizeChars .text)) := by
  have hpart (line : List Char) :
      content (.own style (String.ofList line)) = sanitizeChars .text line := by
    change (sanitizeText (String.ofList line)).toList = _
    rw [sanitizeText, String.toList_ofList, String.toList_ofList]
  induction lines with
  | nil => rfl
  | cons line lines ih =>
      cases lines with
      | nil =>
        rw [map_singleton, map_singleton, intercalate_singleton, writeParts,
          flatMap_singleton, hpart]
      | cons next lines =>
        rw [map_cons, map_cons] at ih ⊢
        rw [map_cons, map_cons, intercalate_cons_cons, writeParts,
          flatMap_append, ih, flatMap_cons, flatMap_cons, hstart, hpart,
          append_nil]
        · rfl
        · exact cons_ne_nil _ _

theorem run_lines (run : Run) :
    run.text.toList = ['\n'].intercalate (run.text.toList.splitOn '\n') :=
  (intercalate_splitOn '\n').symm

theorem content_run_sublist (run : Run) {atStart : List Write}
    (hstart : atStart.flatMap content = []) :
    ((writeParts run.style atStart (partsOf run)).flatMap content).Sublist run.text.toList := by
  unfold partsOf
  rw [content_writeParts run.style hstart, run_lines run]
  conv => lhs; rw [← run_lines run]
  exact intercalate_sublist (sanitizeChars_sublist .text) _ _

/-- A run is written in lines as it is exactly when it is allowed. -/
theorem content_run_eq (run : Run) {atStart : List Write}
    (hstart : atStart.flatMap content = []) :
    (writeParts run.style atStart (partsOf run)).flatMap content = run.text.toList ↔
      AllowedText run.text := by
  unfold partsOf
  rw [content_writeParts run.style hstart]
  conv => lhs; rhs; rw [run_lines run]
  rw [intercalate_map_eq (sanitizeChars_sublist .text)]
  constructor
  · intro h c hc
    rw [run_lines run] at hc
    rcases mem_intercalate_singleton hc with rfl | ⟨line, hline, hc⟩
    · exact .inl rfl
    · rw [← h line hline] at hc
      exact (clean_iff_allowed c).mp (clean_of_mem_sanitizeChars hc)
  · intro h line hline
    refine sanitizeChars_of_clean fun c hc => (clean_iff_allowed c).mpr (h c ?_)
    rw [run_lines run]
    exact mem_intercalate hline hc

theorem content_writeRuns_sublist {atStart : List Write}
    (hstart : atStart.flatMap content = []) (runs : List Run) :
    ((writeRuns atStart runs).flatMap content).Sublist (runChars runs) := by
  unfold writeRuns runChars
  rw [flatMap_assoc]
  exact .flatMap_right runs fun run _ => content_run_sublist run hstart

/-- A text that is written in lines shows itself exactly when it is allowed. -/
theorem shows_writeRuns {atStart : List Write} (hstart : Added atStart) (runs : List Run) :
    Shows (writeRuns atStart runs) (runChars runs) ↔ AllowedRuns runs := by
  unfold Shows
  rw [richRuns_writeRuns hstart.2]
  unfold writeRuns runChars
  rw [flatMap_assoc,
    flatMap_eq_of_sublists fun run _ => content_run_sublist run hstart.1]
  constructor
  · exact fun h r hr => (content_run_eq r hstart.1).mp (h.1 r hr)
  · exact fun h => ⟨fun r hr => (content_run_eq r hstart.1).mpr (h r hr),
      fun r hr => absurd hr not_mem_nil⟩

/-! ## Renderings -/

theorem added_writePad (indent : Nat) : Added (writePad indent) := by
  unfold writePad
  split
  · exact ⟨rfl, rfl⟩
  · exact ⟨rfl, rfl⟩

mutual
theorem content_renderInline : ∀ c : Component, c.renderInline.flatMap content = c.texts
  | .node _ _ children text => by
    rw [renderInline, flatMap_append, content_writeText, content_renderInlineAll children,
      texts]

theorem content_renderInlineAll : ∀ children : List Component,
    (renderInlineAll children).flatMap content = textsAll children
  | [] => rfl
  | child :: children => by
    rw [renderInlineAll, flatMap_append, content_renderInline child,
      content_renderInlineAll children, textsAll]
end

theorem shows_renderInline (c : Component) :
    Shows c.renderInline c.texts ↔ AllowedRuns c.inlineRuns := by
  unfold Shows
  rw [content_renderInline, richRuns_renderInline]
  exact and_iff_right rfl

theorem shows_renderInlineAll (children : List Component) :
    Shows (renderInlineAll children) (textsAll children) ↔
      AllowedRuns (inlineRunsAll children) := by
  unfold Shows
  rw [content_renderInlineAll, richRuns_renderInlineAll]
  exact and_iff_right rfl

/-- Nothing is written twice or out of order, and everything exactly under a condition. -/
structure Faithful (writes : List Write) (chars : List Char) (complete : Prop) : Prop where
  sublist : (writes.flatMap content).Sublist chars
  shows : Shows writes chars ↔ complete

theorem Faithful.append {writes more : List Write} {chars others : List Char} {p q : Prop}
    (h : Faithful writes chars p) (h' : Faithful more others q) :
    Faithful (writes ++ more) (chars ++ others) (p ∧ q) := by
  constructor
  · rw [flatMap_append]
    exact h.sublist.append h'.sublist
  · rw [shows_append h.sublist h'.sublist, h.shows, h'.shows]

theorem Faithful.before {writes more : List Write} {chars : List Char} {p : Prop}
    (h : Faithful more chars p) (hadded : Added writes) : Faithful (writes ++ more) chars p := by
  constructor
  · rw [flatMap_append, hadded.1]
    exact h.sublist
  · rw [hadded.before, h.shows]

theorem Faithful.after {writes m : List Write} {chars : List Char} {p : Prop}
    (h : Faithful writes chars p) (hadded : Added m) : Faithful (writes ++ m) chars p := by
  constructor
  · rw [flatMap_append, hadded.1, append_nil]
    exact h.sublist
  · rw [hadded.after, h.shows]

theorem Faithful.cons {call : Write} {more : List Write} {chars : List Char} {p : Prop}
    (h : Faithful more chars p) (hadded : Added [call]) : Faithful (call :: more) chars p :=
  h.before hadded

theorem faithful_added {writes : List Write} (h : Added writes) (chars : List Char) :
    Faithful writes chars (chars = []) :=
  ⟨h.1 ▸ nil_sublist chars, h.shows⟩

theorem added_nil : Added [] :=
  ⟨rfl, rfl⟩

theorem Faithful.unseen {writes : List Write} {chars : List Char} {p : Prop}
    (h : Faithful writes chars p) (text : List Char) :
    Faithful writes (text ++ chars) (text = [] ∧ p) :=
  (faithful_added added_nil text).append h

theorem Faithful.beside {writes : List Write} {chars : List Char} {p : Prop}
    (h : Faithful writes chars p) (others : List Char) :
    Faithful writes (chars ++ others) (p ∧ others = []) := by
  have happend := h.append (faithful_added added_nil others)
  rw [append_nil] at happend
  exact happend

theorem faithful_writeText (text : Option RichText) :
    Faithful (writeText text) (textChars text) (AllowedRuns (textRuns text)) :=
  ⟨content_writeText text ▸ .refl _, shows_writeText text⟩

theorem faithful_writeRuns {atStart : List Write} (hstart : Added atStart) (runs : List Run) :
    Faithful (writeRuns atStart runs) (runChars runs) (AllowedRuns runs) :=
  ⟨content_writeRuns_sublist hstart.1 runs, shows_writeRuns hstart runs⟩

theorem faithful_renderInline (c : Component) :
    Faithful c.renderInline c.texts (AllowedRuns c.inlineRuns) :=
  ⟨content_renderInline c ▸ .refl _, shows_renderInline c⟩

mutual
/-- A rendering writes each text at most once and in order. -/
theorem faithful_renderToSink : ∀ (c : Component) (indent : Nat),
    Faithful (c.renderToSink indent) c.texts c.Complete
  | .node kind props children text, indent => by
    have hall := fun indent => faithful_renderAll children indent
    unfold renderToSink texts Complete
    cases kind with
    | box =>
      dsimp only
      refine .unseen ?_ _
      split
      · exact (((hall (indent + 1)).after ⟨rfl, rfl⟩).cons ⟨rfl, rfl⟩).cons ⟨rfl, rfl⟩
      · exact hall indent
    | row =>
      exact .unseen (((faithful_renderRow children indent).after ⟨rfl, rfl⟩).cons
        ⟨rfl, rfl⟩) _
    | text =>
      cases text with
      | some text =>
        exact (((faithful_writeRuns (added_writePad indent) text.runs).before
          (added_writePad indent)).after ⟨rfl, rfl⟩).beside _
      | none =>
        exact (Faithful.before ⟨content_renderInlineAll children ▸ .refl _,
          shows_renderInlineAll children⟩ (added_writePad indent)).after ⟨rfl, rfl⟩
    | pre =>
      cases text with
      | some text =>
        have hlines : Added [.plain (padOf indent)] := ⟨rfl, rfl⟩
        have hruns := (faithful_writeRuns hlines text.runs).after (m :=
          [.lineBreak, .plain (padOf indent ++ "```"), .lineBreak]) ⟨rfl, rfl⟩
        exact (((hruns.cons hlines).cons ⟨rfl, rfl⟩).cons ⟨rfl, rfl⟩).beside _
      | none =>
        have hfences : Added [.plain (padOf indent ++ "```"), .lineBreak,
          .plain (padOf indent ++ "```"), .lineBreak] := ⟨rfl, rfl⟩
        exact ((faithful_writeText none).before hfences).beside _
    | callout => exact .unseen (((hall (indent + 1)).cons ⟨rfl, rfl⟩).cons ⟨rfl, rfl⟩) _
    | badge => exact (faithful_writeText text).beside _
    | link => exact (faithful_writeText text).beside _
    | icon => exact (faithful_writeText text).beside _
    | usage =>
      cases text with
      | some text =>
        have htext := (faithful_writeText (some text)).after (m := [.lineBreak]) ⟨rfl, rfl⟩
        exact (htext.before (added_writePad indent)).beside _
      | none => exact (faithful_writeText none).beside _
    | hr => exact .unseen (faithful_added ⟨rfl, rfl⟩ _) _
    | image => exact .unseen (faithful_added ⟨rfl, rfl⟩ _) _
    | _ => exact .unseen (hall indent) _

theorem faithful_renderAll : ∀ (children : List Component) (indent : Nat),
    Faithful (renderAll children indent) (textsAll children) (CompleteAll children)
  | [], _ => ⟨.slnil, Added.shows ⟨rfl, rfl⟩ |>.trans (iff_of_true rfl trivial)⟩
  | child :: children, indent => by
    rw [renderAll, textsAll, CompleteAll]
    exact (faithful_renderToSink child indent).append (faithful_renderAll children indent)

/-- A rendering of the children of a row. -/
theorem faithful_renderRow : ∀ (children : List Component) (indent : Nat),
    Faithful (renderRow children indent) (textsAll children) (CompleteRow children)
  | [], _ => ⟨.slnil, Added.shows ⟨rfl, rfl⟩ |>.trans (iff_of_true rfl trivial)⟩
  | child :: children, indent => by
    rw [renderRow, textsAll, CompleteRow]
    refine .append ?_ (faithful_renderRowRest children indent)
    split
    · exact faithful_renderInline child
    · exact faithful_renderToSink child indent

/-- A rendering of the further children of a row. -/
theorem faithful_renderRowRest : ∀ (children : List Component) (indent : Nat),
    Faithful (renderRowRest children indent) (textsAll children) (CompleteRow children)
  | [], _ => ⟨.slnil, Added.shows ⟨rfl, rfl⟩ |>.trans (iff_of_true rfl trivial)⟩
  | child :: children, indent => by
    rw [renderRowRest, textsAll, CompleteRow]
    refine .cons (.append ?_ (faithful_renderRowRest children indent)) ⟨rfl, rfl⟩
    split
    · exact faithful_renderInline child
    · exact faithful_renderToSink child indent
end

end Component

end Omp2.Render
