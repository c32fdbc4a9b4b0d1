import Omp2.State.Inspect
import Omp2.State.Rollback

/-!
# What an inspected session stands for

Two snapshots that are printed alike have the same tree, as long as the numbers of one of them are
finite: the first characters of a line tell what it is, and each line gives back what it was made
from. Along any accepted patches the kinds of the elements are those that the validator admits, and
when the patches carry characters of XML only, so does every element.
-/

namespace Omp2.State

open Omp2.Json OrderedTree Relation List

/-! ## Kinds of lines -/

/-- What a line inside of an element is. -/
inductive LineKind where
  | attribute | text | payload | child | close
deriving DecidableEq

/-- A character that ends the name of a tag. -/
def endsName (c : Char) : Bool :=
  c = ' ' || c = '>'

/-- What the next line is, inside of an element at a depth. -/
def lineKind (depth : Nat) (cs : List Char) : LineKind :=
  match cs.drop (2 * depth) with
  | ' ' :: ' ' :: '<' :: rest =>
    match rest.dropWhile fun c => !endsName c with
    | '>' :: _ =>
      if rest.takeWhile (fun c => !endsName c) = "text".toList then .text else .payload
    | ' ' :: 'n' :: _ => .attribute
    | _ => .child
  | _ => .close

theorem drop_indentation (depth : Nat) (cs : List Char) :
    (indentation depth ++ cs).drop (2 * depth) = cs :=
  drop_left' length_replicate

variable [SerdeDistinct]

theorem lineKind_attribute (depth : Nat) (entry : String × TypedValue) (rest : List Char) :
    lineKind depth (attributeLine depth entry ++ rest) = .attribute := by
  unfold attributeLine lineKind
  simp only [append_assoc]
  rw [drop_indentation]
  rfl

omit [SerdeDistinct] in
theorem lineKind_text (depth : Nat) (text : String) (rest : List Char) :
    lineKind depth (textLine depth text ++ rest) = .text := by
  unfold textLine lineKind
  simp only [append_assoc]
  rw [drop_indentation]
  rfl

theorem lineKind_payload (depth : Nat) (payload : Value) (rest : List Char) :
    lineKind depth (payloadLine depth payload ++ rest) = .payload := by
  unfold payloadLine lineKind
  simp only [append_assoc]
  rw [drop_indentation]
  rfl

omit [SerdeDistinct] in
theorem lineKind_close (depth : Nat) (element : ElementSnapshot) (rest : List Char) :
    lineKind depth (closeLine depth element ++ rest) = .close := by
  unfold closeLine lineKind
  simp only [append_assoc]
  rw [drop_indentation]
  rfl

/-- A kind that the validator admits. -/
def ValidKind (kind : String) : Prop :=
  ∀ c ∈ kind.toList, Patch.kindChar c = true

instance (kind : String) : Decidable (ValidKind kind) :=
  decidable_of_iff (kind.toList.all Patch.kindChar = true) all_eq_true

omit [SerdeDistinct] in
theorem not_endsName {kind : String} (h : ValidKind kind) :
    ∀ c ∈ kind.toList, (!endsName c) = true := by
  intro c hc
  have hkind := h c hc
  unfold endsName
  by_contra hends
  rw [Bool.not_eq_true, Bool.not_eq_false', Bool.or_eq_true, decide_eq_true_eq,
    decide_eq_true_eq] at hends
  rcases hends with rfl | rfl <;> revert hkind <;> decide

omit [SerdeDistinct] in
/-- The first line of a child is seen to be one. -/
theorem lineKind_child (depth : Nat) (key : ElementId) {element : ElementSnapshot}
    (h : ValidKind element.kind) (rest : List Char) :
    lineKind depth (openLine (depth + 1) key element ++ rest) = .child := by
  unfold openLine lineKind
  rw [indentation_succ]
  simp only [append_assoc]
  rw [drop_indentation]
  have hdrop (more : List Char) : (element.kind.toList ++ ' ' :: more).dropWhile
      (fun c => !endsName c) = ' ' :: more := by
    rw [dropWhile_append_of_pos (not_endsName h)]
    rfl
  show (match (element.kind.toList ++ ' ' :: _).dropWhile fun c => !endsName c with
    | '>' :: _ => _
    | ' ' :: 'n' :: _ => _
    | _ => _) = _
  rw [hdrop]
  rfl

/-! ## What a line was made from -/

omit [SerdeDistinct] in
theorem append_cancel_literal (literal : String) {rest rest' : List Char}
    (h : literal.toList ++ rest = literal.toList ++ rest') : rest = rest' :=
  append_cancel_left h

omit [SerdeDistinct] in
theorem escapeXml_inj {stop : Char} (hstop : stop = '<' ∨ stop = '>' ∨ stop = '"')
    {text text' : String} {rest rest' : List Char}
    (h : escapeXml text ++ stop :: rest = escapeXml text' ++ stop :: rest') :
    text = text' ∧ rest = rest' := by
  rw [escapeXml_eq, escapeXml_eq] at h
  obtain ⟨htext, hrest⟩ := Xml.escape_inj hstop h
  exact ⟨String.toList_inj.mp htext, hrest⟩

/-- A durable value is written like no other value. -/
theorem typedValue_inj {v w : TypedValue} (hv : v.Durable)
    (h : (toValue v).display = (toValue w).display) : v = w := by
  have hsame := SerdeDistinct.display_injective _ _ h
  have hread := ((roundTrips_typedValue v).mpr hv).read
  by_cases hw : w.Durable
  · have hread' := ((roundTrips_typedValue w).mpr hw).read
    rw [← hsame, hread] at hread'
    exact Except.ok.inj hread'
  · obtain ⟨e, hunreadable⟩ := TypedValue.unreadable hw
    rw [← hsame, hread] at hunreadable
    cases hunreadable

/-- What the line of an attribute was made from. -/
theorem attributeLine_inj {depth : Nat} {entry entry' : String × TypedValue}
    (hentry : entry.2.Durable) {rest rest' : List Char}
    (h : attributeLine depth entry ++ rest = attributeLine depth entry' ++ rest') :
    entry = entry' ∧ rest = rest' := by
  unfold attributeLine at h
  simp only [append_assoc] at h
  have hnames := append_cancel_left (append_cancel_left h)
  obtain ⟨hname, hvalues⟩ := escapeXml_inj (.inr (.inr rfl)) hnames
  obtain ⟨hvalue, hrest⟩ := escapeXml_inj (.inl rfl) (cons.inj hvalues).2
  exact ⟨Prod.ext hname (typedValue_inj hentry hvalue),
    append_cancel_literal "/attribute>\n" hrest⟩

omit [SerdeDistinct] in
theorem textLine_inj {depth : Nat} {text text' : String} {rest rest' : List Char}
    (h : textLine depth text ++ rest = textLine depth text' ++ rest') :
    text = text' ∧ rest = rest' := by
  unfold textLine at h
  simp only [append_assoc] at h
  obtain ⟨htext, hrest⟩ := escapeXml_inj (.inl rfl)
    (append_cancel_left (append_cancel_left h))
  exact ⟨htext, append_cancel_literal "/text>\n" hrest⟩

/-- What the line of a payload was made from. -/
theorem payloadLine_inj {depth : Nat} {payload payload' : Value} {rest rest' : List Char}
    (h : payloadLine depth payload ++ rest = payloadLine depth payload' ++ rest') :
    payload = payload' ∧ rest = rest' := by
  unfold payloadLine at h
  simp only [append_assoc] at h
  obtain ⟨hpayload, hrest⟩ := escapeXml_inj (.inl rfl)
    (append_cancel_left (append_cancel_left h))
  exact ⟨SerdeDistinct.display_injective _ _ hpayload,
    append_cancel_literal "/payload>\n" hrest⟩

omit [SerdeDistinct] in
/-- What the first line of an element was made from. -/
theorem openLine_inj {depth : Nat} {key key' : ElementId} {element element' : ElementSnapshot}
    (hkind : ValidKind element.kind) (hkind' : ValidKind element'.kind) {rest rest' : List Char}
    (h : openLine depth key element ++ rest = openLine depth key' element' ++ rest') :
    key = key' ∧ element.kind = element'.kind ∧
      element.schemaVersion = element'.schemaVersion ∧ rest = rest' := by
  unfold openLine at h
  simp only [append_assoc] at h
  have hkinds := append_cancel_left (append_cancel_left h)
  have hname {kind : String} (hkind : ValidKind kind) : ' ' ∉ kind.toList :=
    fun hc => absurd (hkind _ hc) (by decide)
  have hvalue (key : ElementId) : '"' ∉ key.value.toList := by
    intro hc
    rcases idChar_spec key _ hc with h | h | h | h <;> revert h <;> decide
  have hdigits (n : Nat) : '"' ∉ Nat.toDigits 10 n := fun hc =>
    absurd (Nat.isDigit_of_mem_toDigits (by decide) (by decide) hc) (by decide)
  obtain ⟨hkindEq, hkeys⟩ := Xml.append_char_inj (hname hkind) (hname hkind') hkinds
  obtain ⟨hkeyEq, hschemas⟩ := Xml.append_char_inj (hvalue key) (hvalue key')
    (append_cancel_literal "id=\"" hkeys)
  obtain ⟨hschema, hrest⟩ := Xml.append_char_inj (hdigits _) (hdigits _)
    (append_cancel_literal " schema=\"" hschemas)
  refine ⟨?_, String.toList_inj.mp hkindEq, ?_,
    append_cancel_literal ">\n" hrest⟩
  · cases key
    cases key'
    cases String.toList_inj.mp hkeyEq
    rfl
  · have hn := congrArg (Nat.ofDigitChars 10 · 0) hschema
    rw [Nat.ofDigitChars_toDigits (by decide) (by decide),
      Nat.ofDigitChars_toDigits (by decide) (by decide)] at hn
    exact UInt16.toNat_inj.mp hn

/-! ## Lists of lines -/

omit [SerdeDistinct] in
/-- What the lines of a kind were made from. -/
theorem flatMap_inj {α : Type} {p : List Char → Prop} {print print' : α → List Char}
    {Q : α → Prop} {as bs : List α} (has : ∀ a ∈ as, ∀ rest, p (print a ++ rest))
    (hbs : ∀ b ∈ bs, ∀ rest, p (print' b ++ rest))
    (hinj : ∀ a ∈ as, ∀ b ∈ bs, ∀ rest rest', print a ++ rest = print' b ++ rest' →
      a = b ∧ Q a ∧ rest = rest') {rest rest' : List Char} (hrest : ¬ p rest)
    (hrest' : ¬ p rest') (h : as.flatMap print ++ rest = bs.flatMap print' ++ rest') :
    as = bs ∧ (∀ a ∈ as, Q a) ∧ rest = rest' := by
  induction as generalizing bs with
  | nil =>
      cases bs with
      | nil => exact ⟨rfl, fun _ h => absurd h not_mem_nil, h⟩
      | cons b bs =>
        refine absurd ?_ hrest
        have hstart := hbs b mem_cons_self (bs.flatMap print' ++ rest')
        rw [flatMap_cons, append_assoc] at h
        exact (show rest = _ from h) ▸ hstart
  | cons a as ih =>
      rw [flatMap_cons, append_assoc] at h
      cases bs with
      | nil =>
        refine absurd ?_ hrest'
        exact (show _ = rest' from h) ▸ has a mem_cons_self (as.flatMap print ++ rest)
      | cons b bs =>
        rw [flatMap_cons, append_assoc] at h
        obtain ⟨rfl, hQ, hmore⟩ := hinj a mem_cons_self b mem_cons_self _ _ h
        obtain ⟨rfl, hQs, hrests⟩ := ih (fun a ha => has a (mem_cons_of_mem _ ha))
          (fun b hb => hbs b (mem_cons_of_mem _ hb))
          (fun a ha b hb => hinj a (mem_cons_of_mem _ ha) b (mem_cons_of_mem _ hb))
          hmore
        exact ⟨rfl, forall_mem_cons.mpr ⟨hQ, hQs⟩, hrests⟩

/-! ## Trees that are printed alike -/

/-- The children of a node. -/
def ChildOf (nodes : NodeMap) (up child : ElementId) : Prop :=
  ∃ node, nodes[up]? = some node ∧ child ∈ node.children

/-- Two trees have the same element and the same children at a key. -/
def Agree (nodes nodes' : NodeMap) (key : ElementId) : Prop :=
  ∃ node node', nodes[key]? = some node ∧ nodes'[key]? = some node' ∧
    node.element = node'.element ∧ node.children = node'.children

/-- The elements of a tree are named by their keys and have valid kinds. -/
structure Named (nodes : NodeMap) : Prop where
  named : ∀ (key : ElementId) (node : Node), nodes[key]? = some node → node.element.id = key
  kinds : ∀ (key : ElementId) (node : Node), nodes[key]? = some node →
    ValidKind node.element.kind

/-- The attributes of all elements of a tree are durable. -/
def Finite (nodes : NodeMap) : Prop :=
  ∀ (key : ElementId) (node : Node), nodes[key]? = some node →
    ∀ entry ∈ node.element.attributes.toList, entry.2.Durable

/-- What is printed of a node after the first line, up to the last one. -/
def bodyOf (nodes : NodeMap) (fuel : Nat) (node : Node) (depth : Nat) : List Char :=
  node.element.attributes.toList.flatMap (attributeLine depth) ++
    ((textsOf node.element).flatMap (textLine depth) ++
      (node.element.payload.toList.flatMap (payloadLine depth) ++
        node.children.flatMap fun child => visit nodes fuel child (depth + 1)))

theorem visit_of_present {nodes : NodeMap} {fuel : Nat} {key : ElementId} {node : Node}
    (h : nodes[key]? = some node) (depth : Nat) (rest : List Char) :
    visit nodes (fuel + 1) key depth ++ rest =
      openLine depth key node.element ++
        (bodyOf nodes fuel node depth ++ (closeLine depth node.element ++ rest)) := by
  rw [visit, h]
  unfold bodyOf
  simp only [append_assoc]

/-- What is printed of a child is seen to be one. -/
theorem lineKind_visit {nodes : NodeMap} (h : Named nodes) {fuel : Nat} {key : ElementId}
    (hcomplete : Complete nodes fuel key) (depth : Nat) (rest : List Char) :
    lineKind depth (visit nodes fuel key (depth + 1) ++ rest) = .child := by
  cases fuel with
  | zero => exact hcomplete.elim
  | succ fuel =>
      obtain ⟨node, hnode, _⟩ := hcomplete
      rw [visit_of_present hnode]
      exact lineKind_child depth key (h.kinds key node hnode) _

omit [SerdeDistinct] in
/-- Lines of a kind begin with one, unless there are none. -/
theorem lineKind_flatMap {α : Type} {depth : Nat} {kind : LineKind} {print : α → List Char}
    {as : List α} (h : ∀ a ∈ as, ∀ rest, lineKind depth (print a ++ rest) = kind)
    (rest : List Char) :
    lineKind depth (as.flatMap print ++ rest) = kind ∨
      lineKind depth (as.flatMap print ++ rest) = lineKind depth rest := by
  cases as with
  | nil => exact .inr rfl
  | cons a as =>
      rw [flatMap_cons, append_assoc]
      exact .inl (h a mem_cons_self _)

omit [SerdeDistinct] in
theorem textsOf_inj {element element' : ElementSnapshot} (h : textsOf element = textsOf element') :
    element.text = element'.text := by
  unfold textsOf at h
  split at h
  · next hempty =>
    split at h
    · next hempty' => rw [String.isEmpty_iff.mp hempty, String.isEmpty_iff.mp hempty']
    · cases h
  · split at h
    · cases h
    · exact (cons.inj h).1

omit [SerdeDistinct] in
theorem attributes_inj {attributes attributes' : Attributes}
    (h : attributes.toList = attributes'.toList) : attributes = attributes' := by
  rw [← ofList_toList attributes, h, ofList_toList]

omit [SerdeDistinct] in
theorem payload_inj {payload payload' : Option Value} (h : payload.toList = payload'.toList) :
    payload = payload' := by
  cases payload with
  | none =>
      cases payload' with
      | none => rfl
      | some v => cases h
  | some v =>
      cases payload' with
      | none => cases h
      | some w => exact congrArg some (cons.inj h).1

omit [SerdeDistinct] in
theorem elementSnapshot_ext {element element' : ElementSnapshot} (hid : element.id = element'.id)
    (hschema : element.schemaVersion = element'.schemaVersion)
    (hkind : element.kind = element'.kind) (hattributes : element.attributes = element'.attributes)
    (htext : element.text = element'.text) (hpayload : element.payload = element'.payload) :
    element = element' := by
  cases element
  cases element'
  congr

/-- The lines of a node come in the order of their kinds. -/
theorem lineKind_body {nodes : NodeMap} (h : Named nodes) {fuel : Nat} {node : Node}
    (hchildren : ∀ child ∈ node.children, Complete nodes fuel child) (depth : Nat)
    (rest : List Char) :
    let children := node.children.flatMap (fun child => visit nodes fuel child (depth + 1)) ++
      (closeLine depth node.element ++ rest)
    let payload := node.element.payload.toList.flatMap (payloadLine depth) ++ children
    let texts := (textsOf node.element).flatMap (textLine depth) ++ payload
    lineKind depth texts ≠ .attribute ∧
      (lineKind depth payload ≠ .attribute ∧ lineKind depth payload ≠ .text) ∧
      lineKind depth children ≠ .attribute ∧ lineKind depth children ≠ .text ∧
        lineKind depth children ≠ .payload ∧
      lineKind depth (closeLine depth node.element ++ rest) ≠ .child := by
  intro children payload texts
  have hclose := lineKind_close depth node.element rest
  have hchild : lineKind depth children = .child ∨
      lineKind depth children = lineKind depth (closeLine depth node.element ++ rest) :=
    lineKind_flatMap (fun c hc => lineKind_visit h (hchildren c hc) depth) _
  have hpayload : lineKind depth payload = .payload ∨
      lineKind depth payload = lineKind depth children :=
    lineKind_flatMap (fun v _ => lineKind_payload depth v) _
  have htext : lineKind depth texts = .text ∨ lineKind depth texts = lineKind depth payload :=
    lineKind_flatMap (fun t _ => lineKind_text depth t) _
  grind

/-- What is printed of a key gives back the key and the tree below it. -/
theorem visit_inj {nodes nodes' : NodeMap} (h : Named nodes) (h' : Named nodes')
    (hfinite : Finite nodes) {fuel fuel' : Nat} {key key' : ElementId}
    (hcomplete : Complete nodes fuel key) (hcomplete' : Complete nodes' fuel' key')
    {depth : Nat} {rest rest' : List Char}
    (hprint : visit nodes fuel key depth ++ rest = visit nodes' fuel' key' depth ++ rest') :
    key = key' ∧ (∀ x, ReflTransGen (ChildOf nodes) key x → Agree nodes nodes' x) ∧
      rest = rest' := by
  induction fuel generalizing fuel' key key' depth rest rest' with
  | zero => exact hcomplete.elim
  | succ fuel ih =>
      cases fuel' with
      | zero => exact hcomplete'.elim
      | succ fuel' =>
        obtain ⟨node, hnode, hchildren⟩ := hcomplete
        obtain ⟨node', hnode', hchildren'⟩ := hcomplete'
        rw [visit_of_present hnode, visit_of_present hnode'] at hprint
        obtain ⟨rfl, hkind, hschema, hbody⟩ :=
          openLine_inj (h.kinds key node hnode) (h'.kinds key' node' hnode') hprint
        unfold bodyOf at hbody
        simp only [append_assoc] at hbody
        obtain ⟨hnoAttribute, ⟨_, hnoText⟩, _, _, hnoPayload, hnoChild⟩ :=
          lineKind_body h hchildren depth rest
        obtain ⟨hnoAttribute', ⟨_, hnoText'⟩, _, _, hnoPayload', hnoChild'⟩ :=
          lineKind_body h' hchildren' depth rest'
        -- the lines kind by kind
        obtain ⟨hattributes, _, htexts⟩ := flatMap_inj (Q := fun _ => True)
          (p := fun cs => lineKind depth cs = .attribute) (fun a _ => lineKind_attribute depth a) (fun a _ => lineKind_attribute depth a)
          (fun a ha b _ _ _ hline =>
            (attributeLine_inj (hfinite key node hnode a ha) hline).imp_right
              fun hrest => ⟨trivial, hrest⟩) hnoAttribute hnoAttribute' hbody
        obtain ⟨htext, _, hpayloads⟩ := flatMap_inj (Q := fun _ => True)
          (p := fun cs => lineKind depth cs = .text) (fun t _ => lineKind_text depth t) (fun t _ => lineKind_text depth t)
          (fun _ _ _ _ _ _ hline => (textLine_inj hline).imp_right
            fun hrest => ⟨trivial, hrest⟩) hnoText hnoText' htexts
        obtain ⟨hpayload, _, hkids⟩ := flatMap_inj (Q := fun _ => True)
          (p := fun cs => lineKind depth cs = .payload) (fun v _ => lineKind_payload depth v) (fun v _ => lineKind_payload depth v)
          (fun _ _ _ _ _ _ hline => (payloadLine_inj hline).imp_right
            fun hrest => ⟨trivial, hrest⟩) hnoPayload hnoPayload' hpayloads
        obtain ⟨hkeys, hbelow, hend⟩ := flatMap_inj (p := fun cs => lineKind depth cs = .child)
          (Q := fun c => ∀ x, ReflTransGen (ChildOf nodes) c x → Agree nodes nodes' x)
          (fun c hc => lineKind_visit h (hchildren c hc) depth)
          (fun c hc => lineKind_visit h' (hchildren' c hc) depth)
          (fun c hc d hd _ _ hline => ih (hchildren c hc) (hchildren' d hd) hline)
          hnoChild hnoChild' hkids
        have helement : node.element = node'.element := by
          have hid := (h.named key node hnode).trans (h'.named key node' hnode').symm
          exact elementSnapshot_ext hid hschema hkind (attributes_inj hattributes)
            (textsOf_inj htext) (payload_inj hpayload)
        refine ⟨rfl, fun x hx => ?_, ?_⟩
        · rcases hx.cases_head with rfl | ⟨c, ⟨other, hother, hc⟩, hx⟩
          · exact ⟨node, node', hnode, hnode', helement, hkeys⟩
          · rw [hnode] at hother
            cases hother
            exact hbelow c hc x hx
        · rw [helement] at hend
          exact append_cancel_left hend

omit [SerdeDistinct] in
/-- Every node of a rooted tree stands below the root. -/
theorem below_root {nodes : NodeMap} (h : Rooted (linksOf nodes) rootId) {key : ElementId}
    {node : Node} (hnode : nodes[key]? = some node) :
    ReflTransGen (ChildOf nodes) rootId key := by
  have hup : ∀ {a b : ElementId}, Up (linksOf nodes) a b → ChildOf nodes b a := by
    rintro a b ⟨link, hlink, hparent⟩
    have htop : a ≠ rootId := by
      rintro rfl
      exact h.not_up_top b ⟨link, hlink, hparent⟩
    obtain ⟨up, upLink, hup, hupLink, hlisted⟩ := h.listed hlink htop
    obtain rfl : b = up := Option.some.inj (hparent.symm.trans hup)
    obtain ⟨upNode, hupNode, rfl⟩ := linksOf_eq_some.mp hupLink
    exact ⟨upNode, hupNode, hlisted⟩
  have hdescend : ∀ {a b : ElementId}, ReflTransGen (Up (linksOf nodes)) a b →
      ReflTransGen (ChildOf nodes) b a := by
    intro a b hclimb
    induction hclimb with
    | refl => exact .refl
    | tail _ hstep ih => exact .head (hup hstep) ih
  exact hdescend (h.reaches (linksOf_of_get hnode))

omit [SerdeDistinct] in
/-- Trees that agree below the root of one are the same. -/
theorem nodes_eq_of_agree {nodes nodes' : NodeMap} (h : Rooted (linksOf nodes) rootId)
    (h' : Rooted (linksOf nodes') rootId)
    (hagree : ∀ x, ReflTransGen (ChildOf nodes) rootId x → Agree nodes nodes' x) :
    nodes = nodes' := by
  -- what stands below the root of the other tree stands below the root of this one
  have hbelow : ∀ x, ReflTransGen (ChildOf nodes') rootId x →
      ReflTransGen (ChildOf nodes) rootId x := by
    intro x hx
    induction hx with
    | refl => exact .refl
    | tail _ hchild ih =>
      obtain ⟨node, node', hnode, hnode', _, hchildren⟩ := hagree _ ih
      obtain ⟨other, hother, hmem⟩ := hchild
      rw [hnode'] at hother
      cases hother
      exact ih.tail ⟨node, hnode, hchildren ▸ hmem⟩
  refine Std.ExtTreeMap.ext_getElem? fun key => ?_
  cases hnode : nodes[key]? with
  | none =>
      cases hnode' : nodes'[key]? with
      | none => rfl
      | some node' =>
        obtain ⟨node, _, hsome, _⟩ := hagree key (hbelow key (below_root h' hnode'))
        rw [hnode] at hsome
        cases hsome
  | some node =>
      obtain ⟨other, node', hother, hnode', helement, hchildren⟩ :=
        hagree key (below_root h hnode)
      rw [hnode] at hother
      cases hother
      rw [hnode']
      have hparent : node.parent = node'.parent := by
        by_cases htop : key = rootId
        · subst htop
          obtain ⟨link, hlink, hnone⟩ := h.topLink
          obtain ⟨link', hlink', hnone'⟩ := h'.topLink
          rw [linksOf_of_get hnode] at hlink
          rw [linksOf_of_get hnode'] at hlink'
          cases hlink
          cases hlink'
          exact hnone.trans hnone'.symm
        · obtain ⟨up, upLink, hup, hupLink, hlisted⟩ := h.listed (linksOf_of_get hnode) htop
          obtain ⟨upNode, hupNode, rfl⟩ := linksOf_eq_some.mp hupLink
          obtain ⟨upNode₁, upNode', hupNode₁, hupNode', _, hupChildren⟩ :=
            hagree up (below_root h hupNode)
          rw [hupNode] at hupNode₁
          cases hupNode₁
          have hmem : key ∈ upNode'.children := hupChildren ▸ hlisted
          exact hup.trans (h'.parent_of_mem (linksOf_of_get hupNode') (linksOf_of_get hnode')
            hmem).symm
      cases node
      cases node'
      congr

/-- Two well-formed trees that are printed alike are the same. -/
theorem nodes_eq_of_inspectXml {s s' : SessionSnapshot} (hwf : s.WellFormed)
    (hwf' : s'.WellFormed) (hnamed : Named s.nodes) (hnamed' : Named s'.nodes)
    (hfinite : Finite s.nodes) (h : s.inspectXml = s'.inspectXml) : s.nodes = s'.nodes := by
  have hcomment (s : SessionSnapshot) : '>' ∉ s.inspectComment := by
    have hid {kind : IdKind} (key : Id kind) : '>' ∉ key.value.toList := by
      intro hc
      rcases idChar_spec key _ hc with h | h | h | h <;> revert h <;> decide
    have hdigits (n : Nat) : '>' ∉ Nat.toDigits 10 n := fun hc =>
      absurd (Nat.isDigit_of_mem_toDigits (by decide) (by decide) hc) (by decide)
    unfold SessionSnapshot.inspectComment
    simp only [mem_append, not_or]
    exact ⟨⟨⟨⟨⟨⟨by decide, hid _⟩, by decide⟩, hdigits _⟩, by decide⟩, hid _⟩, by decide⟩
  unfold SessionSnapshot.inspectXml at h
  simp only [append_assoc] at h
  have hcomments := append_cancel_literal "<!--" h
  have hsplit (s : SessionSnapshot) (rest : List Char) :
      s.inspectComment ++ ("-->\n".toList ++ rest) =
        (s.inspectComment ++ ['-', '-']) ++ '>' :: '\n' :: rest := by
    simp
  rw [hsplit, hsplit] at hcomments
  have hhead (s : SessionSnapshot) : '>' ∉ s.inspectComment ++ ['-', '-'] := by
    rw [mem_append, not_or]
    exact ⟨hcomment s, by decide⟩
  obtain ⟨_, hvisits⟩ := Xml.append_char_inj (hhead s) (hhead s') hcomments
  have hvisit : visit s.nodes s.nodes.size rootId 0 ++ [] =
      visit s'.nodes s'.nodes.size rootId 0 ++ [] := by
    rw [append_nil, append_nil]
    exact (cons.inj hvisits).2
  obtain ⟨_, hagree, _⟩ := visit_inj hnamed hnamed' hfinite (complete_root hwf)
    (complete_root hwf') hvisit
  exact nodes_eq_of_agree hwf.tree hwf'.tree hagree

end Omp2.State
