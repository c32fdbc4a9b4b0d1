import Omp2.Library.JsonDistinct
import Omp2.Library.Xml
import Omp2.State.WellFormed
import Omp2.Types.Wire

/-!
# Inspecting a session as XML

`inspect_xml` of `omp-state/src/dom.rs`. The printer descends from `root`; each element becomes a
tag with its attributes, text and payload as tags inside of it, one a line, and then its children.
The text is worked on as its list of characters.
-/

namespace Omp2.State

open Omp2.Json OrderedTree List

/-! ## The printer -/

/-- `replace` of one character. -/
def replaceChar (c : Char) (new : String) (cs : List Char) : List Char :=
  cs.flatMap fun d => if d = c then new.toList else [d]

/-- `escape`. -/
def escapeXml (text : String) : List Char :=
  replaceChar '"' "&quot;" (replaceChar '>' "&gt;" (replaceChar '<' "&lt;"
    (replaceChar '&' "&amp;" text.toList)))

/-- The indentation at a depth. -/
def indentation (depth : Nat) : List Char :=
  List.replicate (2 * depth) ' '

variable [SerdeJson]

/-- The line of an attribute. -/
def attributeLine (depth : Nat) (entry : String × TypedValue) : List Char :=
  indentation depth ++ "  <attribute name=\"".toList ++ escapeXml entry.1 ++ "\">".toList ++
    escapeXml (toValue entry.2).display ++ "</attribute>\n".toList

/-- The line of a text. -/
def textLine (depth : Nat) (text : String) : List Char :=
  indentation depth ++ "  <text>".toList ++ escapeXml text ++ "</text>\n".toList

/-- The line of a payload. -/
def payloadLine (depth : Nat) (payload : Value) : List Char :=
  indentation depth ++ "  <payload>".toList ++ escapeXml payload.display ++
    "</payload>\n".toList

/-- The first line of an element. -/
def openLine (depth : Nat) (key : ElementId) (element : ElementSnapshot) : List Char :=
  indentation depth ++ "<".toList ++ element.kind.toList ++ " id=\"".toList ++ key.value.toList ++
    "\" schema=\"".toList ++ Nat.toDigits 10 element.schemaVersion.toNat ++ "\">\n".toList

/-- The last line of an element. -/
def closeLine (depth : Nat) (element : ElementSnapshot) : List Char :=
  indentation depth ++ "</".toList ++ element.kind.toList ++ ">\n".toList

/-- The texts of an element, if it has any. -/
def textsOf (element : ElementSnapshot) : List String :=
  if element.text.isEmpty then [] else [element.text]

/-- `visit`. Each descent reaches a further node, so the size of the map is enough fuel. -/
def visit (nodes : NodeMap) : Nat → ElementId → Nat → List Char
  | 0, _, _ => []
  | fuel + 1, key, depth =>
    match nodes[key]? with
    | none =>
      indentation depth ++ "<!-- dangling node ".toList ++ key.value.toList ++ " -->\n".toList
    | some node =>
      openLine depth key node.element ++
        node.element.attributes.toList.flatMap (attributeLine depth) ++
        (textsOf node.element).flatMap (textLine depth) ++
        node.element.payload.toList.flatMap (payloadLine depth) ++
        node.children.flatMap (fun child => visit nodes fuel child (depth + 1)) ++
        closeLine depth node.element

namespace SessionSnapshot

/-- The text of the comment before the tree. -/
def inspectComment (s : SessionSnapshot) : List Char :=
  " session=".toList ++ s.sessionId.value.toList ++ " offset=".toList ++
    Nat.toDigits 10 s.offset.toNat ++ " branch=".toList ++ s.selectedBranch.value.toList ++ [' ']

/-- `inspect_xml`. -/
def inspectXml (s : SessionSnapshot) : List Char :=
  "<!--".toList ++ s.inspectComment ++ "-->\n".toList ++ visit s.nodes s.nodes.size rootId 0

end SessionSnapshot

/-! ## Escaping -/

omit [SerdeJson] in
/-- The four replacements are one for each character. -/
theorem escapeXml_eq (text : String) : escapeXml text = Xml.escape text.toList := by
  unfold escapeXml replaceChar Xml.escape
  rw [flatMap_assoc, flatMap_assoc, flatMap_assoc]
  refine flatMap_congr fun c _ => ?_
  unfold Xml.escapeChar
  split_ifs with hamp hlt hgt hquot
  · subst hamp
    decide
  · subst hlt
    decide
  · subst hgt
    decide
  · subst hquot
    decide
  · simp [hlt, hgt, hquot]

/-! ## Documents whose texts are characters of XML -/

/-- A text of characters of XML. -/
def Clean (text : String) : Prop :=
  ∀ c ∈ text.toList, Xml.XmlChar c

instance (text : String) : Decidable (Clean text) :=
  decidable_of_iff (text.toList.all fun c => Xml.XmlChar c) List.all_iff_forall_prop

/-- A value whose JSON text is made of characters of XML. -/
def CleanValue (value : Value) : Prop :=
  Clean value.display

/-- An element that can be written as XML. -/
structure Writable (element : ElementSnapshot) : Prop where
  kind : Xml.Name element.kind.toList
  attributes : ∀ entry ∈ element.attributes.toList,
    Clean entry.1 ∧ CleanValue (toValue entry.2)
  text : Clean element.text
  payload : ∀ payload ∈ element.payload, CleanValue payload

/-- Every node below a key is present, and the descent ends before the fuel does. -/
def Complete (nodes : NodeMap) : Nat → ElementId → Prop
  | 0, _ => False
  | fuel + 1, key => ∃ node, nodes[key]? = some node ∧
    ∀ child ∈ node.children, Complete nodes fuel child

omit [SerdeJson] in
/-- In a rooted tree the descent ends. -/
theorem complete_of_path {nodes : NodeMap} (h : Rooted (linksOf nodes) rootId) {fuel : Nat}
    {key : ElementId} {path : List ElementId} (hpath : Path (linksOf nodes) key path)
    (hfuel : nodes.size < path.length + fuel) : Complete nodes fuel key := by
  induction fuel generalizing key path with
  | zero => exact absurd (path_length_le hpath) (Nat.not_le_of_gt hfuel)
  | succ fuel ih =>
      have hself : key ∈ path := by
        cases hpath with
        | root => exact mem_cons_self
        | climb => exact mem_cons_self
      obtain ⟨link, hlink⟩ := hpath.present hself
      obtain ⟨node, hnode, rfl⟩ := linksOf_eq_some.mp hlink
      refine ⟨node, hnode, fun child hchild => ?_⟩
      obtain ⟨childLink, hchildLink, hparent⟩ := h.child hlink hchild
      refine ih (.climb child key childLink path hchildLink hparent hpath) ?_
      rw [length_cons]
      omega

omit [SerdeJson] in
theorem complete_root {s : SessionSnapshot} (hwf : s.WellFormed) :
    Complete s.nodes s.nodes.size rootId := by
  obtain ⟨link, hlink, hnone⟩ := hwf.tree.topLink
  refine complete_of_path hwf.tree (.root rootId link hlink hnone) ?_
  rw [length_singleton]
  omega

/-! ## Lines -/

omit [SerdeJson] in
theorem indentation_succ (depth : Nat) : indentation (depth + 1) = indentation depth ++ [' ', ' '] :=
  replicate_append_replicate.symm

omit [SerdeJson] in
theorem space_indentation (depth : Nat) : Xml.Space (indentation depth) :=
  fun _ hc => .inl (eq_of_mem_replicate hc)

/-- The item of an attribute. -/
def attributeItem (entry : String × TypedValue) : List Char :=
  Xml.startTag "attribute".toList [("name".toList, escapeXml entry.1)] ++
    escapeXml (toValue entry.2).display ++ Xml.endTag "attribute".toList

/-- The item of a text or of a payload. -/
def textItem (tag : String) (text : String) : List Char :=
  Xml.startTag tag.toList [] ++ escapeXml text ++ Xml.endTag tag.toList

/-- An item on a line. -/
def line (depth : Nat) (item : List Char) : List Char :=
  indentation depth ++ item ++ ['\n']

theorem attributeLine_eq (depth : Nat) (entry : String × TypedValue) :
    attributeLine depth entry = line (depth + 1) (attributeItem entry) := by
  unfold attributeLine line attributeItem
  rw [indentation_succ]
  simp [Xml.startTag, Xml.attributeText, Xml.endTag]

omit [SerdeJson] in
theorem textLine_eq (depth : Nat) (text : String) :
    textLine depth text = line (depth + 1) (textItem "text" text) := by
  unfold textLine line textItem
  rw [indentation_succ]
  simp [Xml.startTag, Xml.endTag]

theorem payloadLine_eq (depth : Nat) (payload : Value) :
    payloadLine depth payload = line (depth + 1) (textItem "payload" payload.display) := by
  unfold payloadLine line textItem
  rw [indentation_succ]
  simp [Xml.startTag, Xml.endTag]

omit [SerdeJson] in
/-- Items on lines are content. -/
theorem content_lines (depth : Nat) {items : List (List Char)}
    (h : ∀ item ∈ items, Xml.Item item) {space : List Char} (hspace : Xml.Space space) :
    Xml.Content ('\n' :: (items.flatMap (line depth) ++ space)) := by
  induction items with
  | nil =>
      refine .data (Xml.charData_space ?_)
      exact forall_mem_cons.mpr ⟨.inr (.inr (.inl rfl)), hspace⟩
  | cons item items ih =>
      obtain ⟨hitem, hitems⟩ := forall_mem_cons.mp h
      have hbefore : Xml.CharData ('\n' :: indentation depth) := Xml.charData_space
        (forall_mem_cons.mpr ⟨.inr (.inr (.inl rfl)), space_indentation depth⟩)
      have hsame : '\n' :: ((item :: items).flatMap (line depth) ++ space) =
          ('\n' :: indentation depth) ++ item ++ ('\n' :: (items.flatMap (line depth) ++ space)) := by
        rw [flatMap_cons]
        unfold line
        simp only [append_assoc, cons_append, nil_append]
      rw [hsame]
      exact .item hbefore hitem (ih hitems)

omit [SerdeJson] in
theorem attributes_nil : Xml.Attributes [] :=
  ⟨fun _ h => absurd h not_mem_nil, fun _ h => absurd h not_mem_nil, .nil⟩

omit [SerdeJson] in
theorem content_escape {text : String} (h : Clean text) : Xml.Content (escapeXml text) := by
  rw [escapeXml_eq]
  exact .data (Xml.charData_escape h)

/-- The item of an attribute is one. -/
theorem item_attribute {entry : String × TypedValue} (hname : Clean entry.1)
    (hvalue : CleanValue (toValue entry.2)) : Xml.Item (attributeItem entry) := by
  refine .element ?_ ⟨?_, ?_, ?_⟩ (content_escape hvalue)
  · simp [Xml.Name, Xml.NameChar, Xml.NameStartChar]
  · refine forall_mem_singleton.mpr ?_
    simp [Xml.Name, Xml.NameChar, Xml.NameStartChar]
  · refine forall_mem_singleton.mpr ?_
    rw [escapeXml_eq]
    exact Xml.attValue_escape hname
  · exact nodup_singleton _

omit [SerdeJson] in
theorem item_text {tag text : String} (htag : Xml.Name tag.toList) (htext : Clean text) :
    Xml.Item (textItem tag text) :=
  .element htag attributes_nil (content_escape htext)

/-! ## Elements -/

omit [SerdeJson] in
theorem attValue_plain {cs : List Char}
    (h : ∀ c ∈ cs, 0x20 ≤ c.toNat ∧ c.toNat ≤ 0x7e ∧ c ≠ '<' ∧ c ≠ '&' ∧ c ≠ '"') :
    Xml.AttValue cs := by
  induction cs with
  | nil => exact .nil
  | cons c cs ih =>
      obtain ⟨⟨hlow, hhigh, hmarks⟩, hcs⟩ := forall_mem_cons.mp h
      exact .char ⟨Xml.xmlChar_of_ascii hlow hhigh, hmarks⟩ (ih hcs)

omit [SerdeJson] in
theorem idChar_spec {kind : IdKind} (key : Id kind) : ∀ c ∈ key.value.toList,
    c.isAlphanum = true ∨ c = '.' ∨ c = '_' ∨ c = '-' := by
  have hvalid := key.valid
  unfold validId at hvalid
  rw [Bool.and_eq_true, all_eq_true] at hvalid
  intro c hc
  have hchar := hvalid.2 c hc
  simpa only [Bool.or_eq_true, beq_iff_eq, or_assoc] using hchar

omit [SerdeJson] in
theorem isAlphanum_ne {c d : Char} (h : c.isAlphanum = true) (hd : d.isAlphanum = false) :
    c ≠ d := by
  rintro rfl
  rw [h] at hd
  cases hd

omit [SerdeJson] in
theorem attValue_id (key : ElementId) : Xml.AttValue key.value.toList := by
  refine attValue_plain fun c hc => ?_
  rcases idChar_spec key c hc with h | rfl | rfl | rfl
  · obtain ⟨hlow, hhigh⟩ := Xml.ascii_of_isAlphanum h
    exact ⟨hlow, hhigh, isAlphanum_ne h (by decide), isAlphanum_ne h (by decide),
      isAlphanum_ne h (by decide)⟩
  · decide
  · decide
  · decide

omit [SerdeJson] in
/-- A number may stand between quotes. -/
theorem attValue_digits (n : Nat) : Xml.AttValue (Nat.toDigits 10 n) := by
  refine attValue_plain fun c hc => ?_
  have hdigit := Nat.isDigit_of_mem_toDigits (by decide) (by decide) hc
  have h : c.isAlphanum = true := by rw [Char.isAlphanum, hdigit, Bool.or_true]
  obtain ⟨hlow, hhigh⟩ := Xml.ascii_of_isAlphanum h
  exact ⟨hlow, hhigh, isAlphanum_ne h (by decide), isAlphanum_ne h (by decide),
    isAlphanum_ne h (by decide)⟩

/-- The attributes of the tag of an element. -/
def tagAttributes (key : ElementId) (element : ElementSnapshot) : List (List Char × List Char) :=
  [("id".toList, key.value.toList),
    ("schema".toList, Nat.toDigits 10 element.schemaVersion.toNat)]

omit [SerdeJson] in
theorem attributes_tag (key : ElementId) (element : ElementSnapshot) :
    Xml.Attributes (tagAttributes key element) := by
  refine ⟨?_, ?_, ?_⟩
  · refine forall_mem_cons.mpr ⟨?_, forall_mem_singleton.mpr ?_⟩ <;>
      simp [Xml.Name, Xml.NameChar, Xml.NameStartChar]
  · exact forall_mem_cons.mpr ⟨attValue_id key,
      forall_mem_singleton.mpr (attValue_digits _)⟩
  · simp [tagAttributes]

omit [SerdeJson] in
theorem mem_textsOf {element : ElementSnapshot} {text : String} (h : text ∈ textsOf element) :
    text = element.text := by
  unfold textsOf at h
  split at h
  · cases h
  · exact mem_singleton.mp h

/-- What is printed of a key below which every node can be written is an element on a line. -/
theorem visit_element {nodes : NodeMap}
    (hnodes : ∀ (key : ElementId) (node : Node), nodes[key]? = some node → Writable node.element)
    {fuel : Nat} {key : ElementId} (hcomplete : Complete nodes fuel key) (depth : Nat) :
    ∃ name attributes content, Xml.Name name ∧ Xml.Attributes attributes ∧ Xml.Content content ∧
      visit nodes fuel key depth =
        line depth (Xml.startTag name attributes ++ content ++ Xml.endTag name) := by
  induction fuel generalizing key depth with
  | zero => exact hcomplete.elim
  | succ fuel ih =>
      obtain ⟨node, hnode, hchildren⟩ := hcomplete
      have hwritable := hnodes key node hnode
      -- the children are items on lines of the next level
      have hitems : ∀ children : List ElementId, (∀ child ∈ children, Complete nodes fuel child) →
          ∃ items : List (List Char), (∀ item ∈ items, Xml.Item item) ∧
            children.flatMap (fun child => visit nodes fuel child (depth + 1)) =
              items.flatMap (line (depth + 1)) := by
        intro children
        induction children with
        | nil => exact fun _ => ⟨[], fun _ h => absurd h not_mem_nil, rfl⟩
        | cons child children ihChildren =>
          intro hall
          obtain ⟨hchild, hrest⟩ := forall_mem_cons.mp hall
          obtain ⟨name, attributes, content, hname, hattributes, hcontent, hvisit⟩ :=
            ih hchild (depth + 1)
          obtain ⟨items, hitems, hprinted⟩ := ihChildren hrest
          refine ⟨_ :: items, forall_mem_cons.mpr
            ⟨.element hname hattributes hcontent, hitems⟩, ?_⟩
          rw [flatMap_cons, flatMap_cons, hvisit, hprinted]
      obtain ⟨items, hitems, hprinted⟩ := hitems node.children hchildren
      let inner : List (List Char) := node.element.attributes.toList.map attributeItem ++
        (textsOf node.element).map (textItem "text") ++
        node.element.payload.toList.map (fun payload => textItem "payload" payload.display) ++ items
      have hinner : ∀ item ∈ inner, Xml.Item item := by
        intro item hitem
        rcases mem_append.mp hitem with hitem | hitem
        · rcases mem_append.mp hitem with hitem | hitem
          · rcases mem_append.mp hitem with hitem | hitem
            · obtain ⟨entry, hentry, rfl⟩ := mem_map.mp hitem
              obtain ⟨hname, hvalue⟩ := hwritable.attributes entry hentry
              exact item_attribute hname hvalue
            · obtain ⟨text, htext, rfl⟩ := mem_map.mp hitem
              rw [mem_textsOf htext]
              exact item_text (by simp [Xml.Name, Xml.NameChar, Xml.NameStartChar]) hwritable.text
          · obtain ⟨payload, hpayload, rfl⟩ := mem_map.mp hitem
            exact item_text (by simp [Xml.Name, Xml.NameChar, Xml.NameStartChar])
              (hwritable.payload payload (Option.mem_toList.mp hpayload))
        · exact hitems item hitem
      refine ⟨node.element.kind.toList, tagAttributes key node.element, _, hwritable.kind,
        attributes_tag key node.element,
        content_lines (depth + 1) hinner (space_indentation depth), ?_⟩
      rw [visit, hnode]
      dsimp only
      rw [hprinted]
      have hattributes : node.element.attributes.toList.flatMap (attributeLine depth) =
          (node.element.attributes.toList.map attributeItem).flatMap (line (depth + 1)) := by
        rw [flatMap_map]
        exact flatMap_congr fun entry _ => attributeLine_eq depth entry
      have htexts : (textsOf node.element).flatMap (textLine depth) =
          ((textsOf node.element).map (textItem "text")).flatMap (line (depth + 1)) := by
        rw [flatMap_map]
        exact flatMap_congr fun text _ => textLine_eq depth text
      have hpayload : node.element.payload.toList.flatMap (payloadLine depth) =
          (node.element.payload.toList.map fun payload =>
            textItem "payload" payload.display).flatMap (line (depth + 1)) := by
        rw [flatMap_map]
        exact flatMap_congr fun payload _ => payloadLine_eq depth payload
      have hinnerLines : inner.flatMap (line (depth + 1)) =
          node.element.attributes.toList.flatMap (attributeLine depth) ++
            (textsOf node.element).flatMap (textLine depth) ++
            node.element.payload.toList.flatMap (payloadLine depth) ++
            items.flatMap (line (depth + 1)) := by
        rw [flatMap_append, flatMap_append, flatMap_append, ← hattributes,
          ← htexts, ← hpayload]
      rw [hinnerLines, line, openLine, closeLine]
      simp [tagAttributes, Xml.startTag, Xml.attributeText, Xml.endTag]

/-! ## The comment -/

section Comment

omit [SerdeJson]

/-- No two hyphens stand next to each other. -/
def SingleHyphens (cs : List Char) : Prop :=
  cs.IsChain fun c d => c = '-' → d ≠ '-'

theorem singleHyphens_of_not_mem {cs : List Char} (h : '-' ∉ cs) : SingleHyphens cs := by
  induction cs with
  | nil => exact .nil
  | cons c cs ih =>
      rw [mem_cons, not_or] at h
      exact isChain_cons.mpr ⟨fun _ _ heq => absurd heq.symm h.1, ih h.2⟩

theorem SingleHyphens.after {front cs : List Char} (h : SingleHyphens cs) (hfront : '-' ∉ front) :
    SingleHyphens (front ++ cs) := by
  refine isChain_append.mpr ⟨singleHyphens_of_not_mem hfront, h, fun c hc _ _ heq => ?_⟩
  exact absurd (heq ▸ mem_of_mem_getLast? hc) hfront

theorem SingleHyphens.before {cs rest : List Char} (h : SingleHyphens cs)
    (hrest : SingleHyphens rest) (hhead : rest.head? ≠ some '-') : SingleHyphens (cs ++ rest) := by
  refine isChain_append.mpr ⟨h, hrest, fun _ _ d hd _ heq => hhead ?_⟩
  rw [← heq]
  exact hd

theorem xmlChar_id {kind : IdKind} (key : Id kind) : ∀ c ∈ key.value.toList, Xml.XmlChar c := by
  intro c hc
  rcases idChar_spec key c hc with h | rfl | rfl | rfl
  · obtain ⟨hlow, hhigh⟩ := Xml.ascii_of_isAlphanum h
    exact Xml.xmlChar_of_ascii hlow hhigh
  · decide
  · decide
  · decide

/-- A number is made of digits. -/
theorem digits_spec (n : Nat) : (∀ c ∈ Nat.toDigits 10 n, Xml.XmlChar c) ∧
    '-' ∉ Nat.toDigits 10 n := by
  have halphanum : ∀ c ∈ Nat.toDigits 10 n, c.isAlphanum = true := by
    intro c hc
    have hdigit := Nat.isDigit_of_mem_toDigits (by decide) (by decide) hc
    rw [Char.isAlphanum, hdigit, Bool.or_true]
  constructor
  · intro c hc
    obtain ⟨hlow, hhigh⟩ := Xml.ascii_of_isAlphanum (halphanum c hc)
    exact Xml.xmlChar_of_ascii hlow hhigh
  · exact fun h => absurd (halphanum _ h) (by decide)

/-- The comment before the tree is one when neither identifier in it has two hyphens in a row. -/
theorem comment_inspectComment {s : SessionSnapshot}
    (hsession : SingleHyphens s.sessionId.value.toList)
    (hbranch : SingleHyphens s.selectedBranch.value.toList) : Xml.Comment s.inspectComment := by
  obtain ⟨hchars, hdigits⟩ := digits_spec s.offset.toNat
  have hlast : s.inspectComment.getLast? = some ' ' := getLast?_concat
  refine ⟨?_, ?_, by rw [hlast]; decide⟩
  · exact Xml.xmlChar_append (Xml.xmlChar_append (Xml.xmlChar_append (Xml.xmlChar_append
      (Xml.xmlChar_append (Xml.xmlChar_append (List.all_iff_forall_prop.mp (by decide))
        (xmlChar_id s.sessionId)) (List.all_iff_forall_prop.mp (by decide))) hchars)
      (List.all_iff_forall_prop.mp (by decide))) (xmlChar_id s.selectedBranch))
      (List.all_iff_forall_prop.mp (by decide))
  · have hend : SingleHyphens (s.selectedBranch.value.toList ++ [' ']) :=
      hbranch.before (singleHyphens_of_not_mem (by decide)) (by decide)
    have hoffset : SingleHyphens (" offset=".toList ++ (Nat.toDigits 10 s.offset.toNat ++
        (" branch=".toList ++ (s.selectedBranch.value.toList ++ [' '])))) :=
      ((hend.after (by decide)).after hdigits).after (by decide)
    have hall : SingleHyphens (" session=".toList ++ (s.sessionId.value.toList ++
        (" offset=".toList ++ (Nat.toDigits 10 s.offset.toNat ++
          (" branch=".toList ++ (s.selectedBranch.value.toList ++ [' '])))))) :=
      (hsession.before hoffset (by simp)).after (by decide)
    unfold SessionSnapshot.inspectComment
    simp only [append_assoc]
    exact hall

end Comment

/-- A well-formed tree of elements that can be written is written as a document. -/
theorem document_inspectXml {s : SessionSnapshot} (hwf : s.WellFormed)
    (hsession : SingleHyphens s.sessionId.value.toList)
    (hbranch : SingleHyphens s.selectedBranch.value.toList)
    (hnodes : ∀ (key : ElementId) (node : Node), s.nodes[key]? = some node →
      Writable node.element) : Xml.Document s.inspectXml := by
  obtain ⟨name, attributes, content, hname, hattributes, hcontent, hvisit⟩ :=
    visit_element hnodes (complete_root hwf) 0
  have hnewline : Xml.Space ['\n'] := forall_mem_singleton.mpr (.inr (.inr (.inl rfl)))
  have hroot : Xml.Document (visit s.nodes s.nodes.size rootId 0) := by
    rw [hvisit]
    exact .element hname hattributes hcontent hnewline
  have hdocument := Xml.Document.comment (comment_inspectComment hsession hbranch)
    (.space hnewline hroot)
  unfold SessionSnapshot.inspectXml
  simpa using hdocument

end Omp2.State
