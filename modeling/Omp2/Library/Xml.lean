import Mathlib.Data.Bool.AllAny
import Mathlib.Data.List.Basic
import Mathlib.Data.List.Chain

/-!
# The grammar of XML texts

Characters, names, character data, attribute values, comments, elements and documents of
XML 1.0, as far as a text has no processing instructions, marked sections, declarations or
empty-element tags, and no white space in a tag but a blank before each attribute.
`escape` writes four characters as references to entities, and what it writes may stand in
character data and between quotes whenever all characters are characters of XML.
-/

namespace Omp2.Xml

open List

/-! ## Characters and names -/

/-- `Char`. -/
def XmlChar (c : Char) : Prop :=
  c.toNat = 0x9 ∨ c.toNat = 0xa ∨ c.toNat = 0xd ∨ (0x20 ≤ c.toNat ∧ c.toNat ≤ 0xd7ff) ∨
    (0xe000 ≤ c.toNat ∧ c.toNat ≤ 0xfffd) ∨ (0x10000 ≤ c.toNat ∧ c.toNat ≤ 0x10ffff)

instance : DecidablePred XmlChar := fun _ => inferInstanceAs (Decidable (_ ∨ _))

/-- `NameStartChar`. -/
def NameStartChar (c : Char) : Prop :=
  c = ':' ∨ c.isAlpha ∨ c = '_' ∨
    ∃ range ∈ [(0xc0, 0xd6), (0xd8, 0xf6), (0xf8, 0x2ff), (0x370, 0x37d), (0x37f, 0x1fff),
      (0x200c, 0x200d), (0x2070, 0x218f), (0x2c00, 0x2fef), (0x3001, 0xd7ff), (0xf900, 0xfdcf),
      (0xfdf0, 0xfffd), (0x10000, 0xeffff)], range.1 ≤ c.toNat ∧ c.toNat ≤ range.2

/-- `NameChar`. -/
def NameChar (c : Char) : Prop :=
  NameStartChar c ∨ c = '-' ∨ c = '.' ∨ c.isDigit ∨ c.toNat = 0xb7 ∨
    (0x300 ≤ c.toNat ∧ c.toNat ≤ 0x36f) ∨ (0x203f ≤ c.toNat ∧ c.toNat ≤ 0x2040)

/-- `Name`. -/
def Name : List Char → Prop
  | [] => False
  | c :: cs => NameStartChar c ∧ ∀ d ∈ cs, NameChar d

/-! ## Text -/

/-- The entities that every document has. -/
def entities : List (List Char) :=
  [['a', 'm', 'p'], ['l', 't'], ['g', 't'], ['q', 'u', 'o', 't'], ['a', 'p', 'o', 's']]

/-- Characters with references to entities between them. -/
inductive Referring (plain : Char → Prop) : List Char → Prop where
  | nil : Referring plain []
  | char {c cs} (hplain : plain c) (hrest : Referring plain cs) : Referring plain (c :: cs)
  | reference {name cs} (hname : name ∈ entities) (hrest : Referring plain cs) :
      Referring plain ('&' :: (name ++ ';' :: cs))

/-- Character data and references: no markup begins in it, and it does not end a marked
section. -/
def CharData (cs : List Char) : Prop :=
  Referring (fun c => XmlChar c ∧ c ≠ '<' ∧ c ≠ '&') cs ∧ ¬ [']', ']', '>'] <:+: cs

/-- What stands between the double quotes of an attribute value. -/
def AttValue (cs : List Char) : Prop :=
  Referring (fun c => XmlChar c ∧ c ≠ '<' ∧ c ≠ '&' ∧ c ≠ '"') cs

/-- What stands between the ends of a comment. -/
structure Comment (cs : List Char) : Prop where
  chars : ∀ c ∈ cs, XmlChar c
  hyphens : cs.IsChain fun c d => c = '-' → d ≠ '-'
  last : cs.getLast? ≠ some '-'

/-! ## Elements -/

/-- An attribute in a start tag. -/
def attributeText (a : List Char × List Char) : List Char :=
  ' ' :: (a.1 ++ ['=', '"'] ++ a.2 ++ ['"'])

/-- A start tag. -/
def startTag (name : List Char) (attributes : List (List Char × List Char)) : List Char :=
  '<' :: (name ++ attributes.flatMap attributeText ++ ['>'])

/-- An end tag. -/
def endTag (name : List Char) : List Char :=
  ['<', '/'] ++ name ++ ['>']

/-- Names and values of attributes, no name twice. -/
structure Attributes (attributes : List (List Char × List Char)) : Prop where
  names : ∀ a ∈ attributes, Name a.1
  values : ∀ a ∈ attributes, AttValue a.2
  distinct : (attributes.map Prod.fst).Nodup

mutual
/-- An element or a comment. -/
inductive Item : List Char → Prop where
  | element {name attributes content} (hname : Name name) (hattributes : Attributes attributes)
      (hcontent : Content content) : Item (startTag name attributes ++ content ++ endTag name)
  | comment {body} (hbody : Comment body) :
      Item (['<', '!', '-', '-'] ++ body ++ ['-', '-', '>'])

/-- The content of an element: items with character data around them. -/
inductive Content : List Char → Prop where
  | data {cs} (hdata : CharData cs) : Content cs
  | item {data item rest} (hdata : CharData data) (hitem : Item item) (hrest : Content rest) :
      Content (data ++ item ++ rest)
end

/-- White space. -/
def Space (cs : List Char) : Prop :=
  ∀ c ∈ cs, c = ' ' ∨ c = '\t' ∨ c = '\n' ∨ c = '\r'

/-- Comments and white space around one element. -/
inductive Document : List Char → Prop where
  | element {name attributes content space} (hname : Name name)
      (hattributes : Attributes attributes) (hcontent : Content content) (hspace : Space space) :
      Document (startTag name attributes ++ content ++ endTag name ++ space)
  | space {space rest} (hspace : Space space) (hrest : Document rest) : Document (space ++ rest)
  | comment {body rest} (hbody : Comment body) (hrest : Document rest) :
      Document (['<', '!', '-', '-'] ++ body ++ ['-', '-', '>'] ++ rest)

/-! ## Characters of a document -/

theorem xmlChar_of_ascii {c : Char} (hlow : 0x20 ≤ c.toNat) (hhigh : c.toNat ≤ 0x7e) :
    XmlChar c :=
  .inr (.inr (.inr (.inl ⟨hlow, by omega⟩)))

theorem xmlChar_of_space {cs : List Char} (h : Space cs) : ∀ c ∈ cs, XmlChar c := by
  intro c hc
  rcases h c hc with rfl | rfl | rfl | rfl <;> decide

/-- A letter is in ASCII. -/
theorem ascii_of_isAlphanum {c : Char} (h : c.isAlphanum = true) :
    0x20 ≤ c.toNat ∧ c.toNat ≤ 0x7e := by
  delta Char.isAlphanum Char.isAlpha Char.isUpper Char.isLower Char.isDigit at h
  simp only [Bool.or_eq_true, Bool.and_eq_true, decide_eq_true_eq, UInt32.le_iff_toNat_le, ge_iff_le] at h
  simp only [Char.toNat]
  have hA : 'A'.val.toNat = 65 := rfl
  have hZ : 'Z'.val.toNat = 90 := rfl
  have ha : 'a'.val.toNat = 97 := rfl
  have hz : 'z'.val.toNat = 122 := rfl
  have h0 : '0'.val.toNat = 48 := rfl
  have h9 : '9'.val.toNat = 57 := rfl
  omega

/-- The first character of a name is a character of XML. -/
theorem xmlChar_of_nameStartChar {c : Char} (h : NameStartChar c) : XmlChar c := by
  rcases h with rfl | h | rfl | ⟨range, hrange, hlow, hhigh⟩
  · decide
  · obtain ⟨hlow, hhigh⟩ := ascii_of_isAlphanum (c := c) (by rw [Char.isAlphanum, h, Bool.true_or])
    exact xmlChar_of_ascii hlow hhigh
  · decide
  · unfold XmlChar
    simp only [mem_cons, not_mem_nil, or_false] at hrange
    rcases hrange with rfl | rfl | rfl | rfl | rfl | rfl | rfl | rfl | rfl | rfl | rfl | rfl <;>
      dsimp only at hlow hhigh <;> omega

theorem xmlChar_of_nameChar {c : Char} (h : NameChar c) : XmlChar c := by
  rcases h with h | rfl | rfl | h | h | h | h
  · exact xmlChar_of_nameStartChar h
  · decide
  · decide
  · obtain ⟨hlow, hhigh⟩ := ascii_of_isAlphanum (c := c) (by rw [Char.isAlphanum, h, Bool.or_true])
    exact xmlChar_of_ascii hlow hhigh
  all_goals unfold XmlChar; omega

theorem xmlChar_of_name {name : List Char} (h : Name name) : ∀ c ∈ name, XmlChar c := by
  cases name with
  | nil => exact h.elim
  | cons first rest =>
      exact forall_mem_cons.mpr ⟨xmlChar_of_nameStartChar h.1,
        fun c hc => xmlChar_of_nameChar (h.2 c hc)⟩

theorem xmlChar_of_entity : ∀ name ∈ entities, ∀ c ∈ name, XmlChar c := by
  have hall : ∀ name ∈ entities, (name.all fun c => XmlChar c) = true := by decide
  exact fun name hname => all_iff_forall_prop.mp (hall name hname)

/-- Characters with references are characters of XML when the characters are. -/
theorem Referring.chars {plain : Char → Prop} {cs : List Char} (h : Referring plain cs)
    (hplain : ∀ c, plain c → XmlChar c) : ∀ c ∈ cs, XmlChar c := by
  induction h with
  | nil => exact fun _ hc => absurd hc not_mem_nil
  | char hc _ ih => exact forall_mem_cons.mpr ⟨hplain _ hc, ih⟩
  | reference hname _ ih =>
      refine forall_mem_cons.mpr ⟨by decide, fun c hc => ?_⟩
      rcases mem_append.mp hc with hc | hc
      · exact xmlChar_of_entity _ hname c hc
      · rcases mem_cons.mp hc with rfl | hc
        · decide
        · exact ih c hc

theorem CharData.chars {cs : List Char} (h : CharData cs) : ∀ c ∈ cs, XmlChar c :=
  h.1.chars fun _ hc => hc.1

theorem xmlChar_append {cs more : List Char} (h : ∀ c ∈ cs, XmlChar c)
    (hmore : ∀ c ∈ more, XmlChar c) : ∀ c ∈ cs ++ more, XmlChar c :=
  fun c hc => (mem_append.mp hc).elim (h c) (hmore c)

/-- A start tag is made of characters of XML. -/
theorem xmlChar_of_startTag {name : List Char} {attributes : List (List Char × List Char)}
    (hname : Name name) (h : Attributes attributes) :
    ∀ c ∈ startTag name attributes, XmlChar c := by
  refine forall_mem_cons.mpr ⟨by decide, xmlChar_append (xmlChar_append
    (xmlChar_of_name hname) fun c hc => ?_) (all_iff_forall_prop.mp (by decide))⟩
  obtain ⟨a, ha, hc⟩ := mem_flatMap.mp hc
  have hvalue : ∀ c ∈ a.2, XmlChar c := Referring.chars (h.values a ha) fun _ hc => hc.1
  exact forall_mem_cons (p := XmlChar).mpr ⟨by decide, xmlChar_append (xmlChar_append
    (xmlChar_append (xmlChar_of_name (h.names a ha)) (all_iff_forall_prop.mp (by decide))) hvalue)
    (all_iff_forall_prop.mp (by decide))⟩ c hc

theorem xmlChar_of_endTag {name : List Char} (hname : Name name) :
    ∀ c ∈ endTag name, XmlChar c :=
  xmlChar_append (xmlChar_append (all_iff_forall_prop.mp (by decide)) (xmlChar_of_name hname))
    (all_iff_forall_prop.mp (by decide))

theorem xmlChar_of_comment {body : List Char} (h : Comment body) :
    ∀ c ∈ ['<', '!', '-', '-'] ++ body ++ ['-', '-', '>'], XmlChar c :=
  xmlChar_append (xmlChar_append (all_iff_forall_prop.mp (by decide)) h.chars)
    (all_iff_forall_prop.mp (by decide))

mutual
theorem Item.chars {cs : List Char} : Item cs → ∀ c ∈ cs, XmlChar c
  | .element hname hattributes hcontent =>
    xmlChar_append (xmlChar_append (xmlChar_of_startTag hname hattributes) hcontent.chars)
      (xmlChar_of_endTag hname)
  | .comment hbody => xmlChar_of_comment hbody

theorem Content.chars {cs : List Char} : Content cs → ∀ c ∈ cs, XmlChar c
  | .data hdata => hdata.chars
  | .item hdata hitem hrest =>
    xmlChar_append (xmlChar_append hdata.chars hitem.chars) hrest.chars
end

/-- A document is made of characters of XML. -/
theorem Document.chars {cs : List Char} (h : Document cs) : ∀ c ∈ cs, XmlChar c := by
  induction h with
  | element hname hattributes hcontent hspace =>
      exact xmlChar_append (xmlChar_append (xmlChar_append
        (xmlChar_of_startTag hname hattributes) hcontent.chars) (xmlChar_of_endTag hname))
        (xmlChar_of_space hspace)
  | space hspace _ ih => exact xmlChar_append (xmlChar_of_space hspace) ih
  | comment hbody _ ih => exact xmlChar_append (xmlChar_of_comment hbody) ih

/-! ## Escaped text -/

/-- A character, as a reference if it may be markup. -/
def escapeChar (c : Char) : List Char :=
  if c = '&' then ['&', 'a', 'm', 'p', ';']
  else if c = '<' then ['&', 'l', 't', ';']
  else if c = '>' then ['&', 'g', 't', ';']
  else if c = '"' then ['&', 'q', 'u', 'o', 't', ';']
  else [c]

/-- A text with references for what may be markup. -/
def escape (cs : List Char) : List Char :=
  cs.flatMap escapeChar

/-- White space is character data. -/
theorem charData_space {cs : List Char} (h : Space cs) : CharData cs := by
  refine ⟨?_, fun hend => ?_⟩
  · induction cs with
    | nil => exact .nil
    | cons c cs ih =>
      obtain ⟨hc, hcs⟩ := forall_mem_cons.mp h
      refine .char ⟨xmlChar_of_space h c mem_cons_self, ?_⟩ (ih hcs)
      rcases hc with rfl | rfl | rfl | rfl <;> decide
  · have hmem : ']' ∈ cs := hend.subset (by decide)
    rcases h _ hmem with heq | heq | heq | heq <;> revert heq <;> decide

theorem charData_nil : CharData [] :=
  ⟨.nil, by decide⟩

/-- No escaped text has a character that may be markup. -/
theorem not_mem_escape {d : Char} (hd : d = '<' ∨ d = '>' ∨ d = '"') (cs : List Char) :
    d ∉ escape cs := by
  intro hmem
  obtain ⟨c, _, hmem⟩ := mem_flatMap.mp hmem
  unfold escapeChar at hmem
  split_ifs at hmem
  · rcases hd with rfl | rfl | rfl <;> revert hmem <;> decide
  · rcases hd with rfl | rfl | rfl <;> revert hmem <;> decide
  · rcases hd with rfl | rfl | rfl <;> revert hmem <;> decide
  · rcases hd with rfl | rfl | rfl <;> revert hmem <;> decide
  · rw [mem_singleton] at hmem
    subst hmem
    tauto

/-- Escaped text refers to entities, and has no character that may be markup. -/
theorem referring_escape {plain : Char → Prop} {cs : List Char}
    (h : ∀ c ∈ cs, c ≠ '&' → c ≠ '<' → c ≠ '>' → c ≠ '"' → plain c) :
    Referring plain (escape cs) := by
  induction cs with
  | nil => exact .nil
  | cons c cs ih =>
      obtain ⟨hc, hcs⟩ := forall_mem_cons.mp h
      have hrest := ih hcs
      unfold escape at hrest ⊢
      rw [flatMap_cons]
      unfold escapeChar
      split_ifs with hamp hlt hgt hquot
      · exact .reference (by decide : ['a', 'm', 'p'] ∈ entities) hrest
      · exact .reference (by decide : ['l', 't'] ∈ entities) hrest
      · exact .reference (by decide : ['g', 't'] ∈ entities) hrest
      · exact .reference (by decide : ['q', 'u', 'o', 't'] ∈ entities) hrest
      · exact .char (hc hamp hlt hgt hquot) hrest

theorem charData_escape {cs : List Char} (h : ∀ c ∈ cs, XmlChar c) : CharData (escape cs) := by
  refine ⟨referring_escape fun c hc hamp hlt _ _ => ⟨h c hc, hlt, hamp⟩, fun hend => ?_⟩
  exact not_mem_escape (.inr (.inl rfl)) cs (hend.subset (by decide))

theorem attValue_escape {cs : List Char} (h : ∀ c ∈ cs, XmlChar c) : AttValue (escape cs) :=
  referring_escape fun c hc hamp hlt _ hquot => ⟨h c hc, hlt, hamp, hquot⟩

/-- Two texts up to the first character that stops them. -/
theorem append_stop_inj {stops : Char → Prop} {cs ds rest rest' : List Char} {a b : Char}
    (hcs : ∀ c ∈ cs, ¬ stops c) (hds : ∀ d ∈ ds, ¬ stops d) (ha : stops a) (hb : stops b)
    (h : cs ++ a :: rest = ds ++ b :: rest') : cs = ds ∧ a = b ∧ rest = rest' := by
  induction cs generalizing ds with
  | nil =>
      cases ds with
      | nil => exact ⟨rfl, cons.inj h⟩
      | cons d ds => exact absurd ((cons.inj h).1 ▸ ha) (hds d mem_cons_self)
  | cons c cs ih =>
      obtain ⟨hc, hcs⟩ := forall_mem_cons.mp hcs
      cases ds with
      | nil => exact absurd ((cons.inj h).1 ▸ hb) hc
      | cons d ds =>
        obtain ⟨rfl, hmore⟩ := cons.inj h
        obtain ⟨rfl, hrest⟩ := ih hcs (fun d hd => hds d (mem_cons_of_mem _ hd)) hmore
        exact ⟨rfl, hrest⟩

theorem append_char_inj {stop : Char} {cs ds rest rest' : List Char} (hcs : stop ∉ cs)
    (hds : stop ∉ ds) (h : cs ++ stop :: rest = ds ++ stop :: rest') : cs = ds ∧ rest = rest' := by
  have hne {cs : List Char} (hcs : stop ∉ cs) : ∀ c ∈ cs, c ≠ stop :=
    fun c hc heq => hcs (heq ▸ hc)
  obtain ⟨hsame, _, hrest⟩ := append_stop_inj (hne hcs) (hne hds) rfl rfl h
  exact ⟨hsame, hrest⟩

theorem escapeChar_inj {c d : Char} {rest rest' : List Char}
    (h : escapeChar c ++ rest = escapeChar d ++ rest') : c = d ∧ rest = rest' := by
  unfold escapeChar at h
  split_ifs at h <;> simp only [cons_append, nil_append, cons.injEq] at h <;> grind

/-- What an escaped text stands for, up to a character that is never in one. -/
theorem escape_inj {stop : Char} (hstop : stop = '<' ∨ stop = '>' ∨ stop = '"')
    {cs ds rest rest' : List Char} (h : escape cs ++ stop :: rest = escape ds ++ stop :: rest') :
    cs = ds ∧ rest = rest' := by
  obtain ⟨hescaped, hrest⟩ :=
    append_char_inj (not_mem_escape hstop cs) (not_mem_escape hstop ds) h
  refine ⟨?_, hrest⟩
  clear h
  induction cs generalizing ds with
  | nil =>
      cases ds with
      | nil => rfl
      | cons d ds =>
        unfold escape at hescaped
        rw [flatMap_cons] at hescaped
        have hnil := (append_eq_nil_iff.mp hescaped.symm).1
        unfold escapeChar at hnil
        split_ifs at hnil
  | cons c cs ih =>
      cases ds with
      | nil =>
        unfold escape at hescaped
        rw [flatMap_cons] at hescaped
        have hnil := (append_eq_nil_iff.mp hescaped).1
        unfold escapeChar at hnil
        split_ifs at hnil
      | cons d ds =>
        unfold escape at hescaped
        rw [flatMap_cons, flatMap_cons] at hescaped
        obtain ⟨rfl, hmore⟩ := escapeChar_inj hescaped
        rw [ih hmore]

end Omp2.Xml
