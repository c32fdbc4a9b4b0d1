import Omp2.Library.Text

/-!
# Tags in a text

A tag is a name between angle brackets. No two tags overlap, so a text has one reading as a list of
tags and plain characters, and searching the text for a tag is searching the reading for it.
-/

namespace Omp2.Tags

open List

variable {τ : Type*}

/-- An alphabet of tags: their names are different and hold no angle bracket. -/
structure Alphabet (τ : Type*) where
  name : τ → List Char
  noOpen : ∀ tag, '<' ∉ name tag
  noClose : ∀ tag, '>' ∉ name tag
  distinct : ∀ ⦃tag other⦄, name tag = name other → tag = other

/-- A tag as it is written. -/
def Alphabet.text (tags : Alphabet τ) (tag : τ) : List Char :=
  '<' :: (tags.name tag ++ ['>'])

/-- A tag or a plain character. -/
inductive Token (τ : Type*) where
  | tag (tag : τ)
  | plain (c : Char)
  deriving DecidableEq

variable (tags : Alphabet τ)

/-- The characters of a reading. -/
def render : List (Token τ) → List Char
  | [] => []
  | .tag tag :: rest => tags.text tag ++ render rest
  | .plain c :: rest => c :: render rest

/-- No tag starts at a character that is read as plain. -/
def Normal : List (Token τ) → Prop
  | [] => True
  | .tag _ :: rest => Normal rest
  | .plain c :: rest => (∀ tag, ¬tags.text tag <+: c :: render tags rest) ∧ Normal rest

variable {tags}

theorem Normal.tail {token : Token τ} {rest : List (Token τ)} (h : Normal tags (token :: rest)) :
    Normal tags rest := by
  cases token with
  | tag _ => exact h
  | plain _ => exact h.2

theorem Normal.right {front rest : List (Token τ)} (h : Normal tags (front ++ rest)) :
    Normal tags rest := by
  induction front with
  | nil => exact h
  | cons token front ih => exact ih h.tail

theorem render_append (front rest : List (Token τ)) :
    render tags (front ++ rest) = render tags front ++ render tags rest := by
  induction front with
  | nil => rfl
  | cons token front ih =>
      cases token with
      | tag tag =>
        show tags.text tag ++ render tags (front ++ rest) = _
        rw [ih, ← append_assoc]
        rfl
      | plain c =>
        show c :: render tags (front ++ rest) = _
        rw [ih]
        rfl

/-- Every text has a reading. -/
theorem exists_normal (tags : Alphabet τ) (text : List Char) :
    ∃ tokens, Normal tags tokens ∧ render tags tokens = text := by
  induction hlength : text.length using Nat.strong_induction_on generalizing text with
  | _ n ih =>
      by_cases htag : ∃ tag, tags.text tag <+: text
      · obtain ⟨tag, rest, rfl⟩ := htag
        have hshort : rest.length < n := by
          rw [← hlength, length_append]
          exact Nat.lt_add_of_pos_left (Nat.succ_pos _)
        obtain ⟨tokens, hnormal, hrender⟩ := ih _ hshort rest rfl
        exact ⟨.tag tag :: tokens, hnormal, congrArg (tags.text tag ++ ·) hrender⟩
      · cases text with
        | nil => exact ⟨[], trivial, rfl⟩
        | cons c rest =>
          have hshort : rest.length < n := by
            rw [← hlength]
            exact Nat.lt_succ_self _
          obtain ⟨tokens, hnormal, rfl⟩ := ih _ hshort rest rfl
          exact ⟨.plain c :: tokens, ⟨fun tag h => htag ⟨tag, h⟩, hnormal⟩, rfl⟩

/-! ## Searching for a tag -/

variable [DecidableEq τ]

/-- The tokens before and after the first place of a tag. -/
def splitTag (tag : τ) : List (Token τ) → Option (List (Token τ) × List (Token τ))
  | [] => none
  | token :: rest =>
    if token = .tag tag then some ([], rest)
    else (splitTag tag rest).map fun parts => (token :: parts.1, parts.2)

theorem splitTag_eq_some {tag : τ} {tokens front rest : List (Token τ)}
    (h : splitTag tag tokens = some (front, rest)) :
    tokens = front ++ .tag tag :: rest ∧ .tag tag ∉ front := by
  induction tokens generalizing front with
  | nil => cases h
  | cons token tokens ih =>
      unfold splitTag at h
      split at h
      · next heq =>
        cases h
        exact ⟨congrArg (· :: rest) heq, not_mem_nil⟩
      · next hne =>
        obtain ⟨⟨front, rest⟩, hparts, heq⟩ := Option.map_eq_some_iff.mp h
        cases heq
        obtain ⟨rfl, hfront⟩ := ih hparts
        exact ⟨rfl, not_mem_cons_of_ne_of_not_mem (Ne.symm hne) hfront⟩

theorem splitTag_eq_none {tag : τ} {tokens : List (Token τ)} :
    splitTag tag tokens = none ↔ .tag tag ∉ tokens := by
  induction tokens with
  | nil => exact iff_of_true rfl not_mem_nil
  | cons token tokens ih =>
      unfold splitTag
      split
      · next heq => exact iff_of_false nofun fun h => h (heq ▸ mem_cons_self)
      · next hne =>
        rw [Option.map_eq_none_iff, ih, mem_cons, not_or]
        exact (and_iff_right (Ne.symm hne)).symm

theorem splitTag_append {tag : τ} {front rest : List (Token τ)} (h : .tag tag ∉ front) :
    splitTag tag (front ++ Token.tag tag :: rest) = some (front, rest) := by
  induction front with
  | nil => exact if_pos rfl
  | cons token front ih =>
      rw [mem_cons, not_or] at h
      show (if _ then _ else (splitTag tag (front ++ Token.tag tag :: rest)).map _) = _
      rw [if_neg (Ne.symm h.1), ih h.2]
      rfl

/-- Characters that cannot start a tag are walked over. -/
theorem splitOnce_append {separator chunk text : List Char} (hchunk : '<' ∉ chunk) :
    Text.splitOnce ('<' :: separator) (chunk ++ text) =
      (Text.splitOnce ('<' :: separator) text).map fun parts => (chunk ++ parts.1, parts.2) := by
  induction chunk with
  | nil => simp
  | cons c chunk ih =>
      rw [mem_cons, not_or] at hchunk
      have hstart : isPrefixOf ('<' :: separator) (c :: (chunk ++ text)) = false := by
        simp [isPrefixOf, hchunk.1]
      rw [cons_append, Text.splitOnce, hstart, ih hchunk.2, Option.map_map]
      rfl

omit [DecidableEq τ] in
/-- A tag is found where it stands. -/
theorem splitOnce_text (tag : τ) (text : List Char) :
    Text.splitOnce (tags.text tag) (tags.text tag ++ text) = some ([], text) := by
  have hstart : isPrefixOf (tags.text tag) (tags.text tag ++ text) = true :=
    isPrefixOf_iff_prefix.mpr (prefix_append _ _)
  have hsplit : tags.text tag ++ text = '<' :: (tags.name tag ++ ['>'] ++ text) := rfl
  rw [hsplit] at hstart ⊢
  rw [Text.splitOnce, if_pos hstart, ← hsplit, drop_left]

omit [DecidableEq τ] in
/-- A tag does not start where another one stands. -/
theorem not_text_prefix {tag other : τ} {text : List Char} (hne : other ≠ tag) :
    ¬tags.text tag <+: tags.text other ++ text := by
  rintro ⟨rest, heq⟩
  have hnames : tags.name tag ++ '>' :: rest = tags.name other ++ '>' :: text := by
    have htail := tail_eq_of_cons_eq heq
    simpa using htail
  have hname : ∀ (name : τ) (more : List Char),
      (tags.name name ++ '>' :: more).takeWhile (· ≠ '>') = tags.name name := by
    intro name more
    rw [takeWhile_append_of_pos fun c hc => ?_]
    · simp
    · exact decide_eq_true fun hclose => tags.noClose name (hclose ▸ hc)
  have hequal := congrArg (takeWhile (· ≠ '>')) hnames
  rw [hname, hname] at hequal
  exact hne (tags.distinct hequal).symm

omit [DecidableEq τ] in
/-- Another tag is walked over. -/
theorem splitOnce_other {tag other : τ} {text : List Char} (hne : other ≠ tag) :
    Text.splitOnce (tags.text tag) (tags.text other ++ text) =
      (Text.splitOnce (tags.text tag) text).map fun parts =>
        (tags.text other ++ parts.1, parts.2) := by
  have hstart : isPrefixOf (tags.text tag) (tags.text other ++ text) = false :=
    Bool.eq_false_iff.mpr fun hmatch => not_text_prefix hne (List.isPrefixOf_iff_prefix.mp hmatch)
  have hsplit : tags.text other ++ text = '<' :: ((tags.name other ++ ['>']) ++ text) := rfl
  have hchunk : '<' ∉ tags.name other ++ ['>'] := by
    simp [tags.noOpen other]
  rw [hsplit] at hstart ⊢
  rw [Text.splitOnce, hstart]
  show (Text.splitOnce ('<' :: (tags.name tag ++ ['>'])) _).map _ = _
  rw [splitOnce_append hchunk, Option.map_map]
  rfl

/-- Searching a text for a tag is searching its reading for the tag. -/
theorem splitOnce_render {tag : τ} {tokens : List (Token τ)} (h : Normal tags tokens) :
    Text.splitOnce (tags.text tag) (render tags tokens) =
      (splitTag tag tokens).map fun parts => (render tags parts.1, render tags parts.2) := by
  induction tokens with
  | nil => rfl
  | cons token tokens ih =>
      have hih := ih h.tail
      cases token with
      | plain c =>
        have hstart : isPrefixOf (tags.text tag) (c :: render tags tokens) = false :=
          Bool.eq_false_iff.mpr fun hmatch => h.1 tag (List.isPrefixOf_iff_prefix.mp hmatch)
        show Text.splitOnce (tags.text tag) (c :: render tags tokens) = _
        have hsplit : splitTag tag (.plain c :: tokens) =
            (splitTag tag tokens).map fun parts => (.plain c :: parts.1, parts.2) :=
          if_neg nofun
        rw [Text.splitOnce, hstart, if_neg Bool.false_ne_true, hih, hsplit, Option.map_map,
          Option.map_map]
        rfl
      | tag other =>
        show Text.splitOnce (tags.text tag) (tags.text other ++ render tags tokens) = _
        by_cases heq : other = tag
        · subst heq
          rw [splitOnce_text, splitTag, if_pos rfl]
          rfl
        · rw [splitOnce_other heq, hih, splitTag, if_neg (by simpa using heq), Option.map_map,
            Option.map_map]
          rfl

end Omp2.Tags
