import Omp2.Library.Tags

/-!
# Scanning a text for the first of several tags

A scan that looks for the leftmost of several tags can take a text in parts: a tag that is found in
a part is found in the whole, and what can be passed on of a part without a tag is all but an end
that may start one.
-/

namespace Omp2.Tags

open List

variable {τ : Type*} (tags : Alphabet τ)

/-- The leftmost of some tags: what stands before it, the tag, and what follows it. -/
def firstOf (wanted : List τ) : List Char → Option (List Char × τ × List Char)
  | [] => none
  | c :: cs =>
    match wanted.find? fun tag => (tags.text tag).isPrefixOf (c :: cs) with
    | some tag => some ([], tag, (c :: cs).drop (tags.text tag).length)
    | none => (firstOf wanted cs).map fun found => (c :: found.1, found.2)

/-- The parts of a text before and from the last place of a character (`str::rfind`). -/
def splitLast (c : Char) : List Char → Option (List Char × List Char)
  | [] => none
  | d :: cs =>
    match splitLast c cs with
    | some parts => some (d :: parts.1, parts.2)
    | none => if d = c then some ([], d :: cs) else none

variable {tags} {wanted : List τ} {tag other : τ} {c : Char}
  {cs text front before after : List Char}

/-! ## One place of a text -/

theorem firstOf_step (h : ∀ tag ∈ wanted, ¬tags.text tag <+: c :: cs) :
    firstOf tags wanted (c :: cs) =
      (firstOf tags wanted cs).map fun found => (c :: found.1, found.2) := by
  have hnone : wanted.find? (fun tag => (tags.text tag).isPrefixOf (c :: cs)) = none :=
    find?_eq_none.mpr fun tag htag hstart => h tag htag (List.isPrefixOf_iff_prefix.mp hstart)
  rw [firstOf, hnone]

/-- A tag is found where it starts. -/
theorem firstOf_text (htag : tag ∈ wanted) (rest : List Char) :
    firstOf tags wanted (tags.text tag ++ rest) = some ([], tag, rest) := by
  have hsplit : tags.text tag ++ rest = '<' :: (tags.name tag ++ ['>'] ++ rest) := rfl
  cases hfind : wanted.find? (fun tag' => (tags.text tag').isPrefixOf (tags.text tag ++ rest)) with
  | none =>
      refine absurd (find?_eq_none.mp hfind tag htag) (not_not_intro ?_)
      exact isPrefixOf_iff_prefix.mpr (prefix_append _ _)
  | some found =>
      have hfound := find?_some hfind
      have hstart := isPrefixOf_iff_prefix.mp hfound
      have heq : tag = found := by_contra fun hne => not_text_prefix hne hstart
      subst heq
      rw [hsplit] at hfind ⊢
      rw [firstOf, hfind]
      dsimp only
      rw [← hsplit, drop_left]

theorem text_prefix_cases {rest : List Char} (h : tags.text tag <+: text ++ rest) :
    tags.text tag <+: text ∨ text <+: tags.text tag :=
  prefix_or_prefix_of_prefix h (prefix_append _ _)

theorem not_mem_of_prefix_text (h : c :: cs <+: tags.text tag) : c = '<' ∧ '<' ∉ cs := by
  obtain ⟨rest, heq⟩ := h
  obtain ⟨hc, hrest⟩ := cons.inj heq
  refine ⟨hc, fun hmem => ?_⟩
  have htail : '<' ∈ tags.name tag ++ ['>'] := hrest ▸ mem_append_left _ hmem
  rcases mem_append.mp htail with hname | hclose
  · exact tags.noOpen tag hname
  · exact absurd (mem_singleton.mp hclose) (by decide)

/-! ## The whole text -/

/-- What was found stands there. -/
theorem firstOf_eq_some (h : firstOf tags wanted text = some (before, tag, after)) :
    text = before ++ tags.text tag ++ after ∧ tag ∈ wanted := by
  induction text generalizing before with
  | nil => cases h
  | cons c cs ih =>
      unfold firstOf at h
      split at h
      · next found hfind =>
        cases h
        have hfound := find?_some hfind
        have hstart := isPrefixOf_iff_prefix.mp hfound
        exact ⟨prefix_iff_eq_append.mp hstart |>.symm, mem_of_find?_eq_some hfind⟩
      · obtain ⟨⟨front, found⟩, hfound, heq⟩ := Option.map_eq_some_iff.mp h
        cases heq
        obtain ⟨hcs, hmem⟩ := ih hfound
        exact ⟨congrArg (c :: ·) hcs, hmem⟩

/-- A text in which nothing is found holds no tag. -/
theorem firstOf_eq_none :
    firstOf tags wanted text = none ↔ ∀ tag ∈ wanted, ¬tags.text tag <:+: text := by
  induction text with
  | nil => exact iff_of_true rfl fun tag _ h => nomatch infix_nil.mp h
  | cons c cs ih =>
      by_cases hstart : ∃ tag ∈ wanted, tags.text tag <+: c :: cs
      · obtain ⟨tag, htag, rest, heq⟩ := hstart
        rw [← heq, firstOf_text htag]
        exact iff_of_false nofun fun h => h tag htag (prefix_append _ _).isInfix
      · have hno : ∀ tag ∈ wanted, ¬tags.text tag <+: c :: cs :=
          fun tag htag h => hstart ⟨tag, htag, h⟩
        rw [firstOf_step hno, Option.map_eq_none_iff, ih]
        refine forall₂_congr fun tag htag => not_congr ?_
        rw [infix_cons_iff]
        exact (or_iff_right (hno tag htag)).symm

/-- More text after it does not change what is found. -/
theorem firstOf_append (h : firstOf tags wanted text = some (before, tag, after))
    (rest : List Char) :
    firstOf tags wanted (text ++ rest) = some (before, tag, after ++ rest) := by
  induction text generalizing before with
  | nil => cases h
  | cons c cs ih =>
      by_cases hstart : ∃ tag ∈ wanted, tags.text tag <+: c :: cs
      · obtain ⟨found, hfound, tail, heq⟩ := hstart
        rw [← heq, firstOf_text hfound] at h
        cases h
        rw [← heq, append_assoc, firstOf_text hfound]
      · have hno : ∀ tag ∈ wanted, ¬tags.text tag <+: c :: cs :=
          fun tag htag h => hstart ⟨tag, htag, h⟩
        rw [firstOf_step hno] at h
        obtain ⟨⟨front, found⟩, hfound, heq⟩ := Option.map_eq_some_iff.mp h
        cases heq
        have hmore := ih hfound
        obtain ⟨hcs, hmem⟩ := firstOf_eq_some hfound
        have hno' : ∀ tag ∈ wanted, ¬tags.text tag <+: c :: (cs ++ rest) := by
          intro other hother hprefix
          rcases @text_prefix_cases _ _ _ (c :: cs) _ hprefix with hin | hpart
          · exact hno other hother hin
          · refine (not_mem_of_prefix_text hpart).2 (hcs ▸ ?_)
            exact mem_append_left _ (mem_append_right _ mem_cons_self)
        rw [cons_append, firstOf_step hno', hmore]
        rfl

/-- A part without a tag is walked over up to where a tag may start that ends after it. -/
theorem firstOf_walk {front held : List Char} (rest : List Char)
    (hnone : firstOf tags wanted (front ++ held) = none)
    (hheld : ∀ part, part ≠ [] → part <:+ front → ∀ tag ∈ wanted,
      ¬part ++ held <+: tags.text tag) :
    firstOf tags wanted (front ++ (held ++ rest)) =
      (firstOf tags wanted (held ++ rest)).map fun found => (front ++ found.1, found.2) := by
  induction front with
  | nil => simp
  | cons c front ih =>
      have hno : ∀ tag ∈ wanted, ¬tags.text tag <+: c :: (front ++ (held ++ rest)) := by
        intro tag htag hstart
        rw [← append_assoc] at hstart
        rcases @text_prefix_cases _ _ _ (c :: (front ++ held)) _ hstart with hin | hpart
        · exact firstOf_eq_none.mp hnone tag htag hin.isInfix
        · exact hheld (c :: front) nofun suffix_rfl tag htag hpart
      have htail : firstOf tags wanted (front ++ held) = none := by
        rw [firstOf_eq_none] at hnone ⊢
        exact fun tag htag hin => hnone tag htag (hin.trans (suffix_cons _ _).isInfix)
      rw [cons_append, firstOf_step hno,
        ih htail fun part hne hpart => hheld part hne (hpart.trans (suffix_cons _ _)),
        Option.map_map]
      rfl

/-- Characters that cannot start a tag are walked over. -/
theorem firstOf_skip (hfront : '<' ∉ front) (rest : List Char) :
    firstOf tags wanted (front ++ rest) =
      (firstOf tags wanted rest).map fun found => (front ++ found.1, found.2) := by
  induction front with
  | nil => simp
  | cons c front ih =>
      rw [mem_cons, not_or] at hfront
      have hno : ∀ tag ∈ wanted, ¬tags.text tag <+: c :: (front ++ rest) := by
        rintro tag - ⟨more, heq⟩
        exact hfront.1 (cons.inj heq).1
      rw [cons_append, firstOf_step hno, ih hfront.2, Option.map_map]
      rfl

/-- A tag that is not looked for is walked over. -/
theorem firstOf_other (hother : other ∉ wanted) (rest : List Char) :
    firstOf tags wanted (tags.text other ++ rest) =
      (firstOf tags wanted rest).map fun found => (tags.text other ++ found.1, found.2) := by
  have hno : ∀ tag ∈ wanted, ¬tags.text tag <+: '<' :: (tags.name other ++ ['>'] ++ rest) :=
    fun tag htag => not_text_prefix (ne_of_mem_of_not_mem htag hother).symm
  have hskip : '<' ∉ tags.name other ++ ['>'] := by
    simp [tags.noOpen other]
  show firstOf tags wanted ('<' :: (tags.name other ++ ['>'] ++ rest)) = _
  rw [firstOf_step hno, firstOf_skip hskip, Option.map_map]
  rfl

/-- A part without a tag is walked over up to a bracket. -/
theorem firstOf_bracket (hbefore : firstOf tags wanted before = none) (rest : List Char) :
    firstOf tags wanted (before ++ '<' :: rest) =
      (firstOf tags wanted ('<' :: rest)).map fun found => (before ++ found.1, found.2) := by
  have hnone : firstOf tags wanted (before ++ ['<']) = none := by
    rw [firstOf_eq_none] at hbefore ⊢
    rintro other hother ⟨x, y, heq⟩
    rcases eq_nil_or_concat y with rfl | ⟨y, d, rfl⟩
    · have hlast := congrArg getLast? heq
      simp only [Alphabet.text, append_nil, ← cons_append, ← append_assoc,
        getLast?_concat] at hlast
      exact absurd hlast (by decide)
    · rw [concat_eq_append, ← append_assoc] at heq
      exact hbefore other hother ⟨x, y, (append_inj' heq rfl).1⟩
  have hheld : ∀ part, part ≠ [] → part <:+ before → ∀ other ∈ wanted,
      ¬part ++ ['<'] <+: tags.text other := by
    intro part hne _ other _ hstart
    cases part with
    | nil => exact hne rfl
    | cons c part =>
      exact (not_mem_of_prefix_text hstart).2 (mem_append_right _ mem_cons_self)
  exact firstOf_walk rest hnone hheld

/-- A tag after a part without one is found. -/
theorem firstOf_found (hbefore : firstOf tags wanted before = none) (htag : tag ∈ wanted)
    (rest : List Char) :
    firstOf tags wanted (before ++ tags.text tag ++ rest) = some (before, tag, rest) := by
  have hwalk := firstOf_bracket hbefore (tags.name tag ++ ['>'] ++ rest)
  have hsplit : '<' :: (tags.name tag ++ ['>'] ++ rest) = tags.text tag ++ rest := rfl
  rw [hsplit, firstOf_text htag] at hwalk
  rw [append_assoc, hwalk, Option.map_some, append_nil]

/-- A tag that is not looked for is walked over after a part without one. -/
theorem firstOf_past (hbefore : firstOf tags wanted before = none) (hother : other ∉ wanted)
    (rest : List Char) :
    firstOf tags wanted (before ++ tags.text other ++ rest) =
      (firstOf tags wanted rest).map fun found =>
        (before ++ tags.text other ++ found.1, found.2) := by
  have hwalk := firstOf_bracket hbefore (tags.name other ++ ['>'] ++ rest)
  have hsplit : '<' :: (tags.name other ++ ['>'] ++ rest) = tags.text other ++ rest := rfl
  rw [hsplit, firstOf_other hother, Option.map_map] at hwalk
  rw [append_assoc, hwalk]
  refine congrArg (fun f => Option.map f (firstOf tags wanted rest)) ?_
  funext found
  rw [Function.comp_apply, append_assoc]

/-- Nothing is found in what stands before the tag that is found. -/
theorem firstOf_before (h : firstOf tags wanted text = some (before, tag, after)) :
    firstOf tags wanted before = none := by
  cases hbefore : firstOf tags wanted before with
  | none => rfl
  | some found =>
      obtain ⟨front, other, rest⟩ := found
      have htext := (firstOf_eq_some h).1
      have hlonger := firstOf_append hbefore (tags.text tag ++ after)
      rw [← append_assoc, ← htext, h] at hlonger
      have hfront : before = front := congrArg Prod.fst (Option.some.inj hlonger)
      have hlength := congrArg length (firstOf_eq_some hbefore).1
      simp [hfront, Alphabet.text] at hlength

/-! ## Fewer tags -/

variable {fewer : List τ}

theorem firstOf_none_of_subset (hsub : fewer ⊆ wanted) (h : firstOf tags wanted text = none) :
    firstOf tags fewer text = none := by
  rw [firstOf_eq_none] at h ⊢
  exact fun tag htag => h tag (hsub htag)

theorem firstOf_subset (hsub : fewer ⊆ wanted)
    (h : firstOf tags wanted text = some (before, tag, after)) (htag : tag ∈ fewer) :
    firstOf tags fewer text = some (before, tag, after) := by
  rw [(firstOf_eq_some h).1]
  exact firstOf_found (firstOf_none_of_subset hsub (firstOf_before h)) htag after

theorem firstOf_later (hsub : fewer ⊆ wanted)
    (h : firstOf tags wanted text = some (before, tag, after)) (htag : tag ∉ fewer) :
    firstOf tags fewer text = (firstOf tags fewer after).map fun found =>
      (before ++ tags.text tag ++ found.1, found.2) := by
  rw [(firstOf_eq_some h).1]
  exact firstOf_past (firstOf_none_of_subset hsub (firstOf_before h)) htag after

/-- Searching a text for one tag is scanning it for that tag alone. -/
theorem splitOnce_eq_firstOf (tag : τ) (text : List Char) :
    Text.splitOnce (tags.text tag) text =
      (firstOf tags [tag] text).map fun found => (found.1, found.2.2) := by
  induction text with
  | nil => rfl
  | cons c cs ih =>
      by_cases hstart : tags.text tag <+: c :: cs
      · obtain ⟨rest, heq⟩ := hstart
        rw [← heq, splitOnce_text, firstOf_text (mem_singleton_self tag)]
        rfl
      · have hno : ∀ other ∈ [tag], ¬tags.text other <+: c :: cs := by
          simpa using hstart
        have hprefix : (tags.text tag).isPrefixOf (c :: cs) = false :=
          Bool.eq_false_iff.mpr fun hmatch => hstart (List.isPrefixOf_iff_prefix.mp hmatch)
        rw [firstOf_step hno, Text.splitOnce, hprefix, if_neg Bool.false_ne_true, ih,
          Option.map_map, Option.map_map]
        rfl

/-! ## The end that may start a tag -/

theorem splitLast_eq_none : splitLast c cs = none ↔ c ∉ cs := by
  induction cs with
  | nil => exact iff_of_true rfl not_mem_nil
  | cons d cs ih =>
      unfold splitLast
      split
      · next parts hparts =>
        refine iff_of_false nofun fun h => ?_
        rw [ih.mpr fun hmem => h (mem_cons_of_mem _ hmem)] at hparts
        cases hparts
      · next hnone =>
        have hcs := ih.mp hnone
        split
        · next heq => exact iff_of_false nofun fun h => h (heq ▸ mem_cons_self)
        · next hne =>
          exact iff_of_true rfl (not_mem_cons_of_ne_of_not_mem (Ne.symm hne) hcs)

/-- The last part starts with the only such character in it. -/
theorem splitLast_eq_some (h : splitLast c cs = some (before, after)) :
    cs = before ++ after ∧ ∃ tail, after = c :: tail ∧ c ∉ tail := by
  induction cs generalizing before with
  | nil => cases h
  | cons d cs ih =>
      unfold splitLast at h
      split at h
      · next parts hparts =>
        cases h
        obtain ⟨heq, htail⟩ := ih hparts
        exact ⟨congrArg (d :: ·) heq, htail⟩
      · next hnone =>
        split at h
        · next heq =>
          cases h
          exact ⟨rfl, cs, by rw [heq], splitLast_eq_none.mp hnone⟩
        · cases h

/-- What follows the last place of a character is determined. -/
theorem last_unique {front tail tail' : List Char}
    (h : front ++ c :: tail = before ++ c :: tail') (htail : c ∉ tail) (htail' : c ∉ tail') :
    tail = tail' := by
  rcases append_eq_append_iff.mp h with ⟨middle, -, heq⟩ | ⟨middle, -, heq⟩
  · cases middle with
    | nil => exact (cons.inj heq).2
    | cons d middle =>
      have hmem : c ∈ tail :=
        (cons.inj heq).2 ▸ mem_append_right middle mem_cons_self
      exact absurd hmem htail
  · cases middle with
    | nil => exact (cons.inj heq).2.symm
    | cons d middle =>
      have hmem : c ∈ tail' :=
        (cons.inj heq).2 ▸ mem_append_right middle mem_cons_self
      exact absurd hmem htail'

/-- A part without a tag can be passed on up to its last bracket. -/
theorem firstOf_held (hnone : firstOf tags wanted text = none)
    (h : splitLast '<' text = some (before, after)) (rest : List Char) :
    firstOf tags wanted (text ++ rest) =
      (firstOf tags wanted (after ++ rest)).map fun found => (before ++ found.1, found.2) := by
  obtain ⟨rfl, tail, rfl, -⟩ := splitLast_eq_some h
  rw [append_assoc]
  refine firstOf_walk rest hnone fun part hne _ tag _ hstart => ?_
  cases part with
  | nil => exact hne rfl
  | cons c part =>
      exact (not_mem_of_prefix_text hstart).2 (mem_append_right _ mem_cons_self)

/-- A part without a tag is passed on whole where its end starts no tag. -/
theorem firstOf_released (hnone : firstOf tags wanted text = none)
    (h : ∀ before after, splitLast '<' text = some (before, after) →
      ∀ tag ∈ wanted, ¬after <+: tags.text tag) (rest : List Char) :
    firstOf tags wanted (text ++ rest) =
      (firstOf tags wanted rest).map fun found => (text ++ found.1, found.2) := by
  have hwalk := @firstOf_walk _ tags wanted text [] rest (by rwa [append_nil]) ?_
  · exact hwalk
  · intro part hne hpart tag htag hstart
    rw [append_nil] at hstart
    obtain ⟨front, rfl⟩ := hpart
    cases part with
    | nil => exact hne rfl
    | cons c part =>
      obtain ⟨rfl, hpart⟩ := not_mem_of_prefix_text hstart
      cases hlast : splitLast '<' (front ++ '<' :: part) with
      | none =>
        exact splitLast_eq_none.mp hlast (mem_append_right _ mem_cons_self)
      | some parts =>
        obtain ⟨heq, tail, htail, htailmem⟩ := splitLast_eq_some hlast
        have hsame : '<' :: part = parts.2 := by
          rw [htail] at heq ⊢
          exact congrArg _ (last_unique heq hpart htailmem)
        exact h parts.1 parts.2 hlast tag htag (hsame ▸ hstart)

end Omp2.Tags
