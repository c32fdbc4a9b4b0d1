import Omp2.Library.Text

/-!
# Slices at byte positions

A program that cuts a UTF-8 string at byte positions is only safe where a position stands between
two characters. Cutting is partial here: it fails at a position inside a character or past the end.
A position that was reached by walking over characters is safe, and so is a position that a search
from a safe position has found.
-/

namespace Omp2.Slices

open Text List

/-- What follows the first bytes of a text. -/
def dropBytes : List Char → Nat → Option (List Char)
  | cs, 0 => some cs
  | [], _ + 1 => none
  | c :: cs, size => if c.utf8Size ≤ size then dropBytes cs (size - c.utf8Size) else none

/-- The first bytes of a text. -/
def takeBytes : List Char → Nat → Option (List Char)
  | _, 0 => some []
  | [], _ + 1 => none
  | c :: cs, size =>
    if c.utf8Size ≤ size then (takeBytes cs (size - c.utf8Size)).map (c :: ·) else none

/-- The text between two byte positions. -/
def slice (text : List Char) (first last : Nat) : Option (List Char) :=
  if first ≤ last then (dropBytes text first).bind fun rest => takeBytes rest (last - first)
  else none

/-- The byte position at which a pattern first stands. -/
def find (pattern text : List Char) : Option Nat :=
  (splitOnce pattern text).map fun parts => byteLength parts.1

theorem byteLength_append (front rest : List Char) :
    byteLength (front ++ rest) = byteLength front + byteLength rest := by
  unfold byteLength
  rw [map_append, sum_append]

theorem length_le_byteLength (cs : List Char) : cs.length ≤ byteLength cs := by
  induction cs with
  | nil => exact Nat.le_refl _
  | cons c cs ih =>
      have hc := c.utf8Size_pos
      show cs.length + 1 ≤ c.utf8Size + byteLength cs
      omega

theorem dropBytes_cons {c : Char} {cs : List Char} {size : Nat} (h : c.utf8Size ≤ size) :
    dropBytes (c :: cs) size = dropBytes cs (size - c.utf8Size) := by
  cases size with
  | zero => exact absurd c.utf8Size_pos (Nat.not_lt.mpr h)
  | succ size => exact if_pos h

theorem takeBytes_cons {c : Char} {cs : List Char} {size : Nat} (h : c.utf8Size ≤ size) :
    takeBytes (c :: cs) size = (takeBytes cs (size - c.utf8Size)).map (c :: ·) := by
  cases size with
  | zero => exact absurd c.utf8Size_pos (Nat.not_lt.mpr h)
  | succ size => exact if_pos h

theorem dropBytes_append (front rest : List Char) :
    dropBytes (front ++ rest) (byteLength front) = some rest := by
  induction front with
  | nil => exact dropBytes.eq_1 rest
  | cons c front ih =>
      have hlength : byteLength (c :: front) = c.utf8Size + byteLength front := rfl
      rw [cons_append, hlength, dropBytes_cons (Nat.le_add_right _ _),
        Nat.add_sub_cancel_left, ih]

theorem takeBytes_append (front rest : List Char) :
    takeBytes (front ++ rest) (byteLength front) = some front := by
  induction front with
  | nil => cases rest <;> rfl
  | cons c front ih =>
      have hlength : byteLength (c :: front) = c.utf8Size + byteLength front := rfl
      rw [cons_append, hlength, takeBytes_cons (Nat.le_add_right _ _),
        Nat.add_sub_cancel_left, ih]
      rfl

/-- What is left after a number of bytes is an end of the text. -/
theorem dropBytes_eq_some {cs rest : List Char} {size : Nat} (h : dropBytes cs size = some rest) :
    ∃ front, cs = front ++ rest ∧ byteLength front = size := by
  induction cs generalizing size with
  | nil =>
      cases size with
      | zero =>
        cases h
        exact ⟨[], rfl, rfl⟩
      | succ size => cases h
  | cons c cs ih =>
      cases size with
      | zero =>
        cases h
        exact ⟨[], rfl, rfl⟩
      | succ size =>
        unfold dropBytes at h
        split at h
        · next hle =>
          obtain ⟨front, rfl, hfront⟩ := ih h
          refine ⟨c :: front, rfl, ?_⟩
          show c.utf8Size + byteLength front = size + 1
          omega
        · cases h

/-- A number of first bytes is a start of the text. -/
theorem takeBytes_eq_some {cs front : List Char} {size : Nat} (h : takeBytes cs size = some front) :
    ∃ rest, cs = front ++ rest ∧ byteLength front = size := by
  induction cs generalizing front size with
  | nil =>
      cases size with
      | zero =>
        cases h
        exact ⟨[], rfl, rfl⟩
      | succ size => cases h
  | cons c cs ih =>
      cases size with
      | zero =>
        cases h
        exact ⟨c :: cs, rfl, rfl⟩
      | succ size =>
        unfold takeBytes at h
        split at h
        · next hle =>
          obtain ⟨tail, htail, rfl⟩ := Option.map_eq_some_iff.mp h
          obtain ⟨rest, rfl, hlength⟩ := ih htail
          refine ⟨rest, rfl, ?_⟩
          show c.utf8Size + byteLength tail = size + 1
          omega
        · cases h

/-! ## Safe positions -/

/-- The rest of the text starts at this byte position. -/
def At (text : List Char) (position : Nat) (rest : List Char) : Prop :=
  ∃ front, text = front ++ rest ∧ byteLength front = position

variable {text rest before after pattern : List Char} {position : Nat}

theorem at_start (text : List Char) : At text 0 text :=
  ⟨[], rfl, rfl⟩

theorem At.dropBytes (h : At text position rest) : dropBytes text position = some rest := by
  obtain ⟨front, rfl, rfl⟩ := h
  exact dropBytes_append front rest

theorem At.append (h : At text position (before ++ after)) :
    At text (position + byteLength before) after := by
  obtain ⟨front, rfl, rfl⟩ := h
  exact ⟨front ++ before, (append_assoc _ _ _).symm, byteLength_append _ _⟩

theorem At.slice (h : At text position (before ++ after)) :
    slice text position (position + byteLength before) = some before := by
  unfold Slices.slice
  rw [if_pos (Nat.le_add_right _ _), h.dropBytes, Option.bind_some, Nat.add_sub_cancel_left]
  exact takeBytes_append before after

theorem find_eq_some {size : Nat} (h : find pattern rest = some size) :
    ∃ before after, splitOnce pattern rest = some (before, after) ∧
      rest = before ++ (pattern ++ after) ∧ size = byteLength before := by
  obtain ⟨parts, hparts, rfl⟩ := Option.map_eq_some_iff.mp h
  refine ⟨parts.1, parts.2, hparts, ?_, rfl⟩
  rw [← append_assoc]
  exact splitOnce_eq_some hparts

theorem find_eq_none : find pattern rest = none ↔ splitOnce pattern rest = none :=
  Option.map_eq_none_iff

/-- Cutting in two steps. -/
theorem dropBytes_add (front rest : List Char) (size : Nat) :
    dropBytes (front ++ rest) (byteLength front + size) = dropBytes rest size := by
  induction front with
  | nil => rw [nil_append, show byteLength [] = 0 from rfl, Nat.zero_add]
  | cons c front ih =>
      have hlength : byteLength (c :: front) = c.utf8Size + byteLength front := rfl
      rw [cons_append, hlength, dropBytes_cons (by omega), ← ih]
      exact congrArg _ (by omega)

theorem At.dropBytes_add (h : At text position rest) (size : Nat) :
    Slices.dropBytes text (position + size) = Slices.dropBytes rest size := by
  obtain ⟨front, rfl, rfl⟩ := h
  exact Slices.dropBytes_add front rest size

theorem At.of_dropBytes {next : List Char} {size : Nat} (h : At text position rest)
    (hnext : Slices.dropBytes rest size = some next) : At text (position + size) next := by
  obtain ⟨front, rfl, rfl⟩ := dropBytes_eq_some hnext
  exact h.append

/-! ## The longest start that fits -/

theorem truncateChars_start (cs : List Char) (size : Nat) : truncateChars cs size <+: cs := by
  induction cs generalizing size with
  | nil => exact prefix_rfl
  | cons c cs ih =>
      unfold truncateChars
      split
      · exact (prefix_cons_inj c).mpr (ih _)
      · exact nil_prefix

/-- The start fits. -/
theorem byteLength_truncateChars_le (cs : List Char) (size : Nat) :
    byteLength (truncateChars cs size) ≤ size := by
  induction cs generalizing size with
  | nil => exact Nat.zero_le size
  | cons c cs ih =>
      unfold truncateChars
      split
      · next hfit =>
        have hrest := ih (size - c.utf8Size)
        show c.utf8Size + byteLength (truncateChars cs (size - c.utf8Size)) ≤ size
        omega
      · exact Nat.zero_le size

/-- A part that fits is kept. -/
theorem truncateChars_fits {front : List Char} {size : Nat} (h : byteLength front ≤ size)
    (rest : List Char) :
    truncateChars (front ++ rest) size =
      front ++ truncateChars rest (size - byteLength front) := by
  induction front generalizing size with
  | nil => rfl
  | cons c front ih =>
      have hlength : byteLength (c :: front) = c.utf8Size + byteLength front := rfl
      rw [cons_append, truncateChars, if_pos (by omega), ih (by omega), hlength,
        Nat.sub_add_eq]
      rfl

theorem truncateChars_eq_self {cs : List Char} {size : Nat} (h : byteLength cs ≤ size) :
    truncateChars cs size = cs := by
  have hfits := truncateChars_fits h []
  rwa [append_nil, truncateChars, append_nil] at hfits

theorem eq_of_prefix {front cs : List Char} (h : front <+: cs)
    (hlength : byteLength cs ≤ byteLength front) : front = cs := by
  obtain ⟨rest, rfl⟩ := h
  rw [byteLength_append] at hlength
  have hrest := length_le_byteLength rest
  rw [length_eq_zero_iff.mp (show rest.length = 0 by omega), append_nil]

end Omp2.Slices
