import Mathlib.Data.List.GetD
import Mathlib.Data.List.Induction
import Mathlib.Data.List.Perm.Subperm
import Mathlib.Order.MinMax

/-!
# Accumulators that are addressed by an index

Pieces arrive in any order, each with the index of the accumulator it is for. The accumulators are a
list that grows with defaults up to the index that is asked for. Each accumulator holds what the
pieces with its index add up to, and there is one for every index up to the largest, whether a piece
has it or not.
-/

namespace Omp2.Indexed

open List

variable {α β : Type*} (default : α) (add : α → β → α) (index : β → Nat)

/-- Change the accumulator with an index, after adding defaults up to it. -/
def put (slots : List α) (i : Nat) (f : α → α) : List α :=
  (slots ++ List.replicate (i + 1 - slots.length) default).modify i f

/-- The accumulators after these pieces. -/
def gather (slots : List α) (pieces : List β) : List α :=
  pieces.foldl (fun slots piece => put default slots (index piece) (add · piece)) slots

/-- What the pieces with an index add up to. -/
def total (pieces : List β) (i : Nat) : α :=
  (pieces.filter fun piece => index piece = i).foldl add default

/-- The number of accumulators that these pieces ask for. -/
def extent (pieces : List β) : Nat :=
  pieces.foldl (fun extent piece => max extent (index piece + 1)) 0

theorem length_put (slots : List α) (i : Nat) (f : α → α) :
    (put default slots i f).length = max slots.length (i + 1) := by
  unfold put
  rw [length_modify, length_append, length_replicate]
  omega

theorem getD_put (slots : List α) (i j : Nat) (f : α → α) :
    (put default slots i f).getD j default =
      if i = j then f (slots.getD j default) else slots.getD j default := by
  have hpad : ∀ k, (slots ++ replicate (i + 1 - slots.length) default).getD k default =
      slots.getD k default := by
    intro k
    rcases Nat.lt_or_ge k slots.length with hlt | hge
    · rw [getD_append _ _ _ _ hlt]
    · rw [getD_append_right _ _ _ _ hge, getD_eq_default _ _ hge,
        getD_eq_getElem?_getD, getElem?_getD_replicate_default_eq]
  unfold put
  by_cases hij : i = j
  · subst hij
    rw [if_pos rfl, ← hpad i]
    have hlt : i < (slots ++ replicate (i + 1 - slots.length) default).length := by
      rw [length_append, length_replicate]
      omega
    rw [getD_eq_getElem?_getD, getD_eq_getElem?_getD, getElem?_modify_eq,
      getElem?_eq_getElem hlt]
    rfl
  · rw [if_neg hij, ← hpad j, getD_eq_getElem?_getD, getD_eq_getElem?_getD,
      getElem?_modify_ne _ _ hij]

theorem gather_concat (slots : List α) (pieces : List β) (piece : β) :
    gather default add index slots (pieces ++ [piece]) =
      put default (gather default add index slots pieces) (index piece) (add · piece) := by
  unfold gather
  rw [foldl_append]
  rfl

theorem total_concat (pieces : List β) (piece : β) (i : Nat) :
    total default add index (pieces ++ [piece]) i =
      if index piece = i then add (total default add index pieces i) piece
      else total default add index pieces i := by
  unfold total
  rw [filter_append, foldl_append]
  by_cases h : index piece = i
  · simp [h]
  · simp [h]

theorem extent_concat (pieces : List β) (piece : β) :
    extent index (pieces ++ [piece]) = max (extent index pieces) (index piece + 1) := by
  unfold extent
  rw [foldl_append]
  rfl

theorem length_gather (pieces : List β) :
    (gather default add index [] pieces).length = extent index pieces := by
  induction pieces using reverseRecOn with
  | nil => rfl
  | append_singleton pieces piece ih => rw [gather_concat, length_put, ih, extent_concat]

theorem getD_gather (pieces : List β) (i : Nat) :
    (gather default add index [] pieces).getD i default = total default add index pieces i := by
  induction pieces using reverseRecOn with
  | nil => rfl
  | append_singleton pieces piece ih => rw [gather_concat, getD_put, ih, total_concat]

theorem lt_extent_iff (pieces : List β) (i : Nat) :
    i < extent index pieces ↔ ∃ piece ∈ pieces, i ≤ index piece := by
  induction pieces using reverseRecOn with
  | nil => simp [extent]
  | append_singleton pieces piece ih =>
      rw [extent_concat, lt_max_iff, ih]
      constructor
      · rintro (⟨other, hother, hle⟩ | hlt)
        · exact ⟨other, mem_append_left _ hother, hle⟩
        · exact ⟨piece, mem_append_right _ (mem_singleton_self _), Nat.lt_succ_iff.mp hlt⟩
      · rintro ⟨other, hother, hle⟩
        rcases mem_append.mp hother with hmem | hmem
        · exact .inl ⟨other, hmem, hle⟩
        · exact .inr (Nat.lt_succ_iff.mpr (mem_singleton.mp hmem ▸ hle))

/-- No index below the largest is left out. -/
def Dense (pieces : List β) : Prop :=
  ∀ piece ∈ pieces, ∀ i < index piece, ∃ other ∈ pieces, index other = i

/-- Where no index is left out, the indices are the numbers up to the extent. -/
theorem mem_range_extent {pieces : List β} (hdense : Dense index pieces) (i : Nat) :
    i ∈ List.range (extent index pieces) ↔ ∃ piece ∈ pieces, index piece = i := by
  rw [mem_range, lt_extent_iff]
  constructor
  · rintro ⟨piece, hpiece, hle⟩
    rcases Nat.lt_or_eq_of_le hle with hlt | heq
    · exact hdense piece hpiece i hlt
    · exact ⟨piece, hpiece, heq.symm⟩
  · rintro ⟨piece, hpiece, rfl⟩
    exact ⟨piece, hpiece, Nat.le_refl _⟩

/-- A sorted list with the indices of all pieces counts up to their extent. -/
theorem sorted_indices {pieces : List β} {order : List Nat} (hsorted : order.Pairwise (· < ·))
    (hmem : ∀ i, i ∈ order ↔ ∃ piece ∈ pieces, index piece = i) :
    (order.length = extent index pieces ↔ Dense index pieces) ∧
      (Dense index pieces → order = List.range (extent index pieces)) := by
  have hsubset : order ⊆ range (extent index pieces) := by
    intro i hi
    obtain ⟨piece, hpiece, rfl⟩ := (hmem i).mp hi
    exact mem_range.mpr ((lt_extent_iff index pieces _).mpr ⟨piece, hpiece, Nat.le_refl _⟩)
  have hnodup : order.Nodup := hsorted.imp Nat.ne_of_lt
  have hrange : Dense index pieces → order = range (extent index pieces) := by
    intro hdense
    have hperm : order.Perm (range (extent index pieces)) := by
      refine (perm_ext_iff_of_nodup hnodup nodup_range).mpr fun i => ?_
      rw [hmem, mem_range_extent index hdense]
    exact hperm.eq_of_pairwise (fun a b _ _ hab hba => absurd hab (Nat.lt_asymm hba)) hsorted
      pairwise_lt_range
  refine ⟨⟨fun hlength piece hpiece i hi => ?_, fun hdense => ?_⟩, hrange⟩
  · have hperm : order.Perm (range (extent index pieces)) :=
      (subperm_of_subset hnodup hsubset).perm_of_length_le
        (by rw [length_range, hlength])
    exact (hmem i).mp (hperm.mem_iff.mpr (mem_range.mpr
      ((lt_extent_iff index pieces i).mpr ⟨piece, hpiece, Nat.le_of_lt hi⟩)))
  · rw [hrange hdense, length_range]

end Omp2.Indexed
