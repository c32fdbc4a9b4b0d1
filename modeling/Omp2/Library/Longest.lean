import Mathlib.Data.List.Basic
import Mathlib.Order.Basic

/-!
# Longest initial segments

A bounded buffer keeps the longest initial segment of its input that is within its limits. The
limits are a property of lists that a shorter initial segment inherits. This module says how the
longest segment moves when more input comes: it stays when it was already cut, and grows by the
longest segment of the new input when it was not.
-/

namespace Omp2.Longest

variable {α : Type*} {P : List α → Prop}

/-- The property holds of every initial segment of a list it holds of. -/
def Closed (P : List α → Prop) : Prop :=
  ∀ ⦃kept items⦄, kept <+: items → P items → P kept

/-- The longest initial segment of the items with the property. -/
structure IsLongest (P : List α → Prop) (items kept : List α) : Prop where
  initial : kept <+: items
  within : P kept
  longest : ∀ other, other <+: items → P other → other.length ≤ kept.length

theorem isLongest_self {items : List α} (h : P items) : IsLongest P items items :=
  ⟨List.prefix_rfl, h, fun _ hother _ => hother.length_le⟩

theorem IsLongest.unique {items kept other : List α} (h : IsLongest P items kept)
    (hother : IsLongest P items other) : kept = other := by
  have hle := h.longest other hother.initial hother.within
  have hge := hother.longest kept h.initial h.within
  exact (List.prefix_of_prefix_length_le h.initial hother.initial hge).eq_of_length
    (Nat.le_antisymm hge hle)

/-- Where the next item breaks the property, the segment before it is the longest. -/
theorem isLongest_of_next (hclosed : Closed P) {kept : List α} (item : α) (rest : List α)
    (h : P kept) (hnext : ¬P (kept ++ [item])) : IsLongest P (kept ++ item :: rest) kept := by
  refine ⟨List.prefix_append _ _, h, fun other hother hP => ?_⟩
  by_contra hlong
  have hwhole : kept ++ [item] <+: kept ++ item :: rest := by
    rw [List.append_cons kept item rest]
    exact List.prefix_append _ _
  have hshort : (kept ++ [item]).length ≤ other.length := by
    rw [List.length_append, List.length_singleton]
    exact Nat.lt_of_not_le hlong
  exact hnext (hclosed (List.prefix_of_prefix_length_le hwhole hother hshort) hP)

/-- The longest segment item by item. -/
theorem IsLongest.cons {Q : List α → Prop} {item : α} {rest kept : List α}
    (h : IsLongest Q rest kept) (hiff : ∀ items, P (item :: items) ↔ Q items) :
    IsLongest P (item :: rest) (item :: kept) := by
  refine ⟨List.cons_prefix_cons.mpr ⟨rfl, h.initial⟩, (hiff kept).mpr h.within, ?_⟩
  intro other hother hP
  cases other with
  | nil => exact Nat.zero_le _
  | cons first others =>
      obtain ⟨rfl, hothers⟩ := List.cons_prefix_cons.mp hother
      exact Nat.succ_le_succ (h.longest others hothers ((hiff others).mp hP))

/-- A segment that was cut stays the longest when more items come. -/
theorem IsLongest.append (hclosed : Closed P) {items kept : List α} (more : List α)
    (h : IsLongest P items kept) (hcut : kept.length < items.length) :
    IsLongest P (items ++ more) kept := by
  refine ⟨h.initial.trans (List.prefix_append _ _), h.within, fun other hother hP => ?_⟩
  rcases List.prefix_or_prefix_of_prefix hother (List.prefix_append items more) with hin | hout
  · exact h.longest other hin hP
  · exact absurd (h.longest items List.prefix_rfl (hclosed hout hP)) (Nat.not_le.mpr hcut)

end Omp2.Longest
