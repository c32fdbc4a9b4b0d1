import Mathlib.Data.List.Basic

/-!
# Splices of a list

A splice puts a list in the place of a range. Splices of ranges that lie apart can be applied
together, each range read against the same list. Applied one by one from the last range to the
first, they give the same list.
-/

namespace Omp2.Splices

open List

variable {α : Type*}

/-- What is put in the place of a range. -/
structure Splice (α : Type*) where
  start : Nat
  stop : Nat
  body : List α
deriving DecidableEq, Repr

/-- The list with one splice. -/
def Splice.apply (splice : Splice α) (xs : List α) : List α :=
  xs.take splice.start ++ splice.body ++ xs.drop splice.stop

/-- The list from a position on with all splices, which are in the order of their ranges. -/
def together (position : Nat) : List (Splice α) → List α → List α
  | [], xs => xs.drop position
  | splice :: splices, xs =>
    (xs.take splice.start).drop position ++ splice.body ++ together splice.stop splices xs

/-- The last splice leaves what the splices before it make of the front. -/
theorem together_concat {splices : List (Splice α)} {last : Splice α}
    (h : ∀ splice ∈ splices, splice.start ≤ last.start) (position : Nat) (xs : List α) :
    together position (splices ++ [last]) xs =
      together position splices (xs.take last.start) ++ last.body ++ xs.drop last.stop := by
  induction splices generalizing position with
  | nil => rfl
  | cons splice splices ih =>
      obtain ⟨hfirst, hrest⟩ := forall_mem_cons.mp h
      rw [cons_append, together, together, ih hrest, take_take, Nat.min_eq_left hfirst]
      simp only [append_assoc]

/-- Splices of a front leave what follows it. -/
theorem together_append {splices : List (Splice α)} {front : List α} {position : Nat}
    (hposition : position ≤ front.length)
    (h : ∀ splice ∈ splices, splice.start ≤ front.length ∧ splice.stop ≤ front.length)
    (back : List α) :
    together position splices (front ++ back) = together position splices front ++ back := by
  induction splices generalizing position with
  | nil => exact drop_append_of_le_length hposition
  | cons splice splices ih =>
      obtain ⟨⟨hstart, hstop⟩, hrest⟩ := forall_mem_cons.mp h
      rw [together, together, ih hstop hrest, take_append_of_le_length hstart]
      simp only [append_assoc]

/-- Splices of ranges that lie apart, applied one by one from the last to the first. -/
theorem foldl_apply {splices : List (Splice α)} {xs : List α}
    (hrange : ∀ splice ∈ splices, splice.start ≤ splice.stop ∧ splice.stop ≤ xs.length)
    (hapart : splices.Pairwise fun lower upper => upper.stop ≤ lower.start) :
    splices.foldl (fun xs splice => splice.apply xs) xs = together 0 splices.reverse xs := by
  induction splices generalizing xs with
  | nil => rfl
  | cons last splices ih =>
      obtain ⟨⟨hlast, hxs⟩, hrest⟩ := forall_mem_cons.mp hrange
      obtain ⟨habove, hapart⟩ := pairwise_cons.mp hapart
      have hfront : (xs.take last.start).length = last.start :=
        length_take_of_le (Nat.le_trans hlast hxs)
      have hwithin : ∀ splice ∈ splices, splice.start ≤ splice.stop ∧
          splice.stop ≤ (last.apply xs).length := by
        intro splice hsplice
        refine ⟨(hrest splice hsplice).1, Nat.le_trans (habove splice hsplice) ?_⟩
        rw [Splice.apply, append_assoc, length_append, hfront]
        exact Nat.le_add_right _ _
      have hstart : ∀ splice ∈ splices.reverse, splice.start ≤ last.start ∧
          splice.stop ≤ last.start := by
        intro splice hsplice
        have hmem := mem_reverse.mp hsplice
        exact ⟨Nat.le_trans (hrest splice hmem).1 (habove splice hmem), habove splice hmem⟩
      rw [foldl_cons, ih hwithin hapart, reverse_cons,
        together_concat fun splice hsplice => (hstart splice hsplice).1, Splice.apply, append_assoc,
        together_append (Nat.zero_le _) (by rwa [hfront]), append_assoc]

end Omp2.Splices
