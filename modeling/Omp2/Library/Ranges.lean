import Mathlib.Data.List.Basic
import Mathlib.Data.List.Pairwise

/-!
# Selections from numbered items

A selection from items with numbers from one to a total is a test that each number passes or fails,
or a list of the numbers in ranges. The two agree for one range. For several ranges they agree
exactly when the ranges that hold a number come in order, one after the end of the other.
-/

namespace Omp2.Ranges

/-- The numbers from the first to the last. -/
def upTo (first last : Nat) : List Nat :=
  List.range' first (last + 1 - first)

@[simp] theorem mem_upTo {first last n : Nat} : n ∈ upTo first last ↔ first ≤ n ∧ n ≤ last := by
  rw [upTo, List.mem_range'_1]
  omega

theorem upTo_pairwise (first last : Nat) : (upTo first last).Pairwise (· < ·) :=
  List.pairwise_lt_range'

theorem length_upTo (first last : Nat) : (upTo first last).length = last + 1 - first :=
  List.length_range'

theorem eq_of_increasing {xs ys : List Nat} (hxs : xs.Pairwise (· < ·)) (hys : ys.Pairwise (· < ·))
    (h : ∀ n, n ∈ xs ↔ n ∈ ys) : xs = ys := by
  have hperm : xs.Perm ys :=
    (List.perm_ext_iff_of_nodup (hxs.imp Nat.ne_of_lt) (hys.imp Nat.ne_of_lt)).mpr h
  exact hperm.eq_of_pairwise (fun _ _ _ _ hlt hgt => absurd hlt (Nat.lt_asymm hgt)) hxs hys

/-- Testing the numbers for lying in one range gives the part of the range that exists. -/
theorem filter_upTo {total : Nat} {test : Nat → Bool} {first last : Nat}
    (h : ∀ n, 1 ≤ n → n ≤ total → (test n = true ↔ first ≤ n ∧ n ≤ last)) :
    (upTo 1 total).filter test = upTo (max first 1) (min last total) := by
  refine eq_of_increasing ((upTo_pairwise 1 total).filter _) (upTo_pairwise _ _) fun n => ?_
  rw [List.mem_filter, mem_upTo, mem_upTo]
  constructor
  · rintro ⟨⟨hfirst, hlast⟩, htest⟩
    have hrange := (h n hfirst hlast).mp htest
    omega
  · rintro ⟨hfirst, hlast⟩
    exact ⟨by omega, (h n (by omega) (by omega)).mpr (by omega)⟩

theorem upTo_inj {first last last' : Nat} (h : upTo first last = upTo first last') :
    last + 1 - first = last' + 1 - first := by
  rw [← length_upTo, ← length_upTo, h]

/-- Of two ranges that hold a number, the earlier ends before the later starts. -/
def Ascending (total : Nat) (ranges : List (Nat × Nat)) : Prop :=
  ranges.Pairwise fun first second =>
    max first.1 1 ≤ min first.2 total → max second.1 1 ≤ min second.2 total →
      min first.2 total < max second.1 1

/-- Testing the numbers for lying in some range, and going through the ranges one by one. -/
theorem filter_any_iff {total : Nat} {ranges : List (Nat × Nat)} {test : Nat → Bool}
    (h : ∀ n, test n = true ↔ ∃ range ∈ ranges, range.1 ≤ n ∧ n ≤ range.2) :
    (upTo 1 total).filter test =
        ranges.flatMap (fun range => upTo (max range.1 1) (min range.2 total)) ↔
      Ascending total ranges := by
  have hmem : ∀ n, n ∈ (upTo 1 total).filter test ↔
      n ∈ ranges.flatMap fun range => upTo (max range.1 1) (min range.2 total) := by
    intro n
    rw [List.mem_filter, mem_upTo, h, List.mem_flatMap]
    constructor
    · rintro ⟨hn, range, hrange, hfirst, hlast⟩
      exact ⟨range, hrange, mem_upTo.mpr (by omega)⟩
    · rintro ⟨range, hrange, hn⟩
      rw [mem_upTo] at hn
      exact ⟨by omega, range, hrange, by omega, by omega⟩
  have hpairwise : (ranges.flatMap fun range => upTo (max range.1 1) (min range.2 total)).Pairwise
      (· < ·) ↔ Ascending total ranges := by
    rw [List.pairwise_flatMap]
    refine (and_iff_right fun range _ => upTo_pairwise _ _).trans (List.Pairwise.iff ?_)
    intro first second
    constructor
    · intro hall hfirst hsecond
      exact hall _ (mem_upTo.mpr ⟨hfirst, Nat.le_refl _⟩) _ (mem_upTo.mpr ⟨Nat.le_refl _, hsecond⟩)
    · intro hord x hx y hy
      rw [mem_upTo] at hx hy
      have hlt := hord (by omega) (by omega)
      omega
  rw [← hpairwise]
  constructor
  · intro heq
    exact heq ▸ (upTo_pairwise 1 total).filter test
  · exact fun hlist => eq_of_increasing ((upTo_pairwise 1 total).filter test) hlist hmem

end Omp2.Ranges
