import Mathlib.Data.List.Perm.Basic
import Mathlib.Order.Basic
import Mathlib.Order.Lattice

/-!
# The first answer in an order of precedence

Candidates are asked in the order of their ranks, highest first, and the first one that has an
answer decides. Where candidates of one rank give one answer, the decision does not depend on the
order in which the candidates were put together.
-/

namespace Omp2.Precedence

variable {α β γ : Type*} [LinearOrder γ] {rank : α → γ} {answer : α → Option β} {l l' : List α}

/-- Candidates in the order of their ranks, highest first. -/
def Ranked (rank : α → γ) (l : List α) : Prop :=
  l.Pairwise fun a b => rank b ≤ rank a

/-- Candidates of one rank that answer give the same answer. -/
def Agree (rank : α → γ) (answer : α → Option β) (l : List α) : Prop :=
  ∀ a ∈ l, ∀ b ∈ l, rank a = rank b → ∀ v w, answer a = some v → answer b = some w → v = w

/-- The first answer is that of a candidate which no candidate with an answer outranks. -/
theorem Ranked.first (h : Ranked rank l) {v : β} (hfirst : l.findSome? answer = some v) :
    ∃ a ∈ l, answer a = some v ∧ ∀ b ∈ l, (answer b).isSome = true → rank b ≤ rank a := by
  induction l with
  | nil => cases hfirst
  | cons a l ih =>
      obtain ⟨hall, hrest⟩ := List.pairwise_cons.mp h
      cases ha : answer a with
      | some w =>
        rw [List.findSome?_cons, ha] at hfirst
        cases hfirst
        exact ⟨a, List.mem_cons_self, ha, List.forall_mem_cons.mpr
          ⟨fun _ => le_refl _, fun b hb _ => hall b hb⟩⟩
      | none =>
        rw [List.findSome?_cons, ha] at hfirst
        obtain ⟨b, hb, hanswer, hmax⟩ := ih hrest hfirst
        refine ⟨b, List.mem_cons_of_mem a hb, hanswer, List.forall_mem_cons.mpr ⟨?_, hmax⟩⟩
        rw [ha]
        exact nofun

/-- The first answer is the same in any two orders that respect the ranks. -/
theorem Agree.first_eq (hagree : Agree rank answer l) (hperm : l.Perm l') (hl : Ranked rank l)
    (hl' : Ranked rank l') : l.findSome? answer = l'.findSome? answer := by
  cases hfirst : l.findSome? answer with
  | none =>
      symm
      rw [List.findSome?_eq_none_iff] at hfirst ⊢
      exact fun a ha => hfirst a (hperm.mem_iff.mpr ha)
  | some v =>
      obtain ⟨a, ha, hanswer, hmax⟩ := hl.first hfirst
      cases hfirst' : l'.findSome? answer with
      | none =>
        rw [List.findSome?_eq_none_iff] at hfirst'
        rw [hfirst' a (hperm.mem_iff.mp ha)] at hanswer
        cases hanswer
      | some w =>
        obtain ⟨b, hb, hanswer', hmax'⟩ := hl'.first hfirst'
        have hb := hperm.mem_iff.mpr hb
        have hrank : rank a = rank b := le_antisymm
          (hmax' a (hperm.mem_iff.mp ha) (by rw [hanswer]; rfl))
          (hmax b hb (by rw [hanswer']; rfl))
        rw [hagree a ha b hb hrank v w hanswer hanswer']

end Omp2.Precedence
