import Omp2.Library.OrderedTree

/-!
# The keys below some keys of a tree

A climb from a key meets one of `tops` or it does not. An edit of a tree that changes nothing but
what is below `tops`, and puts nothing elsewhere, keeps the keys above them: the same keys are below
`tops` before and after it, but for the ones that are new.
-/

namespace Omp2.OrderedTree

open Relation

variable {K : Type*} {t t' : Links K} {tops : K → Prop} {top key up : K}

/-- The climb from a key meets one of `tops`. -/
def Below (t : Links K) (tops : K → Prop) (key : K) : Prop :=
  ∃ upper, tops upper ∧ ReflTransGen (Up t) key upper

theorem Below.of_mem (h : tops key) : Below t tops key :=
  ⟨key, h, .refl⟩

theorem Below.climb (hup : Up t key up) (h : Below t tops up) : Below t tops key := by
  obtain ⟨upper, hupper, hclimb⟩ := h
  exact ⟨upper, hupper, .head hup hclimb⟩

theorem Below.cases (h : Below t tops key) : tops key ∨ ∃ up, Up t key up ∧ Below t tops up := by
  obtain ⟨upper, hupper, hclimb⟩ := h
  rcases hclimb.cases_head with rfl | ⟨up, hup, hrest⟩
  · exact .inl hupper
  · exact .inr ⟨up, hup, upper, hupper, hrest⟩

theorem Below.parent (h : Below t tops key) (hkey : ¬ tops key) (hup : Up t key up) :
    Below t tops up := by
  obtain ⟨up', hup', hbelow⟩ := h.cases.resolve_left hkey
  obtain rfl := hup.unique hup'
  exact hbelow

theorem Rooted.not_below_top (h : Rooted t top) (htop : ¬ tops top) : ¬ Below t tops top := by
  intro hbelow
  obtain ⟨up, hup, _⟩ := hbelow.cases.resolve_left htop
  exact h.not_up_top up hup

/-- An edit of what is below some keys. -/
structure EditedBelow (t t' : Links K) (tops : K → Prop) : Prop where
  kept : ∀ {key link}, t key = some link → ¬ Below t tops key → t' key = some link
  within : ∀ {key up}, Up t' key up → ¬ tops key → (t key = none ∨ Below t tops key) →
    Below t tops up

/-- After such an edit a key is below `tops` if and only if it was, or it is new. -/
theorem EditedBelow.below_iff (h : EditedBelow t t' tops) (hrooted : Rooted t top)
    (hrooted' : Rooted t' top) (htop : ¬ tops top) {link : Link K} (hkey : t' key = some link) :
    Below t' tops key ↔ t key = none ∨ Below t tops key := by
  constructor
  · rintro ⟨upper, hupper, hclimb⟩
    clear hkey
    induction hclimb using ReflTransGen.head_induction_on with
    | refl => exact .inr (.of_mem hupper)
    | @head key up hup _ ih =>
      cases hlink : t key with
      | none => exact .inl rfl
      | some link =>
        refine .inr ?_
        by_contra hout
        have hup₀ : Up t key up := by
          obtain ⟨link', hlink', hparent⟩ := hup
          rw [h.kept hlink hout] at hlink'
          cases hlink'
          exact ⟨link, hlink, hparent⟩
        obtain ⟨upLink, hupLink⟩ : ∃ upLink, t up = some upLink := by
          by_cases heq : key = top
          · subst heq
            exact absurd hup₀ (hrooted.not_up_top up)
          · obtain ⟨up', upLink, hparent, hupLink, _⟩ := hrooted.listed hlink heq
            obtain rfl := hup₀.unique ⟨link, hlink, hparent⟩
            exact ⟨upLink, hupLink⟩
        rcases ih with hnone | hbelow
        · rw [hupLink] at hnone
          cases hnone
        · exact hout (hbelow.climb hup₀)
  · have hreach := hrooted'.reaches hkey
    clear hkey
    induction hreach using ReflTransGen.head_induction_on with
    | refl =>
      intro hin
      rcases hin with hnone | hbelow
      · obtain ⟨link, hlink, _⟩ := hrooted.topLink
        rw [hlink] at hnone
        cases hnone
      · exact absurd hbelow (hrooted.not_below_top htop)
    | @head key up hup _ ih =>
      intro hin
      by_cases hmem : tops key
      · exact .of_mem hmem
      · exact (ih (.inr (h.within hup hmem hin))).climb hup

end Omp2.OrderedTree
