import Mathlib.Algebra.BigOperators.Group.List.Basic
import Mathlib.Algebra.Ring.Int.Defs
import Mathlib.Algebra.Ring.Nat
import Mathlib.Data.List.Flatten
import Mathlib.Data.List.Nodup
import Mathlib.Data.List.Perm.Subperm

/-!
# Places of parts in a whole

A list that is the concatenation of parts has a place for each item of each part, no two items at
the same place. Whenever the items of some parts have different places in a list, the list has of
each sort of items at least as many as the parts have together.
-/

namespace Omp2.Placement

open List

variable {α β : Type*}

/-- Every item of every part has a place in the list, and different items have different places. -/
structure Placed (items : List α) (part : α → List β) (whole : List β) (place : α → Nat → Nat) :
    Prop where
  found : ∀ a ∈ items, ∀ i b, (part a)[i]? = some b → whole[place a i]? = some b
  apart : ∀ a ∈ items, ∀ b ∈ items, ∀ i j, i < (part a).length → j < (part b).length →
    place a i = place b j → a = b ∧ i = j

section Start

variable [DecidableEq α]

/-- How many items stand before a part in the concatenation of the parts. -/
def start (part : α → List β) : List α → α → Nat
  | [], _ => 0
  | first :: rest, a => if a = first then 0 else (part first).length + start part rest a

/-- A concatenation has its parts one after the other. -/
theorem placed_flatMap (items : List α) (part : α → List β) :
    Placed items part (items.flatMap part) fun a i => start part items a + i := by
  induction items with
  | nil => exact ⟨nofun, nofun⟩
  | cons first rest ih =>
      refine ⟨fun a ha i b hb => ?_, fun a ha b hb i j hi hj heq => ?_⟩
      · rw [List.flatMap_cons]
        obtain ⟨hi, -⟩ := List.getElem?_eq_some_iff.mp hb
        by_cases hfirst : a = first
        · subst hfirst
          rw [start, if_pos rfl, Nat.zero_add, getElem?_append_left hi, hb]
        · have hrest := ih.found a ((mem_cons.mp ha).resolve_left hfirst) i b hb
          rw [start, if_neg hfirst, Nat.add_assoc,
            getElem?_append_right (Nat.le_add_right _ _), Nat.add_sub_cancel_left]
          exact hrest
      · simp only [start] at heq
        by_cases hfirst : a = first
        · subst hfirst
          by_cases hsecond : b = a
          · subst hsecond
            rw [if_pos rfl] at heq
            exact ⟨rfl, by omega⟩
          · rw [if_pos rfl, if_neg hsecond] at heq
            omega
        · rw [if_neg hfirst] at heq
          by_cases hsecond : b = first
          · subst hsecond
            rw [if_pos rfl] at heq
            omega
          · rw [if_neg hsecond] at heq
            exact ih.apart a ((mem_cons.mp ha).resolve_left hfirst) b
              ((mem_cons.mp hb).resolve_left hsecond) i j hi hj (by omega)

end Start

variable {items : List α} {part : α → List β} {whole : List β} {place : α → Nat → Nat}

theorem filterMap_range (whole : List β) :
    (List.range whole.length).filterMap (fun n => whole[n]?) = whole := by
  induction whole with
  | nil => rfl
  | cons item whole ih =>
      rw [length_cons, range_succ_eq_map, filterMap_cons, filterMap_map]
      exact congrArg _ ih

/-- Placed items are among those of the list. -/
theorem Placed.subperm (h : Placed items part whole place) (hnodup : items.Nodup) :
    (items.flatMap part).Subperm whole := by
  let places := items.flatMap fun a => (range (part a).length).map (place a)
  have hplaces : places.Nodup := by
    refine nodup_flatMap.mpr ⟨fun a ha => ?_, hnodup.imp_of_mem fun {a b} ha hb hne => ?_⟩
    · refine (nodup_range).map_on fun i hi j hj heq => ?_
      exact (h.apart a ha a ha i j (mem_range.mp hi) (mem_range.mp hj) heq).2
    · intro n hn hn'
      obtain ⟨i, hi, rfl⟩ := mem_map.mp hn
      obtain ⟨j, hj, heq⟩ := mem_map.mp hn'
      exact hne (h.apart a ha b hb i j (mem_range.mp hi) (mem_range.mp hj) heq.symm).1
  have hwithin : places ⊆ range whole.length := by
    intro n hn
    obtain ⟨a, ha, hmem⟩ := mem_flatMap.mp hn
    obtain ⟨i, hi, rfl⟩ := mem_map.mp hmem
    have hfound := h.found a ha i _ (List.getElem?_eq_getElem (List.mem_range.mp hi))
    exact List.mem_range.mpr (List.getElem?_eq_some_iff.mp hfound).1
  have hitems : places.filterMap (fun n => whole[n]?) = items.flatMap part := by
    rw [List.filterMap_flatMap]
    refine flatMap_congr fun a ha => ?_
    rw [filterMap_map]
    refine Eq.trans (filterMap_congr fun i hi => ?_) (filterMap_range (part a))
    rw [Function.comp_apply, getElem?_eq_getElem (mem_range.mp hi)]
    exact h.found a ha i _ (getElem?_eq_getElem (mem_range.mp hi))
  obtain ⟨chosen, hperm, hsub⟩ := subperm_of_subset hplaces hwithin
  have hsublist := hsub.filterMap fun n => whole[n]?
  rw [filterMap_range] at hsublist
  rw [← hitems]
  exact ⟨_, hperm.filterMap _, hsublist⟩

theorem Placed.sum_countP_le (h : Placed items part whole place) (hnodup : items.Nodup)
    (sort : β → Bool) : (items.map fun a => (part a).countP sort).sum ≤ whole.countP sort := by
  have hcount := (h.subperm hnodup).countP_le sort
  rwa [countP_flatMap] at hcount

/-- Every part that holds an item is chosen where the chosen parts hold them all. -/
theorem chosen_of_sum_le {chosen : List α} {weight : α → Nat} (hchosen : chosen.Nodup)
    (hsub : chosen ⊆ items) (hle : (items.map weight).sum ≤ (chosen.map weight).sum) {a : α}
    (ha : a ∈ items) (hpos : 0 < weight a) : a ∈ chosen := by
  obtain ⟨sublist, hsublist, hrest⟩ := subperm_of_subset hchosen hsub
  obtain ⟨rest, hsplit⟩ := hrest.exists_perm_append
  have hperm : items.Perm (chosen ++ rest) := hsplit.trans (hsublist.append_right rest)
  have hsum := (hperm.map weight).sum_eq
  rw [map_append, sum_append] at hsum
  refine (mem_append.mp (hperm.mem_iff.mp ha)).resolve_right fun hrest => ?_
  have hweight : 0 < (rest.map weight).sum :=
    List.sum_pos_iff_exists_pos_nat.mpr ⟨weight a, List.mem_map_of_mem hrest, hpos⟩
  omega

end Omp2.Placement
