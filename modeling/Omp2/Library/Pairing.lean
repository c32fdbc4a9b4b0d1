import Mathlib.Data.List.Nodup
import Mathlib.Data.List.Perm.Basic

/-!
# Greedy pairing

Two nested loops walk over two lists and pair each item of the first with the first item of the
second that fits and is not paired yet. The loops remember the indices they have used. What the
pairs hold and what is left over are together the two lists, whatever items repeat.
-/

namespace Omp2.Pairing

open List

variable {α β : Type*}

/-! ## What is left over -/

/-- The items whose index has not been used. -/
def unpaired (used : List Nat) (items : List α) : List α :=
  (items.zipIdx.filter fun entry => decide (entry.2 ∉ used)).map Prod.fst

@[simp] theorem unpaired_nil (items : List α) : unpaired [] items = items := by
  simp [unpaired]

/-- Using one more index takes one item out. -/
theorem unpaired_cons {used : List Nat} {items : List α} {index : Nat} {item : α}
    (hitem : items[index]? = some item) (hfree : index ∉ used) :
    (unpaired used items).Perm (item :: unpaired (index :: used) items) := by
  have hmem : (item, index) ∈ items.zipIdx := mk_mem_zipIdx_iff_getElem?.mpr hitem
  have hnodup : items.zipIdx.Nodup :=
    List.Nodup.of_map Prod.snd (by rw [zipIdx_map_snd]; exact nodup_range')
  have hsame : ∀ entry ∈ items.zipIdx, entry.2 = index → entry = (item, index) := by
    rintro ⟨other, i⟩ hentry rfl
    have hother := mk_mem_zipIdx_iff_getElem?.mp hentry
    rw [hitem] at hother
    rw [Option.some.inj hother]
  have hperm : (items.zipIdx.filter fun entry => decide (entry.2 ∉ used)).Perm
      ((item, index) :: items.zipIdx.filter fun entry => decide (entry.2 ∉ index :: used)) := by
    refine (perm_ext_iff_of_nodup (hnodup.filter _) ?_).mpr fun entry => ?_
    · exact nodup_cons.mpr ⟨by simp, hnodup.filter _⟩
    · simp only [mem_filter, mem_cons, decide_eq_true_eq, not_or]
      constructor
      · rintro ⟨hentry, hunused⟩
        by_cases hindex : entry.2 = index
        · exact .inl (hsame entry hentry hindex)
        · exact .inr ⟨hentry, hindex, hunused⟩
      · rintro (rfl | ⟨hentry, -, hunused⟩)
        · exact ⟨hmem, hfree⟩
        · exact ⟨hentry, hunused⟩
  exact hperm.map Prod.fst

/-! ## The loops -/

/-- The state of the loops: the pairs found and the indices used on both sides. -/
structure State (α β : Type*) where
  pairs : List (α × β)
  usedLeft : List Nat
  usedRight : List Nat

/-- The inner loop: the first item that fits and is not paired yet. -/
def partner (fits : α → β → Bool) (right : List β) (used : List Nat) (item : α) :
    Option (β × Nat) :=
  right.zipIdx.find? fun entry => decide (entry.2 ∉ used) && fits item entry.1

/-- One round of the outer loop. -/
def visit (fits : α → β → Bool) (right : List β) (state : State α β) (entry : α × Nat) :
    State α β :=
  match partner fits right state.usedRight entry.1 with
  | some (other, index) =>
    { pairs := state.pairs ++ [(entry.1, other)]
      usedLeft := entry.2 :: state.usedLeft
      usedRight := index :: state.usedRight }
  | none => state

/-- Pair the items of two lists. -/
def greedy (fits : α → β → Bool) (left : List α) (right : List β) : State α β :=
  left.zipIdx.foldl (visit fits right) ⟨[], [], []⟩

variable {fits : α → β → Bool} {left : List α} {right : List β}

/-- What the loops keep when they have seen `seen` items of the first list. -/
structure Sound (fits : α → β → Bool) (left : List α) (right : List β) (seen : Nat)
    (state : State α β) : Prop where
  fit : ∀ pair ∈ state.pairs, fits pair.1 pair.2 = true
  earlier : ∀ index ∈ state.usedLeft, index < seen
  left : left.Perm (state.pairs.map Prod.fst ++ unpaired state.usedLeft left)
  right : right.Perm (state.pairs.map Prod.snd ++ unpaired state.usedRight right)

theorem partner_eq_some {used : List Nat} {item : α} {other : β} {index : Nat}
    (h : partner fits right used item = some (other, index)) :
    right[index]? = some other ∧ index ∉ used ∧ fits item other = true := by
  have hmem := mem_of_find?_eq_some h
  have hprop := find?_some h
  rw [Bool.and_eq_true, decide_eq_true_eq] at hprop
  exact ⟨mk_mem_zipIdx_iff_getElem?.mp hmem, hprop.1, hprop.2⟩

theorem perm_pair {γ : Type*} {items paired : List γ} {used : List Nat} {index : Nat} {item : γ}
    (h : items.Perm (paired ++ unpaired used items)) (hitem : items[index]? = some item)
    (hfree : index ∉ used) :
    items.Perm ((paired ++ [item]) ++ unpaired (index :: used) items) := by
  refine h.trans ?_
  rw [append_assoc]
  exact (unpaired_cons hitem hfree).append_left paired

theorem Sound.visit {state : State α β} {item : α} {seen : Nat}
    (h : Sound fits left right seen state) (hitem : left[seen]? = some item) :
    Sound fits left right (seen + 1) (visit fits right state (item, seen)) := by
  unfold Pairing.visit
  split
  · next other index hpartner =>
    obtain ⟨hother, hfree, hfits⟩ := partner_eq_some hpartner
    have hunseen : seen ∉ state.usedLeft := fun hmem => Nat.lt_irrefl _ (h.earlier seen hmem)
    refine ⟨?_, ?_, ?_, ?_⟩
    · intro pair hpair
      rcases mem_append.mp hpair with hold | hnew
      · exact h.fit pair hold
      · rw [mem_singleton.mp hnew]
        exact hfits
    · intro i hi
      rcases mem_cons.mp hi with rfl | hold
      · exact Nat.lt_succ_self _
      · exact Nat.lt_succ_of_lt (h.earlier i hold)
    · rw [map_append]
      exact perm_pair h.left hitem hunseen
    · rw [map_append]
      exact perm_pair h.right hother hfree
  · exact ⟨h.fit, fun i hi => Nat.lt_succ_of_lt (h.earlier i hi), h.left, h.right⟩

/-- The rounds over the rest of the first list. -/
theorem Sound.foldl {state : State α β} (rest : List α) {seen : Nat}
    (h : Sound fits left right seen state) (hrest : left.drop seen = rest) :
    ∃ seen', Sound fits left right seen'
      ((rest.zipIdx seen).foldl (Pairing.visit fits right) state) := by
  induction rest generalizing seen state with
  | nil => exact ⟨seen, h⟩
  | cons item rest ih =>
      have hitem : left[seen]? = some item := by
        rw [← head?_drop, hrest]
        rfl
      have hnext : left.drop (seen + 1) = rest := by
        rw [← tail_drop, hrest]
        rfl
      exact ih (h.visit hitem) hnext

/-- The pairs fit, and with what is left over they are the two lists. -/
theorem greedy_sound (fits : α → β → Bool) (left : List α) (right : List β) :
    (∀ pair ∈ (greedy fits left right).pairs, fits pair.1 pair.2 = true) ∧
      left.Perm ((greedy fits left right).pairs.map Prod.fst ++
        unpaired (greedy fits left right).usedLeft left) ∧
      right.Perm ((greedy fits left right).pairs.map Prod.snd ++
        unpaired (greedy fits left right).usedRight right) := by
  have hstart : Sound fits left right 0 ⟨[], [], []⟩ :=
    ⟨nofun, nofun, by simp, by simp⟩
  obtain ⟨seen, h⟩ := hstart.foldl left drop_zero
  exact ⟨h.fit, h.left, h.right⟩

end Omp2.Pairing
