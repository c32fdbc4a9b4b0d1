import Mathlib.Data.List.Basic

/-!
# Loops that collect the entries of a map

`collect` goes through the entries of a map in key order and inserts what a function makes of
each entry into a second map. When the function gives different entries different keys, what the
second map holds at a key is what one entry gave it, whatever the order.
-/

namespace Omp2.Collect

variable {κ ι α β : Type*} [Ord ι] [Std.TransOrd ι] [Std.LawfulEqOrd ι]

/-- Insert the entry that a function may give. -/
def store (m : Std.ExtTreeMap ι β) : Option (ι × β) → Std.ExtTreeMap ι β
  | some (i, b) => m.insert i b
  | none => m

/-- Insert what each entry of a list gives. -/
def collectList (entries : List (κ × α)) (entry : κ → α → Option (ι × β))
    (start : Std.ExtTreeMap ι β) : Std.ExtTreeMap ι β :=
  entries.foldl (fun collected e => store collected (entry e.1 e.2)) start

variable {entry : κ → α → Option (ι × β)} {i : ι} {b : β}

theorem getElem?_store_ne (m : Std.ExtTreeMap ι β) {given : Option (ι × β)}
    (h : ∀ c, given ≠ some (i, c)) : (store m given)[i]? = m[i]? := by
  cases given with
  | none => rfl
  | some pair =>
      obtain ⟨j, c⟩ := pair
      have hne : j ≠ i := by
        rintro rfl
        exact h c rfl
      simp only [store]
      rw [Std.ExtTreeMap.getElem?_insert, if_neg]
      simpa using hne

/-- No entry of a list gives the key: the loop leaves it as it is. -/
theorem getElem?_collectList_of_none {entries : List (κ × α)} (start : Std.ExtTreeMap ι β)
    (h : ∀ e ∈ entries, ∀ c, entry e.1 e.2 ≠ some (i, c)) :
    (collectList entries entry start)[i]? = start[i]? := by
  induction entries generalizing start with
  | nil => rfl
  | cons e rest ih =>
      obtain ⟨he, hrest⟩ := List.forall_mem_cons.mp h
      show (collectList rest entry (store start (entry e.1 e.2)))[i]? = _
      rw [ih _ hrest, getElem?_store_ne _ he]

/-- Once the key holds a value that every later entry agrees on, it keeps that value. -/
theorem getElem?_collectList_of_some {entries : List (κ × α)} (start : Std.ExtTreeMap ι β)
    (hone : ∃ e ∈ entries, entry e.1 e.2 = some (i, b))
    (hall : ∀ e ∈ entries, ∀ c, entry e.1 e.2 = some (i, c) → c = b) :
    (collectList entries entry start)[i]? = some b := by
  induction entries generalizing start with
  | nil => simp at hone
  | cons e rest ih =>
      obtain ⟨he, hrest⟩ := List.forall_mem_cons.mp hall
      show (collectList rest entry (store start (entry e.1 e.2)))[i]? = _
      by_cases hlater : ∃ e ∈ rest, entry e.1 e.2 = some (i, b)
      · exact ih _ hlater hrest
      · have hnone : ∀ e ∈ rest, ∀ c, entry e.1 e.2 ≠ some (i, c) := by
          intro e' hmem c hc
          have hcb := hrest e' hmem c hc
          exact hlater ⟨e', hmem, hcb ▸ hc⟩
        rw [getElem?_collectList_of_none _ hnone]
        obtain ⟨e', hmem, he'⟩ := hone
        rcases List.mem_cons.mp hmem with rfl | hmem
        · simp [he', store]
        · exact absurd ⟨e', hmem, he'⟩ hlater

variable [Ord κ] [Std.TransOrd κ]

/-- Insert what each entry of a map gives. -/
def collect (m : Std.ExtTreeMap κ α) (entry : κ → α → Option (ι × β))
    (start : Std.ExtTreeMap ι β) : Std.ExtTreeMap ι β :=
  m.foldl (fun collected k a => store collected (entry k a)) start

variable [Std.LawfulEqOrd κ]

theorem getElem?_collect_of_none {m : Std.ExtTreeMap κ α} (start : Std.ExtTreeMap ι β)
    (h : ∀ k a, m[k]? = some a → ∀ c, entry k a ≠ some (i, c)) :
    (collect m entry start)[i]? = start[i]? := by
  rw [collect, Std.ExtTreeMap.foldl_eq_foldl_toList]
  refine getElem?_collectList_of_none start fun e hmem => ?_
  exact h e.1 e.2 (Std.ExtTreeMap.mem_toList_iff_getElem?_eq_some.mp hmem)

/-- The value at a key that one entry gives and no other entry contradicts. -/
theorem getElem?_collect_of_some {m : Std.ExtTreeMap κ α} (start : Std.ExtTreeMap ι β)
    {k : κ} {a : α} (hk : m[k]? = some a) (hentry : entry k a = some (i, b))
    (hall : ∀ k' a', m[k']? = some a' → ∀ c, entry k' a' = some (i, c) → k' = k) :
    (collect m entry start)[i]? = some b := by
  rw [collect, Std.ExtTreeMap.foldl_eq_foldl_toList]
  refine getElem?_collectList_of_some start
    ⟨(k, a), Std.ExtTreeMap.mem_toList_iff_getElem?_eq_some.mpr hk, hentry⟩ fun e hmem c hc => ?_
  have hget := Std.ExtTreeMap.mem_toList_iff_getElem?_eq_some.mp hmem
  have hkey := hall e.1 e.2 hget c hc
  rw [hkey, hk] at hget
  cases hget
  rw [hkey, hentry] at hc
  cases hc
  rfl

end Omp2.Collect
