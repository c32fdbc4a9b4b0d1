import Mathlib.Data.List.Nodup
import Mathlib.Data.List.Perm.Basic

/-!
# Edit scripts

An edit gives one key a new value, takes it away, or moves a value from one key to another. A
script whose edits are each right for two maps, and that names no key twice, turns the first map
into the second on the keys it names and keeps the others, in whatever order its edits stand.
-/

namespace Omp2.EditScript

open List

variable {K V : Type*} [DecidableEq K]

/-- One edit of a map. -/
inductive Edit (K V : Type*) where
  | set (key : K) (value : Option V)
  | move (source target : K)

/-- The keys an edit names. -/
def Edit.touched : Edit K V → List K
  | .set key _ => [key]
  | .move source target => [target, source]

/-- What an edit does to a map. -/
def Edit.apply (values : K → Option V) : Edit K V → K → Option V
  | .set key value => fun other => if other = key then value else values other
  | .move source target => fun other =>
    if other = target then values source else if other = source then none else values other

/-- Do the edits one after the other. -/
def replay (values : K → Option V) (edits : List (Edit K V)) : K → Option V :=
  edits.foldl Edit.apply values

/-- The edit is right for the two maps. -/
def Edit.Right (before after : K → Option V) : Edit K V → Prop
  | .set key value => after key = value
  | .move source target => after target = before source ∧ after source = none

/-- An edit leaves the keys it does not name. -/
theorem Edit.apply_other {edit : Edit K V} {values : K → Option V} {key : K}
    (h : key ∉ edit.touched) : edit.apply values key = values key := by
  cases edit with
  | set other value =>
      have hne : key ≠ other := fun heq => h (heq ▸ mem_singleton_self _)
      exact if_neg hne
  | move source target =>
      rw [touched, mem_cons, mem_singleton, not_or] at h
      show (if _ then _ else _) = _
      rw [if_neg h.1, if_neg h.2]

/-- A right edit gives the keys it names the values of the second map. -/
theorem Edit.apply_touched {edit : Edit K V} {before after values : K → Option V} {key : K}
    (hright : edit.Right before after) (hvalues : ∀ key ∈ edit.touched, values key = before key)
    (hdistinct : edit.touched.Nodup) (h : key ∈ edit.touched) :
    edit.apply values key = after key := by
  cases edit with
  | set other value =>
      rw [mem_singleton.mp h]
      exact (if_pos rfl).trans hright.symm
  | move source target =>
      have hne : source ≠ target := by
        rintro rfl
        simp [touched] at hdistinct
      show (if _ then _ else _) = _
      rcases mem_cons.mp h with rfl | hsource
      · rw [if_pos rfl, hright.1]
        exact hvalues source (mem_cons_of_mem _ (mem_singleton_self _))
      · rw [mem_singleton.mp hsource, if_neg hne, if_pos rfl, hright.2]

/-- The replay of right edits gives the second map on the keys named. -/
theorem replay_eq {before after values : K → Option V} {edits : List (Edit K V)}
    (hright : ∀ edit ∈ edits, edit.Right before after)
    (hdistinct : (edits.flatMap Edit.touched).Nodup)
    (hvalues : ∀ key ∈ edits.flatMap Edit.touched, values key = before key) (key : K) :
    replay values edits key =
      if key ∈ edits.flatMap Edit.touched then after key else values key := by
  induction edits generalizing values with
  | nil => exact (if_neg not_mem_nil).symm
  | cons edit edits ih =>
      rw [flatMap_cons] at hdistinct hvalues ⊢
      obtain ⟨hedit, hrest, hdisjoint⟩ := nodup_append'.mp hdistinct
      rw [forall_mem_cons] at hright
      have hkept : ∀ other ∈ edits.flatMap Edit.touched, edit.apply values other = before other :=
        fun other hother => (Edit.apply_other fun hmem => hdisjoint hmem hother).trans
          (hvalues other (mem_append_right _ hother))
      have hstep := ih hright.2 hrest hkept
      show replay (edit.apply values) edits key = _
      rw [hstep]
      by_cases hlater : key ∈ edits.flatMap Edit.touched
      · rw [if_pos hlater, if_pos (mem_append_right _ hlater)]
      · rw [if_neg hlater]
        by_cases hnow : key ∈ edit.touched
        · rw [if_pos (mem_append_left _ hnow)]
          exact Edit.apply_touched hright.1
            (fun other hother => hvalues other (mem_append_left _ hother)) hedit hnow
        · rw [if_neg (by simp [hnow, hlater])]
          exact Edit.apply_other hnow

end Omp2.EditScript
