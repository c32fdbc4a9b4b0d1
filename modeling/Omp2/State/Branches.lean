import Omp2.State.History

/-!
# Branches are isolated

A record is labelled with the branch that was selected when it was written. The tip of a branch
is the last record with its label, so a call that appends under another label changes neither
the tip nor the tree that materialising the branch gives. Selecting the branch again restores
that tree.
-/

namespace Omp2.State

open Omp2.Json VersionTree List

variable [SerdeJson]

namespace Journal

variable {sessionId : SessionId} {j j' : Journal} {log : List JournalRecord} {v : Nat}

/-! ## The tip of a branch -/

/-- The records are those of the log, under their offsets. -/
theorem Based.getElem?_eq_some (h : Based sessionId j log v) {o : UInt64} {r : JournalRecord} :
    j.records[o]? = some r ↔ r ∈ log ∧ r.offset = o := by
  constructor
  · intro hr
    have hmem : o ∈ j.records := by
      rw [Std.ExtTreeMap.mem_iff_isSome_getElem?, hr]
      rfl
    obtain ⟨i, hi⟩ := Nat.exists_eq_succ_of_ne_zero (Nat.ne_of_gt ((h.mem_records o).mp hmem).1)
    rw [h.get_succ hi] at hr
    exact ⟨mem_of_getElem? hr, UInt64.toNat_inj.mp ((h.linked i r hr).offset.trans hi.symm)⟩
  · rintro ⟨hmem, rfl⟩
    obtain ⟨i, hi⟩ := mem_iff_getElem?.mp hmem
    rw [h.get_succ (h.linked i r hi).offset, hi]

/-- The records are listed in the order of the log. -/
theorem Based.recordList (h : Based sessionId j log v) : j.recordList = log := by
  let keyed := log.map fun r => (r.offset, r)
  have hkeyed : keyed.Pairwise fun a b => compare a.1 b.1 = .lt := by
    rw [pairwise_map, pairwise_iff_getElem]
    intro i i' hi hi' hlt
    have hoffset := (h.linked i _ (getElem?_eq_getElem hi)).offset
    have hoffset' := (h.linked i' _ (getElem?_eq_getElem hi')).offset
    rw [Std.compare_eq_lt, UInt64.lt_iff_toNat_lt]
    show log[i].offset.toNat < log[i'].offset.toNat
    omega
  have hsorted := Std.ExtTreeMap.ordered_keys_toList (t := j.records)
  have hnodup : ∀ {l : List (UInt64 × JournalRecord)},
      l.Pairwise (fun a b => compare a.1 b.1 = .lt) → l.Nodup := by
    intro l hl
    refine hl.imp ?_
    rintro a b hlt rfl
    simp at hlt
  have hperm : j.records.toList.Perm keyed := by
    rw [perm_ext_iff_of_nodup (hnodup hsorted) (hnodup hkeyed)]
    rintro ⟨o, r⟩
    rw [Std.ExtTreeMap.mem_toList_iff_getElem?_eq_some, h.getElem?_eq_some, mem_map]
    constructor
    · rintro ⟨hmem, rfl⟩
      exact ⟨r, hmem, rfl⟩
    · rintro ⟨r', hmem, heq⟩
      cases heq
      exact ⟨hmem, rfl⟩
  have htoList : j.records.toList = keyed := by
    refine hperm.eq_of_pairwise ?_ hsorted hkeyed
    intro a b _ _ hab hba
    rw [Std.compare_eq_lt, UInt64.lt_iff_toNat_lt] at hab hba
    omega
  unfold Journal.recordList
  rw [htoList, map_map]
  exact map_id log

/-- The scan for the last record with a label finds the tip of the version tree. -/
theorem Based.branchTip (h : Based sessionId j log v) (branch : BranchId) :
    (j.branchTip branch).map UInt64.toNat = tip JournalRecord.branchId log branch := by
  have hscan : ∀ l : List JournalRecord, (∀ i r, l[i]? = some r → r.offset.toNat = i + 1) →
      ((l.reverse.find? fun r => r.branchId = branch).map JournalRecord.offset).map UInt64.toNat =
        tip JournalRecord.branchId l branch := by
    intro l
    induction l using reverseRecOn with
    | nil => exact fun _ => rfl
    | append_singleton l r ih =>
      intro hl
      have hlast : r.offset.toNat = l.length + 1 := hl l.length r (by simp)
      have hinit : ∀ i r, l[i]? = some r → r.offset.toNat = i + 1 := by
        intro i r hi
        obtain ⟨hlt, _⟩ := List.getElem?_eq_some_iff.mp hi
        exact hl i r (by rw [List.getElem?_append_left hlt, hi])
      rw [tip_concat, List.reverse_append, List.reverse_singleton, List.singleton_append,
        find?_cons]
      by_cases hb : r.branchId = branch
      · simp [hb, hlast]
      · simp only [hb, decide_false, if_false]
        exact ih hinit
  unfold Journal.branchTip
  rw [h.recordList]
  exact hscan log fun i r hr => (h.linked i r hr).offset

/-- The tip of a branch does not move when the log grows under another label. -/
theorem Based.materializeBranch_congr {log' : List JournalRecord} {w : Nat}
    (h : Based sessionId j log v) (h' : Based sessionId j' log' w) {branch : BranchId}
    (htip : tip JournalRecord.branchId log' branch = tip JournalRecord.branchId log branch)
    (hgrow : ∃ more, log' = log ++ more) :
    j'.materializeBranch branch = j.materializeBranch branch := by
  obtain ⟨more, rfl⟩ := hgrow
  have hsame : ∀ o : UInt64, o.toNat ≤ log.length → j'.materialize o = j.materialize o := by
    intro o ho
    obtain ⟨s, hs⟩ := h.complete.states o.toNat ho
    rw [h.materialize_iff.mpr hs, h'.materialize_iff]
    exact hs.append more
  have hbranch : j'.branchTip branch = j.branchTip branch := by
    have heq := (h'.branchTip branch).trans (htip.trans (h.branchTip branch).symm)
    exact Option.map_injective (fun a b => UInt64.toNat_inj.mp) heq
  unfold Journal.materializeBranch
  rw [hbranch]
  cases hb : j.branchTip branch with
  | none =>
      dsimp only
      rw [hsame 0 (Nat.zero_le _)]
  | some o =>
      refine hsame o ?_
      have heq := h.branchTip branch
      rw [hb] at heq
      obtain ⟨i, r, hv, hi, _⟩ := tip_eq_some heq.symm
      obtain ⟨hlt, _⟩ := List.getElem?_eq_some_iff.mp hi
      omega

/-! ## Calls on other branches -/

/-- A call leaves the tips of all branches alone but the one whose label it appends. -/
theorem Based.step_tip (h : Coherent sessionId j log) {call : Call} {branch : BranchId}
    (hother : call.branch j ≠ branch) :
    ∃ log', Coherent sessionId (j.step call) log' ∧ (∃ more, log' = log ++ more) ∧
      tip JournalRecord.branchId log' branch = tip JournalRecord.branchId log branch := by
  cases h.step_cases call with
  | appended s patch r _ _ hr =>
      refine ⟨log ++ [r], hr.coherent, ⟨[r], rfl⟩, ?_⟩
      obtain ⟨now, _, rfl⟩ := hr.record
      rw [tip_concat, if_neg]
      exact hother
  | refused _ hrefused =>
      exact ⟨log, h.congr hrefused.records hrefused.snapshot, ⟨[], (append_nil log).symm⟩, rfl⟩

/-- No call in a run appends under the label of a branch. -/
def AwayFrom (branch : BranchId) : Journal → List Call → Prop :=
  Machine.Along step fun j call => call.branch j ≠ branch

/-- A run away from a branch leaves its tip alone. -/
theorem Based.after_tip {calls : List Call} {branch : BranchId} (h : Coherent sessionId j log)
    (haway : AwayFrom branch j calls) :
    ∃ log', Coherent sessionId (j.after calls) log' ∧ (∃ more, log' = log ++ more) ∧
      tip JournalRecord.branchId log' branch = tip JournalRecord.branchId log branch := by
  induction calls generalizing j log with
  | nil => exact ⟨log, h, ⟨[], (append_nil log).symm⟩, rfl⟩
  | cons call calls ih =>
      obtain ⟨log₁, h₁, ⟨first, rfl⟩, htip₁⟩ := h.step_tip haway.1
      obtain ⟨log₂, h₂, ⟨more, rfl⟩, htip₂⟩ := ih h₁ haway.2
      exact ⟨_, h₂, ⟨first ++ more, append_assoc ..⟩, htip₂.trans htip₁⟩

/-- While a branch is selected, its tip is the live snapshot. -/
theorem Based.materializeBranch_selected (h : Coherent sessionId j log) :
    j.materializeBranch j.snapshot.selectedBranch = .ok j.snapshot := by
  have hversion := h.at_version h.live
  have htip := h.branchTip j.snapshot.selectedBranch
  unfold Journal.materializeBranch
  rcases eq_nil_or_concat log with rfl | ⟨front, r, rfl⟩
  · have hmain : j.snapshot.selectedBranch = mainBranch := hversion.main rfl
    rw [tip_nil, Option.map_eq_none_iff] at htip
    rw [htip, hmain]
    show (if mainBranch.value = "main" then j.materialize 0 else _) = _
    rw [if_pos (show mainBranch.value = "main" from rfl), h.materialize_iff]
    exact h.live
  · rw [concat_eq_append] at h hversion htip
    have hlast : (front ++ [r])[(front ++ [r]).length - 1]? = some r := by simp
    have hlabel := hversion.branch r (by simp) hlast
    rw [tip_concat, if_pos hlabel.symm, Option.map_eq_some_iff] at htip
    obtain ⟨o, ho, hnat⟩ := htip
    rw [ho]
    dsimp only
    rw [h.materialize_iff, hnat]
    have hlive := h.live
    rw [length_append, length_singleton] at hlive
    exact hlive

/-- A selection leaves the tree of the branch it selects as the live tree. -/
theorem Based.selectBranch_tree {branch : BranchId} {world : Outside} {o : UInt64}
    (h : Based sessionId j log v) (hok : (j.selectBranch branch world).2 = .ok o) :
    ∃ s, j.materializeBranch branch = .ok s ∧
      (j.selectBranch branch world).1.snapshot.nodes = s.nodes ∧
      (j.selectBranch branch world).1.snapshot.usedIds = s.usedIds := by
  rcases h.selectBranch_cases (Prod.mk.eta (p := j.selectBranch branch world)).symm with
    ⟨s, patch, r, _, hs, hops, hr⟩ | ⟨⟨e, herror⟩, _⟩
  · obtain ⟨s₁, hpatch, hsnapshot⟩ := hr.applied
    obtain ⟨_, _, s₂, happly, rfl⟩ := SessionSnapshot.applyPatch_ok hpatch
    rw [hops] at happly
    cases happly
    exact ⟨s, hs, by rw [hsnapshot], by rw [hsnapshot]⟩
  · rw [herror] at hok
    cases hok

/-! ## Isolation -/

/-- What happens away from a branch does not reach it, and selecting it restores its tree. -/
structure BranchIsolation (j : Journal) (branch : BranchId) : Prop where
  /-- Calls that append under other labels leave the materialised branch as it is. -/
  untouched : ∀ calls, AwayFrom branch j calls →
    (j.after calls).materializeBranch branch = j.materializeBranch branch
  /-- While the branch is selected, the live snapshot is that of its last record. -/
  current : j.snapshot.selectedBranch = branch → j.materializeBranch branch = .ok j.snapshot
  /-- Selecting the branch later makes its tree and its used identifiers live again. -/
  restored : ∀ calls world o, AwayFrom branch j calls →
    ((j.after calls).selectBranch branch world).2 = .ok o →
    ∃ s, j.materializeBranch branch = .ok s ∧
      ((j.after calls).selectBranch branch world).1.snapshot.nodes = s.nodes ∧
      ((j.after calls).selectBranch branch world).1.snapshot.usedIds = s.usedIds

/-- In every journal that calls lead to from a created one, every branch is isolated. -/
theorem after_branchIsolation {j₀ : Journal} (hcreate : create sessionId = .ok j₀)
    (calls : List Call) (branch : BranchId) : BranchIsolation (j₀.after calls) branch := by
  obtain ⟨log, h⟩ := (create_coherent hcreate).after calls
  rw [nil_append] at h
  have huntouched : ∀ more, AwayFrom branch (j₀.after calls) more →
      ((j₀.after calls).after more).materializeBranch branch =
        (j₀.after calls).materializeBranch branch := by
    intro more haway
    obtain ⟨log', h', hgrow, htip⟩ := Based.after_tip h haway
    exact h.materializeBranch_congr h' htip hgrow
  refine ⟨huntouched, ?_, ?_⟩
  · rintro rfl
    exact h.materializeBranch_selected
  · intro more world o haway hok
    obtain ⟨log', h', _, _⟩ := Based.after_tip h haway
    rw [← huntouched more haway]
    exact h'.selectBranch_tree hok

end Journal

end Omp2.State

namespace Omp2.State.Journal

open Omp2.Json.Compact

/-- The main branch is isolated after a fork and a selection. -/
theorem exampleCalls_branchIsolation : ∃ j₀, create exampleSession = .ok j₀ ∧
    BranchIsolation (j₀.after exampleCalls) mainBranch := by
  obtain ⟨j₀, hcreate⟩ := exists_create_exampleSession
  exact ⟨j₀, hcreate, after_branchIsolation hcreate exampleCalls mainBranch⟩

end Omp2.State.Journal
