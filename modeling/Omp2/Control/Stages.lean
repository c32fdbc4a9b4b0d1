import Omp2.Control.Projection

/-!
# The stages of a pass

A pass first decides what it elides and journals it, and condenses old nodes; then it reduces what
is left, in rounds that do not depend on the budget. The budget decides only how many rounds are
made, and there are two for an entry at most.
-/

namespace Omp2.Control

open Omp2.Json Omp2.State SessionSnapshot List

/-! ## The stages that make nodes -/

section Folding

variable [SerdeJson]

/-- What a pass elides. -/
def elided (s : SessionSnapshot) (config : CompactionConfig) : List ElementId :=
  select (collectEntries s) (SummaryDag.load s).covered config
    (projectedTokens (collectEntries s) (SummaryDag.load s).covered (SummaryDag.load s) ∅
      config.fixedOverheadTokens)

/-- What a pass covers. -/
def coverage (s : SessionSnapshot) (config : CompactionConfig) : Std.ExtTreeSet ElementId :=
  extend (SummaryDag.load s).covered (elided s config)

/-- The stages that make nodes. -/
def foldStages (j : Journal) (owner : ActorId) (config : CompactionConfig) (draws : Draws) :
    Journal × Except StructuredError SummaryDag :=
  match commitElision j owner (collectEntries j.snapshot) (elided j.snapshot config)
      (SummaryDag.load j.snapshot) draws.elision with
  | (j, .error e) => (j, .error e)
  | (j, .ok dag) => condense owner config.maxRootNodes draws.condensation dag.roots.length j dag

/-- The reductions that a pass makes over some nodes. -/
def reductionsOver (s : SessionSnapshot) (config : CompactionConfig) (dag : SummaryDag) :
    Reductions :=
  reduce (collectEntries s) (coverage s config) dag config (2 * (collectEntries s).length) ∅

theorem planStages_unreadable {j : Journal} {config : CompactionConfig}
    (h : 0 < (SummaryDag.load j.snapshot).unreadable) (owner : ActorId) (draws : Draws) :
    planStages j owner config draws = (j, .ok ⟨SummaryDag.load j.snapshot,
      (SummaryDag.load j.snapshot).covered, ∅, none⟩) := by
  unfold planStages
  exact if_pos h

/-- A pass makes nodes, then it reduces, then it caps the texts of nodes. -/
theorem planStages_readable {j : Journal} {config : CompactionConfig}
    (h : (SummaryDag.load j.snapshot).unreadable = 0) (owner : ActorId) (draws : Draws) :
    planStages j owner config draws = match foldStages j owner config draws with
      | (j₁, .error e) => (j₁, .error e)
      | (j₁, .ok dag) =>
        match capTexts owner (collectEntries j.snapshot) (coverage j.snapshot config)
            (reductionsOver j.snapshot config dag) config draws.cap dag.roots.length j₁ dag with
        | (j₂, .error e) => (j₂, .error e)
        | (j₂, .ok capped) =>
          (j₂, .ok ⟨capped, coverage j.snapshot config, reductionsOver j.snapshot config dag,
            some (projectedTokens (collectEntries j.snapshot) (coverage j.snapshot config) capped
              (reductionsOver j.snapshot config dag) config.fixedOverheadTokens)⟩) := by
  unfold planStages foldStages
  dsimp only
  rw [if_neg (by rw [h]; exact Nat.lt_irrefl 0)]
  unfold elided
  cases commitElision j owner (collectEntries j.snapshot) _ _ _ with
  | mk j₁ result => cases result <;> rfl

/-- A pass that succeeds over readable nodes. -/
theorem planStages_eq_ok {j j' : Journal} {owner : ActorId} {config : CompactionConfig}
    {draws : Draws} {planned : Planned} (h : (SummaryDag.load j.snapshot).unreadable = 0)
    (hplan : planStages j owner config draws = (j', .ok planned)) :
    ∃ j₁ dag, foldStages j owner config draws = (j₁, .ok dag) ∧
      capTexts owner (collectEntries j.snapshot) (coverage j.snapshot config)
        (reductionsOver j.snapshot config dag) config draws.cap dag.roots.length j₁ dag =
          (j', .ok planned.dag) ∧
      planned.covered = coverage j.snapshot config ∧
      planned.reductions = reductionsOver j.snapshot config dag ∧
      planned.projected = some (projectedTokens (collectEntries j.snapshot)
        (coverage j.snapshot config) planned.dag planned.reductions
        config.fixedOverheadTokens) := by
  rw [planStages_readable h] at hplan
  split at hplan
  · cases hplan
  · next j₁ dag hfold =>
    split at hplan
    · cases hplan
    · next j₂ capped hcap =>
      cases hplan
      exact ⟨j₁, dag, hfold, hcap, rfl, rfl, rfl⟩

theorem plan_eq_ok {j j' : Journal} {owner : ActorId} {config : CompactionConfig} {draws : Draws}
    {outcome : CompactionOutcome} (h : plan j owner config draws = (j', .ok outcome)) :
    ∃ planned, planStages j owner config draws = (j', .ok planned) ∧
      outcome = planned.outcome := by
  unfold plan at h
  split at h
  · cases h
  · next j₁ planned hplan =>
    cases h
    exact ⟨planned, hplan, rfl⟩

theorem plan_of_stages {j j' : Journal} {owner : ActorId} {config : CompactionConfig}
    {draws : Draws} {planned : Planned} (h : planStages j owner config draws = (j', .ok planned)) :
    plan j owner config draws = (j', .ok planned.outcome) := by
  unfold plan
  rw [h]

/-- A pass that makes no nodes and whose reductions suffice leaves the journal as it is. -/
theorem plan_unminted {j : Journal} {config : CompactionConfig}
    (hreadable : (SummaryDag.load j.snapshot).unreadable = 0)
    (helides : elided j.snapshot config = [])
    (hcondenses : (SummaryDag.load j.snapshot).roots.length ≤ max config.maxRootNodes 1)
    (hwithin : projectedTokens (collectEntries j.snapshot) (SummaryDag.load j.snapshot).covered
      (SummaryDag.load j.snapshot) (reduce (collectEntries j.snapshot)
        (SummaryDag.load j.snapshot).covered (SummaryDag.load j.snapshot) config
        (2 * (collectEntries j.snapshot).length) ∅) config.fixedOverheadTokens ≤
      config.budget.hardTokens) (owner : ActorId) (draws : Draws) :
    plan j owner config draws = (j, .ok ⟨(SummaryDag.load j.snapshot).folds,
      (SummaryDag.load j.snapshot).covered, reduce (collectEntries j.snapshot)
        (SummaryDag.load j.snapshot).covered (SummaryDag.load j.snapshot) config
        (2 * (collectEntries j.snapshot).length) ∅⟩) := by
  have hplan := planStages_unminted hreadable helides hcondenses owner draws
  dsimp only at hplan
  rw [capTexts_within hwithin] at hplan
  unfold plan
  rw [hplan]
  rfl

end Folding

/-! ## The rounds of the reductions -/

section Rounds

variable {entries : List BodyEntry} {covered : Std.ExtTreeSet ElementId} {dag : SummaryDag}
  {config : CompactionConfig} {reductions : Reductions} {entry : BodyEntry}
  {reduction : Reduction} {savings : Nat}

/-- The reductions after so many rounds, whatever the budget is. -/
def reduced (entries : List BodyEntry) (covered : Std.ExtTreeSet ElementId) : Nat → Reductions
  | 0 => ∅
  | rounds + 1 =>
    match nextReduction entries covered (reduced entries covered rounds) with
    | none => reduced entries covered rounds
    | some (entry, reduction, _) =>
      (reduced entries covered rounds).insert entry.id reduction

/-- Where a round reduces something, its entry is reduced in the next. -/
theorem reduced_succ {n : Nat}
    (h : nextReduction entries covered (reduced entries covered n) =
      some (entry, reduction, savings)) :
    reduced entries covered (n + 1) = (reduced entries covered n).insert entry.id reduction := by
  show (match nextReduction entries covered (reduced entries covered n) with
    | none => reduced entries covered n
    | some (entry, reduction, _) => (reduced entries covered n).insert entry.id reduction) = _
  rw [h]

/-- Where nothing is left to reduce, further rounds change nothing. -/
theorem reduced_stable {n m : Nat}
    (h : nextReduction entries covered (reduced entries covered n) = none) (hle : n ≤ m) :
    reduced entries covered m = reduced entries covered n := by
  induction m, hle using Nat.le_induction with
  | base => rfl
  | succ m _ ih =>
      show (match nextReduction entries covered (reduced entries covered m) with
        | none => reduced entries covered m
        | some (entry, reduction, _) =>
          (reduced entries covered m).insert entry.id reduction) = _
      rw [ih, h]

/-- The projection after so many rounds exceeds the hard bound. -/
def ExceedsAfter (entries : List BodyEntry) (covered : Std.ExtTreeSet ElementId)
    (dag : SummaryDag) (config : CompactionConfig) (rounds : Nat) : Prop :=
  config.budget.exceedsHardBound (projectedTokens entries covered dag
    (reduced entries covered rounds) config.fixedOverheadTokens) = true

/-- The loop makes its rounds until the bound holds or nothing is left, or its fuel ends. -/
theorem reduce_rounds (fuel start : Nat) : ∃ rounds ≤ fuel,
    reduce entries covered dag config fuel (reduced entries covered start) =
      reduced entries covered (start + rounds) ∧
    (∀ i < rounds, ExceedsAfter entries covered dag config (start + i) ∧
      nextReduction entries covered (reduced entries covered (start + i)) ≠ none) ∧
    (rounds = fuel ∨ ¬ ExceedsAfter entries covered dag config (start + rounds) ∨
      nextReduction entries covered (reduced entries covered (start + rounds)) = none) := by
  induction fuel generalizing start with
  | zero => exact ⟨0, Nat.le_refl 0, rfl, fun i hi => absurd hi (Nat.not_lt_zero i), .inl rfl⟩
  | succ fuel ih =>
      unfold reduce
      by_cases hexceeds : config.budget.exceedsHardBound (projectedTokens entries covered dag
          (reduced entries covered start) config.fixedOverheadTokens) = true
      · rw [if_pos hexceeds]
        cases hnext : nextReduction entries covered (reduced entries covered start) with
        | none => exact ⟨0, Nat.zero_le _, rfl, fun i hi => absurd hi (Nat.not_lt_zero i),
            .inr (.inr hnext)⟩
        | some next =>
          obtain ⟨entry, reduction, savings⟩ := next
          obtain ⟨rounds, hrounds, heq, hbefore, hend⟩ := ih (start + 1)
          have hshift : ∀ i, start + 1 + i = start + (i + 1) := fun i => by omega
          refine ⟨rounds + 1, Nat.succ_le_succ hrounds, ?_, fun i hi => ?_, ?_⟩
          · dsimp only
            rw [← reduced_succ hnext, heq, hshift]
          · cases i with
            | zero => exact ⟨hexceeds, by rw [Nat.add_zero, hnext]; exact Option.some_ne_none _⟩
            | succ i =>
              rw [← hshift]
              exact hbefore i (Nat.lt_of_succ_lt_succ hi)
          · rw [← hshift]
            rcases hend with hfuel | hend
            · exact .inl (congrArg Nat.succ hfuel)
            · exact .inr hend
      · rw [if_neg hexceeds]
        exact ⟨0, Nat.zero_le _, rfl, fun i hi => absurd hi (Nat.not_lt_zero i),
          .inr (.inl hexceeds)⟩

/-! ## The number of rounds -/

/-- How much of an entry is reduced. -/
def Reduction.count (reduction : Reduction) : Nat :=
  reduction.cappedText.toNat + reduction.omittedArguments.toNat

/-- How much of all entries is reduced. -/
def reducedCount (entries : List BodyEntry) (reductions : Reductions) : Nat :=
  (entries.map fun entry => ((reductions[entry.id]?).getD default).count).sum

theorem Reduction.count_le (reduction : Reduction) : reduction.count ≤ 2 := by
  unfold count
  cases reduction.cappedText <;> cases reduction.omittedArguments <;> decide

theorem reducedCount_le (entries : List BodyEntry) (reductions : Reductions) :
    reducedCount entries reductions ≤ 2 * entries.length := by
  unfold reducedCount
  induction entries with
  | nil => exact Nat.le_refl 0
  | cons entry entries ih =>
      have hcount := ((reductions[entry.id]?).getD default).count_le
      rw [map_cons, sum_cons, length_cons]
      omega

/-- A reduction of an entry reduces one thing more. -/
theorem BodyEntry.nextReduction_count {applied : Option Reduction}
    (h : entry.nextReduction applied = some (reduction, savings)) :
    reduction.count = (applied.getD default).count + 1 := by
  unfold nextReduction at h
  dsimp only at h
  generalize (if (applied.getD default).cappedText = true then _ else _) = effectiveText at h
  split at h
  · next hargs =>
    cases h
    have homitted : (applied.getD default).omittedArguments = false := by
      simpa using hargs.2.1
    unfold Reduction.count
    rw [homitted]
    rfl
  · split at h
    · next htext =>
      cases h
      have hcapped : (applied.getD default).cappedText = false := by
        simpa using htext.1
      unfold Reduction.count
      rw [hcapped]
      simp [Nat.add_comm]
    · cases h

/-- A round reduces one thing more. -/
theorem reducedCount_insert (hnodup : (entries.map BodyEntry.id).Nodup) (hentry : entry ∈ entries)
    (h : entry.nextReduction reductions[entry.id]? = some (reduction, savings)) :
    reducedCount entries (reductions.insert entry.id reduction) =
      reducedCount entries reductions + 1 := by
  obtain ⟨front, back, rfl⟩ := append_of_mem hentry
  rw [map_append, map_cons, nodup_append, nodup_cons] at hnodup
  obtain ⟨-, ⟨hback, -⟩, hfront⟩ := hnodup
  have hother : ∀ others : List BodyEntry, entry.id ∉ others.map BodyEntry.id →
      (others.map fun other =>
        (((reductions.insert entry.id reduction)[other.id]?).getD default).count) =
      others.map fun other => ((reductions[other.id]?).getD default).count := by
    intro others hnot
    refine map_congr_left fun other hmem => ?_
    rw [Std.ExtTreeMap.getElem?_insert, if_neg]
    exact fun heq => hnot (Std.LawfulEqOrd.eq_of_compare heq ▸ mem_map_of_mem hmem)
  have hcount := BodyEntry.nextReduction_count h
  unfold reducedCount
  simp only [map_append, map_cons, sum_append, sum_cons]
  rw [hother front fun hmem => hfront _ hmem _ mem_cons_self rfl, hother back hback,
    Std.ExtTreeMap.getElem?_insert_self]
  show _ + (reduction.count + _) = _
  omega

/-- After so many rounds that each reduce something, as many things are reduced. -/
theorem reducedCount_reduced (hnodup : (entries.map BodyEntry.id).Nodup) (rounds : Nat)
    (h : ∀ i < rounds, nextReduction entries covered (reduced entries covered i) ≠ none) :
    reducedCount entries (reduced entries covered rounds) = rounds := by
  induction rounds with
  | zero =>
      unfold reducedCount reduced
      refine List.sum_eq_zero_iff_forall_eq_nat.mpr fun n hn => ?_
      obtain ⟨entry, -, rfl⟩ := List.mem_map.mp hn
      simp [Reduction.count, default]
  | succ rounds ih =>
      have hbefore := ih fun i hi => h i (Nat.lt_succ_of_lt hi)
      cases hnext : nextReduction entries covered (reduced entries covered rounds) with
      | none => exact absurd hnext (h rounds (Nat.lt_succ_self rounds))
      | some next =>
        obtain ⟨entry, reduction, savings⟩ := next
        obtain ⟨hentry, -, hreduction⟩ := nextReduction_some hnext
        rw [reduced_succ hnext, reducedCount_insert hnodup hentry hreduction, hbefore]

theorem rounds_le (hnodup : (entries.map BodyEntry.id).Nodup) {rounds : Nat}
    (h : ∀ i < rounds, nextReduction entries covered (reduced entries covered i) ≠ none) :
    rounds ≤ 2 * entries.length := by
  rw [← reducedCount_reduced hnodup rounds h]
  exact reducedCount_le entries _

/-- The fuel of the loop suffices: it ends when the bound holds or nothing is left. -/
theorem reduce_ends (covered : Std.ExtTreeSet ElementId) (dag : SummaryDag)
    (config : CompactionConfig) (hnodup : (entries.map BodyEntry.id).Nodup) : ∃ rounds,
    reduce entries covered dag config (2 * entries.length) ∅ = reduced entries covered rounds ∧
    (∀ i < rounds, ExceedsAfter entries covered dag config i ∧
      nextReduction entries covered (reduced entries covered i) ≠ none) ∧
    (¬ ExceedsAfter entries covered dag config rounds ∨
      nextReduction entries covered (reduced entries covered rounds) = none) := by
  obtain ⟨rounds, -, heq, hbefore, hend⟩ :=
    reduce_rounds (2 * entries.length) 0
  simp only [Nat.zero_add] at heq hbefore hend
  refine ⟨rounds, heq, hbefore, ?_⟩
  rcases hend with hfuel | hend
  · refine .inr ?_
    by_contra hnext
    have hall : ∀ i < rounds + 1,
        nextReduction entries covered (reduced entries covered i) ≠ none := by
      intro i hi
      rcases Nat.lt_succ_iff_lt_or_eq.mp hi with hlt | rfl
      · exact (hbefore i hlt).2
      · exact hnext
    have hmore := rounds_le hnodup hall
    omega
  · exact hend

/-- An element is reduced when a round has picked an entry of it. -/
theorem isSome_reduced {id : ElementId} (n : Nat) :
    ((reduced entries covered n)[id]?).isSome = true ↔ ∃ i < n, ∃ entry reduction savings,
      nextReduction entries covered (reduced entries covered i) =
        some (entry, reduction, savings) ∧ entry.id = id := by
  induction n with
  | zero => simp [reduced]
  | succ n ih =>
      have hsplit : (∃ i < n + 1, ∃ entry reduction savings,
          nextReduction entries covered (reduced entries covered i) =
            some (entry, reduction, savings) ∧ entry.id = id) ↔
          ((reduced entries covered n)[id]?).isSome = true ∨ ∃ entry reduction savings,
            nextReduction entries covered (reduced entries covered n) =
              some (entry, reduction, savings) ∧ entry.id = id := by
        rw [ih]
        constructor
        · rintro ⟨i, hi, hpick⟩
          rcases Nat.lt_succ_iff_lt_or_eq.mp hi with hlt | rfl
          · exact .inl ⟨i, hlt, hpick⟩
          · exact .inr hpick
        · rintro (⟨i, hi, hpick⟩ | hpick)
          · exact ⟨i, Nat.lt_succ_of_lt hi, hpick⟩
          · exact ⟨n, Nat.lt_succ_self n, hpick⟩
      rw [hsplit]
      cases hnext : nextReduction entries covered (reduced entries covered n) with
      | none =>
        rw [reduced_stable hnext (Nat.le_succ n)]
        simp
      | some next =>
        obtain ⟨entry, reduction, savings⟩ := next
        rw [reduced_succ hnext, Std.ExtTreeMap.getElem?_insert]
        by_cases hid : entry.id = id
        · rw [if_pos (by rw [hid]; exact Std.ReflCmp.compare_self)]
          simp only [Option.isSome_some, true_iff]
          exact .inr ⟨entry, reduction, savings, rfl, hid⟩
        · rw [if_neg fun heq => hid (Std.LawfulEqOrd.eq_of_compare heq)]
          constructor
          · exact .inl
          · rintro (hbefore | ⟨entry', _, _, heq, hid'⟩)
            · exact hbefore
            · cases heq
              exact absurd hid' hid

/-- Every reduction that is made reduces something. -/
theorem count_pos_of_reduced {id : ElementId} {n : Nat}
    (h : (reduced entries covered n)[id]? = some reduction) : 0 < reduction.count := by
  induction n with
  | zero => simp [reduced] at h
  | succ n ih =>
      cases hnext : nextReduction entries covered (reduced entries covered n) with
      | none =>
        rw [reduced_stable hnext (Nat.le_succ n)] at h
        exact ih h
      | some next =>
        obtain ⟨entry, reduction', savings⟩ := next
        rw [reduced_succ hnext, Std.ExtTreeMap.getElem?_insert] at h
        split at h
        · cases h
          rw [BodyEntry.nextReduction_count (nextReduction_some hnext).2.2]
          exact Nat.succ_pos _
        · exact ih h

end Rounds

end Omp2.Control
