import Omp2.Control.Stages

/-!
# Pinned elements in the reductions

The reductions of a pass leave instructions alone. They do not look at pins, so an element that is
pinned is reduced like any other of its role when the rounds come to it.
-/

namespace Omp2.Control

open Omp2.Json Omp2.State SessionSnapshot

section Pinning

variable [SerdeJson] {s : SessionSnapshot} {e : ElementSnapshot} {entry : BodyEntry}

/-- The text of an element that the projection sends: of a tool call, its result. -/
def projectedText (s : SessionSnapshot) (e : ElementSnapshot) : String :=
  if e.kind = "tool_call" then ((childOfKind s e "result").map ElementSnapshot.text).getD ""
  else e.text

/-- An element whose projection nothing may reduce. -/
def MustStay (e : ElementSnapshot) : Prop :=
  isPinned e = true ∨ e.kind = "system" ∨ e.kind = "steering"

/-- The outcome leaves the projection of every element alone that must stay. -/
def Spares (s : SessionSnapshot) (outcome : CompactionOutcome) : Prop :=
  ∀ e ∈ s.getVisibleBody, MustStay e →
    outcome.projectText e.id (projectedText s e) = projectedText s e ∧
    outcome.omitsArguments e.id = false

/-- The projection is within the hard bound before the rounds come to a pinned entry. -/
def RelievedFirst (entries : List BodyEntry) (covered : Std.ExtTreeSet ElementId)
    (dag : SummaryDag) (config : CompactionConfig) : Prop :=
  ∀ n entry reduction savings, nextReduction entries covered (reduced entries covered n) =
    some (entry, reduction, savings) → entry.pinned = true →
    ∃ m ≤ n, ¬ ExceedsAfter entries covered dag config m

/-- The tokens of an entry are those of the text that is projected. -/
theorem collectEntry_text (h : collectEntry s e = some entry) :
    entry.textTokens = estimateTokens (projectedText s e) ∧
      (e.kind = "system" ∨ e.kind = "steering" → entry.role = .instructions) := by
  unfold collectEntry at h
  dsimp only at h
  unfold projectedText
  split at h
  · next hkind =>
    cases h
    simp [hkind]
  · next hkind =>
    split at h
    · cases h
    · cases h
      simp [hkind]
  · next hkind =>
    split at h
    · cases h
    · cases h
      simp [hkind]
  · next hkind =>
    cases h
    simp [hkind]
  · next hkind =>
    cases h
    simp [hkind]
  · cases h

theorem collectEntry_of_id (hwf : WellFormed s) (hentry : entry ∈ collectEntries s)
    (he : e ∈ s.getVisibleBody) (hid : entry.id = e.id) : collectEntry s e = some entry := by
  obtain ⟨e', he', hcollect⟩ := List.mem_filterMap.mp hentry
  have hsame : e'.id = e.id := (collectEntry_some hcollect).1.symm.trans hid
  rw [← List.inj_on_of_nodup_map (nodup_children hwf (staticId "body")) he' he hsame]
  exact hcollect

omit [SerdeJson] in
theorem CompactionOutcome.unreduced {outcome : CompactionOutcome} {id : ElementId}
    (h : outcome.reductions[id]? = none) (text : String) :
    outcome.projectText id text = text ∧ outcome.omitsArguments id = false := by
  unfold projectText omitsArguments
  rw [h]
  exact ⟨rfl, rfl⟩

omit [SerdeJson] in
/-- An element that is reduced is projected with another text or without its arguments. -/
theorem CompactionOutcome.reduced_differs {outcome : CompactionOutcome} {id : ElementId}
    {reduction : Reduction} {text : String} (h : outcome.reductions[id]? = some reduction)
    (hcount : 0 < reduction.count)
    (hlong : reduction.cappedText = true → reducedTokens < estimateTokens text)
    (hsame : outcome.projectText id text = text) : outcome.omitsArguments id = true := by
  unfold omitsArguments
  rw [h, Option.any_some]
  by_contra homitted
  rw [Bool.not_eq_true] at homitted
  have hcapped : reduction.cappedText = true := by
    unfold Reduction.count at hcount
    rw [homitted] at hcount
    cases hcapped : reduction.cappedText
    · rw [hcapped] at hcount
      cases hcount
    · rfl
  unfold projectText at hsame
  rw [h] at hsame
  dsimp only at hsame
  rw [if_pos hcapped] at hsame
  have hcut := estimateTokens_truncateForProjection_le text
  rw [hsame] at hcut
  exact absurd (hlong hcapped) (Nat.not_lt.mpr hcut)

variable {j j' : Journal} {owner : ActorId} {config : CompactionConfig} {draws : Draws}
  {outcome : CompactionOutcome}

/-- The rounds spare what must stay when the bound holds before they come to it. -/
theorem spares_of_relieved (hwf : WellFormed s) {covered : Std.ExtTreeSet ElementId}
    {dag : SummaryDag} {rounds : Nat}
    (hreductions : outcome.reductions = reduced (collectEntries s) covered rounds)
    (hbefore : ∀ i < rounds, ExceedsAfter (collectEntries s) covered dag config i)
    (h : RelievedFirst (collectEntries s) covered dag config) : Spares s outcome := by
  intro e he hstay
  refine outcome.unreduced ?_ _
  by_contra hsome
  rw [hreductions, ← ne_eq, Option.ne_none_iff_isSome, isSome_reduced] at hsome
  obtain ⟨i, hi, entry, reduction, savings, hnext, hid⟩ := hsome
  obtain ⟨hentry, hrole, -⟩ := nextReduction_some hnext
  have hcollect := collectEntry_of_id hwf hentry he hid
  rcases hstay with hpinned | hkind
  · rw [← (collectEntry_some hcollect).2.1] at hpinned
    obtain ⟨m, hm, hwithin⟩ := h i entry reduction savings hnext hpinned
    exact hwithin (hbefore m (Nat.lt_of_le_of_lt hm hi))
  · exact hrole ((collectEntry_text hcollect).2 hkind)

/-- What must stay is spared only when the bound holds before the rounds come to it. -/
theorem relieved_of_spares {covered : Std.ExtTreeSet ElementId} {dag : SummaryDag} {rounds : Nat}
    (hreductions : outcome.reductions = reduced (collectEntries s) covered rounds)
    (hfair : ∀ entry ∈ collectEntries s, Fair outcome.reductions entry)
    (hend : ¬ ExceedsAfter (collectEntries s) covered dag config rounds ∨
      nextReduction (collectEntries s) covered (reduced (collectEntries s) covered rounds) = none)
    (h : Spares s outcome) : RelievedFirst (collectEntries s) covered dag config := by
  intro n entry reduction savings hnext hpinned
  by_contra hall
  push Not at hall
  have hlate : n < rounds := by
    by_contra hearly
    rw [Nat.not_lt] at hearly
    rcases hend with hwithin | hdone
    · exact hwithin (hall rounds hearly)
    · rw [reduced_stable hdone hearly, hdone] at hnext
      cases hnext
  obtain ⟨hentry, -, -⟩ := nextReduction_some hnext
  obtain ⟨e, he, hcollect⟩ := List.mem_filterMap.mp hentry
  obtain ⟨hid, hpin, -⟩ := collectEntry_some hcollect
  have hsome : ((reduced (collectEntries s) covered rounds)[e.id]?).isSome = true :=
    (isSome_reduced rounds).mpr ⟨n, hlate, entry, reduction, savings, hnext, hid⟩
  obtain ⟨made, hmade⟩ := Option.isSome_iff_exists.mp hsome
  obtain ⟨htext, harguments⟩ := h e he (.inl (hpin ▸ hpinned))
  have homits : outcome.omitsArguments e.id = true := by
    refine CompactionOutcome.reduced_differs (hreductions ▸ hmade) (count_pos_of_reduced hmade)
      (fun hcapped => ?_) htext
    rw [← (collectEntry_text hcollect).1]
    exact (hfair entry hentry made (by rw [hid, hreductions]; exact hmade)).2 hcapped
  rw [homits] at harguments
  cases harguments

/-- A pass spares pinned elements and instructions exactly when, over the nodes that it has made,
its other reductions bring the projection within the hard bound before the rounds come to a pinned
element. -/
theorem plan_spares_iff (hsound : Sound j)
    (hplan : plan j owner config draws = (j', .ok outcome)) :
    Spares j.snapshot outcome ↔ ∀ j₁ dag, (SummaryDag.load j.snapshot).unreadable = 0 →
      foldStages j owner config draws = (j₁, .ok dag) →
      RelievedFirst (collectEntries j.snapshot) (coverage j.snapshot config) dag config := by
  obtain ⟨planned, hstages, rfl⟩ := plan_eq_ok hplan
  by_cases hreadable : (SummaryDag.load j.snapshot).unreadable = 0
  · obtain ⟨j₁, dag, hfold, -, -, hreductions, hprojected⟩ := planStages_eq_ok hreadable hstages
    have hnodup : ((collectEntries j.snapshot).map BodyEntry.id).Nodup :=
      (nodup_children hsound.wellFormed (staticId "body")).sublist collectEntries_sublist
    obtain ⟨rounds, hrounds, hbefore, hend⟩ :=
      reduce_ends (coverage j.snapshot config) dag config hnodup
    have hmade : planned.outcome.reductions =
        reduced (collectEntries j.snapshot) (coverage j.snapshot config) rounds :=
      hreductions.trans hrounds
    constructor
    · intro hspares j₂ dag₂ _ hfold₂
      rw [hfold] at hfold₂
      cases hfold₂
      exact relieved_of_spares hmade (planStages_counted hsound hstages hprojected).1 hend hspares
    · intro hrelieved
      exact spares_of_relieved hsound.wellFormed hmade (fun i hi => (hbefore i hi).1)
        (hrelieved j₁ dag hreadable hfold)
  · rw [planStages_unreadable (Nat.pos_of_ne_zero hreadable)] at hstages
    cases hstages
    refine ⟨fun _ _ _ hzero => absurd hzero hreadable, fun _ e _ _ => ?_⟩
    exact CompactionOutcome.unreduced (by simp [Planned.outcome]) _

end Pinning

end Omp2.Control

/-! ## A pinned element that is reduced, and one that is spared -/

namespace Omp2.Control

open Omp2.Json.Compact Omp2.State Journal

/-- A tool call that is pinned, with its input. -/
def pinnedPatch : Patch where
  baseOffset := 0
  resultOffset := 1
  author := .actor owner
  reason := "pin"
  ops := [
    .create (staticId "body") 0 { ElementSnapshot.new ⟨"call", Eq.refl true⟩ "tool_call" with
      attributes := .ofList [("call_id", TypedValue.string "c"), ("pinned", .bool true)] },
    .create ⟨"call", Eq.refl true⟩ 0 { ElementSnapshot.new ⟨"args", Eq.refl true⟩ "input" with
      payload := some (.string (String.ofList (List.replicate 32 'é'))) }]

/-- A configuration whose bounds the arguments of the call exceed. -/
def cappingConfig : CompactionConfig where
  budget := ⟨10, 10⟩
  keepRecentTurns := 1
  maxRootNodes := 8
  fixedOverheadTokens := 0

/-- The arguments of a pinned call are omitted when they exceed the hard bound. -/
theorem not_spares_pinned : ¬ ∀ (j j' : Journal) (owner : ActorId) (config : CompactionConfig)
    (draws : Draws) (outcome : CompactionOutcome), Sound j →
    plan j owner config draws = (j', .ok outcome) → Spares j.snapshot outcome := by
  intro h
  obtain ⟨j, hsound, hsnapshot⟩ :=
    exists_first pinnedPatch rfl (by decide +kernel) (fits_of_draft (by decide +kernel))
  have homitted : ∃ e ∈ (firstSnapshot pinnedPatch).getVisibleBody, isPinned e = true ∧
      ((reduce (collectEntries (firstSnapshot pinnedPatch))
        (SummaryDag.load (firstSnapshot pinnedPatch)).covered
        (SummaryDag.load (firstSnapshot pinnedPatch)) cappingConfig
        (2 * (collectEntries (firstSnapshot pinnedPatch)).length) ∅)[e.id]?).any
          Reduction.omittedArguments = true := by
    decide +kernel
  have hplan : plan j owner cappingConfig (obedientDraws ⟨"minted", Eq.refl true⟩) = (j, .ok _) :=
    plan_unminted (by rw [hsnapshot]; decide +kernel) (by rw [hsnapshot]; decide +kernel)
      (by rw [hsnapshot]; decide +kernel) (by rw [hsnapshot]; decide +kernel) owner _
  have hspares := h j j owner cappingConfig _ _ hsound hplan
  rw [hsnapshot] at hspares
  obtain ⟨e, he, hpinned, homits⟩ := homitted
  have hkept := (hspares e he (.inl hpinned)).2
  exact Bool.noConfusion (homits.symm.trans hkept)

/-- Two short messages are spared, as the bound holds from the start. -/
theorem plan_spares_messages : ∃ (j : Journal) (outcome : CompactionOutcome), Sound j ∧
    (Spares j.snapshot outcome ↔ ∀ j₁ dag, (SummaryDag.load j.snapshot).unreadable = 0 →
      foldStages j owner roomyConfig (obedientDraws ⟨"minted", Eq.refl true⟩) = (j₁, .ok dag) →
      RelievedFirst (collectEntries j.snapshot) (coverage j.snapshot roomyConfig) dag
        roomyConfig) := by
  obtain ⟨j, hsound, hsnapshot⟩ :=
    exists_first messagesPatch rfl (by decide +kernel) (fits_of_draft (by decide +kernel))
  have hplan : plan j owner roomyConfig (obedientDraws ⟨"minted", Eq.refl true⟩) = (j, .ok _) :=
    plan_unminted (by rw [hsnapshot]; decide +kernel) (by rw [hsnapshot]; decide +kernel)
      (by rw [hsnapshot]; decide +kernel) (by rw [hsnapshot]; decide +kernel) owner _
  exact ⟨j, _, hsound, plan_spares_iff hsound hplan⟩

end Omp2.Control
