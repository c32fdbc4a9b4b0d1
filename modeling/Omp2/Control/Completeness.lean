import Omp2.Control.Pricing

/-!
# What a pass leaves undone

Every loop of a pass ends by its own condition. A pass that ends above the hard bound has condensed
its nodes, made all reductions and capped all texts; and it has elided the whole completed history,
if the projection that it has simulated was above the bound too.
-/

namespace Omp2.Control

open Omp2.Json Omp2.State SessionSnapshot List

/-! ## The selection -/

section Selection

variable {covered : Std.ExtTreeSet ElementId} {entries : List BodyEntry}

theorem mem_selectHard_of_pending {pending : List ElementId} {id : ElementId} (h : id ∈ pending) :
    id ∈ selectHard covered entries pending := by
  unfold selectHard
  induction entries generalizing pending with
  | nil => exact h
  | cons entry entries ih =>
      rw [foldl_cons]
      split
      · exact ih (mem_append_left _ h)
      · exact ih h

/-- The second stage selects every entry that may go. -/
theorem mem_selectHard {pending : List ElementId} {entry : BodyEntry} (hentry : entry ∈ entries)
    (heligible : entry.eligible = true) :
    entry.id ∈ covered ∨ entry.id ∈ selectHard covered entries pending := by
  induction entries generalizing pending with
  | nil => cases hentry
  | cons first rest ih =>
      unfold selectHard
      rw [foldl_cons]
      rcases mem_cons.mp hentry with rfl | hrest
      · by_cases hcovered : entry.id ∈ covered
        · exact .inl hcovered
        · refine .inr (mem_selectHard_of_pending ?_)
          split
          · exact mem_append_right _ (mem_singleton_self _)
          · next hnot =>
            simp only [heligible, Bool.true_and, Bool.and_eq_true, Bool.not_eq_true',
              not_and, Bool.not_eq_false] at hnot
            refine contains_iff_mem.mp (hnot ?_)
            rw [Bool.eq_false_iff, ne_eq, Std.ExtTreeSet.contains_iff_mem]
            exact hcovered
      · exact ih hrest

/-- What the first stage selects, and the projection that it simulates. -/
def softSelection (entries : List BodyEntry) (covered : Std.ExtTreeSet ElementId)
    (config : CompactionConfig) (projected : Nat) : List ElementId × Nat :=
  if config.budget.shouldTrigger projected then
    selectSoft covered config.budget.targetTokens
      (entries.take (recentTurnBoundary entries config.keepRecentTurns)) projected
  else ([], projected)

theorem select_eq (entries : List BodyEntry) (covered : Std.ExtTreeSet ElementId)
    (config : CompactionConfig) (projected : Nat) : select entries covered config projected =
      if config.budget.exceedsHardBound (softSelection entries covered config projected).2 then
        selectHard covered (entries.take (finalTurnBoundary entries))
          (softSelection entries covered config projected).1
      else (softSelection entries covered config projected).1 :=
  rfl

/-- When the entries before the last message of the user are covered or selected. -/
theorem selects_all_iff (entries : List BodyEntry) (covered : Std.ExtTreeSet ElementId)
    (config : CompactionConfig) (projected : Nat) :
    (∀ entry ∈ entries.take (finalTurnBoundary entries), entry.eligible = true →
      entry.id ∈ covered ∨ entry.id ∈ select entries covered config projected) ↔
    config.budget.hardTokens < (softSelection entries covered config projected).2 ∨
      ∀ entry ∈ entries.take (finalTurnBoundary entries), entry.eligible = true →
        entry.id ∈ covered ∨ entry.id ∈ (softSelection entries covered config projected).1 := by
  rw [select_eq]
  by_cases hexceeds : config.budget.hardTokens < (softSelection entries covered config projected).2
  · have hhard : config.budget.exceedsHardBound
        (softSelection entries covered config projected).2 = true := decide_eq_true hexceeds
    refine iff_of_true (fun entry hentry heligible => ?_) (.inl hexceeds)
    rw [if_pos hhard]
    exact mem_selectHard hentry heligible
  · have hsoft : ¬ config.budget.exceedsHardBound
        (softSelection entries covered config projected).2 = true :=
      fun h => hexceeds (of_decide_eq_true h)
    rw [if_neg hsoft]
    exact ⟨.inr, fun h => h.resolve_left hexceeds⟩

/-- No reduction is left exactly when no kept entry has one. -/
theorem nextReduction_eq_none {reductions : Reductions} :
    nextReduction entries covered reductions = none ↔ ∀ entry ∈ entries, entry.id ∉ covered →
      entry.role ≠ .instructions → entry.nextReduction reductions[entry.id]? = none := by
  have hfirst : ∀ candidates : List (BodyEntry × Reduction × Nat),
      firstBest candidates = none ↔ candidates = [] := by
    intro candidates
    cases candidates with
    | nil => exact iff_of_true rfl rfl
    | cons first rest => exact iff_of_false nofun nofun
  unfold nextReduction
  rw [hfirst, filterMap_eq_nil_iff]
  simp only [mem_filter, Bool.not_eq_true', decide_eq_true_eq, ne_eq, Option.map_eq_none_iff,
    and_imp, Bool.eq_false_iff, Std.ExtTreeSet.contains_iff_mem]

end Selection

/-! ## The nodes -/

section Nodes

variable [SerdeJson] {j j' : Journal} {owner : ActorId} {dag dag' : SummaryDag}

/-- A sound journal with nodes that are all readable, and these nodes. -/
structure Loaded (j : Journal) (dag : SummaryDag) : Prop where
  sound : Sound j
  readable : Readable j.snapshot
  nodes : dag.Of (summaries j.snapshot)

theorem Loaded.load (hsound : Sound j) (hreadable : Readable j.snapshot) :
    Loaded j (SummaryDag.load j.snapshot) :=
  ⟨hsound, hreadable, SummaryDag.load_of_elements hreadable
    (nodup_children hsound.wellFormed (staticId "summaries"))⟩

omit [SerdeJson] in
theorem covers_of_perm {es es' : List ElementSnapshot} {node : SummaryNode} {id : ElementId}
    {kind : SummaryKind} {text : String} (hperm : es'.Perm (node.toElement id kind text :: es))
    (x : ElementId) : Covers es' x ↔ Covers es x ∨ x ∈ node.covered := by
  unfold Covers
  simp only [hperm.mem_iff, mem_cons, exists_eq_or_imp, nodeOf_toElement]
  exact or_comm

/-- The commit of an elision covers what it elides. -/
theorem commitElision_loaded {entries : List BodyEntry} {ids : List ElementId} {draw : Draw}
    (h : Loaded j dag) (hcommit : commitElision j owner entries ids dag draw = (j', .ok dag')) :
    Loaded j' dag' ∧
      ∀ x, Covers (summaries j'.snapshot) x ↔ Covers (summaries j.snapshot) x ∨ x ∈ ids := by
  unfold commitElision at hcommit
  split at hcommit
  · next hempty =>
    cases hcommit
    refine ⟨h, fun x => ?_⟩
    rw [isEmpty_iff.mp hempty]
    simp
  · dsimp only at hcommit
    split at hcommit
    · cases hcommit
    · next id hcreate =>
      cases hcommit
      obtain ⟨hsound', hreadable', hnodup, hperm⟩ :=
        createNode_loaded h.sound h.readable hcreate
      exact ⟨⟨hsound', hreadable',
        (h.nodes.push id _ .leaf _ (nodup_cons.mp hnodup).1 rfl).perm hperm.symm⟩,
        covers_of_perm hperm⟩

/-- The loop that condenses covers nothing new. -/
theorem condense_loaded {maxRoots : Nat} {draws : Nat → Draw} (fuel : Nat) (h : Loaded j dag)
    (hcondense : condense owner maxRoots draws fuel j dag = (j', .ok dag')) :
    Loaded j' dag' ∧ ∀ x, Covers (summaries j'.snapshot) x ↔ Covers (summaries j.snapshot) x := by
  refine condense_rule (P := fun j' result => ∀ dag', result = .ok dag' → Loaded j' dag' ∧
    ∀ x, Covers (summaries j'.snapshot) x ↔ Covers (summaries j.snapshot) x) ?_
    (fun _ hok => Except.ok.inj hok ▸ ⟨h, fun _ => .rfl⟩) hcondense dag' rfl
  intro j₁ dag₁ node text draw j₂ result hbefore _ hcovered hcreate dag₂ hok
  obtain ⟨hloaded, hcovers⟩ := hbefore _ rfl
  cases result with
  | error e => cases hok
  | ok id =>
      cases hok
      obtain ⟨hsound', hreadable', -, hperm⟩ :=
        createNode_loaded hloaded.sound hloaded.readable hcreate
      refine ⟨.load hsound' hreadable', fun x => ?_⟩
      rw [covers_of_perm hperm, hcovered, hcovers]
      simp

/-- The loop that caps texts covers nothing new and keeps the order of the nodes. -/
theorem capTexts_loaded {entries : List BodyEntry} {covered : Std.ExtTreeSet ElementId}
    {reductions : Reductions} {config : CompactionConfig} {worlds : Nat → Journal.Outside}
    (fuel : Nat) (h : Loaded j dag)
    (hcap : capTexts owner entries covered reductions config worlds fuel j dag = (j', .ok dag')) :
    Loaded j' dag' ∧ (∀ x, Covers (summaries j'.snapshot) x ↔ Covers (summaries j.snapshot) x) ∧
      (summaries j'.snapshot).map ElementSnapshot.id =
        (summaries j.snapshot).map ElementSnapshot.id := by
  refine capTexts_rule (P := fun j' result => ∀ dag', result = .ok dag' → Loaded j' dag' ∧
    (∀ x, Covers (summaries j'.snapshot) x ↔ Covers (summaries j.snapshot) x) ∧
      (summaries j'.snapshot).map ElementSnapshot.id =
        (summaries j.snapshot).map ElementSnapshot.id) ?_
    (fun _ hok => Except.ok.inj hok ▸ ⟨h, fun _ => .rfl, rfl⟩) hcap dag' rfl
  intro j₁ dag₁ id text world j₂ result hbefore hroot hreplace dag₂ hok
  obtain ⟨hloaded, hcovers, hids⟩ := hbefore _ rfl
  obtain ⟨horder, hid⟩ := mem_of_root hloaded.nodes hroot
  rcases replaceNodeText_cases hloaded.sound hid hreplace with
    ⟨rfl, honward, htexts⟩ | ⟨⟨_, rfl⟩, -⟩
  · cases hok
    refine ⟨⟨honward.sound, fun e he => ?_, htexts ▸ hloaded.nodes.retext horder _⟩,
      fun x => ?_, ?_⟩
    · rw [htexts] at he
      obtain ⟨e', he', rfl⟩ := mem_map.mp he
      rw [fromElement_retext, nodeOf_retext]
      exact hloaded.readable e' he'
    · rw [← hcovers, htexts]
      unfold Covers
      simp
    · rw [← hids, htexts, map_map]
      exact map_congr_left fun e _ => id_retext id _ e
  · cases hok

/-- The loop that condenses ends when there are few roots. -/
theorem condense_roots {maxRoots : Nat} {draws : Nat → Draw} (fuel : Nat) (h : Loaded j dag)
    (hfuel : dag.roots.length ≤ fuel)
    (hcondense : condense owner maxRoots draws fuel j dag = (j', .ok dag')) :
    dag'.roots.length ≤ max maxRoots 1 := by
  induction fuel generalizing j dag with
  | zero =>
      cases hcondense
      omega
  | succ fuel ih =>
      unfold condense at hcondense
      split at hcondense
      · next hfew =>
        cases hcondense
        exact hfew
      · next hmany =>
        have hset : ¬ (dag.roots.take condenseFanIn).length < 2 := by
          unfold condenseFanIn
          rw [length_take]
          omega
        dsimp only at hcondense
        rw [if_neg hset] at hcondense
        split at hcondense
        · cases hcondense
        · next j₁ id hcreate =>
          obtain ⟨hsound', hreadable', hnodup, hperm⟩ :=
            createNode_loaded h.sound h.readable hcreate
          have hloaded := Loaded.load hsound' hreadable'
          -- the new node takes the place of the roots that it folds, of which there are two
          have hroots := (h.nodes.roots_perm (hloaded.nodes.perm hperm) hnodup
            (by rw [nodeOf_toElement])).length_eq
          rw [length_append, length_drop] at hroots
          rw [length_take] at hset
          refine ih hloaded ?_ hcondense
          rw [hroots]
          split
          · rw [length_nil]
            omega
          · rw [length_singleton]
            omega

omit [SerdeJson] in
theorem capNodeText_size_le (text : String) :
    (capNodeText text).utf8ByteSize ≤ maxNodeTextBytes := by
  have hfront := textPrefix_size_le text (maxNodeTextBytes / 2)
  have hmarker :
      "\n[…] inventory capped; expand individual nodes with Read summary://<id>".utf8ByteSize ≤
        100 := by
    decide
  unfold capNodeText
  rw [String.utf8ByteSize_append]
  unfold maxNodeTextBytes at hfront ⊢
  omega

/-- A root whose text is too long. -/
def Long (dag : SummaryDag) (id : ElementId) : Bool :=
  maxNodeTextBytes < (dag.textOf id).utf8ByteSize

omit [SerdeJson] in
/-- The nodes with the text of one of them capped. -/
def SummaryDag.capText (dag : SummaryDag) (id : ElementId) : SummaryDag :=
  { dag with texts := dag.texts.insert id (capNodeText (dag.textOf id)) }

omit [SerdeJson] in
theorem long_capText (dag : SummaryDag) (id other : ElementId) :
    Long (dag.capText id) other = (Long dag other && !(other == id)) := by
  unfold Long SummaryDag.capText SummaryDag.textOf
  dsimp only
  rw [Std.ExtTreeMap.getElem?_insert]
  by_cases heq : other = id
  · subst heq
    rw [if_pos Std.ReflCmp.compare_self]
    have hshort : ¬ maxNodeTextBytes < (capNodeText (dag.texts[other]?.getD "")).utf8ByteSize :=
      Nat.not_lt.mpr (capNodeText_size_le _)
    simpa using hshort
  · rw [if_neg fun hcompare => heq (Std.LawfulEqOrd.eq_of_compare hcompare).symm]
    simp [heq]

omit [SerdeJson] in
/-- Capping the text of a long root leaves one long root less. -/
theorem long_capped {id : ElementId} (hroot : id ∈ dag.roots) (hlong : Long dag id = true) :
    ((dag.capText id).roots.filter (Long (dag.capText id))).length <
      (dag.roots.filter (Long dag)).length := by
  have hfilter : (dag.capText id).roots.filter (Long (dag.capText id)) =
      (dag.roots.filter (Long dag)).filter fun other => !(other == id) := by
    rw [filter_filter]
    refine filter_congr fun other _ => ?_
    rw [long_capText, Bool.and_comm]
  rw [hfilter]
  refine length_filter_lt_length_iff_exists.mpr ⟨id, ?_, by simp⟩
  exact mem_filter.mpr ⟨hroot, hlong⟩

/-- The loop that caps texts ends when the bound holds or no root is long. -/
theorem capTexts_ends {entries : List BodyEntry} {covered : Std.ExtTreeSet ElementId}
    {reductions : Reductions} {config : CompactionConfig} {worlds : Nat → Journal.Outside}
    (fuel : Nat) (hfuel : (dag.roots.filter (Long dag)).length ≤ fuel)
    (hcap : capTexts owner entries covered reductions config worlds fuel j dag = (j', .ok dag')) :
    projectedTokens entries covered dag' reductions config.fixedOverheadTokens ≤
        config.budget.hardTokens ∨
      ∀ id ∈ dag'.roots, (dag'.textOf id).utf8ByteSize ≤ maxNodeTextBytes := by
  have hnone : ∀ dag : SummaryDag, dag.roots.filter (Long dag) = [] →
      ∀ id ∈ dag.roots, (dag.textOf id).utf8ByteSize ≤ maxNodeTextBytes := by
    intro dag hfilter id hid
    by_contra hlong
    exact filter_eq_nil_iff.mp hfilter id hid (decide_eq_true (Nat.lt_of_not_le hlong))
  induction fuel generalizing j dag with
  | zero =>
      cases hcap
      exact .inr (hnone _ (length_eq_zero_iff.mp (Nat.le_zero.mp hfuel)))
  | succ fuel ih =>
      unfold capTexts at hcap
      split at hcap
      · split at hcap
        · next hfind =>
          cases hcap
          refine .inr fun id hid => ?_
          have hshort := find?_eq_none.mp hfind id hid
          exact Nat.le_of_not_lt fun hlong => hshort (decide_eq_true hlong)
        · next id hfind =>
          dsimp only at hcap
          split at hcap
          · cases hcap
          · have hless := long_capped (mem_of_find?_eq_some hfind)
              (find?_some (p := Long dag) hfind)
            exact ih (Nat.le_of_lt_succ (Nat.lt_of_lt_of_le hless hfuel)) hcap
      · next hwithin =>
        cases hcap
        unfold CompactionBudget.exceedsHardBound at hwithin
        exact .inl (by simpa using hwithin)

/-- Where no root is long, nothing is capped. -/
theorem capTexts_short {entries : List BodyEntry} {covered : Std.ExtTreeSet ElementId}
    {reductions : Reductions} {worlds : Nat → Journal.Outside}
    (hshort : dag.roots.find? (Long dag) = none) (config : CompactionConfig) (fuel : Nat)
    (j : Journal) :
    capTexts owner entries covered reductions config worlds fuel j dag = (j, .ok dag) := by
  cases fuel with
  | zero => rfl
  | succ fuel =>
      unfold capTexts
      split
      · split
        · rfl
        · next id hfind =>
          change dag.roots.find? (Long dag) = some id at hfind
          rw [hshort] at hfind
          cases hfind
      · rfl

end Nodes

/-! ## The pass -/

section Pass

variable [SerdeJson] {j j' : Journal} {owner : ActorId} {config : CompactionConfig} {draws : Draws}
  {planned : Planned}

/-- What the first stage selects in a document, and the projection that it simulates. -/
def softStage (s : SessionSnapshot) (config : CompactionConfig) : List ElementId × Nat :=
  softSelection (collectEntries s) (SummaryDag.load s).covered config
    (projectedTokens (collectEntries s) (SummaryDag.load s).covered (SummaryDag.load s) ∅
      config.fixedOverheadTokens)

/-- Every loop of a pass has ended by its own condition: there are few roots; the bound holds over
the nodes that were made, or nothing is left to reduce; and the bound holds, or no root is long. -/
structure LoopsEnd (j : Journal) (owner : ActorId) (config : CompactionConfig) (draws : Draws)
    (planned : Planned) : Prop where
  condensed : planned.dag.roots.length ≤ max config.maxRootNodes 1
  reduced : ∀ j₁ dag, foldStages j owner config draws = (j₁, .ok dag) →
    projectedTokens (collectEntries j.snapshot) planned.covered dag planned.reductions
      config.fixedOverheadTokens ≤ config.budget.hardTokens ∨
    nextReduction (collectEntries j.snapshot) planned.covered planned.reductions = none
  capped : ∀ projected, planned.projected = some projected →
    projected ≤ config.budget.hardTokens ∨
      ∀ id ∈ planned.dag.roots, (planned.dag.textOf id).utf8ByteSize ≤ maxNodeTextBytes

/-- Nothing more could be done: everything that may go before the last message of the user is
covered, nothing that is kept can be reduced, there are few roots and none of them is long. -/
structure Exhausted (s : SessionSnapshot) (config : CompactionConfig) (planned : Planned) :
    Prop where
  covers : ∀ entry ∈ (collectEntries s).take (finalTurnBoundary (collectEntries s)),
    entry.eligible = true → entry.id ∈ planned.covered
  reduced : ∀ entry ∈ collectEntries s, entry.id ∉ planned.covered → entry.role ≠ .instructions →
    entry.nextReduction planned.reductions[entry.id]? = none
  condensed : planned.dag.roots.length ≤ max config.maxRootNodes 1
  capped : ∀ id ∈ planned.dag.roots, (planned.dag.textOf id).utf8ByteSize ≤ maxNodeTextBytes

/-- A pass ends above the hard bound. -/
def EndsAbove (config : CompactionConfig) (planned : Planned) : Prop :=
  ∃ projected, planned.projected = some projected ∧ config.budget.hardTokens < projected

/-- The simulated projection exceeds the hard bound, or the first stage selects everything that may
go before the last message of the user and is not covered yet. -/
def Foreseen (s : SessionSnapshot) (config : CompactionConfig) : Prop :=
  config.budget.hardTokens < (softStage s config).2 ∨
    ∀ entry ∈ (collectEntries s).take (finalTurnBoundary (collectEntries s)),
      entry.eligible = true →
      entry.id ∈ (SummaryDag.load s).covered ∨ entry.id ∈ (softStage s config).1

/-- Every loop of a pass over readable nodes ends by its own condition. -/
theorem planStages_loopsEnd (hsound : Sound j)
    (hreadable : (SummaryDag.load j.snapshot).unreadable = 0)
    (hplan : planStages j owner config draws = (j', .ok planned)) :
    LoopsEnd j owner config draws planned := by
  obtain ⟨j₁, dag, hfold, hcap, hcovered, hreductions, hprojected⟩ :=
    planStages_eq_ok hreadable hplan
  have hloaded := Loaded.load hsound (SummaryDag.readable_of_zero _ hreadable).2
  -- the nodes after the commits, which the caps keep
  have hroots : Sound j₁ ∧ dag.Listed j₁.snapshot ∧
      dag.roots.length ≤ max config.maxRootNodes 1 := by
    unfold foldStages at hfold
    split at hfold
    · cases hfold
    · next j₂ dag₂ hcommit =>
      obtain ⟨hloaded₂, -⟩ := commitElision_loaded hloaded hcommit
      obtain ⟨hloaded₁, -⟩ := condense_loaded _ hloaded₂ hfold
      exact ⟨hloaded₁.sound, fun id hid => hloaded₁.nodes.order.mem_iff.mp hid,
        condense_roots _ hloaded₂ (Nat.le_refl _) hfold⟩
  obtain ⟨hsound₁, hlisted, hroots⟩ := hroots
  obtain ⟨horder, hchildren, -⟩ := (capTexts_onward hsound₁ hlisted hcap).2 _ rfl
  have hsame : planned.dag.roots = dag.roots := by
    unfold SummaryDag.roots
    rw [horder, hchildren]
  refine ⟨hsame ▸ hroots, fun j₂ dag₂ hfold₂ => ?_, fun projected hcount => ?_⟩
  · rw [hfold] at hfold₂
    cases hfold₂
    have hnodup : ((collectEntries j.snapshot).map BodyEntry.id).Nodup :=
      (nodup_children hsound.wellFormed (staticId "body")).sublist collectEntries_sublist
    obtain ⟨rounds, hrounds, -, hend⟩ := reduce_ends (coverage j.snapshot config) dag config hnodup
    rw [hcovered, hreductions]
    unfold reductionsOver
    rw [hrounds]
    refine hend.imp (fun hwithin => ?_) id
    unfold ExceedsAfter CompactionBudget.exceedsHardBound at hwithin
    simpa using hwithin
  · rw [hprojected] at hcount
    cases hcount
    rw [hreductions]
    exact capTexts_ends _ (length_filter_le _ _) hcap

/-- Every loop of a pass ends by its own condition; and a pass that ends above the hard bound has
exhausted what can be done exactly when its first stage has foreseen that. -/
theorem planStages_exhausted_iff (hsound : Sound j)
    (hplan : planStages j owner config draws = (j', .ok planned)) :
    ((SummaryDag.load j.snapshot).unreadable = 0 → LoopsEnd j owner config draws planned) ∧
      (EndsAbove config planned →
        (Exhausted j.snapshot config planned ↔ Foreseen j.snapshot config)) := by
  refine ⟨fun hreadable => planStages_loopsEnd hsound hreadable hplan, ?_⟩
  rintro ⟨projected, hcount, hexceeds⟩
  have hreadable : (SummaryDag.load j.snapshot).unreadable = 0 := by
    by_contra hunreadable
    rw [planStages_unreadable (Nat.pos_of_ne_zero hunreadable)] at hplan
    cases hplan
    cases hcount
  obtain ⟨j₁, dag, hfold, hcap, hcovered, hreductions, hprojected⟩ :=
    planStages_eq_ok hreadable hplan
  have hends := planStages_loopsEnd hsound hreadable hplan
  have hselects := selects_all_iff (collectEntries j.snapshot)
    (SummaryDag.load j.snapshot).covered config
    (projectedTokens (collectEntries j.snapshot) (SummaryDag.load j.snapshot).covered
      (SummaryDag.load j.snapshot) ∅ config.fixedOverheadTokens)
  have hcovers : ∀ id, id ∈ planned.covered ↔
      id ∈ (SummaryDag.load j.snapshot).covered ∨ id ∈ elided j.snapshot config := by
    intro id
    rw [hcovered]
    unfold coverage
    rw [SummaryDag.mem_extend]
  constructor
  · intro h
    exact hselects.mp fun entry hentry heligible =>
      (hcovers _).mp (h.covers entry hentry heligible)
  · intro h
    refine ⟨fun entry hentry heligible =>
      (hcovers _).mpr (hselects.mpr h entry hentry heligible), ?_, hends.condensed, ?_⟩
    · refine nextReduction_eq_none.mp ((hends.reduced j₁ dag hfold).resolve_left fun hwithin => ?_)
      -- the bound held before the caps, so nothing was capped and it holds still
      rw [hcovered, hreductions] at hwithin
      rw [capTexts_within hwithin] at hcap
      cases hcap
      rw [hprojected, hreductions] at hcount
      cases hcount
      omega
    · exact (hends.capped projected hcount).resolve_left (Nat.not_le.mpr hexceeds)

end Pass

end Omp2.Control

/-! ## A pass that stops too early -/

namespace Omp2.Control

open Omp2.Json Omp2.Json.Compact Omp2.State Journal

/-- A wide message and two short ones. -/
def threeTurns : List PatchOp :=
  [.create (staticId "body") 0
      (userMessage ⟨"wide", Eq.refl true⟩ (String.ofList (List.replicate 33 'é'))),
    .create (staticId "body") 1 (userMessage ⟨"short", Eq.refl true⟩ "a"),
    .create (staticId "body") 2 (userMessage ⟨"last", Eq.refl true⟩ "a")]

/-- The document with the three turns. -/
def threeDocument : SessionSnapshot :=
  documentAfter (.empty exampleSession) "three turns" threeTurns

theorem exists_threeTurns : ∃ j log, Open j log threeDocument := by
  obtain ⟨j₀, _, hopen⟩ := exists_open
  obtain ⟨j, r, _, h⟩ := hopen.append "three turns" threeTurns (by decide +kernel)
    (fits_of_draft (by decide +kernel))
  exact ⟨j, _, h⟩

/-- A configuration whose hard bound holds when the wide message goes at the fixed price. -/
def fixedPriceConfig : CompactionConfig where
  budget := ⟨2, 66⟩
  keepRecentTurns := 1
  maxRootNodes := 8
  fixedOverheadTokens := 0

/-- The inventory of the wide message. -/
def wideInventory : String :=
  "Elided transcript elements (originals retrievable by id):\n- user: " ++
    String.ofList (List.replicate 33 'é') ++ "\n"

/-- The operations that create a leaf. -/
def leafOps (s : SessionSnapshot) (id : ElementId) (ids : List ElementId) (text : String) :
    List PatchOp :=
  [.create (staticId "summaries") (UInt32.ofNat (s.children (staticId "summaries")).length)
    ((leafNode (collectEntries s) ids s.offset).toElement id .leaf text)]

/-- The document after a leaf. -/
def leafDocument (s : SessionSnapshot) (id : ElementId) (ids : List ElementId) (text : String) :
    SessionSnapshot :=
  documentAfter s "compact context (leaf)" (leafOps s id ids text)

/-- The nodes after a leaf. -/
def leafDag (s : SessionSnapshot) (id : ElementId) (ids : List ElementId) (text : String) :
    SummaryDag :=
  (SummaryDag.load s).push id (leafNode (collectEntries s) ids s.offset) text

/-- A pass over a document elides some entries under a text, and neither condenses nor caps. -/
def LeafPass (s : SessionSnapshot) (config : CompactionConfig) (id : ElementId)
    (ids : List ElementId) (text : String) : Prop :=
  (SummaryDag.load s).unreadable = 0 ∧ elided s config = ids ∧ ids.isEmpty = false ∧
    renderInventory ids (collectEntries s) = text ∧
    (s.applyPatch (documentPatch s "compact context (leaf)" (leafOps s id ids text))).2.isOk =
      true ∧
    bytesBound (toValue (({ blank exampleSession [] with snapshot := s } : Journal).draft
      (documentPatch s "compact context (leaf)" (leafOps s id ids text)) s.selectedBranch 7)) +
        24 * 64 ≤ maxWireBytes ∧
    (leafDag s id ids text).roots.length ≤ max config.maxRootNodes 1 ∧
    (leafDag s id ids text).roots.find? (Long (leafDag s id ids text)) = none

instance (s : SessionSnapshot) (config : CompactionConfig) (id : ElementId) (ids : List ElementId)
    (text : String) : Decidable (LeafPass s config id ids text) :=
  inferInstanceAs (Decidable (_ ∧ _))

/-- What such a pass makes. -/
theorem Open.elides {j : Journal} {log : List JournalRecord} {s : SessionSnapshot}
    (h : Open j log s) {config : CompactionConfig} {minted id : ElementId} {ids : List ElementId}
    {text : String} (hid : Id.new ("sum-" ++ minted.value) = .ok id)
    (hpass : LeafPass s config id ids text) :
    ∃ j' r planned, planStages j owner config (fineDraws minted) = (j', .ok planned) ∧
      (planned.dag = leafDag s id ids text ∧ planned.covered = coverage s config ∧
        planned.projected = some (projectedTokens (collectEntries s) (coverage s config)
          (leafDag s id ids text) (reductionsOver s config (leafDag s id ids text))
          config.fixedOverheadTokens)) ∧
      Open j' (log ++ [r]) (leafDocument s id ids text) := by
  obtain ⟨hreadable, hids, hsome, htext, happlies, hfits, hfew, hshort⟩ := hpass
  obtain ⟨j', r, hcreate, hopen⟩ := h.createNode (leafNode (collectEntries s) ids s.offset) .leaf
    text hid rfl rfl happlies (fits_of_draft hfits)
  have hfold : foldStages j owner config (fineDraws minted) =
      (j', .ok (leafDag s id ids text)) := by
    unfold foldStages commitElision
    rw [h.snapshot, hids]
    dsimp only
    rw [if_neg (by rw [hsome]; exact Bool.false_ne_true), htext]
    unfold leafNode at hcreate
    unfold fineDraws
    rw [hcreate]
    exact condense_few hfew _ _
  refine ⟨j', r, ⟨leafDag s id ids text, coverage s config,
    reductionsOver s config (leafDag s id ids text), some _⟩, ?_, ⟨rfl, rfl, rfl⟩, hopen⟩
  rw [planStages_readable (by rw [h.snapshot]; exact hreadable), hfold]
  dsimp only
  rw [capTexts_short hshort, h.snapshot]

/-- The nodes after the elision of the wide message. -/
def wideDag : SummaryDag :=
  leafDag threeDocument ⟨"sum-m", Eq.refl true⟩ [⟨"wide", Eq.refl true⟩] wideInventory

/-- A pass elides the wide message alone. -/
theorem exists_fixedPrice : ∃ j j' planned, Sound j ∧ j.snapshot = threeDocument ∧
    planStages j owner fixedPriceConfig (fineDraws ⟨"m", Eq.refl true⟩) = (j', .ok planned) ∧
    planned.dag = wideDag ∧ planned.covered = coverage threeDocument fixedPriceConfig ∧
    planned.projected = some (projectedTokens (collectEntries threeDocument)
      (coverage threeDocument fixedPriceConfig) wideDag
      (reductionsOver threeDocument fixedPriceConfig wideDag)
      fixedPriceConfig.fixedOverheadTokens) := by
  obtain ⟨j, log, hopen⟩ := exists_threeTurns
  have hid : Id.new ("sum-" ++ "m") = .ok (⟨"sum-m", Eq.refl true⟩ : ElementId) := rfl
  have hpass : LeafPass threeDocument fixedPriceConfig ⟨"sum-m", Eq.refl true⟩
      [⟨"wide", Eq.refl true⟩] wideInventory := by
    decide +kernel
  obtain ⟨j', -, planned, hplan, hplanned, -⟩ :=
    hopen.elides (show Id.new ("sum-" ++ (⟨"m", Eq.refl true⟩ : ElementId).value) = _ from hid) hpass
  exact ⟨j, j', planned, ⟨_, _, hopen.coherent⟩, hopen.snapshot, hplan, hplanned⟩

/-- The short message stays above the hard bound, as its elision was not foreseen. -/
theorem not_exhausted : ¬ ∀ (j j' : Journal) (owner : ActorId) (config : CompactionConfig)
    (draws : Draws) (planned : Planned), Sound j →
    planStages j owner config draws = (j', .ok planned) → EndsAbove config planned →
      Exhausted j.snapshot config planned := by
  intro h
  obtain ⟨j, j', planned, hsound, hsnapshot, hplan, -, hcovered, hprojected⟩ := exists_fixedPrice
  have hexhausted := h j j' owner fixedPriceConfig _ planned hsound hplan
    ⟨_, hprojected, by decide +kernel⟩
  have hleft : ∃ entry ∈ (collectEntries threeDocument).take
      (finalTurnBoundary (collectEntries threeDocument)), entry.eligible = true ∧
        entry.id ∉ coverage threeDocument fixedPriceConfig := by
    decide +kernel
  obtain ⟨entry, hentry, heligible, huncovered⟩ := hleft
  rw [hsnapshot] at hexhausted
  exact huncovered (hcovered ▸ hexhausted.covers entry hentry heligible)

/-- The pass over the three turns ends above the hard bound, which its first stage has not
foreseen. -/
theorem planStages_exhausted_iff_threeTurns : ∃ (j : Journal) (planned : Planned),
    Sound j ∧ EndsAbove fixedPriceConfig planned ∧
      (Exhausted j.snapshot fixedPriceConfig planned ↔ Foreseen j.snapshot fixedPriceConfig) := by
  obtain ⟨j, j', planned, hsound, -, hplan, -, -, hprojected⟩ := exists_fixedPrice
  have habove : EndsAbove fixedPriceConfig planned := ⟨_, hprojected, by decide +kernel⟩
  exact ⟨j, planned, hsound, habove, (planStages_exhausted_iff hsound hplan).2 habove⟩

end Omp2.Control
