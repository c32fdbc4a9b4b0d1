import Omp2.Control.Completeness

/-!
# Planning twice

A second pass over the journal that a first one leaves counts the nodes of that one at their real
price. It does nothing and decides the same exactly when nothing more is elided at this price, the
caps do not spare a reduction, and the journal lists the roots in the order in which they were made.
-/

namespace Omp2.Control

open Omp2.Json Omp2.State SessionSnapshot List

/-! ## What is selected -/

section Selection

variable {covered : Std.ExtTreeSet ElementId} {entries : List BodyEntry}

/-- The first stage selects nothing at the target, or when nothing pays for its inventory. -/
theorem selectSoft_eq_nil {target simulated : Nat} :
    (selectSoft covered target entries simulated).1 = [] ↔ simulated ≤ target ∨
      ∀ entry ∈ entries, entry.eligible = true → entry.id ∉ covered →
        entry.tokens ≤ inventoryLineTokens + nodeHeaderTokens := by
  induction entries with
  | nil => exact iff_of_true rfl (.inr fun entry hentry => absurd hentry not_mem_nil)
  | cons entry rest ih =>
      unfold selectSoft
      by_cases htarget : simulated ≤ target
      · rw [if_pos htarget]
        exact iff_of_true rfl (.inl htarget)
      · rw [if_neg htarget, forall_mem_cons]
        by_cases hskipped : ¬ entry.eligible = true ∨ covered.contains entry.id = true ∨
            entry.tokens ≤ inventoryLineTokens + nodeHeaderTokens
        · rw [if_pos hskipped, ih]
          refine or_congr_right (iff_and_self.mpr fun _ heligible huncovered => ?_)
          rcases hskipped with hnot | hcovered | hcheap
          · exact absurd heligible hnot
          · exact absurd (Std.ExtTreeSet.contains_iff_mem.mp hcovered) huncovered
          · exact hcheap
        · rw [if_neg hskipped]
          refine iff_of_false (cons_ne_nil _ _) ?_
          simp only [not_or, not_not, Std.ExtTreeSet.contains_iff_mem] at hskipped
          rintro (hle | ⟨hcheap, -⟩)
          · exact htarget hle
          · exact hskipped.2.2 (hcheap hskipped.1 hskipped.2.1)

/-- The second stage selects nothing when everything that may go is covered. -/
theorem selectHard_eq_nil : selectHard covered entries [] = [] ↔
    ∀ entry ∈ entries, entry.eligible = true → entry.id ∈ covered := by
  constructor
  · intro hnil entry hentry heligible
    have hselected : entry.id ∈ covered ∨ entry.id ∈ selectHard covered entries [] :=
      mem_selectHard hentry heligible
    rw [hnil] at hselected
    exact hselected.resolve_right not_mem_nil
  · intro hall
    have hspec := (selectHard_spec covered entries [] nodup_nil).2
    refine eq_nil_iff_forall_not_mem.mpr fun x hx => ?_
    obtain ⟨entry, hentry, -, heligible, huncovered⟩ := (hspec x hx).resolve_left not_mem_nil
    exact huncovered (hall entry hentry heligible)

/-- What a pass counts before it elides. -/
def unelidedTokens [SerdeJson] (s : SessionSnapshot) (config : CompactionConfig) : Nat :=
  projectedTokens (collectEntries s) (SummaryDag.load s).covered (SummaryDag.load s) ∅
    config.fixedOverheadTokens

/-- Nothing is left to elide: above the soft bound and its target, everything that may go before the
recent turns is covered or cheap; and above the hard bound, everything that may go before the last
message of the user is covered. -/
structure Elided [SerdeJson] (s : SessionSnapshot) (config : CompactionConfig) : Prop where
  soft : config.budget.softTokens ≤ unelidedTokens s config →
    config.budget.targetTokens < unelidedTokens s config →
    ∀ entry ∈ (collectEntries s).take
      (recentTurnBoundary (collectEntries s) config.keepRecentTurns), entry.eligible = true →
      entry.id ∉ (SummaryDag.load s).covered →
      entry.tokens ≤ inventoryLineTokens + nodeHeaderTokens
  hard : config.budget.hardTokens < unelidedTokens s config →
    ∀ entry ∈ (collectEntries s).take (finalTurnBoundary (collectEntries s)),
      entry.eligible = true → entry.id ∈ (SummaryDag.load s).covered

/-- The first stage selects nothing and simulates what it has counted. -/
theorem softSelection_eq_nil {config : CompactionConfig} {projected : Nat} :
    (softSelection entries covered config projected).1 = [] ↔
      (config.budget.softTokens ≤ projected → config.budget.targetTokens < projected →
        ∀ entry ∈ entries.take (recentTurnBoundary entries config.keepRecentTurns),
          entry.eligible = true → entry.id ∉ covered →
          entry.tokens ≤ inventoryLineTokens + nodeHeaderTokens) := by
  unfold softSelection CompactionBudget.shouldTrigger
  by_cases htrigger : config.budget.softTokens ≤ projected
  · rw [if_pos (decide_eq_true htrigger), selectSoft_eq_nil, ← Nat.not_lt]
    constructor
    · exact fun h _ habove => h.resolve_left (not_not.mpr habove)
    · exact fun h => Decidable.or_iff_not_imp_left.mpr fun habove => h htrigger (not_not.mp habove)
  · rw [if_neg (by simpa using htrigger)]
    exact iff_of_true rfl fun h => absurd h htrigger

/-- Where the first stage selects nothing, it simulates nothing. -/
theorem softSelection_unchanged {config : CompactionConfig} {projected : Nat}
    (h : (softSelection entries covered config projected).1 = []) :
    softSelection entries covered config projected = ([], projected) := by
  have hsoft : ∀ (entries : List BodyEntry) (target : Nat),
      (selectSoft covered target entries projected).1 = [] →
      selectSoft covered target entries projected = ([], projected) := by
    intro entries target
    induction entries with
    | nil => exact fun _ => rfl
    | cons entry rest ih =>
      unfold selectSoft
      split
      · exact fun _ => rfl
      · split
        · exact ih
        · exact fun h => absurd h (cons_ne_nil _ _)
  unfold softSelection at h ⊢
  split
  · next htrigger =>
    rw [if_pos htrigger] at h
    exact hsoft _ _ h
  · rfl

/-- A pass elides nothing exactly when nothing is left to elide. -/
theorem elided_eq_nil_iff [SerdeJson] {s : SessionSnapshot} {config : CompactionConfig} :
    elided s config = [] ↔ Elided s config := by
  have hselect : elided s config =
      if config.budget.exceedsHardBound (softSelection (collectEntries s)
          (SummaryDag.load s).covered config (unelidedTokens s config)).2 then
        selectHard (SummaryDag.load s).covered
          ((collectEntries s).take (finalTurnBoundary (collectEntries s)))
          (softSelection (collectEntries s) (SummaryDag.load s).covered config
            (unelidedTokens s config)).1
      else (softSelection (collectEntries s) (SummaryDag.load s).covered config
        (unelidedTokens s config)).1 := rfl
  rw [hselect]
  constructor
  · intro hnil
    have hsoft : (softSelection (collectEntries s) (SummaryDag.load s).covered config
        (unelidedTokens s config)).1 = [] := by
      refine eq_nil_iff_forall_not_mem.mpr fun x hx => ?_
      split at hnil
      · exact absurd (hnil ▸ mem_selectHard_of_pending hx) not_mem_nil
      · exact absurd (hnil ▸ hx) not_mem_nil
    refine ⟨softSelection_eq_nil.mp hsoft, fun habove => ?_⟩
    rw [softSelection_unchanged hsoft,
      if_pos (show config.budget.exceedsHardBound _ = true from decide_eq_true habove)] at hnil
    exact selectHard_eq_nil.mp hnil
  · intro h
    rw [softSelection_unchanged (softSelection_eq_nil.mpr h.soft)]
    split
    · next habove => exact selectHard_eq_nil.mpr (h.hard (of_decide_eq_true habove))
    · rfl

end Selection

/-! ## The rounds again -/

section Rounds

variable {entries : List BodyEntry}

/-- As many rounds are made over other nodes exactly when these ask for every round too. -/
theorem reduce_eq_iff (covered : Std.ExtTreeSet ElementId) (dag dag' : SummaryDag)
    (config : CompactionConfig) (hnodup : (entries.map BodyEntry.id).Nodup)
    (hsame : ∀ rounds, ¬ ExceedsAfter entries covered dag config rounds →
      reduce entries covered dag config (2 * entries.length) ∅ =
        reduced entries covered rounds → dag'.projectionTokens = dag.projectionTokens) :
    reduce entries covered dag' config (2 * entries.length) ∅ =
        reduce entries covered dag config (2 * entries.length) ∅ ↔
      ∀ n, ExceedsAfter entries covered dag config n →
        nextReduction entries covered (reduced entries covered n) ≠ none →
        ExceedsAfter entries covered dag' config n := by
  obtain ⟨first, hfirst, hbefore, hend⟩ := reduce_ends covered dag config hnodup
  obtain ⟨second, hsecond, hbefore', hend'⟩ := reduce_ends covered dag' config hnodup
  have hcount := reducedCount_reduced hnodup first fun i hi => (hbefore i hi).2
  have hcount' := reducedCount_reduced hnodup second fun i hi => (hbefore' i hi).2
  -- over the nodes of the same price every count is the same
  have hprice : dag'.projectionTokens = dag.projectionTokens → ∀ n,
      ExceedsAfter entries covered dag config n ↔ ExceedsAfter entries covered dag' config n := by
    intro heq n
    unfold ExceedsAfter projectedTokens
    rw [heq]
  have hdone : ∀ n, first ≤ n → ExceedsAfter entries covered dag config n →
      nextReduction entries covered (reduced entries covered n) ≠ none →
      ExceedsAfter entries covered dag' config n := by
    intro n hn hexceeds hnext
    rcases hend with hwithin | hnone
    · exact (hprice (hsame first hwithin hfirst) n).mp hexceeds
    · rw [reduced_stable hnone hn] at hnext
      exact absurd hnone hnext
  constructor
  · intro heq n hexceeds hnext
    have hrounds : second = first := by
      rw [← hcount, ← hcount', ← hfirst, ← hsecond, heq]
    rcases Nat.lt_or_ge n first with hearly | hlate
    · exact (hbefore' n (hrounds ▸ hearly)).1
    · exact hdone n hlate hexceeds hnext
  · intro h
    have hle : first ≤ second := by
      by_contra hless
      obtain ⟨hexceeds, hnext⟩ := hbefore second (Nat.lt_of_not_le hless)
      exact hend'.elim (fun hwithin => hwithin (h second hexceeds hnext)) hnext
    have hge : second ≤ first := by
      by_contra hless
      obtain ⟨hexceeds, hnext⟩ := hbefore' first (Nat.lt_of_not_le hless)
      rcases hend with hwithin | hnone
      · exact hwithin ((hprice (hsame first hwithin hfirst) first).mpr hexceeds)
      · exact hnext hnone
    rw [hsecond, hfirst, Nat.le_antisymm hge hle]

end Rounds

/-! ## The folds -/

/-- What is before the first of a character in a text. -/
theorem append_cons_inj {c : Char} {front front' back back' : List Char} (hfront : c ∉ front)
    (hfront' : c ∉ front') (h : front ++ c :: back = front' ++ c :: back') :
    front = front' ∧ back = back' := by
  induction front generalizing front' with
  | nil =>
      cases front' with
      | nil => exact ⟨rfl, (cons.inj h).2⟩
      | cons d rest =>
        exact absurd (cons.inj h).1 fun heq => hfront' (heq ▸ mem_cons_self)
  | cons d rest ih =>
      cases front' with
      | nil =>
        exact absurd (cons.inj h).1 fun heq => hfront (heq ▸ mem_cons_self)
      | cons d' rest' =>
        obtain ⟨rfl, htail⟩ := cons.inj h
        obtain ⟨rfl, hback⟩ := ih (fun hmem => hfront (mem_cons_of_mem _ hmem))
          (fun hmem => hfront' (mem_cons_of_mem _ hmem)) htail
        exact ⟨rfl, hback⟩

theorem blank_notMem_digits (n : Nat) : ' ' ∉ (toString n).toList := by
  intro hmem
  have hdigit : (' ').isDigit = true := by
    refine Nat.isDigit_of_mem_toDigits (b := 10) (n := n) (by decide) (by decide) ?_
    rwa [show (toString n).toList = Nat.toDigits 10 n from Nat.toList_repr] at hmem
  exact absurd hdigit (by decide)


theorem bracket_notMem_id {kind : IdKind} (id : Id kind) : ']' ∉ id.value.toList := by
  intro hmem
  have hvalid := id.valid
  unfold validId at hvalid
  simp only [Bool.and_eq_true, all_eq_true] at hvalid
  exact absurd (hvalid.2 _ hmem) (by decide)

/-- A node is folded in a text that names it. -/
theorem SummaryDag.fold_injective (dag : SummaryDag) : Function.Injective dag.fold := by
  intro id id' heq
  have htext := (MessageFold.handoff.inj heq).1
  unfold renderFold at htext
  have hchars : ∀ (elements : Nat) (tokens : UInt64) (id : ElementId) (text : String),
      (s!"[compacted {elements} earlier elements, ~{tokens} tokens. " ++
        s!"Expand the originals with Read summary://{id.value}]\n{text}").toList =
      "[compacted ".toList ++ ((toString elements).toList ++ ' ' ::
        ("earlier elements, ~".toList ++ ((toString tokens.toNat).toList ++ ' ' ::
          ("tokens. Expand the originals with Read summary://".toList ++
            (id.value.toList ++ ']' :: ("\n".toList ++ text.toList)))))) := by
    intro elements tokens id text
    simp only [String.toList_append, append_assoc]
    rfl
  have hall := congrArg String.toList htext
  rw [hchars, hchars] at hall
  obtain ⟨-, htokens⟩ := append_cons_inj (blank_notMem_digits _) (blank_notMem_digits _)
    (append_cancel_left hall)
  obtain ⟨-, hids⟩ := append_cons_inj (blank_notMem_digits _) (blank_notMem_digits _)
    (append_cancel_left htokens)
  obtain ⟨hid, -⟩ := append_cons_inj (bracket_notMem_id id) (bracket_notMem_id id')
    (append_cancel_left hids)
  exact Id.ext (String.toList_inj.mp hid)

/-! ## The order of the nodes -/

section Order

variable [SerdeJson] {j j' : Journal} {owner : ActorId} {dag dag' : SummaryDag}

omit [SerdeJson] in
/-- Loading more elements. -/
theorem SummaryDag.addAll_order {es : List ElementSnapshot} (dag : SummaryDag)
    (hreadable : ∀ e ∈ es, SummaryNode.fromElement e = .ok (nodeOf e)) :
    (es.foldl SummaryDag.add dag).order = dag.order ++ es.map ElementSnapshot.id := by
  induction es generalizing dag with
  | nil => exact (append_nil _).symm
  | cons e es ih =>
      obtain ⟨he, hes⟩ := forall_mem_cons.mp hreadable
      have hadd : (dag.add e).order = dag.order ++ [e.id] := by
        unfold SummaryDag.add
        rw [he]
      rw [foldl_cons, ih _ hes, hadd, append_assoc]
      rfl

omit [SerdeJson] in
theorem Readable.load_order {s : SessionSnapshot} (h : Readable s) :
    (SummaryDag.load s).order = (summaries s).map ElementSnapshot.id :=
  (SummaryDag.addAll_order _ h).trans (nil_append _)

omit [SerdeJson] in
theorem SummaryDag.Of.roots_eq {es : List ElementSnapshot} (h : dag.Of es) (h' : dag'.Of es)
    (horder : dag.order = dag'.order) : dag.roots = dag'.roots := by
  unfold SummaryDag.roots
  rw [horder]
  exact filter_congr fun id _ => congrArg Bool.not ((h.same h').2.2.1 id)

/-- A node that is created is listed behind fewer than 2³² others. -/
theorem createNode_last {node : SummaryNode} {kind : SummaryKind} {text : String} {draw : Draw}
    {id : ElementId} (hsound : Sound j) (hfew : (summaries j.snapshot).length < 2 ^ 32)
    (hcreate : createNode j owner node kind text draw = (j', .ok id)) :
    summaries j'.snapshot = summaries j.snapshot ++ [node.toElement id kind text] := by
  unfold createNode at hcreate
  dsimp only at hcreate
  split at hcreate
  · cases hcreate
  · split at hcreate
    · cases hcreate
    · next j₁ offset happend =>
      cases hcreate
      rcases (hsound.append_cases happend).2 with
        ⟨s, _, branch, -, happly, hsnapshot⟩ | ⟨⟨_, herror⟩, -⟩
      · obtain ⟨s₁, u, hone, hnodes⟩ := applyPatch_single rfl happly
        obtain ⟨-, hplace⟩ := applyCreate_children hsound.wellFormed hone
        have hindex : (UInt32.ofNat (j.snapshot.children (staticId "summaries")).length).toNat =
            (summaries j.snapshot).length :=
          UInt32.toNat_ofNat_of_lt' hfew
        have hchildren : summaries j'.snapshot = s₁.children (staticId "summaries") := by
          unfold summaries SessionSnapshot.children SessionSnapshot.element
          rw [hsnapshot, show ({ s with selectedBranch := branch } : SessionSnapshot).nodes =
            s₁.nodes from hnodes]
        rw [hchildren, hplace, hindex]
        exact insertIdx_length_self
      · cases herror

/-- The nodes of a journal are listed in the order in which they were made. -/
structure InOrder (j : Journal) (dag : SummaryDag) : Prop extends Loaded j dag where
  order : dag.order = (summaries j.snapshot).map ElementSnapshot.id

theorem InOrder.load (hsound : Sound j) (hreadable : Readable j.snapshot) :
    InOrder j (SummaryDag.load j.snapshot) :=
  ⟨Loaded.load hsound hreadable, hreadable.load_order⟩

/-- The stages that make nodes keep them in order, if there are fewer than 2³² before. -/
theorem foldStages_inOrder {config : CompactionConfig} {draws : Draws}
    (h : InOrder j (SummaryDag.load j.snapshot)) (hfew : (summaries j.snapshot).length < 2 ^ 32)
    (hfold : foldStages j owner config draws = (j', .ok dag)) : InOrder j' dag := by
  have hcondense : ∀ (fuel : Nat) {j₁ : Journal} {dag₁ : SummaryDag}, InOrder j₁ dag₁ →
      condense owner config.maxRootNodes draws.condensation fuel j₁ dag₁ = (j', .ok dag) →
      InOrder j' dag := by
    intro fuel
    induction fuel with
    | zero =>
      intro j₁ dag₁ h₁ heq
      cases heq
      exact h₁
    | succ fuel ih =>
      intro j₁ dag₁ h₁ heq
      unfold condense at heq
      split at heq
      · cases heq
        exact h₁
      · dsimp only at heq
        split at heq
        · cases heq
          exact h₁
        · split at heq
          · cases heq
          · next hcreate =>
            obtain ⟨hsound₂, hreadable₂, -, -⟩ :=
              createNode_loaded h₁.sound h₁.readable hcreate
            exact ih (.load hsound₂ hreadable₂) heq
  unfold foldStages at hfold
  split at hfold
  · cases hfold
  · next j₁ dag₁ hcommit =>
    refine hcondense _ ⟨(commitElision_loaded h.toLoaded hcommit).1, ?_⟩ hfold
    unfold commitElision at hcommit
    split at hcommit
    · cases hcommit
      exact h.order
    · dsimp only at hcommit
      split at hcommit
      · cases hcommit
      · next id hcreate =>
        cases hcommit
        rw [createNode_last h.sound hfew hcreate, map_append, ← h.order]
        rfl

/-- The caps keep the nodes in order. -/
theorem capTexts_inOrder {entries : List BodyEntry} {covered : Std.ExtTreeSet ElementId}
    {reductions : Reductions} {config : CompactionConfig} {worlds : Nat → Journal.Outside}
    (fuel : Nat) (h : InOrder j dag)
    (hcap : capTexts owner entries covered reductions config worlds fuel j dag = (j', .ok dag')) :
    InOrder j' dag' := by
  obtain ⟨hloaded, -, hids⟩ := capTexts_loaded fuel h.toLoaded hcap
  have horder := ((capTexts_onward h.sound (fun id hid => h.nodes.order.mem_iff.mp hid) hcap).2 _
    rfl).1
  exact ⟨hloaded, by rw [horder, h.order, hids]⟩

end Order

/-! ## The second pass -/

section Pass

variable [SerdeJson] {j j' : Journal} {owner : ActorId} {config : CompactionConfig} {draws : Draws}
  {planned : Planned}

omit [SerdeJson] in
/-- The same elements cost the same. -/
theorem SummaryDag.Of.projectionTokens_eq {es : List ElementSnapshot} {dag dag' : SummaryDag}
    (h : dag.Of es) (h' : dag'.Of es) : dag.projectionTokens = dag'.projectionTokens := by
  obtain ⟨-, htexts, -, hroots⟩ := h.same h'
  have hcost : dag.rootCost = dag'.rootCost := by
    funext id
    unfold SummaryDag.rootCost
    rw [htexts]
  rw [SummaryDag.projectionTokens_eq, SummaryDag.projectionTokens_eq, hcost]
  exact (hroots.map _).sum_nat

theorem collectEntries_kept {s s' : SessionSnapshot} (hkept : Kept s s') (hwf : WellFormed s) :
    collectEntries s' = collectEntries s := by
  obtain ⟨hbody, helements⟩ := hkept.body hwf
  unfold collectEntries
  rw [hbody]
  refine filterMap_congr fun e he => ?_
  unfold collectEntry childOfKind
  rw [(helements e he).2]

/-- The stages that make nodes. -/
theorem foldStages_loaded {dag : SummaryDag} (h : Loaded j (SummaryDag.load j.snapshot))
    (hfold : foldStages j owner config draws = (j', .ok dag)) :
    Loaded j' dag ∧ dag.roots.length ≤ max config.maxRootNodes 1 ∧
      ∀ x, Covers (summaries j'.snapshot) x ↔ x ∈ coverage j.snapshot config := by
  unfold foldStages at hfold
  split at hfold
  · cases hfold
  · next j₁ dag₁ hcommit =>
    obtain ⟨hloaded₁, hcovers₁⟩ := commitElision_loaded h hcommit
    obtain ⟨hloaded, hcovers⟩ := condense_loaded _ hloaded₁ hfold
    refine ⟨hloaded, condense_roots _ hloaded₁ (Nat.le_refl _) hfold, fun x => ?_⟩
    unfold coverage
    rw [hcovers, hcovers₁, SummaryDag.mem_extend, h.nodes.mem_covered]

/-- A pass leaves the entries and the nodes that it has decided. -/
theorem planStages_loaded (hsound : Sound j)
    (hreadable : (SummaryDag.load j.snapshot).unreadable = 0)
    (hplan : planStages j owner config draws = (j', .ok planned)) :
    Loaded j' planned.dag ∧ collectEntries j'.snapshot = collectEntries j.snapshot ∧
      (SummaryDag.load j'.snapshot).covered = planned.covered := by
  obtain ⟨j₁, dag, hfold, hcap, hcovered, -, -⟩ := planStages_eq_ok hreadable hplan
  have honward := planStages_onward hsound hplan
  obtain ⟨hloaded₁, -, hcovers₁⟩ :=
    foldStages_loaded (.load hsound (SummaryDag.readable_of_zero _ hreadable).2) hfold
  obtain ⟨hloaded, hcovers, -⟩ := capTexts_loaded _ hloaded₁ hcap
  refine ⟨hloaded, collectEntries_kept honward.kept hsound.wellFormed, ?_⟩
  refine Std.ExtTreeSet.ext_mem fun x => ?_
  rw [(Loaded.load hloaded.sound hloaded.readable).nodes.mem_covered, hcovers, hcovers₁, hcovered]

/-- Where nothing is left to elide and there are few roots, no nodes are made. -/
theorem foldStages_elided (owner : ActorId) (draws : Draws)
    (helided : elided j.snapshot config = [])
    (hfew : (SummaryDag.load j.snapshot).roots.length ≤ max config.maxRootNodes 1) :
    foldStages j owner config draws = (j, .ok (SummaryDag.load j.snapshot)) ∧
      coverage j.snapshot config = (SummaryDag.load j.snapshot).covered := by
  unfold foldStages coverage
  rw [helided, commitElision_nil]
  exact ⟨condense_few hfew _ _, rfl⟩

/-- Among fewer than 2³² nodes, a pass leaves the roots in the order in which they were made. -/
theorem planStages_ordered {j₁ : Journal} {dag : SummaryDag} (hsound : Sound j)
    (hreadable : (SummaryDag.load j.snapshot).unreadable = 0)
    (hplan : planStages j owner config draws = (j', .ok planned))
    (hfold : foldStages j owner config draws = (j₁, .ok dag))
    (hfew : (summaries j.snapshot).length < 2 ^ 32) :
    InOrder j' planned.dag ∧ (SummaryDag.load j'.snapshot).roots = dag.roots := by
  obtain ⟨j₂, dag₂, hfold₂, hcap, -, -, -⟩ := planStages_eq_ok hreadable hplan
  rw [hfold] at hfold₂
  cases hfold₂
  have hstart := InOrder.load hsound (SummaryDag.readable_of_zero _ hreadable).2
  have hmade := foldStages_inOrder hstart hfew hfold
  have hended := capTexts_inOrder _ hmade hcap
  have hloaded := InOrder.load hended.sound hended.readable
  obtain ⟨horder, hchildren, -⟩ := (capTexts_onward hmade.sound
    (fun id hid => hmade.nodes.order.mem_iff.mp hid) hcap).2 _ rfl
  refine ⟨hended, ?_⟩
  rw [hloaded.nodes.roots_eq hended.nodes (hloaded.order.trans hended.order.symm)]
  unfold SummaryDag.roots
  rw [horder, hchildren]

/-- What a second pass finds after a first one. -/
structure Followed (j j' : Journal) (config : CompactionConfig) (dag : SummaryDag)
    (planned : Planned) : Prop where
  loaded : Loaded j' planned.dag
  zero : (SummaryDag.load j'.snapshot).unreadable = 0
  entries : collectEntries j'.snapshot = collectEntries j.snapshot
  covered : (SummaryDag.load j'.snapshot).covered = planned.covered
  few : (SummaryDag.load j'.snapshot).roots.length ≤ max config.maxRootNodes 1
  folds : (SummaryDag.load j'.snapshot).folds = planned.dag.folds ↔
    (SummaryDag.load j'.snapshot).roots = dag.roots
  reduced : reduce (collectEntries j'.snapshot) (SummaryDag.load j'.snapshot).covered
      (SummaryDag.load j'.snapshot) config (2 * (collectEntries j'.snapshot).length) ∅ =
        planned.reductions ↔
    ∀ n, ExceedsAfter (collectEntries j'.snapshot) (SummaryDag.load j'.snapshot).covered dag config
        n →
      nextReduction (collectEntries j'.snapshot) (SummaryDag.load j'.snapshot).covered
        (reduced (collectEntries j'.snapshot) (SummaryDag.load j'.snapshot).covered n) ≠ none →
      ExceedsAfter (collectEntries j'.snapshot) (SummaryDag.load j'.snapshot).covered
        (SummaryDag.load j'.snapshot) config n
  capped : projectedTokens (collectEntries j'.snapshot) (SummaryDag.load j'.snapshot).covered
      (SummaryDag.load j'.snapshot) planned.reductions config.fixedOverheadTokens ≤
        config.budget.hardTokens ∨
    (SummaryDag.load j'.snapshot).roots.find? (Long (SummaryDag.load j'.snapshot)) = none

theorem planStages_followed {j₁ : Journal} {dag : SummaryDag} (hsound : Sound j)
    (hreadable : (SummaryDag.load j.snapshot).unreadable = 0)
    (hplan : planStages j owner config draws = (j', .ok planned))
    (hfold : foldStages j owner config draws = (j₁, .ok dag)) :
    Followed j j' config dag planned := by
  obtain ⟨j₂, dag₂, hfold₂, hcap, hcovered, hreductions, hprojected⟩ :=
    planStages_eq_ok hreadable hplan
  rw [hfold] at hfold₂
  cases hfold₂
  have hends := planStages_loopsEnd hsound hreadable hplan
  obtain ⟨hloaded, hentries, hcover⟩ := planStages_loaded hsound hreadable hplan
  obtain ⟨hloaded₁, -, -⟩ :=
    foldStages_loaded (.load hsound (SummaryDag.readable_of_zero _ hreadable).2) hfold
  obtain ⟨horder, hchildren, -⟩ := (capTexts_onward hloaded₁.sound
    (fun id hid => hloaded₁.nodes.order.mem_iff.mp hid) hcap).2 _ rfl
  -- the nodes of the document, in their order there
  have hnodes := (Loaded.load hloaded.sound hloaded.readable).nodes
  have hprice := hnodes.projectionTokens_eq hloaded.nodes
  obtain ⟨-, htexts, -, hroots⟩ := hnodes.same hloaded.nodes
  refine ⟨hloaded, hnodes.readable, hentries, hcover, ?_, ?_, ?_, ?_⟩
  · rw [hroots.length_eq]
    exact hends.condensed
  · have hkept : planned.dag.roots = dag.roots := by
      unfold SummaryDag.roots
      rw [horder, hchildren]
    unfold SummaryDag.folds
    rw [hnodes.fold_eq hloaded.nodes, ← hkept]
    exact map_inj_right fun _ _ heq => planned.dag.fold_injective heq
  · rw [hentries, hcover, hcovered, hreductions]
    refine reduce_eq_iff (coverage j.snapshot config) dag (SummaryDag.load j'.snapshot) config
      ((nodup_children hsound.wellFormed (staticId "body")).sublist collectEntries_sublist)
      fun rounds hwithin hreduce => ?_
    -- where the bound holds after the rounds, nothing has been capped
    unfold ExceedsAfter CompactionBudget.exceedsHardBound at hwithin
    rw [hprice]
    unfold reductionsOver at hcap
    rw [hreduce, capTexts_within (by simpa using hwithin)] at hcap
    cases hcap
    rfl
  · refine (hends.capped _ hprojected).imp (fun hwithin => ?_) fun hshort => ?_
    · rw [hentries, hcover, hcovered]
      unfold projectedTokens at hwithin ⊢
      rw [hprice]
      exact hwithin
    · refine find?_eq_none.mpr fun id hid => ?_
      have htext : (SummaryDag.load j'.snapshot).textOf id = planned.dag.textOf id := by
        unfold SummaryDag.textOf
        rw [htexts]
      unfold Long
      rw [htext]
      simpa using hshort id (hroots.mem_iff.mp hid)

/-- A document after a pass at which a second one decides the same: nothing is left to elide; every
reduction over the nodes before the caps is asked for over the nodes of the document too; and these
are listed in the order in which they were made. -/
structure Settled (s : SessionSnapshot) (config : CompactionConfig) (dag : SummaryDag) : Prop where
  elided : Elided s config
  rounds : ∀ n, ExceedsAfter (collectEntries s) (SummaryDag.load s).covered dag config n →
    nextReduction (collectEntries s) (SummaryDag.load s).covered
      (reduced (collectEntries s) (SummaryDag.load s).covered n) ≠ none →
    ExceedsAfter (collectEntries s) (SummaryDag.load s).covered (SummaryDag.load s) config n
  ordered : (SummaryDag.load s).roots = dag.roots

/-- A second pass over a settled document does nothing. -/
theorem Followed.plan_again {dag : SummaryDag} (h : Followed j j' config dag planned)
    (hsettled : Settled j'.snapshot config dag) (owner : ActorId) (again : Draws) :
    plan j' owner config again = (j', .ok planned.outcome) := by
  obtain ⟨hidle, hcoverage⟩ :=
    foldStages_elided owner again (elided_eq_nil_iff.mpr hsettled.elided) h.few
  have hreduced : reductionsOver j'.snapshot config (SummaryDag.load j'.snapshot) =
      planned.reductions := by
    unfold reductionsOver
    rw [hcoverage]
    exact h.reduced.mpr hsettled.rounds
  have hcapped : ∀ fuel, capTexts owner (collectEntries j'.snapshot)
      (SummaryDag.load j'.snapshot).covered planned.reductions config again.cap fuel j'
      (SummaryDag.load j'.snapshot) = (j', .ok (SummaryDag.load j'.snapshot)) := by
    intro fuel
    rcases h.capped with hwithin | hshort
    · exact capTexts_within hwithin fuel j'
    · exact capTexts_short hshort config fuel j'
  unfold plan
  rw [planStages_readable h.zero, hidle]
  dsimp only
  rw [hreduced, hcoverage, hcapped]
  dsimp only
  unfold Planned.outcome
  dsimp only
  rw [h.folds.mpr hsettled.ordered, h.covered]

/-- A document over which a second pass decides the same is settled. -/
theorem Followed.settled {dag : SummaryDag} {again : Draws}
    (h : Followed j j' config dag planned)
    (hagain : plan j' owner config again = (j', .ok planned.outcome)) :
    Settled j'.snapshot config dag := by
  obtain ⟨second, hstages, houtcome⟩ := plan_eq_ok hagain
  obtain ⟨hfolds, hcover, hreductions⟩ := CompactionOutcome.mk.inj houtcome
  obtain ⟨j₂, dag₂, hfold, hcap, hcovered₂, hreductions₂, -⟩ := planStages_eq_ok h.zero hstages
  have helided : elided j'.snapshot config = [] := by
    refine eq_nil_iff_forall_not_mem.mpr fun x hx => ?_
    refine elided_uncovered h.loaded.sound.wellFormed config x hx ?_
    rw [h.covered, hcover, hcovered₂]
    exact SummaryDag.mem_extend.mpr (.inr hx)
  obtain ⟨hidle, hcoverage⟩ := foldStages_elided owner again helided h.few
  rw [hidle] at hfold
  cases hfold
  have hnodes := (Loaded.load h.loaded.sound h.loaded.readable).nodes
  obtain ⟨horder, hchildren, -⟩ := (capTexts_onward h.loaded.sound
    (SummaryDag.load_listed j'.snapshot) hcap).2 _ rfl
  obtain ⟨hloaded₂, -, -⟩ := planStages_loaded h.loaded.sound h.zero hstages
  have hsecond : second.dag.folds = (SummaryDag.load j'.snapshot).folds := by
    unfold SummaryDag.folds SummaryDag.roots
    rw [hnodes.fold_eq hloaded₂.nodes, horder, hchildren]
  refine ⟨elided_eq_nil_iff.mp helided, h.reduced.mp ?_, h.folds.mp ?_⟩
  · rw [hreductions, hreductions₂]
    unfold reductionsOver
    rw [hcoverage]
  · exact hsecond.symm.trans hfolds.symm

/-- A second pass right after one that has succeeded appends nothing and has the same outcome
exactly when the document that the first one leaves is settled. -/
theorem plan_again_iff {outcome : CompactionOutcome} (hsound : Sound j)
    (hreadable : (SummaryDag.load j.snapshot).unreadable = 0)
    (hplan : plan j owner config draws = (j', .ok outcome)) (again : Draws) :
    plan j' owner config again = (j', .ok outcome) ↔
      ∀ j₁ dag, foldStages j owner config draws = (j₁, .ok dag) →
        Settled j'.snapshot config dag := by
  obtain ⟨planned, hstages, rfl⟩ := plan_eq_ok hplan
  constructor
  · intro hagain j₁ dag hfold
    exact (planStages_followed hsound hreadable hstages hfold).settled hagain
  · intro h
    obtain ⟨j₁, dag, hfold, -⟩ := planStages_eq_ok hreadable hstages
    exact (planStages_followed hsound hreadable hstages hfold).plan_again (h j₁ dag hfold) owner
      again

end Pass

end Omp2.Control

/-! ## A second pass that goes on, and one that does nothing -/

namespace Omp2.Control

open Omp2.Json.Compact Omp2.State Journal

/-- The pass over the three turns leaves a document at which a second one elides the short
message. -/
theorem not_plan_again : ¬ ∀ (j j' : Journal) (owner : ActorId) (config : CompactionConfig)
    (draws again : Draws) (outcome : CompactionOutcome), Sound j →
    (SummaryDag.load j.snapshot).unreadable = 0 →
    plan j owner config draws = (j', .ok outcome) →
      plan j' owner config again = (j', .ok outcome) := by
  intro h
  obtain ⟨j, j', planned, hsound, hsnapshot, hstages, hdag, hcovered, -⟩ := exists_fixedPrice
  have hreadable : (SummaryDag.load j.snapshot).unreadable = 0 := by
    rw [hsnapshot]
    decide +kernel
  obtain ⟨j₁, dag, hfold, -⟩ := planStages_eq_ok hreadable hstages
  have hfollowed := planStages_followed hsound hreadable hstages hfold
  have hsettled := hfollowed.settled (h j j' owner fixedPriceConfig _
    (fineDraws ⟨"m", Eq.refl true⟩) _ hsound hreadable (plan_of_stages hstages))
  have hcount : unelidedTokens j'.snapshot fixedPriceConfig =
      projectedTokens (collectEntries threeDocument) (coverage threeDocument fixedPriceConfig)
        wideDag ∅ fixedPriceConfig.fixedOverheadTokens := by
    have hnodes := (Loaded.load hfollowed.loaded.sound hfollowed.loaded.readable).nodes
    unfold unelidedTokens projectedTokens
    rw [hfollowed.entries, hfollowed.covered, hcovered, hsnapshot,
      hnodes.projectionTokens_eq hfollowed.loaded.nodes, hdag]
  have hhard := hsettled.elided.hard (by rw [hcount]; decide +kernel)
  rw [hfollowed.entries, hfollowed.covered, hcovered, hsnapshot] at hhard
  have hleft : ∃ entry ∈ (collectEntries threeDocument).take
      (finalTurnBoundary (collectEntries threeDocument)), entry.eligible = true ∧
        entry.id ∉ coverage threeDocument fixedPriceConfig := by
    decide +kernel
  obtain ⟨entry, hentry, heligible, huncovered⟩ := hleft
  exact huncovered (hhard entry hentry heligible)

/-- A second pass over two short messages does nothing, as the first one has done nothing. -/
theorem plan_again_messages : ∃ (j : Journal) (outcome : CompactionOutcome), Sound j ∧
    (plan j owner roomyConfig (fineDraws ⟨"again", Eq.refl true⟩) = (j, .ok outcome) ↔
      ∀ j₁ dag, foldStages j owner roomyConfig (fineDraws ⟨"m", Eq.refl true⟩) = (j₁, .ok dag) →
        Settled j.snapshot roomyConfig dag) := by
  obtain ⟨j, hsound, hsnapshot⟩ :=
    exists_first messagesPatch rfl (by decide +kernel) (fits_of_draft (by decide +kernel))
  have hreadable : (SummaryDag.load j.snapshot).unreadable = 0 := by
    rw [hsnapshot]
    decide +kernel
  have hplan : plan j owner roomyConfig (fineDraws ⟨"m", Eq.refl true⟩) = (j, .ok _) :=
    plan_unminted hreadable (by rw [hsnapshot]; decide +kernel)
      (by rw [hsnapshot]; decide +kernel) (by rw [hsnapshot]; decide +kernel) owner _
  exact ⟨j, _, hsound, plan_again_iff hsound hreadable hplan _⟩

end Omp2.Control
