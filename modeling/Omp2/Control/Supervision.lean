import Omp2.Control.Children

/-!
# No child is lost

A batch of children is started as a whole or not at all, and each child that ends while its element
is on the selected branch is settled exactly once with its result, in every run in which a batch
fails before its first child is journaled, a poll finds the elements of the children that are due,
and the journal takes their settlements.
-/

namespace Omp2.Control

open Omp2.Json Omp2.State SessionSnapshot List

/-! ## What a run owes to its children -/

/-- The element says how the child has ended, as the result does. -/
def Settlement.Complete (settlement : Settlement) : Prop :=
  ∃ e, settlement.element = some e ∧ isTerminal e = true ∧
    e.attributes["status"]? = some (.string (settledStatus (resultPayload settlement.result))) ∧
    e.text = settledText (resultPayload settlement.result) ∧
    e.payload = some (redactedPayload (resultPayload settlement.result))

namespace ParentHost

/-- The result of a child waits in the table for a poll. -/
def Waiting (host : ParentHost) (id : ElementId) (result : Except StructuredError Value) : Prop :=
  ∃ child, host.children[id]? = some child ∧ child.result.received = some result

/-- A child has been settled with its result, and only once. -/
def SettledOnce (host : ParentHost) (id : ElementId) (result : Except StructuredError Value) :
    Prop :=
  (∃ settlement ∈ host.settlements,
    settlement.id = id ∧ settlement.result = result ∧ settlement.Complete) ∧
    (host.settlements.map Settlement.id).count id = 1

/-- A batch is started as a whole, or it leaves no child behind. -/
structure Whole (host : ParentHost) (input : Value) (host' : ParentHost)
    (result : Except StructuredError ToolExecutionResult) : Prop where
  started : ∀ reply, result = .ok reply → ∃ tasks ids,
    (input.get "tasks").bind Value.asArray = some tasks ∧ ids.length = tasks.length ∧ ids.Nodup ∧
    reply = spawnReply ids ∧ ∀ id ∈ ids, host'.children[id]? = some ⟨false, .running⟩ ∧
      (host'.journal.snapshot.element id).isSome = true
  refused : ∀ e, result = .error e → host'.children = host.children ∧
    ∀ id e, host'.journal.snapshot.element id = some e → e.kind = "subagent" →
      isTerminal e = true ∨ host.journal.snapshot.element id = some e

variable [SerdeJson]

/-- No run loses a child: its batches are whole, a child that is due waits or has been settled, and
after a poll it has been settled. -/
structure LosesNothing (start : ParentHost) (events : List ChildEvent) : Prop where
  spawned : ∀ before input maxConcurrency worlds rest,
    events = before ++ .spawn input maxConcurrency worlds :: rest →
    Whole (Machine.run step start before) input
      ((Machine.run step start before).spawnChildren input maxConcurrency worlds).1
      ((Machine.run step start before).spawnChildren input maxConcurrency worlds).2
  kept : ∀ before rest, events = before ++ rest → ∀ id result,
    (id, result) ∈ (Machine.run step start before).due →
    Waiting (Machine.run step start before) id result ∨
      SettledOnce (Machine.run step start before) id result
  settled : ∀ before outside rest, events = before ++ .poll outside :: rest → ∀ id result,
    (id, result) ∈ (Machine.run step start (before ++ [.poll outside])).due →
    SettledOnce (Machine.run step start (before ++ [.poll outside])) id result

/-! ## Steps in which nothing is lost -/

/-- A child is prepared and the journal takes its element. -/
def Announces (owner : ActorId) (context : String) (j : Journal) (task : Value) (w : ChildWorld)
    (element : ElementId) (j' : Journal) : Prop :=
  w.element = .ok element ∧ ∃ prepared offset, w.prepared = .ok prepared ∧
    j.appendPatch (spawnPatch owner j (subagentElement element owner w.actor context task prepared))
      w.outside = (j', .ok offset)

/-- Each child of a batch is announced and its thread is started. -/
def AllStart (owner : ActorId) (context : String) (worlds : Nat → ChildWorld) :
    Journal → Nat → List Value → Prop
  | _, _, [] => True
  | j, n, task :: rest =>
    ∃ element j', Announces owner context j task (worlds n) element j' ∧
      (worlds n).thread = .ok () ∧ AllStart owner context worlds j' (n + 1) rest

/-- The identifiers that a batch mints are new. -/
structure Minted (host : ParentHost) (worlds : Nat → ChildWorld) (count : Nat) : Prop where
  new : ∀ n < count, ∀ element, (worlds n).element = .ok element →
    host.children[element]? = none ∧ (∀ entry ∈ host.due, entry.1 ≠ element) ∧
      ∀ settlement ∈ host.settlements, settlement.id ≠ element
  distinct : ∀ m n, m < n → n < count → ∀ element, (worlds m).element = .ok element →
    (worlds n).element ≠ .ok element

/-- The journal takes the settlement of each finished child whose element is present. -/
def Taken (owner : ActorId) (outside : ElementId → Journal.Outside) :
    Journal → List (ElementId × Except StructuredError Value) → Prop
  | _, [] => True
  | j, (id, result) :: rest =>
    if (j.snapshot.element id).isNone then Taken owner outside j rest
    else ∃ j' offset, j.appendPatch (settleChildPatch owner j id result) (outside id) =
      (j', .ok offset) ∧ Taken owner outside j' rest

/-- A batch starts all of its children or is refused before the first is journaled. A poll finds
the element of each child that is due, and the journal takes every settlement. -/
def Orderly (host : ParentHost) : ChildEvent → Prop
  | .spawn input maxConcurrency worlds => ∀ context tasks,
    checkBatch input maxConcurrency host.children.size = .ok (context, tasks) →
    Minted host worlds tasks.length ∧
      (AllStart host.owner context worlds host.journal 0 tasks ∨ ∀ task ∈ tasks.head?,
        ¬ ∃ element j', Announces host.owner context host.journal task (worlds 0) element j')
  | .poll outside =>
    (∀ id result, (id, result) ∈ host.due → host.children[id]?.isSome = true →
      (host.journal.snapshot.element id).isSome = true) ∧
      Taken host.owner outside host.journal host.completed
  | .finish .. | .crash _ | .cancel _ | .journal _ => True

/-! ## What is tracked -/

/-- The status that a result leaves is terminal. -/
def Final (result : Except StructuredError Value) : Prop :=
  (Status.fromDomStr (settledStatus (resultPayload result))).any Status.isTerminalSession = true

/-- A child that is due waits in the table with its result or has been settled with it, and nothing
is settled twice. -/
structure Tracked (host : ParentHost) : Prop where
  sound : Sound host.journal
  final : ∀ id result, Waiting host id result → Final result
  unsettled : ∀ id child, host.children[id]? = some child →
    ∀ settlement ∈ host.settlements, settlement.id ≠ id
  pending : ∀ id result, (id, result) ∈ host.due → ∀ child, host.children[id]? = some child →
    child.result.received = some result
  settled : ∀ id result, (id, result) ∈ host.due → host.children[id]? = none →
    ∃ settlement ∈ host.settlements,
      settlement.id = id ∧ settlement.result = result ∧ settlement.Complete
  once : (host.settlements.map Settlement.id).Nodup

/-! ## What one settlement does -/

/-- The element of a child after its settlement. -/
def settledElement (e : ElementSnapshot) (payload : Value) : ElementSnapshot :=
  { e with
    attributes := e.attributes.insert "status" (.string (settledStatus payload))
    text := settledText payload
    payload := some (redactedPayload payload) }

section Elements

variable {s s' : SessionSnapshot}

omit [SerdeJson]

/-- The operations of a settlement reach the element of the child only. -/
theorem element_settled {id : ElementId} {payload : Value}
    (h : s.applyOps [] (settleChildOps id payload) = (s', .ok ())) (x : ElementId) :
    s'.element x = (s.element x).map fun e => if id = x then settledElement e payload else e := by
  unfold settleChildOps applyOps at h
  split at h
  · next s₁ u₁ hstatus =>
    unfold applyOps at h
    split at h
    · next s₂ u₂ htext =>
      unfold applyOps at h
      split at h
      · next s₃ u₃ hpayload =>
        cases h
        dsimp only [applyOne] at hstatus htext hpayload
        obtain ⟨_, _, _, rfl⟩ := applyContent_ok hstatus
        obtain ⟨_, _, _, rfl⟩ := applyContent_ok htext
        obtain ⟨_, _, _, rfl⟩ := applyContent_ok hpayload
        rw [element_modify, element_modify, element_modify]
        cases s.element x with
        | none => rfl
        | some e =>
          dsimp only [Option.map_some]
          split <;> rfl
      · cases h
    · cases h
  · cases h

/-- A settled element is complete. -/
theorem complete_settledElement {id : ElementId} {result : Except StructuredError Value}
    (e : ElementSnapshot) (hfinal : Final result) :
    Settlement.Complete ⟨id, result, some (settledElement e (resultPayload result))⟩ := by
  have hstatus : (settledElement e (resultPayload result)).attributes["status"]? =
      some (.string (settledStatus (resultPayload result))) := by
    unfold settledElement
    dsimp only
    rw [Std.ExtTreeMap.getElem?_insert_self]
  refine ⟨_, rfl, ?_, hstatus, rfl, rfl⟩
  unfold isTerminal
  rw [hstatus]
  exact hfinal

end Elements

/-- What the append of a settlement has done. -/
theorem element_settlement {host : ParentHost} {id : ElementId}
    {result : Except StructuredError Value} {outside : Journal.Outside} {journal : Journal}
    {offset : UInt64} (hsound : Sound host.journal)
    (happend : host.journal.appendPatch (settleChildPatch host.owner host.journal id result)
      outside = (journal, .ok offset)) :
    Sound journal ∧ ∀ x, journal.snapshot.element x = (host.journal.snapshot.element x).map
      fun e => if id = x then settledElement e (resultPayload result) else e := by
  obtain ⟨hsound', hcases⟩ := hsound.append_cases happend
  refine ⟨hsound', fun x => ?_⟩
  rcases hcases with ⟨s, _, branch, _, happly, hsnapshot⟩ | ⟨⟨_, herror⟩, _⟩
  · obtain ⟨_, _, s₁, hops, rfl⟩ := applyPatch_ok happly
    rw [hsnapshot]
    exact element_settled hops x
  · cases herror

/-! ## One poll -/

/-- The second loop of a poll with the results that it has still to settle. -/
structure Polling (host : ParentHost) (rest : List (ElementId × Except StructuredError Value)) :
    Prop where
  sound : Sound host.journal
  final : ∀ entry ∈ rest, Final entry.2
  distinct : rest.Pairwise fun a b => a.1 ≠ b.1
  listed : ∀ id result, (id, result) ∈ rest → host.children[id]?.isSome = true
  running : ∀ id child, host.children[id]? = some child →
    child.result = .running ∨ ∃ result, (id, result) ∈ rest
  unsettled : ∀ id child, host.children[id]? = some child →
    ∀ settlement ∈ host.settlements, settlement.id ≠ id
  pending : ∀ id result, (id, result) ∈ host.due → host.children[id]?.isSome = true →
    (id, result) ∈ rest ∧ (host.journal.snapshot.element id).isSome = true
  settled : ∀ id result, (id, result) ∈ host.due → host.children[id]? = none →
    ∃ settlement ∈ host.settlements,
      settlement.id = id ∧ settlement.result = result ∧ settlement.Complete
  once : (host.settlements.map Settlement.id).Nodup

variable {host : ParentHost} {outside : ElementId → Journal.Outside}

omit [SerdeJson] in
theorem children_erase {id x : ElementId} {child : ChildHandle}
    (h : (host.children.erase id)[x]? = some child) :
    id ≠ x ∧ host.children[x]? = some child := by
  rw [Std.ExtTreeMap.getElem?_erase] at h
  split at h
  · cases h
  · next hne => exact ⟨fun heq => hne (by simp [heq]), h⟩

/-- One round of the loop settles a child. -/
theorem Polling.settleChild {id : ElementId} {result : Except StructuredError Value}
    {rest : List (ElementId × Except StructuredError Value)}
    (h : Polling host ((id, result) :: rest))
    (htaken : Taken host.owner outside host.journal ((id, result) :: rest)) :
    ∃ host', host.settleChild id result (outside id) = (host', .ok ()) ∧ Polling host' rest ∧
      Taken host'.owner outside host'.journal rest := by
  have hdistinct := pairwise_cons.mp h.distinct
  have hother : ∀ x result', (x, result') ∈ rest → id ≠ x := fun x result' hmem =>
    hdistinct.1 _ hmem
  have hlisted : ∀ x result', (x, result') ∈ rest → (host.children.erase id)[x]?.isSome = true := by
    intro x result' hmem
    have hsome := h.listed x result' (mem_cons_of_mem _ hmem)
    rw [Std.ExtTreeMap.getElem?_erase, if_neg (by simpa using hother x result' hmem)]
    exact hsome
  have hrunning : ∀ x child, (host.children.erase id)[x]? = some child →
      child.result = .running ∨ ∃ result', (x, result') ∈ rest := by
    intro x child hchild
    obtain ⟨hne, hchild⟩ := children_erase hchild
    refine (h.running x child hchild).imp_right fun ⟨result', hmem⟩ => ?_
    rcases mem_cons.mp hmem with heq | hmem
    · cases heq
      exact absurd rfl hne
    · exact ⟨result', hmem⟩
  have hpending : ∀ x result', (x, result') ∈ host.due →
      (host.children.erase id)[x]?.isSome = true →
      (x, result') ∈ rest ∧ (host.journal.snapshot.element x).isSome = true := by
    intro x result' hdue hsome
    obtain ⟨child, hchild⟩ := Option.isSome_iff_exists.mp hsome
    obtain ⟨hne, hchild⟩ := children_erase hchild
    obtain ⟨hmem, hpresent⟩ := h.pending x result' hdue (by rw [hchild]; rfl)
    rcases mem_cons.mp hmem with heq | hmem
    · cases heq
      exact absurd rfl hne
    · exact ⟨hmem, hpresent⟩
  have hgone : ∀ x, (host.children.erase id)[x]? = none → x = id ∨ host.children[x]? = none := by
    intro x hnone
    rw [Std.ExtTreeMap.getElem?_erase] at hnone
    split at hnone
    · next heq => exact .inl (by simpa using heq : id = x).symm
    · exact .inr hnone
  have hfinal := forall_mem_cons.mp h.final
  unfold ParentHost.settleChild
  unfold Taken at htaken
  dsimp only
  split
  · next habsent =>
    rw [if_pos habsent] at htaken
    refine ⟨_, rfl, ⟨h.sound, hfinal.2, hdistinct.2, hlisted, hrunning, ?_, hpending, ?_, h.once⟩,
      htaken⟩
    · exact fun x child hchild => h.unsettled x child (children_erase hchild).2
    · intro x result' hdue hnone
      rcases hgone x hnone with rfl | hnone
      · have hlive := h.listed x result mem_cons_self
        obtain ⟨_, hpresent⟩ := h.pending x result' hdue hlive
        rw [Option.isNone_iff_eq_none.mp habsent] at hpresent
        cases hpresent
      · exact h.settled x result' hdue hnone
  · next hpresent =>
    rw [if_neg hpresent] at htaken
    obtain ⟨journal, offset, happend, htaken⟩ := htaken
    obtain ⟨hsound, helement⟩ := element_settlement h.sound happend
    rw [happend]
    refine ⟨_, rfl, ⟨hsound, hfinal.2, hdistinct.2, hlisted, hrunning, ?_, ?_, ?_, ?_⟩, htaken⟩
    · intro x child hchild settlement hmem
      obtain ⟨hne, hchild⟩ := children_erase hchild
      rcases mem_append.mp hmem with hmem | hmem
      · exact h.unsettled x child hchild settlement hmem
      · rw [mem_singleton.mp hmem]
        exact hne
    · intro x result' hdue hsome
      obtain ⟨hmem, hlive⟩ := hpending x result' hdue hsome
      refine ⟨hmem, ?_⟩
      dsimp only
      rw [helement, Option.isSome_map]
      exact hlive
    · intro x result' hdue hnone
      rcases hgone x hnone with rfl | hnone
      · obtain ⟨hmem, _⟩ := h.pending x result' hdue (h.listed x result mem_cons_self)
        obtain rfl : result' = result := by
          rcases mem_cons.mp hmem with heq | hmem
          · cases heq
            rfl
          · exact absurd rfl (hother x result' hmem)
        obtain ⟨e, he⟩ := Option.ne_none_iff_exists'.mp
          (fun hnone => hpresent (Option.isNone_iff_eq_none.mpr hnone))
        refine ⟨_, mem_append_right _ mem_cons_self, rfl, rfl, ?_⟩
        rw [helement, he, Option.map_some, if_pos rfl]
        exact complete_settledElement e hfinal.1
      · obtain ⟨settlement, hmem, hsettled⟩ := h.settled x result' hdue hnone
        exact ⟨settlement, mem_append_left _ hmem, hsettled⟩
    · obtain ⟨child, hchild⟩ := Option.isSome_iff_exists.mp (h.listed id result mem_cons_self)
      rw [map_append, nodup_append]
      refine ⟨h.once, nodup_singleton _, fun a ha b hb heq => ?_⟩
      obtain ⟨settlement, hmem, rfl⟩ := mem_map.mp ha
      rw [map_singleton, mem_singleton] at hb
      exact h.unsettled id child hchild settlement hmem (heq.trans hb)

/-- The whole loop settles every child that it was given. -/
theorem Polling.settleAll {rest : List (ElementId × Except StructuredError Value)}
    (h : Polling host rest) (htaken : Taken host.owner outside host.journal rest) :
    ∃ host', ParentHost.settleAll outside host rest = (host', .ok ()) ∧ Polling host' [] := by
  induction rest generalizing host with
  | nil => exact ⟨host, rfl, h⟩
  | cons entry rest ih =>
      obtain ⟨id, result⟩ := entry
      obtain ⟨host₁, hsettle, h₁, htaken₁⟩ := h.settleChild htaken
      obtain ⟨host', hrest, h'⟩ := ih h₁ htaken₁
      refine ⟨host', ?_, h'⟩
      unfold ParentHost.settleAll
      rw [hsettle]
      exact hrest

omit [SerdeJson] in
/-- The finished children are those whose results wait. -/
theorem mem_completed {id : ElementId} {result : Except StructuredError Value} :
    (id, result) ∈ host.completed ↔ Waiting host id result := by
  unfold completed Waiting
  rw [mem_filterMap]
  constructor
  · rintro ⟨⟨key, child⟩, hmem, heq⟩
    obtain ⟨received, hreceived, heq⟩ := Option.map_eq_some_iff.mp heq
    cases heq
    exact ⟨child, Std.ExtTreeMap.mem_toList_iff_getElem?_eq_some.mp hmem, hreceived⟩
  · rintro ⟨child, hchild, hreceived⟩
    refine ⟨(id, child), Std.ExtTreeMap.mem_toList_iff_getElem?_eq_some.mpr hchild, ?_⟩
    dsimp only
    rw [hreceived]
    rfl

omit [SerdeJson] in
theorem pairwise_completed (host : ParentHost) :
    host.completed.Pairwise fun a b => a.1 ≠ b.1 := by
  refine List.Pairwise.filterMap _ ?_ Std.ExtTreeMap.distinct_keys_toList
  intro a a' hne b hb b' hb' heq
  obtain ⟨_, _, rfl⟩ := Option.map_eq_some_iff.mp hb
  obtain ⟨_, _, rfl⟩ := Option.map_eq_some_iff.mp hb'
  exact hne (by rw [show a.1 = a'.1 from heq]; exact Std.ReflCmp.compare_self)

omit [SerdeJson] in
theorem observed_children {id : ElementId} {child : ChildHandle}
    (h : host.observed.children[id]? = some child) : ∃ child₀,
      host.children[id]? = some child₀ ∧ child.result = child₀.result.drained := by
  unfold observed at h
  rw [Std.ExtTreeMap.getElem?_map] at h
  obtain ⟨child₀, hchild, rfl⟩ := Option.map_eq_some_iff.mp h
  exact ⟨child₀, hchild, rfl⟩

/-- A poll starts with every result that waits. -/
theorem Tracked.polling (h : Tracked host)
    (hpresent : ∀ id result, (id, result) ∈ host.due → host.children[id]?.isSome = true →
      (host.journal.snapshot.element id).isSome = true) :
    Polling host.observed host.completed := by
  have hsome : ∀ id : ElementId,
      host.observed.children[id]?.isSome = host.children[id]?.isSome := by
    intro id
    unfold observed
    rw [Std.ExtTreeMap.getElem?_map, Option.isSome_map]
  refine ⟨h.sound, ?_, pairwise_completed host, ?_, ?_, ?_, ?_, ?_, h.once⟩
  · rintro ⟨id, result⟩ hmem
    exact h.final id result (mem_completed.mp hmem)
  · intro id result hmem
    obtain ⟨child, hchild, _⟩ := mem_completed.mp hmem
    rw [hsome, hchild]
    rfl
  · intro id child hchild
    obtain ⟨child₀, hchild₀, hresult⟩ := observed_children hchild
    cases hreceived : child₀.result with
    | running =>
      rw [hreceived] at hresult
      exact .inl hresult
    | sent result =>
      exact .inr ⟨result, mem_completed.mpr ⟨child₀, hchild₀, by rw [hreceived]; rfl⟩⟩
    | disconnected =>
      exact .inr ⟨_, mem_completed.mpr ⟨child₀, hchild₀, by rw [hreceived]; rfl⟩⟩
  · intro id child hchild
    obtain ⟨child₀, hchild₀, _⟩ := observed_children hchild
    exact h.unsettled id child₀ hchild₀
  · intro id result hdue hlive
    rw [hsome] at hlive
    obtain ⟨child, hchild⟩ := Option.isSome_iff_exists.mp hlive
    exact ⟨mem_completed.mpr ⟨child, hchild, h.pending id result hdue child hchild⟩,
      hpresent id result hdue hlive⟩
  · intro id result hdue hnone
    refine h.settled id result hdue ?_
    rw [← Option.isNone_iff_eq_none, ← Option.not_isSome, Bool.not_eq_true'] at hnone ⊢
    exact (hsome id).symm.trans hnone

omit [SerdeJson] in
theorem settledOnce_of_nodup {id : ElementId} {result : Except StructuredError Value}
    (honce : (host.settlements.map Settlement.id).Nodup)
    (h : ∃ settlement ∈ host.settlements,
      settlement.id = id ∧ settlement.result = result ∧ settlement.Complete) :
    SettledOnce host id result := by
  refine ⟨h, ?_⟩
  obtain ⟨settlement, hmem, rfl, _⟩ := h
  exact count_eq_one_of_mem honce (mem_map_of_mem hmem)

/-- After a poll nothing is due that has not been settled. -/
theorem Polling.done (h : Polling host []) :
    Tracked host ∧ ∀ id result, (id, result) ∈ host.due → SettledOnce host id result := by
  have hnone : ∀ id result, (id, result) ∈ host.due → host.children[id]? = none := by
    intro id result hdue
    rw [← Option.isNone_iff_eq_none, ← Option.not_isSome, Bool.not_eq_true']
    by_contra hsome
    exact absurd (h.pending id result hdue (by simpa using hsome)).1 not_mem_nil
  refine ⟨⟨h.sound, ?_, h.unsettled, ?_, h.settled, h.once⟩, fun id result hdue =>
    settledOnce_of_nodup h.once (h.settled id result hdue (hnone id result hdue))⟩
  · rintro id result ⟨child, hchild, hreceived⟩
    rcases h.running id child hchild with hrunning | ⟨_, hmem⟩
    · rw [hrunning] at hreceived
      cases hreceived
    · exact absurd hmem not_mem_nil
  · intro id result hdue child hchild
    rw [hnone id result hdue] at hchild
    cases hchild

theorem Tracked.poll (h : Tracked host) (horderly : Orderly host (.poll outside)) :
    Tracked (host.step (.poll outside)) ∧ ∀ id result,
      (id, result) ∈ (host.step (.poll outside)).due →
        SettledOnce (host.step (.poll outside)) id result := by
  obtain ⟨host', hsettle, h'⟩ := (h.polling horderly.1).settleAll horderly.2
  unfold step pollChildren
  dsimp only
  rw [hsettle]
  exact h'.done

/-! ## The other events -/

omit [SerdeJson] in
theorem final_payload (ending : Ending) : Final (.ok ending.payload) := by
  show (Status.fromDomStr ending.status).any Status.isTerminalSession = true
  unfold Ending.status
  split
  · decide
  · split <;> decide

omit [SerdeJson] in
theorem final_error (e : StructuredError) : Final (.error e) := by
  show (Status.fromDomStr "failed").any Status.isTerminalSession = true
  decide

/-- A child that ends waits for a poll. -/
theorem Tracked.conclude {id : ElementId} {last : ChildResult} (h : Tracked host)
    (hfinal : ∀ result, last.received = some result → Final result) :
    Tracked (host.conclude id last) := by
  unfold ParentHost.conclude
  split
  · next cancel hrunning =>
    have hchildren : ∀ {x child}, (host.children.insert id ⟨cancel, last⟩)[x]? = some child →
        id = x ∧ child = ⟨cancel, last⟩ ∨ id ≠ x ∧ host.children[x]? = some child := by
      intro x child hchild
      rw [Std.ExtTreeMap.getElem?_insert] at hchild
      split at hchild
      · next heq => exact .inl ⟨by simpa using heq, (Option.some.inj hchild).symm⟩
      · next hne => exact .inr ⟨fun heq => hne (by simp [heq]), hchild⟩
    have hdue : ∀ {x result}, (x, result) ∈ (if (host.journal.snapshot.element id).isSome then
        host.due ++ (last.received.map (id, ·)).toList else host.due) →
        (x, result) ∈ host.due ∨ x = id ∧ last.received = some result := by
      intro x result hmem
      split at hmem
      · refine (mem_append.mp hmem).imp_right fun hmem => ?_
        obtain ⟨received, hreceived, heq⟩ := Option.map_eq_some_iff.mp (Option.mem_toList.mp hmem)
        cases heq
        exact ⟨rfl, hreceived⟩
      · exact .inl hmem
    refine ⟨h.sound, ?_, ?_, ?_, ?_, h.once⟩
    · rintro x result ⟨child, hchild, hreceived⟩
      rcases hchildren hchild with ⟨_, rfl⟩ | ⟨_, hchild⟩
      · exact hfinal result hreceived
      · exact h.final x result ⟨child, hchild, hreceived⟩
    · intro x child hchild
      rcases hchildren hchild with ⟨rfl, _⟩ | ⟨_, hchild⟩
      · exact h.unsettled id _ hrunning
      · exact h.unsettled x child hchild
    · intro x result hmem child hchild
      rcases hchildren hchild with ⟨rfl, rfl⟩ | ⟨hne, hchild⟩
      · rcases hdue hmem with hmem | ⟨_, hreceived⟩
        · have hwaiting := h.pending id result hmem _ hrunning
          cases hwaiting
        · exact hreceived
      · rcases hdue hmem with hmem | ⟨heq, _⟩
        · exact h.pending x result hmem child hchild
        · exact absurd heq.symm hne
    · intro x result hmem hnone
      dsimp only at hnone
      rw [Std.ExtTreeMap.getElem?_insert] at hnone
      split at hnone
      · cases hnone
      · next hne =>
        rcases hdue hmem with hmem | ⟨heq, _⟩
        · exact h.settled x result hmem hnone
        · exact absurd (by simp [heq]) hne
  · exact h

/-! ## One batch -/

/-- The element of an announced child is there, and the others stay as they are. -/
theorem element_announced {context : String} {j j' : Journal} {owner : ActorId} {task : Value}
    {w : ChildWorld} {element : ElementId} (hsound : Sound j)
    (h : Announces owner context j task w element j') :
    Sound j' ∧ (j'.snapshot.element element).isSome = true ∧
      ∀ x, (j.snapshot.element x).isSome = true → (j'.snapshot.element x).isSome = true := by
  obtain ⟨_, prepared, offset, _, happend⟩ := h
  obtain ⟨hsound', hcases⟩ := hsound.append_cases happend
  rcases hcases with ⟨s, _, branch, _, happly, hsnapshot⟩ | ⟨⟨_, herror⟩, _⟩
  · obtain ⟨_, _, s₁, hops, rfl⟩ := applyPatch_ok happly
    unfold spawnPatch applyOps at hops
    split at hops
    · next s₂ u hcreate =>
      cases hops
      have helement : ∀ x, j'.snapshot.element x = if element = x then some (subagentElement
          element owner w.actor context task prepared) else j.snapshot.element x := by
        intro x
        rw [hsnapshot]
        exact element_create hcreate x
      refine ⟨hsound', ?_, fun x hx => ?_⟩
      · rw [helement, if_pos rfl]
        rfl
      · rw [helement]
        split
        · rfl
        · exact hx
    · cases hops
  · cases herror

/-- A round of the loop that is not announced changes no more than the file. -/
theorem spawnChild_refused {context : String} {task : Value} {w : ChildWorld}
    (hsound : Sound host.journal)
    (hnot : ¬ ∃ element j', Announces host.owner context host.journal task w element j') :
    ∃ journal e, host.spawnChild context task w = ({ host with journal }, .error e) ∧
      Sound journal ∧ journal.snapshot = host.journal.snapshot := by
  unfold ParentHost.spawnChild
  split
  · exact ⟨host.journal, _, rfl, hsound, rfl⟩
  · next element helement =>
    split
    · exact ⟨host.journal, _, rfl, hsound, rfl⟩
    · next prepared hprepared =>
      dsimp only
      split
      · next journal e happend =>
        obtain ⟨hsound', hcases⟩ := hsound.append_cases happend
        rcases hcases with ⟨_, _, _, hok, _⟩ | ⟨_, hsame⟩
        · cases hok
        · exact ⟨journal, _, rfl, hsound', hsame⟩
      · next journal offset happend =>
        exact absurd ⟨element, journal, helement, prepared, offset, hprepared, happend⟩ hnot

/-- A round of the loop that is announced and gets its thread starts a child. -/
theorem spawnChild_announced {context : String} {task : Value} {w : ChildWorld}
    {element : ElementId} {journal : Journal}
    (h : Announces host.owner context host.journal task w element journal)
    (hthread : w.thread = .ok ()) :
    host.spawnChild context task w = ({ host with
      journal, children := host.children.insert element ⟨false, .running⟩ }, .ok element) := by
  obtain ⟨helement, prepared, offset, hprepared, happend⟩ := h
  unfold ParentHost.spawnChild
  rw [helement, hprepared]
  dsimp only
  rw [happend, hthread]

/-- What starting some children has done. -/
structure Started (host : ParentHost) (worlds : Nat → ChildWorld) (n : Nat) (tasks : List Value)
    (host' : ParentHost) (ids : List ElementId) : Prop where
  sound : Sound host'.journal
  owner : host'.owner = host.owner
  due : host'.due = host.due
  settlements : host'.settlements = host.settlements
  count : ids.length = tasks.length
  minted : ∀ i id, ids[i]? = some id → (worlds (n + i)).element = .ok id
  table : ∀ x, host'.children[x]? =
    if x ∈ ids then some ⟨false, .running⟩ else host.children[x]?
  present : ∀ x, x ∈ ids ∨ (host.journal.snapshot.element x).isSome = true →
    (host'.journal.snapshot.element x).isSome = true

/-- A batch whose children can all be started is started. -/
theorem spawnAll_started {context : String} {worlds : Nat → ChildWorld} {n : Nat}
    {tasks : List Value} (hsound : Sound host.journal)
    (h : AllStart host.owner context worlds host.journal n tasks) :
    ∃ host' ids, spawnAll context worlds host n tasks = (host', .ok ids) ∧
      Started host worlds n tasks host' ids := by
  induction tasks generalizing host n with
  | nil =>
      refine ⟨host, [], rfl, hsound, rfl, rfl, rfl, rfl, (fun _ _ hi => nomatch hi), fun x => ?_,
        fun x hx => hx.resolve_left not_mem_nil⟩
      rw [if_neg not_mem_nil]
  | cons task tasks ih =>
      obtain ⟨element, journal, hannounces, hthread, hrest⟩ := h
      obtain ⟨hsound₁, helement, hkept⟩ := element_announced hsound hannounces
      let next : ParentHost :=
        { host with journal, children := host.children.insert element ⟨false, .running⟩ }
      obtain ⟨host', ids, hspawn, hstarted⟩ : ∃ host' ids,
          spawnAll context worlds next (n + 1) tasks = (host', .ok ids) ∧
            Started next worlds (n + 1) tasks host' ids := ih hsound₁ hrest
      refine ⟨host', element :: ids, ?_, hstarted.sound, hstarted.owner, hstarted.due,
        hstarted.settlements, congrArg Nat.succ hstarted.count, ?_, ?_, ?_⟩
      · unfold spawnAll
        rw [spawnChild_announced hannounces hthread]
        dsimp only
        rw [hspawn]
      · intro i id hi
        cases i with
        | zero =>
          cases hi
          exact hannounces.1
        | succ i =>
          have hminted := hstarted.minted i id hi
          rw [Nat.add_assoc, Nat.add_comm 1 i] at hminted
          exact hminted
      · intro x
        rw [hstarted.table x]
        by_cases hmem : x ∈ ids
        · rw [if_pos hmem, if_pos (mem_cons_of_mem _ hmem)]
        · rw [if_neg hmem, Std.ExtTreeMap.getElem?_insert]
          by_cases heq : element = x
          · subst heq
            rw [if_pos Std.ReflCmp.compare_self, if_pos mem_cons_self]
          · have hnot : x ∉ element :: ids := by
              rw [mem_cons, not_or]
              exact ⟨fun h => heq h.symm, hmem⟩
            rw [if_neg (by simpa using heq), if_neg hnot]
      · intro x hx
        refine hstarted.present x ?_
        rcases hx with hmem | hx
        · rcases mem_cons.mp hmem with rfl | hmem
          · exact .inr helement
          · exact .inl hmem
        · exact .inr (hkept x hx)

omit [SerdeJson] in
/-- An accepted batch has a first task, and its tasks are those of the input. -/
theorem checkBatch_ok {input : Value} {maxConcurrency : Option Int64} {active : Nat}
    {context : String} {tasks : List Value}
    (h : checkBatch input maxConcurrency active = .ok (context, tasks)) :
    (input.get "tasks").bind Value.asArray = some tasks ∧ tasks ≠ [] := by
  unfold checkBatch at h
  split at h
  · cases h
  · split at h
    · cases h
    · split at h
      · cases h
      · next tasks' htasks =>
        dsimp only at h
        split at h
        · cases h
        · next hlimit =>
          split at h
          · cases h
            refine ⟨htasks, fun hnil => hlimit ?_⟩
            rw [hnil]
            rfl
          · cases h

/-- A batch that is started keeps track of its children. -/
theorem Started.tracked {worlds : Nat → ChildWorld} {tasks : List Value} {host' : ParentHost}
    {ids : List ElementId} (h : Started host worlds 0 tasks host' ids) (htracked : Tracked host)
    (hminted : Minted host worlds tasks.length) : Tracked host' := by
  have hnew : ∀ id ∈ ids, host.children[id]? = none ∧ (∀ entry ∈ host.due, entry.1 ≠ id) ∧
      ∀ settlement ∈ host.settlements, settlement.id ≠ id := by
    intro id hmem
    obtain ⟨i, hi⟩ := List.mem_iff_getElem?.mp hmem
    obtain ⟨hlt, _⟩ := List.getElem?_eq_some_iff.mp hi
    have helement := h.minted i id hi
    rw [Nat.zero_add] at helement
    exact hminted.new i (h.count ▸ hlt) id helement
  refine ⟨h.sound, ?_, ?_, ?_, ?_, h.settlements ▸ htracked.once⟩
  · rintro id result ⟨child, hchild, hreceived⟩
    rw [h.table] at hchild
    split at hchild
    · cases hchild
      cases hreceived
    · exact htracked.final id result ⟨child, hchild, hreceived⟩
  · intro id child hchild settlement hmem
    rw [h.settlements] at hmem
    rw [h.table] at hchild
    split at hchild
    · next hid => exact (hnew id hid).2.2 settlement hmem
    · exact htracked.unsettled id child hchild settlement hmem
  · intro id result hdue child hchild
    rw [h.due] at hdue
    rw [h.table] at hchild
    split at hchild
    · next hid => exact absurd rfl ((hnew id hid).2.1 _ hdue)
    · exact htracked.pending id result hdue child hchild
  · intro id result hdue hnone
    rw [h.due] at hdue
    rw [h.table] at hnone
    rw [h.settlements]
    split at hnone
    · cases hnone
    · exact htracked.settled id result hdue hnone

omit [SerdeJson] in
/-- Distinct identifiers are minted for distinct children. -/
theorem nodup_of_minted {worlds : Nat → ChildWorld} {ids : List ElementId}
    (hminted : Minted host worlds ids.length)
    (h : ∀ i id, ids[i]? = some id → (worlds i).element = .ok id) : ids.Nodup := by
  rw [nodup_iff_pairwise_ne, pairwise_iff_getElem]
  intro i i' hi hi' hlt heq
  have hfirst := h i _ (getElem?_eq_getElem hi)
  have hsecond := h i' _ (getElem?_eq_getElem hi')
  rw [heq] at hfirst
  exact hminted.distinct i i' hlt hi' _ hfirst hsecond

/-- A batch is whole, and its children are tracked. -/
theorem Tracked.spawn {input : Value} {maxConcurrency : Option Int64} {worlds : Nat → ChildWorld}
    (h : Tracked host) (horderly : Orderly host (.spawn input maxConcurrency worlds)) :
    Tracked (host.spawnChildren input maxConcurrency worlds).1 ∧
      Whole host input (host.spawnChildren input maxConcurrency worlds).1
        (host.spawnChildren input maxConcurrency worlds).2 := by
  unfold spawnChildren
  split
  · exact ⟨h, (fun _ hok => nomatch hok), fun _ _ => ⟨rfl, fun _ _ he _ => .inr he⟩⟩
  · next context tasks hcheck =>
    obtain ⟨htasks, hne⟩ := checkBatch_ok hcheck
    obtain ⟨hminted, hstart | hrefused⟩ := horderly context tasks hcheck
    · obtain ⟨host', ids, hspawn, hstarted⟩ := spawnAll_started h.sound hstart
      rw [hspawn]
      refine ⟨hstarted.tracked h hminted, ?_, fun _ herror => nomatch herror⟩
      intro reply hok
      cases hok
      refine ⟨tasks, ids, htasks, hstarted.count, ?_, rfl, fun id hmem => ⟨?_, ?_⟩⟩
      · refine nodup_of_minted (hstarted.count ▸ hminted) fun i id hi => ?_
        have helement := hstarted.minted i id hi
        rw [Nat.zero_add] at helement
        exact helement
      · rw [hstarted.table, if_pos hmem]
      · exact hstarted.present id (.inl hmem)
    · obtain ⟨task, rest, rfl⟩ := exists_cons_of_ne_nil hne
      obtain ⟨journal, e, hspawn, hsound, hsame⟩ := spawnChild_refused h.sound (hrefused task rfl)
      unfold spawnAll
      rw [hspawn]
      refine ⟨⟨hsound, h.final, h.unsettled, h.pending, h.settled, h.once⟩,
        (fun _ hok => nomatch hok), fun _ _ => ⟨rfl, fun id e he _ => .inr ?_⟩⟩
      rw [← hsame]
      exact he

/-! ## Runs -/

/-- One event in which nothing is lost keeps track of the children. -/
theorem Tracked.step {event : ChildEvent} (h : Tracked host) (horderly : Orderly host event) :
    Tracked (host.step event) := by
  cases event with
  | spawn input maxConcurrency worlds => exact (h.spawn horderly).1
  | finish id ending =>
      refine h.conclude fun result hreceived => ?_
      cases hreceived
      exact final_payload ending
  | crash id =>
      refine h.conclude fun result hreceived => ?_
      cases hreceived
      exact final_error childDisconnected
  | cancel id =>
      have hchildren : ∀ (x : ElementId) child, (host.children.modify id fun child =>
          { child with cancel := true })[x]? = some child →
          ∃ child₀, host.children[x]? = some child₀ ∧ child.result = child₀.result := by
        intro x child hchild
        rw [Std.ExtTreeMap.getElem?_modify] at hchild
        split at hchild
        · next heq =>
          obtain ⟨child₀, hchild₀, rfl⟩ := Option.map_eq_some_iff.mp hchild
          exact ⟨child₀, by rw [← show id = x by simpa using heq]; exact hchild₀, rfl⟩
        · exact ⟨child, hchild, rfl⟩
      refine ⟨h.sound, ?_, ?_, ?_, ?_, h.once⟩
      · rintro x result ⟨child, hchild, hreceived⟩
        obtain ⟨child₀, hchild₀, hresult⟩ := hchildren x child hchild
        exact h.final x result ⟨child₀, hchild₀, hresult ▸ hreceived⟩
      · intro x child hchild
        obtain ⟨child₀, hchild₀, _⟩ := hchildren x child hchild
        exact h.unsettled x child₀ hchild₀
      · intro x result hdue child hchild
        obtain ⟨child₀, hchild₀, hresult⟩ := hchildren x child hchild
        rw [hresult]
        exact h.pending x result hdue child₀ hchild₀
      · intro x result hdue hnone
        refine h.settled x result hdue ?_
        dsimp only [ParentHost.step] at hnone
        rw [Std.ExtTreeMap.getElem?_modify] at hnone
        split at hnone
        · next heq =>
          rw [← show id = x by simpa using heq]
          exact Option.map_eq_none_iff.mp hnone
        · exact hnone
  | poll outside => exact (h.poll horderly).1
  | journal call =>
      obtain ⟨sessionId, log, hlog⟩ := h.sound
      obtain ⟨more, hstep⟩ := hlog.step call
      exact ⟨⟨_, _, hstep⟩, h.final, h.unsettled, h.pending, h.settled, h.once⟩

/-- In a run whose batches start as a whole or are refused at once, and whose polls find and settle
what is due, nothing is lost. -/
theorem run_losesNothing (owner : ActorId) {j : Journal} {sessionId : SessionId}
    {log : List JournalRecord} (hcoherent : Journal.Coherent sessionId j log)
    {events : List ChildEvent} (horderly : Machine.Along step Orderly (new owner j) events) :
    LosesNothing (new owner j) events := by
  have hnew : Tracked (new owner j) := by
    refine ⟨⟨_, _, hcoherent⟩, ?_, ?_, ?_, ?_, nodup_nil⟩
    · rintro _ _ ⟨_, hchild, _⟩
      exact absurd hchild (by simp [new])
    · exact fun _ _ _ _ hmem => absurd hmem not_mem_nil
    · exact fun _ _ hmem => absurd hmem not_mem_nil
    · exact fun _ _ hmem => absurd hmem not_mem_nil
  have htracked : ∀ before rest, events = before ++ rest →
      Tracked (Machine.run step (new owner j) before) ∧
        Machine.Along step Orderly (Machine.run step (new owner j) before) rest := by
    rintro before rest rfl
    obtain ⟨hbefore, hrest⟩ := (Machine.along_append before rest).mp horderly
    exact ⟨Machine.invariant_along (fun _ _ => Tracked.step) hnew hbefore, hrest⟩
  refine ⟨?_, ?_, ?_⟩
  · intro before input maxConcurrency worlds rest hevents
    obtain ⟨hhost, hrest⟩ := htracked before _ hevents
    exact (hhost.spawn hrest.1).2
  · intro before rest hevents id result hdue
    obtain ⟨hhost, _⟩ := htracked before rest hevents
    cases hchild : (Machine.run step (new owner j) before).children[id]? with
    | none => exact .inr (settledOnce_of_nodup hhost.once (hhost.settled id result hdue hchild))
    | some child => exact .inl ⟨child, hchild, hhost.pending id result hdue child hchild⟩
  · intro before outside rest hevents id result
    obtain ⟨hhost, hrest⟩ := htracked before _ hevents
    rw [Machine.run_concat]
    exact (hhost.poll hrest.1).2 id result

end ParentHost

end Omp2.Control

/-! ## A batch that is broken off, and a child that is settled -/

namespace Omp2.Control.ParentHost

open Omp2.Json Omp2.Json.Compact Omp2.State Journal

/-- A child that is prepared, journaled and started. -/
def readyChild : ChildWorld where
  actor := ⟨"child", Eq.refl true⟩
  prepared := .ok ⟨.null, "child.journal", .null⟩
  outside := ⟨.ok 7, .done⟩
  thread := .ok ()

/-- A child whose agent class is refused. -/
def refusedChild : ChildWorld where
  actor := ⟨"other", Eq.refl true⟩
  prepared := .error
    (.new "invalid_agent_class" "Agent class must be an identifier, not a path" false)
  outside := ⟨.ok 7, .done⟩
  thread := .ok ()

/-- The element of the first child. -/
def childId : ElementId := ⟨"actor-child", Eq.refl true⟩

/-- A task, with the class of its agent. -/
def batchTask (agent : List (String × Value)) : Value :=
  .object (("task", .string "list the files") :: agent)

/-- The input of a batch. -/
def batchInput (tasks : List Value) : Value :=
  .object [("context", .string "notes"), ("tasks", .array tasks)]

/-- The element that is journaled for the first child. -/
def childElement : ElementSnapshot :=
  subagentElement childId Control.owner readyChild.actor "notes" (batchTask [])
    ⟨.null, "child.journal", .null⟩

/-- The patch that journals the first child. -/
def announcePatch : Patch where
  baseOffset := 0
  resultOffset := 1
  author := .actor Control.owner
  reason := "spawn isolated child host"
  ops := [.create (staticId "actors") 0 childElement]

/-- The journal takes the first child. -/
theorem exists_announced : ∃ j₀ j₁ r, create exampleSession = .ok j₀ ∧
    Announces Control.owner "notes" j₀ (batchTask []) readyChild childId j₁ ∧
    Coherent exampleSession j₁ [r] ∧ j₁.snapshot = firstSnapshot announcePatch ∧
    j₁.failed = false ∧ j₁.recovery = none := by
  obtain ⟨j₀, hcreate⟩ := exists_create_exampleSession
  have hcoherent := create_coherent hcreate
  obtain ⟨rfl, _⟩ := create_eq_ok hcreate
  obtain ⟨j₁, r, happend, hr⟩ := exists_appended_next hcoherent announcePatch 7 0 rfl rfl rfl rfl
    (by decide +kernel) (fits_of_draft (by decide +kernel))
  obtain ⟨s, happly, hsnapshot⟩ := hr.applied
  refine ⟨_, j₁, r, hcreate, ⟨?_, _, r.offset, rfl, ?_⟩, hr.coherent, ?_, hr.failed, hr.recovery⟩
  · show Id.new ("actor-" ++ "child") = _
    rw [show "actor-" ++ "child" = childId.value by decide]
    exact Id.new_value childId
  · have hindex : UInt32.ofNat ((SessionSnapshot.empty exampleSession).children
        (staticId "actors")).length = 0 := by decide +kernel
    have hnext : (blank exampleSession (headerFile exampleSession)).nextOffset = 1 := by
      refine UInt64.toNat_inj.mp ?_
      unfold nextOffset
      rw [UInt64.toNat_add, hcoherent.latestOffset]
      rfl
    have hpatch : spawnPatch Control.owner (blank exampleSession (headerFile exampleSession))
        childElement = announcePatch := by
      unfold spawnPatch announcePatch
      rw [hnext, show (blank exampleSession (headerFile exampleSession)).snapshot =
        .empty exampleSession from rfl, hindex]
      rfl
    unfold childElement at hpatch
    rw [hpatch]
    exact happend
  · unfold firstSnapshot
    rw [hsnapshot, show SessionSnapshot.applyPatch (.empty exampleSession) announcePatch =
      (s, .ok ()) from happly]
    rfl

/-- Two tasks, of which the second names its agent by a path. -/
def brokenBatch : ChildEvent :=
  .spawn (batchInput [batchTask [], batchTask [("agent", .string "../x")]]) none
    fun n => if n = 0 then readyChild else refusedChild

/-- The call fails, and its first child runs. -/
theorem not_losesNothing_brokenBatch : ¬ ∀ (owner : ActorId) (j : Journal) (sessionId : SessionId)
    (log : List JournalRecord), Coherent sessionId j log → ∀ events : List ChildEvent,
    LosesNothing (new owner j) events := by
  intro h
  obtain ⟨j₀, j₁, r, hcreate, hannounces, _⟩ := exists_announced
  have hspawned := (h Control.owner j₀ _ [] (create_coherent hcreate) [brokenBatch]).spawned [] _ _ _ [] rfl
  have hfirst : (new Control.owner j₀).spawnChild "notes" (batchTask []) readyChild = (_, _) :=
    spawnChild_announced hannounces rfl
  have hspawn : spawnAll "notes" (fun n => if n = 0 then readyChild else refusedChild)
      (new Control.owner j₀) 0 [batchTask [], batchTask [("agent", .string "../x")]] =
      (⟨Control.owner, j₁, (∅ : Std.ExtTreeMap ElementId ChildHandle).insert childId ⟨false, .running⟩, [],
        []⟩, .error (.new "invalid_agent_class" "Agent class must be an identifier, not a path"
          false)) := by
    unfold spawnAll
    rw [if_pos rfl, hfirst]
    dsimp only
    unfold spawnAll
    rw [if_neg (by decide)]
    unfold spawnChild
    rw [show refusedChild.element = .ok ⟨"actor-other", Eq.refl true⟩ by
      show Id.new ("actor-" ++ "other") = _
      rw [show "actor-" ++ "other" = "actor-other" by decide]
      exact Id.new_value (⟨"actor-other", Eq.refl true⟩ : ElementId)]
    rfl
  have hcheck : checkBatch (batchInput [batchTask [], batchTask [("agent", .string "../x")]]) none
      (new Control.owner j₀).children.size =
      .ok ("notes", [batchTask [], batchTask [("agent", .string "../x")]]) := rfl
  rw [Machine.run_nil] at hspawned
  unfold spawnChildren at hspawned
  rw [hcheck] at hspawned
  dsimp only at hspawned
  rw [hspawn] at hspawned
  have hsame := (hspawned.refused _ rfl).1
  have hchild : (new Control.owner j₀).children[childId]? = some ⟨false, .running⟩ := by
    rw [← hsame]
    exact Std.ExtTreeMap.getElem?_insert_self
  cases hchild

/-- How the first child ends. -/
def childEnding : Ending where
  error := none
  text := "three files"
  diff := none
  workspace := .null
  journal := "child.journal"
  offset := 9

/-- The patch that settles the first child. -/
def reportPatch : Patch where
  baseOffset := 1
  resultOffset := 2
  author := .actor Control.owner
  reason := "settle child host"
  ops := settleChildOps childId childEnding.payload

/-- A child is started, ends and is polled. -/
def childRun : List ChildEvent :=
  [.spawn (batchInput [batchTask []]) none fun _ => readyChild, .finish childId childEnding,
    .poll fun _ => ⟨.ok 8, .done⟩]

/-- The host after the first child has ended. -/
def endedHost (j : Journal) : ParentHost where
  owner := Control.owner
  journal := j
  children := ((∅ : Std.ExtTreeMap ElementId ChildHandle).insert childId ⟨false, .running⟩).insert
    childId ⟨false, .sent (.ok childEnding.payload)⟩
  due := [(childId, .ok childEnding.payload)]
  settlements := []

/-- The child that has ended is settled. -/
theorem childRun_losesNothing : ∃ j₀, create exampleSession = .ok j₀ ∧
    LosesNothing (new Control.owner j₀) childRun := by
  obtain ⟨j₀, j₁, r, hcreate, hannounces, hcoherent, hsnapshot, hfailed, hrecovery⟩ :=
    exists_announced
  obtain ⟨j₂, r₂, happend, hr⟩ := exists_appended_next hcoherent reportPatch 8 1 hfailed hrecovery
    rfl rfl (by rw [hsnapshot]; decide +kernel)
    (fits_of_draft (by rw [hsnapshot]; decide +kernel))
  have hcheck : checkBatch (batchInput [batchTask []]) none (new Control.owner j₀).children.size =
      .ok ("notes", [batchTask []]) := rfl
  have hfirst : (new Control.owner j₀).spawnChild "notes" (batchTask []) readyChild = (_, _) :=
    spawnChild_announced hannounces rfl
  have hspawn : step (new Control.owner j₀) (.spawn (batchInput [batchTask []]) none
      fun _ => readyChild) = ⟨Control.owner, j₁,
        (∅ : Std.ExtTreeMap ElementId ChildHandle).insert childId ⟨false, .running⟩, [], []⟩ := by
    unfold step spawnChildren
    dsimp only
    rw [hcheck]
    dsimp only
    unfold spawnAll
    rw [hfirst]
    rfl
  have hpresent : (j₁.snapshot.element childId).isSome = true := by
    rw [hsnapshot]
    decide +kernel
  have hfinish : step (step (new Control.owner j₀) (.spawn (batchInput [batchTask []]) none
      fun _ => readyChild)) (.finish childId childEnding) = endedHost j₁ := by
    rw [hspawn]
    unfold step conclude
    dsimp only
    rw [Std.ExtTreeMap.getElem?_insert_self]
    dsimp only
    rw [if_pos hpresent]
    rfl
  have hsettle : settleChildPatch Control.owner j₁ childId (.ok childEnding.payload) =
      reportPatch := by
    have hnext : j₁.nextOffset = 2 := by
      refine UInt64.toNat_inj.mp ?_
      unfold nextOffset
      rw [UInt64.toNat_add, hcoherent.latestOffset]
      rfl
    have hoffset : j₁.snapshot.offset = 1 := by
      rw [hsnapshot]
      decide +kernel
    unfold settleChildPatch
    rw [hnext, hoffset]
    rfl
  refine ⟨j₀, hcreate, run_losesNothing _ (create_coherent hcreate) ⟨?_, trivial, ?_, trivial⟩⟩
  · intro context tasks hok
    rw [hcheck] at hok
    cases hok
    refine ⟨⟨?_, ?_⟩, .inl ⟨childId, j₁, hannounces, rfl, trivial⟩⟩
    · exact fun _ _ _ _ => ⟨rfl, (fun _ hmem => absurd hmem List.not_mem_nil),
        fun _ hmem => absurd hmem List.not_mem_nil⟩
    · intro m n hlt hn
      rw [List.length_singleton] at hn
      omega
  · rw [hfinish]
    refine ⟨fun id result hdue _ => ?_, ?_⟩
    · cases List.mem_singleton.mp hdue
      exact hpresent
    · have hcompleted : (endedHost j₁).completed = [(childId, .ok childEnding.payload)] := rfl
      rw [hcompleted]
      unfold Taken
      have hfound : ¬ ((endedHost j₁).journal.snapshot.element childId).isNone = true := by
        rw [Option.isNone_iff_eq_none]
        intro hnone
        rw [show j₁.snapshot.element childId = none from hnone] at hpresent
        cases hpresent
      rw [if_neg hfound]
      refine ⟨j₂, r₂.offset, ?_, trivial⟩
      rw [show settleChildPatch (endedHost j₁).owner (endedHost j₁).journal childId
        (.ok childEnding.payload) = reportPatch from hsettle]
      exact happend

end Omp2.Control.ParentHost
