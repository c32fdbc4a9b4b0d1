import Omp2.Server.Actors

/-!
# Convergence of the subscribers

`Replicas` is the service together with the copies of its subscribers, and a run is any sequence
of requests. Where every request publishes the records that it adds, the subscribers converge: no
copy rejects a patch, and a copy with nothing to poll shows the live document.
-/

namespace Omp2.Server

open Omp2.Json Omp2.State

variable [SerdeJson]

/-- The requests that reach the service. `runTurn` and `executeTool` also stand for what the host
does in the background. -/
inductive Request where
  | attachActor (actor : ActorSession) (minted : ElementId) (world : Journal.Outside)
  | handshake (req : HandshakeRequest) (minted : ElementId) (world : Journal.Outside)
  | detachActor (callerId targetActor : ActorId)
  | subscribe (actorId : ActorId) (lastOffset : Option UInt64) (capacityOverride : Option Nat)
  | poll (actorId : ActorId)
  | submitPatch (actorId : ActorId) (patch : Patch) (world : Journal.Outside)
  | submitCommand (actorId : ActorId) (commandId : String) (minted : ElementId)
      (world : Journal.Outside)
  | executeCommand (actorId : ActorId) (commandId : String) (minted : ElementId)
      (world : Journal.Outside) (run : HostRun Unit)
  | runTurn (run : HostRun Unit)
  | executeTool (run : HostRun ToolCallId)
  | changeConvar (actorId : ActorId) (name : String) (value : TypedValue) (world : Journal.Outside)
  | requestApproval (requester : ActorId) (requestId description : String)
      (world : Journal.Outside)
  | resolveApproval (actorId : ActorId) (requestId : String) (decision : Bool)
      (world : Journal.Outside)
  | signalJob (actorId : ActorId) (jobId : JobId) (signal : String) (world : Journal.Outside)
  | registerArtifact (actorId : ActorId) (artifact : ArtifactRecord) (minted : ElementId)
      (world : Journal.Outside)
  | writeWorkspace (actorId : ActorId) (path : String) (run : HostRun ToolCallId)
  | forkSession (actorId : ActorId) (offset : UInt64) (branch : BranchId) (element : ElementId)
      (world : Journal.Outside)
  | rewindSession (actorId : ActorId) (offset : UInt64) (branch : BranchId) (element : ElementId)
      (world : Journal.Outside)
  | selectBranch (actorId : ActorId) (branch : BranchId) (world : Journal.Outside)
  | publishPresentation (viewId : String) (payload : Value)
  | terminateSession (actorId : ActorId)

/-- The service and the copies of its subscribers. -/
structure Replicas where
  service : ServerSessionService
  copies : Std.ExtTreeMap ActorId SessionSnapshot

namespace Replicas

/-- The service that a journal starts, before anyone has subscribed. -/
def start (j : Journal) : Replicas :=
  ⟨.new j, ∅⟩

/-- The service after a request. -/
def serve (w : Replicas) : Request → ServerSessionService
  | .attachActor actor minted world => (w.service.attachActor actor minted world).1
  | .handshake req minted world => (w.service.handshake req minted world).1
  | .detachActor callerId targetActor => (w.service.detachActor callerId targetActor).1
  | .subscribe actorId lastOffset capacityOverride =>
    (w.service.subscribe actorId lastOffset capacityOverride).1
  | .poll actorId => (w.service.pollSubscriber actorId).1
  | .submitPatch actorId patch world => (w.service.submitPatch actorId patch world).1
  | .submitCommand actorId commandId minted world =>
    (w.service.submitCommand actorId commandId minted world).1
  | .executeCommand actorId commandId minted world run =>
    (w.service.executeCommand actorId commandId minted world run).1
  | .runTurn run => (w.service.runHost run).1
  | .executeTool run => (w.service.runHost run).1
  | .changeConvar actorId name value world => (w.service.changeConvar actorId name value world).1
  | .requestApproval requester requestId description world =>
    (w.service.requestApproval requester requestId description world).1
  | .resolveApproval actorId requestId decision world =>
    (w.service.resolveApproval actorId requestId decision world).1
  | .signalJob actorId jobId signal world => (w.service.signalJob actorId jobId signal world).1
  | .registerArtifact actorId artifact minted world =>
    (w.service.registerArtifact actorId artifact minted world).1
  | .writeWorkspace actorId path run => (w.service.writeWorkspace actorId path run).1
  | .forkSession actorId offset branch element world =>
    (w.service.forkSession actorId offset branch element world).1
  | .rewindSession actorId offset branch element world =>
    (w.service.rewindSession actorId offset branch element world).1
  | .selectBranch actorId branch world => (w.service.selectBranch actorId branch world).1
  | .publishPresentation viewId payload => w.service.publishPresentation viewId payload
  | .terminateSession actorId => (w.service.terminateSession actorId).1

/-- The copies after a request: a subscription starts one, and a polled message is folded into the
one of its subscriber. A rejected patch leaves the copy as it was. -/
def fold (w : Replicas) : Request → Std.ExtTreeMap ActorId SessionSnapshot
  | .subscribe actorId lastOffset capacityOverride =>
    match (w.service.subscribe actorId lastOffset capacityOverride).2 with
    | .error _ => w.copies
    | .ok message =>
      match w.service.startCopy lastOffset message with
      | .error _ => w.copies
      | .ok copy => w.copies.insert actorId copy
  | .poll actorId =>
    match (w.service.pollSubscriber actorId).2, w.copies[actorId]? with
    | some message, some copy =>
      match receive copy message with
      | .error _ => w.copies
      | .ok copy => w.copies.insert actorId copy
    | _, _ => w.copies
  | _ => w.copies

/-- One request. -/
def step (w : Replicas) (request : Request) : Replicas :=
  ⟨w.serve request, w.fold request⟩

/-- The subscribers have converged: what they poll next is accepted by their copies, and the copy
of one that has nothing to poll shows the live document. -/
structure Converged (w : Replicas) : Prop where
  accepts : ∀ actorId message, (w.service.pollSubscriber actorId).2 = some message →
    ∃ copy copy', w.copies[actorId]? = some copy ∧ receive copy message = .ok copy'
  shows : ∀ actorId, actorId ∈ w.service.subscribers →
    (w.service.pollSubscriber actorId).2 = none →
      ∃ copy, w.copies[actorId]? = some copy ∧ copy.nodes = w.service.journal.snapshot.nodes ∧
        copy.offset = w.service.journal.snapshot.offset

/-- The request publishes the records that it adds, or nobody reads its queue before a resync; and
a subscriber that wants to catch up can do so. -/
def Publishes (w : Replicas) : Request → Prop
  | .subscribe actorId lastOffset capacityOverride =>
    (w.service.authorize actorId .subscribePatches).isOk = true →
      ∀ offset, lastOffset = some offset → offset ≤ w.service.currentOffset →
        w.service.CatchesUp offset capacityOverride
  | .executeCommand actorId commandId minted world run =>
    ∀ s, w.service.submitCommand actorId commandId minted world = (s, .ok ()) → s.HostPublished run
  | .runTurn run => w.service.HostPublished run
  | .executeTool run => w.service.HostPublished run
  | .writeWorkspace actorId path run =>
    (w.service.authorizeChange actorId .writeWorkspace).isOk = true →
      (Text.trim path).isEmpty = false → w.service.HostPublished run
  | .forkSession actorId offset branch element world =>
    (w.service.authorizeChange actorId .manageSession).isOk = true →
      w.service.journal.accepts (.fork offset branch element world) = true → w.service.Unwatched
  | .rewindSession actorId offset branch element world =>
    (w.service.authorizeChange actorId .manageSession).isOk = true →
      w.service.journal.accepts (.rewind offset branch element world) = true → w.service.Unwatched
  | .selectBranch actorId branch world =>
    (w.service.authorizeChange actorId .manageSession).isOk = true →
      w.service.journal.accepts (.select branch world) = true → w.service.Unwatched
  | _ => True

variable {sessionId : SessionId}

/-- Every request that publishes what it adds keeps the subscribers tracked. -/
theorem step_tracked (w : Replicas) (request : Request)
    (h : Tracked sessionId w.service w.copies) (hpublishes : w.Publishes request) :
    Tracked sessionId (w.step request).service (w.step request).copies := by
  cases request with
  | attachActor actor minted world => exact h.attachActor actor minted world
  | handshake req minted world => exact h.handshake req minted world
  | detachActor callerId targetActor => exact h.detachActor callerId targetActor
  | subscribe actorId lastOffset capacityOverride =>
      unfold step serve fold
      dsimp only
      cases hsubscribe : w.service.subscribe actorId lastOffset capacityOverride with
      | mk s' result =>
        cases result with
        | error e =>
          rcases ServerSessionService.subscribe_cases hsubscribe with
            ⟨rfl, _⟩ | ⟨_, _, hresult⟩
          · exact h
          · cases hresult
        | ok message =>
          rcases ServerSessionService.subscribe_cases hsubscribe with
            ⟨_, _, hresult⟩ | ⟨hallowed, _⟩
          · cases hresult
          · obtain ⟨copy, hcopy, htracked⟩ :=
              h.subscribe actorId lastOffset capacityOverride (hpublishes hallowed) hsubscribe
            dsimp only
            rw [hcopy]
            exact htracked
  | poll actorId =>
      have hpolled := h.pollSubscriber actorId
      unfold step serve fold
      dsimp only
      cases hpoll : w.service.pollSubscriber actorId with
      | mk s' result =>
        rw [hpoll] at hpolled
        cases hpolled with
        | message _ message copy copy' hcopy hmessage htracked =>
          dsimp only
          rw [hcopy]
          dsimp only
          rw [hmessage]
          exact htracked
        | caughtUp _ copy _ _ htracked => exact htracked
        | unsubscribed _ => exact h
  | submitPatch actorId patch world => exact h.submitPatch actorId patch world
  | submitCommand actorId commandId minted world =>
      exact h.submitCommand actorId commandId minted world
  | executeCommand actorId commandId minted world run =>
      exact h.executeCommand actorId commandId minted world run hpublishes
  | runTurn run => exact h.runHost hpublishes
  | executeTool run => exact h.runHost hpublishes
  | changeConvar actorId name value world => exact h.changeConvar actorId name value world
  | requestApproval requester requestId description world =>
      exact h.requestApproval requester requestId description world
  | resolveApproval actorId requestId decision world =>
      exact h.resolveApproval actorId requestId decision world
  | signalJob actorId jobId signal world => exact h.signalJob actorId jobId signal world
  | registerArtifact actorId artifact minted world =>
      exact h.registerArtifact actorId artifact minted world
  | writeWorkspace actorId path run => exact h.writeWorkspace actorId path hpublishes
  | forkSession actorId offset branch element world =>
      exact h.forkSession actorId offset branch element world hpublishes
  | rewindSession actorId offset branch element world =>
      exact h.rewindSession actorId offset branch element world hpublishes
  | selectBranch actorId branch world => exact h.selectBranch actorId branch world hpublishes
  | publishPresentation viewId payload => exact h.publishPresentation viewId payload
  | terminateSession actorId => exact h.terminateSession actorId

/-- Tracked subscribers have converged. -/
theorem converged_of_tracked {w : Replicas} (h : Tracked sessionId w.service w.copies) :
    w.Converged := by
  refine ⟨fun actorId message hmessage => ?_, fun actorId hsubscribed hnone => ?_⟩
  · have hpolled := h.pollSubscriber actorId
    cases hpoll : w.service.pollSubscriber actorId with
    | mk s' result =>
      rw [hpoll] at hpolled hmessage
      cases hpolled with
      | message _ _ copy copy' hcopy hreceive _ =>
        cases hmessage
        exact ⟨copy, copy', hcopy, hreceive⟩
      | caughtUp _ _ _ _ _ => cases hmessage
      | unsubscribed _ => cases hmessage
  · have hpolled := h.pollSubscriber actorId
    cases hpoll : w.service.pollSubscriber actorId with
    | mk s' result =>
      rw [hpoll] at hpolled hnone
      cases hpolled with
      | message _ _ _ _ _ _ _ => cases hnone
      | caughtUp _ copy hcopy hsame _ => exact ⟨copy, hcopy, hsame.nodes.symm, hsame.offset.symm⟩
      | unsubscribed habsent =>
        rw [Std.ExtTreeMap.mem_iff_isSome_getElem?, habsent] at hsubscribed
        cases hsubscribed

/-- In every run of the service on a journal whose requests publish what they add, the subscribers
have converged. -/
theorem created_converges {j₀ : Journal} (hcreate : Journal.create sessionId = .ok j₀)
    (calls : List Journal.Call) {requests : List Request}
    (hpublish : Machine.Along step Publishes (start (j₀.after calls)) requests) :
    (Machine.run step (start (j₀.after calls)) requests).Converged := by
  have hstart : Tracked sessionId (start (j₀.after calls)).service
      (start (j₀.after calls)).copies := by
    obtain ⟨log, hlog⟩ := (Journal.create_coherent hcreate).after calls
    exact ⟨⟨_, hlog⟩, fun id q hq => by
      have hnone : (∅ : Std.ExtTreeMap ActorId SubscriberQueue)[id]? = some q := hq
      simp at hnone⟩
  exact converged_of_tracked (Machine.invariant_along
    (P := fun w : Replicas => Tracked sessionId w.service w.copies) step_tracked hstart hpublish)

/-! ## Polling until there is nothing -/

/-- How many messages a subscriber has to poll, counting the resync that it needs. -/
def pending (w : Replicas) (actorId : ActorId) : Nat :=
  match w.service.subscribers[actorId]? with
  | none => 0
  | some q => q.queue.length + if q.needsResync then 1 else 0

/-- A poll leaves the journal and takes one of the messages. -/
theorem step_poll (w : Replicas) (actorId : ActorId) :
    (w.step (.poll actorId)).service.journal = w.service.journal ∧
      (w.step (.poll actorId)).pending actorId = w.pending actorId - 1 ∧
      (actorId ∈ w.service.subscribers →
        actorId ∈ (w.step (.poll actorId)).service.subscribers) := by
  unfold step serve pending ServerSessionService.pollSubscriber
  dsimp only
  cases hq : w.service.subscribers[actorId]? with
  | none =>
      rw [hq]
      exact ⟨rfl, rfl, id⟩
  | some q =>
      dsimp only
      by_cases hneeds : q.needsResync = true
      · rw [if_pos hneeds]
        simp [hneeds]
      · rw [if_neg hneeds]
        unfold SubscriberQueue.pop
        split <;> simp_all

omit [SerdeJson] in
/-- A subscriber with nothing pending polls nothing. -/
theorem pollSubscriber_of_pending {w : Replicas} {actorId : ActorId} (h : w.pending actorId = 0) :
    (w.service.pollSubscriber actorId).2 = none := by
  unfold pending at h
  unfold ServerSessionService.pollSubscriber
  cases hq : w.service.subscribers[actorId]? with
  | none => rfl
  | some q =>
      rw [hq] at h
      dsimp only at h ⊢
      by_cases hneeds : q.needsResync = true
      · rw [if_pos hneeds] at h
        omega
      · rw [if_neg hneeds] at h ⊢
        have hnil : q.queue = [] := List.length_eq_zero_iff.mp h
        unfold SubscriberQueue.pop
        rw [hnil]

/-- As many polls as messages are pending. -/
theorem run_polls (n : Nat) {w : Replicas} {actorId : ActorId} (h : w.pending actorId = n)
    (hsubscribed : actorId ∈ w.service.subscribers) :
    let w' := Machine.run step w (List.replicate n (.poll actorId))
    w'.pending actorId = 0 ∧ w'.service.journal = w.service.journal ∧
      actorId ∈ w'.service.subscribers := by
  induction n generalizing w with
  | zero => exact ⟨h, rfl, hsubscribed⟩
  | succ n ih =>
      obtain ⟨hjournal, hpending, hmem⟩ := step_poll w actorId
      obtain ⟨hnone, hsame, hmem'⟩ := ih (hpending.trans (by rw [h]; rfl)) (hmem hsubscribed)
      exact ⟨hnone, hsame.trans hjournal, hmem'⟩

theorem start_tracked {j₀ : Journal} (hcreate : Journal.create sessionId = .ok j₀)
    (calls : List Journal.Call) :
    Tracked sessionId (start (j₀.after calls)).service (start (j₀.after calls)).copies := by
  obtain ⟨log, hlog⟩ := (Journal.create_coherent hcreate).after calls
  refine ⟨⟨_, hlog⟩, fun id q hq => ?_⟩
  have hnone : (∅ : Std.ExtTreeMap ActorId SubscriberQueue)[id]? = some q := hq
  simp at hnone

/-- In such a run a subscriber that polls what is pending shows the live document, whatever its
queue has lost: no other request is needed. -/
theorem created_drains {j₀ : Journal} (hcreate : Journal.create sessionId = .ok j₀)
    (calls : List Journal.Call) {requests : List Request}
    (hpublish : Machine.Along step Publishes (start (j₀.after calls)) requests)
    {actorId : ActorId}
    (hsubscribed : actorId ∈ (Machine.run step (start (j₀.after calls)) requests).service.subscribers) :
    let w := Machine.run step (start (j₀.after calls)) requests
    let w' := Machine.run step w (List.replicate (w.pending actorId) (.poll actorId))
    (w'.service.pollSubscriber actorId).2 = none ∧ w'.service.journal = w.service.journal ∧
      ∃ copy, w'.copies[actorId]? = some copy ∧
        copy.nodes = w.service.journal.snapshot.nodes ∧
        copy.offset = w.service.journal.snapshot.offset := by
  intro w w'
  have htracked : Tracked sessionId w.service w.copies :=
    Machine.invariant_along (P := fun w : Replicas => Tracked sessionId w.service w.copies)
      step_tracked (start_tracked hcreate calls) hpublish
  have htracked' : Tracked sessionId w'.service w'.copies :=
    Machine.invariant_along (P := fun w : Replicas => Tracked sessionId w.service w.copies)
      step_tracked htracked (Machine.along_of_forall (P := fun request => request = .poll actorId)
        (fun _ _ hpoll => hpoll ▸ trivial) fun _ hmem => List.eq_of_mem_replicate hmem)
  obtain ⟨hpending, hjournal, hmem⟩ := run_polls (w.pending actorId) (w := w) rfl hsubscribed
  have hnone := pollSubscriber_of_pending hpending
  refine ⟨hnone, hjournal, ?_⟩
  rw [← hjournal]
  exact (converged_of_tracked htracked').shows actorId hmem hnone

end Replicas

end Omp2.Server

/-! ## A run, and a turn that fails -/

namespace Omp2.Server.Replicas

open Omp2.Json Omp2.Json.Compact Omp2.State Journal ServerSessionService

/-- It attaches. -/
def attachAda : Request :=
  .attachActor ada ⟨"minted", Eq.refl true⟩ ⟨.ok 7, .done⟩

/-- It subscribes without an offset. -/
def subscribeAda : Request :=
  .subscribe ada.actorId none none

/-- A record that the host appends during a turn. -/
def turnPatch : Patch where
  baseOffset := 1
  resultOffset := 2
  author := hostAuthor
  reason := "turn"
  ops := []

/-- A turn that appends this record and ends with some result. -/
def turn (result : Except StructuredError Unit) : Request :=
  .runTurn ⟨[(turnPatch, ⟨.ok 8, .done⟩)], result⟩

/-- A subscriber converges with a turn that succeeds. -/
theorem converged_turn : ∃ j₀, Journal.create exampleSession = .ok j₀ ∧
    (Machine.run step (start (j₀.after [])) [attachAda, subscribeAda, turn (.ok ()),
      .poll ada.actorId]).Converged := by
  obtain ⟨j₀, hcreate⟩ := exists_create_exampleSession
  refine ⟨j₀, hcreate, created_converges hcreate [] ⟨trivial, ?_, .inl rfl, trivial, trivial⟩⟩
  intro _ offset hoffset
  cases hoffset

/-- The turn appends a second record. -/
theorem exists_turned {j₀ j₁ : Journal} {r : JournalRecord}
    (h : Appended exampleSession j₀ [] attachPatch mainBranch ⟨.ok 7, .done⟩ j₁ r)
    (hfailed : j₁.failed = false) (hrecovery : j₁.recovery = none) :
    ∃ (j₂ : Journal) (r' : JournalRecord),
      j₁.appendPatch turnPatch ⟨.ok 8, .done⟩ = (j₂, .ok r'.offset) ∧
        Coherent exampleSession j₂ [r, r'] := by
  have hoffset : j₁.snapshot.offset = 1 := UInt64.toNat_inj.mp (offset_of_coherent h.coherent)
  have hbranch : j₁.snapshot.selectedBranch = mainBranch := by
    obtain ⟨s, _, hsnapshot⟩ := h.applied
    rw [hsnapshot]
  have happlies : (j₁.snapshot.applyPatch turnPatch).2.isOk = true := by
    unfold SessionSnapshot.applyPatch
    rw [show turnPatch.validate = .ok () from rfl]
    dsimp only
    rw [if_neg (not_not.mpr (show turnPatch.baseOffset = _ from hoffset.symm))]
    rfl
  have hfits : (({ blank exampleSession [] with
      snapshot := { SessionSnapshot.empty exampleSession with offset := 1 } } : Journal).newRecord
        turnPatch mainBranch 8).payload.length ≤ maxWireBytes := by
    exact fits_of_draft (by decide +kernel)
  obtain ⟨j₂, r', happend, hr'⟩ := exists_appended_next h.coherent _ _ 1 hfailed hrecovery rfl rfl
    happlies (hbranch ▸ hfits)
  exact ⟨j₂, r', happend, hr'.coherent⟩

/-- An attached spectator subscribes and gets a resync. -/
theorem step_subscribeAda {s : ServerSessionService}
    {copies : Std.ExtTreeMap ActorId SessionSnapshot} (hactor : s.actors[ada.actorId]? = some ada) :
    step ⟨s, copies⟩ subscribeAda = ⟨{ s with
      subscribers := s.subscribers.insert ada.actorId
        (.new ada.actorId .spectator 0 s.defaultQueueCapacity) },
      copies.insert ada.actorId s.journal.snapshot⟩ := by
  have hallowed : s.authorize ada.actorId .subscribePatches = .ok ada := by
    unfold ServerSessionService.authorize ServerSessionService.getActor
    rw [hactor]
    rfl
  unfold step serve fold subscribeAda ServerSessionService.subscribe
  dsimp only
  rw [hallowed]
  rfl

/-- A subscriber that has just subscribed polls what is pending. -/
theorem drains_subscribed : ∃ j₀, Journal.create exampleSession = .ok j₀ ∧
    let w := Machine.run step (start (j₀.after [])) [attachAda, subscribeAda]
    let w' := Machine.run step w (List.replicate (w.pending ada.actorId) (.poll ada.actorId))
    (w'.service.pollSubscriber ada.actorId).2 = none ∧ w'.service.journal = w.service.journal ∧
      ∃ copy, w'.copies[ada.actorId]? = some copy ∧
        copy.nodes = w.service.journal.snapshot.nodes ∧
        copy.offset = w.service.journal.snapshot.offset := by
  obtain ⟨j₀, hcreate⟩ := exists_create_exampleSession
  have hpublish : Machine.Along step Publishes (start (j₀.after [])) [attachAda, subscribeAda] :=
    ⟨trivial, (fun _ _ hoffset => by cases hoffset), trivial⟩
  refine ⟨j₀, hcreate, created_drains hcreate [] hpublish ?_⟩
  obtain ⟨j₁, r, happend, hr⟩ := exists_attached hcreate
  obtain ⟨hj₀, _⟩ := create_eq_ok hcreate
  have hattached := attachActor_ada (s := .new j₀) (by rw [hj₀]; rfl)
    (nextOffset_created hcreate) rfl rfl happend
  have hactor : (step (start j₀) attachAda).service.actors[ada.actorId]? = some ada := by
    show ((ServerSessionService.new j₀).attachActor ada ⟨"minted", Eq.refl true⟩
      ⟨.ok 7, .done⟩).1.actors[ada.actorId]? = some ada
    rw [hattached]
    exact Std.ExtTreeMap.getElem?_insert_self
  show ada.actorId ∈ (step ⟨(step (start j₀) attachAda).service,
    (step (start j₀) attachAda).copies⟩ subscribeAda).service.subscribers
  rw [step_subscribeAda hactor]
  exact Std.ExtTreeMap.mem_insert_self

/-- The turn that fails. -/
def failedTurn : Request :=
  turn (.error (.new "inference_failed" "The provider refused the request" true))

/-- The host appends its record, and nobody gets it. -/
theorem step_failedTurn {s : ServerSessionService} {j : Journal} {offset : UInt64}
    {copies : Std.ExtTreeMap ActorId SessionSnapshot}
    (hturn : s.journal.appendPatch turnPatch ⟨.ok 8, .done⟩ = (j, .ok offset)) :
    step ⟨s, copies⟩ failedTurn = ⟨{ s with journal := j }, copies⟩ := by
  show (⟨{ s with journal := (s.journal.appendPatch turnPatch ⟨.ok 8, .done⟩).1 }, copies⟩ :
    Replicas) = _
  rw [hturn]

/-- A copy that is behind although there is nothing to poll. -/
theorem not_converged_of_behind {w : Replicas} {actorId : ActorId} {q : SubscriberQueue}
    {copy : SessionSnapshot} (hq : w.service.subscribers[actorId]? = some q)
    (hneeds : q.needsResync = false) (hempty : q.queue = [])
    (hcopy : w.copies[actorId]? = some copy)
    (hbehind : copy.offset ≠ w.service.journal.snapshot.offset) : ¬ w.Converged := by
  intro hconverged
  have hnone : (w.service.pollSubscriber actorId).2 = none := by
    unfold ServerSessionService.pollSubscriber SubscriberQueue.pop
    rw [hq]
    dsimp only
    rw [if_neg (by rw [hneeds]; exact Bool.false_ne_true), hempty]
  obtain ⟨_, hcopy', _, hsame⟩ := hconverged.shows actorId
    (by rw [Std.ExtTreeMap.mem_iff_isSome_getElem?, hq]; rfl) hnone
  rw [hcopy] at hcopy'
  cases hcopy'
  exact hbehind hsame

/-- A turn that fails after it has appended a record leaves its subscribers behind. -/
theorem not_converged_failedTurn : ∃ j₀, Journal.create exampleSession = .ok j₀ ∧
    ¬ (Machine.run step (start (j₀.after [])) [attachAda, subscribeAda, failedTurn]).Converged := by
  obtain ⟨j₀, hcreate⟩ := exists_create_exampleSession
  refine ⟨j₀, hcreate, ?_⟩
  obtain ⟨j₁, r, happend, hr⟩ := exists_attached hcreate
  have hnext := nextOffset_created hcreate
  obtain ⟨hj₀, _⟩ := create_eq_ok hcreate
  obtain ⟨j₂, r', hturn, hcoherent⟩ := exists_turned hr (by rw [hr.failed, hj₀]; rfl)
    (by rw [hr.recovery, hj₀]; rfl)
  have hoffset : j₂.snapshot.offset = 2 := UInt64.toNat_inj.mp (offset_of_coherent hcoherent)
  have hfirst : j₁.snapshot.offset = 1 := UInt64.toNat_inj.mp (offset_of_coherent hr.coherent)
  -- the service after the spectator has attached
  have hattached := attachActor_ada (s := .new j₀) (by rw [hj₀]; rfl) hnext rfl rfl happend
  have hattached := congrArg Prod.fst hattached
  obtain ⟨s₁, hs₁⟩ : ∃ s₁, ((ServerSessionService.new j₀).attachActor ada ⟨"minted", Eq.refl true⟩
    ⟨.ok 7, .done⟩).1 = s₁ := ⟨_, rfl⟩
  rw [hs₁] at hattached
  have hjournal : s₁.journal = j₁ := by
    rw [hattached]
    rfl
  have hactor : s₁.actors[ada.actorId]? = some ada := by
    rw [hattached]
    exact Std.ExtTreeMap.getElem?_insert_self
  have hstep : step (start j₀) attachAda = ⟨s₁, ∅⟩ := by
    show (⟨_, ∅⟩ : Replicas) = ⟨s₁, ∅⟩
    rw [← hs₁]
    rfl
  show ¬ (step (step (step (start j₀) attachAda) subscribeAda) failedTurn).Converged
  rw [hstep, step_subscribeAda hactor, step_failedTurn (by rw [hjournal]; exact hturn)]
  refine not_converged_of_behind Std.ExtTreeMap.getElem?_insert_self rfl rfl
    Std.ExtTreeMap.getElem?_insert_self ?_
  rw [hjournal, hfirst]
  dsimp only
  rw [hoffset]
  decide

end Omp2.Server.Replicas
