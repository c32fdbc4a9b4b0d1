import Omp2.Server.Convergence

/-!
# What a request does to the journal

A request changes the journal through calls of the journal only, so the journal of every service
that requests lead to from a created or an opened journal is coherent. An operation that changes
the session appends at most one patch, after its caller has passed the check for one permission.
-/

namespace Omp2.Server

open Omp2.Json Omp2.State

variable [SerdeJson]

namespace ServerSessionService

variable {s s' : ServerSessionService} {actorId : ActorId}

omit [SerdeJson] in
/-- An attached actor whose role has the permission may change a running session. -/
theorem authorizeChange_ok {actor : ActorSession} (perm : Permission)
    (hrunning : s.terminated = false) (hactor : s.actors[actorId]? = some actor)
    (hrole : actor.role.hasPermission perm = true) : s.authorizeChange actorId perm = .ok actor := by
  unfold authorizeChange authorize getActor
  rw [hrunning, hactor]
  show (actor.checkPermission perm >>= fun _ => pure actor) = _
  rw [ActorSession.checkPermission_ok.mpr hrole]
  rfl

/-- Some calls lead from one journal to the other. -/
def Reaches (j j' : Journal) : Prop :=
  ∃ calls, j' = j.after calls

theorem Reaches.refl (j : Journal) : Reaches j j :=
  ⟨[], rfl⟩

theorem Reaches.call (j : Journal) (call : Journal.Call) : Reaches j (j.step call) :=
  ⟨[call], rfl⟩

theorem Reaches.trans {j j₁ j₂ : Journal} (h : Reaches j j₁) (h' : Reaches j₁ j₂) :
    Reaches j j₂ := by
  obtain ⟨calls, rfl⟩ := h
  obtain ⟨more, rfl⟩ := h'
  exact ⟨calls ++ more, (Machine.run_append calls more).symm⟩

theorem hostAppends_reaches (j : Journal) (attempts : List (Patch × Journal.Outside)) :
    Reaches j (hostAppends j attempts) := by
  induction attempts generalizing j with
  | nil => exact .refl j
  | cons attempt attempts ih =>
      exact (Reaches.call j (.append attempt.1 attempt.2)).trans (ih _)

theorem submitPatchInternal_journal (s : ServerSessionService) (patch : Patch)
    (world : Journal.Outside) :
    (s.submitPatchInternal patch world).1.journal = s.journal.step (.append patch world) ∧
      (s.submitPatchInternal patch world).1.seenCommandIds = s.seenCommandIds ∧
      (s.submitPatchInternal patch world).2.isOk = s.journal.accepts (.append patch world) := by
  unfold submitPatchInternal Journal.step Journal.accepts
  dsimp only
  cases s.journal.appendPatch patch world with
  | mk journal result => cases result <;> exact ⟨rfl, rfl, rfl⟩

theorem appendAndReplicate_journal (s : ServerSessionService) (patch : Patch)
    (world : Journal.Outside) :
    (s.appendAndReplicate patch world).1.journal = s.journal.step (.append patch world) ∧
      (s.appendAndReplicate patch world).2.isOk = s.journal.accepts (.append patch world) := by
  unfold appendAndReplicate Journal.step Journal.accepts
  dsimp only
  cases s.journal.appendPatch patch world with
  | mk journal result =>
      cases result with
      | error e => exact ⟨rfl, rfl⟩
      | ok offset =>
        dsimp only
        unfold replicate
        rw [foldl_broadcast]
        exact ⟨rfl, rfl⟩

theorem runHost_journal {α : Type} (s : ServerSessionService) (run : HostRun α) :
    (s.runHost run).1.journal = hostAppends s.journal run.attempts := by
  unfold runHost
  dsimp only
  split
  · rfl
  · unfold replicate
    rw [foldl_broadcast]

/-! ## Operations that append at most one patch -/

/-- The journal is as it was, or a caller with the permission has tried to append such a patch, and
the result says whether it was accepted. -/
inductive Appends (s : ServerSessionService) (actorId : ActorId) (perm : Permission)
    (allowed : Patch → Prop) (s' : ServerSessionService) (ok : Bool) : Prop where
  | same : s'.journal = s.journal → Appends s actorId perm allowed s' ok
  | append {actor patch world} : s.authorizeChange actorId perm = .ok actor → allowed patch →
      s'.journal = s.journal.step (.append patch world) →
      ok = s.journal.accepts (.append patch world) → Appends s actorId perm allowed s' ok

variable {perm : Permission} {allowed : Patch → Prop}

theorem Appends.reaches {ok : Bool} (h : s.Appends actorId perm allowed s' ok) :
    Reaches s.journal s'.journal := by
  cases h with
  | same hsame =>
      rw [hsame]
      exact .refl _
  | append _ _ happended _ =>
      rw [happended]
      exact .call _ _

theorem submitPatchInternal_appends {actor : ActorSession}
    (hallowed : s.authorizeChange actorId perm = .ok actor) (patch : Patch) (hpatch : allowed patch)
    (world : Journal.Outside) :
    s.Appends actorId perm allowed (s.submitPatchInternal patch world).1
      (s.submitPatchInternal patch world).2.isOk := by
  obtain ⟨hjournal, _, hok⟩ := submitPatchInternal_journal s patch world
  exact .append hallowed hpatch hjournal hok

theorem appendAndReplicate_appends {actor : ActorSession}
    (hallowed : s.authorizeChange actorId perm = .ok actor) (patch : Patch) (hpatch : allowed patch)
    (world : Journal.Outside) :
    s.Appends actorId perm allowed (s.appendAndReplicate patch world).1
      (s.appendAndReplicate patch world).2.isOk := by
  obtain ⟨hjournal, hok⟩ := appendAndReplicate_journal s patch world
  exact .append hallowed hpatch hjournal hok

theorem submitPatch_appends (patch : Patch) (world : Journal.Outside) :
    s.Appends actorId .submitPatch (fun submitted => submitted = { patch with author := .actor actorId })
      (s.submitPatch actorId patch world).1 (s.submitPatch actorId patch world).2.isOk := by
  unfold submitPatch
  split
  · exact .same rfl
  · next hallowed =>
    split
    · exact .same rfl
    · split
      · exact .same rfl
      · obtain ⟨hjournal, _, hok⟩ :=
          submitPatchInternal_journal s { patch with author := .actor actorId } world
        refine .append hallowed ?_ hjournal hok
        rfl

theorem submitCommand_appends (commandId : String) (minted : ElementId) (world : Journal.Outside) :
    s.Appends actorId .submitCommand (fun patch => ∃ index element,
        patch.ops = [.create (staticId "meta") index element])
      (s.submitCommand actorId commandId minted world).1
      (s.submitCommand actorId commandId minted world).2.isOk := by
  unfold submitCommand
  split
  · exact .same rfl
  · next hallowed =>
    dsimp only
    split
    · exact .same rfl
    · split
      · exact .same rfl
      · obtain ⟨hjournal, _, hok⟩ := submitPatchInternal_journal s (s.nextPatch actorId
          "accept command" [s.createLast (staticId "meta")
            (receiptElement (Text.trim commandId) minted)]) world
        split
        · next heq =>
          rw [heq] at hjournal hok
          exact .append hallowed ⟨_, _, rfl⟩ hjournal hok
        · next heq =>
          rw [heq] at hjournal hok
          exact .append hallowed ⟨_, _, rfl⟩ hjournal hok

theorem changeConvar_appends (name : String) (value : TypedValue) (world : Journal.Outside) :
    s.Appends actorId .changeConVar (fun patch => ∃ name,
        patch.ops = [.setAttribute (staticId "convars") name value])
      (s.changeConvar actorId name value world).1
      (s.changeConvar actorId name value world).2.isOk := by
  unfold changeConvar
  split
  · exact .same rfl
  · next hallowed =>
    dsimp only
    split
    · exact .same rfl
    · exact submitPatchInternal_appends hallowed _ ⟨_, rfl⟩ world

theorem requestApproval_appends (requestId description : String) (world : Journal.Outside) :
    s.Appends actorId .submitCommand (fun patch => ∃ index element,
        patch.ops = [.create (staticId "approvals") index element])
      (s.requestApproval actorId requestId description world).1
      (s.requestApproval actorId requestId description world).2.isOk := by
  unfold requestApproval
  split
  · exact .same rfl
  · next hallowed =>
    dsimp only
    split
    · exact .same rfl
    · split
      · exact .same rfl
      · exact appendAndReplicate_appends hallowed _ ⟨_, _, rfl⟩ world

theorem resolveApproval_appends (requestId : String) (decision : Bool) (world : Journal.Outside) :
    s.Appends actorId .approve (fun patch =>
        ∃ node ∈ s.journal.snapshot.children (staticId "approvals"), ∃ status,
          patch.ops = [.setAttribute node.id "status" status,
            .setAttribute node.id "approved" (.bool decision)])
      (s.resolveApproval actorId requestId decision world).1
      (s.resolveApproval actorId requestId decision world).2.isOk := by
  unfold resolveApproval
  split
  · exact .same rfl
  · next hallowed =>
    split
    · exact .same rfl
    · next id _ =>
      split
      · exact .same rfl
      · next node hfind =>
        split
        · exact .same rfl
        · obtain rfl : node.id = id := by simpa using List.find?_some hfind
          exact appendAndReplicate_appends hallowed _
            ⟨node, List.mem_of_find?_eq_some hfind, _, rfl⟩ world

theorem signalJob_appends (jobId : JobId) (signal : String) (world : Journal.Outside) :
    s.Appends actorId .signalJob (fun patch =>
        ∃ node ∈ s.journal.snapshot.children (staticId "jobs"),
          patch.ops = [.setAttribute node.id "requested_signal" (.string signal)])
      (s.signalJob actorId jobId signal world).1
      (s.signalJob actorId jobId signal world).2.isOk := by
  unfold signalJob
  split
  · exact .same rfl
  · next hallowed =>
    split
    · exact .same rfl
    · split
      · exact .same rfl
      · next id _ =>
        split
        · next hactive =>
          obtain ⟨node, hnode, hid⟩ := List.any_eq_true.mp hactive
          obtain rfl : node.id = id := by simpa using hid
          exact appendAndReplicate_appends hallowed _
            ⟨node, (List.mem_filter.mp hnode).1, rfl⟩ world
        · exact .same rfl

theorem registerArtifact_appends (artifact : ArtifactRecord) (minted : ElementId)
    (world : Journal.Outside) :
    s.Appends actorId .writeWorkspace (fun patch => ∃ index element,
        patch.ops = [.create (staticId "artifacts") index element])
      (s.registerArtifact actorId artifact minted world).1
      (s.registerArtifact actorId artifact minted world).2.isOk := by
  unfold registerArtifact
  split
  · exact .same rfl
  · next hallowed => exact submitPatchInternal_appends hallowed _ ⟨_, _, rfl⟩ world

/-! ## The other requests -/

theorem attachActor_reaches (actor : ActorSession) (minted : ElementId) (world : Journal.Outside) :
    Reaches s.journal (s.attachActor actor minted world).1.journal := by
  unfold attachActor
  split
  · exact .refl _
  · dsimp only
    split
    · exact .refl _
    · obtain ⟨hjournal, _, _⟩ := submitPatchInternal_journal s (s.nextPatch actor.actorId
        "attach actor" [s.createLast (staticId "actors") (actorElement actor minted)]) world
      split
      · next heq =>
        rw [heq] at hjournal
        rw [hjournal]
        exact .call _ _
      · next heq =>
        rw [heq] at hjournal
        exact hjournal ▸ .call _ _

theorem handshake_reaches (req : HandshakeRequest) (minted : ElementId) (world : Journal.Outside) :
    Reaches s.journal (s.handshake req minted world).1.journal := by
  have hattach := attachActor_reaches (s := s)
    (.new req.actorId req.requestedRole req.capabilities) minted world
  unfold handshake
  split
  · exact .refl _
  · dsimp only
    split
    · next heq =>
      rw [heq] at hattach
      exact hattach
    · next heq =>
      rw [heq] at hattach
      exact hattach

omit [SerdeJson] in
theorem detachActor_journal (callerId target : ActorId) :
    (s.detachActor callerId target).1.journal = s.journal := by
  unfold detachActor
  dsimp only
  split <;> rfl

omit [SerdeJson] in
theorem subscribe_journal (lastOffset : Option UInt64) (capacityOverride : Option Nat) :
    (s.subscribe actorId lastOffset capacityOverride).1.journal = s.journal := by
  unfold subscribe
  split
  · rfl
  · dsimp only
    split
    · rfl
    · split
      · rfl
      · split <;> rfl

omit [SerdeJson] in
theorem pollSubscriber_journal : (s.pollSubscriber actorId).1.journal = s.journal := by
  unfold pollSubscriber
  split
  · rfl
  · split <;> rfl

theorem executeCommand_reaches (commandId : String) (minted : ElementId) (world : Journal.Outside)
    (run : HostRun Unit) :
    Reaches s.journal (s.executeCommand actorId commandId minted world run).1.journal := by
  have hsubmit : Reaches s.journal (s.submitCommand actorId commandId minted world).1.journal :=
    (submitCommand_appends commandId minted world).reaches
  unfold executeCommand
  split
  · next heq =>
    rw [heq] at hsubmit
    exact hsubmit
  · next s₁ heq =>
    rw [heq] at hsubmit
    have hrun := hostAppends_reaches s₁.journal run.attempts
    rw [← runHost_journal] at hrun
    exact hsubmit.trans hrun

theorem writeWorkspace_reaches (path : String) (run : HostRun ToolCallId) :
    Reaches s.journal (s.writeWorkspace actorId path run).1.journal := by
  have hrun := hostAppends_reaches s.journal run.attempts
  rw [← runHost_journal] at hrun
  unfold writeWorkspace
  split
  · exact .refl _
  · split
    · exact .refl _
    · split
      · next heq =>
        rw [heq] at hrun
        exact hrun
      · next heq =>
        rw [heq] at hrun
        dsimp only
        split <;> exact hrun

theorem forkSession_reaches (offset : UInt64) (branch : BranchId) (element : ElementId)
    (world : Journal.Outside) :
    Reaches s.journal (s.forkSession actorId offset branch element world).1.journal := by
  have hcall := Reaches.call s.journal (.fork offset branch element world)
  unfold Journal.step at hcall
  unfold forkSession
  split
  · exact .refl _
  · split
    · next heq =>
      dsimp only at hcall
      rw [heq] at hcall
      exact hcall
    · next heq =>
      dsimp only at hcall
      rw [heq] at hcall
      exact hcall

theorem selectBranch_reaches (branch : BranchId) (world : Journal.Outside) :
    Reaches s.journal (s.selectBranch actorId branch world).1.journal := by
  have hcall := Reaches.call s.journal (.select branch world)
  unfold Journal.step at hcall
  unfold selectBranch
  split
  · exact .refl _
  · split
    · next heq =>
      dsimp only at hcall
      rw [heq] at hcall
      exact hcall
    · next heq =>
      dsimp only at hcall
      rw [heq] at hcall
      exact hcall

omit [SerdeJson] in
theorem terminateSession_journal : (s.terminateSession actorId).1.journal = s.journal := by
  unfold terminateSession
  split <;> rfl

end ServerSessionService

/-! ## Runs -/

namespace Replicas

open ServerSessionService

/-- Every request changes the journal through its calls. -/
theorem serve_reaches (w : Replicas) (request : Request) :
    Reaches w.service.journal (w.serve request).journal := by
  cases request with
  | attachActor actor minted world => exact attachActor_reaches actor minted world
  | handshake req minted world => exact handshake_reaches req minted world
  | detachActor callerId targetActor => exact detachActor_journal callerId targetActor ▸ .refl _
  | subscribe actorId lastOffset capacityOverride =>
      exact subscribe_journal lastOffset capacityOverride ▸ .refl _
  | poll actorId => exact pollSubscriber_journal ▸ .refl _
  | submitPatch actorId patch world => exact (submitPatch_appends patch world).reaches
  | submitCommand actorId commandId minted world =>
      exact (submitCommand_appends commandId minted world).reaches
  | executeCommand actorId commandId minted world run =>
      exact executeCommand_reaches commandId minted world run
  | runTurn run => exact runHost_journal w.service run ▸ hostAppends_reaches _ run.attempts
  | executeTool run => exact runHost_journal w.service run ▸ hostAppends_reaches _ run.attempts
  | changeConvar actorId name value world => exact (changeConvar_appends name value world).reaches
  | requestApproval requester requestId description world =>
      exact (requestApproval_appends requestId description world).reaches
  | resolveApproval actorId requestId decision world =>
      exact (resolveApproval_appends requestId decision world).reaches
  | signalJob actorId jobId signal world => exact (signalJob_appends jobId signal world).reaches
  | registerArtifact actorId artifact minted world =>
      exact (registerArtifact_appends artifact minted world).reaches
  | writeWorkspace actorId path run => exact writeWorkspace_reaches path run
  | forkSession actorId offset branch element world =>
      exact forkSession_reaches offset branch element world
  | rewindSession actorId offset branch element world =>
      exact forkSession_reaches offset branch element world
  | selectBranch actorId branch world => exact selectBranch_reaches branch world
  | publishPresentation viewId payload => exact .refl _
  | terminateSession actorId => exact terminateSession_journal ▸ .refl _

/-- A service that requests lead to from a created or an opened journal. -/
def Reachable (w : Replicas) : Prop :=
  ∃ (j : Journal) (requests : List Request),
    ((∃ sessionId, Journal.create sessionId = .ok j) ∨ ∃ file, Journal.openFile file = .ok j) ∧
      w = Machine.run step (start j) requests

/-- Its journal is coherent. -/
theorem Reachable.coherent {w : Replicas} (h : w.Reachable) :
    ∃ sessionId log, Journal.Coherent sessionId w.service.journal log := by
  obtain ⟨j, requests, hj, rfl⟩ := h
  have hstart : ∃ sessionId log, Journal.Coherent sessionId (start j).service.journal log := by
    rcases hj with ⟨sessionId, hcreate⟩ | ⟨file, hopen⟩
    · exact ⟨sessionId, [], Journal.create_coherent hcreate⟩
    · exact Journal.openFile_coherent hopen
  refine Machine.invariant_run (P := fun w : Replicas =>
    ∃ sessionId log, Journal.Coherent sessionId w.service.journal log) ?_ requests hstart
  rintro w request ⟨sessionId, log, hlog⟩
  obtain ⟨calls, hcalls⟩ := w.serve_reaches request
  obtain ⟨more, hmore⟩ := hlog.after calls
  exact ⟨sessionId, log ++ more, hcalls ▸ hmore⟩

end Replicas

end Omp2.Server
