import Omp2.Server.Publishing
import Omp2.Server.Transport
import Omp2.State.Recovery

/-!
# The table of actors

Which operations of the service change the table of attached actors: attaching adds the entry of
the actor, detaching removes one, and nothing else touches it. A request on a connection therefore
never adds an entry, and it is refused without effect when its actor lacks the permission.
-/

namespace Omp2.Server

open Omp2.Json Omp2.State

variable [SerdeJson]

namespace ServerSessionService

variable {s : ServerSessionService}

theorem submitPatchInternal_actors (patch : Patch) (world : Journal.Outside) :
    (s.submitPatchInternal patch world).1.actors = s.actors := by
  unfold submitPatchInternal
  split <;> rfl

omit [SerdeJson] in
theorem replicate_actors (since : UInt64) : (s.replicate since).actors = s.actors := by
  unfold replicate
  rw [foldl_broadcast]

theorem appendAndReplicate_actors (patch : Patch) (world : Journal.Outside) :
    (s.appendAndReplicate patch world).1.actors = s.actors := by
  unfold appendAndReplicate
  split
  · rfl
  · exact replicate_actors _

theorem runHost_actors {α : Type} (run : HostRun α) : (s.runHost run).1.actors = s.actors := by
  unfold runHost
  dsimp only
  split
  · rfl
  · exact replicate_actors _

omit [SerdeJson] in
theorem subscribe_actors (actorId : ActorId) (lastOffset : Option UInt64)
    (capacityOverride : Option Nat) :
    (s.subscribe actorId lastOffset capacityOverride).1.actors = s.actors := by
  unfold subscribe
  split
  · rfl
  · dsimp only
    split
    · rfl
    · split
      · rfl
      · split <;> rfl

omit [SerdeJson] in
theorem pollSubscriber_actors (actorId : ActorId) :
    (s.pollSubscriber actorId).1.actors = s.actors := by
  unfold pollSubscriber
  split
  · rfl
  · split <;> rfl

theorem submitPatch_actors (actorId : ActorId) (patch : Patch) (world : Journal.Outside) :
    (s.submitPatch actorId patch world).1.actors = s.actors := by
  unfold submitPatch
  split
  · rfl
  · split
    · rfl
    · split
      · rfl
      · exact submitPatchInternal_actors ..

theorem submitCommand_actors (actorId : ActorId) (commandId : String) (minted : ElementId)
    (world : Journal.Outside) :
    (s.submitCommand actorId commandId minted world).1.actors = s.actors := by
  unfold submitCommand
  split
  · rfl
  · dsimp only
    split
    · rfl
    · split
      · rfl
      · have hactors := submitPatchInternal_actors (s := s) (s.nextPatch actorId "accept command"
          [s.createLast (staticId "meta") (receiptElement (Text.trim commandId) minted)]) world
        split
        · next heq =>
          rw [heq] at hactors
          exact hactors
        · next heq =>
          rw [heq] at hactors
          exact hactors

theorem executeCommand_actors (actorId : ActorId) (commandId : String) (minted : ElementId)
    (world : Journal.Outside) (run : HostRun Unit) :
    (s.executeCommand actorId commandId minted world run).1.actors = s.actors := by
  have hactors := submitCommand_actors (s := s) actorId commandId minted world
  unfold executeCommand
  split
  · next heq =>
    rw [heq] at hactors
    exact hactors
  · next heq =>
    rw [heq] at hactors
    exact (runHost_actors run).trans hactors

theorem changeConvar_actors (actorId : ActorId) (name : String) (value : TypedValue)
    (world : Journal.Outside) :
    (s.changeConvar actorId name value world).1.actors = s.actors := by
  unfold changeConvar
  split
  · rfl
  · dsimp only
    split
    · rfl
    · exact submitPatchInternal_actors ..

theorem requestApproval_actors (requester : ActorId) (requestId description : String)
    (world : Journal.Outside) :
    (s.requestApproval requester requestId description world).1.actors = s.actors := by
  unfold requestApproval
  split
  · rfl
  · dsimp only
    split
    · rfl
    · split
      · rfl
      · exact appendAndReplicate_actors ..

theorem resolveApproval_actors (actorId : ActorId) (requestId : String) (decision : Bool)
    (world : Journal.Outside) :
    (s.resolveApproval actorId requestId decision world).1.actors = s.actors := by
  unfold resolveApproval
  split
  · rfl
  · split
    · rfl
    · split
      · rfl
      · split
        · rfl
        · exact appendAndReplicate_actors ..

theorem signalJob_actors (actorId : ActorId) (jobId : JobId) (signal : String)
    (world : Journal.Outside) :
    (s.signalJob actorId jobId signal world).1.actors = s.actors := by
  unfold signalJob
  split
  · rfl
  · split
    · rfl
    · split
      · rfl
      · split
        · exact appendAndReplicate_actors ..
        · rfl

theorem registerArtifact_actors (actorId : ActorId) (artifact : ArtifactRecord)
    (minted : ElementId) (world : Journal.Outside) :
    (s.registerArtifact actorId artifact minted world).1.actors = s.actors := by
  unfold registerArtifact
  split
  · rfl
  · exact submitPatchInternal_actors ..

theorem writeWorkspace_actors (actorId : ActorId) (path : String) (run : HostRun ToolCallId) :
    (s.writeWorkspace actorId path run).1.actors = s.actors := by
  have hactors := runHost_actors (s := s) run
  unfold writeWorkspace
  split
  · rfl
  · split
    · rfl
    · split
      · next heq =>
        rw [heq] at hactors
        exact hactors
      · next heq =>
        rw [heq] at hactors
        dsimp only
        split <;> exact hactors

theorem forkSession_actors (actorId : ActorId) (offset : UInt64) (branch : BranchId)
    (element : ElementId) (world : Journal.Outside) :
    (s.forkSession actorId offset branch element world).1.actors = s.actors := by
  unfold forkSession
  split
  · rfl
  · split <;> rfl

theorem selectBranch_actors (actorId : ActorId) (branch : BranchId) (world : Journal.Outside) :
    (s.selectBranch actorId branch world).1.actors = s.actors := by
  unfold selectBranch
  split
  · rfl
  · split <;> rfl

omit [SerdeJson] in
theorem terminateSession_actors (actorId : ActorId) :
    (s.terminateSession actorId).1.actors = s.actors := by
  unfold terminateSession
  split <;> rfl

omit [SerdeJson] in
theorem detachActor_actors {callerId targetActor id : ActorId} {a : ActorSession}
    (h : (s.detachActor callerId targetActor).1.actors[id]? = some a) :
    s.actors[id]? = some a := by
  unfold detachActor at h
  dsimp only at h
  split at h
  · exact h
  · dsimp only at h
    rw [Std.ExtTreeMap.getElem?_erase] at h
    split at h
    · cases h
    · exact h

/-- Attaching adds the entry of the actor when it succeeds, and nothing else. -/
theorem attachActor_actors {actor : ActorSession} {minted : ElementId} {world : Journal.Outside}
    {s' : ServerSessionService} {result : Except ServerError Unit}
    (h : s.attachActor actor minted world = (s', result)) :
    (result = .ok () ∧ s'.actors = s.actors.insert actor.actorId actor) ∨
      (∃ e, result = .error e) ∧ s'.actors = s.actors := by
  unfold attachActor at h
  split at h
  · cases h
    exact .inr ⟨⟨_, rfl⟩, rfl⟩
  · dsimp only at h
    split at h
    · cases h
      exact .inl ⟨rfl, rfl⟩
    · have hactors := submitPatchInternal_actors (s := s) (s.nextPatch actor.actorId "attach actor"
        [s.createLast (staticId "actors") (actorElement actor minted)]) world
      split at h
      · next heq =>
        rw [heq] at hactors
        cases h
        exact .inr ⟨⟨_, rfl⟩, hactors⟩
      · next heq =>
        rw [heq] at hactors
        cases h
        exact .inl ⟨rfl, by rw [← hactors]⟩

end ServerSessionService

/-! ## Requests -/

section Requests

open ServerSessionService

variable {s : ServerSessionService}

omit [SerdeJson] in
theorem actors_of_kept {s' : ServerSessionService} {id : ActorId} {a : ActorSession}
    (hkept : s'.actors = s.actors) (h : s'.actors[id]? = some a) : s.actors[id]? = some a := by
  rw [← hkept]
  exact h

/-- No request adds or changes an entry of the table of actors. -/
theorem dispatch_actors {actorId id : ActorId} {role : ActorRole} {request : Value}
    {env : Environment} {a : ActorSession}
    (h : (dispatch s actorId role request env).1.actors[id]? = some a) :
    s.actors[id]? = some a := by
  unfold dispatch at h
  split at h
  · exact h
  · exact h
  · exact actors_of_kept (subscribe_actors ..) h
  · exact actors_of_kept (pollSubscriber_actors ..) h
  · exact h
  · -- submit_patch
    split at h
    · exact h
    · split at h
      · exact h
      · exact actors_of_kept (submitPatch_actors ..) h
  · -- submit_command
    dsimp only at h
    split at h
    · exact h
    · have hactors := executeCommand_actors (s := s) actorId
        (Text.trim ((textField request "command_id").getD "")) env.minted env.world env.turn
      split at h
      · next heq =>
        rw [heq] at hactors
        exact actors_of_kept hactors h
      · next heq =>
        rw [heq] at hactors
        exact actors_of_kept hactors h
  · -- run_turn
    split at h
    · exact h
    · exact actors_of_kept (runHost_actors env.turn) h
  · -- execute_tool
    split at h
    · exact h
    · exact actors_of_kept (runHost_actors env.tool) h
  · exact actors_of_kept (changeConvar_actors ..) h
  · -- get_artifact
    split at h
    · exact h
    · split at h <;> exact h
  · -- register_artifact
    split at h
    · exact h
    · exact actors_of_kept (registerArtifact_actors ..) h
  · exact actors_of_kept (writeWorkspace_actors ..) h
  · exact actors_of_kept (requestApproval_actors ..) h
  · exact actors_of_kept (resolveApproval_actors ..) h
  · -- signal_job
    split at h
    · exact h
    · exact actors_of_kept (signalJob_actors ..) h
  · -- detach
    split at h
    · exact h
    · exact detachActor_actors h
  · -- inspect_actor
    split at h
    · exact h
    · split at h
      · split at h <;> exact h
      · exact h
  · split at h <;> exact h
  · exact actors_of_kept (forkSession_actors ..) h
  · exact actors_of_kept (forkSession_actors ..) h
  · -- select_branch
    split at h
    · exact h
    · exact actors_of_kept (selectBranch_actors ..) h
  · -- shutdown
    split at h
    · exact h
    · exact actors_of_kept (terminateSession_actors ..) h
  · exact h

omit [SerdeJson] in
/-- Who lacks a permission by its entry in the table, or has no entry, is refused. -/
theorem authorize_refused {actorId : ActorId} {role : ActorRole} {perm : Permission}
    (hlacks : role.hasPermission perm = false)
    (htable : ∀ a, s.actors[actorId]? = some a → a.role = role) :
    (∃ e, s.authorize actorId perm = .error e) ∧ ∃ e, s.authorizeChange actorId perm = .error e := by
  have hread : ∃ e, s.authorize actorId perm = .error e := by
    unfold authorize getActor
    cases hactor : s.actors[actorId]? with
    | none => exact ⟨_, rfl⟩
    | some a =>
      have hcheck : ¬ a.role.hasPermission perm = true := by
        rw [htable a hactor, hlacks]
        exact Bool.false_ne_true
      refine ⟨.unauthorized a.actorId.value a.role perm.debug, ?_⟩
      show (a.checkPermission perm >>= fun _ => pure a) = _
      unfold ActorSession.checkPermission
      rw [if_neg hcheck]
      rfl
  refine ⟨hread, ?_⟩
  unfold authorizeChange
  split
  · exact ⟨_, rfl⟩
  · exact hread

/-- The permission that a request requires. An actor may detach and inspect itself. -/
def requiredPermission (actorId : ActorId) (request : Value) : Option Permission :=
  let toManage (target : Except StructuredError ActorId) : Option Permission :=
    match target with
    | .error _ => none
    | .ok target => if target = actorId then none else some .manageSession
  match Action.ofName (requestAction request) with
  | .getSnapshot | .getProjection | .resync | .inspectXml => some .readSnapshot
  | .subscribe | .poll => some .subscribePatches
  | .submitPatch => some .submitPatch
  | .submitCommand | .runTurn | .executeTool | .requestApproval => some .submitCommand
  | .changeConvar => some .changeConVar
  | .getArtifact => some .accessArtifact
  | .registerArtifact | .writeWorkspace => some .writeWorkspace
  | .resolveApproval => some .approve
  | .signalJob => some .signalJob
  | .detach => toManage (targetActor actorId request "target_actor")
  | .inspectActor => toManage (targetActor actorId request "actor_id")
  | .forkSession | .rewindSession | .selectBranch | .shutdown => some .manageSession
  | .unknown _ => none

/-- The reply says that the request was refused, and the service is as it was. -/
def Refuses (s : ServerSessionService) (outcome : ServerSessionService × Reply) : Prop :=
  ∃ code message, outcome = (s, .error code message)

/-- A request is refused when the role lacks the permission. -/
theorem dispatch_refused {actorId : ActorId} {role : ActorRole} {request : Value}
    {env : Environment} {perm : Permission}
    (hrequired : requiredPermission actorId request = some perm)
    (hlacks : role.hasPermission perm = false)
    (htable : ∀ a, s.actors[actorId]? = some a → a.role = role) :
    Refuses s (dispatch s actorId role request env) := by
  obtain ⟨⟨e, hread⟩, e', hchange⟩ := authorize_refused hlacks htable
  unfold requiredPermission at hrequired
  dsimp only at hrequired
  unfold dispatch
  cases haction : Action.ofName (requestAction request) <;> rw [haction] at hrequired <;>
    dsimp only at hrequired ⊢
  case getSnapshot | getProjection | resync =>
      cases hrequired
      unfold getSnapshot
      rw [hread]
      exact ⟨_, _, rfl⟩
  case subscribe =>
      cases hrequired
      unfold subscribe
      rw [hread]
      exact ⟨_, _, rfl⟩
  case poll =>
      cases hrequired
      cases role <;> cases hlacks
  case submitPatch =>
      cases hrequired
      split
      · exact ⟨_, _, rfl⟩
      · split
        · exact ⟨_, _, rfl⟩
        · unfold submitPatch
          rw [hchange]
          exact ⟨_, _, rfl⟩
  case submitCommand =>
      cases hrequired
      split
      · exact ⟨_, _, rfl⟩
      · unfold executeCommand submitCommand
        rw [hchange]
        exact ⟨_, _, rfl⟩
  case runTurn | executeTool =>
      cases hrequired
      rw [if_pos (by rw [hlacks]; exact Bool.false_ne_true)]
      exact ⟨_, _, rfl⟩
  case changeConvar =>
      cases hrequired
      unfold changeConvar
      rw [hchange]
      exact ⟨_, _, rfl⟩
  case getArtifact =>
      cases hrequired
      split
      · exact ⟨_, _, rfl⟩
      · unfold getArtifactAt getArtifact
        rw [hread]
        split <;> exact ⟨_, _, rfl⟩
  case registerArtifact =>
      cases hrequired
      split
      · exact ⟨_, _, rfl⟩
      · unfold registerArtifact
        rw [hchange]
        exact ⟨_, _, rfl⟩
  case writeWorkspace =>
      cases hrequired
      unfold writeWorkspace
      rw [hchange]
      exact ⟨_, _, rfl⟩
  case requestApproval =>
      cases hrequired
      unfold requestApproval
      rw [hchange]
      exact ⟨_, _, rfl⟩
  case resolveApproval =>
      cases hrequired
      unfold resolveApproval
      rw [hchange]
      exact ⟨_, _, rfl⟩
  case signalJob =>
      cases hrequired
      split
      · exact ⟨_, _, rfl⟩
      · unfold signalJob
        rw [hchange]
        exact ⟨_, _, rfl⟩
  case detach =>
      cases htarget : targetActor actorId request "target_actor" with
      | error e =>
        rw [htarget] at hrequired
        cases hrequired
      | ok target =>
        rw [htarget] at hrequired
        dsimp only at hrequired ⊢
        split at hrequired
        · cases hrequired
        · next hne =>
          cases hrequired
          unfold detachActor
          dsimp only
          rw [if_neg (fun heq => hne heq.symm), hread]
          exact ⟨_, _, rfl⟩
  case inspectActor =>
      cases htarget : targetActor actorId request "actor_id" with
      | error e =>
        rw [htarget] at hrequired
        cases hrequired
      | ok target =>
        rw [htarget] at hrequired
        dsimp only at hrequired ⊢
        split at hrequired
        · cases hrequired
        · next hne =>
          cases hrequired
          have hcheck : ¬ (ActorSession.new actorId role []).role.hasPermission
              .manageSession = true := by
            show ¬ role.hasPermission .manageSession = true
            rw [hlacks]
            exact Bool.false_ne_true
          unfold ActorSession.checkPermission
          rw [if_pos hne, if_neg hcheck]
          exact ⟨_, _, rfl⟩
  case inspectXml =>
      cases hrequired
      rw [if_pos (by rw [hlacks]; exact Bool.false_ne_true)]
      exact ⟨_, _, rfl⟩
  case forkSession =>
      cases hrequired
      unfold forkSession
      rw [hchange]
      exact ⟨_, _, rfl⟩
  case rewindSession =>
      cases hrequired
      unfold rewindSession
      rw [hchange]
      exact ⟨_, _, rfl⟩
  case selectBranch =>
      cases hrequired
      split
      · exact ⟨_, _, rfl⟩
      · unfold selectBranch
        rw [hchange]
        exact ⟨_, _, rfl⟩
  case shutdown =>
      cases hrequired
      split
      · exact ⟨_, _, rfl⟩
      · unfold terminateSession
        rw [hread]
        exact ⟨_, _, rfl⟩
  case unknown name => cases hrequired

end Requests

end Omp2.Server

/-! ## An actor on a new session -/

namespace Omp2.Server.ServerSessionService

open Omp2.Json Omp2.Json.Compact Omp2.State Journal

/-- A spectator for the runs on fixed inputs. -/
def ada : ActorSession :=
  .new ⟨"ada", Eq.refl true⟩ .spectator [journalFormat]

/-- The patch with which it attaches to a new session. -/
def attachPatch : Patch where
  baseOffset := 0
  resultOffset := 1
  author := .actor ada.actorId
  reason := "attach actor"
  ops := [.create (staticId "actors") 0
    (actorElement ada ⟨"minted", Eq.refl true⟩)]

theorem nextOffset_created {j₀ : Journal} (hcreate : Journal.create exampleSession = .ok j₀) :
    j₀.nextOffset = 1 := by
  have hlatest := (create_coherent hcreate).latestOffset
  unfold Journal.nextOffset
  rw [UInt64.toNat_inj.mp (show _ = (0 : UInt64).toNat from hlatest)]
  rfl

/-- Attaching to a new session appends one record. -/
theorem exists_attached {j₀ : Journal} (hcreate : Journal.create exampleSession = .ok j₀) :
    ∃ j₁ r, j₀.appendPatch attachPatch ⟨.ok 7, .done⟩ = (j₁, .ok r.offset) ∧
      Appended exampleSession j₀ [] attachPatch mainBranch ⟨.ok 7, .done⟩ j₁ r := by
  have hcoherent := create_coherent hcreate
  have happlies : (SessionSnapshot.applyPatch (.empty exampleSession) attachPatch).2.isOk = true := by
    decide +kernel
  have hfits : ((blank exampleSession []).newRecord attachPatch mainBranch 7).payload.length ≤
      maxWireBytes := by
    exact fits_of_draft (by decide +kernel)
  have hnext := nextOffset_created hcreate
  obtain ⟨rfl, _⟩ := create_eq_ok hcreate
  cases happly : SessionSnapshot.applyPatch (.empty exampleSession) attachPatch with
  | mk s result =>
      rw [happly] at happlies
      cases result with
      | error e => cases happlies
      | ok _ => exact exists_appended hcoherent rfl rfl hnext.symm happly hfits

/-- This patch is the one that attaching makes. -/
theorem nextPatch_attach {s : ServerSessionService}
    (hsnapshot : s.journal.snapshot = .empty exampleSession) (hnext : s.journal.nextOffset = 1) :
    s.nextPatch ada.actorId "attach actor" [s.createLast (staticId "actors")
      (actorElement ada ⟨"minted", Eq.refl true⟩)] = attachPatch := by
  have hempty : ((SessionSnapshot.empty exampleSession).children (staticId "actors")).length = 0 := by
    decide +kernel
  unfold nextPatch createLast
    currentOffset
  rw [hsnapshot, hnext, hempty]
  rfl

/-- Attaching to the service on a new session. -/
theorem attachActor_ada {s : ServerSessionService} {j₁ : Journal} {offset : UInt64}
    (hsnapshot : s.journal.snapshot = .empty exampleSession) (hnext : s.journal.nextOffset = 1)
    (hactors : s.actors = ∅) (hopen : s.terminated = false)
    (happend : s.journal.appendPatch attachPatch ⟨.ok 7, .done⟩ = (j₁, .ok offset)) :
    s.attachActor ada ⟨"minted", Eq.refl true⟩ ⟨.ok 7, .done⟩ =
      ({ ({ s with journal := j₁ } : ServerSessionService).broadcast (.patch attachPatch) with
        actors := s.actors.insert ada.actorId ada }, .ok ()) := by
  have hnone : ¬ (((SessionSnapshot.empty exampleSession).children (staticId "actors")).any
      (recordsActor ada.actorId) = true ∨ s.terminated = true) := by
    rw [hopen]
    decide +kernel
  unfold attachActor
  rw [if_neg (by rw [hactors]; simp)]
  dsimp only
  rw [nextPatch_attach hsnapshot hnext, hsnapshot, if_neg hnone]
  unfold submitPatchInternal
  rw [happend]
  rfl

/-- Attaching again under an id that the document records changes the table only. -/
theorem attachActor_recorded {s : ServerSessionService} (actor : ActorSession)
    (minted : ElementId) (world : Journal.Outside) (habsent : actor.actorId ∉ s.actors)
    (hrecorded : (s.journal.snapshot.children (staticId "actors")).any
      (recordsActor actor.actorId) = true) :
    s.attachActor actor minted world =
      ({ s with actors := s.actors.insert actor.actorId actor }, .ok ()) := by
  unfold attachActor
  rw [if_neg (by rw [Std.ExtTreeMap.contains_iff_mem]; exact habsent)]
  dsimp only
  rw [if_pos (.inl hrecorded)]

/-- The document records the attached actor. -/
theorem recordsActor_attached {j₀ j₁ : Journal} {r : JournalRecord}
    (hcreate : Journal.create exampleSession = .ok j₀)
    (hr : Appended exampleSession j₀ [] attachPatch mainBranch ⟨.ok 7, .done⟩ j₁ r) :
    (j₁.snapshot.children (staticId "actors")).any (recordsActor ada.actorId) = true := by
  have hrecorded : ((SessionSnapshot.applyPatch (.empty exampleSession) attachPatch).1.children
      (staticId "actors")).any (recordsActor ada.actorId) = true := by
    decide +kernel
  obtain ⟨s, happly, hsnapshot⟩ := hr.applied
  obtain ⟨hj₀, _⟩ := create_eq_ok hcreate
  rw [hj₀, show (blank exampleSession (headerFile exampleSession)).snapshot =
    .empty exampleSession from rfl] at happly
  rw [happly] at hrecorded
  rw [hsnapshot]
  exact hrecorded

theorem snapshot_appended {j j' : Journal} {log : List JournalRecord} {patch : Patch}
    {branch : BranchId} {world : Outside} {r : JournalRecord}
    (h : Appended exampleSession j log patch branch world j' r) :
    j'.snapshot = { (j.snapshot.applyPatch patch).1 with selectedBranch := branch } := by
  obtain ⟨s, happly, hsnapshot⟩ := h.applied
  rw [hsnapshot, happly]

/-- The document with the actor. -/
def withActor : SessionSnapshot :=
  { (SessionSnapshot.applyPatch (.empty exampleSession) attachPatch).1 with
    selectedBranch := mainBranch }

theorem snapshot_attached {j₀ j₁ : Journal} {r : JournalRecord}
    (hcreate : Journal.create exampleSession = .ok j₀)
    (hr : Appended exampleSession j₀ [] attachPatch mainBranch ⟨.ok 7, .done⟩ j₁ r) :
    j₁.snapshot = withActor := by
  rw [snapshot_appended hr, (create_eq_ok hcreate).1]
  rfl

end Omp2.Server.ServerSessionService
