import Omp2.Server.Convergence
import Omp2.Server.Identity

/-!
# Termination and detachment

The operations of the service refuse an actor once the session is terminated or the actor has been
detached, so the journal stays as it is. The actions `run_turn` and `execute_tool` check the role
of the connection only and hand the journal to the host. Termination and detachment are final in
every run in which these two append nothing for a connection that is locked out.
-/

namespace Omp2.Server

open Omp2.Json Omp2.State

variable [SerdeJson]

namespace ServerSessionService

variable {s : ServerSessionService} {actorId : ActorId}

/-- The actor may not change the session any more. -/
def Locked (s : ServerSessionService) (actorId : ActorId) : Prop :=
  s.terminated = true ∨ actorId ∉ s.actors

omit [SerdeJson] in
/-- Who is locked out is refused by every mutating operation. -/
theorem authorizeChange_locked (h : s.Locked actorId) (perm : Permission) :
    ∃ e, s.authorizeChange actorId perm = .error e := by
  unfold authorizeChange
  split
  · exact ⟨_, rfl⟩
  · next hopen =>
    have habsent : s.actors[actorId]? = none :=
      Std.ExtTreeMap.getElem?_eq_none (h.resolve_left hopen)
    refine ⟨.actorNotFound actorId.value, ?_⟩
    unfold authorize getActor
    rw [habsent]
    rfl

/-- What a request leaves that was not refused by the service. -/
structure Leaves (s : ServerSessionService) (attempts : List (Patch × Journal.Outside))
    (s' : ServerSessionService) : Prop where
  journal : s'.journal = hostAppends s.journal attempts
  terminated : s.terminated = true → s'.terminated = true

theorem Leaves.same : s.Leaves [] s :=
  ⟨rfl, id⟩

theorem subscribe_leaves (lastOffset : Option UInt64) (capacityOverride : Option Nat) :
    s.Leaves [] (s.subscribe actorId lastOffset capacityOverride).1 := by
  unfold subscribe
  split
  · exact .same
  · dsimp only
    split
    · exact ⟨rfl, id⟩
    · split
      · exact ⟨rfl, id⟩
      · split <;> exact ⟨rfl, id⟩

theorem pollSubscriber_leaves : s.Leaves [] (s.pollSubscriber actorId).1 := by
  unfold pollSubscriber
  split
  · exact .same
  · split <;> exact ⟨rfl, id⟩

theorem detachActor_leaves (target : ActorId) : s.Leaves [] (s.detachActor actorId target).1 := by
  unfold detachActor
  dsimp only
  split <;> exact ⟨rfl, id⟩

theorem terminateSession_leaves : s.Leaves [] (s.terminateSession actorId).1 := by
  unfold terminateSession
  split
  · exact .same
  · exact ⟨rfl, fun _ => rfl⟩

theorem runHost_leaves {α : Type} (run : HostRun α) :
    s.Leaves run.attempts (s.runHost run).1 := by
  unfold runHost
  dsimp only
  split
  · exact ⟨rfl, id⟩
  · unfold replicate
    rw [foldl_broadcast]
    exact ⟨rfl, id⟩

theorem attachActor_leaves (h : s.terminated = true) (actor : ActorSession) (minted : ElementId)
    (world : Journal.Outside) : s.Leaves [] (s.attachActor actor minted world).1 := by
  unfold attachActor
  split
  · exact .same
  · dsimp only
    rw [if_pos (.inr h)]
    exact ⟨rfl, id⟩

end ServerSessionService

/-! ## Requests of a connection that is locked out -/

/-- What the host tries to append in a request that only checks the role of the connection. -/
def uncheckedAttempts (role : ActorRole) (request : Value) (env : Environment) :
    List (Patch × Journal.Outside) :=
  if role.hasPermission .submitCommand then
    match Action.ofName (requestAction request) with
    | .runTurn => env.turn.attempts
    | .executeTool => env.tool.attempts
    | _ => []
  else []

open ServerSessionService in
/-- A request of an actor that is locked out changes the journal by what the host appends in it. -/
theorem dispatch_locked {s : ServerSessionService} {actorId : ActorId} (h : s.Locked actorId)
    (role : ActorRole) (request : Value) (env : Environment) :
    s.Leaves (uncheckedAttempts role request env) (dispatch s actorId role request env).1 := by
  obtain ⟨e₁, hpatch⟩ := authorizeChange_locked h .submitPatch
  obtain ⟨e₂, hcommand⟩ := authorizeChange_locked h .submitCommand
  obtain ⟨e₃, hconvar⟩ := authorizeChange_locked h .changeConVar
  obtain ⟨e₄, hwrite⟩ := authorizeChange_locked h .writeWorkspace
  obtain ⟨e₅, happrove⟩ := authorizeChange_locked h .approve
  obtain ⟨e₆, hsignal⟩ := authorizeChange_locked h .signalJob
  obtain ⟨e₇, hmanage⟩ := authorizeChange_locked h .manageSession
  unfold uncheckedAttempts dispatch
  cases haction : Action.ofName (requestAction request) <;> dsimp only
  case runTurn =>
      cases role.hasPermission .submitCommand
      · exact .same
      · exact runHost_leaves env.turn
  case executeTool =>
      cases role.hasPermission .submitCommand
      · exact .same
      · exact runHost_leaves env.tool
  -- no other action has unchecked attempts
  all_goals rw [ite_self]
  case subscribe => exact subscribe_leaves ..
  case poll => exact pollSubscriber_leaves
  case submitPatch =>
      split
      · exact .same
      · split
        · exact .same
        · rw [submitPatch, hpatch]
          exact .same
  case submitCommand =>
      split
      · exact .same
      · rw [executeCommand, submitCommand, hcommand]
        exact .same
  case changeConvar =>
      rw [changeConvar, hconvar]
      exact .same
  case getArtifact =>
      split
      · exact .same
      · split <;> exact .same
  case registerArtifact =>
      split
      · exact .same
      · rw [registerArtifact, hwrite]
        exact .same
  case writeWorkspace =>
      rw [writeWorkspace, hwrite]
      exact .same
  case requestApproval =>
      rw [requestApproval, hcommand]
      exact .same
  case resolveApproval =>
      rw [resolveApproval, happrove]
      exact .same
  case signalJob =>
      split
      · exact .same
      · rw [signalJob, hsignal]
        exact .same
  case detach =>
      split
      · exact .same
      · exact detachActor_leaves ..
  case inspectActor =>
      split
      · exact .same
      · split
        · split <;> exact .same
        · exact .same
  case inspectXml => split <;> exact .same
  case forkSession =>
      rw [forkSession, hmanage]
      exact .same
  case rewindSession =>
      rw [rewindSession, hmanage]
      exact .same
  case selectBranch =>
      split
      · exact .same
      · rw [selectBranch, hmanage]
        exact .same
  case shutdown =>
      split
      · exact .same
      · exact terminateSession_leaves
  all_goals exact .same

namespace Network

variable {n : Network} {c : Nat} {actorId : ActorId} {role : ActorRole}

theorem close_leaves : n.service.Leaves [] (n.close c).service := by
  unfold Network.close
  split
  · exact ServerSessionService.detachActor_leaves ..
  · exact .same

/-- What a request leaves is what its dispatch leaves. -/
theorem line_leaves {attempts : List (Patch × Journal.Outside)} {request : Value}
    {env : Environment} (hc : n.connections[c]? = some (some (actorId, role)))
    (h : n.service.Leaves attempts (dispatch n.service actorId role request env).1) :
    n.service.Leaves attempts (n.line c request env).service := by
  unfold Network.line
  rw [hc]
  dsimp only
  split
  · next service heq =>
    rw [heq] at h
    -- the connection that has shut the server down is closed
    have hclose := close_leaves (n := { n with service }) (c := c)
    exact ⟨hclose.journal.trans h.journal, fun hend => hclose.terminated (h.terminated hend)⟩
  · next heq =>
    rw [heq] at h
    exact h

/-- A request on an authenticated connection appends no record. -/
def AppendsNothing (n : Network) : Event → Prop
  | .line c request env =>
    (n.line c request env).service.journal.recordList = n.service.journal.recordList
  | _ => True

/-- A locked-out connection appends nothing exactly when the host appends nothing. -/
theorem appendsNothing_iff (hc : n.connections[c]? = some (some (actorId, role)))
    (hlocked : n.service.Locked actorId) (request : Value) (env : Environment) :
    n.AppendsNothing (.line c request env) ↔
      (ServerSessionService.hostAppends n.service.journal
        (uncheckedAttempts role request env)).recordList = n.service.journal.recordList := by
  unfold AppendsNothing
  dsimp only
  rw [(line_leaves hc (dispatch_locked hlocked role request env)).journal]

/-- On a connection that is locked out, no request is made in which the host tries to append. -/
def Gated (n : Network) : Event → Prop
  | .line c request env =>
    ∀ actorId role, n.connections[c]? = some (some (actorId, role)) → n.service.Locked actorId →
      uncheckedAttempts role request env = []
  | _ => True

/-! ## Termination stays -/

open ServerSessionService in
/-- A handshake on a terminated session appends nothing. -/
theorem handshakeRequest_leaves {s : ServerSessionService} (h : s.terminated = true)
    (auth : AuthConfig) (request : Value) (env : Environment) :
    s.Leaves [] (handshakeRequest auth s request env).1 := by
  unfold handshakeRequest
  split
  · exact .same
  · dsimp only
    split
    · exact .same
    · next actorId _ =>
      split
      · exact .same
      · unfold handshake
        dsimp only
        cases negotiate .current _ _ _ with
        | error e => exact .same
        | ok =>
          have hattach := attachActor_leaves h
            (.new actorId (requestedRole request) [journalFormat]) env.minted env.world
          dsimp only
          cases heq : s.attachActor (.new actorId (requestedRole request) [journalFormat])
              env.minted env.world with
          | mk s' result =>
            rw [heq] at hattach
            cases result <;> exact hattach

/-- An authenticated actor terminates the session. -/
def Terminates (n : Network) : Event → Prop
  | .line c request _ => ∃ actorId role, n.connections[c]? = some (some (actorId, role)) ∧
      Action.ofName (requestAction request) = .shutdown ∧ role = .controller ∧
      (n.service.terminateSession actorId).2 = .ok ()
  | _ => False

/-- The actor is detached. -/
def Detaches (n : Network) (actorId : ActorId) (event : Event) : Prop :=
  actorId ∈ n.service.actors ∧ actorId ∉ (n.step event).service.actors

/-- Once terminated, the session stays so. -/
theorem step_terminated (h : n.service.terminated = true) (event : Event) :
    (n.step event).service.terminated = true := by
  cases event with
  | connect => exact h
  | close => exact close_leaves.terminated h
  | background run => exact (ServerSessionService.runHost_leaves run).terminated h
  | line c request env =>
      show (n.line c request env).service.terminated = true
      cases hc : n.connections[c]? with
      | none =>
        unfold Network.line
        rw [hc]
        exact h
      | some state =>
        cases state with
        | some bound =>
          obtain ⟨actorId, role⟩ := bound
          exact (line_leaves hc (dispatch_locked (.inl h) role request env)).terminated h
        | none =>
          have hshake := handshakeRequest_leaves h n.auth request env
          unfold Network.line
          rw [hc]
          dsimp only
          split
          · next heq =>
            rw [heq] at hshake
            exact hshake.terminated h
          · next heq =>
            rw [heq] at hshake
            exact hshake.terminated h

/-- A session that was terminated is so at the end of the run. -/
theorem terminated_of_terminates {event : Event} (h : n.Terminates event) :
    (n.step event).service.terminated = true := by
  cases event with
  | line c request env =>
      obtain ⟨actorId, role, hc, haction, rfl, hok⟩ := h
      have hended : (n.service.terminateSession actorId).1.terminated = true := by
        unfold ServerSessionService.terminateSession at hok ⊢
        split at hok
        · cases hok
        · rfl
      show (n.line c request env).service.terminated = true
      unfold Network.line
      rw [hc]
      dsimp only
      have hdispatch : (dispatch n.service actorId .controller request env).1 =
          (n.service.terminateSession actorId).1 := by
        unfold dispatch
        rw [haction]
        rfl
      split
      · next service heq =>
        rw [heq] at hdispatch
        have hservice : service = (n.service.terminateSession actorId).1 := hdispatch
        refine close_leaves.terminated ?_
        rw [hservice]
        exact hended
      · next heq =>
        rw [heq] at hdispatch
        dsimp only at hdispatch ⊢
        rw [hdispatch]
        exact hended
  | connect | close c | background run => exact h.elim

/-! ## Runs -/

/-- An actor has terminated the session. -/
def HasTerminated (n : Network) (events : List Event) : Prop :=
  ∃ before event after, events = before ++ event :: after ∧
    (Machine.run step n before).Terminates event

/-- The actor has been detached, and it has not been attached again since. -/
def HasDetached (n : Network) (actorId : ActorId) (events : List Event) : Prop :=
  ∃ before event after, events = before ++ event :: after ∧
    (Machine.run step n before).Detaches actorId event ∧
      ∀ more, more <+: after →
        actorId ∉ (Machine.run step n (before ++ event :: more)).service.actors

/-- Termination and detachment are final in a run: afterwards no request of an authenticated
connection appends a record, of none after the termination and of those of a detached actor until
it is attached again. -/
def Final (n : Network) (events : List Event) : Prop :=
  ∀ first c request env rest, events = first ++ .line c request env :: rest →
    ∀ actorId role,
      (Machine.run step n first).connections[c]? = some (some (actorId, role)) →
        n.HasTerminated first ∨ n.HasDetached actorId first →
          (Machine.run step n first).AppendsNothing (.line c request env)

/-- After a termination, or a detachment, the actor is locked out. -/
theorem locked_of_final {events : List Event}
    (h : n.HasTerminated events ∨ n.HasDetached actorId events) :
    (Machine.run step n events).service.Locked actorId := by
  rcases h with ⟨before, event, after, rfl, hend⟩ | ⟨before, event, after, rfl, _, habsent⟩
  · refine .inl ?_
    rw [Machine.run_append, Machine.run_cons]
    exact Machine.invariant_run (P := fun n : Network => n.service.terminated = true)
      (fun n event hn => step_terminated hn event) after (terminated_of_terminates hend)
  · exact .inr (habsent after List.prefix_rfl)

/-- Termination and detachment are final in every run whose requests are gated. -/
theorem run_final {events : List Event} (h : Machine.Along step Gated n events) :
    n.Final events := by
  rintro first c request env rest rfl actorId role hc hended
  have hgated := ((Machine.along_append first _).mp h).2.1
  have hlocked := locked_of_final hended
  rw [appendsNothing_iff hc hlocked, hgated actorId role hc hlocked]
  rfl

end Network

end Omp2.Server

namespace Omp2.Server.Network

open Omp2.Json Omp2.Json.Compact Omp2.State Journal ServerSessionService

/-- Termination and detachment are final when a spectator detaches itself and a controller attaches
afterwards. -/
theorem final_twoConnections : ∃ j₀, Journal.create exampleSession = .ok j₀ ∧
    (start j₀ tokens).Final twoConnections := by
  obtain ⟨j₀, hcreate⟩ := exists_create_exampleSession
  refine ⟨j₀, hcreate, run_final ⟨trivial, trivial, ?_, ?_, ?_, trivial⟩⟩
  all_goals
    intro _ role _ _
    cases role <;> rfl

/-- A turn in which the host appends one record. -/
def oneTurn : Environment :=
  { calm with turn := ⟨[(Replicas.turnPatch, ⟨.ok 8, .done⟩)], .ok ()⟩ }

/-- A request to run a turn. -/
def runTurn : Value :=
  .object [("action", .string "run_turn")]

/-- The controller of the second connection detaches itself and runs a turn. -/
def turnAfterDetach : List Event :=
  twoConnections ++ [.line 1 detachSelf calm, .line 1 runTurn oneTurn]

/-- The turn appends a record although its actor is detached. -/
theorem not_final_turnAfterDetach : ∃ j₀, Journal.create exampleSession = .ok j₀ ∧
    ¬ (start j₀ tokens).Final turnAfterDetach := by
  obtain ⟨j₀, j₁, r, n, hcreate, hrun, hr, hjournal, hactor, _, hconnection⟩ :=
    exists_twoConnections
  refine ⟨j₀, hcreate, fun hfinal => ?_⟩
  obtain ⟨hj₀, _⟩ := create_eq_ok hcreate
  obtain ⟨j₂, r', hturn, hcoherent⟩ := Replicas.exists_turned hr (by rw [hr.failed, hj₀]; rfl)
    (by rw [hr.recovery, hj₀]; rfl)
  -- the network after the controller has detached itself
  have hdetach := line_detach detachSelf calm hconnection rfl rfl
  obtain ⟨m, hm⟩ : ∃ m, n.line 1 detachSelf calm = m := ⟨_, rfl⟩
  rw [hm] at hdetach
  have habsent : ada.actorId ∉ m.service.actors := by
    rw [hdetach]
    unfold detachActor
    dsimp only
    rw [if_pos rfl]
    simp
  have hsame : m.service.journal = j₁ := by
    rw [hdetach, ← hjournal]
    exact (detachActor_leaves ada.actorId).journal
  have hended : (start j₀ tokens).HasDetached ada.actorId
      (twoConnections ++ [.line 1 detachSelf calm]) := by
    refine ⟨twoConnections, .line 1 detachSelf calm, [], rfl, ⟨?_, ?_⟩, fun more hmore => ?_⟩
    · rw [hrun, Std.ExtTreeMap.mem_iff_isSome_getElem?, hactor]
      rfl
    · rw [hrun]
      show ada.actorId ∉ (n.line 1 detachSelf calm).service.actors
      rw [hm]
      exact habsent
    · rw [List.prefix_nil.mp hmore, Machine.run_concat, hrun]
      show ada.actorId ∉ (n.line 1 detachSelf calm).service.actors
      rw [hm]
      exact habsent
  have hstate : Machine.run step (start j₀ tokens)
      (twoConnections ++ [.line 1 detachSelf calm]) = m := by
    rw [Machine.run_concat, hrun]
    exact hm
  have hbound : m.connections[1]? = some (some (ada.actorId, .controller)) := by
    rw [hdetach]
    exact hconnection
  -- then the turn would append nothing
  have hnothing := hfinal (twoConnections ++ [.line 1 detachSelf calm]) 1 runTurn oneTurn []
    (by rw [List.append_assoc]; rfl) ada.actorId .controller (by rw [hstate]; exact hbound)
    (.inr hended)
  rw [hstate, appendsNothing_iff hbound (.inr habsent)] at hnothing
  have happended : hostAppends m.service.journal (uncheckedAttempts .controller runTurn oneTurn) =
      j₂ := by
    show (m.service.journal.appendPatch Replicas.turnPatch ⟨.ok 8, .done⟩).1 = j₂
    rw [hsame, hturn]
  rw [happended, hsame, hcoherent.recordList, hr.coherent.recordList] at hnothing
  cases hnothing

end Omp2.Server.Network
