import Omp2.State.Dom

/-!
# Roles, permissions and server errors

The actors of `omp-server/src/role.rs`, what each role may do, and the errors of `error.rs`.
-/

namespace Omp2.Server

open Omp2.State

/-- `ActorRole`. -/
inductive ActorRole where
  | controller | interactiveDriver | spectator | subagentInspector | automationWorker
deriving DecidableEq, Repr

/-- `Permission`. -/
inductive Permission where
  | readSnapshot | subscribePatches | submitCommand | approve | signalJob | changeConVar
  | writeWorkspace | submitPatch | manageSession | accessArtifact | attachSubagent
deriving DecidableEq, Repr

/-- The `Debug` text of a role. -/
def ActorRole.debug : ActorRole → String
  | .controller => "Controller"
  | .interactiveDriver => "InteractiveDriver"
  | .spectator => "Spectator"
  | .subagentInspector => "SubagentInspector"
  | .automationWorker => "AutomationWorker"

/-- The `Debug` text of a permission. -/
def Permission.debug : Permission → String
  | .readSnapshot => "ReadSnapshot"
  | .subscribePatches => "SubscribePatches"
  | .submitCommand => "SubmitCommand"
  | .approve => "Approve"
  | .signalJob => "SignalJob"
  | .changeConVar => "ChangeConVar"
  | .writeWorkspace => "WriteWorkspace"
  | .submitPatch => "SubmitPatch"
  | .manageSession => "ManageSession"
  | .accessArtifact => "AccessArtifact"
  | .attachSubagent => "AttachSubagent"

/-- `has_permission`. -/
def ActorRole.hasPermission : ActorRole → Permission → Bool
  | .controller, _ => true
  | .interactiveDriver, perm =>
    (perm matches .readSnapshot | .subscribePatches | .submitCommand | .approve | .signalJob
      | .changeConVar | .submitPatch | .accessArtifact | .attachSubagent)
  | .spectator, perm => (perm matches .readSnapshot | .subscribePatches | .accessArtifact)
  | .subagentInspector, perm => (perm matches .readSnapshot | .subscribePatches | .accessArtifact)
  | .automationWorker, perm =>
    (perm matches .readSnapshot | .subscribePatches | .submitCommand | .signalJob
      | .writeWorkspace | .submitPatch | .accessArtifact)

/-- `ServerError`. -/
inductive ServerError where
  | unauthorized (actor : String) (role : ActorRole) (attemptedAction : String)
  | staleBaseOffset (actual expected : UInt64)
  | offsetUnavailable (requested oldestAvailable : UInt64)
  | actorNotFound (actor : String)
  | actorAlreadyAttached (actor : String)
  | state (error : StateError)
  | execution (error : StructuredError)
  | subscriberQueueFull (actor : String)
  | subscriberLagged (droppedFrames : Nat)
  | artifactNotFound (artifact : String)
  | artifactScopeViolation (artifact actor : String)
  | commandReplayed (command : String)
  | invalidCommand (message : String)
  | invalidPatch (message : String)
  | jobNotFound (job : String)
  | handshakeFailed (message : String)
  | sessionTerminated (session : String)
  | unsupportedTransport (transport : String)
  | io (message : String)
  | wireLimit (message : String)

/-- The `Display` text of a server error. -/
def ServerError.display : ServerError → String
  | .unauthorized actor role attemptedAction =>
    s!"actor '{actor}' with role {role.debug} is unauthorized for {attemptedAction}"
  | .staleBaseOffset actual expected =>
    s!"stale base offset: provided {actual}, current authoritative offset {expected}"
  | .offsetUnavailable requested oldestAvailable =>
    s!"offset {requested} unavailable (oldest retained {oldestAvailable})"
  | .actorNotFound actor => s!"actor not found: {actor}"
  | .actorAlreadyAttached actor => s!"actor already attached: {actor}"
  | .state error => s!"underlying state error: {error.display}"
  | .execution error => s!"host execution failed: {error.display}"
  | .subscriberQueueFull actor => s!"subscriber queue full for actor: {actor}"
  | .subscriberLagged droppedFrames =>
    s!"subscriber lagged: dropped {droppedFrames} presentation frames"
  | .artifactNotFound artifact => s!"artifact not found: {artifact}"
  | .artifactScopeViolation artifact actor =>
    s!"artifact scope violation: actor '{actor}' cannot access artifact '{artifact}'"
  | .commandReplayed command => s!"command replayed or duplicated: {command}"
  | .invalidCommand message => s!"invalid command: {message}"
  | .invalidPatch message => s!"invalid patch: {message}"
  | .jobNotFound job => s!"job not found: {job}"
  | .handshakeFailed message => s!"handshake failed: {message}"
  | .sessionTerminated session => s!"session terminated: {session}"
  | .unsupportedTransport transport =>
    s!"unsupported transport '{transport}': network transport requires an external framing " ++
      "provider; use in-memory transport or local channel"
  | .io message => s!"i/o error: {message}"
  | .wireLimit message => s!"wire limit exceeded: {message}"

/-- `ServerError::structured`. -/
def ServerError.structured (e : ServerError) : StructuredError :=
  match e with
  | .unauthorized .. => .new "unauthorized" e.display false
  | .staleBaseOffset .. => .new "stale_base_offset" e.display true
  | .offsetUnavailable .. => .new "offset_unavailable" e.display false
  | .actorNotFound _ => .new "actor_not_found" e.display false
  | .actorAlreadyAttached _ => .new "actor_already_attached" e.display false
  | .state error => error.structured
  | .execution error => error
  | .subscriberQueueFull _ => .new "subscriber_queue_full" e.display true
  | .subscriberLagged _ => .new "subscriber_lagged" e.display false
  | .artifactNotFound _ => .new "artifact_not_found" e.display false
  | .artifactScopeViolation .. => .new "artifact_scope_violation" e.display false
  | .commandReplayed _ => .new "command_replayed" e.display false
  | .invalidCommand _ => .new "invalid_command" e.display false
  | .invalidPatch _ => .new "invalid_patch" e.display false
  | .jobNotFound _ => .new "job_not_found" e.display false
  | .handshakeFailed _ => .new "handshake_failed" e.display false
  | .sessionTerminated _ => .new "session_terminated" e.display false
  | .unsupportedTransport _ => .new "unsupported_transport" e.display false
  | .io _ => .new "io_error" e.display false
  | .wireLimit _ => .new "wire_size_limit" e.display false

/-- `ActorSession`, without the token, which the server never sets. -/
structure ActorSession where
  actorId : ActorId
  role : ActorRole
  capabilities : List String
  attachedAtEpochMs : UInt64

/-- `ActorSession::new` with `with_capabilities`. -/
def ActorSession.new (actorId : ActorId) (role : ActorRole) (capabilities : List String) :
    ActorSession :=
  { actorId, role, capabilities, attachedAtEpochMs := 0 }

/-- `check_permission`. -/
def ActorSession.checkPermission (actor : ActorSession) (perm : Permission) :
    Except ServerError Unit :=
  if actor.role.hasPermission perm then .ok ()
  else .error (.unauthorized actor.actorId.value actor.role perm.debug)

theorem ActorSession.checkPermission_ok {actor : ActorSession} {perm : Permission} :
    actor.checkPermission perm = .ok () ↔ actor.role.hasPermission perm = true := by
  unfold checkPermission
  by_cases h : actor.role.hasPermission perm = true
  · rw [if_pos h]
    exact iff_of_true rfl h
  · rw [if_neg h]
    exact iff_of_false (fun hok => by cases hok) h

end Omp2.Server
