import Omp2.Server.Service

/-!
# Requests on a connection

The dispatch of `handle_connection` in `omp-server/src/transport.rs`. A connection has to pass a
handshake first, which checks a token for the requested role and binds an actor and this role to
the connection; every later request is carried out for that actor. A request is the JSON tree of a
line. Frames, sockets and the JSON of the replies are left out, and so is the rendering of a
projection, whose reply holds the document and the clamped bounds.
-/

namespace Omp2.Server

open Omp2.Json Omp2.State

/-- `AuthConfig`. -/
structure AuthConfig where
  ownerToken : String
  driverToken : String
  spectatorToken : String
  subagentToken : String
  workerToken : String

/-- `validate`: the owner token allows every role, any other token its own role. -/
def AuthConfig.validate (auth : AuthConfig) (requestedRole : ActorRole)
    (providedToken : Option String) : Bool :=
  match providedToken.map Text.trim with
  | none => false
  | some token =>
    if token.isEmpty then false
    else if token = auth.ownerToken then true
    else match requestedRole with
      | .controller => false
      | .interactiveDriver => token = auth.driverToken
      | .spectator => token = auth.spectatorToken
      | .subagentInspector => token = auth.subagentToken
      | .automationWorker => token = auth.workerToken

/-- `parse_actor_role`. -/
def parseActorRole : Option String → ActorRole
  | some "controller" | some "Controller" | some "owner" => .controller
  | some "spectator" | some "Spectator" => .spectator
  | some "subagent" | some "subagent_inspector" | some "SubagentInspector" => .subagentInspector
  | some "factory_worker" | some "automation_worker" | some "AutomationWorker" => .automationWorker
  | _ => .interactiveDriver

/-- The actions of a request. -/
inductive Action where
  | getSnapshot | getProjection | subscribe | poll | resync | submitPatch | submitCommand | runTurn
  | executeTool | changeConvar | getArtifact | registerArtifact | writeWorkspace | requestApproval
  | resolveApproval | signalJob | detach | inspectActor | inspectXml | forkSession | rewindSession
  | selectBranch | shutdown
  | unknown (name : String)
deriving DecidableEq

/-- The action of a name. -/
def Action.ofName : String → Action
  | "get_snapshot" => .getSnapshot
  | "get_projection" => .getProjection
  | "subscribe" => .subscribe
  | "poll" | "poll_subscriber" => .poll
  | "resync" => .resync
  | "submit_patch" => .submitPatch
  | "submit_command" => .submitCommand
  | "run_turn" => .runTurn
  | "execute_tool" => .executeTool
  | "change_convar" => .changeConvar
  | "get_artifact" => .getArtifact
  | "register_artifact" => .registerArtifact
  | "write_workspace" => .writeWorkspace
  | "request_approval" => .requestApproval
  | "resolve_approval" => .resolveApproval
  | "signal_job" => .signalJob
  | "detach" | "detach_actor" => .detach
  | "inspect_actor" => .inspectActor
  | "inspect_xml" => .inspectXml
  | "fork_session" => .forkSession
  | "rewind_session" => .rewindSession
  | "select_branch" => .selectBranch
  | "shutdown" => .shutdown
  | name => .unknown name

/-- The reply to a request. -/
inductive Reply where
  | error (code message : String)
  | unknownAction (action : String)
  | done
  | handshake (response : HandshakeResponse)
  | snapshot (snapshot : SessionSnapshot)
  | projection (snapshot : SessionSnapshot) (width height : UInt16) (skipElements maxElements : Nat)
  | message (message : Option ReplicationMessage)
  | resync (snapshot : SessionSnapshot) (offset : UInt64)
  | offset (offset : UInt64)
  | command (commandId : String) (currentOffset : UInt64)
  | turn (currentOffset : UInt64)
  | toolCall (id : ToolCallId) (currentOffset : UInt64)
  | artifact (record : ArtifactRecord)
  | actor (session : ActorSession)
  | xml (snapshot : SessionSnapshot)
  | branch (id : BranchId)
  | shuttingDown

/-- What the outside world decides about a request: the identifiers that it mints, the clock and
the file, and what the host does in it. -/
structure Environment where
  minted : ElementId
  branch : BranchId
  world : Journal.Outside
  turn : HostRun Unit
  tool : HostRun ToolCallId

/-! ## Fields of a request -/

/-- A field that is read as a string. -/
def textField (request : Value) (name : String) : Option String :=
  (request.get name).bind Value.asStr

/-- A field that is read as a number. -/
def numberField (request : Value) (name : String) : Option UInt64 :=
  (request.get name).bind Value.asU64

/-- A field that is read as it is. -/
def valueField (request : Value) (name : String) : Value :=
  (request.get name).getD .null

/-- The action of a request. -/
def requestAction (request : Value) : String :=
  (textField request "action").getD ""

/-- The reply of the service, or its error. -/
def Reply.ofResult {α : Type} (result : Except ServerError α) (reply : α → Reply) : Reply :=
  match result with
  | .error e => .error e.structured.code e.display
  | .ok a => reply a

/-- The reply of the host, or its error. -/
def Reply.ofHost {α : Type} (result : Except StructuredError α) (reply : α → Reply) : Reply :=
  match result with
  | .error e => .error e.code e.message
  | .ok a => reply a

variable [SerdeJson]

/-- The typed value of `change_convar`. -/
def convarValue : Value → TypedValue
  | .bool b => .bool b
  | .number n =>
    match (fromValue (.number n) : Except String Int64) with
    | .ok i => .integer i
    | .error _ => .number (SerdeJson.asF64 n)
  | .string s => .string s
  | other => .json other

/-! ## The handshake -/

/-- The role that a handshake requests. -/
def requestedRole (request : Value) : ActorRole :=
  parseActorRole (textField request "role")

/-- The handshake of a connection that has not been authenticated: the service, what is bound to
the connection and the reply. -/
def handshakeRequest (auth : AuthConfig) (s : ServerSessionService) (request : Value)
    (env : Environment) : ServerSessionService × Option (ActorId × ActorRole) × Reply :=
  if requestAction request ≠ "handshake" then
    (s, none, .error "handshake_required"
      "Mandatory protocol handshake required before any other action")
  else
    let version := match request.get "protocol_version" with
      | some version => (fromValue version).toOption.getD .current
      | none => .current
    match Id.new ((textField request "actor_id").getD "client") with
    | .error e => (s, none, .error "invalid_actor_id" e.display)
    | .ok actorId =>
      let role := requestedRole request
      let token := (textField request "auth_token").map Text.trim
      if ¬ auth.validate role token then
        (s, none, .error "unauthorized"
          s!"Invalid or missing authentication token for requested role {role.debug}")
      else
        match s.handshake ⟨version, actorId, role, [journalFormat]⟩ env.minted env.world with
        | (s, .error e) => (s, none, .error "handshake_failed" e.display)
        | (s, .ok response) => (s, some (actorId, response.grantedRole), .handshake response)

/-! ## Requests of an authenticated connection -/

/-- The actor that a request names, or the one of the connection. -/
def targetActor (actorId : ActorId) (request : Value) (name : String) :
    Except StructuredError ActorId :=
  Id.new ((textField request name).getD actorId.value)

/-- Carry out a request for the actor and role that are bound to the connection. -/
def dispatch (s : ServerSessionService) (actorId : ActorId) (role : ActorRole) (request : Value)
    (env : Environment) : ServerSessionService × Reply :=
  match Action.ofName (requestAction request) with
  | .getSnapshot =>
    (s, .ofResult (s.getSnapshot actorId (numberField request "offset")) .snapshot)
  | .getProjection =>
    let width := min (max ((numberField request "width").getD 80) 1) 512
    let height := min ((numberField request "height").getD 24) 256
    let maxElements := min (max ((numberField request "max_elements").getD 256) 1) 4096
    let skipElements := (numberField request "skip_elements").getD 0
    (s, .ofResult (s.getSnapshot actorId (numberField request "offset")) fun snapshot =>
      .projection snapshot width.toUInt16 height.toUInt16 skipElements.toNat maxElements.toNat)
  | .subscribe =>
    match s.subscribe actorId (numberField request "last_offset")
        ((numberField request "capacity").map UInt64.toNat) with
    | (s, result) => (s, .ofResult result fun message => .message (some message))
  | .poll =>
    match s.pollSubscriber actorId with
    | (s, message) => (s, .message message)
  | .resync =>
    (s, .ofResult (s.getSnapshot actorId none) fun snapshot => .resync snapshot s.currentOffset)
  | .submitPatch =>
    match (fromValue (valueField request "patch") : Except String Patch) with
    | .error e => (s, .error "invalid_patch" e)
    | .ok patch =>
      if patch.author ≠ .actor actorId ∧ role ≠ .controller then
        (s, .error "unauthorized" ("Identity spoofing refused: patch author does not match " ++
          "connection authenticated actor"))
      else match s.submitPatch actorId patch env.world with
        | (s, result) => (s, .ofResult result .offset)
  | .submitCommand =>
    let commandId := Text.trim ((textField request "command_id").getD "")
    if commandId.isEmpty then (s, .error "invalid_command" "command_id cannot be empty")
    else match s.executeCommand actorId commandId env.minted env.world env.turn with
      | (s, .error e) => (s, .error e.structured.code e.display)
      | (s, .ok result) => (s, .ofHost result fun _ => .command commandId s.currentOffset)
  | .runTurn =>
    if ¬ role.hasPermission .submitCommand then
      (s, .error "unauthorized" "Actor lacks permission to run turn")
    else match s.runHost env.turn with
      | (s, result) => (s, .ofHost result fun _ => .turn s.currentOffset)
  | .executeTool =>
    if ¬ role.hasPermission .submitCommand then
      (s, .error "unauthorized" "Actor lacks permission to execute tools")
    else match s.runHost env.tool with
      | (s, result) => (s, .ofHost result fun call => .toolCall call s.currentOffset)
  | .changeConvar =>
    match s.changeConvar actorId ((textField request "name").getD "")
        (convarValue (valueField request "value")) env.world with
    | (s, result) => (s, .ofResult result .offset)
  | .getArtifact =>
    match Id.new ((textField request "artifact_id").getD "") with
    | .error e => (s, .error "invalid_artifact_id" e.display)
    | .ok artifactId =>
      match numberField request "offset" with
      | some offset => (s, .ofResult (s.getArtifactAt actorId artifactId offset) .artifact)
      | none => (s, .ofResult (s.getArtifact actorId artifactId) .artifact)
  | .registerArtifact =>
    match (fromValue (valueField request "artifact") : Except String ArtifactRecord) with
    | .error e => (s, .error "invalid_artifact_record" e)
    | .ok record =>
      match s.registerArtifact actorId record env.minted env.world with
      | (s, result) => (s, .ofResult result .offset)
  | .writeWorkspace =>
    match s.writeWorkspace actorId ((textField request "path").getD "") env.tool with
    | (s, result) => (s, .ofResult result fun _ => .done)
  | .requestApproval =>
    match s.requestApproval actorId ((textField request "request_id").getD "")
        ((textField request "action_description").getD "") env.world with
    | (s, result) => (s, .ofResult result fun _ => .done)
  | .resolveApproval =>
    let decision := match request.get "decision" with
      | some (.bool decision) => decision
      | _ => false
    match s.resolveApproval actorId ((textField request "request_id").getD "") decision
        env.world with
    | (s, result) => (s, .ofResult result fun _ => .done)
  | .signalJob =>
    match Id.new ((textField request "job_id").getD "") with
    | .error e => (s, .error "invalid_job_id" e.display)
    | .ok jobId =>
      match s.signalJob actorId jobId ((textField request "signal").getD "") env.world with
      | (s, result) => (s, .ofResult result fun _ => .done)
  | .detach =>
    match targetActor actorId request "target_actor" with
    | .error e => (s, .error "invalid_actor_id" e.display)
    | .ok target =>
      match s.detachActor actorId target with
      | (s, result) => (s, .ofResult result fun _ => .done)
  | .inspectActor =>
    match targetActor actorId request "actor_id" with
    | .error e => (s, .error "invalid_actor_id" e.display)
    | .ok target =>
      if target ≠ actorId then
        -- the role of the connection is checked here, not the one in the table
        match (ActorSession.new actorId role []).checkPermission .manageSession with
        | .error e => (s, .error e.structured.code e.display)
        | .ok () => (s, .ofResult (s.getActor target) .actor)
      else (s, .ofResult (s.getActor target) .actor)
  | .inspectXml =>
    if ¬ role.hasPermission .readSnapshot then
      (s, .error "unauthorized" "Actor lacks permission to inspect session snapshot")
    else (s, .xml s.journal.snapshot)
  | .forkSession =>
    match s.forkSession actorId ((numberField request "offset").getD 0) env.branch env.minted
        env.world with
    | (s, result) => (s, .ofResult result .branch)
  | .rewindSession =>
    match s.rewindSession actorId ((numberField request "offset").getD 0) env.branch env.minted
        env.world with
    | (s, result) => (s, .ofResult result .branch)
  | .selectBranch =>
    match Id.new ((textField request "branch_id").getD "main") with
    | .error e => (s, .error "invalid_branch_id" e.display)
    | .ok branch =>
      match s.selectBranch actorId branch env.world with
      | (s, result) => (s, .ofResult result .offset)
  | .shutdown =>
    if role ≠ .controller then
      (s, .error "unauthorized"
        (s!"Unauthorized shutdown refused: actor '{actorId.value}' with role {role.debug} is " ++
          "not authorized to shut down server"))
    else match s.terminateSession actorId with
      | (s, result) => (s, .ofResult result fun _ => .shuttingDown)
  | .unknown name => (s, .unknownAction name)

end Omp2.Server
