import Omp2.Server.Replication
import Omp2.State.Journal

/-!
# The session service

`ServerSessionService` from `omp-server/src/service.rs`: the journal of a session, the attached
actors and the queues of the subscribers. Every operation checks the role of the caller in the
table of attached actors; the mutating ones append a patch and most of them publish it to the
queues. Minted identifiers and what the outside world decides about an append are arguments, and
so is what the session host does during a request that runs it.
-/

namespace Omp2.Server

open Omp2.Json Omp2.State

/-- `ArtifactScopeSpec`. -/
inductive ArtifactScopeSpec where
  | session
  | global
  | actor (id : ActorId)
  | job (id : JobId)
deriving DecidableEq

/-- `ArtifactRecord`. -/
structure ArtifactRecord where
  id : ArtifactId
  originActor : ActorId
  mediaType : String
  sizeBytes : UInt64
  scope : ArtifactScopeSpec
  allowedActors : Option (List ActorId)

/-- `HandshakeRequest`, without the token, which the transport has checked. -/
structure HandshakeRequest where
  protocolVersion : ProtocolVersion
  actorId : ActorId
  requestedRole : ActorRole
  capabilities : List String

/-- `HandshakeResponse`. -/
structure HandshakeResponse where
  protocolVersion : ProtocolVersion
  sessionId : SessionId
  currentOffset : UInt64
  grantedRole : ActorRole
  capabilities : List String

/-- `ServerSessionService`. -/
structure ServerSessionService where
  sessionId : SessionId
  journal : Journal
  actors : Std.ExtTreeMap ActorId ActorSession
  subscribers : Std.ExtTreeMap ActorId SubscriberQueue
  seenCommandIds : Std.ExtTreeSet String
  defaultQueueCapacity : Nat
  terminated : Bool

/-- What the session host does during a request: the patches it tries to append, one after the
other, and its result. -/
structure HostRun (α : Type) where
  attempts : List (Patch × Journal.Outside)
  result : Except StructuredError α

/-- `ProtocolVersion::negotiate`, with the host's version as the first one. -/
def negotiate (host peer : ProtocolVersion) (advertised required : List String) :
    Except StructuredError Unit :=
  if host.major ≠ peer.major then
    .error (.new "protocol_major_mismatch" "Protocol major versions differ" false)
  else if ¬ required.all advertised.contains then
    .error (.new "protocol_missing_feature" "Peer does not advertise every required feature" false)
  else .ok ()

variable [SerdeJson]

/-- The derived `Serialize` of `ArtifactScopeSpec`. -/
def ArtifactScopeSpec.serialize : ArtifactScopeSpec → Value
  | .session => .string "Session"
  | .global => .string "Global"
  | .actor id => .object [("Actor", toValue id)]
  | .job id => .object [("Job", toValue id)]

/-- The derived `Deserialize` of `ArtifactScopeSpec`. -/
def ArtifactScopeSpec.deserialize (value : Value) : Except String ArtifactScopeSpec := do
  match ← readVariant value with
  | ("Session", none) | ("Session", some .null) => return .session
  | ("Global", none) | ("Global", some .null) => return .global
  | ("Actor", some value) => return .actor (← fromValue value)
  | ("Job", some value) => return .job (← fromValue value)
  | _ => .error "unknown variant"

instance : Serde ArtifactScopeSpec where
  toValue := ArtifactScopeSpec.serialize
  fromValue := ArtifactScopeSpec.deserialize

/-- The derived `Serialize` of `ArtifactRecord`, with the keys in the order of a map. -/
def ArtifactRecord.serialize (r : ArtifactRecord) : Value :=
  .object [("allowed_actors", toValue r.allowedActors), ("id", toValue r.id),
    ("media_type", toValue r.mediaType), ("origin_actor", toValue r.originActor),
    ("scope", toValue r.scope), ("size_bytes", toValue r.sizeBytes)]

/-- The derived `Deserialize` of `ArtifactRecord`. -/
def ArtifactRecord.deserialize (value : Value) : Except String ArtifactRecord := do
  let fields ← readOpenRecord
    ["id", "origin_actor", "media_type", "size_bytes", "scope", "allowed_actors"] value
  return {
    id := ← field fields "id"
    originActor := ← field fields "origin_actor"
    mediaType := ← field fields "media_type"
    sizeBytes := ← field fields "size_bytes"
    scope := ← field fields "scope"
    allowedActors := ← field fields "allowed_actors" }

instance : Serde ArtifactRecord where
  toValue := ArtifactRecord.serialize
  fromValue := ArtifactRecord.deserialize

/-- Whether an attribute of an element is a string with this text. -/
def hasText (element : ElementSnapshot) (name text : String) : Bool :=
  match element.attributes[name]? with
  | some (.string value) => value = text
  | _ => false

namespace ServerSessionService

/-- The command id that an operation records in a receipt. -/
def receiptId : PatchOp → Option String
  | .create _ _ element =>
    if element.kind = "command_receipt" then
      match element.attributes["command_id"]? with
      | some (.string id) => some id
      | _ => none
    else none
  | _ => none

/-- `new`. -/
def new (journal : Journal) : ServerSessionService :=
  { sessionId := journal.snapshot.sessionId
    journal
    actors := ∅
    subscribers := ∅
    seenCommandIds := (journal.recordList.flatMap fun r => r.patch.ops.filterMap receiptId).foldl
      (fun ids id => ids.insert id) ∅
    defaultQueueCapacity := 128
    terminated := false }

/-- `current_offset`. -/
def currentOffset (s : ServerSessionService) : UInt64 :=
  s.journal.snapshot.offset

/-! ## Publishing -/

/-- Push a message into the queue of every subscriber; overflow marks the queue for a resync. -/
def broadcast (s : ServerSessionService) (message : ReplicationMessage) : ServerSessionService :=
  { s with subscribers := s.subscribers.map fun _ q => (q.push message).1 }

/-- `submit_patch_internal`. -/
def submitPatchInternal (s : ServerSessionService) (patch : Patch) (world : Journal.Outside) :
    ServerSessionService × Except ServerError UInt64 :=
  match s.journal.appendPatch patch world with
  | (journal, .error e) => ({ s with journal }, .error (.state e))
  | (journal, .ok offset) => ({ s with journal }.broadcast (.patch patch), .ok offset)

/-- `replicate`. -/
def replicate (s : ServerSessionService) (sinceOffset : UInt64) : ServerSessionService :=
  (s.journal.recordList.filter fun r => sinceOffset < r.offset).foldl
    (fun s r => s.broadcast (.patch r.patch)) s

/-- Append a patch and replicate what it added. -/
def appendAndReplicate (s : ServerSessionService) (patch : Patch) (world : Journal.Outside) :
    ServerSessionService × Except ServerError Unit :=
  match s.journal.appendPatch patch world with
  | (journal, .error e) => ({ s with journal }, .error (.state e))
  | (journal, .ok _) => ({ s with journal }.replicate s.currentOffset, .ok ())

/-- The journal after the appends of the host. -/
def hostAppends (j : Journal) (attempts : List (Patch × Journal.Outside)) : Journal :=
  attempts.foldl (fun j attempt => (j.appendPatch attempt.1 attempt.2).1) j

/-- Run the host on the journal and replicate what it has appended when it succeeds. -/
def runHost {α : Type} (s : ServerSessionService) (run : HostRun α) :
    ServerSessionService × Except StructuredError α :=
  let start := s.currentOffset
  let s := { s with journal := hostAppends s.journal run.attempts }
  match run.result with
  | .error e => (s, .error e)
  | .ok result => (s.replicate start, .ok result)

/-- `publish_presentation`. -/
def publishPresentation (s : ServerSessionService) (viewId : String) (payload : Value) :
    ServerSessionService :=
  s.broadcast (.presentation viewId payload)

/-! ## Actors -/

/-- `get_actor`. -/
def getActor (s : ServerSessionService) (actorId : ActorId) : Except ServerError ActorSession :=
  match s.actors[actorId]? with
  | some actor => .ok actor
  | none => .error (.actorNotFound actorId.value)

/-- The check with which reading operations start: the caller is attached and its role has the
permission. -/
def authorize (s : ServerSessionService) (actorId : ActorId) (perm : Permission) :
    Except ServerError ActorSession := do
  let actor ← s.getActor actorId
  actor.checkPermission perm
  return actor

/-- The check with which mutating operations start. -/
def authorizeChange (s : ServerSessionService) (actorId : ActorId) (perm : Permission) :
    Except ServerError ActorSession :=
  if s.terminated then .error (.sessionTerminated s.sessionId.value)
  else s.authorize actorId perm

/-- The patch that continues the live snapshot with some operations. -/
def nextPatch (s : ServerSessionService) (author : ActorId) (reason : String)
    (ops : List PatchOp) : Patch :=
  { baseOffset := s.currentOffset, resultOffset := s.journal.nextOffset
    author := .actor author, reason, ops }

/-- The operation that adds an element at the end of a container. -/
def createLast (s : ServerSessionService) (container : ElementId) (element : ElementSnapshot) :
    PatchOp :=
  .create container (.ofNat (s.journal.snapshot.children container).length) element

/-- The element id of a text, or a minted one when the text is no id. -/
def elementIdOr (text : String) (minted : ElementId) : ElementId :=
  match Id.new text with
  | .ok id => id
  | .error _ => minted

/-- Whether an element of the `actors` container records an actor. -/
def recordsActor (actorId : ActorId) (element : ElementSnapshot) : Bool :=
  element.id.value = "actor-" ++ actorId.value || hasText element "actor_id" actorId.value

/-- The element that records an actor. -/
def actorElement (actor : ActorSession) (minted : ElementId) : ElementSnapshot :=
  let element := ElementSnapshot.new (elementIdOr ("actor-" ++ actor.actorId.value) minted) "actor"
  let attributes := element.attributes.insert "actor_id" (.string actor.actorId.value)
  let attributes := attributes.insert "role" (.string actor.role.debug)
  { element with attributes :=
      attributes.insert "attached_at_epoch_ms" (.integer actor.attachedAtEpochMs.toInt64) }

/-- `attach_actor`. -/
def attachActor (s : ServerSessionService) (actor : ActorSession) (minted : ElementId)
    (world : Journal.Outside) : ServerSessionService × Except ServerError Unit :=
  if s.actors.contains actor.actorId then
    (s, .error (.actorAlreadyAttached actor.actorId.value))
  else
    let container := staticId "actors"
    let attach (s : ServerSessionService) : ServerSessionService :=
      { s with actors := s.actors.insert actor.actorId actor }
    if (s.journal.snapshot.children container).any (recordsActor actor.actorId) ∨ s.terminated then
      (attach s, .ok ())
    else
      let patch := s.nextPatch actor.actorId "attach actor"
        [s.createLast container (actorElement actor minted)]
      match s.submitPatchInternal patch world with
      | (s, .error e) => (s, .error e)
      | (s, .ok _) => (attach s, .ok ())

/-- `handshake`. -/
def handshake (s : ServerSessionService) (req : HandshakeRequest) (minted : ElementId)
    (world : Journal.Outside) : ServerSessionService × Except ServerError HandshakeResponse :=
  match negotiate .current req.protocolVersion req.capabilities [journalFormat] with
  | .error e => (s, .error (.handshakeFailed e.display))
  | .ok () =>
    let session := ActorSession.new req.actorId req.requestedRole req.capabilities
    match s.attachActor session minted world with
    | (s, .error e) => (s, .error e)
    | (s, .ok ()) =>
      (s, .ok {
        protocolVersion := .current
        sessionId := s.sessionId
        currentOffset := s.currentOffset
        grantedRole := session.role
        capabilities := session.capabilities })

/-- `detach_actor`. -/
def detachActor (s : ServerSessionService) (callerId targetActor : ActorId) :
    ServerSessionService × Except ServerError Unit :=
  let checked : Except ServerError Unit :=
    if callerId = targetActor then .ok ()
    else (s.authorize callerId .manageSession).map fun _ => ()
  match checked with
  | .error e => (s, .error e)
  | .ok () =>
    ({ s with actors := s.actors.erase targetActor, subscribers := s.subscribers.erase targetActor },
      .ok ())

/-! ## Reading -/

/-- `get_snapshot`. -/
def getSnapshot (s : ServerSessionService) (actorId : ActorId) (offset : Option UInt64) :
    Except ServerError SessionSnapshot :=
  match s.authorize actorId .readSnapshot with
  | .error e => .error e
  | .ok _ =>
    match offset with
    | none => .ok s.journal.snapshot
    | some off =>
      if s.journal.latestOffset < off then .error (.offsetUnavailable off 0)
      else match s.journal.materialize off with
        | .error e => .error (.state e)
        | .ok snapshot => .ok snapshot

/-- `subscribe`. -/
def subscribe (s : ServerSessionService) (actorId : ActorId) (lastOffset : Option UInt64)
    (capacityOverride : Option Nat) :
    ServerSessionService × Except ServerError ReplicationMessage :=
  match s.authorize actorId .subscribePatches with
  | .error e => (s, .error e)
  | .ok actor =>
    let capacity := capacityOverride.getD s.defaultQueueCapacity
    let current := s.currentOffset
    let queue := SubscriberQueue.new actorId actor.role (lastOffset.getD 0) capacity
    let register (queue : SubscriberQueue) : ServerSessionService :=
      { s with subscribers := s.subscribers.insert actorId queue }
    let resync : ReplicationMessage := .resync s.journal.snapshot current
    match lastOffset with
    | none => (register queue, .ok resync)
    | some offset =>
      if current < offset then (register queue, .ok resync)
      else
        let oldestAvailable := (s.journal.recordList.head?.map JournalRecord.offset).getD 0
        if offset < oldestAvailable ∧ 0 < offset then (register queue, .ok resync)
        else
          let missing := s.journal.recordList.filter fun r => offset < r.offset
          (register (queue.pushAll (missing.map fun r => .patch r.patch)),
            .ok (.heartbeat 0 current))

/-- `poll_subscriber`. -/
def pollSubscriber (s : ServerSessionService) (actorId : ActorId) :
    ServerSessionService × Option ReplicationMessage :=
  match s.subscribers[actorId]? with
  | none => (s, none)
  | some q =>
    if q.needsResync then
      ({ s with subscribers := s.subscribers.insert actorId { q with needsResync := false } },
        some (.resync s.journal.snapshot s.currentOffset))
    else
      match q.pop with
      | (message, q) => ({ s with subscribers := s.subscribers.insert actorId q }, message)

/-- `parse_artifact_from_element`. -/
def parseArtifactFromElement (element : ElementSnapshot) (artifactId : ArtifactId) :
    ArtifactRecord :=
  let text (name : String) : Option String :=
    match element.attributes[name]? with
    | some (.string text) => some text
    | _ => none
  let scope (text : String) : Option ArtifactScopeSpec :=
    if text = "Global" then some .global
    else if text = "Session" then some .session
    else match Text.stripPrefix text "Actor:" with
      | some rest => (Id.new rest).toOption.map .actor
      | none =>
        match Text.stripPrefix text "Job:" with
        | some rest => (Id.new rest).toOption.map .job
        | none => none
  { id := artifactId
    originActor := ((text "origin_actor").bind fun id => (Id.new id).toOption).getD
      ⟨"unknown", Eq.refl true⟩
    mediaType := (text "media_type").getD "application/octet-stream"
    sizeBytes := match element.attributes["size_bytes"]? with
      | some (.integer n) => n.toUInt64
      | _ => 0
    scope := ((text "scope").bind scope).getD .session
    allowedActors := none }

/-- Whether an element of the `artifacts` container holds an artifact. -/
def holdsArtifact (artifactId : ArtifactId) (element : ElementSnapshot) : Bool :=
  element.id.value = "artifact-" ++ artifactId.value ||
    hasText element "artifact_id" artifactId.value ||
    ((element.payload.bind fun payload => payload.get "id").bind Value.asStr) = some artifactId.value

/-- `extract_artifact_from_snapshot`. -/
def extractArtifactFromSnapshot (snapshot : SessionSnapshot) (actor : ActorSession)
    (artifactId : ArtifactId) : Except ServerError ArtifactRecord :=
  match (snapshot.children (staticId "artifacts")).find? (holdsArtifact artifactId) with
  | none => .error (.artifactNotFound artifactId.value)
  | some element =>
    let record := match element.payload.map (fromValue (α := ArtifactRecord)) with
      | some (.ok record) => record
      | _ => parseArtifactFromElement element artifactId
    let violation := ServerError.artifactScopeViolation artifactId.value actor.actorId.value
    if actor.role = .controller then .ok record
    else if (record.allowedActors.map fun allowed => allowed.contains actor.actorId) = some false then
      .error violation
    else match record.scope with
      | .actor expected => if expected = actor.actorId then .ok record else .error violation
      | .global | .session | .job _ => .ok record

/-- `get_artifact`. -/
def getArtifact (s : ServerSessionService) (actorId : ActorId) (artifactId : ArtifactId) :
    Except ServerError ArtifactRecord := do
  let actor ← s.authorize actorId .accessArtifact
  extractArtifactFromSnapshot s.journal.snapshot actor artifactId

/-- `get_artifact_at`. -/
def getArtifactAt (s : ServerSessionService) (actorId : ActorId) (artifactId : ArtifactId)
    (offset : UInt64) : Except ServerError ArtifactRecord := do
  let actor ← s.authorize actorId .accessArtifact
  let snapshot ← s.getSnapshot actorId (some offset)
  extractArtifactFromSnapshot snapshot actor artifactId

/-! ## Changing the session -/

/-- `submit_patch`. -/
def submitPatch (s : ServerSessionService) (actorId : ActorId) (patch : Patch)
    (world : Journal.Outside) : ServerSessionService × Except ServerError UInt64 :=
  match s.authorizeChange actorId .submitPatch with
  | .error e => (s, .error e)
  | .ok _ =>
    if patch.baseOffset ≠ s.currentOffset then
      (s, .error (.staleBaseOffset patch.baseOffset s.currentOffset))
    else match patch.validate with
      | .error e => (s, .error (.invalidPatch e.display))
      | .ok () => s.submitPatchInternal { patch with author := .actor actorId } world

/-- The receipt of an accepted command. -/
def receiptElement (commandId : String) (minted : ElementId) : ElementSnapshot :=
  let receipt := ElementSnapshot.new minted "command_receipt"
  { receipt with attributes := receipt.attributes.insert "command_id" (.string commandId) }

/-- `submit_command`. -/
def submitCommand (s : ServerSessionService) (actorId : ActorId) (commandId : String)
    (minted : ElementId) (world : Journal.Outside) :
    ServerSessionService × Except ServerError Unit :=
  match s.authorizeChange actorId .submitCommand with
  | .error e => (s, .error e)
  | .ok _ =>
    let trimmedId := Text.trim commandId
    if trimmedId.isEmpty ∨ 128 < trimmedId.utf8ByteSize then
      (s, .error (.invalidCommand "command_id must contain 1–128 bytes"))
    else if s.seenCommandIds.contains trimmedId then (s, .error (.commandReplayed trimmedId))
    else
      let patch := s.nextPatch actorId "accept command"
        [s.createLast (staticId "meta") (receiptElement trimmedId minted)]
      match s.submitPatchInternal patch world with
      | (s, .error e) => (s, .error e)
      | (s, .ok _) => ({ s with seenCommandIds := s.seenCommandIds.insert trimmedId }, .ok ())

/-- The request `execute_command`: once the command is accepted, the host carries it out. -/
def executeCommand (s : ServerSessionService) (actorId : ActorId) (commandId : String)
    (minted : ElementId) (world : Journal.Outside) (run : HostRun Unit) :
    ServerSessionService × Except ServerError (Except StructuredError Unit) :=
  match s.submitCommand actorId commandId minted world with
  | (s, .error e) => (s, .error e)
  | (s, .ok ()) =>
    match s.runHost run with
    | (s, result) => (s, .ok result)

/-- `change_convar`. -/
def changeConvar (s : ServerSessionService) (actorId : ActorId) (name : String)
    (value : TypedValue) (world : Journal.Outside) :
    ServerSessionService × Except ServerError UInt64 :=
  match s.authorizeChange actorId .changeConVar with
  | .error e => (s, .error e)
  | .ok _ =>
    let trimmedName := Text.trim name
    if trimmedName.isEmpty then (s, .error (.invalidCommand "convar name cannot be empty"))
    else s.submitPatchInternal (s.nextPatch actorId s!"change convar {trimmedName}"
      [.setAttribute (staticId "convars") trimmedName value]) world

/-- The element of a pending approval request. -/
def approvalElement (id : ElementId) (requester : ActorId) (requestId description : String) :
    ElementSnapshot :=
  let node := ElementSnapshot.new id "approval"
  { node with
    attributes := node.attributes.insert "status" (.string "pending")
    payload := some (.object [("action_description", .string description), ("approved", .null),
      ("request_id", .string requestId), ("requested_by", toValue requester)]) }

/-- `request_approval`. -/
def requestApproval (s : ServerSessionService) (requester : ActorId)
    (requestId actionDescription : String) (world : Journal.Outside) :
    ServerSessionService × Except ServerError Unit :=
  match s.authorizeChange requester .submitCommand with
  | .error e => (s, .error e)
  | .ok _ =>
    let trimmedId := Text.trim requestId
    if trimmedId.isEmpty then (s, .error (.invalidCommand "request_id cannot be empty"))
    else match Id.new trimmedId with
      | .error e => (s, .error (.invalidCommand e.display))
      | .ok id =>
        s.appendAndReplicate (s.nextPatch requester "request approval"
          [s.createLast (staticId "approvals")
            (approvalElement id requester trimmedId actionDescription)]) world

/-- `resolve_approval`. -/
def resolveApproval (s : ServerSessionService) (actorId : ActorId) (requestId : String)
    (decision : Bool) (world : Journal.Outside) :
    ServerSessionService × Except ServerError Unit :=
  match s.authorizeChange actorId .approve with
  | .error e => (s, .error e)
  | .ok _ =>
    match Id.new requestId with
    | .error e => (s, .error (.invalidCommand e.display))
    | .ok id =>
      match (s.journal.snapshot.children (staticId "approvals")).find? fun node => node.id = id with
      | none => (s, .error (.invalidCommand "Approval request not found"))
      | some node =>
        if ¬ hasText node "status" "pending" then
          (s, .error (.invalidCommand "Approval already resolved"))
        else
          s.appendAndReplicate (s.nextPatch actorId "resolve approval"
            [.setAttribute id "status" (.string (if decision then "approved" else "denied")),
              .setAttribute id "approved" (.bool decision)]) world

/-- `signal_job`. -/
def signalJob (s : ServerSessionService) (actorId : ActorId) (jobId : JobId) (signal : String)
    (world : Journal.Outside) : ServerSessionService × Except ServerError Unit :=
  match s.authorizeChange actorId .signalJob with
  | .error e => (s, .error e)
  | .ok _ =>
    if signal ∉ ["interrupt", "terminate", "kill", "SIGINT", "SIGTERM", "SIGKILL"] then
      (s, .error (.invalidCommand "Unsupported job signal"))
    else match Id.new ("job-" ++ jobId.value) with
      | .error e => (s, .error (.invalidCommand e.display))
      | .ok id =>
        if s.journal.snapshot.activeJobs.any fun job => job.id = id then
          s.appendAndReplicate (s.nextPatch actorId "request job signal"
            [.setAttribute id "requested_signal" (.string signal)]) world
        else (s, .error (.jobNotFound jobId.value))

/-- The text that records the scope of an artifact. -/
def scopeText : ArtifactScopeSpec → String
  | .session => "Session"
  | .global => "Global"
  | .actor id => s!"Actor:{id.value}"
  | .job id => s!"Job:{id.value}"

/-- The element that records an artifact. -/
def artifactElement (artifact : ArtifactRecord) (minted : ElementId) : ElementSnapshot :=
  let element := ElementSnapshot.new (elementIdOr ("artifact-" ++ artifact.id.value) minted)
    "artifact"
  let attributes := element.attributes.insert "artifact_id" (.string artifact.id.value)
  let attributes := attributes.insert "media_type" (.string artifact.mediaType)
  let attributes := attributes.insert "size_bytes" (.integer artifact.sizeBytes.toInt64)
  let attributes := attributes.insert "origin_actor" (.string artifact.originActor.value)
  { element with
    attributes := attributes.insert "scope" (.string (scopeText artifact.scope))
    payload := some (toValue artifact) }

/-- `register_artifact`. -/
def registerArtifact (s : ServerSessionService) (actorId : ActorId) (artifact : ArtifactRecord)
    (minted : ElementId) (world : Journal.Outside) :
    ServerSessionService × Except ServerError UInt64 :=
  match s.authorizeChange actorId .writeWorkspace with
  | .error e => (s, .error e)
  | .ok _ =>
    s.submitPatchInternal (s.nextPatch actorId s!"register artifact {artifact.id.value}"
      [s.createLast (staticId "artifacts") (artifactElement artifact minted)]) world

/-- `write_workspace`. -/
def writeWorkspace (s : ServerSessionService) (actorId : ActorId) (path : String)
    (run : HostRun ToolCallId) : ServerSessionService × Except ServerError Unit :=
  match s.authorizeChange actorId .writeWorkspace with
  | .error e => (s, .error e)
  | .ok _ =>
    if (Text.trim path).isEmpty then
      (s, .error (.invalidCommand "workspace path cannot be empty"))
    else match s.runHost run with
      | (s, .error e) => (s, .error (.execution e))
      | (s, .ok call) =>
        let failed := (s.journal.snapshot.getVisibleBody.find? fun node =>
          hasText node "call_id" call.value).any fun node => hasText node "status" "failed"
        if failed then
          (s, .error (.execution (.new "workspace_write_failed"
            "Write failed; inspect the journaled tool diagnostics" false)))
        else (s, .ok ())

/-- `fork_session`. -/
def forkSession (s : ServerSessionService) (actorId : ActorId) (offset : UInt64)
    (branch : BranchId) (element : ElementId) (world : Journal.Outside) :
    ServerSessionService × Except ServerError BranchId :=
  match s.authorizeChange actorId .manageSession with
  | .error e => (s, .error e)
  | .ok _ =>
    match s.journal.forkAt offset branch element world with
    | (journal, .error e) => ({ s with journal }, .error (.state e))
    | (journal, .ok branch) => ({ s with journal }, .ok branch)

/-- `rewind_session`. -/
def rewindSession (s : ServerSessionService) (actorId : ActorId) (offset : UInt64)
    (branch : BranchId) (element : ElementId) (world : Journal.Outside) :
    ServerSessionService × Except ServerError BranchId :=
  match s.authorizeChange actorId .manageSession with
  | .error e => (s, .error e)
  | .ok _ =>
    match s.journal.rewindTo offset branch element world with
    | (journal, .error e) => ({ s with journal }, .error (.state e))
    | (journal, .ok branch) => ({ s with journal }, .ok branch)

/-- `select_branch`. -/
def selectBranch (s : ServerSessionService) (actorId : ActorId) (branch : BranchId)
    (world : Journal.Outside) : ServerSessionService × Except ServerError UInt64 :=
  match s.authorizeChange actorId .manageSession with
  | .error e => (s, .error e)
  | .ok _ =>
    match s.journal.selectBranch branch world with
    | (journal, .error e) => ({ s with journal }, .error (.state e))
    | (journal, .ok offset) => ({ s with journal }, .ok offset)

/-- `terminate_session`. -/
def terminateSession (s : ServerSessionService) (actorId : ActorId) :
    ServerSessionService × Except ServerError Unit :=
  match s.authorize actorId .manageSession with
  | .error e => (s, .error e)
  | .ok _ => ({ s with terminated := true }, .ok ())

end ServerSessionService

end Omp2.Server
