import Omp2.Control.Turn

/-!
# Child hosts

`spawn_children` and `poll_children` of `omp-control/src/children.rs`. A batch journals and starts
its children one after the other, and a poll takes the finished children out of the table before it
journals their results. The preparation of a child, the threads and the appends are decided by the
outside world. The last two fields of the host are its history, which no function reads.
-/

namespace Omp2.Control

open Omp2.Json Omp2.State

/-! ## The table of children -/

/-- What a child ends with, before it is written as a value. -/
structure Ending where
  error : Option StructuredError
  text : String
  diff : Option Value
  workspace : Value
  journal : String
  offset : UInt64

/-- The status with which a child ends. -/
def Ending.status (ending : Ending) : String :=
  match ending.error with
  | none => "succeeded"
  | some e => if e.code = "cancelled" then "cancelled" else "failed"

/-- The value that the thread of a child sends. -/
def Ending.payload (ending : Ending) : Value :=
  .object [("status", .string ending.status), ("result", .string ending.text),
    ("error", (ending.error.map errorValue).getD .null), ("diff", ending.diff.getD .null),
    ("workspace", ending.workspace), ("journal", .string ending.journal),
    ("offset", .number (.posInt ending.offset))]

/-- The channel of a child: its thread runs, has sent, or has ended and left nothing. -/
inductive ChildResult where
  | running
  | sent (result : Except StructuredError Value)
  | disconnected

/-- The error of a child whose channel is closed. -/
def childDisconnected : StructuredError :=
  .new "child_disconnected" "Child host ended without a result" false

/-- What `try_recv` yields, with the closed channel as an error. -/
def ChildResult.received : ChildResult → Option (Except StructuredError Value)
  | .running => none
  | .sent result => some result
  | .disconnected => some (.error childDisconnected)

/-- The channel after `try_recv`. -/
def ChildResult.drained : ChildResult → ChildResult
  | .running => .running
  | .sent _ | .disconnected => .disconnected

/-- `ChildHandle`. -/
structure ChildHandle where
  cancel : Bool
  result : ChildResult

/-- A settlement that the journal has taken, with the element as it was left. -/
structure Settlement where
  id : ElementId
  result : Except StructuredError Value
  element : Option ElementSnapshot

/-- The part of `SessionHost` that runs children, with the ends and the settlements so far. -/
structure ParentHost where
  owner : ActorId
  journal : Journal
  children : Std.ExtTreeMap ElementId ChildHandle
  due : List (ElementId × Except StructuredError Value)
  settlements : List Settlement

/-! ## Starting children -/

/-- What the preparation of a child host has allocated and configured. -/
structure Prepared where
  workspace : Value
  journal : String
  convars : Value

/-- What is decided about one child: its identifier, its preparation, the append and its thread. -/
structure ChildWorld where
  actor : ActorId
  prepared : Except StructuredError Prepared
  outside : Journal.Outside
  thread : Except String Unit

/-- The identifier of the element of a child. -/
def ChildWorld.element (w : ChildWorld) : Except StructuredError ElementId :=
  Id.new ("actor-" ++ w.actor.value)

/-- `MAX_CHILD_CONTEXT_BYTES`. -/
def maxChildContextBytes : Nat := 64 * 1024

/-- The text of a task is present, not blank and bounded. -/
def validTask (task : Value) : Bool :=
  ((task.get "task").bind Value.asStr).any fun text =>
    !(Text.trim text).isEmpty && decide (text.utf8ByteSize ≤ 30000)

/-- The checks of `spawn_children` on its input, which give the context and the tasks. -/
def checkBatch (input : Value) (maxConcurrency : Option Int64) (active : Nat) :
    Except StructuredError (String × List Value) :=
  match (input.get "context").bind Value.asStr with
  | none => .error (.new "agent_input" "Agent context is required" false)
  | some context =>
    if maxChildContextBytes < context.utf8ByteSize then
      .error (.new "agent_input_too_large" ("Agent context is " ++ toString context.utf8ByteSize ++
        " bytes, exceeding the " ++ toString maxChildContextBytes ++ " byte child limit") false)
    else match (input.get "tasks").bind Value.asArray with
      | none => .error (.new "agent_input" "Agent tasks are required" false)
      | some tasks =>
        let max := (Max.max 1 (min 32 (maxConcurrency.getD 4).toInt)).toNat
        if tasks.isEmpty || decide (max < tasks.length + active) then
          .error (.new "agent_limit" "Batch exceeds available child concurrency" false)
        else if tasks.all validTask then .ok (context, tasks)
        else .error (.new "agent_input" "Each child requires a bounded nonempty task" false)

/-- The element of a child that has been prepared. -/
def subagentElement (element : ElementId) (owner actor : ActorId) (context : String) (task : Value)
    (prepared : Prepared) : ElementSnapshot :=
  { ElementSnapshot.new element "subagent" with
    attributes := (((∅ : Attributes).insert "actor_id" (.string actor.value)).insert "status"
      (.string "running")).insert "parent" (.string owner.value)
    payload := some (.object [("workspace", prepared.workspace),
      ("journal", .string prepared.journal), ("prompt", (task.get "task").getD .null),
      ("context", .string context), ("convars", prepared.convars)]) }

/-- The patch that journals a child. -/
def spawnPatch (owner : ActorId) (j : Journal) (e : ElementSnapshot) : Patch where
  baseOffset := j.snapshot.offset
  resultOffset := j.nextOffset
  author := .actor owner
  reason := "spawn isolated child host"
  ops := [.create (staticId "actors")
    (UInt32.ofNat (j.snapshot.children (staticId "actors")).length) e]

/-- The reply to a batch that has been started. -/
def spawnReply (ids : List ElementId) : ToolExecutionResult :=
  ⟨⟨"\n".intercalate (ids.map fun id => "agent://" ++ id.value), none, false, .text⟩, [], none, []⟩

namespace ParentHost

variable [SerdeJson]

/-- One round of the loop in `spawn_children`. -/
def spawnChild (host : ParentHost) (context : String) (task : Value) (w : ChildWorld) :
    ParentHost × Except StructuredError ElementId :=
  match w.element with
  | .error e => (host, .error e)
  | .ok element =>
    match w.prepared with
    | .error e => (host, .error e)
    | .ok prepared =>
      let e := subagentElement element host.owner w.actor context task prepared
      match host.journal.appendPatch (spawnPatch host.owner host.journal e) w.outside with
      | (journal, .error e) => ({ host with journal }, .error e.structured)
      | (journal, .ok _) =>
        match w.thread with
        | .error message => ({ host with journal }, .error (.new "child_spawn" message false))
        | .ok () =>
          ({ host with journal, children := host.children.insert element ⟨false, .running⟩ },
            .ok element)

/-- The loop of `spawn_children`. -/
def spawnAll (context : String) (worlds : Nat → ChildWorld) :
    ParentHost → Nat → List Value → ParentHost × Except StructuredError (List ElementId)
  | host, _, [] => (host, .ok [])
  | host, n, task :: rest =>
    match host.spawnChild context task (worlds n) with
    | (host, .error e) => (host, .error e)
    | (host, .ok id) =>
      match spawnAll context worlds host (n + 1) rest with
      | (host, .error e) => (host, .error e)
      | (host, .ok ids) => (host, .ok (id :: ids))

/-- `spawn_children`. -/
def spawnChildren (host : ParentHost) (input : Value) (maxConcurrency : Option Int64)
    (worlds : Nat → ChildWorld) : ParentHost × Except StructuredError ToolExecutionResult :=
  match checkBatch input maxConcurrency host.children.size with
  | .error e => (host, .error e)
  | .ok (context, tasks) =>
    match spawnAll context worlds host 0 tasks with
    | (host, .error e) => (host, .error e)
    | (host, .ok ids) => (host, .ok (spawnReply ids))

end ParentHost

/-! ## Settling children -/

/-- `truncate_settle_text`. -/
def truncateSettleText (text : String) (maxBytes : Nat) : String :=
  if text.utf8ByteSize ≤ maxBytes then text else Text.truncate text maxBytes

/-- The payload of a result: what the child has sent, or its error. -/
def resultPayload : Except StructuredError Value → Value
  | .ok value => value
  | .error e => .object [("status", .string "failed"), ("error", errorValue e)]

/-- The status that a settlement writes. -/
def settledStatus (payload : Value) : String :=
  ((payload.get "status").bind Value.asStr).getD "failed"

/-- The text that a settlement writes. -/
def settledText (payload : Value) : String :=
  truncateSettleText (((payload.get "result").bind Value.asStr).getD "") (64 * 1024)

/-- The payload that a settlement writes, without the workspace and the path of the journal. -/
def redactedPayload (payload : Value) : Value :=
  .object [("status", (payload.get "status").getD .null), ("result", .string (settledText payload)),
    ("error", (payload.get "error").getD .null), ("diff", (payload.get "diff").getD .null),
    ("offset", (payload.get "offset").getD .null)]

/-- The operations that settle a child. -/
def settleChildOps (id : ElementId) (payload : Value) : List PatchOp :=
  [.setAttribute id "status" (.string (settledStatus payload)),
    .replaceText id (settledText payload), .replacePayload id (redactedPayload payload)]

/-- The patch that settles a child. -/
def settleChildPatch (owner : ActorId) (j : Journal) (id : ElementId)
    (result : Except StructuredError Value) : Patch where
  baseOffset := j.snapshot.offset
  resultOffset := j.nextOffset
  author := .actor owner
  reason := "settle child host"
  ops := settleChildOps id (resultPayload result)

namespace ParentHost

/-- The children with a result, in the order of their identifiers. -/
def completed (host : ParentHost) : List (ElementId × Except StructuredError Value) :=
  host.children.toList.filterMap fun entry => entry.2.result.received.map (entry.1, ·)

/-- The table after the first loop of `poll_children`. -/
def observed (host : ParentHost) : ParentHost :=
  { host with children := host.children.map fun id child =>
      ⟨child.cancel || (host.journal.snapshot.element id).isNone, child.result.drained⟩ }

variable [SerdeJson]

/-- One round of the second loop of `poll_children`. -/
def settleChild (host : ParentHost) (id : ElementId) (result : Except StructuredError Value)
    (outside : Journal.Outside) : ParentHost × Except StructuredError Unit :=
  let host := { host with children := host.children.erase id }
  if (host.journal.snapshot.element id).isNone then (host, .ok ())
  else match host.journal.appendPatch (settleChildPatch host.owner host.journal id result) outside with
    | (journal, .error e) => ({ host with journal }, .error e.structured)
    | (journal, .ok _) =>
      ({ host with journal, settlements :=
          host.settlements ++ [⟨id, result, journal.snapshot.element id⟩] }, .ok ())

/-- The second loop of `poll_children`, which the first failure ends. -/
def settleAll (outside : ElementId → Journal.Outside) :
    ParentHost → List (ElementId × Except StructuredError Value) →
      ParentHost × Except StructuredError Unit
  | host, [] => (host, .ok ())
  | host, (id, result) :: rest =>
    match host.settleChild id result (outside id) with
    | (host, .error e) => (host, .error e)
    | (host, .ok ()) => settleAll outside host rest

/-- `poll_children`. -/
def pollChildren (host : ParentHost) (outside : ElementId → Journal.Outside) :
    ParentHost × Except StructuredError Unit :=
  settleAll outside host.observed host.completed

end ParentHost

/-! ## Runs of a host with children -/

/-- What happens to a host and its children. -/
inductive ChildEvent where
  | spawn (input : Value) (maxConcurrency : Option Int64) (worlds : Nat → ChildWorld)
  | finish (id : ElementId) (ending : Ending)
  | crash (id : ElementId)
  | cancel (id : ElementId)
  | poll (outside : ElementId → Journal.Outside)
  | journal (call : Journal.Call)

namespace ParentHost

/-- A host without children. -/
def new (owner : ActorId) (journal : Journal) : ParentHost :=
  ⟨owner, journal, ∅, [], []⟩

/-- The thread of a running child ends and leaves its channel as given. -/
def conclude (host : ParentHost) (id : ElementId) (last : ChildResult) : ParentHost :=
  match host.children[id]? with
  | some ⟨cancel, .running⟩ =>
    { host with
      children := host.children.insert id ⟨cancel, last⟩
      due := if (host.journal.snapshot.element id).isSome then
        host.due ++ (last.received.map (id, ·)).toList else host.due }
  | _ => host

variable [SerdeJson]

/-- The host after one event. -/
def step (host : ParentHost) : ChildEvent → ParentHost
  | .spawn input maxConcurrency worlds => (host.spawnChildren input maxConcurrency worlds).1
  | .finish id ending => host.conclude id (.sent (.ok ending.payload))
  | .crash id => host.conclude id .disconnected
  | .cancel id =>
    { host with children := host.children.modify id fun child => { child with cancel := true } }
  | .poll outside => (host.pollChildren outside).1
  | .journal call => { host with journal := host.journal.step call }

end ParentHost

end Omp2.Control
