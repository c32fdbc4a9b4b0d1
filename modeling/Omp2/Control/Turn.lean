import Omp2.Control.Projection

/-!
# Turns of the host

`run_turn` and `execute_tool` of `omp-control/src/host.rs`, as what they append to the journal. What
the provider, the tools, the directors and the file decide are arguments, as are the identifiers
that are minted. An append without a world has not happened: the process has ended before it.
-/

namespace Omp2.Control

open Omp2.Json Omp2.State

/-- What ends a call early: the error that it returns, or the end of its process. -/
inductive Stop where
  | failed (e : StructuredError)
  | cut

/-! ## What the host appends -/

/-- `CanonicalTurn`. -/
structure CanonicalTurn where
  text : String
  thinking : Option String
  toolCalls : List ToolCallSpec
  usage : Value
  finishReason : String

/-- One spill of the stream buffers, with the identifier for a `think` element. -/
structure Flush where
  text : String
  thinking : String
  think : ElementId
  world : Option Journal.Outside

/-- What is decided about one inference: what the provider streams and returns, and the appends. -/
structure Inference where
  element : ElementId
  started : Option Journal.Outside
  flushes : List Flush
  result : Except StructuredError CanonicalTurn
  last : Flush
  diag : ElementId
  settled : Option Journal.Outside

/-- `DiagnosticSeverity`. -/
inductive DiagnosticSeverity where
  | info | warning | error
deriving DecidableEq

/-- `OutputFormat`. -/
inductive OutputFormat where
  | text | json | markdown | binary

/-- `ToolDiagnostic`. -/
structure ToolDiagnostic where
  severity : DiagnosticSeverity
  message : String
  code : Option String
  details : Option Value

/-- `ToolUsage`. -/
structure ToolUsage where
  durationMs : UInt64
  cpuTimeMs : Option UInt64
  memoryBytes : Option UInt64
  bytesRead : Option UInt64
  bytesWritten : Option UInt64

/-- `ToolOutput`. -/
structure ToolOutput where
  content : String
  payload : Option Value
  truncated : Bool
  format : OutputFormat

/-- `ToolExecutionResult`. -/
structure ToolExecutionResult where
  output : ToolOutput
  diagnostics : List ToolDiagnostic
  usage : Option ToolUsage
  artifacts : List ArtifactId

/-- A patch of another part of the host: a job, an approval, an artifact, a child host or a
director. -/
structure Work where
  patch : Patch
  world : Option Journal.Outside

/-- What is decided about one tool call: what the tool journals and returns, and the appends. -/
structure Invocation where
  mintedCall : ToolCallId
  element : ElementId
  input : ElementId
  invoked : Option Journal.Outside
  work : List Work
  execution : Except StructuredError ToolExecutionResult
  minted : Nat → ElementId
  settled : Option Journal.Outside

/-- An entry of a serialised record that is skipped when it is absent. -/
def optionalEntry (key : String) (value : Option Value) : List (String × Value) :=
  value.toList.map fun value => (key, value)

/-- The serialised `OutputFormat`. -/
def OutputFormat.toValue : OutputFormat → Value
  | .text => .string "text"
  | .json => .string "json"
  | .markdown => .string "markdown"
  | .binary => .string "binary"

/-- The serialised `DiagnosticSeverity`. -/
def DiagnosticSeverity.toValue : DiagnosticSeverity → Value
  | .info => .string "info"
  | .warning => .string "warning"
  | .error => .string "error"

/-- The serialised `ToolDiagnostic`. -/
def ToolDiagnostic.toValue (diagnostic : ToolDiagnostic) : Value :=
  .object ([("severity", diagnostic.severity.toValue), ("message", .string diagnostic.message)] ++
    optionalEntry "code" (diagnostic.code.map .string) ++
    optionalEntry "details" diagnostic.details)

/-- The serialised `ToolUsage`. -/
def ToolUsage.toValue (usage : ToolUsage) : Value :=
  let number (n : UInt64) : Value := .number (.posInt n)
  .object ([("duration_ms", number usage.durationMs)] ++
    optionalEntry "cpu_time_ms" (usage.cpuTimeMs.map number) ++
    optionalEntry "memory_bytes" (usage.memoryBytes.map number) ++
    optionalEntry "bytes_read" (usage.bytesRead.map number) ++
    optionalEntry "bytes_written" (usage.bytesWritten.map number))

/-- The serialised `StructuredError`. -/
def errorValue (e : StructuredError) : Value :=
  .object [("code", .string e.code), ("message", .string e.message), ("retryable", .bool e.retryable),
    ("diagnostics", e.diagnostics.getD .null)]

/-- The element of a message of the user. -/
def userElement (id : ElementId) (message : String) : ElementSnapshot :=
  { ElementSnapshot.new id "user" with
    attributes := (∅ : Attributes).insert "role" (.string "user")
    text := message }

/-- The element of a steering prompt. -/
def steeringElement (id : ElementId) (prompt : String) : ElementSnapshot :=
  { ElementSnapshot.new id "steering" with
    attributes := (∅ : Attributes).insert "role" (.string "system")
    text := prompt }

/-- The element of an assistant turn before anything is streamed. -/
def assistantElement (id : ElementId) : ElementSnapshot :=
  { ElementSnapshot.new id "assistant" with
    attributes := (((∅ : Attributes).insert "role" (.string "assistant")).insert "status"
      (.string "running")).insert "streaming" (.bool true) }

/-- The element of a tool call before the tool has run. -/
def toolCallElement (id : ElementId) (callId : ToolCallId) (name : String) (input : Value) :
    ElementSnapshot :=
  let intent := ((input.get "i").bind Value.asStr).getD ""
  { ElementSnapshot.new id "tool_call" with
    attributes := (((((∅ : Attributes).insert "call_id" (.string callId.value)).insert "tool"
      (.string name)).insert "version" (.string "1.0.0")).insert "status"
      (.string "running")).insert "intent" (.string intent) }

/-- The element with the input of a tool call. -/
def inputElement (id : ElementId) (input : Value) : ElementSnapshot :=
  { ElementSnapshot.new id "input" with payload := some input }

/-- The element with the error of an inference. -/
def errorElement (id : ElementId) (e : StructuredError) : ElementSnapshot :=
  { ElementSnapshot.new id "diag" with
    text := e.message
    attributes := (∅ : Attributes).insert "code" (.string e.code)
    payload := some (errorValue e) }

/-- The element with the output of a tool. -/
def resultElement (id : ElementId) (output : ToolOutput) : ElementSnapshot :=
  { ElementSnapshot.new id "result" with
    text := output.content
    payload := output.payload
    attributes := ((∅ : Attributes).insert "truncated" (.bool output.truncated)).insert "format"
      (.json output.format.toValue) }

/-- What is kept of a tool run: its result, or the error as its output. -/
def settledResult : Except StructuredError ToolExecutionResult → ToolExecutionResult
  | .ok result => result
  | .error e => ⟨⟨e.display, none, false, .text⟩, [⟨.error, e.display, some e.code, none⟩], none, []⟩

/-- The elements with which a tool call is settled. -/
def settledChildren (result : ToolExecutionResult) (minted : Nat → ElementId) :
    List ElementSnapshot :=
  let children : List (ElementId → ElementSnapshot) :=
    [fun id => resultElement id result.output] ++
    (result.diagnostics.map fun diagnostic => fun id =>
      { ElementSnapshot.new id "diag" with
        text := diagnostic.message
        payload := some diagnostic.toValue }) ++
    (result.usage.toList.map fun usage => fun id =>
      { ElementSnapshot.new id "usage" with payload := some usage.toValue }) ++
    (result.artifacts.map fun artifact => fun id =>
      { ElementSnapshot.new id "artifact_ref" with text := "artifact://" ++ artifact.value })
  children.zipIdx.map fun child => child.1 (minted child.2)

/-- The operations that settle a tool call. -/
def settleToolOps (element : ElementId) (result : ToolExecutionResult)
    (minted : Nat → ElementId) : List PatchOp :=
  let failed := result.diagnostics.any fun diagnostic => diagnostic.severity = .error
  .setAttribute element "status" (.string (if failed then "failed" else "succeeded")) ::
    (settledChildren result minted).zipIdx.map fun child =>
      .create element (UInt32.ofNat (child.2 + 1)) child.1

/-- The operations of one spill of the stream buffers. -/
def flushOps (s : SessionSnapshot) (element : ElementId) (flush : Flush) : List PatchOp :=
  (if flush.text.isEmpty then [] else [.appendText element flush.text]) ++
    if flush.thinking.isEmpty then []
    else match (s.children element).find? fun child => child.kind = "think" with
      | some child => [.appendText child.id flush.thinking]
      | none => [.create element 0
          { ElementSnapshot.new flush.think "think" with text := flush.thinking }]

/-- The operations that settle an assistant turn. -/
def settleTurnOps (s : SessionSnapshot) (id diag : ElementId) :
    Except StructuredError CanonicalTurn → List PatchOp
  | .ok turn =>
    [.setAttribute id "streaming" (.bool false)] ++
    (if (s.element id).any fun element => element.text ≠ turn.text then
      [.replaceText id turn.text] else []) ++
    [.setAttribute id "status" (.string "succeeded"),
      .setAttribute id "finish_reason" (.string turn.finishReason),
      .setAttribute id "usage" (.json turn.usage)] ++
    (turn.thinking.toList.map fun thinking => .setAttribute id "thinking" (.string thinking)) ++
    ((s.children id).filter fun child => child.kind = "think").map fun child => .delete child.id
  | .error e =>
    [.setAttribute id "streaming" (.bool false),
      .setAttribute id "status"
        (.string (if e.code = "cancelled" then "cancelled" else "failed")),
      .create id (UInt32.ofNat (s.children id).length) (errorElement diag e)]

section Appends

variable [SerdeJson]

/-- Append a patch, unless the process has ended. -/
def commitPatch (j : Journal) (patch : Patch) (world : Option Journal.Outside) :
    Journal × Except Stop Unit :=
  match world with
  | none => (j, .error .cut)
  | some world =>
    match j.appendPatch patch world with
    | (j, .error e) => (j, .error (.failed e.structured))
    | (j, .ok _) => (j, .ok ())

/-- Append a patch of the host. -/
def commit (j : Journal) (owner : ActorId) (baseOffset : UInt64) (reason : String)
    (ops : List PatchOp) (world : Option Journal.Outside) : Journal × Except Stop Unit :=
  let patch : Patch := {
    baseOffset
    resultOffset := j.nextOffset
    author := .actor owner
    reason
    ops }
  commitPatch j patch world

/-- Append an element at the end of the body. -/
def appendElement (j : Journal) (owner : ActorId) (baseOffset : UInt64) (reason : String)
    (element : ElementSnapshot) (more : List PatchOp) (world : Option Journal.Outside) :
    Journal × Except Stop Unit :=
  commit j owner baseOffset reason (.create (staticId "body")
    (UInt32.ofNat j.snapshot.getVisibleBody.length) element :: more) world

/-- `flush_stream_buffers`. -/
def flushStreamBuffers (j : Journal) (owner : ActorId) (element : ElementId) (flush : Flush) :
    Journal × Except Stop Unit :=
  if flush.text.isEmpty && flush.thinking.isEmpty then (j, .ok ())
  else commit j owner j.snapshot.offset "assistant stream delta"
    (flushOps j.snapshot element flush) flush.world

/-- The spills while the provider streams. The first that fails ends the inference. -/
def streamAll (owner : ActorId) (element : ElementId) :
    Journal → List Flush → Journal × Except Stop Unit
  | j, [] => (j, .ok ())
  | j, flush :: rest =>
    match flushStreamBuffers j owner element flush with
    | (j, .error stop) => (j, .error stop)
    | (j, .ok ()) => streamAll owner element j rest

/-- The end of `infer_assistant_turn`: the rest of the stream is spilled and the turn is settled. -/
def settleTurn (j : Journal) (owner : ActorId) (w : Inference)
    (result : Except StructuredError CanonicalTurn) : Journal × Except Stop CanonicalTurn :=
  match flushStreamBuffers j owner w.element w.last with
  | (j, .error stop) => (j, .error stop)
  | (j, .ok ()) =>
    match commit j owner j.snapshot.offset "settle assistant stream"
        (settleTurnOps j.snapshot w.element w.diag result) w.settled with
    | (j, .error stop) => (j, .error stop)
    | (j, .ok ()) => (j, result.mapError .failed)

/-- `infer_assistant_turn`. -/
def inferAssistantTurn (j : Journal) (owner : ActorId) (w : Inference) :
    Journal × Except Stop CanonicalTurn :=
  match appendElement j owner j.snapshot.offset "start assistant stream"
      (assistantElement w.element) [] w.started with
  | (j, .error stop) => (j, .error stop)
  | (j, .ok ()) =>
    match streamAll owner w.element j w.flushes with
    | (j, .error .cut) => (j, .error .cut)
    | (j, .error (.failed e)) => settleTurn j owner w (.error e)
    | (j, .ok ()) => settleTurn j owner w w.result

/-- The patches of a running part of the host, of which any may fail. -/
def workAll : Journal → List Work → Journal
  | j, [] => j
  | j, work :: rest => workAll (commitPatch j work.patch work.world).1 rest

/-- The first half of `execute_tool_inner`: the call is journaled. -/
def invokeTool (j : Journal) (owner : ActorId) (name : String) (input : Value)
    (callId : ToolCallId) (w : Invocation) : Journal × Except Stop Unit :=
  appendElement j owner j.snapshot.offset ("invoke tool " ++ name)
    (toolCallElement w.element callId name input)
    [.create w.element 0 (inputElement w.input input)] w.invoked

/-- The second half of `execute_tool_inner`: the outcome is journaled. -/
def settleTool (j : Journal) (owner : ActorId) (name : String) (w : Invocation) :
    Journal × Except Stop Unit :=
  commit j owner j.snapshot.offset ("settle tool " ++ name)
    (settleToolOps w.element (settledResult w.execution) w.minted) w.settled

/-- `execute_tool_inner`. -/
def executeToolInner (j : Journal) (owner : ActorId) (name : String) (input : Value)
    (callId : Option ToolCallId) (w : Invocation) : Journal × Except Stop ToolCallId :=
  let callId := callId.getD w.mintedCall
  match invokeTool j owner name input callId w with
  | (j, .error stop) => (j, .error stop)
  | (j, .ok ()) =>
    match settleTool (workAll j w.work) owner name w with
    | (j, .error stop) => (j, .error stop)
    | (j, .ok ()) => (j, .ok callId)

end Appends

/-! ## Calls -/

/-- A part of a call. -/
inductive Activity where
  | userMessage (id : ElementId) (message : String) (world : Option Journal.Outside)
  | steering (id : ElementId) (prompt : String) (world : Option Journal.Outside)
  | plan (config : Option CompactionConfig) (draws : Draws)
  | infer (w : Inference)
  | tool (name : String) (input : Value) (callId : Option ToolCallId) (w : Invocation)
  | work (work : Work)
  | refuse (e : StructuredError)

section Calls

variable [SerdeJson]

/-- What a part of a call does. -/
def perform (owner : ActorId) (j : Journal) : Activity → Journal × Except Stop Unit
  | .userMessage id message world =>
    appendElement j owner j.snapshot.offset "user turn" (userElement id message) [] world
  | .steering id prompt world =>
    appendElement j owner j.latestOffset "steering prompt" (steeringElement id prompt) [] world
  | .plan none _ => (j, .ok ())
  | .plan (some config) draws =>
    match Control.plan j owner config draws with
    | (j, .error e) => (j, .error (.failed e))
    | (j, .ok _) => (j, .ok ())
  | .infer w =>
    match inferAssistantTurn j owner w with
    | (j, .error stop) => (j, .error stop)
    | (j, .ok _) => (j, .ok ())
  | .tool name input callId w =>
    match executeToolInner j owner name input callId w with
    | (j, .error stop) => (j, .error stop)
    | (j, .ok _) => (j, .ok ())
  | .work work => commitPatch j work.patch work.world
  | .refuse e => (j, .error (.failed e))

/-- The parts of a call one after the other, up to the first that stops. -/
def execute (owner : ActorId) : Journal → List Activity → Journal × Except Stop Unit
  | j, [] => (j, .ok ())
  | j, activity :: rest =>
    match perform owner j activity with
    | (j, .error stop) => (j, .error stop)
    | (j, .ok ()) => execute owner j rest

end Calls

/-- What a director decides about a turn without tool calls. -/
inductive Decision where
  | done
  | continue (prompt : Option (ElementId × String × Option Journal.Outside))
  | push (director : Except StructuredError Work)
  | fail (e : StructuredError)

/-- What is decided about one round of the loop of `run_turn`. -/
structure Round where
  polled : List Work
  cancelled : Option (List Work)
  config : Option CompactionConfig
  draws : Draws
  prepared : Except StructuredError Unit
  inference : Inference
  invocation : Nat → Invocation
  yielded : Except StructuredError Unit
  synced : List Work
  decision : Decision

/-- The error of a cancelled child host. -/
def cancelledError : StructuredError :=
  .new "cancelled" "Child host cancelled by parent" false

/-- The error of a turn that has used up its rounds. -/
def stepLimitError (maxTurnSteps : Nat) : StructuredError :=
  .new "turn_step_limit_exceeded"
    s!"Agent turn exceeded maximum step budget ({maxTurnSteps})" false

/-- A check that may refuse to go on. -/
def checkpoint : Except StructuredError Unit → List Activity
  | .ok () => []
  | .error e => [.refuse e]

/-- The round up to the answer of the provider. -/
def Round.opening (round : Round) : List Activity :=
  round.polled.map .work ++
  (match round.cancelled with
    | some jobs => jobs.map .work ++ [.refuse cancelledError]
    | none => []) ++
  [.plan round.config round.draws] ++ checkpoint round.prepared ++ [.infer round.inference]

/-- The tool calls of an answer. -/
def Round.calls (round : Round) (turn : CanonicalTurn) : List Activity :=
  turn.toolCalls.zipIdx.map fun call =>
    .tool call.1.name call.1.arguments (some call.1.id) (round.invocation call.2)

/-- The rounds of the loop of `run_turn`. -/
def roundActivities (maxTurnSteps : Nat) (rounds : Nat → Round) : Nat → List Activity
  | 0 => [.refuse (stepLimitError maxTurnSteps)]
  | fuel + 1 =>
    let round := rounds fuel
    round.opening ++
    match round.inference.result with
    | .error e => [.refuse e]
    | .ok turn =>
      if ¬ turn.toolCalls.isEmpty then
        round.calls turn ++ roundActivities maxTurnSteps rounds fuel
      else
        checkpoint round.yielded ++ round.synced.map .work ++
        match round.decision with
        | .done => []
        | .fail e => [.refuse e]
        | .continue none => roundActivities maxTurnSteps rounds fuel
        | .continue (some (id, prompt, world)) =>
          .steering id prompt world :: roundActivities maxTurnSteps rounds fuel
        | .push (.error e) => [.refuse e]
        | .push (.ok director) => .work director :: roundActivities maxTurnSteps rounds fuel

/-- A call of the host, with what is decided about it. -/
inductive HostCall where
  | runTurn (maxTurnSteps : Nat) (hydrated : Except StructuredError Unit) (id : ElementId)
      (message : String) (world : Option Journal.Outside) (rounds : Nat → Round)
  | executeTool (name : String) (input : Value) (w : Invocation)

/-- The parts of a call. -/
def HostCall.activities : HostCall → List Activity
  | .runTurn maxTurnSteps hydrated id message world rounds =>
    checkpoint hydrated ++ [.userMessage id message world] ++
      roundActivities maxTurnSteps rounds maxTurnSteps
  | .executeTool name input w => [.tool name input none w]

/-- The journal after a call. -/
def callStep [SerdeJson] (owner : ActorId) (j : Journal) (call : HostCall) : Journal :=
  (execute owner j call.activities).1

end Omp2.Control
