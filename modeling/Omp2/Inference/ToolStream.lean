import Omp2.Inference.JsonRepair
import Omp2.Control.Projection
import Omp2.Library.Indexed

/-!
# Tool calls in a stream

How `parse_sse_stream` of `omp-inference/src/provider.rs` puts the tool calls of a turn together
from the payloads of a stream. Payloads of the Anthropic format append to a list of calls; those of
the other formats name the call by its index in that list. The lines of the stream are parsed
already, and its text, thinking and usage are left out.
-/

namespace Omp2.Inference

open Control Json Text

/-- `WireFormat`. -/
inductive WireFormat where
  | anthropicMessages | openAiChatCompletions | geminiGenerateContent | ollamaChat | genericJson
deriving DecidableEq

/-- `StreamingToolCall`. -/
structure StreamingToolCall where
  id : Option String
  name : Option String
  argumentsBuffer : String
deriving DecidableEq

/-- `StreamingToolCall::default`. -/
def StreamingToolCall.fresh : StreamingToolCall := ⟨none, none, ""⟩

/-- The accumulators of the parser. -/
structure StreamState where
  toolCalls : List StreamingToolCall
  finishReason : Option String
  seenTerminal : Bool

/-- The state before the first payload. -/
def StreamState.start : StreamState := ⟨[], none, false⟩

/-- `MAX_STREAMING_TOOLS`. -/
def maxStreamingTools : Nat := 256

/-- The error of a call with an index that is too large. -/
def toolIndexError : StructuredError :=
  .new "stream_tool_limit" "Tool call index exceeds stream limit" false

/-- The error of a call too many. -/
def toolCountError : StructuredError :=
  .new "stream_tool_limit" "Tool call count exceeds stream limit" false

/-! ## Payloads that name their calls -/

/-- What an entry of a stream says about a tool call. -/
structure Fragment where
  index : Nat
  id : Option String
  name : Option String
  arguments : Option String

/-- What an entry of `tool_calls` says. -/
def openAiFragment (tc : Value) : Fragment where
  index := (((tc.get "index").bind Value.asU64).map UInt64.toNat).getD 0
  id := (tc.get "id").bind Value.asStr
  name := ((tc.get "function").bind (·.get "name")).bind Value.asStr
  arguments := ((tc.get "function").bind (·.get "arguments")).bind Value.asStr

/-- A call with what a fragment says about it: its id and its name are replaced, and its arguments
go on. -/
def StreamingToolCall.take (call : StreamingToolCall) (f : Fragment) : StreamingToolCall where
  id := f.id.or call.id
  name := f.name.or call.name
  argumentsBuffer := call.argumentsBuffer ++ f.arguments.getD ""

/-- The loop over the entries of `tool_calls`. -/
def takeFragments : List StreamingToolCall → List Fragment →
    Except StructuredError (List StreamingToolCall)
  | calls, [] => .ok calls
  | calls, f :: rest =>
    if maxStreamingTools ≤ f.index then .error toolIndexError
    else takeFragments (Indexed.put .fresh calls f.index (·.take f)) rest

/-- The entries of `choices`. -/
def choicesOf (payload : Value) : List Value :=
  ((payload.get "choices").bind Value.asArray).getD []

/-- The reason that a choice gives for its end. -/
def choiceReason (choice : Value) : Option String :=
  ((choice.get "finish_reason").bind Value.asStr).filter fun reason =>
    !reason.isEmpty && reason != "null"

/-- What a choice says about tool calls, in its `delta` or in its `message`. -/
def choiceFragments (choice : Value) : List Fragment :=
  (((((choice.get "delta").bind (·.get "tool_calls")).or
    ((choice.get "message").bind (·.get "tool_calls"))).bind Value.asArray).getD []).map
      openAiFragment

/-- One choice of `process_openai_sse_chunk`. -/
def processChoice (st : StreamState) (choice : Value) : Except StructuredError StreamState := do
  let toolCalls ← takeFragments st.toolCalls (choiceFragments choice)
  return { st with toolCalls, finishReason := (choiceReason choice).or st.finishReason }

/-- `process_openai_sse_chunk`. -/
def processOpenAiSseChunk (st : StreamState) (payload : Value) :
    Except StructuredError StreamState :=
  (choicesOf payload).foldlM processChoice st

/-! ## Payloads that append to their calls -/

/-- What a payload with content says about the calls, with the index of its block. -/
inductive BlockEvent where
  | start (index : Nat) (id name : Option String)
  | delta (index : Nat) (piece : String)

/-- The index of the block of a payload, which the parser does not read. -/
def blockIndex (payload : Value) : Nat :=
  (((payload.get "index").bind Value.asU64).map UInt64.toNat).getD 0

/-- What a payload says about tool calls. -/
def blockEvent (eventType : String) (payload : Value) : Option BlockEvent :=
  match eventType with
  | "content_block_start" => do
      let block ← payload.get "content_block"
      if (block.get "type").bind Value.asStr = some "tool_use" then
        some (.start (blockIndex payload) ((block.get "id").bind Value.asStr)
          ((block.get "name").bind Value.asStr))
      else none
  | "content_block_delta" => do
      let delta ← payload.get "delta"
      if (delta.get "type").bind Value.asStr = some "input_json_delta" then
        ((delta.get "partial_json").bind Value.asStr).map (.delta (blockIndex payload))
      else none
  | _ => none

/-- A block is started behind the others, and a delta goes to the last one. -/
def takeBlock (calls : List StreamingToolCall) : BlockEvent →
    Except StructuredError (List StreamingToolCall)
  | .start _ id name =>
    if maxStreamingTools ≤ calls.length then .error toolCountError
    else .ok (calls ++ [⟨id, name, ""⟩])
  | .delta _ piece =>
    .ok (calls.modify (calls.length - 1) fun call =>
      { call with argumentsBuffer := call.argumentsBuffer ++ piece })

/-- The reason that a payload gives for the end of the stream. -/
def stopReason (eventType : String) (payload : Value) : Option String :=
  if eventType = "message_delta" then
    ((payload.get "delta").bind (·.get "stop_reason")).bind Value.asStr
  else none

/-- `process_anthropic_sse_event`. -/
def processAnthropicSseEvent (st : StreamState) (eventType : String) (payload : Value) :
    Except StructuredError StreamState := do
  let toolCalls ←
    match blockEvent eventType payload with
    | some event => takeBlock st.toolCalls event
    | none => .ok st.toolCalls
  return {
    toolCalls
    finishReason := (stopReason eventType payload).or st.finishReason
    seenTerminal := st.seenTerminal || eventType = "message_stop" }

/-! ## The end of the stream -/

/-- A payload of a stream, with the type of its event. -/
structure Payload where
  eventType : String
  value : Value

/-- What a payload adds. -/
def processPayload (format : WireFormat) (st : StreamState) (payload : Payload) :
    Except StructuredError StreamState :=
  if format = .anthropicMessages then
    processAnthropicSseEvent st payload.eventType payload.value
  else processOpenAiSseChunk st payload.value

/-- The error of a stream that ends before its turn does. -/
def prematureError : StructuredError :=
  .new "premature_stream_termination"
    "Stream terminated prematurely without completion signal or finish reason" true

/-- The error of tool calls that the output limit cuts. -/
def partialArgumentsError : StructuredError :=
  .new "partial_tool_arguments" "Output limit interrupted tool arguments; no tool was executed" true

variable [SerdeJson]

/-- The arguments of a call: nothing at all, JSON, or a text that is not JSON. -/
def finalArguments (buffer : String) : Value :=
  if (trim buffer).isEmpty then .object []
  else
    match fromStr buffer.toList with
    | .ok value => value
    | .error _ => .string buffer

/-- A call of the turn. `minted` is its id when the stream gave none. -/
def finalCall (minted : ToolCallId) (call : StreamingToolCall) :
    Except StructuredError ToolCallSpec := do
  let id ←
    match call.id with
    | some id => Id.new id
    | none => .ok minted
  return ⟨id, call.name.getD "unknown_tool", finalArguments call.argumentsBuffer⟩

/-- The calls of the turn, with the ids that are minted. -/
def finalCalls (minted : Nat → ToolCallId) : Nat → List StreamingToolCall →
    Except StructuredError (List ToolCallSpec)
  | _, [] => .ok []
  | n, call :: rest => do
    let spec ← finalCall (minted n) call
    let specs ← finalCalls minted (n + 1) rest
    return spec :: specs

/-- The end of `parse_sse_stream`. -/
def finishStream (minted : Nat → ToolCallId) (st : StreamState) :
    Except StructuredError (List ToolCallSpec) :=
  if !st.seenTerminal && st.finishReason.isNone then .error prematureError
  else if st.toolCalls ≠ [] ∧ (st.finishReason = some "length" ∨ st.finishReason = some "max_tokens")
  then .error partialArgumentsError
  else finalCalls minted 0 st.toolCalls

/-- The tool calls of `parse_sse_stream`. `done` says that the stream has a line that ends it. -/
def parseSseStream (format : WireFormat) (minted : Nat → ToolCallId) (payloads : List Payload)
    (done : Bool) : Except StructuredError (List ToolCallSpec) := do
  let st ← payloads.foldlM (processPayload format) .start
  finishStream minted { st with seenTerminal := st.seenTerminal || done }

end Omp2.Inference
