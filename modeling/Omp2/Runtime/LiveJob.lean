import Omp2.Library.Utf8
import Omp2.Runtime.Job
import Omp2.Runtime.Stream

/-!
# Jobs with their output

A `Job` from `omp-runtime/src/job.rs` with its output streams, its element and the records that its
patches have left in the journal, from `spawn` on. A record has the status, the payload and the text
that the element has after the patch. The lifecycle itself is that of `Job`.
-/

namespace Omp2.Runtime

open Omp2.State

/-- What the element of a job is after a patch of the job. -/
structure JobRecord where
  status : Status
  state : JobState
  text : String

/-- `Chunk`. -/
structure Chunk where
  stderr : Bool
  data : List UInt8

/-- The bytes of one of the two streams. -/
def Chunk.bytes (stderr : Bool) (chunks : List Chunk) : List UInt8 :=
  (chunks.filter fun chunk => chunk.stderr = stderr).flatMap Chunk.data

/-- What fits of a text. -/
def takeWithin : Nat → List Char → List Char
  | _, [] => []
  | room, c :: cs => if c.utf8Size ≤ room then c :: takeWithin (room - c.utf8Size) cs else []

/-- `truncate_to_boundary`. -/
def truncateToBoundary (text : String) (maxBytes : Nat) : String :=
  if text.utf8ByteSize ≤ maxBytes then text else String.ofList (takeWithin maxBytes text.toList)

/-- The merged view of both streams that is journaled. -/
def combinedOutput (stdout stderr : String) (maxBytes : Nat) : String :=
  truncateToBoundary (if stderr.isEmpty then stdout else stdout ++ "\n[stderr]\n" ++ stderr)
    maxBytes

/-- A `Job` with its streams and its element. The records of its patches, the chunks that it has
received and those that it had received when the output was journaled last are kept for the
statements only. -/
structure LiveJob where
  job : Job
  text : String
  maxBytes : Nat
  maxEvents : Nat
  stdout : BoundedStream
  stderr : BoundedStream
  eventCount : Nat
  bytesJournaled : Nat
  lastJournalMs : Nat
  input : Bool
  log : List JobRecord
  received : List Chunk
  shown : List Chunk

/-- What the request of a job says about its limits. -/
structure JobLimits where
  maxWallTime : Nat
  cancelGracePeriod : Nat
  maxBytes : Nat
  maxLines : Nat
  maxArtifactBytes : Nat
  maxEvents : Nat

/-- The most that is sent to a process in one request. -/
def maxSendBytes : Nat := 8192

namespace LiveJob

/-- `transition`: the element changes when the journal takes the patch. -/
def transition (l : LiveJob) (status : Status) (state : JobState) (text : String)
    (append : Except StateError Unit) : LiveJob × Except JobError Unit :=
  match l.job.transition status state append with
  | (job, .error e) => ({ l with job }, .error e)
  | (job, .ok ()) => ({ l with job, text, log := l.log ++ [⟨status, state, text⟩] }, .ok ())

/-- `process.kill` through the handle. -/
def killProcess (l : LiveJob) : LiveJob × Except JobError Unit :=
  match l.job.killProcess with
  | (job, result) => ({ l with job }, result)

/-- `send`. -/
def send (l : LiveJob) (bytes : List UInt8) (accepted : Bool) : Except JobError Unit :=
  if isTerminalJob l.job.status then .error .alreadyTerminal
  else if maxSendBytes < bytes.length then
    .error (.boundary (.new "stdin_limit" "Send at most 8192 bytes per request" true))
  else if ¬ l.input then .error .missingHandle
  else if ¬ accepted then
    .error (.boundary (.new "stdin_backpressure" "Input queue is full or closed" true))
  else .ok ()

/-- The first half of `signal`: the cancellation is requested, once. -/
def requestCancel (l : LiveJob) (w : Job.SignalWorld) : LiveJob × Except JobError Unit :=
  match l.job.state.cancelRequestedMs with
  | some _ => (l, .ok ())
  | none =>
    match l.transition .cancelRequested { l.job.state with
        cancelRequestedMs := some w.now
        cancelRequestedElapsedMs := some w.elapsed } l.text w.requested with
    | (l, .error e) => (l, .error e)
    | (l, .ok ()) => ({ l with input := false }, .ok ())

/-- `signal`. -/
def signal (l : LiveJob) (signal : JobSignal) (w : Job.SignalWorld) :
    LiveJob × Except JobError Unit :=
  if isTerminalJob l.job.status then (l, .error .alreadyTerminal)
  else match l.requestCancel w with
  | (l, .error e) => (l, .error e)
  | (l, .ok ()) =>
    if signal = .kill then
      match l.killProcess with
      | (l, .error e) => (l, .error e)
      | (l, .ok ()) =>
        l.transition .cancelRequested { l.job.state with
          terminationReason := some (.forcedKill "explicit forced kill" 0) } l.text w.killed
    else (l, .ok ())

/-- A limit is exceeded: the job is cancelled, and the limit is recorded as the reason. -/
def stop (l : LiveJob) (reason : JobTerminationReason) (w : Job.SignalWorld)
    (append : Except StateError Unit) : LiveJob × Except JobError JobState :=
  match l.signal .terminate w with
  | (l, .error e) => (l, .error e)
  | (l, .ok ()) =>
    let state := { l.job.state with terminationReason := some reason }
    match l.transition .cancelRequested state l.text append with
    | (l, .error e) => (l, .error e)
    | (l, .ok ()) => (l, .ok state)

/-- What the channel delivers to one round of the loop of `poll`. -/
inductive Arrival where
  | chunk (chunk : Chunk) (failure : Option String) (w : Job.SignalWorld)
      (limit : Except StateError Unit)
  | failed (e : String)

/-- `push_stdout`, `push_stderr` and `record_event`. -/
def push (l : LiveJob) (chunk : Chunk) (failure : Option String) : LiveJob :=
  { l with
    stdout := if chunk.stderr then l.stdout else l.stdout.push chunk.data failure
    stderr := if chunk.stderr then l.stderr.push chunk.data failure else l.stderr
    eventCount := l.eventCount + 1
    received := l.received ++ [chunk] }

/-- The loop of `poll` over what the channel has delivered, with the local copy of the state. -/
def drain : LiveJob → JobState → List Arrival → Job.Drained → LiveJob × Except JobError JobState
  | l, state, [], drained =>
    ({ l with job := { l.job with eof := l.job.eof || drained = .disconnected } }, .ok state)
  | l, state, .chunk chunk failure w limit :: rest, drained =>
    let l := l.push chunk failure
    if l.maxEvents < l.eventCount ∧ state.cancelRequestedMs.isNone then
      match l.stop (.resourceLimitExceeded "events") w limit with
      | (l, .error e) => (l, .error e)
      | (l, .ok state) => drain l state rest drained
    else drain l state rest drained
  | l, state, .failed e :: rest, drained =>
    let state := { state with
      terminationReason := some (.executionError (.new "pipe_read" e false)) }
    match l.killProcess with
    | (l, .error e) => (l, .error e)
    | (l, .ok ()) => drain l state rest drained

/-- What is shown of the streams. -/
def output (l : LiveJob) : String :=
  combinedOutput (Utf8.lossy l.stdout.buffer) (Utf8.lossy l.stderr.buffer) l.maxBytes

/-- `total_bytes`. -/
def totalBytes (l : LiveJob) : Nat :=
  (Utf8.lossy l.stdout.buffer).utf8ByteSize + (Utf8.lossy l.stderr.buffer).utf8ByteSize

/-- The throttle lets the output through. -/
def due (l : LiveJob) (now : Nat) : Bool :=
  decide (l.totalBytes ≠ l.bytesJournaled ∧ (l.bytesJournaled = 0 ∨
    64 * 1024 ≤ l.totalBytes - l.bytesJournaled ∨ 100 ≤ now - l.lastJournalMs))

/-- The output is journaled, when it is due. -/
def journalOutput (l : LiveJob) (state : JobState) (now : Nat) (append : Except StateError Unit) :
    LiveJob × Except JobError JobState :=
  if l.due now then
    let l := { l with bytesJournaled := l.totalBytes, lastJournalMs := now }
    match l.transition l.job.status state l.output append with
    | (l, .error e) => (l, .error e)
    | (l, .ok ()) => ({ l with shown := l.received }, .ok state)
  else (l, .ok state)

/-- The wall-time limit. -/
def limitTime (l : LiveJob) (state : JobState) (elapsed : Nat) (w : Job.SignalWorld)
    (timeout : Except StateError Unit) : LiveJob × Except JobError JobState :=
  if state.maxWallTime ≤ elapsed ∧ state.cancelRequestedMs.isNone then
    l.stop (.timeout state.maxWallTime) w timeout
  else (l, .ok state)

/-- The kill after the grace period. -/
def limitGrace (l : LiveJob) (state : JobState) (elapsed now : Nat)
    (forced : Except StateError Unit) : LiveJob × Except JobError JobState :=
  if Job.graceExpired state elapsed now ∧
      ¬ state.terminationReason.any JobTerminationReason.isForcedKill then
    match l.killProcess with
    | (l, .error e) => (l, .error e)
    | (l, .ok ()) =>
      let state := { state with terminationReason := some (.forcedKill "cancellation grace expired"
        ((Job.sinceCancel state elapsed now).getD 0)) }
      match l.transition .cancelRequested state l.text forced with
      | (l, .error e) => (l, .error e)
      | (l, .ok ()) => (l, .ok state)
  else (l, .ok state)

/-- The status with which a job ends. -/
def endStatus (state : JobState) (code : Int32) : Status :=
  if state.cancelRequestedMs.isSome then .cancelled
  else if code = 0 ∧ state.terminationReason.isNone then .succeeded
  else .failed

/-- The state with which a job ends. -/
def endState (state : JobState) (code : Int32) : JobState :=
  { state with terminationReason := some (state.terminationReason.getD (.normal code)) }

/-- The terminal transition, once the process has exited and its output is read. -/
def finish (l : LiveJob) (state : JobState) (artifacts : Except String Unit)
    (terminal : Except StateError Unit) : LiveJob × Except JobError Bool :=
  if ¬ l.job.handle then (l, .error .missingHandle)
  else match l.job.process.tryWait with
    | none => (l, .ok false)
    | some code =>
      if ¬ l.job.eof then (l, .ok false)
      else match artifacts with
        | .error e => (l, .error (.artifact e))
        | .ok () =>
          match l.transition (endStatus state code) (endState state code) l.text terminal with
          | (l, .error e) => (l, .error e)
          | (l, .ok ()) =>
            ({ l with job := { l.job with handle := false }, input := false }, .ok true)

/-- What is decided about one `poll`. -/
structure PollWorld where
  arrived : List Arrival
  drained : Job.Drained
  outputNow : Nat
  output : Except StateError Unit
  elapsed : Nat
  now : Nat
  timeout : Job.SignalWorld × Except StateError Unit
  forced : Except StateError Unit
  artifacts : Except String Unit
  terminal : Except StateError Unit

/-- A poll has nothing to do with a job that has ended. -/
def settled (status : Status) : Bool :=
  status matches .succeeded | .failed | .cancelled | .finalized

/-- `poll`. -/
def poll (l : LiveJob) (w : PollWorld) : LiveJob × Except JobError Bool :=
  if settled l.job.status then (l, .ok true)
  else match l.drain l.job.state w.arrived w.drained with
    | (l, .error e) => (l, .error e)
    | (l, .ok state) =>
      match l.journalOutput state w.outputNow w.output with
      | (l, .error e) => (l, .error e)
      | (l, .ok state) =>
        match l.limitTime state w.elapsed w.timeout.1 w.timeout.2 with
        | (l, .error e) => (l, .error e)
        | (l, .ok state) =>
          match l.limitGrace state w.elapsed w.now w.forced with
          | (l, .error e) => (l, .error e)
          | (l, .ok state) => l.finish state w.artifacts w.terminal

/-- What is decided about one `spawn`. -/
structure SpawnWorld where
  checked : Except JobError Unit
  queued : Except StateError Unit
  started : Except StructuredError Unit
  failed : Except StateError Unit
  opened : Except String String × Except String String
  running : Except StateError Unit
  stdin : Option (List UInt8)
  accepted : Bool
  now : Nat

/-- A job whose process runs, with the records of `spawn`. -/
def started (limits : JobLimits) (backgroundShell : Bool) (w : SpawnWorld) (log : List JobRecord) :
    LiveJob where
  job := .spawned limits.maxWallTime limits.cancelGracePeriod backgroundShell
  text := ""
  maxBytes := limits.maxBytes
  maxEvents := limits.maxEvents
  stdout := .newWithLimits .stdout limits.maxBytes limits.maxLines limits.maxArtifactBytes true
    w.opened.1
  stderr := .newWithLimits .stderr limits.maxBytes limits.maxLines limits.maxArtifactBytes true
    w.opened.2
  eventCount := 0
  bytesJournaled := 0
  lastJournalMs := w.now
  input := true
  log
  received := []
  shown := []

/-- `spawn`, with the records that it leaves. -/
def spawn (limits : JobLimits) (backgroundShell : Bool) (w : SpawnWorld) :
    List JobRecord × Except JobError LiveJob :=
  match w.checked with
  | .error e => ([], .error e)
  | .ok () =>
    let state := (Job.spawned limits.maxWallTime limits.cancelGracePeriod backgroundShell).state
    match w.queued with
    | .error e => ([], .error (.state e))
    | .ok () =>
      let queued : JobRecord := ⟨.queued, state, ""⟩
      match w.started with
      | .error e =>
        match w.failed with
        | .error e => ([queued], .error (.state e))
        | .ok () =>
          ([queued, ⟨.failed, { state with terminationReason := some (.executionError e) }, ""⟩],
            .error (.boundary e))
      | .ok () =>
        match w.running with
        | .error e => ([queued], .error (.state e))
        | .ok () =>
          let log := [queued, ⟨.running, state, ""⟩]
          let l := started limits backgroundShell w log
          match w.stdin with
          | none => (log, .ok l)
          | some bytes =>
            match l.send bytes w.accepted with
            | .error e => (log, .error e)
            | .ok () => (log, .ok l)

/-- What happens to a job. -/
inductive Input where
  | exits (code : Int32)
  | send (bytes : List UInt8) (accepted : Bool)
  | signal (signal : JobSignal) (w : Job.SignalWorld)
  | poll (w : PollWorld)

/-- The job after one input. -/
def step (l : LiveJob) : Input → LiveJob
  | .exits code =>
    match l.job.process with
    | .running =>
      { l with job := { l.job with
        process := .exited code l.job.state.cancelRequestedMs.isSome } }
    | .exited .. => l
  | .send .. => l
  | .signal signal w => (l.signal signal w).1
  | .poll w => (l.poll w).1

end LiveJob

end Omp2.Runtime
