import Omp2.State.Dom

/-!
# Jobs

The lifecycle of a `Job` from `omp-runtime/src/job.rs`: what `signal` and `poll` make of the record
that the document keeps of the job, and of its process. What the pipes deliver, the clocks and
whether the journal takes a patch are inputs. The output streams themselves are left out.
-/

namespace Omp2.Runtime

open Omp2.State

/-- `JobSignal`. -/
inductive JobSignal where
  | interrupt | terminate | kill | hangup
deriving DecidableEq

/-- `JobTerminationReason`. -/
inductive JobTerminationReason where
  | normal (exitCode : Int32)
  | cancelled (cooperative : Bool)
  | forcedKill (reason : String) (elapsedAfterCancelMs : Nat)
  | timeout (maxDurationMs : Nat)
  | resourceLimitExceeded (limitName : String)
  | hostShutdown
  | executionError (e : StructuredError)

/-- The job has ended by itself. -/
def JobTerminationReason.isNormal : JobTerminationReason → Bool
  | .normal _ => true
  | _ => false

/-- The process was killed by the host. -/
def JobTerminationReason.isForcedKill : JobTerminationReason → Bool
  | .forcedKill .. => true
  | _ => false

/-- `JobState`, the payload of the element of the job. -/
structure JobState where
  maxWallTime : Nat
  cancelGracePeriod : Nat
  backgroundShell : Bool
  cancelRequestedMs : Option Nat
  cancelRequestedElapsedMs : Option Nat
  terminationReason : Option JobTerminationReason

/-- `JobError`. -/
inductive JobError where
  | state (e : StateError)
  | boundary (e : StructuredError)
  | alreadyTerminal
  | missingHandle
  | artifact (message : String)

/-- `is_terminal_job`. -/
def isTerminalJob (status : Status) : Bool :=
  status matches .succeeded | .failed | .cancelled | .finalized | .detached

/-- The process of a job. A process that has exited remembers whether it was `disturbed` before: a
cancellation was requested, or the host has killed it. -/
inductive Process where
  | running
  | exited (code : Int32) (disturbed : Bool)
deriving DecidableEq

/-- `kill`, which waits for the process. -/
def Process.kill : Process → Process
  | .running => .exited 1 true
  | .exited code disturbed => .exited code disturbed

/-- `try_wait`. -/
def Process.tryWait : Process → Option Int32
  | .running => none
  | .exited code _ => some code

/-- A `Job` with the record of it in the document, `status` and `state`, and its process. -/
structure Job where
  status : Status
  state : JobState
  process : Process
  handle : Bool
  eof : Bool

/-- A `Job` after `spawn`. -/
def Job.spawned (maxWallTime cancelGracePeriod : Nat) (backgroundShell : Bool) : Job where
  status := .running
  state := ⟨maxWallTime, cancelGracePeriod, backgroundShell, none, none, none⟩
  process := .running
  handle := true
  eof := false

namespace Job

/-- `transition`: the record changes when the journal takes the patch. -/
def transition (job : Job) (status : Status) (state : JobState)
    (append : Except StateError Unit) : Job × Except JobError Unit :=
  match append with
  | .error e => (job, .error (.state e))
  | .ok () => ({ job with status, state }, .ok ())

/-- `process.kill` through the handle. -/
def killProcess (job : Job) : Job × Except JobError Unit :=
  if job.handle then ({ job with process := job.process.kill }, .ok ())
  else (job, .error .missingHandle)

/-- What is decided about one `signal`. -/
structure SignalWorld where
  now : Nat
  elapsed : Nat
  requested : Except StateError Unit
  killed : Except StateError Unit

/-- `signal`. -/
def signal (job : Job) (signal : JobSignal) (w : SignalWorld) : Job × Except JobError Unit :=
  if isTerminalJob job.status then (job, .error .alreadyTerminal)
  else
    let requested : Job × Except JobError Unit :=
      match job.state.cancelRequestedMs with
      | some _ => (job, .ok ())
      | none =>
        job.transition .cancelRequested { job.state with
          cancelRequestedMs := some w.now
          cancelRequestedElapsedMs := some w.elapsed } w.requested
    match requested with
    | (job, .error e) => (job, .error e)
    | (job, .ok ()) =>
      if signal = .kill then
        match job.killProcess with
        | (job, .error e) => (job, .error e)
        | (job, .ok ()) =>
          job.transition .cancelRequested { job.state with
            terminationReason := some (.forcedKill "explicit forced kill" 0) } w.killed
      else (job, .ok ())

/-- What the pipes deliver to one round of the loop of `poll`. -/
inductive Received where
  | chunk (recorded : Bool) (w : SignalWorld) (limit : Except StateError Unit)
  | failed (e : String)

/-- What ends the loop of `poll`. -/
inductive Drained where
  | full | empty | disconnected
deriving DecidableEq

/-- The loop of `poll` over what the pipes have delivered, with the local copy of the record. -/
def drain : Job → JobState → List Received → Drained → Job × Except JobError JobState
  | job, state, [], drained => ({ job with eof := job.eof || drained = .disconnected }, .ok state)
  | job, state, .chunk recorded w limit :: rest, drained =>
    if ¬ recorded ∧ state.cancelRequestedMs.isNone then
      match job.signal .terminate w with
      | (job, .error e) => (job, .error e)
      | (job, .ok ()) =>
        let state := { job.state with
          terminationReason := some (.resourceLimitExceeded "events") }
        match job.transition .cancelRequested state limit with
        | (job, .error e) => (job, .error e)
        | (job, .ok ()) => drain job state rest drained
    else drain job state rest drained
  | job, state, .failed e :: rest, drained =>
    let state := { state with
      terminationReason := some (.executionError (.new "pipe_read" e false)) }
    match job.killProcess with
    | (job, .error e) => (job, .error e)
    | (job, .ok ()) => drain job state rest drained

/-- The output is journaled, when it is due. -/
def journalOutput (job : Job) (state : JobState) (due : Option (Except StateError Unit)) :
    Job × Except JobError JobState :=
  match due with
  | none => (job, .ok state)
  | some append =>
    match job.transition job.status state append with
    | (job, .error e) => (job, .error e)
    | (job, .ok ()) => (job, .ok state)

/-- The wall-time limit. -/
def limitTime (job : Job) (state : JobState) (elapsed : Nat) (w : SignalWorld)
    (timeout : Except StateError Unit) : Job × Except JobError JobState :=
  if state.maxWallTime ≤ elapsed ∧ state.cancelRequestedMs.isNone then
    match job.signal .terminate w with
    | (job, .error e) => (job, .error e)
    | (job, .ok ()) =>
      let state := { job.state with
        terminationReason := some (.timeout job.state.maxWallTime) }
      match job.transition .cancelRequested state timeout with
      | (job, .error e) => (job, .error e)
      | (job, .ok ()) => (job, .ok state)
  else (job, .ok state)

/-- How long ago the cancellation was requested, if it was. -/
def sinceCancel (state : JobState) (elapsed now : Nat) : Option Nat :=
  match state.cancelRequestedElapsedMs, state.cancelRequestedMs with
  | some requested, _ => some (elapsed - requested)
  | none, some requested => some (now - requested)
  | none, none => none

/-- The grace period of a cancellation is over. -/
def graceExpired (state : JobState) (elapsed now : Nat) : Bool :=
  (sinceCancel state elapsed now).any fun after => state.cancelGracePeriod ≤ after

/-- The kill after the grace period. -/
def limitGrace (job : Job) (state : JobState) (elapsed now : Nat)
    (forced : Except StateError Unit) : Job × Except JobError JobState :=
  if graceExpired state elapsed now ∧
      ¬ state.terminationReason.any JobTerminationReason.isForcedKill then
    match job.killProcess with
    | (job, .error e) => (job, .error e)
    | (job, .ok ()) =>
      let state := { state with terminationReason := some (.forcedKill "cancellation grace expired"
        ((sinceCancel state elapsed now).getD 0)) }
      match job.transition .cancelRequested state forced with
      | (job, .error e) => (job, .error e)
      | (job, .ok ()) => (job, .ok state)
  else (job, .ok state)

/-- The terminal transition, once the process has exited and its output is read. -/
def finish (job : Job) (state : JobState) (artifacts : Except String Unit)
    (terminal : Except StateError Unit) : Job × Except JobError Bool :=
  if ¬ job.handle then (job, .error .missingHandle)
  else match job.process.tryWait with
    | none => (job, .ok false)
    | some code =>
      if ¬ job.eof then (job, .ok false)
      else match artifacts with
        | .error e => (job, .error (.artifact e))
        | .ok () =>
          let status : Status :=
            if state.cancelRequestedMs.isSome then .cancelled
            else if code = 0 ∧ state.terminationReason.isNone then .succeeded
            else .failed
          let state := { state with
            terminationReason := some (state.terminationReason.getD (.normal code)) }
          match job.transition status state terminal with
          | (job, .error e) => (job, .error e)
          | (job, .ok ()) => ({ job with handle := false }, .ok true)

/-- What is decided about one `poll`. -/
structure PollWorld where
  received : List Received
  drained : Drained
  output : Option (Except StateError Unit)
  elapsed : Nat
  now : Nat
  timeout : SignalWorld × Except StateError Unit
  forced : Except StateError Unit
  artifacts : Except String Unit
  terminal : Except StateError Unit

/-- `poll`. -/
def poll (job : Job) (w : PollWorld) : Job × Except JobError Bool :=
  if job.status matches .succeeded | .failed | .cancelled | .finalized then (job, .ok true)
  else match drain job job.state w.received w.drained with
    | (job, .error e) => (job, .error e)
    | (job, .ok state) =>
      match job.journalOutput state w.output with
      | (job, .error e) => (job, .error e)
      | (job, .ok state) =>
        match job.limitTime state w.elapsed w.timeout.1 w.timeout.2 with
        | (job, .error e) => (job, .error e)
        | (job, .ok state) =>
          match job.limitGrace state w.elapsed w.now w.forced with
          | (job, .error e) => (job, .error e)
          | (job, .ok state) => job.finish state w.artifacts w.terminal

end Job

end Omp2.Runtime
