import Omp2.Library.Machine
import Omp2.Runtime.Termination
import Omp2.Tools.Results

/-!
# Settlement of jobs

`settle_workspace` of `omp-tools/src/host.rs`, and what the host does with a job: it passes signals
on, polls, and settles the workspace when a poll reports the end. Only the recorded reason decides
whether the changes of the job are merged and the state of its shell is kept.
-/

namespace Omp2.Tools

open Omp2.State Omp2.Runtime

/-- The state of a shell that later jobs start from, the attribute `shell_state`. -/
structure ShellState where
  source : String
  cwd : String
  exitCode : Int32
deriving DecidableEq

/-- What is decided about one settlement: the files, the merge and the appends. -/
structure SettleWorld where
  stateFile : Option (Except String (List UInt8))
  cwd : String
  isolated : String
  persisted : Except StateError Unit
  removed : Except String Unit
  diff : Except StructuredError Unit
  merged : Except StructuredError Unit
  settled : Except StateError Unit

/-- What a settlement has done: the shell state that it has appended, and whether it has merged. -/
structure Settled where
  shellState : Option ShellState
  merged : Bool

/-- Slashes for backslashes. -/
def forwardSlashes (path : String) : String :=
  path.map fun c => if c = '\\' then '/' else c

/-- The working directory below the isolated workspace. -/
def relativeCwd (cwd isolated : String) : String :=
  let relative := Text.stripPrefix (forwardSlashes (Text.trim cwd)) (forwardSlashes isolated)
  String.ofList ((relative.getD "").toList.dropWhile (· = '/'))

/-- The shell state is kept, if the job has ended normally and has left one. -/
def persistShell (state : JobState) (w : SettleWorld) : Except ToolError (Option ShellState) :=
  match w.stateFile, state.terminationReason with
  | some read, some (.normal exitCode) =>
    match read with
    | .error e => .error (.execution e)
    | .ok bytes =>
      if 60000 < bytes.length then
        .error (.validation "Persisted shell state exceeds 60000 bytes")
      else match String.fromUTF8? ⟨bytes.toArray⟩ with
        | none => .error (.execution "invalid utf-8 sequence")
        | some source =>
          match w.persisted with
          | .error e => .error (.execution e.display)
          | .ok () => .ok (some ⟨source, relativeCwd w.cwd w.isolated, exitCode⟩)
  | _, _ => .ok none

/-- `settle_workspace`. -/
def settleWorkspace (state : JobState) (w : SettleWorld) : Settled × Except ToolError Unit :=
  match if state.backgroundShell then persistShell state w else .ok none with
  | .error e => (⟨none, false⟩, .error e)
  | .ok shellState =>
    match if state.backgroundShell then w.removed else .ok () with
    | .error e => (⟨shellState, false⟩, .error (.execution e))
    | .ok () =>
      match w.diff with
      | .error e => (⟨shellState, false⟩, .error (.execution e.display))
      | .ok () =>
        let merged := state.terminationReason.any JobTerminationReason.isNormal
        match w.settled with
        | .error e => (⟨shellState, merged⟩, .error (.execution e.display))
        | .ok () => (⟨shellState, merged⟩, .ok ())

/-- A settlement commits something only after a normal end. -/
theorem settleWorkspace_normal {state : JobState} {w : SettleWorld} {settled : Settled}
    {result : Except ToolError Unit} (h : settleWorkspace state w = (settled, result))
    (hcommitted : settled.merged = true ∨ settled.shellState.isSome = true) :
    ∃ reason, state.terminationReason = some reason ∧ reason.isNormal = true := by
  have hshell : ∀ shellState,
      (if state.backgroundShell then persistShell state w else .ok none) = .ok (some shellState) →
      ∃ reason, state.terminationReason = some reason ∧ reason.isNormal = true := by
    intro shellState hpersist
    split at hpersist
    · unfold persistShell at hpersist
      split at hpersist
      · next hreason => exact ⟨_, hreason, rfl⟩
      · cases hpersist
    · cases hpersist
  have hmerged : state.terminationReason.any JobTerminationReason.isNormal = true →
      ∃ reason, state.terminationReason = some reason ∧ reason.isNormal = true := by
    intro hany
    cases hreason : state.terminationReason with
    | none =>
      rw [hreason] at hany
      cases hany
    | some reason =>
      rw [hreason] at hany
      exact ⟨reason, rfl, hany⟩
  unfold settleWorkspace at h
  split at h
  · cases h
    rcases hcommitted with hcommitted | hcommitted <;> cases hcommitted
  · next shellState hpersist =>
    have hsome : shellState.isSome = true →
        ∃ reason, state.terminationReason = some reason ∧ reason.isNormal = true := by
      intro hsome
      obtain ⟨kept, rfl⟩ := Option.isSome_iff_exists.mp hsome
      exact hshell kept hpersist
    split at h
    · cases h
      exact hcommitted.elim nofun hsome
    · split at h
      · cases h
        exact hcommitted.elim nofun hsome
      · dsimp only at h
        split at h <;> cases h <;> exact hcommitted.elim hmerged hsome

/-! ## Runs of a job -/

/-- A job of the host, with what its settlements have committed. -/
structure HostedJob where
  job : Job
  shellState : Option ShellState
  merged : Bool

/-- What happens to a job. -/
inductive JobEvent where
  | exits (code : Int32)
  | signal (signal : JobSignal) (w : Job.SignalWorld)
  | poll (w : Job.PollWorld) (settlement : SettleWorld)

namespace HostedJob

/-- A job after `spawn`. -/
def spawned (maxWallTime cancelGracePeriod : Nat) (backgroundShell : Bool) : HostedJob :=
  ⟨.spawned maxWallTime cancelGracePeriod backgroundShell, none, false⟩

/-- The process exits by itself. -/
def exit (job : Job) (code : Int32) : Job :=
  match job.process with
  | .running => { job with process := .exited code job.state.cancelRequestedMs.isSome }
  | .exited .. => job

/-- The job after one event. A poll that reports the end is followed by the settlement. -/
def step (hosted : HostedJob) : JobEvent → HostedJob
  | .exits code => { hosted with job := exit hosted.job code }
  | .signal signal w => { hosted with job := (hosted.job.signal signal w).1 }
  | .poll w settlement =>
    match hosted.job.poll w with
    | (job, .ok true) =>
      let settled := (settleWorkspace job.state settlement).1
      ⟨job, settled.shellState.or hosted.shellState, settled.merged || hosted.merged⟩
    | (job, _) => { hosted with job }

/-- A job whose process was disturbed has not ended normally, and only a normal end has committed
anything. -/
structure Honest (hosted : HostedJob) : Prop where
  cancelled : ∀ code reason, hosted.job.process = .exited code true →
    hosted.job.state.terminationReason = some reason → reason.isNormal = false
  committed : hosted.merged = true ∨ hosted.shellState.isSome = true →
    ∃ code reason, hosted.job.process = .exited code false ∧
      hosted.job.state.terminationReason = some reason ∧ reason.isNormal = true

/-- Each poll accounts for a disturbed process. -/
def Orderly (hosted : HostedJob) : JobEvent → Prop
  | .poll w _ => hosted.job.Accounted w
  | .exits _ | .signal .. => True

/-- An active job has committed nothing, and one that has ended has committed something only if the
end is normal. -/
def Settling (hosted : HostedJob) : Prop :=
  (hosted.job.Active ∧ hosted.merged = false ∧ hosted.shellState = none) ∨
    (hosted.job.Ended ∧ (hosted.merged = true ∨ hosted.shellState.isSome = true →
      ∃ reason, hosted.job.state.terminationReason = some reason ∧ reason.isNormal = true))

theorem Settling.honest {hosted : HostedJob} (h : hosted.Settling) : hosted.Honest := by
  rcases h with ⟨hactive, hmerged, hshell⟩ | ⟨hended, hcommitted⟩
  · refine ⟨fun _ reason _ hreason => hactive.state reason hreason, fun hor => ?_⟩
    rw [hmerged, hshell] at hor
    rcases hor with hor | hor <;> cases hor
  · obtain ⟨code, disturbed, reason, hprocess, hreason, hnormal⟩ := hended.honest
    refine ⟨fun code' reason' hprocess' hreason' => ?_, fun hor => ?_⟩
    · rw [hprocess] at hprocess'
      rw [hreason] at hreason'
      cases hprocess'
      cases hreason'
      exact Bool.eq_false_iff.mpr fun hyes => nomatch hnormal hyes
    · obtain ⟨reason', hreason', hyes⟩ := hcommitted hor
      rw [hreason] at hreason'
      cases hreason'
      rw [hnormal hyes] at hprocess
      exact ⟨code, reason, hprocess, hreason, hyes⟩

theorem poll_ended {job : Job} (h : job.Ended) (w : Job.PollWorld) :
    job.poll w = (job, .ok true) := by
  unfold Job.poll
  rw [if_pos (by rcases h.status with h | h | h <;> rw [h])]

/-- One event keeps the settlement right. -/
theorem Settling.step {hosted : HostedJob} {event : JobEvent} (h : hosted.Settling)
    (horderly : hosted.Orderly event) : (hosted.step event).Settling := by
  cases event with
  | exits code =>
      unfold HostedJob.step exit
      dsimp only
      rcases h with ⟨hactive, hnothing⟩ | ⟨hended, hcommitted⟩
      · refine .inl ⟨?_, hnothing⟩
        dsimp only
        split
        · exact ⟨hactive.status, hactive.state⟩
        · exact hactive
      · obtain ⟨code', disturbed, _, hprocess, _⟩ := hended.honest
        rw [hprocess]
        exact .inr ⟨hended, hcommitted⟩
  | signal signal w =>
      rcases h with ⟨hactive, hnothing⟩ | ⟨hended, hcommitted⟩
      · exact .inl ⟨(hactive.signal (Prod.mk.eta (p := hosted.job.signal signal w)).symm).1, hnothing⟩
      · have hsame : (hosted.job.signal signal w).1 = hosted.job := by
          unfold Job.signal
          rw [if_pos (by rcases hended.status with h | h | h <;> rw [h] <;> decide)]
        unfold HostedJob.step
        dsimp only
        rw [hsame]
        exact .inr ⟨hended, hcommitted⟩
  | poll w settlement =>
      have hsettled : ∀ job : Job, job.Ended →
          (hosted.merged = true ∨ hosted.shellState.isSome = true →
            ∃ reason, job.state.terminationReason = some reason ∧ reason.isNormal = true) →
          Settling ⟨job, (settleWorkspace job.state settlement).1.shellState.or hosted.shellState,
            (settleWorkspace job.state settlement).1.merged || hosted.merged⟩ := by
        intro job hended hbefore
        refine .inr ⟨hended, fun hor => ?_⟩
        dsimp only at hor ⊢
        rw [Bool.or_eq_true, Option.isSome_or, Bool.or_eq_true] at hor
        have hnew := settleWorkspace_normal
          (Prod.mk.eta (p := settleWorkspace job.state settlement)).symm
        rcases hor with (hmerged | hmerged) | (hshell | hshell)
        · exact hnew (.inl hmerged)
        · exact hbefore (.inl hmerged)
        · exact hnew (.inr hshell)
        · exact hbefore (.inr hshell)
      unfold HostedJob.step
      dsimp only
      rcases h with ⟨hactive, hmerged, hshell⟩ | ⟨hended, hcommitted⟩
      · cases hpoll : hosted.job.poll w with
        | mk job result =>
          have hcases := hactive.poll horderly hpoll
          split
          · next heq =>
            cases heq
            refine hsettled _ (hcases.resolve_left fun hleft => hleft.2 rfl) fun hor => ?_
            rw [hmerged, hshell] at hor
            rcases hor with hor | hor <;> cases hor
          · next hother heq =>
            cases heq
            rcases hcases with ⟨hactive', _⟩ | hended'
            · exact .inl ⟨hactive', hmerged, hshell⟩
            · refine .inr ⟨hended', fun hor => ?_⟩
              dsimp only at hor
              rw [hmerged, hshell] at hor
              rcases hor with hor | hor <;> cases hor
      · rw [poll_ended hended]
        exact hsettled _ hended hcommitted

/-- In a run in which each poll accounts for a disturbed process, a cancelled job never ends
normally, and only a normal end commits anything. -/
theorem run_honest (maxWallTime cancelGracePeriod : Nat) (backgroundShell : Bool)
    {events : List JobEvent}
    (horderly : Machine.Along step Orderly
      (spawned maxWallTime cancelGracePeriod backgroundShell) events) :
    Honest (Machine.run step (spawned maxWallTime cancelGracePeriod backgroundShell) events) := by
  refine Settling.honest (Machine.invariant_along (P := Settling)
    (fun hosted event h hevent => h.step hevent) (.inl ⟨⟨.inl rfl, ?_⟩, rfl, rfl⟩) horderly)
  exact fun _ hreason => nomatch hreason

/-! ## A job that is cancelled, and one that ends by itself -/

/-- A poll that finds the output read to its end. -/
def lastPoll : Job.PollWorld where
  received := []
  drained := .disconnected
  output := none
  elapsed := 15
  now := 1015
  timeout := (⟨1015, 15, .ok (), .ok ()⟩, .ok ())
  forced := .ok ()
  artifacts := .ok ()
  terminal := .ok ()

/-- A settlement in which nothing fails. -/
def smoothSettlement : SettleWorld where
  stateFile := none
  cwd := ""
  isolated := "/views/1"
  persisted := .ok ()
  removed := .ok ()
  diff := .ok ()
  merged := .ok ()
  settled := .ok ()

/-- A job is asked to terminate, and its process exits within the grace period. -/
def cooperativeRun : List JobEvent :=
  [.signal .terminate ⟨1010, 10, .ok (), .ok ()⟩, .exits 0, .poll lastPoll smoothSettlement]

/-- The job that was cancelled ends normally and is merged. -/
theorem not_honest_cooperative : ¬ ∀ (maxWallTime cancelGracePeriod : Nat)
    (backgroundShell : Bool) (events : List JobEvent),
    Honest (Machine.run step (spawned maxWallTime cancelGracePeriod backgroundShell) events) := by
  intro h
  have hcancelled := (h 60000 2000 true cooperativeRun).cancelled 0 (.normal 0) rfl rfl
  cases hcancelled

/-- A job that ends by itself is merged honestly. -/
theorem run_honest_exit : Honest (Machine.run step (spawned 60000 2000 true)
    [.exits 0, .poll lastPoll smoothSettlement]) := by
  refine run_honest 60000 2000 true ⟨trivial, ?_, trivial⟩
  intro _ code hprocess
  cases hprocess

end HostedJob

end Omp2.Tools
