import Omp2.Runtime.Job

/-!
# How jobs end

While a job is active its record has no normal end. A poll gives it one only when no other reason has
been recorded. So a job that was cancelled, or whose process was killed, ends normally exactly
because that reason is missing when the poll finds its process gone: a cooperative cancellation
records none.
-/

namespace Omp2.Runtime

open Omp2.State

/-- A record that does not say that the job has ended normally. -/
def JobState.Open (state : JobState) : Prop :=
  ∀ reason, state.terminationReason = some reason → reason.isNormal = false

theorem JobState.open_of_reason {state : JobState} {reason : JobTerminationReason}
    (h : reason.isNormal = false) :
    JobState.Open { state with terminationReason := some reason } := by
  intro other hother
  cases hother
  exact h

namespace Job

variable {job job' : Job} {state state' : JobState}

/-- The job is running, or it is being cancelled. -/
structure Active (job : Job) : Prop where
  status : job.status = .running ∨ job.status = .cancelRequested
  state : job.state.Open

/-- The end of the job is recorded, and it is normal only if nothing has disturbed the process. -/
structure Ended (job : Job) : Prop where
  status : job.status = .cancelled ∨ job.status = .succeeded ∨ job.status = .failed
  honest : ∃ code disturbed reason, job.process = .exited code disturbed ∧
    job.state.terminationReason = some reason ∧ (reason.isNormal = true → disturbed = false)

/-! ## The parts of a step -/

theorem transition_cases {status : Status} {append : Except StateError Unit}
    {result : Except JobError Unit} (h : job.transition status state append = (job', result)) :
    (result = .ok () ∧ job' = { job with status, state }) ∨
      (∃ e, result = .error e) ∧ job' = job := by
  unfold transition at h
  split at h
  · cases h
    exact .inr ⟨⟨_, rfl⟩, rfl⟩
  · cases h
    exact .inl ⟨rfl, rfl⟩

theorem killProcess_cases {result : Except JobError Unit}
    (h : job.killProcess = (job', result)) :
    (result = .ok () ∧ job' = { job with process := job.process.kill }) ∨
      (∃ e, result = .error e) ∧ job' = job := by
  unfold killProcess at h
  split at h
  · cases h
    exact .inl ⟨rfl, rfl⟩
  · cases h
    exact .inr ⟨⟨_, rfl⟩, rfl⟩

/-- A transition of an active job to a record that is open. -/
theorem Active.transition {status : Status} {append : Except StateError Unit}
    {result : Except JobError Unit} (hactive : Active job)
    (hstatus : status = .running ∨ status = .cancelRequested) (hopen : state.Open)
    (h : job.transition status state append = (job', result)) :
    Active job' ∧ job'.eof = job.eof := by
  rcases transition_cases h with ⟨_, rfl⟩ | ⟨_, rfl⟩
  · exact ⟨⟨hstatus, hopen⟩, rfl⟩
  · exact ⟨hactive, rfl⟩

theorem Active.killProcess {result : Except JobError Unit} (hactive : Active job)
    (h : job.killProcess = (job', result)) : Active job' ∧ job'.eof = job.eof := by
  rcases killProcess_cases h with ⟨_, rfl⟩ | ⟨_, rfl⟩
  · exact ⟨⟨hactive.status, hactive.state⟩, rfl⟩
  · exact ⟨hactive, rfl⟩

/-- Signals keep an active job active. -/
theorem Active.signal {signal : JobSignal} {w : SignalWorld} {result : Except JobError Unit}
    (hactive : Active job) (h : job.signal signal w = (job', result)) :
    Active job' ∧ job'.eof = job.eof := by
  unfold Job.signal at h
  rw [if_neg (by rcases hactive.status with h | h <;> rw [h] <;> decide)] at h
  dsimp only at h
  split at h
  · next j e hrequested =>
    cases h
    split at hrequested
    · cases hrequested
    · exact hactive.transition (.inr rfl) (by exact hactive.state) hrequested
  · next j hrequested =>
    have hj : Active j ∧ j.eof = job.eof := by
      split at hrequested
      · cases hrequested
        exact ⟨hactive, rfl⟩
      · exact hactive.transition (.inr rfl) (by exact hactive.state) hrequested
    split at h
    · split at h
      · next hkill =>
        cases h
        obtain ⟨hj', heof⟩ := hj.1.killProcess hkill
        exact ⟨hj', heof.trans hj.2⟩
      · next hkill =>
        obtain ⟨hj', heof⟩ := hj.1.killProcess hkill
        obtain ⟨hactive', heof'⟩ :=
          hj'.transition (.inr rfl) (JobState.open_of_reason rfl) h
        exact ⟨hactive', heof'.trans (heof.trans hj.2)⟩
    · cases h
      exact hj

/-! ## A poll -/

/-- The local record is open, and a disturbed process has a reason or the grace period is over. -/
structure Going (elapsed now : Nat) (ends : Prop) (job : Job) (state : JobState) : Prop where
  active : Active job
  isOpen : state.Open
  eof : job.eof = true → ends
  reason : ends → ∀ code, job.process = .exited code true →
    state.terminationReason.isSome = true ∨ graceExpired state elapsed now = true

variable {elapsed now : Nat} {ends : Prop}

theorem Going.of_reason {reason : JobTerminationReason} (hactive : Active job)
    (hreason : reason.isNormal = false) (heof : job.eof = true → ends) :
    Going elapsed now ends job { state with terminationReason := some reason } :=
  ⟨hactive, JobState.open_of_reason hreason, heof, fun _ _ _ => .inl rfl⟩

/-- The loop over what the pipes deliver. -/
theorem Going.drain {received : List Received} {drained : Drained}
    {result : Except JobError JobState} (hgoing : Going elapsed now ends job state)
    (hdrained : drained = .disconnected → ends)
    (h : job.drain state received drained = (job', result)) :
    Active job' ∧ ∀ state', result = .ok state' → Going elapsed now ends job' state' := by
  induction received generalizing job state with
  | nil =>
      cases h
      refine ⟨⟨hgoing.active.status, hgoing.active.state⟩, fun state' hok => ?_⟩
      cases hok
      refine ⟨⟨hgoing.active.status, hgoing.active.state⟩, hgoing.isOpen, fun heof => ?_,
        hgoing.reason⟩
      rcases Bool.or_eq_true_iff.mp heof with heof | heof
      · exact hgoing.eof heof
      · exact hdrained (of_decide_eq_true heof)
  | cons first rest ih =>
      cases first with
      | chunk recorded w limit =>
        unfold Job.drain at h
        split at h
        · split at h
          · next hsignal =>
            cases h
            exact ⟨(hgoing.active.signal hsignal).1, fun _ hok => nomatch hok⟩
          · next j hsignal =>
            obtain ⟨hj, heof⟩ := hgoing.active.signal hsignal
            dsimp only at h
            split at h
            · next hlimit =>
              cases h
              exact ⟨(hj.transition (.inr rfl) (JobState.open_of_reason rfl) hlimit).1,
                fun _ hok => nomatch hok⟩
            · next hlimit =>
              obtain ⟨hj', heof'⟩ :=
                hj.transition (.inr rfl) (JobState.open_of_reason rfl) hlimit
              refine ih (.of_reason hj' rfl fun hend => ?_) h
              exact hgoing.eof (heof ▸ heof' ▸ hend)
        · exact ih hgoing h
      | failed e =>
        unfold Job.drain at h
        dsimp only at h
        split at h
        · next hkill =>
          cases h
          exact ⟨(hgoing.active.killProcess hkill).1, fun _ hok => nomatch hok⟩
        · next hkill =>
          obtain ⟨hj, heof⟩ := hgoing.active.killProcess hkill
          exact ih (.of_reason hj rfl fun hend => hgoing.eof (heof ▸ hend)) h

theorem Going.journalOutput {due : Option (Except StateError Unit)}
    {result : Except JobError JobState} (hgoing : Going elapsed now ends job state)
    (h : job.journalOutput state due = (job', result)) :
    Active job' ∧ ∀ state', result = .ok state' → Going elapsed now ends job' state' := by
  unfold Job.journalOutput at h
  split at h
  · cases h
    exact ⟨hgoing.active, fun state' hok => by cases hok; exact hgoing⟩
  · split at h
    · next happend =>
      cases h
      exact ⟨(hgoing.active.transition hgoing.active.status hgoing.isOpen happend).1,
        fun _ hok => nomatch hok⟩
    · next happend =>
      cases h
      obtain ⟨hactive, heof⟩ :=
        hgoing.active.transition hgoing.active.status hgoing.isOpen happend
      refine ⟨hactive, fun state' hok => ?_⟩
      cases hok
      refine ⟨hactive, hgoing.isOpen, fun hend => hgoing.eof (heof ▸ hend),
        fun hends code hcode => hgoing.reason hends code ?_⟩
      rcases transition_cases happend with ⟨_, rfl⟩ | ⟨⟨_, herror⟩, _⟩
      · exact hcode
      · cases herror

theorem Going.limitTime {w : SignalWorld} {timeout : Except StateError Unit}
    {result : Except JobError JobState} (hgoing : Going elapsed now ends job state)
    (h : job.limitTime state elapsed w timeout = (job', result)) :
    Active job' ∧ ∀ state', result = .ok state' → Going elapsed now ends job' state' := by
  unfold Job.limitTime at h
  split at h
  · split at h
    · next hsignal =>
      cases h
      exact ⟨(hgoing.active.signal hsignal).1, fun _ hok => nomatch hok⟩
    · next hsignal =>
      obtain ⟨hj, heof⟩ := hgoing.active.signal hsignal
      dsimp only at h
      split at h
      · next htimeout =>
        cases h
        exact ⟨(hj.transition (.inr rfl) (JobState.open_of_reason rfl) htimeout).1,
          fun _ hok => nomatch hok⟩
      · next htimeout =>
        cases h
        obtain ⟨hj', heof'⟩ :=
          hj.transition (.inr rfl) (JobState.open_of_reason rfl) htimeout
        refine ⟨hj', fun state' hok => ?_⟩
        cases hok
        exact .of_reason hj' rfl fun hend => hgoing.eof (heof ▸ heof' ▸ hend)
  · cases h
    exact ⟨hgoing.active, fun state' hok => by cases hok; exact hgoing⟩

/-- After the grace period is checked, a disturbed process has a reason. -/
theorem Going.limitGrace {forced : Except StateError Unit} {result : Except JobError JobState}
    (hgoing : Going elapsed now ends job state)
    (h : job.limitGrace state elapsed now forced = (job', result)) :
    Active job' ∧ ∀ state', result = .ok state' → state'.Open ∧ (job'.eof = true → ends) ∧
      (ends → ∀ code, job'.process = .exited code true →
        state'.terminationReason.isSome = true) := by
  unfold Job.limitGrace at h
  split at h
  · split at h
    · next hkill =>
      cases h
      exact ⟨(hgoing.active.killProcess hkill).1, fun _ hok => nomatch hok⟩
    · next hkill =>
      obtain ⟨hj, heof⟩ := hgoing.active.killProcess hkill
      dsimp only at h
      split at h
      · next hforced =>
        cases h
        exact ⟨(hj.transition (.inr rfl) (JobState.open_of_reason rfl) hforced).1,
          fun _ hok => nomatch hok⟩
      · next hforced =>
        cases h
        obtain ⟨hj', heof'⟩ :=
          hj.transition (.inr rfl) (JobState.open_of_reason rfl) hforced
        refine ⟨hj', fun state' hok => ?_⟩
        cases hok
        exact ⟨JobState.open_of_reason rfl, fun hend => hgoing.eof (heof ▸ heof' ▸ hend),
          fun _ _ _ => rfl⟩
  · next hgrace =>
    cases h
    refine ⟨hgoing.active, fun state' hok => ?_⟩
    cases hok
    refine ⟨hgoing.isOpen, hgoing.eof, fun hends code hcode => ?_⟩
    rcases hgoing.reason hends code hcode with hsome | hexpired
    · exact hsome
    · have hforced := not_not.mp fun hnot => hgrace ⟨hexpired, hnot⟩
      cases hreason : state.terminationReason with
      | none =>
        rw [hreason] at hforced
        cases hforced
      | some reason => rfl

/-- A job whose disturbed process has a reason ends honestly. -/
theorem finish_cases {artifacts : Except String Unit} {terminal : Except StateError Unit}
    {result : Except JobError Bool} (hactive : Active job) (hopen : state.Open)
    (hreason : job.eof = true → ∀ code, job.process = .exited code true →
      state.terminationReason.isSome = true)
    (h : job.finish state artifacts terminal = (job', result)) :
    (Active job' ∧ result ≠ .ok true) ∨ Ended job' := by
  unfold finish at h
  split at h
  · cases h
    exact .inl ⟨hactive, nofun⟩
  · split at h
    · cases h
      exact .inl ⟨hactive, nofun⟩
    · next code hexit =>
      split at h
      · cases h
        exact .inl ⟨hactive, nofun⟩
      · next heof =>
        split at h
        · cases h
          exact .inl ⟨hactive, nofun⟩
        · dsimp only at h
          split at h
          · next happend =>
            cases h
            rcases transition_cases happend with ⟨hok, _⟩ | ⟨_, rfl⟩
            · cases hok
            · exact .inl ⟨hactive, nofun⟩
          · next happend =>
            cases h
            rcases transition_cases happend with ⟨_, rfl⟩ | ⟨⟨_, herror⟩, _⟩
            · refine .inr ⟨?_, ?_⟩
              · dsimp only
                split
                · exact .inl rfl
                · split
                  · exact .inr (.inl rfl)
                  · exact .inr (.inr rfl)
              · cases hprocess : job.process with
                | running =>
                  rw [hprocess] at hexit
                  cases hexit
                | exited code' disturbed =>
                  refine ⟨code', disturbed, _, rfl, rfl, fun hnormal => ?_⟩
                  cases disturbed with
                  | false => rfl
                  | true =>
                    obtain ⟨reason, hsome⟩ := Option.isSome_iff_exists.mp
                      (hreason (not_not.mp heof) code' hprocess)
                    rw [hsome, Option.getD_some, hopen reason hsome] at hnormal
                    cases hnormal
            · cases herror

/-- When a poll finds the process of a job gone that was disturbed, a reason is recorded or the grace
period is over. -/
def Accounted (job : Job) (w : PollWorld) : Prop :=
  (job.eof = true ∨ w.drained = .disconnected) → ∀ code, job.process = .exited code true →
    job.state.terminationReason.isSome = true ∨ graceExpired job.state w.elapsed w.now = true

/-- A poll of an active job leaves it active, or it ends it honestly. -/
theorem Active.poll {w : PollWorld} {result : Except JobError Bool} (hactive : Active job)
    (haccounted : job.Accounted w) (h : job.poll w = (job', result)) :
    (Active job' ∧ result ≠ .ok true) ∨ Ended job' := by
  have hgoing : Going w.elapsed w.now (job.eof = true ∨ w.drained = .disconnected) job job.state :=
    ⟨hactive, hactive.state, .inl, haccounted⟩
  unfold Job.poll at h
  rw [if_neg (by rcases hactive.status with h | h <;> rw [h] <;> decide)] at h
  split at h
  · next hdrain =>
    cases h
    exact .inl ⟨(hgoing.drain .inr hdrain).1, nofun⟩
  · next hdrain =>
    have hdrained := (hgoing.drain .inr hdrain).2 _ rfl
    split at h
    · next houtput =>
      cases h
      exact .inl ⟨(hdrained.journalOutput houtput).1, nofun⟩
    · next houtput =>
      have hjournaled := (hdrained.journalOutput houtput).2 _ rfl
      split at h
      · next htime =>
        cases h
        exact .inl ⟨(hjournaled.limitTime htime).1, nofun⟩
      · next htime =>
        have htimed := (hjournaled.limitTime htime).2 _ rfl
        split at h
        · next hgrace =>
          cases h
          exact .inl ⟨(htimed.limitGrace hgrace).1, nofun⟩
        · next hgrace =>
          obtain ⟨hactive', hrest⟩ := htimed.limitGrace hgrace
          obtain ⟨hopen, heof, hreason⟩ := hrest _ rfl
          exact finish_cases hactive' hopen (fun hend => hreason (heof hend)) h

end Job

end Omp2.Runtime
