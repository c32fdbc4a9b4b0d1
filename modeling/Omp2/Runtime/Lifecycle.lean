import Omp2.Library.Machine
import Omp2.Runtime.LiveJob

/-!
# The records of a job

The status of a job only moves on, and one terminal record ends its log, whatever the pipes, the
clocks, the process and the journal do. The first reason that is recorded is the one it ends with as
long as no second reason comes on top of it. A failed `spawn` leaves a terminal record when the
journal takes its transitions and the input fits into one request.
-/

namespace Omp2.Runtime

open Omp2.State List

/-- How far a status is in the life of a job. -/
def lifeStage : Status → Option Nat
  | .queued => some 0
  | .running => some 1
  | .cancelRequested => some 2
  | .succeeded | .failed | .cancelled => some 3
  | _ => none

/-- A status that is not the last one stays or moves on. -/
def Advances (status status' : Status) : Prop :=
  ∃ first second, lifeStage status = some first ∧ lifeStage status' = some second ∧ first < 3 ∧
    first ≤ second

theorem Advances.not_terminal {status status' : Status} (h : Advances status status') :
    isTerminalJob status = false := by
  obtain ⟨first, _, hfirst, _, hlt, _⟩ := h
  cases status <;> first | rfl | cases hfirst <;> omega

/-- The reason that is recorded first. -/
def firstReason (log : List JobRecord) : Option JobTerminationReason :=
  log.findSome? fun record => record.state.terminationReason

theorem firstReason_append (log : List JobRecord) (record : JobRecord) :
    firstReason (log ++ [record]) = (firstReason log).or record.state.terminationReason := by
  unfold firstReason
  rw [findSome?_append, findSome?_singleton]

/-- A reason that is recorded is kept. -/
def Keeps (recorded state : JobState) : Prop :=
  recorded.terminationReason.isSome = true → state.terminationReason = recorded.terminationReason

namespace LiveJob

variable {l l' : LiveJob} {state : JobState} {K : Prop}

/-- The records of a job that has not ended. The part about reasons is under a condition. -/
structure Underway (K : Prop) (l : LiveJob) : Prop where
  active : l.job.status = .running ∨ l.job.status = .cancelRequested
  current : l.log.getLast? = some ⟨l.job.status, l.job.state, l.text⟩
  begins : l.log.head?.map JobRecord.status = some .queued
  ordered : l.log.Pairwise fun r r' => Advances r.status r'.status
  below : ∀ r ∈ l.log, Advances r.status l.job.status
  first : K → firstReason l.log = l.job.state.terminationReason

/-- The job after a patch. -/
def written (l : LiveJob) (status : Status) (state : JobState) (text : String) : LiveJob :=
  { l with job := { l.job with status, state }, text, log := l.log ++ [⟨status, state, text⟩] }

theorem transition_cases {status : Status} {text : String} {append : Except StateError Unit}
    {result : Except JobError Unit} (h : l.transition status state text append = (l', result)) :
    (result = .ok () ∧ l' = l.written status state text) ∨ (∃ e, result = .error e) ∧ l' = l := by
  unfold transition Job.transition at h
  cases append with
  | error e =>
      cases h
      exact .inr ⟨⟨_, rfl⟩, rfl⟩
  | ok done =>
      cases h
      exact .inl ⟨rfl, rfl⟩

theorem killProcess_cases {result : Except JobError Unit} (h : l.killProcess = (l', result)) :
    (result = .ok () ∧ l' = { l with job := { l.job with process := l.job.process.kill } }) ∨
      (∃ e, result = .error e) ∧ l' = l := by
  unfold killProcess Job.killProcess at h
  split at h
  next job result' hkill =>
    split at hkill
    · cases hkill
      cases h
      exact .inl ⟨rfl, rfl⟩
    · cases hkill
      cases h
      exact .inr ⟨⟨_, rfl⟩, rfl⟩

/-- The record of the job is the same. -/
structure SameRecord (l l' : LiveJob) : Prop where
  status : l'.job.status = l.job.status
  state : l'.job.state = l.job.state
  text : l'.text = l.text
  log : l'.log = l.log

theorem Underway.congr (h : Underway K l) (hsame : SameRecord l l') : Underway K l' := by
  obtain ⟨hactive, hcurrent, hbegins, hordered, hbelow, hfirst⟩ := h
  rw [← hsame.status] at hactive hcurrent hbelow
  rw [← hsame.state] at hcurrent hfirst
  rw [← hsame.text] at hcurrent
  rw [← hsame.log] at hcurrent hbegins hordered hbelow hfirst
  exact ⟨hactive, hcurrent, hbegins, hordered, hbelow, hfirst⟩

/-- The records after a patch whose status is not behind. -/
theorem Underway.append (h : Underway K l) (status : Status) (state : JobState) (text : String)
    (hstatus : ∀ r ∈ l.log, Advances r.status status) :
    (l.written status state text).log.Pairwise (fun r r' => Advances r.status r'.status) ∧
      (l.written status state text).log.head?.map JobRecord.status = some .queued ∧
      (l.written status state text).log.getLast? = some ⟨status, state, text⟩ := by
  refine ⟨?_, ?_, getLast?_concat⟩
  · refine pairwise_append.mpr ⟨h.ordered, pairwise_singleton _ _, ?_⟩
    intro r hr r' hr'
    obtain rfl := mem_singleton.mp hr'
    exact hstatus r hr
  · have hbegins := h.begins
    unfold written
    dsimp only
    cases hlog : l.log with
    | nil =>
      rw [hlog] at hbegins
      cases hbegins
    | cons first rest =>
      rw [hlog] at hbegins
      exact hbegins

/-- The first reason after a patch that keeps the recorded one. -/
theorem Underway.first_append (h : Underway K l) (hK : K) (hkeeps : Keeps l.job.state state)
    (status : Status) (text : String) :
    firstReason (l.log ++ [⟨status, state, text⟩]) = state.terminationReason := by
  rw [firstReason_append, h.first hK]
  cases hrecorded : l.job.state.terminationReason with
  | none => rfl
  | some reason =>
      unfold Keeps at hkeeps
      rw [hrecorded] at hkeeps
      rw [hkeeps rfl]
      rfl

/-- A patch to the same status or to a requested cancellation. -/
theorem Underway.written (h : Underway K l) {status : Status} (text : String)
    (hstatus : status = l.job.status ∨ status = .cancelRequested)
    (hkeeps : K → Keeps l.job.state state) : Underway K (l.written status state text) := by
  have hadvances : ∀ from', (from' = l.job.status ∨ Advances from' l.job.status) →
      Advances from' status := by
    intro from' hfrom
    rcases hfrom with rfl | ⟨first, second, hfirst, hsecond, hlt, hle⟩
    · rcases hstatus with rfl | rfl
      · rcases h.active with hactive | hactive <;> rw [hactive]
        · exact ⟨1, 1, rfl, rfl, by decide, by decide⟩
        · exact ⟨2, 2, rfl, rfl, by decide, by decide⟩
      · rcases h.active with hactive | hactive <;> rw [hactive]
        · exact ⟨1, 2, rfl, rfl, by decide, by decide⟩
        · exact ⟨2, 2, rfl, rfl, by decide, by decide⟩
    · rcases hstatus with rfl | rfl
      · exact ⟨first, second, hfirst, hsecond, hlt, hle⟩
      · exact ⟨first, 2, hfirst, rfl, hlt, by omega⟩
  have hbelow : ∀ r ∈ l.log, Advances r.status status :=
    fun r hr => hadvances r.status (.inr (h.below r hr))
  obtain ⟨hordered, hbegins, hcurrent⟩ := h.append status state text hbelow
  refine ⟨?_, hcurrent, hbegins, hordered, ?_, fun hK => h.first_append hK (hkeeps hK) _ _⟩
  · rcases hstatus with rfl | rfl
    · exact h.active
    · exact .inr rfl
  · intro r hr
    rcases mem_append.mp hr with hr | hr
    · exact hbelow r hr
    · obtain rfl := mem_singleton.mp hr
      show Advances status status
      rcases hstatus with rfl | rfl
      · exact hadvances _ (.inl rfl)
      · exact ⟨2, 2, rfl, rfl, by decide, by decide⟩

/-! ## Signals -/

/-- A state whose cancellation is requested. -/
def cancelledState (state : JobState) (w : Job.SignalWorld) : JobState :=
  match state.cancelRequestedMs with
  | some _ => state
  | none =>
    { state with cancelRequestedMs := some w.now, cancelRequestedElapsedMs := some w.elapsed }

/-- Requesting a cancellation keeps the reason. -/
theorem Underway.requestCancel {w : Job.SignalWorld} {result : Except JobError Unit}
    (h : Underway K l) (hrequest : l.requestCancel w = (l', result)) :
    Underway K l' ∧ l'.job.state.terminationReason = l.job.state.terminationReason ∧
      (result = .ok () → l'.job.state = cancelledState l.job.state w) := by
  unfold LiveJob.requestCancel at hrequest
  unfold cancelledState
  cases hcancel : l.job.state.cancelRequestedMs with
  | some requested =>
      rw [hcancel] at hrequest
      cases hrequest
      exact ⟨h, rfl, fun _ => rfl⟩
  | none =>
      rw [hcancel] at hrequest
      dsimp only at hrequest
      split at hrequest
      · next htransition =>
        cases hrequest
        rcases transition_cases htransition with ⟨hok, _⟩ | ⟨_, rfl⟩
        · cases hok
        · exact ⟨h, rfl, nofun⟩
      · next htransition =>
        cases hrequest
        rcases transition_cases htransition with ⟨_, rfl⟩ | ⟨⟨_, herror⟩, _⟩
        · refine ⟨Underway.congr (h.written l.text (.inr rfl) fun _ _ => ?_) ⟨rfl, rfl, rfl, rfl⟩,
            rfl, fun _ => rfl⟩
          rfl
        · cases herror

theorem Underway.not_terminal (h : Underway K l) : ¬ isTerminalJob l.job.status = true := by
  rcases h.active with hactive | hactive <;> rw [hactive] <;> decide

/-- A signal, which is a kill only when no reason is recorded. -/
theorem Underway.signal {signal : JobSignal} {w : Job.SignalWorld} {result : Except JobError Unit}
    (h : Underway K l) (hkill : K → signal = .kill → l.job.state.terminationReason = none)
    (hsignal : l.signal signal w = (l', result)) :
    Underway K l' ∧ (signal ≠ .kill →
      l'.job.state.terminationReason = l.job.state.terminationReason ∧
      (result = .ok () → l'.job.state = cancelledState l.job.state w)) := by
  unfold LiveJob.signal at hsignal
  rw [if_neg h.not_terminal] at hsignal
  split at hsignal
  · next hrequest =>
    cases hsignal
    obtain ⟨h₁, hreason, _⟩ := h.requestCancel hrequest
    exact ⟨h₁, fun _ => ⟨hreason, nofun⟩⟩
  · next l₁ hrequest =>
    obtain ⟨h₁, hreason, hstate⟩ := h.requestCancel hrequest
    split at hsignal
    · next hsame =>
      split at hsignal
      · next hkilled =>
        cases hsignal
        rcases killProcess_cases hkilled with ⟨hok, _⟩ | ⟨_, rfl⟩
        · cases hok
        · exact ⟨h₁, fun hne => absurd hsame hne⟩
      · next l₂ hkilled =>
        rcases killProcess_cases hkilled with ⟨_, rfl⟩ | ⟨⟨_, herror⟩, _⟩
        · have h₂ : Underway K { l₁ with job :=
              { l₁.job with process := l₁.job.process.kill } } :=
            h₁.congr ⟨rfl, rfl, rfl, rfl⟩
          refine ⟨?_, fun hne => absurd hsame hne⟩
          rcases transition_cases hsignal with ⟨_, rfl⟩ | ⟨_, rfl⟩
          · refine h₂.written _ (.inr rfl) fun hK hsome => ?_
            rw [show ({ l₁ with job := { l₁.job with process := l₁.job.process.kill } } :
              LiveJob).job.state.terminationReason = none from
              hreason.trans (hkill hK hsame)] at hsome
            cases hsome
          · exact h₂
        · cases herror
    · cases hsignal
      exact ⟨h₁, fun _ => ⟨hreason, fun _ => hstate rfl⟩⟩

/-- A limit that is exceeded when no reason is recorded. -/
theorem Underway.stop {reason : JobTerminationReason} {w : Job.SignalWorld}
    {append : Except StateError Unit} {result : Except JobError JobState} (h : Underway K l)
    (hnone : K → l.job.state.terminationReason = none)
    (hstop : l.stop reason w append = (l', result)) :
    Underway K l' ∧ ∀ state, result = .ok state → l'.job.state = state ∧
      state = { cancelledState l.job.state w with terminationReason := some reason } := by
  have hquiet : K → JobSignal.terminate = .kill → l.job.state.terminationReason = none :=
    fun _ heq => nomatch heq
  unfold LiveJob.stop at hstop
  split at hstop
  · next hsignal =>
    cases hstop
    exact ⟨(h.signal hquiet hsignal).1, fun _ => nofun⟩
  · next l₁ hsignal =>
    obtain ⟨h₁, hrest⟩ := h.signal hquiet hsignal
    obtain ⟨hreason, hstate⟩ := hrest (by decide)
    dsimp only at hstop
    split at hstop
    · next htransition =>
      cases hstop
      rcases transition_cases htransition with ⟨hok, _⟩ | ⟨_, rfl⟩
      · cases hok
      · exact ⟨h₁, fun _ => nofun⟩
    · next htransition =>
      cases hstop
      rcases transition_cases htransition with ⟨_, rfl⟩ | ⟨⟨_, herror⟩, _⟩
      · refine ⟨h₁.written _ (.inr rfl) fun hK hsome => ?_, fun state hok => ?_⟩
        · rw [hreason, hnone hK] at hsome
          cases hsome
        · cases hok
          exact ⟨rfl, by rw [hstate rfl]⟩
      · cases herror

/-! ## What arrives -/

/-- The worlds of the chunks that arrive. -/
def chunkWorlds : List Arrival → List Job.SignalWorld
  | [] => []
  | .chunk _ _ w _ :: rest => w :: chunkWorlds rest
  | .failed _ :: rest => chunkWorlds rest

/-- A pipe fails. -/
def PipeFails (arrived : List Arrival) : Prop :=
  ∃ e, Arrival.failed e ∈ arrived

/-- The chunks that arrive exceed the limit of a job that is not cancelled. -/
structure ExceedsEvents (l : LiveJob) (state : JobState) (arrived : List Arrival) : Prop where
  uncancelled : state.cancelRequestedMs.isNone = true
  arrives : chunkWorlds arrived ≠ []
  exceeds : l.maxEvents < l.eventCount + (chunkWorlds arrived).length

/-- The state is the same but for its reason. -/
def SameButReason (state state' : JobState) : Prop :=
  ∃ reason, state' = { state with terminationReason := reason }

/-- What the loop over the arrivals does to the state. -/
def DrainedState (l l' : LiveJob) (state state' : JobState) (arrived : List Arrival) : Prop :=
  (¬ ExceedsEvents l state arrived ∧ l'.job.state = l.job.state ∧ SameButReason state state' ∧
    (¬ PipeFails arrived → state' = state)) ∨
  ExceedsEvents l state arrived ∧ ∃ w ∈ chunkWorlds arrived,
    SameButReason (cancelledState l.job.state w) state'

/-- The loop over the arrivals, when at most one reason comes up. -/
theorem Underway.drain {arrived : List Arrival} {drained : Job.Drained}
    {result : Except JobError JobState} (h : Underway K l)
    (hsync : state.cancelRequestedMs = l.job.state.cancelRequestedMs)
    (hkeeps : K → Keeps l.job.state state)
    (hrecorded : K → l.job.state.terminationReason.isSome = true →
      ¬ PipeFails arrived ∧ ¬ ExceedsEvents l state arrived)
    (hpipe : K → PipeFails arrived → ¬ ExceedsEvents l state arrived)
    (hdrain : l.drain state arrived drained = (l', result)) :
    Underway K l' ∧ ∀ state', result = .ok state' → (K → Keeps l'.job.state state') ∧
      DrainedState l l' state state' arrived := by
  induction arrived generalizing l state with
  | nil =>
      cases hdrain
      refine ⟨h.congr ⟨rfl, rfl, rfl, rfl⟩, fun state' hok => ?_⟩
      cases hok
      exact ⟨hkeeps, .inl ⟨fun hexceeds => hexceeds.arrives rfl, rfl, ⟨_, rfl⟩, fun _ => rfl⟩⟩
  | cons first rest ih =>
      cases first with
      | chunk chunk failure w limit =>
        have hfails : PipeFails rest → PipeFails (.chunk chunk failure w limit :: rest) :=
          fun ⟨e, he⟩ => ⟨e, mem_cons_of_mem _ he⟩
        have hfails' : PipeFails (.chunk chunk failure w limit :: rest) → PipeFails rest := by
          rintro ⟨e, he⟩
          rcases mem_cons.mp he with heq | he
          · cases heq
          · exact ⟨e, he⟩
        have hpush : Underway K (l.push chunk failure) := h.congr ⟨rfl, rfl, rfl, rfl⟩
        unfold LiveJob.drain at hdrain
        dsimp only at hdrain
        split at hdrain
        · next hlimit =>
          obtain ⟨hcount, huncancelled⟩ := hlimit
          have hexceeds : ExceedsEvents l state (.chunk chunk failure w limit :: rest) := by
            refine ⟨huncancelled, cons_ne_nil _ _, ?_⟩
            have hcount' : l.maxEvents < l.eventCount + 1 := hcount
            unfold chunkWorlds
            rw [length_cons]
            omega
          have hnone : K → l.job.state.terminationReason = none := by
            intro hK
            by_contra hsome
            exact (hrecorded hK (Option.isSome_iff_ne_none.mpr hsome)).2 hexceeds
          split at hdrain
          · next hstop =>
            cases hdrain
            exact ⟨(hpush.stop hnone hstop).1, fun _ => nofun⟩
          · next l₁ state₁ hstop =>
            obtain ⟨h₁, hstopped⟩ := hpush.stop hnone hstop
            obtain ⟨hstate₁, hreason₁⟩ := hstopped _ rfl
            have hcancelled : ¬ state₁.cancelRequestedMs.isNone = true := by
              rw [hreason₁]
              unfold cancelledState
              rw [show (l.push chunk failure).job.state.cancelRequestedMs =
                state.cancelRequestedMs from hsync.symm,
                Option.isNone_iff_eq_none.mp huncancelled]
              exact Bool.false_ne_true
            have hnot : ¬ ExceedsEvents l₁ state₁ rest :=
              fun hexceeds => hcancelled hexceeds.uncancelled
            obtain ⟨h', hrest⟩ := ih h₁ (by rw [hstate₁]) (fun _ _ => by rw [hstate₁])
              (fun hK _ => ⟨fun hf => hpipe hK (hfails hf) hexceeds, hnot⟩)
              (fun _ _ => hnot) hdrain
            refine ⟨h', fun state' hok => ?_⟩
            obtain ⟨hkeeps', hcases⟩ := hrest state' hok
            refine ⟨hkeeps', .inr ⟨hexceeds, w, mem_cons_self, ?_⟩⟩
            rcases hcases with ⟨_, _, ⟨reason, hsame⟩, _⟩ | ⟨hmore, _⟩
            · exact ⟨reason, by rw [hsame, hreason₁]; rfl⟩
            · exact absurd hmore hnot
        · next hlimit =>
          have hiff : ExceedsEvents (l.push chunk failure) state rest ↔
              ExceedsEvents l state (.chunk chunk failure w limit :: rest) := by
            constructor
            · rintro ⟨huncancelled, harrives, hexceeds⟩
              have hexceeds' : l.maxEvents < l.eventCount + 1 + (chunkWorlds rest).length :=
                hexceeds
              refine ⟨huncancelled, cons_ne_nil _ _, ?_⟩
              unfold chunkWorlds
              rw [length_cons]
              omega
            · rintro ⟨huncancelled, _, hexceeds⟩
              unfold chunkWorlds at hexceeds
              rw [length_cons] at hexceeds
              have hcount : ¬ l.maxEvents < l.eventCount + 1 :=
                fun hcount => hlimit ⟨hcount, huncancelled⟩
              refine ⟨huncancelled, fun hnil => ?_, ?_⟩
              · rw [hnil] at hexceeds
                exact hcount hexceeds
              · show l.maxEvents < l.eventCount + 1 + (chunkWorlds rest).length
                omega
          obtain ⟨h', hrest⟩ := ih hpush hsync hkeeps
            (fun hK hsome => ⟨fun hf => (hrecorded hK hsome).1 (hfails hf),
              fun hexceeds => (hrecorded hK hsome).2 (hiff.mp hexceeds)⟩)
            (fun hK hf hexceeds => hpipe hK (hfails hf) (hiff.mp hexceeds)) hdrain
          refine ⟨h', fun state' hok => ?_⟩
          obtain ⟨hkeeps', hcases⟩ := hrest state' hok
          refine ⟨hkeeps', ?_⟩
          rcases hcases with ⟨hnot, hstate, hsame, hquiet⟩ | ⟨hexceeds, w', hw', hsame⟩
          · exact .inl ⟨fun hexceeds => hnot (hiff.mpr hexceeds), hstate, hsame,
              fun hnone => hquiet fun hf => hnone (hfails hf)⟩
          · exact .inr ⟨hiff.mp hexceeds, w', mem_cons_of_mem _ hw', hsame⟩
      | failed e =>
        have hfails : PipeFails (.failed e :: rest) := ⟨e, mem_cons_self⟩
        unfold LiveJob.drain at hdrain
        dsimp only at hdrain
        split at hdrain
        · next hkill =>
          cases hdrain
          rcases killProcess_cases hkill with ⟨hok, _⟩ | ⟨_, rfl⟩
          · cases hok
          · exact ⟨h, fun _ => nofun⟩
        · next l₁ hkill =>
          rcases killProcess_cases hkill with ⟨_, rfl⟩ | ⟨⟨_, herror⟩, _⟩
          · have hnone : K → ¬ l.job.state.terminationReason.isSome = true :=
              fun hK hsome => (hrecorded hK hsome).1 hfails
            have hiff : ∀ reason, ExceedsEvents
                { l with job := { l.job with process := l.job.process.kill } }
                { state with terminationReason := reason } rest ↔
                ExceedsEvents l state (.failed e :: rest) :=
              fun _ => ⟨fun ⟨ha, hb, hc⟩ => ⟨ha, hb, hc⟩, fun ⟨ha, hb, hc⟩ => ⟨ha, hb, hc⟩⟩
            have hkilled : Underway K
                { l with job := { l.job with process := l.job.process.kill } } :=
              h.congr ⟨rfl, rfl, rfl, rfl⟩
            obtain ⟨h', hrest⟩ := ih hkilled (by exact hsync)
              (fun hK hsome => absurd hsome (hnone hK))
              (fun hK hsome => absurd hsome (hnone hK))
              (fun hK _ hexceeds => hpipe hK hfails ((hiff _).mp hexceeds)) hdrain
            refine ⟨h', fun state' hok => ?_⟩
            obtain ⟨hkeeps', hcases⟩ := hrest state' hok
            refine ⟨hkeeps', ?_⟩
            rcases hcases with ⟨hnot, hstate, ⟨reason, hsame⟩, _⟩ | ⟨hexceeds, w', hw', hsame⟩
            · exact .inl ⟨fun hexceeds => hnot ((hiff _).mpr hexceeds), hstate,
                ⟨reason, hsame⟩, fun hquiet => absurd hfails hquiet⟩
            · exact .inr ⟨(hiff _).mp hexceeds, w', hw', hsame⟩
          · cases herror

/-! ## The other parts of a poll -/

/-- The output is journaled with the local state. -/
theorem Underway.journalOutput {now : Nat} {append : Except StateError Unit}
    {result : Except JobError JobState} (h : Underway K l) (hkeeps : K → Keeps l.job.state state)
    (hjournal : l.journalOutput state now append = (l', result)) :
    Underway K l' ∧ ∀ state', result = .ok state' → state' = state ∧
      (l'.job.state = l.job.state ∨ l'.job.state = state) := by
  unfold LiveJob.journalOutput at hjournal
  split at hjournal
  · dsimp only at hjournal
    have hcounted : Underway K { l with bytesJournaled := l.totalBytes, lastJournalMs := now } :=
      h.congr ⟨rfl, rfl, rfl, rfl⟩
    split at hjournal
    · next htransition =>
      cases hjournal
      rcases transition_cases htransition with ⟨hok, _⟩ | ⟨_, rfl⟩
      · cases hok
      · exact ⟨hcounted, fun _ => nofun⟩
    · next htransition =>
      cases hjournal
      rcases transition_cases htransition with ⟨_, rfl⟩ | ⟨⟨_, herror⟩, _⟩
      · have hwritten := hcounted.written l.output (.inl rfl) hkeeps
        refine ⟨hwritten.congr ⟨rfl, rfl, rfl, rfl⟩, fun state' hok => ?_⟩
        cases hok
        exact ⟨rfl, .inr rfl⟩
      · cases herror
  · cases hjournal
    exact ⟨h, fun state' hok => by cases hok; exact ⟨rfl, .inl rfl⟩⟩

/-- The time limit of a job that is not cancelled has passed. -/
structure ExceedsTime (state : JobState) (elapsed : Nat) : Prop where
  uncancelled : state.cancelRequestedMs.isNone = true
  passed : state.maxWallTime ≤ elapsed

/-- The time limit, which is recorded when no reason is. -/
theorem Underway.limitTime {elapsed : Nat} {w : Job.SignalWorld} {timeout : Except StateError Unit}
    {result : Except JobError JobState} (h : Underway K l) (hkeeps : K → Keeps l.job.state state)
    (hnone : K → ExceedsTime state elapsed → l.job.state.terminationReason = none)
    (hlimit : l.limitTime state elapsed w timeout = (l', result)) :
    Underway K l' ∧ ∀ state', result = .ok state' → (K → Keeps l'.job.state state') ∧
      (l' = l ∧ state' = state ∨
        ExceedsTime state elapsed ∧ SameButReason (cancelledState l.job.state w) state') := by
  unfold LiveJob.limitTime at hlimit
  split at hlimit
  · next hpassed =>
    have hexceeds : ExceedsTime state elapsed := ⟨hpassed.2, hpassed.1⟩
    obtain ⟨h', hstopped⟩ := h.stop (fun hK => hnone hK hexceeds) hlimit
    refine ⟨h', fun state' hok => ?_⟩
    obtain ⟨hstate, hreason⟩ := hstopped state' hok
    exact ⟨fun _ _ => by rw [hstate], .inr ⟨hexceeds, _, hreason⟩⟩
  · cases hlimit
    exact ⟨h, fun state' hok => by cases hok; exact ⟨hkeeps, .inl ⟨rfl, rfl⟩⟩⟩

/-- The grace period of a cancellation is over and the process was not killed. -/
structure GraceKills (state : JobState) (elapsed now : Nat) : Prop where
  expired : Job.graceExpired state elapsed now = true
  alive : ¬ state.terminationReason.any JobTerminationReason.isForcedKill = true

/-- The kill after the grace period, which is recorded when no reason is. -/
theorem Underway.limitGrace {elapsed now : Nat} {forced : Except StateError Unit}
    {result : Except JobError JobState} (h : Underway K l) (hkeeps : K → Keeps l.job.state state)
    (hnone : K → GraceKills state elapsed now → l.job.state.terminationReason = none)
    (hlimit : l.limitGrace state elapsed now forced = (l', result)) :
    Underway K l' ∧ ∀ state', result = .ok state' → K → Keeps l'.job.state state' := by
  unfold LiveJob.limitGrace at hlimit
  split at hlimit
  · next hexpired =>
    have hkills : GraceKills state elapsed now := ⟨hexpired.1, hexpired.2⟩
    split at hlimit
    · next hkill =>
      cases hlimit
      rcases killProcess_cases hkill with ⟨hok, _⟩ | ⟨_, rfl⟩
      · cases hok
      · exact ⟨h, fun _ => nofun⟩
    · next l₁ hkill =>
      rcases killProcess_cases hkill with ⟨_, rfl⟩ | ⟨⟨_, herror⟩, _⟩
      · have hkilled : Underway K
            { l with job := { l.job with process := l.job.process.kill } } :=
          h.congr ⟨rfl, rfl, rfl, rfl⟩
        dsimp only at hlimit
        split at hlimit
        · next htransition =>
          cases hlimit
          rcases transition_cases htransition with ⟨hok, _⟩ | ⟨_, rfl⟩
          · cases hok
          · exact ⟨hkilled, fun _ => nofun⟩
        · next htransition =>
          cases hlimit
          rcases transition_cases htransition with ⟨_, rfl⟩ | ⟨⟨_, herror⟩, _⟩
          · refine ⟨hkilled.written _ (.inr rfl) fun hK hsome => ?_, fun state' hok _ _ => ?_⟩
            · rw [show ({ l with job := { l.job with process := l.job.process.kill } } :
                LiveJob).job.state.terminationReason = none from hnone hK hkills] at hsome
              cases hsome
            · cases hok
              rfl
          · cases herror
      · cases herror
  · cases hlimit
    exact ⟨h, fun state' hok hK => by cases hok; exact hkeeps hK⟩

/-- The records of a job that has ended. -/
structure Over (K : Prop) (l : LiveJob) : Prop where
  ended : lifeStage l.job.status = some 3
  current : l.log.getLast? = some ⟨l.job.status, l.job.state, l.text⟩
  begins : l.log.head?.map JobRecord.status = some .queued
  ordered : l.log.Pairwise fun r r' => Advances r.status r'.status
  first : K → firstReason l.log = l.job.state.terminationReason

theorem lifeStage_endStatus (state : JobState) (code : Int32) :
    lifeStage (endStatus state code) = some 3 := by
  unfold endStatus
  split
  · rfl
  · split <;> rfl

/-- The terminal transition ends the log, or the job goes on. -/
theorem Underway.finish {artifacts : Except String Unit} {terminal : Except StateError Unit}
    {result : Except JobError Bool} (h : Underway K l) (hkeeps : K → Keeps l.job.state state)
    (hfinish : l.finish state artifacts terminal = (l', result)) :
    (Underway K l' ∧ result ≠ .ok true) ∨ Over K l' := by
  unfold LiveJob.finish at hfinish
  split at hfinish
  · cases hfinish
    exact .inl ⟨h, nofun⟩
  · split at hfinish
    · cases hfinish
      exact .inl ⟨h, nofun⟩
    · next code _ =>
      split at hfinish
      · cases hfinish
        exact .inl ⟨h, nofun⟩
      · split at hfinish
        · cases hfinish
          exact .inl ⟨h, nofun⟩
        · dsimp only at hfinish
          split at hfinish
          · next htransition =>
            cases hfinish
            rcases transition_cases htransition with ⟨hok, _⟩ | ⟨_, rfl⟩
            · cases hok
            · exact .inl ⟨h, nofun⟩
          · next htransition =>
            cases hfinish
            rcases transition_cases htransition with ⟨_, rfl⟩ | ⟨⟨_, herror⟩, _⟩
            · have hend := lifeStage_endStatus state code
              have hbelow : ∀ r ∈ l.log, Advances r.status (endStatus state code) := by
                intro r hr
                obtain ⟨first, second, hfirst, _, hlt, _⟩ := h.below r hr
                exact ⟨first, 3, hfirst, hend, hlt, by omega⟩
              obtain ⟨hordered, hbegins, hcurrent⟩ :=
                h.append _ (endState state code) l.text hbelow
              refine .inr ⟨hend, hcurrent, hbegins, hordered, fun hK => ?_⟩
              refine h.first_append hK (fun hsome => ?_) _ _
              obtain ⟨reason, hreason⟩ := Option.isSome_iff_exists.mp hsome
              unfold endState
              rw [hkeeps hK hsome, hreason]
              rfl
            · cases herror

/-! ## Polls -/

/-- At most one reason comes up, and what is recorded stays. -/
structure OneReason (l : LiveJob) (w : PollWorld) : Prop where
  recorded : l.job.state.terminationReason.isSome = true → ¬ PipeFails w.arrived ∧
    ¬ ExceedsEvents l l.job.state w.arrived ∧ ¬ ExceedsTime l.job.state w.elapsed ∧
    ¬ GraceKills l.job.state w.elapsed w.now
  pipe : PipeFails w.arrived → ¬ ExceedsEvents l l.job.state w.arrived ∧
    ¬ ExceedsTime l.job.state w.elapsed ∧ Job.graceExpired l.job.state w.elapsed w.now = false
  limits : ExceedsEvents l l.job.state w.arrived ∨ ExceedsTime l.job.state w.elapsed →
    ∀ request ∈ w.timeout.1 :: chunkWorlds w.arrived,
      w.elapsed - request.elapsed < l.job.state.cancelGracePeriod

theorem SameButReason.graceExpired {state state' : JobState} (h : SameButReason state state')
    (elapsed now : Nat) :
    Job.graceExpired state' elapsed now = Job.graceExpired state elapsed now := by
  obtain ⟨reason, rfl⟩ := h
  rfl

/-- The grace period of a new cancellation. -/
theorem graceExpired_cancelledState {w : Job.SignalWorld} {elapsed now : Nat}
    (huncancelled : state.cancelRequestedMs.isNone = true)
    (hgrace : elapsed - w.elapsed < state.cancelGracePeriod) :
    Job.graceExpired (cancelledState state w) elapsed now = false := by
  unfold cancelledState
  rw [Option.isNone_iff_eq_none.mp huncancelled]
  unfold Job.graceExpired Job.sinceCancel
  exact decide_eq_false (Nat.not_le.mpr hgrace)

/-- Nothing that arrives brings a reason: the record and the local state are as before. -/
theorem DrainedState.quiet {l₁ l₂ : LiveJob} {state₁ : JobState} {arrived : List Arrival}
    (h : DrainedState l l₁ l.job.state state₁ arrived)
    (hjournaled : l₂.job.state = l₁.job.state ∨ l₂.job.state = state₁)
    (hpipe : ¬ PipeFails arrived) (hevents : ¬ ExceedsEvents l l.job.state arrived) :
    l₂.job.state = l.job.state ∧ state₁ = l.job.state := by
  rcases h with ⟨_, hstate, _, hquiet⟩ | ⟨hexceeds, _⟩
  · have hsame := hquiet hpipe
    rcases hjournaled with hjournaled | hjournaled
    · exact ⟨hjournaled.trans hstate, hsame⟩
    · exact ⟨hjournaled.trans hsame, hsame⟩
  · exact absurd hexceeds hevents

/-- The time limit is exceeded first after the arrivals, or brings the only reason. -/
theorem OneReason.time {w : PollWorld} {l₁ l₂ : LiveJob} {state₁ : JobState} (h : OneReason l w)
    (hdrained : DrainedState l l₁ l.job.state state₁ w.arrived)
    (hjournaled : l₂.job.state = l₁.job.state ∨ l₂.job.state = state₁)
    (hexceeds : ExceedsTime state₁ w.elapsed) : ExceedsTime l.job.state w.elapsed ∧
      l₂.job.state = l.job.state ∧ l.job.state.terminationReason = none := by
  have hbefore : ¬ ExceedsEvents l l.job.state w.arrived ∧ ExceedsTime l.job.state w.elapsed := by
    rcases hdrained with ⟨hevents, _, ⟨reason, hsame⟩, _⟩ | ⟨hevents, w', _, reason, hsame⟩
    · rw [hsame] at hexceeds
      exact ⟨hevents, hexceeds.uncancelled, hexceeds.passed⟩
    · -- the limit of events has requested the cancellation
      have huncancelled := hexceeds.uncancelled
      rw [hsame] at huncancelled
      unfold cancelledState at huncancelled
      rw [Option.isNone_iff_eq_none.mp hevents.uncancelled] at huncancelled
      cases huncancelled
  obtain ⟨hevents, htime⟩ := hbefore
  have hpipe : ¬ PipeFails w.arrived := fun hfails => (h.pipe hfails).2.1 htime
  refine ⟨htime, (hdrained.quiet hjournaled hpipe hevents).1, ?_⟩
  by_contra hsome
  exact (h.recorded (Option.isSome_iff_ne_none.mpr hsome)).2.2.1 htime

/-- The grace period ends after the arrivals without another reason. -/
theorem OneReason.grace {w : PollWorld} {l₁ l₂ : LiveJob} {state₁ : JobState} (h : OneReason l w)
    (hdrained : DrainedState l l₁ l.job.state state₁ w.arrived)
    (hjournaled : l₂.job.state = l₁.job.state ∨ l₂.job.state = state₁)
    (hkills : GraceKills state₁ w.elapsed w.now) : l₂.job.state.terminationReason = none := by
  have hbefore : ¬ ExceedsEvents l l.job.state w.arrived ∧
      Job.graceExpired l.job.state w.elapsed w.now = true := by
    rcases hdrained with ⟨hevents, _, hsame, _⟩ | ⟨hevents, w', hw', hsame⟩
    · exact ⟨hevents, (hsame.graceExpired _ _).symm.trans hkills.expired⟩
    · have hgrace := h.limits (.inl hevents) w' (mem_cons_of_mem _ hw')
      have hexpired := hkills.expired
      rw [hsame.graceExpired, graceExpired_cancelledState hevents.uncancelled hgrace] at hexpired
      cases hexpired
  obtain ⟨hevents, hexpired⟩ := hbefore
  have hpipe : ¬ PipeFails w.arrived := by
    intro hfails
    rw [(h.pipe hfails).2.2] at hexpired
    cases hexpired
  obtain ⟨hsame, hlocal⟩ := hdrained.quiet hjournaled hpipe hevents
  rw [hlocal] at hkills
  rw [hsame]
  by_contra hsome
  exact (h.recorded (Option.isSome_iff_ne_none.mpr hsome)).2.2.2 hkills

/-- A poll keeps the records in order, and the first reason if at most one comes up. -/
theorem Underway.poll {w : PollWorld} {result : Except JobError Bool} (h : Underway K l)
    (hone : K → OneReason l w) (hpoll : l.poll w = (l', result)) :
    (Underway K l' ∧ result ≠ .ok true) ∨ Over K l' := by
  have hdrain := fun l₁ (r : Except JobError JobState)
      (hdrain : l.drain l.job.state w.arrived w.drained = (l₁, r)) =>
    h.drain rfl (fun _ _ => rfl)
    (fun hK hsome => ⟨((hone hK).recorded hsome).1, ((hone hK).recorded hsome).2.1⟩)
    (fun hK hfails => ((hone hK).pipe hfails).1) hdrain
  unfold LiveJob.poll at hpoll
  rw [if_neg (by rcases h.active with hactive | hactive <;> rw [hactive] <;> decide)] at hpoll
  split at hpoll
  · next hdrained =>
    cases hpoll
    exact .inl ⟨(hdrain _ _ hdrained).1, nofun⟩
  · next l₁ state₁ hdrained =>
    obtain ⟨h₁, hlocal⟩ := hdrain _ _ hdrained
    obtain ⟨hkeeps₁, hstate₁⟩ := hlocal _ rfl
    split at hpoll
    · next houtput =>
      cases hpoll
      exact .inl ⟨(h₁.journalOutput hkeeps₁ houtput).1, nofun⟩
    · next l₂ state₂ houtput =>
      obtain ⟨h₂, hjournal⟩ := h₁.journalOutput hkeeps₁ houtput
      obtain ⟨rfl, hjournaled⟩ := hjournal _ rfl
      have hkeeps₂ : K → Keeps l₂.job.state state₂ := by
        rcases hjournaled with hjournaled | hjournaled <;> rw [hjournaled]
        · exact hkeeps₁
        · exact fun _ _ => rfl
      have htime : K → ExceedsTime state₂ w.elapsed →
          l₂.job.state.terminationReason = none := by
        intro hK hexceeds
        obtain ⟨_, hsame, hnone⟩ := (hone hK).time hstate₁ hjournaled hexceeds
        rw [hsame, hnone]
      split at hpoll
      · next hlimit =>
        cases hpoll
        exact .inl ⟨(h₂.limitTime hkeeps₂ htime hlimit).1, nofun⟩
      · next l₃ state₃ hlimit =>
        obtain ⟨h₃, hlimited⟩ := h₂.limitTime hkeeps₂ htime hlimit
        obtain ⟨hkeeps₃, hcases⟩ := hlimited _ rfl
        have hgrace : K → GraceKills state₃ w.elapsed w.now →
            l₃.job.state.terminationReason = none := by
          intro hK hkills
          rcases hcases with ⟨rfl, rfl⟩ | ⟨hexceeds, hsame⟩
          · exact (hone hK).grace hstate₁ hjournaled hkills
          · -- a cancellation that this poll has requested is within its grace period
            obtain ⟨htime', hstate₂, _⟩ := (hone hK).time hstate₁ hjournaled hexceeds
            have hexpired := hkills.expired
            rw [hstate₂] at hsame
            rw [hsame.graceExpired, graceExpired_cancelledState htime'.uncancelled
              ((hone hK).limits (.inr htime') _ mem_cons_self)] at hexpired
            cases hexpired
        split at hpoll
        · next hforced =>
          cases hpoll
          exact .inl ⟨(h₃.limitGrace hkeeps₃ hgrace hforced).1, nofun⟩
        · next l₄ state₄ hforced =>
          obtain ⟨h₄, hlast⟩ := h₃.limitGrace hkeeps₃ hgrace hforced
          exact h₄.finish (hlast _ rfl) hpoll

/-! ## Runs -/

/-- What happens brings at most one reason. -/
def Steady (l : LiveJob) (input : Input) : Prop :=
  isTerminalJob l.job.status = true ∨
    match input with
    | .signal .kill _ => l.job.state.terminationReason = none
    | .poll w => OneReason l w
    | .signal _ _ | .exits _ | .send _ _ => True

theorem isTerminalJob_of_lifeStage {status : Status} (h : lifeStage status = some 3) :
    isTerminalJob status = true ∧ settled status = true := by
  cases status <;> first | exact ⟨rfl, rfl⟩ | cases h

theorem Over.congr (h : Over K l) (hsame : SameRecord l l') : Over K l' := by
  obtain ⟨hended, hcurrent, hbegins, hordered, hfirst⟩ := h
  rw [← hsame.status] at hended hcurrent
  rw [← hsame.state] at hcurrent hfirst
  rw [← hsame.text] at hcurrent
  rw [← hsame.log] at hcurrent hbegins hordered hfirst
  exact ⟨hended, hcurrent, hbegins, hordered, hfirst⟩

/-- An input keeps the records of a job in order, and the first reason if it brings one at most. -/
theorem step_kept (input : Input) (h : Underway K l ∨ Over K l) (hsteady : K → Steady l input) :
    Underway K (l.step input) ∨ Over K (l.step input) := by
  cases input with
  | exits code =>
      have hsame : SameRecord l (l.step (.exits code)) := by
        unfold step
        dsimp only
        split <;> exact ⟨rfl, rfl, rfl, rfl⟩
      exact h.imp (·.congr hsame) (·.congr hsame)
  | send bytes accepted => exact h
  | signal sig w =>
      rcases h with h | h
      · have hkill : K → sig = .kill → l.job.state.terminationReason = none := by
          rintro hK rfl
          exact (hsteady hK).resolve_left h.not_terminal
        exact .inl (h.signal hkill (Prod.mk.eta (p := l.signal sig w)).symm).1
      · unfold step LiveJob.signal
        dsimp only
        rw [if_pos (isTerminalJob_of_lifeStage h.ended).1]
        exact .inr h
  | poll w =>
      rcases h with h | h
      · exact (h.poll (fun hK => (hsteady hK).resolve_left h.not_terminal)
          (Prod.mk.eta (p := l.poll w)).symm).imp And.left id
      · unfold step LiveJob.poll
        dsimp only
        rw [if_pos (isTerminalJob_of_lifeStage h.ended).2]
        exact .inr h

/-- The records are in order: the log begins with the queued job, its statuses only move on, it has
a terminal record exactly when the job has ended, and this is its last. -/
structure Orderly (l : LiveJob) : Prop where
  current : l.log.getLast? = some ⟨l.job.status, l.job.state, l.text⟩
  begins : l.log.head?.map JobRecord.status = some .queued
  advances : l.log.Pairwise fun r r' => Advances r.status r'.status
  once : (l.log.filter fun r => isTerminalJob r.status).length =
    if isTerminalJob l.job.status then 1 else 0
  last : ∀ r ∈ l.log, isTerminalJob r.status = true → l.log.getLast? = some r

/-- The terminal record has the reason that was recorded first. -/
def KeepsFirstReason (l : LiveJob) : Prop :=
  ∀ r ∈ l.log, isTerminalJob r.status = true → ∀ reason, firstReason l.log = some reason →
    r.state.terminationReason = some reason

theorem Underway.orderly (h : Underway K l) : Orderly l := by
  have hnot : ∀ r ∈ l.log, ¬ isTerminalJob r.status = true :=
    fun r hr => by rw [(h.below r hr).not_terminal]; decide
  refine ⟨h.current, h.begins, h.ordered, ?_, fun r hr hterminal => absurd hterminal (hnot r hr)⟩
  rw [filter_eq_nil_iff.mpr hnot, if_neg h.not_terminal]
  rfl

/-- The log of a job that has ended is made of records that go on and the terminal one. -/
theorem Over.split (h : Over K l) : ∃ front,
    l.log = front ++ [⟨l.job.status, l.job.state, l.text⟩] ∧
      ∀ r ∈ front, ¬ isTerminalJob r.status = true := by
  obtain ⟨front, hlog⟩ := getLast?_eq_some_iff.mp h.current
  refine ⟨front, hlog, fun r hr => ?_⟩
  have hordered := h.ordered
  rw [hlog] at hordered
  have hadvances := (pairwise_append.mp hordered).2.2 r hr _ (mem_singleton_self _)
  rw [hadvances.not_terminal]
  decide

theorem Over.orderly (h : Over K l) : Orderly l := by
  obtain ⟨front, hlog, hnot⟩ := h.split
  have hterminal := (isTerminalJob_of_lifeStage h.ended).1
  refine ⟨h.current, h.begins, h.ordered, ?_, fun r hr hlast => ?_⟩
  · rw [if_pos hterminal, hlog, filter_append, filter_eq_nil_iff.mpr hnot,
      nil_append]
    simp [hterminal]
  · rw [h.current]
    rw [hlog] at hr
    rcases mem_append.mp hr with hr | hr
    · exact absurd hlast (hnot r hr)
    · rw [mem_singleton.mp hr]

theorem Over.keepsFirstReason (h : Over True l) : KeepsFirstReason l := by
  intro r hr hlast reason hfirst
  obtain ⟨front, hlog, hnot⟩ := h.split
  rw [h.first trivial] at hfirst
  rw [hlog] at hr
  rcases mem_append.mp hr with hr | hr
  · exact absurd hlast (hnot r hr)
  · rw [mem_singleton.mp hr]
    exact hfirst

theorem Underway.keepsFirstReason (h : Underway True l) : KeepsFirstReason l :=
  fun r hr hterminal => absurd hterminal (by rw [(h.below r hr).not_terminal]; decide)

/-! ## Spawning -/

/-- The element that a failed `spawn` has created is terminal. -/
def SpawnSettles (limits : JobLimits) (backgroundShell : Bool) (w : SpawnWorld) : Prop :=
  ∀ e, (spawn limits backgroundShell w).2 = .error e →
    ∀ r, (spawn limits backgroundShell w).1.getLast? = some r → isTerminalJob r.status = true

/-- Once the element is created, the journal takes the transition to `running`, or to `failed` where
the process does not start, and the input fits into one request and is taken. -/
def SpawnTaken (w : SpawnWorld) : Prop :=
  w.checked = .ok () → w.queued = .ok () →
    ((∃ e, w.started = .error e) → w.failed = .ok ()) ∧
    (w.started = .ok () → w.running = .ok () ∧
      ∀ bytes, w.stdin = some bytes → bytes.length ≤ maxSendBytes ∧ w.accepted = true)

/-- A new job takes what fits into one request. -/
theorem send_started {limits : JobLimits} {backgroundShell : Bool} {w : SpawnWorld}
    {log : List JobRecord} {bytes : List UInt8} :
    (started limits backgroundShell w log).send bytes w.accepted = .ok () ↔
      bytes.length ≤ maxSendBytes ∧ w.accepted = true := by
  unfold send
  have hrunning : isTerminalJob (started limits backgroundShell w log).job.status = false := rfl
  have hinput : (started limits backgroundShell w log).input = true := rfl
  rw [hrunning, hinput, if_neg Bool.false_ne_true]
  by_cases hlong : maxSendBytes < bytes.length
  · rw [if_pos hlong]
    exact iff_of_false nofun fun h => absurd h.1 (Nat.not_le.mpr hlong)
  · rw [if_neg hlong, if_neg (not_not.mpr rfl)]
    cases w.accepted with
    | false => exact iff_of_false nofun fun h => nomatch h.2
    | true => exact iff_of_true rfl ⟨Nat.not_lt.mp hlong, rfl⟩

/-- A failed `spawn` leaves a terminal element exactly when its later steps are taken. -/
theorem spawnSettles_iff (limits : JobLimits) (backgroundShell : Bool) (w : SpawnWorld) :
    SpawnSettles limits backgroundShell w ↔ SpawnTaken w := by
  unfold SpawnSettles SpawnTaken spawn
  rcases w.checked with e | ⟨⟩
  · exact iff_of_true (fun _ _ _ => nofun) nofun
  · rcases w.queued with e | ⟨⟩
    · exact iff_of_true (fun _ _ _ => nofun) fun _ => nofun
    · rcases w.started with e | ⟨⟩
      · rcases w.failed with e' | ⟨⟩
        · refine iff_of_false (fun h => ?_) fun h => nomatch (h rfl rfl).1 ⟨e, rfl⟩
          exact Bool.false_ne_true (h _ rfl _ rfl)
        · refine iff_of_true (fun e' _ r hr => ?_) fun _ _ => ⟨fun _ => rfl, nofun⟩
          cases hr
          rfl
      · rcases w.running with e | ⟨⟩
        · refine iff_of_false (fun h => ?_) fun h => nomatch ((h rfl rfl).2 rfl).1
          exact Bool.false_ne_true (h _ rfl _ rfl)
        · cases hstdin : w.stdin with
          | none =>
            refine iff_of_true (fun _ => nofun) fun _ _ => ⟨?_, fun _ => ⟨rfl, fun _ => nofun⟩⟩
            rintro ⟨_, herror⟩
            cases herror
          | some bytes =>
            dsimp only
            cases hsend : (started limits backgroundShell w _).send bytes w.accepted with
            | error e =>
              refine iff_of_false (fun h => ?_) fun h => ?_
              · exact Bool.false_ne_true (h _ rfl _ rfl)
              · rw [send_started.mpr (((h rfl rfl).2 rfl).2 bytes rfl)] at hsend
                cases hsend
            | ok done =>
              refine iff_of_true (fun _ => nofun) fun _ _ => ⟨?_, fun _ => ⟨rfl, ?_⟩⟩
              · rintro ⟨_, herror⟩
                cases herror
              · rintro bytes' hbytes
                cases hbytes
                exact send_started.mp hsend

/-- A job that `spawn` has started. -/
theorem underway_of_spawn {limits : JobLimits} {backgroundShell : Bool} {w : SpawnWorld}
    (h : (spawn limits backgroundShell w).2 = .ok l) : Underway True l := by
  have hstarted : Underway True (started limits backgroundShell w
      [⟨.queued, (Job.spawned limits.maxWallTime limits.cancelGracePeriod
          backgroundShell).state, ""⟩,
        ⟨.running, (Job.spawned limits.maxWallTime limits.cancelGracePeriod
          backgroundShell).state, ""⟩]) := by
    refine ⟨.inl rfl, rfl, rfl, ?_, ?_, fun _ => rfl⟩
    · refine pairwise_pair.mpr ⟨0, 1, rfl, rfl, by decide, by decide⟩
    · intro r hr
      rcases mem_pair.mp hr with rfl | rfl
      · exact ⟨0, 1, rfl, rfl, by decide, by decide⟩
      · exact ⟨1, 1, rfl, rfl, by decide, by decide⟩
  unfold spawn at h
  split at h
  · cases h
  · dsimp only at h
    split at h
    · cases h
    · split at h
      · split at h <;> cases h
      · split at h
        · cases h
        · split at h
          · cases h
            exact hstarted
          · split at h
            · cases h
            · cases h
              exact hstarted

/-- `spawn` that fails leaves a terminal element exactly when its later steps are taken. In every
run of a job the records are in order and one terminal record ends them, and if no input brings a
second reason, the first one that was recorded is in the terminal record. -/
theorem spawn_run_lifecycle (limits : JobLimits) (backgroundShell : Bool) (w : SpawnWorld) :
    (SpawnSettles limits backgroundShell w ↔ SpawnTaken w) ∧
      ∀ l, (spawn limits backgroundShell w).2 = .ok l → ∀ inputs,
        Orderly (Machine.run step l inputs) ∧
          (Machine.Along step Steady l inputs → KeepsFirstReason (Machine.run step l inputs)) := by
  refine ⟨spawnSettles_iff limits backgroundShell w, fun l hspawn inputs => ⟨?_, fun hsteady => ?_⟩⟩
  · have h := underway_of_spawn hspawn
    have hstart : Underway False l ∨ Over False l :=
      .inl ⟨h.active, h.current, h.begins, h.ordered, h.below, False.elim⟩
    have hrun := Machine.invariant_run
      (fun l input (h : Underway False l ∨ Over False l) => step_kept input h False.elim)
      inputs hstart
    exact hrun.elim Underway.orderly Over.orderly
  · have hrun := Machine.invariant_along
      (fun l input (h : Underway True l ∨ Over True l) hsteady =>
        step_kept input h fun _ => hsteady) (.inl (underway_of_spawn hspawn)) hsteady
    exact hrun.elim Underway.keepsFirstReason Over.keepsFirstReason

/-! ## An input that is too long, and a reason that is overwritten -/

/-- The limits of the example. -/
def briefLimits : JobLimits := ⟨10, 5, 1024, 16, 4096, 32⟩

/-- A `spawn` in which everything is taken. -/
def plainSpawn (stdin : Option (List UInt8)) : SpawnWorld :=
  ⟨.ok (), .ok (), .ok (), .ok (), (.ok "stdout", .ok "stderr"), .ok (), stdin, true, 0⟩

/-- The process runs and the input of 8193 bytes is refused. The element stays at `running`. -/
theorem not_lifecycle_longInput : ¬ ∀ (limits : JobLimits) (backgroundShell : Bool)
    (w : SpawnWorld), SpawnSettles limits backgroundShell w ∧
      ∀ l, (spawn limits backgroundShell w).2 = .ok l → ∀ inputs,
        Orderly (Machine.run step l inputs) ∧ KeepsFirstReason (Machine.run step l inputs) := by
  intro h
  have hsettles := (h briefLimits false (plainSpawn (some (replicate 8193 0)))).1
  have htaken := (spawnSettles_iff _ _ _).mp hsettles rfl rfl
  have hlong := ((htaken.2 rfl).2 _ rfl).1
  rw [length_replicate] at hlong
  exact absurd hlong (by decide)

/-- A poll at a time, with nothing but the end of the output. -/
def quietPoll (drained : Job.Drained) (elapsed : Nat) : Input :=
  .poll ⟨[], drained, elapsed, .ok (), elapsed, elapsed,
    (⟨elapsed, elapsed, .ok (), .ok ()⟩, .ok ()), .ok (), .ok (), .ok ()⟩

-- the timeout is recorded first, and the kill after the grace period takes its place
example : ∀ l, (spawn briefLimits false (plainSpawn none)).2 = .ok l →
    ¬ KeepsFirstReason
      (Machine.run step l [quietPoll .empty 10, quietPoll .disconnected 20]) := by
  rintro l hspawn hkeeps
  cases hspawn
  have hlast := hkeeps _ (List.mem_of_getLast? rfl) rfl _ rfl
  cases hlast

/-- A process that exits within its limits ends with the first and only reason. -/
theorem spawn_run_lifecycle_exit : ∃ l, (spawn briefLimits false (plainSpawn none)).2 = .ok l ∧
    (Machine.run step l [.exits 0, quietPoll .disconnected 3]).job.status = .succeeded ∧
    Orderly (Machine.run step l [.exits 0, quietPoll .disconnected 3]) ∧
    KeepsFirstReason (Machine.run step l [.exits 0, quietPoll .disconnected 3]) := by
  obtain ⟨_, hruns⟩ := spawn_run_lifecycle briefLimits false (plainSpawn none)
  obtain ⟨horderly, hkeeps⟩ := hruns _ rfl [.exits 0, quietPoll .disconnected 3]
  refine ⟨_, rfl, rfl, horderly, hkeeps ⟨.inr trivial, .inr ⟨nofun, ?_, ?_⟩, trivial⟩⟩
  · rintro ⟨e, he⟩
    cases he
  · rintro (hevents | htime)
    · exact absurd rfl hevents.arrives
    · exact absurd htime.passed (by decide)

end LiveJob

end Omp2.Runtime
