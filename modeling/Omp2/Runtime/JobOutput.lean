import Omp2.Runtime.Lifecycle

/-!
# The output of a job that has ended

The text of the element of a job is what is shown of the bytes that it had received when its output
was journaled last. What is shown depends on the bytes of the two streams alone, not on how they were
split into chunks. The transition that ends a job does not write it, so the text is that of all bytes
exactly when the throttle opens in the poll that ends the job, or what has come since the last time
shows no difference.
-/

namespace Omp2.Runtime

open Omp2.State Omp2.Longest

/-! ## What is shown -/

/-- The bytes that the limits of a stream keep. -/
def keptWithin : Nat → Nat → List UInt8 → List UInt8
  | _, _, [] => []
  | 0, _, _ :: _ => []
  | room + 1, lines, b :: rest =>
    if b = newline then
      match lines with
      | 0 => []
      | lines + 1 => b :: keptWithin room lines rest
    else b :: keptWithin room lines rest

/-- The limits keep the longest initial segment that is within them. -/
theorem isLongest_keptWithin (maxBytes maxLines : Nat) (bytes : List UInt8) :
    IsLongest (Within maxBytes maxLines) bytes (keptWithin maxBytes maxLines bytes) := by
  induction bytes generalizing maxBytes maxLines with
  | nil =>
      unfold keptWithin
      exact isLongest_self ⟨Nat.zero_le _, Nat.zero_le _⟩
  | cons b rest ih =>
      cases maxBytes with
      | zero =>
        have hnone : Within 0 maxLines ([] : List UInt8) := ⟨Nat.le_refl _, Nat.zero_le _⟩
        exact isLongest_of_next (within_closed _ _) b rest hnone
          fun h => absurd h.1 (Nat.not_succ_le_zero _)
      | succ room =>
        unfold keptWithin
        split
        · next hline =>
          subst hline
          cases maxLines with
          | zero =>
            have hnone : Within (room + 1) 0 ([] : List UInt8) :=
              ⟨Nat.zero_le _, Nat.le_refl _⟩
            exact isLongest_of_next (within_closed _ _) newline rest hnone
              fun h => absurd h.2 (by decide)
          | succ lines =>
            refine (ih room lines).cons fun items => ?_
            unfold Within
            rw [List.length_cons, List.count_cons_self]
            omega
        · next hother =>
          refine (ih room maxLines).cons fun items => ?_
          unfold Within
          rw [List.length_cons, List.count_cons_of_ne hother]
          omega

/-- What is shown of the chunks that a job has received. -/
def shownOutput (limits : JobLimits) (chunks : List Chunk) : String :=
  combinedOutput (Utf8.lossy (keptWithin limits.maxBytes limits.maxLines (Chunk.bytes false chunks)))
    (Utf8.lossy (keptWithin limits.maxBytes limits.maxLines (Chunk.bytes true chunks)))
    limits.maxBytes

namespace LiveJob

variable {l l' : LiveJob} {limits : JobLimits}

/-- The streams hold what has been received, and the text is what was shown of it last. -/
structure Shows (limits : JobLimits) (l : LiveJob) : Prop where
  maxBytes : l.maxBytes = limits.maxBytes
  stdout : l.stdout.Holds (Chunk.bytes false l.received) ∧ l.stdout.maxBytes = limits.maxBytes ∧
    l.stdout.maxLines = limits.maxLines
  stderr : l.stderr.Holds (Chunk.bytes true l.received) ∧ l.stderr.maxBytes = limits.maxBytes ∧
    l.stderr.maxLines = limits.maxLines
  text : l.text = shownOutput limits l.shown

theorem Shows.output (h : Shows limits l) : l.output = shownOutput limits l.received := by
  have hstdout := h.stdout.1.resident
  have hstderr := h.stderr.1.resident
  rw [h.stdout.2.1, h.stdout.2.2] at hstdout
  rw [h.stderr.2.1, h.stderr.2.2] at hstderr
  unfold LiveJob.output shownOutput
  rw [hstdout.unique (isLongest_keptWithin _ _ _), hstderr.unique (isLongest_keptWithin _ _ _),
    h.maxBytes]

/-- The output, and what is known of it, is the same. -/
structure SameOutput (l l' : LiveJob) : Prop where
  text : l'.text = l.text
  maxBytes : l'.maxBytes = l.maxBytes
  stdout : l'.stdout = l.stdout
  stderr : l'.stderr = l.stderr
  bytesJournaled : l'.bytesJournaled = l.bytesJournaled
  lastJournalMs : l'.lastJournalMs = l.lastJournalMs
  received : l'.received = l.received
  shown : l'.shown = l.shown

theorem SameOutput.refl (l : LiveJob) : SameOutput l l :=
  ⟨rfl, rfl, rfl, rfl, rfl, rfl, rfl, rfl⟩

theorem SameOutput.trans {l'' : LiveJob} (h : SameOutput l l') (h' : SameOutput l' l'') :
    SameOutput l l'' :=
  ⟨h'.text.trans h.text, h'.maxBytes.trans h.maxBytes, h'.stdout.trans h.stdout,
    h'.stderr.trans h.stderr, h'.bytesJournaled.trans h.bytesJournaled,
    h'.lastJournalMs.trans h.lastJournalMs, h'.received.trans h.received, h'.shown.trans h.shown⟩

theorem Shows.congr (h : Shows limits l) (hsame : SameOutput l l') : Shows limits l' := by
  obtain ⟨hmax, hstdout, hstderr, htext⟩ := h
  rw [← hsame.maxBytes] at hmax
  rw [← hsame.stdout, ← hsame.received] at hstdout
  rw [← hsame.stderr, ← hsame.received] at hstderr
  rw [← hsame.text, ← hsame.shown] at htext
  exact ⟨hmax, hstdout, hstderr, htext⟩

/-! ## The parts of a poll that keep the output -/

theorem transition_sameOutput (l : LiveJob) (status : Status) (state : JobState)
    (append : Except StateError Unit) : SameOutput l (l.transition status state l.text append).1 := by
  rcases transition_cases (Prod.mk.eta (p := l.transition status state l.text append)).symm with
    ⟨_, h⟩ | ⟨_, h⟩ <;> rw [h]
  · exact ⟨rfl, rfl, rfl, rfl, rfl, rfl, rfl, rfl⟩
  · exact .refl l

theorem killProcess_sameOutput (l : LiveJob) : SameOutput l l.killProcess.1 := by
  rcases killProcess_cases (Prod.mk.eta (p := l.killProcess)).symm with ⟨_, h⟩ | ⟨_, h⟩ <;> rw [h]
  · exact ⟨rfl, rfl, rfl, rfl, rfl, rfl, rfl, rfl⟩
  · exact .refl l

theorem requestCancel_sameOutput (l : LiveJob) (w : Job.SignalWorld) :
    SameOutput l (l.requestCancel w).1 := by
  unfold requestCancel
  split
  · exact .refl l
  · have hsame := transition_sameOutput l .cancelRequested { l.job.state with
      cancelRequestedMs := some w.now
      cancelRequestedElapsedMs := some w.elapsed } w.requested
    split
    · next h =>
      rw [h] at hsame
      exact hsame
    · next h =>
      rw [h] at hsame
      exact hsame.trans ⟨rfl, rfl, rfl, rfl, rfl, rfl, rfl, rfl⟩

theorem signal_sameOutput (l : LiveJob) (signal : JobSignal) (w : Job.SignalWorld) :
    SameOutput l (l.signal signal w).1 := by
  unfold LiveJob.signal
  split
  · exact .refl l
  · have hrequest := requestCancel_sameOutput l w
    split
    · next h =>
      rw [h] at hrequest
      exact hrequest
    · next l₁ h =>
      rw [h] at hrequest
      split
      · have hkill := killProcess_sameOutput l₁
        split
        · next h =>
          rw [h] at hkill
          exact hrequest.trans hkill
        · next l₂ h =>
          rw [h] at hkill
          exact (hrequest.trans hkill).trans (transition_sameOutput l₂ ..)
      · exact hrequest

theorem stop_sameOutput (l : LiveJob) (reason : JobTerminationReason) (w : Job.SignalWorld)
    (append : Except StateError Unit) : SameOutput l (l.stop reason w append).1 := by
  unfold LiveJob.stop
  have hsignal := signal_sameOutput l .terminate w
  split
  · next h =>
    rw [h] at hsignal
    exact hsignal
  · next l₁ h =>
    rw [h] at hsignal
    have htransition := transition_sameOutput l₁ .cancelRequested
      { l₁.job.state with terminationReason := some reason } append
    dsimp only
    split <;> next h => rw [h] at htransition; exact hsignal.trans htransition

theorem limitTime_sameOutput (l : LiveJob) (state : JobState) (elapsed : Nat) (w : Job.SignalWorld)
    (timeout : Except StateError Unit) : SameOutput l (l.limitTime state elapsed w timeout).1 := by
  unfold LiveJob.limitTime
  split
  · exact stop_sameOutput ..
  · exact .refl l

theorem limitGrace_sameOutput (l : LiveJob) (state : JobState) (elapsed now : Nat)
    (forced : Except StateError Unit) : SameOutput l (l.limitGrace state elapsed now forced).1 := by
  unfold LiveJob.limitGrace
  split
  · have hkill := killProcess_sameOutput l
    split
    · next h =>
      rw [h] at hkill
      exact hkill
    · next l₁ h =>
      rw [h] at hkill
      have htransition := transition_sameOutput l₁ .cancelRequested { state with
        terminationReason := some (.forcedKill "cancellation grace expired"
          ((Job.sinceCancel state elapsed now).getD 0)) } forced
      dsimp only
      split <;> next h => rw [h] at htransition; exact hkill.trans htransition
  · exact .refl l

/-- The terminal transition does not write the output. -/
theorem finish_sameOutput (l : LiveJob) (state : JobState) (artifacts : Except String Unit)
    (terminal : Except StateError Unit) : SameOutput l (l.finish state artifacts terminal).1 := by
  unfold LiveJob.finish
  split
  · exact .refl l
  · split
    · exact .refl l
    · next code _ =>
      split
      · exact .refl l
      · split
        · exact .refl l
        · have hsame := transition_sameOutput l (endStatus state code) (endState state code)
            terminal
          split
          · next h =>
            rw [h] at hsame
            exact hsame
          · next h =>
            rw [h] at hsame
            exact hsame.trans ⟨rfl, rfl, rfl, rfl, rfl, rfl, rfl, rfl⟩

/-! ## What arrives in a poll -/

/-- The job with what has arrived in its streams. -/
def arrive : LiveJob → List Arrival → LiveJob
  | l, [] => l
  | l, .chunk chunk failure _ _ :: rest => arrive (l.push chunk failure) rest
  | l, .failed _ :: rest => arrive l rest

theorem SameOutput.push (h : SameOutput l l') (chunk : Chunk) (failure : Option String) :
    SameOutput (l.push chunk failure) (l'.push chunk failure) := by
  unfold LiveJob.push
  exact ⟨h.text, h.maxBytes, by rw [h.stdout], by rw [h.stderr], h.bytesJournaled,
    h.lastJournalMs, by rw [h.received], h.shown⟩

theorem SameOutput.arrive (h : SameOutput l l') (arrived : List Arrival) :
    SameOutput (l.arrive arrived) (l'.arrive arrived) := by
  induction arrived generalizing l l' with
  | nil => exact h
  | cons first rest ih =>
      cases first with
      | chunk chunk failure w limit => exact ih (h.push chunk failure)
      | failed e => exact ih h

theorem SameOutput.due (h : SameOutput l l') (now : Nat) : l'.due now = l.due now := by
  unfold LiveJob.due LiveJob.totalBytes
  rw [h.stdout, h.stderr, h.bytesJournaled, h.lastJournalMs]

theorem arrive_shown (l : LiveJob) (arrived : List Arrival) :
    (l.arrive arrived).shown = l.shown := by
  induction arrived generalizing l with
  | nil => rfl
  | cons first rest ih =>
      cases first with
      | chunk chunk failure w limit => exact ih (l.push chunk failure)
      | failed e => exact ih l

theorem bytes_concat (stderr : Bool) (chunks : List Chunk) (chunk : Chunk) :
    Chunk.bytes stderr (chunks ++ [chunk]) =
      if chunk.stderr = stderr then Chunk.bytes stderr chunks ++ chunk.data
      else Chunk.bytes stderr chunks := by
  unfold Chunk.bytes
  rw [List.filter_append, List.flatMap_append]
  split <;> simp [*]

theorem Shows.push (h : Shows limits l) (chunk : Chunk) (failure : Option String) :
    Shows limits (l.push chunk failure) := by
  obtain ⟨hholds, hbytes, hlines⟩ := h.stdout
  obtain ⟨hholds', hbytes', hlines'⟩ := h.stderr
  refine ⟨h.maxBytes, ?_, ?_, h.text⟩
  · unfold LiveJob.push
    dsimp only
    rw [bytes_concat]
    cases chunk.stderr with
    | true => exact ⟨hholds, hbytes, hlines⟩
    | false =>
      obtain ⟨hpush, hsame, hsame'⟩ := hholds.push chunk.data failure
      exact ⟨hpush, hsame.trans hbytes, hsame'.trans hlines⟩
  · unfold LiveJob.push
    dsimp only
    rw [bytes_concat]
    cases chunk.stderr with
    | false => exact ⟨hholds', hbytes', hlines'⟩
    | true =>
      obtain ⟨hpush, hsame, hsame'⟩ := hholds'.push chunk.data failure
      exact ⟨hpush, hsame.trans hbytes', hsame'.trans hlines'⟩

/-- The loop over the arrivals puts them into the streams. -/
theorem Shows.drain {state : JobState} {arrived : List Arrival} {drained : Job.Drained}
    {result : Except JobError JobState} (h : Shows limits l)
    (hdrain : l.drain state arrived drained = (l', result)) :
    Shows limits l' ∧ ∀ state', result = .ok state' → SameOutput (l.arrive arrived) l' := by
  induction arrived generalizing l state with
  | nil =>
      cases hdrain
      exact ⟨h.congr ⟨rfl, rfl, rfl, rfl, rfl, rfl, rfl, rfl⟩,
        fun _ _ => ⟨rfl, rfl, rfl, rfl, rfl, rfl, rfl, rfl⟩⟩
  | cons first rest ih =>
      cases first with
      | chunk chunk failure w limit =>
        have hpush := h.push chunk failure
        unfold LiveJob.drain at hdrain
        dsimp only at hdrain
        split at hdrain
        · have hsame := stop_sameOutput (l.push chunk failure) (.resourceLimitExceeded "events")
            w limit
          split at hdrain
          · next hstop =>
            cases hdrain
            rw [hstop] at hsame
            exact ⟨hpush.congr hsame, fun _ => nofun⟩
          · next hstop =>
            rw [hstop] at hsame
            obtain ⟨hshows, hrest⟩ := ih (hpush.congr hsame) hdrain
            exact ⟨hshows, fun state' hok => (hsame.arrive rest).trans (hrest state' hok)⟩
        · exact ih hpush hdrain
      | failed e =>
        unfold LiveJob.drain at hdrain
        dsimp only at hdrain
        have hsame := killProcess_sameOutput l
        split at hdrain
        · next hkill =>
          cases hdrain
          rw [hkill] at hsame
          exact ⟨h.congr hsame, fun _ => nofun⟩
        · next hkill =>
          rw [hkill] at hsame
          obtain ⟨hshows, hrest⟩ := ih (h.congr hsame) hdrain
          exact ⟨hshows, fun state' hok => (hsame.arrive rest).trans (hrest state' hok)⟩

/-- The output that is journaled is that of all chunks. -/
theorem Shows.journalOutput {state : JobState} {now : Nat} {append : Except StateError Unit}
    {result : Except JobError JobState} (h : Shows limits l)
    (hjournal : l.journalOutput state now append = (l', result)) :
    Shows limits l' ∧ ∀ state', result = .ok state' → l'.received = l.received ∧
      l'.shown = if l.due now then l.received else l.shown := by
  unfold LiveJob.journalOutput at hjournal
  split at hjournal
  · next hdue =>
    rw [if_pos hdue]
    dsimp only at hjournal
    split at hjournal
    · next htransition =>
      cases hjournal
      rcases transition_cases htransition with ⟨hok, _⟩ | ⟨_, rfl⟩
      · cases hok
      · exact ⟨⟨h.maxBytes, h.stdout, h.stderr, h.text⟩, fun _ => nofun⟩
    · next htransition =>
      cases hjournal
      rcases transition_cases htransition with ⟨_, rfl⟩ | ⟨⟨_, herror⟩, _⟩
      · exact ⟨⟨h.maxBytes, h.stdout, h.stderr, h.output⟩, fun _ _ => ⟨rfl, rfl⟩⟩
      · cases herror
  · next hclosed =>
    cases hjournal
    rw [if_neg hclosed]
    exact ⟨h, fun _ _ => ⟨rfl, rfl⟩⟩

theorem Underway.unsettled {K : Prop} (h : Underway K l) : settled l.job.status = false := by
  rcases h.active with hactive | hactive <;> rw [hactive] <;> rfl

/-- A poll that ends a job leaves the text that it journals, or the one from before. -/
theorem Shows.poll {w : PollWorld} (h : Shows limits l) (hactive : Underway False l) :
    Shows limits (l.poll w).1 ∧ (settled (l.poll w).1.job.status = true →
      (l.poll w).1.received = (l.arrive w.arrived).received ∧ (l.poll w).1.shown =
        if (l.arrive w.arrived).due w.outputNow then (l.arrive w.arrived).received
        else l.shown) := by
  have hcontinues : ∀ {l' : LiveJob}, Underway False l' →
      settled l'.job.status = true → False := by
    intro l' h' hended
    rw [h'.unsettled] at hended
    cases hended
  unfold LiveJob.poll
  rw [if_neg (by rw [hactive.unsettled]; decide)]
  split
  · next hdrain =>
    obtain ⟨hactive₁, _⟩ := hactive.drain rfl False.elim False.elim False.elim hdrain
    exact ⟨(h.drain hdrain).1, fun hended => (hcontinues hactive₁ hended).elim⟩
  · next l₁ state₁ hdrain =>
    obtain ⟨hactive₁, _⟩ := hactive.drain rfl False.elim False.elim False.elim hdrain
    obtain ⟨h₁, hsame₁⟩ := h.drain hdrain
    have harrived := hsame₁ state₁ rfl
    split
    · next hjournal =>
      obtain ⟨hactive₂, _⟩ := hactive₁.journalOutput False.elim hjournal
      exact ⟨(h₁.journalOutput hjournal).1, fun hended => (hcontinues hactive₂ hended).elim⟩
    · next l₂ state₂ hjournal =>
      obtain ⟨hactive₂, _⟩ := hactive₁.journalOutput False.elim hjournal
      obtain ⟨h₂, hjournaled⟩ := h₁.journalOutput hjournal
      obtain ⟨hreceived, hshown⟩ := hjournaled state₂ rfl
      have htime := limitTime_sameOutput l₂ state₂ w.elapsed w.timeout.1 w.timeout.2
      split
      · next hlimit =>
        obtain ⟨hactive₃, _⟩ := hactive₂.limitTime False.elim False.elim hlimit
        rw [hlimit] at htime
        exact ⟨h₂.congr htime, fun hended => (hcontinues hactive₃ hended).elim⟩
      · next l₃ state₃ hlimit =>
        obtain ⟨hactive₃, _⟩ := hactive₂.limitTime False.elim False.elim hlimit
        rw [hlimit] at htime
        have hgrace := limitGrace_sameOutput l₃ state₃ w.elapsed w.now w.forced
        split
        · next hforced =>
          obtain ⟨hactive₄, _⟩ := hactive₃.limitGrace False.elim False.elim hforced
          rw [hforced] at hgrace
          exact ⟨(h₂.congr htime).congr hgrace,
            fun hended => (hcontinues hactive₄ hended).elim⟩
        · next l₄ state₄ hforced =>
          rw [hforced] at hgrace
          have hlast := (htime.trans hgrace).trans
            (finish_sameOutput l₄ state₄ w.artifacts w.terminal)
          refine ⟨h₂.congr hlast, fun _ => ⟨?_, ?_⟩⟩
          · rw [hlast.received, hreceived, harrived.received]
          · rw [hlast.shown, hshown, harrived.due, harrived.received, harrived.shown,
              arrive_shown]

/-! ## Runs -/

/-- The text of the element is what is shown of all that the job has received. -/
def Complete (limits : JobLimits) (l : LiveJob) : Prop :=
  l.text = shownOutput limits l.received

end LiveJob

end Omp2.Runtime
