import Omp2.Control.Execution
import Omp2.Library.Slices

/-!
# The budget of a script

Whatever the aliases, the script and the loader, a run returns, executes no more commands than
`max_bytes`, nests no deeper than `max_depth`, and an error leaves the engine and the store as they
were with no hook run. The reason is the shared byte counter: every statement has at least one
byte, every text that an alias or a loaded script brings in is counted before it is parsed, and
the commands that wait for their execution were all paid for, which is the invariant `Within`.
-/

namespace Omp2.Control

open State Json

/-! ## A text has no more statements than bytes -/

theorem SplitState.length_ended_le (st : SplitState) : st.ended.length ≤ 1 := by
  unfold ended
  split <;> simp

/-- A character begins at most one statement. -/
theorem SplitState.length_finish_next_le (st : SplitState) (c : Char) (peek : Option Char) :
    (st.next c peek).finish.length ≤ st.finish.length + 1 := by
  have hpush : ∀ st' : SplitState, st'.statements = st.statements →
      st'.finish.length ≤ st.finish.length + 1 := by
    intro st' hsame
    have hone := st'.length_ended_le
    simp only [finish, hsame, List.length_append]
    omega
  have hcomment : st.comment.finish.length ≤ st.finish.length + 1 := by
    have hone := st.comment.length_ended_le
    simp only [finish, comment, List.length_append] at hone ⊢
    omega
  have hclose : st.close.finish.length ≤ st.finish.length + 1 := by
    have hone := st.close.length_ended_le
    simp only [finish, close, List.length_append] at hone ⊢
    omega
  unfold next
  split
  · exact hpush _ rfl
  · split <;> exact hpush _ rfl
  · repeat' split
    all_goals first | exact hpush _ rfl | exact hcomment | exact hclose

theorem SplitState.length_finish_run_le (st : SplitState) (cs : List Char) :
    (st.run cs).finish.length ≤ st.finish.length + cs.length := by
  induction cs generalizing st with
  | nil => simp [run]
  | cons c cs ih =>
      have hnext := st.length_finish_next_le c cs.head?
      have hrest := ih (st.next c cs.head?)
      simp only [run, List.length_cons]
      omega

/-- A script has no more statements than bytes. -/
theorem length_splitStatements_le (script : String) :
    (splitStatements script).length ≤ script.utf8ByteSize := by
  have hrun := SplitState.start.length_finish_run_le script.toList
  have hbytes := Slices.length_le_byteLength script.toList
  rw [Text.utf8ByteSize_eq, splitStatements, List.length_map]
  have hstart : SplitState.start.finish = [] := rfl
  rw [hstart, List.length_nil, Nat.zero_add] at hrun
  exact hrun.trans hbytes

variable [SerdeJson] [Text.Unicode]

/-- Every statement becomes one command. -/
theorem length_parseStatements {statements : List String} {commands : List Command}
    (h : parseStatements statements = .ok commands) : commands.length = statements.length := by
  induction statements generalizing commands with
  | nil =>
      cases h
      rfl
  | cons statement rest ih =>
      obtain ⟨command, _, hrest⟩ := exceptBind_eq_ok h
      obtain ⟨more, hmore, hcons⟩ := exceptBind_eq_ok hrest
      cases hcons
      rw [List.length_cons, List.length_cons, ih hmore]

theorem length_parseScript_le {script : String} {commands : List Command}
    (h : parseScript script = .ok commands) : commands.length ≤ script.utf8ByteSize := by
  rw [length_parseStatements h]
  exact length_splitStatements_le script

/-! ## Expansion pays for its commands -/

/-- The commands of an expansion were paid for from where the meter stood. -/
def Paid (limits : ExpansionLimits) (meter : Meter) (expansion : Expansion) : Prop :=
  ∀ result after, expansion = some (result, after) →
    (meter.deepest ≤ limits.maxDepth → after.deepest ≤ limits.maxDepth) ∧
    ∀ commands visited, result = .ok (commands, visited) →
      commands.length + meter.bytes ≤ after.bytes ∧ after.bytes ≤ limits.maxBytes

omit [SerdeJson] [Text.Unicode] in
/-- What an expansion with commands in front of it returns. -/
theorem Expansion.prepend_eq_some {commands : List Command} {expansion : Expansion}
    {result : Except CommandError (List Command × List String)} {meter : Meter}
    (h : expansion.prepend commands = some (result, meter)) :
    ∃ result', expansion = some (result', meter) ∧
      ∀ all visited, result = .ok (all, visited) →
        ∃ more, result' = .ok (more, visited) ∧ all = commands ++ more := by
  unfold Expansion.prepend at h
  split at h
  · cases h
    refine ⟨_, rfl, fun all visited hok => ?_⟩
    cases hok
    exact ⟨_, rfl, rfl⟩
  · next hother =>
    refine ⟨result, h, fun all visited hok => ?_⟩
    subst hok
    exact absurd h (hother all visited meter)

omit [SerdeJson] [Text.Unicode] in
/-- Each call of an alias pays for what it brings in. -/
theorem CommandEngine.expandLoop_paid {e : CommandEngine} {depth : Nat}
    {expand : String → List String → Meter → Expansion}
    (hexpand : ∀ text visited meter, Paid e.limits meter (expand text visited meter))
    (commands : List Command) (visited : List String) (meter : Meter) :
    ∀ result after, e.expandLoop depth expand commands visited meter = some (result, after) →
      (meter.deepest ≤ e.limits.maxDepth → after.deepest ≤ e.limits.maxDepth) ∧
      ∀ all visited', result = .ok (all, visited') → meter.bytes ≤ e.limits.maxBytes →
        all.length + meter.bytes ≤ after.bytes + commands.length ∧
          after.bytes ≤ e.limits.maxBytes := by
  induction commands generalizing visited meter with
  | nil =>
      intro result after h
      cases h
      refine ⟨id, fun all visited' hok hwithin => ?_⟩
      cases hok
      exact ⟨by simp, hwithin⟩
  | cons command rest ih =>
      intro result after h
      unfold expandLoop at h
      split at h
      · obtain ⟨result', hrest, hall⟩ := Expansion.prepend_eq_some h
        obtain ⟨hdeep, hpaid⟩ := ih _ _ _ _ hrest
        refine ⟨hdeep, fun all visited' hok hwithin => ?_⟩
        obtain ⟨more, hmore, rfl⟩ := hall all visited' hok
        obtain ⟨hbytes, hmax⟩ := hpaid more visited' hmore hwithin
        refine ⟨?_, hmax⟩
        simp only [List.length_append, List.length_cons, List.length_nil]
        omega
      · split at h
        · cases h
          exact ⟨id, fun _ _ hok => by cases hok⟩
        · split at h
          · next name text _ _ _ sub visited₁ meter₁ hsub =>
            obtain ⟨hdeep₁, hpaid₁⟩ := hexpand _ _ _ _ _ hsub
            obtain ⟨hbytes₁, hmax₁⟩ := hpaid₁ _ _ rfl
            obtain ⟨result', hrest, hall⟩ := Expansion.prepend_eq_some h
            obtain ⟨hdeep, hpaid⟩ := ih _ _ _ _ hrest
            refine ⟨hdeep ∘ hdeep₁, fun all visited' hok hwithin => ?_⟩
            obtain ⟨more, hmore, rfl⟩ := hall all visited' hok
            obtain ⟨hbytes, hmax⟩ := hpaid more visited' hmore hmax₁
            refine ⟨?_, hmax⟩
            simp only [List.length_append, List.length_cons]
            omega
          · next hother =>
            obtain ⟨hdeep, _⟩ := hexpand _ _ _ _ _ h
            refine ⟨hdeep, fun all visited' hok => ?_⟩
            subst hok
            exact absurd h (hother all visited' after)

/-- Every expansion pays for its commands and stays within the depth limit. -/
theorem CommandEngine.expandCommand_paid (e : CommandEngine) (fuel : Nat) (text : String)
    (depth : Nat) (visited : List String) (meter : Meter) :
    Paid e.limits meter (e.expandCommand fuel text depth visited meter) := by
  induction fuel generalizing text depth visited meter with
  | zero =>
      intro result after h
      cases h
  | succ fuel ih =>
      intro result after h
      rw [expandCommand_succ] at h
      split at h
      · cases h
        exact ⟨id, fun _ _ hok => by cases hok⟩
      · next hbytes =>
        split at h
        · cases h
          exact ⟨id, fun _ _ hok => by cases hok⟩
        · next hdepth =>
          split at h
          · cases h
            exact ⟨id, fun _ _ hok => by cases hok⟩
          · next commands hparse =>
            obtain ⟨hdeep, hpaid⟩ := expandLoop_paid
              (fun text visited meter => ih text (depth + 1) visited meter) _ _ _ _ _ h
            refine ⟨fun hbefore => hdeep (by simp only; omega), fun all visited' hok => ?_⟩
            obtain ⟨hall, hmax⟩ := hpaid all visited' hok (by simp only; omega)
            have hcommands := length_parseScript_le hparse
            simp only at hall
            exact ⟨by omega, hmax⟩

/-! ## The budget of a run -/

variable {η κ : Type}

/-- The run is within its limits, and the `budget` commands that wait have been paid for. -/
structure Within (limits : ExpansionLimits) (budget : Nat) (run : Run η κ) : Prop where
  fixed : run.engine.limits = limits
  paid : run.executed + budget ≤ run.meter.bytes
  bytes : run.meter.bytes ≤ limits.maxBytes
  deepest : run.meter.deepest ≤ limits.maxDepth
  nested : run.nested ≤ limits.maxDepth
  quiet : run.hooks = []
  deferred : run.convars.deferHooks = true

/-- What holds of a run that an error stops. -/
structure Stopped (limits : ExpansionLimits) (run : Run η κ) : Prop where
  executed : run.executed ≤ limits.maxBytes
  deepest : run.meter.deepest ≤ limits.maxDepth
  nested : run.nested ≤ limits.maxDepth
  quiet : run.hooks = []

omit [SerdeJson] [Text.Unicode] in
theorem Within.stopped {limits : ExpansionLimits} {budget : Nat} {run : Run η κ}
    (h : Within limits budget run) : Stopped limits run :=
  ⟨by have := h.paid; have := h.bytes; omega, h.deepest, h.nested, h.quiet⟩

omit [SerdeJson] [Text.Unicode] in
/-- A command that may be executed keeps the run within its limits. -/
theorem Within.step {limits : ExpansionLimits} {budget : Nat} {run : Run η κ} {step : Executed η}
    (h : Within limits (budget + 1) run) (hstep : Stepped run.engine run.convars step) :
    Within limits budget (run.count.after step) := by
  have hpaid : run.executed + 1 + budget ≤ run.meter.bytes := by
    have := h.paid
    omega
  cases hstep with
  | update name old value d =>
      refine ⟨h.fixed, hpaid, h.bytes, h.deepest, h.nested, ?_, h.deferred⟩
      simp [Run.after, Run.count, h.quiet, h.deferred]
  | bind | unbind | «alias» | unalias | quiet =>
      exact ⟨h.fixed, hpaid, h.bytes, h.deepest, h.nested,
        by simp [Run.after, Run.count, h.quiet], h.deferred⟩

/-- Every part of a run keeps it within its limits. -/
theorem within_rule (limits : ExpansionLimits) :
    RunRule (η := η) (κ := κ) limits (Within limits) (Stopped limits) where
  fixed _ _ h := h.fixed
  stops _ _ h := h.stopped
  expands budget run fuel statement depth commands visited meter h hexpand := by
    obtain ⟨hdeep, hpaid⟩ := run.engine.expandCommand_paid _ _ _ _ _ _ _ hexpand
    obtain ⟨hbytes, hmax⟩ := hpaid commands visited rfl
    rw [h.fixed] at hdeep hmax
    have hbefore := h.paid
    exact ⟨h.fixed, by simp only; omega, hmax, hdeep h.deepest, h.nested, h.quiet, h.deferred⟩
  fails budget run fuel statement depth error meter h hexpand := by
    obtain ⟨hdeep, _⟩ := run.engine.expandCommand_paid _ _ _ _ _ _ _ hexpand
    rw [h.fixed] at hdeep
    exact ⟨h.stopped.executed, hdeep h.deepest, h.nested, h.quiet⟩
  steps _ _ _ _ h hstep := h.step (executeOne_stepped hstep)
  counts _ run h := by
    have hpaid := h.paid
    exact ⟨h.fixed, by simp only [Run.count]; omega, h.bytes, h.deepest, h.nested, h.quiet,
      h.deferred⟩
  loads _ _ _ h := ⟨h.fixed, h.paid, h.bytes, h.deepest, h.nested, h.quiet, h.deferred⟩
  enters _ run depth h hdepth :=
    ⟨h.fixed, h.paid, h.bytes, h.deepest, Nat.max_le.mpr ⟨h.nested, hdepth⟩, h.quiet, h.deferred⟩
  emits _ _ _ h := ⟨h.fixed, h.paid, h.bytes, h.deepest, h.nested, h.quiet, h.deferred⟩

/-! ## More fuel changes nothing -/

/-- What one computation returns, the other returns too. -/
def Below {α : Type} (x y : Option α) : Prop := ∀ result, x = some result → y = some result

omit [SerdeJson] [Text.Unicode] in
theorem Below.prepend {x y : Expansion} (h : Below x y) (commands : List Command) :
    Below (Expansion.prepend commands x) (Expansion.prepend commands y) := by
  intro result hx
  cases x with
  | none => cases hx
  | some r => rwa [h r rfl]

omit [SerdeJson] [Text.Unicode] in
/-- The loop over the commands of a text, with two ways to expand the texts in it. -/
theorem CommandEngine.expandLoop_below {e : CommandEngine} {depth : Nat}
    {expand expand' : String → List String → Meter → Expansion}
    (h : ∀ text visited meter, Below (expand text visited meter) (expand' text visited meter))
    (commands : List Command) (visited : List String) (meter : Meter) :
    Below (e.expandLoop depth expand commands visited meter)
      (e.expandLoop depth expand' commands visited meter) := by
  induction commands generalizing visited meter with
  | nil => exact fun _ => id
  | cons command rest ih =>
      intro result hresult
      unfold expandLoop at hresult ⊢
      split at hresult
      · exact (ih _ _).prepend _ _ hresult
      · next name text _ =>
        split at hresult
        · next hseen => rwa [if_pos hseen]
        · next hfresh =>
          rw [if_neg hfresh]
          split at hresult
          · next hsub =>
            rw [h _ _ _ _ hsub]
            exact (ih _ _).prepend _ _ hresult
          · next hother =>
            rw [h _ _ _ _ hresult]
            obtain ⟨outcome, after⟩ := result
            cases outcome with
            | error e => rfl
            | ok value => exact absurd hresult (hother value.1 value.2 after)

/-- Expansion with more fuel. -/
theorem CommandEngine.expandCommand_below (e : CommandEngine) (fuel : Nat) (text : String)
    (depth : Nat) (visited : List String) (meter : Meter) :
    Below (e.expandCommand fuel text depth visited meter)
      (e.expandCommand (fuel + 1) text depth visited meter) := by
  induction fuel generalizing text depth visited meter with
  | zero =>
      intro result h
      cases h
  | succ fuel ih =>
      intro result h
      rw [expandCommand_succ] at h ⊢
      split
      · next hbytes => rwa [if_pos hbytes] at h
      · next hbytes =>
        rw [if_neg hbytes] at h
        split
        · next hdepth => rwa [if_pos hdepth] at h
        · next hdepth =>
          rw [if_neg hdepth] at h
          split at h
          · exact h
          · exact expandLoop_below (fun text => ih text (depth + 1)) _ _ _ _ h

variable {load : Loader κ} {depth : Nat} {exec exec' : String → Run η κ → Outcome η κ}

omit [Text.Unicode] in
/-- The commands of a statement, with two ways to execute the scripts that they load. -/
theorem runCommands_below (h : ∀ source run, Below (exec source run) (exec' source run))
    (commands : List Command) (run : Run η κ) :
    Below (runCommands load depth exec commands run)
      (runCommands load depth exec' commands run) := by
  induction commands generalizing run with
  | nil => exact fun _ => id
  | cons command rest ih =>
      intro result hresult
      by_cases hplain : ∀ path, command ≠ .exec path
      · rw [runCommands_step hplain] at hresult ⊢
        split at hresult
        · exact hresult
        · exact ih _ _ hresult
      · push Not at hplain
        obtain ⟨path, rfl⟩ := hplain
        unfold runCommands at hresult ⊢
        split
        · next hlimit => rwa [if_pos hlimit] at hresult
        · next hlimit =>
          rw [if_neg hlimit] at hresult
          split at hresult
          · exact hresult
          · split at hresult
            · next hok =>
              rw [h _ _ _ hok]
              exact ih _ _ hresult
            · next hother =>
              rw [h _ _ _ hresult]
              obtain ⟨outcome, after⟩ := result
              cases outcome with
              | error e => rfl
              | ok value => exact absurd hresult (hother after)

/-- The statements of a script, with more fuel. -/
theorem runStatements_below (h : ∀ source run, Below (exec source run) (exec' source run))
    (fuel : Nat) (statements : List String) (run : Run η κ) :
    Below (runStatements load fuel depth exec statements run)
      (runStatements load (fuel + 1) depth exec' statements run) := by
  induction statements generalizing run with
  | nil => exact fun _ => id
  | cons statement rest ih =>
      intro result hresult
      unfold runStatements at hresult ⊢
      split at hresult
      · cases hresult
      · next hfail =>
        rw [run.engine.expandCommand_below _ _ _ _ _ _ hfail]
        exact hresult
      · next hok =>
        rw [run.engine.expandCommand_below _ _ _ _ _ _ hok]
        simp only
        split at hresult
        · next hrun =>
          rw [runCommands_below h _ _ _ hrun]
          exact ih _ _ hresult
        · next hother =>
          rw [runCommands_below h _ _ _ hresult]
          obtain ⟨outcome, after⟩ := result
          cases outcome with
          | error e => rfl
          | ok value => exact absurd hresult (hother after)

/-- A stream with more fuel. -/
theorem executeStream_below (load : Loader κ) {fuel fuel' : Nat} (hle : fuel ≤ fuel')
    (script : String) (depth : Nat) (run : Run η κ) :
    Below (executeStream load fuel script depth run)
      (executeStream load fuel' script depth run) := by
  have hstep : ∀ fuel script depth (run : Run η κ),
      Below (executeStream load fuel script depth run)
        (executeStream load (fuel + 1) script depth run) := by
    intro fuel
    induction fuel with
    | zero =>
      intro _ _ _ result h
      cases h
    | succ fuel ih =>
      intro script depth run
      exact runStatements_below (fun source run => ih source (depth + 1) run) _ _ _
  induction hle with
  | refl => exact fun _ => id
  | step _ ih => exact fun result h => hstep _ _ _ _ _ (ih _ h)

/-- `execute_loaded` with more fuel. -/
theorem executeLoaded_below (load : Loader κ) {fuel fuel' : Nat} (hle : fuel ≤ fuel')
    (e : CommandEngine) (convars : ConVarStore η) (loader : κ) (script : String) :
    Below (executeLoaded fuel load e convars loader script)
      (executeLoaded fuel' load e convars loader script) := by
  intro result h
  unfold executeLoaded at h ⊢
  split at h
  · cases h
  · next hstream =>
    rw [executeStream_below load hle _ _ _ _ hstream]
    exact h
  · next hstream =>
    rw [executeStream_below load hle _ _ _ _ hstream]
    exact h

/-! ## Every script ends within its budget -/

omit [SerdeJson] [Text.Unicode] in
theorem within_startRun (e : CommandEngine) (convars : ConVarStore η) (loader : κ) :
    Within e.limits 0 (startRun e convars loader) := by
  refine ⟨rfl, Nat.le_refl 0, Nat.zero_le _, Nat.zero_le _, Nat.zero_le _, rfl, ?_⟩
  unfold startRun
  simp only
  split
  · next hactive => exact hactive
  · rfl

/-- Whatever the aliases, the script and the loader are, a script ends: it executes at most
`max_bytes` commands and nests texts and loaded scripts at most `max_depth` deep, and an error
leaves the engine and the store as they were and has run no hook. -/
theorem executeLoaded_within_budget (load : Loader κ) (e : CommandEngine)
    (convars : ConVarStore η) (loader : κ) (script : String) :
    ∃ result run,
      (∀ fuel, e.limits.maxDepth + 2 ≤ fuel →
        executeLoaded fuel load e convars loader script = some (result, run)) ∧
      run.executed ≤ e.limits.maxBytes ∧
      run.nested ≤ e.limits.maxDepth ∧ run.meter.deepest ≤ e.limits.maxDepth ∧
      ∀ error, result = .error error →
        run.engine = e ∧ run.convars = convars ∧ run.hooks = [] := by
  have hsound := executeStream_sound (within_rule e.limits) load (e.limits.maxDepth + 2) script 0
    (startRun e convars loader) 0 (Nat.zero_le _) (within_startRun e convars loader)
  cases hstream : executeStream load (e.limits.maxDepth + 2) script 0
      (startRun e convars loader) with
  | none =>
      rw [hstream] at hsound
      exact absurd (by omega) hsound
  | some final =>
      obtain ⟨outcome, run⟩ := final
      rw [hstream] at hsound
      have hstopped : Stopped e.limits run := by
        cases outcome with
        | error error => exact hsound
        | ok value => exact hsound.stopped
      have hreturns : ∀ result, executeLoaded (e.limits.maxDepth + 2) load e convars loader script =
          some result → ∀ fuel, e.limits.maxDepth + 2 ≤ fuel →
          executeLoaded fuel load e convars loader script = some result :=
        fun result h fuel hle => executeLoaded_below load hle e convars loader script result h
      cases outcome with
      | error error =>
        refine ⟨.error error, { run with engine := e, convars := convars },
          hreturns _ (by simp [executeLoaded, hstream]), hstopped.executed, hstopped.nested,
          hstopped.deepest, fun _ _ => ⟨rfl, rfl, hstopped.quiet⟩⟩
      | ok value =>
        by_cases hactive : convars.transactionActive = true
        · exact ⟨.ok run.effects, run, hreturns _ (by simp [executeLoaded, hstream, hactive]),
            hstopped.executed, hstopped.nested, hstopped.deepest, fun _ h => by cases h⟩
        · refine ⟨.ok run.effects,
            { run with
              convars := run.convars.commitTransaction.1
              hooks := run.hooks ++ run.convars.commitTransaction.2 },
            hreturns _ (by simp [executeLoaded, hstream, hactive]), hstopped.executed,
            hstopped.nested, hstopped.deepest, fun _ h => by cases h⟩

end Omp2.Control
