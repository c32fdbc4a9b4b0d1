import Omp2.Control.Engine

/-!
# What a command and a run of commands can do

`Stepped` lists what `execute_one` can do to the engine and the store, and
`executeOne_stepped` says that it does nothing else. `RunRule` is what a property of runs needs
to be kept through a script with all the scripts that it loads: `executeStream_sound` carries it
from the start of a stream to its end, or to the error that stops it.
-/

namespace Omp2.Control

open State Json

variable [SerdeJson] [Text.Unicode] {η κ : Type}

/-! ## One command -/

omit [SerdeJson] [Text.Unicode] in
theorem exceptBind_eq_ok {ε α β : Type} {x : Except ε α} {f : α → Except ε β} {b : β}
    (h : (x >>= f) = .ok b) : ∃ a, x = .ok a ∧ f a = .ok b := by
  cases x with
  | error e => cases h
  | ok a => exact ⟨a, rfl, h⟩

omit [SerdeJson] [Text.Unicode] in
/-- A successful `set` writes the value and runs the hook or leaves it pending. -/
theorem ConVarStore.set_eq_ok {store : ConVarStore η} {name : String} {value : TypedValue}
    {result : TypedValue × ConVarStore η × List (HookRun η)}
    (h : store.set name value = .ok result) :
    ∃ d, result = (value, store.write name value d,
      if store.deferHooks then [] else store.hookRuns d.val name value) := by
  unfold ConVarStore.set at h
  cases hd : store.writable name with
  | error e =>
      rw [hd] at h
      cases h
  | ok d =>
      rw [hd] at h
      dsimp only [bind, Except.bind] at h
      split at h
      · cases h
      · split at h
        · cases h
        · cases h
          exact ⟨d, rfl⟩

omit [Text.Unicode] in
/-- A successful `set_from_str` writes some value. -/
theorem ConVarStore.setFromStr_eq_ok {store : ConVarStore η} {name raw : String}
    {result : TypedValue × ConVarStore η × List (HookRun η)}
    (h : store.setFromStr name raw = .ok result) :
    ∃ value d, result = (value, store.write name value d,
      if store.deferHooks then [] else store.hookRuns d.val name value) := by
  unfold ConVarStore.setFromStr at h
  cases hd : store.writable name with
  | error e =>
      rw [hd] at h
      cases h
  | ok d =>
      rw [hd] at h
      dsimp only [bind, Except.bind] at h
      split at h
      · cases h
      · exact ⟨_, ConVarStore.set_eq_ok h⟩

/-- The ways in which a command changes the engine and the store. -/
inductive Stepped (e : CommandEngine) (convars : ConVarStore η) : Executed η → Prop where
  | update (name : String) (old value : TypedValue)
      (d : { d : ConVarDefinition η // convars.definitions[name]? = some d }) :
      Stepped e convars ⟨[.conVarUpdated name old value d.val.flags], e,
        convars.write name value d,
        if convars.deferHooks then [] else convars.hookRuns d.val name value⟩
  | bind (key command : String) :
      Stepped e convars
        ⟨[.bound key command], { e with binds := e.binds.insert key command }, convars, []⟩
  | unbind (key : String) :
      Stepped e convars ⟨[.unbound key], { e with binds := e.binds.erase key }, convars, []⟩
  | alias (name command : String) :
      Stepped e convars
        ⟨[.aliased name command], { e with aliases := e.aliases.insert name command }, convars, []⟩
  | unalias (name : String) :
      Stepped e convars
        ⟨[.unaliased name], { e with aliases := e.aliases.erase name }, convars, []⟩
  | quiet (effect : CommandEffect) (h : ∀ element, effectOps element effect = []) :
      Stepped e convars ⟨[effect], e, convars, []⟩

omit [Text.Unicode] in
/-- Setting a variable is an update. -/
theorem updateConVar_stepped {e : CommandEngine} {convars : ConVarStore η} {name raw : String}
    {old : TypedValue} {step : Executed η} (h : updateConVar e convars name raw old = .ok step) :
    Stepped e convars step := by
  unfold updateConVar at h
  split at h
  · cases h
  · next hset =>
    cases h
    obtain ⟨value, d, heq⟩ := ConVarStore.setFromStr_eq_ok hset
    cases heq
    have hflags : convars.flagsOf name = d.val.flags := by
      simp [ConVarStore.flagsOf, ConVarStore.getDef, d.property]
    rw [hflags]
    exact .update name old _ d

omit [Text.Unicode] in
/-- A command does one of the listed things. -/
theorem executeOne_stepped {e : CommandEngine} {convars : ConVarStore η} {command : Command}
    {step : Executed η} (h : executeOne e convars command = .ok step) : Stepped e convars step := by
  cases command with
  | setConVar name value => exact updateConVar_stepped h
  | getConVar name =>
      simp only [executeOne] at h
      split at h <;> cases h
      exact .quiet _ fun _ => rfl
  | bind key command =>
      cases h
      exact .bind key command
  | unbind key =>
      cases h
      exact .unbind key
  | toggle name values =>
      simp only [executeOne] at h
      split at h
      · cases h
      · split at h
        · obtain ⟨raw, _, hraw⟩ := exceptBind_eq_ok h
          exact updateConVar_stepped hraw
        · split at h
          · cases h
          · obtain ⟨raw, _, hraw⟩ := exceptBind_eq_ok h
            exact updateConVar_stepped hraw
  | «alias» name command =>
      cases h
      exact .alias name command
  | unalias name =>
      cases h
      exact .unalias name
  | custom name args =>
      simp only [executeOne] at h
      split at h
      · cases h
      · exact updateConVar_stepped h
  | exec path | echo path | effort path | cancelJob path | provider path | toolCall path _
  | force path _ _ | dynDiscovery path _ _ =>
      cases h
      exact .quiet _ fun _ => rfl

/-! ## Expansion returns -/

omit [SerdeJson] [Text.Unicode] in
theorem Expansion.prepend_ne_none {commands : List Command} {expansion : Expansion}
    (h : expansion ≠ none) : expansion.prepend commands ≠ none := by
  unfold Expansion.prepend
  split
  · simp
  · exact h

omit [SerdeJson] [Text.Unicode] in
/-- The loop over the commands of a text returns when every expansion in it does. -/
theorem CommandEngine.expandLoop_total {e : CommandEngine} {depth : Nat}
    {expand : String → List String → Meter → Expansion}
    (hexpand : ∀ text visited meter, expand text visited meter ≠ none)
    (commands : List Command) (visited : List String) (meter : Meter) :
    e.expandLoop depth expand commands visited meter ≠ none := by
  induction commands generalizing visited meter with
  | nil => simp [expandLoop]
  | cons command rest ih =>
      unfold expandLoop
      split
      · exact Expansion.prepend_ne_none (ih _ _)
      · split
        · simp
        · split
          · exact Expansion.prepend_ne_none (ih _ _)
          · exact hexpand _ _ _

/-- One level of expansion. -/
theorem CommandEngine.expandCommand_succ (e : CommandEngine) (fuel depth : Nat) (text : String)
    (visited : List String) (meter : Meter) :
    e.expandCommand (fuel + 1) text depth visited meter =
      if e.limits.maxBytes < meter.bytes + text.utf8ByteSize then
        some (.error (.expansionLimit (meter.bytes + text.utf8ByteSize) e.limits.maxBytes),
          { meter with bytes := meter.bytes + text.utf8ByteSize })
      else if e.limits.maxDepth < depth then
        some (.error (.recursionLimit (visited.getLast?.getD "") depth),
          { meter with bytes := meter.bytes + text.utf8ByteSize })
      else match parseScript text with
        | .error error =>
          some (.error error, { meter with bytes := meter.bytes + text.utf8ByteSize })
        | .ok commands =>
          e.expandLoop depth (fun text => e.expandCommand fuel text (depth + 1)) commands visited
            ⟨meter.bytes + text.utf8ByteSize, max meter.deepest depth⟩ := rfl

/-- Expansion returns with fuel for the levels that the depth limit leaves. -/
theorem CommandEngine.expandCommand_total (e : CommandEngine) {fuel depth : Nat}
    (hdepth : depth ≤ e.limits.maxDepth + 1) (h : e.limits.maxDepth + 2 ≤ depth + fuel)
    (text : String) (visited : List String) (meter : Meter) :
    e.expandCommand fuel text depth visited meter ≠ none := by
  induction fuel generalizing depth text visited meter with
  | zero => omega
  | succ fuel ih =>
      rw [expandCommand_succ]
      split
      · simp
      · split
        · simp
        · split
          · simp
          · refine expandLoop_total (fun text visited meter => ?_) _ _ _
            exact ih (by omega) (by omega) text visited meter

/-! ## A whole run -/

/-- What a property of runs needs to survive a script: `live budget` holds between the commands,
where `budget` commands are still to be executed, and `stopped` at the error that ends a run. -/
structure RunRule (limits : ExpansionLimits) (live : Nat → Run η κ → Prop)
    (stopped : Run η κ → Prop) : Prop where
  fixed : ∀ budget run, live budget run → run.engine.limits = limits
  stops : ∀ budget run, live budget run → stopped run
  expands : ∀ budget run fuel statement depth commands visited meter, live budget run →
    run.engine.expandCommand fuel statement depth [] run.meter =
      some (.ok (commands, visited), meter) →
    live (commands.length + budget) { run with meter }
  fails : ∀ budget run fuel statement depth error meter, live budget run →
    run.engine.expandCommand fuel statement depth [] run.meter = some (.error error, meter) →
    stopped { run with meter }
  steps : ∀ budget run command step, live (budget + 1) run →
    executeOne run.engine run.convars command = .ok step → live budget (run.count.after step)
  counts : ∀ budget run, live (budget + 1) run → live budget run.count
  loads : ∀ budget run loader, live budget run → live budget { run with loader }
  enters : ∀ budget run depth, live budget run → depth ≤ limits.maxDepth →
    live budget (run.enter depth)
  emits : ∀ budget run path, live budget run → live budget (run.emit (.execRequested path))

/-- What a part of a run leaves behind, when it starts with a budget: it returns when it has
enough fuel. -/
def RunSound (live : Nat → Run η κ → Prop) (stopped : Run η κ → Prop) (enough : Prop)
    (budget : Nat) : Outcome η κ → Prop
  | none => ¬ enough
  | some (.ok (), run) => live budget run
  | some (.error _, run) => stopped run

variable {limits : ExpansionLimits} {live : Nat → Run η κ → Prop} {stopped : Run η κ → Prop}

omit [SerdeJson] [Text.Unicode] in
/-- What stops a part of a run stops the run, whatever budget is left. -/
theorem RunSound.error {enough : Prop} {budget budget' : Nat} {outcome : Outcome η κ}
    (h : RunSound live stopped enough budget outcome)
    (hnot : ∀ run, outcome ≠ some (.ok (), run)) :
    RunSound live stopped enough budget' outcome := by
  cases outcome with
  | none => exact h
  | some result =>
      obtain ⟨result, run⟩ := result
      cases result with
      | ok value => exact absurd rfl (hnot run)
      | error e => exact h

variable {load : Loader κ} {depth : Nat} {exec : String → Run η κ → Outcome η κ}

omit [Text.Unicode] in
/-- Executing a command that loads no script. -/
theorem runCommands_step {command : Command} (hplain : ∀ path, command ≠ .exec path)
    (rest : List Command) (run : Run η κ) :
    runCommands load depth exec (command :: rest) run =
      match executeOne run.engine run.convars command with
      | .error error => some (.error error, run.count)
      | .ok step => runCommands load depth exec rest (run.count.after step) := by
  cases command with
  | exec path => exact absurd rfl (hplain path)
  | _ => rfl

/-- The commands of a statement, one after the other. -/
theorem runCommands_sound (rule : RunRule limits live stopped) {enough : Prop}
    (hexec : ∀ source run budget, depth + 1 ≤ limits.maxDepth → live budget run →
      RunSound live stopped enough budget (exec source run))
    (commands : List Command) (run : Run η κ) (budget : Nat)
    (h : live (commands.length + budget) run) :
    RunSound live stopped enough budget (runCommands load depth exec commands run) := by
  induction commands generalizing run with
  | nil => simpa [runCommands, RunSound] using h
  | cons command rest ih =>
      have hbudget : (command :: rest).length + budget = (rest.length + budget) + 1 := by
        simp only [List.length_cons]
        omega
      rw [hbudget] at h
      have hcount := rule.counts _ _ h
      by_cases hplain : ∀ path, command ≠ .exec path
      · rw [runCommands_step hplain]
        split
        · exact rule.stops _ _ hcount
        · next hstep => exact ih _ (rule.steps _ _ _ _ h hstep)
      · push Not at hplain
        obtain ⟨path, rfl⟩ := hplain
        unfold runCommands
        split
        · exact rule.stops _ _ hcount
        · next hlow =>
          have hlimits := rule.fixed _ _ h
          rw [hlimits] at hlow
          split
          · exact rule.stops _ _ (rule.loads _ _ _ hcount)
          · next source loader _ =>
            have hsound := hexec source { run.count with loader } (rest.length + budget)
              (by omega) (rule.loads _ _ loader hcount)
            split
            · next hok =>
              rw [hok] at hsound
              exact ih _ (rule.emits _ _ _ hsound)
            · next hother => exact hsound.error hother

/-- The statements of a script, one after the other. -/
theorem runStatements_sound (rule : RunRule limits live stopped) {fuel : Nat}
    (hdepth : depth ≤ limits.maxDepth)
    (hexec : ∀ source run budget, depth + 1 ≤ limits.maxDepth → live budget run →
      RunSound live stopped (limits.maxDepth + 2 ≤ depth + fuel) budget (exec source run))
    (statements : List String) (run : Run η κ) (budget : Nat) (h : live budget run) :
    RunSound live stopped (limits.maxDepth + 2 ≤ depth + fuel) budget
      (runStatements load fuel depth exec statements run) := by
  induction statements generalizing run with
  | nil => exact h
  | cons statement rest ih =>
      unfold runStatements
      split
      · next hnone =>
        intro henough
        rw [← rule.fixed _ _ h] at henough hdepth
        exact run.engine.expandCommand_total (by omega) henough _ _ _ hnone
      · next hfail => exact rule.fails _ _ _ _ _ _ _ h hfail
      · next commands visited meter hok =>
        have hcommands : RunSound live stopped (limits.maxDepth + 2 ≤ depth + fuel) budget
            (runCommands load depth exec commands { run with meter }) :=
          runCommands_sound rule hexec commands _ budget
            (rule.expands _ _ _ _ _ _ _ _ h hok)
        split
        · next hrun =>
          rw [hrun] at hcommands
          exact ih _ hcommands
        · next hother => exact hcommands.error hother

/-- A stream with all the streams that it executes. -/
theorem executeStream_sound (rule : RunRule limits live stopped) (load : Loader κ) (fuel : Nat)
    (script : String) (depth : Nat) (run : Run η κ) (budget : Nat)
    (hdepth : depth ≤ limits.maxDepth) (h : live budget run) :
    RunSound live stopped (limits.maxDepth + 2 ≤ depth + fuel) budget
      (executeStream load fuel script depth run) := by
  induction fuel generalizing script depth run budget with
  | zero =>
      intro henough
      omega
  | succ fuel ih =>
      refine runStatements_sound rule hdepth (fun source run budget hnext hlive => ?_) _ _ _
        (rule.enters _ _ _ h hdepth)
      have hstream := ih source (depth + 1) run budget hnext hlive
      rwa [show depth + 1 + fuel = depth + (fuel + 1) by omega] at hstream

end Omp2.Control
