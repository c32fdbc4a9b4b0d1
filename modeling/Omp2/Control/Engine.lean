import Omp2.Control.Script

/-!
# The command engine

`CommandEngine` of `omp-control/src/command.rs`: the expansion of aliases, the execution of a
script with the scripts that it loads, and the patch that a script's effects become. Expansion and
execution recurse into each other along depths that the source bounds by `max_depth`; the functions
here take the number of nested calls as fuel and return `none` when it runs out. The loader of a
host is a function on a state of its own, of type `κ`.

A run also records what it has done: the hooks that ran, how many commands were executed, and how
deeply texts and loaded scripts were nested. Only the hooks are visible in the source; no function
reads the other records.
-/

namespace Omp2.Control

open State Json

/-- `ExpansionLimits`. -/
structure ExpansionLimits where
  maxDepth : Nat
  maxBytes : Nat
deriving DecidableEq, Repr

/-- `ExpansionLimits::default`. -/
def ExpansionLimits.standard : ExpansionLimits := ⟨16, 65536⟩

/-- `CommandEngine`. -/
structure CommandEngine where
  binds : Std.ExtTreeMap String String
  aliases : Std.ExtTreeMap String String
  limits : ExpansionLimits

/-- `CommandEngine::with_limits`. -/
def CommandEngine.withLimits (limits : ExpansionLimits) : CommandEngine := ⟨∅, ∅, limits⟩

/-- `CommandEffect`. -/
inductive CommandEffect where
  | conVarUpdated (name : String) (oldValue newValue : TypedValue) (flags : ConVarFlags)
  | conVarQueried (name : String) (value : TypedValue)
  | bound (key command : String)
  | unbound (key : String)
  | aliased (name command : String)
  | unaliased (name : String)
  | execRequested (path : String)
  | output (message : String)
  | forcePushed (tool reminder : String) (maxAttempts : UInt32)
  | toolExecuted (name : String) (input : Value)
  | dynDiscovered (query : Option String)
  | jobCancelled (jobId : String)
  | provider (action : ProviderAction)
  | effort (level : Option String)

/-! ## The values in the document -/

/-- The prefix of the attributes that hold binds. -/
def bindPrefix : String := "bind:"

/-- The prefix of the attributes that hold aliases. -/
def aliasPrefix : String := "alias:"

/-- The bind that an attribute holds. -/
def bindEntry (name : String) : TypedValue → Option (String × String)
  | .string command => (Text.stripPrefix name bindPrefix).map fun key => (key, command)
  | _ => none

/-- The alias that an attribute holds; an attribute that holds a bind holds none. -/
def aliasEntry (name : String) (value : TypedValue) : Option (String × String) :=
  match bindEntry name value, value with
  | none, .string command => (Text.stripPrefix name aliasPrefix).map fun key => (key, command)
  | _, _ => none

/-- `CommandEngine::hydrate_from_dom`. -/
def CommandEngine.hydrateFromDom (e : CommandEngine) (s : SessionSnapshot) : CommandEngine :=
  { e with
    binds := Collect.collect (sessionGlobals s) bindEntry ∅
    aliases := Collect.collect (sessionGlobals s) aliasEntry ∅ }

/-! ## Expansion -/

/-- The bytes that a run has expanded, and the greatest depth at which it expanded a text. -/
structure Meter where
  bytes : Nat
  deepest : Nat
deriving DecidableEq, Repr

/-- What an expansion returns: the commands and the aliases still open, next to the meter. -/
abbrev Expansion := Option (Except CommandError (List Command × List String) × Meter)

/-- Put commands in front of the ones that an expansion returns. -/
def Expansion.prepend (commands : List Command) : Expansion → Expansion
  | some (.ok (more, visited), meter) => some (.ok (commands ++ more, visited), meter)
  | other => other

/-- The alias that a command calls and the text that replaces the call. -/
def CommandEngine.replacement (e : CommandEngine) : Command → Option (String × String)
  | .getConVar name => e.aliases[name]?.map fun text => (name, text)
  | .custom name args =>
    e.aliases[name]?.map fun text =>
      (name, if args.isEmpty then text else text ++ " " ++ joinWords args)
  | _ => none

variable [SerdeJson] [Text.Unicode]

/-- The loop of `expand_command` over the commands of a text. -/
def CommandEngine.expandLoop (e : CommandEngine) (depth : Nat)
    (expand : String → List String → Meter → Expansion) :
    List Command → List String → Meter → Expansion
  | [], visited, meter => some (.ok ([], visited), meter)
  | command :: rest, visited, meter =>
    match e.replacement command with
    | none => (e.expandLoop depth expand rest visited meter).prepend [command]
    | some (name, text) =>
      if name ∈ visited then some (.error (.recursionLimit name depth), meter)
      else match expand text (visited ++ [name]) meter with
        | some (.ok (sub, visited), meter) =>
          (e.expandLoop depth expand rest visited.dropLast meter).prepend sub
        | other => other

/-- `CommandEngine::expand_command`. -/
def CommandEngine.expandCommand (e : CommandEngine) :
    Nat → String → Nat → List String → Meter → Expansion
  | 0, _, _, _, _ => none
  | fuel + 1, text, depth, visited, meter =>
    let bytes := meter.bytes + text.utf8ByteSize
    if e.limits.maxBytes < bytes then
      some (.error (.expansionLimit bytes e.limits.maxBytes), { meter with bytes })
    else if e.limits.maxDepth < depth then
      some (.error (.recursionLimit (visited.getLast?.getD "") depth), { meter with bytes })
    else match parseScript text with
      | .error error => some (.error error, { meter with bytes })
      | .ok commands =>
        e.expandLoop depth (fun text => e.expandCommand fuel text (depth + 1)) commands visited
          ⟨bytes, max meter.deepest depth⟩

/-! ## Execution -/

variable {η κ : Type}

/-- What a command leaves behind: its effects, the engine, the store and the hooks that ran. -/
structure Executed (η : Type) where
  effects : List CommandEffect
  engine : CommandEngine
  convars : ConVarStore η
  hooks : List (HookRun η)

/-- The end of the arms of `execute_one` that set a variable. -/
def updateConVar (e : CommandEngine) (convars : ConVarStore η) (name raw : String)
    (oldValue : TypedValue) : Except CommandError (Executed η) :=
  match convars.setFromStr name raw with
  | .error error => .error (.conVar error)
  | .ok (newValue, convars', hooks) =>
    .ok ⟨[.conVarUpdated name oldValue newValue (convars.flagsOf name)], e, convars', hooks⟩

/-- The error of a toggle without values that has no meaning for the current value. -/
def cannotToggle (name : String) : CommandError :=
  .conVar (.invalidValue name "cannot toggle non-boolean convar without explicit target values")

/-- The next value of a toggle without values. -/
def toggledDefault (name : String) : TypedValue → Except CommandError String
  | .bool b => .ok (if b then "false" else "true")
  | .integer i => .ok (if i = 0 then "1" else "0")
  | .string s =>
    match TriState.fromStr s with
    | .ok .true => .ok "0"
    | .ok _ => .ok "1"
    | .error _ => .error (cannotToggle name)
  | .null => .ok "1"
  | _ => .error (cannotToggle name)

/-- The values of a toggle, as the variable's parser reads them. -/
def toggleValues (d : ConVarDefinition η) (name : String) :
    List String → Except CommandError (List TypedValue)
  | [] => .ok []
  | value :: rest =>
    match (d.parser.getD parseString) value with
    | .error reason => .error (.conVar (.invalidValue name reason))
    | .ok parsed => do return parsed :: (← toggleValues d name rest)

/-- The next value of a toggle with values: the one after the current value, or the first. -/
def toggledAmong (d : ConVarDefinition η) (name : String) (values : List String)
    (current : TypedValue) : Except CommandError String := do
  let typed ← toggleValues d name values
  let index := (typed.findIdx? fun value => sameValue value current).getD (values.length - 1)
  return values.getD ((index + 1) % values.length) ""

/-- `CommandEngine::execute_one`. -/
def executeOne (e : CommandEngine) (convars : ConVarStore η) :
    Command → Except CommandError (Executed η)
  | .setConVar name value => updateConVar e convars name value ((convars.get name).getD .null)
  | .getConVar name =>
    match convars.get name with
    | none => .error (.conVar (.notFound name))
    | some value => .ok ⟨[.conVarQueried name value], e, convars, []⟩
  | .bind key command =>
    .ok ⟨[.bound key command], { e with binds := e.binds.insert key command }, convars, []⟩
  | .unbind key => .ok ⟨[.unbound key], { e with binds := e.binds.erase key }, convars, []⟩
  | .toggle name values =>
    match convars.get name with
    | none => .error (.conVar (.notFound name))
    | some current =>
      if values.isEmpty then do
        let raw ← toggledDefault name current
        updateConVar e convars name raw current
      else match convars.getDef name with
        | none => .error (.conVar (.notFound name))
        | some d => do
          let raw ← toggledAmong d name values current
          updateConVar e convars name raw current
  | .alias name command =>
    .ok ⟨[.aliased name command], { e with aliases := e.aliases.insert name command }, convars, []⟩
  | .unalias name =>
    .ok ⟨[.unaliased name], { e with aliases := e.aliases.erase name }, convars, []⟩
  | .exec path => .ok ⟨[.execRequested path], e, convars, []⟩
  | .echo message => .ok ⟨[.output message], e, convars, []⟩
  | .force tool reminder maxAttempts =>
    .ok ⟨[.forcePushed tool (reminder.getD ("invoke tool " ++ tool)) (maxAttempts.getD 3)], e,
      convars, []⟩
  | .toolCall name input => .ok ⟨[.toolExecuted name input], e, convars, []⟩
  | .dynDiscovery query _ _ => .ok ⟨[.dynDiscovered query], e, convars, []⟩
  | .cancelJob jobId => .ok ⟨[.jobCancelled jobId], e, convars, []⟩
  | .provider action => .ok ⟨[.provider action], e, convars, []⟩
  | .effort level => .ok ⟨[.effort level], e, convars, []⟩
  | .custom name args =>
    match convars.getDef name with
    | none => .error (.unknownCommand name)
    | some _ => updateConVar e convars name (joinWords args) ((convars.get name).getD .null)

/-- The state of a run: the engine, the store, the loader, and the record of what has been done. -/
structure Run (η κ : Type) where
  engine : CommandEngine
  convars : ConVarStore η
  loader : κ
  meter : Meter
  effects : List CommandEffect
  hooks : List (HookRun η)
  executed : Nat
  nested : Nat

/-- What a part of a run returns. -/
abbrev Outcome (η κ : Type) := Option (Except CommandError Unit × Run η κ)

namespace Run

/-- A command has been executed. -/
def count (run : Run η κ) : Run η κ :=
  { run with executed := run.executed + 1 }

/-- What a command did takes effect. -/
def after (run : Run η κ) (step : Executed η) : Run η κ :=
  { run with
    engine := step.engine
    convars := step.convars
    effects := run.effects ++ step.effects
    hooks := run.hooks ++ step.hooks }

/-- A script at a depth has been entered. -/
def enter (run : Run η κ) (depth : Nat) : Run η κ :=
  { run with nested := max run.nested depth }

/-- Add an effect. -/
def emit (run : Run η κ) (effect : CommandEffect) : Run η κ :=
  { run with effects := run.effects ++ [effect] }

end Run

/-- A host's loader of scripts. -/
abbrev Loader (κ : Type) := κ → String → Except CommandError String × κ

/-- The inner loop of `execute_stream`; `exec` executes a loaded script one level deeper. -/
def runCommands (load : Loader κ) (depth : Nat) (exec : String → Run η κ → Outcome η κ) :
    List Command → Run η κ → Outcome η κ
  | [], run => some (.ok (), run)
  | .exec path :: rest, run =>
    if run.engine.limits.maxDepth ≤ depth then
      some (.error (.recursionLimit path depth), run.count)
    else match load run.loader path with
      | (.error error, loader) => some (.error error, { run.count with loader })
      | (.ok source, loader) =>
        match exec source { run.count with loader } with
        | some (.ok (), run) =>
          runCommands load depth exec rest (run.emit (.execRequested path))
        | other => other
  | command :: rest, run =>
    match executeOne run.engine run.convars command with
    | .error error => some (.error error, run.count)
    | .ok step => runCommands load depth exec rest (run.count.after step)

/-- The outer loop of `execute_stream`; `fuel` is for the expansion of a statement. -/
def runStatements (load : Loader κ) (fuel depth : Nat) (exec : String → Run η κ → Outcome η κ) :
    List String → Run η κ → Outcome η κ
  | [], run => some (.ok (), run)
  | statement :: rest, run =>
    match run.engine.expandCommand fuel statement depth [] run.meter with
    | none => none
    | some (.error error, meter) => some (.error error, { run with meter })
    | some (.ok (commands, _), meter) =>
      match runCommands load depth exec commands { run with meter } with
      | some (.ok (), run) => runStatements load fuel depth exec rest run
      | other => other

/-- `CommandEngine::execute_stream`. -/
def executeStream (load : Loader κ) : Nat → String → Nat → Run η κ → Outcome η κ
  | 0, _, _, _ => none
  | fuel + 1, script, depth, run =>
    runStatements load (fuel + 1) depth
      (fun source run => executeStream load fuel source (depth + 1) run)
      (splitStatements script) (run.enter depth)

/-- The state in which `execute_loaded` starts the stream. -/
def startRun (e : CommandEngine) (convars : ConVarStore η) (loader : κ) : Run η κ where
  engine := e
  convars := if convars.transactionActive then convars else convars.beginTransaction
  loader := loader
  meter := ⟨0, 0⟩
  effects := []
  hooks := []
  executed := 0
  nested := 0

/-- `CommandEngine::execute_loaded`, with the engine and the store as it leaves them. -/
def executeLoaded (fuel : Nat) (load : Loader κ) (e : CommandEngine) (convars : ConVarStore η)
    (loader : κ) (script : String) :
    Option (Except CommandError (List CommandEffect) × Run η κ) :=
  match executeStream load fuel script 0 (startRun e convars loader) with
  | none => none
  | some (.error error, run) => some (.error error, { run with engine := e, convars := convars })
  | some (.ok (), run) =>
    if convars.transactionActive then some (.ok run.effects, run)
    else
      some (.ok run.effects,
        { run with
          convars := run.convars.commitTransaction.1
          hooks := run.hooks ++ run.convars.commitTransaction.2 })

/-! ## The patch of a run -/

/-- The arm of `command_effects_to_patch` for one effect. -/
def effectOps (element : ElementId) : CommandEffect → List PatchOp
  | .conVarUpdated name _ newValue flags =>
    if flags.contains .session then [.setAttribute element name newValue] else []
  | .bound key command => [.setAttribute element (bindPrefix ++ key) (.string command)]
  | .aliased name command => [.setAttribute element (aliasPrefix ++ name) (.string command)]
  | .unbound key => [.removeAttribute element (bindPrefix ++ key)]
  | .unaliased name => [.removeAttribute element (aliasPrefix ++ name)]
  | _ => []

/-- `command_effects_to_patch`. -/
def commandEffectsToPatch (effects : List CommandEffect) (baseOffset resultOffset : UInt64)
    (author : ActorId) (element : ElementId) : Option Patch :=
  let ops := effects.flatMap (effectOps element)
  if ops.isEmpty then none
  else some { baseOffset, resultOffset, author := .actor author, reason := "command effects", ops }

end Omp2.Control
