import Omp2.Library.Collect
import Omp2.Library.Numerals
import Omp2.State.Dom

/-!
# Console variables

The variable store of `omp-control/src/convar.rs`: the declared variables with their flags,
parsers and validators, the values they have, and the hooks that a change runs or, inside a
transaction, leaves pending. A hook is a closure of the host, here a value of the type `η`: it
reads the old and the new value and has no way back into the store, so that a run of it is the
record of its two arguments.
-/

namespace Omp2.Control

open State Json

/-! ## Flags and errors -/

/-- `ConVarFlags`. -/
structure ConVarFlags where
  bits : UInt32
deriving DecidableEq, Repr

namespace ConVarFlags

/-- `NONE`. -/
def none : ConVarFlags := ⟨0⟩
/-- `SESSION`: the value is journaled in the document. -/
def session : ConVarFlags := ⟨1⟩
/-- `REPLICATED`. -/
def replicated : ConVarFlags := ⟨2⟩
/-- `USERINFO`. -/
def userinfo : ConVarFlags := ⟨4⟩
/-- `ARCHIVE`. -/
def archive : ConVarFlags := ⟨8⟩
/-- `CHEAT`: the variable changes only while cheats are enabled. -/
def cheat : ConVarFlags := ⟨16⟩
/-- `NOTIFY`. -/
def notify : ConVarFlags := ⟨32⟩
/-- `READONLY`: no command changes the variable. -/
def readonly : ConVarFlags := ⟨64⟩

/-- `ConVarFlags::contains`. -/
def contains (flags other : ConVarFlags) : Bool :=
  flags.bits &&& other.bits == other.bits

/-- `ConVarFlags::union`. -/
def union (flags other : ConVarFlags) : ConVarFlags :=
  ⟨flags.bits ||| other.bits⟩

end ConVarFlags

/-- `ConVarError`. -/
inductive ConVarError where
  | notFound (name : String)
  | readOnly (name : String)
  | cheatProtected (name : String)
  | invalidValue (name reason : String)
  | typeMismatch (name expected actual : String)
deriving DecidableEq, Repr

/-- The equality of typed values, which is the one of the numbers and trees they hold. -/
def sameValue : TypedValue → TypedValue → Bool
  | .null, .null => true
  | .bool a, .bool b => a == b
  | .integer a, .integer b => a == b
  | .number a, .number b => a.numEq b
  | .string a, .string b => a == b
  | .json a, .json b => a.sameAs b
  | _, _ => false

/-! ## Reading values -/

/-- `TriState`. -/
inductive TriState where
  | false
  | true
  | unknown
deriving DecidableEq, Repr

/-- `TriState::from_str`. -/
def TriState.fromStr (s : String) : Except ConVarError TriState :=
  let word := (Text.trim s).toLower
  if word ∈ ["1", "true", "yes", "on"] then .ok .true
  else if word ∈ ["0", "false", "no", "off"] then .ok .false
  else if word ∈ ["unknown", "auto", "default", "?", "null", "none"] then .ok .unknown
  else .error (.invalidValue "tristate" s!"expected boolean or 'unknown', got '{word}'")

/-- `TriState::to_typed_value`. -/
def TriState.toTypedValue : TriState → TypedValue
  | .false => .bool Bool.false
  | .true => .bool Bool.true
  | .unknown => .string "unknown"

/-- What a declared variable reads its text with. -/
abbrev Parser := String → Except String TypedValue

/-- `bool::parse_str`. -/
def parseBool : Parser := fun raw =>
  let word := (Text.trim raw).toLower
  if word ∈ ["1", "true", "yes", "on"] then .ok (.bool true)
  else if word ∈ ["0", "false", "no", "off"] then .ok (.bool false)
  else if word ∈ ["unknown", "auto", "default", "?"] then
    .error "cannot convert 'unknown' to boolean; explicit value required"
  else .error s!"invalid boolean: '{raw}'"

/-- `i64::parse_str`. -/
def parseInteger : Parser := fun raw =>
  match parseInt64 (Text.trim raw).toList with
  | .ok n => .ok (.integer n)
  | .error e => .error s!"cannot parse integer '{raw}': {e}"

/-- `f64::parse_str`. -/
def parseFloat : Parser := fun raw =>
  match parseF64 (Text.trim raw).toList with
  | .ok x => .ok (.number x)
  | .error e => .error s!"cannot parse float '{raw}': {e}"

/-- `String::parse_str`. -/
def parseString : Parser := fun raw => .ok (.string raw)

/-- `Option::<i64>::parse_str`. -/
def parseOptionalInteger : Parser := fun raw =>
  let trimmed := Text.trim raw
  if trimmed.isEmpty ∨ trimmed.toLower = "null" ∨ trimmed.toLower = "none" then .ok .null
  else parseInteger raw

/-- The typed value of a JSON tree, for which `null` is no value. -/
def jsonValue : Value → TypedValue
  | .null => .null
  | value => .json value

/-- `serde_json::Value::parse_str`. -/
def parseJson [SerdeJson] : Parser := fun raw =>
  let trimmed := Text.trim raw
  if trimmed.isEmpty ∨ trimmed.toLower = "null" then .ok .null
  else match SerdeJson.fromSlice trimmed.toByteArray.toList with
    | .ok value => .ok (jsonValue value)
    | .error e => .error s!"cannot parse JSON '{raw}': {e}"

/-! ## The store -/

/-- `ConVarDefinition`. -/
structure ConVarDefinition (η : Type) where
  name : String
  help : String
  flags : ConVarFlags
  defaultValue : TypedValue
  validator : Option (TypedValue → Except String Unit)
  changeHook : Option η
  parser : Option Parser

/-- The check of a declared variable's validator, if it has one. -/
def ConVarDefinition.validate {η : Type} (d : ConVarDefinition η) (value : TypedValue) :
    Except String Unit :=
  match d.validator with
  | some validator => validator value
  | none => .ok ()

/-- A run of a hook: the hook with the old and the new value. -/
abbrev HookRun (η : Type) := η × TypedValue × TypedValue

/-- `ConVarStore`. A value is only kept for a declared variable. -/
structure ConVarStore (η : Type) where
  definitions : Std.ExtTreeMap String (ConVarDefinition η)
  values : Std.ExtTreeMap String TypedValue
  dirtySession : Std.ExtTreeSet String
  cheatsEnabled : Bool
  deferHooks : Bool
  pendingHooks : List (HookRun η)
  declared : ∀ name, name ∈ values → name ∈ definitions

/-- The truthy spellings of `sv_cheats`. -/
def cheatsOf : TypedValue → Bool
  | .bool b => b
  | .integer i => i != 0
  | .string s => s.toLower ∈ ["1", "true", "yes", "on"]
  | _ => false

/-- The match of `set` on the declared default and the new value. -/
def compatible : TypedValue → TypedValue → Bool
  | .null, _ => true
  | .bool _, .bool _ | .integer _, .integer _ | .number _, .number _ | .string _, .string _
  | .json _, .json _ => true
  -- a tristate writes its unknown value as a string and its known values as booleans
  | .string text, .bool _ => text == "unknown"
  | _, _ => false

namespace ConVarStore

variable {η : Type}

/-- `ConVarStore::new`. -/
def new : ConVarStore η where
  definitions := ∅
  values := ∅
  dirtySession := ∅
  cheatsEnabled := false
  deferHooks := false
  pendingHooks := []
  declared := by simp

/-- `register_def`. -/
def registerDef (store : ConVarStore η) (d : ConVarDefinition η) : ConVarStore η :=
  { store with
    definitions := store.definitions.insert d.name d
    values :=
      if store.values.contains d.name then store.values
      else store.values.insert d.name d.defaultValue
    declared := by
      intro name hname
      rw [Std.ExtTreeMap.mem_insert]
      split at hname
      · exact .inr (store.declared name hname)
      · exact (Std.ExtTreeMap.mem_insert.mp hname).imp id (store.declared name) }

/-- A store in which variables are declared one after the other. -/
def declare (definitions : List (ConVarDefinition η)) : ConVarStore η :=
  definitions.foldl registerDef new

/-- `get_def`. -/
def getDef (store : ConVarStore η) (name : String) : Option (ConVarDefinition η) :=
  store.definitions[name]?

/-- `get`. -/
def get (store : ConVarStore η) (name : String) : Option TypedValue :=
  store.values[name]?

/-- The flags that an effect records for a variable. -/
def flagsOf (store : ConVarStore η) (name : String) : ConVarFlags :=
  ((store.getDef name).map ConVarDefinition.flags).getD .none

/-- `begin_transaction`. -/
def beginTransaction (store : ConVarStore η) : ConVarStore η :=
  { store with deferHooks := true, pendingHooks := [] }

/-- `transaction_active`. -/
def transactionActive (store : ConVarStore η) : Bool :=
  store.deferHooks

/-- `commit_transaction`, with the hooks that it runs. -/
def commitTransaction (store : ConVarStore η) : ConVarStore η × List (HookRun η) :=
  ({ store with deferHooks := false, pendingHooks := [] }, store.pendingHooks)

/-- The checks with which `set` and `set_from_str` start. -/
def writable (store : ConVarStore η) (name : String) :
    Except ConVarError { d : ConVarDefinition η // store.definitions[name]? = some d } :=
  match store.definitions[name]? with
  | none => .error (.notFound name)
  | some d =>
    if d.flags.contains .readonly then .error (.readOnly name)
    else if d.flags.contains .cheat && !store.cheatsEnabled then .error (.cheatProtected name)
    else .ok ⟨d, rfl⟩

/-- The run of a changed variable's hook. -/
def hookRuns (store : ConVarStore η) (d : ConVarDefinition η) (name : String)
    (value : TypedValue) : List (HookRun η) :=
  match d.changeHook with
  | some hook => [(hook, (store.get name).getD .null, value)]
  | none => []

/-- The state changes at the end of `set`. -/
def write (store : ConVarStore η) (name : String) (value : TypedValue)
    (d : { d : ConVarDefinition η // store.definitions[name]? = some d }) : ConVarStore η :=
  { store with
    pendingHooks :=
      if store.deferHooks then store.pendingHooks ++ store.hookRuns d.val name value
      else store.pendingHooks
    dirtySession :=
      if d.val.flags.contains .session then store.dirtySession.insert name
      else store.dirtySession
    cheatsEnabled := if name = "sv_cheats" then cheatsOf value else store.cheatsEnabled
    values := store.values.insert name value
    declared := by
      intro key hkey
      rcases Std.ExtTreeMap.mem_insert.mp hkey with heq | hkey
      · have hsame : name = key := by simpa using heq
        subst hsame
        exact Std.ExtTreeMap.mem_iff_isSome_getElem?.mpr (by rw [d.property]; rfl)
      · exact store.declared key hkey }

/-- `set`: the stored value, the store and the hooks that ran at once. -/
def set (store : ConVarStore η) (name : String) (value : TypedValue) :
    Except ConVarError (TypedValue × ConVarStore η × List (HookRun η)) := do
  let d ← store.writable name
  if !compatible d.val.defaultValue value then
    .error (.invalidValue name "value does not match the declared type")
  else match d.val.validate value with
    | .error reason => .error (.invalidValue name reason)
    | .ok () =>
      .ok (value, store.write name value d,
        if store.deferHooks then [] else store.hookRuns d.val name value)

variable [SerdeJson]

/-- The match of `set_from_str` on the default of a variable without a parser. -/
def parseAs : TypedValue → Parser
  | .bool _, raw => parseBool raw
  | .integer _, raw => parseInteger raw
  | .number _, raw => parseFloat raw
  | .string _, raw =>
    match TriState.fromStr raw with
    | .ok ts =>
      if (Text.trim raw).toLower = "unknown" then .ok ts.toTypedValue else .ok (.string raw)
    | .error _ => .ok (.string raw)
  | .null, raw => .ok (.string raw)
  | .json _, raw => (SerdeJson.fromSlice raw.toByteArray.toList).map .json

/-- `set_from_str`. -/
def setFromStr (store : ConVarStore η) (name raw : String) :
    Except ConVarError (TypedValue × ConVarStore η × List (HookRun η)) := do
  let d ← store.writable name
  match (d.val.parser.getD (parseAs d.val.defaultValue)) raw with
  | .error reason => .error (.invalidValue name reason)
  | .ok value => store.set name value

end ConVarStore

/-! ## The values in the document -/

/-- `session_globals`: the attributes of the `convars` container, which every session has. -/
def sessionGlobals (s : SessionSnapshot) : Attributes :=
  ((s.element (staticId "convars")).map ElementSnapshot.attributes).getD ∅

/-- What `hydrate_from_dom` stores for one definition. -/
def hydratedEntry {η : Type} (globals : Attributes) (name : String) (d : ConVarDefinition η) :
    Option (String × TypedValue) :=
  if d.flags.contains .session then some (name, globals[name]?.getD d.defaultValue) else none

/-- `ConVarStore::hydrate_from_dom`. -/
def ConVarStore.hydrateFromDom {η : Type} (store : ConVarStore η) (s : SessionSnapshot) :
    ConVarStore η :=
  let values := Collect.collect store.definitions (hydratedEntry (sessionGlobals s)) store.values
  { store with
    values
    cheatsEnabled := (values["sv_cheats"]?.map cheatsOf).getD false
    pendingHooks := []
    deferHooks := false
    dirtySession := ∅
    declared := by
      intro name hname
      by_contra habsent
      have hkept : values[name]? = store.values[name]? := by
        refine Collect.getElem?_collect_of_none store.values fun key d hkey value hentry => ?_
        unfold hydratedEntry at hentry
        split at hentry
        · cases hentry
          exact habsent (Std.ExtTreeMap.mem_iff_isSome_getElem?.mpr (by rw [hkey]; rfl))
        · cases hentry
      rw [Std.ExtTreeMap.mem_iff_isSome_getElem?, hkept,
        ← Std.ExtTreeMap.mem_iff_isSome_getElem?] at hname
      exact habsent (store.declared name hname) }

/-! ## The built-in variables -/

section Builtin

variable [SerdeJson] {η : Type}

/-- `ConVar::to_definition` of a variable without a change hook. -/
def convar (name : String) (defaultValue : TypedValue) (help : String) (flags : ConVarFlags)
    (parser : Parser) (validator : Option (TypedValue → Except String Unit)) :
    ConVarDefinition η :=
  { name, help, flags, defaultValue, validator, changeHook := none, parser := some parser }

/-- A validator that accepts what a test accepts. -/
def accepting (test : TypedValue → Bool) (message : String) :
    Option (TypedValue → Except String Unit) :=
  some fun value => if test value then .ok () else .error message

/-- The test of a number between zero and a bound. -/
def numberUpTo (bound : F64) : TypedValue → Bool
  | .number x => F64.numLe ⟨0⟩ x && x.numLe bound
  | _ => false

/-- The test of a positive integer. -/
def positiveInteger : TypedValue → Bool
  | .integer i => decide (0 < i)
  | _ => false

/-- The test of one of several words. -/
def oneOf (words : List String) : TypedValue → Bool
  | .string s => decide (s ∈ words)
  | _ => false

/-- `session_replicated`. -/
def sessionReplicated : ConVarFlags := .union .session .replicated

/-- `client_archived`. -/
def clientArchived : ConVarFlags := .union (.union .session .userinfo) .archive

/-- The definitions of `register_builtin_convars`. -/
def builtinConvars : List (ConVarDefinition η) :=
  [convar "ai_model" (.string "") "Active inference model identifier" sessionReplicated
      parseString none,
    convar "ai_provider" (.string "") "Active inference provider adapter" sessionReplicated
      parseString none,
    convar "ai_endpoint" (.string "") "Custom API endpoint for active inference provider"
      sessionReplicated parseString none,
    convar "ai_api_key_env" (.string "")
      "Host environment variable name referencing provider API key" sessionReplicated
      parseString none,
    convar "ai_thinking" (.string "auto")
      ("Reasoning effort: 'auto' (provider default), 'off', or a level the model advertises " ++
        "(/effort)") sessionReplicated parseString none,
    convar "ai_thinking_levels" .null
      "Supported thinking/reasoning effort levels advertised by provider metadata"
      (.union sessionReplicated .readonly) parseJson
      (accepting (fun | .null | .json _ => true | _ => false)
        "ai_thinking_levels must be JSON or null"),
    convar "ai_fastmode" (.bool false) "Fast mode inference toggle" sessionReplicated
      parseBool none,
    convar "ai_temperature" (.number ⟨0x3fe6666666666666⟩) "Sampling temperature"
      sessionReplicated parseFloat
      (accepting (numberUpTo ⟨0x4000000000000000⟩) "ai_temperature must be between 0.0 and 2.0"),
    convar "ai_max_tokens" .null "Maximum completion tokens per turn (positive integer or null)"
      sessionReplicated parseOptionalInteger
      (accepting (fun | .null => true | value => positiveInteger value)
        "ai_max_tokens must be positive or null"),
    convar "ai_context_length" .null
      "Nominal context window token length advertised by provider metadata"
      (.union sessionReplicated .readonly) parseOptionalInteger
      (accepting (fun | .null => true | value => positiveInteger value)
        "ai_context_length must be positive or null"),
    convar "ai_compaction_threshold" (.number ⟨0x3fe999999999999a⟩)
      "Fraction of the advertised context window at which older turns are elided"
      sessionReplicated parseFloat
      (accepting (numberUpTo ⟨0x3ff0000000000000⟩)
        "ai_compaction_threshold must be between 0.0 and 1.0"),
    convar "cl_showthinking" (.bool true)
      "Show thinking/reasoning blocks in the client interface" clientArchived parseBool none,
    convar "cl_theme" (.string "default") "Active client color theme" clientArchived
      parseString none,
    convar "cl_icon_mode" (.string "unicode") "Icon presentation mode (unicode/nerd/ascii)"
      clientArchived parseString
      (accepting (oneOf ["unicode", "nerd", "ascii"])
        "cl_icon_mode must be 'unicode', 'nerd', or 'ascii'"),
    convar "cl_resize_policy" (.string "rebuild")
      "Terminal resize policy (rebuild/preserve/append)" clientArchived parseString
      (accepting (oneOf ["rebuild", "preserve", "append"])
        "cl_resize_policy must be 'rebuild', 'preserve', or 'append'"),
    convar "sandbox_network" (.bool false) "Permit network access in sandbox jobs"
      sessionReplicated parseBool none,
    convar "sandbox_write_scope" (.string "workspace")
      "Filesystem write boundary for sandbox jobs (workspace/none)" sessionReplicated parseString
      (accepting (oneOf ["workspace", "none"]) "sandbox_write_scope must be workspace or none"),
    convar "job_max_concurrency" (.integer 4) "Maximum concurrent background jobs"
      sessionReplicated parseInteger
      (accepting positiveInteger "job_max_concurrency must be positive"),
    convar "tool_max_output_bytes" (.integer 1048576)
      "Maximum allowed output bytes for a tool before truncation" sessionReplicated parseInteger
      (accepting positiveInteger "tool_max_output_bytes must be positive"),
    convar "ai_provider_name" (.string "")
      "Name of the active provider in the session's provider registry" sessionReplicated
      parseString none,
    convar "ai_request_timeout_secs" (.integer 300)
      ("Idle budget in seconds for a provider request before the stream is treated as " ++
        "stalled") sessionReplicated parseInteger
      (accepting (fun | .integer i => decide (10 ≤ i ∧ i ≤ 1800) | _ => false)
        "ai_request_timeout_secs must be between 10 and 1800"),
    convar "tool_max_runtime_ms" (.integer 300000)
      "Maximum runtime in milliseconds for a tool before timeout" sessionReplicated parseInteger
      (accepting positiveInteger "tool_max_runtime_ms must be positive"),
    convar "sv_cheats" (.bool false) "Enable privileged/cheat commands and convars"
      (.union .session .notify) parseBool none]

theorem validate_builtinConvars :
    ∀ d : ConVarDefinition η, d ∈ builtinConvars → d.validate d.defaultValue = .ok () := by
  simp only [builtinConvars, List.forall_mem_cons, List.not_mem_nil, false_implies, implies_true,
    and_true]
  repeat' apply And.intro
  all_goals rfl

theorem session_builtinConvars :
    ∀ d : ConVarDefinition η, d ∈ builtinConvars → d.flags.contains .session = true := by
  simp only [builtinConvars, convar, List.forall_mem_cons, List.not_mem_nil, false_implies,
    implies_true, and_true]
  decide

theorem name_builtinConvars :
    ∀ d : ConVarDefinition η, d ∈ builtinConvars → ':' ∉ d.name.toList := by
  simp only [builtinConvars, convar, List.forall_mem_cons, List.not_mem_nil, false_implies,
    implies_true, and_true]
  repeat' apply And.intro
  all_goals decide

end Builtin

end Omp2.Control
