import Omp2.Inference.JsonRepair
import Omp2.Library.Binary64

/-!
# Repair of tool arguments

`repair_arguments` of `omp-inference/src/repair.rs`: the arguments of a tool call are brought to
the types that the tool's schema declares for its properties. Each type has its own arm in
`repair_single_value`, a function of its own here, that keeps the value, replaces it and records
why, or refuses the call.
-/

namespace Omp2.Inference

open Json Text

/-- `RepairDiagnostic`. -/
structure RepairDiagnostic where
  parameter : String
  originalValue : String
  repairedValue : String
  reason : String
deriving DecidableEq, Repr

/-- `RepairOutcome`. -/
structure RepairOutcome where
  arguments : Value
  diagnostics : List RepairDiagnostic
  modified : Bool

/-- The types that `repair_single_value` tells apart. -/
inductive JsonType where
  | array
  | object
  | integer
  | number
  | boolean
  | string
deriving DecidableEq, Repr

/-- The type of a name; every other name stands for any type. -/
def JsonType.ofName (name : String) : Option JsonType :=
  if name = "array" then some .array
  else if name = "object" then some .object
  else if name = "integer" then some .integer
  else if name = "number" then some .number
  else if name = "boolean" then some .boolean
  else if name = "string" then some .string
  else none

/-- The type that a property's schema declares. -/
def declaredType (schema : Value) : Option JsonType :=
  JsonType.ofName (((schema.get "type").bind Value.asStr).getD "")

/-- What the repair of a value returns: the value in its place and the diagnostic, if any. -/
abbrev Repair := Except StructuredError (Option (Value × RepairDiagnostic))

/-- The value stays. -/
def Repair.keep : Repair := .ok none

/-- The value is replaced and the change recorded. -/
def Repair.change (parameter original repaired reason : String) (value : Value) : Repair :=
  .ok (some (value, ⟨parameter, original, repaired, reason⟩))

/-- The error of a repair. -/
def repairFailed (message : String) : StructuredError :=
  .new "tool_argument_repair_failed" message true

/-- Take a start off a text as often as it is there; `n` bounds how often. -/
def stripStarts (start : List Char) : Nat → List Char → List Char
  | 0, cs => cs
  | n + 1, cs =>
    match stripStart start cs with
    | some rest => stripStarts start n rest
    | none => cs

/-- `str::trim_start_matches`. -/
def trimStartMatches (start cs : List Char) : List Char :=
  stripStarts start cs.length cs

/-- The items of a text that lists them by lines or by commas. -/
def delimitedItems (trimmed : List Char) : List (List Char) :=
  if '\n' ∈ trimmed then
    ((linesFrom [] trimmed).map fun line =>
      trimStartMatches "* ".toList (trimStartMatches "- ".toList (trimChars line))).filter
        fun line => !line.isEmpty
  else if ',' ∈ trimmed then
    ((trimmed.splitOn ',').map trimChars).filter fun item => !item.isEmpty
  else [trimmed]

/-- The number is not `0`, where it is a signed 64-bit integer. -/
def nonzeroInt64 : Number → Bool
  | .posInt n => decide (n.toNat < 2 ^ 63) && n != 0
  | .negInt _ => true
  | .float _ => false

/-- `serde_json::json!` of a floating-point number. -/
def jsonOfF64 (x : F64) : Value :=
  if h : x.isFinite = true then .number (.float ⟨x, h⟩) else .null

variable [SerdeJson]

/-- The arm for arrays. -/
def repairArray (parameter : String) (value : Value) : Repair :=
  match value with
  | .array _ => .keep
  | .string s =>
    let trimmed := trimChars s.toList
    let delimited : Repair :=
      let items := (delimitedItems trimmed).map fun item => Value.string (.ofList item)
      .change parameter s (Value.array items).display "parsed delimited string into array"
        (.array items)
    if trimmed.head? = some '[' ∧ trimmed.getLast? = some ']' then
      match fromStr trimmed with
      | .ok (.array parsed) =>
        .change parameter s (Value.array parsed).display
          "parsed stringified JSON array into native array" (.array parsed)
      | _ => delimited
    else delimited
  | .null => .keep
  | value =>
    .change parameter value.display (Value.array [value]).display
      "wrapped single scalar in array" (.array [value])

/-- The arm for objects. -/
def repairObject (parameter : String) (value : Value) : Repair :=
  match value with
  | .object _ => .keep
  | .string s =>
    let trimmed := trimChars s.toList
    let unparseable : Repair := .error (repairFailed
      s!"Parameter '{parameter}' expects an object, got unparseable string: '{s}'")
    if trimmed.head? = some '\x7b' ∧ trimmed.getLast? = some '\x7d' then
      match fromStr trimmed with
      | .ok parsed =>
        .change parameter s parsed.display "parsed stringified JSON object into native object"
          parsed
      | .error _ => unparseable
    else unparseable
  | value =>
    let text := value.display
    .error (repairFailed s!"Parameter '{parameter}' expects an object, got: {text}")

/-- The arm for integers. -/
def repairInteger (parameter : String) (value : Value) : Repair :=
  match value with
  | .number (.float x) =>
    if x.isInteger then
      .change parameter value.display (toString x.toInt64.toInt)
        "converted float with zero fraction to integer" (.number (.ofInt64 x.toInt64))
    else
      let text := x.value.display
      .error (repairFailed (s!"Parameter '{parameter}' expects an integer, " ++
        s!"got ambiguous non-integer float: {text}"))
  | .number _ => .keep
  | .string s =>
    match parseInt64 (trimChars s.toList) with
    | .ok n =>
      .change parameter s (toString n.toInt) "parsed string to integer" (.number (.ofInt64 n))
    | .error _ =>
      .error (repairFailed s!"Parameter '{parameter}' expects an integer, got string: '{s}'")
  | value =>
    let text := value.display
    .error (repairFailed s!"Parameter '{parameter}' expects an integer, got: {text}")

/-- The arm for numbers. -/
def repairNumber (parameter : String) (value : Value) : Repair :=
  match value with
  | .number _ => .keep
  | .string s =>
    match parseF64 (trimChars s.toList) with
    | .ok x => .change parameter s x.display "parsed string to float" (jsonOfF64 x)
    | .error _ =>
      .error (repairFailed s!"Parameter '{parameter}' expects a number, got string: '{s}'")
  | value =>
    let text := value.display
    .error (repairFailed s!"Parameter '{parameter}' expects a number, got: {text}")

/-- The arm for texts. -/
def repairString (parameter : String) (value : Value) : Repair :=
  match value with
  | .number n =>
    let text := (Value.number n).display
    .change parameter text text "converted number to string" (.string text)
  | .bool b =>
    let text := if b then "true" else "false"
    .change parameter text text "converted boolean to string" (.string text)
  | .array [.string s] =>
    .change parameter (Value.array [.string s]).display s
      "unwrapped single string element from array" (.string s)
  | _ => .keep

variable [Text.Unicode]

/-- The arm for truth values. -/
def repairBoolean (parameter : String) (value : Value) : Repair :=
  match value with
  | .bool _ => .keep
  | .string s =>
    let lower := Text.Unicode.toLowercase (trim s)
    if lower ∈ ["true", "1", "yes"] then
      .change parameter s "true" "parsed string to boolean true" (.bool true)
    else if lower ∈ ["false", "0", "no"] then
      .change parameter s "false" "parsed string to boolean false" (.bool false)
    else
      .error (repairFailed s!"Parameter '{parameter}' expects a boolean, got string: '{s}'")
  | .number n =>
    .change parameter (Value.number n).display (if nonzeroInt64 n then "true" else "false")
      "converted numeric flag to boolean" (.bool (nonzeroInt64 n))
  | value =>
    let text := value.display
    .error (repairFailed s!"Parameter '{parameter}' expects a boolean, got: {text}")

/-- `repair_single_value`. -/
def repairSingleValue (parameter : String) (value schema : Value) : Repair :=
  match declaredType schema with
  | some .array => repairArray parameter value
  | some .object => repairObject parameter value
  | some .integer => repairInteger parameter value
  | some .number => repairNumber parameter value
  | some .boolean => repairBoolean parameter value
  | some .string => repairString parameter value
  | none => .keep

/-! ## The arguments of a call -/

omit [Text.Unicode] in
/-- The arguments as they are read, and the diagnostic of the reading: a string that is JSON
stands for its tree. -/
def readArguments (raw : Value) : Value × List RepairDiagnostic :=
  match raw with
  | .string s =>
    match fromStr (trimChars s.toList) with
    | .ok parsed =>
      (parsed, [⟨"root", s, parsed.display,
        "parsed stringified JSON arguments into structured object"⟩])
    | .error _ => (raw, [])
  | raw => (raw, [])

omit [SerdeJson] [Text.Unicode] in
/-- The names of the required parameters. -/
def requiredNames (schema : Value) : List String :=
  (((schema.get "required").bind Value.asArray).getD []).filterMap Value.asStr

omit [SerdeJson] [Text.Unicode] in
/-- The first required parameter that the arguments do not have; only an object is asked. -/
def missingParameter (schema arguments : Value) : Option String :=
  match arguments with
  | .object entries => (requiredNames schema).find? fun name => (lookup name entries).isNone
  | _ => none

omit [SerdeJson] [Text.Unicode] in
/-- Put a value in the place of the first one under a key. -/
def setEntry (key : String) (value : Value) : List (String × Value) → List (String × Value)
  | [] => []
  | (name, old) :: rest =>
    if name = key then (name, value) :: rest else (name, old) :: setEntry key value rest

/-- The loop of `repair_arguments` over the properties of the schema. -/
def repairProperties : List (String × Value) → List (String × Value) → List RepairDiagnostic →
    Except StructuredError (List (String × Value) × List RepairDiagnostic)
  | [], entries, diagnostics => .ok (entries, diagnostics)
  | (name, schema) :: rest, entries, diagnostics =>
    match lookup name entries with
    | none => repairProperties rest entries diagnostics
    | some value =>
      match repairSingleValue name value schema with
      | .error e => .error e
      | .ok none => repairProperties rest entries diagnostics
      | .ok (some (repaired, diagnostic)) =>
        repairProperties rest (setEntry name repaired entries) (diagnostics ++ [diagnostic])

/-- The properties of a schema. -/
def schemaProperties (schema : Value) : Option (List (String × Value)) :=
  match schema.get "properties" with
  | some (.object properties) => some properties
  | _ => none

/-- `repair_arguments`. -/
def repairArguments (toolName : String) (raw schema : Value) :
    Except StructuredError RepairOutcome :=
  let (current, diagnostics) := readArguments raw
  match missingParameter schema current with
  | some name =>
    .error (repairFailed s!"Missing required parameter '{name}' for tool '{toolName}'")
  | none =>
    match schemaProperties schema, current with
    | some properties, .object entries => do
      let (entries, diagnostics) ← repairProperties properties entries diagnostics
      return ⟨.object entries, diagnostics, !diagnostics.isEmpty⟩
    | some _, current =>
      let text := current.display
      .error (repairFailed
        s!"Tool '{toolName}' expects an object map of arguments, got: {text}")
    | none, current => .ok ⟨current, diagnostics, !diagnostics.isEmpty⟩

end Omp2.Inference
