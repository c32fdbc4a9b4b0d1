import Omp2.State.Journal

/-!
# Checks of remote functions

`RemoteValidator` from `omp-python/src/remote.rs`: what the host checks about the source of a
function that is to run remotely. The imports are read off the source line by line.
-/

namespace Omp2.Remote

open Omp2.Text

/-- `DEFAULT_MAX_PAYLOAD_BYTES`. -/
def defaultMaxPayloadBytes : UInt64 := 1048576

/-- `MAX_REMOTE_TIMEOUT_MS`. -/
def maxRemoteTimeoutMs : UInt64 := 120000

/-- `RemoteFunctionSpec`. -/
structure RemoteFunctionSpec where
  name : String
  sourceCode : String
  sourceHash : String
  declaredCapabilities : List String
  imports : List String
  maxPayloadBytes : UInt64
  timeoutMs : UInt64

/-- The errors of `PythonExtensionError` that the checks report. -/
inductive PythonExtensionError where
  | validationFailed (message : String)
  | oversizedPayload (size limit : Nat)
  | undeclaredCapability (capability : String)
  | prohibitedImport (module : String)
  | dynamicCodeForbidden (message : String)
  | timeout (timeoutMs : UInt64) (context : String)
deriving DecidableEq

/-- `PROHIBITED_MODULES`. -/
def prohibitedModules : List String :=
  ["os", "subprocess", "sys", "socket", "ctypes", "pty", "posix", "nt", "shutil", "builtins",
    "importlib", "signal", "multiprocessing", "threading"]

/-- `FORBIDDEN_CONSTRUCTS`. -/
def forbiddenConstructs : List String :=
  ["eval(", "eval (", "exec(", "exec (", "__import__", "compile(", "compile (", "globals()",
    "globals ()", "locals()", "locals ()", "__subclasses__", "__globals__", "__getattribute__",
    "getattr(", "getattr (", "setattr(", "setattr (", "delattr(", "delattr (", "importlib.",
    "importlib(", "importlib ("]

/-- `sha256_hex`. -/
def sha256Hex (source : String) : String :=
  State.hex (Sha256.digest source.toUTF8.toList)

/-! ## Imports of a source -/

/-- `trim_matches` with the brackets and the semicolon. -/
def trimMatches (name : List Char) : List Char :=
  let strip := fun c : Char => c = '(' || c = ')' || c = ';'
  ((name.dropWhile strip).reverse.dropWhile strip).reverse

/-- A line without its comment and the white space around it. -/
def bareLine (line : List Char) : List Char :=
  trimChars (line.takeWhile (· ≠ '#'))

/-- The body of the loop of `extract_source_imports`. -/
def lineImports (line : List Char) : List (List Char) :=
  match stripStart "import ".toList (bareLine line) with
  | some rest => (rest.splitOn ',').filterMap fun part =>
      let name := trimMatches ((wordsFrom [] part).headD [])
      if name.isEmpty then none else some name
  | none =>
    match (stripStart "from ".toList (bareLine line)).bind (splitOnce " import ".toList) with
    | some (module, _) =>
      let module := trimChars module
      if module.isEmpty || module.head? = some '.' then [] else [module]
    | none => []

/-- `extract_source_imports`, in the order of the set. -/
def extractSourceImports (source : String) : List String :=
  (Std.ExtTreeSet.ofList ((linesFrom [] source.toList).flatMap fun line =>
    (lineImports line).map String.ofList)).toList

/-- The top-level module of an import. -/
def baseModule (name : String) : String :=
  String.ofList (name.toList.takeWhile (· ≠ '.'))

/-! ## Checks -/

/-- `contains`. -/
def containsText (source pattern : String) : Bool :=
  (splitOnce pattern.toList source.toList).isSome

/-- The names that `mentions_network_identifier` looks for. -/
def markers : List String :=
  ["http", "https", "socket", "urlopen", "urllib3", "httpx", "aiohttp"]

/-- `mentions_network_identifier`. -/
def mentionsNetworkIdentifier (source : String) : Bool :=
  (source.toList.splitOnP fun c => !(c.isAlphanum || c = '_')).any fun token =>
    String.ofList token ∈ markers

/-- An explicit capability overrides the prohibition of a module. -/
def overrides (spec : RemoteFunctionSpec) (base : String) : Bool :=
  spec.declaredCapabilities.any fun c => c = "import_" ++ base || c = "system_all"

/-- The loop over the imports. -/
def checkImports (spec : RemoteFunctionSpec) : List String → Except PythonExtensionError Unit
  | [] => .ok ()
  | name :: rest =>
    if baseModule name ∈ prohibitedModules ∧ ¬ overrides spec (baseModule name) then
      .error (.prohibitedImport name)
    else checkImports spec rest

/-- The loop over the forbidden constructs. -/
def checkConstructs (spec : RemoteFunctionSpec) : List String → Except PythonExtensionError Unit
  | [] => .ok ()
  | construct :: rest =>
    if containsText spec.sourceCode construct then
      .error (.dynamicCodeForbidden
        s!"forbidden construct '{construct}' detected in function '{spec.name}'")
    else checkConstructs spec rest

/-- The source needs files. -/
def needsFiles (source : String) : Bool :=
  containsText source "open("

/-- The source needs the network. -/
def needsNetwork (source : String) : Bool :=
  containsText source "urllib" || containsText source "requests" ||
    mentionsNetworkIdentifier source

/-- The checks of the capabilities that the source needs. -/
def checkCapabilities (spec : RemoteFunctionSpec) : Except PythonExtensionError Unit :=
  if needsFiles spec.sourceCode ∧
      ¬ ∃ c ∈ spec.declaredCapabilities, c ∈ ["fs_read", "fs_write", "fs_all"] then
    .error (.undeclaredCapability "fs_read/fs_write")
  else if needsNetwork spec.sourceCode ∧
      ¬ ∃ c ∈ spec.declaredCapabilities, c ∈ ["net", "net_all"] then
    .error (.undeclaredCapability "net")
  else .ok ()

/-- The checks of what the source says. -/
def checkSource (spec : RemoteFunctionSpec) : Except PythonExtensionError Unit :=
  match checkImports spec (extractSourceImports spec.sourceCode ++ spec.imports) with
  | .error e => .error e
  | .ok () =>
    match checkConstructs spec forbiddenConstructs with
    | .error e => .error e
    | .ok () => checkCapabilities spec

/-- `RemoteValidator::validate`. -/
def validate (spec : RemoteFunctionSpec) : Except PythonExtensionError Unit :=
  if (trim spec.sourceHash).isEmpty = false ∧ sha256Hex spec.sourceCode ≠ spec.sourceHash then
    .error (.validationFailed
      "remote function source_hash does not match sha256(source_code)")
  else if spec.maxPayloadBytes = 0 ∨ defaultMaxPayloadBytes < spec.maxPayloadBytes then
    .error (.oversizedPayload spec.maxPayloadBytes.toNat defaultMaxPayloadBytes.toNat)
  else if spec.timeoutMs = 0 ∨ maxRemoteTimeoutMs < spec.timeoutMs then
    .error (.timeout spec.timeoutMs
      s!"remote timeout must be within 1..={maxRemoteTimeoutMs} ms")
  else if (trim spec.sourceCode).isEmpty then
    .error (.validationFailed "remote function source code cannot be empty")
  else if spec.maxPayloadBytes.toNat < spec.sourceCode.utf8ByteSize then
    .error (.oversizedPayload spec.sourceCode.utf8ByteSize spec.maxPayloadBytes.toNat)
  else checkSource spec

end Omp2.Remote
