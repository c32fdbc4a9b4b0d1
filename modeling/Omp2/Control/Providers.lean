import Omp2.Control.Turn
import Omp2.Types.Provider

/-!
# The provider registry

`record_provider`, `forget_provider`, `record_active_provider`, `commit_provider` and the commands
`add`, `use` and `remove` of `omp-control/src/provider_config.rs`. A record is an element of the
`providers` container whose identifier is made from its name. What the configuration and the network
say about the client of a record is an argument, as are minted identifiers and the appends.
-/

namespace Omp2.Control

open Omp2.Json Omp2.State SessionSnapshot ProviderRecord

/-! ## The registry of a document -/

/-- The elements of the registry. -/
def providerElements (s : SessionSnapshot) : List ElementSnapshot :=
  s.children (staticId "providers")

/-- `providers`. -/
def providers (s : SessionSnapshot) : List ProviderRecord :=
  (providerElements s).filterMap fromElement

/-- The models cached in an element. -/
def cachedModels (e : ElementSnapshot) : Option Value :=
  match e.attributes[providerModelsAttribute]? with
  | some (.json models) => some models
  | _ => none

/-- The element of a record with a name. -/
def findProvider (s : SessionSnapshot) (name : String) : Option ElementSnapshot :=
  (providerElements s).find? fun e => (fromElement e).any fun r => r.name = name

/-- The identifier of the element of a record. -/
def providerId (name : String) : Except StructuredError ElementId :=
  Id.new ("provider-" ++ name)

/-- The error of a name that makes no identifier. -/
def invalidProviderName (message : String) : StructuredError :=
  .new "invalid_provider_name" message false

/-- The elements that a record replaces: those of other names at the same endpoint. -/
def replacedElements (s : SessionSnapshot) (record : ProviderRecord) : List ElementSnapshot :=
  (providerElements s).filter fun e => (fromElement e).any fun existing =>
    existing.name ≠ record.name && existing.matchesEndpoint record.adapter record.endpoint

/-- The operation that caches models. -/
def cacheOp (id : ElementId) (models : Value) : PatchOp :=
  .setAttribute id providerModelsAttribute (.json models)

/-- The operations of `record_provider`. -/
def recordOps (s : SessionSnapshot) (record : ProviderRecord) (models : Option Value) :
    Except StructuredError (List PatchOp) :=
  let replaced := (replacedElements s record).map fun e => .delete e.id
  match findProvider s record.name with
  | some existing =>
    .ok ((record.fields.map fun field => .setAttribute existing.id field.1 (.string field.2)) ++
      replaced ++ models.toList.map (cacheOp existing.id))
  | none =>
    match providerId record.name with
    | .error _ => .error (invalidProviderName
        "Provider names use letters, digits, dots, underscores or hyphens")
    | .ok id =>
      .ok ([.create (staticId "providers") (UInt32.ofNat (providerElements s).length)
        (record.toElement id)] ++ replaced ++ models.toList.map (cacheOp id))

/-! ## The commands -/

/-- The adapter, model and endpoint of a record, and what the catalog says about its models. -/
structure Selection where
  provider : String
  model : String
  endpoint : Option String
  models : Value
  count : Nat
  contextLength : TypedValue
  maxTokens : TypedValue
  thinking : String
  thinkingLevels : TypedValue
  metadata : Value
  report : String

/-- What is decided about a report: the identifier of its element and the append. -/
structure ReportWorld where
  diag : ElementId
  outside : Journal.Outside

/-- What is decided about the use of a record. -/
structure UseWorld where
  selected : Except StructuredError Selection
  committed : ReportWorld
  declared : String
  active : Journal.Outside
  recorded : Journal.Outside
  reported : ReportWorld

/-- The element of a report. -/
def diagnosticElement (id : ElementId) (text : String) : ElementSnapshot :=
  { ElementSnapshot.new id "diagnostic" with text }

/-- The operation that puts a report at the end of the body. -/
def reportOp (s : SessionSnapshot) (id : ElementId) (text : String) : PatchOp :=
  .create (staticId "body") (UInt32.ofNat s.getVisibleBody.length) (diagnosticElement id text)

/-- The operations of `commit_provider`. -/
def commitOps (s : SessionSnapshot) (selection : Selection) (keyEnv : String) (diag : ElementId) :
    List PatchOp :=
  let settings : List (String × TypedValue) :=
    [("ai_provider", .string selection.provider), ("ai_model", .string selection.model),
      ("ai_endpoint", .string (selection.endpoint.getD "")), ("ai_api_key_env", .string keyEnv),
      ("ai_context_length", selection.contextLength), ("ai_max_tokens", selection.maxTokens),
      ("ai_thinking", .string selection.thinking), ("ai_thinking_levels", selection.thinkingLevels)]
  (settings.map fun setting => .setAttribute (staticId "convars") setting.1 setting.2) ++
    [.setAttribute (staticId "capabilities") "provider_metadata" (.json selection.metadata),
      .setAttribute (staticId "capabilities") "provider_refresh_error" .null,
      reportOp s diag selection.report]

/-- The patch of some operations. -/
def providerPatch (j : Journal) (owner : ActorId) (reason : String) (ops : List PatchOp) :
    Patch where
  baseOffset := j.snapshot.offset
  resultOffset := j.nextOffset
  author := .actor owner
  reason
  ops

section Commands

variable [SerdeJson]

/-- Append some operations. -/
def submit (j : Journal) (owner : ActorId) (reason : String) (ops : List PatchOp)
    (outside : Journal.Outside) : Journal × Except StructuredError Unit :=
  match j.appendPatch (providerPatch j owner reason ops) outside with
  | (j, .error e) => (j, .error e.structured)
  | (j, .ok _) => (j, .ok ())

/-- `emit_provider_diagnostic`. -/
def emitProviderDiagnostic (j : Journal) (owner : ActorId) (text : String) (w : ReportWorld) :
    Journal × Except StructuredError Unit :=
  submit j owner "provider diagnostic" [reportOp j.snapshot w.diag text] w.outside

/-- `record_provider`. -/
def recordProvider (j : Journal) (owner : ActorId) (record : ProviderRecord)
    (models : Option Value) (outside : Journal.Outside) : Journal × Except StructuredError Unit :=
  match recordOps j.snapshot record models with
  | .error e => (j, .error e)
  | .ok ops => submit j owner ("register provider " ++ record.name) ops outside

/-- `forget_provider`. -/
def forgetProvider (j : Journal) (owner : ActorId) (name : String) (outside : Journal.Outside) :
    Journal × Except StructuredError Bool :=
  match findProvider j.snapshot name with
  | none => (j, .ok false)
  | some existing =>
    match submit j owner ("forget provider " ++ name) [.delete existing.id] outside with
    | (j, .error e) => (j, .error e)
    | (j, .ok ()) => (j, .ok true)

/-- `record_active_provider`, with the catalog that was fetched. -/
def recordActiveProvider (j : Journal) (owner : ActorId) (selection : Selection) (keyEnv : String)
    (declared : String) (outside : Journal.Outside) : Journal × Except StructuredError Unit :=
  match selection.endpoint with
  | none => (j, .ok ())
  | some endpoint =>
    match (providers j.snapshot).find? fun r => r.matchesEndpoint selection.provider endpoint with
    | some record => recordProvider j owner record (some selection.models) outside
    | none =>
      let name := if (Text.trim declared).isEmpty then endpointHost endpoint else Text.trim declared
      if name.isEmpty then (j, .ok ())
      else recordProvider j owner
        { name, adapter := selection.provider, endpoint, keyEnv, model := selection.model }
        (some selection.models) outside

/-- `commit_provider` of a selection. That the active provider could not be recorded is no failure. -/
def commitProvider (j : Journal) (owner : ActorId) (selection : Selection) (keyEnv : String)
    (w : UseWorld) : Journal × Except StructuredError Unit :=
  match submit j owner "refresh provider catalog and effective settings"
      (commitOps j.snapshot selection keyEnv w.committed.diag) w.committed.outside with
  | (j, .error e) => (j, .error e)
  | (j, .ok ()) => ((recordActiveProvider j owner selection keyEnv w.declared w.active).1, .ok ())

/-- The report of an added record. -/
def addedReport (record : ProviderRecord) : String :=
  "Registered provider '" ++ record.name ++ "' (" ++ record.endpoint ++
    "). Its catalog is fetched at startup; /provider refresh fetches now. " ++
    "Switch with /provider use " ++ record.name ++ "."

/-- The command `add`. -/
def addProvider (j : Journal) (owner : ActorId) (record : ProviderRecord)
    (outside : Journal.Outside) (w : ReportWorld) : Journal × Except StructuredError Unit :=
  match providerId record.name with
  | .error _ => (j, .error (invalidProviderName
      "Provider names use 1..128 letters, digits, dots, underscores or hyphens"))
  | .ok _ =>
    match recordProvider j owner record none outside with
    | (j, .error e) => (j, .error e)
    | (j, .ok ()) => emitProviderDiagnostic j owner (addedReport record) w

/-- The command `use`. -/
def useProvider (j : Journal) (owner : ActorId) (name : String) (w : UseWorld) :
    Journal × Except StructuredError Unit :=
  match (providers j.snapshot).find? fun r => r.name = name with
  | none =>
    let known := (providers j.snapshot).map ProviderRecord.name
    (j, .error (.new "provider_not_registered" ("No provider named '" ++ name ++
      "'; configured: " ++ if known.isEmpty then "(none)" else ", ".intercalate known) false))
  | some record =>
    match w.selected with
    | .error e => (j, .error e)
    | .ok selection =>
      match commitProvider j owner selection record.keyEnv w with
      | (j, .error e) => (j, .error e)
      | (j, .ok ()) =>
        match recordProvider j owner record (some selection.models) w.recorded with
        | (j, .error e) => (j, .error e)
        | (j, .ok ()) => emitProviderDiagnostic j owner ("Active provider is now '" ++ name ++
            "' (" ++ record.endpoint ++ "); " ++ toString selection.count ++
            " models advertised.") w.reported

/-- The report of a removed name. -/
def removedReport (name active : String) (existed : Bool) : String :=
  if existed then
    "Forgot provider '" ++ name ++ "'. The active settings still point at " ++ active ++
      " until /provider use <name> picks another."
  else "No provider named '" ++ name ++ "' was recorded."

/-- The command `remove`, with the active endpoint of the settings. -/
def removeProvider (j : Journal) (owner : ActorId) (name active : String)
    (outside : Journal.Outside) (w : ReportWorld) : Journal × Except StructuredError Unit :=
  match forgetProvider j owner name outside with
  | (j, .error e) => (j, .error e)
  | (j, .ok existed) => emitProviderDiagnostic j owner (removedReport name active existed) w

end Commands

/-! ## Sessions -/

/-- The record of a command `add`: the words of a command line are not empty. -/
structure DeclaredRecord extends ProviderRecord where
  name_ne : name ≠ ""
  endpoint_ne : endpoint ≠ ""

/-- What happens to a session: the registry commands, forks, and the selection of branches. -/
inductive ProviderEvent where
  | add (record : DeclaredRecord) (outside : Journal.Outside) (w : ReportWorld)
  | use (name : String) (w : UseWorld)
  | remove (name active : String) (outside : Journal.Outside) (w : ReportWorld)
  | fork (offset : UInt64) (branch : BranchId) (element : ElementId) (outside : Journal.Outside)
  | select (branch : BranchId) (outside : Journal.Outside)

variable [SerdeJson]

/-- The journal after an event, and whether the event has succeeded. -/
def ProviderEvent.apply (owner : ActorId) (j : Journal) :
    ProviderEvent → Journal × Except StructuredError Unit
  | .add record outside w => addProvider j owner record.toProviderRecord outside w
  | .use name w => useProvider j owner name w
  | .remove name active outside w => removeProvider j owner name active outside w
  | .fork offset branch element outside =>
    match j.forkAt offset branch element outside with
    | (j, .error e) => (j, .error e.structured)
    | (j, .ok _) => (j, .ok ())
  | .select branch outside =>
    match j.selectBranch branch outside with
    | (j, .error e) => (j, .error e.structured)
    | (j, .ok _) => (j, .ok ())

end Omp2.Control
