import Omp2.Render.Sinks
import Omp2.State.Rollback

/-!
# Components of a session

`omp-render/src/semantic.rs`: the components that stand for the elements of a document, with the
constructors of `component.rs` that make them. The tables of letter cases are not part of this
development. Sums of tokens wrap, as in a build for release.
-/

namespace Omp2.Render

open Omp2.Json Omp2.State

/-- The upper-case mapping of Unicode. -/
class Uppercase where
  toUppercase : String → String

/-! ## Constructors -/

/-- The debug text of a semantic color. -/
def SemanticColor.debug : SemanticColor → String
  | .info => "Info" | .muted => "Muted" | .warning => "Warning" | .error => "Error"
  | .success => "Success" | .primary => "Primary" | .accent => "Accent"

/-- `Style::semantic`. -/
def Style.semantic (color : SemanticColor) : Style :=
  { Style.new with fg := some (.semantic color) }

/-- A bold style with a semantic color. -/
def Style.strong (color : SemanticColor) : Style :=
  { Style.semantic color with modifier := { Style.new.modifier with bold := true } }

/-- `RichText::from_styled`. -/
def RichText.fromStyled (style : Style) (text : String) : RichText :=
  .push ⟨[]⟩ style text

/-- `ComponentProps::new`. -/
def ComponentProps.new : ComponentProps :=
  ⟨[]⟩

/-- `ComponentProps::set`. -/
def ComponentProps.set (props : ComponentProps) (key : String) (value : Value) : ComponentProps :=
  ⟨(key, value) :: props.values.filter fun entry => entry.1 ≠ key⟩

/-- A JSON number that is not negative. -/
def ofNat (n : UInt64) : Value :=
  .number (.posInt n)

/-- The debug text of a kind. -/
def ComponentKind.debug : ComponentKind → String
  | .box => "Box" | .row => "Row" | .col => "Col" | .text => "Text" | .pre => "Pre" | .hr => "Hr"
  | .badge => "Badge" | .callout => "Callout" | .link => "Link" | .icon => "Icon"
  | .image => "Image" | .usage => "Usage" | .semanticMessage => "SemanticMessage"
  | .semanticTool => "SemanticTool" | .semanticSubagent => "SemanticSubagent"
  | .semanticApproval => "SemanticApproval" | .semanticDirector => "SemanticDirector"
  | .semanticArtifact => "SemanticArtifact" | .semanticAutoQA => "SemanticAutoQA"

namespace Component

/-- The display text of a validation error. -/
def ValidationError.display : ValidationError → String
  | .leafCannotHaveChildren kind => s!"leaf element {kind.debug} cannot have children"
  | .invalidChild parent child reason =>
    s!"inline element {parent.debug} cannot contain block child {child.debug}: {reason}"
  | .missingRequiredProp element prop =>
    s!"element {element.debug} missing required property '{prop}'"

/-- `Component::new`. -/
def new (kind : ComponentKind) (props : ComponentProps) (children : List Component) :
    Except ValidationError Component :=
  match (node kind props children none).validate with
  | .ok () => .ok (.node kind props children none)
  | .error e => .error e

/-- `Component::text`. -/
def text (rich : RichText) : Component :=
  .node .text .new [] (some rich)

/-- `Component::plain_text`. -/
def plainText (text : String) : Component :=
  .text (.fromPlain text)

/-- `Component::pre`. -/
def pre (content : String) : Component :=
  .node .pre (ComponentProps.new.set "code" (.bool true)) [] (some (.fromPlain content))

/-- `Component::badge`. -/
def badge (variant : SemanticColor) (label : String) : Component :=
  .node .badge ((ComponentProps.new.set "label" (.string label)).set "variant"
    (.string variant.debug)) [] (some (.fromStyled (.strong variant) ("[" ++ label ++ "]")))

/-- `Component::callout`. -/
def callout (variant : SemanticColor) (title body : String) : Except ValidationError Component :=
  Component.new .callout ((ComponentProps.new.set "variant" (.string variant.debug)).set "title"
    (.string title)) [.text (.fromStyled (.semantic variant) body)]

/-- `Component::image`. -/
def image (src alt : String) (width height : UInt32) : Component :=
  .node .image ((((ComponentProps.new.set "src" (.string src)).set "alt" (.string alt)).set
    "width" (ofNat width.toUInt64)).set "height" (ofNat height.toUInt64)) [] none

/-- `Component::usage` without a cost. -/
def usage (promptTokens completionTokens : UInt64) : Component :=
  .node .usage ((ComponentProps.new.set "prompt_tokens" (ofNat promptTokens)).set
    "completion_tokens" (ofNat completionTokens)) []
    (some (.fromStyled (.semantic .muted)
      (s!"tokens: {promptTokens + completionTokens} (prompt: {promptTokens}, " ++
        s!"comp: {completionTokens})")))

/-- `Component::box_container` with a border and a title. -/
def titledBox (title : String) (children : List Component) : Except ValidationError Component :=
  Component.new .box ((ComponentProps.new.set "border" (.bool true)).set "title" (.string title))
    children

/-- `Component::row`. -/
def row (children : List Component) : Except ValidationError Component :=
  Component.new .row .new children

/-- `Component::col`. -/
def col (children : List Component) : Except ValidationError Component :=
  Component.new .col .new children

end Component

/-! ## Semantic components -/

open Component

/-- `status_color`. -/
def statusColor : Status → SemanticColor
  | .queued => .muted
  | .active | .running => .primary
  | .finalized | .committed | .succeeded => .success
  | .cancelRequested | .cancelled | .detached => .warning
  | .failed | .writeFailure => .error
  | .truncated => .warning
  | .unknown => .muted

/-- The debug text of a status. -/
def statusDebug : Status → String
  | .queued => "Queued" | .active => "Active" | .running => "Running"
  | .finalized => "Finalized" | .committed => "Committed"
  | .cancelRequested => "CancelRequested" | .cancelled => "Cancelled" | .failed => "Failed"
  | .succeeded => "Succeeded" | .detached => "Detached" | .truncated => "Truncated"
  | .unknown => "Unknown" | .writeFailure => "WriteFailure"

/-- The badge of a status. -/
def statusBadge (status : Status) : Component :=
  .badge (statusColor status) (statusDebug status)

/-- A row with a title and the badge of a status. -/
def titleRow (title : RichText) (status : Status) : Except ValidationError Component :=
  row [.text title, statusBadge status]

/-- The callouts of diagnostics. -/
def diagnosticCallouts (diagnostics : List String) : Except ValidationError (List Component) :=
  diagnostics.mapM (callout .warning "Diagnostic")

/-- The component of a value that may be absent. -/
def whenSome {α : Type} (f : α → Except ValidationError Component) :
    Option α → Except ValidationError (List Component)
  | some a => do pure [← f a]
  | none => pure []

/-- The usage of tokens that may be absent. -/
def usages (tokens : Option (UInt64 × UInt64)) : List Component :=
  (tokens.map fun (prompt, completion) => usage prompt completion).toList

/-- `ReadComponent`. -/
structure ReadComponent where
  path : String
  resolvedPath : Option String
  status : Status
  headPreview : Option String
  blob : Option String
  diagnostics : List String
  usage : Option (UInt64 × UInt64)

/-- The title of a read. -/
def ReadComponent.title (c : ReadComponent) : RichText :=
  let title := RichText.fromStyled (.strong .primary) ("Read: " ++ c.path)
  match c.resolvedPath with
  | some path => if path ≠ c.path then title.push (.semantic .muted) (" -> " ++ path) else title
  | none => title

/-- `to_component` of a read. -/
def ReadComponent.toComponent (c : ReadComponent) : Except ValidationError Component := do
  let header ← titleRow c.title c.status
  let callouts ← diagnosticCallouts c.diagnostics
  titledBox "Read Tool" (header :: (c.headPreview.map pre).toList ++ (c.blob.map pre).toList ++
    callouts ++ usages c.usage)

/-- `BashComponent`. -/
structure BashComponent where
  command : String
  cwd : Option String
  status : Status
  exitCode : Option Int32
  stdout : Option String
  stderr : Option String
  truncated : Bool

/-- The title of a command. -/
def BashComponent.title (c : BashComponent) : RichText :=
  let title := RichText.fromStyled (.strong .primary) ("$ " ++ c.command)
  match c.cwd with
  | some cwd => title.push (.semantic .muted) (" [in " ++ cwd ++ "]")
  | none => title

/-- `to_component` of a command. -/
def BashComponent.toComponent (c : BashComponent) : Except ValidationError Component := do
  let header ← titleRow c.title c.status
  let stderr ← whenSome (callout .error "stderr") (c.stderr.filter (!·.isEmpty))
  let notice ← whenSome (callout .warning "Truncation Notice") (if c.truncated then
    some "Output exceeded limit and was truncated. Full log preserved in artifact." else none)
  titledBox "Bash Execution" (header ::
    (c.exitCode.map fun code => plainText ("exit code: " ++ toString code.toInt)).toList ++
    ((c.stdout.filter (!·.isEmpty)).map pre).toList ++ stderr ++ notice)

/-- `EditComponent`. -/
structure EditComponent where
  path : String
  status : Status
  diffStats : Option (Nat × Nat)
  hunks : List String

/-- The title of an edit. -/
def EditComponent.title (c : EditComponent) : RichText :=
  let title := RichText.fromStyled (.strong .primary) ("Edit: " ++ c.path)
  match c.diffStats with
  | some (added, removed) =>
    (title.push (.semantic .success) s!" +{added}").push (.semantic .error) s!" -{removed}"
  | none => title

/-- `to_component` of an edit. -/
def EditComponent.toComponent (c : EditComponent) : Except ValidationError Component := do
  let header ← titleRow c.title c.status
  titledBox "File Edit" (header :: c.hunks.map pre)

/-- `MessageComponent`. -/
structure MessageComponent where
  role : String
  author : Option String
  content : String
  thinking : Option String
  tokens : Option (UInt64 × UInt64)
  status : Option Status
  diagnostics : List String

/-- The status is shown. -/
def showsStatus (status : Status) : Bool :=
  status matches .running | .failed | .cancelled

/-- The color of a role. -/
def roleColor (role : String) : SemanticColor :=
  if role = "user" then .primary
  else if role = "system" then .muted
  else if role = "tool" then .warning
  else .info

/-- The title of a message. -/
def MessageComponent.title [Uppercase] (c : MessageComponent) : RichText :=
  let title := RichText.fromStyled (.strong (roleColor c.role)) (Uppercase.toUppercase c.role)
  match c.author with
  | some author => title.push (.semantic .muted) (" (" ++ author ++ ")")
  | none => title

/-- What stands above a message. -/
def MessageComponent.header [Uppercase] (c : MessageComponent) :
    Except ValidationError (List Component) :=
  if c.role ≠ "assistant" then
    match c.status.filter showsStatus with
    | some status => do pure [← titleRow c.title status]
    | none => pure [.text c.title]
  else pure ((c.status.filter showsStatus).map statusBadge).toList

/-- `to_component` of a message. -/
def MessageComponent.toComponent [Uppercase] (c : MessageComponent) :
    Except ValidationError Component := do
  let header ← c.header
  let thinking ← whenSome (callout .muted "Thinking") c.thinking
  let content := if !c.content.isEmpty || c.thinking.isNone then [plainText c.content] else []
  let callouts ← diagnosticCallouts c.diagnostics
  col (header ++ thinking ++ content ++ callouts ++ usages c.tokens)

/-- `SubagentComponent`. -/
structure SubagentComponent where
  actorId : String
  status : Status
  taskPrompt : String
  diffSummary : Option String

/-- `to_component` of a subagent. -/
def SubagentComponent.toComponent (c : SubagentComponent) : Except ValidationError Component := do
  let header ← titleRow (.fromStyled (.strong .primary) ("Subagent: " ++ c.actorId)) c.status
  let task ← callout .info "Task" c.taskPrompt
  titledBox "Subagent Actor" (header :: task :: (c.diffSummary.map pre).toList)

/-- `ApprovalComponent`. -/
structure ApprovalComponent where
  action : String
  status : Status
  description : String
  options : List String

/-- `to_component` of an approval. -/
def ApprovalComponent.toComponent (c : ApprovalComponent) : Except ValidationError Component := do
  let header ← titleRow (.fromStyled (.strong .warning) ("Approval Required: " ++ c.action))
    c.status
  let options ← whenSome row
    (if c.options.isEmpty then none else some (c.options.map (badge .primary)))
  titledBox "Capability Approval" (header :: plainText c.description :: options)

/-- `DirectorComponent`. -/
structure DirectorComponent where
  name : String
  attempts : UInt32
  maxAttempts : UInt32
  status : Status
  prompt : Option String

/-- `to_component` of a director. -/
def DirectorComponent.toComponent (c : DirectorComponent) : Except ValidationError Component := do
  let header ← titleRow (.fromStyled (.strong .accent)
    s!"Director: {c.name} ({c.attempts}/{c.maxAttempts})") c.status
  col (header :: (c.prompt.map plainText).toList)

/-- `ArtifactComponent`. -/
structure ArtifactComponent where
  artifactId : String
  mediaType : String
  byteSize : UInt64
  originJob : Option String

/-- `to_component` of an artifact. -/
def ArtifactComponent.toComponent (c : ArtifactComponent) : Except ValidationError Component := do
  let header ← row [.text (.fromStyled (.strong .primary) ("Artifact: " ++ c.artifactId)),
    badge .muted s!"{c.byteSize} bytes"]
  col (header :: plainText ("Media: " ++ c.mediaType) ::
    (c.originJob.map fun job => plainText ("Origin: " ++ job)).toList)

/-- `AutoQAComponent`. -/
structure AutoQAComponent where
  toolName : String
  toolVersion : String
  severity : String
  expected : String
  observed : String
  reproduction : Option String

/-- The color of a severity. -/
def severityColor [Text.Unicode] (severity : String) : SemanticColor :=
  let severity := Text.Unicode.toLowercase severity
  if severity = "high" ∨ severity = "critical" then .error
  else if severity = "medium" then .warning
  else .info

/-- `to_component` of a report. -/
def AutoQAComponent.toComponent [Text.Unicode] (c : AutoQAComponent) :
    Except ValidationError Component := do
  let color := severityColor c.severity
  let header ← row [.text (.fromStyled (.strong color)
    ("AutoQA Report: " ++ c.toolName ++ " v" ++ c.toolVersion)), badge color c.severity]
  let expected ← callout .info "Expected" c.expected
  let observed ← callout .error "Observed" c.observed
  titledBox "Quality Assurance"
    (header :: expected :: observed :: (c.reproduction.map pre).toList)

/-! ## Elements -/

/-- An attribute that is a string. -/
def textAttr (e : ElementSnapshot) (name : String) : Option String :=
  match e.attributes[name]? with
  | some (.string value) => some value
  | _ => none

/-- A field of an object, if there is one. -/
def fieldOf (data : Option Value) (key : String) : Option Value :=
  data.bind (·.get key)

/-- A field that is a string. -/
def textField (data : Option Value) (key : String) : Option String :=
  (fieldOf data key).bind Value.asStr

/-- A field that is a number, or zero. -/
def numberField (data : Option Value) (key : String) : UInt64 :=
  ((fieldOf data key).bind Value.asU64).getD 0

/-- `as_i64`, cut to 32 bits. -/
def asI32 : Value → Option Int32
  | .number (.posInt n) => if n.toNat < 2 ^ 63 then some (.ofInt n.toNat) else none
  | .number (.negInt n) => some (.ofInt (-(n.val + 1)))
  | _ => none

/-- The status of an element. Unlike `from_dom_str`, its reader has no alias. -/
def statusOf (e : ElementSnapshot) : Status :=
  ((textAttr e "status").bind fun value =>
    if value = "completed" then none else Status.fromDomStr value).getD .unknown

/-- The texts of the diagnostics of an element. -/
def diagnosticsOf (s : SessionSnapshot) (id : ElementId) : List String :=
  ((s.children id).filter fun child => child.kind = "diag").map (·.text)

/-- The kinds that are shown as messages. -/
def messageKinds : List String :=
  ["user", "assistant", "system", "steering", "message"]

/-- `show_thinking`. -/
def showThinking (s : SessionSnapshot) : Bool :=
  match (s.element (staticId "convars")).bind fun e => e.attributes["cl_showthinking"]? with
  | some (.bool b) => b
  | some (.string text) => !(text = "false" || text = "0")
  | some (.integer i) => i ≠ 0
  | _ => true

/-- The tokens that an element records. -/
def tokensOf (e : ElementSnapshot) : Option (UInt64 × UInt64) :=
  match e.attributes["usage"]? with
  | some (.json v) => do
    let prompt ← ((v.get "prompt_tokens").or (v.get "input_tokens")).bind Value.asU64
    let completion ← ((v.get "completion_tokens").or (v.get "output_tokens")).bind Value.asU64
    pure (prompt, completion)
  | _ => none

/-- The message that an element is shown as. -/
def messageOf (s : SessionSnapshot) (id : ElementId) (e : ElementSnapshot) : MessageComponent where
  role := (textAttr e "role").getD e.kind
  author := textAttr e "author"
  content := e.text
  thinking :=
    if showThinking s then
      (((s.children id).find? fun child => child.kind = "think").map (·.text)).or
        (textAttr e "thinking")
    else none
  tokens := tokensOf e
  status :=
    let streaming := e.attributes["streaming"]? matches some (.bool true)
    let resolved := if statusOf e = .unknown && streaming then .running else statusOf e
    if showsStatus resolved then some resolved else none
  diagnostics := diagnosticsOf s id

/-- The component of an element whose payload is shown. -/
def semanticOf [SerdeJson] (e : ElementSnapshot) : Option (Except ValidationError Component) :=
  let field := textField e.payload
  let number := numberField e.payload
  if e.kind = "subagent" then
    some (SubagentComponent.toComponent {
      actorId := (textAttr e "actor_id").getD e.id.value
      status := statusOf e
      taskPrompt := (field "prompt").getD e.text
      diffSummary := (fieldOf e.payload "diff").map (·.display) })
  else if e.kind = "approval" then
    some (ApprovalComponent.toComponent {
      action := ((textAttr e "action").or (field "action")).getD "Capability request"
      status := statusOf e
      description := (field "action_description").getD e.text
      options := ["approve", "deny"] })
  else if e.kind = "director" then
    some (DirectorComponent.toComponent {
      name := (textAttr e "kind").getD "Director"
      attempts := (number "attempts").toUInt32
      maxAttempts := (number "max_attempts").toUInt32
      status := statusOf e
      prompt := field "reminder" })
  else if e.kind = "artifact" then
    some (ArtifactComponent.toComponent {
      artifactId := (field "id").getD e.id.value
      mediaType := (field "media_type").getD "application/octet-stream"
      byteSize := number "byte_length"
      originJob := field "origin_job" })
  else if e.kind = "job" then
    some (do
      let header ← row [plainText ("Job: " ++ e.id.value), statusBadge (statusOf e)]
      col [header, pre ((e.payload.map (·.display)).getD e.text)])
  else none

/-! ## Tool calls -/

/-- The payload of the input of a call. -/
def inputOf (s : SessionSnapshot) (id : ElementId) : Option Value :=
  ((s.children id).find? fun child => child.kind = "input").bind (·.payload)

/-- The result of a call. -/
def resultOf (s : SessionSnapshot) (id : ElementId) : Option ElementSnapshot :=
  (s.children id).find? fun child => child.kind = "result"

/-- The component of the tool of a call. -/
def primaryOf [SerdeJson] [Text.Unicode] (s : SessionSnapshot) (id : ElementId)
    (e : ElementSnapshot) (name : String) : Except ValidationError Component :=
  let input := inputOf s id
  let result := resultOf s id
  let output := result.map (·.text)
  let payload := result.bind (·.payload)
  if name = "Read" then
    ReadComponent.toComponent {
      path := (textField input "path").getD ""
      resolvedPath := textField payload "resolved_path"
      status := statusOf e
      headPreview := none
      blob := output
      diagnostics := []
      usage := none }
  else if name = "Bash" then
    BashComponent.toComponent {
      command := (textField input "command").getD ""
      cwd := textField input "cwd"
      status := statusOf e
      exitCode := (fieldOf payload "exit_code").bind asI32
      stdout := output
      stderr := none
      truncated := result.any fun child =>
        child.attributes["truncated"]? matches some (.bool true) }
  else if name = "Edit" then
    EditComponent.toComponent {
      path := (textField input "path").getD ""
      status := statusOf e
      diffStats := none
      hunks := output.toList }
  else if name = "AutoQA" then
    AutoQAComponent.toComponent {
      toolName := (textField input "tool").getD ""
      toolVersion := (textField input "tool_version").getD ""
      severity := (textField input "severity").getD "info"
      expected := (textField input "expected_behavior").getD ""
      observed := (textField input "observed_behavior").getD ""
      reproduction := (fieldOf input "reproduction_data").map (·.display) }
  else do
    let header ← row [plainText (name ++ ": " ++ (textAttr e "intent").getD ""),
      statusBadge (statusOf e)]
    col (header :: (output.map pre).toList)

/-- The image of a result. -/
def imagesOf (s : SessionSnapshot) (id : ElementId) : List Component :=
  let image := fieldOf ((resultOf s id).bind (·.payload)) "image"
  ((textField image "src").map fun src =>
    Component.image src ((textField (inputOf s id) "path").getD "Image")
      (numberField image "width").toUInt32 (numberField image "height").toUInt32).toList

/-- The artifacts and the usage of a call. -/
def extrasOf (s : SessionSnapshot) (id : ElementId) : List Component :=
  (s.children id).filterMap fun child =>
    if child.kind = "artifact_ref" then some (plainText child.text)
    else if child.kind = "usage" then
      child.payload.map fun usage =>
        .usage (numberField (some usage) "input_tokens") (numberField (some usage) "output_tokens")
    else none

/-- The component of a call. -/
def callOf [SerdeJson] [Text.Unicode] (s : SessionSnapshot) (id : ElementId)
    (e : ElementSnapshot) (name : String) : Except ValidationError Component := do
  let primary ← primaryOf s id e name
  let callouts ← diagnosticCallouts (diagnosticsOf s id)
  col (primary :: imagesOf s id ++ callouts ++ extrasOf s id)

/-! ## The registry -/

/-- `SemanticRegistry`. -/
structure SemanticRegistry where
  renderers : List (String × (ElementSnapshot → Except String Component))

/-- `map_err` to the text of the error. -/
def shown (c : Except ValidationError Component) : Except String Component :=
  c.mapError ValidationError.display

/-- The renderer of messages. -/
def renderMessage [Uppercase] (e : ElementSnapshot) : Except String Component :=
  shown (MessageComponent.toComponent
    ⟨(textAttr e "role").getD "user", textAttr e "author", e.text, none, none, none, []⟩)

/-- The renderer of answers. -/
def renderAssistant [Uppercase] (e : ElementSnapshot) : Except String Component :=
  shown (MessageComponent.toComponent
    ⟨"assistant", textAttr e "author", e.text, textAttr e "thinking", none, none, []⟩)

/-- The renderer of tool calls. -/
def renderToolCall (e : ElementSnapshot) : Except String Component :=
  let name := (textAttr e "name").getD "tool"
  let status := match textAttr e "status" with
    | some "Succeeded" => Status.succeeded
    | some "Failed" => .failed
    | some "Cancelled" => .cancelled
    | _ => .running
  let output := if e.text.isEmpty then none else some e.text
  if name = "read" then
    shown (ReadComponent.toComponent
      ⟨(textAttr e "path").getD e.text, none, status, none, output, [], none⟩)
  else if name = "bash" then
    shown (BashComponent.toComponent
      ⟨(textAttr e "command").getD e.text, none, status, none, output, none, false⟩)
  else shown (do
    let header ← titleRow (.fromStyled (.strong .primary) ("Tool Call: " ++ name)) status
    titledBox "Tool Call" (header :: (output.map pre).toList))

namespace SemanticRegistry

/-- `SemanticRegistry::new`. -/
def new [Uppercase] : SemanticRegistry :=
  ⟨[("message", renderMessage), ("assistant", renderAssistant), ("tool_call", renderToolCall)]⟩

/-- `render_component`. -/
def renderComponent (registry : SemanticRegistry) (e : ElementSnapshot) :
    Except String Component :=
  match registry.renderers.lookup e.kind with
  | some renderer => renderer e
  | none =>
    .ok (.text ((RichText.fromStyled (.strong .primary) ("<" ++ e.kind ++ "> ")).push .new e.text))

variable [SerdeJson] [Text.Unicode] [Uppercase]

/-- `render_session_element`. -/
def renderSessionElement (registry : SemanticRegistry) (s : SessionSnapshot) (id : ElementId) :
    Except String Component :=
  match s.element id with
  | none => .error ("Missing element " ++ id.value)
  | some e =>
    if e.kind ∈ messageKinds then shown (messageOf s id e).toComponent
    else match semanticOf e with
      | some component => shown component
      | none =>
        if e.kind ≠ "tool_call" then registry.renderComponent e
        else match textAttr e "tool" with
          | none => .error "Tool name is missing"
          | some name => shown (callOf s id e name)

/-- `render_session`. -/
def renderSession (registry : SemanticRegistry) (s : SessionSnapshot) :
    Except String Component := do
  let children ← s.getVisibleBody.mapM fun e => registry.renderSessionElement s e.id
  shown (col children)

end SemanticRegistry

end Omp2.Render
