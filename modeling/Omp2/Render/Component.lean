import Omp2.Library.Json
import Omp2.Render.Truncation

/-!
# Components

`omp-render/src/component.rs` and the sinks of `omp-render/src/out.rs`. No operation of the sinks
fails, so rendering is the list of the calls that it makes on its sink, and a sink is what it makes
of a list of calls. A call that writes text of a node itself is told from one that writes what the
renderer adds.
-/

namespace Omp2.Render

open Omp2.Json

/-! ## Components -/

/-- `ComponentKind`. -/
inductive ComponentKind where
  | box | row | col | text | pre | hr | badge | callout | link | icon | image | usage
  | semanticMessage | semanticTool | semanticSubagent | semanticApproval | semanticDirector
  | semanticArtifact | semanticAutoQA
deriving DecidableEq, Repr

namespace ComponentKind

/-- `is_leaf`. -/
def isLeaf (kind : ComponentKind) : Bool :=
  kind matches .hr | .icon | .image

/-- `is_block`. -/
def isBlock (kind : ComponentKind) : Bool :=
  kind matches .box | .row | .col | .pre | .callout | .semanticMessage | .semanticTool
    | .semanticSubagent | .semanticApproval | .semanticDirector | .semanticArtifact
    | .semanticAutoQA

/-- `is_inline`. -/
def isInline (kind : ComponentKind) : Bool :=
  kind matches .text | .badge | .link | .icon | .usage

end ComponentKind

/-- `ComponentProps`. -/
structure ComponentProps where
  values : List (String × Value)

namespace ComponentProps

/-- `get_str`. -/
def getStr (props : ComponentProps) (key : String) : Option String :=
  (props.values.lookup key).bind Value.asStr

/-- `get_bool`. -/
def getBool (props : ComponentProps) (key : String) : Option Bool :=
  (props.values.lookup key).bind fun
    | .bool b => some b
    | _ => none

end ComponentProps

/-- `Component`. -/
inductive Component where
  | node (kind : ComponentKind) (props : ComponentProps) (children : List Component)
      (text : Option RichText)

namespace Component

/-- The kind of a component. -/
def kind : Component → ComponentKind
  | .node kind _ _ _ => kind

/-! ## Validation -/

/-- `ComponentValidationError`. -/
inductive ValidationError where
  | leafCannotHaveChildren (kind : ComponentKind)
  | invalidChild (parent child : ComponentKind) (reason : String)
  | missingRequiredProp (element : ComponentKind) (prop : String)

/-- A loop over the children that refuses the first one of some kinds. -/
def refuseChild (parent : ComponentKind) (bad : ComponentKind → Bool) (reason : String)
    (children : List Component) : Except ValidationError Unit :=
  match children.find? fun child => bad child.kind with
  | some child => .error (.invalidChild parent child.kind reason)
  | none => .ok ()

/-- The check of a property that a kind must have. -/
def requireProp (kind : ComponentKind) (props : ComponentProps) (prop : String) :
    Except ValidationError Unit :=
  if (props.getStr prop).isNone then .error (.missingRequiredProp kind prop) else .ok ()

/-- The checks of `validate` on a component itself. -/
def validateNode (kind : ComponentKind) (props : ComponentProps) (children : List Component) :
    Except ValidationError Unit := do
  if kind.isLeaf && !children.isEmpty then .error (.leafCannotHaveChildren kind) else .ok ()
  if kind.isInline then
    refuseChild kind (·.isBlock) "inline component cannot contain block child" children
  else .ok ()
  match kind with
  | .pre =>
    refuseChild kind (fun child => child.isBlock || child = .pre)
      "Pre component cannot contain block or nested Pre child" children
  | .link =>
    requireProp kind props "href"
    refuseChild kind (· = .link) "Link component cannot contain nested Link" children
  | .callout =>
    requireProp kind props "title"
    requireProp kind props "variant"
    refuseChild kind (· = .callout) "Callout component cannot contain nested Callout" children
  | .badge => requireProp kind props "label"
  | .icon => requireProp kind props "name"
  | .image => requireProp kind props "src"
  | _ => .ok ()

mutual
/-- `validate`. -/
def validate : Component → Except ValidationError Unit
  | .node kind props children _ =>
    match validateNode kind props children with
    | .error e => .error e
    | .ok () => validateAll children

/-- `validate` of each child. -/
def validateAll : List Component → Except ValidationError Unit
  | [] => .ok ()
  | child :: children =>
    match child.validate with
    | .error e => .error e
    | .ok () => validateAll children
end

end Component

/-! ## Rendering -/

/-- `Run::new`. -/
def Run.new (style : Style) (text : String) : Run :=
  ⟨style, sanitizeText text⟩

/-- `Run::plain`. -/
def Run.plain (text : String) : Run :=
  .new .new text

/-- A call on a sink: `write_rich` of the text of a node, `write_str` of a part of it and
`line_break` at a newline in it, and the calls for what is added. -/
inductive Write where
  | rich (text : RichText)
  | own (style : Style) (part : String)
  | ownBreak
  | str (style : Style) (text : String)
  | plain (text : String)
  | lineBreak

namespace Component

/-- The indentation of a level. -/
def padOf (indent : Nat) : String :=
  String.ofList (List.replicate (2 * indent) ' ')

/-- `write_plain` of the indentation unless it is empty. -/
def writePad (indent : Nat) : List Write :=
  if indent = 0 then [] else [.plain (padOf indent)]

/-- The parts of the text of a run between its newlines. -/
def partsOf (run : Run) : List String :=
  (run.text.toList.splitOn '\n').map String.ofList

/-- The loop over the parts of a run, with what is written at the start of each further line. -/
def writeParts (style : Style) (atStart : List Write) : List String → List Write
  | [] => []
  | [part] => [.own style part]
  | part :: parts => .own style part :: .ownBreak :: atStart ++ writeParts style atStart parts

/-- The loop over the runs of a text. -/
def writeRuns (atStart : List Write) (runs : List Run) : List Write :=
  runs.flatMap fun run => writeParts run.style atStart (partsOf run)

/-- `write_rich` of a text that may be absent. -/
def writeText : Option RichText → List Write
  | some text => [.rich text]
  | none => []

/-- The color of a callout. -/
def calloutColor (variant : String) : SemanticColor :=
  if variant = "Error" then .error
  else if variant = "Warning" then .warning
  else if variant = "Muted" then .muted
  else if variant = "Success" then .success
  else .info

/-- The top of a box with a border. -/
def boxTop (pad : String) (title : Option String) : String :=
  pad ++ "+---" ++ (match title with
    | some title => " [ " ++ title ++ " ] ---"
    | none => "") ++ "+"

mutual
/-- `render_inline`. -/
def renderInline : Component → List Write
  | .node _ _ children text => writeText text ++ renderInlineAll children

/-- `render_inline` of each child. -/
def renderInlineAll : List Component → List Write
  | [] => []
  | child :: children => child.renderInline ++ renderInlineAll children
end

mutual
/-- `render_to_sink`. -/
def renderToSink : Component → Nat → List Write
  | .node kind props children text, indent =>
    match kind with
    | .box =>
      if (props.getBool "border").getD false then
        .plain (boxTop (padOf indent) (props.getStr "title")) :: .lineBreak ::
          (renderAll children (indent + 1) ++
            [.plain (padOf indent ++ "+------------------------+"), .lineBreak])
      else renderAll children indent
    | .row => .plain (padOf indent) :: (renderRow children indent ++ [.lineBreak])
    | .text =>
      match text with
      | some text => writePad indent ++ writeRuns (writePad indent) text.runs ++ [.lineBreak]
      | none => writePad indent ++ renderInlineAll children ++ [.lineBreak]
    | .pre =>
      let fence := [.plain (padOf indent ++ "```"), .lineBreak]
      match text with
      | some text =>
        fence ++ .plain (padOf indent) :: (writeRuns [.plain (padOf indent)] text.runs ++
          .lineBreak :: fence)
      | none => fence ++ fence
    | .hr =>
      [.plain (padOf indent ++ "----------------------------------------"), .lineBreak]
    | .callout =>
      .str { Style.new with
          fg := some (.semantic (calloutColor ((props.getStr "variant").getD "Info")))
          modifier := { Style.new.modifier with bold := true } }
        (padOf indent ++ "> " ++ (props.getStr "title").getD "Notice" ++ ":") :: .lineBreak ::
        renderAll children (indent + 1)
    | .badge | .link | .icon => writeText text
    | .image =>
      [.plain (padOf indent ++ "[img: " ++ (props.getStr "alt").getD "image" ++ " (" ++
        (props.getStr "src").getD "" ++ ")]"), .lineBreak]
    | .usage =>
      match text with
      | some text => writePad indent ++ [.rich text, .lineBreak]
      | none => []
    | _ => renderAll children indent

/-- `render_to_sink` of each child. -/
def renderAll : List Component → Nat → List Write
  | [], _ => []
  | child :: children, indent => child.renderToSink indent ++ renderAll children indent

/-- The loop of a row over its children, the first of which has no blank before it. -/
def renderRow : List Component → Nat → List Write
  | [], _ => []
  | child :: children, indent =>
    (if child.kind.isInline then child.renderInline else child.renderToSink indent) ++
      renderRowRest children indent

/-- The loop of a row over its further children. -/
def renderRowRest : List Component → Nat → List Write
  | [], _ => []
  | child :: children, indent =>
    .plain " " ::
      ((if child.kind.isInline then child.renderInline else child.renderToSink indent) ++
        renderRowRest children indent)
end

end Component

/-! ## Sinks -/

/-- What a call does on a sink. -/
inductive Call where
  | run (run : Run)
  | lineBreak

/-- The operations that a call is made of. -/
def Write.calls : Write → List Call
  | .rich text => text.runs.map .run
  | .own style part => [.run (.new style part)]
  | .str style text => [.run (.new style text)]
  | .plain text => [.run (.plain text)]
  | .ownBreak | .lineBreak => [.lineBreak]

/-- The operations of the sink that a rendering makes. -/
def Component.calls (c : Component) (indent : Nat) : List Call :=
  (c.renderToSink indent).flatMap Write.calls

/-- `StringOutSink`. -/
structure StringOutSink where
  buffer : String

/-- The operations of a string sink. -/
def StringOutSink.take (sink : StringOutSink) : Call → StringOutSink
  | .run run => ⟨sink.buffer ++ run.text⟩
  | .lineBreak => ⟨sink.buffer ++ "\n"⟩

/-- `LineBufferSink`. -/
structure LineBufferSink where
  lines : List RichText
  currentLine : RichText

/-- The operations of a line sink. -/
def LineBufferSink.take (sink : LineBufferSink) : Call → LineBufferSink
  | .run run => { sink with currentLine := sink.currentLine.push run.style run.text }
  | .lineBreak => ⟨sink.lines ++ [sink.currentLine], ⟨[]⟩⟩

/-- `AnsiOutSink`. -/
structure AnsiOutSink where
  buffer : String

namespace AnsiOutSink

/-- The codes of a color in the foreground: a semantic color after `base`, `bright` for the muted
one, and the codes that begin with `extended`. -/
def colorCodes (base : Nat) (color : Color) : List String :=
  match color with
  | .semantic .info => [toString (base + 4)]
  | .semantic .muted => [toString (base + 60)]
  | .semantic .warning => [toString (base + 3)]
  | .semantic .error => [toString (base + 1)]
  | .semantic .success => [toString (base + 2)]
  | .semantic .primary => [toString (base + 6)]
  | .semantic .accent => [toString (base + 5)]
  | .rgb r g b => [s!"{base + 8};2;{r.toNat};{g.toNat};{b.toNat}"]
  | .ansi256 c => [s!"{base + 8};5;{c.toNat}"]
  | .reset => [toString (base + 9)]
  | .default => []

/-- The code of a modifier that is set. -/
def modifierCode (set : Bool) (code : String) : List String :=
  if set then [code] else []

/-- The codes of a style. -/
def codes (style : Style) : List String :=
  modifierCode style.modifier.bold "1" ++ modifierCode style.modifier.dim "2" ++
    modifierCode style.modifier.italic "3" ++ modifierCode style.modifier.underline "4" ++
    modifierCode style.modifier.inverse "7" ++ modifierCode style.modifier.strikethrough "9" ++
    (style.fg.map (colorCodes 30)).getD [] ++ (style.bg.map (colorCodes 40)).getD []

/-- `style_to_ansi`. -/
def styleToAnsi (style : Style) : String :=
  if codes style = [] then "" else "\x1b[" ++ String.intercalate ";" (codes style) ++ "m"

/-- The sequence after a run with a style. -/
def reset : String :=
  "\x1b[0m"

/-- The operations of an ANSI sink. -/
def take (sink : AnsiOutSink) : Call → AnsiOutSink
  | .run run =>
    if styleToAnsi run.style = "" then ⟨sink.buffer ++ run.text⟩
    else ⟨sink.buffer ++ styleToAnsi run.style ++ run.text ++ reset⟩
  | .lineBreak => ⟨sink.buffer ++ "\n"⟩

end AnsiOutSink

end Omp2.Render
