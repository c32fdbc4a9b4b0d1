import Omp2.State.Dom
import Omp2.Tools.ReadLines
import Omp2.Tools.Results
import Omp2.Types.Summary

/-!
# Reading compacted originals

`handle_summary_read` of `omp-tools/src/host.rs`. A summary node names the elements that it leaves
out of the projection, and a read of the node renders them again. The rendering stops before the
element that no longer fits, and the lines that a selector asks for are taken from what was rendered
until then. A search numbers the lines of each element on its own.
-/

namespace Omp2.Tools

open Omp2.Json Omp2.State

/-- `MAX_SUMMARY_BYTES`. -/
def maxSummaryBytes : Nat := 64 * 1024

/-- `MAX_SUMMARY_MATCHES`. -/
def maxSummaryMatches : Nat := 200

/-- The nodes under `<summaries>` that can be decoded, in their order. -/
def loadNodes (s : SessionSnapshot) : List (ElementId × SummaryNode) :=
  (s.children (staticId "summaries")).filterMap fun element =>
    match SummaryNode.fromElement element with
    | .ok node => some (element.id, node)
    | .error _ => none

/-- The map of these nodes. -/
def nodesOf (s : SessionSnapshot) : SummaryNodes :=
  (loadNodes s).foldl (fun nodes entry => nodes.insert entry.1 entry.2) ∅

section Rendering

variable [SerdeJson]

/-- `payload.to_string()`. -/
def jsonText (value : Value) : List Char :=
  (Utf8.lossy (SerdeJson.toVec value)).toList

/-- `render_transcript_element`. -/
def renderTranscriptElement (s : SessionSnapshot) (element : ElementSnapshot) : List Char :=
  let text := element.text.toList
  match element.kind with
  | "user" => "--- user ---\n".toList ++ text ++ ['\n']
  | "assistant" => "--- assistant ---\n".toList ++ text ++ ['\n']
  | "tool_call" =>
    let tool := match element.attributes["tool"]? with
      | some (.string name) => name
      | _ => "tool"
    let input := (s.children element.id).find? fun child => child.kind == "input"
    let args := (input.bind fun child => child.payload.map jsonText).getD []
    let result := (((s.children element.id).find? fun child => child.kind == "result").map
      fun child => child.text.toList).getD []
    "--- tool ".toList ++ tool.toList ++ " ---\narguments: ".toList ++ args ++ ['\n'] ++ result ++
      ['\n']
  | other => "--- ".toList ++ other.toList ++ " ---\n".toList ++ text ++ ['\n']

/-- The first line of an expansion. -/
def expansionHeader (nodes : SummaryNodes) (id : ElementId) : List Char :=
  let node := (nodes[id]?).getD default
  "# summary://".toList ++ id.value.toList ++ " — ".toList ++
    (toString (expandCovered nodes id).length).toList ++ " elements, ~".toList ++
    (toString node.coveredTokens.toNat).toList ++ " tokens".toList

/-- The line of an expansion that was cut short. -/
def truncatedNote (id : ElementId) (rendered covered : Nat) : List Char :=
  "[...expansion truncated after ".toList ++ (toString rendered).toList ++ " of ".toList ++
    (toString covered).toList ++ " elements; read a line range with summary://".toList ++
    id.value.toList ++ ":<from>-<to>]".toList

/-- The line of an expansion that names elements which are gone. -/
def missingNote (missing : Nat) : List Char :=
  "[".toList ++ (toString missing).toList ++
    " covered elements are no longer in the transcript]".toList

/-- The loop of `render_summary_expansion` over the body. -/
def expandLoop (s : SessionSnapshot) (id : ElementId) (covered : List ElementId) :
    List ElementSnapshot → List Char → Nat → List Char
  | [], out, rendered =>
    if rendered < covered.length then out ++ missingNote (covered.length - rendered) ++ ['\n']
    else out
  | element :: body, out, rendered =>
    if element.id ∉ covered then expandLoop s id covered body out rendered
    else
      let block := renderTranscriptElement s element
      if Text.byteLength out + Text.byteLength block > maxSummaryBytes then
        out ++ truncatedNote id rendered covered.length ++ ['\n']
      else expandLoop s id covered body (out ++ (block ++ ['\n'])) (rendered + 1)

/-- `render_summary_expansion`. -/
def renderSummaryExpansion (s : SessionSnapshot) (nodes : SummaryNodes) (id : ElementId) :
    List Char :=
  let covered := expandCovered nodes id
  let out := expansionHeader nodes id ++ ['\n']
  if covered.isEmpty then
    out ++ "(this node condenses other nodes; expand its children instead)\n".toList
  else expandLoop s id covered s.getVisibleBody out 0

end Rendering

/-! ## Searching -/

/-- A hit of a search: the node and the number that it is printed with, and the line. -/
structure Hit where
  id : ElementId
  number : Nat
  line : List Char

/-- What a search prints after its first line. -/
structure SearchResult where
  hits : List Hit
  more : Bool

section Searching

variable [SerdeJson] [Text.Unicode]

/-- The elements that a search goes through, each with the node that it is first met under. -/
def searchElements (s : SessionSnapshot) (nodes : SummaryNodes) :
    List ElementId → List (ElementId × ElementId) → List (ElementId × ElementSnapshot)
  | _, [] => []
  | seen, (id, element) :: rest =>
    if element ∈ seen then searchElements s nodes seen rest
    else
      match s.element element with
      | none => searchElements s nodes (element :: seen) rest
      | some found => (id, found) :: searchElements s nodes (element :: seen) rest

/-- The lines of these elements with the numbers that they have in their elements. -/
def searchLines (s : SessionSnapshot) (elements : List (ElementId × ElementSnapshot)) : List Hit :=
  elements.flatMap fun entry =>
    ((Text.linesFrom [] (renderTranscriptElement s entry.2)).zipIdx 1).map fun line =>
      ⟨entry.1, line.2, line.1⟩

/-- `line.to_lowercase().contains(&needle)`. -/
def lineContains (needle : List Char) (line : List Char) : Bool :=
  needle.isEmpty ||
    (Text.splitOnce needle (Text.Unicode.toLowercase (String.ofList line)).toList).isSome

/-- The inner loop of `render_summary_search`. -/
def searchLoop (needle : List Char) : Nat → List Hit → SearchResult
  | _, [] => ⟨[], false⟩
  | found, line :: rest =>
    if found ≥ maxSummaryMatches then ⟨[], true⟩
    else if lineContains needle line.line then
      let later := searchLoop needle (found + 1) rest
      ⟨line :: later.hits, later.more⟩
    else searchLoop needle found rest

/-- `render_summary_search`. -/
def renderSummarySearch (s : SessionSnapshot) (nodes : SummaryNodes) (scope : List ElementId)
    (pattern : String) : SearchResult :=
  let needle := (Text.Unicode.toLowercase pattern).toList
  let covered := scope.flatMap fun id => (expandCovered nodes id).map fun element => (id, element)
  searchLoop needle 0 (searchLines s (searchElements s nodes [] covered))

/-! ## The read -/

/-- What a read of summaries shows. -/
inductive SummaryResponse where
  | nothing (message : String)
  | listing (order : List ElementId)
  | search (result : SearchResult)
  | whole (rendered : List Char)
  | selected (lines : Read.Shown)

/-- The nodes that a read is about: one, or all of them. -/
def summaryScope (s : SessionSnapshot) : Option ElementId → List ElementId
  | some id => [id]
  | none => (loadNodes s).map Prod.fst

/-- `handle_summary_read`, after the name of the node was read. A line selector applies to the
rendered expansion. -/
def handleSummaryRead (s : SessionSnapshot) (target : Option ElementId)
    (lines : Option Read.LineSelector) (query : Option String) :
    Except ToolError SummaryResponse :=
  let nodes := nodesOf s
  if (loadNodes s).isEmpty then
    .ok (.nothing (if (s.children (staticId "summaries")).isEmpty then
      "Nothing has been compacted in this session; the transcript is complete."
    else "This session has compaction nodes this build cannot decode; the transcript itself is " ++
      "unaffected."))
  else if target.any fun id => (nodes[id]?).isNone then
    .error (.notFound ("No summary node " ++ (target.map Id.value).getD "" ++
      " on this branch; run Read summary:// to list the DAG"))
  else
    match query.filter (fun query => !query.isEmpty) with
    | some pattern => .ok (.search (renderSummarySearch s nodes (summaryScope s target) pattern))
    | none =>
      match target with
      | none => .ok (.listing ((loadNodes s).map Prod.fst))
      | some id =>
        let rendered := renderSummaryExpansion s nodes id
        match lines with
        | none => .ok (.whole rendered)
        | some lines =>
          match lines.selectLinesBounded (Text.linesFrom [] rendered) 4000 Read.maxReadBytes with
          | none => .error (.execution "attempt to add with overflow")
          | some shown => .ok (.selected shown)

end Searching

end Omp2.Tools
