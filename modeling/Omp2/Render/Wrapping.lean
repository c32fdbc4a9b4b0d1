import Omp2.Render.Sinks

/-!
# Wrapping

`split_lines`, `wrap_rich_text` and `LayoutOut` of `omp-render`. A text is divided at its newlines,
and a line that is too wide is filled cluster by cluster or word by word. The layout forwards each
cluster to the sink behind it and breaks lines as it goes.
-/

namespace Omp2.Render

/-! ## Lines of a text -/

/-- The loop of `split_lines` over the parts of a run, with the lines that have ended and the
current one. -/
def splitParts (style : Style) : List RichText × RichText → List String →
    List RichText × RichText
  | state, [] => state
  | (lines, current), [part] => (lines, current.pushSome style part)
  | (lines, current), part :: parts =>
    splitParts style (lines ++ [current.pushSome style part], ⟨[]⟩) parts

/-- `split_lines`. -/
def RichText.splitLines (text : RichText) : List RichText :=
  let (lines, current) := text.runs.foldl
    (fun state run => splitParts run.style state (Component.partsOf run)) ([], ⟨[]⟩)
  lines ++ [current]

/-- `is_empty`. -/
def RichText.isEmpty (text : RichText) : Bool :=
  text.runs.all fun run => run.text.isEmpty

/-! ## Filling lines -/

/-- `WrapMode`. -/
inductive WrapMode where
  | noWrap | wordWrap | characterWrap
deriving DecidableEq

/-- The lines that are filled, the current line, and its width as it has been counted. -/
structure Filling where
  wrapped : List RichText
  line : RichText
  width : Nat

/-- The filling before a line. -/
def Filling.start : Filling :=
  ⟨[], ⟨[]⟩, 0⟩

/-- The current line ends. -/
def Filling.break (f : Filling) : Filling :=
  ⟨f.wrapped ++ [f.line], ⟨[]⟩, 0⟩

/-- The lines at the end. -/
def Filling.finish (f : Filling) : List RichText :=
  if f.line.isEmpty then f.wrapped else f.wrapped ++ [f.line]

/-- A cluster of a run, with what is buffered of the run. -/
def charStep (maxWidth : Nat) (style : Style) (state : Filling × List Char)
    (cluster : List Char) : Filling × List Char :=
  let (f, buffer) := state
  let w := graphemeClusterWidth cluster
  if maxWidth < f.width + w ∧ 0 < f.width then
    let ended := { f with line := f.line.pushSome style (String.ofList buffer) }.break
    ({ ended with width := w }, cluster)
  else ({ f with width := f.width + w }, buffer ++ cluster)

/-- A run of a line that is filled cluster by cluster. -/
def charRun (maxWidth : Nat) (f : Filling) (run : Run) : Filling :=
  let (f, buffer) :=
    (graphemeClusters run.text.toList).foldl (charStep maxWidth run.style) (f, [])
  { f with line := f.line.pushSome run.style (String.ofList buffer) }

/-- `split_inclusive`: each piece but the last ends with a character that satisfies the
predicate. -/
def splitInclusive (p : Char → Bool) : List Char → List (List Char)
  | [] => []
  | c :: cs =>
    if p c then [c] :: splitInclusive p cs
    else match splitInclusive p cs with
      | [] => [[c]]
      | piece :: pieces => (c :: piece) :: pieces

/-- The words of a run. -/
def wordsOf (run : Run) : List (List Char) :=
  splitInclusive Text.isWhitespace run.text.toList

/-- A word of a run. -/
def wordStep (maxWidth : Nat) (style : Style) (f : Filling) (word : List Char) : Filling :=
  let w := visibleWidth word
  let f := if maxWidth < f.width + w ∧ 0 < f.width then f.break else f
  { f with line := f.line.push style (String.ofList word), width := f.width + w }

/-- A run of a line that is filled word by word. -/
def wordRun (maxWidth : Nat) (f : Filling) (run : Run) : Filling :=
  (wordsOf run).foldl (wordStep maxWidth run.style) f

/-- The lines that a line is filled into. -/
def wrapLine (maxWidth : Nat) (mode : WrapMode) (line : RichText) : List RichText :=
  if line.width ≤ maxWidth then [line]
  else match mode with
    | .characterWrap => (line.runs.foldl (charRun maxWidth) .start).finish
    | .wordWrap => (line.runs.foldl (wordRun maxWidth) .start).finish
    | .noWrap => [line]

/-- `wrap_rich_text`. -/
def wrapRichText (text : RichText) (maxWidth : Nat) (mode : WrapMode) : List RichText :=
  if maxWidth = 0 ∨ mode = .noWrap then text.splitLines
  else text.splitLines.flatMap (wrapLine maxWidth mode)

/-! ## The layout -/

/-- `LayoutOut`, with the operations that it has made on the sink behind it. -/
structure LayoutOut where
  width : Nat
  wrap : Bool
  column : Nat
  calls : List Call

namespace LayoutOut

/-- `line_break`. -/
def lineBreak (out : LayoutOut) : LayoutOut :=
  { out with column := 0, calls := out.calls ++ [.lineBreak] }

/-- A cluster that is written, if a line is wide enough for it. -/
def put (out : LayoutOut) (style : Style) (cluster : List Char) : LayoutOut :=
  let cells := graphemeClusterWidth cluster
  if out.width = 0 ∨ cells ≤ out.width then
    { out with
      column := out.column + cells
      calls := out.calls ++ [.run (.new style (String.ofList cluster))] }
  else out

/-- The round of `write_run` for a cluster that is no tab. -/
def cluster (style : Style) (out : LayoutOut) (cs : List Char) : LayoutOut :=
  if cs = ['\n'] ∨ cs = ['\r', '\n'] then out.lineBreak
  else if cs = ['\r'] then out
  else if 0 < out.width ∧ out.width < out.column + graphemeClusterWidth cs then
    if out.wrap then out.lineBreak.put style cs else out
  else out.put style cs

/-- The blanks up to the next tab stop. -/
def blanks (column : Nat) : List Char :=
  List.replicate (4 - column % 4) ' '

/-- The round of `write_run` for a cluster. A tab is written as a run of blanks, which has no tab
itself. -/
def step (style : Style) (out : LayoutOut) (cs : List Char) : LayoutOut :=
  if cs = ['\t'] then
    (graphemeClusters (sanitizeText (String.ofList (blanks out.column))).toList).foldl
      (cluster style) out
  else out.cluster style cs

/-- `write_run`. -/
def writeRun (out : LayoutOut) (run : Run) : LayoutOut :=
  (graphemeClusters run.text.toList).foldl (step run.style) out

/-- `write_rich` of a text to a new layout. -/
def layout (text : RichText) (width : Nat) (wrap : Bool) : List Call :=
  (text.runs.foldl writeRun ⟨width, wrap, 0, []⟩).calls

end LayoutOut

/-! ## What wrapping preserves -/

/-- A character with its style. -/
abbrev StyledChar := Style × Char

/-- The styled characters of a text in a style. -/
def styledText (style : Style) (cs : List Char) : List StyledChar :=
  cs.map fun c => (style, c)

/-- The styled characters of some runs. -/
def styled (runs : List Run) : List StyledChar :=
  runs.flatMap fun run => styledText run.style run.text.toList

/-- A further character, which ends the current line when it is a newline. -/
def addChar (state : List (List StyledChar) × List StyledChar) (sc : StyledChar) :
    List (List StyledChar) × List StyledChar :=
  if sc.2 = '\n' then (state.1 ++ [state.2], []) else (state.1, state.2 ++ [sc])

/-- The lines of a styled text, without the newlines between them. -/
def logicalLines (chars : List StyledChar) : List (List StyledChar) :=
  let (lines, current) := chars.foldl addChar ([], [])
  lines ++ [current]

/-- Some lines are the given ones, each divided into lines that are not too wide. -/
structure Wraps (maxWidth : Nat) (lines : List (List StyledChar)) (wrapped : List RichText) :
    Prop where
  divided : ∃ groups : List (List RichText), wrapped = groups.flatten ∧
    groups.map (fun group => group.flatMap fun line => styled line.runs) = lines
  fits : ∀ line ∈ wrapped, line.width ≤ maxWidth

/-- The lines of the operations on a sink. -/
def callLines (calls : List Call) : List (List Run) × List Run :=
  calls.foldl
    (fun state call => match call with
      | .run run => (state.1, state.2 ++ [run])
      | .lineBreak => (state.1 ++ [state.2], []))
    ([], [])

/-- The lines that a sink has been given. -/
def outputLines (calls : List Call) : List RichText :=
  ((callLines calls).1 ++ [(callLines calls).2]).map RichText.mk

/-- A line without its carriage returns, with between one and four blanks for each tab. -/
inductive Expands : List StyledChar → List StyledChar → Prop where
  | nil : Expands [] []
  | return {style line expanded} (hrest : Expands line expanded) :
      Expands ((style, '\r') :: line) expanded
  | tab {style line expanded} (n : Nat) (hpos : 0 < n) (hle : n ≤ 4)
      (hrest : Expands line expanded) :
      Expands ((style, '\t') :: line) (styledText style (List.replicate n ' ') ++ expanded)
  | char {sc line expanded} (hreturn : sc.2 ≠ '\r') (htab : sc.2 ≠ '\t')
      (hrest : Expands line expanded) : Expands (sc :: line) (sc :: expanded)

end Omp2.Render
