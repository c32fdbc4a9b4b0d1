import Omp2.Library.Text
import Omp2.Tools.Results

/-!
# The hashline patch language

`HashlineParser::parse` in `omp-tools/src/edit.rs`. A patch is read line by line: a header opens a
section, an operation header opens an operation, and lines that start with a plus are the body of
the operation that is open. A line that is none of these closes the operation.
-/

namespace Omp2.Tools

/-- `EditOp`. -/
inductive EditOp where
  | putRange (start «end» : Nat) (body : List String)
  | putBlock (start : Nat) (body : List String)
  | insertBefore (line : Nat) (body : List String)
  | insertAfter (line : Nat) (body : List String)
  | pasteBefore (line : Nat) (register : Option String)
  | pasteAfter (line : Nat) (register : Option String)
  | cutRange (start «end» : Nat) (register : Option String)
  | cutBlock (start : Nat) (register : Option String)
  | removeFile
  | moveFile (destination : String)
deriving DecidableEq, Repr

/-- `ParsedEditSection`. -/
structure ParsedEditSection where
  path : String
  tag : String
  ops : List EditOp
deriving DecidableEq, Repr

namespace Hashline

/-! ## Numbers -/

/-- `parse::<usize>`. -/
def parseUsize (cs : List Char) : Option Nat :=
  let digits := match cs with
    | '+' :: rest => rest
    | cs => cs
  if digits ≠ [] ∧ digits.all Char.isDigit then
    let n := digits.foldl (fun n c => 10 * n + (c.toNat - '0'.toNat)) 0
    if n < 2 ^ 64 then some n else none
  else none

/-- A line number, with the message for what is none. -/
def lineNumber (cs : List Char) (message : String) : Except ToolError Nat :=
  match parseUsize cs with
  | some n => .ok n
  | none => .error (.validation message)

/-! ## Operations -/

/-- A number that must not be zero, with the message for zero. -/
def positive (n : Nat) (message : String) : Except ToolError Unit :=
  if n = 0 then .error (.validation message) else .ok ()

/-- The two bounds of a range: counted from one, and in order. -/
def checkRange (keyword : String) (start «end» : Nat) : Except ToolError Unit :=
  if start = 0 ∨ «end» = 0 then
    .error (.validation ("line numbers in " ++ keyword ++ " are 1-indexed, got 0"))
  else if «end» < start then
    .error (.validation ("invalid " ++ keyword ++ " range: start line " ++ toString start ++
      " is greater than end line " ++ toString «end»))
  else .ok ()

/-- The first line of a block. -/
def blockStart (keyword : String) (cs : List Char) : Except ToolError Nat := do
  let start ← lineNumber (Text.trimChars cs)
    ("invalid " ++ keyword ++ " block line: " ++ String.ofList cs)
  positive start ("line numbers in " ++ keyword ++ " block are 1-indexed, got 0")
  .ok start

/-- What follows `CUT`. A text that is neither a range nor a block is no operation. -/
def parseCut (rest : List Char) : Except ToolError (Option EditOp) :=
  match Text.splitOnce ['.', '='] rest with
  | some (s, e) => do
    let words := Text.words (String.ofList e)
    let start ← lineNumber s ("invalid CUT start line: " ++ String.ofList s)
    let «end» ← lineNumber ((words[0]?).getD "").toList
      ("invalid CUT end line: " ++ String.ofList e)
    checkRange "CUT" start «end»
    let register := words[1]?.map fun r => String.ofList (r.toList.dropWhile (· = '@'))
    .ok (some (.cutRange start «end» register))
  | none =>
    match Text.stripEnd ['*'] rest with
    | some s => do
      let start ← blockStart "CUT" s
      .ok (some (.cutBlock start none))
    | none => .ok none

/-- The line of an insertion. -/
def insertLine (side : String) (hint : String) (cs : List Char) : Except ToolError Nat := do
  let line ← lineNumber cs ("invalid PUT insert-" ++ side ++ " line: " ++ String.ofList cs)
  positive line hint
  .ok line

/-- What follows `PUT`. A text of no known form is no operation. -/
def parsePut (rest : List Char) : Except ToolError (Option EditOp) :=
  let clean := Text.trimChars (rest.reverse.dropWhile (· = ':')).reverse
  match Text.stripStart ['<'] clean with
  | some cs => do
    let line ← insertLine "before"
      "line numbers in PUT < are 1-indexed, got 0 (use <1 for file head)" cs
    .ok (some (.insertBefore line []))
  | none =>
    match Text.stripStart ['>'] clean with
    | some cs => do
      let line ← insertLine "after" "line numbers in PUT > are 1-indexed, got 0" cs
      .ok (some (.insertAfter line []))
    | none =>
      match Text.splitOnce ['.', '='] clean with
      | some (s, e) => do
        let start ← lineNumber s ("invalid PUT start line: " ++ String.ofList s)
        let «end» ← lineNumber e ("invalid PUT end line: " ++ String.ofList e)
        checkRange "PUT" start «end»
        .ok (some (.putRange start «end» []))
      | none =>
        match Text.stripEnd ['*'] clean with
        | some s => do
          let start ← blockStart "PUT" s
          .ok (some (.putBlock start []))
        | none => .ok none

/-- The operation that a line opens, if it opens one. -/
def parseOp (trimmed : List Char) : Except ToolError (Option EditOp) :=
  if trimmed = "REM".toList then .ok (some .removeFile)
  else match Text.stripStart "MV ".toList trimmed with
    | some destination =>
      .ok (some (.moveFile (String.ofList (Text.trimChars destination))))
    | none =>
      match Text.stripStart "CUT ".toList trimmed with
      | some rest => parseCut rest
      | none =>
        match Text.stripStart "PUT ".toList trimmed with
        | some rest => parsePut rest
        | none => .ok none

/-- A line more in the body of an operation, if it has a body. -/
def pushBody (line : String) : EditOp → Option EditOp
  | .putRange start «end» body => some (.putRange start «end» (body ++ [line]))
  | .putBlock start body => some (.putBlock start (body ++ [line]))
  | .insertBefore n body => some (.insertBefore n (body ++ [line]))
  | .insertAfter n body => some (.insertAfter n (body ++ [line]))
  | _ => none

/-! ## Sections -/

/-- What the parser has read: the closed sections, the open one, and its open operation. -/
structure Reading where
  sections : List ParsedEditSection
  currentSection : Option ParsedEditSection
  currentOp : Option EditOp

/-- Close the open operation. -/
def Reading.flushOp (r : Reading) : Reading :=
  match r.currentOp, r.currentSection with
  | some op, some s =>
    { r with currentOp := none, currentSection := some { s with ops := s.ops ++ [op] } }
  | _, _ => { r with currentOp := none }

/-- Close the open section. -/
def Reading.flushSection (r : Reading) : Reading :=
  match r.currentSection with
  | some s => { r with currentSection := none, sections := r.sections ++ [s] }
  | none => r

/-- The section that a header opens. -/
def parseHeader (trimmed : List Char) : Except ToolError ParsedEditSection :=
  match Text.splitOnce ['#'] trimmed.tail.dropLast with
  | none => .error (.validation
      ("invalid section header '" ++ String.ofList trimmed ++ "': missing '#TAG'"))
  | some (path, tag) =>
    if Text.trimChars tag = [] then
      .error (.validation ("invalid section header '" ++ String.ofList trimmed ++ "': empty tag"))
    else .ok ⟨String.ofList (Text.trimChars path), String.ofList (Text.trimChars tag), []⟩

/-- One line of a patch. -/
def parseLine (r : Reading) (line : String) : Except ToolError Reading :=
  let trimmed := Text.trimChars line.toList
  if trimmed.head? = some '[' ∧ trimmed.getLast? = some ']' then do
    let opened ← parseHeader trimmed
    .ok { r.flushOp.flushSection with currentSection := some opened }
  else match Text.stripStart ['+'] line.toList with
    | some body =>
      match r.currentOp.bind (pushBody (String.ofList body)) with
      | some op => .ok { r with currentOp := some op }
      | none => .error (.validation
          ("unexpected body line without preceding PUT header: " ++ line))
    | none =>
      let r := r.flushOp
      if trimmed = [] then .ok r
      else if r.currentSection.isNone then
        .error (.validation ("operation header without preceding [PATH#TAG]: " ++ line))
      else do
        let op ← parseOp trimmed
        .ok { r with currentOp := op }

/-- `HashlineParser::parse`. -/
def parse (input : String) : Except ToolError (List ParsedEditSection) := do
  let r ← (Text.lines input).foldlM parseLine ⟨[], none, none⟩
  let r := r.flushOp.flushSection
  if r.sections = [] then .error (.validation "no valid edit sections found in input")
  else .ok r.sections

end Hashline

end Omp2.Tools
