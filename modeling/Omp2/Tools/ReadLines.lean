import Omp2.Library.EndedLines
import Omp2.Library.Ranges
import Omp2.Library.Sha256
import Omp2.Library.Utf8

/-!
# Reading lines of a file

The `Read` tool reads a small file into memory and indexes its lines
(`LineSelector::select_lines_bounded` of `omp-tools/src/read.rs` and the text modes of
`read_filesystem_resource` in `omp-tools/src/host.rs`). It reads a large file line by line and tests
each line's number (`text_file` of `omp-tools/src/resource.rs`).
-/

namespace Omp2.Tools.Read

open Ranges

/-- `usize::MAX`. -/
def usizeMax : Nat := 2 ^ 64 - 1

/-- `MAX_READ_BYTES`, and `LIMIT` of the other reader. -/
def maxReadBytes : Nat := 100000

/-- `LineSelector`. -/
inductive LineSelector where
  | single (n : Nat)
  | fromLine (n : Nat)
  | inclusive (start last : Nat)
  | count (start n : Nat)
  | disjoint (ranges : List (Nat × Nat))
  | tail (n : Nat)
  deriving DecidableEq, Repr

/-- Lines with their numbers, and whether there would be more. -/
structure Shown where
  lines : List (Nat × List Char)
  truncated : Bool
  deriving DecidableEq, Repr

/-! ## The reader of small files -/

/-- The numbers of the lines that a selector goes through, unless their computation overflows. -/
def LineSelector.numbers (total : Nat) : LineSelector → Option (List Nat)
  | .single n => some (if 1 ≤ n ∧ n ≤ total then [n] else [])
  | .fromLine start => some (upTo (max start 1) total)
  | .inclusive start last => some (upTo (max start 1) (min last total))
  | .count start n =>
    let start := max start 1
    if start + (n - 1) ≤ usizeMax then some (upTo start (min (start + (n - 1)) total)) else none
  | .disjoint ranges =>
    some (ranges.flatMap fun range => upTo (max range.1 1) (min range.2 total))
  | .tail n => some (upTo (total - n + 1) total)

/-- `push_line` for one number after the other, until a bound is reached. -/
def pushLines (lines : List (List Char)) (maxLines maxBytes : Nat) :
    Nat → Nat → List Nat → Shown
  | _, _, [] => ⟨[], false⟩
  | pushed, totalBytes, n :: numbers =>
    if pushed ≥ maxLines then ⟨[], true⟩
    else
      let text := lines.getD (n - 1) []
      let bytes := Text.byteLength text + 1
      if totalBytes + bytes > maxBytes then ⟨[], true⟩
      else
        let later := pushLines lines maxLines maxBytes (pushed + 1) (totalBytes + bytes) numbers
        ⟨(n, text) :: later.lines, later.truncated⟩

/-- `LineSelector::select_lines_bounded`. -/
def LineSelector.selectLinesBounded (selector : LineSelector) (lines : List (List Char))
    (maxLines maxBytes : Nat) : Option Shown :=
  (selector.numbers lines.length).map (pushLines lines maxLines maxBytes 0 0)

/-- A line starts with this text. -/
def starts (marker : String) (line : List Char) : Bool :=
  marker.toList.isPrefixOf line

/-- The loop of the mode that shows conflicts only. -/
def conflictLoop : Nat → Bool → List (List Char) → List (Nat × List Char)
  | _, _, [] => []
  | number, inConflict, line :: rest =>
    let inConflict :=
      starts "<<<<<<<" line || starts "=======" line || starts ">>>>>>>" line || inConflict
    let later := conflictLoop (number + 1) (inConflict && !starts ">>>>>>>" line) rest
    if inConflict then (number, line) :: later else later

/-- What is read of a small file: lines with their numbers, the whole text, or for a long file of
code a summary of its structure. -/
inductive SmallRead where
  | lines (shown : Shown)
  | whole (text : List Char)
  | summary
  deriving DecidableEq, Repr

/-- The text modes of `read_filesystem_resource`. `code` is what `is_code_file` says of the path. -/
def readSmall (code : Bool) (selector : Option LineSelector) (raw conflictsOnly : Bool)
    (text : List Char) : Option SmallRead :=
  let lines := Text.linesFrom [] text
  if raw then
    match selector with
    | some selector => (selector.selectLinesBounded lines usizeMax maxReadBytes).map .lines
    | none => some (.whole text)
  else
    match selector with
    | some selector => (selector.selectLinesBounded lines usizeMax maxReadBytes).map .lines
    | none =>
      if conflictsOnly then some (.lines ⟨conflictLoop 1 false lines, false⟩)
      else if code && decide (lines.length > 40) then some .summary
      else some (.lines ⟨lines.zipIdx 1 |>.map fun line => (line.2, line.1), false⟩)

/-! ## The reader of large files -/

/-- `format!("{:X}", n)` of a number below sixteen. -/
def upperHex (n : UInt8) : Char :=
  Char.ofNat (if n < 10 then '0'.toNat + n.toNat else 'A'.toNat + (n.toNat - 10))

/-- The tag of a content: the first two bytes of its digest. -/
def fileTag (bytes : List UInt8) : List Char :=
  ((Sha256.digest bytes).take 2).flatMap fun (b : UInt8) =>
    [upperHex (b >>> 4), upperHex (b &&& 0xf)]

/-- The line that names the file and its tag. -/
def header (label : String) (text : List Char) : List Char :=
  '[' :: label.toList ++ '#' :: fileTag (String.ofList text).toUTF8.toList ++ [']', '\n']

/-- The match on the selector in `text_file`. -/
def LineSelector.selects (total number : Nat) : LineSelector → Bool
  | .single n => number = n
  | .fromLine n => number ≥ n
  | .inclusive start last => start ≤ number && number ≤ last
  | .count start n => number ≥ start && number - start < n
  | .disjoint ranges => ranges.any fun range => range.1 ≤ number && number ≤ range.2
  | .tail n => number > total - n

/-- What is kept of a line: no more than one byte past the limit. The second part says whether some
of it was dropped. A character that is cut through decodes to a replacement character. -/
def keepLine (line : List Char) : List Char × Bool :=
  let kept := Text.truncateChars line (maxReadBytes + 1)
  let oversized := decide (Text.byteLength line > maxReadBytes + 1)
  (if oversized && decide (Text.byteLength kept < maxReadBytes + 1) then kept ++ [Utf8.replacement]
    else kept, oversized)

/-- What stands before a line. -/
def linePrefix (raw : Bool) (number : Nat) : List Char :=
  if raw then [] else (toString number).toList ++ [':']

/-- The loop of `text_file` over the numbers of the lines. `size` is the length of the output so
far. -/
def fileLoop (selector : Option LineSelector) (raw conflicts : Bool) (total : Nat) :
    Nat → Nat → List Char → Nat → Bool → Shown
  | 0, _, _, _, _ => ⟨[], false⟩
  | rounds + 1, number, unread, size, inConflict =>
    let line := Text.takeLine '\n' unread
    let text := (keepLine line.1).1
    let selected := selector.all fun selector => selector.selects total number
    let inConflict := starts "<<<<<<<" text || inConflict
    let visible := selected && (!conflicts || inConflict)
    let inConflict := !starts ">>>>>>>" text && inConflict
    if !visible then
      fileLoop selector raw conflicts total rounds (number + 1) line.2 size inConflict
    else
      let start := Text.byteLength (linePrefix raw number)
      let cut := Text.truncateChars text (maxReadBytes - (size + start))
      if (keepLine line.1).2 || decide (Text.byteLength cut < Text.byteLength text) then
        ⟨[(number, cut)], true⟩
      else
        let later := fileLoop selector raw conflicts total rounds (number + 1) line.2
          (size + start + Text.byteLength cut) inConflict
        ⟨(number, cut) :: later.lines, later.truncated⟩

/-- `text_file`: the lines that are written after the header. -/
def textFile (label : String) (selector : Option LineSelector) (raw conflicts : Bool)
    (text : List Char) : Shown :=
  let total := Text.countLines '\n' text
  let out := if raw then [] else header label text
  fileLoop selector raw conflicts total total 1 text (Text.byteLength out) false

/-! ## What the readers are for -/

/-- The lines of a text with their numbers, without the newlines that end them. -/
def numbered (text : List Char) : List (Nat × List Char) :=
  ((Text.endedLines '\n' text).zipIdx 1).map fun line => (line.2, Text.dropNewline line.1)

/-- The lines that were read of a small file. -/
def SmallRead.selected : SmallRead → Option (List (Nat × List Char))
  | .lines shown => some shown.lines
  | .whole text => some (numbered text)
  | .summary => none

def SmallRead.truncated : SmallRead → Bool
  | .lines shown => shown.truncated
  | .whole _ => false
  | .summary => false

/-- The computation of the small reader does not overflow, and if neither reader was truncated both
have read the same lines with the same numbers. -/
def Agree (label : String) (code : Bool) (selector : Option LineSelector) (raw conflicts : Bool)
    (text : List Char) : Prop :=
  ∃ small, readSmall code selector raw conflicts text = some small ∧
    (small.truncated = false → (textFile label selector raw conflicts text).truncated = false →
      small.selected = some ((textFile label selector raw conflicts text).lines.map fun line =>
        (line.1, Text.dropNewline line.2)))

end Omp2.Tools.Read
