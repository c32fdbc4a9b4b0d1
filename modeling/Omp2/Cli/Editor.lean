import Omp2.Library.Graphemes
import Omp2.Render.RichText

/-!
# The input editor

The multi-line input editor of `omp-cli/src/editor.rs`: its text with the byte position of the
cursor, the history of what was submitted with the draft that a recall puts aside, and the lines and
the cursor that are shown at a width. A text is its list of characters. The source slices its text
at byte positions and panics inside a character; every operation clamps its cursor to a boundary
first.
-/

namespace Omp2.Cli

open Omp2.Text Omp2.Graphemes

/-- `MAX_HISTORY_ENTRIES`. -/
def maxHistoryEntries : Nat := 200

/-- `MAX_BUFFER_BYTES`. -/
def maxBufferBytes : Nat := 65536

/-! ## Sanitizing -/

/-- The carriage returns and tabs of an input are replaced. -/
def normalize : List Char → List Char
  | [] => []
  | '\r' :: '\n' :: rest => '\n' :: normalize rest
  | '\r' :: rest => '\n' :: normalize rest
  | '\t' :: rest => ' ' :: ' ' :: ' ' :: ' ' :: normalize rest
  | c :: rest => c :: normalize rest

/-- `sanitize_and_normalize`. -/
def sanitizeAndNormalize (input : List Char) : List Char :=
  Render.sanitizeChars .text (normalize input)

/-- The byte position of the last newline. -/
def rfindNewline (text : List Char) : Option Nat :=
  match text.reverse.dropWhile (· ≠ '\n') with
  | [] => none
  | _ :: front => some (byteLength front)

/-- The byte position of the first newline. -/
def findNewline (text : List Char) : Option Nat :=
  match text.dropWhile (· ≠ '\n') with
  | [] => none
  | _ :: _ => some (byteLength (text.takeWhile (· ≠ '\n')))

/-- Where the last line of a text starts. -/
def lineStart (text : List Char) : Nat :=
  ((rfindNewline text).map (· + 1)).getD 0

/-- Where the last word of a text starts, given its characters from the last one on. -/
def wordStart : Bool → List Char → Nat
  | _, [] => 0
  | inWord, c :: front =>
    if isWhitespace c then
      if inWord then byteLength (c :: front) else wordStart inWord front
    else wordStart true front

/-- How far the first word of a text reaches, with the white space before it. -/
def wordEnd : Bool → List Char → Nat
  | _, [] => 0
  | skipped, c :: rest =>
    if isWhitespace c then
      if skipped then 0 else c.utf8Size + wordEnd skipped rest
    else c.utf8Size + wordEnd true rest

/-! ## Loops over the clusters -/

/-- The last cluster that starts at or before the cursor. -/
def nearestFrom (cursor : Nat) : Nat → Nat → List (List Char) → Nat
  | nearest, _, [] => nearest
  | nearest, position, g :: gs =>
    if position = cursor then cursor
    else if cursor < position then nearest
    else nearestFrom cursor position (position + byteLength g) gs

/-- The end of the cluster in which the cursor is. -/
def forwardFrom (cursor : Nat) : Nat → List (List Char) → Nat
  | position, [] => position
  | position, g :: gs =>
    if position = cursor then cursor
    else if cursor < position + byteLength g then position + byteLength g
    else forwardFrom cursor (position + byteLength g) gs

/-- The last cluster that starts before the cursor. -/
def previousFrom (cursor : Nat) : Nat → Nat → List (List Char) → Nat
  | previous, _, [] => previous
  | previous, position, g :: gs =>
    if cursor ≤ position then previous
    else previousFrom cursor position (position + byteLength g) gs

/-- The next boundary after the cursor. -/
def nextFrom (cursor : Nat) : Nat → List (List Char) → Nat
  | position, [] => position
  | position, g :: gs =>
    if cursor < position then position
    else if position = cursor then position + byteLength g
    else nextFrom cursor (position + byteLength g) gs

/-- The first clusters that end within a budget. -/
def budgetFrom (maxBytes : Nat) : Nat → List (List Char) → Nat
  | position, [] => position
  | position, g :: gs =>
    if maxBytes < position + byteLength g then position
    else budgetFrom maxBytes (position + byteLength g) gs

/-- Where a number of clusters ends. -/
def columnFrom : Nat → Nat → List (List Char) → Nat
  | _, position, [] => position
  | 0, position, _ :: _ => position
  | column + 1, position, g :: gs => columnFrom column (position + byteLength g) gs

/-! ## The editor -/

/-- `Editor`. -/
structure Editor where
  text : List Char
  cursor : Nat
  history : List (List Char)
  historyIndex : Option Nat
  draft : List Char

/-- `KeyCode`, with the keys that the terminal input decodes. -/
inductive KeyCode where
  | char (c : Char)
  | enter | esc | left | right | home | «end» | backspace | delete | up | down
  | tab | backTab | pageUp | pageDown
deriving DecidableEq

/-- `KeyEvent`, with the modifiers that the terminal input decodes. -/
structure KeyEvent where
  code : KeyCode
  shift : Bool
  control : Bool
  alt : Bool
deriving DecidableEq

namespace Editor

/-- `new`. -/
def new : Editor :=
  ⟨[], 0, [], none, []⟩

/-- `clear`. -/
def clear (e : Editor) : Editor :=
  { e with text := [], cursor := 0, historyIndex := none, draft := [] }

/-- `submit`. -/
def submit (e : Editor) : Editor × Option (List Char) :=
  if (trimChars e.text).isEmpty then (e, none)
  else
    let history :=
      if e.history.getLast? = some e.text then e.history
      else (if maxHistoryEntries ≤ e.history.length then e.history.tail else e.history) ++ [e.text]
    ({ text := [], cursor := 0, history, historyIndex := none, draft := [] }, some e.text)

/-- The text without what is between two positions. -/
def drained (e : Editor) (first last : Nat) : List Char :=
  upTo e.text first ++ after e.text last

variable [Segmentation]

/-- `clamp_cursor`. -/
def clampCursor (e : Editor) : Editor :=
  if byteLength e.text ≤ e.cursor then { e with cursor := byteLength e.text }
  else { e with cursor := nearestFrom e.cursor 0 0 (graphemes e.text) }

/-- `clamp_cursor_forward`. -/
def clampCursorForward (e : Editor) : Editor :=
  if byteLength e.text ≤ e.cursor then { e with cursor := byteLength e.text }
  else { e with cursor := forwardFrom e.cursor 0 (graphemes e.text) }

/-- `truncate_to_grapheme_budget`. -/
def truncateToGraphemeBudget (text : List Char) (maxBytes : Nat) : List Char :=
  if byteLength text ≤ maxBytes then text
  else upTo text (budgetFrom maxBytes 0 (graphemes text))

/-- `set`. -/
def set (e : Editor) (text : List Char) : Editor :=
  let sanitized := sanitizeAndNormalize text
  let bounded :=
    if maxBufferBytes < byteLength sanitized then truncateToGraphemeBudget sanitized maxBufferBytes
    else sanitized
  { clampCursor { e with text := bounded, cursor := byteLength bounded } with
    historyIndex := none }

/-- `insert`. -/
def insert (e : Editor) (input : List Char) : Editor × Bool :=
  if input.isEmpty then (e, false)
  else
    let sanitized := sanitizeAndNormalize input
    if sanitized.isEmpty then (e, false)
    else if maxBufferBytes < byteLength e.text + byteLength sanitized then (e, false)
    else
      let e := e.clampCursor
      let e := clampCursorForward { e with
        text := upTo e.text e.cursor ++ sanitized ++ after e.text e.cursor
        cursor := e.cursor + byteLength sanitized }
      ({ e with historyIndex := none }, true)

/-- `move_grapheme_backward`. -/
def moveGraphemeBackward (e : Editor) : Editor × Bool :=
  let e := e.clampCursor
  if e.cursor = 0 then (e, false)
  else ({ e with cursor := previousFrom e.cursor 0 0 (graphemes e.text) }, true)

/-- `move_grapheme_forward`. -/
def moveGraphemeForward (e : Editor) : Editor × Bool :=
  let e := e.clampCursor
  if byteLength e.text ≤ e.cursor then (e, false)
  else ({ e with cursor := nextFrom e.cursor 0 (graphemes e.text) }, true)

/-- `move_word_backward`. -/
def moveWordBackward (e : Editor) : Editor × Bool :=
  let e := e.clampCursor
  if e.cursor = 0 then (e, false)
  else
    let target := wordStart false (upTo e.text e.cursor).reverse
    if e.cursor ≠ target then (clampCursor { e with cursor := target }, true) else (e, false)

/-- `move_word_forward`. -/
def moveWordForward (e : Editor) : Editor × Bool :=
  let e := e.clampCursor
  if byteLength e.text ≤ e.cursor then (e, false)
  else
    let target := e.cursor + wordEnd false (after e.text e.cursor)
    if e.cursor ≠ target then (clampCursor { e with cursor := target }, true) else (e, false)

/-- `move_to_line_start`. -/
def moveToLineStart (e : Editor) : Editor × Bool :=
  let e := e.clampCursor
  let newCursor := lineStart (upTo e.text e.cursor)
  if e.cursor ≠ newCursor then ({ e with cursor := newCursor }, true) else (e, false)

/-- `move_to_line_end`. -/
def moveToLineEnd (e : Editor) : Editor × Bool :=
  let e := e.clampCursor
  let newCursor :=
    ((findNewline (after e.text e.cursor)).map (e.cursor + ·)).getD (byteLength e.text)
  if e.cursor ≠ newCursor then ({ e with cursor := newCursor }, true) else (e, false)

/-- `delete_grapheme_backward`. -/
def deleteGraphemeBackward (e : Editor) : Editor × Bool :=
  let e := e.clampCursor
  if e.cursor = 0 then (e, false)
  else
    let previous := previousFrom e.cursor 0 0 (graphemes e.text)
    ({ e with text := e.drained previous e.cursor, cursor := previous, historyIndex := none }, true)

/-- `delete_grapheme_forward`. -/
def deleteGraphemeForward (e : Editor) : Editor × Bool :=
  let e := e.clampCursor
  if byteLength e.text ≤ e.cursor then (e, false)
  else
    let size := ((graphemes (after e.text e.cursor)).head?.map byteLength).getD 0
    if 0 < size then
      ({ e with text := e.drained e.cursor (e.cursor + size), historyIndex := none }, true)
    else (e, false)

/-- `kill_to_line_start`. -/
def killToLineStart (e : Editor) : Editor × Bool :=
  let e := e.clampCursor
  let start := lineStart (upTo e.text e.cursor)
  if start < e.cursor then
    ({ e with text := e.drained start e.cursor, cursor := start, historyIndex := none }, true)
  else if 0 < start ∧ e.cursor = start then
    ({ e with text := e.drained (start - 1) start, cursor := start - 1,
              historyIndex := none }, true)
  else (e, false)

/-- `kill_to_line_end`. -/
def killToLineEnd (e : Editor) : Editor × Bool :=
  let e := e.clampCursor
  if byteLength e.text ≤ e.cursor then (e, false)
  else
    let rest := after e.text e.cursor
    let size := (findNewline rest).getD (byteLength rest)
    if 0 < size then
      ({ e with text := e.drained e.cursor (e.cursor + size), historyIndex := none }, true)
    else ({ e with text := e.drained e.cursor (e.cursor + 1), historyIndex := none }, true)

/-- `delete_word_backward`. -/
def deleteWordBackward (e : Editor) : Editor × Bool :=
  let e := e.clampCursor
  if e.cursor = 0 then (e, false)
  else
    let target := wordStart false (upTo e.text e.cursor).reverse
    if target < e.cursor then
      ({ e with text := e.drained target e.cursor, cursor := target, historyIndex := none }, true)
    else (e, false)

/-- The recall of an entry of the history. -/
def «recall» (e : Editor) (index : Nat) : Editor :=
  let text := (e.history[index]?).getD []
  { e with historyIndex := some index, text, cursor := byteLength text }

/-- The text between two positions. -/
def between (e : Editor) (first last : Nat) : List Char :=
  after (upTo e.text last) first

/-- `handle_up`. -/
def handleUp (e : Editor) : Editor × Bool :=
  let e := e.clampCursor
  match rfindNewline (upTo e.text e.cursor) with
  | some previous =>
    let column := (graphemes (e.between (previous + 1) e.cursor)).length
    let start := lineStart (upTo e.text previous)
    ({ e with cursor := columnFrom column start (graphemes (e.between start previous)) }, true)
  | none =>
    if e.history.isEmpty then (e, false)
    else match e.historyIndex with
    | none => ({ e with draft := e.text }.«recall» (e.history.length - 1), true)
    | some index => if 0 < index then (e.recall (index - 1), true) else (e, false)

/-- `handle_down`. -/
def handleDown (e : Editor) : Editor × Bool :=
  let e := e.clampCursor
  match findNewline (after e.text e.cursor) with
  | some offset =>
    let next := e.cursor + offset + 1
    let start := lineStart (upTo e.text e.cursor)
    let column := (graphemes (e.between start e.cursor)).length
    let last := ((findNewline (after e.text next)).map (next + ·)).getD (byteLength e.text)
    ({ e with cursor := columnFrom column next (graphemes (e.between next last)) }, true)
  | none =>
    match e.historyIndex with
    | some index =>
      if index + 1 < e.history.length then (e.recall (index + 1), true)
      else
        ({ e with historyIndex := none, text := e.draft, draft := [],
                  cursor := byteLength e.draft }, true)
    | none => (e, false)

/-- `handle_key`. -/
def handleKey (e : Editor) (key : KeyEvent) : Editor × Bool :=
  match key.code with
  | .esc => (e, false)
  | .enter => if key.shift then e.insert ['\n'] else (e, false)
  | .char c =>
    if c = 'j' ∧ key.control then e.insert ['\n']
    else if c = 'a' ∧ key.control then e.moveToLineStart
    else if c = 'e' ∧ key.control then e.moveToLineEnd
    else if c = 'k' ∧ key.control then e.killToLineEnd
    else if c = 'u' ∧ key.control then e.killToLineStart
    else if c = 'w' ∧ key.control then e.deleteWordBackward
    else if ¬ key.control ∨ key.alt then e.insert [c]
    else (e, false)
  | .left => if key.control ∨ key.alt then e.moveWordBackward else e.moveGraphemeBackward
  | .right => if key.control ∨ key.alt then e.moveWordForward else e.moveGraphemeForward
  | .home => e.moveToLineStart
  | .end => e.moveToLineEnd
  | .backspace => e.deleteGraphemeBackward
  | .delete => e.deleteGraphemeForward
  | .up => e.handleUp
  | .down => e.handleDown
  | .tab | .backTab | .pageUp | .pageDown => (e, false)

/-! ## What is shown -/

/-- The loop of `visual_lines` over the clusters of a logical line. -/
def wrapFrom (width : Nat) (line : List Char) (lineWidth : Nat) :
    List (List Char) → List (List Char) × List Char × Nat
  | [] => ([], line, lineWidth)
  | g :: gs =>
    let gw := Segmentation.width g
    if width < lineWidth + gw ∧ 0 < lineWidth then
      let (lines, last) := wrapFrom width g gw gs
      (line :: lines, last)
    else wrapFrom width (line ++ g) (lineWidth + gw) gs

/-- The loop of `visual_lines` over the logical lines. -/
def visualLinesFrom (width : Nat) : List (List Char) → List (List Char)
  | [] => []
  | logical :: rest =>
    if logical.isEmpty then [] :: visualLinesFrom width rest
    else
      let (lines, last, lastWidth) := wrapFrom width [] 0 (graphemes logical)
      let autowrap := if rest.isEmpty ∧ lastWidth = width then [[]] else []
      lines ++ last :: (autowrap ++ visualLinesFrom width rest)

/-- `visual_lines`. -/
def visualLines (e : Editor) (width : UInt16) : List (List Char) :=
  let width := max width.toNat 1
  if e.text.isEmpty then [[]] else visualLinesFrom width (e.text.splitOn '\n')

/-- The local variables of `visual_cursor`. -/
structure Walk where
  byte : Nat
  row : Nat
  col : Nat
  lineWidth : Nat

/-- The loop of `visual_cursor` over the clusters of a logical line. -/
def walkLine (width target : Nat) (w : Walk) : List (List Char) → (Nat × Nat) ⊕ Walk
  | [] => .inr w
  | g :: gs =>
    let gw := Segmentation.width g
    let w :=
      if width < w.lineWidth + gw ∧ 0 < w.lineWidth then
        { w with row := w.row + 1, col := 0, lineWidth := 0 }
      else w
    if w.byte = target then .inl (w.col, w.row)
    else
      walkLine width target { w with
        col := w.col + gw
        lineWidth := w.lineWidth + gw
        byte := w.byte + byteLength g } gs

/-- The position at the end of what was walked. -/
def Walk.here (width : Nat) (w : Walk) : Nat × Nat :=
  if width ≤ w.col then (0, w.row + 1) else (w.col, w.row)

/-- The loop of `visual_cursor` over the logical lines. -/
def walkLines (width target : Nat) (w : Walk) : List (List Char) → Nat × Nat
  | [] => w.here width
  | logical :: rest =>
    if w.byte = target then w.here width
    else
      match walkLine width target { w with lineWidth := 0 } (graphemes logical) with
      | .inl position => position
      | .inr w =>
        if w.byte = target then w.here width
        else if rest.isEmpty then walkLines width target w rest
        else
          let w := { w with byte := w.byte + 1, row := w.row + 1, col := 0 }
          if w.byte = target then (w.col, w.row) else walkLines width target w rest

/-- The casts to `u16`. -/
def narrow (position : Nat × Nat) : Nat × Nat :=
  (position.1 % 2 ^ 16, position.2 % 2 ^ 16)

/-- `visual_cursor`: the column and the row. -/
def visualCursor (e : Editor) (width : UInt16) : Nat × Nat :=
  let width := max width.toNat 1
  let target := min e.cursor (byteLength e.text)
  narrow (walkLines width target ⟨0, 0, 0, 0⟩ (e.text.splitOn '\n'))

end Editor

end Omp2.Cli
