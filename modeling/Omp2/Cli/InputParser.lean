import Omp2.Cli.Editor
import Omp2.Library.Numerals
import Omp2.Library.Utf8

/-!
# The parser of terminal input

The parser of `omp-cli/src/input.rs` turns the bytes that a terminal sends into key, mouse and paste
events. It keeps what it has not decoded yet, and whether an escape is pending since an earlier
moment. The time that has passed since that moment is part of the input of a call.
-/

namespace Omp2.Cli.Input

open Omp2.Json

/-- `MouseEventKind`, with the kinds that are decoded. -/
inductive MouseEventKind where
  | scrollUp | scrollDown | scrollLeft | scrollRight
deriving DecidableEq

/-- `MouseEvent`. -/
structure MouseEvent where
  kind : MouseEventKind
  column : Nat
  row : Nat
  shift : Bool
  control : Bool
  alt : Bool
deriving DecidableEq

/-- `Event`. -/
inductive Event where
  | key (key : KeyEvent)
  | mouse (mouse : MouseEvent)
  | paste (text : String)
deriving DecidableEq

/-- The escape byte. -/
abbrev esc : UInt8 := 27

/-- What begins a paste: `ESC [ 2 0 0 ~`. -/
def pasteStart : List UInt8 :=
  [esc, 91, 50, 48, 48, 126]

/-- What ends a paste: `ESC [ 2 0 1 ~`. -/
def pasteEnd : List UInt8 :=
  [esc, 91, 50, 48, 49, 126]

/-! ## Sequences -/

/-- A part of a sequence as a number. -/
def parameter (part : List Char) : Nat :=
  (((part.splitOn ':').head?.bind parseUInt32).map UInt32.toNat).getD 1

/-- `char::from_u32`. -/
def charFromU32 (code : Nat) : Option Char :=
  if code.isValidChar then some (Char.ofNat code) else none

/-- The mouse report of a sequence that starts with `ESC [ <`. -/
def decodeMouse (body : List Char) : Option Event :=
  match body.splitOn ';' with
  | [cb, cx, cy] => do
    let cb := (← parseUInt32 cb).toNat
    let cx ← ((parseUInt32 cx).map UInt32.toNat).filter (· < 2 ^ 16)
    let cy ← ((parseUInt32 cy).map UInt32.toNat).filter (· < 2 ^ 16)
    let kind ←
      if cb.testBit 6 then
        match cb % 4 with
        | 0 => some MouseEventKind.scrollUp
        | 1 => some .scrollDown
        | 2 => some .scrollLeft
        | _ => some .scrollRight
      else none
    return .mouse ⟨kind, cx - 1, cy - 1, cb.testBit 2, cb.testBit 4, cb.testBit 3⟩
  | _ => none

/-- The key of a sequence by its last byte and its first parameter. -/
def sequenceCode (last : UInt8) (first : Nat) : Option KeyCode :=
  match last.toNat with
  | 65 => some .up
  | 66 => some .down
  | 67 => some .right
  | 68 => some .left
  | 72 => some .home
  | 70 => some .end
  | 90 => some .backTab
  | 126 =>
    match first with
    | 1 | 7 => some .home
    | 3 => some .delete
    | 4 | 8 => some .end
    | 5 => some .pageUp
    | 6 => some .pageDown
    | _ => none
  | 117 =>
    match first with
    | 13 => some .enter
    | 27 => some .esc
    | 9 => some .tab
    | 127 => some .backspace
    | value => (charFromU32 value).map .char
  | _ => none

/-- `decode_sequence`. -/
def decodeSequence (sequence : List UInt8) : Option Event := do
  let last ← sequence.getLast?
  if sequence.take 3 = [esc, 91, 60] then
    if last ≠ 77 ∧ last ≠ 109 then none
    else decodeMouse (← Utf8.strict (sequence.drop 3).dropLast)
  else
    let body ← Utf8.strict (sequence.drop 2).dropLast
    let params := (body.splitOn ';').map parameter
    let modifier := (params[1]?).getD 1 - 1
    let code ← sequenceCode last ((params.head?).getD 1)
    return .key ⟨code, modifier.testBit 0 || last = 90, modifier.testBit 2, modifier.testBit 1⟩

/-! ## The parser -/

/-- `Parser`. -/
structure Parser where
  pending : List UInt8
  escaped : Bool
  paste : Option (List UInt8)
deriving DecidableEq

/-- A byte that stands for a key on its own. -/
def single (first : UInt8) : Option KeyEvent :=
  if first = 13 then some ⟨.enter, false, false, false⟩
  else if first = 10 then some ⟨.char 'j', false, true, false⟩
  else if first = 9 then some ⟨.tab, false, false, false⟩
  else if first = 8 ∨ first = 127 then some ⟨.backspace, false, false, false⟩
  else if 1 ≤ first ∧ first ≤ 26 then
    some ⟨.char (Char.ofNat (97 + first.toNat - 1)), false, true, false⟩
  else if first = 0 then some ⟨.char ' ', false, true, false⟩
  else none

/-- `is_ascii_alphabetic`. -/
def isAsciiAlphabetic (b : UInt8) : Bool :=
  (65 ≤ b && b ≤ 90) || (97 ≤ b && b ≤ 122)

/-- The byte ends a sequence, given the one after it. -/
def endsSequence (sgr : Bool) (b : UInt8) (next : Option UInt8) : Bool :=
  if sgr then b == 77 || (b == 109 && !next.any isAsciiAlphabetic)
  else 0x40 ≤ b && b ≤ 0x7e

/-- How many bytes the first end of a sequence takes. -/
def endFrom (sgr : Bool) : List UInt8 → Option Nat
  | [] => none
  | b :: rest => if endsSequence sgr b rest.head? then some 1 else (endFrom sgr rest).map (· + 1)

/-- The bytes after `ESC [` or `ESC O` are a mouse report. -/
def isSgr (second : UInt8) (rest : List UInt8) : Bool :=
  second == 91 && rest.head? == some 60

/-- The loop over the bytes of a paste: the paste with what is left, or what it has so far. -/
def scanPaste (body : List UInt8) :
    List UInt8 → (List UInt8 × List UInt8) ⊕ (List UInt8 × List UInt8)
  | [] => .inr (body, [])
  | b :: rest =>
    if (b :: rest).take 6 <+: pasteEnd then
      if (b :: rest).length < 6 then .inr (body, b :: rest)
      else .inl (body, (b :: rest).drop 6)
    else scanPaste (if body.length < 65537 then body ++ [b] else body) rest

/-- `next`, given the fields of the parser and the time since the pending escape. -/
def nextFrom (elapsed : Nat) : Bool → Option (List UInt8) → List UInt8 → Option Event × Parser
  | escaped, some body, pending =>
    match scanPaste body pending with
    | .inl (body, pending) => (some (.paste (Utf8.lossy body)), ⟨pending, escaped, none⟩)
    | .inr (body, pending) => (none, ⟨pending, escaped, some body⟩)
  | escaped, none, [] => (none, ⟨[], escaped, none⟩)
  | escaped, none, first :: rest =>
    if first = esc then
      let age := if escaped then elapsed else 0
      match rest with
      | [] =>
        if age < 35 then (none, ⟨[first], true, none⟩)
        else (some (.key ⟨.esc, false, false, false⟩), ⟨[], false, none⟩)
      | second :: more =>
        if second = 91 ∨ second = 79 then
          match endFrom (isSgr second more) more with
          | none =>
            if 96 < more.length + 2 ∨ 200 < age then (none, ⟨[], false, none⟩)
            else (none, ⟨first :: second :: more, true, none⟩)
          | some size =>
            let sequence := first :: second :: more.take size
            if sequence = pasteStart then nextFrom elapsed false (some []) (more.drop size)
            else
              match decodeSequence sequence with
              | some event => (some event, ⟨more.drop size, false, none⟩)
              | none => nextFrom elapsed false none (more.drop size)
        else
          match nextFrom elapsed false none (second :: more) with
          | (some (.key event), p) => (some (.key { event with alt := true }), p)
          | (_, p) => (none, p)
    else
      match single first with
      | some event => (some (.key event), ⟨rest, false, none⟩)
      | none =>
        if rest.length + 1 < Utf8.size first then (none, ⟨first :: rest, false, none⟩)
        else
          match (Utf8.strict ((first :: rest).take (Utf8.size first))).bind List.head? with
          | some c =>
            (some (.key ⟨.char c, false, false, false⟩),
              ⟨(first :: rest).drop (Utf8.size first), false, none⟩)
          | none => nextFrom elapsed false none rest
termination_by _ _ pending => pending.length

/-- `next`. -/
def next (elapsed : Nat) (p : Parser) : Option Event × Parser :=
  nextFrom elapsed p.escaped p.paste p.pending

/-- `feed`. -/
def feed (p : Parser) (bytes : List UInt8) : Parser :=
  { p with pending := p.pending ++ bytes }

end Omp2.Cli.Input
