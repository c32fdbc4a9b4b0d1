import Mathlib.Data.List.Basic

/-!
# Import statements of Python

How Python divides a source text into tokens, and which modules the import statements of the tokens
name. `import` is a keyword, so that it stands nowhere but in an import statement. A formatted
string is read as one literal, as Python reads it up to version 3.11.
-/

namespace Omp2.Python

/-- The normal form of identifiers, whose tables are not part of this development. -/
class Identifiers where
  /-- The form that Python compares names in. -/
  nfkc : List Char → List Char
  /-- Names of ASCII characters are their own normal form. -/
  nfkc_ascii : ∀ name : List Char, (∀ c ∈ name, c.toNat < 128) → nfkc name = name

/-- Only names of ASCII characters. -/
scoped instance asciiNames : Identifiers where
  nfkc name := name
  nfkc_ascii _ _ := rfl

/-! ## Tokens -/

/-- A token of a source text. -/
inductive Token where
  | name (text : List Char)
  | literal
  | punct (c : Char)
  | newline
deriving DecidableEq

/-- What the reader stands in: between two tokens, in one, or behind a backslash. -/
inductive Mode where
  | bare
  | name (reversed : List Char)
  | number
  | comment
  | backslash
  | opening (quote : Char) (twice : Bool)
  | text (quote : Char) (triple : Bool) (seen : Nat)
  | escaped (quote : Char) (triple : Bool)
deriving DecidableEq

/-- The mode, and the number of open brackets. -/
structure Reader where
  mode : Mode
  depth : Nat
deriving DecidableEq

/-- The reader before a text. -/
def Reader.start : Reader :=
  ⟨.bare, 0⟩

/-- The character begins a name. -/
def beginsName (c : Char) : Bool :=
  c.isAlpha || c = '_' || 128 ≤ c.toNat

/-- The character continues a name. -/
def continuesName (c : Char) : Bool :=
  beginsName c || c.isDigit

/-- A character between two tokens. -/
def bareStep (depth : Nat) (c : Char) : Reader × List Token :=
  if c = ' ' ∨ c = '\t' ∨ c = '\x0c' then (⟨.bare, depth⟩, [])
  else if c = '\n' then (⟨.bare, depth⟩, if depth = 0 then [.newline] else [])
  else if c = '#' then (⟨.comment, depth⟩, [])
  else if c = '\\' then (⟨.backslash, depth⟩, [])
  else if c = '"' ∨ c = '\'' then (⟨.opening c false, depth⟩, [])
  else if c.isDigit then (⟨.number, depth⟩, [])
  else if beginsName c then (⟨.name [c], depth⟩, [])
  else if c ∈ ['(', '[', '\x7b'] then (⟨.bare, depth + 1⟩, [.punct c])
  else if c ∈ [')', ']', '\x7d'] then (⟨.bare, depth - 1⟩, [.punct c])
  else (⟨.bare, depth⟩, [.punct c])

/-- A character of a string. -/
def textStep (depth : Nat) (quote : Char) (triple : Bool) (seen : Nat) (c : Char) :
    Reader × List Token :=
  if c = '\\' then (⟨.escaped quote triple, depth⟩, [])
  else if c = quote then
    if triple ∧ seen < 2 then (⟨.text quote triple (seen + 1), depth⟩, [])
    else (⟨.bare, depth⟩, [.literal])
  else if c = '\n' ∧ ¬ triple then
    -- such a string is an error of the source
    let (reader, tokens) := bareStep depth c
    (reader, .literal :: tokens)
  else (⟨.text quote triple 0, depth⟩, [])

/-- Put the token that has ended before those that a character gives. -/
def after (token : Token) (next : Reader × List Token) : Reader × List Token :=
  (next.1, token :: next.2)

/-- One character, with the tokens that end there. -/
def step (r : Reader) (c : Char) : Reader × List Token :=
  match r.mode with
  | .bare => bareStep r.depth c
  | .name reversed =>
    if continuesName c then (⟨.name (c :: reversed), r.depth⟩, [])
    else after (.name reversed.reverse) (bareStep r.depth c)
  | .number =>
    if continuesName c || c = '.' then (r, []) else after .literal (bareStep r.depth c)
  | .comment => if c = '\n' then bareStep r.depth c else (r, [])
  | .backslash =>
    if c = '\n' then (⟨.bare, r.depth⟩, []) else after (.punct '\\') (bareStep r.depth c)
  | .opening quote false =>
    if c = quote then (⟨.opening quote true, r.depth⟩, []) else textStep r.depth quote false 0 c
  | .opening quote true =>
    if c = quote then (⟨.text quote true 0, r.depth⟩, [])
    else after .literal (bareStep r.depth c)
  | .text quote triple seen => textStep r.depth quote triple seen c
  | .escaped quote triple => (⟨.text quote triple 0, r.depth⟩, [])

/-- The token that ends with the text. -/
def finish (r : Reader) : List Token :=
  match r.mode with
  | .bare | .comment => []
  | .name reversed => [.name reversed.reverse]
  | .backslash => [.punct '\\']
  | .number | .opening .. | .text .. | .escaped .. => [.literal]

/-- The tokens of a text behind a reader. -/
def tokensFrom : Reader → List Char → List Token
  | r, [] => finish r
  | r, c :: cs =>
    let (reader, tokens) := step r c
    tokens ++ tokensFrom reader cs

/-- Every end of a line is a line feed. -/
def universal : List Char → List Char
  | [] => []
  | '\r' :: '\n' :: cs => '\n' :: universal cs
  | c :: cs => (if c = '\r' then '\n' else c) :: universal cs

/-- The tokens of a source text. -/
def tokens (source : List Char) : List Token :=
  tokensFrom .start (universal source)

/-! ## Import statements -/

/-- The keywords of an import statement. -/
def importKeyword : Token :=
  .name "import".toList

def fromKeyword : Token :=
  .name "from".toList

/-- The simple statements, each behind the header of the block that it may stand in. -/
def statements (tokens : List Token) : List (List Token) :=
  tokens.splitOnP fun token => token = .newline || token = .punct ';'

/-- The tokens behind the last `from`. -/
def clause : List Token → Option (List Token)
  | [] => none
  | token :: rest =>
    match clause rest with
    | some path => some path
    | none => if token = fromKeyword then some rest else none

/-- The token stands in the path of a module. -/
def isPath : Token → Bool
  | .name _ => true
  | .punct c => c = '.'
  | _ => false

/-- The first name of a path, which begins with a point in the package of the source. -/
def firstName : List Token → Option (List Char)
  | .name text :: _ => some text
  | _ => none

/-- The top-level modules that a statement imports. -/
def statementModules (statement : List Token) : List (List Char) :=
  match statement.dropWhile (· ≠ importKeyword) with
  | [] => []
  | _ :: listed =>
    match (clause (statement.takeWhile (· ≠ importKeyword))).filter (·.all isPath) with
    | some path => (firstName path).toList
    | none => (listed.splitOn (.punct ',')).filterMap firstName

/-- The top-level modules that the import statements of a source name. -/
def importedModules [Identifiers] (source : List Char) : List (List Char) :=
  ((statements (tokens source)).flatMap statementModules).map Identifiers.nfkc

example : importedModules
    "if x: import os.path as p, sys # y\ns = '#'; from a.b import (c,\n d)".toList =
      ["os".toList, "sys".toList, "a".toList] := by
  decide +kernel

end Omp2.Python
