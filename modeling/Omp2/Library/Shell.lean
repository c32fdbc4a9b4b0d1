import Mathlib.Data.List.Basic

/-!
# Command lines

How the POSIX shell divides a text into tokens, and how a program reads the options among its
arguments. The tokens of a text are read character by character. Here-documents and the expansions
`$(`, `${`, `$'` and those with a grave accent are not read: a text that has one has no tokens here.
-/

namespace Omp2.Shell

open List

/-! ## Tokens -/

/-- A part of a word: a character that no quote protects, one that a quote protects, or a
parameter, which stands in double quotes or not. -/
inductive Piece where
  | bare (c : Char)
  | quoted (c : Char)
  | parameter (name : List Char) (double : Bool)
deriving DecidableEq

/-- A token of a text. -/
inductive Token where
  | word (pieces : List Piece)
  | ioNumber (digits : List Piece)
  | operator (text : List Char)
deriving DecidableEq

/-- What the reader stands in. -/
inductive Mode where
  | bare
  | single
  | double
  | escaped (double : Bool)
  | dollar (double : Bool)
  | name (double : Bool) (name : List Char)
  | operator (text : List Char)
  | comment
deriving DecidableEq

/-- The mode, and the word that has begun. -/
structure Reader where
  mode : Mode
  word : Option (List Piece)
deriving DecidableEq

/-- The reader before a text. -/
def Reader.start : Reader :=
  ⟨.bare, none⟩

/-- The mode inside of double quotes or outside of quotes. -/
def Mode.around (double : Bool) : Mode :=
  if double then .double else .bare

/-- A word that goes on with more pieces, in another mode. -/
def Reader.extend (r : Reader) (pieces : List Piece) (mode : Mode) : Reader :=
  ⟨mode, some (r.word.getD [] ++ pieces)⟩

/-- The word that ends. -/
def Reader.ended (r : Reader) : List Token :=
  match r.word with
  | none => []
  | some pieces => [.word pieces]

/-- Unquoted digits. -/
def allDigits (pieces : List Piece) : Bool :=
  !pieces.isEmpty && pieces.all fun
    | .bare c => c.isDigit
    | _ => false

/-- The word that ends before an operator: digits before a redirection are a number of a file. -/
def Reader.endedBefore (r : Reader) (c : Char) : List Token :=
  match r.word with
  | none => []
  | some pieces =>
    if (c = '<' ∨ c = '>') ∧ allDigits pieces then [.ioNumber pieces] else [.word pieces]

/-- The operators, besides the end of a line. -/
def operators : List (List Char) :=
  ["&", "&&", "(", ")", ";", ";;", "|", "||", "<", "<<", "<&", "<<-", "<>", ">", ">>", ">&",
    ">|"].map String.toList

/-- A character outside of quotes, with the tokens that end there. -/
def bareStep (r : Reader) (c : Char) : Option (Reader × List Token) :=
  if c = '\\' then some (⟨.escaped false, r.word⟩, [])
  else if c = '\'' then some (r.extend [] .single, [])
  else if c = '"' then some (r.extend [] .double, [])
  else if c = '$' then some (⟨.dollar false, r.word⟩, [])
  else if c = '\x60' then none
  else if c = '\n' then some (.start, r.ended ++ [.operator [c]])
  else if c = ' ' ∨ c = '\t' then some (.start, r.ended)
  else if [c] ∈ operators then some (⟨.operator [c], none⟩, r.endedBefore c)
  else if c = '#' ∧ r.word = none then some (⟨.comment, none⟩, [])
  else some (r.extend [.bare c] .bare, [])

/-- A character in double quotes. -/
def doubleStep (r : Reader) (c : Char) : Option (Reader × List Token) :=
  if c = '"' then some (r.extend [] .bare, [])
  else if c = '\\' then some (⟨.escaped true, r.word⟩, [])
  else if c = '$' then some (⟨.dollar true, r.word⟩, [])
  else if c = '\x60' then none
  else some (r.extend [.quoted c] .double, [])

/-- A character in double quotes or outside of quotes. -/
def aroundStep (double : Bool) (r : Reader) (c : Char) : Option (Reader × List Token) :=
  if double then doubleStep r c else bareStep r c

/-- The character begins the name of a parameter. -/
def beginsName (c : Char) : Bool :=
  c.isAlpha || c = '_'

/-- The character is the name of a parameter. -/
def isSpecial (c : Char) : Bool :=
  c.isDigit || c ∈ ['@', '*', '#', '?', '-', '$', '!']

/-- One character, with the tokens that end there. -/
def step (r : Reader) (c : Char) : Option (Reader × List Token) :=
  match r.mode with
  | .bare => bareStep r c
  | .single =>
    if c = '\'' then some (r.extend [] .bare, []) else some (r.extend [.quoted c] .single, [])
  | .double => doubleStep r c
  | .escaped double =>
    if c = '\n' then some (⟨.around double, r.word⟩, [])
    else if double && c ∉ ['$', '\x60', '"', '\\'] then
      some (r.extend [.quoted '\\', .quoted c] .double, [])
    else some (r.extend [.quoted c] (.around double), [])
  | .dollar double =>
    if beginsName c then some (⟨.name double [c], r.word⟩, [])
    else if isSpecial c then some (r.extend [.parameter [c] double] (.around double), [])
    else if c = '(' ∨ c = '\x7b' ∨ (c = '\'' ∧ !double) then none
    else aroundStep double (r.extend [if double then .quoted '$' else .bare '$'] .bare) c
  | .name double name =>
    if beginsName c || c.isDigit then some (⟨.name double (name ++ [c]), r.word⟩, [])
    else aroundStep double (r.extend [.parameter name double] .bare) c
  | .operator text =>
    if text ++ [c] ∈ operators then some (⟨.operator (text ++ [c]), none⟩, [])
    else if text = ['<', '<'] ∨ text = ['<', '<', '-'] then none
    else (bareStep .start c).map fun next => (next.1, .operator text :: next.2)
  | .comment => if c = '\n' then some (.start, [.operator [c]]) else some (r, [])

/-- The tokens that the end of the text ends. -/
def finish (r : Reader) : Option (List Token) :=
  match r.mode with
  | .bare => some r.ended
  | .dollar false => some (r.extend [.bare '$'] .bare).ended
  | .name false name => some (r.extend [.parameter name false] .bare).ended
  | .operator text =>
    if text = ['<', '<'] ∨ text = ['<', '<', '-'] then none else some [.operator text]
  | .comment => some []
  | _ => none

/-- The tokens of a text from a reader on. -/
def tokensFrom : Reader → List Char → Option (List Token)
  | r, [] => finish r
  | r, c :: cs =>
    match step r c with
    | none => none
    | some (next, tokens) => (tokensFrom next cs).map (tokens ++ ·)

/-- The tokens of a text. -/
def tokens (text : List Char) : Option (List Token) :=
  tokensFrom .start text

/-- The reader after some characters, with the tokens that have ended there. -/
def walk : Reader → List Char → Option (Reader × List Token)
  | r, [] => some (r, [])
  | r, c :: cs =>
    match step r c with
    | none => none
    | some (next, tokens) => (walk next cs).map fun last => (last.1, tokens ++ last.2)

/-- The tokens of a text are those of its first part, then those of the rest. -/
theorem tokensFrom_append {r last : Reader} {front : List Char} {ended : List Token}
    (h : walk r front = some (last, ended)) (rest : List Char) :
    tokensFrom r (front ++ rest) = (tokensFrom last rest).map (ended ++ ·) := by
  induction front generalizing r ended with
  | nil =>
      cases h
      rw [nil_append]
      cases tokensFrom last rest with
      | none => rfl
      | some tokens => rfl
  | cons c front ih =>
      unfold walk at h
      rw [cons_append]
      conv => lhs; unfold tokensFrom
      cases hstep : step r c with
      | none =>
        rw [hstep] at h
        cases h
      | some next =>
        rw [hstep] at h
        obtain ⟨found, hwalk, heq⟩ := Option.map_eq_some_iff.mp h
        cases heq
        dsimp only
        rw [ih hwalk, Option.map_map]
        congr 1
        funext tokens
        exact (append_assoc _ _ _).symm

/-- A walk over two texts, one after the other. -/
theorem walk_append {r middle last : Reader} {front rest : List Char} {ended more : List Token}
    (h : walk r front = some (middle, ended)) (hrest : walk middle rest = some (last, more)) :
    walk r (front ++ rest) = some (last, ended ++ more) := by
  induction front generalizing r ended with
  | nil =>
      cases h
      exact hrest
  | cons c front ih =>
      unfold walk at h
      rw [cons_append]
      unfold walk
      cases hstep : step r c with
      | none =>
        rw [hstep] at h
        cases h
      | some next =>
        rw [hstep] at h
        obtain ⟨found, hwalk, heq⟩ := Option.map_eq_some_iff.mp h
        cases heq
        dsimp only
        rw [ih hwalk, Option.map_some, append_assoc]

/-! ## Single quotes -/

/-- The text in single quotes, where a single quote is written outside of them. -/
def singleQuoted (text : List Char) : List Char :=
  '\'' :: text.flatMap (fun c => if c = '\'' then ['\'', '\\', '\'', '\''] else [c]) ++ ['\'']

/-- Inside of single quotes each character of the text goes into the word. -/
theorem walk_quoting (pieces : List Piece) (text : List Char) :
    walk ⟨.single, some pieces⟩
        (text.flatMap fun c => if c = '\'' then ['\'', '\\', '\'', '\''] else [c]) =
      some (⟨.single, some (pieces ++ text.map .quoted)⟩, []) := by
  induction text generalizing pieces with
  | nil => rw [flatMap_nil, map_nil, append_nil, walk]
  | cons c text ih =>
      rw [flatMap_cons, map_cons]
      have hone : walk ⟨.single, some pieces⟩
          (if c = '\'' then ['\'', '\\', '\'', '\''] else [c]) =
          some (⟨.single, some (pieces ++ [.quoted c])⟩, []) := by
        split
        · next hquote =>
          -- the quote is closed, the character is escaped, and the quote is opened again
          subst hquote
          simp [walk, step, bareStep, Reader.extend, Mode.around]
        · next hquote => simp [walk, step, Reader.extend, hquote]
      have hrest := walk_append hone (ih (pieces ++ [.quoted c]))
      rw [append_assoc, singleton_append] at hrest
      exact hrest

/-- A text in single quotes extends the word with its characters, all of them quoted. -/
theorem walk_singleQuoted (word : Option (List Piece)) (text : List Char) :
    walk ⟨.bare, word⟩ (singleQuoted text) =
      some (⟨.bare, some (word.getD [] ++ text.map .quoted)⟩, []) := by
  have hopen : walk ⟨.bare, word⟩ ['\''] = some (⟨.single, some (word.getD [])⟩, []) := by
    simp [walk, step, bareStep, Reader.extend]
  have hclose : walk ⟨.single, some (word.getD [] ++ text.map .quoted)⟩ ['\''] =
      some (⟨.bare, some (word.getD [] ++ text.map .quoted)⟩, []) := by
    simp [walk, step, Reader.extend]
  exact walk_append (walk_append hopen (walk_quoting _ text)) hclose

theorem tokens_singleQuoted (text : List Char) :
    tokens (singleQuoted text) = some [.word (text.map .quoted)] := by
  have h := tokensFrom_append (walk_singleQuoted none text) []
  rw [append_nil] at h
  exact h

/-- A text in single quotes in the middle of a word leaves every other token as it is. -/
theorem tokens_embedded {front back : List Char} {pieces : List Piece} {before after : List Token}
    (hfront : walk .start front = some (⟨.bare, some pieces⟩, before))
    (hback : ∀ more, tokensFrom ⟨.bare, some more⟩ back = some (.word more :: after))
    (text : List Char) :
    tokens (front ++ singleQuoted text ++ back) =
      some (before ++ .word (pieces ++ text.map .quoted) :: after) := by
  have hwalk := walk_append hfront (walk_singleQuoted (some pieces) text)
  rw [append_nil] at hwalk
  unfold tokens
  rw [tokensFrom_append hwalk, Option.getD_some, hback, Option.map_some]

/-- The characters of a word after its quotes are removed, if it has no parameter. -/
def literal : List Piece → Option (List Char)
  | [] => some []
  | .bare c :: pieces | .quoted c :: pieces => (literal pieces).map (c :: ·)
  | .parameter _ _ :: _ => none

theorem literal_quoted (text : List Char) : literal (text.map .quoted) = some text := by
  induction text with
  | nil => rfl
  | cons c text ih => rw [map_cons, literal, ih, Option.map_some]

/-! ## Options -/

/-- An option letter, with its argument if it takes one. -/
abbrev Opt := Char × Option (List Char)

/-- The options in one argument after the hyphen, and the arguments after it. A letter that takes
an argument takes the rest of this one or else the next one. -/
def cluster (takes : Char → Bool) : List Char → List (List Char) → List Opt × List (List Char)
  | [], rest => ([], rest)
  | c :: cs, rest =>
    if takes c then
      match cs, rest with
      | [], [] => ([(c, none)], [])
      | [], value :: rest => ([(c, some value)], rest)
      | cs, rest => ([(c, some cs)], rest)
    else ((c, none) :: (cluster takes cs rest).1, (cluster takes cs rest).2)

/-- The options that begin a list of at most so many arguments, and the operands. -/
def optionsFrom (takes : Char → Bool) : Nat → List (List Char) → List Opt × List (List Char)
  | 0, args => ([], args)
  | _, [] => ([], [])
  | room + 1, arg :: args =>
    match arg with
    | ['-', '-'] => ([], args)
    | '-' :: c :: cs =>
      let (found, rest) := cluster takes (c :: cs) args
      let (more, operands) := optionsFrom takes room rest
      (found ++ more, operands)
    | operand => ([], operand :: args)

/-- The options that begin some arguments, and the operands. -/
def options (takes : Char → Bool) (args : List (List Char)) : List Opt × List (List Char) :=
  optionsFrom takes args.length args

theorem optionsFrom_operand (takes : Char → Bool) {arg : List Char} (h : arg.head? ≠ some '-')
    (room : Nat) (args : List (List Char)) :
    optionsFrom takes (room + 1) (arg :: args) = ([], arg :: args) := by
  cases arg with
  | nil => rfl
  | cons c cs =>
      have hne : c ≠ '-' := fun hc => h (congrArg some hc)
      simp [optionsFrom, hne]

theorem options_operand (takes : Char → Bool) {arg : List Char} (h : arg.head? ≠ some '-')
    (args : List (List Char)) : options takes (arg :: args) = ([], arg :: args) :=
  optionsFrom_operand takes h args.length args

/-- The options that attach their arguments are read one by one. -/
theorem options_attached {takes : Char → Bool} {letter : Char} (htakes : takes letter = true)
    (hletter : letter ≠ '-') (values : List (List Char)) (hvalues : ∀ v ∈ values, v ≠ [])
    (args : List (List Char)) :
    options takes (values.map (fun v => '-' :: letter :: v) ++ args) =
      (values.map (fun v => (letter, some v)) ++ (options takes args).1,
        (options takes args).2) := by
  induction values with
  | nil => rfl
  | cons value values ih =>
      obtain ⟨hvalue, hrest⟩ := forall_mem_cons.mp hvalues
      obtain ⟨c, cs, rfl⟩ := exists_cons_of_ne_nil hvalue
      have hmore := ih hrest
      unfold options at hmore ⊢
      rw [map_cons, cons_append, length_cons, optionsFrom]
      · simp only [cluster, htakes, if_true, hmore]
        rfl
      · exact fun hhyphen => absurd hhyphen hletter

/-- An option whose argument comes after it, before the operands. -/
theorem options_separate {takes : Char → Bool} {letter : Char} (htakes : takes letter = true)
    (hletter : letter ≠ '-') (value : List Char) {arg : List Char} (h : arg.head? ≠ some '-')
    (args : List (List Char)) :
    options takes (['-', letter] :: value :: arg :: args) =
      ([(letter, some value)], arg :: args) := by
  unfold options
  rw [length_cons, length_cons, length_cons, optionsFrom]
  · simp only [cluster, htakes, if_true, optionsFrom_operand takes h, append_nil]
  · exact fun hhyphen => absurd hhyphen hletter

/-- An option without an argument. -/
theorem options_single {takes : Char → Bool} {letter : Char} (htakes : takes letter = false)
    (hletter : letter ≠ '-') (args : List (List Char)) :
    options takes (['-', letter] :: args) =
      ((letter, none) :: (options takes args).1, (options takes args).2) := by
  unfold options
  rw [length_cons, optionsFrom]
  · simp only [cluster, htakes, Bool.false_eq_true, if_false]
    rfl
  · exact fun hhyphen => absurd hhyphen hletter

end Omp2.Shell
