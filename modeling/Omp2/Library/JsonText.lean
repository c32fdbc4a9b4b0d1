import Mathlib.Tactic.IntervalCases
import Omp2.Library.Json

/-!
# A serialiser for JSON trees

`print` writes a tree in the compact form and `parseValue` reads the texts that `print`
writes. A float, whose shortest decimal form is not developed here, is written by its bit
pattern after a `~`. `serdeJson` collects the two into a serialiser, so that a
development over an arbitrary one can be run.
-/

namespace Omp2.Json.Compact

open List

/-! ## Writing -/

/-- A character inside a string literal. -/
def escape (c : Char) : List Char :=
  if c = '"' then ['\\', '"']
  else if c = '\\' then ['\\', '\\']
  else if c.toNat = 8 then ['\\', 'b']
  else if c.toNat = 9 then ['\\', 't']
  else if c.toNat = 10 then ['\\', 'n']
  else if c.toNat = 12 then ['\\', 'f']
  else if c.toNat = 13 then ['\\', 'r']
  else if c.toNat < 32 then
    ['\\', 'u', '0', '0', Nat.digitChar (c.toNat / 16), Nat.digitChar (c.toNat % 16)]
  else [c]

/-- The inside of a string literal with its closing quote. -/
def printChars : List Char → List Char
  | [] => ['"']
  | c :: cs => escape c ++ printChars cs

/-- The text of a number. -/
def printNumber : Number → List Char
  | .posInt n => Nat.toDigits 10 n.toNat
  | .negInt n => '-' :: Nat.toDigits 10 (n.val + 1)
  | .float x => '~' :: Nat.toDigits 10 x.value.bits.toNat

mutual
/-- The compact text of a tree. -/
def print : Value → List Char
  | .null => ['n', 'u', 'l', 'l']
  | .bool true => ['t', 'r', 'u', 'e']
  | .bool false => ['f', 'a', 'l', 's', 'e']
  | .number n => printNumber n
  | .string s => '"' :: printChars s.toList
  | .array items => '[' :: printItems [] items
  | .object entries => '{' :: printEntries [] entries

/-- The items of an array with the closing bracket, the first after `separator`. -/
def printItems (separator : List Char) : List Value → List Char
  | [] => [']']
  | item :: rest => separator ++ (print item ++ printItems [','] rest)

/-- The entries of an object with the closing brace, the first after `separator`. -/
def printEntries (separator : List Char) : List (String × Value) → List Char
  | [] => ['}']
  | (key, value) :: rest =>
      separator ++ ('"' :: (printChars key.toList ++
        ':' :: (print value ++ printEntries [','] rest)))
end

/-! ## Reading -/

/-- The value of a hexadecimal digit. -/
def hexValue (c : Char) : Nat :=
  if c.toNat < 58 then c.toNat - 48 else c.toNat - 87

/-- The character that a short escape stands for. -/
def unescape : Char → Option Char
  | '"' => some '"'
  | '\\' => some '\\'
  | 'b' => some (Char.ofNat 8)
  | 't' => some (Char.ofNat 9)
  | 'n' => some (Char.ofNat 10)
  | 'f' => some (Char.ofNat 12)
  | 'r' => some (Char.ofNat 13)
  | _ => none

/-- The inside of a string literal up to its closing quote, and what follows. -/
def parseChars : List Char → Option (List Char × List Char)
  | '"' :: rest => some ([], rest)
  | '\\' :: 'u' :: '0' :: '0' :: high :: low :: rest => do
      let (cs, rest) ← parseChars rest
      some (Char.ofNat (hexValue high * 16 + hexValue low) :: cs, rest)
  | '\\' :: c :: rest => do
      let c ← unescape c
      let (cs, rest) ← parseChars rest
      some (c :: cs, rest)
  | c :: rest => do
      let (cs, rest) ← parseChars rest
      some (c :: cs, rest)
  | [] => none

/-- A run of decimal digits and what follows. -/
def parseDigits (cs : List Char) : Option (Nat × List Char) :=
  match cs.takeWhile Char.isDigit with
  | [] => none
  | digits => some (Nat.ofDigitChars 10 digits 0, cs.dropWhile Char.isDigit)

/-- A number and what follows. -/
def parseNumber : List Char → Option (Number × List Char)
  | '-' :: cs => do
      let (n, rest) ← parseDigits cs
      if h : n - 1 < 2 ^ 63 then some (.negInt ⟨n - 1, h⟩, rest) else none
  | '~' :: cs => do
      let (n, rest) ← parseDigits cs
      if h : F64.isFinite ⟨.ofNat n⟩ = true then some (.float ⟨⟨.ofNat n⟩, h⟩, rest) else none
  | cs => do
      let (n, rest) ← parseDigits cs
      if n < 2 ^ 64 then some (.posInt (.ofNat n), rest) else none

mutual
/-- A tree and what follows. -/
def parseValue : Nat → List Char → Option (Value × List Char)
  | 0, _ => none
  | fuel + 1, cs =>
      match cs with
      | 'n' :: 'u' :: 'l' :: 'l' :: rest => some (.null, rest)
      | 't' :: 'r' :: 'u' :: 'e' :: rest => some (.bool true, rest)
      | 'f' :: 'a' :: 'l' :: 's' :: 'e' :: rest => some (.bool false, rest)
      | '"' :: rest => do
          let (s, rest) ← parseChars rest
          some (.string (String.ofList s), rest)
      | '[' :: ']' :: rest => some (.array [], rest)
      | '[' :: rest => do
          let (items, rest) ← parseItems fuel (',' :: rest)
          some (.array items, rest)
      | '{' :: '}' :: rest => some (.object [], rest)
      | '{' :: rest => do
          let (entries, rest) ← parseEntries fuel (',' :: rest)
          some (.object entries, rest)
      | cs => do
          let (n, rest) ← parseNumber cs
          some (.number n, rest)

/-- The items after a first item up to the closing bracket, and what follows. -/
def parseItems : Nat → List Char → Option (List Value × List Char)
  | 0, _ => none
  | _ + 1, ']' :: rest => some ([], rest)
  | fuel + 1, ',' :: rest => do
      let (item, rest) ← parseValue fuel rest
      let (items, rest) ← parseItems fuel rest
      some (item :: items, rest)
  | _ + 1, _ => none

/-- The entries after a first entry up to the closing brace, and what follows. -/
def parseEntries : Nat → List Char → Option (List (String × Value) × List Char)
  | 0, _ => none
  | _ + 1, '}' :: rest => some ([], rest)
  | fuel + 1, ',' :: '"' :: rest => do
      let (key, rest) ← parseChars rest
      match rest with
      | ':' :: rest => do
          let (value, rest) ← parseValue fuel rest
          let (entries, rest) ← parseEntries fuel rest
          some ((String.ofList key, value) :: entries, rest)
      | _ => none
  | _ + 1, _ => none
end

/-! ## What is written is read back -/

/-- The text does not go on with a digit. -/
def Stops (rest : List Char) : Prop :=
  ∀ c ∈ rest.head?, c.isDigit = false

/-- Reading goes past an escaped character to the rest of the literal. -/
theorem parseChars_escape (c : Char) (cs : List Char) :
    parseChars (escape c ++ cs) = (do
      let (cs, rest) ← parseChars cs
      some (c :: cs, rest)) := by
  by_cases hcontrol : c.toNat < 32
  · rw [← Char.ofNat_toNat c]
    generalize c.toNat = code at hcontrol
    interval_cases code <;> rfl
  · by_cases hquote : c = '"'
    · subst hquote
      rfl
    · by_cases hslash : c = '\\'
      · subst hslash
        rfl
      · have hplain : escape c = [c] := by
          unfold escape
          rw [if_neg hquote, if_neg hslash]
          repeat rw [if_neg (by omega)]
        rw [hplain, singleton_append, parseChars.eq_def]
        grind

theorem parseChars_printChars (cs rest : List Char) :
    parseChars (printChars cs ++ rest) = some (cs, rest) := by
  induction cs with
  | nil => rfl
  | cons c cs ih =>
      rw [printChars, append_assoc, parseChars_escape, ih]
      rfl

/-- The digits of a number are read back up to the first other character. -/
theorem parseDigits_toDigits (n : Nat) (rest : List Char) (hstops : Stops rest) :
    parseDigits (Nat.toDigits 10 n ++ rest) = some (n, rest) := by
  have hdigits : ∀ c ∈ Nat.toDigits 10 n, c.isDigit = true :=
    fun c hc => Nat.isDigit_of_mem_toDigits (by decide) (by decide) hc
  have htake : rest.takeWhile Char.isDigit = [] := by
    cases rest with
    | nil => rfl
    | cons c rest => exact takeWhile_cons_of_neg (by simp [hstops c rfl])
  have hdrop : rest.dropWhile Char.isDigit = rest := by
    cases rest with
    | nil => rfl
    | cons c rest => exact dropWhile_cons_of_neg (by simp [hstops c rfl])
  obtain ⟨d, ds, hcons⟩ := exists_cons_of_ne_nil (Nat.toDigits_ne_nil (n := n) (b := 10))
  rw [parseDigits, takeWhile_append_of_pos hdigits, dropWhile_append_of_pos hdigits,
    htake, hdrop, append_nil, hcons]
  show some (Nat.ofDigitChars 10 (d :: ds) 0, rest) = _
  rw [← hcons, Nat.ofDigitChars_ten_toDigits]

/-- The digits of a number start with a digit. -/
theorem toDigits_cons (n : Nat) :
    ∃ d ds, Nat.toDigits 10 n = d :: ds ∧
      d ∈ ['0', '1', '2', '3', '4', '5', '6', '7', '8', '9'] := by
  obtain ⟨d, ds, hcons⟩ := exists_cons_of_ne_nil (Nat.toDigits_ne_nil (n := n) (b := 10))
  have hdigit : d.isDigit = true :=
    Nat.isDigit_of_mem_toDigits (by decide) (by decide) (hcons ▸ mem_cons_self)
  have hbounds : 48 ≤ d.toNat ∧ d.toNat ≤ 57 := by
    simpa [Char.isDigit, UInt32.le_iff_toNat_le] using hdigit
  refine ⟨d, ds, hcons, ?_⟩
  rw [← Char.ofNat_toNat d]
  generalize d.toNat = code at hbounds
  obtain ⟨hlow, hhigh⟩ := hbounds
  interval_cases code <;> decide

theorem printNumber_cons (n : Number) :
    ∃ c cs, printNumber n = c :: cs ∧ c ∈ ['-', '~', '0', '1', '2', '3', '4', '5', '6', '7',
      '8', '9'] := by
  cases n with
  | posInt n =>
      obtain ⟨d, ds, hcons, hd⟩ := toDigits_cons n.toNat
      exact ⟨d, ds, hcons, mem_cons_of_mem _ (mem_cons_of_mem _ hd)⟩
  | negInt n => exact ⟨'-', _, rfl, by decide⟩
  | float x => exact ⟨'~', _, rfl, by decide⟩

/-- A number is read back up to the first character that is not a digit. -/
theorem parseNumber_printNumber (n : Number) (rest : List Char) (hstops : Stops rest) :
    parseNumber (printNumber n ++ rest) = some (n, rest) := by
  cases n with
  | posInt n =>
      obtain ⟨d, ds, hcons, hd⟩ := toDigits_cons n.toNat
      have hread := parseDigits_toDigits n.toNat rest hstops
      have hunsigned : parseNumber (d :: (ds ++ rest)) = (do
          let (n, rest) ← parseDigits (d :: (ds ++ rest))
          if n < 2 ^ 64 then some (.posInt (.ofNat n), rest) else none) := by
        simp only [mem_cons, not_mem_nil, or_false] at hd
        rcases hd with rfl | rfl | rfl | rfl | rfl | rfl | rfl | rfl | rfl | rfl <;> rfl
      rw [printNumber, hcons, cons_append, hunsigned, ← cons_append, ← hcons, hread]
      simp [n.toNat_lt]
  | negInt n =>
      show (parseDigits (Nat.toDigits 10 (n.val + 1) ++ rest)).bind _ = _
      rw [parseDigits_toDigits _ rest hstops]
      simp
  | float x =>
      show (parseDigits (Nat.toDigits 10 x.value.bits.toNat ++ rest)).bind _ = _
      rw [parseDigits_toDigits _ rest hstops]
      simp [x.finite]

theorem print_cons (value : Value) : ∃ c cs, print value = c :: cs ∧ c ≠ ']' := by
  cases value with
  | number n =>
      obtain ⟨c, cs, hcons, hc⟩ := printNumber_cons n
      refine ⟨c, cs, by rw [print, hcons], fun h => ?_⟩
      subst h
      exact absurd hc (by decide)
  | bool b => cases b <;> exact ⟨_, _, rfl, by decide⟩
  | _ => exact ⟨_, _, rfl, by decide⟩

theorem stops_printItems (items : List Value) (rest : List Char) :
    Stops (printItems [','] items ++ rest) := by
  cases items <;> simp [Stops, printItems]

theorem stops_printEntries (entries : List (String × Value)) (rest : List Char) :
    Stops (printEntries [','] entries ++ rest) := by
  rcases entries with - | ⟨⟨key, value⟩, entries⟩ <;> simp [Stops, printEntries]

theorem printItems_pos (items : List Value) : 0 < (printItems [','] items).length := by
  cases items <;> simp [printItems]

theorem printEntries_pos (entries : List (String × Value)) :
    0 < (printEntries [','] entries).length := by
  rcases entries with - | ⟨⟨key, value⟩, entries⟩ <;> simp [printEntries]

mutual
/-- A tree is read back from its text with more fuel than the text has characters. -/
theorem parseValue_print (value : Value) (rest : List Char) (hstops : Stops rest)
    (fuel : Nat) (hfuel : (print value).length < fuel) :
    parseValue fuel (print value ++ rest) = some (value, rest) := by
  obtain ⟨fuel, rfl⟩ := Nat.exists_eq_add_of_lt (Nat.zero_lt_of_lt hfuel)
  rw [Nat.zero_add] at hfuel ⊢
  match value with
  | .null => rfl
  | .bool true => rfl
  | .bool false => rfl
  | .number n =>
      have hread := parseNumber_printNumber n rest hstops
      obtain ⟨c, cs, hcons, hc⟩ := printNumber_cons n
      have hnumber : parseValue (fuel + 1) (c :: (cs ++ rest)) = (do
          let (n, rest) ← parseNumber (c :: (cs ++ rest))
          some (.number n, rest)) := by
        simp only [mem_cons, not_mem_nil, or_false] at hc
        rcases hc with rfl | rfl | rfl | rfl | rfl | rfl | rfl | rfl | rfl | rfl | rfl | rfl <;>
          rfl
      rw [print, hcons, cons_append, hnumber, ← cons_append, ← hcons, hread]
      rfl
  | .string s =>
      show (parseChars (printChars s.toList ++ rest)).bind _ = _
      rw [parseChars_printChars]
      show some (Value.string (String.ofList s.toList), rest) = _
      rw [String.ofList_toList]
  | .array [] => rfl
  | .array (item :: items) =>
      have hread := parseItems_printItems (item :: items) rest fuel (by
        simp only [print, printItems, length_cons, length_append,
          length_nil] at hfuel ⊢
        omega)
      obtain ⟨c, cs, hcons, hc⟩ := print_cons item
      rw [printItems, hcons] at hread
      have harray : parseValue (fuel + 1) ('[' :: c :: (cs ++ (printItems [','] items ++ rest))) =
          (parseItems fuel (',' :: c :: (cs ++ (printItems [','] items ++ rest)))).bind
            fun (items, rest) => some (.array items, rest) := by
        rw [parseValue]
        all_goals grind
      simp only [cons_append, nil_append, append_assoc] at hread
      simp only [print, printItems, hcons, cons_append, nil_append, append_assoc]
      rw [harray, hread]
      rfl
  | .object [] => rfl
  | .object ((key, value) :: entries) =>
      have hread := parseEntries_printEntries ((key, value) :: entries) rest fuel (by
        simp only [print, printEntries, length_cons, length_append,
          length_nil] at hfuel ⊢
        omega)
      show (parseEntries fuel (printEntries [','] ((key, value) :: entries) ++ rest)).bind _ = _
      rw [hread]
      rfl

/-- The items after a first one are read back up to the closing bracket. -/
theorem parseItems_printItems (items : List Value) (rest : List Char)
    (fuel : Nat) (hfuel : (printItems [','] items).length ≤ fuel) :
    parseItems fuel (printItems [','] items ++ rest) = some (items, rest) := by
  obtain ⟨fuel, rfl⟩ := Nat.exists_eq_add_of_lt (Nat.lt_of_lt_of_le (printItems_pos items) hfuel)
  rw [Nat.zero_add] at hfuel ⊢
  match items with
  | [] => rfl
  | item :: items =>
      have hlater := printItems_pos items
      simp only [printItems, length_append, length_cons, length_nil] at hfuel
      have hitem := parseValue_print item (printItems [','] items ++ rest)
        (stops_printItems items rest) fuel (by omega)
      have hitems := parseItems_printItems items rest fuel (by omega)
      rw [printItems, append_assoc, append_assoc]
      show (parseValue fuel (print item ++ (printItems [','] items ++ rest))).bind _ = _
      rw [hitem]
      show (parseItems fuel (printItems [','] items ++ rest)).bind _ = _
      rw [hitems]
      rfl

/-- The entries after a first one are read back up to the closing brace. -/
theorem parseEntries_printEntries (entries : List (String × Value)) (rest : List Char)
    (fuel : Nat) (hfuel : (printEntries [','] entries).length ≤ fuel) :
    parseEntries fuel (printEntries [','] entries ++ rest) = some (entries, rest) := by
  obtain ⟨fuel, rfl⟩ :=
    Nat.exists_eq_add_of_lt (Nat.lt_of_lt_of_le (printEntries_pos entries) hfuel)
  rw [Nat.zero_add] at hfuel ⊢
  match entries with
  | [] => rfl
  | (key, value) :: entries =>
      have hlater := printEntries_pos entries
      simp only [printEntries, length_append, length_cons, length_nil] at hfuel
      have hvalue := parseValue_print value (printEntries [','] entries ++ rest)
        (stops_printEntries entries rest) fuel (by omega)
      have hentries := parseEntries_printEntries entries rest fuel (by omega)
      have hkey := parseChars_printChars key.toList
        (':' :: (print value ++ (printEntries [','] entries ++ rest)))
      simp only [printEntries, cons_append, nil_append, append_assoc]
      show (parseChars (printChars key.toList ++ _)).bind _ = _
      rw [hkey]
      show (parseValue fuel (print value ++ (printEntries [','] entries ++ rest))).bind _ = _
      rw [hvalue]
      show (parseEntries fuel (printEntries [','] entries ++ rest)).bind _ = _
      rw [hentries]
      show some ((String.ofList key.toList, value) :: entries, rest) = _
      rw [String.ofList_toList]
end

/-! ## The serialiser -/

/-- The bytes of a tree's text. -/
def toVec (value : Value) : List UInt8 :=
  (print value).flatMap String.utf8EncodeChar

theorem length_utf8_le (cs : List Char) :
    (cs.flatMap String.utf8EncodeChar).length ≤ 4 * cs.length := by
  induction cs with
  | nil => exact Nat.le_refl 0
  | cons c cs ih =>
      have hc := c.utf8Size_le_four
      rw [flatMap_cons, length_append, String.length_utf8EncodeChar, length_cons]
      omega

/-- A literal takes at most twenty-four bytes for each character. -/
theorem length_printChars_le (cs : List Char) :
    ((printChars cs).flatMap String.utf8EncodeChar).length ≤ 24 * cs.length + 1 := by
  induction cs with
  | nil => exact Nat.le_refl 1
  | cons c cs ih =>
      have hescape : (escape c).length ≤ 6 := by
        unfold escape
        split_ifs <;> simp
      have hc := length_utf8_le (escape c)
      unfold printChars
      rw [flatMap_append, length_append, length_cons]
      omega

mutual
/-- A bound on the bytes of a tree's text that reads no character. -/
def bytesBound : Value → Nat
  | .null | .bool _ => 5
  | .number n => 4 * (printNumber n).length
  | .string s => 24 * s.length + 2
  | .array items => 1 + itemsBound items
  | .object entries => 1 + entriesBound entries

/-- The bound for the items of an array. -/
def itemsBound : List Value → Nat
  | [] => 1
  | item :: rest => 1 + bytesBound item + itemsBound rest

/-- The bound for the entries of an object. -/
def entriesBound : List (String × Value) → Nat
  | [] => 1
  | (key, value) :: rest => 24 * key.length + 4 + bytesBound value + entriesBound rest
end

mutual
/-- The bytes of a text are at most its bound. -/
theorem length_print_le (value : Value) :
    ((print value).flatMap String.utf8EncodeChar).length ≤ bytesBound value := by
  cases value with
  | null => decide
  | bool b => cases b <;> decide
  | number n => exact length_utf8_le (printNumber n)
  | string s =>
      have htext := length_printChars_le s.toList
      rw [String.length_toList] at htext
      simp only [print, bytesBound, flatMap_cons, length_append]
      have hquote : (String.utf8EncodeChar '"').length = 1 := by decide
      omega
  | array items =>
      have hitems := length_printItems_le [] items (by decide)
      simp only [print, bytesBound, flatMap_cons, length_append]
      have hopen : (String.utf8EncodeChar '[').length = 1 := by decide
      omega
  | object entries =>
      have hentries := length_printEntries_le [] entries (by decide)
      simp only [print, bytesBound, flatMap_cons, length_append]
      have hopen : (String.utf8EncodeChar '{').length = 1 := by decide
      omega

theorem length_printItems_le (separator : List Char) (items : List Value)
    (hseparator : (separator.flatMap String.utf8EncodeChar).length ≤ 1) :
    ((printItems separator items).flatMap String.utf8EncodeChar).length ≤ itemsBound items := by
  cases items with
  | nil =>
      show (String.utf8EncodeChar ']' ++ []).length ≤ 1
      decide
  | cons item rest =>
      have hitem := length_print_le item
      have hrest := length_printItems_le [','] rest (by decide)
      simp only [printItems, itemsBound, flatMap_append, length_append]
      omega

theorem length_printEntries_le (separator : List Char) (entries : List (String × Value))
    (hseparator : (separator.flatMap String.utf8EncodeChar).length ≤ 1) :
    ((printEntries separator entries).flatMap String.utf8EncodeChar).length ≤
      entriesBound entries := by
  cases entries with
  | nil =>
      show (String.utf8EncodeChar '\x7d' ++ []).length ≤ 1
      decide
  | cons entry rest =>
      obtain ⟨key, value⟩ := entry
      have hkey := length_printChars_le key.toList
      have hvalue := length_print_le value
      have hrest := length_printEntries_le [','] rest (by decide)
      have hquote : (String.utf8EncodeChar '"').length = 1 := by decide
      have hcolon : (String.utf8EncodeChar ':').length = 1 := by decide
      rw [String.length_toList] at hkey
      simp only [printEntries, entriesBound, flatMap_append, flatMap_cons,
        length_append]
      omega
end

/-- Read one tree that takes up the whole text and does not nest too deeply. -/
def fromSlice (bytes : List UInt8) : Except String Value :=
  match String.fromUTF8? ⟨bytes.toArray⟩ with
  | none => .error "invalid unicode code point"
  | some text =>
      match parseValue (text.toList.length + 1) text.toList with
      | some (value, []) =>
        if value.depth < recursionLimit then .ok value else .error "recursion limit exceeded"
      | some (_, _ :: _) => .error "trailing characters"
      | none => .error "expected value"

/-- The binary64 number nearest to a natural number, ties to even. -/
def nearestBits (n : Nat) : Nat :=
  if n = 0 then 0
  else
    let exponent := n.log2
    if exponent ≤ 52 then (exponent + 1022) * 2 ^ 52 + n * 2 ^ (52 - exponent)
    else
      let unit := 2 ^ (exponent - 52)
      let quotient := n / unit
      let remainder := n % unit
      let up := unit < 2 * remainder || (2 * remainder = unit && quotient % 2 = 1)
      (exponent + 1022) * 2 ^ 52 + if up then quotient + 1 else quotient

/-- The floating-point number nearest to a JSON number. -/
def asF64 : Number → F64
  | .posInt n => ⟨.ofNat (nearestBits n.toNat)⟩
  | .negInt n => ⟨.ofNat (2 ^ 63 + nearestBits (n.val + 1))⟩
  | .float x => x.value

/-- The text of a tree is read back as UTF-8 and parsed to the tree and its depth check. -/
theorem fromSlice_toVec_eq (value : Value) :
    fromSlice (toVec value) =
      if value.depth < recursionLimit then .ok value
      else .error "recursion limit exceeded" := by
  have hbytes : (⟨(toVec value).toArray⟩ : ByteArray) =
      (String.ofList (print value)).toByteArray := by
    apply ByteArray.ext
    simp [toVec, utf8Encode]
  have htext : String.fromUTF8? (String.ofList (print value)).toByteArray =
      some (String.ofList (print value)) := by
    unfold String.fromUTF8?
    rw [dif_pos (String.ofList (print value)).isValidUTF8]
    rfl
  have hparse := parseValue_print value [] (by simp [Stops])
    ((print value).length + 1) (Nat.lt_succ_self _)
  rw [append_nil] at hparse
  simp only [fromSlice, hbytes, htext, String.toList_ofList, hparse]

/-- The serialiser of compact texts. -/
scoped instance serdeJson : SerdeJson where
  toVec := toVec
  fromSlice := fromSlice
  asF64 := asF64
  fromSlice_toVec value hdepth := by rw [fromSlice_toVec_eq, if_pos hdepth]
  fromSlice_deep value hdepth :=
    ⟨_, by rw [fromSlice_toVec_eq, if_neg (Nat.not_lt.mpr hdepth)]⟩
  asF64_float _ := rfl

end Omp2.Json.Compact
