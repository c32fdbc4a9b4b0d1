import Omp2.Library.Json

/-!
# Numbers written in decimal

`parseInt64` and `parseF64` read a signed 64-bit integer and a binary64 number from a text, the
second one rounded to the nearest number with ties to even. `F64.numEq` and `Value.sameAs` are
the equality of numbers and of JSON trees, in which a number that is not a number differs from
itself and the two zeros are equal. Where a tree has no floating-point number, it is the equality of
the trees.
-/

namespace Omp2.Json

/-! ## Binary64 -/

/-- The magnitude bits of a binary64 number. -/
def F64.magnitude (x : F64) : UInt64 :=
  x.bits &&& 0x7fffffffffffffff

/-- The number is not a number. -/
def F64.isNan (x : F64) : Bool :=
  decide (0x7ff0000000000000 < x.magnitude)

/-- The equality of binary64 numbers. -/
def F64.numEq (x y : F64) : Bool :=
  !x.isNan && !y.isNan && (x.bits == y.bits || (x.magnitude == 0 && y.magnitude == 0))

/-- The position of a number on the line, for numbers that are not NaN. -/
def F64.key (x : F64) : Int :=
  if x.bits = x.magnitude then x.magnitude.toNat else -x.magnitude.toNat

/-- The order of binary64 numbers. -/
def F64.numLe (x y : F64) : Bool :=
  !x.isNan && !y.isNan && decide (x.key ≤ y.key)

/-- The quotient of two natural numbers, rounded to the nearest one with ties to even. -/
def roundQuotient (num den : Nat) : Nat :=
  let quotient := num / den
  let twice := 2 * (num % den)
  if den < twice || (twice = den && quotient % 2 = 1) then quotient + 1 else quotient

/-- The binary64 number nearest to `num / den`; a ratio beyond the largest one is infinite. -/
def F64.ofRatio (num den : Nat) : F64 :=
  if num = 0 then ⟨0⟩
  else
    let estimate : Int := num.log2 - den.log2
    let exponent :=
      if num * 2 ^ (-estimate).toNat < den * 2 ^ estimate.toNat then estimate - 1 else estimate
    -- the weight of the last bit, which subnormal numbers share
    let unit := max (exponent - 52) (-1074)
    let significand := roundQuotient (num * 2 ^ (-unit).toNat) (den * 2 ^ unit.toNat)
    ⟨.ofNat (min ((unit + 1074).toNat * 2 ^ 52 + significand) (2047 * 2 ^ 52))⟩

/-- The number with the sign bit set when `negative` holds. -/
def F64.signed (negative : Bool) (x : F64) : F64 :=
  if negative then ⟨x.bits ||| 0x8000000000000000⟩ else x

/-! ## Reading decimals -/

/-- The value of a decimal digit. -/
def digit (c : Char) : Option Nat :=
  if c.isDigit then some (c.toNat - '0'.toNat) else none

/-- The value of a list of decimal digits, which must all be digits. -/
def digits : Nat → List Char → Option Nat
  | value, [] => some value
  | value, c :: cs => do digits (value * 10 + (← digit c)) cs

/-- The leading digits of a list and the rest. -/
def spanDigits (cs : List Char) : List Char × List Char :=
  (cs.takeWhile Char.isDigit, cs.dropWhile Char.isDigit)

/-- A leading sign and the rest. -/
def sign : List Char → Bool × List Char
  | '-' :: cs => (true, cs)
  | '+' :: cs => (false, cs)
  | cs => (false, cs)

/-- Read digits below a bound; the first character that is no digit or exceeds the bound decides
the error. -/
def boundedDigits (bound : Nat) (overflow : String) : Nat → List Char → Except String Nat
  | value, [] => .ok value
  | value, c :: cs =>
    match digit c with
    | none => .error "invalid digit found in string"
    | some d =>
      if bound < value * 10 + d then .error overflow
      else boundedDigits bound overflow (value * 10 + d) cs

/-- `str::parse::<i64>`. -/
def parseInt64 (cs : List Char) : Except String Int64 :=
  if cs.isEmpty then .error "cannot parse integer from empty string"
  else
    let (negative, rest) := sign cs
    if rest.isEmpty then .error "invalid digit found in string"
    else if negative then do
      let n ← boundedDigits (2 ^ 63) "number too small to fit in target type" 0 rest
      return .ofInt (-n)
    else do
      let n ← boundedDigits (2 ^ 63 - 1) "number too large to fit in target type" 0 rest
      return .ofInt n

/-- `str::parse::<u32>`. -/
def parseUInt32 (cs : List Char) : Option UInt32 :=
  let rest := match cs with
    | '+' :: rest => rest
    | cs => cs
  if rest.isEmpty then none
  else match boundedDigits (2 ^ 32 - 1) "number too large to fit in target type" 0 rest with
    | .ok n => some (.ofNat n)
    | .error _ => none

/-- The exponent part of a decimal, which may be absent. -/
def exponentPart : List Char → Option Int
  | [] => some 0
  | c :: cs =>
    if c = 'e' ∨ c = 'E' then
      let (negative, rest) := sign cs
      if rest.isEmpty then none
      else do
        let n ← digits 0 rest
        return if negative then -(n : Int) else n
    else none

/-- The number `digits × 10 ^ exponent`. -/
def F64.ofDecimal (value : Nat) (exponent : Int) : F64 :=
  .ofRatio (value * 10 ^ exponent.toNat) (10 ^ (-exponent).toNat)

/-- The digits around an optional point and the exponent after them. -/
def decimal (cs : List Char) : Option F64 :=
  let (whole, rest) := spanDigits cs
  let (fraction, rest) := match rest with
    | '.' :: rest => spanDigits rest
    | rest => ([], rest)
  if whole.isEmpty && fraction.isEmpty then none
  else do
    let value ← digits 0 (whole ++ fraction)
    let exponent ← exponentPart rest
    return .ofDecimal value (exponent - fraction.length)

/-- `str::parse::<f64>`. -/
def parseF64 (cs : List Char) : Except String F64 :=
  if cs.isEmpty then .error "cannot parse float from empty string"
  else
    let (negative, rest) := sign cs
    let word := String.ofList (rest.map Char.toLower)
    if word = "inf" ∨ word = "infinity" then .ok (.signed negative ⟨0x7ff0000000000000⟩)
    else if word = "nan" then .ok (.signed negative ⟨0x7ff8000000000000⟩)
    else match decimal rest with
      | some x => .ok (.signed negative x)
      | none => .error "invalid float literal"

/-- Half of a unit in the last place is rounded to the even neighbour. -/
example : parseF64 "0.7".toList = .ok ⟨0x3fe6666666666666⟩ ∧
    parseF64 "-2.5e-1".toList = .ok ⟨0xbfd0000000000000⟩ ∧
    parseF64 "9007199254740993".toList = .ok ⟨0x4340000000000000⟩ ∧
    parseF64 "5e-324".toList = .ok ⟨1⟩ := by
  decide +kernel

/-! ## The equality of trees -/

/-- The equality of JSON numbers: numbers of different kinds differ. -/
def Number.sameAs : Number → Number → Bool
  | .posInt a, .posInt b => a == b
  | .negInt a, .negInt b => a == b
  | .float x, .float y => x.value.numEq y.value
  | _, _ => false

mutual
/-- The equality of JSON trees. -/
def Value.sameAs : Value → Value → Bool
  | .null, .null => true
  | .bool a, .bool b => a == b
  | .number a, .number b => a.sameAs b
  | .string a, .string b => a == b
  | .array a, .array b => sameItems a b
  | .object a, .object b => sameEntries a b
  | _, _ => false

/-- The equality of arrays. -/
def sameItems : List Value → List Value → Bool
  | [], [] => true
  | a :: as, b :: bs => a.sameAs b && sameItems as bs
  | _, _ => false

/-- The equality of objects, which hold their entries in key order. -/
def sameEntries : List (String × Value) → List (String × Value) → Bool
  | [], [] => true
  | (k, a) :: as, (l, b) :: bs => k == l && a.sameAs b && sameEntries as bs
  | _, _ => false
end

mutual
/-- The tree has no floating-point number. -/
def Value.exact : Value → Bool
  | .number (.float _) => false
  | .array items => exactItems items
  | .object entries => exactEntries entries
  | _ => true

def exactItems : List Value → Bool
  | [] => true
  | item :: items => item.exact && exactItems items

def exactEntries : List (String × Value) → Bool
  | [] => true
  | (_, value) :: entries => value.exact && exactEntries entries
end

mutual
/-- Equality with a tree without floating-point numbers is that of the trees. -/
theorem Value.sameAs_iff {a b : Value} (h : b.exact = true) : a.sameAs b = true ↔ a = b := by
  match a, b with
  | .null, b => cases b <;> simp [Value.sameAs]
  | .bool _, b => cases b <;> simp [Value.sameAs]
  | .string _, b => cases b <;> simp [Value.sameAs]
  | .number m, b =>
      cases b with
      | number n =>
        cases n with
        | float => simp [Value.exact] at h
        | posInt => cases m <;> simp [Value.sameAs, Number.sameAs]
        | negInt => cases m <;> simp [Value.sameAs, Number.sameAs]
      | _ => simp [Value.sameAs]
  | .array items, b =>
      cases b with
      | array others =>
        simp only [Value.exact] at h
        rw [Value.sameAs, sameItems_iff h, Value.array.injEq]
      | _ => simp [Value.sameAs]
  | .object entries, b =>
      cases b with
      | object others =>
        simp only [Value.exact] at h
        rw [Value.sameAs, sameEntries_iff h, Value.object.injEq]
      | _ => simp [Value.sameAs]

theorem sameItems_iff {items others : List Value} (h : exactItems others = true) :
    sameItems items others = true ↔ items = others := by
  match items, others with
  | [], [] => simp [sameItems]
  | [], _ :: _ => simp [sameItems]
  | _ :: _, [] => simp [sameItems]
  | item :: items, other :: others =>
      rw [exactItems, Bool.and_eq_true] at h
      rw [sameItems, Bool.and_eq_true, Value.sameAs_iff h.1, sameItems_iff h.2, List.cons.injEq]

theorem sameEntries_iff {entries others : List (String × Value)}
    (h : exactEntries others = true) : sameEntries entries others = true ↔ entries = others := by
  match entries, others with
  | [], [] => simp [sameEntries]
  | [], _ :: _ => simp [sameEntries]
  | _ :: _, [] => simp [sameEntries]
  | (key, value) :: entries, (name, other) :: others =>
      rw [exactEntries, Bool.and_eq_true] at h
      rw [sameEntries, Bool.and_eq_true, Bool.and_eq_true, Value.sameAs_iff h.1,
        sameEntries_iff h.2, beq_iff_eq, List.cons.injEq, Prod.mk.injEq]
end

end Omp2.Json
