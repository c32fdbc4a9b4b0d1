import Mathlib.Data.List.TakeWhile
import Mathlib.Data.Nat.Log
import Mathlib.Data.Rat.Cast.Order
import Mathlib.Tactic.Ring
import Omp2.Library.Numerals
import Omp2.Library.Serde

/-!
# The values of numbers

`FiniteF64.toRat` is the rational number that a finite binary64 number stands for, and
`writtenNumber` the one that a text in decimal stands for. `FiniteF64.toInt64` cuts a number to a
signed 64-bit integer, which is the number itself when it is whole and in range
(`toRat_ofInt64_toInt64`), and `F64.display` writes the shortest decimal that is read back.
-/

namespace Omp2.Json

/-! ## The fields of a number -/

/-- The sign bit. -/
def F64.isNegative (x : F64) : Bool :=
  x.bits != x.magnitude

/-- The exponent field. -/
def F64.exponentField (x : F64) : Nat :=
  (x.magnitude >>> 52).toNat

/-- The fraction field with the leading bit, which subnormal numbers do not have. -/
def F64.significand (x : F64) : Nat :=
  (x.bits &&& 0xfffffffffffff).toNat + if x.exponentField = 0 then 0 else 2 ^ 52

/-- The weight of the last bit, as a power of two. -/
def F64.unit (x : F64) : Int :=
  max x.exponentField 1 - 1075

namespace FiniteF64

/-- The numerator of the number over a power of two. -/
def numerator (x : FiniteF64) : Int :=
  let size := x.value.significand * 2 ^ x.value.unit.toNat
  if x.value.isNegative then -(size : Int) else size

/-- The power of two under the number. -/
def denominator (x : FiniteF64) : Nat :=
  2 ^ (-x.value.unit).toNat

/-- The rational number. -/
def toRat (x : FiniteF64) : ℚ :=
  mkRat x.numerator x.denominator

/-- `f64::fract` is zero. -/
def isInteger (x : FiniteF64) : Bool :=
  decide (x.numerator % x.denominator = 0)

/-- `f64 as i64`: the whole part, cut to the range of the type. -/
def toInt64 (x : FiniteF64) : Int64 :=
  .ofInt (max (-2 ^ 63) (min (2 ^ 63 - 1) (x.numerator.tdiv x.denominator)))

/-- A whole number is its whole part. -/
theorem toRat_of_isInteger {x : FiniteF64} (h : x.isInteger = true) :
    x.toRat = ((x.numerator.tdiv x.denominator : Int) : ℚ) := by
  have hpos : 0 < x.denominator := Nat.two_pow_pos _
  have hdvd : (x.denominator : Int) ∣ x.numerator :=
    Int.dvd_of_emod_eq_zero (of_decide_eq_true h)
  have hmul : x.numerator = x.numerator.tdiv x.denominator * x.denominator :=
    (Int.tdiv_mul_cancel hdvd).symm
  rw [toRat, Rat.mkRat_eq_div, div_eq_iff (by exact_mod_cast hpos.ne')]
  exact_mod_cast hmul

end FiniteF64

/-- The rational number that a JSON number stands for. -/
def Number.toRat : Number → ℚ
  | .posInt n => n.toNat
  | .negInt n => -(n.val + 1)
  | .float x => x.toRat

/-- The JSON number of an integer stands for the integer. -/
theorem Number.toRat_ofInt64 (n : Int64) : (Number.ofInt64 n).toRat = (n.toInt : ℚ) := by
  have hlow := n.le_toInt
  have hhigh := n.toInt_lt
  unfold Number.ofInt64
  split
  · next hneg =>
    have hcast : ((-1 - n.toInt).toNat : Int) = -1 - n.toInt := Int.toNat_of_nonneg (by omega)
    have hcast' : (((-1 - n.toInt).toNat : Nat) : ℚ) = -1 - (n.toInt : ℚ) := by
      exact_mod_cast congrArg (Int.cast : Int → ℚ) hcast
    rw [Number.toRat, hcast']
    ring
  · next hpos =>
    have hnat : (n.toUInt64.toNat : Int) = n.toInt := by
      have hle : 0 ≤ n := by
        rw [Int64.le_iff_toInt_le]
        simpa using hpos
      rw [Int64.toNat_toUInt64_of_le hle]
      exact Int.toNat_of_nonneg (by omega)
    rw [Number.toRat]
    exact_mod_cast congrArg (Int.cast : Int → ℚ) hnat

/-- The cast of a whole number to an integer keeps the number exactly when it is in range. -/
theorem toRat_ofInt64_toInt64 {x : FiniteF64} (h : x.isInteger = true) :
    (Number.ofInt64 x.toInt64).toRat = x.toRat ↔ -2 ^ 63 ≤ x.toRat ∧ x.toRat < 2 ^ 63 := by
  rw [Number.toRat_ofInt64, FiniteF64.toRat_of_isInteger h, FiniteF64.toInt64]
  generalize x.numerator.tdiv x.denominator = n
  have hcut : (Int64.ofInt (max (-2 ^ 63) (min (2 ^ 63 - 1) n))).toInt =
      max (-2 ^ 63) (min (2 ^ 63 - 1) n) :=
    Int64.toInt_ofInt_of_le (by omega) (by omega)
  have hlow : (-2 ^ 63 : ℚ) ≤ (n : ℚ) ↔ -2 ^ 63 ≤ n := by
    rw [← Int.cast_le (R := ℚ)]
    norm_num
  have hhigh : (n : ℚ) < 2 ^ 63 ↔ n < 2 ^ 63 := by
    rw [← Int.cast_lt (R := ℚ)]
    norm_num
  rw [hcut, Int.cast_inj, hlow, hhigh]
  omega

/-! ## Written numbers -/

/-- The number that a decimal without sign stands for, as the digits around an optional point and
an optional exponent say. -/
def writtenDecimal (cs : List Char) : Option ℚ :=
  let (whole, rest) := spanDigits cs
  let (fraction, rest) := match rest with
    | '.' :: rest => spanDigits rest
    | rest => ([], rest)
  if whole.isEmpty && fraction.isEmpty then none
  else do
    let value ← digits 0 (whole ++ fraction)
    let exponent ← exponentPart rest
    let exponent := exponent - fraction.length
    return mkRat (value * 10 ^ exponent.toNat) (10 ^ (-exponent).toNat)

/-- The number that a decimal stands for. -/
def writtenNumber (cs : List Char) : Option ℚ :=
  (writtenDecimal (sign cs).2).map fun q => if (sign cs).1 then -q else q

/-- Digits that are read below a bound are digits, and their value is below the bound. -/
theorem digits_of_boundedDigits {bound value n : Nat} {overflow : String} {cs : List Char}
    (hvalue : value ≤ bound) (h : boundedDigits bound overflow value cs = .ok n) :
    digits value cs = some n ∧ (∀ c ∈ cs, c.isDigit = true) ∧ n ≤ bound := by
  induction cs generalizing value with
  | nil =>
      cases h
      exact ⟨rfl, by simp, hvalue⟩
  | cons c cs ih =>
      unfold boundedDigits at h
      split at h
      · cases h
      · next d hd =>
        split at h
        · cases h
        · next hle =>
          obtain ⟨hrest, hall, hn⟩ := ih (by omega) h
          have hdigit : c.isDigit = true := by
            unfold digit at hd
            split at hd
            · next hc => exact hc
            · cases hd
          refine ⟨?_, List.forall_mem_cons.mpr ⟨hdigit, hall⟩, hn⟩
          rw [digits, hd]
          exact hrest

theorem writtenDecimal_of_digits {cs : List Char} {n : Nat} (hne : cs ≠ [])
    (h : digits 0 cs = some n) (hall : ∀ c ∈ cs, c.isDigit = true) :
    writtenDecimal cs = some (n : ℚ) := by
  have hspan : spanDigits cs = (cs, []) := by
    rw [spanDigits, List.takeWhile_eq_self_iff.mpr hall, List.dropWhile_eq_nil_iff.mpr hall]
  simp [writtenDecimal, hspan, hne, h, exponentPart, Rat.mkRat_one]

/-- An integer that is read is the number that is written. -/
theorem writtenNumber_of_parseInt64 {cs : List Char} {n : Int64} (h : parseInt64 cs = .ok n) :
    writtenNumber cs = some (n.toInt : ℚ) := by
  unfold parseInt64 at h
  split at h
  · cases h
  · simp only at h
    split at h
    · cases h
    · next hrest =>
      have hne : (sign cs).2 ≠ [] := by simpa using hrest
      split at h
      · next hnegative =>
        cases hread : boundedDigits (2 ^ 63) "number too small to fit in target type" 0
            (sign cs).2 with
        | error e =>
          simp only [hread, bind, Except.bind] at h
          cases h
        | ok m =>
          simp only [hread, bind, Except.bind, pure, Except.pure, Except.ok.injEq] at h
          obtain ⟨hdigits, hall, hm⟩ := digits_of_boundedDigits (by omega) hread
          have hint : (Int64.ofInt (-m)).toInt = -m :=
            Int64.toInt_ofInt_of_le (by omega) (by omega)
          rw [writtenNumber, writtenDecimal_of_digits hne hdigits hall, ← h, hint]
          simp [hnegative]
      · next hpositive =>
        cases hread : boundedDigits (2 ^ 63 - 1) "number too large to fit in target type" 0
            (sign cs).2 with
        | error e =>
          simp only [hread, bind, Except.bind] at h
          cases h
        | ok m =>
          simp only [hread, bind, Except.bind, pure, Except.pure, Except.ok.injEq] at h
          obtain ⟨hdigits, hall, hm⟩ := digits_of_boundedDigits (by omega) hread
          have hint : (Int64.ofInt m).toInt = m :=
            Int64.toInt_ofInt_of_le (by omega) (by omega)
          rw [writtenNumber, writtenDecimal_of_digits hne hdigits hall, ← h, hint]
          simp [hpositive]

/-! ## Writing numbers -/

/-- The decimals of `size` digits next to a positive ratio, as the digits and the place of the
last one. -/
def nearDecimals (num den size : Nat) : List (Nat × Int) :=
  -- the place of the first digit; no binary64 number is smaller than `10 ^ -400`
  let first : Int := Nat.log 10 (num * 10 ^ 400 / den) - 400
  let place := first + 1 - size
  let scaledNum := num * 10 ^ (-place).toNat
  let scaledDen := den * 10 ^ place.toNat
  let below := scaledNum / scaledDen
  let above := (below + 1, place)
  if scaledNum % scaledDen = 0 then [(below, place)]
  else if 2 * (scaledNum % scaledDen) ≤ scaledDen then [(below, place), above]
  else [above, (below, place)]

/-- The shortest decimal that is read back as the ratio, the nearest one when there are more. -/
def shortestDecimal (num den : Nat) : Option (Nat × Int) :=
  (List.range 17).findSome? fun size =>
    (nearDecimals num den (size + 1)).find? fun decimal =>
      F64.ofDecimal decimal.1 decimal.2 == F64.ofRatio num den

/-- Digits with the point at a place, without an exponent. -/
def placePoint (digits : List Char) (place : Int) : List Char :=
  if 0 ≤ place then digits ++ List.replicate place.toNat '0'
  else
    let size := (-place).toNat
    if size < digits.length then
      digits.take (digits.length - size) ++ '.' :: digits.drop (digits.length - size)
    else '0' :: '.' :: List.replicate (size - digits.length) '0' ++ digits

/-- `f64::to_string`. -/
def F64.display (x : F64) : String :=
  if x.isNan then "NaN"
  else
    let size :=
      if h : x.isFinite = true then
        let y : FiniteF64 := ⟨x, h⟩
        match shortestDecimal y.numerator.natAbs y.denominator with
        | some (digits, place) =>
          if y.numerator = 0 then ['0'] else placePoint (Nat.toDigits 10 digits) place
        | none => []
      else "inf".toList
    String.ofList (if x.isNegative then '-' :: size else size)

/-- No digit more than it takes. -/
example : F64.display ⟨0x3fe6666666666666⟩ = "0.7" ∧ F64.display ⟨0xc014000000000000⟩ = "-5" ∧
    F64.display ⟨0x54b249ad2594c37d⟩ = "1" ++ String.ofList (List.replicate 100 '0') ∧
    F64.display ⟨0x8000000000000000⟩ = "-0" := by
  decide +kernel

end Omp2.Json
