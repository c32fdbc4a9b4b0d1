import Mathlib.Data.List.Basic

/-!
# Lossy decoding of UTF-8

Bytes are decoded from the front. Where they are no UTF-8, the longest start of a character that
stands there, or else one byte, gives one replacement character.
-/

namespace Omp2.Utf8

/-- The replacement character. -/
def replacement : Char := Char.ofNat 0xFFFD

/-- The byte continues a character. -/
def continues (b : UInt8) : Bool :=
  0x80 ≤ b && b ≤ 0xBF

/-- The value of a byte that continues a character. -/
def low (b : UInt8) : Nat :=
  b.toNat % 64

/-- The bytes that may follow the first byte of a character of three bytes. -/
def second3 (first b : UInt8) : Bool :=
  if first = 0xE0 then 0xA0 ≤ b && b ≤ 0xBF
  else if first = 0xED then 0x80 ≤ b && b ≤ 0x9F
  else continues b

/-- The bytes that may follow the first byte of a character of four bytes. -/
def second4 (first b : UInt8) : Bool :=
  if first = 0xF0 then 0x90 ≤ b && b ≤ 0xBF
  else if first = 0xF4 then 0x80 ≤ b && b ≤ 0x8F
  else continues b

/-- The character at the front, and the number of bytes after the first that it takes. -/
def decodeFirst (first : UInt8) (rest : List UInt8) : Char × Nat :=
  if first < 0x80 then (Char.ofNat first.toNat, 0)
  else if 0xC2 ≤ first ∧ first ≤ 0xDF then
    match rest with
    | b :: _ => if continues b then (Char.ofNat (first.toNat % 32 * 64 + low b), 1)
      else (replacement, 0)
    | [] => (replacement, 0)
  else if 0xE0 ≤ first ∧ first ≤ 0xEF then
    match rest with
    | b :: c :: _ =>
      if !second3 first b then (replacement, 0)
      else if continues c then
        (Char.ofNat (first.toNat % 16 * 4096 + low b * 64 + low c), 2)
      else (replacement, 1)
    | [b] => if second3 first b then (replacement, 1) else (replacement, 0)
    | [] => (replacement, 0)
  else if 0xF0 ≤ first ∧ first ≤ 0xF4 then
    match rest with
    | b :: c :: d :: _ =>
      if !second4 first b then (replacement, 0)
      else if !continues c then (replacement, 1)
      else if continues d then
        (Char.ofNat (first.toNat % 8 * 262144 + low b * 4096 + low c * 64 + low d), 3)
      else (replacement, 2)
    | [b, c] =>
      if !second4 first b then (replacement, 0)
      else if continues c then (replacement, 2)
      else (replacement, 1)
    | [b] => if second4 first b then (replacement, 1) else (replacement, 0)
    | [] => (replacement, 0)
  else (replacement, 0)

/-- The characters of at most the given number of bytes. -/
def lossyFrom : Nat → List UInt8 → List Char
  | 0, _ | _, [] => []
  | size + 1, first :: rest =>
    let (c, taken) := decodeFirst first rest
    c :: lossyFrom size (rest.drop taken)

/-- `from_utf8_lossy`. -/
def lossy (bytes : List UInt8) : String :=
  String.ofList (lossyFrom bytes.length bytes)

/-- The number of bytes that a character with this first byte takes. -/
def size (first : UInt8) : Nat :=
  if first < 128 then 1 else if first < 224 then 2 else if first < 240 then 3 else 4

theorem size_pos (first : UInt8) : 0 < size first := by
  unfold size
  repeat' split
  all_goals decide

theorem size_le (first : UInt8) : size first ≤ 4 := by
  unfold size
  repeat' split
  all_goals decide

/-- The characters of at most the given number of bytes, if the bytes are UTF-8. -/
def strictFrom : Nat → List UInt8 → Option (List Char)
  | _, [] => some []
  | 0, _ :: _ => none
  | room + 1, first :: rest =>
    let (c, taken) := decodeFirst first rest
    if taken + 1 = size first then (strictFrom room (rest.drop taken)).map (c :: ·) else none

/-- `str::from_utf8`. -/
def strict (bytes : List UInt8) : Option (List Char) :=
  strictFrom bytes.length bytes

/-! ## Bytes after the first -/

theorem le_of_continues {b : UInt8} (h : continues b = true) : 128 ≤ b := by
  unfold continues at h
  rw [Bool.and_eq_true, decide_eq_true_eq] at h
  exact h.1

theorem le_of_second3 {first b : UInt8} (h : second3 first b = true) : 128 ≤ b := by
  unfold second3 at h
  split at h
  · rw [Bool.and_eq_true, decide_eq_true_eq] at h
    exact UInt8.le_trans (by decide) h.1
  · split at h
    · rw [Bool.and_eq_true, decide_eq_true_eq] at h
      exact h.1
    · exact le_of_continues h

theorem le_of_second4 {first b : UInt8} (h : second4 first b = true) : 128 ≤ b := by
  unfold second4 at h
  split at h
  · rw [Bool.and_eq_true, decide_eq_true_eq] at h
    exact UInt8.le_trans (by decide) h.1
  · split at h
    · rw [Bool.and_eq_true, decide_eq_true_eq] at h
      exact h.1
    · exact le_of_continues h

theorem decodeFirst_taken (first : UInt8) (rest : List UInt8) :
    ∀ b ∈ rest.take (decodeFirst first rest).2, 128 ≤ b := by
  intro b hb
  unfold decodeFirst at hb
  repeat' split at hb
  all_goals
    simp only [Bool.not_eq_true', Bool.not_eq_false, List.take_zero, List.take_succ_cons,
      List.mem_cons, List.not_mem_nil, or_false] at *
  all_goals grind [le_of_continues, le_of_second3, le_of_second4]

/-- The bytes of a character after its first are no ASCII. -/
theorem le_of_strict {first : UInt8} {rest : List UInt8} {c : Char}
    (h : (strict ((first :: rest).take (size first))).bind List.head? = some c) :
    ∀ b ∈ rest.take (size first - 1), 128 ≤ b := by
  obtain ⟨room, hroom⟩ := Nat.exists_eq_add_of_lt (size_pos first)
  rw [Nat.zero_add] at hroom
  rw [hroom, List.take_succ_cons, strict, List.length_cons, strictFrom] at h
  rw [hroom, Nat.add_sub_cancel]
  dsimp only at h
  split at h
  · next htaken =>
    rw [hroom] at htaken
    have hall := decodeFirst_taken first (rest.take room)
    rw [Nat.succ.inj htaken, List.take_take, Nat.min_self] at hall
    exact hall
  · cases h

end Omp2.Utf8
