import Mathlib.Algebra.Ring.Int.Defs
import Mathlib.Algebra.Ring.Nat
import Mathlib.Data.List.TakeDrop

/-!
# Checksummed frames

A frame is the length of its payload in four bytes, the payload, and a checksum of the payload.
`read` takes one frame off a byte list and `scan` feeds the frames of a byte list to a step
function until the bytes end, a frame is damaged, or the step refuses a payload. The results
describe what a reader sees of a file of frames that was cut at an arbitrary byte.
-/

namespace Omp2.Frames

open List

/-- A checksum of a fixed length and a limit on payloads that fits the length field. -/
structure Format where
  digest : List UInt8 → List UInt8
  digestLength : Nat
  length_digest : ∀ payload, (digest payload).length = digestLength
  limit : Nat
  limit_lt : limit < 2 ^ 32

/-- Why a frame could not be read. -/
inductive ReadError where
  | endOfFile
  | limit
  | checksum
deriving DecidableEq, Repr

/-- The four bytes of a length modulo `2 ^ 32`, the least significant first. -/
def lengthBytes (length : Nat) : List UInt8 :=
  [.ofNat length, .ofNat (length / 2 ^ 8), .ofNat (length / 2 ^ 16), .ofNat (length / 2 ^ 24)]

/-- The length that four bytes spell. -/
def lengthOf (a b c d : UInt8) : Nat :=
  a.toNat + 2 ^ 8 * b.toNat + 2 ^ 16 * c.toNat + 2 ^ 24 * d.toNat

theorem lengthOf_lengthBytes {length : Nat} (h : length < 2 ^ 32) :
    lengthOf (.ofNat length) (.ofNat (length / 2 ^ 8)) (.ofNat (length / 2 ^ 16))
      (.ofNat (length / 2 ^ 24)) = length := by
  simp only [lengthOf, UInt8.toNat_ofNat']
  omega

namespace Format

variable (fmt : Format)

/-- The frame of a payload. -/
def frame (payload : List UInt8) : List UInt8 :=
  lengthBytes payload.length ++ payload ++ fmt.digest payload

/-- The frames of a list of payloads, one after the other. -/
def frames (payloads : List (List UInt8)) : List UInt8 :=
  payloads.flatMap fmt.frame

/-- Take one frame off the bytes; there is none at the end of the bytes. -/
def read (bytes : List UInt8) : Except ReadError (Option (List UInt8 × List UInt8)) :=
  match bytes with
  | [] => .ok none
  | a :: b :: c :: d :: rest =>
    let length := lengthOf a b c d
    if fmt.limit < length then .error .limit
    else if rest.length < length + fmt.digestLength then .error .endOfFile
    else
      let payload := rest.take length
      let rest := rest.drop length
      if fmt.digest payload = rest.take fmt.digestLength then
        .ok (some (payload, rest.drop fmt.digestLength))
      else .error .checksum
  | _ => .error .endOfFile

variable {S E : Type*}

/-- Feed frames to `step` until the bytes end or a frame is refused. Every frame consumes bytes, so
their number is enough fuel. -/
def scan (step : S → List UInt8 → S × Option E) (damaged : ReadError → E) :
    Nat → S → Nat → List UInt8 → S × Nat × Option E
  | 0, s, position, _ => (s, position, none)
  | fuel + 1, s, position, bytes =>
    match fmt.read bytes with
    | .error e => (s, position, some (damaged e))
    | .ok none => (s, position, none)
    | .ok (some (payload, rest)) =>
      match step s payload with
      | (s, some e) => (s, position, some e)
      | (s, none) => scan step damaged fuel s (position + (bytes.length - rest.length)) rest

/-! ## Reading what was written -/

theorem length_frame (payload : List UInt8) :
    (fmt.frame payload).length = 4 + payload.length + fmt.digestLength := by
  unfold frame lengthBytes
  simp only [length_append, length_cons, length_nil, fmt.length_digest]

theorem lengthField {payload : List UInt8} (h : payload.length ≤ fmt.limit) :
    lengthOf (.ofNat payload.length) (.ofNat (payload.length / 2 ^ 8))
      (.ofNat (payload.length / 2 ^ 16)) (.ofNat (payload.length / 2 ^ 24)) = payload.length :=
  lengthOf_lengthBytes (Nat.lt_of_le_of_lt h fmt.limit_lt)

@[simp] theorem read_nil : fmt.read [] = .ok none := rfl

/-- Reading takes exactly one frame off. -/
theorem read_frame {payload : List UInt8} (h : payload.length ≤ fmt.limit) (rest : List UInt8) :
    fmt.read (fmt.frame payload ++ rest) = .ok (some (payload, rest)) := by
  have hlength := fmt.lengthField h
  have hdigest := fmt.length_digest payload
  unfold frame lengthBytes read
  simp only [cons_append, nil_append, hlength]
  rw [if_neg (Nat.not_lt.mpr h), if_neg, append_assoc, take_left, drop_left]
  · rw [← hdigest, take_left, drop_left, if_pos rfl]
  · simp only [length_append, hdigest]
    omega

/-- A cut inside of a frame reads as the end of the file. -/
theorem read_cut {payload : List UInt8} (h : payload.length ≤ fmt.limit) {size : Nat}
    (hpos : 0 < size) (hcut : size < (fmt.frame payload).length) :
    fmt.read ((fmt.frame payload).take size) = .error .endOfFile := by
  have hlength := fmt.lengthField h
  rw [length_frame] at hcut
  unfold frame lengthBytes read
  match size, hpos with
  | 1, _ | 2, _ | 3, _ => simp
  | size + 4, _ =>
      simp only [cons_append, nil_append, take_succ_cons, hlength]
      rw [if_neg (Nat.not_lt.mpr h), if_pos]
      simp only [length_take, length_append, fmt.length_digest]
      omega

/-- A cut through a list of frames leaves some whole frames and a proper part of the next. -/
theorem exists_cut {payloads : List (List UInt8)} {size : Nat}
    (hsize : size ≤ (fmt.frames payloads).length) :
    ∃ count tail, count ≤ payloads.length ∧
      (fmt.frames payloads).take size = fmt.frames (payloads.take count) ++ tail ∧
      (tail = [] ∨ ∃ payload part, payloads[count]? = some payload ∧ 0 < part ∧
        part < (fmt.frame payload).length ∧ tail = (fmt.frame payload).take part) := by
  induction payloads generalizing size with
  | nil => exact ⟨0, [], Nat.le_refl _, by simp [frames], .inl rfl⟩
  | cons payload payloads ih =>
      have hcons : fmt.frames (payload :: payloads) = fmt.frame payload ++ fmt.frames payloads := rfl
      rw [hcons, length_append] at hsize
      by_cases hwhole : (fmt.frame payload).length ≤ size
      · have hrest : size - (fmt.frame payload).length ≤ (fmt.frames payloads).length := by omega
        obtain ⟨count, tail, hcount, htake, htail⟩ := ih hrest
        refine ⟨count + 1, tail, Nat.succ_le_succ hcount, ?_, by simpa using htail⟩
        rw [hcons, take_append, take_of_length_le hwhole, htake, take_succ_cons,
          ← append_assoc]
        rfl
      · have hcut : (fmt.frames (payload :: payloads)).take size = (fmt.frame payload).take size := by
          rw [hcons, take_append_of_le_length (Nat.le_of_not_le hwhole)]
        by_cases hzero : size = 0
        · subst hzero
          exact ⟨0, [], Nat.zero_le _, by simp [frames], .inl rfl⟩
        · refine ⟨0, (fmt.frame payload).take size, Nat.zero_le _, hcut, .inr ?_⟩
          exact ⟨payload, size, rfl, Nat.pos_of_ne_zero hzero, Nat.lt_of_not_le hwhole, rfl⟩

variable {fmt} {step : S → List UInt8 → S × Option E} {damaged : ReadError → E}

/-- Scanning over a frame that the step accepts. -/
theorem scan_frame {fuel position : Nat} {s s' : S} {payload : List UInt8} (rest : List UInt8)
    (h : payload.length ≤ fmt.limit) (hstep : step s payload = (s', none)) :
    fmt.scan step damaged (fuel + 1) s position (fmt.frame payload ++ rest) =
      fmt.scan step damaged fuel s' (position + (fmt.frame payload).length) rest := by
  have hconsumed : (fmt.frame payload ++ rest).length - rest.length = (fmt.frame payload).length := by
    rw [length_append, Nat.add_sub_cancel]
  simp only [scan, fmt.read_frame h, hstep, hconsumed]

theorem scan_refused {fuel position : Nat} {s s' : S} {e : E} {payload : List UInt8}
    (rest : List UInt8) (h : payload.length ≤ fmt.limit) (hstep : step s payload = (s', some e)) :
    fmt.scan step damaged (fuel + 1) s position (fmt.frame payload ++ rest) =
      (s', position, some e) := by
  simp only [scan, fmt.read_frame h, hstep]

/-- What every step preserves holds after a scan. -/
theorem scan_invariant {P : S → Prop} (hstep : ∀ s payload, P s → P (step s payload).1)
    {fuel position : Nat} {s : S} {bytes : List UInt8} (hs : P s) :
    P (fmt.scan step damaged fuel s position bytes).1 := by
  induction fuel generalizing s position bytes with
  | zero => exact hs
  | succ fuel ih =>
      unfold scan
      split
      · exact hs
      · exact hs
      · next payload rest _ =>
        have hnext := hstep s payload hs
        split
        · next heq => rw [heq] at hnext; exact hnext
        · next heq => rw [heq] at hnext; exact ih hnext

/-- Scanning at the end of the bytes. -/
@[simp] theorem scan_nil (fuel position : Nat) (s : S) :
    fmt.scan step damaged fuel s position [] = (s, position, none) := by
  cases fuel <;> rfl

theorem read_none {bytes : List UInt8} (h : fmt.read bytes = .ok none) : bytes = [] := by
  unfold read at h
  split at h
  · rfl
  · dsimp only at h
    split at h
    · cases h
    · split at h
      · cases h
      · split at h <;> cases h
  · cases h

/-- The frame that was taken off stands at the front of the bytes, whatever follows it. -/
theorem read_some {bytes payload rest : List UInt8}
    (h : fmt.read bytes = .ok (some (payload, rest))) :
    ∃ front, bytes = front ++ rest ∧ 0 < front.length ∧
      ∀ tail, fmt.read (front ++ tail) = .ok (some (payload, tail)) := by
  unfold read at h
  split at h
  · cases h
  · next a b c d bytes =>
    dsimp only at h
    split at h
    · cases h
    · next hlimit =>
      split at h
      · cases h
      · next hwhole =>
        split at h
        · next hdigest =>
          cases h
          refine ⟨a :: b :: c :: d :: bytes.take (lengthOf a b c d + fmt.digestLength), ?_,
            Nat.succ_pos _, fun tail => ?_⟩
          · rw [drop_drop]
            simp only [cons_append, take_append_drop]
          · have hlength : (bytes.take (lengthOf a b c d + fmt.digestLength)).length =
                lengthOf a b c d + fmt.digestLength :=
              length_take_of_le (Nat.le_of_not_lt hwhole)
            have hpayload : (bytes.take (lengthOf a b c d + fmt.digestLength) ++ tail).take
                (lengthOf a b c d) = bytes.take (lengthOf a b c d) := by
              rw [take_append_of_le_length (by omega), take_take,
                Nat.min_eq_left (Nat.le_add_right ..)]
            have hsum : ((bytes.take (lengthOf a b c d + fmt.digestLength) ++ tail).drop
                (lengthOf a b c d)).take fmt.digestLength =
                  (bytes.drop (lengthOf a b c d)).take fmt.digestLength := by
              rw [drop_append_of_le_length (by omega), take_append_of_le_length
                (by rw [length_drop]; omega), ← take_drop, take_take,
                Nat.min_self]
            have hrest : ((bytes.take (lengthOf a b c d + fmt.digestLength) ++ tail).drop
                (lengthOf a b c d)).drop fmt.digestLength = tail := by
              rw [drop_drop]
              exact drop_left' hlength
            simp only [cons_append, read]
            rw [if_neg hlimit, if_neg (by rw [length_append]; omega), hpayload, hsum,
              if_pos hdigest, hrest]
        · cases h
  · cases h

/-- What a scan of some bytes has accepted: the bytes at the front up to its position. With other
bytes after them, a scan goes on from the same state and position. -/
structure Accepts (step : S → List UInt8 → S × Option E) (damaged : ReadError → E)
    (s : S) (position : Nat) (front : List UInt8) (s' : S) : Prop where
  resume : ∀ (tail : List UInt8) (fuel : Nat), front.length + tail.length ≤ fuel →
    ∃ fuel', tail.length ≤ fuel' ∧ fmt.scan step damaged fuel s position (front ++ tail) =
      fmt.scan step damaged fuel' s' (position + front.length) tail

theorem Accepts.nil (s : S) (position : Nat) : fmt.Accepts step damaged s position [] s :=
  ⟨fun _ fuel hfuel => ⟨fuel, by rwa [length_nil, Nat.zero_add] at hfuel, rfl⟩⟩

/-- One frame more. -/
theorem Accepts.cons {s s₁ s' : S} {position : Nat} {first payload front : List UInt8}
    (hpos : 0 < first.length)
    (hread : ∀ tail, fmt.read (first ++ tail) = .ok (some (payload, tail)))
    (hstep : step s payload = (s₁, none))
    (h : fmt.Accepts step damaged s₁ (position + first.length) front s') :
    fmt.Accepts step damaged s position (first ++ front) s' := by
  refine ⟨fun tail fuel hfuel => ?_⟩
  rw [length_append] at hfuel
  obtain ⟨fuel, rfl⟩ := Nat.exists_eq_succ_of_ne_zero (show fuel ≠ 0 by omega)
  obtain ⟨fuel', hfuel', hscan⟩ := h.resume tail fuel (by omega)
  refine ⟨fuel', hfuel', ?_⟩
  rw [append_assoc, length_append, ← Nat.add_assoc, ← hscan, scan, hread]
  dsimp only
  rw [hstep]
  dsimp only
  rw [length_append, Nat.add_sub_cancel]

/-- A scan that loses nothing of a refused frame has accepted the bytes before its end. -/
theorem scan_accepts {P : S → Prop} (hstep : ∀ s payload, P s → P (step s payload).1)
    (hrefused : ∀ s payload s' e, P s → step s payload = (s', some e) → s' = s)
    {fuel position finish : Nat} {s s' : S} {bytes : List UInt8} {result : Option E} (hs : P s)
    (hfuel : bytes.length ≤ fuel)
    (hscan : fmt.scan step damaged fuel s position bytes = (s', finish, result)) :
    ∃ front rest, bytes = front ++ rest ∧ finish = position + front.length ∧
      (result = none → rest = []) ∧ fmt.Accepts step damaged s position front s' := by
  induction fuel generalizing s position bytes with
  | zero =>
      obtain rfl := length_eq_zero_iff.mp (Nat.le_zero.mp hfuel)
      cases hscan
      exact ⟨[], [], rfl, rfl, fun _ => rfl, .nil _ _⟩
  | succ fuel ih =>
      unfold scan at hscan
      split at hscan
      · cases hscan
        exact ⟨[], bytes, rfl, rfl, nofun, .nil _ _⟩
      · next hread =>
        cases hscan
        exact ⟨[], bytes, rfl, rfl, fun _ => read_none hread, .nil _ _⟩
      · next payload rest hread =>
        have hnext := hstep s payload hs
        split at hscan
        · next heq =>
          cases hscan
          obtain rfl := hrefused s payload _ _ hs heq
          exact ⟨[], bytes, rfl, rfl, nofun, .nil _ _⟩
        · next s₁ heq =>
          rw [heq] at hnext
          obtain ⟨first, rfl, hpos, hfirst⟩ := read_some hread
          rw [length_append] at hfuel hscan
          rw [Nat.add_sub_cancel] at hscan
          obtain ⟨front, rest', rfl, rfl, hnone, haccepts⟩ := ih hnext (by omega) hscan
          refine ⟨first ++ front, rest', (append_assoc ..).symm, ?_, hnone,
            haccepts.cons hpos hfirst heq⟩
          rw [length_append, Nat.add_assoc]

/-- A change of the state that the step does not see can be made before or after a scan. -/
theorem scan_map {f : S → S} (hstep : ∀ s payload, step (f s) payload =
      (f (step s payload).1, (step s payload).2)) (fuel position : Nat) (s : S)
    (bytes : List UInt8) :
    fmt.scan step damaged fuel (f s) position bytes =
      (f (fmt.scan step damaged fuel s position bytes).1,
        (fmt.scan step damaged fuel s position bytes).2) := by
  induction fuel generalizing s position bytes with
  | zero => rfl
  | succ fuel ih =>
      unfold scan
      cases fmt.read bytes with
      | error e => rfl
      | ok frame =>
        cases frame with
        | none => rfl
        | some frame =>
          obtain ⟨payload, rest⟩ := frame
          dsimp only
          rw [hstep]
          cases step s payload with
          | mk s₁ refusal =>
            cases refusal with
            | none => exact ih _ _ _
            | some e => rfl

theorem scan_cut {fuel position : Nat} {s : S} {payload : List UInt8} {size : Nat}
    (h : payload.length ≤ fmt.limit) (hpos : 0 < size) (hcut : size < (fmt.frame payload).length) :
    fmt.scan step damaged (fuel + 1) s position ((fmt.frame payload).take size) =
      (s, position, some (damaged .endOfFile)) := by
  simp only [scan, fmt.read_cut h hpos hcut]

end Format

end Omp2.Frames
