import Omp2.Library.Slices

/-!
# Repetition loops

`detect_repetition_loop` of `omp-inference/src/corrective.rs`, which looks for a phrase that a model
repeats. Phrases and positions are measured in bytes. Arithmetic that would leave `usize` and slices
out of bounds are outcomes of the model, and no input leads to them.
-/

namespace Omp2.Inference

open List Text Slices

/-- `RepetitionDetection`. -/
structure RepetitionDetection where
  repeatedPhrase : String
  repeatCount : Nat
  byteOffset : Nat
deriving DecidableEq

/-- How a scan ends. The program returns `None` for a text in which nothing is found and for a
budget that is exhausted. -/
inductive Outcome where
  | found (detection : RepetitionDetection)
  | clean
  | exhausted
  | panicked
deriving DecidableEq

/-- What the program returns. -/
def Outcome.result : Outcome → Option RepetitionDetection
  | .found detection => some detection
  | _ => none

/-- `MAX_SCAN_BYTES`. -/
def maxScanBytes : Nat := 64 * 1024

/-- `MAX_ITERATIONS`. -/
def maxIterations : Nat := 2000000

/-- The loop that counts consecutive matches from a position on, which fails on an overflow. The
next bytes are those of the phrase where they are its characters. -/
def countRepeats (phrase : List Char) (phraseLen len : Nat) : Nat → Nat → List Char → Option Nat
  | 0, _, _ => some 0
  | fuel + 1, nextPos, rest =>
    if 2 ^ 64 ≤ nextPos + phraseLen then none
    else if nextPos + phraseLen ≤ len ∧ takeBytes rest phraseLen = some phrase then
      (countRepeats phrase phraseLen len fuel (nextPos + phraseLen)
        (rest.drop phrase.length)).map (· + 1)
    else some 0

/-- The loop over the positions of a text for one length of phrases. It ends the scan or goes on
with the number of iterations. -/
def scanPositions (phraseLen minRepeats len : Nat) : Nat → Nat → List Char → Except Outcome Nat
  | iterations, _, [] => .ok iterations
  | iterations, i, c :: cs =>
    if maxIterations < iterations + 1 then .error .exhausted
    else if 2 ^ 64 ≤ phraseLen * minRepeats ∨ len < phraseLen * minRepeats then .error .panicked
    else if len - phraseLen * minRepeats < i then .ok (iterations + 1)
    else if 2 ^ 64 ≤ i + phraseLen then .error .panicked
    else match takeBytes (c :: cs) phraseLen with
      | none => scanPositions phraseLen minRepeats len (iterations + 1) (i + c.utf8Size) cs
      | some phrase =>
        match countRepeats phrase phraseLen len (cs.length + 1) (i + phraseLen)
          ((c :: cs).drop phrase.length) with
        | none => .error .panicked
        | some more =>
          if minRepeats ≤ more + 1 then .error (.found ⟨String.ofList phrase, more + 1, i⟩)
          else scanPositions phraseLen minRepeats len (iterations + 1) (i + c.utf8Size) cs

/-- The loop over the lengths of phrases, from a length down. -/
def scanLengths (minPhraseLen minRepeats : Nat) (scanned : List Char) : Nat → Nat → Outcome
  | _, 0 => .clean
  | iterations, phraseLen + 1 =>
    if phraseLen + 1 < minPhraseLen then .clean
    else match scanPositions (phraseLen + 1) minRepeats (byteLength scanned) iterations 0
        scanned with
      | .error outcome => outcome
      | .ok iterations => scanLengths minPhraseLen minRepeats scanned iterations phraseLen

/-- `detect_repetition_loop`. -/
def detectRepetitionLoop (text : String) (minPhraseLen minRepeats : UInt64) : Outcome :=
  let minBytes := minPhraseLen.toNat * minRepeats.toNat
  if 2 ^ 64 ≤ minBytes ∨ minBytes = 0 ∨ text.utf8ByteSize < minBytes then .clean
  else
    let scanned := truncateChars text.toList maxScanBytes
    scanLengths minPhraseLen.toNat minRepeats.toNat scanned 0
      (min (byteLength scanned / minRepeats.toNat) 100)

/-! ## What is found -/

/-- A phrase a number of times in immediate succession. -/
def times (n : Nat) (phrase : List Char) : List Char :=
  (replicate n phrase).flatten

theorem times_succ (n : Nat) (phrase : List Char) :
    times (n + 1) phrase = phrase ++ times n phrase := by
  unfold times
  rw [replicate_succ, flatten_cons]

theorem times_add (m n : Nat) (phrase : List Char) :
    times (m + n) phrase = times m phrase ++ times n phrase := by
  unfold times
  rw [replicate_add, flatten_append]

theorem byteLength_times (n : Nat) (phrase : List Char) :
    byteLength (times n phrase) = n * byteLength phrase := by
  induction n with
  | zero => exact (Nat.zero_mul _).symm
  | succ n ih => rw [times_succ, byteLength_append, ih, Nat.add_one_mul, Nat.add_comm]

/-- A detection tells the truth about the scanned text. -/
structure Repeats (scanned : List Char) (minPhraseLen minRepeats : Nat)
    (detection : RepetitionDetection) : Prop where
  long : minPhraseLen ≤ detection.repeatedPhrase.utf8ByteSize
  often : minRepeats ≤ detection.repeatCount
  stands : ∃ front rest,
    scanned = front ++ times detection.repeatCount detection.repeatedPhrase.toList ++ rest ∧
      byteLength front = detection.byteOffset ∧ ¬ detection.repeatedPhrase.toList <+: rest

/-- A phrase stands often enough somewhere. -/
def Occurs (scanned : List Char) (phraseLen minRepeats : Nat) : Prop :=
  ∃ front phrase rest, scanned = front ++ (times minRepeats phrase ++ rest) ∧
    byteLength phrase = phraseLen

/-- An outcome tells the truth about the scanned text. -/
def Honest (scanned : List Char) (minPhraseLen minRepeats : Nat) : Outcome → Prop
  | .found detection => Repeats scanned minPhraseLen minRepeats detection
  | .clean => ∀ phraseLen, minPhraseLen ≤ phraseLen → phraseLen ≤ 100 →
      ¬ Occurs scanned phraseLen minRepeats
  | .exhausted => True
  | .panicked => False

/-- What the loop over the positions leaves: an honest outcome, or no phrase in the rest. -/
def Scans (scanned : List Char) (minPhraseLen minRepeats phraseLen : Nat) (rest : List Char) :
    Except Outcome Nat → Prop
  | .error outcome => Honest scanned minPhraseLen minRepeats outcome
  | .ok _ => ¬ Occurs rest phraseLen minRepeats

variable {phrase rest scanned : List Char} {phraseLen len minRepeats minPhraseLen : Nat}

/-- Matches are counted up to the first place where the phrase does not follow. -/
theorem countRepeats_spec (hphrase : byteLength phrase = phraseLen) (hpos : 0 < phraseLen)
    (hlen : len + phraseLen < 2 ^ 64) {fuel nextPos : Nat} (hrest : nextPos + byteLength rest = len)
    (hfuel : rest.length ≤ fuel) :
    ∃ n tail, countRepeats phrase phraseLen len fuel nextPos rest = some n ∧
      rest = times n phrase ++ tail ∧ ¬ phrase <+: tail := by
  induction fuel generalizing nextPos rest with
  | zero =>
      obtain rfl := length_eq_zero_iff.mp (Nat.le_zero.mp hfuel)
      refine ⟨0, [], rfl, rfl, fun hstart => ?_⟩
      rw [prefix_nil.mp hstart] at hphrase
      exact absurd hphrase (Nat.ne_of_lt hpos)
  | succ fuel ih =>
      unfold countRepeats
      rw [if_neg (by omega)]
      split
      · next hmatch =>
        obtain ⟨tail, rfl, -⟩ := takeBytes_eq_some hmatch.2
        have hlength := length_le_byteLength phrase
        rw [byteLength_append] at hrest
        rw [length_append] at hfuel
        have hsome : 0 < phrase.length := length_pos_iff.mpr fun hnil => by
          rw [hnil] at hphrase
          exact absurd hphrase (Nat.ne_of_lt hpos)
        have hnext : nextPos + phraseLen + byteLength tail = len := by omega
        obtain ⟨n, tail', hcount, htail, hend⟩ := ih hnext (by omega)
        refine ⟨n + 1, tail', ?_, ?_, hend⟩
        · rw [drop_left, hcount]
          rfl
        · rw [times_succ, append_assoc, ← htail]
      · next hmatch =>
        refine ⟨0, rest, rfl, rfl, ?_⟩
        rintro ⟨tail, rfl⟩
        rw [byteLength_append] at hrest
        exact hmatch ⟨by omega, hphrase ▸ takeBytes_append phrase tail⟩

theorem Occurs.room (h : Occurs rest phraseLen minRepeats) :
    phraseLen * minRepeats ≤ byteLength rest := by
  obtain ⟨front, phrase, tail, rfl, rfl⟩ := h
  rw [byteLength_append, byteLength_append, byteLength_times, Nat.mul_comm]
  omega

/-- Where a phrase does not stand often enough, it does so later. -/
theorem Scans.cons {c : Char} {result : Except Outcome Nat}
    (h : Scans scanned minPhraseLen minRepeats phraseLen rest result)
    (hhere : ∀ phrase tail, c :: rest = times minRepeats phrase ++ tail →
      byteLength phrase ≠ phraseLen) :
    Scans scanned minPhraseLen minRepeats phraseLen (c :: rest) result := by
  cases result with
  | error outcome => exact h
  | ok iterations =>
      rintro ⟨before, phrase, tail, heq, hphrase⟩
      cases before with
      | nil => exact hhere phrase tail heq hphrase
      | cons d before =>
        cases heq
        exact h ⟨before, phrase, tail, rfl, hphrase⟩

/-- The loop over the positions finds a phrase of its length that stands often enough. -/
theorem scanPositions_spec (hscanned : byteLength scanned = len) (hlen : len ≤ 64 * 1024)
    (hpos : 0 < phraseLen) (hle : phraseLen ≤ 100) (hmin : minPhraseLen ≤ phraseLen)
    (hrepeats : 0 < minRepeats) (hfits : phraseLen * minRepeats ≤ len) (iterations : Nat)
    {front : List Char} (hfront : scanned = front ++ rest) :
    Scans scanned minPhraseLen minRepeats phraseLen rest
      (scanPositions phraseLen minRepeats len iterations (byteLength front) rest) := by
  induction rest generalizing iterations front with
  | nil =>
      intro hoccurs
      have hroom := hoccurs.room
      have hproduct := Nat.mul_pos hpos hrepeats
      rw [show byteLength [] = 0 from rfl] at hroom
      omega
  | cons c cs ih =>
      have hlength : byteLength front + byteLength (c :: cs) = len := by
        rw [← hscanned, hfront, byteLength_append]
      have hmoved : scanned = front ++ [c] ++ cs := by rw [hfront, append_assoc, singleton_append]
      have hnext := ih (iterations + 1) hmoved
      rw [byteLength_append, show byteLength [c] = c.utf8Size from Nat.add_zero _] at hnext
      unfold scanPositions
      split
      · trivial
      · rw [if_neg (by omega)]
        split
        · next hlast =>
          -- the rest is too short
          intro hoccurs
          have hroom := hoccurs.room
          omega
        · next hfitting =>
          rw [if_neg (by omega)]
          split
          · next hnone =>
            refine hnext.cons fun phrase tail heq hphrase => ?_
            obtain ⟨more, rfl⟩ := Nat.exists_eq_succ_of_ne_zero (Nat.ne_of_gt hrepeats)
            rw [heq, times_succ, append_assoc, ← hphrase, takeBytes_append] at hnone
            cases hnone
          · next phrase hphrase =>
            obtain ⟨tail, htail, hphraseLen⟩ := takeBytes_eq_some hphrase
            have hbytes : byteLength (c :: cs) = phraseLen + byteLength tail := by
              rw [htail, byteLength_append, hphraseLen]
            have hshort : tail.length ≤ cs.length + 1 := by
              have hall := congrArg List.length htail
              rw [length_cons, length_append] at hall
              omega
            have hrest : byteLength front + phraseLen + byteLength tail = len := by omega
            have hbound : len + phraseLen < 2 ^ 64 := by omega
            obtain ⟨more, end', hcount, hmore, hend⟩ :=
              countRepeats_spec hphraseLen hpos hbound hrest hshort
            have hdrop : (c :: cs).drop phrase.length = tail := by rw [htail, drop_left]
            rw [hdrop, hcount]
            dsimp only
            have hstands : c :: cs = times (more + 1) phrase ++ end' := by
              rw [htail, hmore, times_succ, append_assoc]
            split
            · next hoften =>
              refine ⟨?_, hoften, front, end', ?_, rfl, ?_⟩
              · rw [utf8ByteSize_ofList, hphraseLen]
                exact hmin
              · rw [String.toList_ofList, append_assoc, ← hstands, hfront]
              · rwa [String.toList_ofList]
            · next hseldom =>
              refine hnext.cons fun other tail' heq hother => hend ?_
              obtain ⟨missing, rfl⟩ := Nat.exists_eq_add_of_lt (Nat.lt_of_not_le hseldom)
              -- the first bytes are those of one phrase
              have hsame : takeBytes (c :: cs) phraseLen = some other := by
                rw [heq, times_succ, append_assoc, ← hother]
                exact takeBytes_append ..
              cases hphrase.symm.trans hsame
              rw [hstands, Nat.add_assoc _ missing, times_add _ (missing + 1),
                append_assoc] at heq
              rw [append_cancel_left heq, times_succ, append_assoc]
              exact prefix_append ..

/-- The loop over the lengths tells the truth, when no longer phrase stands often enough. -/
theorem scanLengths_honest (hlen : byteLength scanned ≤ 64 * 1024) (hmin : 0 < minPhraseLen)
    (hrepeats : 0 < minRepeats) (iterations : Nat) (hle : phraseLen ≤ 100)
    (hfits : phraseLen * minRepeats ≤ byteLength scanned)
    (hlonger : ∀ longer, phraseLen < longer → longer ≤ 100 →
      ¬ Occurs scanned longer minRepeats) :
    Honest scanned minPhraseLen minRepeats
      (scanLengths minPhraseLen minRepeats scanned iterations phraseLen) := by
  induction phraseLen generalizing iterations with
  | zero => exact fun longer hlong => hlonger longer (by omega)
  | succ phraseLen ih =>
      unfold scanLengths
      split
      · exact fun longer hlong => hlonger longer (by omega)
      · next hlong =>
        have hscan := scanPositions_spec rfl hlen (Nat.succ_pos phraseLen) hle
          (Nat.le_of_not_lt hlong) hrepeats hfits iterations (nil_append scanned).symm
        rw [show byteLength [] = 0 from rfl] at hscan
        split
        · next outcome hend =>
          rw [hend] at hscan
          exact hscan
        · next iterations' hend =>
          rw [hend] at hscan
          have hless : phraseLen * minRepeats ≤ (phraseLen + 1) * minRepeats :=
            Nat.mul_le_mul_right _ (Nat.le_succ _)
          refine ih iterations' (by omega) (hless.trans hfits) fun longer hlt hle => ?_
          rcases Nat.lt_or_eq_of_le hlt with hlt | rfl
          · exact hlonger longer hlt hle
          · exact hscan

/-- The search is exact: it does not panic, what it finds stands as it says in the scanned start of
the text, and a short text in which it finds nothing within its budget has no phrase that stands
often enough. -/
structure FindsExactly (text : String) (minPhraseLen minRepeats : UInt64) : Prop where
  safe : detectRepetitionLoop text minPhraseLen minRepeats ≠ .panicked
  sound : ∀ detection, (detectRepetitionLoop text minPhraseLen minRepeats).result = some detection →
    Repeats (truncateChars text.toList maxScanBytes) minPhraseLen.toNat minRepeats.toNat detection
  complete : text.utf8ByteSize ≤ maxScanBytes →
    (detectRepetitionLoop text minPhraseLen minRepeats).result = none →
    detectRepetitionLoop text minPhraseLen minRepeats ≠ .exhausted →
    ∀ phraseLen, minPhraseLen.toNat ≤ phraseLen → phraseLen ≤ 100 →
      ¬ Occurs text.toList phraseLen minRepeats.toNat

/-- Thresholds of zero find nothing, although a phrase is repeated. -/
theorem not_findsExactly_zero : ¬ FindsExactly "abcabcabc" 0 3 := by
  intro h
  refine h.complete (by decide +kernel) (by decide +kernel) (by decide +kernel) 3 (by decide)
    (by decide) ⟨[], "abc".toList, [], ?_, ?_⟩
  · decide +kernel
  · decide +kernel

/-- What is found in a text of at most the scanned length. -/
theorem Honest.findsExactly {text : String} {minPhraseLen minRepeats : UInt64}
    (h : Honest (truncateChars text.toList maxScanBytes) minPhraseLen.toNat minRepeats.toNat
      (detectRepetitionLoop text minPhraseLen minRepeats)) :
    FindsExactly text minPhraseLen minRepeats := by
  cases hend : detectRepetitionLoop text minPhraseLen minRepeats with
  | panicked =>
      rw [hend] at h
      exact h.elim
  | exhausted =>
      refine ⟨by simp [hend], fun detection hfound => ?_, fun _ _ hbudget => absurd hend hbudget⟩
      rw [hend] at hfound
      cases hfound
  | found detection =>
      refine ⟨by simp [hend], fun detection' hfound => ?_, fun _ hnone => ?_⟩
      · rw [hend] at h hfound
        cases hfound
        exact h
      · rw [hend] at hnone
        cases hnone
  | clean =>
      refine ⟨by simp [hend], fun detection hfound => ?_, fun hshort _ _ => ?_⟩
      · rw [hend] at hfound
        cases hfound
      · rw [hend, truncateChars_eq_self (by rwa [← utf8ByteSize_eq])] at h
        exact h

/-- For every text and all thresholds the search is exact, except that with a threshold of zero it
finds nothing, whatever is repeated. -/
theorem detectRepetitionLoop_findsExactly (text : String) (minPhraseLen minRepeats : UInt64) :
    (minPhraseLen ≠ 0 ∧ minRepeats ≠ 0 → FindsExactly text minPhraseLen minRepeats) ∧
    (minPhraseLen = 0 ∨ minRepeats = 0 →
      detectRepetitionLoop text minPhraseLen minRepeats = .clean) := by
  constructor
  · rintro ⟨hphrase, hrepeats⟩
    have hpos : 0 < minPhraseLen.toNat := UInt64.pos_iff_ne_zero.mpr hphrase
    have hsome : 0 < minRepeats.toNat := UInt64.pos_iff_ne_zero.mpr hrepeats
    have hscanned : byteLength (truncateChars text.toList maxScanBytes) ≤ 64 * 1024 :=
      byteLength_truncateChars_le ..
    refine Honest.findsExactly ?_
    unfold detectRepetitionLoop
    dsimp only
    split
    · next hguard =>
        -- phrases that stand often enough need more room than a short text has
        intro phraseLen hlong hle hoccurs
        have hroom := hoccurs.room
        have hneeds := Nat.mul_le_mul_right minRepeats.toNat hlong
        have hsize : byteLength (truncateChars text.toList maxScanBytes) ≤ text.utf8ByteSize := by
          obtain ⟨rest, hrest⟩ := truncateChars_start text.toList maxScanBytes
          have hall := congrArg byteLength hrest
          rw [byteLength_append, ← utf8ByteSize_eq] at hall
          omega
        have hproduct := Nat.mul_pos hpos hsome
        omega
    · refine scanLengths_honest hscanned hpos hsome 0 (Nat.min_le_right _ _) ?_ ?_
      · exact (Nat.mul_le_mul_right _ (Nat.min_le_left _ _)).trans (Nat.div_mul_le_self _ _)
      · intro longer hlt hle hoccurs
        have hroom := hoccurs.room
        have hdiv : _ / minRepeats.toNat < longer := (min_lt_iff.mp hlt).resolve_right (by omega)
        exact absurd ((Nat.le_div_iff_mul_le hsome).mpr hroom) (Nat.not_le.mpr hdiv)
  · intro hzero
    refine if_pos (.inr (.inl ?_))
    rcases hzero with rfl | rfl
    · exact Nat.zero_mul _
    · exact Nat.mul_zero _

/-- A phrase that stands three times is found. -/
theorem findsExactly_three : FindsExactly "abcabcabc" 3 3 :=
  (detectRepetitionLoop_findsExactly "abcabcabc" 3 3).1 ⟨by decide, by decide⟩

end Omp2.Inference
