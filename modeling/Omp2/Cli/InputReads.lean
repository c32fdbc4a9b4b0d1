import Omp2.Cli.InputParser

/-!
# Reading terminal input in parts

When no escape times out, a call of the parser depends on the pending bytes and the open paste
alone. Where the stream is orderly, a call that sees only a part of it decides as it would with the
whole stream, so the events do not depend on how the bytes were split into reads.
-/

namespace Omp2.Cli.Input

open List

variable {elapsed : Nat} {escaped : Bool} {first second : UInt8} {rest more : List UInt8}

/-! ## What a call does -/

theorem nextFrom_paste (body pending : List UInt8) :
    nextFrom elapsed escaped (some body) pending =
      match scanPaste body pending with
      | .inl (body, pending) => (some (.paste (Utf8.lossy body)), ⟨pending, escaped, none⟩)
      | .inr (body, pending) => (none, ⟨pending, escaped, some body⟩) := by
  rw [nextFrom] <;> rfl

theorem nextFrom_open (hsecond : second = 91 ∨ second = 79)
    (hend : endFrom (isSgr second more) more = none) (hshort : more.length + 2 ≤ 96)
    (hage : (if escaped then elapsed else 0) < 35) :
    nextFrom elapsed escaped none (esc :: second :: more) =
      (none, ⟨esc :: second :: more, true, none⟩) := by
  rw [nextFrom]
  simp only [hsecond, hend, if_true]
  rw [if_neg (by omega)]

theorem nextFrom_long (hsecond : second = 91 ∨ second = 79)
    (hend : endFrom (isSgr second more) more = none) (hlong : 96 < more.length + 2) :
    nextFrom elapsed escaped none (esc :: second :: more) = (none, ⟨[], false, none⟩) := by
  rw [nextFrom]
  simp only [hsecond, hend, if_true]
  rw [if_pos (.inl hlong)]

theorem nextFrom_start {size : Nat} (hsecond : second = 91 ∨ second = 79)
    (hend : endFrom (isSgr second more) more = some size)
    (hstart : esc :: second :: more.take size = pasteStart) :
    nextFrom elapsed escaped none (esc :: second :: more) =
      nextFrom elapsed false (some []) (more.drop size) := by
  conv_lhs => rw [nextFrom]
  simp only [hsecond, hend, if_true]
  rw [if_pos hstart]

/-- Another sequence. -/
theorem nextFrom_sequence {size : Nat} (hsecond : second = 91 ∨ second = 79)
    (hend : endFrom (isSgr second more) more = some size)
    (hstart : esc :: second :: more.take size ≠ pasteStart) :
    nextFrom elapsed escaped none (esc :: second :: more) =
      match decodeSequence (esc :: second :: more.take size) with
      | some event => (some event, ⟨more.drop size, false, none⟩)
      | none => nextFrom elapsed false none (more.drop size) := by
  conv_lhs => rw [nextFrom]
  simp only [hsecond, hend, if_true]
  rw [if_neg hstart] <;> rfl

theorem nextFrom_alt (hsecond : ¬(second = 91 ∨ second = 79)) :
    nextFrom elapsed escaped none (esc :: second :: more) =
      match nextFrom elapsed false none (second :: more) with
      | (some (.key event), p) => (some (.key { event with alt := true }), p)
      | (_, p) => (none, p) := by
  conv_lhs => rw [nextFrom]
  simp only [hsecond, if_true, if_false] <;> rfl

theorem nextFrom_single {event : KeyEvent} (hfirst : first ≠ esc)
    (hsingle : single first = some event) :
    nextFrom elapsed escaped none (first :: rest) = (some (.key event), ⟨rest, false, none⟩) := by
  rw [nextFrom]
  simp only [hfirst, hsingle, if_false]

theorem nextFrom_short (hfirst : first ≠ esc) (hsingle : single first = none)
    (hshort : rest.length + 1 < Utf8.size first) :
    nextFrom elapsed escaped none (first :: rest) = (none, ⟨first :: rest, false, none⟩) := by
  rw [nextFrom]
  simp only [hfirst, hsingle, if_false, hshort, if_true]

/-- A character, or a byte that is none. -/
theorem nextFrom_char (hfirst : first ≠ esc) (hsingle : single first = none)
    (hlong : ¬ rest.length + 1 < Utf8.size first) :
    nextFrom elapsed escaped none (first :: rest) =
      match (Utf8.strict ((first :: rest).take (Utf8.size first))).bind List.head? with
      | some c => (some (.key ⟨.char c, false, false, false⟩),
          ⟨(first :: rest).drop (Utf8.size first), false, none⟩)
      | none => nextFrom elapsed false none rest := by
  conv_lhs => rw [nextFrom]
  simp only [hfirst, hsingle, if_false, hlong] <;> rfl

/-! ## Time -/

/-- The same event, and the same state but for the pending escape. -/
def Same (r r' : Option Event × Parser) : Prop :=
  r.1 = r'.1 ∧ r.2.paste = r'.2.paste ∧ r.2.pending = r'.2.pending

/-- The call gives up on the pending escape, or on the sequence that it starts. -/
def TimesOut (elapsed : Nat) (escaped : Bool) (paste : Option (List UInt8))
    (pending : List UInt8) : Prop :=
  escaped = true ∧ paste = none ∧
    (pending = [esc] ∧ 35 ≤ elapsed ∨
      200 < elapsed ∧ ∃ second more, pending = esc :: second :: more ∧
        (second = 91 ∨ second = 79) ∧ endFrom (isSgr second more) more = none)

theorem not_timesOut_fresh (elapsed : Nat) (paste : Option (List UInt8)) (pending : List UInt8) :
    ¬ TimesOut elapsed false paste pending :=
  fun h => Bool.noConfusion h.1

/-- A call that does not time out depends on the pending bytes and the open paste alone. -/
theorem nextFrom_timely (elapsed : Nat) (escaped : Bool) (paste : Option (List UInt8))
    (pending : List UInt8) (h : ¬ TimesOut elapsed escaped paste pending) :
    Same (nextFrom elapsed escaped paste pending) (nextFrom 0 false paste pending) := by
  have hfresh : (if false = true then 0 else 0) < 35 := by decide
  fun_induction nextFrom elapsed escaped paste pending with
  | case1 | case2 =>
      rw [nextFrom_paste]
      simp [*, Same]
  | case3 | case4 =>
      rw [nextFrom]
      simp [Same]
  | case5 escaped age hage =>
      -- an escape that is given up is as old as the time that has passed
      cases escaped with
      | false => exact absurd (by decide : 0 < 35) hage
      | true => exact absurd ⟨rfl, rfl, .inl ⟨rfl, Nat.le_of_not_lt hage⟩⟩ h
  | case6 escaped age second more hsecond hend hlong =>
      have hlong' : 96 < more.length + 2 := by
        cases escaped with
        | false => exact hlong.resolve_right (by decide : ¬ 200 < 0)
        | true =>
          refine hlong.resolve_right fun hage => h ⟨rfl, rfl, .inr ⟨hage, second, more, ?_⟩⟩
          exact ⟨rfl, hsecond, hend⟩
      rw [nextFrom_long hsecond hend hlong']
      exact ⟨rfl, rfl, rfl⟩
  | case7 escaped age second more hsecond hend hshort =>
      rw [nextFrom_open hsecond hend (by omega) hfresh]
      exact ⟨rfl, rfl, rfl⟩
  | case8 escaped second more hsecond size hend sequence hstart ih =>
      rw [nextFrom_start hsecond hend hstart]
      exact ih (not_timesOut_fresh _ _ _)
  | case9 escaped second more hsecond size hend event sequence hstart hdecode =>
      rw [nextFrom_sequence hsecond hend hstart, hdecode]
      exact ⟨rfl, rfl, rfl⟩
  | case10 escaped second more hsecond size hend sequence hstart hdecode ih =>
      rw [nextFrom_sequence hsecond hend hstart, hdecode]
      exact ih (not_timesOut_fresh _ _ _)
  | case11 escaped second more hsecond event p hnext ih =>
      rw [nextFrom_alt hsecond]
      replace ih := ih (not_timesOut_fresh _ _ _)
      rw [hnext] at ih
      obtain ⟨hevent, hstate⟩ := ih
      split
      · next event' p' hnext' =>
        rw [hnext'] at hevent hstate
        cases hevent
        exact ⟨rfl, hstate⟩
      · next r p' hother hnext' =>
        rw [hnext'] at hevent
        exact absurd hevent.symm (hother event)
  | case12 escaped second more hsecond event p hother hnext ih =>
      rw [nextFrom_alt hsecond]
      replace ih := ih (not_timesOut_fresh _ _ _)
      rw [hnext] at ih
      obtain ⟨hevent, hstate⟩ := ih
      split
      · next event' p' hnext' =>
        rw [hnext'] at hevent
        exact absurd hevent (hother event')
      · next r p' _ hnext' =>
        rw [hnext'] at hstate
        exact ⟨rfl, hstate⟩
  | case13 escaped first rest hfirst event hsingle =>
      rw [nextFrom_single hfirst hsingle]
      exact ⟨rfl, rfl, rfl⟩
  | case14 escaped first rest hfirst hsingle hshort =>
      rw [nextFrom_short hfirst hsingle hshort]
      exact ⟨rfl, rfl, rfl⟩
  | case15 escaped first rest hfirst hsingle hlong c hstrict =>
      rw [nextFrom_char hfirst hsingle hlong, hstrict]
      exact ⟨rfl, rfl, rfl⟩
  | case16 escaped first rest hfirst hsingle hlong hstrict ih =>
      rw [nextFrom_char hfirst hsingle hlong, hstrict]
      exact ih (not_timesOut_fresh _ _ _)

/-! ## Pastes -/

/-- What is left of a paste, whether it has ended or not. -/
def left : (List UInt8 × List UInt8) ⊕ (List UInt8 × List UInt8) → List UInt8
  | .inl (_, rest) => rest
  | .inr (_, rest) => rest

theorem scanPaste_suffix (body pending : List UInt8) :
    left (scanPaste body pending) <:+ pending := by
  induction pending generalizing body with
  | nil => exact suffix_rfl
  | cons b rest ih =>
      unfold scanPaste
      split
      · split
        · exact suffix_rfl
        · exact drop_suffix 6 (b :: rest)
      · exact (ih _).trans (suffix_cons b rest)

/-- A paste that ends takes the marker at least. -/
theorem scanPaste_lt {body pending text rest : List UInt8}
    (h : scanPaste body pending = .inl (text, rest)) : rest.length < pending.length := by
  induction pending generalizing body with
  | nil => cases h
  | cons b more ih =>
      unfold scanPaste at h
      split at h
      · split at h
        · cases h
        · cases h
          rw [length_drop, length_cons]
          omega
      · exact Nat.lt_succ_of_lt (ih h)

/-- A paste goes on where it was left. -/
theorem scanPaste_append (body pending coming : List UInt8) :
    scanPaste body (pending ++ coming) =
      match scanPaste body pending with
      | .inl (text, rest) => .inl (text, rest ++ coming)
      | .inr (body', rest) => scanPaste body' (rest ++ coming) := by
  induction pending generalizing body with
  | nil => rfl
  | cons b rest ih =>
      by_cases hmarker : (b :: rest).take 6 <+: pasteEnd
      · by_cases hshort : (b :: rest).length < 6
        · have hwait : scanPaste body (b :: rest) = .inr (body, b :: rest) := by
            rw [scanPaste, if_pos hmarker, if_pos hshort]
          rw [hwait]
        · have hlong := Nat.le_of_not_lt hshort
          have hended : scanPaste body (b :: rest) = .inl (body, (b :: rest).drop 6) := by
            rw [scanPaste, if_pos hmarker, if_neg hshort]
          have htake : (b :: rest ++ coming).take 6 = (b :: rest).take 6 :=
            take_append_of_le_length hlong
          have hdrop : (b :: rest ++ coming).drop 6 = (b :: rest).drop 6 ++ coming :=
            drop_append_of_le_length hlong
          rw [cons_append] at htake hdrop
          have hmore : ¬ (b :: (rest ++ coming)).length < 6 := by
            rw [length_cons] at hlong ⊢
            rw [length_append]
            omega
          rw [hended, cons_append, scanPaste, htake, if_pos hmarker, if_neg hmore, hdrop]
      · have hmore : ¬ (b :: (rest ++ coming)).take 6 <+: pasteEnd := by
          intro hstart
          have hfirst : (b :: rest).take 6 <+: (b :: rest ++ coming).take 6 := by
            rw [take_append]
            exact prefix_append _ _
          exact hmarker (hfirst.trans hstart)
        rw [cons_append, scanPaste, if_neg hmore, ih]
        conv_rhs => rw [scanPaste, if_neg hmarker]

/-- What a call consumes is taken from the front. -/
theorem nextFrom_suffix (elapsed : Nat) (escaped : Bool) (paste : Option (List UInt8))
    (pending : List UInt8) : (nextFrom elapsed escaped paste pending).2.pending <:+ pending := by
  fun_induction nextFrom elapsed escaped paste pending with
  | case1 escaped body pending text rest hscan | case2 escaped body pending text rest hscan =>
      have hleft := scanPaste_suffix body pending
      rw [hscan] at hleft
      exact hleft
  | case3 | case4 | case7 | case14 => exact suffix_rfl
  | case5 | case6 => exact nil_suffix
  | case8 escaped second more hsecond size hend sequence hstart ih =>
      exact (ih.trans (drop_suffix _ _)).trans
        ((suffix_cons second more).trans (suffix_cons _ _))
  | case9 escaped second more hsecond size hend event sequence hstart hdecode =>
      exact (drop_suffix _ _).trans
        ((suffix_cons second more).trans (suffix_cons _ _))
  | case10 escaped second more hsecond size hend sequence hstart hdecode ih =>
      exact (ih.trans (drop_suffix _ _)).trans
        ((suffix_cons second more).trans (suffix_cons _ _))
  | case11 escaped second more hsecond event p hnext ih
  | case12 escaped second more hsecond event p hother hnext ih =>
      rw [hnext] at ih
      exact ih.trans (suffix_cons _ _)
  | case13 => exact suffix_cons _ _
  | case15 => exact drop_suffix _ _
  | case16 escaped first rest hfirst hsingle hlong hstrict ih =>
      exact ih.trans (suffix_cons _ _)

/-! ## Orderly streams -/

/-- How many bytes the first possible end of a sequence takes, whatever follows it. -/
def looseEnd (sgr : Bool) : List UInt8 → Option Nat
  | [] => none
  | b :: rest => if endsSequence sgr b none then some 1 else (looseEnd sgr rest).map (· + 1)

theorem looseEnd_le {sgr : Bool} {bytes : List UInt8} {size : Nat}
    (h : looseEnd sgr bytes = some size) : 0 < size ∧ size ≤ bytes.length := by
  induction bytes generalizing size with
  | nil => cases h
  | cons b rest ih =>
      unfold looseEnd at h
      split at h
      · cases h
        exact ⟨Nat.one_pos, Nat.le_add_left _ _⟩
      · obtain ⟨size', hrest, rfl⟩ := Option.map_eq_some_iff.mp h
        exact ⟨Nat.succ_pos _, Nat.succ_le_succ (ih hrest).2⟩

theorem endFrom_pos {sgr : Bool} {bytes : List UInt8} {size : Nat}
    (h : endFrom sgr bytes = some size) : 0 < size := by
  cases bytes with
  | nil => cases h
  | cons b rest =>
      unfold endFrom at h
      split at h
      · cases h
        exact Nat.one_pos
      · obtain ⟨size', _, rfl⟩ := Option.map_eq_some_iff.mp h
        exact Nat.succ_pos _

theorem endsSequence_loose {sgr : Bool} {b : UInt8} {next : Option UInt8}
    (h : endsSequence sgr b next = true) : endsSequence sgr b none = true := by
  unfold endsSequence at h ⊢
  cases sgr with
  | false => exact h
  | true =>
      simp only [if_true, Bool.or_eq_true, Bool.and_eq_true] at h ⊢
      exact h.imp id fun h => ⟨h.1, rfl⟩

theorem endFrom_none {sgr : Bool} {bytes : List UInt8} (h : looseEnd sgr bytes = none) :
    endFrom sgr bytes = none := by
  induction bytes with
  | nil => rfl
  | cons b rest ih =>
      unfold looseEnd at h
      split at h
      · cases h
      · next hloose =>
        unfold endFrom
        rw [if_neg fun hend => hloose (endsSequence_loose hend), ih (Option.map_eq_none_iff.mp h)]
        rfl

theorem looseEnd_append (sgr : Bool) (bytes coming : List UInt8) :
    looseEnd sgr (bytes ++ coming) =
      match looseEnd sgr bytes with
      | some size => some size
      | none => (looseEnd sgr coming).map (· + bytes.length) := by
  induction bytes with
  | nil =>
      cases h : looseEnd sgr coming with
      | none => simp [looseEnd, h]
      | some size => simp [looseEnd, h]
  | cons b rest ih =>
      rw [cons_append, looseEnd, looseEnd, ih]
      split
      · rfl
      · cases looseEnd sgr rest with
        | some size => rfl
        | none =>
          dsimp only [Option.map_none]
          rw [Option.map_map]
          rfl

/-- A possible end that is one with what comes is one without. -/
theorem endFrom_of_append {sgr : Bool} {bytes coming : List UInt8} {size : Nat}
    (hloose : looseEnd sgr bytes = some size) (h : endFrom sgr (bytes ++ coming) = some size) :
    endFrom sgr bytes = some size := by
  induction bytes generalizing size with
  | nil => cases hloose
  | cons b rest ih =>
      rw [cons_append, endFrom] at h
      unfold looseEnd at hloose
      unfold endFrom
      split at hloose
      · next hb =>
        cases hloose
        split at h
        · next hend =>
          have hhere : endsSequence sgr b rest.head? = true := by
            cases rest with
            | nil => exact hb
            | cons c rest => exact hend
          rw [if_pos hhere]
        · obtain ⟨size', hsize', hsize⟩ := Option.map_eq_some_iff.mp h
          have hpos := endFrom_pos hsize'
          omega
      · next hb =>
        have hnot : ∀ next, ¬ endsSequence sgr b next = true :=
          fun _ hend => hb (endsSequence_loose hend)
        rw [if_neg (hnot _)] at h ⊢
        obtain ⟨size', hsize, rfl⟩ := Option.map_eq_some_iff.mp hloose
        obtain ⟨size'', hsize'', heq⟩ := Option.map_eq_some_iff.mp h
        cases heq
        rw [ih hsize hsize'']
        rfl

/-- No paste starts inside of the first bytes. -/
def Unmarked (bytes : List UInt8) (size : Nat) : Prop :=
  ∀ position, 0 < position → position < size → ¬ pasteStart <+: bytes.drop position

/-- The stream is orderly. A sequence ends, or the stream does, before it is longer than the parser
waits for, a mouse release is not followed by a letter, and no paste starts inside of a sequence. An
escape before something else stands before an ASCII byte that is no escape. Pastes, other bytes and
what is no UTF-8 may be anything. -/
def Orderly : List UInt8 → Prop
  | [] => True
  | first :: rest =>
    if first = esc then
      match rest with
      | [] => True
      | second :: more =>
        if second = 91 ∨ second = 79 then
          match looseEnd (isSgr second more) more with
          | none =>
            more.length + 2 ≤ 96 ∧ Unmarked (first :: second :: more) (more.length + 2)
          | some size =>
            size + 1 ≤ 96 ∧ endFrom (isSgr second more) more = some size ∧
              if first :: second :: more.take size = pasteStart then
                ∀ text rest, scanPaste [] (more.drop size) = .inl (text, rest) → Orderly rest
              else Unmarked (first :: second :: more) (size + 2) ∧ Orderly (more.drop size)
        else second ≠ esc ∧ second < 128 ∧ Orderly more
    else
      match single first with
      | some _ => Orderly rest
      | none =>
        if rest.length + 1 < Utf8.size first then True
        else
          match (Utf8.strict ((first :: rest).take (Utf8.size first))).bind List.head? with
          | some _ => Orderly ((first :: rest).drop (Utf8.size first))
          | none => Orderly rest
termination_by bytes => bytes.length
decreasing_by
  · next hscan =>
    have hlt := scanPaste_lt hscan
    rw [List.length_drop] at hlt
    simp only [List.length_cons]
    omega
  · simp only [List.length_cons, List.length_drop]
    omega
  · simp only [List.length_cons]
    omega
  · exact Nat.lt_succ_self _
  · have hsize := Utf8.size_pos first
    simp only [List.length_cons, List.length_drop]
    omega
  · exact Nat.lt_succ_self _

/-- The stream is orderly, or what follows the open paste is. -/
def OrderlyIn : Option (List UInt8) → List UInt8 → Prop
  | none, stream => Orderly stream
  | some body, stream => ∀ text rest, scanPaste body stream = .inl (text, rest) → Orderly rest

/-- A byte of ASCII but the escape is a key, whatever follows it. -/
theorem nextFrom_ascii (hfirst : first ≠ esc) (hascii : first < 128) :
    ∃ event : KeyEvent, ∀ elapsed escaped rest,
      nextFrom elapsed escaped none (first :: rest) = (some (.key event), ⟨rest, false, none⟩) := by
  cases hsingle : single first with
  | some event => exact ⟨event, fun _ _ _ => nextFrom_single hfirst hsingle⟩
  | none =>
      have hsize : Utf8.size first = 1 := if_pos hascii
      have hstrict : Utf8.strict [first] = some [Char.ofNat first.toNat] := by
        simp [Utf8.strict, Utf8.strictFrom, Utf8.decodeFirst, hascii, hsize]
      refine ⟨⟨.char (Char.ofNat first.toNat), false, false, false⟩, fun elapsed escaped rest => ?_⟩
      rw [nextFrom_char hfirst hsingle (by omega), hsize, take_succ_cons, take_zero,
        hstrict]
      rfl

/-- The end of a sequence stays where it is when more bytes come. -/
theorem Orderly.sequence {coming : List UInt8} {size : Nat} (hsecond : second = 91 ∨ second = 79)
    (h : Orderly (esc :: second :: (more ++ coming)))
    (hend : endFrom (isSgr second more) more = some size) :
    endFrom (isSgr second (more ++ coming)) (more ++ coming) = some size ∧ size ≤ more.length ∧
      if esc :: second :: more.take size = pasteStart then
        OrderlyIn (some []) (more.drop size ++ coming)
      else Orderly (more.drop size ++ coming) := by
  have hsgr : isSgr second (more ++ coming) = isSgr second more := by
    cases more with
    | nil => cases hend
    | cons => rfl
  rw [Orderly] at h
  simp only [hsecond, if_true, hsgr] at h
  cases hloose : looseEnd (isSgr second more) more with
  | none =>
      rw [endFrom_none hloose] at hend
      cases hend
  | some first =>
      rw [looseEnd_append, hloose] at h
      obtain ⟨-, hfirst, h⟩ := h
      have hthere := endFrom_of_append hloose hfirst
      rw [hend] at hthere
      cases hthere
      have hle := (looseEnd_le hloose).2
      rw [take_append_of_le_length hle, drop_append_of_le_length hle] at h
      refine ⟨by rw [hsgr, hfirst], hle, ?_⟩
      split at h
      · next hstart =>
        rw [if_pos hstart]
        exact h
      · next hstart =>
        rw [if_neg hstart]
        exact h.2

/-- A sequence that has not ended is no longer than the parser waits for. -/
theorem Orderly.not_long {coming : List UInt8} (hsecond : second = 91 ∨ second = 79)
    (h : Orderly (esc :: second :: (more ++ coming)))
    (hend : endFrom (isSgr second more) more = none) : ¬ 96 < more.length + 2 := by
  intro hmore
  have hsgr : isSgr second (more ++ coming) = isSgr second more := by
    cases more with
    | nil => exact absurd hmore (by decide)
    | cons => rfl
  rw [Orderly] at h
  simp only [hsecond, if_true, hsgr] at h
  rw [looseEnd_append] at h
  cases hloose : looseEnd (isSgr second more) more with
  | some size =>
      rw [hloose] at h
      rw [endFrom_of_append hloose h.2.1] at hend
      cases hend
  | none =>
      rw [hloose] at h
      cases hcoming : looseEnd (isSgr second more) coming with
      | none =>
        rw [hcoming] at h
        have hle := h.1
        rw [length_append] at hle
        omega
      | some size =>
        rw [hcoming] at h
        have hle : size + more.length + 1 ≤ 96 := h.1
        have hpos := (looseEnd_le hcoming).1
        omega

/-- A character stays what it is when more bytes come. -/
theorem Orderly.char {coming : List UInt8} (hfirst : first ≠ esc) (hsingle : single first = none)
    (hlong : ¬ rest.length + 1 < Utf8.size first) (h : Orderly (first :: (rest ++ coming))) :
    match (Utf8.strict ((first :: rest).take (Utf8.size first))).bind List.head? with
    | some _ => Orderly ((first :: rest).drop (Utf8.size first) ++ coming)
    | none => Orderly (rest ++ coming) := by
  have hle : Utf8.size first ≤ (first :: rest).length := Nat.le_of_not_lt hlong
  have hmore : ¬ (rest ++ coming).length + 1 < Utf8.size first := by
    rw [length_append]
    omega
  rw [Orderly.eq_def] at h
  simp only [hfirst, if_false, hsingle, hmore] at h
  rw [← cons_append, take_append_of_le_length hle,
    drop_append_of_le_length hle] at h
  exact h

/-! ## Bytes that come later -/

/-- The result of a call holds up when more bytes come. -/
structure Stable (coming : List UInt8) (paste : Option (List UInt8)) (pending : List UInt8)
    (r : Option Event × Parser) : Prop where
  decided : ∀ event, r.1 = some event →
    nextFrom 0 false paste (pending ++ coming) = (some event, feed r.2 coming)
  waiting : r.1 = none →
    nextFrom 0 false paste (pending ++ coming) = nextFrom 0 false r.2.paste (r.2.pending ++ coming)
  orderly : OrderlyIn r.2.paste (r.2.pending ++ coming)

theorem Stable.wait {coming : List UInt8} {paste : Option (List UInt8)} {pending : List UInt8}
    {escaped : Bool} (h : OrderlyIn paste (pending ++ coming)) :
    Stable coming paste pending (none, ⟨pending, escaped, paste⟩) where
  decided := fun _ hnone => by cases hnone
  waiting := fun _ => rfl
  orderly := h

/-- A call that goes on where another one does is as stable. -/
theorem Stable.go {coming : List UInt8} {paste paste' : Option (List UInt8)}
    {pending pending' : List UInt8} {r : Option Event × Parser}
    (h : Stable coming paste' pending' r)
    (hnext : nextFrom 0 false paste (pending ++ coming) =
      nextFrom 0 false paste' (pending' ++ coming)) : Stable coming paste pending r where
  decided := fun event hevent => hnext.trans (h.decided event hevent)
  waiting := fun hnone => hnext.trans (h.waiting hnone)
  orderly := h.orderly

/-- A call that returns an event, with and without the bytes that come. -/
theorem Stable.event {coming : List UInt8} {paste : Option (List UInt8)} {pending : List UInt8}
    {event : Event} {p : Parser}
    (hnext : nextFrom 0 false paste (pending ++ coming) = (some event, feed p coming))
    (h : OrderlyIn p.paste (p.pending ++ coming)) :
    Stable coming paste pending (some event, p) where
  decided := fun event' hevent => by
    cases hevent
    exact hnext
  waiting := fun hnone => by cases hnone
  orderly := h

theorem nextFrom_stable (coming : List UInt8) (escaped : Bool) (paste : Option (List UInt8))
    (pending : List UInt8) (hescaped : escaped = false)
    (h : OrderlyIn paste (pending ++ coming)) :
    Stable coming paste pending (nextFrom 0 escaped paste pending) := by
  fun_induction nextFrom 0 escaped paste pending with
  | case1 escaped body pending text rest hscan =>
      subst hescaped
      have hcoming : scanPaste body (pending ++ coming) = .inl (text, rest ++ coming) := by
        rw [scanPaste_append, hscan]
      refine .event ?_ (h text _ hcoming)
      rw [nextFrom_paste, hcoming]
      rfl
  | case2 escaped body pending text rest hscan =>
      have hcoming : scanPaste body (pending ++ coming) = scanPaste text (rest ++ coming) := by
        rw [scanPaste_append, hscan]
      have hrest : OrderlyIn (some text) (rest ++ coming) := by
        intro text' rest' hended
        exact h text' rest' (hcoming.trans hended)
      refine (Stable.wait hrest).go ?_
      rw [nextFrom_paste, nextFrom_paste, hcoming]
  | case3 | case4 | case7 | case14 => exact .wait h
  | case5 escaped age hage =>
      subst hescaped
      exact absurd (by decide : 0 < 35) hage
  | case6 escaped age second more hsecond hend hlong =>
      subst hescaped
      have hmore := hlong.resolve_right (by decide : ¬ 200 < 0)
      exact absurd hmore (Orderly.not_long hsecond h hend)
  | case8 escaped second more hsecond size hend sequence hstart ih =>
      obtain ⟨hcoming, hle, hrest⟩ := Orderly.sequence hsecond h hend
      rw [if_pos hstart] at hrest
      refine (ih rfl hrest).go ?_
      have htake : (more ++ coming).take size = more.take size :=
        take_append_of_le_length hle
      have hsame : nextFrom 0 false none (esc :: second :: (more ++ coming)) =
          nextFrom 0 false (some []) ((more ++ coming).drop size) := by
        refine nextFrom_start hsecond hcoming ?_
        rw [htake]
        exact hstart
      rw [drop_append_of_le_length hle] at hsame
      exact hsame
  | case9 escaped second more hsecond size hend event sequence hstart hdecode =>
      obtain ⟨hcoming, hle, hrest⟩ := Orderly.sequence hsecond h hend
      rw [if_neg hstart] at hrest
      refine .event ?_ hrest
      have htake : (more ++ coming).take size = more.take size :=
        take_append_of_le_length hle
      have hnotStart : esc :: second :: (more ++ coming).take size ≠ pasteStart := by
        rw [htake]
        exact hstart
      have hsame : nextFrom 0 false none (esc :: second :: (more ++ coming)) = _ :=
        nextFrom_sequence hsecond hcoming hnotStart
      rw [htake, drop_append_of_le_length hle, hdecode] at hsame
      exact hsame
  | case10 escaped second more hsecond size hend sequence hstart hdecode ih =>
      obtain ⟨hcoming, hle, hrest⟩ := Orderly.sequence hsecond h hend
      rw [if_neg hstart] at hrest
      refine (ih rfl hrest).go ?_
      have htake : (more ++ coming).take size = more.take size :=
        take_append_of_le_length hle
      have hnotStart : esc :: second :: (more ++ coming).take size ≠ pasteStart := by
        rw [htake]
        exact hstart
      have hsame : nextFrom 0 false none (esc :: second :: (more ++ coming)) = _ :=
        nextFrom_sequence hsecond hcoming hnotStart
      rw [htake, drop_append_of_le_length hle, hdecode] at hsame
      exact hsame
  | case11 escaped second more hsecond event p hnext ih =>
      have horderly : Orderly (esc :: second :: (more ++ coming)) := h
      rw [Orderly] at horderly
      simp only [hsecond, if_false, if_true] at horderly
      obtain ⟨event', hevent⟩ := nextFrom_ascii horderly.1 horderly.2.1
      rw [hevent 0 false more] at hnext
      cases hnext
      refine .event ?_ horderly.2.2
      rw [cons_append, cons_append, nextFrom_alt hsecond, hevent]
      rfl
  | case12 escaped second more hsecond event p hother hnext ih =>
      have horderly : Orderly (esc :: second :: (more ++ coming)) := h
      rw [Orderly] at horderly
      simp only [hsecond, if_false, if_true] at horderly
      obtain ⟨event', hevent⟩ := nextFrom_ascii horderly.1 horderly.2.1
      rw [hevent 0 false more] at hnext
      cases hnext
      exact absurd rfl (hother event')
  | case13 escaped first rest hfirst event hsingle =>
      have horderly : Orderly (first :: (rest ++ coming)) := h
      rw [Orderly.eq_def] at horderly
      simp only [hfirst, if_false, hsingle] at horderly
      exact .event (nextFrom_single hfirst hsingle) horderly
  | case15 escaped first rest hfirst hsingle hlong c hstrict =>
      have hle : Utf8.size first ≤ (first :: rest).length := Nat.le_of_not_lt hlong
      have horderly := Orderly.char hfirst hsingle hlong h
      simp only [hstrict] at horderly
      refine .event ?_ horderly
      have hmore : ¬ (rest ++ coming).length + 1 < Utf8.size first := by
        rw [length_append]
        omega
      have hsame : nextFrom 0 false none (first :: (rest ++ coming)) = _ :=
        nextFrom_char hfirst hsingle hmore
      rw [← cons_append, take_append_of_le_length hle,
        drop_append_of_le_length hle, hstrict] at hsame
      exact hsame
  | case16 escaped first rest hfirst hsingle hlong hstrict ih =>
      have hle : Utf8.size first ≤ (first :: rest).length := Nat.le_of_not_lt hlong
      have horderly := Orderly.char hfirst hsingle hlong h
      simp only [hstrict] at horderly
      refine (ih rfl horderly).go ?_
      have hmore : ¬ (rest ++ coming).length + 1 < Utf8.size first := by
        rw [length_append]
        omega
      have hsame : nextFrom 0 false none (first :: (rest ++ coming)) = _ :=
        nextFrom_char hfirst hsingle hmore
      rw [← cons_append, take_append_of_le_length hle, hstrict] at hsame
      exact hsame

end Omp2.Cli.Input
