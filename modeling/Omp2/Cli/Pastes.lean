import Omp2.Cli.InputRuns

/-!
# Pastes in terminal input

On an orderly stream the parser opens a paste at the first start marker, whatever stands before it,
and closes it at the first end marker after that. What stands between the two is one paste event.
-/

namespace Omp2.Cli.Input

open List

/-! ## First markers -/

/-- The marker does not start inside of the bytes that stand before it. -/
def Before (marker bytes : List UInt8) : Prop :=
  ∀ position < bytes.length, ¬ marker <+: (bytes ++ marker).drop position

/-- Nor does it with anything after it. -/
theorem Before.not_start {marker bytes : List UInt8} (h : Before marker bytes) {position : Nat}
    (hposition : position < bytes.length) (rest : List UInt8) :
    ¬ marker <+: (bytes ++ (marker ++ rest)).drop position := by
  intro hstart
  have hle : position ≤ (bytes ++ marker).length := by
    rw [length_append]
    omega
  rw [← append_assoc, drop_append_of_le_length hle] at hstart
  refine h position hposition (prefix_of_prefix_length_le hstart (prefix_append _ _) ?_)
  rw [length_drop, length_append]
  omega

theorem Before.drop {marker bytes : List UInt8} (h : Before marker bytes) (size : Nat) :
    Before marker (bytes.drop size) := by
  intro position hposition hstart
  rw [length_drop] at hposition
  refine h (size + position) (by omega) ?_
  have hle : size ≤ bytes.length := by omega
  rw [← drop_drop, drop_append_of_le_length hle]
  exact hstart

/-- A marker in a stream has a first place. -/
theorem exists_before {marker stream : List UInt8} (h : marker <:+: stream) :
    ∃ bytes rest, stream = bytes ++ (marker ++ rest) ∧ Before marker bytes := by
  induction stream with
  | nil =>
      obtain rfl := infix_nil.mp h
      exact ⟨[], [], rfl, fun _ hposition => absurd hposition (Nat.not_lt_zero _)⟩
  | cons b stream ih =>
      by_cases hstart : marker <+: b :: stream
      · obtain ⟨rest, hrest⟩ := hstart
        exact ⟨[], rest, hrest.symm, fun _ hposition => absurd hposition (Nat.not_lt_zero _)⟩
      · obtain ⟨bytes, rest, rfl, hbefore⟩ := ih ((infix_cons_iff.mp h).resolve_left hstart)
        refine ⟨b :: bytes, rest, rfl, fun position hposition => ?_⟩
        cases position with
        | zero =>
          intro hhere
          refine hstart (hhere.trans ?_)
          rw [drop_zero, ← cons_append, ← append_assoc]
          exact prefix_append _ _
        | succ position => exact hbefore position (Nat.lt_of_succ_lt_succ hposition)

/-! ## The end of a paste -/

/-- What stands before the first end marker is the paste, up to its largest size. -/
theorem scanPaste_end {inner : List UInt8} (h : Before pasteEnd inner) (body rest : List UInt8)
    (hbody : body.length ≤ 65537) :
    scanPaste body (inner ++ (pasteEnd ++ rest)) = .inl ((body ++ inner).take 65537, rest) := by
  induction inner generalizing body with
  | nil =>
      have hmarker : (esc :: ([91, 50, 48, 49, 126] ++ rest)).take 6 = pasteEnd := rfl
      rw [nil_append, append_nil, take_of_length_le hbody]
      change scanPaste body (esc :: ([91, 50, 48, 49, 126] ++ rest)) = _
      rw [scanPaste, hmarker, if_pos (prefix_refl _), if_neg (by simp)]
      rfl
  | cons b inner ih =>
      have hnot : ¬ (b :: (inner ++ (pasteEnd ++ rest))).take 6 <+: pasteEnd := by
        intro hstart
        refine h.not_start (Nat.succ_pos _) rest ?_
        have hlength : ((b :: (inner ++ (pasteEnd ++ rest))).take 6).length = pasteEnd.length := by
          simp only [pasteEnd, length_take, length_cons, length_append,
            length_nil]
          omega
        have hhere := take_prefix 6 (b :: (inner ++ (pasteEnd ++ rest)))
        rw [hstart.eq_of_length hlength] at hhere
        exact hhere
      have htail : Before pasteEnd inner := h.drop 1
      rw [cons_append, scanPaste, if_neg hnot]
      split
      · next hroom =>
        rw [ih htail _ (by rw [length_append]; exact hroom), append_assoc]
        rfl
      · next hfull =>
        have hlength : body.length = 65537 := by omega
        rw [ih htail _ hbody, take_append_of_le_length hlength.ge,
          take_append_of_le_length hlength.ge]

/-- Without an end marker the paste stays open. -/
theorem scanPaste_open {stream : List UInt8} (h : ¬ pasteEnd <:+: stream) (body : List UInt8) :
    ∃ body' rest, scanPaste body stream = .inr (body', rest) := by
  induction stream generalizing body with
  | nil => exact ⟨body, [], rfl⟩
  | cons b stream ih =>
      unfold scanPaste
      split
      · next hmarker =>
        split
        · exact ⟨body, b :: stream, rfl⟩
        · next hlong =>
          have hlength : ((b :: stream).take 6).length = pasteEnd.length := by
            rw [length_take, Nat.min_eq_left (Nat.le_of_not_lt hlong)]
            rfl
          refine absurd ?_ h
          rw [← hmarker.eq_of_length hlength]
          exact (List.take_prefix 6 _).isInfix
      · exact ih (fun hrest => h (hrest.trans (suffix_cons b stream).isInfix)) _

/-! ## The start of a paste -/

/-- The call stopped at a paste that it opened, or before the first start marker. -/
def Reaches : Option Event × Parser → Prop
  | (none, p) => p.paste = some [] ∧ p.pending = []
  | (some _, p) =>
    p.paste = none ∧ ∃ bytes, p.pending = bytes ++ pasteStart ∧ Before pasteStart bytes

/-- A sequence before the first start marker ends before it does, or is the marker. -/
theorem sequence_before {second : UInt8} {more bytes rest : List UInt8}
    (hsecond : second = 91 ∨ second = 79) (hbytes : Before pasteStart bytes)
    (hpending : esc :: second :: more = bytes ++ pasteStart)
    (h : Orderly (esc :: second :: (more ++ rest))) :
    bytes = [] ∨ ∃ inner size, bytes = esc :: second :: inner ∧ more = inner ++ pasteStart ∧
      endFrom (isSgr second more) more = some size ∧ size ≤ inner.length := by
  match bytes, hpending with
  | [], _ => exact .inl rfl
  | [_], hpending =>
      rw [cons_append, nil_append] at hpending
      cases hpending
      rcases hsecond with hsecond | hsecond <;> cases hsecond
  | _ :: _ :: inner, hpending =>
      rw [cons_append, cons_append] at hpending
      cases hpending
      have hsgr : isSgr second (inner ++ pasteStart ++ rest) =
          isSgr second (inner ++ pasteStart) := by
        cases inner with
        | nil => rfl
        | cons => rfl
      have hmarked : pasteStart <+:
          (esc :: second :: (inner ++ pasteStart ++ rest)).drop (inner.length + 2) := by
        rw [drop_succ_cons, drop_succ_cons, append_assoc, drop_left]
        exact prefix_append _ _
      rw [Orderly] at h
      simp only [hsecond, if_true, hsgr] at h
      cases hloose : looseEnd (isSgr second (inner ++ pasteStart))
          (inner ++ pasteStart ++ rest) with
      | none =>
        rw [hloose] at h
        refine absurd hmarked (h.2 _ (Nat.succ_pos _) ?_)
        simp only [length_append, pasteStart, length_cons]
        omega
      | some size =>
        rw [hloose] at h
        obtain ⟨-, hend, h⟩ := h
        split at h
        · next hstart =>
          have hhere := take_prefix (size + 2)
            (esc :: second :: (inner ++ pasteStart ++ rest))
          rw [take_succ_cons, take_succ_cons, hstart, append_assoc] at hhere
          exact absurd hhere (hbytes.not_start (Nat.succ_pos _) rest)
        · have hle : size ≤ inner.length := by
            by_contra hlt
            exact h.1 (inner.length + 2) (Nat.succ_pos _) (by omega) hmarked
          rw [looseEnd_append] at hloose
          cases hfirst : looseEnd (isSgr second (inner ++ pasteStart)) (inner ++ pasteStart) with
          | none =>
            rw [hfirst] at hloose
            obtain ⟨size', -, hsize⟩ := Option.map_eq_some_iff.mp hloose
            have hlength : size' + (inner ++ pasteStart).length = size := hsize
            rw [length_append] at hlength
            simp only [pasteStart, length_cons] at hlength
            omega
          | some first =>
            rw [hfirst] at hloose
            cases hloose
            exact .inr ⟨inner, size, rfl, rfl, endFrom_of_append hfirst hend, hle⟩

/-- A call before the first start marker stops at the paste that it opens, or before the marker. -/
theorem nextFrom_before (rest : List UInt8) (escaped : Bool) (paste : Option (List UInt8))
    (pending bytes : List UInt8) (hescaped : escaped = false) (hpaste : paste = none)
    (hpending : pending = bytes ++ pasteStart) (hbytes : Before pasteStart bytes)
    (h : Orderly (pending ++ rest)) : Reaches (nextFrom 0 escaped paste pending) := by
  have hlength : pending.length = bytes.length + 6 := by
    rw [hpending, length_append]
    rfl
  fun_induction nextFrom 0 escaped paste pending generalizing bytes with
  | case1 | case2 => cases hpaste
  | case3 | case4 | case5 =>
      simp only [length_cons, length_nil] at hlength
      omega
  | case6 escaped age second more hsecond hend hlong =>
      subst hescaped
      exact absurd (hlong.resolve_right (by decide : ¬ 200 < 0)) (Orderly.not_long hsecond h hend)
  | case7 escaped age second more hsecond hend hshort =>
      rcases sequence_before hsecond hbytes hpending h with rfl | ⟨_, _, -, -, hended, -⟩
      · cases hpending
        cases hend
      · rw [hend] at hended
        cases hended
  | case8 escaped second more hsecond size hend sequence hstart ih =>
      rcases sequence_before hsecond hbytes hpending h with
        rfl | ⟨inner, size', rfl, rfl, hended, hle⟩
      · cases hpending
        cases hend
        rw [nextFrom_paste]
        exact ⟨rfl, rfl⟩
      · rw [hend] at hended
        cases hended
        -- a sequence that is the marker would be one inside of the bytes before it
        have hsame : esc :: second :: (inner ++ pasteStart).take size = pasteStart := hstart
        have hhere := take_prefix (size + 2) (esc :: second :: (inner ++ pasteStart))
        rw [take_succ_cons, take_succ_cons, hsame] at hhere
        exact absurd hhere (hbytes 0 (Nat.succ_pos _))
  | case9 escaped second more hsecond size hend event sequence hstart hdecode =>
      rcases sequence_before hsecond hbytes hpending h with
        rfl | ⟨inner, size', rfl, rfl, hended, hle⟩
      · cases hpending
        cases hend
        exact absurd rfl hstart
      · rw [hend] at hended
        cases hended
        exact ⟨rfl, inner.drop size, drop_append_of_le_length hle, hbytes.drop (size + 2)⟩
  | case10 escaped second more hsecond size hend sequence hstart hdecode ih =>
      obtain ⟨-, hsize, hrest⟩ := Orderly.sequence hsecond h hend
      rw [if_neg hstart] at hrest
      rcases sequence_before hsecond hbytes hpending h with
        rfl | ⟨inner, size', rfl, rfl, hended, hle⟩
      · cases hpending
        cases hend
        exact absurd rfl hstart
      · rw [hend] at hended
        cases hended
        have hdrop : (inner ++ pasteStart).drop size = inner.drop size ++ pasteStart :=
          drop_append_of_le_length hle
        refine ih (inner.drop size) rfl rfl hdrop (hbytes.drop (size + 2)) hrest ?_
        rw [hdrop, length_append]
        rfl
  | case11 escaped second more hsecond event p hnext ih =>
      have horderly : Orderly (esc :: second :: (more ++ rest)) := h
      rw [Orderly] at horderly
      simp only [hsecond, if_false, if_true] at horderly
      obtain ⟨event', hevent⟩ := nextFrom_ascii horderly.1 horderly.2.1
      rw [hevent 0 false more] at hnext
      cases hnext
      rcases bytes with _ | ⟨_, _ | ⟨_, inner⟩⟩
      · cases hpending
        exact absurd (.inl rfl) hsecond
      · rw [cons_append, nil_append] at hpending
        cases hpending
        exact absurd rfl horderly.1
      · rw [cons_append, cons_append] at hpending
        cases hpending
        exact ⟨rfl, inner, rfl, hbytes.drop 2⟩
  | case12 escaped second more hsecond event p hother hnext ih =>
      have horderly : Orderly (esc :: second :: (more ++ rest)) := h
      rw [Orderly] at horderly
      simp only [hsecond, if_false, if_true] at horderly
      obtain ⟨event', hevent⟩ := nextFrom_ascii horderly.1 horderly.2.1
      rw [hevent 0 false more] at hnext
      cases hnext
      exact absurd rfl (hother event')
  | case13 escaped first more hfirst event hsingle =>
      cases bytes with
      | nil =>
        cases hpending
        exact absurd rfl hfirst
      | cons _ bytes =>
        rw [cons_append] at hpending
        cases hpending
        exact ⟨rfl, bytes, rfl, hbytes.drop 1⟩
  | case14 escaped first more hfirst hsingle hshort =>
      have hsize := Utf8.size_le first
      cases bytes with
      | nil =>
        cases hpending
        exact absurd rfl hfirst
      | cons _ bytes =>
        rw [length_cons, length_cons] at hlength
        omega
  | case15 escaped first more hfirst hsingle hlong c hstrict =>
      cases bytes with
      | nil =>
        cases hpending
        exact absurd rfl hfirst
      | cons _ bytes =>
        rw [cons_append] at hpending
        cases hpending
        obtain ⟨room, hroom⟩ := Nat.exists_eq_add_of_lt (Utf8.size_pos first)
        rw [Nat.zero_add] at hroom
        have hall := Utf8.le_of_strict hstrict
        rw [hroom, Nat.add_sub_cancel] at hall
        -- the marker starts with ASCII, so no character reaches into it
        have hle : room ≤ bytes.length := by
          by_contra hlt
          obtain ⟨excess, hexcess⟩ := Nat.exists_eq_add_of_lt (Nat.lt_of_not_le hlt)
          rw [hexcess, Nat.add_assoc, take_length_add_append] at hall
          exact absurd (hall esc (mem_append_right _ mem_cons_self)) (by decide)
        refine ⟨rfl, bytes.drop room, ?_, hbytes.drop (room + 1)⟩
        rw [hroom, drop_succ_cons]
        exact drop_append_of_le_length hle
  | case16 escaped first more hfirst hsingle hlong hstrict ih =>
      have horderly := Orderly.char hfirst hsingle hlong h
      simp only [hstrict] at horderly
      cases bytes with
      | nil =>
        cases hpending
        exact absurd rfl hfirst
      | cons _ bytes =>
        rw [cons_append] at hpending
        cases hpending
        refine ih bytes rfl rfl rfl (hbytes.drop 1) horderly ?_
        rw [length_append]
        rfl

/-- The calls before the first start marker open the paste. -/
theorem drain_before {bytes rest : List UInt8} (hbytes : Before pasteStart bytes)
    (h : Orderly (bytes ++ pasteStart ++ rest)) :
    (drain none (bytes ++ pasteStart)).2 = (some [], []) := by
  generalize hpaste : (none : Option (List UInt8)) = paste
  generalize hpending : bytes ++ pasteStart = pending at h
  fun_induction drain paste pending generalizing bytes with
  | case1 paste pending event p hnext events left hrest ih =>
      subst hpaste
      have hreaches := nextFrom_before rest false none pending bytes rfl rfl hpending.symm hbytes h
      have horderly := (nextFrom_stable rest false none pending rfl h).orderly
      rw [hnext] at hreaches horderly
      obtain ⟨hnone, before, hbefore, hmarker⟩ := hreaches
      rw [hnone] at horderly
      have hdrain := ih hmarker hnone.symm hbefore.symm horderly
      rw [hrest] at hdrain
      exact hdrain
  | case2 paste pending p hnext =>
      subst hpaste
      have hreaches := nextFrom_before rest false none pending bytes rfl rfl hpending.symm hbytes h
      rw [hnext] at hreaches
      exact Prod.ext hreaches.1 hreaches.2

/-! ## What a stream decodes to -/

/-- The events of a stream that is read at once. -/
def events (stream : List UInt8) : List Event :=
  (drain none stream).1

/-- The parser opens the first paste after the events of what stands before it. -/
theorem events_before {bytes rest : List UInt8} (hbytes : Before pasteStart bytes)
    (h : Orderly (bytes ++ pasteStart ++ rest)) :
    drain none (bytes ++ pasteStart ++ rest) =
        andThen (events (bytes ++ pasteStart)) (drain (some []) rest) ∧
      OrderlyIn (some []) rest := by
  have hopen := drain_before hbytes h
  obtain ⟨hdrain, horderly⟩ := drain_append none (bytes ++ pasteStart) rest h
  rw [hopen] at hdrain horderly
  exact ⟨hdrain, horderly⟩

/-- What stands between the markers of a paste is in its paste event alone: the stream has no paste;
or its paste stays open, and the events are those of what stands before it; or the paste is closed,
and it is one event between those of what stands before and after it. -/
inductive PasteSafe : List UInt8 → Prop where
  | plain {stream : List UInt8} (hstream : ¬ pasteStart <:+: stream) : PasteSafe stream
  | opened {bytes rest : List UInt8} (hbytes : Before pasteStart bytes)
      (hrest : ¬ pasteEnd <:+: rest)
      (hevents : events (bytes ++ pasteStart ++ rest) = events (bytes ++ pasteStart)) :
      PasteSafe (bytes ++ pasteStart ++ rest)
  | closed {bytes inner rest : List UInt8} (hbytes : Before pasteStart bytes)
      (hinner : Before pasteEnd inner)
      (hevents : events (bytes ++ pasteStart ++ (inner ++ (pasteEnd ++ rest))) =
        events (bytes ++ pasteStart) ++
          .paste (Utf8.lossy (inner.take 65537)) :: events rest)
      (hrest : PasteSafe rest) : PasteSafe (bytes ++ pasteStart ++ (inner ++ (pasteEnd ++ rest)))

theorem PasteSafe.of_orderly (stream : List UInt8) (h : Orderly stream) : PasteSafe stream := by
  induction hlength : stream.length using Nat.strongRecOn generalizing stream with
  | ind length ih =>
      by_cases hstart : pasteStart <:+: stream
      · obtain ⟨bytes, rest, rfl, hbytes⟩ := exists_before hstart
        rw [← append_assoc] at h ⊢
        obtain ⟨hdrain, horderly⟩ := events_before hbytes h
        by_cases hend : pasteEnd <:+: rest
        · obtain ⟨inner, rest, rfl, hinner⟩ := exists_before hend
          have hscan := scanPaste_end hinner [] rest (Nat.zero_le _)
          have hshort : rest.length < length := by
            simp only [length_append, pasteStart, length_cons] at hlength
            omega
          refine .closed hbytes hinner ?_ (ih _ hshort rest (horderly _ _ hscan) rfl)
          have hpaste : drain (some []) (inner ++ (pasteEnd ++ rest)) =
              (.paste (Utf8.lossy (inner.take 65537)) :: events rest, (drain none rest).2) := by
            refine drain_some (p := ⟨rest, false, none⟩) ?_
            rw [nextFrom_paste, hscan]
            rfl
          rw [events, hdrain, hpaste]
          rfl
        · obtain ⟨body, left, hscan⟩ := scanPaste_open hend []
          refine .opened hbytes hend ?_
          have hpaste : drain (some []) rest = ([], some body, left) := by
            refine drain_none (p := ⟨left, false, some body⟩) ?_
            rw [nextFrom_paste, hscan]
          rw [events, hdrain, hpaste]
          exact append_nil _
      · exact .plain hstart

/-- `Parser::default`. -/
def fresh : Parser :=
  ⟨[], false, none⟩

/-- The stream decodes as it should: every run in time gives the events of one read, with the same
bytes left; the calls of any run take each byte once; and no byte of a paste is a key. -/
structure Decodes (stream : List UInt8) : Prop where
  split : ∀ steps, fed steps = stream → Timely fresh steps →
    andThen (run fresh steps).1 (drain (run fresh steps).2.paste (run fresh steps).2.pending) =
      drain none stream
  tile : ∀ steps, fed steps = stream →
    (pieces fresh steps).flatten ++ (run fresh steps).2.pending = stream
  pastes : PasteSafe stream

/-- An orderly stream decodes the same however it is split into reads, and its pastes are safe. -/
theorem decodes_of_orderly (stream : List UInt8) (h : Orderly stream) : Decodes stream where
  split := by
    rintro steps rfl htimely
    exact (run_drain fresh steps h htimely).symm
  tile := by
    rintro steps rfl
    exact pieces_tile fresh steps
  pastes := PasteSafe.of_orderly stream h

/-- An arrow key and a paste. -/
theorem decodes_of_orderly_paste :
    Decodes ([esc, 91, 65] ++ pasteStart ++ [13] ++ pasteEnd) := by
  refine decodes_of_orderly _ ?_
  have hunmarked : Unmarked ([esc, 91, 65] ++ pasteStart ++ [13] ++ pasteEnd) 3 := by
    intro position hpos hlt
    have hcases : position = 1 ∨ position = 2 := by omega
    rcases hcases with rfl | rfl <;> decide
  simp [Orderly, looseEnd, endFrom, endsSequence, isSgr, pasteStart, pasteEnd, scanPaste]
    at hunmarked ⊢
  exact hunmarked

/-- A character after an escape, read in two parts, loses the modifier. -/
theorem not_decodes_split : ¬ ∀ stream, Decodes stream := by
  intro h
  have hintime : ∀ escaped paste pending, ¬ TimesOut 0 escaped paste pending := by
    rintro escaped paste pending ⟨-, -, ⟨-, hage⟩ | ⟨hage, -⟩⟩
    · exact absurd hage (by decide)
    · exact absurd hage (by decide)
  have hsplit := (h [esc, 195, 169]).split [.read [esc, 195], .poll 0, .read [169], .poll 0] rfl
    ⟨hintime _ _ _, hintime _ _ _, trivial⟩
  revert hsplit
  decide +kernel

end Omp2.Cli.Input
