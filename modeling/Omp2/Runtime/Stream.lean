import Mathlib.Tactic.Ring
import Omp2.Library.Longest

/-!
# Bounded streams

The output of a process arrives in chunks. A stream keeps the first bytes of it in memory, up to a
limit of bytes and one of lines, and writes the first bytes, up to a larger limit, to a spool file.
What it keeps and whether it says that it is truncated do not depend on how the output was split,
with one exception: an empty chunk that arrives when the spool file is exactly full marks the
spool as truncated although nothing was lost.
-/

namespace Omp2.Runtime

open Longest List

/-- The largest value of a machine word, where the counters saturate. -/
def usizeMax : Nat := 2 ^ 64 - 1

/-- The byte that ends a line. -/
def newline : UInt8 := 10

def saturatingAdd (a b : Nat) : Nat :=
  min (a + b) usizeMax

/-- The kind of stream being accumulated. -/
inductive StreamKind where
  | stdout
  | stderr
  | combined
  deriving DecidableEq, Repr

/-! ## The spool file -/

/-- The spool: the bytes in its open file, the bytes the hash was fed, and its limit. -/
structure StreamSpool where
  writer : Option (List UInt8)
  path : String
  hasher : List UInt8
  spooledBytes : Nat
  maxArtifactBytes : Nat
  spoolTruncated : Bool
  deriving DecidableEq, Repr

def StreamSpool.new (path : String) (maxArtifactBytes : Nat) : StreamSpool :=
  { writer := some [], path, hasher := [], spooledBytes := 0, maxArtifactBytes,
    spoolTruncated := false }

/-- Write a chunk to the spool file. `failure` is the error the disk gives to a write, if it
fails. -/
def StreamSpool.writeChunk (spool : StreamSpool) (chunk : List UInt8) (failure : Option String) :
    Except String StreamSpool :=
  if spool.spoolTruncated then .ok spool
  else
    match spool.writer with
    | none => .error "Spool writer already closed"
    | some written =>
      let remaining := spool.maxArtifactBytes - spool.spooledBytes
      -- The guard does not look at the chunk, as the one in `accumulate` does.
      if remaining = 0 then .ok { spool with spoolTruncated := true }
      else
        let toWrite := min chunk.length remaining
        let spool := { spool with
          spoolTruncated := spool.spoolTruncated || decide (toWrite < chunk.length) }
        if 0 < toWrite then
          match failure with
          | some e => .error e
          | none =>
            .ok { spool with
              writer := some (written ++ chunk.take toWrite)
              hasher := spool.hasher ++ chunk.take toWrite
              spooledBytes := spool.spooledBytes + toWrite }
        else .ok spool

/-! ## The stream -/

/-- A stream: its limits, the bytes it keeps, its spool, and its counters. -/
structure BoundedStream where
  kind : StreamKind
  maxBytes : Nat
  maxLines : Nat
  buffer : List UInt8
  spool : Option StreamSpool
  spoolError : Option String
  observedBytes : Nat
  observedLines : Nat
  acceptedLines : Nat
  truncated : Bool
  deriving DecidableEq, Repr

/-- A fresh stream. When output is captured, `opened` is the path of the new spool file or the
error that creating it gave. -/
def BoundedStream.newWithLimits (kind : StreamKind) (maxBytes maxLines maxArtifactBytes : Nat)
    (captureSpill : Bool) (opened : Except String String) : BoundedStream :=
  let (spool, spoolError) :=
    if captureSpill then
      match opened with
      | .ok path => (some (StreamSpool.new path maxArtifactBytes), none)
      | .error e => (none, some s!"Failed to initialize disk spool: {e}")
    else (none, none)
  { kind, maxBytes, maxLines, buffer := [], spool, spoolError, observedBytes := 0,
    observedLines := 0, acceptedLines := 0, truncated := false }

/-- The loop over the accepted slice: bytes, lines, and whether the line limit stopped it. -/
def acceptBytes (maxLines : Nat) : List UInt8 → Nat → Nat → Nat × Nat × Bool
  | [], acceptedBytes, linesCount => (acceptedBytes, linesCount, false)
  | b :: rest, acceptedBytes, linesCount =>
    if b = newline then
      if maxLines < linesCount + 1 then (acceptedBytes, linesCount + 1, true)
      else acceptBytes maxLines rest (acceptedBytes + 1) (linesCount + 1)
    else acceptBytes maxLines rest (acceptedBytes + 1) linesCount

namespace BoundedStream

/-- Count the bytes and the lines of a chunk. -/
def observe (stream : BoundedStream) (chunk : List UInt8) : BoundedStream :=
  { stream with
    observedBytes := saturatingAdd stream.observedBytes chunk.length
    observedLines := saturatingAdd stream.observedLines (chunk.count newline) }

/-- Hand a chunk to the spool, which is given up when the write fails. -/
def spoolChunk (stream : BoundedStream) (chunk : List UInt8) (failure : Option String) :
    BoundedStream :=
  match stream.spool with
  | none => stream
  | some spool =>
    match spool.writeChunk chunk failure with
    | .ok spool => { stream with spool := some spool }
    | .error e =>
      { stream with spoolError := some s!"Failed writing to disk spool: {e}", spool := none }

/-- Keep what the limits allow of a chunk. -/
def accumulate (stream : BoundedStream) (chunk : List UInt8) : BoundedStream :=
  if stream.truncated then stream
  else
    let remainingBytes := stream.maxBytes - stream.buffer.length
    if remainingBytes = 0 ∧ chunk ≠ [] then { stream with truncated := true }
    else
      let bytesToTake := min chunk.length remainingBytes
      let sliceToAdd := chunk.take bytesToTake
      match acceptBytes stream.maxLines sliceToAdd 0 stream.acceptedLines with
      | (acceptedBytes, linesCount, exceeded) =>
        { stream with
          buffer := stream.buffer ++ sliceToAdd.take acceptedBytes
          acceptedLines := min linesCount stream.maxLines
          truncated :=
            exceeded || decide (bytesToTake < chunk.length ∨ acceptedBytes < bytesToTake) }

/-- Push a chunk of bytes into the stream. -/
def push (stream : BoundedStream) (chunk : List UInt8) (failure : Option String) :
    BoundedStream :=
  ((stream.observe chunk).spoolChunk chunk failure).accumulate chunk

end BoundedStream

/-- A chunk that arrives, and how the disk answers a write of it. -/
structure Push where
  chunk : List UInt8
  failure : Option String
  deriving DecidableEq, Repr

/-- All the bytes that arrive. -/
def Push.bytes (pushes : List Push) : List UInt8 :=
  pushes.flatMap Push.chunk

def BoundedStream.pushAll (stream : BoundedStream) (pushes : List Push) : BoundedStream :=
  pushes.foldl (fun stream arrived => stream.push arrived.chunk arrived.failure) stream

/-! ## What the limits keep -/

/-- The bytes are within the two limits of the buffer. -/
def Within (maxBytes maxLines : Nat) (bytes : List UInt8) : Prop :=
  bytes.length ≤ maxBytes ∧ bytes.count newline ≤ maxLines

theorem within_closed (maxBytes maxLines : Nat) : Closed (Within maxBytes maxLines) := by
  intro kept bytes hinitial hwithin
  exact ⟨hinitial.length_le.trans hwithin.1, (hinitial.sublist.count_le newline).trans hwithin.2⟩

/-- The loop accepts the whole slice, or stops before a newline that would exceed the limit. -/
theorem acceptBytes_cases {maxLines : Nat} (slice : List UInt8) (accepted lines : Nat)
    (hlines : lines ≤ maxLines) :
    (acceptBytes maxLines slice accepted lines =
        (accepted + slice.length, lines + slice.count newline, false) ∧
      lines + slice.count newline ≤ maxLines) ∨
    ∃ kept rest, slice = kept ++ newline :: rest ∧ lines + kept.count newline = maxLines ∧
      acceptBytes maxLines slice accepted lines =
        (accepted + kept.length, maxLines + 1, true) := by
  induction slice generalizing accepted lines with
  | nil => exact .inl ⟨rfl, hlines⟩
  | cons b rest ih =>
      by_cases hb : b = newline
      · subst hb
        by_cases hfull : maxLines < lines + 1
        · have hmax : lines = maxLines := by omega
          refine .inr ⟨[], rest, rfl, by simpa using hmax, ?_⟩
          simp [acceptBytes, hmax]
        · have hstep : acceptBytes maxLines (newline :: rest) accepted lines =
              acceptBytes maxLines rest (accepted + 1) (lines + 1) := by
            simp [acceptBytes, hfull]
          rcases ih (accepted + 1) (lines + 1) (by omega) with
            ⟨hwhole, hle⟩ | ⟨kept, more, rfl, hcount, hstop⟩
          · refine .inl ⟨?_, ?_⟩
            · rw [hstep, hwhole, count_cons_self, length_cons]
              ring_nf
            · rw [count_cons_self]
              omega
          · refine .inr ⟨newline :: kept, more, rfl, ?_, ?_⟩
            · rw [count_cons_self]
              omega
            · rw [hstep, hstop, length_cons]
              ring_nf
      · have hstep : acceptBytes maxLines (b :: rest) accepted lines =
            acceptBytes maxLines rest (accepted + 1) lines := by
          simp [acceptBytes, hb]
        have hcons : ∀ bytes : List UInt8, (b :: bytes).count newline = bytes.count newline :=
          fun bytes => count_cons_of_ne hb
        rcases ih (accepted + 1) lines hlines with
          ⟨hwhole, hle⟩ | ⟨kept, more, rfl, hcount, hstop⟩
        · refine .inl ⟨?_, ?_⟩
          · rw [hstep, hwhole, hcons, length_cons]
            ring_nf
          · rw [hcons]
            exact hle
        · refine .inr ⟨b :: kept, more, rfl, ?_, ?_⟩
          · rw [hcons]
            exact hcount
          · rw [hstep, hstop, length_cons]
            ring_nf

/-! ## The buffer -/

theorem not_within_of_full {maxBytes maxLines : Nat} {bytes : List UInt8} {item : UInt8}
    (h : maxBytes ≤ bytes.length) : ¬Within maxBytes maxLines (bytes ++ [item]) := by
  intro hwithin
  have hlength := hwithin.1
  rw [length_append, length_singleton] at hlength
  omega

theorem not_within_of_lines {maxBytes maxLines : Nat} {bytes : List UInt8}
    (h : bytes.count newline = maxLines) : ¬Within maxBytes maxLines (bytes ++ [newline]) := by
  intro hwithin
  have hcount := hwithin.2
  rw [count_append, count_singleton_self] at hcount
  omega

namespace BoundedStream

variable {stream : BoundedStream} {bytes : List UInt8}

/-- What the buffer holds of the bytes that came so far. -/
structure Holds (stream : BoundedStream) (bytes : List UInt8) : Prop where
  resident : IsLongest (Within stream.maxBytes stream.maxLines) bytes stream.buffer
  cut : stream.truncated = true ↔ stream.buffer.length < bytes.length
  lines : stream.truncated = false → stream.acceptedLines = bytes.count newline
  observedBytes : stream.observedBytes = min bytes.length usizeMax
  observedLines : stream.observedLines = min (bytes.count newline) usizeMax

/-- The parts of a stream the buffer's bookkeeping is about. -/
structure SameBuffer (stream other : BoundedStream) : Prop where
  maxBytes : other.maxBytes = stream.maxBytes
  maxLines : other.maxLines = stream.maxLines
  buffer : other.buffer = stream.buffer
  truncated : other.truncated = stream.truncated
  acceptedLines : other.acceptedLines = stream.acceptedLines
  observedBytes : other.observedBytes = stream.observedBytes
  observedLines : other.observedLines = stream.observedLines

theorem spoolChunk_sameBuffer (stream : BoundedStream) (chunk : List UInt8)
    (failure : Option String) : SameBuffer stream (stream.spoolChunk chunk failure) := by
  unfold spoolChunk
  split
  · exact ⟨rfl, rfl, rfl, rfl, rfl, rfl, rfl⟩
  · split
    · exact ⟨rfl, rfl, rfl, rfl, rfl, rfl, rfl⟩
    · exact ⟨rfl, rfl, rfl, rfl, rfl, rfl, rfl⟩

/-- What accumulating a chunk keeps, from a buffer that holds all that came before. -/
theorem accumulate_open (hopen : stream.truncated = false)
    (hwithin : Within stream.maxBytes stream.maxLines stream.buffer)
    (hlines : stream.acceptedLines = stream.buffer.count newline) (chunk : List UInt8) :
    ∃ kept lines truncated,
      stream.accumulate chunk =
        { stream with buffer := kept, acceptedLines := lines, truncated := truncated } ∧
      IsLongest (Within stream.maxBytes stream.maxLines) (stream.buffer ++ chunk) kept ∧
      (truncated = true ↔ kept.length < (stream.buffer ++ chunk).length) ∧
      (truncated = false → lines = (stream.buffer ++ chunk).count newline) := by
  have hclosed := within_closed stream.maxBytes stream.maxLines
  unfold accumulate
  rw [if_neg (by simp [hopen])]
  by_cases hfull : stream.maxBytes - stream.buffer.length = 0 ∧ chunk ≠ []
  · obtain ⟨hzero, hne⟩ := hfull
    obtain ⟨item, rest, rfl⟩ := exists_cons_of_ne_nil hne
    refine ⟨stream.buffer, stream.acceptedLines, true, ?_, ?_, ?_, ?_⟩
    · rw [if_pos ⟨hzero, hne⟩]
    · exact isLongest_of_next hclosed item rest hwithin
        (not_within_of_full (Nat.sub_eq_zero_iff_le.mp hzero))
    · simp
    · intro h
      cases h
  · rw [if_neg hfull]
    obtain ⟨take, htake⟩ :
        ∃ take, take = min chunk.length (stream.maxBytes - stream.buffer.length) := ⟨_, rfl⟩
    have hle : take ≤ chunk.length := htake ▸ Nat.min_le_left _ _
    have hroom : (stream.buffer ++ chunk.take take).length ≤ stream.maxBytes := by
      have hfit := hwithin.1
      rw [length_append, length_take]
      omega
    have hlength : (chunk.take take).length = take := by
      rw [length_take, Nat.min_eq_left hle]
    have hsplit : chunk = chunk.take take ++ chunk.drop take := (take_append_drop _ _).symm
    simp only [← htake]
    have hmax : stream.acceptedLines ≤ stream.maxLines := hlines ▸ hwithin.2
    rcases acceptBytes_cases (chunk.take take) 0 stream.acceptedLines hmax with
      ⟨hwhole, hcount⟩ | ⟨kept, rest, hkept, hcount, hstop⟩
    · -- The whole slice is accepted: the chunk is cut only where the byte limit cut the slice.
      rw [hlength, Nat.zero_add] at hwhole
      refine ⟨stream.buffer ++ chunk.take take,
        min (stream.acceptedLines + (chunk.take take).count newline) stream.maxLines,
        decide (take < chunk.length ∨ take < take), ?_, ?_, ?_, ?_⟩
      · rw [hwhole]
        simp only [take_take, min_self, Bool.false_or]
      · have hkeep : Within stream.maxBytes stream.maxLines (stream.buffer ++ chunk.take take) :=
          ⟨hroom, by rw [count_append, ← hlines]; exact hcount⟩
        rcases Nat.lt_or_ge take chunk.length with hcut | hall
        · obtain ⟨item, more, hdrop⟩ := exists_cons_of_ne_nil
            (ne_nil_of_length_pos
              (by rw [length_drop]; omega : 0 < (chunk.drop take).length))
          have hfit := hwithin.1
          have hlongest := isLongest_of_next hclosed item more hkeep
            (not_within_of_full (by rw [length_append, hlength]; omega))
          rwa [← hdrop, append_assoc, ← hsplit] at hlongest
        · have hwholeChunk : chunk.take take = chunk := take_of_length_le hall
          rw [hwholeChunk] at hkeep ⊢
          exact isLongest_self hkeep
      · simp only [decide_eq_true_eq, length_append, hlength]
        omega
      · intro hnot
        simp only [decide_eq_false_iff_not, not_or] at hnot
        have hall : chunk.take take = chunk := take_of_length_le (Nat.le_of_not_lt hnot.1)
        rw [hall] at hcount ⊢
        rw [count_append, ← hlines]
        exact Nat.min_eq_left hcount
    · -- The loop stopped at the newline after `kept`.
      have hkeptTake : (chunk.take take).take kept.length = kept := by
        rw [hkept]
        exact take_left' rfl
      refine ⟨stream.buffer ++ kept, min (stream.maxLines + 1) stream.maxLines, true,
        ?_, ?_, ?_, ?_⟩
      · rw [hstop]
        simp only [Nat.zero_add, hkeptTake, Bool.true_or]
      · have hcounted : (stream.buffer ++ kept).count newline = stream.maxLines := by
          rw [count_append, ← hlines]
          exact hcount
        have hshort : (stream.buffer ++ kept).length ≤ stream.maxBytes := by
          refine Nat.le_trans ?_ hroom
          rw [hkept, length_append, length_append, length_append]
          omega
        have hlongest := isLongest_of_next hclosed newline (rest ++ chunk.drop take)
          ⟨hshort, Nat.le_of_eq hcounted⟩ (not_within_of_lines hcounted)
        rwa [append_assoc, ← cons_append, ← append_assoc kept, ← hkept,
          ← hsplit] at hlongest
      · refine iff_of_true rfl ?_
        have hlonger : (stream.buffer ++ kept).length <
            (stream.buffer ++ chunk.take take).length := by
          rw [hkept, length_append, length_append, length_append,
            length_cons]
          omega
        refine Nat.lt_of_lt_of_le hlonger ?_
        rw [length_append, length_append, hlength]
        omega
      · intro h
        cases h

theorem saturatingAdd_min (a b : Nat) :
    saturatingAdd (min a usizeMax) b = min (a + b) usizeMax := by
  unfold saturatingAdd
  omega

theorem holds_newWithLimits (kind : StreamKind) (maxBytes maxLines maxArtifactBytes : Nat)
    (captureSpill : Bool) (opened : Except String String) :
    (newWithLimits kind maxBytes maxLines maxArtifactBytes captureSpill opened).Holds [] :=
  ⟨isLongest_self ⟨Nat.zero_le _, Nat.zero_le _⟩, ⟨nofun, fun h => absurd h (Nat.lt_irrefl 0)⟩,
    fun _ => rfl, rfl, rfl⟩

/-- A push keeps the limits, and what the buffer holds is right after it. -/
theorem Holds.push (h : stream.Holds bytes) (chunk : List UInt8) (failure : Option String) :
    (stream.push chunk failure).Holds (bytes ++ chunk) ∧
      (stream.push chunk failure).maxBytes = stream.maxBytes ∧
      (stream.push chunk failure).maxLines = stream.maxLines := by
  have hspool := spoolChunk_sameBuffer (stream.observe chunk) chunk failure
  have hlimits := within_closed stream.maxBytes stream.maxLines
  obtain ⟨next, hnext⟩ :
      ∃ next, next = (stream.observe chunk).spoolChunk chunk failure := ⟨_, rfl⟩
  have hpush : stream.push chunk failure = next.accumulate chunk := by
    rw [hnext]
    rfl
  rw [← hnext] at hspool
  rw [hpush]
  have hbytes : next.observedBytes = min (bytes ++ chunk).length usizeMax := by
    rw [hspool.observedBytes, length_append, ← saturatingAdd_min, ← h.observedBytes]
    rfl
  have hcount : next.observedLines = min ((bytes ++ chunk).count newline) usizeMax := by
    rw [hspool.observedLines, count_append, ← saturatingAdd_min, ← h.observedLines]
    rfl
  have hmaxBytes : next.maxBytes = stream.maxBytes := hspool.maxBytes
  have hmaxLines : next.maxLines = stream.maxLines := hspool.maxLines
  have hbuffer : next.buffer = stream.buffer := hspool.buffer
  have htruncated : next.truncated = stream.truncated := hspool.truncated
  have hacceptedLines : next.acceptedLines = stream.acceptedLines := hspool.acceptedLines
  cases hstate : stream.truncated with
  | true =>
      have hcut := h.cut.mp hstate
      have hsame : next.accumulate chunk = next := by
        unfold accumulate
        rw [if_pos (htruncated.trans hstate)]
      rw [hsame]
      refine ⟨⟨?_, ?_, ?_, hbytes, hcount⟩, hmaxBytes, hmaxLines⟩
      · rw [hmaxBytes, hmaxLines, hbuffer]
        exact h.resident.append hlimits chunk hcut
      · rw [htruncated, hstate, hbuffer, length_append]
        exact iff_of_true rfl (by omega)
      · intro hnot
        rw [htruncated, hstate] at hnot
        cases hnot
  | false =>
      have hall : stream.buffer = bytes := by
        refine h.resident.initial.eq_of_length_le (Nat.le_of_not_lt fun hlt => ?_)
        rw [h.cut.mpr hlt] at hstate
        cases hstate
      have hwithin : Within next.maxBytes next.maxLines next.buffer := by
        rw [hmaxBytes, hmaxLines, hbuffer]
        exact h.resident.within
      have hlines : next.acceptedLines = next.buffer.count newline := by
        rw [hacceptedLines, hbuffer, h.lines hstate, hall]
      obtain ⟨kept, lines, truncated, heq, hkept, hcut, hcounted⟩ :=
        accumulate_open (htruncated.trans hstate) hwithin hlines chunk
      rw [hbuffer, hall] at hkept hcut hcounted
      rw [heq]
      exact ⟨⟨hkept, hcut, hcounted, hbytes, hcount⟩, hmaxBytes, hmaxLines⟩

end BoundedStream

theorem Push.bytes_cons (arrived : Push) (rest : List Push) :
    Push.bytes (arrived :: rest) = arrived.chunk ++ Push.bytes rest :=
  rfl

/-- After any pushes the buffer holds what it should of all the bytes. -/
theorem BoundedStream.Holds.pushAll {stream : BoundedStream} {bytes : List UInt8}
    (h : stream.Holds bytes) (pushes : List Push) :
    (stream.pushAll pushes).Holds (bytes ++ Push.bytes pushes) ∧
      (stream.pushAll pushes).maxBytes = stream.maxBytes ∧
      (stream.pushAll pushes).maxLines = stream.maxLines := by
  induction pushes generalizing stream bytes with
  | nil =>
      rw [show Push.bytes [] = [] from rfl, append_nil]
      exact ⟨h, rfl, rfl⟩
  | cons arrived rest ih =>
      obtain ⟨hpush, hbytes, hlines⟩ := h.push arrived.chunk arrived.failure
      obtain ⟨hrest, hbytes', hlines'⟩ := ih hpush
      rw [Push.bytes_cons, ← append_assoc]
      exact ⟨hrest, hbytes'.trans hbytes, hlines'.trans hlines⟩

/-! ## The spool -/

namespace StreamSpool

variable {spool : StreamSpool} {bytes : List UInt8} {idle : Prop}

/-- What the spool holds of the bytes that came so far. `idle` says that the last chunk was
empty: a spool that is exactly full is marked as truncated by such a chunk. -/
structure Holds (spool : StreamSpool) (bytes : List UInt8) (idle : Prop) : Prop where
  written : spool.writer = some (bytes.take spool.maxArtifactBytes)
  hashed : spool.hasher = bytes.take spool.maxArtifactBytes
  spooledBytes : spool.spooledBytes = min spool.maxArtifactBytes bytes.length
  truncated : spool.spoolTruncated = true ↔
    spool.maxArtifactBytes < bytes.length ∨ spool.maxArtifactBytes = bytes.length ∧ idle

theorem holds_new (path : String) (maxArtifactBytes : Nat) :
    (new path maxArtifactBytes).Holds [] False :=
  ⟨by simp [new], by simp [new], by simp [new], by simp [new]⟩

/-- The bytes of a chunk that are written when this many came before. -/
def slice (maxArtifactBytes offset : Nat) (chunk : List UInt8) : List UInt8 :=
  chunk.take (maxArtifactBytes - offset)

theorem take_append_slice (maxArtifactBytes : Nat) (bytes chunk : List UInt8) :
    (bytes ++ chunk).take maxArtifactBytes =
      bytes.take maxArtifactBytes ++ slice maxArtifactBytes bytes.length chunk :=
  take_append

theorem slice_eq_nil {maxArtifactBytes offset : Nat} (chunk : List UInt8)
    (h : maxArtifactBytes ≤ offset) : slice maxArtifactBytes offset chunk = [] := by
  unfold slice
  rw [Nat.sub_eq_zero_of_le h, take_zero]

/-- A full spool keeps what it holds and is marked, whatever the chunk is. -/
theorem Holds.full (h : spool.Holds bytes idle) (chunk : List UInt8)
    (hfull : spool.maxArtifactBytes ≤ bytes.length) :
    StreamSpool.Holds { spool with spoolTruncated := true } (bytes ++ chunk) (chunk = []) := by
  have htake : (bytes ++ chunk).take spool.maxArtifactBytes =
      bytes.take spool.maxArtifactBytes := by
    rw [take_append_slice, slice_eq_nil chunk hfull, append_nil]
  refine ⟨h.written.trans (by rw [htake]), h.hashed.trans htake.symm, ?_, ?_⟩
  · refine h.spooledBytes.trans ?_
    show min spool.maxArtifactBytes bytes.length = min spool.maxArtifactBytes _
    rw [length_append]
    omega
  · refine iff_of_true rfl ?_
    show spool.maxArtifactBytes < (bytes ++ chunk).length ∨ _
    rw [length_append]
    cases chunk with
    | nil => exact (Nat.lt_or_eq_of_le hfull).imp id fun heq => ⟨heq, rfl⟩
    | cons item rest =>
      rw [length_cons]
      exact .inl (by omega)

/-- What a spool with room is after the first bytes of a chunk were written. -/
theorem Holds.room (h : spool.Holds bytes idle) (chunk : List UInt8)
    (hroom : bytes.length < spool.maxArtifactBytes) :
    StreamSpool.Holds
      { spool with
        writer := some (bytes ++ slice spool.maxArtifactBytes bytes.length chunk)
        hasher := bytes ++ slice spool.maxArtifactBytes bytes.length chunk
        spooledBytes :=
          spool.spooledBytes + (slice spool.maxArtifactBytes bytes.length chunk).length
        spoolTruncated :=
          decide ((slice spool.maxArtifactBytes bytes.length chunk).length < chunk.length) }
      (bytes ++ chunk) (chunk = []) := by
  have htake : (bytes ++ chunk).take spool.maxArtifactBytes =
      bytes ++ slice spool.maxArtifactBytes bytes.length chunk := by
    rw [take_append_slice, take_of_length_le hroom.le]
  have hlength : (slice spool.maxArtifactBytes bytes.length chunk).length =
      min (spool.maxArtifactBytes - bytes.length) chunk.length := length_take
  have hbytes := h.spooledBytes
  refine ⟨congrArg some htake.symm, htake.symm, ?_, ?_⟩
  · simp only [hlength, length_append]
    omega
  · simp only [hlength, length_append, decide_eq_true_eq]
    refine ⟨fun hcut => .inl (by omega), ?_⟩
    rintro (hcut | ⟨heq, rfl⟩)
    · omega
    · rw [length_nil] at heq
      omega

/-- A write fails when the disk refuses it, and otherwise what the spool holds is right. -/
theorem Holds.writeChunk (h : spool.Holds bytes idle) (chunk : List UInt8)
    (failure : Option String) :
    (slice spool.maxArtifactBytes bytes.length chunk = [] ∨ failure = none) ∧
        (∃ spool', spool.writeChunk chunk failure = .ok spool' ∧
          spool'.maxArtifactBytes = spool.maxArtifactBytes ∧
          spool'.Holds (bytes ++ chunk) (chunk = [])) ∨
      ¬(slice spool.maxArtifactBytes bytes.length chunk = [] ∨ failure = none) ∧
        ∃ e, spool.writeChunk chunk failure = .error e := by
  have hbytes := h.spooledBytes
  rcases Nat.lt_or_ge bytes.length spool.maxArtifactBytes with hroom | hfull
  · have hopen : spool.spoolTruncated = false := by
      refine Bool.eq_false_iff.mpr fun htruncated => ?_
      rcases h.truncated.mp htruncated with hlt | ⟨heq, -⟩
      · omega
      · omega
    have hwritten : spool.writer = some bytes := by
      rw [h.written, take_of_length_le hroom.le]
    have hhashed : spool.hasher = bytes := by
      rw [h.hashed, take_of_length_le hroom.le]
    have hremaining : spool.maxArtifactBytes - spool.spooledBytes =
        spool.maxArtifactBytes - bytes.length := by
      omega
    have hlength : min chunk.length (spool.maxArtifactBytes - bytes.length) =
        (slice spool.maxArtifactBytes bytes.length chunk).length := by
      unfold slice
      rw [length_take, Nat.min_comm]
    have hslice : chunk.take (slice spool.maxArtifactBytes bytes.length chunk).length =
        slice spool.maxArtifactBytes bytes.length chunk := by
      rw [← hlength]
      unfold slice
      rw [take_eq_take_iff]
      omega
    have hholds := h.room chunk hroom
    have hpositive : 0 < (slice spool.maxArtifactBytes bytes.length chunk).length ↔
        slice spool.maxArtifactBytes bytes.length chunk ≠ [] := length_pos_iff
    unfold StreamSpool.writeChunk
    simp only [hopen, hwritten, hhashed, hremaining, Bool.false_eq_true, if_false, hlength,
      hslice, hpositive, Bool.false_or]
    rw [if_neg (by omega : ¬spool.maxArtifactBytes - bytes.length = 0)]
    by_cases hnil : slice spool.maxArtifactBytes bytes.length chunk = []
    · refine .inl ⟨.inl hnil, _, ?_, ?_, hholds⟩
      · rw [if_neg (not_not.mpr hnil), hnil, append_nil, ← hwritten, length_nil,
          Nat.add_zero, ← hhashed]
      · rfl
    · rw [if_pos hnil]
      cases failure with
      | some e => exact .inr ⟨by simp [hnil], e, rfl⟩
      | none => exact .inl ⟨.inr rfl, _, rfl, rfl, hholds⟩
  · -- The spool is full, so nothing is to be written, and the chunk marks it.
    refine .inl ⟨.inl (slice_eq_nil chunk hfull), { spool with spoolTruncated := true }, ?_, rfl,
      h.full chunk hfull⟩
    unfold StreamSpool.writeChunk
    split
    · rename_i htruncated
      rw [← htruncated]
    · rw [h.written]
      simp only
      rw [if_pos (by omega)]

/-- The disk accepts every write that the pushes ask for when `offset` bytes came before. -/
def Delivered (maxArtifactBytes : Nat) : Nat → List Push → Prop
  | _, [] => True
  | offset, arrived :: rest =>
    (slice maxArtifactBytes offset arrived.chunk = [] ∨ arrived.failure = none) ∧
      Delivered maxArtifactBytes (offset + arrived.chunk.length) rest

/-- The last chunk was empty, or there was none and `idle` holds. -/
def LastIdle : Prop → List Push → Prop
  | idle, [] => idle
  | _, arrived :: rest => LastIdle (arrived.chunk = []) rest

theorem lastIdle_iff {idle : Prop} (pushes : List Push) :
    LastIdle idle pushes ↔
      (pushes = [] ∧ idle) ∨ ∃ last, pushes.getLast? = some last ∧ last.chunk = [] := by
  induction pushes generalizing idle with
  | nil => simp [LastIdle]
  | cons arrived rest ih =>
      rw [LastIdle, ih]
      cases rest with
      | nil => simp
      | cons other rest => simp

end StreamSpool

namespace BoundedStream

variable {stream : BoundedStream} {bytes : List UInt8}

theorem accumulate_spool (stream : BoundedStream) (chunk : List UInt8) :
    (stream.accumulate chunk).spool = stream.spool := by
  unfold accumulate
  split
  · rfl
  · dsimp only
    split
    · rfl
    · rfl

theorem pushAll_cons (stream : BoundedStream) (arrived : Push) (rest : List Push) :
    stream.pushAll (arrived :: rest) =
      (stream.push arrived.chunk arrived.failure).pushAll rest :=
  rfl

theorem push_spool (stream : BoundedStream) (chunk : List UInt8) (failure : Option String) :
    (stream.push chunk failure).spool =
      stream.spool.bind fun spool => (spool.writeChunk chunk failure).toOption := by
  unfold push
  rw [accumulate_spool]
  unfold spoolChunk
  rw [show (stream.observe chunk).spool = stream.spool from rfl]
  cases hspool : stream.spool with
  | none => exact hspool
  | some spool =>
      rw [Option.bind_some]
      dsimp only
      cases spool.writeChunk chunk failure with
      | error e => rfl
      | ok spool' => rfl

theorem pushAll_spool_none (h : stream.spool = none) (pushes : List Push) :
    (stream.pushAll pushes).spool = none := by
  induction pushes generalizing stream with
  | nil => exact h
  | cons arrived rest ih =>
      rw [pushAll_cons]
      refine ih ?_
      rw [push_spool, h]
      rfl

/-- The spool holds what it should, or the disk has refused a write and it is gone. -/
theorem pushAll_spool {spool : StreamSpool} {idle : Prop} (hspool : stream.spool = some spool)
    (h : spool.Holds bytes idle) (pushes : List Push) :
    (StreamSpool.Delivered spool.maxArtifactBytes bytes.length pushes ∧
        ∃ spool', (stream.pushAll pushes).spool = some spool' ∧
          spool'.maxArtifactBytes = spool.maxArtifactBytes ∧
          spool'.Holds (bytes ++ Push.bytes pushes) (StreamSpool.LastIdle idle pushes)) ∨
      ¬StreamSpool.Delivered spool.maxArtifactBytes bytes.length pushes ∧
        (stream.pushAll pushes).spool = none := by
  induction pushes generalizing stream spool bytes idle with
  | nil =>
      rw [show Push.bytes [] = [] from rfl, append_nil]
      exact .inl ⟨trivial, spool, hspool, rfl, h⟩
  | cons arrived rest ih =>
      rw [pushAll_cons, Push.bytes_cons, ← append_assoc]
      have hpush := push_spool stream arrived.chunk arrived.failure
      rw [hspool, Option.bind_some] at hpush
      rcases h.writeChunk arrived.chunk arrived.failure with
        ⟨haccept, spool', hwrite, hmax, hholds⟩ | ⟨hrefuse, e, hwrite⟩
      · rw [hwrite] at hpush
        have hrest := ih hpush hholds
        rw [hmax, length_append] at hrest
        rcases hrest with ⟨hdelivered, hfinal⟩ | ⟨hnot, hnone⟩
        · exact .inl ⟨⟨haccept, hdelivered⟩, hfinal⟩
        · exact .inr ⟨fun hdelivered => hnot hdelivered.2, hnone⟩
      · rw [hwrite] at hpush
        exact .inr ⟨fun hdelivered => hrefuse hdelivered.1, pushAll_spool_none hpush rest⟩

/-! ## Chunking -/

/-- The stream is what the bytes alone make it: the longest initial segment within the limits, the
true counts, and a spool with the first bytes that says truthfully whether there were more. -/
structure Exact (stream : BoundedStream) (bytes : List UInt8) : Prop where
  resident : IsLongest (Within stream.maxBytes stream.maxLines) bytes stream.buffer
  cut : stream.truncated = true ↔ stream.buffer.length < bytes.length
  observedBytes : stream.observedBytes = bytes.length
  observedLines : stream.observedLines = bytes.count newline
  spooled : ∀ spool, stream.spool = some spool →
    spool.writer = some (bytes.take spool.maxArtifactBytes) ∧
      (spool.spoolTruncated = true ↔ spool.maxArtifactBytes < bytes.length)

/-- An empty chunk comes last, at a spool that was opened, still works and is exactly full. -/
def MarkedByEmpty (maxArtifactBytes : Nat) (captureSpill : Bool) (opened : Except String String)
    (pushes : List Push) : Prop :=
  captureSpill = true ∧ (∃ path, opened = .ok path) ∧
    StreamSpool.Delivered maxArtifactBytes 0 pushes ∧
    maxArtifactBytes = (Push.bytes pushes).length ∧
    ∃ last, pushes.getLast? = some last ∧ last.chunk = []

/-- A spool that says the truth is exactly one that no empty chunk marked. -/
theorem spooled_iff (kind : StreamKind) (maxBytes maxLines maxArtifactBytes : Nat)
    (captureSpill : Bool) (opened : Except String String) (pushes : List Push) :
    (∀ spool, ((newWithLimits kind maxBytes maxLines maxArtifactBytes captureSpill
        opened).pushAll pushes).spool = some spool →
      spool.writer = some ((Push.bytes pushes).take spool.maxArtifactBytes) ∧
        (spool.spoolTruncated = true ↔ spool.maxArtifactBytes < (Push.bytes pushes).length)) ↔
      ¬MarkedByEmpty maxArtifactBytes captureSpill opened pushes := by
  have hnone : ∀ {stream : BoundedStream}, stream.spool = none →
      ∀ spool, (stream.pushAll pushes).spool = some spool → False := by
    intro stream h spool hspool
    rw [pushAll_spool_none h] at hspool
    cases hspool
  cases captureSpill with
  | false =>
      refine iff_of_true (fun spool hspool => (hnone rfl spool hspool).elim) ?_
      rintro ⟨h, -⟩
      cases h
  | true =>
      cases opened with
      | error e =>
        refine iff_of_true (fun spool hspool => (hnone rfl spool hspool).elim) ?_
        rintro ⟨-, ⟨path, h⟩, -⟩
        cases h
      | ok path =>
        have hopened : (newWithLimits kind maxBytes maxLines maxArtifactBytes true
            (.ok path)).spool = some (StreamSpool.new path maxArtifactBytes) := rfl
        have hfresh := pushAll_spool hopened (StreamSpool.holds_new path maxArtifactBytes) pushes
        rw [nil_append] at hfresh
        rcases hfresh with ⟨hdelivered, spool, hspool, hmax, hholds⟩ | ⟨hnot, hgone⟩
        · have hmax : spool.maxArtifactBytes = maxArtifactBytes := hmax
          have htruncated := hholds.truncated
          rw [StreamSpool.lastIdle_iff] at htruncated
          rw [hspool]
          constructor
          · rintro h ⟨-, -, -, hfull, hlast⟩
            have htrue := htruncated.mpr (.inr ⟨hmax.trans hfull, .inr hlast⟩)
            have hmore := (h spool rfl).2.mp htrue
            omega
          · intro h other hother
            cases hother
            refine ⟨hholds.written, htruncated.trans ⟨?_, .inl⟩⟩
            rintro (hmore | ⟨hfull, ⟨-, hidle⟩ | hlast⟩)
            · exact hmore
            · exact hidle.elim
            · exact absurd ⟨rfl, ⟨path, rfl⟩, hdelivered, hmax.symm.trans hfull, hlast⟩ h
        · refine iff_of_true (fun spool hspool => ?_) fun h => hnot h.2.2.1
          rw [hgone] at hspool
          cases hspool

/-- However the bytes are split, the stream is what they make it, exactly when the counters do not
saturate and no empty chunk comes last at a spool that is exactly full. -/
theorem exact_iff (kind : StreamKind) (maxBytes maxLines maxArtifactBytes : Nat)
    (captureSpill : Bool) (opened : Except String String) (pushes : List Push) :
    ((newWithLimits kind maxBytes maxLines maxArtifactBytes captureSpill opened).pushAll
        pushes).Exact (Push.bytes pushes) ↔
      (Push.bytes pushes).length ≤ usizeMax ∧
        ¬MarkedByEmpty maxArtifactBytes captureSpill opened pushes := by
  have hspooled := spooled_iff kind maxBytes maxLines maxArtifactBytes captureSpill opened pushes
  obtain ⟨hholds, -, -⟩ := (holds_newWithLimits kind maxBytes maxLines maxArtifactBytes
    captureSpill opened).pushAll pushes
  rw [nil_append] at hholds
  constructor
  · intro h
    refine ⟨?_, hspooled.mp h.spooled⟩
    have hbytes := hholds.observedBytes
    rw [h.observedBytes] at hbytes
    omega
  · rintro ⟨hsmall, hunmarked⟩
    have hlines : (Push.bytes pushes).count newline ≤ usizeMax :=
      count_le_length.trans hsmall
    exact ⟨hholds.resident, hholds.cut, by rw [hholds.observedBytes, Nat.min_eq_left hsmall],
      by rw [hholds.observedLines, Nat.min_eq_left hlines], hspooled.mpr hunmarked⟩

/-- One byte fills a spool of one byte, and the empty chunk after it marks the spool. -/
theorem not_exact_empty_chunk :
    ¬((newWithLimits .stdout 8 8 1 true (.ok "spool-1.tmp")).pushAll
        [⟨[65], none⟩, ⟨[], none⟩]).Exact (Push.bytes [⟨[65], none⟩, ⟨[], none⟩]) := by
  intro h
  have hmore := (h.spooled _ rfl).2.mp rfl
  exact absurd hmore (by decide)

end BoundedStream

end Omp2.Runtime
