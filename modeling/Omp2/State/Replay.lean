import Omp2.State.Branches

/-!
# Reading a journal back

What `openFile` makes of the frames of a journal. A record is read back as it was written
exactly when its patch is `Storable`: durable, and nested less deeply than the reader
accepts. The scan of the frames of storable records rebuilds the journal that wrote them.
-/

namespace Omp2

open Omp2.Json

variable [SerdeJson]

/-- A patch that a journal reads back as it was written. -/
structure Patch.Storable (p : Patch) : Prop where
  durable : p.Durable
  shallow : (toValue p).depth + 1 < recursionLimit

omit [SerdeJson] in
theorem depth_author (a : PatchAuthor) : (toValue a).depth = 1 := by
  cases a <;> rfl

/-- Whether a patch is storable does not depend on its author. -/
theorem Patch.Storable.author {p : Patch} (h : p.Storable) (author : PatchAuthor) :
    ({ p with author } : Patch).Storable := by
  have hauthor := depth_author p.author
  have hauthor' := depth_author author
  have hdepth : (toValue ({ p with author } : Patch)).depth = (toValue p).depth := by
    show (Patch.serialize _).depth = (Patch.serialize p).depth
    simp only [Patch.serialize, Value.depth, entriesDepth, hauthor, hauthor']
  exact ⟨h.durable, by rw [hdepth]; exact h.shallow⟩

end Omp2

namespace Omp2.State

open Omp2.Json VersionTree

variable [SerdeJson]

/-! ## Records as bytes -/

/-- A record as this version of the program writes it. -/
structure JournalRecord.Native (r : JournalRecord) : Prop where
  version : r.protocolVersion = .current
  causal : r.causal = none

/-- The payload of the frame of a record. -/
def JournalRecord.payload (r : JournalRecord) : List UInt8 :=
  SerdeJson.toVec (toValue r)

omit [SerdeJson] in
theorem roundTrips_header (h : Header) : RoundTrips h := by
  show Header.deserialize h.serialize = .ok h
  simp [Header.serialize, Header.deserialize, field, lookup, (roundTrips_id h.sessionId).read,
    (roundTrips_string h.format).read, (roundTrips_version h.version).read, bind, Except.bind,
    pure, Except.pure]

/-- A record without a cause is read back exactly when its patch is. -/
theorem roundTrips_record {r : JournalRecord} (hcausal : r.causal = none) :
    RoundTrips r ↔ r.patch.Durable := by
  rw [← roundTrips_patch]
  unfold RoundTrips
  show JournalRecord.deserialize r.serialize = .ok r ↔ _
  cases r with
  | mk offset timestampMs sessionId branchId parentOffset patch actor version checksum causal =>
      obtain rfl : causal = none := hcausal
      have hcause := (roundTrips_option_value none).mpr (by simp)
      cases hpatch : fromValue (α := Patch) (toValue patch) <;>
        simp [JournalRecord.serialize, JournalRecord.deserialize, field, lookup,
          (roundTrips_u64 offset).read, (roundTrips_u64 timestampMs).read,
          (roundTrips_id sessionId).read, (roundTrips_id branchId).read,
          (roundTrips_u64 parentOffset).read, (roundTrips_author actor).read,
          (roundTrips_version version).read, (roundTrips_string checksum).read, hpatch,
          hcause.read, bind, Except.bind, pure, Except.pure]

theorem depth_patch (p : Patch) : 2 ≤ (toValue p).depth := by
  have hauthor := depth_author p.author
  show 2 ≤ (Patch.serialize p).depth
  simp only [Patch.serialize, Value.depth, entriesDepth, hauthor]
  omega

/-- A record without a cause nests one deeper than its patch. -/
theorem depth_record {r : JournalRecord} (hcausal : r.causal = none) :
    (toValue r).depth = (toValue r.patch).depth + 1 := by
  have hpatch := depth_patch r.patch
  have hauthor := depth_author r.actor
  have hversion : (toValue r.protocolVersion).depth = 1 := rfl
  have hcause : (toValue r.causal).depth = 0 := by rw [hcausal]; rfl
  have hflat : ∀ n : UInt64, (toValue n).depth = 0 := fun _ => rfl
  have hname : ∀ {kind : IdKind} (id : Id kind), (toValue id).depth = 0 := fun _ => rfl
  have htext : (toValue r.checksum).depth = 0 := rfl
  show (JournalRecord.serialize r).depth = _
  simp only [JournalRecord.serialize, Value.depth, entriesDepth, hauthor, hversion, hcause, hflat,
    hname, htext]
  omega

/-- A record without a cause is decoded from its payload exactly when its patch is storable. -/
theorem fromSlice_payload_iff {r : JournalRecord} (hcausal : r.causal = none) :
    fromSlice r.payload = .ok r ↔ r.patch.Storable := by
  have hdepth := depth_record hcausal
  have hread : (toValue r).depth < recursionLimit → (fromSlice r.payload = .ok r ↔
      r.patch.Durable) := by
    intro hshallow
    rw [← roundTrips_record hcausal]
    unfold fromSlice JournalRecord.payload RoundTrips
    rw [SerdeJson.fromSlice_toVec _ hshallow]
    cases hvalue : fromValue (α := JournalRecord) (toValue r) <;> simp [hvalue]
  constructor
  · intro h
    have hshallow : (toValue r).depth < recursionLimit := by
      by_contra hdeep
      obtain ⟨e, he⟩ := SerdeJson.fromSlice_deep _ (Nat.le_of_not_lt hdeep)
      unfold fromSlice JournalRecord.payload at h
      rw [he] at h
      cases h
    exact ⟨(hread hshallow).mp h, hdepth ▸ hshallow⟩
  · intro h
    exact (hread (hdepth ▸ h.shallow)).mpr h.durable

/-- A record whose patch cannot be decoded is not decoded. -/
theorem fromSlice_payload_error {r : JournalRecord} {e : String}
    (h : fromValue (α := Patch) (toValue r.patch) = .error e) :
    ∃ e, fromSlice (α := JournalRecord) r.payload = .error e := by
  unfold fromSlice JournalRecord.payload
  by_cases hdeep : recursionLimit ≤ (toValue r).depth
  · obtain ⟨e, he⟩ := SerdeJson.fromSlice_deep _ hdeep
    rw [he]
    exact ⟨_, rfl⟩
  · rw [SerdeJson.fromSlice_toVec _ (Nat.lt_of_not_le hdeep)]
    have hvalue : fromValue (α := JournalRecord) (toValue r) = .error e := by
      show JournalRecord.deserialize r.serialize = .error e
      simp [JournalRecord.serialize, JournalRecord.deserialize, field, lookup,
        (roundTrips_u64 r.offset).read, (roundTrips_u64 r.timestampMs).read,
        (roundTrips_id r.sessionId).read, (roundTrips_id r.branchId).read,
        (roundTrips_u64 r.parentOffset).read, h, bind, Except.bind]
    dsimp only
    rw [hvalue]
    exact ⟨_, rfl⟩

namespace Journal

variable {sessionId : SessionId} {j : Journal} {log : List JournalRecord} {v : Nat}

/-! ## Replaying frames -/

/-- Opening accepts the storable record that comes next in the log. -/
theorem Based.openFrame {r : JournalRecord} (h : Coherent sessionId j log)
    (hcomplete : VersionTree.Complete (recordStore sessionId) (log ++ [r]))
    (hlinked : WellLinked sessionId log.length r) (hnative : r.Native)
    (hstorable : r.patch.Storable) :
    ∃ s, j.openFrame r.payload = (j.accept r s, none) ∧
      Coherent sessionId (j.accept r s) (log ++ [r]) := by
  have hlatest := h.latestOffset
  obtain ⟨s', hs'⟩ := hcomplete.states (log.length + 1) (by simp)
  obtain ⟨edit, s, hedit, hparent, happly⟩ := hs'.of_succ
  obtain rfl : r = edit := by simpa using hedit
  obtain ⟨s₁, hpatch, rfl⟩ := replayRecord_ok happly
  obtain ⟨hsession, _, _⟩ := SessionSnapshot.applyPatch_rest hpatch
  -- the parent is a version of the log that has been replayed so far
  have hbefore : At (recordStore sessionId) log r.parentOffset.toNat s :=
    hparent.restrict hcomplete.ordered hlinked.parent
  have hcoherent : Coherent sessionId (j.accept r s₁) (log ++ [r]) :=
    h.extend hlinked hcomplete hs' (hsession.trans (h.at_version hbefore).session)
  have hvalid : j.validateRecord r = .ok () := by
    have hnext : r.offset = j.latestOffset + 1 := by
      have hlt := r.offset.toNat_lt
      rw [hlinked.offset] at hlt
      refine UInt64.toNat_inj.mp ?_
      rw [hlinked.offset, UInt64.toNat_add, hlatest]
      exact (Nat.mod_eq_of_lt hlt).symm
    have hlater : ¬ r.offset ≤ r.parentOffset := by
      have hle := hlinked.parent
      rw [UInt64.le_iff_toNat_le, hlinked.offset]
      omega
    unfold validateRecord
    rw [if_neg]
    simp [← hnext, hlater, hlinked.base, hlinked.result, hlinked.author, hlinked.session, h.session,
      hnative.version, ← hlinked.checksum, ProtocolVersion.current]
  refine ⟨s₁, ?_, hcoherent⟩
  unfold Journal.openFrame
  rw [(fromSlice_payload_iff hnative.causal).mpr hstorable]
  dsimp only
  rw [hvalid]
  dsimp only
  by_cases hrunning : r.parentOffset = j.snapshot.offset
  · have hversion : r.parentOffset.toNat = log.length := by
      rw [hrunning, (h.at_version h.live).offset]
    obtain rfl : s = j.snapshot := (hversion ▸ hbefore).unique h.live
    rw [if_pos hrunning, hpatch]
  · rw [if_neg hrunning, h.materialize_iff.mpr hbefore]
    dsimp only
    rw [hpatch]

/-- A frame is accepted with the record that was decoded from it, or the records stay. -/
theorem openFrame_cases {j' : Journal} {bytes : List UInt8} {result : Option StateError}
    (h : j.openFrame bytes = (j', result)) :
    (∃ record s, result = none ∧ fromSlice bytes = .ok record ∧ j.validateRecord record = .ok () ∧
      j' = j.accept record s) ∨
      (∃ e, result = some e) ∧ j'.records = j.records := by
  unfold Journal.openFrame at h
  split at h
  · cases h
    exact .inr ⟨⟨_, rfl⟩, rfl⟩
  · next record hrecord =>
    split at h
    · cases h
      exact .inr ⟨⟨_, rfl⟩, rfl⟩
    · next hvalid =>
      split at h
      · split at h
        · cases h
          exact .inr ⟨⟨_, rfl⟩, rfl⟩
        · next s _ =>
          cases h
          exact .inl ⟨record, s, rfl, hrecord, hvalid, rfl⟩
      · split at h
        · cases h
          exact .inr ⟨⟨_, rfl⟩, rfl⟩
        · split at h
          · cases h
            exact .inr ⟨⟨_, rfl⟩, rfl⟩
          · next s _ =>
            cases h
            exact .inl ⟨record, s, rfl, hrecord, hvalid, rfl⟩

theorem validateRecord_ok {record : JournalRecord} (h : j.validateRecord record = .ok ()) :
    record.offset = j.latestOffset + 1 ∧ record.parentOffset < record.offset := by
  unfold validateRecord at h
  split at h
  · cases h
  · next hvalid =>
    simp only [not_or, not_not, UInt64.not_le] at hvalid
    exact ⟨hvalid.1, hvalid.2.1⟩

/-- Opening one more frame keeps the records. -/
theorem openFrame_keeps {o : UInt64} {r : JournalRecord} (hr : j.records[o]? = some r)
    (bytes : List UInt8) : (j.openFrame bytes).1.records[o]? = some r := by
  rcases openFrame_cases (Prod.mk.eta (p := j.openFrame bytes)).symm with
    ⟨record, s, _, _, hvalid, hj⟩ | ⟨_, hsame⟩
  · obtain ⟨hnext, hlater⟩ := validateRecord_ok hvalid
    have hmem : o ∈ j.records := by
      rw [Std.ExtTreeMap.mem_iff_isSome_getElem?, hr]
      rfl
    -- the last offset is an upper bound, so the new one is above `o`
    have hle : o ≤ j.latestOffset := by
      unfold Journal.latestOffset
      cases hmax : j.records.maxKey? with
      | none =>
        rw [Std.ExtTreeMap.maxKey?_eq_none_iff] at hmax
        rw [hmax] at hmem
        exact absurd hmem Std.ExtTreeMap.not_mem_empty
      | some last =>
        exact Std.isLE_compare.mp
          ((Std.ExtTreeMap.maxKey?_eq_some_iff_mem_and_forall.mp hmax).2 o hmem)
    have hne : record.offset ≠ o := by
      rintro rfl
      rw [hnext] at hle hlater
      have hle' := UInt64.le_iff_toNat_le.mp hle
      have hpos := Nat.zero_lt_of_lt (UInt64.lt_iff_toNat_lt.mp hlater)
      rw [UInt64.toNat_add, show (1 : UInt64).toNat = 1 from rfl] at hle' hpos
      have hlt := j.latestOffset.toNat_lt
      omega
    rw [hj]
    show (j.records.insert record.offset record)[o]? = some r
    rw [Std.ExtTreeMap.getElem?_insert, if_neg (fun heq => hne (Std.compare_eq_iff_eq.mp heq))]
    exact hr
  · rw [hsame]
    exact hr

/-- The frames of the records of a log. -/
def logFrames (log : List JournalRecord) : List UInt8 :=
  frameFormat.frames (log.map JournalRecord.payload)

theorem length_logFrames (log : List JournalRecord) : log.length ≤ (logFrames log).length := by
  induction log with
  | nil => exact Nat.le_refl _
  | cons r log ih =>
      show log.length + 1 ≤ (frameFormat.frame r.payload ++ logFrames log).length
      rw [List.length_append, Frames.Format.length_frame]
      omega

theorem logFrames_append (log more : List JournalRecord) :
    logFrames (log ++ more) = logFrames log ++ logFrames more := by
  simp [logFrames, Frames.Format.frames]

/-- Scanning the frames of storable records that continue a log replays them. -/
theorem Based.scan {more : List JournalRecord} (h : Coherent sessionId j log)
    (hcomplete : VersionTree.Complete (recordStore sessionId) (log ++ more))
    (hlinked : ∀ i r, (log ++ more)[i]? = some r → WellLinked sessionId i r)
    (hnative : ∀ r ∈ more, r.Native) (hstorable : ∀ r ∈ more, r.patch.Storable)
    (hshort : ∀ r ∈ more, r.payload.length ≤ maxWireBytes)
    (fuel position : Nat) (tail : List UInt8) :
    ∃ j', Coherent sessionId j' (log ++ more) ∧ j'.file = j.file ∧ j'.recovery = j.recovery ∧
      j'.failed = j.failed ∧
      frameFormat.scan Journal.openFrame frameError (more.length + fuel) j position
        (logFrames more ++ tail) =
      frameFormat.scan Journal.openFrame frameError fuel j'
        (position + (logFrames more).length) tail := by
  induction more generalizing j log position with
  | nil =>
      rw [List.append_nil]
      exact ⟨j, h, rfl, rfl, rfl, by rw [List.length_nil, Nat.zero_add]; rfl⟩
  | cons r more ih =>
      obtain ⟨hr, hmore⟩ := List.forall_mem_cons.mp hstorable
      obtain ⟨hrshort, hmoreshort⟩ := List.forall_mem_cons.mp hshort
      obtain ⟨hrnative, hmorenative⟩ := List.forall_mem_cons.mp hnative
      have hsplit : log ++ r :: more = (log ++ [r]) ++ more := by simp
      rw [hsplit] at hcomplete hlinked ⊢
      obtain ⟨s, hopen, hnext⟩ :=
        h.openFrame hcomplete.restrict (hlinked _ r (by simp)) hrnative hr
      obtain ⟨j', hj', hfile, hrecovery, hfailed, hscan⟩ := ih hnext hcomplete hlinked hmorenative
        hmore hmoreshort (position + (frameFormat.frame r.payload).length)
      refine ⟨j', hj', hfile, hrecovery, hfailed, ?_⟩
      have hframes : logFrames (r :: more) = frameFormat.frame r.payload ++ logFrames more := rfl
      rw [hframes, List.append_assoc, List.length_append, ← Nat.add_assoc, ← hscan]
      rw [show (r :: more).length + fuel = more.length + fuel + 1 by
        rw [List.length_cons]; omega]
      exact Frames.Format.scan_frame _ hrshort hopen

/-- A scan that reads what was written without an error has read storable records. -/
theorem Based.storable_of_scan {more : List JournalRecord} (h : Coherent sessionId j log)
    (hcomplete : VersionTree.Complete (recordStore sessionId) (log ++ more))
    (hlinked : ∀ i r, (log ++ more)[i]? = some r → WellLinked sessionId i r)
    (hnative : ∀ r ∈ more, r.Native)
    (hshort : ∀ r ∈ more, r.payload.length ≤ maxWireBytes) {fuel position finish : Nat}
    {j' : Journal} (hfuel : more.length ≤ fuel)
    (hscan : frameFormat.scan Journal.openFrame frameError fuel j position (logFrames more) =
      (j', finish, none))
    (hrecords : ∀ r ∈ more, j'.records[r.offset]? = some r) :
    ∀ r ∈ more, r.patch.Storable := by
  induction more generalizing j log position fuel with
  | nil => exact fun r hr => absurd hr List.not_mem_nil
  | cons r more ih =>
      obtain ⟨hrshort, hmoreshort⟩ := List.forall_mem_cons.mp hshort
      obtain ⟨hrnative, hmorenative⟩ := List.forall_mem_cons.mp hnative
      obtain ⟨hr, hmore⟩ := List.forall_mem_cons.mp hrecords
      have hsplit : log ++ r :: more = (log ++ [r]) ++ more := by simp
      rw [hsplit] at hcomplete hlinked
      have hrlinked := hlinked log.length r (by simp)
      obtain ⟨fuel, rfl⟩ := Nat.exists_eq_add_of_lt (Nat.lt_of_lt_of_le (Nat.succ_pos _) hfuel)
      rw [Nat.zero_add, List.length_cons] at hfuel
      rw [Nat.zero_add] at hscan
      have hframes : logFrames (r :: more) = frameFormat.frame r.payload ++ logFrames more := rfl
      rw [hframes] at hscan
      have hstorable : r.patch.Storable := by
        rcases openFrame_cases (Prod.mk.eta (p := j.openFrame r.payload)).symm with
          ⟨record, s, hnone, hdecoded, hvalid, hj⟩ | ⟨⟨e, herror⟩, _⟩
        · -- the decoded record stands at the same offset and stays there
          have hopen : j.openFrame r.payload = (j.accept record s, none) := Prod.ext hj hnone
          have hoffset : record.offset = r.offset := by
            refine UInt64.toNat_inj.mp ?_
            have hlt := r.offset.toNat_lt
            rw [hrlinked.offset] at hlt ⊢
            rw [(validateRecord_ok hvalid).1, UInt64.toNat_add, h.latestOffset]
            exact Nat.mod_eq_of_lt hlt
          have hkept : j'.records[r.offset]? = some record := by
            rw [Frames.Format.scan_frame _ hrshort hopen] at hscan
            have hhere : (j.accept record s).records[r.offset]? = some record := by
              show (j.records.insert record.offset record)[r.offset]? = _
              rw [hoffset, Std.ExtTreeMap.getElem?_insert_self]
            have hfinal : (frameFormat.scan Journal.openFrame frameError fuel (j.accept record s)
                (position + (frameFormat.frame r.payload).length)
                (logFrames more)).1.records[r.offset]? = some record :=
              Frames.Format.scan_invariant (P := fun j : Journal => j.records[r.offset]? = some record)
                (fun j payload hj => openFrame_keeps hj payload) hhere
            rw [hscan] at hfinal
            exact hfinal
          rw [hr] at hkept
          rw [← fromSlice_payload_iff hrnative.causal, hdecoded, Option.some.inj hkept]
        · rw [Frames.Format.scan_refused _ hrshort (Prod.ext rfl herror)] at hscan
          cases hscan
      obtain ⟨s, hopen, hnext⟩ := h.openFrame hcomplete.restrict hrlinked hrnative hstorable
      rw [Frames.Format.scan_frame _ hrshort hopen] at hscan
      exact List.forall_mem_cons.mpr ⟨hstorable, ih hnext hcomplete hlinked hmorenative hmoreshort
        (Nat.le_of_succ_le_succ hfuel) hscan hmore⟩

/-! ## Opening a file -/

/-- The payload of the header frame of a session. -/
def headerPayload (sessionId : SessionId) : List UInt8 :=
  SerdeJson.toVec (toValue ({ sessionId, format := journalFormat, version := .current } : Header))

/-- The file of a new journal. -/
def headerFile (sessionId : SessionId) : List UInt8 :=
  magic ++ frameFormat.frame (headerPayload sessionId)

/-- A journal with a file and without records. -/
def blank (sessionId : SessionId) (file : List UInt8) : Journal :=
  { file, records := ∅, snapshot := .empty sessionId, recovery := none, failed := false }

/-- The journal that was read from a file up to a damaged frame. -/
def damagedAt (j : Journal) (start damaged : Nat) (e : StateError) : Journal :=
  { j with recovery := some {
      code := "journal_damaged_suffix"
      message := e.display
      lastValidOffset := j.latestOffset
      validBytes := start
      damagedBytes := damaged
      preservedSuffix := none } }

theorem create_eq_ok (hcreate : create sessionId = .ok j) :
    j = blank sessionId (headerFile sessionId) ∧
      (headerPayload sessionId).length ≤ maxWireBytes := by
  unfold create at hcreate
  dsimp only at hcreate
  split at hcreate
  · cases hcreate
  · next file hwrite =>
    obtain ⟨_, hshort, rfl⟩ := writeFrame_ok hwrite
    cases hcreate
    exact ⟨rfl, hshort⟩

theorem blank_coherent (sessionId : SessionId) (file : List UInt8) :
    Coherent sessionId (blank sessionId file) [] :=
  ⟨by simp [blank], by simp, by simp, .nil, (SessionSnapshot.empty_rest sessionId).1,
    Nat.le_refl _, .start⟩

/-- The header of a session is decoded from its payload. -/
theorem fromSlice_headerPayload (sessionId : SessionId) :
    fromSlice (α := Header) (headerPayload sessionId) =
      .ok { sessionId, format := journalFormat, version := .current } := by
  have hshallow : (toValue ({ sessionId, format := journalFormat, version := .current } :
      Header)).depth < recursionLimit := show (2 : Nat) < 128 by decide
  unfold fromSlice headerPayload
  rw [SerdeJson.fromSlice_toVec _ hshallow]
  simp only [(roundTrips_header _).read]

/-- Opening a file with a header frame scans the rest of the file. -/
theorem openFile_headerFile (hshort : (headerPayload sessionId).length ≤ maxWireBytes)
    (rest : List UInt8) :
    openFile (headerFile sessionId ++ rest) = .ok
      (match frameFormat.scan Journal.openFrame frameError (rest.length + 1)
        (blank sessionId (headerFile sessionId ++ rest)) (headerFile sessionId).length rest with
      | (j, _, none) => j
      | (j, start, some e) =>
        j.damagedAt start ((headerFile sessionId ++ rest).length - start) e) := by
  have hfile : headerFile sessionId ++ rest =
      magic ++ (frameFormat.frame (headerPayload sessionId) ++ rest) := List.append_assoc _ _ _
  have hstart : (headerFile sessionId ++ rest).length - rest.length =
      (headerFile sessionId).length := by
    rw [List.length_append]
    omega
  unfold openFile
  rw [if_neg (by rw [hfile, List.length_append]; omega), if_neg (by rw [hfile, List.take_left]; simp)]
  rw [show (headerFile sessionId ++ rest).drop magic.length =
    frameFormat.frame (headerPayload sessionId) ++ rest by rw [hfile, List.drop_left]]
  rw [Frames.Format.read_frame _ hshort]
  dsimp only
  rw [fromSlice_headerPayload]
  dsimp only
  rw [if_neg (by simp [ProtocolVersion.current]), hstart]
  show (match frameFormat.scan Journal.openFrame frameError (rest.length + 1)
    (blank sessionId (headerFile sessionId ++ rest)) (headerFile sessionId).length rest with
    | (journal, _, none) => Except.ok journal
    | (journal, start, some error) => .ok _) = _
  split <;> rfl

/-! ## Opening any file -/

/-- What the validation of a record says about it. -/
theorem Based.linked_of_valid {record : JournalRecord} (h : Coherent sessionId j log)
    (hvalid : j.validateRecord record = .ok ()) : WellLinked sessionId log.length record := by
  obtain ⟨hnext, hlater⟩ := validateRecord_ok hvalid
  unfold validateRecord at hvalid
  split at hvalid
  · cases hvalid
  · next hall =>
    simp only [not_or, not_not] at hall
    obtain ⟨_, _, hbase, hresult, hauthor, hsession, _, hchecksum⟩ := hall
    -- the offset has not wrapped around, because it comes after the parent
    have hoffset : record.offset.toNat = log.length + 1 := by
      have hpos := Nat.zero_lt_of_lt (UInt64.lt_iff_toNat_lt.mp hlater)
      have hbound := h.bound
      rw [hnext, UInt64.toNat_add, h.latestOffset, show (1 : UInt64).toNat = 1 from rfl] at hpos ⊢
      omega
    have hparent : record.parentOffset.toNat ≤ log.length := by
      have := UInt64.lt_iff_toNat_lt.mp hlater
      omega
    exact ⟨hoffset, hparent, hbase, hresult, hsession.trans h.session, hauthor, hchecksum⟩

/-- A validated record whose patch applies to its parent is accepted into the log. -/
theorem Based.accept {record : JournalRecord} {parent s : SessionSnapshot}
    (h : Coherent sessionId j log) (hvalid : j.validateRecord record = .ok ())
    (hparent : At (recordStore sessionId) log record.parentOffset.toNat parent)
    (hpatch : parent.applyPatch record.patch = (s, .ok ())) :
    Coherent sessionId (j.accept record s) (log ++ [record]) := by
  have hlinked := h.linked_of_valid hvalid
  have happly : (recordStore sessionId).apply parent record =
      .ok { s with selectedBranch := record.branchId } := by
    show replayRecord parent record = _
    unfold replayRecord
    rw [hpatch]
  obtain ⟨hcomplete, hnew⟩ := h.complete.concat hparent hlinked.parent happly
  obtain ⟨hsession, _, _⟩ := SessionSnapshot.applyPatch_rest hpatch
  exact h.extend hlinked hcomplete hnew (hsession.trans (h.at_version hparent).session)

/-- Opening any frame adds its record to the log, or it leaves the journal. -/
theorem Based.openFrame_spec (h : Coherent sessionId j log) (bytes : List UInt8) :
    (∃ e, j.openFrame bytes = (j, some e)) ∨
      ∃ record s, j.openFrame bytes = (j.accept record s, none) ∧
        Coherent sessionId (j.accept record s) (log ++ [record]) := by
  unfold Journal.openFrame
  split
  · exact .inl ⟨_, rfl⟩
  · next record _ =>
    split
    · exact .inl ⟨_, rfl⟩
    · next hvalid =>
      split
      · next hrunning =>
        cases hpatch : j.snapshot.applyPatch record.patch with
        | mk s result =>
          cases result with
          | error e =>
            -- a patch that is refused leaves the running snapshot
            have hwf := (h.at_version h.live).wellFormed
            rcases SessionSnapshot.applyPatch_cases hwf hpatch with ⟨hok, _⟩ | ⟨_, rfl⟩
            · cases hok
            · exact .inl ⟨e, rfl⟩
          | ok _ =>
            refine .inr ⟨record, s, rfl, h.accept hvalid ?_ hpatch⟩
            rw [hrunning, (h.at_version h.live).offset]
            exact h.live
      · split
        · exact .inl ⟨_, rfl⟩
        · next forked hforked =>
          cases hpatch : forked.applyPatch record.patch with
          | mk s result =>
            cases result with
            | error e => exact .inl ⟨e, rfl⟩
            | ok _ =>
              exact .inr ⟨record, s, rfl, h.accept hvalid (h.materialize_iff.mp hforked)
                hpatch⟩

theorem Based.openFrame_coherent (h : Coherent sessionId j log) (bytes : List UInt8) :
    ∃ more, Coherent sessionId (j.openFrame bytes).1 (log ++ more) := by
  rcases h.openFrame_spec bytes with ⟨e, hopen⟩ | ⟨record, s, hopen, hnext⟩
  · exact ⟨[], by rw [hopen, List.append_nil]; exact h⟩
  · exact ⟨[record], by rw [hopen]; exact hnext⟩

/-- A journal that was opened from any file is coherent. -/
theorem openFile_coherent {file : List UInt8} (hopen : openFile file = .ok j) :
    ∃ sessionId log, Coherent sessionId j log := by
  have hscan : ∀ (sessionId : SessionId) (fuel position : Nat) (bytes : List UInt8),
      ∃ log, Coherent sessionId (frameFormat.scan Journal.openFrame frameError fuel
        (blank sessionId file) position bytes).1 log := by
    intro sessionId fuel position bytes
    refine Frames.Format.scan_invariant (P := fun j => ∃ log, Coherent sessionId j log) ?_
      ⟨[], blank_coherent sessionId file⟩
    rintro j payload ⟨log, h⟩
    obtain ⟨more, hmore⟩ := h.openFrame_coherent payload
    exact ⟨log ++ more, hmore⟩
  unfold openFile at hopen
  split at hopen
  · cases hopen
  · split at hopen
    · cases hopen
    · split at hopen
      · cases hopen
      · cases hopen
      · next bytes rest _ =>
        split at hopen
        · cases hopen
        · next header _ =>
          split at hopen
          · cases hopen
          · obtain ⟨log, hlog⟩ := hscan header.sessionId (rest.length + 1)
              (file.length - rest.length) rest
            refine ⟨header.sessionId, log, ?_⟩
            dsimp only at hopen
            split at hopen
            · next heq =>
              cases hopen
              unfold blank at hlog
              rw [heq] at hlog
              exact hlog
            · next heq =>
              cases hopen
              unfold blank at hlog
              rw [heq] at hlog
              exact hlog.congr rfl rfl

end Journal

end Omp2.State
