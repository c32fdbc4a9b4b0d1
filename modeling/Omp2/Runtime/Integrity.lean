import Omp2.Library.Machine
import Omp2.Runtime.ArtifactStore

/-!
# What a blob holds

A blob holds what its name says, and metadata that was returned goes on naming what was given for
it. This needs more of the disk and of the callers than the calls check: a copy that fails must not
leave a part of a file, a file that is placed before it is verified must be readable and removable
when it is not what it should be, and the length of a spooled file and its path must be right.
-/

namespace Omp2.Runtime

open Omp2.State List

/-! ## Paths and names -/

namespace ArtifactStore

variable {store : ArtifactStore}

theorem blobFile_inj {hash other : String} (h : store.blobFile hash = store.blobFile other) :
    hash = other := by
  unfold blobFile at h
  have hlist := congrArg String.toList h
  simp only [String.toList_append, append_cancel_right_eq] at hlist
  exact String.toList_inj.mp (append_cancel_left hlist)

/-- No stream is written to the file of a blob. -/
theorem spoolFile_ne (id : ArtifactId) (nanos : Nat) (hash : String) :
    store.spoolFile id nanos ≠ store.blobFile hash := by
  intro h
  have hspool : (store.spoolFile id nanos).toList.getLast? = some 'p' := by
    unfold spoolFile
    rw [String.toList_append, getLast?_append]
    rfl
  have hblob : (store.blobFile hash).toList.getLast? = some 'b' := by
    unfold blobFile
    rw [String.toList_append, getLast?_append]
    rfl
  rw [h, hblob] at hspool
  cases hspool

end ArtifactStore

theorem isLowerHex_hexDigit (n : UInt8) (h : n < 16) : isLowerHex (hexDigit n) = true := by
  have hall : ∀ m : Fin 16, isLowerHex (hexDigit (UInt8.ofNat m.val)) = true := by decide
  have hn : n.toNat < 16 := h
  have hof := hall ⟨n.toNat, hn⟩
  rwa [UInt8.ofNat_toNat] at hof

/-- The digest of a content is a valid hash. -/
theorem validateContentHash_contentHash (bytes : List UInt8) :
    validateContentHash (contentHash bytes) = .ok () := by
  unfold validateContentHash
  rw [if_neg]
  rintro (hlength | hchars)
  · refine hlength ?_
    unfold contentHash hex
    generalize hdigest : Sha256.digest bytes = digest
    have hcount : digest.length = 32 := hdigest ▸ Sha256.length_digest _
    rw [String.toList_ofList, length_flatMap]
    simp [hcount]
  · refine hchars (all_eq_true.mpr fun c hc => ?_)
    unfold contentHash hex at hc
    rw [String.toList_ofList] at hc
    obtain ⟨b, -, hc⟩ := mem_flatMap.mp hc
    rcases mem_cons.mp hc with rfl | hc
    · refine isLowerHex_hexDigit _ ?_
      rw [UInt8.lt_iff_toNat_lt, UInt8.toNat_shiftRight]
      have := b.toNat_lt
      simp [Nat.shiftRight_eq_div_pow]
      omega
    · rw [mem_singleton.mp hc]
      refine isLowerHex_hexDigit _ ?_
      rw [UInt8.lt_iff_toNat_lt, UInt8.toNat_and]
      exact Nat.lt_of_le_of_lt Nat.and_le_right (by decide)

theorem blobPath_contentHash (store : ArtifactStore) (bytes : List UInt8) :
    store.blobPath (contentHash bytes) = .ok (store.blobFile (contentHash bytes)) := by
  unfold ArtifactStore.blobPath
  rw [validateContentHash_contentHash]
  rfl

theorem blobPath_eq_ok {store : ArtifactStore} {hash target : String}
    (h : store.blobPath hash = .ok target) : target = store.blobFile hash := by
  unfold ArtifactStore.blobPath at h
  cases hvalid : validateContentHash hash with
  | error e => rw [hvalid] at h; cases h
  | ok _ => rw [hvalid] at h; cases h; rfl

/-! ## What moving a file does -/

/-- The file arrives at its target. -/
def Moving.Places (w : Moving) : Prop :=
  w.renamed = true ∨ w.copied = .done

/-- A move that fails leaves nothing behind, or the whole file. -/
def Moving.Clean (w : Moving) (bytes : List UInt8) : Prop :=
  w.renamed = true ∨ ∀ left e, w.copied = .failed (some left) e → bytes.length ≤ left

/-- A move that fails leaves nothing behind. -/
def Moving.Traceless (w : Moving) : Prop :=
  w.renamed = true ∨ ∀ left e, w.copied ≠ .failed (some left) e

theorem Moving.Traceless.clean {w : Moving} (h : w.Traceless) (bytes : List UInt8) :
    w.Clean bytes :=
  h.imp_right fun hcopied left e heq => absurd heq (hcopied left e)

@[simp] theorem Disk.set_self (disk : Disk) (path : String) (content : Option (List UInt8)) :
    disk.set path content path = content :=
  Function.update_self ..

theorem Disk.set_of_ne {disk : Disk} {path other : String} {content : Option (List UInt8)}
    (h : other ≠ path) : disk.set path content other = disk other :=
  Function.update_of_ne h ..

theorem discard_of_ne {disk : Disk} {path other : String} {removed : Bool} (h : other ≠ path) :
    discard disk path removed other = disk other := by
  unfold discard
  split
  · exact Disk.set_of_ne h
  · rfl

/-- What a move makes of the disk, when it leaves nothing unfinished: other files stay, and the
target has the bytes of the source, or what it had before when the move has failed. -/
structure Moved (disk disk' : Disk) (source target : String) (result : Except String Unit) :
    Prop where
  other : ∀ path, path ≠ source → path ≠ target → disk' path = disk path
  placed : disk' target = disk source ∨ disk' target = disk target ∧ ∃ e, result = .error e
  found : ∀ u, result = .ok u → ∃ bytes, disk source = some bytes ∧ disk' target = some bytes

theorem moved_move (disk : Disk) {source target : String} (hne : target ≠ source) (w : Moving)
    (hclean : ∀ bytes, disk source = some bytes → w.Clean bytes) :
    Moved disk (move disk source target w).1 source target (move disk source target w).2 := by
  unfold move
  cases hsource : disk source with
  | none => exact ⟨fun _ _ _ => rfl, .inr ⟨rfl, _, rfl⟩, nofun⟩
  | some bytes =>
      simp only
      by_cases hrenamed : w.renamed = true
      · rw [if_pos hrenamed]
        have hplaced : (disk.set source none).set target (some bytes) target = some bytes :=
          Disk.set_self ..
        refine ⟨fun path hother htarget => ?_, .inl (hplaced.trans hsource.symm),
          fun _ _ => ⟨bytes, hsource, hplaced⟩⟩
        show (disk.set source none).set target (some bytes) path = disk path
        rw [Disk.set_of_ne htarget, Disk.set_of_ne hother]
      · rw [if_neg hrenamed]
        cases hcopied : w.copied with
        | done =>
          simp only
          have hplaced : discard (disk.set target (some bytes)) source w.removed target =
              some bytes := by
            rw [discard_of_ne hne, Disk.set_self]
          refine ⟨fun path hother htarget => ?_, .inl (hplaced.trans hsource.symm),
            fun _ _ => ⟨bytes, hsource, hplaced⟩⟩
          rw [discard_of_ne hother, Disk.set_of_ne htarget]
        | failed left e =>
          cases left with
          | none => exact ⟨fun _ _ _ => rfl, .inr ⟨rfl, _, rfl⟩, nofun⟩
          | some left =>
            have hwhole : bytes.take left = bytes :=
              take_of_length_le
                ((hclean bytes hsource).elim (absurd · hrenamed) fun h => h left e hcopied)
            simp only
            refine ⟨fun path _ htarget => Disk.set_of_ne htarget, .inl ?_, nofun⟩
            rw [Disk.set_self, hsource, hwhole]

/-- A file that is moved arrives when the move succeeds. -/
theorem places_of_move {disk : Disk} {source target : String} {w : Moving} {disk' : Disk}
    (h : move disk source target w = (disk', .ok ())) : w.Places := by
  unfold move at h
  cases hsource : disk source with
  | none => rw [hsource] at h; cases h
  | some bytes =>
      rw [hsource] at h
      by_cases hrenamed : w.renamed = true
      · exact .inl hrenamed
      · simp only [if_neg hrenamed] at h
        cases hcopied : w.copied with
        | done => exact .inr hcopied
        | failed left e => cases left <;> rw [hcopied] at h <;> cases h

/-- A move that fails and leaves nothing behind has changed nothing. -/
theorem Moving.Traceless.eq_of_error {w : Moving} (h : w.Traceless) {disk disk' : Disk}
    {source target : String} {e : String} (hmove : move disk source target w = (disk', .error e)) :
    disk' = disk := by
  unfold move at hmove
  cases hsource : disk source with
  | none => rw [hsource] at hmove; cases hmove; rfl
  | some bytes =>
      rw [hsource] at hmove
      by_cases hrenamed : w.renamed = true
      · simp only [if_pos hrenamed] at hmove
        cases hmove
      · simp only [if_neg hrenamed] at hmove
        cases hcopied : w.copied with
        | done => rw [hcopied] at hmove; cases hmove
        | failed left e' =>
          rw [hcopied] at hmove
          cases left with
          | none => cases hmove; rfl
          | some left => exact absurd hcopied ((h.resolve_left hrenamed) left e')

/-! ## The invariant -/

/-- What was returned for an artifact is true of the blob that it names. -/
structure Returned.Holds (store : ArtifactStore) (disk : Disk) (m : Returned) (bytes : List UInt8) :
    Prop where
  blob : disk (store.blobFile m.metadata.contentHash) = some bytes
  hash : contentHash bytes = m.metadata.contentHash
  length : m.metadata.byteLength = bytes.length
  given : ∀ given, m.given = some given → bytes = given
  limit : ∀ limit, m.limit = some limit → bytes.length ≤ limit

/-- Blobs hash to their names, and what was returned is true of the blobs it names. -/
structure Intact (store : ArtifactStore) (s : StoreState) : Prop where
  named : ∀ hash bytes, s.disk (store.blobFile hash) = some bytes → contentHash bytes = hash
  returned : ∀ m ∈ s.returned, ∃ bytes, m.Holds store s.disk bytes

/-- The blobs of two disks are the same. -/
def SameBlobs (store : ArtifactStore) (disk disk' : Disk) : Prop :=
  ∀ hash, disk' (store.blobFile hash) = disk (store.blobFile hash)

/-- A disk gains at most a blob with these bytes. -/
def Gains (store : ArtifactStore) (disk disk' : Disk) (bytes : List UInt8) : Prop :=
  (∀ hash, hash ≠ contentHash bytes → disk' (store.blobFile hash) = disk (store.blobFile hash)) ∧
    (disk' (store.blobFile (contentHash bytes)) = some bytes ∨
      disk' (store.blobFile (contentHash bytes)) = disk (store.blobFile (contentHash bytes)))

/-- A blob that is there with these bytes' digest has these bytes. -/
def Unmistaken (store : ArtifactStore) (disk : Disk) (bytes : List UInt8) : Prop :=
  ∀ blob, disk (store.blobFile (contentHash bytes)) = some blob → blob = bytes

variable {store : ArtifactStore} {s : StoreState} {disk : Disk} {bytes : List UInt8}

/-- A disk that gains at most a blob keeps the store intact. -/
theorem Intact.gains (h : Intact store s) (hgains : Gains store s.disk disk bytes)
    (honly : Unmistaken store s.disk bytes) : Intact store ⟨disk, s.returned⟩ := by
  have hkeep : ∀ hash blob, s.disk (store.blobFile hash) = some blob →
      disk (store.blobFile hash) = some blob := by
    intro hash blob hblob
    by_cases hhash : hash = contentHash bytes
    · subst hhash
      rcases hgains.2 with hplaced | hsame
      · rw [hplaced, honly blob hblob]
      · rw [hsame, hblob]
    · rw [hgains.1 hash hhash, hblob]
  refine ⟨fun hash blob (hblob : disk _ = _) => ?_, fun m hm => ?_⟩
  · by_cases hhash : hash = contentHash bytes
    · subst hhash
      rcases hgains.2 with hplaced | hsame
      · rw [hplaced] at hblob
        cases hblob
        rfl
      · exact h.named _ _ (hsame ▸ hblob)
    · exact h.named _ _ (hgains.1 hash hhash ▸ hblob)
  · obtain ⟨blob, hholds⟩ := h.returned m hm
    exact ⟨blob, hkeep _ _ hholds.blob, hholds.hash, hholds.length, hholds.given, hholds.limit⟩

theorem Intact.sameBlobs (h : Intact store s) (hsame : SameBlobs store s.disk disk) :
    Intact store ⟨disk, s.returned⟩ := by
  refine ⟨fun hash blob hblob => h.named _ _ (hsame hash ▸ hblob), fun m hm => ?_⟩
  obtain ⟨blob, hholds⟩ := h.returned m hm
  exact ⟨blob, (hsame _).trans hholds.blob, hholds.hash, hholds.length, hholds.given, hholds.limit⟩

theorem Intact.return (h : Intact store s) (bytes : List UInt8) {m : Returned}
    (hholds : m.Holds store s.disk bytes) :
    Intact store ⟨s.disk, m :: s.returned⟩ :=
  ⟨h.named, fun other hother => (mem_cons.mp hother).elim
    (fun heq => ⟨bytes, heq ▸ hholds⟩) (h.returned other)⟩

theorem sameBlobs_set {path : String} (hpath : ∀ hash, path ≠ store.blobFile hash) (disk : Disk)
    (content : Option (List UInt8)) : SameBlobs store disk (disk.set path content) :=
  fun hash => Disk.set_of_ne (hpath hash).symm

theorem sameBlobs_discard {path : String} (hpath : ∀ hash, path ≠ store.blobFile hash) (disk : Disk)
    (removed : Bool) : SameBlobs store disk (discard disk path removed) :=
  fun hash => discard_of_ne (hpath hash).symm

theorem SameBlobs.trans {disk' disk'' : Disk} (h : SameBlobs store disk disk')
    (h' : SameBlobs store disk' disk'') : SameBlobs store disk disk'' :=
  fun hash => (h' hash).trans (h hash)

/-- Moving a whole file to the blob that its digest names keeps the store intact. -/
theorem Intact.move (h : Intact store s) {source : String}
    (hsource : ∀ hash, source ≠ store.blobFile hash) (hsame : SameBlobs store s.disk disk)
    (hbytes : disk source = some bytes) (honly : Unmistaken store s.disk bytes) {w : Moving}
    (hclean : w.Clean bytes) {disk' : Disk} {result : Except String Unit}
    (hmove : move disk source (store.blobFile (contentHash bytes)) w = (disk', result)) :
    Intact store ⟨disk', s.returned⟩ ∧
      ∀ u, result = .ok u → disk' (store.blobFile (contentHash bytes)) = some bytes := by
  have hmoved := moved_move disk (hsource (contentHash bytes)).symm w
    (fun other hother => by rw [hbytes] at hother; cases hother; exact hclean)
  rw [hmove] at hmoved
  simp only at hmoved
  have hgains : Gains store s.disk disk' bytes := by
    refine ⟨fun hash hne => ?_, hmoved.placed.imp (·.trans hbytes) fun hkept => ?_⟩
    · rw [hmoved.other _ (hsource hash).symm fun heq => hne (ArtifactStore.blobFile_inj heq),
        hsame hash]
    · rw [hkept.1, hsame]
  refine ⟨h.gains hgains honly, fun u hu => ?_⟩
  obtain ⟨other, hother, hplaced⟩ := hmoved.found u hu
  rw [hbytes] at hother
  cases hother
  exact hplaced

/-! ## Streams -/

/-- What is spooled is what the reader delivers, and within the limit. -/
theorem spoolRounds_eq_ok {maxBytes : Nat} (rounds : List Round) {done : List UInt8}
    (h : spoolRounds maxBytes rounds done = .ok bytes) (hdone : done.length ≤ maxBytes) :
    bytes = done ++ delivered rounds ∧ bytes.length ≤ maxBytes := by
  induction rounds generalizing done with
  | nil =>
      cases h
      exact ⟨(append_nil _).symm, hdone⟩
  | cons round rest ih =>
      cases round with
      | interrupted => exact ih h hdone
      | failed e => cases h
      | read chunk written =>
        unfold spoolRounds at h
        unfold delivered
        by_cases hend : chunk = []
        · rw [if_pos hend] at h ⊢
          cases h
          exact ⟨(append_nil _).symm, hdone⟩
        · rw [if_neg hend] at h ⊢
          by_cases hlimit : maxBytes < done.length + chunk.length
          · rw [if_pos hlimit] at h
            cases h
          · rw [if_neg hlimit] at h
            cases written with
            | some e => cases h
            | none =>
              have hroom : (done ++ chunk).length ≤ maxBytes := by
                rw [length_append]
                omega
              obtain ⟨hbytes, hle⟩ := ih h hroom
              exact ⟨by rw [hbytes, append_assoc], hle⟩

/-- A reader of bytes in memory delivers them. -/
theorem delivered_sliceRounds (data : List UInt8) (writes : List (Option String)) :
    delivered (sliceRounds data writes) = data := by
  induction data, writes using sliceRounds.induct with
  | case1 writes => rw [sliceRounds]; rfl
  | case2 b rest writes ih =>
      have hchunk : (b :: rest).take chunkBytes = b :: rest.take (chunkBytes - 1) := rfl
      rw [sliceRounds, delivered, if_neg (by rw [hchunk]; exact cons_ne_nil _ _), ih, hchunk,
        cons_append, take_append_drop]

/-- A stream meets no other content with its digest, and is placed without leaving a part of it. -/
structure StreamFit (store : ArtifactStore) (disk : Disk) (bytes : List UInt8) (w : StreamWorld) :
    Prop where
  only : Unmistaken store disk bytes
  clean : w.seen = true ∧ (disk (store.blobFile (contentHash bytes))).isSome ∨ w.moving.Clean bytes

/-- Storing a stream keeps the store intact. -/
theorem Intact.storeStream (h : Intact store s) (r : Request) (maxBytes : Nat) {rounds : List Round}
    {w : StreamWorld} (hfit : StreamFit store s.disk (delivered rounds) w) :
    Intact store (s.after (some (delivered rounds)) (some maxBytes)
      (store.storeStream s.disk r maxBytes rounds w)) := by
  have hspoolBlobs : ∀ content, SameBlobs store s.disk
      (s.disk.set (store.spoolFile r.id w.nanos) content) :=
    sameBlobs_set (fun hash => ArtifactStore.spoolFile_ne r.id w.nanos hash) s.disk
  unfold ArtifactStore.storeStream
  split
  · exact h
  cases hcreated : w.created with
  | some e => exact h
  | none =>
  simp only
  cases hrounds : spoolRounds maxBytes rounds [] with
  | error e => exact h.sameBlobs (hspoolBlobs w.left)
  | ok bytes =>
  obtain ⟨rfl, hle⟩ := spoolRounds_eq_ok rounds hrounds (Nat.zero_le _)
  rw [nil_append] at hle ⊢
  generalize hbytes : delivered rounds = bytes at hfit hle ⊢
  cases hflushed : w.flushed with
  | some e => exact h.sameBlobs (hspoolBlobs w.left)
  | none =>
  simp only [blobPath_contentHash]
  generalize hspooled : s.disk.set (store.spoolFile r.id w.nanos) (some bytes) = spooled
  have hsame : SameBlobs store s.disk spooled := hspooled ▸ hspoolBlobs (some bytes)
  have hspool : spooled (store.spoolFile r.id w.nanos) = some bytes := by
    rw [← hspooled, Disk.set_self]
  by_cases hexists : w.seen = true ∧ (spooled (store.blobFile (contentHash bytes))).isSome = true
  · rw [if_pos hexists]
    -- The blob is there already, and it has the bytes of the stream.
    obtain ⟨blob, hblob⟩ := Option.isSome_iff_exists.mp hexists.2
    have hdiscard := hsame.trans (sameBlobs_discard
      (fun hash => ArtifactStore.spoolFile_ne r.id w.nanos hash) spooled w.discarded)
    refine (h.sameBlobs hdiscard).return bytes ⟨?_, rfl, rfl, ?_, ?_⟩
    · have hthere : s.disk (store.blobFile (contentHash bytes)) = some blob := hsame _ ▸ hblob
      exact (hdiscard _).trans (hthere.trans (congrArg some (hfit.only _ hthere)))
    · rintro given ⟨⟩
      rfl
    · rintro limit ⟨⟩
      exact hle
  · rw [if_neg hexists]
    have hclean : w.moving.Clean bytes :=
      hfit.clean.resolve_left fun hseen => hexists ⟨hseen.1, (hsame _).symm ▸ hseen.2⟩
    generalize hmove : Omp2.Runtime.move spooled _ _ w.moving = moved
    obtain ⟨disk, result⟩ := moved
    obtain ⟨hintact, hplaced⟩ := h.move (fun hash => ArtifactStore.spoolFile_ne r.id w.nanos hash)
      hsame hspool hfit.only hclean hmove
    cases result with
    | error e => exact hintact
    | ok u =>
      refine hintact.return bytes ⟨hplaced u rfl, rfl, rfl, ?_, ?_⟩
      · rintro given ⟨⟩
        rfl
      · rintro limit ⟨⟩
        exact hle

/-! ## Spooled files -/

/-- A spooled file is not a blob itself, and has the bytes of a blob that is there already. One with
the digest it is said to have is also as long as is said, and is placed without leaving a part of
it. One with another digest can be read back from its place and removed. -/
structure IngestFit (store : ArtifactStore) (disk : Disk) (sourcePath expectedHash : String)
    (byteLength : Nat) (w : IngestWorld) : Prop where
  outside : ∀ hash, sourcePath ≠ store.blobFile hash
  stored : ∀ blob, disk (store.blobFile expectedHash) = some blob →
    (w.seen = true → byteLength = blob.length) ∧
      ∀ bytes, disk sourcePath = some bytes → bytes = blob
  right : ∀ bytes, disk sourcePath = some bytes → contentHash bytes = expectedHash →
    byteLength = bytes.length ∧
      (w.seen = true ∧ (disk (store.blobFile expectedHash)).isSome ∨ w.moving.Clean bytes)
  wrong : ∀ bytes, disk sourcePath = some bytes → contentHash bytes ≠ expectedHash →
    w.moving.Traceless ∧ (w.moving.Places → w.hashed = none ∧ w.targetRemoved = true)

/-- A file with another digest than it is said to have is removed again. -/
theorem sameBlobs_ingest_wrong (r : Request) {sourcePath expectedHash : String} {byteLength : Nat}
    {w : IngestWorld} (hfit : IngestFit store disk sourcePath expectedHash byteLength w)
    (hnone : disk (store.blobFile expectedHash) = none)
    (hbytes : disk sourcePath = some bytes) (hwrong : contentHash bytes ≠ expectedHash) :
    ∃ disk' e, store.ingestSpooledFile disk r sourcePath expectedHash byteLength w =
      (disk', .error e) ∧ SameBlobs store disk disk' := by
  obtain ⟨htraceless, hundone⟩ := hfit.wrong bytes hbytes hwrong
  unfold ArtifactStore.ingestSpooledFile
  split
  · exact ⟨_, _, rfl, fun _ => rfl⟩
  cases htarget : store.blobPath expectedHash with
  | error e => exact ⟨_, _, rfl, fun _ => rfl⟩
  | ok target =>
  cases blobPath_eq_ok htarget
  simp only
  rw [if_neg (by rw [hnone]; simp)]
  have hmoved := moved_move disk (hfit.outside expectedHash).symm w.moving
    fun other _ => htraceless.clean other
  generalize hmove : Omp2.Runtime.move disk sourcePath _ w.moving = moved at hmoved
  obtain ⟨disk', result⟩ := moved
  simp only at hmoved ⊢
  cases result with
  | error e =>
      cases htraceless.eq_of_error hmove
      exact ⟨_, _, rfl, fun _ => rfl⟩
  | ok u =>
      obtain ⟨other, hother, hplaced⟩ := hmoved.found u rfl
      rw [hbytes] at hother
      cases hother
      obtain ⟨hhashed, hremoved⟩ := hundone (places_of_move hmove)
      simp only [hashFile, hhashed, hplaced]
      rw [if_pos hwrong]
      refine ⟨_, _, rfl, fun hash => ?_⟩
      unfold discard
      rw [if_pos hremoved]
      by_cases hhash : hash = expectedHash
      · rw [hhash, Disk.set_self, hnone]
      · have hne : store.blobFile hash ≠ store.blobFile expectedHash :=
          fun heq => hhash (ArtifactStore.blobFile_inj heq)
        rw [Disk.set_of_ne hne, hmoved.other _ (hfit.outside hash).symm hne]

/-- Ingesting a spooled file keeps the store intact. -/
theorem Intact.ingestSpooledFile (h : Intact store s) {r : Request}
    {sourcePath expectedHash : String} {byteLength : Nat} {w : IngestWorld}
    (hfit : IngestFit store s.disk sourcePath expectedHash byteLength w) :
    Intact store (s.after (s.disk sourcePath) none
      (store.ingestSpooledFile s.disk r sourcePath expectedHash byteLength w)) := by
  by_cases hmistake : s.disk (store.blobFile expectedHash) = none ∧
      ∃ bytes, s.disk sourcePath = some bytes ∧ contentHash bytes ≠ expectedHash
  · obtain ⟨hnone, bytes, hbytes, hwrong⟩ := hmistake
    obtain ⟨disk, e, hingest, hsame⟩ := sameBlobs_ingest_wrong r hfit hnone hbytes hwrong
    rw [hingest]
    exact h.sameBlobs hsame
  -- Otherwise the file has the digest it is said to have, whether its blob is there or not.
  have hdigest : ∀ bytes, s.disk sourcePath = some bytes → contentHash bytes = expectedHash := by
    intro bytes hbytes
    cases hblob : s.disk (store.blobFile expectedHash) with
    | none => exact not_not.mp fun hwrong => hmistake ⟨hblob, bytes, hbytes, hwrong⟩
    | some blob => exact (hfit.stored blob hblob).2 bytes hbytes ▸ h.named _ _ hblob
  unfold ArtifactStore.ingestSpooledFile
  split
  · exact h
  cases htarget : store.blobPath expectedHash with
  | error e => exact h
  | ok target =>
  cases blobPath_eq_ok htarget
  simp only
  by_cases hexists : w.seen = true ∧ (s.disk (store.blobFile expectedHash)).isSome = true
  · rw [if_pos hexists]
    obtain ⟨blob, hblob⟩ := Option.isSome_iff_exists.mp hexists.2
    obtain ⟨hlength, hsource⟩ := hfit.stored blob hblob
    have hdiscard := sameBlobs_discard hfit.outside s.disk w.sourceRemoved
    exact (h.sameBlobs hdiscard).return blob ⟨(hdiscard _).trans hblob,
      h.named _ _ hblob, hlength hexists.1, fun given hgiven => (hsource given hgiven).symm, nofun⟩
  rw [if_neg hexists]
  cases hbytes : s.disk sourcePath with
  | none =>
      have hmove : Omp2.Runtime.move s.disk sourcePath (store.blobFile expectedHash) w.moving =
          (s.disk, .error w.moving.missing) := by
        unfold Omp2.Runtime.move
        rw [hbytes]
      rw [hmove]
      exact h
  | some bytes =>
      obtain rfl := hdigest bytes hbytes
      obtain ⟨hlength, hclean⟩ := hfit.right bytes hbytes rfl
      generalize hmove : Omp2.Runtime.move s.disk sourcePath _ w.moving = moved
      obtain ⟨disk, result⟩ := moved
      obtain ⟨hintact, hplaced⟩ := h.move hfit.outside (fun _ => rfl) hbytes
        (fun blob hblob => ((hfit.stored blob hblob).2 bytes hbytes).symm)
        (hclean.resolve_left hexists) hmove
      cases result with
      | error e => exact hintact
      | ok u =>
        cases hhashed : w.hashed with
        | some e => exact hintact
        | none =>
          simp only [hashFile, hplaced u rfl, ne_eq, not_true_eq_false, if_false]
          exact hintact.return bytes
            ⟨hplaced u rfl, rfl, hlength, fun given hgiven => (Option.some.inj hgiven), nofun⟩

/-! ## Runs -/

/-- What a call needs of its caller and of the disk. -/
def Fit (store : ArtifactStore) (s : StoreState) : StoreCall → Prop
  | .storeStream _ _ rounds w => StreamFit store s.disk (delivered rounds) w
  | .storeBytes _ data _ _ w => StreamFit store s.disk data w
  | .ingestSpooledFile _ sourcePath expectedHash byteLength w =>
      IngestFit store s.disk sourcePath expectedHash byteLength w
  | .written path _ => ∀ hash, path ≠ store.blobFile hash

theorem Intact.step (h : Intact store s) {call : StoreCall} (hfit : Fit store s call) :
    Intact store (store.step s call) := by
  cases call with
  | storeStream r maxBytes rounds w => exact h.storeStream r maxBytes hfit
  | storeBytes r data maxBytes writes w =>
      have hdata := delivered_sliceRounds data writes
      have hfit' : StreamFit store s.disk (delivered (sliceRounds data writes)) w :=
        hdata.symm ▸ hfit
      have hstream := h.storeStream r maxBytes hfit'
      rw [hdata] at hstream
      show Intact store (s.after (some data) (some maxBytes)
        (store.storeBytes s.disk r data maxBytes writes w))
      unfold ArtifactStore.storeBytes
      split
      · exact h
      · exact hstream
  | ingestSpooledFile r sourcePath expectedHash byteLength w => exact h.ingestSpooledFile hfit
  | written path content => exact h.sameBlobs (sameBlobs_set hfit s.disk content)

/-- A store stays intact over every run whose calls get what they need. -/
theorem ArtifactStore.intact_run (store : ArtifactStore) {disk : Disk}
    (hnamed : ∀ hash bytes, disk (store.blobFile hash) = some bytes → contentHash bytes = hash)
    {calls : List StoreCall} (hfit : Machine.Along store.step (Fit store) ⟨disk, []⟩ calls) :
    Intact store (Machine.run store.step ⟨disk, []⟩ calls) :=
  Machine.invariant_along (fun _ _ h hfit => h.step hfit) ⟨hnamed, nofun⟩ hfit

/-- A request of the host. -/
def hostRequest : Request where
  id := ⟨"a", Eq.refl true⟩
  mediaType := "text/plain"
  origin := .system
  retention := .session
  scope := .global
  credential := ⟨none, none, none, true⟩

/-- A disk that renames files and fails at nothing. -/
def smooth : Moving := ⟨true, .done, true, ""⟩

theorem ArtifactStore.intact_run_spooled :
    Intact ⟨"store"⟩ (Machine.run (ArtifactStore.step ⟨"store"⟩) ⟨fun _ => none, []⟩
      [.written "out" (some [1]),
        .ingestSpooledFile hostRequest "out" (contentHash [1]) 1
          ⟨true, true, smooth, none, true, 0⟩]) := by
  have hout : ∀ hash, "out" ≠ (ArtifactStore.mk "store").blobFile hash := by
    intro hash h
    have hhead := congrArg (fun path => path.toList.head?) h
    simp [blobFile, String.toList_append] at hhead
  have hblob : ∀ hash, Disk.set (fun _ => none) "out" (some [1])
      ((ArtifactStore.mk "store").blobFile hash) = none :=
    fun hash => Disk.set_of_ne (hout hash).symm
  have hsource : Disk.set (fun _ => none) "out" (some [1]) "out" = some [1] := Disk.set_self ..
  refine intact_run ⟨"store"⟩ (fun _ _ h => by cases h) ⟨hout, ⟨hout, ?_, ?_, ?_⟩, trivial⟩
  · intro blob h
    cases (hblob (contentHash [1])).symm.trans h
  · intro bytes h _
    cases hsource.symm.trans h
    exact ⟨rfl, .inr (.inl rfl)⟩
  · intro bytes h hwrong
    cases hsource.symm.trans h
    exact absurd rfl hwrong

/-- A stream whose blob is copied only in part, for want of space. -/
def cutShort : StoreCall :=
  .storeStream hostRequest 2 [.read [1, 2] none]
    ⟨0, none, none, none, true, true,
      ⟨false, .failed (some 1) "No space left on device", true, ""⟩, 0⟩

theorem ArtifactStore.not_intact_cutShort : ¬ ∀ (store : ArtifactStore) (disk : Disk)
    (calls : List StoreCall), (∀ hash, disk (store.blobFile hash) = none) →
    Intact store (Machine.run store.step ⟨disk, []⟩ calls) := by
  intro h
  have hintact := h ⟨"store"⟩ (fun _ => none) [cutShort] fun _ => rfl
  have hblob : (Machine.run (ArtifactStore.step ⟨"store"⟩) ⟨fun _ => none, []⟩ [cutShort]).disk
      ((ArtifactStore.mk "store").blobFile (contentHash [1, 2])) = some [1] := by
    decide +kernel
  have hsame : contentHash [1] = contentHash [1, 2] := hintact.named _ _ hblob
  revert hsame
  decide +kernel

end Omp2.Runtime
