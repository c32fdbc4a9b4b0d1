import Omp2.Library.Frames
import Omp2.Library.Sha256
import Omp2.Library.VersionTree
import Omp2.State.Dom
import Omp2.Types.Wire

/-!
# The session journal

`Journal` from `omp-state/src/journal.rs`: a file of checksummed frames, one for each record,
next to the records and the live snapshot that replaying them gives. Appending a record applies
its patch, writes its frame and keeps the record; forking and selecting a branch append to a
materialised ancestor. `openFile` replays the frames of a file and stops at the first damage,
which `repairSuffix` cuts off. The clock, freshly minted identifiers and the outcome of file
operations are arguments. A file is its list of bytes; the writer lock, the path and the
observer are left out.
-/

namespace Omp2.State

open Omp2.Json

/-! ## Records -/

/-- `Header`. -/
structure Header where
  sessionId : SessionId
  format : String
  version : ProtocolVersion

/-- `JournalRecord`. -/
structure JournalRecord where
  offset : UInt64
  timestampMs : UInt64
  sessionId : SessionId
  branchId : BranchId
  parentOffset : UInt64
  patch : Patch
  actor : PatchAuthor
  protocolVersion : ProtocolVersion
  checksum : String
  causal : Option Value

/-- `RecoveryDiagnostic`. -/
structure RecoveryDiagnostic where
  code : String
  message : String
  lastValidOffset : UInt64
  validBytes : Nat
  damagedBytes : Nat
  preservedSuffix : Option String

/-- `Journal`. -/
structure Journal where
  file : List UInt8
  records : Std.ExtTreeMap UInt64 JournalRecord
  snapshot : SessionSnapshot
  recovery : Option RecoveryDiagnostic
  failed : Bool

/-- `MAGIC`. -/
def magic : List UInt8 := [0x4f, 0x4d, 0x50, 0x32, 0x4a, 0x30, 0x31, 0x0a]

/-- The frames of a journal file. -/
def frameFormat : Frames.Format where
  digest := Sha256.digest
  digestLength := 32
  length_digest := Sha256.length_digest
  limit := maxWireBytes
  limit_lt := by decide

/-- The error of a frame that cannot be read. -/
def frameError : Frames.ReadError → StateError
  | .endOfFile => .io "failed to fill whole buffer"
  | .limit => .invalid "journal frame limit"
  | .checksum => .invalid "journal frame checksum"

/-- One hexadecimal digit. -/
def hexDigit (n : UInt8) : Char :=
  if n < 10 then Char.ofNat (48 + n.toNat) else Char.ofNat (87 + n.toNat)

/-- The lower-case hexadecimal text of a digest. -/
def hex (bytes : List UInt8) : String :=
  String.ofList (bytes.flatMap fun (b : UInt8) => [hexDigit (b >>> 4), hexDigit (b &&& 0xf)])

variable [SerdeJson]

/-- The derived `Serialize` of `Header`. -/
def Header.serialize (h : Header) : Value :=
  .object [("session_id", toValue h.sessionId), ("format", toValue h.format),
    ("version", toValue h.version)]

/-- The derived `Deserialize` of `Header`. -/
def Header.deserialize (value : Value) : Except String Header := do
  let fields ← readRecord ["session_id", "format", "version"] value
  return {
    sessionId := ← field fields "session_id"
    format := ← field fields "format"
    version := ← field fields "version" }

instance : Serde Header where
  toValue := Header.serialize
  fromValue := Header.deserialize

/-- The derived `Serialize` of `JournalRecord`. -/
def JournalRecord.serialize (r : JournalRecord) : Value :=
  .object [("offset", toValue r.offset), ("timestamp_ms", toValue r.timestampMs),
    ("session_id", toValue r.sessionId), ("branch_id", toValue r.branchId),
    ("parent_offset", toValue r.parentOffset), ("patch", toValue r.patch),
    ("actor", toValue r.actor), ("protocol_version", toValue r.protocolVersion),
    ("checksum", toValue r.checksum), ("causal", toValue r.causal)]

/-- The derived `Deserialize` of `JournalRecord`. -/
def JournalRecord.deserialize (value : Value) : Except String JournalRecord := do
  let fields ← readRecord ["offset", "timestamp_ms", "session_id", "branch_id", "parent_offset",
    "patch", "actor", "protocol_version", "checksum", "causal"] value
  return {
    offset := ← field fields "offset"
    timestampMs := ← field fields "timestamp_ms"
    sessionId := ← field fields "session_id"
    branchId := ← field fields "branch_id"
    parentOffset := ← field fields "parent_offset"
    patch := ← field fields "patch"
    actor := ← field fields "actor"
    protocolVersion := ← field fields "protocol_version"
    checksum := ← field fields "checksum"
    causal := ← field fields "causal" }

instance : Serde JournalRecord where
  toValue := JournalRecord.serialize
  fromValue := JournalRecord.deserialize

/-- The checksum method of a record: the digest of the record without its checksum. -/
def JournalRecord.computeChecksum (r : JournalRecord) : String :=
  hex (Sha256.digest (SerdeJson.toVec (toValue { r with checksum := "" })))

/-- `serde_json::from_slice`. -/
def fromSlice {α : Type} [Serde α] (bytes : List UInt8) : Except StateError α :=
  match SerdeJson.fromSlice bytes with
  | .error e => .error (.encoding e)
  | .ok value =>
    match fromValue value with
    | .error e => .error (.encoding e)
    | .ok x => .ok x

/-! ## Reading a journal -/

/-- The loop of `materialize`: the records from an offset back to the start, the newest first.
Fuel bounds the climb, since the source would follow a circular chain forever. -/
def chainFrom (records : Std.ExtTreeMap UInt64 JournalRecord) :
    Nat → UInt64 → Except StateError (List JournalRecord)
  | fuel, cursor =>
    if cursor = 0 then .ok []
    else match fuel with
      | 0 => .error (.invalid "parent chain does not end")
      | fuel + 1 =>
        match records[cursor]? with
        | none => .error (.invalid s!"unknown journal offset {cursor}")
        | some record =>
          match chainFrom records fuel record.parentOffset with
          | .error e => .error e
          | .ok chain => .ok (record :: chain)

/-- The loop of `branch_ancestry`, with the newest offset first. -/
def ancestryFrom (records : Std.ExtTreeMap UInt64 JournalRecord) :
    Nat → UInt64 → Except StateError (List UInt64)
  | fuel, cursor =>
    if cursor = 0 then .ok []
    else match fuel with
      | 0 => .error (.invalid "parent chain does not end")
      | fuel + 1 =>
        match records[cursor]? with
        | none => .error (.invalid "unknown offset")
        | some record =>
          match ancestryFrom records fuel record.parentOffset with
          | .error e => .error e
          | .ok offsets => .ok (cursor :: offsets)

/-- One step of the replay of a chain. -/
def replayRecord (s : SessionSnapshot) (record : JournalRecord) :
    Except StateError SessionSnapshot :=
  match s.applyPatch record.patch with
  | (_, .error e) => .error e
  | (s, .ok ()) => .ok { s with selectedBranch := record.branchId }

namespace Journal

/-- `latest_offset`. -/
def latestOffset (j : Journal) : UInt64 :=
  j.records.maxKey?.getD 0

/-- `next_offset`. -/
def nextOffset (j : Journal) : UInt64 :=
  j.latestOffset + 1

/-- `materialize`. -/
def materialize (j : Journal) (offset : UInt64) : Except StateError SessionSnapshot :=
  match chainFrom j.records offset.toNat offset with
  | .error e => .error e
  | .ok chain => VersionTree.replay replayRecord (.empty j.snapshot.sessionId) chain.reverse

/-- `records`: the records in the order of their offsets. -/
def recordList (j : Journal) : List JournalRecord :=
  j.records.toList.map Prod.snd

/-- The offset of the last record with the label of a branch. -/
def branchTip (j : Journal) (branch : BranchId) : Option UInt64 :=
  (j.recordList.reverse.find? fun r => r.branchId = branch).map JournalRecord.offset

/-- `materialize_branch`. -/
def materializeBranch (j : Journal) (branch : BranchId) : Except StateError SessionSnapshot :=
  match j.branchTip branch with
  | some offset => j.materialize offset
  | none =>
    if branch.value = "main" then j.materialize 0
    else .error (.invalid "unknown branch")

/-- `branch_ancestry`. -/
def branchAncestry (j : Journal) (offset : UInt64) : Except StateError (List UInt64) :=
  match ancestryFrom j.records offset.toNat offset with
  | .error e => .error e
  | .ok offsets => .ok offsets.reverse

/-! ## Appending to a journal -/

/-- What became of a write to the file: it was carried out and synced, or it failed after some of
its bytes had reached the file. -/
inductive WriteOutcome where
  | done
  | failed (written : Nat) (message : String)

/-- Seek to the end, `write_frame` and sync. -/
def writeFrame (file bytes : List UInt8) : WriteOutcome → List UInt8 × Except StateError Unit
  | .done =>
    if maxWireBytes < bytes.length then (file, .error (.invalid "journal frame limit"))
    else (file ++ frameFormat.frame bytes, .ok ())
  | .failed written message =>
    (file ++ (frameFormat.frame bytes).take written, .error (.io message))

/-- What the outside world decides about one append: the clock, which may stand before the epoch,
and the outcome of the write. -/
structure Outside where
  now : Except String UInt64
  outcome : WriteOutcome

/-- The record that `append_on` writes for a patch. -/
def newRecord (j : Journal) (patch : Patch) (branch : BranchId) (now : UInt64) : JournalRecord :=
  let record : JournalRecord := {
    offset := patch.resultOffset
    timestampMs := now
    sessionId := j.snapshot.sessionId
    branchId := branch
    parentOffset := j.snapshot.offset
    actor := patch.author
    patch
    protocolVersion := .current
    checksum := ""
    causal := none }
  { record with checksum := record.computeChecksum }

/-- `append_on`. -/
def appendOn (j : Journal) (patch : Patch) (branch : BranchId) (world : Outside) :
    Journal × Except StateError UInt64 :=
  if j.failed ∨ j.recovery.isSome then (j, .error .writeFailure)
  else if patch.resultOffset ≠ j.nextOffset then
    (j, .error (.invalid "patch result must be next global offset"))
  else match world.now with
    | .error message => (j, .error (.invalid message))
    | .ok now =>
      let previous := j.snapshot.offset
      let record := j.newRecord patch branch now
      let bytes := SerdeJson.toVec (toValue record)
      if maxWireBytes < bytes.length then (j, .error (.invalid "journal frame limit"))
      else match j.snapshot.applyPatch record.patch with
        | (snapshot, .error e) => ({ j with snapshot }, .error e)
        | (snapshot, .ok ()) =>
          match writeFrame j.file bytes world.outcome with
          | (file, .ok ()) =>
            ({ j with file, records := j.records.insert record.offset record,
                      snapshot := { snapshot with selectedBranch := branch } },
              .ok record.offset)
          | (file, .error e) =>
            let poison := !(e matches .invalid _)
            match { j with snapshot }.materialize previous with
            | .ok snapshot => ({ j with file, snapshot, failed := j.failed || poison }, .error e)
            | .error e => ({ j with file, snapshot, failed := true }, .error e)

/-- `append_patch`. -/
def appendPatch (j : Journal) (patch : Patch) (world : Outside) :
    Journal × Except StateError UInt64 :=
  j.appendOn patch j.snapshot.selectedBranch world

/-- The author of the records that the host writes by itself. -/
def hostAuthor : PatchAuthor := .actor ⟨"host", Eq.refl true⟩

/-- The element that `fork_at` adds for a new branch. -/
def branchElement (element : ElementId) (branch : BranchId) (offset : UInt64) : ElementSnapshot :=
  let e := ElementSnapshot.new element "branch"
  let attributes := e.attributes.insert "branch_id" (.string branch.value)
  { e with attributes := attributes.insert "parent_offset" (.json (.number (.posInt offset))) }

/-- `fork_at`, with the minted branch and element. The `branches` container of the parent is
present in every well-formed tree. -/
def forkAt (j : Journal) (offset : UInt64) (branch : BranchId) (element : ElementId)
    (world : Outside) : Journal × Except StateError BranchId :=
  match j.materialize offset with
  | .error e => (j, .error e)
  | .ok parent =>
    let container := staticId "branches"
    let patch : Patch := {
      baseOffset := offset
      resultOffset := j.nextOffset
      author := hostAuthor
      reason := "fork branch"
      ops := [.create container (.ofNat (parent.children container).length)
        (branchElement element branch offset)] }
    match { j with snapshot := parent }.appendOn patch branch world with
    | (j', .error e) => ({ j' with snapshot := j.snapshot }, .error e)
    | (j', .ok _) => (j', .ok branch)

/-- `rewind_to`. -/
def rewindTo (j : Journal) (offset : UInt64) (branch : BranchId) (element : ElementId)
    (world : Outside) : Journal × Except StateError BranchId :=
  j.forkAt offset branch element world

/-- `select_branch`. -/
def selectBranch (j : Journal) (branch : BranchId) (world : Outside) :
    Journal × Except StateError UInt64 :=
  match j.materializeBranch branch with
  | .error e => (j, .error e)
  | .ok target =>
    let patch : Patch := {
      baseOffset := target.offset
      resultOffset := j.nextOffset
      author := hostAuthor
      reason := "select branch"
      ops := [] }
    match { j with snapshot := target }.appendOn patch branch world with
    | (j', .error e) => ({ j' with snapshot := j.snapshot }, .error e)
    | (j', .ok offset) => (j', .ok offset)

/-! ## Files -/

/-- `create`, on a path where no file exists. -/
def create (sessionId : SessionId) : Except StateError Journal :=
  let header : Header := { sessionId, format := journalFormat, version := .current }
  match writeFrame magic (SerdeJson.toVec (toValue header)) .done with
  | (_, .error e) => .error e
  | (file, .ok ()) =>
    .ok { file, records := ∅, snapshot := .empty sessionId, recovery := none, failed := false }

/-- `validate_record`. -/
def validateRecord (j : Journal) (record : JournalRecord) : Except StateError Unit :=
  if record.offset ≠ j.latestOffset + 1 ∨ record.offset ≤ record.parentOffset ∨
      record.patch.baseOffset ≠ record.parentOffset ∨ record.patch.resultOffset ≠ record.offset ∨
      record.actor ≠ record.patch.author ∨ record.sessionId ≠ j.snapshot.sessionId ∨
      record.protocolVersion.major ≠ protocolMajor ∨ record.checksum ≠ record.computeChecksum then
    .error (.invalid "invalid journal record chain or checksum")
  else .ok ()

/-- Keep a replayed record and the snapshot it leads to. -/
def accept (j : Journal) (record : JournalRecord) (snapshot : SessionSnapshot) : Journal :=
  { j with records := j.records.insert record.offset record,
           snapshot := { snapshot with selectedBranch := record.branchId } }

/-- One round of the loop in `open`: decode, validate and replay the record of a frame. A record
that continues the running snapshot is applied to it, any other to its materialised parent. -/
def openFrame (j : Journal) (bytes : List UInt8) : Journal × Option StateError :=
  match fromSlice (α := JournalRecord) bytes with
  | .error e => (j, some e)
  | .ok record =>
    match j.validateRecord record with
    | .error e => (j, some e)
    | .ok () =>
      if record.parentOffset = j.snapshot.offset then
        match j.snapshot.applyPatch record.patch with
        | (snapshot, .error e) => ({ j with snapshot }, some e)
        | (snapshot, .ok ()) => (j.accept record snapshot, none)
      else match j.materialize record.parentOffset with
        | .error e => (j, some e)
        | .ok forked =>
          match forked.applyPatch record.patch with
          | (_, .error e) => (j, some e)
          | (forked, .ok ()) => (j.accept record forked, none)

/-- `open`. -/
def openFile (file : List UInt8) : Except StateError Journal :=
  if file.length < magic.length then .error (.io "failed to fill whole buffer")
  else if file.take magic.length ≠ magic then .error (.invalid "journal magic mismatch")
  else match frameFormat.read (file.drop magic.length) with
    | .error e => .error (frameError e)
    | .ok none => .error (.invalid "missing journal header")
    | .ok (some (bytes, rest)) =>
      match fromSlice (α := Header) bytes with
      | .error e => .error e
      | .ok header =>
        if header.format ≠ journalFormat ∨ header.version.major ≠ protocolMajor then
          .error (.invalid "journal protocol mismatch")
        else
          let journal : Journal := { file, records := ∅, snapshot := .empty header.sessionId,
                                     recovery := none, failed := false }
          match frameFormat.scan openFrame frameError (rest.length + 1) journal
              (file.length - rest.length) rest with
          | (journal, _, none) => .ok journal
          | (journal, start, some error) =>
            .ok { journal with recovery := some {
              code := "journal_damaged_suffix"
              message := error.display
              lastValidOffset := journal.latestOffset
              validBytes := start
              damagedBytes := file.length - start
              preservedSuffix := none } }

/-- What became of a repair: the suffix was saved and cut off, or a file operation failed before or
after the cut. -/
inductive RepairOutcome where
  | done (suffix : String)
  | failed (cut : Bool) (message : String)

/-- `repair_suffix`. -/
def repairSuffix (j : Journal) : RepairOutcome → Journal × Except StateError (Option String)
  | outcome =>
    match j.recovery with
    | none => (j, .ok none)
    | some diagnostic =>
      match outcome with
      | .done suffix =>
        ({ j with file := j.file.take diagnostic.validBytes, recovery := none, failed := false },
          .ok (some suffix))
      | .failed cut message =>
        let file := if cut then j.file.take diagnostic.validBytes else j.file
        ({ j with file }, .error (.io message))

end Journal

end Omp2.State
