import Omp2.State.Recovery

/-!
# Restarts

A journal is lasting when its file starts with bytes that open to it, whatever follows them; the
bytes that do follow are left by a failed write, and nothing is appended after them. Storable calls,
failed writes, repairs and opening the file again keep a journal lasting, and its log grows at the
end only.
-/

namespace Omp2.State.Journal

open Omp2.Json VersionTree List

variable [SerdeJson] {sessionId : SessionId} {j j' : Journal} {log : List JournalRecord}

/-! ## Files that resume a journal -/

/-- The journal with another file, open for appends. -/
def renewed (j : Journal) (file : List UInt8) : Journal :=
  { j with file, recovery := none, failed := false }

/-- What opening makes of a scan of its file. -/
def opened (file : List UInt8) : Journal × Nat × Option StateError → Journal
  | (j, _, none) => j.renewed file
  | (j, start, some e) => (j.renewed file).damagedAt start (file.length - start) e

/-- Opening the file with any bytes after it scans these bytes from the journal on. -/
def Resumes (file : List UInt8) (j : Journal) : Prop :=
  ∀ tail, ∃ fuel, tail.length ≤ fuel ∧ openFile (file ++ tail) =
    .ok (opened (file ++ tail)
      (frameFormat.scan Journal.openFrame frameError fuel j file.length tail))

/-- Reading a frame leaves the file alone. -/
theorem openFrame_renewed (j : Journal) (file bytes : List UInt8) :
    (j.renewed file).openFrame bytes = ((j.openFrame bytes).1.renewed file, (j.openFrame bytes).2) := by
  have hvalid : ∀ record, (j.renewed file).validateRecord record = j.validateRecord record :=
    fun _ => rfl
  have hparent : ∀ offset, (j.renewed file).materialize offset = j.materialize offset :=
    fun _ => rfl
  have hlive : (j.renewed file).snapshot = j.snapshot := rfl
  unfold Journal.openFrame
  cases fromSlice (α := JournalRecord) bytes with
  | error e => rfl
  | ok record =>
      dsimp only
      rw [hvalid]
      cases j.validateRecord record with
      | error e => rfl
      | ok _ =>
        dsimp only
        rw [hparent, hlive]
        split
        · cases j.snapshot.applyPatch record.patch with
          | mk s result => cases result <;> rfl
        · cases j.materialize record.parentOffset with
          | error e => rfl
          | ok forked =>
            dsimp only
            cases forked.applyPatch record.patch with
            | mk s result => cases result <;> rfl

/-- What opening makes of a scan does not depend on the file that the scan starts with. -/
theorem opened_scan (j : Journal) (file file' bytes : List UInt8) (fuel position : Nat) :
    opened file (frameFormat.scan Journal.openFrame frameError fuel (j.renewed file') position
      bytes) =
      opened file (frameFormat.scan Journal.openFrame frameError fuel j position bytes) := by
  rw [Frames.Format.scan_map (f := fun j : Journal => j.renewed file')
    fun j payload => openFrame_renewed j file' payload]
  cases frameFormat.scan Journal.openFrame frameError fuel j position bytes with
  | mk j' rest =>
      obtain ⟨finish, result⟩ := rest
      cases result <;> rfl

theorem Resumes.congr {file : List UInt8} (h : Resumes file j) (hrecords : j'.records = j.records)
    (hsnapshot : j'.snapshot = j.snapshot) : Resumes file j' := by
  intro tail
  obtain ⟨fuel, hfuel, hopen⟩ := h tail
  have hsame : j'.renewed [] = j.renewed [] := by
    unfold renewed
    rw [hrecords, hsnapshot]
  exact ⟨fuel, hfuel, by rw [hopen, ← opened_scan j _ [], ← opened_scan j' _ [], hsame]⟩

/-- The file with one more frame that is accepted. -/
theorem Resumes.frame {file payload : List UInt8} (h : Resumes file j)
    (hshort : payload.length ≤ maxWireBytes) (hopen : j.openFrame payload = (j', none)) :
    Resumes (file ++ frameFormat.frame payload) j' := by
  intro tail
  obtain ⟨fuel, hfuel, htail⟩ := h (frameFormat.frame payload ++ tail)
  rw [length_append, Frames.Format.length_frame] at hfuel
  obtain ⟨fuel, rfl⟩ := Nat.exists_eq_succ_of_ne_zero (show fuel ≠ 0 by omega)
  refine ⟨fuel, by omega, ?_⟩
  rw [append_assoc, htail, Nat.succ_eq_add_one, Frames.Format.scan_frame tail hshort hopen,
    length_append]

/-- The end of `open`, whose scan starts with its own file. -/
theorem opened_renewed (j : Journal) (file bytes : List UInt8) (fuel position : Nat) :
    (match frameFormat.scan Journal.openFrame frameError fuel (j.renewed file) position bytes with
      | (j', _, none) => j'
      | (j', start, some e) => j'.damagedAt start (file.length - start) e) =
      opened file (frameFormat.scan Journal.openFrame frameError fuel j position bytes) := by
  rw [Frames.Format.scan_map (f := fun j : Journal => j.renewed file)
    fun j payload => openFrame_renewed j file payload]
  cases frameFormat.scan Journal.openFrame frameError fuel j position bytes with
  | mk j' rest =>
      obtain ⟨finish, result⟩ := rest
      cases result <;> rfl

theorem create_resumes (hcreate : create sessionId = .ok j) : Resumes j.file j := by
  obtain ⟨rfl, hshort⟩ := create_eq_ok hcreate
  intro tail
  refine ⟨tail.length + 1, Nat.le_succ _, ?_⟩
  rw [← opened_renewed]
  exact openFile_headerFile hshort tail

/-- A file that can be opened starts with bytes that resume a journal without records. -/
theorem openFile_resumes {file : List UInt8} (hopen : openFile file = .ok j) :
    ∃ sessionId front tail, file = front ++ tail ∧ Resumes front (blank sessionId []) := by
  unfold openFile at hopen
  split at hopen
  · cases hopen
  · next hlong =>
    split at hopen
    · cases hopen
    · next hmagic =>
      rw [not_not] at hmagic
      split at hopen
      · cases hopen
      · cases hopen
      · next bytes rest hread =>
        split at hopen
        · cases hopen
        · next header hheader =>
          split at hopen
          · cases hopen
          · next hprotocol =>
            obtain ⟨first, hfirst, _, hagain⟩ := Frames.Format.read_some hread
            have hfile := take_append_drop magic.length file
            rw [hmagic, hfirst, ← append_assoc] at hfile
            refine ⟨header.sessionId, magic ++ first, rest, hfile.symm, fun tail => ?_⟩
            refine ⟨tail.length + 1, Nat.le_succ _, ?_⟩
            have hstart : (magic ++ first ++ tail).length - tail.length =
                (magic ++ first).length := by
              rw [length_append, Nat.add_sub_cancel]
            unfold openFile
            rw [if_neg (by rw [append_assoc, length_append]; omega),
              if_neg (by rw [append_assoc, take_left]; simp),
              show (magic ++ first ++ tail).drop magic.length = first ++ tail by
                rw [append_assoc, drop_left], hagain]
            dsimp only
            rw [hheader]
            dsimp only
            rw [if_neg hprotocol, hstart, ← opened_renewed]
            show (match frameFormat.scan Journal.openFrame frameError (tail.length + 1)
              (blank header.sessionId (magic ++ first ++ tail))
                (magic ++ first).length tail with
              | (journal, _, none) => Except.ok journal
              | (journal, start, some error) => .ok _) = _
            split
            · next heq => exact congrArg Except.ok (by rw [show
                (blank header.sessionId []).renewed (magic ++ first ++ tail) =
                  blank header.sessionId (magic ++ first ++ tail) from rfl, heq])
            · next heq => exact congrArg Except.ok (by rw [show
                (blank header.sessionId []).renewed (magic ++ first ++ tail) =
                  blank header.sessionId (magic ++ first ++ tail) from rfl, heq]; rfl)

/-! ## Lasting journals -/

/-- The file starts with bytes that resume the journal. Bytes after these were left by a failed
write, or a recovery diagnostic says where they start; either keeps the journal closed. -/
structure Lasting (sessionId : SessionId) (j : Journal) (log : List JournalRecord) : Prop where
  coherent : Coherent sessionId j log
  file : ∃ front tail, j.file = front ++ tail ∧ Resumes front j ∧
    (j.failed = false → j.recovery = none → tail = []) ∧
    ∀ d, j.recovery = some d → d.validBytes = front.length

theorem create_lasting (hcreate : create sessionId = .ok j) : Lasting sessionId j [] :=
  ⟨create_coherent hcreate, j.file, [], (append_nil _).symm, create_resumes hcreate,
    fun _ _ => rfl, fun d hd => by
      obtain ⟨rfl, _⟩ := create_eq_ok hcreate
      cases hd⟩

/-- Bytes that resume a coherent journal open to a lasting one. -/
theorem Resumes.openFile {front : List UInt8} (h : Resumes front j)
    (hcoherent : Coherent sessionId j log) (tail : List UInt8) :
    ∃ j' more, Journal.openFile (front ++ tail) = .ok j' ∧ Lasting sessionId j' (log ++ more) := by
  obtain ⟨fuel, hfuel, hopen⟩ := h tail
  have hstep : ∀ (j : Journal) payload, (∃ more, Coherent sessionId j (log ++ more)) →
      ∃ more, Coherent sessionId (j.openFrame payload).1 (log ++ more) := by
    rintro j payload ⟨more, hj⟩
    obtain ⟨new, hnew⟩ := hj.openFrame_coherent payload
    exact ⟨more ++ new, by rw [← append_assoc]; exact hnew⟩
  have hrefused : ∀ (j : Journal) payload j' e, (∃ more, Coherent sessionId j (log ++ more)) →
      j.openFrame payload = (j', some e) → j' = j := by
    rintro j payload j' e ⟨more, hj⟩ hopen
    rcases hj.openFrame_spec payload with ⟨e', hsame⟩ | ⟨record, s, haccept, _⟩
    · rw [hsame] at hopen
      cases hopen
      rfl
    · rw [haccept] at hopen
      cases hopen
  have hlive : ∃ more, Coherent sessionId j (log ++ more) :=
    ⟨[], by rw [append_nil]; exact hcoherent⟩
  cases hscan : frameFormat.scan Journal.openFrame frameError fuel j front.length tail with
  | mk j' rest =>
      obtain ⟨finish, result⟩ := rest
      obtain ⟨accepted, left, rfl, rfl, hnone, haccepts⟩ :=
        Frames.Format.scan_accepts hstep hrefused hlive hfuel hscan
      have hcontinued : ∃ more, Coherent sessionId (frameFormat.scan Journal.openFrame frameError
          fuel j front.length (accepted ++ left)).1 (log ++ more) :=
        Frames.Format.scan_invariant hstep hlive
      rw [hscan] at hcontinued
      obtain ⟨more, hmore⟩ := hcontinued
      have hresumes : Resumes (front ++ accepted) j' := by
        intro tail
        obtain ⟨fuel, hfuel, hagain⟩ := h (accepted ++ tail)
        rw [length_append] at hfuel
        obtain ⟨fuel', hfuel', hresume⟩ := haccepts.resume tail fuel hfuel
        refine ⟨fuel', hfuel', ?_⟩
        rw [append_assoc, hagain, hresume, length_append]
      rw [hopen, hscan]
      refine ⟨_, more, rfl, ?_⟩
      cases result with
      | none =>
        obtain rfl := hnone rfl
        exact ⟨hmore.congr rfl rfl, front ++ accepted, [], by
          rw [append_nil, append_nil]; rfl, hresumes.congr rfl rfl, fun _ _ => rfl,
          nofun⟩
      | some e =>
        refine ⟨hmore.congr rfl rfl, front ++ accepted, left, by rw [append_assoc]; rfl,
          hresumes.congr rfl rfl, fun _ hopen => (by cases hopen), fun d hd => ?_⟩
        cases hd
        exact (length_append ..).symm

theorem openFile_lasting {file : List UInt8} (hopen : openFile file = .ok j) :
    ∃ sessionId log, Lasting sessionId j log := by
  obtain ⟨sessionId, front, tail, rfl, hresumes⟩ := openFile_resumes hopen
  obtain ⟨j', more, hopen', hlasting⟩ := hresumes.openFile (blank_coherent sessionId []) tail
  rw [hopen] at hopen'
  cases hopen'
  exact ⟨sessionId, _, hlasting⟩

theorem Lasting.openFile (h : Lasting sessionId j log) :
    ∃ j' more, Journal.openFile j.file = .ok j' ∧ Lasting sessionId j' (log ++ more) := by
  obtain ⟨front, tail, hfile, hresumes, _⟩ := h.file
  rw [hfile]
  exact hresumes.openFile h.coherent tail

/-- A repair cuts off the bytes that were not accepted. -/
theorem Lasting.repairSuffix (h : Lasting sessionId j log) (outcome : RepairOutcome) :
    Lasting sessionId (j.repairSuffix outcome).1 log := by
  obtain ⟨front, tail, hfile, hresumes, _, hvalid⟩ := h.file
  unfold Journal.repairSuffix
  cases hrecovery : j.recovery with
  | none => exact h
  | some d =>
      have hcut : j.file.take d.validBytes = front := by
        rw [hvalid d hrecovery, hfile, take_left]
      have hstart : ∀ d', some d = some d' → d'.validBytes = front.length := by
        rintro d' hd
        cases hd
        exact hvalid d hrecovery
      cases outcome with
      | done suffix =>
        exact ⟨h.coherent.congr rfl rfl, front, [], by rw [append_nil]; exact hcut,
          hresumes.congr rfl rfl, fun _ _ => rfl, nofun⟩
      | failed cut message =>
        cases cut with
        | false =>
          exact ⟨h.coherent.congr rfl rfl, front, tail, hfile, hresumes.congr rfl rfl,
            nofun, hstart⟩
        | true =>
          exact ⟨h.coherent.congr rfl rfl, front, [], by rw [append_nil]; exact hcut,
            hresumes.congr rfl rfl, fun _ _ => rfl, hstart⟩

/-- A storable call adds the record it writes to a lasting journal, or it is refused. -/
theorem Lasting.step_cases (h : Lasting sessionId j log) (call : Call)
    (hstorable : j.accepts call = true → call.Storable) :
    (∃ r, j.accepts call = true ∧ call.Writes r.patch ∧
      Lasting sessionId (j.step call) (log ++ [r])) ∨
      j.accepts call = false ∧ Lasting sessionId (j.step call) log := by
  obtain ⟨front, tail, hfile, hresumes, hintact, hvalid⟩ := h.file
  cases h.coherent.step_cases call with
  | appended s patch r haccepts hwrites hr =>
      obtain ⟨now, _, hrecord⟩ := hr.record
      have hpatch : r.patch = patch := by rw [hrecord]; rfl
      have hnative : r.Native := by
        rw [hrecord]
        exact ⟨rfl, rfl⟩
      have hwhole : r.patch.Storable := by
        rw [hpatch]
        exact hwrites.storable_iff.mpr (hstorable haccepts)
      obtain rfl := hintact hr.intact.1 hr.intact.2
      obtain ⟨s', hopen, hnext⟩ := h.coherent.openFrame hr.coherent.complete
        (hr.coherent.linked _ r (by simp)) hnative hwhole
      have hsame := hnext.unique hr.coherent
      have hframe := hresumes.frame hr.short hopen
      refine .inl ⟨r, haccepts, hpatch ▸ hwrites, hr.coherent,
        front ++ frameFormat.frame r.payload, [], ?_, hframe.congr ?_ ?_, fun _ _ => rfl, ?_⟩
      · rw [append_nil, hr.file, ← append_nil front, ← hfile]
        rfl
      · rw [hsame]
      · rw [hsame]
      · intro d hd
        rw [hr.recovery, hr.intact.2] at hd
        cases hd
  | refused haccepts hrefused =>
      refine .inr ⟨haccepts, h.coherent.congr hrefused.records hrefused.snapshot, ?_⟩
      have hresumes' := hresumes.congr hrefused.records hrefused.snapshot
      rcases hrefused.rest with hsame | ⟨_, hfailed, part, hpart⟩
      · rw [hsame]
        exact h.file
      · refine ⟨front, tail ++ part, ?_, hresumes', fun hopen => ?_, fun d hd => ?_⟩
        · rw [hpart, hfile, append_assoc]
        · rw [hfailed] at hopen
          cases hopen
        · rw [hrefused.recovery] at hd
          exact hvalid d hd

end Omp2.State.Journal
