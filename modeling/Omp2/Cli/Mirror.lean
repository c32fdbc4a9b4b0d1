import Omp2.State.Recovery

/-!
# The mirror of the terminal interface

The worker process owns the journal and tells its parent about every append, and the parent folds
the events into a copy of the document: `observe_journal` of `omp-cli/src/worker.rs` and the event
loop of `tui.rs`. The observer remembers one offset and sends a patch when it continues that
offset and the whole snapshot otherwise. An event is delivered as the value that was sent; what the
worker does to its journal is any sequence of calls.
-/

namespace Omp2.Cli

open Omp2.Json Omp2.State VersionTree

/-- `WorkerEvent`. -/
inductive WorkerEvent where
  | snapshot (snapshot : SessionSnapshot)
  | sessionChanged (snapshot : SessionSnapshot) (journal : String)
  | patch (patch : Patch) (branch : BranchId)
  | settled (error : Option StructuredError)
  | diagnostic (error : StructuredError)

/-- The observer of `observe_journal`: what it remembers next, and the event that it emits. -/
def observe (currentBase : UInt64) (record : JournalRecord) (snapshot : SessionSnapshot) :
    UInt64 × WorkerEvent :=
  if record.patch.baseOffset = currentBase then
    (record.offset, .patch record.patch record.branchId)
  else (snapshot.offset, .snapshot snapshot)

variable [SerdeJson]

/-- What `run` of the interface makes of an event. -/
def receiveEvent (copy : SessionSnapshot) : WorkerEvent → Except StateError SessionSnapshot
  | .snapshot next | .sessionChanged next _ => .ok next
  | .patch patch branch =>
    match copy.applyPatch patch with
    | (_, .error e) => .error e
    | (copy, .ok ()) => .ok { copy with selectedBranch := branch }
  | .settled _ | .diagnostic _ => .ok copy

/-- The worker with what its observer remembers, and the copy of the parent. -/
structure Mirror where
  journal : Journal
  currentBase : UInt64
  copy : SessionSnapshot

/-- What happens in the worker: a call to the journal, `/new` with the calls that prepare the clean
session, or an event that does not carry the document. -/
inductive Activity where
  | call (call : Journal.Call)
  | newSession (sessionId : SessionId) (path : String) (calls : List Journal.Call)
  | settle (error : Option StructuredError)
  | report (error : StructuredError)

/-- The record that an accepted call has appended, which the journal shows to its observer. -/
def appendedRecord (j : Journal) (call : Journal.Call) : Option JournalRecord :=
  if j.accepts call then (j.step call).records[(j.step call).latestOffset]? else none

namespace Mirror

/-- The worker after the initial snapshot, with its observer set. -/
def start (j : Journal) : Mirror :=
  ⟨j, j.snapshot.offset, j.snapshot⟩

/-- The journal, what its observer remembers, and the event that is emitted. -/
def work (w : Mirror) : Activity → Journal × UInt64 × Option WorkerEvent
  | .call call =>
    match appendedRecord w.journal call with
    | none => (w.journal.step call, w.currentBase, none)
    | some record =>
      match observe w.currentBase record (w.journal.step call).snapshot with
      | (base, event) => (w.journal.step call, base, some event)
  | .newSession sessionId path calls =>
    match Journal.create sessionId with
    | .error _ => (w.journal, w.currentBase, none)
    | .ok next =>
      (next.after calls, (next.after calls).snapshot.offset,
        some (.sessionChanged (next.after calls).snapshot path))
  | .settle error => (w.journal, w.currentBase, some (.settled error))
  | .report error => (w.journal, w.currentBase, some (.diagnostic error))

/-- One activity, with its event folded into the copy. A rejected patch leaves the copy as it was,
and ends the interface. -/
def step (w : Mirror) (activity : Activity) : Mirror :=
  match w.work activity with
  | (journal, currentBase, none) => { w with journal, currentBase }
  | (journal, currentBase, some event) =>
    match receiveEvent w.copy event with
    | .error _ => { w with journal, currentBase }
    | .ok copy => { journal, currentBase, copy }

/-- The copy shows the live snapshot, and the observer remembers its offset. -/
structure InStep (w : Mirror) : Prop where
  coherent : ∃ sessionId log, Journal.Coherent sessionId w.journal log
  copy : w.copy = w.journal.snapshot
  base : w.currentBase = w.journal.snapshot.offset

variable {sessionId : SessionId} {j : Journal} {log : List JournalRecord} {w : Mirror}

/-- An accepted call appends one record after the log. -/
theorem appendedRecord_cases (h : Journal.Coherent sessionId j log) (call : Journal.Call) :
    (appendedRecord j call = none ∧ (j.step call).snapshot = j.snapshot ∧
      Journal.Coherent sessionId (j.step call) log) ∨
      ∃ r, appendedRecord j call = some r ∧
        Journal.Coherent sessionId (j.step call) (log ++ [r]) ∧
        r.offset = (j.step call).snapshot.offset ∧
        (r.patch.baseOffset = j.snapshot.offset → ∃ s, j.snapshot.applyPatch r.patch = (s, .ok ()) ∧
          (j.step call).snapshot = { s with selectedBranch := r.branchId }) := by
  cases h.step_cases call with
  | refused haccepts hrefused =>
      exact .inl ⟨by simp [appendedRecord, haccepts], hrefused.snapshot,
        h.congr hrefused.records hrefused.snapshot⟩
  | appended s patch r haccepts _ hr =>
      have hlength : (log ++ [r]).length = log.length + 1 := by simp
      have hlatest : (j.step call).latestOffset.toNat = log.length + 1 :=
        hr.coherent.latestOffset.trans hlength
      have hget : (log ++ [r])[log.length]? = some r := by simp
      have hlinked := hr.coherent.linked _ r hget
      refine .inr ⟨r, ?_, hr.coherent, ?_, fun hbase => ?_⟩
      · rw [appendedRecord, if_pos haccepts, hr.coherent.get_succ hlatest, hget]
      · have hlive := (hr.coherent.at_version hr.coherent.live).offset
        exact UInt64.toNat_inj.mp (hlinked.offset.trans (hlength.symm.trans hlive.symm))
      · -- the parent of the record is the version at which the journal stood
        have hnew : At (recordStore sessionId) (log ++ [r]) (log.length + 1)
            (j.step call).snapshot := hlength ▸ hr.coherent.live
        obtain ⟨edit, parent, hedit, hparent, happly⟩ := hnew.of_succ
        obtain rfl : r = edit := Option.some.inj (hget.symm.trans hedit)
        have hversion : r.parentOffset.toNat = log.length := by
          rw [← hlinked.base, hbase, (h.at_version h.live).offset]
        have hbefore : At (recordStore sessionId) log r.parentOffset.toNat parent :=
          hparent.restrict hr.coherent.complete.ordered hlinked.parent
        obtain rfl : parent = j.snapshot := (hversion ▸ hbefore).unique h.live
        exact replayRecord_ok happly

/-- Every activity emits an event that the copy accepts, and leaves the mirror in step. -/
theorem InStep.work (h : w.InStep) (activity : Activity) :
    (∀ event, (w.work activity).2.2 = some event →
      receiveEvent w.copy event = .ok (w.step activity).journal.snapshot) ∧
      (w.step activity).InStep := by
  obtain ⟨sessionId, log, hcoherent⟩ := h.coherent
  -- an activity whose event the copy folds into the live snapshot
  have hfold : ∀ journal currentBase event, w.work activity = (journal, currentBase, some event) →
      receiveEvent w.copy event = .ok journal.snapshot → currentBase = journal.snapshot.offset →
      (∃ sessionId log, Journal.Coherent sessionId journal log) →
      (∀ event, (w.work activity).2.2 = some event →
        receiveEvent w.copy event = .ok (w.step activity).journal.snapshot) ∧
        (w.step activity).InStep := by
    intro journal currentBase event hwork hreceive hbase hjournal
    have hstep : w.step activity = ⟨journal, currentBase, journal.snapshot⟩ := by
      simp [step, hwork, hreceive]
    rw [hstep, hwork]
    refine ⟨fun other hother => ?_, hjournal, rfl, hbase⟩
    cases hother
    exact hreceive
  -- an activity without an event, which leaves the live snapshot
  have hquiet : ∀ journal, w.work activity = (journal, w.currentBase, none) →
      journal.snapshot = w.journal.snapshot →
      (∃ sessionId log, Journal.Coherent sessionId journal log) →
      (∀ event, (w.work activity).2.2 = some event →
        receiveEvent w.copy event = .ok (w.step activity).journal.snapshot) ∧
        (w.step activity).InStep := by
    intro journal hwork hsnapshot hjournal
    have hstep : w.step activity = ⟨journal, w.currentBase, w.copy⟩ := by simp [step, hwork]
    rw [hstep, hwork]
    exact ⟨fun other hother => by simp at hother, hjournal, h.copy.trans hsnapshot.symm,
      h.base.trans (congrArg SessionSnapshot.offset hsnapshot.symm)⟩
  cases activity with
  | call call =>
      rcases appendedRecord_cases hcoherent call with
        ⟨hnone, hsnapshot, hnext⟩ | ⟨r, hsome, hnext, hoffset, hpatch⟩
      · exact hquiet (w.journal.step call) (by simp [Mirror.work, hnone]) hsnapshot ⟨_, _, hnext⟩
      · by_cases hbase : r.patch.baseOffset = w.currentBase
        · obtain ⟨s, happly, hlive⟩ := hpatch (hbase.trans h.base)
          refine hfold (w.journal.step call) r.offset (.patch r.patch r.branchId)
            (by simp [Mirror.work, hsome, observe, hbase]) ?_ hoffset ⟨_, _, hnext⟩
          show (match w.copy.applyPatch r.patch with
            | (_, .error e) => Except.error e
            | (copy, .ok ()) => .ok { copy with selectedBranch := r.branchId }) = _
          rw [h.copy, happly, hlive]
        · exact hfold (w.journal.step call) _ (.snapshot (w.journal.step call).snapshot)
            (by simp [Mirror.work, hsome, observe, hbase]) rfl rfl ⟨_, _, hnext⟩
  | newSession sessionId path calls =>
      cases hcreate : Journal.create sessionId with
      | error e =>
        exact hquiet w.journal (by simp [Mirror.work, hcreate]) rfl ⟨_, _, hcoherent⟩
      | ok next =>
        obtain ⟨more, hmore⟩ := (Journal.create_coherent hcreate).after calls
        exact hfold (next.after calls) _ (.sessionChanged (next.after calls).snapshot path)
          (by simp [Mirror.work, hcreate]) rfl rfl ⟨_, _, hmore⟩
  | settle error =>
      exact hfold w.journal w.currentBase (.settled error) rfl (congrArg Except.ok h.copy) h.base
        ⟨_, _, hcoherent⟩
  | report error =>
      exact hfold w.journal w.currentBase (.diagnostic error) rfl (congrArg Except.ok h.copy) h.base
        ⟨_, _, hcoherent⟩

end Mirror

/-- The journal with which a worker starts: it was created or opened, repaired if it was damaged,
and used before the observer was set. -/
inductive Prepared : Journal → Prop where
  | created {sessionId : SessionId} {j : Journal} : Journal.create sessionId = .ok j → Prepared j
  | opened {file : List UInt8} {j : Journal} : Journal.openFile file = .ok j → Prepared j
  | repaired {j : Journal} (outcome : Journal.RepairOutcome) :
      Prepared j → Prepared (j.repairSuffix outcome).1
  | used {j : Journal} (call : Journal.Call) : Prepared j → Prepared (j.step call)

omit [SerdeJson] in
theorem repairSuffix_rest (j : Journal) (outcome : Journal.RepairOutcome) :
    (j.repairSuffix outcome).1.records = j.records ∧
      (j.repairSuffix outcome).1.snapshot = j.snapshot := by
  unfold Journal.repairSuffix
  split
  · exact ⟨rfl, rfl⟩
  · cases outcome <;> exact ⟨rfl, rfl⟩

/-- A prepared journal is coherent. -/
theorem Prepared.coherent {j : Journal} (h : Prepared j) :
    ∃ sessionId log, Journal.Coherent sessionId j log := by
  induction h with
  | created hcreate => exact ⟨_, _, Journal.create_coherent hcreate⟩
  | opened hopen => exact Journal.openFile_coherent hopen
  | repaired outcome _ ih =>
      obtain ⟨sessionId, log, h⟩ := ih
      obtain ⟨hrecords, hsnapshot⟩ := repairSuffix_rest _ outcome
      exact ⟨sessionId, log, h.congr hrecords hsnapshot⟩
  | used call _ ih =>
      obtain ⟨sessionId, log, h⟩ := ih
      obtain ⟨more, hmore⟩ := h.step call
      exact ⟨sessionId, log ++ more, hmore⟩

end Omp2.Cli

namespace Omp2.Cli

open Omp2.Json Omp2.Json.Compact Omp2.State

end Omp2.Cli
