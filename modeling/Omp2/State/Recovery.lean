import Omp2.State.Replay

/-!
# Crash recovery

A journal file that was cut anywhere after its header opens to the journal that wrote the last
whole frame before the cut, and repairing it gives that journal back, file included. Both hold
of runs in which every accepted patch is storable; `Patch.validate` does not ensure that.
-/

namespace Omp2.State.Journal

open Omp2.Json VersionTree List

variable [SerdeJson] {sessionId : SessionId} {j : Journal} {log : List JournalRecord}

/-! ## The patches of a run -/

/-- A call whose patch, if it carries one, is read back as it was written. -/
def Call.Storable : Call → Prop
  | .append patch _ => patch.Storable
  | .fork _ _ _ _ | .rewind _ _ _ _ | .select _ _ => True

/-- A patch without operations is storable. -/
theorem storable_of_nil {patch : Patch} (hops : patch.ops = []) : patch.Storable := by
  have hauthor := depth_author patch.author
  refine ⟨fun op hop => ?_, ?_⟩
  · rw [hops] at hop
    cases hop
  · show (Patch.serialize patch).depth + 1 < 128
    have hempty : (toValue patch.ops).depth = 1 := by
      rw [hops]
      rfl
    have hflat : ∀ n : UInt64, (toValue n).depth = 0 := fun _ => rfl
    have htext : (toValue patch.reason).depth = 0 := rfl
    simp only [Patch.serialize, Value.depth, entriesDepth, hauthor, hempty, hflat, htext]
    omega

omit [SerdeJson] in
/-- The attributes of the element of a branch. -/
theorem branchElement_attributes {element : ElementId} {branch : BranchId} {offset : UInt64}
    {name : String} {value : TypedValue}
    (h : (branchElement element branch offset).attributes[name]? = some value) :
    value = .string branch.value ∨ value = .json (.number (.posInt offset)) := by
  unfold branchElement at h
  dsimp only at h
  rw [Std.ExtTreeMap.getElem?_insert] at h
  split at h
  · exact .inr (Option.some.inj h).symm
  · rw [Std.ExtTreeMap.getElem?_insert] at h
    split at h
    · exact .inl (Option.some.inj h).symm
    · rw [ElementSnapshot.new, Std.ExtTreeMap.getElem?_empty] at h
      cases h

/-- A patch that creates one small element is storable. -/
theorem storable_create {patch : Patch} {parent : ElementId} {index : UInt32}
    {element : ElementSnapshot} (hops : patch.ops = [.create parent index element])
    (hpayload : element.payload = none)
    (hattributes : ∀ (name : String) (value : TypedValue), element.attributes[name]? = some value →
      value.Durable ∧ (toValue value).depth ≤ 1) : patch.Storable := by
  have hauthor := depth_author patch.author
  refine ⟨fun op hop => ?_, ?_⟩
  · rw [hops] at hop
    obtain rfl := mem_singleton.mp hop
    exact ⟨fun name value hvalue => (hattributes name value hvalue).1, by rw [hpayload]; nofun⟩
  · have hdepth : (toValue element.attributes).depth ≤ 2 :=
      depth_map_le fun name value hvalue => (hattributes name value hvalue).2
    have helement : (toValue element).depth = (toValue element.attributes).depth + 1 := by
      show max 0 (max 0 (max 0 (max _ (max 0 (max (toValue element.payload).depth 0))))) + 1 = _
      rw [hpayload, show (toValue (none : Option Value)).depth = 0 from rfl]
      omega
    have hops' : (toValue patch.ops).depth = (toValue element).depth + 3 := by
      rw [hops]
      show max (max (max 0 (max 0 (max _ 0)) + 1) 0 + 1) 0 + 1 = _
      omega
    show max 0 (max 0 (max (toValue patch.author).depth (max 0 (max (toValue patch.ops).depth 0))))
      + 1 + 1 < 128
    omega

theorem storable_fork {patch : Patch} {index : UInt32} {element : ElementId} {branch : BranchId}
    {offset : UInt64} (hops : patch.ops =
      [.create (staticId "branches") index (branchElement element branch offset)]) :
    patch.Storable := by
  refine storable_create hops rfl fun name value hvalue => ?_
  rcases branchElement_attributes hvalue with rfl | rfl <;> exact ⟨trivial, Nat.le_refl 1⟩

/-- Exactly the calls with a storable patch write one. -/
theorem Call.Writes.storable_iff {call : Call} {patch : Patch} (h : call.Writes patch) :
    patch.Storable ↔ call.Storable := by
  cases call with
  | append given world => rw [show patch = given from h]; rfl
  | fork offset branch element world =>
      obtain ⟨index, hops⟩ := h
      exact iff_of_true (storable_fork hops) trivial
  | rewind offset branch element world =>
      obtain ⟨index, hops⟩ := h
      exact iff_of_true (storable_fork hops) trivial
  | select branch world => exact iff_of_true (storable_of_nil h) trivial

/-! ## Journals whose file holds their records -/

/-- The file of the journal is intact and holds the records of its log. -/
structure Stored (sessionId : SessionId) (j : Journal) (log : List JournalRecord) : Prop where
  coherent : Coherent sessionId j log
  file : j.file = headerFile sessionId ++ logFrames log
  header : (headerPayload sessionId).length ≤ maxWireBytes
  native : ∀ r ∈ log, r.Native
  short : ∀ r ∈ log, r.payload.length ≤ maxWireBytes
  failed : j.failed = false
  recovery : j.recovery = none

theorem create_stored (hcreate : create sessionId = .ok j) : Stored sessionId j [] := by
  obtain ⟨rfl, hshort⟩ := create_eq_ok hcreate
  exact ⟨blank_coherent _ _, (append_nil _).symm, hshort,
    fun r hr => absurd hr not_mem_nil, fun r hr => absurd hr not_mem_nil, rfl, rfl⟩

/-- A coherent journal is determined by its log up to what it knows of its file. -/
theorem Based.unique {j' : Journal} (h : Coherent sessionId j log)
    (h' : Coherent sessionId j' log) :
    j' = { j with file := j'.file, recovery := j'.recovery, failed := j'.failed } := by
  have hrecords : j'.records = j.records := by
    refine Std.ExtTreeMap.ext_getElem? fun o => ?_
    rw [h.get, h'.get]
  have hsnapshot : j'.snapshot = j.snapshot := h'.live.unique h.live
  cases j'
  cases hrecords
  cases hsnapshot
  rfl

/-- An append to any version of a stored journal leaves it stored. -/
theorem Stored.appended {j' : Journal} {s : SessionSnapshot} {patch : Patch} {branch : BranchId}
    {world : Outside} {r : JournalRecord} (h : Stored sessionId j log)
    (hr : Appended sessionId { j with snapshot := s } log patch branch world j' r) :
    Stored sessionId j' (log ++ [r]) := by
  obtain ⟨now, _, hrecord⟩ := hr.record
  refine ⟨hr.coherent, ?_, h.header, ?_, ?_, hr.failed.trans h.failed,
    hr.recovery.trans h.recovery⟩
  · have hone : logFrames [r] = frameFormat.frame r.payload := append_nil _
    rw [hr.file, logFrames_append, hone, ← append_assoc, ← h.file]
    rfl
  · rw [forall_mem_append, forall_mem_singleton, hrecord]
    exact ⟨h.native, rfl, rfl⟩
  · rw [forall_mem_append, forall_mem_singleton]
    exact ⟨h.short, hr.short⟩

/-- A call that the file obeys adds one record to a stored journal, or it changes nothing. -/
theorem Stored.step_cases (h : Stored sessionId j log) {call : Call}
    (hdone : call.world.outcome = .done) :
    (∃ r, j.accepts call = true ∧ (r.patch.Storable ↔ call.Storable) ∧
      Stored sessionId (j.step call) (log ++ [r])) ∨
      (j.accepts call = false ∧ j.step call = j) := by
  cases h.coherent.step_cases call with
  | appended s patch r haccepts hwrites hr =>
      obtain ⟨now, _, hrecord⟩ := hr.record
      have hpatch : r.patch = patch := by rw [hrecord]; rfl
      exact .inl ⟨r, haccepts, by rw [hpatch]; exact hwrites.storable_iff, h.appended hr⟩
  | refused haccepts hrefused => exact .inr ⟨haccepts, hrefused.unchanged hdone⟩

/-- Opening a stored file with more bytes scans these from the journal on. -/
theorem Stored.openFile_tail (h : Stored sessionId j log)
    (hstorable : ∀ r ∈ log, r.patch.Storable) (tail : List UInt8) :
    ∃ fuel, openFile (j.file ++ tail) = .ok
      (match frameFormat.scan Journal.openFrame frameError (fuel + 1)
        { j with file := j.file ++ tail } j.file.length tail with
      | (j', _, none) => j'
      | (j', start, some e) => j'.damagedAt start ((j.file ++ tail).length - start) e) := by
  have hfile : j.file ++ tail = headerFile sessionId ++ (logFrames log ++ tail) := by
    rw [h.file, append_assoc]
  have hlength := length_logFrames log
  have hfuel : (logFrames log ++ tail).length + 1 =
      log.length + ((logFrames log ++ tail).length - log.length + 1) := by
    rw [length_append]
    omega
  have hlinked : ∀ i r, ([] ++ log)[i]? = some r → WellLinked sessionId i r := h.coherent.linked
  obtain ⟨j', hj', hfile', hrecovery', hfailed', hscan⟩ :=
    (blank_coherent sessionId (j.file ++ tail)).scan h.coherent.complete hlinked h.native hstorable
      h.short
      ((logFrames log ++ tail).length - log.length + 1) (headerFile sessionId).length tail
  have hopened : j' = { j with file := j.file ++ tail } := by
    rw [h.coherent.unique hj', hfile', hrecovery', hfailed']
    cases j
    cases h.recovery
    cases h.failed
    rfl
  refine ⟨(logFrames log ++ tail).length - log.length, ?_⟩
  rw [hfile, openFile_headerFile h.header, hfuel, ← hfile, hscan, hopened, ← length_append,
    ← h.file] <;> rfl

theorem Stored.openFile (h : Stored sessionId j log) (hstorable : ∀ r ∈ log, r.patch.Storable) :
    Journal.openFile j.file = .ok j := by
  obtain ⟨fuel, hopen⟩ := h.openFile_tail hstorable []
  rw [append_nil, Frames.Format.scan_nil] at hopen
  exact hopen

/-- The file with a part of one more frame opens with a diagnostic. -/
theorem Stored.openFile_torn (h : Stored sessionId j log)
    (hstorable : ∀ r ∈ log, r.patch.Storable) {payload : List UInt8} {part : Nat}
    (hshort : payload.length ≤ maxWireBytes) (hpos : 0 < part)
    (hpart : part < (frameFormat.frame payload).length) :
    Journal.openFile (j.file ++ (frameFormat.frame payload).take part) = .ok
      (({ j with file := j.file ++ (frameFormat.frame payload).take part } : Journal).damagedAt
        j.file.length part (frameError .endOfFile)) := by
  obtain ⟨fuel, hopen⟩ := h.openFile_tail hstorable ((frameFormat.frame payload).take part)
  have hdamaged : (j.file ++ (frameFormat.frame payload).take part).length - j.file.length =
      part := by
    rw [length_append, length_take]
    omega
  rw [Frames.Format.scan_cut hshort hpos hpart] at hopen
  rw [hopen]
  dsimp only
  rw [hdamaged]

/-! ## Runs -/

/-- Every call of a run that is accepted is storable. -/
def StorableRun : Journal → List Call → Prop :=
  Machine.Along step fun j call => j.accepts call = true → call.Storable

/-- A run that the file obeys stores the records of its accepted calls. -/
theorem Stored.after {calls : List Call} (h : Stored sessionId j log)
    (hdone : ∀ call ∈ calls, call.world.outcome = .done) :
    ∃ more, Stored sessionId (j.after calls) (log ++ more) ∧
      ((∀ r ∈ more, r.patch.Storable) ↔ StorableRun j calls) := by
  induction calls generalizing j log with
  | nil => exact ⟨[], by rw [append_nil]; exact h, by simp [StorableRun, Machine.Along]⟩
  | cons call calls ih =>
      obtain ⟨hcall, hcalls⟩ := forall_mem_cons.mp hdone
      rcases h.step_cases hcall with ⟨r, haccepts, hstorable, hnext⟩ | ⟨haccepts, hsame⟩
      · obtain ⟨more, hmore, hiff⟩ := ih hnext hcalls
        refine ⟨r :: more, by rw [append_cons]; exact hmore, ?_⟩
        rw [forall_mem_cons, hiff, hstorable]
        show _ ↔ (j.accepts call = true → call.Storable) ∧ StorableRun (j.step call) calls
        simp [haccepts]
      · rw [show j.after (call :: calls) = j.after calls by
          show (j.step call).after calls = _
          rw [hsame]]
        obtain ⟨more, hmore, hiff⟩ := ih h hcalls
        refine ⟨more, hmore, ?_⟩
        rw [hiff]
        show _ ↔ (j.accepts call = true → call.Storable) ∧ StorableRun (j.step call) calls
        rw [haccepts, hsame]
        simp

/-- Every initial part of the records of a run was the log after an initial part of its calls. -/
theorem Stored.exists_after {calls : List Call} {more : List JournalRecord}
    (h : Stored sessionId j log) (hdone : ∀ call ∈ calls, call.world.outcome = .done)
    (hmore : Stored sessionId (j.after calls) (log ++ more)) {count : Nat}
    (hcount : count ≤ more.length) :
    ∃ first, first <+: calls ∧ Stored sessionId (j.after first) (log ++ more.take count) := by
  induction calls generalizing j log more count with
  | nil =>
      have hlog : log = log ++ more := h.coherent.recordList.symm.trans hmore.coherent.recordList
      obtain rfl : more = [] := append_cancel_left (hlog.symm.trans (append_nil log).symm)
      exact ⟨[], prefix_refl _, by rw [take_nil, append_nil]; exact h⟩
  | cons call calls ih =>
      obtain ⟨hcall, hcalls⟩ := forall_mem_cons.mp hdone
      rcases h.step_cases hcall with ⟨r, _, _, hnext⟩ | ⟨_, hsame⟩
      · obtain ⟨rest, hrest, _⟩ := hnext.after hcalls
        have hlog : log ++ more = log ++ r :: rest := by
          rw [append_cons]
          exact hmore.coherent.recordList.symm.trans hrest.coherent.recordList
        obtain rfl := append_cancel_left hlog
        cases count with
        | zero =>
          exact ⟨[], nil_prefix, by rw [take_zero, append_nil]; exact h⟩
        | succ count =>
          obtain ⟨first, hfirst, hstored⟩ := ih hnext hcalls hrest
            (Nat.le_of_succ_le_succ hcount)
          refine ⟨call :: first, cons_prefix_cons.mpr ⟨rfl, hfirst⟩, ?_⟩
          rw [take_succ_cons, append_cons]
          exact hstored
      · rw [show j.after (call :: calls) = j.after calls by
          show (j.step call).after calls = _
          rw [hsame]] at hmore
        obtain ⟨first, hfirst, hstored⟩ := ih h hcalls hmore hcount
        refine ⟨call :: first, cons_prefix_cons.mpr ⟨rfl, hfirst⟩, ?_⟩
        show Stored sessionId ((j.step call).after first) _
        rw [hsame]
        exact hstored

/-- Opening the file of a journal reports no damage and gives the journal back. -/
def Reopens (j : Journal) : Prop :=
  ∃ j', openFile j.file = .ok j' ∧ j'.recovery = none ∧ j'.snapshot = j.snapshot ∧
    j'.records = j.records

/-- A stored journal reopens exactly when its records are storable. -/
theorem Stored.reopens_iff (h : Stored sessionId j log) :
    Reopens j ↔ ∀ r ∈ log, r.patch.Storable := by
  constructor
  · rintro ⟨j', hopen, hnone, _, hrecords⟩
    rw [h.file, openFile_headerFile h.header] at hopen
    have hopened := Except.ok.inj hopen
    split at hopened
    · next finish hscan =>
      subst hopened
      refine (blank_coherent sessionId _).storable_of_scan h.coherent.complete
        h.coherent.linked h.native h.short (Nat.le_succ_of_le (length_logFrames log)) hscan fun r hr => ?_
      obtain ⟨i, hi⟩ := mem_iff_getElem?.mp hr
      rw [hrecords, h.coherent.get_succ (h.coherent.linked i r hi).offset, hi]
    · subst hopened
      cases hnone
  · intro hstorable
    exact ⟨j, h.openFile hstorable, h.recovery, rfl, rfl⟩

/-- After such a run the journal reopens exactly when the accepted calls are storable. -/
theorem Stored.after_reopens_iff {calls : List Call} (h : Stored sessionId j log)
    (hlog : ∀ r ∈ log, r.patch.Storable) (hdone : ∀ call ∈ calls, call.world.outcome = .done) :
    Reopens (j.after calls) ↔ StorableRun j calls := by
  obtain ⟨more, hmore, hiff⟩ := h.after hdone
  rw [hmore.reopens_iff, forall_mem_append, hiff]
  exact and_iff_right hlog

/-- A journal that calls lead to from a created one reopens exactly when the accepted calls are
storable. -/
theorem created_reopens_iff {j₀ : Journal} (hcreate : create sessionId = .ok j₀)
    {calls : List Call} (hdone : ∀ call ∈ calls, call.world.outcome = .done) :
    Reopens (j₀.after calls) ↔ StorableRun j₀ calls :=
  (create_stored hcreate).after_reopens_iff (fun _ hr => absurd hr not_mem_nil) hdone

/-! ## Cut files -/

/-- An open journal accepts every next patch that applies and fits into a frame. -/
theorem accepts_append {patch : Patch} {s : SessionSnapshot} {now : UInt64}
    (hfailed : j.failed = false) (hrecovery : j.recovery = none)
    (hnext : patch.resultOffset = j.nextOffset)
    (hpatch : j.snapshot.applyPatch patch = (s, .ok ()))
    (hfits : (j.newRecord patch j.snapshot.selectedBranch now).payload.length ≤ maxWireBytes) :
    j.accepts (.append patch ⟨.ok now, .done⟩) = true := by
  have hopen : ¬ (j.failed = true ∨ j.recovery.isSome = true) := by
    simp [hfailed, hrecovery]
  have hshort := Nat.not_lt.mpr hfits
  unfold JournalRecord.payload at hshort
  show (j.appendOn patch j.snapshot.selectedBranch ⟨.ok now, .done⟩).2.isOk = true
  unfold appendOn
  rw [if_neg hopen, if_neg (not_not.mpr hnext)]
  dsimp only
  rw [if_neg hshort, show (j.newRecord patch j.snapshot.selectedBranch now).patch = patch from rfl,
    hpatch]
  dsimp only [writeFrame]
  rw [if_neg hshort]
  rfl

/-- What such an append does. -/
theorem exists_appended {patch : Patch} {s : SessionSnapshot} {now : UInt64} (h : Coherent sessionId j log)
    (hfailed : j.failed = false) (hrecovery : j.recovery = none)
    (hnext : patch.resultOffset = j.nextOffset)
    (hpatch : j.snapshot.applyPatch patch = (s, .ok ()))
    (hfits : (j.newRecord patch j.snapshot.selectedBranch now).payload.length ≤ maxWireBytes) :
    ∃ j' r, j.appendPatch patch ⟨.ok now, .done⟩ = (j', .ok r.offset) ∧
      Appended sessionId j log patch j.snapshot.selectedBranch ⟨.ok now, .done⟩ j' r := by
  have haccepts := accepts_append hfailed hrecovery hnext hpatch hfits
  rcases h.appendOn_cases (Prod.mk.eta (p := j.appendPatch patch ⟨.ok now, .done⟩)).symm with
    ⟨r, hok, hr⟩ | ⟨⟨e, herror⟩, _⟩
  · exact ⟨_, r, by rw [← hok], hr⟩
  · simp only [accepts, herror] at haccepts
    cases haccepts

/-- The record of a patch names the session and the offset that it was made at. -/
theorem newRecord_of_coherent {offset : UInt64} (h : Coherent sessionId j log)
    (hoffset : offset.toNat = log.length) (patch : Patch) (branch : BranchId) (now : UInt64) :
    j.newRecord patch branch now = ({ blank sessionId [] with
      snapshot := { SessionSnapshot.empty sessionId with offset } } : Journal).newRecord
        patch branch now := by
  have hlive : j.snapshot.offset = offset :=
    UInt64.toNat_inj.mp ((h.at_version h.live).offset.trans hoffset.symm)
  unfold newRecord
  rw [h.session, hlive]
  rfl

/-- Appending a patch whose record is known to fit. -/
theorem exists_appended_next (h : Coherent sessionId j log) (patch : Patch) (now offset : UInt64)
    (hfailed : j.failed = false) (hrecovery : j.recovery = none)
    (hoffset : offset.toNat = log.length) (hnext : patch.resultOffset.toNat = log.length + 1)
    (happlies : (j.snapshot.applyPatch patch).2.isOk = true)
    (hfits : (({ blank sessionId [] with
      snapshot := { SessionSnapshot.empty sessionId with offset } } : Journal).newRecord
        patch j.snapshot.selectedBranch now).payload.length ≤ maxWireBytes) :
    ∃ j' r, j.appendPatch patch ⟨.ok now, .done⟩ = (j', .ok r.offset) ∧
      Appended sessionId j log patch j.snapshot.selectedBranch ⟨.ok now, .done⟩ j' r := by
  have hresult : patch.resultOffset = j.nextOffset := by
    have hlt := patch.resultOffset.toNat_lt
    refine UInt64.toNat_inj.mp ?_
    unfold Journal.nextOffset
    rw [UInt64.toNat_add, h.latestOffset, show (1 : UInt64).toNat = 1 from rfl]
    omega
  cases hpatch : j.snapshot.applyPatch patch with
  | mk s result =>
      rw [hpatch] at happlies
      cases result with
      | error e => cases happlies
      | ok _ =>
        exact exists_appended h hfailed hrecovery hresult hpatch
          (newRecord_of_coherent h hoffset .. ▸ hfits)

/-- The frames that a cut file still holds whole are those that the first calls wrote. -/
structure WholeFrames (j : Journal) (calls : List Call) (size : Nat) (first : List Call) :
    Prop where
  initial : first <+: calls
  fits : (j.after first).file.length ≤ size
  longest : ∀ other, other <+: calls → (j.after other).file.length ≤ size →
    (j.after other).file.length ≤ (j.after first).file.length

/-- What a cut file that is opened and repaired has to do with the journal `live`. -/
structure Recovered (live : Journal) (size : Nat) (opened : Journal) : Prop where
  records : opened.records = live.records
  snapshot : opened.snapshot = live.snapshot
  boundary : opened.recovery = none ↔ size = live.file.length
  diagnostic : ∀ d, opened.recovery = some d →
    d.validBytes = live.file.length ∧ d.damagedBytes = size - live.file.length
  repairs : ∀ suffix, (opened.repairSuffix (.done suffix)).2.isOk = true
  repaired : ∀ suffix, (opened.repairSuffix (.done suffix)).1 = live
  /-- The repaired journal accepts every next patch that applies and fits into a frame. -/
  accepts : ∀ patch s now, patch.resultOffset = live.nextOffset →
    live.snapshot.applyPatch patch = (s, .ok ()) →
    (live.newRecord patch live.snapshot.selectedBranch now).payload.length ≤ maxWireBytes →
    live.accepts (.append patch ⟨.ok now, .done⟩) = true

/-- The journal opened from its own file is recovered. -/
theorem Stored.recovered_whole (h : Stored sessionId j log) : Recovered j j.file.length j := by
  have hrepair : ∀ suffix, j.repairSuffix (.done suffix) = (j, .ok none) := by
    intro suffix
    unfold repairSuffix
    rw [h.recovery]
  refine ⟨rfl, rfl, iff_of_true h.recovery rfl, fun d hd => ?_, fun suffix => ?_, fun suffix => ?_,
    fun patch s now => accepts_append h.failed h.recovery⟩
  · rw [h.recovery] at hd
    cases hd
  · rw [hrepair]
    rfl
  · rw [hrepair]

/-- The journal opened from its file and a part of one more frame is recovered. -/
theorem Stored.recovered_torn (h : Stored sessionId j log) (tail : List UInt8)
    (hpos : 0 < tail.length) (e : StateError) :
    Recovered j (j.file.length + tail.length)
      (({ j with file := j.file ++ tail } : Journal).damagedAt j.file.length tail.length e) := by
  refine ⟨rfl, rfl, iff_of_false (by simp [damagedAt]) (by omega), fun d hd => ?_,
    fun suffix => rfl, fun suffix => ?_, fun patch s now => accepts_append h.failed h.recovery⟩
  · cases hd
    exact ⟨rfl, (Nat.add_sub_cancel_left ..).symm⟩
  · show ({ j with
      file := (j.file ++ tail).take j.file.length, recovery := none, failed := false } : Journal) = j
    rw [take_left]
    cases j
    cases h.failed
    cases h.recovery
    rfl

theorem Stored.file_append {j' : Journal} {more : List JournalRecord}
    (h : Stored sessionId j log) (h' : Stored sessionId j' (log ++ more)) :
    j'.file = j.file ++ logFrames more := by
  rw [h'.file, logFrames_append, ← append_assoc, ← h.file]

theorem length_logFrames_le {log more : List JournalRecord} (h : log <+: more) :
    (logFrames log).length ≤ (logFrames more).length := by
  obtain ⟨rest, rfl⟩ := h
  rw [logFrames_append, length_append]
  exact Nat.le_add_right ..

/-- The longest initial part of the records whose frames fit before a cut. -/
theorem length_logFrames_of_cut {more part : List JournalRecord} {count : Nat} {r : JournalRecord}
    (hr : more[count]? = some r) (hpart : part <+: more) {size : Nat}
    (hcut : size < (logFrames (more.take count)).length + (frameFormat.frame r.payload).length)
    (hfits : (logFrames part).length ≤ size) :
    (logFrames part).length ≤ (logFrames (more.take count)).length := by
  refine length_logFrames_le ?_
  by_cases hle : part.length ≤ count
  · exact prefix_take_iff.mpr ⟨hpart, hle⟩
  · have hnext : more.take (count + 1) = more.take count ++ [r] := by
      rw [take_add_one, hr]
      rfl
    have hlonger : more.take (count + 1) <+: part := by
      refine prefix_of_prefix_length_le (List.take_prefix ..) hpart ?_
      rw [length_take]
      omega
    have hframes := length_logFrames_le hlonger
    rw [hnext, logFrames_append, length_append] at hframes
    have hone : logFrames [r] = frameFormat.frame r.payload := append_nil _
    rw [hone] at hframes
    omega

/-- A file that was cut opens to the journal that had written the frames before the cut. -/
theorem Stored.openFile_take {calls : List Call} (h : Stored sessionId j log)
    (hlog : ∀ r ∈ log, r.patch.Storable) (hdone : ∀ call ∈ calls, call.world.outcome = .done)
    (hstorable : StorableRun j calls) {size : Nat} (hfirst : j.file.length ≤ size)
    (hsize : size ≤ (j.after calls).file.length) :
    ∃ first opened, WholeFrames j calls size first ∧
      Journal.openFile ((j.after calls).file.take size) = .ok opened ∧
      Recovered (j.after first) size opened := by
  obtain ⟨more, hmore, hiff⟩ := h.after hdone
  have hnew := hiff.mpr hstorable
  have hfile := h.file_append hmore
  obtain ⟨cut, rfl⟩ := Nat.exists_eq_add_of_le hfirst
  have hcut : cut ≤ (logFrames more).length := by
    rw [hfile, length_append] at hsize
    omega
  obtain ⟨count, tail, hcount, htake, htail⟩ := frameFormat.exists_cut hcut
  rw [length_map] at hcount
  rw [← map_take] at htake
  obtain ⟨first, hinitial, hlive⟩ := h.exists_after hdone hmore hcount
  have hlivefile := h.file_append hlive
  have hsplit : (j.after calls).file.take (j.file.length + cut) = (j.after first).file ++ tail := by
    rw [hfile, take_length_add_append, hlivefile, append_assoc]
    exact congrArg (j.file ++ ·) htake
  have hlength : j.file.length + cut = (j.after first).file.length + tail.length := by
    have hboth := congrArg length hsplit
    rw [length_take, length_append, Nat.min_eq_left hsize] at hboth
    exact hboth
  have hwhole : ∀ r ∈ log ++ more.take count, r.patch.Storable := by
    intro r hr
    rcases mem_append.mp hr with hr | hr
    · exact hlog r hr
    · exact hnew r (mem_of_mem_take hr)
  rw [hsplit, hlength]
  rcases htail with rfl | ⟨payload, part, hpayload, hpos, hpart, rfl⟩
  · rw [append_nil, length_nil, Nat.add_zero]
    exact ⟨first, j.after first, ⟨hinitial, Nat.le_refl _, fun other _ hfits => hfits⟩,
      hlive.openFile hwhole, hlive.recovered_whole⟩
  · rw [getElem?_map, Option.map_eq_some_iff] at hpayload
    obtain ⟨r, hr, rfl⟩ := hpayload
    have hshort := hmore.short r (mem_append_right _ (mem_of_getElem? hr))
    have hpartlength : ((frameFormat.frame r.payload).take part).length = part := by
      rw [length_take]
      omega
    refine ⟨first, _, ⟨hinitial, by omega, ?_⟩, hlive.openFile_torn hwhole hshort hpos hpart, ?_⟩
    · intro other hother hfits
      obtain ⟨rest, rfl⟩ := hother
      have hdone' := forall_mem_append.mp hdone
      obtain ⟨early, hearly, _⟩ := h.after hdone'.1
      obtain ⟨late, hlate, _⟩ := hearly.after hdone'.2
      have hlog' : log ++ more = log ++ early ++ late := by
        refine hmore.coherent.recordList.symm.trans ?_
        rw [Journal.after, Machine.run_append]
        exact hlate.coherent.recordList
      rw [append_assoc] at hlog'
      obtain rfl := append_cancel_left hlog'
      have hotherlength := congrArg length (h.file_append hearly)
      have hlivelength := congrArg length hlivefile
      rw [length_append] at hotherlength hlivelength
      have hlongest := length_logFrames_of_cut hr ⟨late, rfl⟩
        (show cut < _ by omega) (show (logFrames early).length ≤ cut by omega)
      omega
    · have hrecovered := hlive.recovered_torn ((frameFormat.frame r.payload).take part)
        (by omega) (frameError .endOfFile)
      rw [hpartlength] at hrecovered ⊢
      exact hrecovered

/-- In a run of storable calls, a file that was cut anywhere after its header opens to the journal
that had written the whole frames, repair resumes this journal, and it reopens after any storable
calls. -/
theorem created_recovers {j₀ : Journal} (hcreate : create sessionId = .ok j₀) {calls : List Call}
    (hdone : ∀ call ∈ calls, call.world.outcome = .done) (hstorable : StorableRun j₀ calls)
    {size : Nat} (hheader : j₀.file.length ≤ size)
    (hsize : size ≤ (j₀.after calls).file.length) :
    ∃ first opened, WholeFrames j₀ calls size first ∧
      openFile ((j₀.after calls).file.take size) = .ok opened ∧
      Recovered (j₀.after first) size opened ∧
      ∀ suffix more, (∀ call ∈ more, call.world.outcome = .done) →
        StorableRun (opened.repairSuffix (.done suffix)).1 more →
        Reopens ((opened.repairSuffix (.done suffix)).1.after more) := by
  have h := create_stored hcreate
  have hempty : ∀ r ∈ ([] : List JournalRecord), r.patch.Storable :=
    fun r hr => absurd hr not_mem_nil
  obtain ⟨first, opened, hwhole, hopen, hrecovered⟩ :=
    h.openFile_take hempty hdone hstorable hheader hsize
  refine ⟨first, opened, hwhole, hopen, hrecovered, fun suffix more hmore hrun => ?_⟩
  rw [hrecovered.repaired suffix] at hrun ⊢
  obtain ⟨rest, rfl⟩ := hwhole.initial
  obtain ⟨log, hlog, hiff⟩ := h.after (forall_mem_append.mp hdone).1
  refine (hlog.after_reopens_iff ?_ hmore).mpr hrun
  exact hiff.mpr ((Machine.along_append first rest).mp hstorable).1

end Omp2.State.Journal

/-! ## A run, and a patch that is not read back -/

namespace Omp2.State.Journal

open Omp2.Json Omp2.Json.Compact

/-- The record of a patch without its checksum. -/
def draft (j : Journal) (patch : Patch) (branch : BranchId) (now : UInt64) : JournalRecord :=
  { j.newRecord patch branch now with checksum := "" }

/-- A record fits into a frame when its draft does: only the checksum of 64 characters is missing. -/
theorem fits_of_draft {j : Journal} {patch : Patch} {branch : BranchId} {now : UInt64}
    (h : bytesBound (toValue (j.draft patch branch now)) + 24 * 64 ≤ maxWireBytes) :
    (j.newRecord patch branch now).payload.length ≤ maxWireBytes := by
  have hlength : (j.newRecord patch branch now).checksum.length = 64 := by
    show (hex (Sha256.digest _)).length = 64
    generalize hbytes : Sha256.digest _ = bytes
    have hcount : bytes.length = 32 := hbytes ▸ Sha256.length_digest _
    unfold hex
    rw [String.length_ofList, List.length_flatMap]
    simp [hcount]
  refine Nat.le_trans (length_print_le _) (Nat.le_trans ?_ h)
  generalize hr : j.newRecord patch branch now = r at hlength ⊢
  have hdraft : j.draft patch branch now = { r with checksum := "" } := by
    rw [← hr]
    rfl
  rw [hdraft]
  show bytesBound (.object _) ≤ bytesBound (.object _) + _
  have htext : bytesBound (toValue r.checksum) = 24 * 64 + bytesBound (toValue "") := by
    show 24 * r.checksum.length + 2 = _
    rw [hlength]
    rfl
  simp only [bytesBound, entriesBound, htext]
  omega

theorem exampleCalls_done : ∀ call ∈ exampleCalls, call.world.outcome = .done := by
  simp [exampleCalls, Call.world]

theorem exampleCalls_storable (j : Journal) : StorableRun j exampleCalls :=
  ⟨fun _ => trivial, fun _ => trivial, trivial⟩

/-- A fork and a selection are read back. -/
theorem exampleCalls_reopens : ∃ j₀, create exampleSession = .ok j₀ ∧
    Reopens (j₀.after exampleCalls) := by
  obtain ⟨j₀, hcreate⟩ := exists_create_exampleSession
  exact ⟨j₀, hcreate,
    (created_reopens_iff hcreate exampleCalls_done).mpr (exampleCalls_storable j₀)⟩

/-- The file of a fork and a selection that was cut to its header is recovered. -/
theorem exampleCalls_recovers : ∃ j₀, create exampleSession = .ok j₀ ∧
    ∃ first opened, WholeFrames j₀ exampleCalls j₀.file.length first ∧
      openFile ((j₀.after exampleCalls).file.take j₀.file.length) = .ok opened ∧
      Recovered (j₀.after first) j₀.file.length opened := by
  obtain ⟨j₀, hcreate⟩ := exists_create_exampleSession
  have hstored := create_stored hcreate
  obtain ⟨more, hmore, _⟩ := hstored.after exampleCalls_done
  have hsize : j₀.file.length ≤ (j₀.after exampleCalls).file.length := by
    rw [hstored.file_append hmore, List.length_append]
    exact Nat.le_add_right ..
  obtain ⟨first, opened, hwhole, hopen, hrecovered, _⟩ := created_recovers hcreate
    exampleCalls_done (exampleCalls_storable j₀) (Nat.le_refl _) hsize
  exact ⟨j₀, hcreate, first, opened, hwhole, hopen, hrecovered⟩

/-- A note with a number that JSON cannot carry. -/
def nanNote : ElementSnapshot :=
  let e := ElementSnapshot.new (staticId "note") "note"
  { e with attributes := e.attributes.insert "ratio" (.number ⟨0x7ff8000000000000⟩) }

/-- The patch that creates this note in a new session. -/
def nanPatch : Patch where
  baseOffset := 0
  resultOffset := 1
  author := hostAuthor
  reason := "note"
  ops := [.create (staticId "body") 0 nanNote]

/-- Appending this patch. -/
def nanCall : Call :=
  .append nanPatch ⟨.ok 7, .done⟩

theorem nanPatch_not_storable : ¬ nanPatch.Storable := by
  intro h
  have helement : nanNote.Durable := h.durable _ List.mem_cons_self
  have hratio := helement.attributes "ratio" (.number ⟨0x7ff8000000000000⟩)
    Std.ExtTreeMap.getElem?_insert_self
  exact absurd hratio (by show ¬ F64.isFinite _ = true; decide)

/-- A new journal accepts the patch. -/
theorem accepts_nanCall {j₀ : Journal} (hcreate : create exampleSession = .ok j₀) :
    j₀.accepts nanCall = true := by
  obtain ⟨rfl, _⟩ := create_eq_ok hcreate
  have hlatest := (blank_coherent exampleSession (headerFile exampleSession)).latestOffset
  have happlies : (SessionSnapshot.applyPatch (.empty exampleSession) nanPatch).2.isOk = true := by
    decide +kernel
  have hfits : ((blank exampleSession []).newRecord nanPatch mainBranch 7).payload.length ≤
      maxWireBytes := by
    decide +kernel
  cases happly : SessionSnapshot.applyPatch (.empty exampleSession) nanPatch with
  | mk s result =>
      rw [happly] at happlies
      cases result with
      | error e => cases happlies
      | ok _ =>
        refine accepts_append rfl rfl ?_ happly hfits
        unfold Journal.nextOffset
        rw [UInt64.toNat_inj.mp (show _ = (0 : UInt64).toNat from hlatest)]
        rfl

theorem not_reopens_of_create {j₀ : Journal} (hcreate : create exampleSession = .ok j₀) :
    ¬ Reopens (j₀.after [nanCall]) := by
  intro hreopens
  have hrun := ((create_stored hcreate).after_reopens_iff
    (fun r hr => absurd hr List.not_mem_nil) (by simp [nanCall, Call.world])).mp hreopens
  exact nanPatch_not_storable (hrun.1 (accepts_nanCall hcreate))

/-- An accepted patch is lost when its journal is opened again. -/
theorem not_reopens_nanCall : ∃ j₀, create exampleSession = .ok j₀ ∧
    nanCall.world.outcome = .done ∧ j₀.accepts nanCall = true ∧
    ¬ Reopens (j₀.after [nanCall]) := by
  obtain ⟨j₀, hcreate⟩ := exists_create_exampleSession
  exact ⟨j₀, hcreate, rfl, accepts_nanCall hcreate, not_reopens_of_create hcreate⟩

/-- The whole file of this journal is not recovered. -/
theorem not_recovers_nanCall : ∃ j₀, create exampleSession = .ok j₀ ∧
    nanCall.world.outcome = .done ∧ j₀.accepts nanCall = true ∧
    j₀.file.length ≤ (j₀.after [nanCall]).file.length ∧
    ¬ ∃ first opened,
      WholeFrames j₀ [nanCall] (j₀.after [nanCall]).file.length first ∧
      openFile ((j₀.after [nanCall]).file.take (j₀.after [nanCall]).file.length) = .ok opened ∧
      Recovered (j₀.after first) (j₀.after [nanCall]).file.length opened := by
  obtain ⟨j₀, hcreate⟩ := exists_create_exampleSession
  have haccepts := accepts_nanCall hcreate
  have hstored := create_stored hcreate
  -- the accepted call has written a frame, so the file has grown
  have hgrown : j₀.file.length < (j₀.after [nanCall]).file.length := by
    rcases hstored.step_cases (show nanCall.world.outcome = .done from rfl) with
      ⟨r, _, _, hnext⟩ | ⟨hrefused, _⟩
    · have hframe := length_logFrames [r]
      have hfile : (j₀.after [nanCall]).file = j₀.file ++ logFrames [r] :=
        hstored.file_append hnext
      rw [hfile, List.length_append]
      exact Nat.lt_add_of_pos_right (Nat.lt_of_lt_of_le Nat.zero_lt_one hframe)
    · rw [haccepts] at hrefused
      cases hrefused
  refine ⟨j₀, hcreate, rfl, haccepts, Nat.le_of_lt hgrown, ?_⟩
  rintro ⟨first, opened, hwhole, hopen, hrecovered⟩
  have hlongest := hwhole.longest [nanCall] (List.prefix_refl _) (Nat.le_refl _)
  have hall : first = [nanCall] := by
    rcases List.prefix_cons_iff.mp hwhole.initial with rfl | ⟨rest, rfl, hrest⟩
    · exact absurd hgrown (Nat.not_lt.mpr hlongest)
    · rw [List.prefix_nil.mp hrest]
  subst hall
  rw [List.take_length] at hopen
  exact not_reopens_of_create hcreate
    ⟨opened, hopen, hrecovered.boundary.mpr rfl, hrecovered.snapshot, hrecovered.records⟩

end Omp2.State.Journal
