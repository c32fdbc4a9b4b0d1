import Omp2.Library.JsonText
import Omp2.State.Journal
import Omp2.State.Rollback

/-!
# The history of a journal

The records of a journal are the log of a version tree: the record with offset `i + 1` stands at
index `i` and names the offset of its parent. `Based` says so of a journal whose live snapshot is
some version of this tree. Materialising an offset gives the state of that version, and appending
a record never changes the state of an older one, so history is immutable.
-/

namespace Omp2.State

open Omp2.Json VersionTree List

theorem toNat_ofNat {n : Nat} (h : n < 2 ^ 64) : (UInt64.ofNat n).toNat = n :=
  UInt64.toNat_ofNat_of_lt h

variable [SerdeJson]

/-- The version tree of the records of a session. -/
def recordStore (sessionId : SessionId) : Store SessionSnapshot JournalRecord StateError where
  init := .empty sessionId
  parent r := r.parentOffset.toNat
  apply := replayRecord

/-- What the record at an index of the log of a session says about itself. -/
structure WellLinked (sessionId : SessionId) (i : Nat) (r : JournalRecord) : Prop where
  offset : r.offset.toNat = i + 1
  parent : r.parentOffset.toNat ≤ i
  base : r.patch.baseOffset = r.parentOffset
  result : r.patch.resultOffset = r.offset
  session : r.sessionId = sessionId
  author : r.actor = r.patch.author
  checksum : r.checksum = r.computeChecksum

namespace Journal

/-- The records of the journal are `log`, and its live snapshot is the state of version `v`. -/
structure Based (sessionId : SessionId) (j : Journal) (log : List JournalRecord) (v : Nat) :
    Prop where
  get : ∀ o : UInt64, j.records[o]? = if o = 0 then none else log[o.toNat - 1]?
  bound : log.length < 2 ^ 64
  linked : ∀ i r, log[i]? = some r → WellLinked sessionId i r
  complete : VersionTree.Complete (recordStore sessionId) log
  session : j.snapshot.sessionId = sessionId
  version : v ≤ log.length
  live : At (recordStore sessionId) log v j.snapshot

/-- The live snapshot of a coherent journal is the state of its last version. -/
abbrev Coherent (sessionId : SessionId) (j : Journal) (log : List JournalRecord) : Prop :=
  Based sessionId j log log.length

end Journal

/-! ## The states of the version tree -/

/-- What holds of the snapshot that is the state of a version. -/
structure Version (sessionId : SessionId) (log : List JournalRecord) (v : Nat)
    (s : SessionSnapshot) : Prop where
  session : s.sessionId = sessionId
  offset : s.offset.toNat = v
  wellFormed : s.WellFormed
  branch : ∀ r, 0 < v → log[v - 1]? = some r → s.selectedBranch = r.branchId
  main : v = 0 → s.selectedBranch = mainBranch

theorem replayRecord_ok {s s' : SessionSnapshot} {r : JournalRecord}
    (h : replayRecord s r = .ok s') : ∃ s₁, s.applyPatch r.patch = (s₁, .ok ()) ∧
      s' = { s₁ with selectedBranch := r.branchId } := by
  unfold replayRecord at h
  split at h
  · cases h
  · next s₁ happly =>
    cases h
    exact ⟨s₁, happly, rfl⟩

/-- Every state of the version tree stands at the offset of its version. -/
theorem At.version {sessionId : SessionId} {log : List JournalRecord} {v : Nat}
    {s : SessionSnapshot} (hordered : Ordered (recordStore sessionId) log)
    (hlinked : ∀ i r, log[i]? = some r → WellLinked sessionId i r)
    (h : At (recordStore sessionId) log v s) : Version sessionId log v s := by
  refine VersionTree.At.induct hordered ?_ ?_ h
  · have hseeded := SessionSnapshot.empty_rest sessionId
    exact ⟨hseeded.1, by rw [show (recordStore sessionId).init.offset = 0 from hseeded.2.1]; rfl,
      SessionSnapshot.empty_wellFormed sessionId, fun r hpos => absurd hpos (Nat.lt_irrefl 0),
      fun _ => hseeded.2.2⟩
  · intro i r s s' hr hs happly
    obtain ⟨s₁, hpatch, rfl⟩ := replayRecord_ok happly
    obtain ⟨hsession, hoffset, _⟩ := SessionSnapshot.applyPatch_rest hpatch
    have hwf : s₁.WellFormed := by
      rcases SessionSnapshot.applyPatch_cases hs.wellFormed hpatch with ⟨_, hwf⟩ | ⟨⟨_, he⟩, _⟩
      · exact hwf
      · cases he
    refine ⟨hsession.trans hs.session, ?_, ⟨hwf.tree, hwf.containers, hwf.named, hwf.used⟩, ?_, ?_⟩
    · show s₁.offset.toNat = i + 1
      rw [hoffset, (hlinked i r hr).result, (hlinked i r hr).offset]
    · intro r' _ hr'
      rw [Nat.add_sub_cancel, hr] at hr'
      rw [Option.some.inj hr']
    · intro h0
      cases h0

namespace Journal

variable {sessionId : SessionId} {j j' : Journal} {log : List JournalRecord} {v : Nat}

theorem Based.at_version {s : SessionSnapshot} {w : Nat} (h : Based sessionId j log v)
    (hat : At (recordStore sessionId) log w s) : Version sessionId log w s :=
  At.version h.complete.ordered h.linked hat

theorem Based.get_succ (h : Based sessionId j log v) {o : UInt64} {i : Nat} (ho : o.toNat = i + 1) :
    j.records[o]? = log[i]? := by
  have hne : o ≠ 0 := by
    rintro rfl
    cases ho
  rw [h.get, if_neg hne, ho, Nat.add_sub_cancel]

theorem Based.mem_records (h : Based sessionId j log v) (o : UInt64) :
    o ∈ j.records ↔ 0 < o.toNat ∧ o.toNat ≤ log.length := by
  rw [Std.ExtTreeMap.mem_iff_isSome_getElem?]
  cases ho : o.toNat with
  | zero =>
      obtain rfl : o = 0 := UInt64.toNat_inj.mp ho
      simp [h.get]
  | succ i =>
      rw [h.get_succ ho]
      simp [Nat.succ_le_iff]

/-- The last offset is the number of records. -/
theorem Based.latestOffset (h : Based sessionId j log v) : j.latestOffset.toNat = log.length := by
  have hbound := h.bound
  -- the last version is recorded, if there is one
  have hlast : 0 < log.length → UInt64.ofNat log.length ∈ j.records := by
    intro hpos
    rw [h.mem_records, toNat_ofNat hbound]
    exact ⟨hpos, Nat.le_refl _⟩
  unfold Journal.latestOffset
  cases hmax : j.records.maxKey? with
  | none =>
      rw [Std.ExtTreeMap.maxKey?_eq_none_iff] at hmax
      rw [hmax] at hlast
      show 0 = log.length
      by_contra hne
      exact absurd (hlast (by omega)) Std.ExtTreeMap.not_mem_empty
  | some o =>
      obtain ⟨hmem, hmax⟩ := Std.ExtTreeMap.maxKey?_eq_some_iff_mem_and_forall.mp hmax
      obtain ⟨hpos, hle⟩ := (h.mem_records o).mp hmem
      have hge := hmax _ (hlast (by omega))
      rw [Std.isLE_compare, UInt64.le_iff_toNat_le, toNat_ofNat hbound] at hge
      exact Nat.le_antisymm hle hge

/-! ## Materialising -/

/-- The loop of `materialize` collects the chain of a version. -/
theorem Based.chainFrom (h : Based sessionId j log v) {w fuel : Nat} {o : UInt64}
    {chain : List JournalRecord} (hchain : Chain (recordStore sessionId) log w chain)
    (ho : o.toNat = w) (hfuel : w ≤ fuel) : State.chainFrom j.records fuel o = .ok chain := by
  induction hchain generalizing fuel o with
  | start =>
      obtain rfl : o = 0 := UInt64.toNat_inj.mp ho
      cases fuel <;> rfl
  | climb i r rest hr _ ih =>
      obtain ⟨fuel, rfl⟩ := Nat.exists_eq_succ_of_ne_zero (Nat.ne_of_gt (Nat.lt_of_succ_le
        (Nat.le_trans (Nat.succ_le_succ (Nat.zero_le i)) hfuel)))
      have hne : o ≠ 0 := by
        rintro rfl
        cases ho
      have hparent := (h.linked i r hr).parent
      have hrest := ih (o := r.parentOffset) rfl
        (Nat.le_trans hparent (Nat.le_of_succ_le_succ hfuel))
      unfold State.chainFrom
      simp only [hne, if_false, h.get_succ ho, hr, hrest]

/-- The loop of `branch_ancestry` collects the offsets of the same chain. -/
theorem Based.ancestryFrom (h : Based sessionId j log v) {w fuel : Nat} {o : UInt64}
    {chain : List JournalRecord} (hchain : Chain (recordStore sessionId) log w chain)
    (ho : o.toNat = w) (hfuel : w ≤ fuel) :
    State.ancestryFrom j.records fuel o = .ok (chain.map JournalRecord.offset) := by
  induction hchain generalizing fuel o with
  | start =>
      obtain rfl : o = 0 := UInt64.toNat_inj.mp ho
      cases fuel <;> rfl
  | climb i r rest hr _ ih =>
      obtain ⟨fuel, rfl⟩ := Nat.exists_eq_succ_of_ne_zero (Nat.ne_of_gt (Nat.lt_of_succ_le
        (Nat.le_trans (Nat.succ_le_succ (Nat.zero_le i)) hfuel)))
      have hne : o ≠ 0 := by
        rintro rfl
        cases ho
      have hlinked := h.linked i r hr
      have hrest := ih (o := r.parentOffset) rfl
        (Nat.le_trans hlinked.parent (Nat.le_of_succ_le_succ hfuel))
      have hself : o = r.offset := UInt64.toNat_inj.mp (ho.trans hlinked.offset.symm)
      unfold State.ancestryFrom
      simp only [hne, if_false, h.get_succ ho, hr, hrest]
      rw [map_cons, ← hself]

/-- An offset that is not recorded cannot be materialised. -/
theorem Based.materialize_unknown (h : Based sessionId j log v) {o : UInt64}
    (ho : log.length < o.toNat) : ∃ e, j.materialize o = .error e := by
  obtain ⟨fuel, hfuel⟩ := Nat.exists_eq_succ_of_ne_zero (Nat.ne_of_gt (Nat.lt_of_le_of_lt
    (Nat.zero_le _) ho))
  have hne : o ≠ 0 := by
    rintro rfl
    cases hfuel
  have hnone : j.records[o]? = none := by
    rw [h.get_succ hfuel, getElem?_eq_none]
    omega
  unfold Journal.materialize State.chainFrom
  rw [hfuel]
  simp only [hne, if_false, hnone]
  exact ⟨_, rfl⟩

/-- Materialising an offset gives the state of its version. -/
theorem Based.materialize_iff (h : Based sessionId j log v) {o : UInt64} {s : SessionSnapshot} :
    j.materialize o = .ok s ↔ At (recordStore sessionId) log o.toNat s := by
  have hforward : ∀ {s}, At (recordStore sessionId) log o.toNat s → j.materialize o = .ok s := by
    rintro s ⟨chain, hchain, hreplay⟩
    unfold Journal.materialize
    rw [h.chainFrom hchain rfl (Nat.le_refl _), h.session]
    exact hreplay
  refine ⟨fun hok => ?_, hforward⟩
  by_cases ho : o.toNat ≤ log.length
  · obtain ⟨s', hs'⟩ := h.complete.states o.toNat ho
    rw [hforward hs'] at hok
    exact Except.ok.inj hok ▸ hs'
  · obtain ⟨e, he⟩ := h.materialize_unknown (Nat.lt_of_not_le ho)
    rw [he] at hok
    cases hok

/-! ## Appending -/

/-- What an accepted append to a journal based on a version has done. -/
structure Appended (sessionId : SessionId) (j : Journal) (log : List JournalRecord) (patch : Patch)
    (branch : BranchId) (world : Outside) (j' : Journal) (r : JournalRecord) : Prop where
  coherent : Coherent sessionId j' (log ++ [r])
  record : ∃ now, world.now = .ok now ∧ r = j.newRecord patch branch now
  applied : ∃ s, j.snapshot.applyPatch patch = (s, .ok ()) ∧
    j'.snapshot = { s with selectedBranch := branch }
  intact : j.failed = false ∧ j.recovery = none
  outcome : world.outcome = .done
  short : (SerdeJson.toVec (toValue r)).length ≤ maxWireBytes
  file : j'.file = j.file ++ frameFormat.frame (SerdeJson.toVec (toValue r))
  records : j'.records = j.records.insert r.offset r
  failed : j'.failed = j.failed
  recovery : j'.recovery = j.recovery

/-- What a refused append has left: bytes of a failed write at most. -/
structure Refused (j : Journal) (world : Outside) (j' : Journal) : Prop where
  records : j'.records = j.records
  snapshot : j'.snapshot = j.snapshot
  recovery : j'.recovery = j.recovery
  rest : j' = j ∨ world.outcome ≠ .done ∧ j'.failed = true ∧ ∃ part, j'.file = j.file ++ part

omit [SerdeJson] in
theorem Refused.unchanged {world : Outside} (h : Refused j world j')
    (hdone : world.outcome = .done) : j' = j :=
  h.rest.resolve_right fun hwrite => hwrite.1 hdone

/-- Adding the next record to the map adds it to the end of the log. -/
theorem Based.get_insert (h : Based sessionId j log v) {r : JournalRecord}
    (hr : r.offset.toNat = log.length + 1) (o : UInt64) :
    (j.records.insert r.offset r)[o]? = if o = 0 then none else (log ++ [r])[o.toNat - 1]? := by
  rw [Std.ExtTreeMap.getElem?_insert]
  by_cases ho : r.offset = o
  · subst ho
    have hne : r.offset ≠ 0 := by
      intro h0
      rw [h0] at hr
      cases hr
    simp [hne, hr]
  · have hne : compare r.offset o ≠ .eq := fun heq => ho (Std.compare_eq_iff_eq.mp heq)
    rw [if_neg hne, h.get]
    by_cases h0 : o = 0
    · simp [h0]
    · have hpos : 0 < o.toNat := Nat.pos_of_ne_zero fun heq => h0 (UInt64.toNat_inj.mp heq)
      have hlast : o.toNat ≠ log.length + 1 := fun heq => ho (UInt64.toNat_inj.mp (hr.trans heq.symm))
      rw [if_neg h0, if_neg h0]
      by_cases hlt : o.toNat - 1 < log.length
      · rw [getElem?_append_left hlt]
      · rw [getElem?_eq_none (by omega), getElem?_eq_none]
        rw [length_append, length_singleton]
        omega

/-- The offset after the last one, when an accepted patch bears it. -/
theorem Based.nextOffset (h : Based sessionId j log v) {o : UInt64} (ho : o < j.nextOffset) :
    j.nextOffset.toNat = log.length + 1 := by
  have hlatest := h.latestOffset
  have hbound := h.bound
  unfold Journal.nextOffset at ho ⊢
  have hpos : 0 < (j.latestOffset + 1).toNat := by
    have := UInt64.lt_iff_toNat_lt.mp ho
    omega
  rw [UInt64.toNat_add, hlatest] at hpos ⊢
  have hone : (1 : UInt64).toNat = 1 := rfl
  rw [hone] at hpos ⊢
  omega

theorem materialize_congr (j' j : Journal) (hrecords : j'.records = j.records)
    (hsession : j'.snapshot.sessionId = j.snapshot.sessionId) (o : UInt64) :
    j'.materialize o = j.materialize o := by
  unfold Journal.materialize
  rw [hrecords, hsession]

/-- A journal that keeps one more record of a complete log is coherent. -/
theorem Based.extend {r : JournalRecord} {s : SessionSnapshot} (h : Based sessionId j log v)
    (hlinked : WellLinked sessionId log.length r)
    (hcomplete : VersionTree.Complete (recordStore sessionId) (log ++ [r]))
    (hlive : At (recordStore sessionId) (log ++ [r]) (log.length + 1) s)
    (hsession : s.sessionId = sessionId) :
    Coherent sessionId { j with records := j.records.insert r.offset r, snapshot := s }
      (log ++ [r]) := by
  have hlength : (log ++ [r]).length = log.length + 1 := by
    rw [length_append, length_singleton]
  refine ⟨h.get_insert hlinked.offset, ?_, ?_, hcomplete, hsession, Nat.le_refl _, ?_⟩
  · rw [hlength, ← hlinked.offset]
    exact UInt64.toNat_lt _
  · intro i r' hr'
    by_cases hi : i < log.length
    · rw [getElem?_append_left hi] at hr'
      exact h.linked i r' hr'
    · obtain ⟨hlen, _⟩ := List.getElem?_eq_some_iff.mp hr'
      rw [hlength] at hlen
      obtain rfl : i = log.length := by omega
      rw [getElem?_append_right (Nat.le_refl _), Nat.sub_self] at hr'
      cases hr'
      exact hlinked
  · rw [hlength]
    exact hlive

/-- An accepted append to a based journal adds one record to the log. -/
theorem Based.append {patch : Patch} {s : SessionSnapshot} (h : Based sessionId j log v)
    (branch : BranchId) (now : UInt64) (hnext : patch.resultOffset = j.nextOffset)
    (hpatch : j.snapshot.applyPatch patch = (s, .ok ())) :
    Coherent sessionId { j with
      records := j.records.insert patch.resultOffset (j.newRecord patch branch now)
      snapshot := { s with selectedBranch := branch } }
      (log ++ [j.newRecord patch branch now]) := by
  obtain ⟨hvalid, hbase, _⟩ := SessionSnapshot.applyPatch_ok hpatch
  obtain ⟨hsession, _, _⟩ := SessionSnapshot.applyPatch_rest hpatch
  have hlive := h.at_version h.live
  have hlt := Patch.validate_offsets hvalid
  rw [hnext] at hlt
  have hoffset : (j.newRecord patch branch now).offset.toNat = log.length + 1 := by
    show patch.resultOffset.toNat = _
    rw [hnext, h.nextOffset hlt]
  have hparent : (recordStore sessionId).parent (j.newRecord patch branch now) = v := hlive.offset
  have happly : (recordStore sessionId).apply j.snapshot (j.newRecord patch branch now) =
      .ok { s with selectedBranch := branch } := by
    show replayRecord j.snapshot (j.newRecord patch branch now) = _
    unfold replayRecord
    rw [show (j.newRecord patch branch now).patch = patch from rfl, hpatch]
    rfl
  obtain ⟨hcomplete, hnew⟩ := h.complete.concat (hparent ▸ h.live) (hparent ▸ h.version) happly
  have hlinked : WellLinked sessionId log.length (j.newRecord patch branch now) :=
    ⟨hoffset, hlive.offset.symm ▸ h.version, hbase, rfl, h.session, rfl, rfl⟩
  exact h.extend hlinked hcomplete hnew (hsession.trans h.session)

omit [SerdeJson] in
/-- A frame that was written stands at the end of the file. -/
theorem writeFrame_ok {file file' bytes : List UInt8} {outcome : WriteOutcome}
    (h : writeFrame file bytes outcome = (file', .ok ())) :
    outcome = .done ∧ bytes.length ≤ maxWireBytes ∧ file' = file ++ frameFormat.frame bytes := by
  cases outcome with
  | done =>
      unfold writeFrame at h
      by_cases hlong : maxWireBytes < bytes.length
      · rw [if_pos hlong] at h
        cases h
      · rw [if_neg hlong] at h
        cases h
        exact ⟨rfl, Nat.le_of_not_lt hlong, rfl⟩
  | failed written message => cases h

omit [SerdeJson] in
/-- Writing a frame within the limit fails only with the file. -/
theorem writeFrame_error {file file' bytes : List UInt8} {outcome : WriteOutcome} {e : StateError}
    (hshort : ¬ maxWireBytes < bytes.length) (h : writeFrame file bytes outcome = (file', .error e)) :
    outcome ≠ .done ∧ (∃ message, e = .io message) ∧ ∃ part, file' = file ++ part := by
  cases outcome with
  | done =>
      unfold writeFrame at h
      rw [if_neg hshort] at h
      cases h
  | failed written message =>
      cases h
      exact ⟨nofun, ⟨message, rfl⟩, ⟨_, rfl⟩⟩

/-- An append to a based journal adds a record to the log or leaves records and snapshot alone. -/
theorem Based.appendOn_cases {patch : Patch} {branch : BranchId} {world : Outside}
    {result : Except StateError UInt64} (h : Based sessionId j log v)
    (happend : j.appendOn patch branch world = (j', result)) :
    (∃ r, result = .ok r.offset ∧ Appended sessionId j log patch branch world j' r) ∨
      (∃ e, result = .error e) ∧ Refused j world j' := by
  unfold Journal.appendOn at happend
  split at happend
  · cases happend
    exact .inr ⟨⟨_, rfl⟩, rfl, rfl, rfl, .inl rfl⟩
  · next hintact =>
    rw [not_or, Bool.not_eq_true, Bool.not_eq_true, Option.isSome_eq_false_iff,
      Option.isNone_iff_eq_none] at hintact
    split at happend
    · cases happend
      exact .inr ⟨⟨_, rfl⟩, rfl, rfl, rfl, .inl rfl⟩
    · next hnext =>
      split at happend
      · cases happend
        exact .inr ⟨⟨_, rfl⟩, rfl, rfl, rfl, .inl rfl⟩
      · next now hnow =>
        dsimp only at happend
        split at happend
        · cases happend
          exact .inr ⟨⟨_, rfl⟩, rfl, rfl, rfl, .inl rfl⟩
        · next hshort =>
          split at happend
          · next s e hpatch =>
            cases happend
            have hwf := (h.at_version h.live).wellFormed
            rcases SessionSnapshot.applyPatch_cases hwf hpatch with ⟨hok, _⟩ | ⟨_, rfl⟩
            · cases hok
            · exact .inr ⟨⟨_, rfl⟩, rfl, rfl, rfl, .inl rfl⟩
          · next s hpatch =>
            obtain ⟨hsession, _, _⟩ := SessionSnapshot.applyPatch_rest hpatch
            split at happend
            · next file hwrite =>
              cases happend
              obtain ⟨houtcome, _, rfl⟩ := writeFrame_ok hwrite
              refine .inl ⟨j.newRecord patch branch now, rfl, ?_, ⟨now, hnow, rfl⟩,
                ⟨s, hpatch, rfl⟩, hintact, houtcome, Nat.le_of_not_lt hshort, rfl, rfl,
                rfl, rfl⟩
              have hcoherent := h.append branch now (not_not.mp hnext) hpatch
              exact ⟨hcoherent.get, hcoherent.bound, hcoherent.linked,
                hcoherent.complete, hcoherent.session, hcoherent.version,
                hcoherent.live⟩
            · next file e hwrite =>
              obtain ⟨hfailed, ⟨message, rfl⟩, part, hpart⟩ :=
                writeFrame_error hshort hwrite
              have hsame : ({ j with snapshot := s } : Journal).materialize
                  j.snapshot.offset = j.materialize j.snapshot.offset :=
                materialize_congr { j with snapshot := s } j rfl hsession _
              have hrestore : j.materialize j.snapshot.offset = .ok j.snapshot := by
                rw [h.materialize_iff, (h.at_version h.live).offset]
                exact h.live
              rw [hsame, hrestore] at happend
              cases happend
              exact .inr ⟨⟨_, rfl⟩, rfl, rfl, rfl, .inr ⟨hfailed, by simp, part, hpart⟩⟩

/-! ## The operations of a journal -/

theorem Based.congr (h : Based sessionId j log v) (hrecords : j'.records = j.records)
    (hsnapshot : j'.snapshot = j.snapshot) : Based sessionId j' log v :=
  ⟨fun o => hrecords ▸ h.get o, h.bound, h.linked, h.complete, hsnapshot ▸ h.session, h.version,
    hsnapshot ▸ h.live⟩

theorem Based.move (h : Based sessionId j log v) {w : Nat} {s : SessionSnapshot}
    (hat : At (recordStore sessionId) log w s) (hw : w ≤ log.length) :
    Based sessionId { j with snapshot := s } log w :=
  ⟨h.get, h.bound, h.linked, h.complete, (h.at_version hat).session, hw, hat⟩

theorem Based.materialize_le (h : Based sessionId j log v) {o : UInt64} {s : SessionSnapshot}
    (hok : j.materialize o = .ok s) : o.toNat ≤ log.length := by
  by_contra hlt
  obtain ⟨e, he⟩ := h.materialize_unknown (Nat.lt_of_not_le hlt)
  rw [he] at hok
  cases hok

/-- The calls that append to a journal. A call carries the identifiers it mints and what the
outside world decides about it. -/
inductive Call where
  | append (patch : Patch) (world : Outside)
  | fork (offset : UInt64) (branch : BranchId) (element : ElementId) (world : Outside)
  | rewind (offset : UInt64) (branch : BranchId) (element : ElementId) (world : Outside)
  | select (branch : BranchId) (world : Outside)

/-- The label of the record that a call appends. -/
def Call.branch (j : Journal) : Call → BranchId
  | .append _ _ => j.snapshot.selectedBranch
  | .fork _ branch _ _ | .rewind _ branch _ _ | .select branch _ => branch

/-- What the outside world decides about a call. -/
def Call.world : Call → Outside
  | .append _ world | .fork _ _ _ world | .rewind _ _ _ world | .select _ world => world

/-- What a call writes: the patch it was given, or one that the journal makes by itself. -/
def Call.Writes : Call → Patch → Prop
  | .append given _, patch => patch = given
  | .fork offset branch element _, patch | .rewind offset branch element _, patch =>
    ∃ index, patch.ops =
      [.create (staticId "branches") index (branchElement element branch offset)]
  | .select _ _, patch => patch.ops = []

/-- Whether a call succeeds. -/
def accepts (j : Journal) : Call → Bool
  | .append patch world => (j.appendPatch patch world).2.isOk
  | .fork offset branch element world => (j.forkAt offset branch element world).2.isOk
  | .rewind offset branch element world => (j.rewindTo offset branch element world).2.isOk
  | .select branch world => (j.selectBranch branch world).2.isOk

/-- The journal after a call. -/
def step (j : Journal) : Call → Journal
  | .append patch world => (j.appendPatch patch world).1
  | .fork offset branch element world => (j.forkAt offset branch element world).1
  | .rewind offset branch element world => (j.rewindTo offset branch element world).1
  | .select branch world => (j.selectBranch branch world).1

/-- A call appends a record to some version of the tree, or it leaves records and snapshot alone. -/
inductive Stepped (sessionId : SessionId) (j : Journal) (log : List JournalRecord) (call : Call)
    (j' : Journal) : Prop where
  | appended (s patch r) : j.accepts call = true → call.Writes patch →
      Appended sessionId { j with snapshot := s } log patch (call.branch j) call.world j' r →
      Stepped sessionId j log call j'
  | refused : j.accepts call = false → Refused j call.world j' → Stepped sessionId j log call j'

/-- An append from a version of the tree, with the old snapshot put back when it is refused. -/
theorem Based.moved_cases {patch : Patch} {branch : BranchId} {world : Outside} {w : Nat}
    {s : SessionSnapshot} {result : Except StateError UInt64} (h : Based sessionId j log v)
    (hat : At (recordStore sessionId) log w s) (hw : w ≤ log.length)
    (happend : ({ j with snapshot := s } : Journal).appendOn patch branch world = (j', result)) :
    (∃ r, result = .ok r.offset ∧
      Appended sessionId { j with snapshot := s } log patch branch world j' r) ∨
      (∃ e, result = .error e) ∧ Refused j world { j' with snapshot := j.snapshot } := by
  rcases (h.move hat hw).appendOn_cases happend with hok | ⟨herror, hrefused⟩
  · exact .inl hok
  · refine .inr ⟨herror, hrefused.records, rfl, hrefused.recovery, hrefused.rest.imp ?_ id⟩
    rintro rfl
    rfl

/-- A fork appends to the materialised offset or is refused. -/
theorem Based.forkAt_cases {offset : UInt64} {branch : BranchId} {element : ElementId}
    {world : Outside} {result : Except StateError BranchId} (h : Based sessionId j log v)
    (hfork : j.forkAt offset branch element world = (j', result)) :
    (∃ s patch r, result = .ok branch ∧ j.materialize offset = .ok s ∧
      (Call.fork offset branch element world).Writes patch ∧
      Appended sessionId { j with snapshot := s } log patch branch world j' r) ∨
      (∃ e, result = .error e) ∧ Refused j world j' := by
  unfold Journal.forkAt at hfork
  split at hfork
  · cases hfork
    exact .inr ⟨⟨_, rfl⟩, rfl, rfl, rfl, .inl rfl⟩
  · next parent hparent =>
    have hat := h.materialize_iff.mp hparent
    have hle := h.materialize_le hparent
    dsimp only at hfork
    split at hfork
    · next j₁ e happend =>
      cases hfork
      rcases h.moved_cases hat hle happend with ⟨_, hok, _⟩ | ⟨_, hrefused⟩
      · cases hok
      · exact .inr ⟨⟨e, rfl⟩, hrefused⟩
    · next j₁ o happend =>
      cases hfork
      rcases h.moved_cases hat hle happend with ⟨r, _, hr⟩ | ⟨⟨_, herror⟩, _⟩
      · exact .inl ⟨parent, _, r, rfl, hparent, ⟨_, rfl⟩, hr⟩
      · cases herror

/-- A selection appends an empty patch to the tip of the branch or is refused. -/
theorem Based.selectBranch_cases {branch : BranchId} {world : Outside}
    {result : Except StateError UInt64} (h : Based sessionId j log v)
    (hselect : j.selectBranch branch world = (j', result)) :
    (∃ s patch r, result = .ok r.offset ∧ j.materializeBranch branch = .ok s ∧ patch.ops = [] ∧
      Appended sessionId { j with snapshot := s } log patch branch world j' r) ∨
      (∃ e, result = .error e) ∧ Refused j world j' := by
  unfold Journal.selectBranch at hselect
  split at hselect
  · cases hselect
    exact .inr ⟨⟨_, rfl⟩, rfl, rfl, rfl, .inl rfl⟩
  · next target htarget =>
    obtain ⟨o, ho⟩ : ∃ o, j.materialize o = .ok target := by
      unfold Journal.materializeBranch at htarget
      split at htarget
      · exact ⟨_, htarget⟩
      · split at htarget
        · exact ⟨0, htarget⟩
        · cases htarget
    have hat := h.materialize_iff.mp ho
    have hle := h.materialize_le ho
    dsimp only at hselect
    split at hselect
    · next j₁ e happend =>
      cases hselect
      rcases h.moved_cases hat hle happend with ⟨_, hok, _⟩ | ⟨_, hrefused⟩
      · cases hok
      · exact .inr ⟨⟨e, rfl⟩, hrefused⟩
    · next j₁ o happend =>
      cases hselect
      rcases h.moved_cases hat hle happend with ⟨r, hok, hr⟩ | ⟨⟨_, herror⟩, _⟩
      · exact .inl ⟨target, _, r, hok, htarget, rfl, hr⟩
      · cases herror

/-- Every call to a based journal appends a record or is refused. -/
theorem Based.step_cases (h : Based sessionId j log v) (call : Call) :
    Stepped sessionId j log call (j.step call) := by
  cases call with
  | append patch world =>
      rcases h.appendOn_cases (Prod.mk.eta (p := j.appendPatch patch world)).symm with
        ⟨r, hok, hr⟩ | ⟨⟨e, herror⟩, hrefused⟩
      · exact .appended j.snapshot patch r (by simp only [accepts, hok]; rfl) rfl hr
      · exact .refused (by simp only [accepts, herror]; rfl) hrefused
  | fork offset branch element world =>
      rcases h.forkAt_cases (Prod.mk.eta (p := j.forkAt offset branch element world)).symm with
        ⟨s, patch, r, hok, _, hwrites, hr⟩ | ⟨⟨e, herror⟩, hrefused⟩
      · exact .appended s patch r (by simp only [accepts, hok]; rfl) hwrites hr
      · exact .refused (by simp only [accepts, herror]; rfl) hrefused
  | rewind offset branch element world =>
      rcases h.forkAt_cases (Prod.mk.eta (p := j.forkAt offset branch element world)).symm with
        ⟨s, patch, r, hok, _, hwrites, hr⟩ | ⟨⟨e, herror⟩, hrefused⟩
      · exact .appended s patch r (by simp only [accepts, rewindTo, hok]; rfl) hwrites hr
      · exact .refused (by simp only [accepts, rewindTo, herror]; rfl) hrefused
  | select branch world =>
      rcases h.selectBranch_cases (Prod.mk.eta (p := j.selectBranch branch world)).symm with
        ⟨s, patch, r, hok, _, hops, hr⟩ | ⟨⟨e, herror⟩, hrefused⟩
      · exact .appended s patch r (by simp only [accepts, hok]; rfl) hops hr
      · exact .refused (by simp only [accepts, herror]; rfl) hrefused

theorem Based.step (h : Coherent sessionId j log) (call : Call) :
    ∃ more, Coherent sessionId (j.step call) (log ++ more) := by
  cases h.step_cases call with
  | appended s patch r _ _ hr => exact ⟨[r], hr.coherent⟩
  | refused _ hrefused =>
      exact ⟨[], by rw [append_nil]; exact h.congr hrefused.records hrefused.snapshot⟩

/-- The journal after some calls. -/
def after (j : Journal) (calls : List Call) : Journal :=
  Machine.run step j calls

theorem Based.after (h : Coherent sessionId j log) (calls : List Call) :
    ∃ more, Coherent sessionId (j.after calls) (log ++ more) := by
  induction calls generalizing j log with
  | nil => exact ⟨[], by rw [append_nil]; exact h⟩
  | cons call calls ih =>
      obtain ⟨first, hfirst⟩ := h.step call
      obtain ⟨more, hmore⟩ := ih hfirst
      exact ⟨first ++ more, by rw [← append_assoc]; exact hmore⟩

theorem create_coherent (h : create sessionId = .ok j) : Coherent sessionId j [] := by
  unfold create at h
  dsimp only at h
  split at h
  · cases h
  · cases h
    exact ⟨by simp, by simp, by simp, .nil, (SessionSnapshot.empty_rest sessionId).1,
      Nat.le_refl _, .start⟩

/-! ## History is immutable -/

/-- History is immutable and materialisation agrees with the live snapshot. -/
structure ImmutableHistory (sessionId : SessionId) (j : Journal) : Prop where
  /-- The start and every recorded offset materialise, now and after any further calls alike. -/
  materialize : ∀ o, o = 0 ∨ o ∈ j.records → ∃ s, j.materialize o = .ok s ∧
    ∀ calls, (j.after calls).materialize o = .ok s
  live : j.materialize j.latestOffset = .ok j.snapshot
  /-- The recorded offsets are those from one to the latest. -/
  offsets : ∀ o, o ∈ j.records ↔ 0 < o ∧ o ≤ j.latestOffset
  parents : ∀ (o : UInt64) (r : JournalRecord), j.records[o]? = some r →
    r.offset = o ∧ r.parentOffset < o
  /-- The ancestry of an offset names the records that are replayed for it. -/
  ancestry : ∀ o, o = 0 ∨ o ∈ j.records → ∃ chain : List JournalRecord,
    j.branchAncestry o = .ok (chain.map JournalRecord.offset) ∧
      (∀ r ∈ chain, j.records[r.offset]? = some r) ∧
      j.materialize o = replay replayRecord (.empty sessionId) chain

/-- The records on a chain are recorded under their offsets. -/
theorem Based.mem_chain (h : Based sessionId j log v) {w : Nat} {chain : List JournalRecord}
    (hchain : Chain (recordStore sessionId) log w chain) :
    ∀ r ∈ chain, j.records[r.offset]? = some r := by
  induction hchain with
  | start => exact fun r hr => absurd hr not_mem_nil
  | climb i r rest hr _ ih =>
      intro r' hr'
      rcases mem_cons.mp hr' with rfl | hr'
      · rw [h.get_succ (h.linked i r' hr).offset, hr]
      · exact ih r' hr'

/-- In every journal that calls lead to from a created one, history is immutable. -/
theorem after_immutableHistory {j₀ : Journal} (hcreate : create sessionId = .ok j₀)
    (calls : List Call) : ImmutableHistory sessionId (j₀.after calls) := by
  obtain ⟨log, h⟩ := (create_coherent hcreate).after calls
  rw [nil_append] at h
  have hle : ∀ o, o = 0 ∨ o ∈ (j₀.after calls).records → o.toNat ≤ log.length := by
    rintro o (rfl | ho)
    · exact Nat.zero_le _
    · exact ((h.mem_records o).mp ho).2
  refine ⟨?_, ?_, ?_, ?_, ?_⟩
  · intro o ho
    obtain ⟨s, hs⟩ := h.complete.states o.toNat (hle o ho)
    refine ⟨s, h.materialize_iff.mpr hs, fun more => ?_⟩
    obtain ⟨tail, htail⟩ := Based.after h more
    exact htail.materialize_iff.mpr (hs.append tail)
  · rw [h.materialize_iff, h.latestOffset]
    exact h.live
  · intro o
    rw [h.mem_records, UInt64.lt_iff_toNat_lt, UInt64.le_iff_toNat_le, h.latestOffset]
    rfl
  · intro o r hr
    have hmem : o ∈ (j₀.after calls).records := by
      rw [Std.ExtTreeMap.mem_iff_isSome_getElem?, hr]
      rfl
    obtain ⟨hpos, _⟩ := (h.mem_records o).mp hmem
    obtain ⟨i, hi⟩ := Nat.exists_eq_succ_of_ne_zero (Nat.ne_of_gt hpos)
    rw [h.get_succ hi] at hr
    have hlinked := h.linked i r hr
    refine ⟨UInt64.toNat_inj.mp (hlinked.offset.trans hi.symm), ?_⟩
    rw [UInt64.lt_iff_toNat_lt, hi]
    exact Nat.lt_succ_of_le hlinked.parent
  · intro o ho
    obtain ⟨chain, hchain⟩ := exists_chain h.complete.ordered (hle o ho)
    refine ⟨chain.reverse, ?_, ?_, ?_⟩
    · unfold branchAncestry
      rw [h.ancestryFrom hchain rfl (Nat.le_refl _), map_reverse]
    · intro r hr
      exact h.mem_chain hchain r (mem_reverse.mp hr)
    · unfold Journal.materialize
      rw [h.chainFrom hchain rfl (Nat.le_refl _), h.session]

end Journal

end Omp2.State

/-! ## A run -/

namespace Omp2.State.Journal

open Omp2.Json.Compact

/-- A session for the runs on fixed inputs. -/
def exampleSession : SessionId := ⟨"session", Eq.refl true⟩

theorem exists_create_exampleSession : ∃ j₀, create exampleSession = .ok j₀ := by
  have hok : (create exampleSession).isOk = true := by decide +kernel
  cases hcreate : create exampleSession with
  | error e =>
      rw [hcreate] at hok
      cases hok
  | ok j₀ => exact ⟨j₀, rfl⟩

/-- A fork and a selection that the outside world lets pass. -/
def exampleCalls : List Call :=
  [.fork 0 ⟨"side", Eq.refl true⟩ ⟨"branch-1", Eq.refl true⟩ ⟨.ok 7, .done⟩,
    .select mainBranch ⟨.ok 8, .done⟩]

/-- History is immutable after a fork and a selection. -/
theorem exampleCalls_immutableHistory : ∃ j₀, create exampleSession = .ok j₀ ∧
    ImmutableHistory exampleSession (j₀.after exampleCalls) := by
  obtain ⟨j₀, hcreate⟩ := exists_create_exampleSession
  exact ⟨j₀, hcreate, after_immutableHistory hcreate exampleCalls⟩

end Omp2.State.Journal
