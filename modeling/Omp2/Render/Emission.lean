import Mathlib.Data.List.Nodup
import Omp2.Library.Machine
import Omp2.Library.Slots
import Omp2.Render.Transcript

/-!
# The transcript as a ledger of slots

The blocks and the logical history of a scheduler are a ledger of slots. Every operation takes
steps of the ledger, pushes the lines that these steps add as rows, and changes nothing when it
fails; a rebuild leaves the ledger and replays its history. So the history is exact and only ever
grows, and the blocks live by the rules of the slots.
-/

namespace Omp2.Render

open Omp2.Slots List

theorem slice_eq {α : Type} {xs : List α} {first last : Nat} (hle : first ≤ last)
    (hlast : last ≤ xs.length) : slice xs first last = some ((xs.take last).drop first) := by
  simp [slice, hle, hlast]

/-! ## The ledger of a scheduler -/

/-- The phase of a block. -/
def BlockState.phase : BlockState → Phase
  | .queued => .queued
  | .active => .active
  | .finalized => .finalized
  | .committed => .committed

/-- A block as a slot. -/
def TranscriptBlock.slot (block : TranscriptBlock) : Slot BlockId String :=
  ⟨block.id, block.mode = .appendOnly, block.state.phase, block.snapshot, block.emittedPrefix⟩

theorem BlockState.phase_inj {a b : BlockState} : a.phase = b.phase ↔ a = b := by
  cases a <;> cases b <;> simp [phase]

theorem BlockMode.ne_mutable {mode : BlockMode} : mode ≠ .mutable ↔ mode = .appendOnly := by
  cases mode <;> simp

theorem TranscriptBlock.isLive_iff {block : TranscriptBlock} :
    block.isLive = true ↔ block.slot.Live := by
  cases hstate : block.state <;> simp [isLive, Slot.Live, slot, BlockState.phase, hstate]

namespace TranscriptScheduler

/-- The blocks as slots, and the committed snapshots. -/
def ledger (s : TranscriptScheduler) : Ledger BlockId String :=
  ⟨s.blocks.map TranscriptBlock.slot, s.logicalHistory.committedBlocks⟩

/-- The logical history. -/
def history (s : TranscriptScheduler) : List String :=
  s.logicalHistory.allLines s.head

variable {s s' s'' : TranscriptScheduler} {i : Nat} {block : TranscriptBlock} {id : BlockId}

@[simp] theorem ledger_frontier : s.ledger.frontier = s.commitFrontier := rfl

theorem ledger_get (i : Nat) : s.ledger.slots[i]? = s.blocks[i]?.map TranscriptBlock.slot :=
  getElem?_map

theorem ledger_get_some (h : s.blocks[i]? = some block) :
    s.ledger.slots[i]? = some block.slot := by
  rw [ledger_get, h]
  rfl

/-- The history of the ledger is the logical history. -/
theorem ledger_history : s.ledger.history = s.history := by
  unfold Ledger.history history LogicalHistory.allLines head
  rw [ledger_frontier, ledger_get]
  refine congrArg₂ (· ++ ·) rfl ?_
  cases s.blocks[s.commitFrontier]? with
  | none => rfl
  | some block =>
      show block.slot.shown = _
      unfold Slot.shown
      by_cases hlive : block.slot.Live
      · have hlive' := TranscriptBlock.isLive_iff.mpr hlive
        cases hmode : block.mode with
        | mutable => simp [TranscriptBlock.slot, hmode, hlive']
        | appendOnly =>
          have happend : block.slot.appendOnly = true := by simp [TranscriptBlock.slot, hmode]
          simp only [hlive, happend, hlive', and_self, if_true, hmode]
          exact take_eq_take_min ..
      · have hlive' := mt TranscriptBlock.isLive_iff.mp hlive
        simp [hlive, hlive']

theorem ledger_setBlock : (s.setBlock i block).ledger = s.ledger.replace i block.slot := by
  simp [ledger, setBlock, Ledger.replace, map_set]

theorem ledger_setBlock_same {new : TranscriptBlock} (hblock : s.blocks[i]? = some block)
    (hslot : new.slot = block.slot) : (s.setBlock i new).ledger = s.ledger := by
  rw [ledger_setBlock, hslot]
  obtain ⟨hlt, hget⟩ := List.getElem?_eq_some_iff.mp (ledger_get_some hblock)
  simp [Ledger.replace, ← hget]

/-- No block has emitted more lines than it has. -/
def Fits (s : TranscriptScheduler) : Prop :=
  ∀ block ∈ s.blocks, block.emittedPrefix ≤ block.snapshot.length

theorem fits_iff : s.Fits ↔
    ∀ slot ∈ s.ledger.slots, slot.emitted ≤ slot.lines.length := by
  simp [Fits, ledger, TranscriptBlock.slot]

theorem fits_of_exact (h : s.ledger.Exact) : s.Fits := by
  refine fits_iff.mpr fun slot hslot => ?_
  obtain ⟨i, hi⟩ := mem_iff_getElem?.mp hslot
  exact h.fits i slot hi

/-! ## Refreshing the viewport -/

/-- A scheduler that differs in what is on the screen only. -/
structure Painted (s s' : TranscriptScheduler) : Prop where
  ledger : s'.ledger = s.ledger
  nativeScrollback : s'.nativeScrollback = s.nativeScrollback
  scrollbackEvicted : s'.scrollbackEvicted = s.scrollbackEvicted
  displayEpoch : s'.displayEpoch = s.displayEpoch
  replayGate : s'.replayGate = s.replayGate
  failStopped : s'.failStopped = s.failStopped

theorem reserve_slots (remaining : Nat) (blocks : List TranscriptBlock) :
    (reserve remaining blocks).1.map TranscriptBlock.slot = blocks.map TranscriptBlock.slot := by
  induction blocks with
  | nil => rfl
  | cons block rest ih =>
      show _ :: (reserve remaining rest).1.map TranscriptBlock.slot = _
      rw [ih]
      rfl

theorem paint_isSome (epoch : Nat) (hfits : block.emittedPrefix ≤ block.snapshot.length) :
    ∃ rows, paint epoch block = some rows := by
  unfold paint
  split
  · exact ⟨_, rfl⟩
  · dsimp only
    rw [slice_eq (by split <;> omega) (Nat.le_refl _)]
    exact ⟨_, rfl⟩

/-- Blocks that fit can be painted. -/
theorem paintAll_isSome (epoch : Nat) {blocks : List TranscriptBlock}
    (hfits : ∀ block ∈ blocks, block.emittedPrefix ≤ block.snapshot.length) :
    ∃ rows, paintAll epoch blocks = some rows := by
  induction blocks with
  | nil => exact ⟨_, rfl⟩
  | cons block rest ih =>
      obtain ⟨rows, hrows⟩ := paint_isSome epoch (hfits block (mem_cons_self ..))
      obtain ⟨others, hothers⟩ := ih fun b hb => hfits b (mem_cons_of_mem _ hb)
      exact ⟨rows ++ others, by simp [paintAll, hrows, hothers]⟩

/-- Refreshing the viewport is possible when the blocks fit, and changes the screen only. -/
theorem refreshViewport_painted (hfits : s.Fits) :
    ∃ s', s.refreshViewport = some s' ∧ Painted s s' := by
  unfold refreshViewport
  split
  · exact ⟨s, rfl, rfl, rfl, rfl, rfl, rfl, rfl⟩
  · dsimp only
    generalize hreserve : reserve _ s.blocks = reserved
    obtain ⟨blocks, remaining⟩ := reserved
    have hslots : blocks.map TranscriptBlock.slot = s.blocks.map TranscriptBlock.slot := by
      rw [← reserve_slots _ s.blocks, hreserve]
    have hledger : ({ s with blocks } : TranscriptScheduler).ledger = s.ledger := by
      simp [ledger, hslots]
    -- the reserved blocks emit what they emitted before
    have hfits' : ({ s with blocks } : TranscriptScheduler).Fits := by
      rw [fits_iff, hledger, ← fits_iff]
      exact hfits
    obtain ⟨rows, hrows⟩ := paintAll_isSome s.displayEpoch hfits'
    dsimp only at hrows ⊢
    split
    · exact ⟨_, rfl, hledger, rfl, rfl, rfl, rfl, rfl⟩
    · rw [slice_eq (Nat.sub_le ..) (Nat.le_refl _), hrows]
      exact ⟨_, rfl, hledger, rfl, rfl, rfl, rfl, rfl⟩

theorem refreshed_painted {α : Type} (hfits : s.Fits) (answer : α) :
    ∃ s', s.refreshed answer = some (s', .ok answer) ∧ Painted s s' := by
  obtain ⟨s', heq, hpainted⟩ := refreshViewport_painted hfits
  exact ⟨s', by simp [refreshed, heq], hpainted⟩

/-! ## Finding a block -/

/-- The block that is found has the id. -/
theorem locate_some (h : s.locate id = some (i, block)) :
    s.blocks[i]? = some block ∧ block.id = id := by
  simp only [locate, Option.bind_eq_some_iff, Option.map_eq_some_iff, Prod.mk.injEq] at h
  obtain ⟨j, hfind, b, hget, rfl, rfl⟩ := h
  obtain ⟨hlt, hid, _⟩ := findIdx?_eq_some_iff_getElem.mp hfind
  rw [getElem?_eq_getElem hlt, Option.some.injEq] at hget
  refine ⟨by rw [getElem?_eq_getElem hlt, hget], ?_⟩
  rw [← hget]
  simpa using hid

theorem locate_isSome (hmem : block ∈ s.blocks) (hid : block.id = id) :
    ∃ i found, s.locate id = some (i, found) := by
  cases hfind : s.blocks.findIdx? fun b => b.id = id with
  | none =>
      have := findIdx?_eq_none_iff.mp hfind block hmem
      simp [hid] at this
  | some i =>
      obtain ⟨hlt, _, _⟩ := findIdx?_eq_some_iff_getElem.mp hfind
      exact ⟨i, s.blocks[i], by simp [locate, hfind, hlt]⟩

/-- In a ledger without duplicates a block is found where it is. -/
theorem locate_self (hids : (s.ledger.slots.map Slot.id).Nodup)
    (hblock : s.blocks[i]? = some block) : s.locate block.id = some (i, block) := by
  obtain ⟨j, found, hlocate⟩ := locate_isSome (mem_of_getElem? hblock) rfl
  obtain ⟨hfound, hid⟩ := locate_some hlocate
  obtain ⟨hi, hgeti⟩ := List.getElem?_eq_some_iff.mp hblock
  obtain ⟨hj, hgetj⟩ := List.getElem?_eq_some_iff.mp hfound
  have hlength : (s.ledger.slots.map Slot.id).length = s.blocks.length := by simp [ledger]
  have heq : i = j := by
    refine (@List.Nodup.getElem_inj_iff _ _ hids i (hlength ▸ hi) j (hlength ▸ hj)).mp ?_
    simp [ledger, TranscriptBlock.slot, hgeti, hgetj, hid]
  subst heq
  rw [hlocate, ← hgetj, hgeti]

/-! ## Pushing rows -/

/-- The texts of the rows that are not summaries. -/
def texts (rows : List NativeRow) : List String :=
  (rows.filter fun row => !row.isSummary).map NativeRow.text

theorem texts_append (rows more : List NativeRow) :
    texts (rows ++ more) = texts rows ++ texts more := by
  simp [texts]

theorem texts_rows (source : NativeSource) (epoch : Nat) (lines : List String) :
    texts (block.rows source epoch lines) = lines := by
  simp [texts, TranscriptBlock.rows, NativeRow.tagged, filter_map, Function.comp_def]

theorem epoch_rows {source : NativeSource} {epoch : Nat} {lines : List String} {row : NativeRow}
    (h : row ∈ block.rows source epoch lines) : row.epoch = epoch := by
  simp only [TranscriptBlock.rows, mem_map] at h
  obtain ⟨line, _, rfl⟩ := h
  rfl

/-- The scrollback after some rows: those at the front may have been evicted. -/
structure Pushed (s : TranscriptScheduler) (rows : List NativeRow) (s' : TranscriptScheduler) :
    Prop where
  scrollback : ∃ evicted, evicted ≤ (s.nativeScrollback ++ rows).length ∧
    s'.nativeScrollback = (s.nativeScrollback ++ rows).drop evicted ∧
    s'.scrollbackEvicted = s.scrollbackEvicted + evicted
  bounded : s.nativeScrollback.length ≤ maxScrollbackRows →
    s'.nativeScrollback.length ≤ maxScrollbackRows

theorem Pushed.nil (hscrollback : s'.nativeScrollback = s.nativeScrollback)
    (hevicted : s'.scrollbackEvicted = s.scrollbackEvicted) : Pushed s [] s' :=
  ⟨⟨0, by simp, by simp [hscrollback], by simp [hevicted]⟩, fun h => by rw [hscrollback]; exact h⟩

/-- Some rows and then some more. -/
theorem Pushed.trans {rows more : List NativeRow} (h : Pushed s rows s')
    (h' : Pushed s' more s'') : Pushed s (rows ++ more) s'' := by
  obtain ⟨n, hn, hrows, hevicted⟩ := h.scrollback
  obtain ⟨m, hm, hrows', hevicted'⟩ := h'.scrollback
  rw [hrows] at hm hrows'
  have hlength : (s.nativeScrollback ++ (rows ++ more)).length =
      (s.nativeScrollback ++ rows).length + more.length := by
    simp only [length_append]
    omega
  rw [length_append, length_drop] at hm
  refine ⟨⟨n + m, by omega, ?_, by omega⟩, fun hbound => h'.bounded (h.bounded hbound)⟩
  -- the rows that were evicted first come before the new ones
  rw [hrows', ← append_assoc, ← drop_drop, drop_append_of_le_length hn]

theorem pushScrollback_pushed (row : NativeRow) : Pushed s [row] (s.pushScrollback row) := by
  refine ⟨⟨_, Nat.sub_le .., rfl, rfl⟩, fun _ => ?_⟩
  simp only [pushScrollback, length_drop]
  omega

/-- Pushing rows changes the scrollback only. -/
theorem pushRows_eq (rows : List NativeRow) : ∃ nativeScrollback scrollbackEvicted,
    s.pushRows rows = { s with nativeScrollback, scrollbackEvicted } := by
  induction rows generalizing s with
  | nil => exact ⟨_, _, rfl⟩
  | cons row rest ih =>
      obtain ⟨scrollback, evicted, heq⟩ := ih (s := s.pushScrollback row)
      show ∃ _ _, (s.pushScrollback row).pushRows rest = _
      rw [heq]
      unfold pushScrollback
      exact ⟨_, _, rfl⟩

theorem pushRows_pushed (rows : List NativeRow) : Pushed s rows (s.pushRows rows) := by
  induction rows generalizing s with
  | nil => exact .nil rfl rfl
  | cons row rest ih => exact (pushScrollback_pushed row).trans ih

/-! ## What operations do -/

/-- The ledger takes steps, and the lines that they add are pushed as rows. -/
structure Emits (s : TranscriptScheduler) (rows : List NativeRow) (s' : TranscriptScheduler) :
    Prop where
  steps : Ledger.Steps s.ledger (texts rows) s'.ledger
  pushed : Pushed s rows s'
  epochs : ∀ row ∈ rows, row.epoch = s.displayEpoch
  displayEpoch : s'.displayEpoch = s.displayEpoch

theorem Emits.trans {rows more : List NativeRow} (h : Emits s rows s') (h' : Emits s' more s'') :
    Emits s (rows ++ more) s'' := by
  refine ⟨?_, h.pushed.trans h'.pushed, fun row hrow => ?_,
    h'.displayEpoch.trans h.displayEpoch⟩
  · rw [texts_append]
    exact h.steps.trans h'.steps
  · rcases mem_append.mp hrow with hrow | hrow
    · exact h.epochs row hrow
    · exact (h'.epochs row hrow).trans h.displayEpoch

theorem Emits.painted {rows : List NativeRow} (h : Emits s rows s') (hpainted : Painted s' s'') :
    Emits s rows s'' := by
  have hnil : Pushed s' [] s'' := .nil hpainted.nativeScrollback hpainted.scrollbackEvicted
  refine ⟨hpainted.ledger ▸ h.steps, ?_, h.epochs, hpainted.displayEpoch.trans h.displayEpoch⟩
  simpa using h.pushed.trans hnil

/-- A scheduler whose scrollback is the replay of its history. -/
structure Rebuilds (s s' : TranscriptScheduler) : Prop where
  ledger : s'.ledger = s.ledger
  replayed : ∃ rows, texts rows = s.history ∧ (∀ row ∈ rows, row.epoch = s'.displayEpoch) ∧
    s'.nativeScrollback = rows.drop (rows.length - maxScrollbackRows) ∧
    s'.scrollbackEvicted = s.scrollbackEvicted + (rows.length - maxScrollbackRows)

/-- What an operation may leave. -/
inductive Moves (s s' : TranscriptScheduler) : Prop where
  | emits (rows : List NativeRow) : Emits s rows s' → Moves s s'
  | rebuilds : Rebuilds s s' → Moves s s'

/-- An outcome without a panic: nothing has changed in case of an error, and the blocks and the
scrollback move by the rules. -/
def Lawful {α : Type} (s : TranscriptScheduler) (outcome : Outcome α) : Prop :=
  ∃ s' result, outcome = some (s', result) ∧ (∀ e, result = .error e → s' = s) ∧
    Ledger.Each Slot.Continues s.ledger s'.ledger ∧ Moves s s'

theorem Emits.same (hledger : s'.ledger = s.ledger)
    (hscrollback : s'.nativeScrollback = s.nativeScrollback)
    (hevicted : s'.scrollbackEvicted = s.scrollbackEvicted)
    (hepoch : s'.displayEpoch = s.displayEpoch) : Emits s [] s' :=
  ⟨hledger ▸ .refl _, .nil hscrollback hevicted, by simp, hepoch⟩

theorem each_same (hledger : s'.ledger = s.ledger) :
    Ledger.Each Slot.Continues s.ledger s'.ledger :=
  fun _ slot hslot => ⟨slot, hledger ▸ hslot, Std.Refl.refl slot⟩

theorem Lawful.error {α : Type} (e : TranscriptError) :
    Lawful (α := α) s (some (s, .error e)) :=
  ⟨s, .error e, rfl, fun _ _ => rfl, each_same rfl, .emits [] (.same rfl rfl rfl rfl)⟩

theorem Lawful.step {α : Type} (rows : List NativeRow) {answer : α}
    (hstep : Ledger.Step s.ledger (texts rows) s'.ledger) (hpushed : Pushed s rows s')
    (hepochs : ∀ row ∈ rows, row.epoch = s.displayEpoch)
    (hepoch : s'.displayEpoch = s.displayEpoch) : Lawful s (some (s', .ok answer)) :=
  ⟨s', .ok answer, rfl, fun _ h => by simp at h, hstep.each,
    .emits rows ⟨hstep.steps, hpushed, hepochs, hepoch⟩⟩

/-- What is painted after a step of the ledger whose lines were pushed. -/
theorem Lawful.refreshed {α : Type} (rows : List NativeRow) (answer : α)
    (hexact : s.ledger.Exact) (hstep : Ledger.Step s.ledger (texts rows) s'.ledger)
    (hpushed : Pushed s rows s') (hepochs : ∀ row ∈ rows, row.epoch = s.displayEpoch)
    (hepoch : s'.displayEpoch = s.displayEpoch) : Lawful s (s'.refreshed answer) := by
  obtain ⟨s'', heq, hpainted⟩ :=
    refreshed_painted (fits_of_exact (hstep.exact hexact)) answer
  rw [heq]
  have hemits : Emits s rows s'' :=
    Emits.painted ⟨hstep.steps, hpushed, hepochs, hepoch⟩ hpainted
  exact ⟨s'', .ok answer, rfl, fun _ h => by simp at h, hpainted.ledger ▸ hstep.each,
    .emits rows hemits⟩

theorem Lawful.whenOperational {α : Type} {k : Outcome α}
    (h : s.checkOperational = .ok () → Lawful s k) : Lawful s (s.whenOperational k) := by
  unfold TranscriptScheduler.whenOperational
  cases hcheck : s.checkOperational with
  | error e => exact .error e
  | ok => exact h hcheck

theorem Lawful.onBlock {α : Type} {k : Nat → TranscriptBlock → Outcome α}
    (h : ∀ i block, s.blocks[i]? = some block → block.id = id → Lawful s (k i block)) :
    Lawful s (s.onBlock id k) := by
  unfold TranscriptScheduler.onBlock
  cases hlocate : s.locate id with
  | none => exact .error _
  | some found => exact h found.1 found.2 (locate_some hlocate).1 (locate_some hlocate).2

/-! ## The life of a block -/

/-- `admit_block`. -/
theorem admitBlock_lawful (hexact : s.ledger.Exact) (mode : BlockMode) (owner : String) :
    Lawful s (s.admitBlock id mode owner) := by
  refine .whenOperational fun _ => ?_
  split
  · exact .error _
  · next hnew =>
    split
    · exact .error _
    · have hid : id ∉ s.ledger.slots.map Slot.id := by
        simpa [ledger, TranscriptBlock.slot] using hnew
      refine .step [] ?_ (.nil rfl rfl) (by simp) rfl
      simpa [ledger, texts] using
        Ledger.Step.enter s.ledger (TranscriptBlock.new id mode owner).slot rfl rfl hid

theorem activateBlock_lawful : Lawful s (s.activateBlock id) := by
  refine .whenOperational fun _ => .onBlock fun i block hblock _ => ?_
  split
  · exact .error _
  · next hstate =>
    refine .step [] ?_ (.nil rfl rfl) (by simp) rfl
    have hphase : block.slot.phase = .queued := BlockState.phase_inj.mpr (not_not.mp hstate)
    rw [ledger_setBlock]
    exact .activate _ i block.slot (ledger_get_some hblock) hphase

theorem finalizeBlock_lawful : Lawful s (s.finalizeBlock id) := by
  refine .whenOperational fun _ => .onBlock fun i block hblock _ => ?_
  split
  · exact .error _
  · next hstate =>
    refine .step [] ?_ (.nil rfl rfl) (by simp) rfl
    have hphase : block.slot.phase = .active := BlockState.phase_inj.mpr (not_not.mp hstate)
    rw [ledger_setBlock]
    exact .finalize _ i block.slot (ledger_get_some hblock) hphase

/-- `apply_elastic_reservation` on a block that exists. -/
theorem applyElasticReservation_painted (hfits : s.Fits) (hmem : block ∈ s.blocks)
    (hid : block.id = id) :
    ∃ s', s.applyElasticReservation id = some (s', .ok ()) ∧ Painted s s' := by
  obtain ⟨i, found, hlocate⟩ := locate_isSome hmem hid
  unfold applyElasticReservation TranscriptScheduler.onBlock
  rw [hlocate]
  dsimp only
  generalize hnew : TranscriptBlock.mk .. = new
  have hledger : (s.setBlock i new).ledger = s.ledger :=
    ledger_setBlock_same (locate_some hlocate).1 (by rw [← hnew]; rfl)
  have hfits' : (s.setBlock i new).Fits := by
    rw [fits_iff, hledger, ← fits_iff]
    exact hfits
  obtain ⟨s', heq, hpainted⟩ := refreshed_painted hfits' ()
  exact ⟨s', heq, ⟨hpainted.ledger.trans hledger, hpainted.nativeScrollback,
    hpainted.scrollbackEvicted, hpainted.displayEpoch, hpainted.replayGate,
    hpainted.failStopped⟩⟩

/-- `update_snapshot`. -/
theorem updateSnapshot_lawful (hexact : s.ledger.Exact) (newLines : List String) :
    Lawful s (s.updateSnapshot id newLines) := by
  refine .whenOperational fun _ => .onBlock fun i block hblock hid => ?_
  split
  · exact .error _
  · next hstate =>
    split
    · exact .error _
    · next hprefix =>
      -- the new lines are an update of the slot
      have hstep : Ledger.Step s.ledger (texts [])
          (s.setBlock i { block with snapshot := newLines }).ledger := by
        rw [ledger_setBlock]
        refine .update _ i block.slot newLines (ledger_get_some hblock) ?_ fun happend => ?_
        · cases hphase : block.state <;>
            simp [TranscriptBlock.slot, BlockState.phase, hphase] at hstate ⊢
        · have hmode : block.mode = .appendOnly := by
            simpa [TranscriptBlock.slot] using happend
          exact not_not.mp fun hnot => hprefix ⟨hmode, hnot⟩
      obtain ⟨hlt, _⟩ := List.getElem?_eq_some_iff.mp hblock
      have hmem : { block with snapshot := newLines } ∈
          (s.setBlock i { block with snapshot := newLines }).blocks :=
        mem_set hlt _
      obtain ⟨s', heq, hpainted⟩ := applyElasticReservation_painted
        (fits_of_exact (hstep.exact hexact)) hmem hid
      rw [heq]
      have hemits : Emits s [] s' :=
        Emits.painted ⟨hstep.steps, .nil rfl rfl, by simp, rfl⟩ hpainted
      exact ⟨s', .ok (), rfl, fun _ h => by simp at h, hpainted.ledger ▸ hstep.each,
        .emits [] hemits⟩

/-- `stream_stable_prefix`. -/
theorem streamStablePrefix_lawful (hexact : s.ledger.Exact) (id : BlockId) (stableCount : Nat) :
    Lawful s (s.streamStablePrefix id stableCount) := by
  refine .whenOperational fun _ => .onBlock fun i block hblock _ => ?_
  split
  · exact .error _
  · next hi =>
    obtain rfl : i = s.commitFrontier := not_not.mp hi
    split
    · exact .error _
    · next hlive =>
      split
      · exact .error _
      · next hmode =>
        have hslot := ledger_get_some hblock
        have hfits : block.emittedPrefix ≤ block.snapshot.length := hexact.fits _ _ hslot
        dsimp only
        generalize hnew : min stableCount block.snapshot.length = newPrefix
        have hlast : newPrefix ≤ block.snapshot.length := hnew ▸ Nat.min_le_right ..
        -- the slice is in range, also when nothing is streamed
        have hslice : (if block.emittedPrefix < newPrefix then
            slice block.snapshot block.emittedPrefix newPrefix else some []) =
            some ((block.snapshot.take (max newPrefix block.emittedPrefix)).drop
              block.emittedPrefix) := by
          split
          · next hlt =>
            rw [slice_eq (Nat.le_of_lt hlt) hlast, Nat.max_eq_left (Nat.le_of_lt hlt)]
          · next hge =>
            rw [Nat.max_eq_right (by omega)]
            simp
        rw [hslice]
        obtain ⟨scrollback, evicted, hpush⟩ := pushRows_eq (s := s)
          (block.rows .append s.displayEpoch
            ((block.snapshot.take (max newPrefix block.emittedPrefix)).drop
              block.emittedPrefix))
        have hpushed := pushRows_pushed (s := s) (block.rows .append s.displayEpoch
          ((block.snapshot.take (max newPrefix block.emittedPrefix)).drop
            block.emittedPrefix))
        rw [Option.bind_some]
        refine .refreshed _ _ hexact ?_ ⟨hpushed.scrollback, hpushed.bounded⟩
          (fun row hrow => epoch_rows hrow) (by rw [hpush]; rfl)
        rw [texts_rows, hpush, ledger_setBlock]
        exact .stream _ block.slot _ hslot
          (TranscriptBlock.isLive_iff.mp (not_not.mp hlive))
          (by simp [TranscriptBlock.slot, BlockMode.ne_mutable.mp hmode])
          (Nat.le_max_right ..) (Nat.max_le.mpr ⟨hlast, hfits⟩)

/-- What `flush` may do to a slot. -/
def Flushed (slot new : Slot BlockId String) : Prop :=
  new = slot ∨ (slot.phase = .finalized ∧ new = { slot with phase := .committed, emitted := 0 })

instance : Std.Refl Flushed :=
  ⟨fun _ => .inl rfl⟩

instance : Trans Flushed Flushed Flushed where
  trans h h' := by
    rcases h with rfl | ⟨hphase, rfl⟩
    · exact h'
    · -- a committed slot is not flushed once more
      rcases h' with rfl | ⟨hphase', _⟩
      · exact .inr ⟨hphase, rfl⟩
      · simp at hphase'

theorem Flushed.continues {slot new : Slot BlockId String} (h : Flushed slot new) :
    slot.Continues new := by
  rcases h with rfl | ⟨hphase, rfl⟩
  · exact Std.Refl.refl _
  · exact ⟨rfl, rfl, .inr (by simp [hphase, Phase.next]), fun _ => rfl, fun _ => prefix_rfl⟩

/-- `retire_block` of a finalized block at the commit frontier. -/
theorem retireBlock_head (hexact : s.ledger.Exact) (hcheck : s.checkOperational = .ok ())
    (hlocate : s.locate id = some (s.commitFrontier, block)) (hstate : block.state = .finalized) :
    ∃ s' rows, s.retireBlock id = some (s', .ok ()) ∧ Emits s rows s' ∧
      Ledger.Each Flushed s.ledger s'.ledger ∧ s'.checkOperational = .ok () ∧
      s'.ledger.slots.length = s.ledger.slots.length ∧
      s'.ledger.frontier = s.ledger.frontier + 1 := by
  have hslot := ledger_get_some (locate_some hlocate).1
  have hfits : block.emittedPrefix ≤ block.snapshot.length := hexact.fits _ _ hslot
  have hphase : block.slot.phase = .finalized := BlockState.phase_inj.mpr hstate
  generalize hrows : block.rows .retire s.displayEpoch (block.snapshot.drop block.emittedPrefix) =
    rows
  have hpushed := pushRows_pushed (s := s) rows
  obtain ⟨scrollback, evicted, hpush⟩ := pushRows_eq (s := s) rows
  -- the state before the viewport is refreshed
  generalize hretired : ({ s.pushRows rows with
      logicalHistory := (s.pushRows rows).logicalHistory.commitBlock block.snapshot } :
      TranscriptScheduler).setBlock s.commitFrontier
        { block with state := .committed, emittedPrefix := 0 } = retired
  have hledger : retired.ledger = { s.ledger.replace s.ledger.frontier
      { block.slot with phase := .committed, emitted := 0 } with
      committed := s.ledger.committed ++ [block.slot.lines] } := by
    rw [← hretired, ledger_setBlock, hpush]
    rfl
  have hstep : Ledger.Step s.ledger (texts rows) retired.ledger := by
    rw [← hrows, texts_rows, hledger]
    exact .retire _ block.slot hslot hphase
  obtain ⟨s', heq, hpainted⟩ := refreshed_painted (fits_of_exact (hstep.exact hexact)) ()
  have hemits : Emits s rows s' := by
    refine Emits.painted ⟨hstep.steps, ?_, fun row hrow => epoch_rows (hrows ▸ hrow), ?_⟩ hpainted
    · rw [← hretired]
      exact ⟨hpushed.scrollback, hpushed.bounded⟩
    · rw [← hretired, hpush]
      rfl
  refine ⟨s', rows, ?_, hemits, ?_, ?_, ?_, ?_⟩
  · simp only [retireBlock, TranscriptScheduler.whenOperational, hcheck,
      TranscriptScheduler.onBlock, hlocate, ne_eq, not_true_eq_false, if_false, hstate]
    rw [slice_eq hfits (Nat.le_refl _), take_length, Option.bind_some, hrows, hretired, heq]
  · rw [hpainted.ledger, hledger]
    exact Ledger.each_replace (l := s.ledger) hslot (.inr ⟨hphase, rfl⟩)
  · have hgate : s'.replayGate = s.replayGate := by
      rw [hpainted.replayGate, ← hretired, hpush]
      rfl
    have hstopped : s'.failStopped = s.failStopped := by
      rw [hpainted.failStopped, ← hretired, hpush]
      rfl
    simpa [checkOperational, checkNotFailStopped, hgate, hstopped] using hcheck
  · rw [hpainted.ledger, hledger]
    simp [Ledger.replace]
  · rw [hpainted.ledger, hledger]
    simp [Ledger.frontier]

/-- `retire_block`. -/
theorem retireBlock_lawful (hexact : s.ledger.Exact) : Lawful s (s.retireBlock id) := by
  by_cases hhead : ∃ block, s.checkOperational = .ok () ∧
      s.locate id = some (s.commitFrontier, block) ∧ block.state = .finalized
  · obtain ⟨block, hcheck, hlocate, hstate⟩ := hhead
    obtain ⟨s', rows, heq, hemits, heach, _⟩ := retireBlock_head hexact hcheck hlocate hstate
    exact ⟨s', .ok (), heq, fun _ h => by simp at h, heach.imp fun _ _ => Flushed.continues,
      .emits rows hemits⟩
  · -- otherwise one of the checks fails
    refine .whenOperational fun hcheck => ?_
    unfold TranscriptScheduler.onBlock
    cases hlocate : s.locate id with
    | none => exact .error _
    | some found =>
      dsimp only
      split
      · exact .error _
      · next hi =>
        split
        · exact .error _
        · next hstate =>
          refine absurd ⟨found.2, hcheck, ?_, not_not.mp hstate⟩ hhead
          rw [hlocate, ← not_not.mp hi]

theorem not_failStopped (hcheck : s.checkOperational = .ok ()) :
    s.checkNotFailStopped = .ok () := by
  unfold checkOperational at hcheck
  split at hcheck
  · simp at hcheck
  · assumption

/-- The loop of `flush`, with enough fuel, stops at a head that is not finalized. -/
theorem flushLoop_flushes (fuel : Nat) (hexact : s.ledger.Exact)
    (hcheck : s.checkOperational = .ok ())
    (hfuel : s.ledger.slots.length ≤ s.ledger.frontier + fuel) :
    ∃ s' rows, flushLoop fuel s = some (s', .ok ()) ∧ Emits s rows s' ∧
      Ledger.Each Flushed s.ledger s'.ledger ∧
      ∀ block, s'.head = some block → block.state ≠ .finalized := by
  induction fuel generalizing s with
  | zero =>
      refine ⟨s, [], rfl, .same rfl rfl rfl rfl, fun _ slot h => ⟨slot, h, .inl rfl⟩, ?_⟩
      intro block hblock
      obtain ⟨hlt, _⟩ := List.getElem?_eq_some_iff.mp (ledger_get_some hblock)
      simp only [ledger_frontier] at hfuel
      omega
  | succ fuel ih =>
      unfold flushLoop
      cases hhead : s.head with
      | none =>
        exact ⟨s, [], rfl, .same rfl rfl rfl rfl, fun _ slot h => ⟨slot, h, .inl rfl⟩,
          fun block hblock => by simp [hhead] at hblock⟩
      | some block =>
        by_cases hstate : block.state = .finalized
        · have hlocate := locate_self hexact.ids hhead
          obtain ⟨s', rows, heq, hemits, heach, hcheck', hlength, hfrontier⟩ :=
            retireBlock_head hexact hcheck hlocate hstate
          obtain ⟨s'', more, heq', hemits', heach', hdone⟩ :=
            ih (hemits.steps.exact hexact) hcheck' (by omega)
          refine ⟨s'', rows ++ more, ?_, hemits.trans hemits', heach.trans heach', hdone⟩
          simpa [hstate, heq] using heq'
        · refine ⟨s, [], by simp [hstate], .same rfl rfl rfl rfl,
            fun _ slot h => ⟨slot, h, .inl rfl⟩, fun b hb => ?_⟩
          rw [hhead] at hb
          cases hb
          exact hstate

/-- `flush`. -/
theorem flush_lawful (hexact : s.ledger.Exact) : Lawful s s.flush := by
  refine .whenOperational fun hcheck => ?_
  obtain ⟨s', rows, heq, hemits, heach, _⟩ := flushLoop_flushes
    (s.blocks.length - s.commitFrontier) hexact hcheck (by
      rw [ledger_frontier]
      simp only [ledger, length_map]
      omega)
  exact ⟨s', .ok (), heq, fun _ h => by simp at h, heach.imp fun _ _ => Flushed.continues,
    .emits rows hemits⟩

/-! ## Resizes and failures -/

/-- An outcome without a panic that leaves the ledger, and everything in case of an error. -/
def Redraws {α : Type} (s : TranscriptScheduler) (outcome : Outcome α) : Prop :=
  ∃ s' result, outcome = some (s', result) ∧ (∀ e, result = .error e → s' = s) ∧
    s'.ledger = s.ledger ∧ Moves s s'

theorem Redraws.lawful {α : Type} {outcome : Outcome α} (h : Redraws s outcome) :
    Lawful s outcome := by
  obtain ⟨s', result, heq, herror, hledger, hmoves⟩ := h
  exact ⟨s', result, heq, herror, each_same hledger, hmoves⟩

theorem Redraws.error {α : Type} (e : TranscriptError) :
    Redraws (α := α) s (some (s, .error e)) :=
  ⟨s, .error e, rfl, fun _ _ => rfl, rfl, .emits [] (.same rfl rfl rfl rfl)⟩

/-- Refreshing the viewport after rows that are no lines. -/
theorem Redraws.refreshed (rows : List NativeRow) (hfits : s.Fits) (hledger : s'.ledger = s.ledger)
    (hpushed : Pushed s rows s') (htexts : texts rows = [])
    (hepochs : ∀ row ∈ rows, row.epoch = s.displayEpoch)
    (hepoch : s'.displayEpoch = s.displayEpoch) : Redraws s (s'.refreshed ()) := by
  have hfits' : s'.Fits := by
    rw [fits_iff, hledger, ← fits_iff]
    exact hfits
  obtain ⟨s'', heq, hpainted⟩ := refreshed_painted hfits' ()
  have hsteps : Ledger.Steps s.ledger (texts rows) s'.ledger := by
    rw [htexts, hledger]
    exact .refl _
  have hemits : Emits s rows s'' := Emits.painted ⟨hsteps, hpushed, hepochs, hepoch⟩ hpainted
  exact ⟨s'', .ok (), heq, fun _ h => by simp at h, hpainted.ledger.trans hledger,
    .emits rows hemits⟩

theorem Redraws.whenOperational {α : Type} {k : Outcome α}
    (h : s.checkOperational = .ok () → Redraws s k) : Redraws s (s.whenOperational k) := by
  unfold TranscriptScheduler.whenOperational
  cases hcheck : s.checkOperational with
  | error e => exact .error e
  | ok => exact h hcheck

theorem prepareRebuildReplay_redraws (targetWidth targetHeight : UInt16) :
    Redraws s (s.prepareRebuildReplay targetWidth targetHeight) :=
  .whenOperational fun _ => ⟨_, .ok (), rfl, fun _ h => by simp at h, rfl,
    .emits [] (.same rfl rfl rfl rfl)⟩

/-- The lines of a block that fits are replayed if it is committed or the head. -/
theorem replayLines_eq (frontier index : Nat)
    (hfits : block.emittedPrefix ≤ block.snapshot.length) :
    replayLines frontier index block = some (
      if index < frontier then block.snapshot
      else if index = frontier then block.slot.shown else []) := by
  unfold replayLines Slot.shown
  by_cases hlt : index < frontier
  · simp [hlt]
  · by_cases heq : index = frontier
    · by_cases hlive : block.slot.Live
      · have hlive' := TranscriptBlock.isLive_iff.mpr hlive
        by_cases hmode : block.mode = .appendOnly
        · have happend : block.slot.appendOnly = true := by simp [TranscriptBlock.slot, hmode]
          simp only [heq, lt_irrefl, hlive, hlive', hmode, happend, and_self, if_true, if_false]
          rw [Nat.min_eq_left hfits, slice_eq (Nat.zero_le _) hfits]
          rfl
        · have happend : block.slot.appendOnly = false := by simp [TranscriptBlock.slot, hmode]
          simp [heq, hlive', hmode, happend]
      · have hlive' := mt TranscriptBlock.isLive_iff.mp hlive
        simp [heq, hlive, hlive']
    · simp [hlt, heq]

/-- A rebuild replays the committed blocks from an index on, and what the head shows. -/
theorem replayRows_eq (epoch frontier index : Nat) {blocks : List TranscriptBlock}
    (hfits : ∀ block ∈ blocks, block.emittedPrefix ≤ block.snapshot.length) :
    ∃ rows, replayRows epoch frontier index blocks = some rows ∧
      (∀ row ∈ rows, row.epoch = epoch) ∧
      texts rows = (blocks.take (frontier - index)).flatMap TranscriptBlock.snapshot ++
        if index ≤ frontier then
          (blocks[frontier - index]?.map fun block => block.slot.shown).getD []
        else [] := by
  induction blocks generalizing index with
  | nil => exact ⟨[], rfl, by simp, by simp [texts]⟩
  | cons block rest ih =>
      obtain ⟨rows, hrows, hepochs, htexts⟩ :=
        ih (index + 1) fun b hb => hfits b (mem_cons_of_mem _ hb)
      have hlines := replayLines_eq frontier index (hfits block (mem_cons_self ..))
      refine ⟨_, by simp only [replayRows, hlines, hrows]; rfl, fun row hrow => ?_, ?_⟩
      · rcases mem_append.mp hrow with hrow | hrow
        · exact epoch_rows hrow
        · exact hepochs row hrow
      · rw [texts_append, texts_rows, htexts]
        -- the block is before the head, the head, or after it
        rcases Nat.lt_trichotomy index frontier with hlt | rfl | hgt
        · obtain ⟨k, rfl⟩ : ∃ k, frontier = index + 1 + k := ⟨frontier - (index + 1), by omega⟩
          have hsub : index + 1 + k - index = k + 1 := by omega
          have hsub' : index + 1 + k - (index + 1) = k := by omega
          rw [if_pos hlt, if_pos (by omega), if_pos (by omega), hsub, hsub']
          simp
        · simp [show index - (index + 1) = 0 by omega]
        · have hsub : frontier - index = 0 := by omega
          have hsub' : frontier - (index + 1) = 0 := by omega
          rw [if_neg (by omega), if_neg (by omega), if_neg (by omega), if_neg (by omega), hsub, hsub']
          simp

/-- `execute_rebuild_replay` of a replay that was prepared. -/
theorem executeRebuildReplay_rebuilds {epoch : Nat} {targetWidth targetHeight : UInt16}
    (hexact : s.ledger.Exact) (hcheck : s.checkNotFailStopped = .ok ())
    (hgate : s.replayGate = .preparingReplay epoch targetWidth targetHeight) :
    ∃ s', s.executeRebuildReplay = some (s', .ok ()) ∧ Rebuilds s s' := by
  obtain ⟨rows, hrows, hepochs, htexts⟩ :=
    replayRows_eq epoch s.commitFrontier 0 (fits_of_exact hexact)
  unfold executeRebuildReplay
  rw [hcheck, hgate]
  dsimp only
  rw [hrows, Option.bind_some]
  generalize hcleared : TranscriptScheduler.mk .. = cleared
  have hledger : cleared.ledger = s.ledger := by simp only [← hcleared, ledger]
  have hfits : cleared.Fits := by
    rw [fits_iff, hledger, ← fits_iff]
    exact fits_of_exact hexact
  obtain ⟨painted, heq, hpainted⟩ := refreshViewport_painted hfits
  rw [heq]
  refine ⟨_, rfl, hpainted.ledger.trans hledger, rows, ?_, fun row hrow => ?_, ?_, ?_⟩
  · -- the rows are the history of the ledger, block by block
    rw [htexts, ← ledger_history, hexact.history, ledger_frontier, ledger_get, Nat.sub_zero,
      if_pos (Nat.zero_le _), Option.map_map]
    simp only [ledger, ← map_take, flatMap_map]
    rfl
  · refine (hepochs row hrow).trans (Eq.symm ?_)
    exact hpainted.displayEpoch.trans (by rw [← hcleared])
  · exact hpainted.nativeScrollback.trans (by rw [← hcleared])
  · exact hpainted.scrollbackEvicted.trans (by rw [← hcleared])

/-- `execute_rebuild_replay`. -/
theorem executeRebuildReplay_redraws (hexact : s.ledger.Exact) :
    Redraws s s.executeRebuildReplay := by
  cases hcheck : s.checkNotFailStopped with
  | error e =>
      have hrefused : s.executeRebuildReplay = some (s, .error e) := by
        simp [executeRebuildReplay, hcheck]
      exact hrefused ▸ .error e
  | ok =>
      cases hgate : s.replayGate with
      | preparingReplay epoch targetWidth targetHeight =>
        obtain ⟨s', heq, hrebuilds⟩ := executeRebuildReplay_rebuilds hexact hcheck hgate
        exact ⟨s', .ok (), heq, fun _ h => by simp at h, hrebuilds.ledger, .rebuilds hrebuilds⟩
      | _ =>
        unfold executeRebuildReplay
        rw [hcheck, hgate]
        exact .error _

/-- `resize`. -/
theorem resize_redraws (hexact : s.ledger.Exact) (newWidth newHeight : UInt16)
    (policy : ResizePolicy) : Redraws s (s.resize newWidth newHeight policy) := by
  refine .whenOperational fun hcheck => ?_
  have hfits := fits_of_exact hexact
  cases policy with
  | preserve => exact .refreshed [] hfits rfl (.nil rfl rfl) rfl (by simp) rfl
  | append =>
      dsimp only
      generalize hrow : (NativeRow.summary _ _).withSource .resize = row
      have htexts : texts [row] = [] := by rw [← hrow]; rfl
      have hepoch : row.epoch = s.displayEpoch := by rw [← hrow]; rfl
      obtain ⟨scrollback, evicted, hpush⟩ := pushRows_eq (s := s) [row]
      have hpushed := pushScrollback_pushed (s := s) row
      have hpush' : s.pushScrollback row = _ := hpush
      refine .refreshed [row] hfits ?_ ⟨hpushed.scrollback, hpushed.bounded⟩ htexts (by simp [hepoch]) ?_
      · rw [hpush']
        rfl
      · rw [hpush']
  | rebuild =>
      -- preparing succeeds, and so does executing
      have hprepare : s.prepareRebuildReplay newWidth newHeight = some
          ({ s with replayGate := .preparingReplay (s.displayEpoch + 1) newWidth newHeight },
            .ok ()) := by
        simp [prepareRebuildReplay, TranscriptScheduler.whenOperational, hcheck]
      dsimp only
      rw [hprepare]
      obtain ⟨s', heq, hrebuilds⟩ := executeRebuildReplay_rebuilds
        (s := { s with replayGate := .preparingReplay (s.displayEpoch + 1) newWidth newHeight })
        hexact (show s.checkNotFailStopped = .ok () from not_failStopped hcheck) rfl
      exact ⟨s', .ok (), heq, fun _ h => by simp at h, hrebuilds.ledger,
        .rebuilds ⟨hrebuilds.ledger, hrebuilds.replayed⟩⟩

theorem handleWriteFailure_redraws (error : StructuredError) (acceptedPrefix : Nat) :
    Redraws (α := Unit) s (some (s.handleWriteFailure error acceptedPrefix, .ok ())) := by
  refine ⟨_, .ok (), rfl, fun _ h => by simp at h, ?_⟩
  unfold handleWriteFailure
  split
  · exact ⟨rfl, .emits [] (.same rfl rfl rfl rfl)⟩
  · exact ⟨rfl, .emits [] (.same rfl rfl rfl rfl)⟩

/-! ## Runs -/

/-- Every operation on an exact ledger is lawful. -/
theorem perform_lawful (hexact : s.ledger.Exact) (operation : Operation) :
    Lawful s (s.perform operation) := by
  cases operation with
  | admitBlock id mode owner => exact admitBlock_lawful hexact mode owner
  | activateBlock id => exact activateBlock_lawful
  | updateSnapshot id newLines => exact updateSnapshot_lawful hexact newLines
  | streamStablePrefix id stableCount =>
      obtain ⟨s', result, heq, herror, heach, hmoves⟩ :=
        streamStablePrefix_lawful hexact id stableCount
      refine ⟨s', result.map fun _ => (), by simp [perform, heq], fun e he => ?_, heach, hmoves⟩
      cases result with
      | error e' => exact herror e' rfl
      | ok emitted => simp [Except.map] at he
  | finalizeBlock id => exact finalizeBlock_lawful
  | retireBlock id => exact retireBlock_lawful hexact
  | flush => exact flush_lawful hexact
  | refreshViewport =>
      exact Redraws.lawful (.refreshed [] (fits_of_exact hexact) rfl (.nil rfl rfl) rfl
        (by simp) rfl)
  | resize newWidth newHeight policy =>
      exact (resize_redraws hexact newWidth newHeight policy).lawful
  | prepareRebuildReplay targetWidth targetHeight =>
      exact (prepareRebuildReplay_redraws targetWidth targetHeight).lawful
  | executeRebuildReplay => exact (executeRebuildReplay_redraws hexact).lawful
  | handleWriteFailure error acceptedPrefix =>
      exact (handleWriteFailure_redraws error acceptedPrefix).lawful

/-- What one operation leaves. -/
theorem after_lawful (hexact : s.ledger.Exact) (operation : Operation) :
    ∃ result, s.perform operation = some (s.after operation, result) ∧
      (∀ e, result = .error e → s.after operation = s) ∧
      Ledger.Each Slot.Continues s.ledger (s.after operation).ledger ∧
      Moves s (s.after operation) := by
  obtain ⟨s', result, heq, herror, heach, hmoves⟩ := perform_lawful hexact operation
  have hafter : s.after operation = s' := by simp [after, heq]
  exact ⟨result, hafter ▸ heq, hafter ▸ herror, hafter ▸ heach, hafter ▸ hmoves⟩

/-- A move extends the history and keeps the ledger exact. -/
theorem Moves.exact (h : Moves s s') (hexact : s.ledger.Exact) :
    s'.ledger.Exact ∧ s.history <+: s'.history := by
  cases h with
  | emits rows hemits =>
      refine ⟨hemits.steps.exact hexact, ?_⟩
      rw [← ledger_history, ← ledger_history, hemits.steps.history hexact]
      exact prefix_append ..
  | rebuilds hrebuilds =>
      rw [← ledger_history, ← ledger_history, hrebuilds.ledger]
      exact ⟨hexact, prefix_rfl⟩

theorem run_exact (viewportWidth viewportHeight : UInt16) (operations : List Operation) :
    (Machine.run after (new viewportWidth viewportHeight) operations).ledger.Exact :=
  Machine.invariant_run (P := fun s : TranscriptScheduler => s.ledger.Exact)
    (fun _ operation hexact => by
      obtain ⟨_, _, _, _, hmoves⟩ := after_lawful hexact operation
      exact (hmoves.exact hexact).1)
    operations Ledger.exact_nil

/-- The operation changes the size of the screen or replays it. -/
def Operation.isResize : Operation → Bool
  | .resize .. | .prepareRebuildReplay .. | .executeRebuildReplay => true
  | _ => false

/-- Resizing leaves the history. -/
theorem after_history_of_isResize (hexact : s.ledger.Exact) {operation : Operation}
    (h : operation.isResize = true) : (s.after operation).history = s.history := by
  have hredraws : Redraws s (s.perform operation) := by
    cases operation with
    | resize newWidth newHeight policy => exact resize_redraws hexact newWidth newHeight policy
    | prepareRebuildReplay targetWidth targetHeight =>
      exact prepareRebuildReplay_redraws targetWidth targetHeight
    | executeRebuildReplay => exact executeRebuildReplay_redraws hexact
    | _ => simp [Operation.isResize] at h
  obtain ⟨s', result, heq, _, hledger, _⟩ := hredraws
  have hafter : s.after operation = s' := by simp [after, heq]
  rw [hafter, ← ledger_history, ← ledger_history, hledger]

/-- The lines that an append-only live head shows. -/
def headLines (s : TranscriptScheduler) : List String :=
  match s.head with
  | none => []
  | some block =>
    if block.isLive ∧ block.mode = .appendOnly then block.snapshot.take block.emittedPrefix else []

/-- The history of an exact ledger, read off the blocks. -/
theorem history_eq (hexact : s.ledger.Exact) :
    s.history = (s.blocks.take s.commitFrontier).flatMap TranscriptBlock.snapshot ++
      s.headLines := by
  rw [← ledger_history, hexact.history, ledger_frontier, ledger_get, Option.map_map]
  simp only [ledger, ← map_take, flatMap_map]
  refine congrArg₂ (· ++ ·) rfl ?_
  unfold headLines head
  cases s.blocks[s.commitFrontier]? with
  | none => rfl
  | some block =>
      have happend : block.slot.appendOnly = true ↔ block.mode = .appendOnly := by
        simp [TranscriptBlock.slot]
      simp only [Option.map_some, Option.getD_some, Function.comp_apply, Slot.shown,
        TranscriptBlock.isLive_iff, happend]
      rfl

/-- In every run the history is that of the committed blocks and of what the head shows, every
operation extends it at the end, and resizes leave it. -/
theorem run_history (viewportWidth viewportHeight : UInt16) (operations : List Operation) :
    let s := Machine.run after (new viewportWidth viewportHeight) operations
    s.logicalHistory.allLines s.head =
        (s.blocks.take s.commitFrontier).flatMap TranscriptBlock.snapshot ++ s.headLines ∧
      ∀ operation, s.history <+: (s.after operation).history ∧
        (operation.isResize = true → (s.after operation).history = s.history) := by
  intro s
  have hexact : s.ledger.Exact := run_exact viewportWidth viewportHeight operations
  refine ⟨history_eq hexact, fun operation => ⟨?_, after_history_of_isResize hexact⟩⟩
  obtain ⟨_, _, _, _, hmoves⟩ := after_lawful hexact operation
  exact (hmoves.exact hexact).2

end TranscriptScheduler

/-! ## The life of a block over runs -/

/-- The state that follows a state. -/
def BlockState.next : BlockState → Option BlockState
  | .queued => some .active
  | .active => some .finalized
  | .finalized => some .committed
  | .committed => none

theorem BlockState.phase_next (state : BlockState) :
    state.phase.next = state.next.map BlockState.phase := by
  cases state <;> rfl

namespace TranscriptBlock

/-- What one operation may make of a block. -/
structure Continues (block new : TranscriptBlock) : Prop where
  id : new.id = block.id
  mode : new.mode = block.mode
  state : new.state = block.state ∨ block.state.next = some new.state
  frozen : block.state = .finalized ∨ block.state = .committed → new.snapshot = block.snapshot
  grows : block.mode = .appendOnly → block.snapshot <+: new.snapshot

/-- What a block may be at any later time. -/
structure Later (block new : TranscriptBlock) : Prop where
  id : new.id = block.id
  mode : new.mode = block.mode
  state : block.state.phase.rank ≤ new.state.phase.rank
  frozen : block.state = .finalized ∨ block.state = .committed → new.snapshot = block.snapshot
  grows : block.mode = .appendOnly → block.snapshot <+: new.snapshot

theorem mode_eq {block new : TranscriptBlock} (h : new.slot.appendOnly = block.slot.appendOnly) :
    new.mode = block.mode := by
  cases hnew : new.mode <;> cases hblock : block.mode <;> simp [slot, hnew, hblock] at h ⊢

theorem frozen_iff {block : TranscriptBlock} :
    block.slot.phase = .finalized ∨ block.slot.phase = .committed ↔
      block.state = .finalized ∨ block.state = .committed :=
  or_congr (BlockState.phase_inj (b := .finalized)) (BlockState.phase_inj (b := .committed))

/-- What a slot that continues says about its block. -/
theorem Continues.of_slot {block new : TranscriptBlock} (h : block.slot.Continues new.slot) :
    block.Continues new := by
  refine ⟨h.id, mode_eq h.appendOnly, ?_, fun hfrozen => h.frozen (frozen_iff.mpr hfrozen),
    fun happend => h.grows (by simp [slot, happend])⟩
  rcases h.phase with heq | hnext
  · exact .inl (BlockState.phase_inj.mp heq)
  · have hnext' : block.state.phase.next = some new.state.phase := hnext
    rw [BlockState.phase_next, Option.map_eq_some_iff] at hnext'
    obtain ⟨state, hstate, hphase⟩ := hnext'
    exact .inr (hstate.trans (congrArg some (BlockState.phase_inj.mp hphase)))

theorem Later.of_slot {block new : TranscriptBlock} (h : block.slot.Later new.slot) :
    block.Later new :=
  ⟨h.id, mode_eq h.appendOnly, h.phase, fun hfrozen => h.frozen (frozen_iff.mpr hfrozen),
    fun happend => h.grows (by simp [slot, happend])⟩

end TranscriptBlock

namespace TranscriptScheduler

variable {s s' : TranscriptScheduler}

/-- A relation of slots, read off the blocks. -/
theorem blocks_of_each {R : Slot BlockId String → Slot BlockId String → Prop}
    {R' : TranscriptBlock → TranscriptBlock → Prop} (h : Ledger.Each R s.ledger s'.ledger)
    (himp : ∀ block new : TranscriptBlock, R block.slot new.slot → R' block new) (i : Nat)
    (block : TranscriptBlock) (hblock : s.blocks[i]? = some block) :
    ∃ new, s'.blocks[i]? = some new ∧ R' block new := by
  obtain ⟨slot, hslot, hR⟩ := h i block.slot (ledger_get_some hblock)
  rw [ledger_get, Option.map_eq_some_iff] at hslot
  obtain ⟨new, hnew, rfl⟩ := hslot
  exact ⟨new, hnew, himp block new hR⟩

/-- Whatever happens, each slot is a later one afterwards. -/
theorem run_later (hexact : s.ledger.Exact) (operations : List Operation) :
    Ledger.Each Slot.Later s.ledger (Machine.run after s operations).ledger := by
  induction operations generalizing s with
  | nil => exact fun _ slot hslot => ⟨slot, hslot, Std.Refl.refl slot⟩
  | cons operation rest ih =>
      obtain ⟨_, _, _, heach, hmoves⟩ := after_lawful hexact operation
      exact (heach.imp fun _ _ => Slot.Continues.later).trans (ih (hmoves.exact hexact).1)

/-- The rules that the blocks of a scheduler obey. -/
structure Disciplined (s : TranscriptScheduler) : Prop where
  ids : (s.blocks.map TranscriptBlock.id).Nodup
  frontier_le : s.commitFrontier ≤ s.blocks.length
  committed : ∀ (i : Nat) (block : TranscriptBlock), s.blocks[i]? = some block →
    (block.state = .committed ↔ i < s.commitFrontier)
  snapshots : ∀ (i : Nat) (block : TranscriptBlock), s.blocks[i]? = some block →
    i < s.commitFrontier → s.logicalHistory.committedBlocks[i]? = some block.snapshot
  fits : ∀ block ∈ s.blocks, block.emittedPrefix ≤ block.snapshot.length
  shows : ∀ (i : Nat) (block : TranscriptBlock), s.blocks[i]? = some block →
    0 < block.emittedPrefix → i = s.commitFrontier ∧ block.mode = .appendOnly ∧
      (block.state = .active ∨ block.state = .finalized)

/-- The rules of an exact ledger. -/
theorem disciplined_of_exact (hexact : s.ledger.Exact) : s.Disciplined where
  ids := by simpa [ledger, TranscriptBlock.slot, Function.comp_def] using hexact.ids
  frontier_le := by
    have hlength : s.ledger.slots.length = s.blocks.length := by simp [ledger]
    exact hlength ▸ hexact.frontier_le
  committed i block hblock :=
    BlockState.phase_inj.symm.trans (hexact.phase i block.slot (ledger_get_some hblock))
  snapshots i block hblock hi := by
    have hlines : s.logicalHistory.committedBlocks[i]? =
        ((s.ledger.slots.take s.ledger.frontier).map Slot.lines)[i]? :=
      congrArg (·[i]?) hexact.lines
    rw [hlines, getElem?_map, ledger_frontier, getElem?_take_of_lt hi,
      ledger_get_some hblock]
    rfl
  fits := fits_of_exact hexact
  shows i block hblock hpos := by
    obtain ⟨hi, happend, hlive⟩ := hexact.shows i block.slot (ledger_get_some hblock) hpos
    exact ⟨hi, by simpa [TranscriptBlock.slot] using happend,
      hlive.imp BlockState.phase_inj.mp BlockState.phase_inj.mp⟩

/-- In every run the blocks obey the rules, no operation panics, a failed operation leaves the
whole scheduler, and each block lives on by the rules, in one operation and in any number. -/
theorem run_disciplined (viewportWidth viewportHeight : UInt16) (operations : List Operation) :
    let s := Machine.run after (new viewportWidth viewportHeight) operations
    s.Disciplined ∧
      (∀ operation, ∃ result, s.perform operation = some (s.after operation, result) ∧
        (∀ e, result = .error e → s.after operation = s) ∧
        ∀ (i : Nat) (block : TranscriptBlock), s.blocks[i]? = some block →
          ∃ new, (s.after operation).blocks[i]? = some new ∧ block.Continues new) ∧
      ∀ (later : List Operation) (i : Nat) (block : TranscriptBlock), s.blocks[i]? = some block →
        ∃ new, (Machine.run after s later).blocks[i]? = some new ∧ block.Later new := by
  intro s
  have hexact : s.ledger.Exact := run_exact viewportWidth viewportHeight operations
  refine ⟨disciplined_of_exact hexact, fun operation => ?_, fun later => ?_⟩
  · obtain ⟨result, heq, herror, heach, _⟩ := after_lawful hexact operation
    exact ⟨result, heq, herror,
      blocks_of_each heach fun _ _ => TranscriptBlock.Continues.of_slot⟩
  · exact blocks_of_each (run_later hexact later) fun _ _ => TranscriptBlock.Later.of_slot

/-! ## Flushing and stopping -/

/-- In every run `flush` commits the finalized blocks up to the first that is not finalized, and so
all blocks where all of them are. -/
theorem run_flushes (viewportWidth viewportHeight : UInt16) (operations : List Operation) :
    let s := Machine.run after (new viewportWidth viewportHeight) operations
    s.checkOperational = .ok () → ∃ s', s.flush = some (s', .ok ()) ∧ s.history <+: s'.history ∧
      (∀ (i : Nat) (block : TranscriptBlock), s.blocks[i]? = some block → s.commitFrontier ≤ i →
        (i < s'.commitFrontier → block.state = .finalized) ∧
          (i = s'.commitFrontier → block.state ≠ .finalized)) ∧
      ((∀ block ∈ s.blocks.drop s.commitFrontier, block.state = .finalized) →
        s.blocks.length ≤ s'.commitFrontier) := by
  intro s hcheck
  have hexact : s.ledger.Exact := run_exact viewportWidth viewportHeight operations
  obtain ⟨s', rows, hloop, hemits, heach, hdone⟩ := flushLoop_flushes
    (s.blocks.length - s.commitFrontier) hexact hcheck (by
      rw [ledger_frontier]
      simp only [ledger, length_map]
      omega)
  have hexact' : s'.ledger.Exact := hemits.steps.exact hexact
  have hflush : s.flush = some (s', .ok ()) := by
    unfold flush whenOperational
    rw [hcheck]
    exact hloop
  have hcommits : ∀ (i : Nat) (block : TranscriptBlock), s.blocks[i]? = some block →
      s.commitFrontier ≤ i → (i < s'.commitFrontier → block.state = .finalized) ∧
        (i = s'.commitFrontier → block.state ≠ .finalized) := by
    intro i block hblock hi
    obtain ⟨t, ht, hflushed⟩ := heach i block.slot (ledger_get_some hblock)
    have hphase := hexact'.phase i t ht
    rw [ledger_frontier] at hphase
    rcases hflushed with rfl | ⟨hfinal, rfl⟩
    · refine ⟨fun hlt => ?_, ?_⟩
      · have hold := (hexact.phase i block.slot (ledger_get_some hblock)).mp (hphase.mpr hlt)
        exact absurd hold (Nat.not_lt.mpr hi)
      · rintro rfl hstate
        obtain ⟨new, hnew, hslot⟩ := Option.map_eq_some_iff.mp ((ledger_get _).symm.trans ht)
        refine hdone new hnew (BlockState.phase_inj.mp ?_)
        exact (congrArg Slot.phase hslot).trans (congrArg BlockState.phase hstate)
    · exact ⟨fun _ => BlockState.phase_inj.mp hfinal,
        fun heq => absurd (hphase.mp rfl) (by omega)⟩
  refine ⟨s', hflush, ((Moves.emits rows hemits).exact hexact).2, hcommits, fun hall => ?_⟩
  by_contra hlt
  obtain ⟨block, hget⟩ : ∃ block, s.blocks[s'.commitFrontier]? = some block :=
    ⟨_, getElem?_eq_getElem (Nat.not_le.mp hlt)⟩
  by_cases hle : s.commitFrontier ≤ s'.commitFrontier
  · refine (hcommits _ _ hget hle).2 rfl (hall _ ?_)
    rw [← Nat.add_sub_cancel' hle, ← getElem?_drop] at hget
    exact mem_of_getElem? hget
  · -- a committed block stays committed
    obtain ⟨t, ht, hflushed⟩ := heach _ _ (ledger_get_some hget)
    have hold := (hexact.phase _ _ (ledger_get_some hget)).mpr (Nat.not_le.mp hle)
    rcases hflushed with rfl | ⟨hfinal, rfl⟩
    · exact Nat.lt_irrefl _ ((hexact'.phase _ _ ht).mp hold)
    · rw [hfinal] at hold
      cases hold

/-- A finalized block is flushed. -/
theorem run_flushes_one :
    let s := Machine.run after (new 80 24)
      [.admitBlock ⟨"a"⟩ .mutable "omp", .activateBlock ⟨"a"⟩, .finalizeBlock ⟨"a"⟩]
    ∃ s', s.flush = some (s', .ok ()) ∧ s.blocks.length ≤ s'.commitFrontier := by
  obtain ⟨s', hflush, -, -, hall⟩ := run_flushes 80 24
    [.admitBlock ⟨"a"⟩ .mutable "omp", .activateBlock ⟨"a"⟩, .finalizeBlock ⟨"a"⟩] rfl
  exact ⟨s', hflush, hall (by decide)⟩

/-- A write failure stops the scheduler: it keeps the history and the scrollback, and no operation
changes anything any more. -/
theorem after_handleWriteFailure_stops (s : TranscriptScheduler) (error : StructuredError)
    (acceptedPrefix : Nat) (operations : List Operation) :
    let s' := s.after (.handleWriteFailure error acceptedPrefix)
    s'.history = s.history ∧ s'.nativeScrollback = s.nativeScrollback ∧
      Machine.run after s' operations = s' := by
  intro s'
  have hsame : s'.failStopped = true ∧ s'.history = s.history ∧
      s'.nativeScrollback = s.nativeScrollback := by
    show (s.handleWriteFailure error acceptedPrefix).failStopped = true ∧
      (s.handleWriteFailure error acceptedPrefix).history = s.history ∧
      (s.handleWriteFailure error acceptedPrefix).nativeScrollback = s.nativeScrollback
    unfold handleWriteFailure
    split
    · next hstopped => exact ⟨hstopped, rfl, rfl⟩
    · exact ⟨rfl, rfl, rfl⟩
  obtain ⟨hstopped, hhistory, hscrollback⟩ := hsame
  have hcheck : ∃ e, s'.checkNotFailStopped = .error e ∧ s'.checkOperational = .error e := by
    unfold checkOperational checkNotFailStopped
    rw [if_pos hstopped]
    exact ⟨_, rfl, rfl⟩
  obtain ⟨e, hcheck, hclosed⟩ := hcheck
  have hstep : ∀ operation, s'.after operation = s' := by
    intro operation
    cases operation with
    | refreshViewport => simp [after, perform, refreshed, refreshViewport, hstopped]
    | handleWriteFailure error accepted => simp [after, perform, handleWriteFailure, hstopped]
    | executeRebuildReplay => simp [after, perform, executeRebuildReplay, hcheck]
    | _ =>
      simp [after, perform, admitBlock, activateBlock, updateSnapshot, streamStablePrefix,
        finalizeBlock, retireBlock, flush, resize, prepareRebuildReplay, whenOperational, hclosed]
  refine ⟨hhistory, hscrollback, ?_⟩
  induction operations with
  | nil => rfl
  | cons operation rest ih => rw [Machine.run_cons, hstep, ih]

end TranscriptScheduler

end Omp2.Render
