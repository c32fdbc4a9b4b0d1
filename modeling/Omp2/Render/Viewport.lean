import Omp2.Render.Emission
import Omp2.Render.Truncation

/-!
# The viewport

After every operation the viewport is laid out: the summary row if there is one, the last rows of
the scrollback, and for each block exactly the rows that are reserved for it, which show none of
the lines that it has emitted. The reservations and what stands above them share the height, and
every row is cut to the width. A write failure clears the viewport for good.
-/

namespace Omp2.Render

open List

/-! ## Rows -/

namespace NativeRow

/-- The row is as wide as its text. -/
def Measured (row : NativeRow) : Prop :=
  row.width = strVisibleWidth row.text

theorem summary_measured (text : String) (epoch : Nat) (source : NativeSource) :
    ((NativeRow.summary text epoch).withSource source).Measured :=
  rfl

/-- Cutting a row measures it, and leaves it no wider than the viewport. -/
theorem clip_measured {row : NativeRow} (h : row.Measured) (width : Nat) :
    (row.clip width).Measured ∧ (0 < width → (row.clip width).width ≤ width) := by
  by_cases hwide : 0 < width ∧ width < row.width
  · rw [clip, if_pos hwide]
    have hwidth := RichText.truncateWidth_plain row.text width
    generalize ((RichText.fromPlain row.text).truncateWidth width none).plainText = text
      at hwidth ⊢
    exact ⟨rfl, fun _ => hwidth⟩
  · rw [clip, if_neg hwide]
    exact ⟨h, fun hpos => Nat.not_lt.mp fun hlt => hwide ⟨hpos, hlt⟩⟩

theorem clip_isSummary (row : NativeRow) (width : Nat) :
    (row.clip width).isSummary = row.isSummary := by
  unfold clip
  split <;> rfl

end NativeRow

namespace TranscriptBlock

theorem rows_measured {block : TranscriptBlock} {source : NativeSource} {epoch : Nat}
    {lines : List String} {row : NativeRow} (h : row ∈ block.rows source epoch lines) :
    row.Measured ∧ row.isSummary = false := by
  obtain ⟨line, _, rfl⟩ := mem_map.mp h
  exact ⟨rfl, rfl⟩

/-- What a block shows in the viewport: as many rows as are reserved for it, first its lines from
some line on that has not been emitted, and then blank ones. -/
structure Paints (epoch : Nat) (block : TranscriptBlock) (rows : List NativeRow) : Prop where
  length : rows.length = block.reservedRows
  lines : ∃ start blank, block.emittedPrefix ≤ start ∧
    rows = block.rows .append epoch (block.snapshot.drop start ++ List.replicate blank "")

theorem paints_nil {epoch : Nat} {block : TranscriptBlock} (hrows : block.reservedRows = 0)
    (hfits : block.emittedPrefix ≤ block.snapshot.length) : block.Paints epoch [] :=
  ⟨hrows.symm, block.snapshot.length, 0, hfits, by simp [rows]⟩

theorem Paints.state {epoch : Nat} {block : TranscriptBlock} {rows : List NativeRow}
    (h : block.Paints epoch rows) (state : BlockState) :
    ({ block with state } : TranscriptBlock).Paints epoch rows :=
  ⟨h.length, h.lines⟩

end TranscriptBlock

namespace TranscriptScheduler

open Omp2.Slots

variable {s s' : TranscriptScheduler} {block : TranscriptBlock} {id : BlockId}

/-- The viewport is a heading, the end of the scrollback, and what the blocks show. -/
structure Layout (s : TranscriptScheduler) (heading tail : List NativeRow)
    (slots : List (List NativeRow)) : Prop where
  summary : heading = [] ∨ heading = [.summary "[earlier output hidden]" s.displayEpoch]
  history : tail <:+ s.nativeScrollback
  paints : List.Forall₂ (TranscriptBlock.Paints s.displayEpoch) s.blocks slots
  viewport : s.nativeViewport =
    (heading ++ tail ++ slots.flatten).map (NativeRow.clip s.viewportWidth.toNat)

/-- The viewport fits into its height and width: the rows that are reserved and the summaries
share the height, and so do all rows, none of which is wider than the viewport. It is laid out
until a write failure clears it. -/
structure Fitted (s : TranscriptScheduler) : Prop where
  scrollback : ∀ row ∈ s.nativeScrollback, row.Measured
  capacity : (s.blocks.map TranscriptBlock.reservedRows).sum +
    (s.nativeViewport.filter NativeRow.isSummary).length ≤ s.viewportHeight.toNat
  height : s.nativeViewport.length ≤ s.viewportHeight.toNat
  width : ∀ row ∈ s.nativeViewport, row.Measured ∧
    (0 < s.viewportWidth.toNat → row.width ≤ s.viewportWidth.toNat)
  layout : s.failStopped = false → ∃ heading tail slots, s.Layout heading tail slots
  cleared : s.failStopped = true → s.nativeViewport = []

/-! ## Laying out -/

theorem paints_length {epoch : Nat} {blocks : List TranscriptBlock}
    {slots : List (List NativeRow)} (h : List.Forall₂ (TranscriptBlock.Paints epoch) blocks slots) :
    slots.flatten.length = (blocks.map TranscriptBlock.reservedRows).sum := by
  induction h with
  | nil => rfl
  | cons hpaints _ ih =>
      rw [flatten_cons, length_append, hpaints.length, ih, map_cons, sum_cons]

/-- The rows that blocks show are measured, and none is a summary. -/
theorem paints_measured {epoch : Nat} {blocks : List TranscriptBlock}
    {slots : List (List NativeRow)} (h : List.Forall₂ (TranscriptBlock.Paints epoch) blocks slots)
    {row : NativeRow} (hrow : row ∈ slots.flatten) : row.Measured ∧ row.isSummary = false := by
  induction h with
  | nil => simp at hrow
  | cons hpaints _ ih =>
      rw [flatten_cons] at hrow
      rcases mem_append.mp hrow with hrow | hrow
      · obtain ⟨start, blank, _, rfl⟩ := hpaints.lines
        exact TranscriptBlock.rows_measured hrow
      · exact ih hrow

/-- A layout that is not too high fits. -/
theorem Layout.fitted {heading tail : List NativeRow} {slots : List (List NativeRow)}
    (h : s.Layout heading tail slots) (hstopped : s.failStopped = false)
    (hmeasured : ∀ row ∈ s.nativeScrollback, row.Measured)
    (hheight : s.nativeViewport.length ≤ s.viewportHeight.toNat) : s.Fitted := by
  refine ⟨hmeasured, ?_, hheight, fun row hrow => ?_, fun _ => ⟨heading, tail, slots, h⟩, ?_⟩
  · -- the summaries stand above what the blocks show
    have hslots : ((slots.flatten.map (NativeRow.clip s.viewportWidth.toNat)).filter
        NativeRow.isSummary) = [] := by
      rw [filter_eq_nil_iff]
      intro row hrow
      obtain ⟨whole, hwhole, rfl⟩ := mem_map.mp hrow
      rw [NativeRow.clip_isSummary, (paints_measured h.paints hwhole).2]
      simp
    have hlength := paints_length h.paints
    rw [h.viewport, length_map, length_append] at hheight
    rw [h.viewport, map_append, filter_append, hslots, append_nil]
    have habove := length_filter_le NativeRow.isSummary
      ((heading ++ tail).map (NativeRow.clip s.viewportWidth.toNat))
    rw [length_map] at habove
    omega
  · rw [h.viewport] at hrow
    obtain ⟨whole, hwhole, rfl⟩ := mem_map.mp hrow
    refine NativeRow.clip_measured ?_ _
    rcases mem_append.mp hwhole with habove | hslot
    · rcases mem_append.mp habove with hheading | htail
      · rcases h.summary with rfl | rfl
        · simp at hheading
        · rw [mem_singleton.mp hheading]
          rfl
      · exact hmeasured whole (h.history.subset htail)
    · exact (paints_measured h.paints hslot).1
  · simp [hstopped]

/-- The reservations are paid from the rows that there are. -/
theorem reserve_sum (rows : Nat) (blocks : List TranscriptBlock) :
    ((reserve rows blocks).1.map TranscriptBlock.reservedRows).sum + (reserve rows blocks).2 =
      rows := by
  induction blocks with
  | nil => simp [reserve]
  | cons block rest ih =>
      simp only [reserve, map_cons, sum_cons]
      generalize reserve rows rest = reserved at ih ⊢
      split
      · have := Nat.min_le_right (requestedRows block) reserved.2
        omega
      · omega

/-- Only an append-only block has emitted lines. -/
def Streams (blocks : List TranscriptBlock) : Prop :=
  ∀ block ∈ blocks, block.emittedPrefix ≤ block.snapshot.length ∧
    (block.mode ≠ .appendOnly → block.emittedPrefix = 0)

theorem streams_of_exact (h : s.ledger.Exact) : Streams s.blocks := by
  refine fun block hblock => ⟨fits_of_exact h block hblock, fun hmode => ?_⟩
  obtain ⟨i, hi⟩ := mem_iff_getElem?.mp hblock
  by_contra hpos
  obtain ⟨_, happend, _⟩ := h.shows i block.slot (ledger_get_some hi) (Nat.pos_of_ne_zero hpos)
  exact hmode (by simpa [TranscriptBlock.slot] using happend)

/-- What is painted of a block is what it shows. -/
theorem paint_paints {epoch : Nat} {rows : List NativeRow}
    (hfits : block.emittedPrefix ≤ block.snapshot.length)
    (hmode : block.mode ≠ .appendOnly → block.emittedPrefix = 0)
    (h : paint epoch block = some rows) : block.Paints epoch rows := by
  unfold paint at h
  split at h
  · next hzero =>
    cases h
    exact TranscriptBlock.paints_nil hzero hfits
  · dsimp only at h
    generalize hstart : max _ (block.snapshot.length - block.reservedRows) = start at h
    have hstable : block.emittedPrefix ≤ start := by
      subst hstart
      split
      · exact Nat.le_max_left ..
      · next hmutable => simp [hmode hmutable]
    have hlast : start ≤ block.snapshot.length := by
      subst hstart
      split <;> omega
    have hroom : block.snapshot.length - start ≤ block.reservedRows := by omega
    rw [slice_eq hlast (Nat.le_refl _), take_length, Option.map_some, Option.some.injEq] at h
    subst h
    refine ⟨?_, start, _, hstable, rfl⟩
    simp only [TranscriptBlock.rows, length_map, length_append, length_drop,
      length_replicate]
    omega

/-- What is painted of the blocks is what they show, one after the other. -/
theorem paintAll_paints {epoch : Nat} {blocks : List TranscriptBlock} {rows : List NativeRow}
    (hstreams : Streams blocks) (h : paintAll epoch blocks = some rows) :
    ∃ slots : List (List NativeRow),
      List.Forall₂ (TranscriptBlock.Paints epoch) blocks slots ∧ rows = slots.flatten := by
  induction blocks generalizing rows with
  | nil =>
      cases h
      exact ⟨[], .nil, rfl⟩
  | cons block rest ih =>
      simp only [paintAll, Option.bind_eq_bind, Option.bind_eq_some_iff, Option.some.injEq] at h
      obtain ⟨first, hfirst, others, hothers, rfl⟩ := h
      obtain ⟨hfits, hmode⟩ := hstreams block (mem_cons_self ..)
      obtain ⟨slots, hslots, rfl⟩ := ih (fun b hb => hstreams b (mem_cons_of_mem _ hb)) hothers
      exact ⟨first :: slots, .cons (paint_paints hfits hmode hfirst) hslots, rfl⟩

/-- Blocks without reservations show nothing. -/
theorem paints_of_sum {epoch : Nat} {blocks : List TranscriptBlock} (hstreams : Streams blocks)
    (hsum : (blocks.map TranscriptBlock.reservedRows).sum = 0) :
    List.Forall₂ (TranscriptBlock.Paints epoch) blocks (blocks.map fun _ => []) := by
  induction blocks with
  | nil => exact .nil
  | cons block rest ih =>
      simp only [map_cons, sum_cons] at hsum
      refine .cons (TranscriptBlock.paints_nil (by omega)
        (hstreams block (mem_cons_self ..)).1) ?_
      exact ih (fun b hb => hstreams b (mem_cons_of_mem _ hb)) (by omega)

/-- Refreshing the viewport lays it out. -/
theorem refreshViewport_fitted (hfitted : s.failStopped = true → s.Fitted)
    (hmeasured : ∀ row ∈ s.nativeScrollback, row.Measured) (h : s.refreshViewport = some s')
    (hexact : s'.ledger.Exact) : s'.Fitted := by
  unfold refreshViewport at h
  split at h
  · next hstopped =>
    cases h
    exact hfitted hstopped
  · next hstopped =>
    have hstopped : s.failStopped = false := by simpa using hstopped
    dsimp only at h
    generalize hsummary : (if s.viewportHeight.toNat < _ ∧ 1 < s.viewportHeight.toNat then 1
      else 0) = summary at h
    have hroom : summary ≤ s.viewportHeight.toNat := by
      rw [← hsummary]
      split
      · next hhidden => exact Nat.le_of_lt hhidden.2
      · exact Nat.zero_le _
    have hsum := reserve_sum (s.viewportHeight.toNat - summary) s.blocks
    generalize reserve _ s.blocks = reserved at h hsum
    obtain ⟨blocks, remaining⟩ := reserved
    dsimp only at h hsum
    split at h
    · next hheight =>
      -- without any height nothing is reserved
      cases h
      have hslots := @paints_of_sum s.displayEpoch _ (streams_of_exact hexact)
        (show (blocks.map TranscriptBlock.reservedRows).sum = 0 by omega)
      have hlayout : Layout { s with blocks, nativeViewport := [] } [] []
          (blocks.map fun _ => []) :=
        ⟨.inl rfl, nil_suffix, hslots, by simp⟩
      exact hlayout.fitted hstopped hmeasured (Nat.zero_le _)
    · next hheight =>
      rw [slice_eq (Nat.sub_le ..) (Nat.le_refl _), take_length] at h
      simp only [Option.bind_eq_bind, Option.bind_some, Option.bind_eq_some_iff,
        Option.some.injEq] at h
      obtain ⟨painted, hpainted, rfl⟩ := h
      obtain ⟨slots, hslots, rfl⟩ := paintAll_paints (streams_of_exact hexact) hpainted
      have hslotted : slots.flatten.length = (blocks.map TranscriptBlock.reservedRows).sum :=
        paints_length hslots
      generalize hheading : (if summary = 0 then []
        else [NativeRow.summary "[earlier output hidden]" s.displayEpoch]) = heading
      have hlength : heading.length ≤ summary := by
        rw [← hheading]
        split
        · exact Nat.zero_le _
        · next hpos => exact Nat.pos_of_ne_zero hpos
      have hlayout : Layout { s with
          blocks
          nativeViewport := (heading ++ s.nativeScrollback.drop
            (s.nativeScrollback.length - remaining) ++ slots.flatten).map
            (NativeRow.clip s.viewportWidth.toNat) } heading _ slots :=
        ⟨by subst hheading; split <;> simp, drop_suffix .., hslots, rfl⟩
      refine hlayout.fitted hstopped hmeasured ?_
      -- the blocks take what they reserve, and the scrollback what is left
      simp only [length_map, length_append, length_drop, hslotted]
      omega

/-! ## Operations -/

/-- Whatever an operation leaves fits. -/
def Settles {α : Type} (outcome : Outcome α) : Prop :=
  ∀ s' result, outcome = some (s', result) → s'.ledger.Exact → s'.Fitted

theorem Fitted.settles {α : Type} (h : s.Fitted) (result : Except TranscriptError α) :
    Settles (some (s, result)) := by
  intro s' result' heq _
  cases heq
  exact h

theorem Settles.whenOperational {α : Type} {k : Outcome α} (hfitted : s.Fitted)
    (h : s.checkOperational = .ok () → Settles k) : Settles (s.whenOperational k) := by
  unfold TranscriptScheduler.whenOperational
  cases hcheck : s.checkOperational with
  | error e => exact hfitted.settles _
  | ok => exact h hcheck

theorem Settles.onBlock {α : Type} {k : Nat → TranscriptBlock → Outcome α} (hfitted : s.Fitted)
    (h : ∀ i block, s.blocks[i]? = some block → block.id = id → Settles (k i block)) :
    Settles (s.onBlock id k) := by
  unfold TranscriptScheduler.onBlock
  cases hlocate : s.locate id with
  | none => exact hfitted.settles _
  | some found => exact h found.1 found.2 (locate_some hlocate).1 (locate_some hlocate).2

theorem Settles.refreshed {α : Type} {answer : α} (hfitted : s.failStopped = true → s.Fitted)
    (hmeasured : ∀ row ∈ s.nativeScrollback, row.Measured) : Settles (s.refreshed answer) := by
  intro s' result heq hexact
  simp only [TranscriptScheduler.refreshed, Option.map_eq_some_iff, Prod.mk.injEq] at heq
  obtain ⟨painted, hpainted, rfl, _⟩ := heq
  exact refreshViewport_fitted hfitted hmeasured hpainted hexact

theorem failStopped_of_operational (hcheck : s.checkOperational = .ok ()) :
    s.failStopped = false := by
  have hrunning := not_failStopped hcheck
  cases hstopped : s.failStopped with
  | false => rfl
  | true => simp [checkNotFailStopped, hstopped] at hrunning

theorem Fitted.gate (h : s.Fitted) (replayGate : ReplayGateState) :
    ({ s with replayGate } : TranscriptScheduler).Fitted := by
  refine ⟨h.scrollback, h.capacity, h.height, h.width, fun hstopped => ?_, h.cleared⟩
  obtain ⟨heading, tail, slots, hlayout⟩ := h.layout hstopped
  exact ⟨heading, tail, slots, hlayout.summary, hlayout.history, hlayout.paints,
    hlayout.viewport⟩

/-- Other blocks that show the same rows fit as well. -/
theorem Fitted.blocks (h : s.Fitted) (hcheck : s.checkOperational = .ok ())
    {blocks : List TranscriptBlock}
    (hpaints : ∀ slots, List.Forall₂ (TranscriptBlock.Paints s.displayEpoch) s.blocks slots →
      ∃ slots', List.Forall₂ (TranscriptBlock.Paints s.displayEpoch) blocks slots' ∧
        slots'.flatten = slots.flatten) : ({ s with blocks } : TranscriptScheduler).Fitted := by
  have hstopped := failStopped_of_operational hcheck
  obtain ⟨heading, tail, slots, hlayout⟩ := h.layout hstopped
  obtain ⟨slots', hslots, hflatten⟩ := hpaints slots hlayout.paints
  have hlayout' : Layout { s with blocks } heading tail slots' :=
    ⟨hlayout.summary, hlayout.history, hslots, by rw [hflatten]; exact hlayout.viewport⟩
  exact hlayout'.fitted hstopped h.scrollback h.height

/-- A block in another state shows the same rows. -/
theorem paints_set {epoch : Nat} {blocks : List TranscriptBlock} {slots : List (List NativeRow)}
    (h : List.Forall₂ (TranscriptBlock.Paints epoch) blocks slots) {i : Nat}
    (hblock : blocks[i]? = some block) (state : BlockState) :
    List.Forall₂ (TranscriptBlock.Paints epoch) (blocks.set i { block with state }) slots := by
  induction h generalizing i with
  | nil => simp at hblock
  | cons hpaints hrest ih =>
      cases i with
      | zero =>
        simp only [getElem?_cons_zero, Option.some.injEq] at hblock
        subst hblock
        exact .cons (hpaints.state state) hrest
      | succ i =>
        simp only [getElem?_cons_succ] at hblock
        exact .cons hpaints (ih hblock)

/-- `admit_block`. -/
theorem admitBlock_settles (h : s.Fitted) (mode : BlockMode) (owner : String) :
    Settles (s.admitBlock id mode owner) := by
  refine .whenOperational h fun hcheck => ?_
  split
  · exact h.settles _
  · split
    · exact h.settles _
    · refine (h.blocks hcheck fun slots hslots => ⟨slots ++ [[]], ?_, by simp⟩).settles _
      have hnew : (TranscriptBlock.new id mode owner).Paints s.displayEpoch [] :=
        TranscriptBlock.paints_nil rfl (Nat.zero_le _)
      exact rel_append hslots (.cons hnew .nil)

theorem activateBlock_settles (h : s.Fitted) : Settles (s.activateBlock id) := by
  refine .whenOperational h fun hcheck => .onBlock h fun i block hblock _ => ?_
  split
  · exact h.settles _
  · exact (h.blocks hcheck fun slots hslots =>
      ⟨slots, paints_set hslots hblock .active, rfl⟩).settles _

theorem finalizeBlock_settles (h : s.Fitted) : Settles (s.finalizeBlock id) := by
  refine .whenOperational h fun hcheck => .onBlock h fun i block hblock _ => ?_
  split
  · exact h.settles _
  · exact (h.blocks hcheck fun slots hslots =>
      ⟨slots, paints_set hslots hblock .finalized, rfl⟩).settles _

/-- `update_snapshot`. -/
theorem updateSnapshot_settles (h : s.Fitted) (newLines : List String) :
    Settles (s.updateSnapshot id newLines) := by
  refine .whenOperational h fun hcheck => .onBlock h fun i block hblock hid => ?_
  split
  · exact h.settles _
  · split
    · exact h.settles _
    · have hstopped := failStopped_of_operational hcheck
      obtain ⟨hlt, _⟩ := List.getElem?_eq_some_iff.mp hblock
      have hmem : { block with snapshot := newLines } ∈
          (s.setBlock i { block with snapshot := newLines }).blocks := List.mem_set hlt _
      obtain ⟨j, found, hlocate⟩ := locate_isSome hmem hid
      unfold applyElasticReservation TranscriptScheduler.onBlock
      rw [hlocate]
      exact .refreshed (fun hstop => absurd hstop (by simp [setBlock, hstopped])) h.scrollback

theorem Settles.bind {α β : Type} {found : Option β} {k : β → Outcome α}
    (h : ∀ x, found = some x → Settles (k x)) : Settles (found.bind k) := by
  intro s' result heq
  obtain ⟨x, hx, heq⟩ := Option.bind_eq_some_iff.mp heq
  exact h x hx s' result heq

/-- The scrollback stays measured when measured rows are pushed. -/
theorem measured_pushRows (h : ∀ row ∈ s.nativeScrollback, row.Measured) {rows : List NativeRow}
    (hrows : ∀ row ∈ rows, row.Measured) :
    ∀ row ∈ (s.pushRows rows).nativeScrollback, row.Measured := by
  intro row hrow
  obtain ⟨evicted, _, hscrollback, _⟩ := (pushRows_pushed (s := s) rows).scrollback
  rw [hscrollback] at hrow
  rcases mem_append.mp (mem_of_mem_drop hrow) with hrow | hrow
  · exact h row hrow
  · exact hrows row hrow

/-- Refreshing the viewport after measured rows were pushed. -/
theorem Settles.pushed {α : Type} {answer : α} (h : s.Fitted)
    (hcheck : s.checkOperational = .ok ()) (rows : List NativeRow)
    (hrows : ∀ row ∈ rows, row.Measured)
    (hscrollback : s'.nativeScrollback = (s.pushRows rows).nativeScrollback)
    (hstopped : s'.failStopped = (s.pushRows rows).failStopped) :
    Settles (s'.refreshed answer) := by
  refine .refreshed (fun hstop => ?_) (hscrollback ▸ measured_pushRows h.scrollback hrows)
  obtain ⟨_, _, hpush⟩ := pushRows_eq (s := s) rows
  rw [hstopped, hpush] at hstop
  exact absurd hstop (by simp [failStopped_of_operational hcheck])

/-- `stream_stable_prefix`. -/
theorem streamStablePrefix_settles (h : s.Fitted) (stableCount : Nat) :
    Settles (s.streamStablePrefix id stableCount) := by
  refine .whenOperational h fun hcheck => .onBlock h fun i block _ _ => ?_
  split
  · exact h.settles _
  · split
    · exact h.settles _
    · split
      · exact h.settles _
      · refine .bind fun lines _ => ?_
        exact .pushed h hcheck (block.rows .append s.displayEpoch lines)
          (fun row hrow => (TranscriptBlock.rows_measured hrow).1) rfl rfl

theorem retireBlock_settles (h : s.Fitted) : Settles (s.retireBlock id) := by
  refine .whenOperational h fun hcheck => .onBlock h fun i block _ _ => ?_
  split
  · exact h.settles _
  · split
    · exact h.settles _
    · refine .bind fun lines _ => ?_
      exact .pushed h hcheck (block.rows .retire s.displayEpoch lines)
        (fun row hrow => (TranscriptBlock.rows_measured hrow).1) rfl rfl

/-- The loop of `flush`. -/
theorem flushLoop_settles (fuel : Nat) (hexact : s.ledger.Exact) (h : s.Fitted) :
    Settles (flushLoop fuel s) := by
  induction fuel generalizing s with
  | zero => exact h.settles _
  | succ fuel ih =>
      unfold flushLoop
      split
      · exact h.settles _
      · next block _ =>
        split
        · exact h.settles _
        · -- a block is retired, and the loop goes on from what that leaves
          obtain ⟨next, result, heq, _, _, hmoves⟩ :=
            @retireBlock_lawful s block.id hexact
          have hexact' := (hmoves.exact hexact).1
          have hnext : next.Fitted := retireBlock_settles h next result heq hexact'
          rw [heq]
          cases result with
          | ok => exact ih hexact' hnext
          | error e => exact hnext.settles _

/-- The rows of a replay are measured. -/
theorem replayRows_measured {epoch frontier index : Nat} {blocks : List TranscriptBlock}
    {rows : List NativeRow} (h : replayRows epoch frontier index blocks = some rows) :
    ∀ row ∈ rows, row.Measured := by
  induction blocks generalizing index rows with
  | nil =>
      cases h
      simp
  | cons block rest ih =>
      simp only [replayRows, Option.bind_eq_bind, Option.bind_eq_some_iff, Option.some.injEq] at h
      obtain ⟨lines, _, others, hothers, rfl⟩ := h
      intro row hrow
      rcases mem_append.mp hrow with hrow | hrow
      · exact (TranscriptBlock.rows_measured hrow).1
      · exact ih hothers row hrow

/-- `execute_rebuild_replay`. -/
theorem executeRebuildReplay_settles (h : s.Fitted) : Settles s.executeRebuildReplay := by
  unfold executeRebuildReplay
  split
  · exact h.settles _
  · next hcheck =>
    have hstopped : s.failStopped = false := by
      cases hstopped : s.failStopped with
      | false => rfl
      | true => simp [checkNotFailStopped, hstopped] at hcheck
    split
    · intro s' result heq hexact
      obtain ⟨rows, hrows, heq⟩ := Option.bind_eq_some_iff.mp heq
      obtain ⟨painted, hpainted, heq⟩ := Option.map_eq_some_iff.mp heq
      cases heq
      refine Fitted.gate (refreshViewport_fitted (fun hstop => ?_) ?_ hpainted hexact) _
      · exact absurd hstop (by simp [hstopped])
      · exact fun row hrow => replayRows_measured hrows row (mem_of_mem_drop hrow)
    · exact h.settles _

theorem prepareRebuildReplay_settles (h : s.Fitted) (targetWidth targetHeight : UInt16) :
    Settles (s.prepareRebuildReplay targetWidth targetHeight) :=
  .whenOperational h fun _ => (h.gate _).settles _

/-- `resize`. -/
theorem resize_settles (h : s.Fitted) (newWidth newHeight : UInt16) (policy : ResizePolicy) :
    Settles (s.resize newWidth newHeight policy) := by
  refine .whenOperational h fun hcheck => ?_
  cases policy with
  | preserve => exact .pushed h hcheck [] (by simp) rfl rfl
  | append =>
      dsimp only
      generalize hrow : (NativeRow.summary _ _).withSource .resize = row
      have hmeasured : row.Measured := hrow ▸ NativeRow.summary_measured ..
      have hpush : s.pushScrollback row = s.pushRows [row] := rfl
      rw [hpush]
      exact .pushed h hcheck [row] (by simpa using hmeasured) rfl rfl
  | rebuild =>
      -- preparing succeeds
      have hprepare : s.prepareRebuildReplay newWidth newHeight = some
          ({ s with replayGate := .preparingReplay (s.displayEpoch + 1) newWidth newHeight },
            .ok ()) := by
        simp [prepareRebuildReplay, TranscriptScheduler.whenOperational, hcheck]
      dsimp only
      rw [hprepare]
      exact executeRebuildReplay_settles (h.gate _)

theorem handleWriteFailure_fitted (h : s.Fitted) (error : StructuredError)
    (acceptedPrefix : Nat) : (s.handleWriteFailure error acceptedPrefix).Fitted := by
  unfold handleWriteFailure
  split
  · exact h
  · refine ⟨h.scrollback, ?_, Nat.zero_le _, by simp, by simp, fun _ => rfl⟩
    have hcapacity := h.capacity
    dsimp only
    simp only [filter_nil, length_nil]
    omega

/-- What one operation leaves fits. -/
theorem perform_settles (hexact : s.ledger.Exact) (h : s.Fitted) (operation : Operation) :
    Settles (s.perform operation) := by
  cases operation with
  | admitBlock id mode owner => exact admitBlock_settles h mode owner
  | activateBlock id => exact activateBlock_settles h
  | updateSnapshot id newLines => exact updateSnapshot_settles h newLines
  | streamStablePrefix id stableCount =>
      intro s' result heq
      obtain ⟨⟨left, answer⟩, hstream, heq⟩ := Option.map_eq_some_iff.mp heq
      cases heq
      exact streamStablePrefix_settles h stableCount _ answer hstream
  | finalizeBlock id => exact finalizeBlock_settles h
  | retireBlock id => exact retireBlock_settles h
  | flush => exact .whenOperational h fun _ => flushLoop_settles _ hexact h
  | refreshViewport => exact .refreshed (fun _ => h) h.scrollback
  | resize newWidth newHeight policy => exact resize_settles h newWidth newHeight policy
  | prepareRebuildReplay targetWidth targetHeight =>
      exact prepareRebuildReplay_settles h targetWidth targetHeight
  | executeRebuildReplay => exact executeRebuildReplay_settles h
  | handleWriteFailure error acceptedPrefix =>
      exact (handleWriteFailure_fitted h error acceptedPrefix).settles _

theorem new_fitted (viewportWidth viewportHeight : UInt16) :
    (new viewportWidth viewportHeight).Fitted :=
  ⟨by simp [new], Nat.zero_le _, Nat.zero_le _, by simp [new],
    fun _ => ⟨[], [], [], .inl rfl, nil_suffix, .nil, rfl⟩, fun _ => rfl⟩

/-- In every run the viewport fits after every operation. -/
theorem run_fitted (viewportWidth viewportHeight : UInt16) (operations : List Operation) :
    (Machine.run after (new viewportWidth viewportHeight) operations).Fitted := by
  refine (Machine.invariant_run (P := fun s : TranscriptScheduler => s.ledger.Exact ∧ s.Fitted)
    (fun s operation h => ?_) operations
    ⟨Ledger.exact_nil, new_fitted viewportWidth viewportHeight⟩).2
  obtain ⟨result, heq, _, _, hmoves⟩ := after_lawful h.1 operation
  have hexact := (hmoves.exact h.1).1
  exact ⟨hexact, perform_settles h.1 h.2 operation _ result heq hexact⟩

end TranscriptScheduler

end Omp2.Render
