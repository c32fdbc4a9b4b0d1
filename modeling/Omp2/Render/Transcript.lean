import Omp2.Types.Ids
import Omp2.Render.RichText

/-!
# The transcript scheduler

The state and the operations of `omp-render/src/transcript.rs`. Blocks are admitted, filled,
finalized and retired in the order of their admission; their lines go to the logical history and,
as rows, to the native scrollback, which a rebuild replays from the blocks. An operation leaves a
state and answers with a result; it has no outcome when a slice is out of range, where the source
panics. Sizes and epochs are natural numbers.
-/

namespace Omp2.Render

/-- `BlockId`. -/
structure BlockId where
  value : String
deriving DecidableEq, Repr

/-- `BlockMode`. -/
inductive BlockMode where
  | mutable | appendOnly
deriving DecidableEq, Repr

/-- `BlockState`. -/
inductive BlockState where
  | queued | active | finalized | committed
deriving DecidableEq, Repr

/-- `TranscriptBlock`. -/
structure TranscriptBlock where
  id : BlockId
  mode : BlockMode
  state : BlockState
  owner : String
  snapshot : List String
  emittedPrefix : Nat
  reservedRows : Nat
  lastRenderedHeight : Nat
deriving DecidableEq

/-- `TranscriptBlock::new`. -/
def TranscriptBlock.new (id : BlockId) (mode : BlockMode) (owner : String) : TranscriptBlock :=
  ⟨id, mode, .queued, owner, [], 0, 0, 0⟩

/-- The block is active or finalized. -/
def TranscriptBlock.isLive (block : TranscriptBlock) : Bool :=
  block.state matches .active | .finalized

/-- `xs[first..last]`, which is in range only for `first ≤ last ≤ len`. -/
def slice {α : Type} (xs : List α) (first last : Nat) : Option (List α) :=
  if first ≤ last ∧ last ≤ xs.length then some ((xs.take last).drop first) else none

/-! ## Logical history -/

/-- `LogicalHistory`. -/
structure LogicalHistory where
  committedBlocks : List (List String)
deriving DecidableEq

namespace LogicalHistory

/-- `LogicalHistory::new`. -/
def new : LogicalHistory :=
  ⟨[]⟩

/-- `commit_frontier`. -/
def commitFrontier (history : LogicalHistory) : Nat :=
  history.committedBlocks.length

/-- `commit_block`. -/
def commitBlock (history : LogicalHistory) (finalLines : List String) : LogicalHistory :=
  ⟨history.committedBlocks ++ [finalLines]⟩

/-- `all_lines`. -/
def allLines (history : LogicalHistory) (activeHead : Option TranscriptBlock) : List String :=
  history.committedBlocks.flatten ++
    match activeHead with
    | none => []
    | some active =>
      if active.isLive then
        match active.mode with
        | .appendOnly => active.snapshot.take (min active.emittedPrefix active.snapshot.length)
        | .mutable => []
      else []

end LogicalHistory

/-! ## Native rows -/

/-- `NativeSource`. -/
inductive NativeSource where
  | append | retire | replay | resize | failedWrite | exit
deriving DecidableEq, Repr

/-- `NativeRow`. -/
structure NativeRow where
  text : String
  source : NativeSource
  sourceBlock : Option BlockId
  owner : Option String
  width : Nat
  epoch : Nat
  isSummary : Bool
deriving DecidableEq

namespace NativeRow

/-- `NativeRow::tagged`. -/
def tagged (text : String) (source : NativeSource) (sourceBlock : Option BlockId)
    (owner : Option String) (epoch : Nat) : NativeRow :=
  ⟨text, source, sourceBlock, owner, strVisibleWidth text, epoch, false⟩

/-- `NativeRow::summary`. -/
def summary (text : String) (epoch : Nat) : NativeRow :=
  ⟨text, .resize, none, none, strVisibleWidth text, epoch, true⟩

/-- `with_source`. -/
def withSource (row : NativeRow) (source : NativeSource) : NativeRow :=
  { row with source }

/-- A row cut to the width of the viewport, if it has one. -/
def clip (width : Nat) (row : NativeRow) : NativeRow :=
  if 0 < width ∧ width < row.width then
    let text := ((RichText.fromPlain row.text).truncateWidth width none).plainText
    { row with text, width := strVisibleWidth text }
  else row

end NativeRow

/-- The rows that lines of a block become. -/
def TranscriptBlock.rows (block : TranscriptBlock) (source : NativeSource) (epoch : Nat)
    (lines : List String) : List NativeRow :=
  lines.map fun line => .tagged line source (some block.id) (some block.owner) epoch

/-! ## The scheduler -/

/-- `ResizePolicy`. -/
inductive ResizePolicy where
  | preserve | append | rebuild
deriving DecidableEq, Repr

/-- `ReplayGateState`. -/
inductive ReplayGateState where
  | idle
  | preparingReplay (epoch : Nat) (targetWidth targetHeight : UInt16)
  | replayWriting (epoch : Nat)
  | failedStop (error : StructuredError) (forensicRowsWritten : Nat)

/-- `TranscriptError`. A replay gate violation says what was attempted and the gate. -/
inductive TranscriptError where
  | blockNotFound (id : BlockId)
  | invalidStateTransition (id : BlockId) (from_ to_ : BlockState)
  | prefixMonotonicityViolated (id : BlockId)
  | mutableBlockCannotStream (id : BlockId)
  | blockIsFinalized (id : BlockId)
  | replayGateViolation (attempt : String) (gate : ReplayGateState)
  | failStopHalted (message : String)
  | duplicateBlock (id : BlockId)
  | liveBlockLimit
  | outOfOrderRetirement (id : BlockId) (expected : Option BlockId)

/-- `TranscriptScheduler`. -/
structure TranscriptScheduler where
  blocks : List TranscriptBlock
  logicalHistory : LogicalHistory
  nativeScrollback : List NativeRow
  nativeViewport : List NativeRow
  viewportWidth : UInt16
  viewportHeight : UInt16
  displayEpoch : Nat
  replayGate : ReplayGateState
  failStopped : Bool
  forensicLog : List NativeRow
  scrollbackEvicted : Nat

/-- The state that an operation leaves and its result. -/
abbrev Outcome (α : Type) : Type :=
  Option (TranscriptScheduler × Except TranscriptError α)

namespace TranscriptScheduler

/-- `MAX_SCROLLBACK_ROWS`. -/
@[irreducible] def maxScrollbackRows : Nat :=
  10000

/-- `TranscriptScheduler::new`. -/
def new (viewportWidth viewportHeight : UInt16) : TranscriptScheduler where
  blocks := []
  logicalHistory := .new
  nativeScrollback := []
  nativeViewport := []
  viewportWidth := viewportWidth
  viewportHeight := viewportHeight
  displayEpoch := 1
  replayGate := .idle
  failStopped := false
  forensicLog := []
  scrollbackEvicted := 0

/-- `push_scrollback`. -/
def pushScrollback (s : TranscriptScheduler) (row : NativeRow) : TranscriptScheduler :=
  let rows := s.nativeScrollback ++ [row]
  let excess := rows.length - maxScrollbackRows
  { s with
    nativeScrollback := rows.drop excess
    scrollbackEvicted := s.scrollbackEvicted + excess }

/-- `push_scrollback` for each of some rows. -/
def pushRows (s : TranscriptScheduler) (rows : List NativeRow) : TranscriptScheduler :=
  rows.foldl pushScrollback s

/-- `commit_frontier`. -/
def commitFrontier (s : TranscriptScheduler) : Nat :=
  s.logicalHistory.commitFrontier

/-- The block at the commit frontier. -/
def head (s : TranscriptScheduler) : Option TranscriptBlock :=
  s.blocks[s.commitFrontier]?

/-- `check_not_fail_stopped`. -/
def checkNotFailStopped (s : TranscriptScheduler) : Except TranscriptError Unit :=
  if s.failStopped then
    .error (.failStopHalted
      "scheduler is in fail-stop state after an unrecoverable write failure")
  else .ok ()

/-- `check_operational`. -/
def checkOperational (s : TranscriptScheduler) : Except TranscriptError Unit :=
  match s.checkNotFailStopped with
  | .error e => .error e
  | .ok () =>
    match s.replayGate with
    | .idle => .ok ()
    | gate => .error (.replayGateViolation
        "operation forbidden while replay gate is in state" gate)

/-- The first block with an id, and its position. -/
def locate (s : TranscriptScheduler) (id : BlockId) : Option (Nat × TranscriptBlock) :=
  (s.blocks.findIdx? fun block => block.id = id).bind fun i =>
    s.blocks[i]?.map fun block => (i, block)

/-- Write back the block at a position. -/
def setBlock (s : TranscriptScheduler) (i : Nat) (block : TranscriptBlock) : TranscriptScheduler :=
  { s with blocks := s.blocks.set i block }

/-- An operation that needs an operational scheduler. -/
def whenOperational {α : Type} (s : TranscriptScheduler) (k : Outcome α) : Outcome α :=
  match s.checkOperational with
  | .error e => some (s, .error e)
  | .ok () => k

/-- An operation on the block with an id. -/
def onBlock {α : Type} (s : TranscriptScheduler) (id : BlockId)
    (k : Nat → TranscriptBlock → Outcome α) : Outcome α :=
  match s.locate id with
  | none => some (s, .error (.blockNotFound id))
  | some (i, block) => k i block

/-! ### The viewport -/

/-- The rows that a live block asks for. -/
def requestedRows (block : TranscriptBlock) : Nat :=
  max block.lastRenderedHeight (block.snapshot.length - block.emittedPrefix)

/-- Give rows to the live blocks, from the last one to the first; what is left comes second. -/
def reserve : Nat → List TranscriptBlock → List TranscriptBlock × Nat
  | remaining, [] => ([], remaining)
  | remaining, block :: rest =>
    match reserve remaining rest with
    | (rest, remaining) =>
      let allocation := if block.isLive then min (requestedRows block) remaining else 0
      ({ block with reservedRows := allocation } :: rest, remaining - allocation)

/-- The rows of a block in the viewport: its last lines, and blank rows. -/
def paint (epoch : Nat) (block : TranscriptBlock) : Option (List NativeRow) :=
  if block.reservedRows = 0 then some []
  else
    let stable := if block.mode = .appendOnly then block.emittedPrefix else 0
    let start := max stable (block.snapshot.length - block.reservedRows)
    (slice block.snapshot start block.snapshot.length).map fun lines =>
      block.rows .append epoch
        (lines ++ List.replicate (block.reservedRows - (block.snapshot.length - start)) "")

/-- The rows of some blocks in the viewport. -/
def paintAll (epoch : Nat) : List TranscriptBlock → Option (List NativeRow)
  | [] => some []
  | block :: rest => do
    let rows ← paint epoch block
    let others ← paintAll epoch rest
    some (rows ++ others)

/-- `refresh_viewport`. -/
def refreshViewport (s : TranscriptScheduler) : Option TranscriptScheduler :=
  if s.failStopped then some s
  else
    let height := s.viewportHeight.toNat
    let requested := ((s.blocks.filter TranscriptBlock.isLive).map requestedRows).sum
    let hidden := height < requested + s.nativeScrollback.length
    let summary := if hidden ∧ 1 < height then 1 else 0
    match reserve (height - summary) s.blocks with
    | (blocks, remaining) =>
      if height = 0 then some { s with blocks, nativeViewport := [] }
      else do
        let heading :=
          if summary = 0 then []
          else [NativeRow.summary "[earlier output hidden]" s.displayEpoch]
        let historyStart := s.nativeScrollback.length - remaining
        let tail ← slice s.nativeScrollback historyStart s.nativeScrollback.length
        let painted ← paintAll s.displayEpoch blocks
        let nativeViewport :=
          (heading ++ tail ++ painted).map (NativeRow.clip s.viewportWidth.toNat)
        some { s with blocks, nativeViewport }

/-- Refresh the viewport and answer. -/
def refreshed {α : Type} (s : TranscriptScheduler) (answer : α) : Outcome α :=
  s.refreshViewport.map fun s => (s, .ok answer)

/-- `apply_elastic_reservation`. -/
def applyElasticReservation (s : TranscriptScheduler) (id : BlockId) : Outcome Unit :=
  s.onBlock id fun i block =>
    let oldHeight := block.lastRenderedHeight
    let newHeight := block.snapshot.length - block.emittedPrefix
    let effectiveHeight :=
      if newHeight + 2 < oldHeight then max (oldHeight - 2) newHeight else newHeight
    let maxAllowed := s.viewportHeight.toNat
    let reservedRows :=
      if maxAllowed < effectiveHeight ∧ 0 < maxAllowed then maxAllowed else effectiveHeight
    let block := { block with reservedRows, lastRenderedHeight := effectiveHeight }
    (s.setBlock i block).refreshed ()

/-! ### The life of a block -/

/-- `admit_block`. -/
def admitBlock (s : TranscriptScheduler) (id : BlockId) (mode : BlockMode) (owner : String) :
    Outcome Unit :=
  s.whenOperational <|
    if s.blocks.any fun block => block.id = id then some (s, .error (.duplicateBlock id))
    else if 128 ≤ s.blocks.length - s.commitFrontier then some (s, .error .liveBlockLimit)
    else some ({ s with blocks := s.blocks ++ [.new id mode owner] }, .ok ())

/-- `activate_block`. -/
def activateBlock (s : TranscriptScheduler) (id : BlockId) : Outcome Unit :=
  s.whenOperational <| s.onBlock id fun i block =>
    if block.state ≠ .queued then
      some (s, .error (.invalidStateTransition id block.state .active))
    else some (s.setBlock i { block with state := .active }, .ok ())

/-- `update_snapshot`. -/
def updateSnapshot (s : TranscriptScheduler) (id : BlockId) (newLines : List String) :
    Outcome Unit :=
  s.whenOperational <| s.onBlock id fun i block =>
    if block.state = .finalized ∨ block.state = .committed then
      some (s, .error (.blockIsFinalized id))
    else if block.mode = .appendOnly ∧ ¬ block.snapshot <+: newLines then
      some (s, .error (.prefixMonotonicityViolated id))
    else (s.setBlock i { block with snapshot := newLines }).applyElasticReservation id

/-- `stream_stable_prefix`. -/
def streamStablePrefix (s : TranscriptScheduler) (id : BlockId) (stableCount : Nat) :
    Outcome Nat :=
  s.whenOperational <| s.onBlock id fun i block =>
    if i ≠ s.commitFrontier then
      some (s, .error (.outOfOrderRetirement id (s.head.map TranscriptBlock.id)))
    else if ¬ block.isLive then
      some (s, .error (.invalidStateTransition id block.state .active))
    else if block.mode = .mutable then some (s, .error (.mutableBlockCannotStream id))
    else
      let newPrefix := min stableCount block.snapshot.length
      let emitted := max newPrefix block.emittedPrefix
      let streamed :=
        if block.emittedPrefix < newPrefix then slice block.snapshot block.emittedPrefix newPrefix
        else some []
      streamed.bind fun lines =>
        let lastRenderedHeight := min block.lastRenderedHeight (block.snapshot.length - emitted)
        let s := s.pushRows (block.rows .append s.displayEpoch lines)
        let s := s.setBlock i { block with emittedPrefix := emitted, lastRenderedHeight }
        s.refreshed emitted

/-- `finalize_block`. -/
def finalizeBlock (s : TranscriptScheduler) (id : BlockId) : Outcome Unit :=
  s.whenOperational <| s.onBlock id fun i block =>
    if block.state ≠ .active then
      some (s, .error (.invalidStateTransition id block.state .finalized))
    else some (s.setBlock i { block with state := .finalized }, .ok ())

/-- `retire_block`. -/
def retireBlock (s : TranscriptScheduler) (id : BlockId) : Outcome Unit :=
  s.whenOperational <| s.onBlock id fun i block =>
    if i ≠ s.commitFrontier then
      some (s, .error (.outOfOrderRetirement id (s.head.map TranscriptBlock.id)))
    else if block.state ≠ .finalized then
      some (s, .error (.invalidStateTransition id block.state .committed))
    else
      (slice block.snapshot block.emittedPrefix block.snapshot.length).bind fun lines =>
        let s := s.pushRows (block.rows .retire s.displayEpoch lines)
        let s := { s with logicalHistory := s.logicalHistory.commitBlock block.snapshot }
        let s := s.setBlock i { block with state := .committed, emittedPrefix := 0 }
        s.refreshed ()

/-- The loop of `flush`, for a number of blocks that are not committed. -/
def flushLoop : Nat → TranscriptScheduler → Outcome Unit
  | 0, s => some (s, .ok ())
  | fuel + 1, s =>
    match s.head with
    | none => some (s, .ok ())
    | some block =>
      if block.state ≠ .finalized then some (s, .ok ())
      else
        match s.retireBlock block.id with
        | some (s, .ok ()) => flushLoop fuel s
        | other => other

/-- `flush`. -/
def flush (s : TranscriptScheduler) : Outcome Unit :=
  s.whenOperational <| flushLoop (s.blocks.length - s.commitFrontier) s

/-! ### Resizes and failures -/

/-- `prepare_rebuild_replay`. -/
def prepareRebuildReplay (s : TranscriptScheduler) (targetWidth targetHeight : UInt16) :
    Outcome Unit :=
  s.whenOperational <| some
    ({ s with replayGate := .preparingReplay (s.displayEpoch + 1) targetWidth targetHeight },
      .ok ())

/-- The lines of the block at an index that a rebuild replays. -/
def replayLines (frontier index : Nat) (block : TranscriptBlock) : Option (List String) :=
  if index < frontier then some block.snapshot
  else if index = frontier ∧ block.isLive ∧ block.mode = .appendOnly then
    slice block.snapshot 0 (min block.emittedPrefix block.snapshot.length)
  else some []

/-- The rows that a rebuild replays for the blocks from an index on. -/
def replayRows (epoch frontier : Nat) : Nat → List TranscriptBlock → Option (List NativeRow)
  | _, [] => some []
  | index, block :: rest => do
    let lines ← replayLines frontier index block
    let rows ← replayRows epoch frontier (index + 1) rest
    some (block.rows .replay epoch lines ++ rows)

/-- `execute_rebuild_replay`. -/
def executeRebuildReplay (s : TranscriptScheduler) : Outcome Unit :=
  match s.checkNotFailStopped with
  | .error e => some (s, .error e)
  | .ok () =>
    match s.replayGate with
    | .preparingReplay epoch targetWidth targetHeight =>
      (replayRows epoch s.commitFrontier 0 s.blocks).bind fun replayed =>
        let evicted := replayed.length - maxScrollbackRows
        let s := { s with
          displayEpoch := epoch
          viewportWidth := targetWidth
          viewportHeight := targetHeight
          nativeViewport := []
          nativeScrollback := replayed.drop evicted
          scrollbackEvicted := s.scrollbackEvicted + evicted
          replayGate := .replayWriting epoch }
        s.refreshViewport.map fun s => ({ s with replayGate := .idle }, .ok ())
    | gate => some (s, .error (.replayGateViolation
        "cannot execute replay while replay gate is in state" gate))

/-- `resize`. -/
def resize (s : TranscriptScheduler) (newWidth newHeight : UInt16) (policy : ResizePolicy) :
    Outcome Unit :=
  s.whenOperational <|
    match policy with
    | .preserve =>
      let s := { s with viewportWidth := newWidth, viewportHeight := newHeight }
      s.refreshed ()
    | .append =>
      let row := (NativeRow.summary
        ("--- resize to " ++ newWidth.toNat.repr ++ "x" ++ newHeight.toNat.repr ++ " ---")
        s.displayEpoch).withSource .resize
      let s := s.pushScrollback row
      let s := { s with viewportWidth := newWidth, viewportHeight := newHeight }
      s.refreshed ()
    | .rebuild =>
      match s.prepareRebuildReplay newWidth newHeight with
      | some (s, .ok ()) => s.executeRebuildReplay
      | other => other

/-- `handle_write_failure`. -/
def handleWriteFailure (s : TranscriptScheduler) (error : StructuredError)
    (acceptedPrefix : Nat) : TranscriptScheduler :=
  if s.failStopped then s
  else
    let acceptedPrefix := min acceptedPrefix s.nativeViewport.length
    let acceptedRows := (s.nativeViewport.take acceptedPrefix).map (·.withSource .failedWrite)
    { s with
      forensicLog := s.forensicLog ++ acceptedRows
      nativeViewport := []
      failStopped := true
      replayGate := .failedStop error acceptedPrefix }

/-! ### Runs -/

/-- A call of one of the public operations. -/
inductive Operation where
  | admitBlock (id : BlockId) (mode : BlockMode) (owner : String)
  | activateBlock (id : BlockId)
  | updateSnapshot (id : BlockId) (newLines : List String)
  | streamStablePrefix (id : BlockId) (stableCount : Nat)
  | finalizeBlock (id : BlockId)
  | retireBlock (id : BlockId)
  | flush
  | refreshViewport
  | resize (newWidth newHeight : UInt16) (policy : ResizePolicy)
  | prepareRebuildReplay (targetWidth targetHeight : UInt16)
  | executeRebuildReplay
  | handleWriteFailure (error : StructuredError) (acceptedPrefix : Nat)

/-- The outcome of a call. -/
def perform (s : TranscriptScheduler) : Operation → Outcome Unit
  | .admitBlock id mode owner => s.admitBlock id mode owner
  | .activateBlock id => s.activateBlock id
  | .updateSnapshot id newLines => s.updateSnapshot id newLines
  | .streamStablePrefix id stableCount =>
    (s.streamStablePrefix id stableCount).map fun (s, result) => (s, result.map fun _ => ())
  | .finalizeBlock id => s.finalizeBlock id
  | .retireBlock id => s.retireBlock id
  | .flush => s.flush
  | .refreshViewport => s.refreshed ()
  | .resize newWidth newHeight policy => s.resize newWidth newHeight policy
  | .prepareRebuildReplay targetWidth targetHeight =>
    s.prepareRebuildReplay targetWidth targetHeight
  | .executeRebuildReplay => s.executeRebuildReplay
  | .handleWriteFailure error acceptedPrefix =>
    some (s.handleWriteFailure error acceptedPrefix, .ok ())

/-- The state after a call. -/
def after (s : TranscriptScheduler) (operation : Operation) : TranscriptScheduler :=
  ((s.perform operation).map Prod.fst).getD s

end TranscriptScheduler

end Omp2.Render
