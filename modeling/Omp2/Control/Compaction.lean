import Mathlib.Data.UInt
import Omp2.State.Journal
import Omp2.Types.Summary

/-!
# Context compaction

The planner of `omp-control/src/compaction.rs` with the token estimate and the budget of
`omp-inference/src/compaction.rs`. `plan` elides old body elements behind summary nodes, condenses
the oldest nodes and caps what is left, until the projection is below the hard bound. The nodes are
journaled; the identifiers that are minted for them and what the outside world decides about the
appends are arguments.
-/

namespace Omp2.Control

open Omp2.Json Omp2.State

/-! ## Estimates and budgets -/

/-- The tokens of so many ASCII characters and other characters. -/
def charTokens (ascii wide : Nat) : Nat :=
  (ascii + 3) / 4 + wide * 2

/-- `estimate_tokens`. -/
def estimateTokens (text : String) : Nat :=
  charTokens (text.toList.countP fun c => c.val < 128) (text.toList.countP fun c => ¬ c.val < 128)

/-- `CompactionBudget`. -/
structure CompactionBudget where
  softTokens : Nat
  hardTokens : Nat

namespace CompactionBudget

/-- `target_tokens`. -/
def targetTokens (budget : CompactionBudget) : Nat :=
  max (budget.softTokens / 2) 1

/-- `should_trigger`. -/
def shouldTrigger (budget : CompactionBudget) (projectedTokens : Nat) : Bool :=
  budget.softTokens ≤ projectedTokens

/-- `exceeds_hard_bound`. -/
def exceedsHardBound (budget : CompactionBudget) (projectedTokens : Nat) : Bool :=
  budget.hardTokens < projectedTokens

end CompactionBudget

/-- `CompactionConfig`. -/
structure CompactionConfig where
  budget : CompactionBudget
  keepRecentTurns : Nat
  maxRootNodes : Nat
  fixedOverheadTokens : Nat

/-- `CONDENSE_FAN_IN`. -/
def condenseFanIn : Nat := 4

/-- `MAX_NODE_TEXT_BYTES`. -/
def maxNodeTextBytes : Nat := 8000

/-- `MAX_PREVIEW_CHARS`. -/
def maxPreviewChars : Nat := 96

/-- `INVENTORY_LINE_TOKENS`. -/
def inventoryLineTokens : Nat := 40

/-- `NODE_HEADER_TOKENS`. -/
def nodeHeaderTokens : Nat := 24

/-- `TRUNCATED_HEAD_CHARS`. -/
def truncatedHeadChars : Nat := 400

/-- `TRUNCATED_TAIL_CHARS`. -/
def truncatedTailChars : Nat := 200

/-- `TRUNCATED_BYTES`. -/
def truncatedBytes : Nat := truncatedHeadChars + truncatedTailChars + 96

/-- `MIN_OMITTED_ARGUMENT_TOKENS`. -/
def minOmittedArgumentTokens : Nat := 64

/-! ## Texts -/

/-- `text_prefix`. -/
def textPrefix (text : String) (limit : Nat) : String :=
  if text.utf8ByteSize ≤ limit then text else Text.truncate text limit

/-- `text_suffix`. -/
def textSuffix (text : String) (limit : Nat) : String :=
  if text.utf8ByteSize ≤ limit then text else Text.suffix text limit

/-- `truncate_for_projection`. -/
def truncateForProjection (text : String) : String :=
  if text.utf8ByteSize ≤ truncatedHeadChars + truncatedTailChars then text
  else
    let head := textPrefix text truncatedHeadChars
    let tail := textSuffix text truncatedTailChars
    let dropped := UInt64.ofNat (text.utf8ByteSize - (head.utf8ByteSize + tail.utf8ByteSize))
    s!"{head}\n[…{dropped} chars truncated to fit the context window; " ++
      s!"the journal keeps the full text]\n{tail}"

/-- `preview_line`. -/
def previewLine (text : String) : String :=
  let line := ((Text.lines text).find? fun line => ¬ (Text.trim line).isEmpty).getD ""
  let words := " ".intercalate (Text.words line)
  let collapsed :=
    if maxPreviewChars < words.utf8ByteSize then textPrefix words maxPreviewChars ++ "…" else words
  if collapsed.isEmpty then "(empty)" else collapsed

/-- `cap_node_text`. -/
def capNodeText (text : String) : String :=
  textPrefix text (maxNodeTextBytes / 2) ++
    "\n[…] inventory capped; expand individual nodes with Read summary://<id>"

/-! ## Entries -/

/-- `Reduction`. -/
structure Reduction where
  cappedText : Bool
  omittedArguments : Bool
deriving DecidableEq

/-- The derived `Default` of `Reduction`. -/
instance : Inhabited Reduction := ⟨⟨false, false⟩⟩

abbrev Reductions := Std.ExtTreeMap ElementId Reduction

/-- `reduced_tokens`. -/
def reducedTokens : Nat := truncatedBytes

/-- `EntryRole`. -/
inductive EntryRole where
  | user | assistant | toolCall | instructions
deriving DecidableEq

/-- `truncation_rank`. -/
def truncationRank : EntryRole → Nat
  | .toolCall => 0
  | .assistant => 1
  | .user => 2
  | .instructions => 3

/-- `BodyEntry`. -/
structure BodyEntry where
  id : ElementId
  role : EntryRole
  argsTokens : Nat
  textTokens : Nat
  pinned : Bool
  inFlight : Bool
  preview : String

namespace BodyEntry

/-- `eligible`. -/
def eligible (entry : BodyEntry) : Bool :=
  !entry.pinned && !entry.inFlight

/-- `tokens`. -/
def tokens (entry : BodyEntry) : Nat :=
  entry.argsTokens + entry.textTokens + if entry.role = .toolCall then 8 else 0

/-- `next_reduction`. -/
def nextReduction (entry : BodyEntry) (applied : Option Reduction) : Option (Reduction × Nat) :=
  let applied := applied.getD default
  let effectiveText :=
    if applied.cappedText then min reducedTokens entry.textTokens else entry.textTokens
  if entry.role = .toolCall ∧ ¬ applied.omittedArguments ∧
      minOmittedArgumentTokens < entry.argsTokens ∧ effectiveText < entry.argsTokens then
    some ({ applied with omittedArguments := true }, entry.argsTokens)
  else if ¬ applied.cappedText ∧ reducedTokens < entry.textTokens then
    some ({ applied with cappedText := true }, entry.textTokens - reducedTokens)
  else none

end BodyEntry

/-- `is_pinned`. -/
def isPinned (element : ElementSnapshot) : Bool :=
  element.attributes["pinned"]? matches some (.bool true)

/-- Whether an assistant element holds output that is not a completed turn. -/
def isInterrupted (element : ElementSnapshot) : Bool :=
  (match element.attributes["status"]? with
    | some (.string status) => decide (status ∈ ["running", "failed", "cancelled"])
    | _ => false) ||
    element.attributes["streaming"]? matches some (.bool true)

/-- The call id of a tool call, when it has a usable one. -/
def usableCallId (element : ElementSnapshot) : Option ToolCallId :=
  match element.attributes["call_id"]? with
  | some (.string callId) => (Id.new callId).toOption
  | _ => none

/-- The tool of a tool call. -/
def toolName (element : ElementSnapshot) : Option String :=
  match element.attributes["tool"]? with
  | some (.string name) => some name
  | _ => none

/-- The first child of an element that has a kind. -/
def childOfKind (s : SessionSnapshot) (element : ElementSnapshot) (kind : String) :
    Option ElementSnapshot :=
  (s.children element.id).find? fun child => child.kind = kind

section Entries

variable [SerdeJson]

/-- The round of `collect_entries` for one element. -/
def collectEntry (s : SessionSnapshot) (element : ElementSnapshot) : Option BodyEntry :=
  let entry (role : EntryRole) (argsTokens textTokens : Nat) (inFlight : Bool) (preview : String) :
      BodyEntry :=
    { id := element.id, role, argsTokens, textTokens, pinned := isPinned element, inFlight,
      preview }
  let textTokens := estimateTokens element.text
  match element.kind with
  | "user" => some (entry .user 0 textTokens false s!"user: {previewLine element.text}")
  | "assistant" =>
    if isInterrupted element then none
    else some (entry .assistant 0 textTokens false s!"assistant: {previewLine element.text}")
  | "tool_call" =>
    match usableCallId element with
    | none => none
    | some _ =>
      let result := childOfKind s element "result"
      let args := (((childOfKind s element "input").bind ElementSnapshot.payload).map
        Value.display).getD ""
      let tool := (toolName element).getD "tool"
      let resultText := (result.map ElementSnapshot.text).getD ""
      some (entry .toolCall (estimateTokens args) (estimateTokens resultText) result.isNone
        s!"tool {tool}({previewLine args}) -> {previewLine resultText}")
  | "system" | "steering" =>
    some (entry .instructions 0 textTokens true s!"instructions: {previewLine element.text}")
  | _ => none

/-- `collect_entries`. -/
def collectEntries (s : SessionSnapshot) : List BodyEntry :=
  s.getVisibleBody.filterMap (collectEntry s)

end Entries

/-- `recent_turn_boundary`. -/
def recentTurnBoundary (entries : List BodyEntry) (keep : Nat) : Nat :=
  let keep := max keep 1
  let users := (entries.zipIdx.filter fun entry => entry.1.role = .user).map Prod.snd
  if users.length ≤ keep then 0 else (users[users.length - keep]?).getD 0

/-- `final_turn_boundary`. -/
def finalTurnBoundary (entries : List BodyEntry) : Nat :=
  (((entries.zipIdx.filter fun entry => entry.1.role = .user).map Prod.snd).getLast?).getD 0

/-! ## The summary nodes -/

/-- `SummaryDag`. -/
structure SummaryDag where
  nodes : SummaryNodes
  texts : Std.ExtTreeMap ElementId String
  order : List ElementId
  children : Std.ExtTreeSet ElementId
  unreadable : Nat

/-- `MessageFold`. -/
inductive MessageFold where
  | handoff (summary : String) (foldedCount originalTokenCount : Nat)
  | shake (keptPrefixCount droppedCount : Nat)
  | remoteState (handle : String) (tokenCount : Nat)

/-- Insert every element of a list into a set. -/
def extend (set : Std.ExtTreeSet ElementId) (ids : List ElementId) : Std.ExtTreeSet ElementId :=
  ids.foldl (fun set id => set.insert id) set

namespace SummaryDag

/-- The round of `load` for one element. -/
def add (dag : SummaryDag) (element : ElementSnapshot) : SummaryDag :=
  match SummaryNode.fromElement element with
  | .error _ => { dag with unreadable := dag.unreadable + 1 }
  | .ok node =>
    { dag with
      order := dag.order ++ [element.id]
      children := extend dag.children node.children
      texts := dag.texts.insert element.id element.text
      nodes := dag.nodes.insert element.id node }

/-- `load`. -/
def load (s : SessionSnapshot) : SummaryDag :=
  (s.children (staticId "summaries")).foldl add ⟨∅, ∅, [], ∅, 0⟩

/-- `roots`. -/
def roots (dag : SummaryDag) : List ElementId :=
  dag.order.filter fun id => !dag.children.contains id

/-- `covered`. -/
def covered (dag : SummaryDag) : Std.ExtTreeSet ElementId :=
  extend ∅ (dag.nodes.toList.flatMap fun entry => entry.2.covered)

/-- The text of a node. -/
def textOf (dag : SummaryDag) (id : ElementId) : String :=
  dag.texts[id]?.getD ""

/-- `projection_tokens` of the `token_index`. -/
def projectionTokens (dag : SummaryDag) : Nat :=
  (dag.roots.map fun id => ((dag.texts[id]?).map estimateTokens).getD 0 + nodeHeaderTokens).sum

/-- `render_fold`. -/
def renderFold (id : ElementId) (dag : SummaryDag) (node : SummaryNode) : String :=
  let elements := max (expandCovered dag.nodes id).length node.covered.length
  s!"[compacted {elements} earlier elements, ~{node.coveredTokens} tokens. " ++
    s!"Expand the originals with Read summary://{id.value}]\n{dag.textOf id}"

/-- The fold of one root. -/
def fold (dag : SummaryDag) (id : ElementId) : MessageFold :=
  let node := (dag.nodes[id]?).getD default
  .handoff (renderFold id dag node) (expandCovered dag.nodes id).length node.coveredTokens.toNat

/-- `folds`. -/
def folds (dag : SummaryDag) : List MessageFold :=
  dag.roots.map dag.fold

end SummaryDag

/-- `projected_tokens`. -/
def projectedTokens (entries : List BodyEntry) (covered : Std.ExtTreeSet ElementId)
    (dag : SummaryDag) (reductions : Reductions) (overhead : Nat) : Nat :=
  let cost (entry : BodyEntry) : Nat :=
    match reductions[entry.id]? with
    | none => entry.tokens
    | some reduction =>
      let cost := entry.tokens - if reduction.omittedArguments then entry.argsTokens else 0
      cost - if reduction.cappedText then entry.textTokens - reducedTokens else 0
  overhead + ((entries.filter fun entry => !covered.contains entry.id).map cost).sum +
    dag.projectionTokens

/-! ## Journaling -/

/-- What is minted for a node, and what the outside world decides about its append. -/
structure Draw where
  minted : ElementId
  world : Journal.Outside

/-- What a pass draws for its elision, its condensations and its caps. -/
structure Draws where
  elision : Draw
  condensation : Nat → Draw
  cap : Nat → Journal.Outside

section Journaling

variable [SerdeJson]

/-- `create_node`. -/
def createNode (j : Journal) (owner : ActorId) (node : SummaryNode) (kind : SummaryKind)
    (text : String) (draw : Draw) : Journal × Except StructuredError ElementId :=
  let container := staticId "summaries"
  let index := UInt32.ofNat (j.snapshot.children container).length
  match Id.new ("sum-" ++ draw.minted.value) with
  | .error e => (j, .error e)
  | .ok id =>
    let patch : Patch := {
      baseOffset := j.snapshot.offset
      resultOffset := j.nextOffset
      author := .actor owner
      reason := s!"compact context ({kind.asStr})"
      ops := [.create container index (node.toElement id kind text)] }
    match j.appendPatch patch draw.world with
    | (j, .error e) => (j, .error e.structured)
    | (j, .ok _) => (j, .ok id)

/-- `replace_node_text`. -/
def replaceNodeText (j : Journal) (owner : ActorId) (id : ElementId) (text : String)
    (world : Journal.Outside) : Journal × Except StructuredError Unit :=
  let patch : Patch := {
    baseOffset := j.snapshot.offset
    resultOffset := j.nextOffset
    author := .actor owner
    reason := "cap compacted inventory"
    ops := [.replaceText id text] }
  match j.appendPatch patch world with
  | (j, .error e) => (j, .error e.structured)
  | (j, .ok _) => (j, .ok ())

end Journaling

/-- `render_inventory`. -/
def renderInventory (ids : List ElementId) (entries : List BodyEntry) : String :=
  ids.foldl (fun out id =>
    let preview := ((entries.find? fun entry => entry.id = id).map BodyEntry.preview).getD
      "(element no longer in the transcript)"
    out ++ "- " ++ preview ++ "\n")
    "Elided transcript elements (originals retrievable by id):\n"

/-- `render_condensed_inventory`. -/
def renderCondensedInventory (children : List ElementId) (dag : SummaryDag) : String :=
  children.foldl (fun out id =>
    let node := (dag.nodes[id]?).getD default
    let elements := max (expandCovered dag.nodes id).length node.covered.length
    out ++ s!"- summary://{id.value} — {elements} elements, ~{node.coveredTokens} tokens\n")
    "Condensed summary of earlier compactions (children keep the originals):\n"

/-! ## Planning -/

/-- The loop of the first stage: what pays for its inventory line, until the target is met. -/
def selectSoft (covered : Std.ExtTreeSet ElementId) (target : Nat) :
    List BodyEntry → Nat → List ElementId × Nat
  | [], simulated => ([], simulated)
  | entry :: rest, simulated =>
    if simulated ≤ target then ([], simulated)
    else if ¬ entry.eligible ∨ covered.contains entry.id ∨
        entry.tokens ≤ inventoryLineTokens + nodeHeaderTokens then
      selectSoft covered target rest simulated
    else
      let simulated := simulated - (entry.tokens - (inventoryLineTokens + nodeHeaderTokens))
      match selectSoft covered target rest simulated with
      | (pending, simulated) => (entry.id :: pending, simulated)

/-- The loop of the second stage: everything that may go. -/
def selectHard (covered : Std.ExtTreeSet ElementId) (entries : List BodyEntry)
    (pending : List ElementId) : List ElementId :=
  entries.foldl (fun pending entry =>
    if entry.eligible && !covered.contains entry.id && !pending.contains entry.id then
      pending ++ [entry.id]
    else pending) pending

/-- The elements that a pass elides. -/
def select (entries : List BodyEntry) (covered : Std.ExtTreeSet ElementId)
    (config : CompactionConfig) (projected : Nat) : List ElementId :=
  let (pending, simulated) :=
    if config.budget.shouldTrigger projected then
      selectSoft covered config.budget.targetTokens
        (entries.take (recentTurnBoundary entries config.keepRecentTurns)) projected
    else ([], projected)
  if config.budget.exceedsHardBound simulated then
    selectHard covered (entries.take (finalTurnBoundary entries)) pending
  else pending

section Elision

variable [SerdeJson]

/-- `commit_elision`. -/
def commitElision (j : Journal) (owner : ActorId) (entries : List BodyEntry)
    (ids : List ElementId) (dag : SummaryDag) (draw : Draw) :
    Journal × Except StructuredError SummaryDag :=
  if ids.isEmpty then (j, .ok dag)
  else
    let tokens := (ids.filterMap fun id => entries.find? fun entry => entry.id = id).map
      BodyEntry.tokens
    let node : SummaryNode := {
      covered := ids
      children := []
      coveredTokens := UInt64.ofNat tokens.sum
      createdOffset := j.snapshot.offset }
    let text := renderInventory ids entries
    match createNode j owner node .leaf text draw with
    | (j, .error e) => (j, .error e)
    | (j, .ok id) =>
      (j, .ok { dag with
        order := dag.order ++ [id]
        nodes := dag.nodes.insert id node
        texts := dag.texts.insert id text })

/-- The loop that condenses the oldest roots. Every round replaces at least two roots by one, so
the number of roots bounds the rounds. -/
def condense (owner : ActorId) (maxRoots : Nat) (draws : Nat → Draw) :
    Nat → Journal → SummaryDag → Journal × Except StructuredError SummaryDag
  | 0, j, dag => (j, .ok dag)
  | fuel + 1, j, dag =>
    if dag.roots.length ≤ max maxRoots 1 then (j, .ok dag)
    else
      let foldSet := dag.roots.take condenseFanIn
      if foldSet.length < 2 then (j, .ok dag)
      else
        let node : SummaryNode := {
          covered := []
          children := foldSet
          coveredTokens := (foldSet.map fun id =>
            ((dag.nodes[id]?).map SummaryNode.coveredTokens).getD 0).sum
          createdOffset := j.snapshot.offset }
        let text := renderCondensedInventory foldSet dag
        match createNode j owner node .condensed text (draws fuel) with
        | (j, .error e) => (j, .error e)
        | (j, .ok _) => condense owner maxRoots draws fuel j (.load j.snapshot)

end Elision

/-- What a pass has decided: the nodes that it renders, what it covers and how it reduces the rest,
and its count of the projected tokens, which a pass over unreadable nodes does not make. -/
structure Planned where
  dag : SummaryDag
  covered : Std.ExtTreeSet ElementId
  reductions : Reductions
  projected : Option Nat

/-- `CompactionOutcome`. -/
structure CompactionOutcome where
  folds : List MessageFold
  covered : Std.ExtTreeSet ElementId
  reductions : Reductions

/-- The outcome of a pass. -/
def Planned.outcome (planned : Planned) : CompactionOutcome :=
  ⟨planned.dag.folds, planned.covered, planned.reductions⟩

/-- The first of the reductions with the least rank and the greatest savings. -/
def firstBest : List (BodyEntry × Reduction × Nat) → Option (BodyEntry × Reduction × Nat)
  | [] => none
  | first :: rest =>
    some (rest.foldl (fun best next =>
      if truncationRank next.1.role < truncationRank best.1.role ∨
          truncationRank next.1.role = truncationRank best.1.role ∧ best.2.2 < next.2.2 then next
      else best) first)

/-- The next reduction of the third stage. -/
def nextReduction (entries : List BodyEntry) (covered : Std.ExtTreeSet ElementId)
    (reductions : Reductions) : Option (BodyEntry × Reduction × Nat) :=
  let candidates := (entries.filter fun entry => !covered.contains entry.id).filter fun entry =>
    entry.role ≠ .instructions
  firstBest (candidates.filterMap fun entry =>
    (entry.nextReduction reductions[entry.id]?).map fun next => (entry, next))

/-- The loop of the third stage. An entry is reduced twice at most, which bounds the rounds. -/
def reduce (entries : List BodyEntry) (covered : Std.ExtTreeSet ElementId) (dag : SummaryDag)
    (config : CompactionConfig) : Nat → Reductions → Reductions
  | 0, reductions => reductions
  | fuel + 1, reductions =>
    if config.budget.exceedsHardBound
        (projectedTokens entries covered dag reductions config.fixedOverheadTokens) then
      match nextReduction entries covered reductions with
      | none => reductions
      | some (entry, reduction, _) =>
        reduce entries covered dag config fuel (reductions.insert entry.id reduction)
    else reductions

section Caps

variable [SerdeJson]

/-- The loop that caps the texts of roots, each of them once. -/
def capTexts (owner : ActorId) (entries : List BodyEntry) (covered : Std.ExtTreeSet ElementId)
    (reductions : Reductions) (config : CompactionConfig) (worlds : Nat → Journal.Outside) :
    Nat → Journal → SummaryDag → Journal × Except StructuredError SummaryDag
  | 0, j, dag => (j, .ok dag)
  | fuel + 1, j, dag =>
    if config.budget.exceedsHardBound
        (projectedTokens entries covered dag reductions config.fixedOverheadTokens) then
      match dag.roots.find? fun id => maxNodeTextBytes < (dag.textOf id).utf8ByteSize with
      | none => (j, .ok dag)
      | some id =>
        let capped := capNodeText (dag.textOf id)
        match replaceNodeText j owner id capped (worlds fuel) with
        | (j, .error e) => (j, .error e)
        | (j, .ok ()) =>
          capTexts owner entries covered reductions config worlds fuel j
            { dag with texts := dag.texts.insert id capped }
    else (j, .ok dag)

/-- The stages of `plan`. -/
def planStages (j : Journal) (owner : ActorId) (config : CompactionConfig) (draws : Draws) :
    Journal × Except StructuredError Planned :=
  let entries := collectEntries j.snapshot
  let dag := SummaryDag.load j.snapshot
  let covered := dag.covered
  if 0 < dag.unreadable then (j, .ok ⟨dag, covered, ∅, none⟩)
  else
    let overhead := config.fixedOverheadTokens
    let pending := select entries covered config (projectedTokens entries covered dag ∅ overhead)
    match commitElision j owner entries pending dag draws.elision with
    | (j, .error e) => (j, .error e)
    | (j, .ok dag) =>
      let covered := extend covered pending
      match condense owner config.maxRootNodes draws.condensation dag.roots.length j dag with
      | (j, .error e) => (j, .error e)
      | (j, .ok dag) =>
        let reductions := reduce entries covered dag config (2 * entries.length) ∅
        match capTexts owner entries covered reductions config draws.cap dag.roots.length j dag with
        | (j, .error e) => (j, .error e)
        | (j, .ok dag) =>
          (j, .ok ⟨dag, covered, reductions,
            some (projectedTokens entries covered dag reductions overhead)⟩)

/-- `plan`. -/
def plan (j : Journal) (owner : ActorId) (config : CompactionConfig) (draws : Draws) :
    Journal × Except StructuredError CompactionOutcome :=
  match planStages j owner config draws with
  | (j, .error e) => (j, .error e)
  | (j, .ok planned) => (j, .ok planned.outcome)

end Caps

namespace CompactionOutcome

/-- `project_text`. -/
def projectText (outcome : CompactionOutcome) (id : ElementId) (text : String) : String :=
  match outcome.reductions[id]? with
  | some reduction => if reduction.cappedText then truncateForProjection text else text
  | none => text

/-- `omits_arguments`. -/
def omitsArguments (outcome : CompactionOutcome) (id : ElementId) : Bool :=
  (outcome.reductions[id]?).any Reduction.omittedArguments

end CompactionOutcome

end Omp2.Control
