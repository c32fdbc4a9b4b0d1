import Omp2.Library.Forest
import Omp2.Types.Patch

/-!
# Summary nodes

The durable schema of context compaction from `omp-types/src/summary.rs`. A summary node names the
body elements that it leaves out of the projection and the nodes that it replaces. A node is read
back from its element as it was, and expanding a node lists exactly the elements that are covered by
the nodes it leads to.
-/

namespace Omp2

open Omp2.Json List

/-- `SUMMARY_NODE_KIND`. -/
def summaryNodeKind : String := "summary_node"

/-- `SUMMARY_KIND_ATTRIBUTE`. -/
def summaryKindAttribute : String := "node_kind"

/-- `SummaryKind`. -/
inductive SummaryKind where
  | leaf | condensed
deriving DecidableEq, Repr

/-- `SummaryKind::as_str`. -/
def SummaryKind.asStr : SummaryKind → String
  | .leaf => "leaf"
  | .condensed => "condensed"

/-- `SummaryNode`. -/
structure SummaryNode where
  covered : List ElementId
  children : List ElementId
  coveredTokens : UInt64
  createdOffset : UInt64

/-- The derived `Default` of `SummaryNode`. -/
instance : Inhabited SummaryNode := ⟨⟨[], [], 0, 0⟩⟩

namespace SummaryNode

/-- A list of identifiers as JSON strings. -/
def writeIds (ids : List ElementId) : Value :=
  .array (ids.map fun id => .string id.value)

/-- `encode`, with the keys in the order of a map. -/
def encode (node : SummaryNode) : Value :=
  .object [("children", writeIds node.children), ("covered", writeIds node.covered),
    ("covered_tokens", .number (.posInt node.coveredTokens)),
    ("created_offset", .number (.posInt node.createdOffset))]

/-- The loops of `decode` over the entries of an array. -/
def readIds (message : String) : List Value → Except String (List ElementId)
  | [] => .ok []
  | value :: rest =>
    match value.asStr with
    | none => .error message
    | some raw =>
      match Id.new raw with
      | .error e => .error e.message
      | .ok id => (readIds message rest).map fun ids => id :: ids

/-- `decode`. -/
def decode (payload : Value) : Except String SummaryNode :=
  match payload with
  | .object entries =>
    match entries.find? fun entry =>
      entry.1 ∉ ["covered", "children", "covered_tokens", "created_offset"] with
    | some (key, _) => .error s!"unknown summary node field: {key}"
    | none =>
      match payload.get "covered" with
      | some (.array items) => do
        let covered ← readIds "covered entries must be strings" items
        let children ← match payload.get "children" with
          | some (.array items) => readIds "children entries must be strings" items
          | _ => .ok []
        return {
          covered
          children
          coveredTokens := ((payload.get "covered_tokens").bind Value.asU64).getD 0
          createdOffset := ((payload.get "created_offset").bind Value.asU64).getD 0 }
      | _ => .error "summary node payload requires a covered array"
  | _ => .error "summary node payload must be an object"

/-- `from_element`. -/
def fromElement (element : ElementSnapshot) : Except String SummaryNode :=
  if element.kind ≠ summaryNodeKind then
    .error s!"element {element.id.value} is a {element.kind}, not a {summaryNodeKind}"
  else match element.payload with
    | none => .error s!"summary node {element.id.value} carries no payload"
    | some payload => decode payload

/-- `to_element`. -/
def toElement (node : SummaryNode) (id : ElementId) (kind : SummaryKind) (text : String) :
    ElementSnapshot :=
  let element := ElementSnapshot.new id summaryNodeKind
  let attributes := element.attributes.insert summaryKindAttribute (.string kind.asStr)
  let attributes := attributes.insert "covered_count" (.integer (Int64.ofNat node.covered.length))
  let attributes := attributes.insert "covered_tokens" (.integer node.coveredTokens.toInt64)
  let attributes := attributes.insert "created_offset" (.integer node.createdOffset.toInt64)
  { element with attributes, text, payload := some node.encode }

theorem readIds_writeIds (message : String) (ids : List ElementId) :
    readIds message (ids.map fun id => .string id.value) = .ok ids := by
  induction ids with
  | nil => rfl
  | cons id ids ih =>
      simp only [map_cons, readIds, Value.asStr, Id.new_value, ih]
      rfl

/-- An encoded node is decoded as it was. -/
theorem decode_encode (node : SummaryNode) : decode node.encode = .ok node := by
  have hknown : ([("children", writeIds node.children), ("covered", writeIds node.covered),
      ("covered_tokens", Value.number (.posInt node.coveredTokens)),
      ("created_offset", .number (.posInt node.createdOffset))].find? fun entry =>
        entry.1 ∉ ["covered", "children", "covered_tokens", "created_offset"]) = none := by
    simp
  unfold encode decode
  dsimp only
  rw [hknown]
  show (readIds _ (node.covered.map fun id => .string id.value) >>= fun covered =>
    readIds _ (node.children.map fun id => .string id.value) >>= fun children => _) = _
  rw [readIds_writeIds, readIds_writeIds]
  rfl

theorem fromElement_toElement (node : SummaryNode) (id : ElementId) (kind : SummaryKind)
    (text : String) : fromElement (node.toElement id kind text) = .ok node :=
  decode_encode node

end SummaryNode

/-! ## Expansion -/

abbrev SummaryNodes := Std.ExtTreeMap ElementId SummaryNode

/-- One round of the inner loop of `expand_covered`. What has been seen is what is listed. -/
def listCovered (expanded : List ElementId) (covered : ElementId) : List ElementId :=
  if covered ∈ expanded then expanded else expanded ++ [covered]

/-- The loop of `expand_covered`. -/
def expandFrom (nodes : SummaryNodes) :
    Nat → List ElementId → List ElementId → List ElementId → List ElementId
  | 0, _, _, expanded => expanded
  | _ + 1, _, [], expanded => expanded
  | fuel + 1, visited, id :: queue, expanded =>
    if id ∈ visited then expandFrom nodes fuel visited queue expanded
    else match nodes[id]? with
      | none => expandFrom nodes fuel (id :: visited) queue expanded
      | some node =>
        expandFrom nodes fuel (id :: visited) (queue ++ node.children)
          (node.covered.foldl listCovered expanded)

/-- `expand_covered`. Every node adds its children to the queue once, which bounds the rounds. -/
def expandCovered (nodes : SummaryNodes) (root : ElementId) : List ElementId :=
  expandFrom nodes (1 + (nodes.toList.map fun entry => entry.2.children.length).sum) [] [root] []

/-- The children of a node. -/
def childrenOf (nodes : SummaryNodes) (id : ElementId) : List ElementId :=
  (nodes[id]?.map SummaryNode.children).getD []

/-- What a node covers itself. -/
def coveredOf (nodes : SummaryNodes) (id : ElementId) : List ElementId :=
  (nodes[id]?.map SummaryNode.covered).getD []

variable {nodes : SummaryNodes}

/-- The elements are listed on a walk over the nodes. -/
theorem expandFrom_eq (fuel : Nat) (visited queue expanded : List ElementId) :
    expandFrom nodes fuel visited queue expanded =
      (Forest.walk (childrenOf nodes) fuel visited queue).foldl
        (fun expanded id => (coveredOf nodes id).foldl listCovered expanded) expanded := by
  induction fuel generalizing visited queue expanded with
  | zero => rfl
  | succ fuel ih =>
      cases queue with
      | nil => rfl
      | cons id queue =>
        unfold expandFrom Forest.walk
        by_cases hvisited : id ∈ visited
        · rw [if_pos hvisited, if_pos hvisited]
          exact ih ..
        · rw [if_neg hvisited, if_neg hvisited, foldl_cons]
          cases hnode : nodes[id]? with
          | none =>
            rw [show childrenOf nodes id = [] by unfold childrenOf; rw [hnode]; rfl,
              show coveredOf nodes id = [] by unfold coveredOf; rw [hnode]; rfl, append_nil]
            exact ih ..
          | some node =>
            rw [show childrenOf nodes id = node.children by unfold childrenOf; rw [hnode]; rfl,
              show coveredOf nodes id = node.covered by unfold coveredOf; rw [hnode]; rfl]
            exact ih ..

theorem mem_listCovered {expanded : List ElementId} {covered x : ElementId} :
    x ∈ listCovered expanded covered ↔ x ∈ expanded ∨ x = covered := by
  unfold listCovered
  split
  · next hlisted =>
    constructor
    · exact .inl
    · rintro (hx | rfl)
      · exact hx
      · exact hlisted
  · rw [mem_append, mem_singleton]

theorem mem_foldl_listCovered {expanded covered : List ElementId} {x : ElementId} :
    x ∈ covered.foldl listCovered expanded ↔ x ∈ expanded ∨ x ∈ covered := by
  induction covered generalizing expanded with
  | nil => simp
  | cons first covered ih => rw [foldl_cons, ih, mem_listCovered, mem_cons, or_assoc]

theorem mem_foldl_coveredOf {visits expanded : List ElementId} {x : ElementId} :
    x ∈ visits.foldl (fun expanded id => (coveredOf nodes id).foldl listCovered expanded) expanded ↔
      x ∈ expanded ∨ ∃ id ∈ visits, x ∈ coveredOf nodes id := by
  induction visits generalizing expanded with
  | nil => simp
  | cons id visits ih =>
      rw [foldl_cons, ih, mem_foldl_listCovered, or_assoc]
      simp

/-- The bound on the rounds counts the children of all nodes. -/
theorem sum_childrenOf (nodes : SummaryNodes) :
    (nodes.keys.map fun id => (childrenOf nodes id).length).sum =
      (nodes.toList.map fun entry => entry.2.children.length).sum := by
  rw [← Std.ExtTreeMap.map_fst_toList_eq_keys, map_map]
  refine congrArg sum (map_congr_left fun entry hentry => ?_)
  have hnode : nodes[entry.1]? = some entry.2 :=
    Std.ExtTreeMap.mem_toList_iff_getElem?_eq_some.mp hentry
  show (childrenOf nodes entry.1).length = _
  unfold childrenOf
  rw [hnode]
  rfl

/-- Expanding a node lists exactly what is covered by the nodes that it leads to. -/
theorem mem_expandCovered {root x : ElementId} :
    x ∈ expandCovered nodes root ↔
      ∃ id, Forest.Leads (childrenOf nodes) root id ∧ x ∈ coveredOf nodes id := by
  have habsent : ∀ id, id ∉ nodes.keys → childrenOf nodes id = [] := by
    intro id hid
    unfold childrenOf
    rw [Std.ExtTreeMap.getElem?_eq_none (fun hmem => hid (Std.ExtTreeMap.mem_keys.mpr hmem))]
    rfl
  unfold expandCovered
  rw [expandFrom_eq, mem_foldl_coveredOf]
  simp only [not_mem_nil, false_or, Forest.mem_walk_iff Std.ExtTreeMap.nodup_keys habsent
    (Nat.le_of_eq (congrArg (1 + ·) (sum_childrenOf nodes)))]

/-- Expanding a node lists nothing twice. -/
theorem nodup_expandCovered (nodes : SummaryNodes) (root : ElementId) :
    (expandCovered nodes root).Nodup := by
  have hlist : ∀ (covered expanded : List ElementId), expanded.Nodup →
      (covered.foldl listCovered expanded).Nodup := by
    intro covered
    induction covered with
    | nil => exact fun _ hnodup => hnodup
    | cons first covered ih =>
      intro expanded hnodup
      refine ih _ ?_
      unfold listCovered
      split
      · exact hnodup
      · next hnew =>
        refine nodup_append.mpr ⟨hnodup, nodup_cons.mpr ⟨nofun, nodup_nil⟩, ?_⟩
        rintro x hx y hy rfl
        exact hnew (mem_singleton.mp hy ▸ hx)
  unfold expandCovered
  rw [expandFrom_eq]
  generalize Forest.walk (childrenOf nodes) _ [] [root] = visits
  suffices h : ∀ expanded : List ElementId, expanded.Nodup →
      (visits.foldl (fun expanded id => (coveredOf nodes id).foldl listCovered expanded)
        expanded).Nodup from h [] nodup_nil
  induction visits with
  | nil => exact fun _ hnodup => hnodup
  | cons id visits ih => exact fun expanded hnodup => ih _ (hlist _ _ hnodup)

theorem mem_of_mem_expandCovered {root x : ElementId} (h : x ∈ expandCovered nodes root) :
    root ∈ nodes := by
  by_contra habsent
  have hnone : nodes[root]? = none := Std.ExtTreeMap.getElem?_eq_none habsent
  unfold expandCovered at h
  rw [Nat.add_comm, expandFrom, if_neg not_mem_nil, hnone] at h
  revert h
  cases (nodes.toList.map fun entry => entry.2.children.length).sum <;> exact not_mem_nil

end Omp2
