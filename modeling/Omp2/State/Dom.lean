import Omp2.Types.Patch

/-!
# The session document tree

`SessionSnapshot` and its operations from `omp-state/src/dom.rs`: the tree of a fresh
session, the eight patch operations of `applyOne`, their inverses in `undo`, and
`applyPatch`, which runs a whole patch and rolls it back when one operation fails. An
operation returns the snapshot it leaves behind next to its result, because the source
mutates the snapshot in place and a failure may leave it half changed.
-/

namespace Omp2.State

/-- `Node`. -/
structure Node where
  element : ElementSnapshot
  parent : Option ElementId
  children : List ElementId

abbrev NodeMap := Std.ExtTreeMap ElementId Node

/-- `SessionSnapshot`. -/
structure SessionSnapshot where
  sessionId : SessionId
  offset : UInt64
  selectedBranch : BranchId
  nodes : NodeMap
  usedIds : Std.ExtTreeSet ElementId

/-- `StateError`. -/
inductive StateError where
  | wrongBase (actual expected : UInt64)
  | missing (element : String)
  | invalid (message : String)
  | io (message : String)
  | encoding (message : String)
  | writeFailure
deriving DecidableEq, Repr

/-- The `Display` text of a state error. -/
def StateError.display : StateError → String
  | .wrongBase actual expected => s!"patch base {actual} does not match {expected}"
  | .missing element => s!"element not found: {element}"
  | .invalid message => s!"invalid state: {message}"
  | .io message => s!"journal I/O: {message}"
  | .encoding message => s!"journal encoding: {message}"
  | .writeFailure => "journal is damaged or failed; reopen required"

/-- `StateError::structured`. -/
def StateError.structured (e : StateError) : StructuredError :=
  let code := match e with
    | .wrongBase .. => "stale_base"
    | .missing _ => "missing_element"
    | .invalid _ => "invalid_state"
    | .io _ => "journal_io"
    | .encoding _ => "journal_encoding"
    | .writeFailure => "write_failure"
  StructuredError.new code e.display (e matches .wrongBase ..)

/-! ## The structural containers -/

/-- The element id of a name that is fixed in the source. -/
def staticId (name : String) (valid : validId name = true := by exact Eq.refl true) :
    ElementId :=
  ⟨name, valid⟩

/-- The branch every session starts on. -/
def mainBranch : BranchId := ⟨"main", Eq.refl true⟩

/-- `ROOTS`: the structural containers, each after its parent. -/
def roots : List ElementId :=
  [staticId "root", staticId "meta", staticId "body", staticId "queues", staticId "views",
    staticId "convars", staticId "todo", staticId "jobs", staticId "actors",
    staticId "directors", staticId "branches", staticId "artifacts", staticId "capabilities",
    staticId "tools", staticId "steering", staticId "prompts", staticId "approvals",
    staticId "scheduler", staticId "summaries", staticId "providers"]

/-- The parent that `empty` gives to a container. -/
def containerParent (key : ElementId) : Option ElementId :=
  if key.value = "root" then none
  else if key.value ∈ ["meta", "body", "queues", "views"] then some (staticId "root")
  else if key.value ∈ ["steering", "prompts", "approvals", "scheduler"] then
    some (staticId "queues")
  else some (staticId "meta")

namespace SessionSnapshot

/-- Change one node in place; nothing happens when it is absent. -/
def modifyNode (s : SessionSnapshot) (key : ElementId) (f : Node → Node) : SessionSnapshot :=
  { s with nodes := s.nodes.modify key f }

/-- One round of the loop in `empty`, which seeds a container under its parent. -/
def seed (s : SessionSnapshot) (key : ElementId) : SessionSnapshot :=
  let node := { element := ElementSnapshot.new key key.value,
                parent := containerParent key, children := [] }
  let s := { s with nodes := s.nodes.insert key node, usedIds := s.usedIds.insert key }
  match containerParent key with
  | some parent => s.modifyNode parent fun n => { n with children := n.children ++ [key] }
  | none => s

/-- `SessionSnapshot::empty`. -/
def empty (sessionId : SessionId) : SessionSnapshot :=
  roots.foldl seed
    { sessionId, offset := 0, selectedBranch := mainBranch, nodes := ∅, usedIds := ∅ }

/-! ## Reading the tree -/

/-- `element`. -/
def element (s : SessionSnapshot) (key : ElementId) : Option ElementSnapshot :=
  s.nodes[key]?.map Node.element

/-- `children`: the elements a node lists, without those that are absent. -/
def children (s : SessionSnapshot) (parent : ElementId) : List ElementSnapshot :=
  match s.nodes[parent]? with
  | some node => node.children.filterMap s.element
  | none => []

/-- `is_terminal`. -/
def isTerminal (e : ElementSnapshot) : Bool :=
  match e.attributes["status"]? with
  | some (.string status) => (Status.fromDomStr status).any Status.isTerminalSession
  | _ => false

/-- `get_visible_body`. -/
def getVisibleBody (s : SessionSnapshot) : List ElementSnapshot :=
  s.children (staticId "body")

/-- `active_jobs`. -/
def activeJobs (s : SessionSnapshot) : List ElementSnapshot :=
  (s.children (staticId "jobs")).filter fun e => !isTerminal e

/-- `require`. -/
def require (s : SessionSnapshot) (key : ElementId) : Except StateError Node :=
  match s.nodes[key]? with
  | some node => .ok node
  | none => .error (.missing key.value)

/-- `mutable_location`: the parent of a movable node and its index there. -/
def mutableLocation (s : SessionSnapshot) (key : ElementId) :
    Except StateError (ElementId × Nat) :=
  if key ∈ roots then .error (.invalid "cannot remove or move structural container")
  else match s.nodes[key]? with
    | none => .error (.missing key.value)
    | some node =>
      match node.parent with
      | none => .error (.invalid "orphan node")
      | some parent =>
        match s.nodes[parent]? with
        | none => .error (.invalid "parent/child desync: missing parent")
        | some parentNode =>
          match parentNode.children.idxOf? key with
          | none => .error (.invalid "parent/child desync")
          | some index => .ok (parent, index)

end SessionSnapshot

/-! ## The patch operations -/

/-- `Undo`: what it takes to reverse one applied operation. -/
inductive Undo where
  | create (key : ElementId)
  | delete (nodes : List (ElementId × Node)) (parent : ElementId) (index : Nat)
  | move (key parent : ElementId) (index : Nat)
  | attribute (key : ElementId) (name : String) (value : Option TypedValue)
  | text (key : ElementId) (value : String)
  | append (key : ElementId) (length : Nat)
  | payload (key : ElementId) (value : Option Json.Value)

/-- The loop of the `Delete` arm, with the stack held top first. Each round removes a node, so the
size of the map is enough fuel. -/
def removeSubtree : Nat → NodeMap → List ElementId → List (ElementId × Node) →
    NodeMap × Except StateError (List (ElementId × Node))
  | _, nodes, [], removed => (nodes, .ok removed)
  | 0, nodes, _ :: _, _ => (nodes, .error (.invalid "dangling child reference"))
  | fuel + 1, nodes, key :: stack, removed =>
    match nodes[key]? with
    | none => (nodes, .error (.invalid "dangling child reference"))
    | some node =>
      removeSubtree fuel (nodes.erase key) (node.children.reverse ++ stack)
        (removed ++ [(key, node)])

/-- The loop of the `Move` arm: climb from the target to the root and refuse to meet the moved
element. The last error marks a climb that ran out of fuel, which `refuseCycle_total` excludes. -/
def refuseCycle (nodes : NodeMap) (element : ElementId) :
    Nat → Option ElementId → Except StateError Unit
  | _, none => .ok ()
  | 0, some _ => .error (.invalid "parent chain does not end")
  | fuel + 1, some key =>
    if key = element then .error (.invalid "move creates cycle")
    else match nodes[key]? with
      | none => .error (.invalid "move target missing")
      | some node => refuseCycle nodes element fuel node.parent

namespace SessionSnapshot

/-- The `Create` arm of `apply_one`. -/
def applyCreate (s : SessionSnapshot) (parent : ElementId) (index : UInt32)
    (element : ElementSnapshot) : SessionSnapshot × Except StateError Undo :=
  if s.usedIds.contains element.id then
    (s, .error (.invalid "element identifier already used"))
  else match s.require parent with
    | .error e => (s, .error e)
    | .ok node =>
      if node.children.length < index.toNat then
        (s, .error (.invalid "child index outside parent"))
      else
        let s := s.modifyNode parent fun n =>
          { n with children := n.children.insertIdx index.toNat element.id }
        let node := { element, parent := some parent, children := [] }
        ({ s with nodes := s.nodes.insert element.id node,
                  usedIds := s.usedIds.insert element.id }, .ok (.create element.id))

/-- The `Delete` arm of `apply_one`. -/
def applyDelete (s : SessionSnapshot) (element : ElementId) :
    SessionSnapshot × Except StateError Undo :=
  match s.mutableLocation element with
  | .error e => (s, .error e)
  | .ok (parent, index) =>
    let s := s.modifyNode parent fun n => { n with children := n.children.eraseIdx index }
    match removeSubtree s.nodes.size s.nodes [element] [] with
    | (nodes, .error e) => ({ s with nodes }, .error e)
    | (nodes, .ok removed) => ({ s with nodes }, .ok (.delete removed parent index))

/-- The `Move` arm of `apply_one`. -/
def applyMove (s : SessionSnapshot) (element parent : ElementId) (index : UInt32) :
    SessionSnapshot × Except StateError Undo :=
  match s.mutableLocation element with
  | .error e => (s, .error e)
  | .ok (oldParent, oldIndex) =>
    match s.require parent with
    | .error e => (s, .error e)
    | .ok target =>
      if target.children.length - (if oldParent = parent then 1 else 0) < index.toNat then
        (s, .error (.invalid "move index outside post-removal parent"))
      else match refuseCycle s.nodes element (s.nodes.size + 1) (some parent) with
        | .error e => (s, .error e)
        | .ok () =>
          let s := s.modifyNode oldParent fun n =>
            { n with children := n.children.eraseIdx oldIndex }
          let s := s.modifyNode parent fun n =>
            { n with children := n.children.insertIdx index.toNat element }
          let s := s.modifyNode element fun n => { n with parent := some parent }
          (s, .ok (.move element oldParent oldIndex))

/-- Change the element of a node. -/
def setElement (f : ElementSnapshot → ElementSnapshot) (n : Node) : Node :=
  { n with element := f n.element }

/-- The arms of `apply_one` that change the contents of one element: `change` is the new element
and `old` what it takes to undo the change. -/
def applyContent (s : SessionSnapshot) (key : ElementId)
    (change : ElementSnapshot → ElementSnapshot) (old : ElementSnapshot → Undo) :
    SessionSnapshot × Except StateError Undo :=
  match s.require key with
  | .error e => (s, .error e)
  | .ok node =>
    (s.modifyNode key (setElement change), .ok (old node.element))

/-- `apply_one`. -/
def applyOne (s : SessionSnapshot) : PatchOp → SessionSnapshot × Except StateError Undo
  | .create parent index element => s.applyCreate parent index element
  | .delete element => s.applyDelete element
  | .move element parent index => s.applyMove element parent index
  | .setAttribute key name value =>
    s.applyContent key (fun e => { e with attributes := e.attributes.insert name value })
      fun e => .attribute key name e.attributes[name]?
  | .removeAttribute key name =>
    s.applyContent key (fun e => { e with attributes := e.attributes.erase name })
      fun e => .attribute key name e.attributes[name]?
  | .replaceText key text =>
    s.applyContent key (fun e => { e with text }) fun e => .text key e.text
  | .appendText key text =>
    s.applyContent key (fun e => { e with text := e.text ++ text })
      fun e => .append key e.text.utf8ByteSize
  | .replacePayload key payload =>
    s.applyContent key (fun e => { e with payload := some payload })
      fun e => .payload key e.payload

/-- Put a removed or moved child back into a list, at its old index or at the end. -/
def restoreChild (index : Nat) (key : ElementId) (n : Node) : Node :=
  { n with children := n.children.insertIdx (min index n.children.length) key }

/-- Drop every mention of a child. -/
def dropChild (key : ElementId) (n : Node) : Node :=
  { n with children := n.children.filter (· ≠ key) }

/-- Give an attribute its old value back, or remove it when it had none. -/
def restoreAttribute (name : String) (value : Option TypedValue) (attributes : Attributes) :
    Attributes :=
  match value with
  | some v => attributes.insert name v
  | none => attributes.erase name

/-- `undo`: roll back one applied operation. -/
def undo (s : SessionSnapshot) : Undo → SessionSnapshot
  | .create key =>
    match s.nodes[key]? with
    | none => s
    | some node =>
      let s := { s with nodes := s.nodes.erase key }
      let s := match node.parent with
        | some parent => s.modifyNode parent (dropChild key)
        | none => s
      { s with usedIds := s.usedIds.erase key }
  | .delete removed parent index =>
    match removed with
    | [] => s
    | (key, _) :: _ =>
      let nodes := removed.foldl (fun nodes entry => nodes.insert entry.1 entry.2) s.nodes
      { s with nodes }.modifyNode parent (restoreChild index key)
  | .move key parent index =>
    let s := match s.nodes[key]?.bind Node.parent with
      | some current => s.modifyNode current (dropChild key)
      | none => s
    let s := s.modifyNode parent (restoreChild index key)
    s.modifyNode key fun n => { n with parent := some parent }
  | .attribute key name value =>
    s.modifyNode key (setElement fun e =>
      { e with attributes := restoreAttribute name value e.attributes })
  | .text key value => s.modifyNode key (setElement fun e => { e with text := value })
  | .append key length =>
    s.modifyNode key (setElement fun e =>
      { e with text := Text.truncate e.text (min length e.text.utf8ByteSize) })
  | .payload key value => s.modifyNode key (setElement fun e => { e with payload := value })

/-- The loop of `apply_patch`, with the undo records of the operations done so far, the newest
first. A failed operation rolls all of them back. -/
def applyOps (s : SessionSnapshot) (done : List Undo) :
    List PatchOp → SessionSnapshot × Except StateError Unit
  | [] => (s, .ok ())
  | op :: rest =>
    match s.applyOne op with
    | (s', .ok value) => s'.applyOps (value :: done) rest
    | (s', .error e) => (done.foldl undo s', .error e)

variable [Json.SerdeJson]

/-- `apply_patch`. -/
def applyPatch (s : SessionSnapshot) (patch : Patch) : SessionSnapshot × Except StateError Unit :=
  match patch.validate with
  | .error e => (s, .error (.invalid e.display))
  | .ok () =>
    if patch.baseOffset ≠ s.offset then
      (s, .error (.wrongBase patch.baseOffset s.offset))
    else match s.applyOps [] patch.ops with
      | (s', .error e) => (s', .error e)
      | (s', .ok ()) => ({ s' with offset := patch.resultOffset }, .ok ())

end SessionSnapshot

end Omp2.State
