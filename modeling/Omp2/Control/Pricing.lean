import Omp2.Control.Opened
import Omp2.Control.Stages

/-!
# What a node costs and what it saves

A node that a pass makes costs its header and the text of its inventory. It saves what it stands
for: the elements that it elides, or the roots that it condenses. The pass selects by a fixed price
and not by this cost, so a node may cost more than it saves.
-/

namespace Omp2.Control

open Omp2.Json Omp2.State SessionSnapshot List

variable {es : List ElementSnapshot} {dag dag' : SummaryDag}

namespace SummaryDag

/-- What the projection counts for a root. -/
def rootCost (dag : SummaryDag) (id : ElementId) : Nat :=
  ((dag.texts[id]?).map estimateTokens).getD 0 + nodeHeaderTokens

/-- What the projection counts for a new node, which is no root when a node names it already. -/
def newNodeCost (dag : SummaryDag) (id : ElementId) (text : String) : Nat :=
  if dag.children.contains id then 0 else estimateTokens text + nodeHeaderTokens

/-- The nodes with a new one that has no children. -/
def push (dag : SummaryDag) (id : ElementId) (node : SummaryNode) (text : String) : SummaryDag :=
  { dag with
    order := dag.order ++ [id]
    nodes := dag.nodes.insert id node
    texts := dag.texts.insert id text }

theorem projectionTokens_eq (dag : SummaryDag) :
    dag.projectionTokens = (dag.roots.map dag.rootCost).sum :=
  rfl

theorem Of.mem_roots_iff (h : dag.Of es) {id : ElementId} :
    id ∈ dag.roots ↔ id ∈ es.map ElementSnapshot.id ∧ ∀ e ∈ es, id ∉ (nodeOf e).children := by
  unfold roots
  rw [mem_filter, h.order.mem_iff, Bool.not_eq_true', Bool.eq_false_iff, ne_eq,
    Std.ExtTreeSet.contains_iff_mem, h.children]
  simp

theorem Of.nodup_roots (h : dag.Of es) (hnodup : (es.map ElementSnapshot.id).Nodup) :
    dag.roots.Nodup :=
  (h.order.nodup_iff.mpr hnodup).filter _

/-- A new node over the first roots takes their place, unless a node names it already. -/
theorem Of.roots_perm {e : ElementSnapshot} {n : Nat} (h : dag.Of es) (h' : dag'.Of (e :: es))
    (hnodup : ((e :: es).map ElementSnapshot.id).Nodup)
    (hchildren : (nodeOf e).children = dag.roots.take n) :
    dag'.roots.Perm
      ((if dag.children.contains e.id then [] else [e.id]) ++ dag.roots.drop n) := by
  obtain ⟨hfresh, hes⟩ := nodup_cons.mp (map_cons ▸ hnodup)
  have hroots := h.nodup_roots hes
  have hsplit : (dag.roots.take n ++ dag.roots.drop n).Nodup := by
    rw [take_append_drop]
    exact hroots
  obtain ⟨-, hdrop, hdisjoint⟩ := nodup_append.mp hsplit
  have hnew : ∀ id ∈ dag.roots, id ≠ e.id := by
    rintro id hid rfl
    exact hfresh (h.mem_roots_iff.mp hid).1
  have hnamed : dag.children.contains e.id = true ↔ ∃ e' ∈ es, e.id ∈ (nodeOf e').children := by
    rw [Std.ExtTreeSet.contains_iff_mem, h.children]
  refine (perm_ext_iff_of_nodup (h'.nodup_roots hnodup) ?_).mpr fun id => ?_
  · refine nodup_append.mpr ⟨?_, hdrop, fun a ha b hb => ?_⟩
    · split
      · exact nodup_nil
      · exact nodup_singleton _
    · split at ha
      · cases ha
      · obtain rfl := mem_singleton.mp ha
        exact (hnew b (mem_of_mem_drop hb)).symm
  · have hother : id ∈ dag.roots.drop n ↔ id ∈ dag.roots ∧ id ∉ dag.roots.take n := by
      constructor
      · exact fun hid => ⟨mem_of_mem_drop hid, fun hmem => hdisjoint id hmem id hid rfl⟩
      · rintro ⟨hid, hnot⟩
        rw [← take_append_drop n dag.roots] at hid
        exact (mem_append.mp hid).resolve_left hnot
    rw [h'.mem_roots_iff, mem_append, hother, h.mem_roots_iff, map_cons, mem_cons,
      forall_mem_cons, hchildren]
    by_cases hid : id = e.id
    · subst hid
      have hnot : e.id ∉ dag.roots.take n := fun hmem => hnew _ (mem_of_mem_take hmem) rfl
      by_cases hchild : dag.children.contains e.id = true
      · rw [if_pos hchild]
        obtain ⟨e', he', hmem⟩ := hnamed.mp hchild
        simp only [not_mem_nil, false_or]
        exact ⟨fun hroot => absurd hmem (hroot.2.2 e' he'), fun hroot => absurd hroot.1.1 hfresh⟩
      · rw [if_neg hchild]
        have hfree : ∀ e' ∈ es, e.id ∉ (nodeOf e').children :=
          fun e' he' hmem => hchild (hnamed.mpr ⟨e', he', hmem⟩)
        simp only [mem_singleton, true_or, true_and, iff_true]
        exact ⟨hnot, hfree⟩
    · have hnone : id ∉ (if dag.children.contains e.id then [] else [e.id]) := by
        split
        · exact not_mem_nil
        · simpa using hid
      simp only [hid, hnone, false_or]
      constructor
      · exact fun hroot => ⟨⟨hroot.1, hroot.2.2⟩, hroot.2.1⟩
      · exact fun hroot => ⟨hroot.1.1, hroot.2, hroot.1.2⟩

/-- A new node without children. -/
theorem Of.push (h : dag.Of es) (id : ElementId) (node : SummaryNode) (kind : SummaryKind)
    (text : String) (hfresh : id ∉ es.map ElementSnapshot.id) (hleaf : node.children = []) :
    (dag.push id node text).Of (node.toElement id kind text :: es) := by
  have hadded := h.add (e := node.toElement id kind text)
    (by rw [nodeOf_toElement]; exact SummaryNode.fromElement_toElement ..) hfresh
  have hadd : dag.add (node.toElement id kind text) = dag.push id node text := by
    unfold SummaryDag.add
    rw [SummaryNode.fromElement_toElement]
    dsimp only
    rw [hleaf]
    rfl
  exact hadd ▸ hadded

end SummaryDag

/-! ## What an elision saves -/

/-- A node that a pass makes: the projected tokens before and after its commit, what the node costs
and what it saves. -/
structure Commit where
  before : Nat
  after : Nat
  cost : Nat
  savings : Nat

/-- The node over some elided entries. -/
def leafNode (entries : List BodyEntry) (ids : List ElementId) (offset : UInt64) : SummaryNode where
  covered := ids
  children := []
  coveredTokens := UInt64.ofNat ((ids.filterMap fun id => entries.find? fun entry =>
    entry.id = id).map BodyEntry.tokens).sum
  createdOffset := offset

/-- The node over the oldest roots. -/
def condensedNode (dag : SummaryDag) (offset : UInt64) : SummaryNode where
  covered := []
  children := dag.roots.take condenseFanIn
  coveredTokens := ((dag.roots.take condenseFanIn).map fun id =>
    ((dag.nodes[id]?).map SummaryNode.coveredTokens).getD 0).sum
  createdOffset := offset

section Commits

variable [SerdeJson] {j j' : Journal} {owner : ActorId} {config : CompactionConfig}

/-- The commits of the loop that condenses, under a count of the projected tokens. -/
def condensations (count : SummaryDag → Nat) (owner : ActorId) (maxRoots : Nat)
    (draws : Nat → Draw) : Nat → Journal → SummaryDag → List Commit
  | 0, _, _ => []
  | fuel + 1, j, dag =>
    let foldSet := dag.roots.take condenseFanIn
    if dag.roots.length ≤ max maxRoots 1 ∨ foldSet.length < 2 then []
    else
      let text := renderCondensedInventory foldSet dag
      match createNode j owner (condensedNode dag j.snapshot.offset) .condensed text
        (draws fuel) with
      | (_, .error _) => []
      | (j', .ok id) =>
        let dag' := SummaryDag.load j'.snapshot
        ⟨count dag, count dag', dag.newNodeCost id text, (foldSet.map dag.rootCost).sum⟩ ::
          condensations count owner maxRoots draws fuel j' dag'

omit [SerdeJson] in
/-- Nodes that are all readable. -/
def Readable (s : SessionSnapshot) : Prop :=
  ∀ e ∈ summaries s, SummaryNode.fromElement e = .ok (nodeOf e)

/-- A node that is created is loaded over the nodes before it. -/
theorem createNode_loaded {node : SummaryNode} {kind : SummaryKind} {text : String} {draw : Draw}
    {id : ElementId} (hsound : Sound j) (hreadable : Readable j.snapshot)
    (hcreate : createNode j owner node kind text draw = (j', .ok id)) :
    Sound j' ∧ Readable j'.snapshot ∧
      ((node.toElement id kind text :: summaries j.snapshot).map ElementSnapshot.id).Nodup ∧
      (summaries j'.snapshot).Perm (node.toElement id kind text :: summaries j.snapshot) := by
  rcases createNode_cases hsound hcreate with ⟨_, hok, honward, hfresh, hperm⟩ | ⟨⟨_, herror⟩, _⟩
  · cases hok
    refine ⟨honward.sound, fun e he => ?_, ?_, hperm⟩
    · rcases mem_cons.mp (hperm.mem_iff.mp he) with rfl | he
      · rw [nodeOf_toElement]
        exact SummaryNode.fromElement_toElement ..
      · exact hreadable e he
    · exact nodup_cons.mpr ⟨hfresh, nodup_children hsound.wellFormed _⟩
  · cases herror

theorem elided_uncovered {s : SessionSnapshot} (hwf : WellFormed s) (config : CompactionConfig) :
    ∀ id ∈ elided s config, id ∉ (SummaryDag.load s).covered := by
  intro id hid
  have hnodup := (nodup_children hwf (staticId "body")).sublist collectEntries_sublist
  obtain ⟨_, _, _, _, _, _, _, rfl, hmay⟩ := (select_spec _ _ _ hnodup).2 id hid
  exact hmay.2

end Commits

end Omp2.Control

/-! ## An elision that costs more than it saves -/

namespace Omp2.Control

open Omp2.Json.Compact Omp2.State Journal

/-- A message of the user. -/
def userMessage (id : ElementId) (text : String) : ElementSnapshot :=
  { ElementSnapshot.new id "user" with text }

/-- Draws that the clock and the file obey. -/
def fineDraws (minted : ElementId) : Draws where
  elision := ⟨minted, fineOutside⟩
  condensation := fun _ => ⟨minted, fineOutside⟩
  cap := fun _ => fineOutside

/-- The inventory of the first turn. -/
def shortInventory : String :=
  "Elided transcript elements (originals retrievable by id):\n- user: a\n"

end Omp2.Control
