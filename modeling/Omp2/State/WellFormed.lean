import Omp2.State.Links

/-!
# The document tree is one rooted tree

`WellFormed` is the invariant of a document tree: its links form one tree below `root`, the
structural containers stand under their original parents, a node carries the identifier it is
stored under, and every live identifier is used. The tree of a fresh session is well formed,
and every accepted operation keeps it well formed, because each of them is one edit of the
links.
-/

namespace Omp2.State

open OrderedTree Relation List

namespace SessionSnapshot

/-- The invariant of a document tree. -/
structure WellFormed (s : SessionSnapshot) : Prop where
  tree : Rooted s.links rootId
  containers : ∀ key ∈ roots, ∃ node, s.nodes[key]? = some node ∧ node.parent = containerParent key
  named : ∀ {key} {node : Node}, s.nodes[key]? = some node → node.element.id = key
  used : ∀ {key} {node : Node}, s.nodes[key]? = some node → key ∈ s.usedIds

end SessionSnapshot

/-! ## The tree of a fresh session -/

theorem containerParent_mem : ∀ key ∈ roots, key = rootId ∨
    ∃ up ∈ roots, containerParent key = some up := by
  decide +kernel

theorem mem_roots_of_parent : ∀ key ∈ roots, ∀ up ∈ containerParent key, up ∈ roots := by
  decide +kernel

theorem containerParent_earlier : ∀ i : Fin roots.length,
    ∀ up ∈ containerParent roots[i], up ∈ roots.take i := by
  decide +kernel

theorem roots_nodup : roots.Nodup := by
  decide +kernel

/-- What passes from parents to children holds of all containers if it does of the root. -/
theorem containers_induction {P : ElementId → Prop} (hroot : P rootId)
    (hstep : ∀ key ∈ roots, ∀ up ∈ roots, containerParent key = some up → P up → P key) :
    ∀ key ∈ roots, P key := by
  have hshallow : ∀ key ∈ roots, key = rootId ∨ containerParent key = some rootId ∨
      ∃ up ∈ roots, containerParent key = some up ∧ containerParent up = some rootId := by
    decide +kernel
  have hmem : rootId ∈ roots := by decide +kernel
  intro key hkey
  rcases hshallow key hkey with rfl | hup | ⟨up, hmemup, hup, htop⟩
  · exact hroot
  · exact hstep key hkey rootId hmem hup hroot
  · exact hstep key hkey up hmemup hup (hstep up hmemup rootId hmem htop hroot)

/-- The node of a container once the containers in `seeded` exist. -/
def containerNode (seeded : List ElementId) (key : ElementId) : Node :=
  { element := ElementSnapshot.new key key.value, parent := containerParent key,
    children := seeded.filter fun c => containerParent c = some key }

namespace SessionSnapshot

/-- The snapshot holds exactly the containers in `seeded`. -/
structure Seeded (s : SessionSnapshot) (seeded : List ElementId) : Prop where
  get : ∀ a, s.nodes[a]? = if a ∈ seeded then some (containerNode seeded a) else none
  used : ∀ a, a ∈ s.usedIds ↔ a ∈ seeded

/-- One round of the loop in `empty` adds one container. -/
theorem Seeded.seed {s : SessionSnapshot} {seeded : List ElementId} {key : ElementId}
    (h : Seeded s seeded) (hnew : key ∉ seeded)
    (hup : ∀ up ∈ containerParent key, up ∈ seeded)
    (hups : ∀ c ∈ seeded, ∀ up ∈ containerParent c, up ∈ seeded) :
    Seeded (s.seed key) (seeded ++ [key]) := by
  have hleaf : seeded.filter (fun c => containerParent c = some key) = [] := by
    rw [filter_eq_nil_iff]
    intro c hc hparent
    exact hnew (hups c hc key (by simpa using hparent))
  have hself : containerParent key ≠ some key := fun heq => hnew (hup key heq)
  have hnode : (⟨ElementSnapshot.new key key.value, containerParent key, []⟩ : Node) =
      containerNode (seeded ++ [key]) key := by
    simp [containerNode, hleaf, hself]
  have hother : ∀ a, containerParent key ≠ some a →
      containerNode (seeded ++ [key]) a = containerNode seeded a := by
    intro a ha
    simp [containerNode, ha]
  have hget : ∀ a, (s.nodes.insert key (containerNode (seeded ++ [key]) key))[a]? =
      if a ∈ seeded ++ [key] then
        some (if a = key then containerNode (seeded ++ [key]) a else containerNode seeded a)
      else none := by
    intro a
    rw [getElem?_insert, h.get]
    by_cases ha : key = a
    · subst ha
      simp
    · simp [ha, Ne.symm ha]
  constructor
  · intro a
    unfold SessionSnapshot.seed
    simp only [hnode]
    split
    · next up hparent =>
      show (Std.ExtTreeMap.modify _ up _)[a]? = _
      rw [getElem?_modify, hget]
      have hupmem := hup up hparent
      by_cases ha : up = a
      · subst ha
        have hne : up ≠ key := fun heq => hnew (heq ▸ hupmem)
        simp [hupmem, hne, containerNode, hparent]
      · rw [if_neg ha]
        have hna : containerParent key ≠ some a := by
          rw [hparent]
          exact fun heq => ha (Option.some.inj heq)
        rw [hother a hna]
        simp
    · next hparent =>
      show (Std.ExtTreeMap.insert _ key _)[a]? = _
      rw [hget, hother a (by simp [hparent])]
      simp
  · intro a
    have husedIds : (s.seed key).usedIds = s.usedIds.insert key := by
      unfold SessionSnapshot.seed
      dsimp only
      split <;> rfl
    rw [husedIds, Std.ExtTreeSet.mem_insert, h.used, mem_append, mem_singleton,
      Std.compare_eq_iff_eq, eq_comm, or_comm]

theorem seed_rest (s : SessionSnapshot) (key : ElementId) :
    (s.seed key).sessionId = s.sessionId ∧ (s.seed key).offset = s.offset ∧
      (s.seed key).selectedBranch = s.selectedBranch := by
  unfold SessionSnapshot.seed
  dsimp only
  split <;> exact ⟨rfl, rfl, rfl⟩

/-- A fresh snapshot stands at the start of the main branch. -/
theorem empty_rest (sessionId : SessionId) : (empty sessionId).sessionId = sessionId ∧
    (empty sessionId).offset = 0 ∧ (empty sessionId).selectedBranch = mainBranch := by
  have hfold : ∀ (keys : List ElementId) (s : SessionSnapshot),
      (keys.foldl seed s).sessionId = s.sessionId ∧ (keys.foldl seed s).offset = s.offset ∧
        (keys.foldl seed s).selectedBranch = s.selectedBranch := by
    intro keys
    induction keys with
    | nil => exact fun s => ⟨rfl, rfl, rfl⟩
    | cons key keys ih =>
      intro s
      obtain ⟨hsession, hoffset, hbranch⟩ := seed_rest s key
      obtain ⟨hsession', hoffset', hbranch'⟩ := ih (s.seed key)
      exact ⟨hsession'.trans hsession, hoffset'.trans hoffset, hbranch'.trans hbranch⟩
  exact hfold roots _

/-- A fresh snapshot holds exactly the structural containers. -/
theorem seeded_empty (sessionId : SessionId) : Seeded (empty sessionId) roots := by
  have hprefix : ∀ i ≤ roots.length,
      Seeded ((roots.take i).foldl seed
        { sessionId, offset := 0, selectedBranch := mainBranch, nodes := ∅, usedIds := ∅ })
        (roots.take i) := by
    intro i
    induction i with
    | zero => exact fun _ => ⟨by simp, by simp⟩
    | succ i ih =>
      intro hi
      have hlt : i < roots.length := hi
      have htake : roots.take (i + 1) = roots.take i ++ [roots[i]] :=
        (take_append_getElem hlt).symm
      rw [htake, foldl_append]
      refine (ih (Nat.le_of_lt hlt)).seed ?_ (containerParent_earlier ⟨i, hlt⟩) ?_
      · have hnodup := roots_nodup.sublist (take_sublist (i + 1) roots)
        rw [htake, nodup_append] at hnodup
        exact fun hmem => hnodup.2.2 _ hmem _ (mem_singleton_self _) rfl
      · intro c hc up hup
        obtain ⟨j, hj, rfl⟩ := mem_take_iff_getElem.mp hc
        have hji : j < i := by omega
        have hmem := containerParent_earlier ⟨j, by omega⟩ up hup
        exact (take_subset_take_left roots (Nat.le_of_lt hji)) hmem
  have h := hprefix roots.length (Nat.le_refl _)
  rw [take_length] at h
  exact h

/-- The tree of a fresh session is well formed. -/
theorem empty_wellFormed (sessionId : SessionId) : WellFormed (empty sessionId) := by
  have h := seeded_empty sessionId
  have hlink : ∀ {key link}, (empty sessionId).links key = some link →
      key ∈ roots ∧ link = (containerNode roots key).link := by
    intro key link hkey
    obtain ⟨node, hnode, rfl⟩ := linksOf_eq_some.mp hkey
    rw [h.get] at hnode
    split at hnode
    · next hmem => exact ⟨hmem, by rw [Option.some.inj hnode]⟩
    · cases hnode
  have hof : ∀ {key}, key ∈ roots →
      (empty sessionId).links key = some (containerNode roots key).link := by
    intro key hmem
    exact linksOf_of_get (by rw [h.get, if_pos hmem])
  have hroot : rootId ∈ roots := by decide +kernel
  have hreach : ∀ key ∈ roots, ReflTransGen (Up (empty sessionId).links) key rootId := by
    refine containers_induction .refl ?_
    intro key hkey up _ hup hreach
    exact .head ⟨_, hof hkey, hup⟩ hreach
  refine ⟨⟨⟨_, hof hroot, by decide +kernel⟩, ?_, ?_, ?_, ?_⟩, ?_, ?_, ?_⟩
  · intro key link hkey hne
    obtain ⟨hmem, rfl⟩ := hlink hkey
    obtain ⟨up, hup, hparent⟩ := (containerParent_mem key hmem).resolve_left hne
    refine ⟨up, _, hparent, hof hup, ?_⟩
    show key ∈ roots.filter fun c => containerParent c = some up
    simp [hmem, hparent]
  · intro key link c hkey hc
    obtain ⟨hmem, rfl⟩ := hlink hkey
    obtain ⟨hcmem, hparent⟩ := mem_filter.mp hc
    exact ⟨_, hof hcmem, by simpa [Node.link, containerNode] using hparent⟩
  · intro key link hkey
    obtain ⟨_, rfl⟩ := hlink hkey
    show (roots.filter fun c => containerParent c = some key).Nodup
    exact roots_nodup.filter _
  · intro key link hkey
    exact hreach key (hlink hkey).1
  · intro key hkey
    exact ⟨_, by rw [h.get, if_pos hkey], rfl⟩
  · intro key node hnode
    rw [h.get] at hnode
    split at hnode
    · cases hnode
      rfl
    · cases hnode
  · intro key node hnode
    rw [h.get] at hnode
    split at hnode
    · next hmem => exact (h.used key).mpr hmem
    · cases hnode

/-! ## What an accepted operation has done -/

variable {s s' : SessionSnapshot} {u : Undo}

/-- An accepted `Create` inserts a leaf under a fresh identifier. -/
theorem applyCreate_ok {parent : ElementId} {index : UInt32} {element : ElementSnapshot}
    (h : s.applyCreate parent index element = (s', .ok u)) :
    element.id ∉ s.usedIds ∧ (∃ node, s.nodes[parent]? = some node ∧
        index.toNat ≤ node.children.length) ∧
      s' = { s with
        nodes := (s.nodes.modify parent fun n =>
            { n with children := n.children.insertIdx index.toNat element.id }).insert element.id
          { element, parent := some parent, children := [] }
        usedIds := s.usedIds.insert element.id } ∧
      u = .create element.id := by
  unfold applyCreate at h
  split at h
  · cases h
  · next hused =>
    split at h
    · cases h
    · next node hnode =>
      split at h
      · cases h
      · next hindex =>
        cases h
        exact ⟨by simpa using hused, ⟨node, require_ok hnode, Nat.le_of_not_lt hindex⟩,
          rfl, rfl⟩

/-- The node map of a deletion once the subtree is unlinked from its parent. -/
def unlink (s : SessionSnapshot) (parent : ElementId) (index : Nat) : NodeMap :=
  s.nodes.modify parent fun n => { n with children := n.children.eraseIdx index }

/-- Unlinking a subtree of a tree leaves a detached map. -/
theorem detached_unlink {element parent : ElementId} {index : Nat} {node parentNode : Node}
    (h : Rooted s.links rootId) (hnode : s.nodes[element]? = some node)
    (hparent : node.parent = some parent) (hparentNode : s.nodes[parent]? = some parentNode)
    (hindex : parentNode.children[index]? = some element) :
    Detached (s.unlink parent index) element := by
  -- an unlinked map lists the same children, but for the element
  have hget : ∀ {key : ElementId} {n : Node}, (s.unlink parent index)[key]? = some n →
      ∃ old : Node, s.nodes[key]? = some old ∧ n.children.Nodup ∧
        ∀ c ∈ n.children, c ∈ old.children ∧ c ≠ element := by
    intro key n hkey
    unfold unlink at hkey
    rw [getElem?_modify] at hkey
    split at hkey
    · next heq =>
      subst heq
      rw [hparentNode] at hkey
      cases hkey
      have hnodup := h.nodup (linksOf_of_get hparentNode)
      refine ⟨parentNode, hparentNode, hnodup.sublist (eraseIdx_sublist ..), ?_⟩
      exact fun c hc => (mem_eraseIdx_of_nodup hnodup hindex).mp hc
    · next hne =>
      refine ⟨n, hkey, h.nodup (linksOf_of_get hkey), fun c hc => ⟨hc, ?_⟩⟩
      rintro rfl
      have hup := h.parent_of_mem (linksOf_of_get hkey) (linksOf_of_get hnode) hc
      exact hne (Option.some.inj (hparent.symm.trans hup))
  refine ⟨?_, ?_, ?_⟩
  · intro up c n hup hc
    obtain ⟨old, hold, _, hsub⟩ := hget hup
    obtain ⟨hmem, hne⟩ := hsub c hc
    obtain ⟨link, hlink, _⟩ := h.child (linksOf_of_get hold) hmem
    obtain ⟨child, hchild, _⟩ := linksOf_eq_some.mp hlink
    refine ⟨hne, ?_⟩
    unfold unlink
    rw [getElem?_modify, hchild]
    split
    · exact ⟨_, rfl⟩
    · exact ⟨_, rfl⟩
  · intro up other c n n' hup hother hc hc'
    obtain ⟨old, hold, _, hsub⟩ := hget hup
    obtain ⟨old', hold', _, hsub'⟩ := hget hother
    obtain ⟨link, hlink, hpc⟩ := h.child (linksOf_of_get hold) (hsub c hc).1
    have hpc' := h.parent_of_mem (linksOf_of_get hold') hlink (hsub' c hc').1
    exact Option.some.inj (hpc.symm.trans hpc')
  · intro up n hup
    obtain ⟨_, _, hnodup, _⟩ := hget hup
    exact hnodup

/-- The removal of an unlinked subtree succeeds. -/
theorem removeSubtree_unlink {element parent : ElementId} {index : Nat} {node parentNode : Node}
    (h : Rooted s.links rootId) (hnode : s.nodes[element]? = some node)
    (hparent : node.parent = some parent) (hparentNode : s.nodes[parent]? = some parentNode)
    (hindex : parentNode.children[index]? = some element) :
    ∃ removed, (removeSubtree (s.unlink parent index).size (s.unlink parent index) [element] []).2 =
      .ok removed := by
  have hdetached := detached_unlink h hnode hparent hparentNode hindex
  have hsweep : Sweeping (s.unlink parent index) element (s.unlink parent index) [element] [] := by
    refine ⟨by simp, nodup_singleton _, ?_, by simp⟩
    intro key hkey
    obtain rfl := mem_singleton.mp hkey
    refine ⟨not_mem_nil, ?_⟩
    unfold unlink
    rw [getElem?_modify, hnode]
    split
    · exact ⟨_, rfl⟩
    · exact ⟨_, rfl⟩
  exact removeSubtree_total hdetached hsweep (Nat.le_refl _)

/-- A `Delete` of a tree is refused before it touches the tree, or it removes the subtree. -/
theorem applyDelete_cases {element : ElementId} {result : Except StateError Undo}
    (hwf : WellFormed s) (h : s.applyDelete element = (s', result)) :
    (∃ e, result = .error e ∧ s' = s) ∨
    ∃ parent index node parentNode removed rest,
      element ∉ roots ∧ s.nodes[element]? = some node ∧ node.parent = some parent ∧
      s.nodes[parent]? = some parentNode ∧ parentNode.children[index]? = some element ∧
      Removed (s.unlink parent index) rest [element] removed ∧
      s' = { s with nodes := rest } ∧ result = .ok (.delete removed parent index) := by
  unfold applyDelete at h
  split at h
  · cases h
    exact .inl ⟨_, rfl, rfl⟩
  · next parent index hlocation =>
    obtain ⟨hroots, node, parentNode, hnode, hparent, hparentNode, hindex⟩ :=
      mutableLocation_ok hlocation
    obtain ⟨removed, htotal⟩ := removeSubtree_unlink hwf.tree hnode hparent hparentNode hindex
    dsimp only [modifyNode] at h
    unfold unlink at htotal
    split at h
    · next rest e hloop =>
      rw [hloop] at htotal
      cases htotal
    · next rest gone hloop =>
      cases h
      obtain ⟨_, rfl, hgone⟩ := removeSubtree_removed hloop
      exact .inr ⟨parent, index, node, parentNode, _, rest, hroots, hnode, hparent,
        hparentNode, hindex, hgone, rfl, rfl⟩

/-- An accepted `Move` relinks the element under a parent outside of its subtree. -/
theorem applyMove_ok {element parent : ElementId} {index : UInt32}
    (h : s.applyMove element parent index = (s', .ok u)) :
    ∃ oldParent oldIndex node oldNode target,
      element ∉ roots ∧ s.nodes[element]? = some node ∧ node.parent = some oldParent ∧
      s.nodes[oldParent]? = some oldNode ∧ oldNode.children[oldIndex]? = some element ∧
      s.nodes[parent]? = some target ∧
      index.toNat ≤ target.children.length - (if oldParent = parent then 1 else 0) ∧
      refuseCycle s.nodes element (s.nodes.size + 1) (some parent) = .ok () ∧
      s' = ((s.modifyNode oldParent fun n => { n with children := n.children.eraseIdx oldIndex
        }).modifyNode parent fun n => { n with children := n.children.insertIdx index.toNat element
        }).modifyNode element (fun n => { n with parent := some parent }) ∧
      u = .move element oldParent oldIndex := by
  unfold applyMove at h
  split at h
  · cases h
  · next oldParent oldIndex hlocation =>
    obtain ⟨hroots, node, oldNode, hnode, hparent, holdNode, hindex⟩ :=
      mutableLocation_ok hlocation
    split at h
    · cases h
    · next target htarget =>
      by_cases hlt : target.children.length - (if oldParent = parent then 1 else 0) <
          index.toNat
      · rw [if_pos hlt] at h
        cases h
      · rw [if_neg hlt] at h
        split at h
        · cases h
        · next hclimb =>
          cases h
          exact ⟨oldParent, oldIndex, node, oldNode, target, hroots, hnode, hparent,
            holdNode, hindex, require_ok htarget, Nat.le_of_not_lt hlt, hclimb, rfl, rfl⟩

/-- An accepted change of contents changes one present element. -/
theorem applyContent_ok {key : ElementId} {change : ElementSnapshot → ElementSnapshot}
    {old : ElementSnapshot → Undo} (h : s.applyContent key change old = (s', .ok u)) :
    ∃ node, s.nodes[key]? = some node ∧ u = old node.element ∧
      s' = s.modifyNode key (setElement change) := by
  unfold applyContent at h
  split at h
  · cases h
  · next node hnode =>
    cases h
    exact ⟨node, require_ok hnode, rfl, rfl⟩

/-- A refused operation has not touched a well-formed tree. -/
theorem applyOne_error {op : PatchOp} {e : StateError} (hwf : WellFormed s)
    (h : s.applyOne op = (s', .error e)) : s' = s := by
  have hcontent : ∀ {key change old}, s.applyContent key change old = (s', .error e) → s' = s := by
    intro key change old h
    unfold applyContent at h
    split at h <;> cases h
    rfl
  cases op with
  | create parent index element =>
      simp only [applyOne, applyCreate] at h
      split at h
      · cases h
        rfl
      · split at h
        · cases h
          rfl
        · split at h <;> cases h
          rfl
  | delete element =>
      rcases applyDelete_cases hwf h with ⟨_, _, rfl⟩ | ⟨_, _, _, _, _, _, _, _, _, _, _, _, _, hr⟩
      · rfl
      · cases hr
  | move element parent index =>
      simp only [applyOne, applyMove] at h
      split at h
      · cases h
        rfl
      · next oldParent oldIndex _ =>
        split at h
        · cases h
          rfl
        · next target _ =>
          by_cases hlt : target.children.length - (if oldParent = parent then 1 else 0) <
              index.toNat
          · rw [if_pos hlt] at h
            cases h
            rfl
          · rw [if_neg hlt] at h
            split at h <;> cases h
            rfl
  | setAttribute =>
      dsimp only [SessionSnapshot.applyOne] at h
      exact hcontent h
  | removeAttribute =>
      dsimp only [SessionSnapshot.applyOne] at h
      exact hcontent h
  | replaceText =>
      dsimp only [SessionSnapshot.applyOne] at h
      exact hcontent h
  | appendText =>
      dsimp only [SessionSnapshot.applyOne] at h
      exact hcontent h
  | replacePayload =>
      dsimp only [SessionSnapshot.applyOne] at h
      exact hcontent h

/-! ## Every accepted operation keeps the tree well formed -/

/-- A `Create` keeps the tree well formed. -/
theorem WellFormed.create {parent : ElementId} {index : UInt32} {element : ElementSnapshot}
    (hwf : WellFormed s) (h : s.applyCreate parent index element = (s', .ok u)) :
    WellFormed s' := by
  obtain ⟨hfresh, ⟨parentNode, hparent, hindex⟩, rfl, rfl⟩ := applyCreate_ok h
  have habsent : s.nodes[element.id]? = none := by
    cases hget : s.nodes[element.id]? with
    | none => rfl
    | some node => exact absurd (hwf.used hget) hfresh
  have hcases : ∀ {key : ElementId} {node : Node},
      ((s.nodes.modify parent fun n =>
          { n with children := n.children.insertIdx index.toNat element.id }).insert element.id
        { element, parent := some parent, children := [] })[key]? = some node →
      key = element.id ∧ node.element = element ∨
        ∃ old, s.nodes[key]? = some old ∧ node.element = old.element ∧ node.parent = old.parent := by
    intro key node hkey
    rw [getElem?_insert] at hkey
    split at hkey
    · next heq =>
      cases hkey
      exact .inl ⟨heq.symm, rfl⟩
    · obtain ⟨old, hold, rfl⟩ := getElem?_modify_eq_some.mp hkey
      refine .inr ⟨old, hold, ?_⟩
      split <;> exact ⟨rfl, rfl⟩
  refine ⟨?_, ?_, ?_, ?_⟩
  · show Rooted (linksOf _) rootId
    rw [linksOf_create]
    refine hwf.tree.insertLeaf ?_ (linksOf_of_get hparent) hindex
    show (s.nodes[element.id]?).map Node.link = none
    rw [habsent]
    rfl
  · intro key hkey
    obtain ⟨node, hnode, hup⟩ := hwf.containers key hkey
    have hne : element.id ≠ key := by
      rintro heq
      rw [heq, hnode] at habsent
      cases habsent
    rw [getElem?_insert, if_neg hne]
    refine ⟨_, getElem?_modify_eq_some.mpr ⟨node, hnode, rfl⟩, ?_⟩
    split <;> exact hup
  · intro key node hkey
    rcases hcases hkey with ⟨rfl, heq⟩ | ⟨old, hold, heq, _⟩
    · rw [heq]
    · rw [heq]
      exact hwf.named hold
  · intro key node hkey
    rw [Std.ExtTreeSet.mem_insert, Std.compare_eq_iff_eq]
    rcases hcases hkey with ⟨rfl, _⟩ | ⟨old, hold, _⟩
    · exact .inl rfl
    · exact .inr (hwf.used hold)

/-- A node that is left after a deletion stood in the tree with the same element and parent. -/
theorem get_of_removed {parent element : ElementId} {index : Nat}
    {removed : List (ElementId × Node)} {rest : NodeMap} {key : ElementId} {node : Node}
    (h : Removed (s.unlink parent index) rest [element] removed) (hkey : rest[key]? = some node) :
    key ∉ removed.map Prod.fst ∧ ∃ old, s.nodes[key]? = some old ∧ node.element = old.element ∧
      node.parent = old.parent := by
  rw [h.get] at hkey
  split at hkey
  · cases hkey
  · next hmem =>
    obtain ⟨old, hold, rfl⟩ := getElem?_modify_eq_some.mp hkey
    refine ⟨hmem, old, hold, ?_⟩
    split <;> exact ⟨rfl, rfl⟩

/-- Every removed node but the first has its parent among the removed ones. -/
theorem parent_of_removed {parent element : ElementId} {index : Nat}
    {removed : List (ElementId × Node)} {rest : NodeMap} (hwf : WellFormed s)
    (h : Removed (s.unlink parent index) rest [element] removed) :
    ∀ key ∈ removed.map Prod.fst, key ≠ element →
      ∃ up ∈ removed.map Prod.fst, Up s.links key up := by
  intro key hkey hne
  rcases h.owned key hkey with hstack | ⟨⟨up, upNode⟩, hentry, hchild⟩
  · exact absurd (mem_singleton.mp hstack) hne
  · refine ⟨up, mem_map_of_mem hentry, ?_⟩
    obtain ⟨old, hold, heq⟩ := getElem?_modify_eq_some.mp (h.mem hentry)
    have hlisted : key ∈ old.link.children := by
      show key ∈ old.children
      rw [heq] at hchild
      split at hchild
      · exact mem_of_mem_eraseIdx hchild
      · exact hchild
    obtain ⟨link, hlink, hup⟩ := hwf.tree.child (linksOf_of_get hold) hlisted
    exact ⟨link, hlink, hup⟩

/-- A deletion removes no container. -/
theorem container_kept {parent element : ElementId} {index : Nat}
    {removed : List (ElementId × Node)} {rest : NodeMap} (hwf : WellFormed s)
    (hroots : element ∉ roots) (h : Removed (s.unlink parent index) rest [element] removed) :
    ∀ key ∈ roots, key ∉ removed.map Prod.fst := by
  have hkeys := parent_of_removed hwf h
  refine containers_induction ?_ ?_
  · intro hmem
    have hne : rootId ≠ element := fun heq => hroots (heq ▸ by decide +kernel)
    obtain ⟨up, _, htop⟩ := hkeys rootId hmem hne
    exact hwf.tree.not_up_top up htop
  · intro key hkey up _ hcontainer hrest hmem
    have hne : key ≠ element := fun heq => hroots (heq ▸ hkey)
    obtain ⟨up', hmem', hup'⟩ := hkeys key hmem hne
    obtain ⟨old, hold, hparent'⟩ := hwf.containers key hkey
    have heq : up' = up := hup'.unique ⟨_, linksOf_of_get hold, hparent'.trans hcontainer⟩
    exact hrest (heq ▸ hmem')

/-- A `Delete` keeps the tree well formed. -/
theorem WellFormed.delete {element : ElementId} (hwf : WellFormed s)
    (h : s.applyDelete element = (s', .ok u)) : WellFormed s' := by
  rcases applyDelete_cases hwf h with ⟨_, hr, _⟩ | ⟨parent, index, node, parentNode, removed, rest,
    hroots, hnode, hup, hparent, hindex, hgone, rfl, _⟩
  · cases hr
  have hkeys := parent_of_removed hwf hgone
  have helement : element ∈ removed.map Prod.fst := hgone.popped element (mem_singleton_self _)
  have hkept := container_kept hwf hroots hgone
  refine ⟨?_, ?_, ?_, ?_⟩
  · have hlinks : linksOf rest =
        OrderedTree.prune s.links parent index (removed.map Prod.fst) := by
      funext key
      show (rest[key]?).map Node.link = if _ then _ else _
      rw [hgone.get]
      split
      · rfl
      · exact congrFun (linksOf_modify_children s.nodes parent fun l => l.eraseIdx index) key
    show Rooted (linksOf rest) rootId
    rw [hlinks]
    refine hwf.tree.prune ⟨_, linksOf_of_get hnode, hup⟩ (linksOf_of_get hparent) hindex helement
      hkeys ?_
    intro key hkey link hlink c hc
    obtain ⟨⟨key', n⟩, hentry, rfl⟩ := mem_map.mp hkey
    have hlinks' := congrFun (linksOf_modify_children s.nodes parent fun l => l.eraseIdx index) key'
    have hget : linksOf (s.unlink parent index) key' = some n.link := linksOf_of_get (hgone.mem hentry)
    have heq : n.link = link := Option.some.inj (hget.symm.trans (hlinks'.trans hlink))
    subst heq
    exact hgone.closed hentry c hc
  · intro key hkey
    obtain ⟨old, hold, hparent'⟩ := hwf.containers key hkey
    show ∃ node, rest[key]? = some node ∧ _
    rw [hgone.get, if_neg (hkept key hkey)]
    refine ⟨_, getElem?_modify_eq_some.mpr ⟨old, hold, rfl⟩, ?_⟩
    split <;> exact hparent'
  · intro key n hkey
    obtain ⟨_, old, hold, heq, _⟩ := get_of_removed hgone hkey
    rw [heq]
    exact hwf.named hold
  · intro key n hkey
    obtain ⟨_, old, hold, _⟩ := get_of_removed hgone hkey
    exact hwf.used hold

/-- A `Move` keeps the tree well formed. -/
theorem WellFormed.move {element parent : ElementId} {index : UInt32} (hwf : WellFormed s)
    (h : s.applyMove element parent index = (s', .ok u)) : WellFormed s' := by
  obtain ⟨oldParent, oldIndex, node, oldNode, target, hroots, hnode, hup, holdNode, hindex, htarget,
    hle, hclimb, rfl, _⟩ := applyMove_ok h
  have hcases : ∀ {key : ElementId} {n : Node},
      (((s.nodes.modify oldParent fun n => { n with children := n.children.eraseIdx oldIndex
        }).modify parent fun n => { n with children := n.children.insertIdx index.toNat element
        }).modify element fun n => { n with parent := some parent })[key]? = some n →
      ∃ old, s.nodes[key]? = some old ∧ n.element = old.element := by
    intro key n hkey
    obtain ⟨n₂, hn₂, rfl⟩ := getElem?_modify_eq_some.mp hkey
    obtain ⟨n₁, hn₁, rfl⟩ := getElem?_modify_eq_some.mp hn₂
    obtain ⟨n₀, hn₀, rfl⟩ := getElem?_modify_eq_some.mp hn₁
    refine ⟨n₀, hn₀, ?_⟩
    split <;> split <;> split <;> rfl
  refine ⟨?_, ?_, ?_, ?_⟩
  · have houtside : ¬ ReflTransGen (Up (linksOf s.nodes)) parent element := by
      rcases refuseCycle_total element hwf.tree htarget with ⟨_, hout⟩ | ⟨herr, _⟩
      · exact hout
      · rw [hclimb] at herr
        cases herr
    have hlinks : linksOf (((s.nodes.modify oldParent fun n =>
          { n with children := n.children.eraseIdx oldIndex }).modify parent fun n =>
          { n with children := n.children.insertIdx index.toNat element }).modify element fun n =>
          { n with parent := some parent }) =
        OrderedTree.relocate s.links element oldParent oldIndex parent index.toNat := by
      rw [linksOf_modify_parent,
        linksOf_modify_children _ parent fun l => l.insertIdx index.toNat element,
        linksOf_modify_children _ oldParent fun l => l.eraseIdx oldIndex]
      rfl
    have htree := hwf.tree.relocate (linksOf_of_get hnode) hup (linksOf_of_get holdNode) hindex
      (linksOf_of_get htarget) hle houtside
    rw [← hlinks] at htree
    exact htree
  · intro key hkey
    obtain ⟨old, hold, hparent⟩ := hwf.containers key hkey
    have hne : element ≠ key := fun heq => hroots (heq ▸ hkey)
    refine ⟨_, getElem?_modify_eq_some.mpr ⟨_, getElem?_modify_eq_some.mpr
      ⟨_, getElem?_modify_eq_some.mpr ⟨old, hold, rfl⟩, rfl⟩, rfl⟩, ?_⟩
    rw [if_neg hne]
    split <;> split <;> exact hparent
  · intro key n hkey
    obtain ⟨old, hold, heq⟩ := hcases hkey
    rw [heq]
    exact hwf.named hold
  · intro key n hkey
    obtain ⟨old, hold, _⟩ := hcases hkey
    exact hwf.used hold

/-- A change of contents that keeps the identifier keeps the tree well formed. -/
theorem WellFormed.content {key : ElementId} {change : ElementSnapshot → ElementSnapshot}
    (hwf : WellFormed s) (hchange : ∀ e, (change e).id = e.id) :
    WellFormed (s.modifyNode key (setElement change)) := by
  refine ⟨?_, ?_, ?_, ?_⟩
  · have htree := hwf.tree
    unfold links at htree
    rw [← linksOf_modify_element s.nodes key change] at htree
    exact htree
  · intro a ha
    obtain ⟨old, hold, hparent⟩ := hwf.containers a ha
    refine ⟨_, getElem?_modify_eq_some.mpr ⟨old, hold, rfl⟩, ?_⟩
    split <;> exact hparent
  · intro a n ha
    obtain ⟨old, hold, rfl⟩ := getElem?_modify_eq_some.mp ha
    split
    · exact (hchange old.element).trans (hwf.named hold)
    · exact hwf.named hold
  · intro a n ha
    obtain ⟨old, hold, _⟩ := getElem?_modify_eq_some.mp ha
    exact hwf.used hold

/-- Every accepted operation keeps the tree well formed. -/
theorem WellFormed.applyOne {op : PatchOp} (hwf : WellFormed s)
    (h : s.applyOne op = (s', .ok u)) : WellFormed s' := by
  have hcontent : ∀ {key change old}, s.applyContent key change old = (s', .ok u) →
      (∀ e : ElementSnapshot, (change e).id = e.id) → WellFormed s' := by
    intro key change old h hid
    obtain ⟨_, _, _, rfl⟩ := applyContent_ok h
    exact hwf.content hid
  cases op with
  | create parent index element => exact hwf.create h
  | delete element => exact hwf.delete h
  | move element parent index => exact hwf.move h
  | setAttribute =>
      dsimp only [SessionSnapshot.applyOne] at h
      exact hcontent h fun _ => rfl
  | removeAttribute =>
      dsimp only [SessionSnapshot.applyOne] at h
      exact hcontent h fun _ => rfl
  | replaceText =>
      dsimp only [SessionSnapshot.applyOne] at h
      exact hcontent h fun _ => rfl
  | appendText =>
      dsimp only [SessionSnapshot.applyOne] at h
      exact hcontent h fun _ => rfl
  | replacePayload =>
      dsimp only [SessionSnapshot.applyOne] at h
      exact hcontent h fun _ => rfl

end SessionSnapshot

end Omp2.State
