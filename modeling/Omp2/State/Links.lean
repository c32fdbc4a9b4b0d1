import Omp2.Library.OrderedTree
import Omp2.State.Dom

/-!
# The document tree as links

`SessionSnapshot.links` reads a snapshot as parent and child links. The changes that the
operations make to the node map are edits of these links, the guards of the operations say
where such an edit takes place, and the two loops, the removal of a subtree and the climb that
refuses cycles, are described by what they leave behind.
-/

namespace Omp2.State

open OrderedTree Relation List

/-- The root of every document tree. -/
def rootId : ElementId := staticId "root"

/-- The links of a node. -/
def Node.link (n : Node) : Link ElementId := ⟨n.parent, n.children⟩

/-- The links of a node map. -/
def linksOf (nodes : NodeMap) : Links ElementId :=
  fun key => nodes[key]?.map Node.link

namespace SessionSnapshot

/-- The links of a snapshot. -/
def links (s : SessionSnapshot) : Links ElementId := linksOf s.nodes

end SessionSnapshot

/-! ## Reading and changing the links -/

theorem linksOf_eq_some {nodes : NodeMap} {key : ElementId} {link : Link ElementId} :
    linksOf nodes key = some link ↔ ∃ node, nodes[key]? = some node ∧ node.link = link :=
  Option.map_eq_some_iff

theorem linksOf_of_get {nodes : NodeMap} {key : ElementId} {node : Node}
    (h : nodes[key]? = some node) : linksOf nodes key = some node.link := by
  unfold linksOf
  rw [h]
  rfl

theorem getElem?_modify (nodes : NodeMap) (key a : ElementId) (f : Node → Node) :
    (nodes.modify key f)[a]? = if key = a then nodes[a]?.map f else nodes[a]? := by
  rw [Std.ExtTreeMap.getElem?_modify]
  by_cases h : key = a
  · subst h
    simp
  · simp [h]

/-- A changed map holds the changed nodes of the old one. -/
theorem getElem?_modify_eq_some {nodes : NodeMap} {key a : ElementId} {f : Node → Node}
    {node : Node} : (nodes.modify key f)[a]? = some node ↔
      ∃ old, nodes[a]? = some old ∧ node = if key = a then f old else old := by
  rw [getElem?_modify]
  split
  · rw [Option.map_eq_some_iff]
    exact ⟨fun ⟨old, hold, heq⟩ => ⟨old, hold, heq.symm⟩, fun ⟨old, hold, heq⟩ =>
      ⟨old, hold, heq.symm⟩⟩
  · exact ⟨fun h => ⟨node, h, rfl⟩, fun ⟨old, hold, heq⟩ => heq ▸ hold⟩

theorem getElem?_insert (nodes : NodeMap) (key a : ElementId) (node : Node) :
    (nodes.insert key node)[a]? = if key = a then some node else nodes[a]? := by
  rw [Std.ExtTreeMap.getElem?_insert]
  simp

theorem getElem?_erase (nodes : NodeMap) (key a : ElementId) :
    (nodes.erase key)[a]? = if key = a then none else nodes[a]? := by
  rw [Std.ExtTreeMap.getElem?_erase]
  simp

/-- Rewriting the children of a node rewrites the children of its link. -/
theorem linksOf_modify_children (nodes : NodeMap) (key : ElementId)
    (f : List ElementId → List ElementId) :
    linksOf (nodes.modify key fun n => { n with children := f n.children }) =
      onChildren (linksOf nodes) key f := by
  funext a
  simp only [linksOf, onChildren, getElem?_modify]
  cases nodes[a]? with
  | none => simp
  | some node =>
      by_cases h : key = a
      · subst h
        simp [Node.link]
      · simp [Ne.symm h, h]

theorem linksOf_modify_parent (nodes : NodeMap) (key up : ElementId) :
    linksOf (nodes.modify key fun n => { n with parent := some up }) =
      onParent (linksOf nodes) key up := by
  funext a
  simp only [linksOf, onParent, getElem?_modify]
  cases nodes[a]? with
  | none => simp
  | some node =>
      by_cases h : key = a
      · subst h
        simp [Node.link]
      · simp [Ne.symm h, h]

theorem linksOf_modify_element (nodes : NodeMap) (key : ElementId)
    (f : ElementSnapshot → ElementSnapshot) :
    linksOf (nodes.modify key (SessionSnapshot.setElement f)) = linksOf nodes := by
  funext a
  unfold linksOf
  rw [getElem?_modify]
  cases nodes[a]? with
  | none => simp
  | some node =>
      by_cases h : key = a
      · simp [h, Node.link, SessionSnapshot.setElement]
      · simp [h]

/-- Inserting a childless node under a parent that has just listed it inserts a leaf. -/
theorem linksOf_create (nodes : NodeMap) (parent : ElementId) (index : Nat)
    (element : ElementSnapshot) :
    linksOf ((nodes.modify parent fun n =>
        { n with children := n.children.insertIdx index element.id }).insert element.id
          { element, parent := some parent, children := [] }) =
      OrderedTree.insertLeaf (linksOf nodes) parent index element.id := by
  unfold OrderedTree.insertLeaf
  rw [← linksOf_modify_children nodes parent fun l => l.insertIdx index element.id]
  funext a
  unfold linksOf
  rw [getElem?_insert]
  by_cases h : element.id = a
  · subst h
    simp [Node.link]
  · simp [Ne.symm h, h]

/-! ## What the guards of the operations establish -/

theorem getElem?_of_idxOf? {l : List ElementId} {key : ElementId} {index : Nat}
    (h : l.idxOf? key = some index) : l[index]? = some key := by
  obtain ⟨hlt, heq, _⟩ := findIdx?_eq_some_iff_getElem.mp h
  rw [getElem?_eq_some_iff]
  exact ⟨hlt, by simpa using heq⟩

namespace SessionSnapshot

variable {s : SessionSnapshot}

theorem require_ok {key : ElementId} {node : Node} (h : s.require key = .ok node) :
    s.nodes[key]? = some node := by
  unfold require at h
  split at h
  · next n hn =>
    cases h
    exact hn
  · cases h

/-- A movable node is no container and stands in its parent's list at the returned index. -/
theorem mutableLocation_ok {key parent : ElementId} {index : Nat}
    (h : s.mutableLocation key = .ok (parent, index)) :
    key ∉ roots ∧ ∃ node parentNode, s.nodes[key]? = some node ∧ node.parent = some parent ∧
      s.nodes[parent]? = some parentNode ∧ parentNode.children[index]? = some key := by
  unfold mutableLocation at h
  split at h
  · cases h
  · next hroots =>
    refine ⟨hroots, ?_⟩
    split at h
    · cases h
    · next node hnode =>
      split at h
      · cases h
      · next up hup =>
        split at h
        · cases h
        · next parentNode hparentNode =>
          split at h
          · cases h
          · next i hi =>
            cases h
            exact ⟨node, parentNode, hnode, hup, hparentNode, getElem?_of_idxOf? hi⟩

end SessionSnapshot

/-! ## The removal loop -/

/-- What a finished removal loop has done to the nodes: it has moved `gone` out of the map. -/
structure Removed (nodes rest : NodeMap) (stack : List ElementId)
    (gone : List (ElementId × Node)) : Prop where
  get : ∀ a, rest[a]? = if a ∈ gone.map Prod.fst then none else nodes[a]?
  mem : ∀ {key node}, (key, node) ∈ gone → nodes[key]? = some node
  head : gone.head?.map Prod.fst = stack.head?
  popped : ∀ key ∈ stack, key ∈ gone.map Prod.fst
  closed : ∀ {key} {node : Node}, (key, node) ∈ gone → ∀ c ∈ node.children, c ∈ gone.map Prod.fst
  owned : ∀ key ∈ gone.map Prod.fst, key ∈ stack ∨ ∃ entry ∈ gone, key ∈ entry.2.children

/-- A removal loop that succeeds has removed the subtrees below its stack. -/
theorem removeSubtree_removed {fuel : Nat} {nodes rest : NodeMap} {stack : List ElementId}
    {done removed : List (ElementId × Node)}
    (h : removeSubtree fuel nodes stack done = (rest, .ok removed)) :
    ∃ gone, removed = done ++ gone ∧ Removed nodes rest stack gone := by
  induction fuel generalizing nodes stack done with
  | zero =>
      cases stack with
      | nil =>
        simp only [removeSubtree, Prod.mk.injEq, Except.ok.injEq] at h
        obtain ⟨rfl, rfl⟩ := h
        exact ⟨[], by simp, ⟨by simp, by simp, rfl, by simp, by simp, by simp⟩⟩
      | cons key stack => simp [removeSubtree] at h
  | succ fuel ih =>
      cases stack with
      | nil =>
        simp only [removeSubtree, Prod.mk.injEq, Except.ok.injEq] at h
        obtain ⟨rfl, rfl⟩ := h
        exact ⟨[], by simp, ⟨by simp, by simp, rfl, by simp, by simp, by simp⟩⟩
      | cons key stack =>
        cases hkey : nodes[key]? with
        | none => simp [removeSubtree, hkey] at h
        | some node =>
          simp only [removeSubtree, hkey] at h
          obtain ⟨gone, rfl, hgone⟩ := ih h
          refine ⟨(key, node) :: gone, by simp, ?_, ?_, rfl, ?_, ?_, ?_⟩
          · intro a
            rw [hgone.get, getElem?_erase]
            by_cases hak : key = a
            · simp [hak]
            · rw [if_neg hak]
              simp only [map_cons, mem_cons, Ne.symm hak, false_or]
          · intro k n hmem
            rcases mem_cons.mp hmem with heq | hmem
            · cases heq
              exact hkey
            · have hget := hgone.mem hmem
              rw [getElem?_erase] at hget
              split at hget
              · cases hget
              · exact hget
          · intro k hk
            rcases mem_cons.mp hk with rfl | hk
            · simp
            · exact mem_cons_of_mem _ (hgone.popped k (mem_append_right _ hk))
          · intro k n hmem c hc
            rcases mem_cons.mp hmem with heq | hmem
            · cases heq
              have hpushed : c ∈ node.children.reverse ++ stack := by simp [hc]
              exact mem_cons_of_mem _ (hgone.popped c hpushed)
            · exact mem_cons_of_mem _ (hgone.closed hmem c hc)
          · intro k hk
            rcases mem_cons.mp hk with rfl | hk
            · exact .inl (mem_cons_self ..)
            · rcases hgone.owned k hk with hstack | ⟨entry, hentry, hchild⟩
              · rcases mem_append.mp hstack with hchild | hstack
                · exact .inr ⟨(key, node), mem_cons_self .., mem_reverse.mp hchild⟩
                · exact .inl (mem_cons_of_mem _ hstack)
              · exact .inr ⟨entry, mem_cons_of_mem _ hentry, hchild⟩

/-- A node map in which `element` has been unlinked from its parent. -/
structure Detached (nodes : NodeMap) (element : ElementId) : Prop where
  present : ∀ {up c : ElementId} {node : Node}, nodes[up]? = some node → c ∈ node.children →
    c ≠ element ∧ ∃ child, nodes[c]? = some child
  owner : ∀ {up other c : ElementId} {node node' : Node}, nodes[up]? = some node →
    nodes[other]? = some node' → c ∈ node.children → c ∈ node'.children → up = other
  nodup : ∀ {up : ElementId} {node : Node}, nodes[up]? = some node → node.children.Nodup

/-- The invariant of the removal loop: `gone` has been removed from the detached map, and what
is removed or stacked was listed by a removed node. -/
structure Sweeping (whole : NodeMap) (element : ElementId) (nodes : NodeMap)
    (stack gone : List ElementId) : Prop where
  get : ∀ a, nodes[a]? = if a ∈ gone then none else whole[a]?
  nodup : stack.Nodup
  waiting : ∀ key ∈ stack, key ∉ gone ∧ ∃ node, whole[key]? = some node
  owned : ∀ key, key ∈ stack ∨ key ∈ gone → key = element ∨
    ∃ up ∈ gone, ∃ node, whole[up]? = some node ∧ key ∈ node.children

/-- One round of the removal loop keeps its invariant. -/
theorem Sweeping.step {whole nodes : NodeMap} {element key : ElementId} {stack gone : List ElementId}
    {node : Node} (hwhole : Detached whole element)
    (h : Sweeping whole element nodes (key :: stack) gone) (hkey : whole[key]? = some node) :
    Sweeping whole element (nodes.erase key) (node.children.reverse ++ stack) (key :: gone) := by
  have hfresh : key ∉ gone := (h.waiting key (mem_cons_self ..)).1
  obtain ⟨hstack, hnodup⟩ := nodup_cons.mp h.nodup
  -- a child of the popped key was neither stacked nor removed, for only this key lists it
  have hnew : ∀ c ∈ node.children, c ∉ key :: stack ∧ c ∉ gone := by
    intro c hc
    have hno : ¬ (c ∈ key :: stack ∨ c ∈ gone) := by
      intro hold
      rcases h.owned c hold with rfl | ⟨up, hup, upNode, hupNode, hlisted⟩
      · exact (hwhole.present hkey hc).1 rfl
      · exact hfresh (hwhole.owner hkey hupNode hc hlisted ▸ hup)
    exact ⟨fun hmem => hno (.inl hmem), fun hmem => hno (.inr hmem)⟩
  refine ⟨?_, ?_, ?_, ?_⟩
  · intro a
    rw [getElem?_erase, h.get]
    by_cases hak : key = a
    · simp [hak]
    · simp [hak, Ne.symm hak]
  · refine nodup_append.mpr ⟨nodup_reverse.mpr (hwhole.nodup hkey), hnodup, ?_⟩
    intro c hc d hd heq
    exact (hnew c (mem_reverse.mp hc)).1 (mem_cons_of_mem _ (heq ▸ hd))
  · intro k hk
    rcases mem_append.mp hk with hc | hk
    · have hc' := mem_reverse.mp hc
      refine ⟨?_, (hwhole.present hkey hc').2⟩
      rintro hmem
      rcases mem_cons.mp hmem with rfl | hmem
      · exact (hnew k hc').1 (mem_cons_self ..)
      · exact (hnew k hc').2 hmem
    · obtain ⟨hgone, hpresent⟩ := h.waiting k (mem_cons_of_mem _ hk)
      refine ⟨?_, hpresent⟩
      intro hmem
      rcases mem_cons.mp hmem with rfl | hmem
      · exact hstack hk
      · exact hgone hmem
  · intro k hk
    have hold : k ∈ node.children ∨ k ∈ key :: stack ∨ k ∈ gone := by
      simp only [mem_append, mem_reverse, mem_cons] at hk ⊢
      tauto
    rcases hold with hc | hold
    · exact .inr ⟨key, mem_cons_self .., node, hkey, hc⟩
    · obtain heq | ⟨up, hup, rest⟩ := h.owned k hold
      · exact .inl heq
      · exact .inr ⟨up, mem_cons_of_mem _ hup, rest⟩

/-- The removal loop meets no dangling reference, and the number of nodes is enough fuel. -/
theorem removeSubtree_total {fuel : Nat} {whole nodes : NodeMap} {element : ElementId}
    {stack gone : List ElementId} {done : List (ElementId × Node)}
    (hwhole : Detached whole element) (h : Sweeping whole element nodes stack gone)
    (hfuel : nodes.size ≤ fuel) :
    ∃ removed, (removeSubtree fuel nodes stack done).2 = .ok removed := by
  induction fuel generalizing nodes stack gone done with
  | zero =>
      cases stack with
      | nil => exact ⟨done, rfl⟩
      | cons key stack =>
        obtain ⟨hfresh, node, hnode⟩ := h.waiting key (mem_cons_self ..)
        have hempty : nodes = ∅ :=
          Std.ExtTreeMap.eq_empty_iff_size_eq_zero.mpr (Nat.le_zero.mp hfuel)
        have hget := h.get key
        simp [hempty, hfresh, hnode] at hget
  | succ fuel ih =>
      cases stack with
      | nil => exact ⟨done, rfl⟩
      | cons key stack =>
        obtain ⟨hfresh, node, hnode⟩ := h.waiting key (mem_cons_self ..)
        have hget : nodes[key]? = some node := by rw [h.get, if_neg hfresh, hnode]
        have hmem : nodes.contains key = true := by
          rw [Std.ExtTreeMap.contains_eq_isSome_getElem?, hget]
          rfl
        have hsize : (nodes.erase key).size ≤ fuel := by
          rw [Std.ExtTreeMap.size_erase, if_pos hmem]
          omega
        simp only [removeSubtree, hget]
        exact ih (h.step hwhole hnode) hsize

/-! ## The climb -/

/-- The climb along a path stops at the moved element or ends at the root. -/
theorem refuseCycle_path {nodes : NodeMap} {element key : ElementId} {path : List ElementId}
    {fuel : Nat} (h : Path (linksOf nodes) key path) (hfuel : path.length < fuel) :
    refuseCycle nodes element fuel (some key) =
      if element ∈ path then .error (.invalid "move creates cycle") else .ok () := by
  induction h generalizing fuel with
  | root key link hlink hnone =>
      obtain ⟨node, hnode, rfl⟩ := linksOf_eq_some.mp hlink
      obtain ⟨fuel, rfl⟩ := Nat.exists_eq_succ_of_ne_zero (Nat.ne_of_gt (Nat.zero_lt_of_lt hfuel))
      have hparent : node.parent = none := hnone
      by_cases hkey : key = element
      · simp [refuseCycle, hkey]
      · simp [refuseCycle, hkey, Ne.symm hkey, hnode, hparent]
  | climb key up link path hlink hup _ ih =>
      obtain ⟨node, hnode, rfl⟩ := linksOf_eq_some.mp hlink
      obtain ⟨fuel, rfl⟩ := Nat.exists_eq_succ_of_ne_zero (Nat.ne_of_gt (Nat.zero_lt_of_lt hfuel))
      have hparent : node.parent = some up := hup
      by_cases hkey : key = element
      · simp [refuseCycle, hkey]
      · have hrest : path.length < fuel := by
          simp only [length_cons] at hfuel
          omega
        simp [refuseCycle, hkey, Ne.symm hkey, hnode, hparent, ih hrest]

/-- A path is not longer than the map it runs through. -/
theorem path_length_le {nodes : NodeMap} {key : ElementId} {path : List ElementId}
    (h : Path (linksOf nodes) key path) : path.length ≤ nodes.size := by
  have hsub : path ⊆ nodes.keys := by
    intro x hx
    obtain ⟨link, hlink⟩ := h.present hx
    obtain ⟨node, hnode, _⟩ := linksOf_eq_some.mp hlink
    rw [Std.ExtTreeMap.mem_keys, Std.ExtTreeMap.mem_iff_isSome_getElem?, hnode]
    rfl
  rw [← Std.ExtTreeMap.length_keys]
  exact h.nodup.length_le_of_subset hsub

/-- In a tree the climb ends: it refuses exactly the targets inside the moved subtree. -/
theorem refuseCycle_total {nodes : NodeMap} {key : ElementId} {node : Node} (element : ElementId)
    (h : Rooted (linksOf nodes) rootId) (hkey : nodes[key]? = some node) :
    refuseCycle nodes element (nodes.size + 1) (some key) = .ok () ∧
        ¬ ReflTransGen (Up (linksOf nodes)) key element ∨
      refuseCycle nodes element (nodes.size + 1) (some key) =
        .error (.invalid "move creates cycle") ∧
        ReflTransGen (Up (linksOf nodes)) key element := by
  obtain ⟨path, hpath⟩ := h.exists_path (linksOf_of_get hkey)
  rw [refuseCycle_path hpath (Nat.lt_succ_of_le (path_length_le hpath)), ← hpath.mem_iff]
  by_cases hmem : element ∈ path
  · exact .inr ⟨by simp [hmem], hmem⟩
  · exact .inl ⟨by simp [hmem], hmem⟩

end Omp2.State
