import Omp2.Library.Machine
import Omp2.State.WellFormed

/-!
# Rolling back a refused patch

The undo record of an accepted operation restores the snapshot the operation started from.
`applyOps` keeps the records of the operations done so far, so a patch that fails half way is
rolled back to the snapshot it started from: `applyPatch` is atomic, and the tree stays well
formed over any sequence of accepted and refused patches.
-/

namespace Omp2.State

open OrderedTree Relation List

/-! ## Lists of children -/

/-- Putting an erased child back at its index. -/
theorem restoreChild_eraseIdx {index : Nat} {key : ElementId} {n : Node}
    (h : n.children[index]? = some key) :
    SessionSnapshot.restoreChild index key { n with children := n.children.eraseIdx index } = n := by
  obtain ⟨hlt, rfl⟩ := List.getElem?_eq_some_iff.mp h
  have hmin : min index (n.children.eraseIdx index).length = index := by
    rw [List.length_eraseIdx, if_pos hlt]
    omega
  unfold SessionSnapshot.restoreChild
  dsimp only
  rw [hmin, insertIdx_eraseIdx_getElem hlt]

/-- Dropping an inserted child from a list that did not hold it. -/
theorem filter_insertIdx {l : List ElementId} {key : ElementId} {index : Nat} (h : key ∉ l)
    (hindex : index ≤ l.length) : (l.insertIdx index key).filter (· ≠ key) = l := by
  induction l generalizing index with
  | nil =>
      obtain rfl : index = 0 := Nat.le_zero.mp hindex
      simp
  | cons x xs ih =>
      have hx : x ≠ key := fun heq => h (heq ▸ mem_cons_self ..)
      have hxs : key ∉ xs := fun hmem => h (mem_cons_of_mem _ hmem)
      cases index with
      | zero =>
        rw [insertIdx_zero, filter_cons_of_neg (by simp), filter_eq_self]
        intro a ha
        have hne : a ≠ key := fun heq => h (heq ▸ ha)
        simpa using hne
      | succ index =>
        have hxindex : index ≤ xs.length := by
          simp only [length_cons] at hindex
          omega
        rw [insertIdx_succ_cons, filter_cons_of_pos (by simpa using hx), ih hxs hxindex]

theorem dropChild_insertIdx {n : Node} {key : ElementId} {index : Nat} (h : key ∉ n.children)
    (hindex : index ≤ n.children.length) :
    SessionSnapshot.dropChild key { n with children := n.children.insertIdx index key } = n := by
  unfold SessionSnapshot.dropChild
  dsimp only
  rw [filter_insertIdx h hindex]

theorem modify_cancel {nodes : NodeMap} {key : ElementId} {f g : Node → Node}
    (h : ∀ n, nodes[key]? = some n → g (f n) = n) : (nodes.modify key f).modify key g = nodes := by
  refine Std.ExtTreeMap.ext_getElem? fun a => ?_
  rw [getElem?_modify, getElem?_modify]
  split
  · next heq =>
    subst heq
    cases hkey : nodes[key]? with
    | none => rfl
    | some n => simp [h n hkey]
  · rfl

namespace SessionSnapshot

variable {s s' : SessionSnapshot} {u : Undo}

/-! ## Undoing one operation -/

/-- Undoing a `Create`. -/
theorem undo_create {parent : ElementId} {index : UInt32} {element : ElementSnapshot}
    (hwf : WellFormed s) (h : s.applyCreate parent index element = (s', .ok u)) :
    s'.undo u = s := by
  obtain ⟨hfresh, ⟨parentNode, hparent, hindex⟩, rfl, rfl⟩ := applyCreate_ok h
  have habsent : s.nodes[element.id]? = none := by
    cases hget : s.nodes[element.id]? with
    | none => rfl
    | some node => exact absurd (hwf.used hget) hfresh
  have hunlisted : element.id ∉ parentNode.children := by
    refine hwf.tree.not_mem_of_absent ?_ (linksOf_of_get hparent)
    show (s.nodes[element.id]?).map Node.link = none
    rw [habsent]
    rfl
  have hnodes : (((s.nodes.modify parent fun n =>
        { n with children := n.children.insertIdx index.toNat element.id }).insert element.id
        { element, parent := some parent, children := [] }).erase element.id).modify parent
        (dropChild element.id) = s.nodes := by
    refine Std.ExtTreeMap.ext_getElem? fun a => ?_
    rw [getElem?_modify, getElem?_erase, getElem?_insert, getElem?_modify]
    by_cases ha : element.id = a
    · subst ha
      simp [habsent]
    · by_cases hp : parent = a
      · subst hp
        rw [if_pos rfl, if_neg ha, if_neg ha, if_pos rfl, hparent]
        exact congrArg some (dropChild_insertIdx hunlisted hindex)
      · simp [ha, hp]
  have hused : (s.usedIds.insert element.id).erase element.id = s.usedIds := by
    refine Std.ExtTreeSet.ext_mem fun a => ?_
    rw [Std.ExtTreeSet.mem_erase, Std.ExtTreeSet.mem_insert, Ne, Std.compare_eq_iff_eq]
    constructor
    · rintro ⟨hne, heq | hmem⟩
      · exact absurd heq hne
      · exact hmem
    · exact fun hmem => ⟨fun heq => hfresh (heq ▸ hmem), .inr hmem⟩
  unfold undo
  dsimp only
  rw [getElem?_insert, if_pos rfl]
  dsimp only [modifyNode]
  rw [hnodes, hused]

/-- Inserting the removed nodes again restores what stood in the map they were taken from. -/
theorem foldl_insert_get {nodes : NodeMap} {gone : List (ElementId × Node)} {rest : NodeMap}
    (h : ∀ {key} {node : Node}, (key, node) ∈ gone → nodes[key]? = some node) (a : ElementId) :
    (gone.foldl (fun rest entry => rest.insert entry.1 entry.2) rest)[a]? =
      if a ∈ gone.map Prod.fst then nodes[a]? else rest[a]? := by
  induction gone generalizing rest with
  | nil => simp
  | cons entry gone ih =>
      obtain ⟨key, node⟩ := entry
      have hkey := h (mem_cons_self ..)
      rw [foldl_cons, ih fun hmem => h (mem_cons_of_mem _ hmem)]
      by_cases hmem : a ∈ gone.map Prod.fst
      · rw [if_pos hmem, map_cons, if_pos (mem_cons_of_mem _ hmem)]
      · rw [if_neg hmem, getElem?_insert]
        by_cases ha : key = a
        · subst ha
          simp [hkey]
        · rw [if_neg ha, if_neg]
          simp only [map_cons, mem_cons, not_or]
          exact ⟨Ne.symm ha, hmem⟩

/-- Undoing a `Delete`. -/
theorem undo_delete {element : ElementId} (hwf : WellFormed s)
    (h : s.applyDelete element = (s', .ok u)) : s'.undo u = s := by
  rcases applyDelete_cases hwf h with ⟨_, hr, _⟩ | ⟨parent, index, node, parentNode, removed, rest,
    _, _, _, hparent, hindex, hgone, rfl, hr⟩
  · cases hr
  cases hr
  have hrestored : removed.foldl (fun rest entry => rest.insert entry.1 entry.2) rest =
      s.unlink parent index := by
    refine Std.ExtTreeMap.ext_getElem? fun a => ?_
    rw [foldl_insert_get hgone.mem, hgone.get]
    split <;> rfl
  have hcancel : (s.unlink parent index).modify parent (restoreChild index element) = s.nodes := by
    refine modify_cancel fun n hn => ?_
    rw [hparent] at hn
    cases hn
    exact restoreChild_eraseIdx hindex
  cases removed with
  | nil => cases hgone.head
  | cons entry tail =>
      have hkey : entry.1 = element := Option.some.inj hgone.head
      unfold undo
      dsimp only [modifyNode]
      rw [hrestored, hkey, hcancel]

/-- Undoing a `Move`. -/
theorem undo_move {element parent : ElementId} {index : UInt32} (hwf : WellFormed s)
    (h : s.applyMove element parent index = (s', .ok u)) : s'.undo u = s := by
  obtain ⟨oldParent, oldIndex, node, oldNode, target, _, hnode, hup, holdNode, hindex, htarget,
    hle, hclimb, rfl, rfl⟩ := applyMove_ok h
  have houtside : ¬ ReflTransGen (Up s.links) parent element := by
    rcases refuseCycle_total element hwf.tree htarget with ⟨_, hout⟩ | ⟨herr, _⟩
    · exact hout
    · rw [hclimb] at herr
      cases herr
  have hold_ne : oldParent ≠ element := fun heq =>
    hwf.tree.not_reaches_of_up ⟨_, linksOf_of_get hnode, hup⟩ (heq ▸ .refl)
  have hpar_ne : parent ≠ element := fun heq => houtside (heq ▸ .refl)
  -- only the old parent lists the element
  have hunlisted : ∀ {a n}, s.nodes[a]? = some n → a ≠ oldParent → element ∉ n.children := by
    intro a n ha hne hmem
    have hpa := hwf.tree.parent_of_mem (linksOf_of_get ha) (linksOf_of_get hnode) hmem
    exact hne (Option.some.inj (hpa.symm.trans hup))
  have hcut : element ∉ oldNode.children.eraseIdx oldIndex := fun hmem =>
    ((mem_eraseIdx_of_nodup (hwf.tree.nodup (linksOf_of_get holdNode)) hindex).mp hmem).2 rfl
  have hcurrent : ((((s.modifyNode oldParent fun n =>
        { n with children := n.children.eraseIdx oldIndex }).modifyNode parent fun n =>
        { n with children := n.children.insertIdx index.toNat element }).modifyNode element fun n =>
        { n with parent := some parent }).nodes[element]?).bind Node.parent = some parent := by
    dsimp only [modifyNode]
    rw [getElem?_modify, if_pos rfl, getElem?_modify, if_neg hpar_ne, getElem?_modify,
      if_neg hold_ne, hnode]
    rfl
  unfold undo
  dsimp only
  rw [hcurrent]
  dsimp only [modifyNode]
  refine congrArg (fun nodes => { s with nodes }) (Std.ExtTreeMap.ext_getElem? fun a => ?_)
  simp only [getElem?_modify]
  by_cases ha : element = a
  · subst ha
    rw [if_pos rfl, if_neg hold_ne, if_neg hpar_ne, if_pos rfl, if_neg hpar_ne, if_neg hold_ne,
      hnode]
    show some { node with parent := some oldParent } = some node
    rw [← hup]
  · rw [if_neg ha, if_neg ha]
    by_cases hp : parent = a
    · subst hp
      rw [htarget]
      by_cases ho : oldParent = parent
      · subst ho
        rw [holdNode] at htarget
        cases htarget
        obtain ⟨hlt, _⟩ := List.getElem?_eq_some_iff.mp hindex
        have hroom : index.toNat ≤ (oldNode.children.eraseIdx oldIndex).length := by
          rw [List.length_eraseIdx, if_pos hlt]
          simpa using hle
        let erased : Node := { oldNode with children := oldNode.children.eraseIdx oldIndex }
        have hdrop : dropChild element
            { erased with children := erased.children.insertIdx index.toNat element } = erased :=
          dropChild_insertIdx hcut hroom
        have hrestore : restoreChild oldIndex element erased = oldNode := restoreChild_eraseIdx hindex
        simp only [if_true, Option.map_some]
        exact congrArg some ((congrArg _ hdrop).trans hrestore)
      · rw [if_neg ho, if_neg ho, if_pos rfl, if_pos rfl]
        rw [if_neg ho] at hle
        exact congrArg some (dropChild_insertIdx (hunlisted htarget (Ne.symm ho)) hle)
    · rw [if_neg hp, if_neg hp]
      by_cases ho : oldParent = a
      · subst ho
        rw [if_pos rfl, if_pos rfl, holdNode]
        exact congrArg some (restoreChild_eraseIdx hindex)
      · rw [if_neg ho, if_neg ho]

/-- Undoing a change of contents that the undo record reverses. -/
theorem undo_content {key : ElementId} {change back : ElementSnapshot → ElementSnapshot}
    {node : Node} (hnode : s.nodes[key]? = some node) (hback : back (change node.element) = node.element) :
    (s.modifyNode key (setElement change)).modifyNode key (setElement back) = s := by
  have hcancel : (s.nodes.modify key (setElement change)).modify key (setElement back) = s.nodes := by
    refine modify_cancel fun n hn => ?_
    rw [hnode] at hn
    cases hn
    unfold setElement
    dsimp only
    rw [hback]
  dsimp only [modifyNode]
  rw [hcancel]

/-- Setting an attribute back to what it was before it was set or removed. -/
theorem attributes_restore (attributes : Attributes) (name : String) {changed : Attributes}
    (h : ∀ a, name ≠ a → changed[a]? = attributes[a]?) :
    restoreAttribute name attributes[name]? changed = attributes := by
  refine Std.ExtTreeMap.ext_getElem? fun a => ?_
  unfold restoreAttribute
  split
  · next v hv =>
    rw [Std.ExtTreeMap.getElem?_insert]
    split
    · next heq => rw [← Std.compare_eq_iff_eq.mp heq, hv]
    · next hne => exact h a fun heq => hne (Std.compare_eq_iff_eq.mpr heq)
  · next hnone =>
    rw [Std.ExtTreeMap.getElem?_erase]
    split
    · next heq => rw [← Std.compare_eq_iff_eq.mp heq, hnone]
    · next hne => exact h a fun heq => hne (Std.compare_eq_iff_eq.mpr heq)

/-- The undo record of an accepted operation restores the snapshot it started from. -/
theorem undo_applyOne {op : PatchOp} (hwf : WellFormed s) (h : s.applyOne op = (s', .ok u)) :
    s'.undo u = s := by
  cases op with
  | create parent index element => exact undo_create hwf h
  | delete element => exact undo_delete hwf h
  | move element parent index => exact undo_move hwf h
  | setAttribute key name value =>
      dsimp only [applyOne] at h
      obtain ⟨node, hnode, rfl, rfl⟩ := applyContent_ok h
      have hother : ∀ a, name ≠ a →
          (node.element.attributes.insert name value)[a]? = node.element.attributes[a]? := by
        intro a hne
        rw [Std.ExtTreeMap.getElem?_insert, if_neg fun heq => hne (Std.compare_eq_iff_eq.mp heq)]
      refine undo_content hnode ?_
      dsimp only
      rw [attributes_restore _ _ hother]
  | removeAttribute key name =>
      dsimp only [applyOne] at h
      obtain ⟨node, hnode, rfl, rfl⟩ := applyContent_ok h
      have hother : ∀ a, name ≠ a →
          (node.element.attributes.erase name)[a]? = node.element.attributes[a]? := by
        intro a hne
        rw [Std.ExtTreeMap.getElem?_erase, if_neg fun heq => hne (Std.compare_eq_iff_eq.mp heq)]
      refine undo_content hnode ?_
      dsimp only
      rw [attributes_restore _ _ hother]
  | replaceText key text =>
      dsimp only [applyOne] at h
      obtain ⟨node, hnode, rfl, rfl⟩ := applyContent_ok h
      exact undo_content hnode rfl
  | appendText key text =>
      dsimp only [applyOne] at h
      obtain ⟨node, hnode, rfl, rfl⟩ := applyContent_ok h
      refine undo_content hnode ?_
      have hlength : min node.element.text.utf8ByteSize
          (node.element.text ++ text).utf8ByteSize = node.element.text.utf8ByteSize := by
        rw [String.utf8ByteSize_append]
        omega
      dsimp only
      rw [hlength, Text.truncate_append]
  | replacePayload key payload =>
      dsimp only [applyOne] at h
      obtain ⟨node, hnode, rfl, rfl⟩ := applyContent_ok h
      exact undo_content hnode rfl

/-! ## Patches -/

/-- The loop succeeds in a well-formed tree, or fails where its undo records lead back. -/
theorem applyOps_cases {start : SessionSnapshot} {done : List Undo} {ops : List PatchOp}
    {result : Except StateError Unit} (hwf : WellFormed s) (hdone : done.foldl undo s = start)
    (h : s.applyOps done ops = (s', result)) :
    result = .ok () ∧ WellFormed s' ∨ (∃ e, result = .error e) ∧ s' = start := by
  induction ops generalizing s done with
  | nil =>
      cases h
      exact .inl ⟨rfl, hwf⟩
  | cons op ops ih =>
      unfold applyOps at h
      split at h
      · next s₁ u hop =>
        refine ih (hwf.applyOne hop) ?_ h
        rw [foldl_cons, undo_applyOne hwf hop, hdone]
      · next s₁ e hop =>
        cases h
        rw [applyOne_error hwf hop, hdone]
        exact .inr ⟨⟨e, rfl⟩, rfl⟩

/-- No operation touches what a snapshot holds besides its tree. -/
theorem applyOne_rest {op : PatchOp} {result : Except StateError Undo}
    (h : s.applyOne op = (s', result)) :
    s'.sessionId = s.sessionId ∧ s'.offset = s.offset ∧ s'.selectedBranch = s.selectedBranch := by
  have hcontent : ∀ {key change old}, s.applyContent key change old = (s', result) →
      s'.sessionId = s.sessionId ∧ s'.offset = s.offset ∧
        s'.selectedBranch = s.selectedBranch := by
    intro key change old h
    unfold applyContent at h
    split at h <;> cases h <;> exact ⟨rfl, rfl, rfl⟩
  cases op with
  | create parent index element =>
      dsimp only [applyOne, applyCreate] at h
      split at h
      · cases h
        exact ⟨rfl, rfl, rfl⟩
      · split at h
        · cases h
          exact ⟨rfl, rfl, rfl⟩
        · split at h <;> cases h <;> exact ⟨rfl, rfl, rfl⟩
  | delete element =>
      dsimp only [applyOne, applyDelete] at h
      split at h
      · cases h
        exact ⟨rfl, rfl, rfl⟩
      · split at h <;> cases h <;> exact ⟨rfl, rfl, rfl⟩
  | move element parent index =>
      dsimp only [applyOne, applyMove] at h
      split at h
      · cases h
        exact ⟨rfl, rfl, rfl⟩
      · next oldParent oldIndex _ =>
        split at h
        · cases h
          exact ⟨rfl, rfl, rfl⟩
        · next target _ =>
          by_cases hlt : target.children.length - (if oldParent = parent then 1 else 0) <
              index.toNat
          · rw [if_pos hlt] at h
            cases h
            exact ⟨rfl, rfl, rfl⟩
          · rw [if_neg hlt] at h
            split at h <;> cases h <;> exact ⟨rfl, rfl, rfl⟩
  | setAttribute =>
      dsimp only [applyOne] at h
      exact hcontent h
  | removeAttribute =>
      dsimp only [applyOne] at h
      exact hcontent h
  | replaceText =>
      dsimp only [applyOne] at h
      exact hcontent h
  | appendText =>
      dsimp only [applyOne] at h
      exact hcontent h
  | replacePayload =>
      dsimp only [applyOne] at h
      exact hcontent h

/-- A patch whose operations are all accepted touches the tree only. -/
theorem applyOps_rest {done : List Undo} {ops : List PatchOp}
    (h : s.applyOps done ops = (s', .ok ())) :
    s'.sessionId = s.sessionId ∧ s'.offset = s.offset ∧ s'.selectedBranch = s.selectedBranch := by
  induction ops generalizing s done with
  | nil =>
      cases h
      exact ⟨rfl, rfl, rfl⟩
  | cons op ops ih =>
      unfold applyOps at h
      split at h
      · next s₁ u hop =>
        obtain ⟨hsession, hoffset, hbranch⟩ := applyOne_rest hop
        obtain ⟨hsession', hoffset', hbranch'⟩ := ih h
        exact ⟨hsession'.trans hsession, hoffset'.trans hoffset, hbranch'.trans hbranch⟩
      · cases h

variable [Json.SerdeJson]

/-- An accepted patch leaves a well-formed tree, and a refused one the snapshot as it was. -/
theorem applyPatch_cases {patch : Patch} {result : Except StateError Unit} (hwf : WellFormed s)
    (h : s.applyPatch patch = (s', result)) :
    result = .ok () ∧ WellFormed s' ∨ (∃ e, result = .error e) ∧ s' = s := by
  unfold applyPatch at h
  split at h
  · cases h
    exact .inr ⟨⟨_, rfl⟩, rfl⟩
  · split at h
    · cases h
      exact .inr ⟨⟨_, rfl⟩, rfl⟩
    · split at h
      · next s₁ e hops =>
        cases h
        exact .inr (applyOps_cases hwf rfl hops |>.resolve_left fun hok => nomatch hok.1)
      · next s₁ hops =>
        cases h
        rcases applyOps_cases hwf rfl hops with ⟨_, hs₁⟩ | ⟨⟨e, he⟩, _⟩
        · exact .inl ⟨rfl, ⟨hs₁.tree, hs₁.containers, hs₁.named, hs₁.used⟩⟩
        · cases he

/-- What an accepted patch has passed and done. -/
theorem applyPatch_ok {patch : Patch} (h : s.applyPatch patch = (s', .ok ())) :
    patch.validate = .ok () ∧ patch.baseOffset = s.offset ∧
      ∃ s₁, s.applyOps [] patch.ops = (s₁, .ok ()) ∧
        s' = { s₁ with offset := patch.resultOffset } := by
  unfold applyPatch at h
  split at h
  · cases h
  · next hvalid =>
    split at h
    · cases h
    · next hbase =>
      split at h
      · cases h
      · next s₁ hops =>
        cases h
        exact ⟨hvalid, not_not.mp hbase, s₁, hops, rfl⟩

theorem applyPatch_rest {patch : Patch} (h : s.applyPatch patch = (s', .ok ())) :
    s'.sessionId = s.sessionId ∧ s'.offset = patch.resultOffset ∧
      s'.selectedBranch = s.selectedBranch := by
  obtain ⟨_, _, s₁, hops, rfl⟩ := applyPatch_ok h
  obtain ⟨hsession, _, hbranch⟩ := applyOps_rest hops
  exact ⟨hsession, rfl, hbranch⟩

/-- One call of `apply_patch`, whatever it returns. -/
def patchStep (s : SessionSnapshot) (patch : Patch) : SessionSnapshot :=
  (s.applyPatch patch).1

theorem WellFormed.patchStep (hwf : WellFormed s) (patch : Patch) : WellFormed (s.patchStep patch) := by
  rcases applyPatch_cases hwf (Prod.mk.eta (p := s.applyPatch patch)).symm with ⟨_, hs⟩ | ⟨_, hs⟩
  · exact hs
  · show WellFormed (s.applyPatch patch).1
    rw [hs]
    exact hwf

/-- The snapshot of a fresh session after any calls of `apply_patch`. -/
def afterPatches (sessionId : SessionId) (patches : List Patch) : SessionSnapshot :=
  Machine.run patchStep (empty sessionId) patches

theorem afterPatches_wellFormed (sessionId : SessionId) (patches : List Patch) :
    WellFormed (afterPatches sessionId patches) :=
  Machine.invariant_run (fun _ patch hwf => hwf.patchStep patch) patches
    (empty_wellFormed sessionId)

/-- A patch is accepted, or it is refused and leaves the snapshot exactly as it was. -/
theorem applyPatch_atomic (sessionId : SessionId) (patches : List Patch) (patch : Patch) :
    let s := afterPatches sessionId patches
    (s.applyPatch patch).2 = .ok () ∨
      (∃ e, (s.applyPatch patch).2 = .error e) ∧ (s.applyPatch patch).1 = s := by
  intro s
  rcases applyPatch_cases (afterPatches_wellFormed sessionId patches) rfl with ⟨hok, _⟩ | herror
  · exact .inl hok
  · exact .inr herror

/-! ## Copies of a document -/

/-- Two snapshots show the same document: nodes, used identifiers and offset. -/
structure SameTree (s t : SessionSnapshot) : Prop where
  nodes : s.nodes = t.nodes
  usedIds : s.usedIds = t.usedIds
  offset : s.offset = t.offset

/-- The document of a snapshot under the session and branch of another one. -/
def relabel (s t : SessionSnapshot) : SessionSnapshot :=
  { s with sessionId := t.sessionId, selectedBranch := t.selectedBranch }

omit [Json.SerdeJson] in
theorem SameTree.eq_relabel {t : SessionSnapshot} (h : SameTree s t) : t = s.relabel t := by
  cases s
  cases t
  cases h.nodes
  cases h.usedIds
  cases h.offset
  rfl

/-- The tree of a snapshot under the session, branch and offset of another one. -/
def «over» (s t : SessionSnapshot) : SessionSnapshot :=
  { t with nodes := s.nodes, usedIds := s.usedIds }

omit [Json.SerdeJson] in
/-- An operation reads and changes the tree only. -/
theorem applyOne_over (s t : SessionSnapshot) (op : PatchOp) :
    (s.over t).applyOne op = ((s.applyOne op).1.«over» t, (s.applyOne op).2) := by
  have hcontent : ∀ key change old, (s.over t).applyContent key change old =
      ((s.applyContent key change old).1.«over» t, (s.applyContent key change old).2) := by
    intro key change old
    unfold applyContent
    rw [show (s.over t).require key = s.require key from rfl]
    cases s.require key <;> rfl
  cases op with
  | create parent index element =>
      show (s.over t).applyCreate parent index element =
        ((s.applyCreate parent index element).1.«over» t, (s.applyCreate parent index element).2)
      unfold applyCreate
      rw [show (s.over t).require parent = s.require parent from rfl,
        show (s.over t).usedIds = s.usedIds from rfl]
      by_cases hused : s.usedIds.contains element.id = true
      · rw [if_pos hused, if_pos hused]
      · rw [if_neg hused, if_neg hused]
        cases s.require parent with
        | error e => rfl
        | ok node =>
          dsimp only
          by_cases hindex : node.children.length < index.toNat
          · rw [if_pos hindex, if_pos hindex]
          · rw [if_neg hindex, if_neg hindex]
            rfl
  | delete element =>
      show (s.over t).applyDelete element =
        ((s.applyDelete element).1.«over» t, (s.applyDelete element).2)
      unfold applyDelete
      rw [show (s.over t).mutableLocation element = s.mutableLocation element from rfl]
      cases s.mutableLocation element with
      | error e => rfl
      | ok place =>
        obtain ⟨parent, index⟩ := place
        dsimp only
        rw [show ((s.over t).modifyNode parent fun n =>
            { n with children := n.children.eraseIdx index }).nodes =
          (s.modifyNode parent fun n =>
            { n with children := n.children.eraseIdx index }).nodes from rfl]
        split <;> rfl
  | move element parent index =>
      show (s.over t).applyMove element parent index =
        ((s.applyMove element parent index).1.«over» t, (s.applyMove element parent index).2)
      unfold applyMove
      rw [show (s.over t).mutableLocation element = s.mutableLocation element from rfl]
      cases s.mutableLocation element with
      | error e => rfl
      | ok place =>
        obtain ⟨oldParent, oldIndex⟩ := place
        dsimp only
        rw [show (s.over t).require parent = s.require parent from rfl]
        cases s.require parent with
        | error e => rfl
        | ok target =>
          dsimp only
          by_cases hindex : target.children.length - (if oldParent = parent then 1 else 0) <
              index.toNat
          · rw [if_pos hindex, if_pos hindex]
          · rw [if_neg hindex, if_neg hindex, show (s.over t).nodes = s.nodes from rfl]
            cases refuseCycle s.nodes element (s.nodes.size + 1) (some parent) <;> rfl
  | setAttribute key name value =>
      unfold applyOne
      exact hcontent ..
  | removeAttribute key name =>
      unfold applyOne
      exact hcontent ..
  | replaceText key text =>
      unfold applyOne
      exact hcontent ..
  | appendText key text =>
      unfold applyOne
      exact hcontent ..
  | replacePayload key payload =>
      unfold applyOne
      exact hcontent ..

omit [Json.SerdeJson] in
theorem applyOne_offset (s : SessionSnapshot) (op : PatchOp) :
    (s.applyOne op).1.offset = s.offset := by
  have h := congrArg Prod.fst (applyOne_over s s op)
  rw [show s.over s = s from rfl] at h
  rw [h]
  rfl

omit [Json.SerdeJson] in
theorem applyOne_relabel (s t : SessionSnapshot) (op : PatchOp) :
    (s.relabel t).applyOne op = ((s.applyOne op).1.relabel t, (s.applyOne op).2) := by
  rw [show s.relabel t = s.over { t with offset := s.offset } from rfl, applyOne_over]
  unfold «over» relabel
  rw [applyOne_offset]

omit [Json.SerdeJson] in
/-- The operations of an accepted patch do not read the session and the branch. -/
theorem applyOps_relabel (t : SessionSnapshot) {done : List Undo} {ops : List PatchOp}
    (h : s.applyOps done ops = (s', .ok ())) :
    (s.relabel t).applyOps done ops = (s'.relabel t, .ok ()) := by
  induction ops generalizing s done with
  | nil =>
      cases h
      rfl
  | cons op ops ih =>
      have hone := applyOne_relabel s t op
      unfold applyOps at h ⊢
      rw [hone]
      split at h
      · next s₁ u hop =>
        rw [hop]
        exact ih h
      · cases h

/-- A patch that one copy of a document accepts is accepted by every copy, to the same effect. -/
theorem SameTree.applyPatch {t : SessionSnapshot} {patch : Patch} (h : SameTree s t)
    (hpatch : s.applyPatch patch = (s', .ok ())) :
    ∃ t', t.applyPatch patch = (t', .ok ()) ∧ SameTree s' t' := by
  obtain ⟨hvalid, hbase, s₁, hops, rfl⟩ := applyPatch_ok hpatch
  have hops' := applyOps_relabel t hops
  rw [← h.eq_relabel] at hops'
  refine ⟨{ s₁.relabel t with offset := patch.resultOffset }, ?_, rfl, rfl, rfl⟩
  unfold SessionSnapshot.applyPatch
  rw [hvalid]
  dsimp only
  rw [if_neg (not_not.mpr (hbase.trans h.offset)), hops']

/-- The nodes form one tree rooted at `root` that holds the structural containers. -/
structure OneTree (s : SessionSnapshot) : Prop where
  root : ∃ node : Node, s.nodes[rootId]? = some node ∧ node.parent = none
  /-- A node other than the root has a present parent that lists it exactly once. -/
  listed : ∀ (key : ElementId) (node : Node), s.nodes[key]? = some node → key ≠ rootId →
    ∃ up, ∃ upNode : Node, node.parent = some up ∧ s.nodes[up]? = some upNode ∧
      upNode.children.count key = 1
  /-- A listed child is present and names the node that lists it. -/
  children : ∀ (key : ElementId) (node : Node), s.nodes[key]? = some node → ∀ c ∈ node.children,
    ∃ child : Node, s.nodes[c]? = some child ∧ child.parent = some key
  nodup : ∀ (key : ElementId) (node : Node), s.nodes[key]? = some node → node.children.Nodup
  /-- Following the parents of a node ends at the root. -/
  reaches : ∀ (key : ElementId) (node : Node), s.nodes[key]? = some node → ReflTransGen (Up s.links) key rootId
  acyclic : ∀ key, ¬ TransGen (Up s.links) key key
  containers : ∀ key ∈ roots, ∃ node : Node, s.nodes[key]? = some node ∧ node.parent = containerParent key
  used : ∀ (key : ElementId) (node : Node), s.nodes[key]? = some node → key ∈ s.usedIds

/-- Every snapshot that calls of `apply_patch` lead to, accepted or refused, is one tree. -/
theorem afterPatches_oneTree (sessionId : SessionId) (patches : List Patch) :
    OneTree (afterPatches sessionId patches) := by
  have hwf := afterPatches_wellFormed sessionId patches
  refine ⟨?_, ?_, ?_, ?_, ?_, ?_, hwf.containers, fun _ _ => hwf.used⟩
  · obtain ⟨link, hlink, hnone⟩ := hwf.tree.topLink
    obtain ⟨node, hnode, rfl⟩ := linksOf_eq_some.mp hlink
    exact ⟨node, hnode, hnone⟩
  · intro key node hnode hne
    obtain ⟨up, link, hparent, hlink, hmem⟩ := hwf.tree.listed (linksOf_of_get hnode) hne
    obtain ⟨upNode, hupNode, rfl⟩ := linksOf_eq_some.mp hlink
    exact ⟨up, upNode, hparent, hupNode,
      count_eq_one_of_mem (hwf.tree.nodup (linksOf_of_get hupNode)) hmem⟩
  · intro key node hnode c hc
    obtain ⟨link, hlink, hparent⟩ := hwf.tree.child (linksOf_of_get hnode) hc
    obtain ⟨child, hchild, rfl⟩ := linksOf_eq_some.mp hlink
    exact ⟨child, hchild, hparent⟩
  · exact fun key node hnode => hwf.tree.nodup (linksOf_of_get hnode)
  · exact fun key node hnode => hwf.tree.reaches (linksOf_of_get hnode)
  · intro key hcycle
    obtain ⟨up, hup, hback⟩ := TransGen.head'_iff.mp hcycle
    exact hwf.tree.not_reaches_of_up hup hback

end SessionSnapshot

end Omp2.State
