import Mathlib.Data.List.Pairwise
import Omp2.Control.Compaction
import Omp2.State.Growth

/-!
# The summary nodes as a forest

`Summarised` says of the elements under `summaries` that they are readable nodes, each made over
roots of the nodes before it, and that no element is covered twice. The loaded nodes then partition
what they cover: every covered element is in the expansion of exactly one root.
-/

namespace Omp2.Control

open Omp2.State List

/-- The node that an element holds. -/
def nodeOf (e : ElementSnapshot) : SummaryNode :=
  match SummaryNode.fromElement e with
  | .ok node => node
  | .error _ => default

/-- The node of a written element is the node that was written. -/
@[simp] theorem nodeOf_toElement (node : SummaryNode) (id : ElementId) (kind : SummaryKind)
    (text : String) : nodeOf (node.toElement id kind text) = node := by
  unfold nodeOf
  rw [SummaryNode.fromElement_toElement]

/-- The groups that nodes form with their children. -/
def groups (es : List ElementSnapshot) : List (ElementId × List ElementId) :=
  es.map fun e => (e.id, (nodeOf e).children)

/-- The elements under `summaries` hold a forest of nodes, and no element is covered twice. -/
structure Summarised (es : List ElementSnapshot) : Prop where
  readable : ∀ e ∈ es, SummaryNode.fromElement e = .ok (nodeOf e)
  grown : ∃ made, made.Perm es ∧ Forest.Grown (groups made)
  covered : (es.flatMap fun e => (nodeOf e).covered).Nodup

variable {es es' : List ElementSnapshot}

theorem summarised_nil : Summarised [] :=
  ⟨nofun, ⟨[], .refl _, .nil⟩, .nil⟩

theorem Summarised.perm (h : Summarised es) (hperm : es.Perm es') : Summarised es' := by
  obtain ⟨made, hmade, hgrown⟩ := h.grown
  exact ⟨fun e he => h.readable e (hperm.mem_iff.mpr he), ⟨made, hmade.trans hperm, hgrown⟩,
    (hperm.flatMap_right _).nodup_iff.mp h.covered⟩

theorem Summarised.nodup (h : Summarised es) : (es.map ElementSnapshot.id).Nodup := by
  obtain ⟨made, hmade, hgrown⟩ := h.grown
  have hids : (groups made).map Prod.fst = made.map ElementSnapshot.id := by
    unfold groups
    rw [map_map]
    rfl
  exact (hmade.map _).nodup_iff.mp (hids ▸ hgrown.nodup)

/-- A new node over some of the roots, which covers nothing that is covered already. -/
theorem Summarised.add {e : ElementSnapshot} (h : Summarised es)
    (hreadable : SummaryNode.fromElement e = .ok (nodeOf e))
    (hfresh : e.id ∉ es.map ElementSnapshot.id)
    (hroots : ∀ child ∈ (nodeOf e).children, Forest.IsRoot (groups es) child)
    (hcovered : (nodeOf e).covered.Nodup)
    (hnew : ∀ x ∈ (nodeOf e).covered, ∀ e' ∈ es, x ∉ (nodeOf e').covered) :
    Summarised (e :: es) := by
  obtain ⟨made, hmade, hgrown⟩ := h.grown
  have hgroups : (groups made).Perm (groups es) := hmade.map _
  refine ⟨?_, ⟨e :: made, hmade.cons e, .add hgrown ?_ fun child hchild => ?_⟩, ?_⟩
  · intro e' he'
    rcases mem_cons.mp he' with rfl | he'
    · exact hreadable
    · exact h.readable e' he'
  · intro hmem
    obtain ⟨e', he', heq⟩ := mem_map.mp ((hgroups.map _).mem_iff.mp hmem)
    obtain ⟨e'', he'', rfl⟩ := mem_map.mp he'
    exact hfresh (mem_map.mpr ⟨e'', he'', heq⟩)
  · obtain ⟨hmem, hnot⟩ := hroots child hchild
    exact ⟨(hgroups.map _).mem_iff.mpr hmem,
      fun hmember => hnot ((hgroups.flatMap_right _).mem_iff.mp hmember)⟩
  · rw [flatMap_cons, nodup_append]
    refine ⟨hcovered, h.covered, fun x hx y hy heq => ?_⟩
    obtain ⟨e', he', hy⟩ := mem_flatMap.mp hy
    exact hnew x hx e' he' (heq ▸ hy)

/-- The text of a node is no part of it. -/
@[simp] theorem nodeOf_retext (key : ElementId) (text : String) (e : ElementSnapshot) :
    nodeOf (SessionSnapshot.retext key text e) = nodeOf e := by
  unfold SessionSnapshot.retext
  split <;> rfl

theorem fromElement_retext (key : ElementId) (text : String) (e : ElementSnapshot) :
    SummaryNode.fromElement (SessionSnapshot.retext key text e) = SummaryNode.fromElement e := by
  unfold SessionSnapshot.retext
  split <;> rfl

theorem id_retext (key : ElementId) (text : String) (e : ElementSnapshot) :
    (SessionSnapshot.retext key text e).id = e.id := by
  unfold SessionSnapshot.retext
  split <;> rfl

/-- The same nodes with another text. -/
theorem Summarised.retext (h : Summarised es) (key : ElementId) (text : String) :
    Summarised (es.map (SessionSnapshot.retext key text)) := by
  obtain ⟨made, hmade, hgrown⟩ := h.grown
  refine ⟨?_, ⟨_, hmade.map _, ?_⟩, ?_⟩
  · intro e he
    obtain ⟨e₀, he₀, rfl⟩ := mem_map.mp he
    rw [fromElement_retext, nodeOf_retext]
    exact h.readable e₀ he₀
  · have hsame : groups (made.map (SessionSnapshot.retext key text)) = groups made := by
      unfold groups
      rw [map_map]
      refine map_congr_left fun e _ => ?_
      show ((SessionSnapshot.retext key text e).id,
        (nodeOf (SessionSnapshot.retext key text e)).children) = _
      rw [nodeOf_retext, id_retext]
    exact hsame ▸ hgrown
  · rw [flatMap_map]
    simp only [nodeOf_retext]
    exact h.covered

/-! ## Loaded nodes -/

/-- The elements that are covered. -/
def Covers (es : List ElementSnapshot) (x : ElementId) : Prop :=
  ∃ e ∈ es, x ∈ (nodeOf e).covered

namespace SummaryDag

/-- The loaded nodes are those of some elements. -/
structure Of (dag : SummaryDag) (es : List ElementSnapshot) : Prop where
  readable : dag.unreadable = 0
  order : dag.order.Perm (es.map ElementSnapshot.id)
  nodes : ∀ id node, dag.nodes[id]? = some node ↔ ∃ e ∈ es, e.id = id ∧ nodeOf e = node
  texts : ∀ id text, dag.texts[id]? = some text ↔ ∃ e ∈ es, e.id = id ∧ e.text = text
  children : ∀ x, x ∈ dag.children ↔ ∃ e ∈ es, x ∈ (nodeOf e).children

variable {dag dag' : SummaryDag}

theorem Of.perm (h : dag.Of es) (hperm : es.Perm es') : dag.Of es' := by
  refine ⟨h.readable, h.order.trans (hperm.map _), ?_, ?_, ?_⟩
  · intro id node
    rw [h.nodes]
    simp only [hperm.mem_iff]
  · intro id text
    rw [h.texts]
    simp only [hperm.mem_iff]
  · intro x
    rw [h.children]
    simp only [hperm.mem_iff]

theorem mem_extend {set : Std.ExtTreeSet ElementId} {ids : List ElementId} {x : ElementId} :
    x ∈ extend set ids ↔ x ∈ set ∨ x ∈ ids := by
  unfold extend
  induction ids generalizing set with
  | nil => simp
  | cons id ids ih =>
      rw [foldl_cons, ih, Std.ExtTreeSet.mem_insert, mem_cons,
        Std.LawfulEqCmp.compare_eq_iff_eq]
      constructor
      · rintro ((rfl | hx) | hx)
        · exact .inr (.inl rfl)
        · exact .inl hx
        · exact .inr (.inr hx)
      · rintro (hx | rfl | hx)
        · exact .inl (.inr hx)
        · exact .inl (.inl rfl)
        · exact .inr hx

/-- Loading one more element. -/
theorem Of.add {e : ElementSnapshot} (h : dag.Of es)
    (hreadable : SummaryNode.fromElement e = .ok (nodeOf e))
    (hfresh : e.id ∉ es.map ElementSnapshot.id) : (dag.add e).Of (e :: es) := by
  have hother : ∀ e' ∈ es, e'.id ≠ e.id :=
    fun e' he' heq => hfresh (mem_map.mpr ⟨e', he', heq⟩)
  unfold SummaryDag.add
  rw [hreadable]
  refine ⟨h.readable, ?_, ?_, ?_, ?_⟩
  · exact (perm_append_singleton _ _).trans (h.order.cons e.id)
  · intro id node
    dsimp only
    rw [Std.ExtTreeMap.getElem?_insert]
    split
    · next heq =>
      obtain rfl : e.id = id := by simpa using heq
      simp only [mem_cons, exists_eq_or_imp, true_and, Option.some.injEq]
      refine ⟨.inl, ?_⟩
      rintro (hnode | ⟨e', he', hid, _⟩)
      · exact hnode
      · exact absurd hid (hother e' he')
    · next hne =>
      have hne : e.id ≠ id := by simpa using hne
      rw [h.nodes]
      simp [hne]
  · intro id text
    dsimp only
    rw [Std.ExtTreeMap.getElem?_insert]
    split
    · next heq =>
      obtain rfl : e.id = id := by simpa using heq
      simp only [mem_cons, exists_eq_or_imp, true_and, Option.some.injEq]
      refine ⟨.inl, ?_⟩
      rintro (htext | ⟨e', he', hid, _⟩)
      · exact htext
      · exact absurd hid (hother e' he')
    · next hne =>
      have hne : e.id ≠ id := by simpa using hne
      rw [h.texts]
      simp [hne]
  · intro x
    rw [mem_extend, h.children]
    simp only [mem_cons, exists_eq_or_imp]
    exact or_comm

/-- Loading some readable elements with different identifiers. -/
theorem Of.addAll (rest : List ElementSnapshot) {done : List ElementSnapshot} (h : dag.Of done)
    (hreadable : ∀ e ∈ rest, SummaryNode.fromElement e = .ok (nodeOf e))
    (hnodup : ((done ++ rest).map ElementSnapshot.id).Nodup) :
    (rest.foldl SummaryDag.add dag).Of (done ++ rest) := by
  induction rest generalizing done dag with
  | nil =>
      rw [append_nil]
      exact h
  | cons e rest ih =>
      obtain ⟨he, hrest⟩ := forall_mem_cons.mp hreadable
      have hmoved : (done ++ e :: rest).Perm (e :: done ++ rest) := perm_middle
      have hfresh : e.id ∉ done.map ElementSnapshot.id := by
        intro hmem
        have hcons := (hmoved.map ElementSnapshot.id).nodup_iff.mp hnodup
        rw [cons_append, map_cons, nodup_cons, map_append] at hcons
        exact hcons.1 (mem_append_left _ hmem)
      exact (ih (h.add he hfresh) hrest
        ((hmoved.map ElementSnapshot.id).nodup_iff.mp hnodup)).perm hmoved.symm

/-- Loading the elements under `summaries`, which are readable. -/
theorem load_of_elements {s : SessionSnapshot}
    (hreadable : ∀ e ∈ s.children (staticId "summaries"),
      SummaryNode.fromElement e = .ok (nodeOf e))
    (hnodup : ((s.children (staticId "summaries")).map ElementSnapshot.id).Nodup) :
    (load s).Of (s.children (staticId "summaries")) := by
  have hempty : (⟨∅, ∅, [], ∅, 0⟩ : SummaryDag).Of [] := ⟨rfl, .refl _, by simp, by simp, by simp⟩
  exact hempty.addAll _ hreadable hnodup

theorem load_of {s : SessionSnapshot} (h : Summarised (s.children (staticId "summaries"))) :
    (load s).Of (s.children (staticId "summaries")) :=
  load_of_elements h.readable h.nodup

/-- Nodes of which none is counted as unreadable are readable. -/
theorem readable_of_zero (es : List ElementSnapshot) (h : (es.foldl add dag).unreadable = 0) :
    dag.unreadable = 0 ∧ ∀ e ∈ es, SummaryNode.fromElement e = .ok (nodeOf e) := by
  induction es generalizing dag with
  | nil => exact ⟨h, nofun⟩
  | cons e es ih =>
      obtain ⟨hadd, hrest⟩ := ih h
      unfold add at hadd
      cases hnode : SummaryNode.fromElement e with
      | error message =>
        rw [hnode] at hadd
        cases hadd
      | ok node =>
        rw [hnode] at hadd
        refine ⟨hadd, forall_mem_cons.mpr ⟨?_, hrest⟩⟩
        unfold nodeOf
        rw [hnode]

/-- Replacing the text of a node. -/
theorem Of.retext (h : dag.Of es) {key : ElementId} (hkey : key ∈ dag.order) (text : String) :
    ({ dag with texts := dag.texts.insert key text } : SummaryDag).Of
      (es.map (SessionSnapshot.retext key text)) := by
  refine ⟨h.readable, ?_, ?_, ?_, ?_⟩
  · have hids : (es.map (SessionSnapshot.retext key text)).map ElementSnapshot.id =
        es.map ElementSnapshot.id := by
      rw [map_map]
      exact map_congr_left fun e _ => id_retext key text e
    rw [hids]
    exact h.order
  · intro id node
    rw [h.nodes]
    simp [id_retext]
  · intro id text'
    dsimp only
    rw [Std.ExtTreeMap.getElem?_insert]
    split
    · next heq =>
      obtain rfl : key = id := by simpa using heq
      obtain ⟨e, he, rfl⟩ := mem_map.mp (h.order.mem_iff.mp hkey)
      constructor
      · rintro heq
        cases heq
        refine ⟨_, mem_map_of_mem he, id_retext .., ?_⟩
        unfold SessionSnapshot.retext
        rw [if_pos rfl]
      · rintro ⟨e', he', hid, rfl⟩
        obtain ⟨e'', _, rfl⟩ := mem_map.mp he'
        rw [id_retext] at hid
        unfold SessionSnapshot.retext
        rw [if_pos hid]
    · next hne =>
      have hne : key ≠ id := by simpa using hne
      rw [h.texts]
      constructor
      · rintro ⟨e, he, rfl, rfl⟩
        refine ⟨_, mem_map_of_mem he, id_retext .., ?_⟩
        unfold SessionSnapshot.retext
        rw [if_neg (Ne.symm hne)]
      · rintro ⟨e', he', rfl, rfl⟩
        obtain ⟨e, he, rfl⟩ := mem_map.mp he'
        rw [id_retext] at hne ⊢
        refine ⟨e, he, rfl, ?_⟩
        unfold SessionSnapshot.retext
        rw [if_neg (Ne.symm hne)]
  · intro x
    rw [h.children]
    simp

/-- The same elements have the same nodes, texts, children and roots, up to the order of these. -/
theorem Of.same (h : dag.Of es) (h' : dag'.Of es) : dag.nodes = dag'.nodes ∧
    dag.texts = dag'.texts ∧ (∀ id, dag.children.contains id = dag'.children.contains id) ∧
      dag.roots.Perm dag'.roots := by
  have hcontains : ∀ id, dag.children.contains id = dag'.children.contains id := by
    intro id
    rw [Bool.eq_iff_iff, Std.ExtTreeSet.contains_iff_mem, Std.ExtTreeSet.contains_iff_mem,
      h.children, h'.children]
  refine ⟨?_, ?_, hcontains, ?_⟩
  · refine Std.ExtTreeMap.ext_getElem? fun id => Option.ext fun node => ?_
    rw [h.nodes, h'.nodes]
  · refine Std.ExtTreeMap.ext_getElem? fun id => Option.ext fun text => ?_
    rw [h.texts, h'.texts]
  · unfold SummaryDag.roots
    rw [filter_congr fun id _ => congrArg Bool.not (hcontains id)]
    exact (h.order.trans h'.order.symm).filter _

theorem Of.fold_eq (h : dag.Of es) (h' : dag'.Of es) : dag.fold = dag'.fold := by
  obtain ⟨hnodes, htexts, -, -⟩ := h.same h'
  funext id
  unfold SummaryDag.fold renderFold textOf
  rw [hnodes, htexts]

theorem Of.folds_perm (h : dag.Of es) (h' : dag'.Of es) : dag.folds.Perm dag'.folds := by
  unfold SummaryDag.folds
  rw [h.fold_eq h']
  exact (h.same h').2.2.2.map _

end SummaryDag

/-! ## The partition -/

/-- The nodes partition what they cover: no two nodes cover the same element, and every covered
element is in the expansion of exactly one root. -/
structure Partition (dag : SummaryDag) : Prop where
  readable : dag.unreadable = 0
  disjoint : ∀ (a b : ElementId) (node node' : SummaryNode), dag.nodes[a]? = some node →
    dag.nodes[b]? = some node' → a ≠ b → List.Disjoint node.covered node'.covered
  rooted : ∀ x ∈ dag.covered, ∃! root, root ∈ dag.roots ∧ x ∈ expandCovered dag.nodes root
  within : ∀ root ∈ dag.roots, ∀ x ∈ expandCovered dag.nodes root, x ∈ dag.covered

namespace SummaryDag

variable {dag : SummaryDag}

/-- What the loaded nodes cover. -/
theorem Of.mem_covered (h : dag.Of es) {x : ElementId} : x ∈ dag.covered ↔ Covers es x := by
  unfold SummaryDag.covered Covers
  rw [mem_extend]
  simp only [Std.ExtTreeSet.not_mem_empty, false_or, mem_flatMap, Prod.exists,
    Std.ExtTreeMap.mem_toList_iff_getElem?_eq_some, h.nodes]
  constructor
  · rintro ⟨_, _, ⟨e, he, rfl, rfl⟩, hx⟩
    exact ⟨e, he, hx⟩
  · rintro ⟨e, he, hx⟩
    exact ⟨_, _, ⟨e, he, rfl, rfl⟩, hx⟩

/-- What a loaded node covers itself. -/
theorem Of.mem_coveredOf (h : dag.Of es) {id x : ElementId} :
    x ∈ coveredOf dag.nodes id ↔ ∃ e ∈ es, e.id = id ∧ x ∈ (nodeOf e).covered := by
  unfold coveredOf
  cases hnode : dag.nodes[id]? with
  | none =>
      refine ⟨nofun, ?_⟩
      rintro ⟨e, he, hid, _⟩
      rw [(h.nodes id _).mpr ⟨e, he, hid, rfl⟩] at hnode
      cases hnode
  | some node =>
      constructor
      · intro hx
        obtain ⟨e, he, hid, rfl⟩ := (h.nodes id node).mp hnode
        exact ⟨e, he, hid, hx⟩
      · rintro ⟨e, he, hid, hx⟩
        rw [(h.nodes id _).mpr ⟨e, he, hid, rfl⟩] at hnode
        cases hnode
        exact hx

/-- The children of a loaded node. -/
theorem Of.mem_childrenOf (h : dag.Of es) {id x : ElementId} :
    x ∈ childrenOf dag.nodes id ↔ ∃ members, (id, members) ∈ groups es ∧ x ∈ members := by
  unfold childrenOf groups
  cases hnode : dag.nodes[id]? with
  | none =>
      refine ⟨nofun, ?_⟩
      rintro ⟨_, hgroup, _⟩
      obtain ⟨e, he, heq⟩ := mem_map.mp hgroup
      cases heq
      rw [(h.nodes _ _).mpr ⟨e, he, rfl, rfl⟩] at hnode
      cases hnode
  | some node =>
      constructor
      · intro hx
        obtain ⟨e, he, rfl, rfl⟩ := (h.nodes id node).mp hnode
        exact ⟨_, mem_map_of_mem he, hx⟩
      · rintro ⟨_, hgroup, hx⟩
        obtain ⟨e, he, heq⟩ := mem_map.mp hgroup
        cases heq
        rw [(h.nodes _ _).mpr ⟨e, he, rfl, rfl⟩] at hnode
        cases hnode
        exact hx

theorem Of.mem_roots (h : dag.Of es) {id : ElementId} :
    id ∈ dag.roots ↔ Forest.IsRoot (groups es) id := by
  have hids : (groups es).map Prod.fst = es.map ElementSnapshot.id := by
    unfold groups
    rw [map_map]
    rfl
  unfold SummaryDag.roots Forest.IsRoot
  rw [mem_filter, h.order.mem_iff, hids, Bool.not_eq_true', Bool.eq_false_iff, ne_eq,
    Std.ExtTreeSet.contains_iff_mem, h.children]
  simp [groups]

/-- The loaded nodes partition what they cover. -/
theorem Of.partition (h : dag.Of es) (hes : Summarised es) : Partition dag := by
  obtain ⟨made, hmade, hgrown⟩ := hes.grown
  have hgroups : (groups made).Perm (groups es) := hmade.map _
  have hroots : ∀ id, id ∈ dag.roots ↔ Forest.IsRoot (groups made) id := by
    intro id
    rw [h.mem_roots]
    unfold Forest.IsRoot
    rw [(hgroups.map _).mem_iff, (hgroups.flatMap_right _).mem_iff]
  have hleads : Forest.Leads (childrenOf dag.nodes) = Forest.Above (groups made) := by
    refine congrArg Relation.ReflTransGen (funext fun id => funext fun x => propext ?_)
    rw [h.mem_childrenOf]
    simp only [hgroups.mem_iff]
  -- an element is covered by one node only
  have hsame : ∀ e ∈ es, ∀ e' ∈ es, ∀ x ∈ (nodeOf e).covered, x ∈ (nodeOf e').covered → e = e' := by
    intro e he e' he' x hx hx'
    by_contra hne
    have : Std.Symm (Function.onFun List.Disjoint fun e => (nodeOf e).covered) :=
      ⟨fun _ _ hdisjoint _ hx hx' => hdisjoint hx' hx⟩
    exact (nodup_flatMap.mp hes.covered).2.forall he he' hne hx hx'
  refine ⟨h.readable, ?_, fun x hx => ?_, fun root _ x hx => ?_⟩
  · intro a b node node' ha hb hne x hx hx'
    obtain ⟨e, he, rfl, rfl⟩ := (h.nodes a node).mp ha
    obtain ⟨e', he', rfl, rfl⟩ := (h.nodes b node').mp hb
    exact hne (congrArg ElementSnapshot.id (hsame e he e' he' x hx hx'))
  · obtain ⟨e, he, hcovered⟩ := h.mem_covered.mp hx
    have hnode : e.id ∈ (groups made).map Prod.fst :=
      mem_map.mpr ⟨_, mem_map_of_mem (hmade.mem_iff.mpr he), rfl⟩
    have hexpand : ∀ root,
        x ∈ expandCovered dag.nodes root ↔ Forest.Above (groups made) root e.id := by
      intro root
      rw [mem_expandCovered, hleads]
      constructor
      · rintro ⟨id, habove, hid⟩
        obtain ⟨e', he', rfl, hx'⟩ := h.mem_coveredOf.mp hid
        rw [hsame e he e' he' x hcovered hx']
        exact habove
      · intro habove
        exact ⟨e.id, habove, h.mem_coveredOf.mpr ⟨e, he, rfl, hcovered⟩⟩
    simp only [hroots, hexpand]
    exact hgrown.existsUnique_root hnode
  · obtain ⟨id, _, hid⟩ := mem_expandCovered.mp hx
    obtain ⟨e, he, _, hcovered⟩ := h.mem_coveredOf.mp hid
    exact h.mem_covered.mpr ⟨e, he, hcovered⟩

end SummaryDag

end Omp2.Control
