import Omp2.State.Rollback

/-!
# Growing a document

Creating an element adds it to the children of its parent and leaves every other node as it was.
Replacing a text changes one element and none of the links.
-/

namespace Omp2.State.SessionSnapshot

open OrderedTree List

variable {s s' : SessionSnapshot} {u : Undo}

/-- What an accepted `Create` has changed. -/
structure Created (s s' : SessionSnapshot) (parent : ElementId) (element : ElementSnapshot) :
    Prop where
  fresh : element.id ∉ s.usedIds
  node : s'.nodes[element.id]? = some { element, parent := some parent, children := [] }
  nodes : ∀ key n, key ≠ parent → s.nodes[key]? = some n → s'.nodes[key]? = some n
  kept : ∀ key e, s.element key = some e → s'.element key = some e
  children : (s'.children parent).Perm (element :: s.children parent)
  others : ∀ up, up ≠ parent → up ≠ element.id → s'.children up = s.children up

theorem element_of_child (hwf : WellFormed s) {up key : ElementId} {n : Node}
    (hn : s.nodes[up]? = some n) (hkey : key ∈ n.children) : ∃ e, s.element key = some e := by
  obtain ⟨link, hlink, _⟩ := hwf.tree.child (linksOf_of_get hn) hkey
  obtain ⟨node, hnode, _⟩ := linksOf_eq_some.mp hlink
  exact ⟨node.element, by unfold SessionSnapshot.element; rw [hnode]; rfl⟩

theorem applyCreate_created {parent : ElementId} {index : UInt32} {element : ElementSnapshot}
    (hwf : WellFormed s) (h : s.applyCreate parent index element = (s', .ok u)) :
    Created s s' parent element := by
  obtain ⟨hfresh, ⟨node, hnode, hindex⟩, hs', _⟩ := applyCreate_ok h
  have hget : ∀ key, s'.nodes[key]? =
      if element.id = key then some { element, parent := some parent, children := [] }
      else if parent = key then (s.nodes[key]?).map fun n =>
        { n with children := n.children.insertIdx index.toNat element.id }
      else s.nodes[key]? := by
    intro key
    rw [hs']
    exact (getElem?_insert ..).trans (by rw [getElem?_modify])
  have hne : ∀ {key n}, s.nodes[key]? = some n → element.id ≠ key := by
    intro key n hn heq
    exact hfresh (heq ▸ hwf.used hn)
  have hkept : ∀ key e, s.element key = some e → s'.element key = some e := by
    intro key e he
    obtain ⟨n, hn, rfl⟩ := Option.map_eq_some_iff.mp he
    unfold SessionSnapshot.element
    rw [hget, if_neg (hne hn), hn]
    split <;> rfl
  -- the children that were listed before are the same elements as before
  have hlisted : ∀ (up : ElementId) (n : Node), s.nodes[up]? = some n →
      n.children.filterMap s'.element = n.children.filterMap s.element := by
    intro up n hn
    refine filterMap_congr fun key hkey => ?_
    obtain ⟨e, he⟩ := element_of_child hwf hn hkey
    rw [he, hkept key e he]
  refine ⟨hfresh, by rw [hget, if_pos rfl], fun key n hkey hn => ?_, hkept, ?_, ?_⟩
  · rw [hget, if_neg (hne hn), if_neg (Ne.symm hkey), hn]
  · unfold SessionSnapshot.children
    rw [hget, if_neg (hne hnode), if_pos rfl, hnode]
    refine ((perm_insertIdx element.id node.children hindex).filterMap _).trans ?_
    have hself : s'.element element.id = some element := by
      unfold SessionSnapshot.element
      rw [hget, if_pos rfl]
      rfl
    rw [filterMap_cons_some hself, hlisted parent node hnode]
  · intro up hup hfreshUp
    unfold SessionSnapshot.children
    rw [hget, if_neg (Ne.symm hfreshUp), if_neg (Ne.symm hup)]
    cases hn : s.nodes[up]? with
    | none => rfl
    | some n => exact hlisted up n hn

/-- Inserting into a list whose elements all have an image inserts into the images. -/
theorem filterMap_insertIdx {α β : Type} {f : α → Option β} {a : α} {b : β} (ha : f a = some b)
    {l : List α} (hl : ∀ x ∈ l, ∃ y, f x = some y) (i : Nat) :
    (l.filterMap f).length = l.length ∧
      (l.insertIdx i a).filterMap f = (l.filterMap f).insertIdx i b := by
  induction l generalizing i with
  | nil =>
      refine ⟨rfl, ?_⟩
      cases i with
      | zero => rw [insertIdx_zero, filterMap_cons_some ha, filterMap_nil,
          insertIdx_zero]
      | succ i => rfl
  | cons x xs ih =>
      obtain ⟨⟨y, hy⟩, hxs⟩ := forall_mem_cons.mp hl
      rw [filterMap_cons_some hy]
      refine ⟨congrArg Nat.succ (ih hxs 0).1, ?_⟩
      cases i with
      | zero => rw [insertIdx_zero, filterMap_cons_some ha, filterMap_cons_some hy,
          insertIdx_zero]
      | succ i => rw [insertIdx_succ_cons, filterMap_cons_some hy,
          insertIdx_succ_cons, (ih hxs i).2]

/-- The place of a created element among the children of its parent. -/
theorem applyCreate_children {parent : ElementId} {index : UInt32} {element : ElementSnapshot}
    (hwf : WellFormed s) (h : s.applyCreate parent index element = (s', .ok u)) :
    index.toNat ≤ (s.children parent).length ∧
      s'.children parent = (s.children parent).insertIdx index.toNat element := by
  have hcreated := applyCreate_created hwf h
  obtain ⟨hfresh, ⟨node, hnode, hindex⟩, hs', _⟩ := applyCreate_ok h
  have hpresent : ∀ key ∈ node.children, ∃ e, s'.element key = some e := by
    intro key hkey
    obtain ⟨e, he⟩ := element_of_child hwf hnode hkey
    exact ⟨e, hcreated.kept key e he⟩
  have hlisted : node.children.filterMap s'.element = s.children parent := by
    unfold SessionSnapshot.children
    rw [hnode]
    refine filterMap_congr fun key hkey => ?_
    obtain ⟨e, he⟩ := element_of_child hwf hnode hkey
    rw [he, hcreated.kept key e he]
  have hself : s'.element element.id = some element := by
    unfold SessionSnapshot.element
    rw [hcreated.node]
    rfl
  have hparent : s'.nodes[parent]? =
      some { node with children := node.children.insertIdx index.toNat element.id } := by
    have hne : element.id ≠ parent := fun heq => hfresh (heq ▸ hwf.used hnode)
    rw [hs']
    refine (getElem?_insert ..).trans ?_
    rw [if_neg hne, getElem?_modify, if_pos rfl, hnode]
    rfl
  obtain ⟨hlength, hinsert⟩ := filterMap_insertIdx hself hpresent index.toNat
  rw [hlisted] at hlength hinsert
  refine ⟨hlength ▸ hindex, ?_⟩
  rw [← hinsert, SessionSnapshot.children, hparent]

/-- The element with another text. -/
def retext (key : ElementId) (text : String) (e : ElementSnapshot) : ElementSnapshot :=
  if e.id = key then { e with text } else e

/-- What an accepted `ReplaceText` has changed. -/
structure Retexted (s s' : SessionSnapshot) (key : ElementId) (text : String) : Prop where
  nodes : ∀ other, other ≠ key → s'.nodes[other]? = s.nodes[other]?
  children : ∀ up, s'.children up = (s.children up).map (retext key text)

theorem replaceText_retexted {key : ElementId} {text : String} (hwf : WellFormed s)
    (h : s.applyOne (.replaceText key text) = (s', .ok u)) : Retexted s s' key text := by
  dsimp only [applyOne] at h
  obtain ⟨node, hnode, _, rfl⟩ := applyContent_ok h
  have hget : ∀ other, (s.modifyNode key (setElement fun e => { e with text })).nodes[other]? =
      if key = other then (s.nodes[other]?).map (setElement fun e => { e with text })
      else s.nodes[other]? := fun other => getElem?_modify ..
  have helement : ∀ other, (s.modifyNode key (setElement fun e => { e with text })).element other =
      (s.element other).map (retext key text) := by
    intro other
    unfold SessionSnapshot.element
    rw [hget]
    cases hother : s.nodes[other]? with
    | none => split <;> rfl
    | some n =>
      have hname := hwf.named hother
      unfold retext
      split
      · next heq =>
        show some _ = some (if n.element.id = key then _ else _)
        rw [if_pos (hname.trans heq.symm)]
        rfl
      · next hne =>
        show some _ = some (if n.element.id = key then _ else _)
        rw [if_neg (fun heq => hne (heq.symm.trans hname))]
  refine ⟨fun other hother => ?_, fun up => ?_⟩
  · rw [hget, if_neg (Ne.symm hother)]
  · unfold SessionSnapshot.children
    have hlisted : ∀ keys : List ElementId,
        keys.filterMap (s.modifyNode key (setElement fun e => { e with text })).element =
          (keys.filterMap s.element).map (retext key text) := by
      intro keys
      rw [map_filterMap]
      exact filterMap_congr fun other _ => helement other
    have hup : ∀ n, s.nodes[up]? = some n → ∃ n', (s.modifyNode key
        (setElement fun e => { e with text })).nodes[up]? = some n' ∧ n'.children = n.children := by
      intro n hn
      rw [hget, hn]
      split <;> exact ⟨_, rfl, rfl⟩
    cases hn : s.nodes[up]? with
    | none =>
      have habsent : (s.modifyNode key (setElement fun e => { e with text })).nodes[up]? = none := by
        rw [hget, hn, Option.map_none, ite_self]
      rw [habsent]
      rfl
    | some n =>
      obtain ⟨n', hn', heq⟩ := hup n hn
      rw [hn']
      dsimp only
      rw [heq]
      exact hlisted n.children

end Omp2.State.SessionSnapshot
