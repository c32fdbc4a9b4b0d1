import Omp2.State.Rollback

/-!
# What a patch leaves alone

An attribute keeps its value unless an operation writes it, and a child of a container keeps its
element and its place unless an operation targets it. Both hold of one operation, of a list of
operations and of a patch.
-/

namespace Omp2

/-- The operation sets or removes an attribute of an element. -/
def PatchOp.Writes (element : ElementId) (name : String) : PatchOp → Prop
  | .setAttribute key written _ | .removeAttribute key written => key = element ∧ written = name
  | _ => False

/-- The present element that an operation changes, moves or removes. -/
def PatchOp.target : PatchOp → Option ElementId
  | .create _ _ _ => none
  | .delete element | .move element _ _ => some element
  | .setAttribute key _ _ | .removeAttribute key _ | .replaceText key _ | .appendText key _
  | .replacePayload key _ => some key

end Omp2

namespace Omp2.State.SessionSnapshot

open OrderedTree

variable {s s' : SessionSnapshot} {u : Undo}

/-! ## The children of a node -/

/-- The children of a node are the elements that name it as their parent. -/
theorem mem_children_iff (hwf : WellFormed s) {e : ElementSnapshot} {parent : ElementId} :
    e ∈ s.children parent ↔
      ∃ n, s.nodes[e.id]? = some n ∧ n.element = e ∧ n.parent = some parent := by
  unfold children
  constructor
  · intro h
    split at h
    · next node hnode =>
      obtain ⟨key, hkey, helement⟩ := List.mem_filterMap.mp h
      obtain ⟨n, hn, rfl⟩ := Option.map_eq_some_iff.mp helement
      have hparent := hwf.tree.parent_of_mem (linksOf_of_get hnode) (linksOf_of_get hn) hkey
      rw [hwf.named hn]
      exact ⟨n, hn, rfl, hparent⟩
    · cases h
  · rintro ⟨n, hn, rfl, hparent⟩
    have htop : n.element.id ≠ rootId := by
      intro heq
      exact hwf.tree.not_up_top parent ⟨_, heq ▸ linksOf_of_get hn, hparent⟩
    obtain ⟨up, link, hup, hlink, hlisted⟩ := hwf.tree.listed (linksOf_of_get hn) htop
    obtain rfl : parent = up := Option.some.inj (hparent.symm.trans hup)
    obtain ⟨node, hnode, rfl⟩ := linksOf_eq_some.mp hlink
    rw [hnode]
    exact List.mem_filterMap.mpr ⟨n.element.id, hlisted, by unfold element; rw [hn]; rfl⟩

/-! ## One operation -/

/-- An accepted operation: the contents of its target change, or it is one of the three operations
on the tree. -/
inductive Applied (s s' : SessionSnapshot) (u : Undo) : PatchOp → Prop where
  | create {parent index element} : s.applyCreate parent index element = (s', .ok u) →
      Applied s s' u (.create parent index element)
  | delete {element} : s.applyDelete element = (s', .ok u) → Applied s s' u (.delete element)
  | move {element parent index} : s.applyMove element parent index = (s', .ok u) →
      Applied s s' u (.move element parent index)
  | content {op : PatchOp} {key : ElementId} {change : ElementSnapshot → ElementSnapshot} :
      op.target = some key → s' = s.modifyNode key (setElement change) →
      (∀ (name : String) (e : ElementSnapshot), ¬ op.Writes key name →
        (change e).attributes[name]? = e.attributes[name]?) → Applied s s' u op

theorem applied_of_ok {op : PatchOp} (h : s.applyOne op = (s', .ok u)) : Applied s s' u op := by
  cases op with
  | create parent index element => exact .create h
  | delete element => exact .delete h
  | move element parent index => exact .move h
  | setAttribute key written value =>
      dsimp only [applyOne] at h
      obtain ⟨_, _, _, hs'⟩ := applyContent_ok h
      refine .content rfl hs' fun name e hkeeps => ?_
      show (e.attributes.insert written value)[name]? = _
      rw [Std.ExtTreeMap.getElem?_insert, if_neg (fun heq => hkeeps ⟨rfl, by simpa using heq⟩)]
  | removeAttribute key written =>
      dsimp only [applyOne] at h
      obtain ⟨_, _, _, hs'⟩ := applyContent_ok h
      refine .content rfl hs' fun name e hkeeps => ?_
      show (e.attributes.erase written)[name]? = _
      rw [Std.ExtTreeMap.getElem?_erase, if_neg (fun heq => hkeeps ⟨rfl, by simpa using heq⟩)]
  | replaceText =>
      dsimp only [applyOne] at h
      obtain ⟨_, _, _, hs'⟩ := applyContent_ok h
      exact .content rfl hs' fun _ _ _ => rfl
  | appendText =>
      dsimp only [applyOne] at h
      obtain ⟨_, _, _, hs'⟩ := applyContent_ok h
      exact .content rfl hs' fun _ _ _ => rfl
  | replacePayload =>
      dsimp only [applyOne] at h
      obtain ⟨_, _, _, hs'⟩ := applyContent_ok h
      exact .content rfl hs' fun _ _ _ => rfl

/-- No operation forgets an identifier. -/
theorem applyOne_usedIds {op : PatchOp} (hwf : WellFormed s) (h : s.applyOne op = (s', .ok u))
    {x : ElementId} (hx : x ∈ s.usedIds) : x ∈ s'.usedIds := by
  cases applied_of_ok h with
  | create h =>
      obtain ⟨_, _, rfl, _⟩ := applyCreate_ok h
      exact Std.ExtTreeSet.mem_insert.mpr (.inr hx)
  | delete h =>
      rcases applyDelete_cases hwf h with ⟨_, hr, _⟩ | ⟨_, _, _, _, _, _, _, _, _, _, _, _, rfl, _⟩
      · cases hr
      · exact hx
  | move h =>
      obtain ⟨_, _, _, _, _, _, _, _, _, _, _, _, _, rfl, _⟩ := applyMove_ok h
      exact hx
  | content _ hs' _ =>
      rw [hs']
      exact hx

/-- An operation keeps an attribute that it does not write, as long as its element is there. -/
theorem applyOne_attribute {op : PatchOp} {x : ElementId} {name : String} {n' : Node}
    (hwf : WellFormed s) (h : s.applyOne op = (s', .ok u)) (hx : x ∈ s.usedIds)
    (hkeeps : ¬ op.Writes x name) (hn' : s'.nodes[x]? = some n') :
    ∃ n, s.nodes[x]? = some n ∧ n'.element.attributes[name]? = n.element.attributes[name]? := by
  cases applied_of_ok h with
  | create h =>
      obtain ⟨hfresh, _, rfl, _⟩ := applyCreate_ok h
      dsimp only at hn'
      rw [getElem?_insert, if_neg (fun heq => hfresh (by rw [heq]; exact hx))] at hn'
      obtain ⟨n, hn, rfl⟩ := getElem?_modify_eq_some.mp hn'
      refine ⟨n, hn, ?_⟩
      split <;> rfl
  | delete h =>
      rcases applyDelete_cases hwf h with ⟨_, hr, _⟩ |
        ⟨_, _, _, _, _, _, _, _, _, _, _, hgone, rfl, _⟩
      · cases hr
      · obtain ⟨_, n, hn, helement, _⟩ := get_of_removed hgone hn'
        exact ⟨n, hn, by rw [helement]⟩
  | move h =>
      obtain ⟨_, _, _, _, _, _, _, _, _, _, _, _, _, rfl, _⟩ := applyMove_ok h
      obtain ⟨n₂, hn₂, rfl⟩ := getElem?_modify_eq_some.mp hn'
      obtain ⟨n₁, hn₁, rfl⟩ := getElem?_modify_eq_some.mp hn₂
      obtain ⟨n, hn, rfl⟩ := getElem?_modify_eq_some.mp hn₁
      refine ⟨n, hn, ?_⟩
      split <;> split <;> split <;> rfl
  | content _ hs' hchange =>
      rw [hs'] at hn'
      obtain ⟨n, hn, rfl⟩ := getElem?_modify_eq_some.mp hn'
      refine ⟨n, hn, ?_⟩
      split
      · next heq => exact hchange name n.element (by rw [heq]; exact hkeeps)
      · rfl

/-- A node that an operation does not take away: a container, or a child of one that the operation
does not target. -/
def Stays (s : SessionSnapshot) (op : PatchOp) (up : ElementId) : Prop :=
  up ∈ roots ∨ op.target ≠ some up ∧ ∃ container ∈ roots, ∃ e ∈ s.children container, e.id = up

/-- An operation keeps a child that it does not target under a node that stays. -/
theorem applyOne_child {op : PatchOp} {x parent : ElementId} {n : Node} (hwf : WellFormed s)
    (h : s.applyOne op = (s', .ok u)) (hstays : Stays s op parent) (hkeeps : op.target ≠ some x)
    (hn : s.nodes[x]? = some n) (hup : n.parent = some parent) :
    ∃ n', s'.nodes[x]? = some n' ∧ n'.element = n.element ∧ n'.parent = some parent := by
  cases applied_of_ok h with
  | create h =>
      obtain ⟨hfresh, _, rfl, _⟩ := applyCreate_ok h
      dsimp only
      rw [getElem?_insert, if_neg (fun heq => hfresh (by rw [heq]; exact hwf.used hn))]
      refine ⟨_, getElem?_modify_eq_some.mpr ⟨n, hn, rfl⟩, ?_⟩
      split <;> exact ⟨rfl, hup⟩
  | @delete target h =>
      rcases applyDelete_cases hwf h with ⟨_, hr, _⟩ |
        ⟨_, _, _, _, removed, _, hroots, _, _, _, _, hgone, rfl, _⟩
      · cases hr
      · -- a removed node other than the deleted one hangs below a removed node
        have hparent : ∀ {key : ElementId} {node : Node} {above : ElementId},
            s.nodes[key]? = some node → node.parent = some above → some target ≠ some key →
            key ∈ removed.map Prod.fst → above ∈ removed.map Prod.fst := by
          intro key node above hnode habove hne hmem
          obtain ⟨_, hremoved, hup'⟩ := parent_of_removed hwf hgone key hmem
            (fun heq => hne (congrArg some heq.symm))
          obtain rfl := hup'.unique ⟨_, linksOf_of_get hnode, habove⟩
          exact hremoved
        have hleft : x ∉ removed.map Prod.fst := by
          intro hmem
          have hremoved := hparent hn hup hkeeps hmem
          rcases hstays with hroot | ⟨hkept, container, hcontainer, e', he', rfl⟩
          · exact container_kept hwf hroots hgone _ hroot hremoved
          · obtain ⟨n', hn', rfl, hup'⟩ := (mem_children_iff hwf).mp he'
            exact container_kept hwf hroots hgone _ hcontainer (hparent hn' hup' hkept hremoved)
        dsimp only
        rw [hgone.get, if_neg hleft]
        refine ⟨_, getElem?_modify_eq_some.mpr ⟨n, hn, rfl⟩, ?_⟩
        split <;> exact ⟨rfl, hup⟩
  | move h =>
      obtain ⟨_, _, _, _, _, _, _, _, _, _, _, _, _, rfl, _⟩ := applyMove_ok h
      refine ⟨_, getElem?_modify_eq_some.mpr ⟨_, getElem?_modify_eq_some.mpr
        ⟨_, getElem?_modify_eq_some.mpr ⟨n, hn, rfl⟩, rfl⟩, rfl⟩, ?_⟩
      rw [if_neg (fun heq => hkeeps (congrArg some heq))]
      split <;> split <;> exact ⟨rfl, hup⟩
  | content htarget hs' _ =>
      rw [hs']
      refine ⟨n, getElem?_modify_eq_some.mpr ⟨n, hn, ?_⟩, rfl, hup⟩
      rw [if_neg (fun heq => hkeeps (by rw [htarget, heq]))]

/-! ## The elements after an operation -/

/-- A change of the contents of one element reaches that element only. -/
theorem element_modify (key : ElementId) (change : ElementSnapshot → ElementSnapshot)
    (x : ElementId) : (s.modifyNode key (setElement change)).element x =
      (s.element x).map fun e => if key = x then change e else e := by
  unfold element modifyNode
  dsimp only
  rw [getElem?_modify]
  cases s.nodes[x]? with
  | none => split <;> rfl
  | some n =>
      by_cases heq : key = x
      · rw [if_pos heq]
        dsimp only [Option.map_some, setElement]
        rw [if_pos heq]
      · rw [if_neg heq]
        dsimp only [Option.map_some]
        rw [if_neg heq]

/-- A created element is there as it was given, and the others stay as they are. -/
theorem element_create {parent : ElementId} {index : UInt32} {e : ElementSnapshot}
    (h : s.applyCreate parent index e = (s', .ok u)) (x : ElementId) :
    s'.element x = if e.id = x then some e else s.element x := by
  obtain ⟨_, _, rfl, _⟩ := applyCreate_ok h
  unfold element
  dsimp only
  rw [getElem?_insert]
  by_cases heq : e.id = x
  · rw [if_pos heq, if_pos heq]
    rfl
  · rw [if_neg heq, if_neg heq, getElem?_modify]
    cases s.nodes[x]? with
    | none => split <;> rfl
    | some n => split <;> rfl

/-! ## Patches -/

theorem applyOps_attribute {done : List Undo} {ops : List PatchOp} {x : ElementId} {name : String}
    (hwf : WellFormed s) (h : s.applyOps done ops = (s', .ok ())) (hx : x ∈ s.usedIds)
    (hkeeps : ∀ op ∈ ops, ¬ op.Writes x name) :
    x ∈ s'.usedIds ∧ ∀ n', s'.nodes[x]? = some n' →
      ∃ n, s.nodes[x]? = some n ∧ n'.element.attributes[name]? = n.element.attributes[name]? := by
  induction ops generalizing s done with
  | nil =>
      cases h
      exact ⟨hx, fun n hn => ⟨n, hn, rfl⟩⟩
  | cons op ops ih =>
      obtain ⟨hop, hops⟩ := List.forall_mem_cons.mp hkeeps
      unfold applyOps at h
      split at h
      · next s₁ u happly =>
        obtain ⟨hused, hkept⟩ :=
          ih (hwf.applyOne happly) h (applyOne_usedIds hwf happly hx) hops
        refine ⟨hused, fun n' hn' => ?_⟩
        obtain ⟨n₁, hn₁, heq₁⟩ := hkept n' hn'
        obtain ⟨n, hn, heq⟩ := applyOne_attribute hwf happly hx hop hn₁
        exact ⟨n, hn, heq₁.trans heq⟩
      · cases h

theorem applyOps_child {done : List Undo} {ops : List PatchOp} {x parent : ElementId} {n : Node}
    (hwf : WellFormed s) (h : s.applyOps done ops = (s', .ok ())) (hparent : parent ∈ roots)
    (hkeeps : ∀ op ∈ ops, op.target ≠ some x) (hn : s.nodes[x]? = some n)
    (hup : n.parent = some parent) :
    ∃ n', s'.nodes[x]? = some n' ∧ n'.element = n.element ∧ n'.parent = some parent := by
  induction ops generalizing s done n with
  | nil =>
      cases h
      exact ⟨n, hn, rfl, hup⟩
  | cons op ops ih =>
      obtain ⟨hop, hops⟩ := List.forall_mem_cons.mp hkeeps
      unfold applyOps at h
      split at h
      · next s₁ u happly =>
        obtain ⟨n₁, hn₁, heq₁, hup₁⟩ := applyOne_child hwf happly (.inl hparent) hop hn hup
        obtain ⟨n', hn', heq', hup'⟩ := ih (hwf.applyOne happly) h hops hn₁ hup₁
        exact ⟨n', hn', heq'.trans heq₁, hup'⟩
      · cases h

variable [Json.SerdeJson]

/-- A patch keeps an attribute that it does not write, as long as its element is there. -/
theorem applyPatch_attribute {patch : Patch} {x : ElementId} {name : String} (hwf : WellFormed s)
    (h : s.applyPatch patch = (s', .ok ())) (hx : x ∈ s.usedIds)
    (hkeeps : ∀ op ∈ patch.ops, ¬ op.Writes x name) :
    x ∈ s'.usedIds ∧ ∀ n', s'.nodes[x]? = some n' →
      ∃ n, s.nodes[x]? = some n ∧ n'.element.attributes[name]? = n.element.attributes[name]? := by
  obtain ⟨_, _, s₁, hops, rfl⟩ := applyPatch_ok h
  have hkept := applyOps_attribute hwf hops hx hkeeps
  exact hkept

/-- A patch keeps a child of a container that it does not target. -/
theorem applyPatch_child {patch : Patch} {e : ElementSnapshot} {parent : ElementId}
    (hwf : WellFormed s) (h : s.applyPatch patch = (s', .ok ())) (hparent : parent ∈ roots)
    (hkeeps : ∀ op ∈ patch.ops, op.target ≠ some e.id) (he : e ∈ s.children parent) :
    e ∈ s'.children parent := by
  have hwf' : WellFormed s' := by
    rcases applyPatch_cases hwf h with ⟨_, hwf'⟩ | ⟨⟨_, herror⟩, _⟩
    · exact hwf'
    · cases herror
  obtain ⟨_, _, s₁, hops, rfl⟩ := applyPatch_ok h
  obtain ⟨n, hn, rfl, hup⟩ := (mem_children_iff hwf).mp he
  obtain ⟨n', hn', heq, hup'⟩ := applyOps_child hwf hops hparent hkeeps hn hup
  exact (mem_children_iff hwf').mpr ⟨n', hn', heq, hup'⟩

end Omp2.State.SessionSnapshot
