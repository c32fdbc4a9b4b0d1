import Omp2.State.Subtrees

/-!
# The children of a container under a list of operations

Operations that neither move nor add a child of a container rewrite the children that they do not
delete, and deleting or changing a child that is there always succeeds.
-/

namespace Omp2

/-- The operation neither moves an element nor goes into a node. -/
def PatchOp.Settled (up : ElementId) : PatchOp → Prop
  | .move .. => False
  | op => op.into ≠ some up

/-- The operation replaces the payload of an element, or it deletes one that is no container. -/
def PatchOp.Updates (x : ElementId) : PatchOp → Prop
  | .replacePayload key _ => key = x
  | .delete key => key = x ∧ key ∉ State.roots
  | _ => False

end Omp2

namespace Omp2.State.SessionSnapshot

open OrderedTree

variable {s s' : SessionSnapshot} {u : Undo} {op : PatchOp} {e : ElementSnapshot}
  {up : ElementId}

theorem delete_gone {x : ElementId} (hwf : WellFormed s)
    (h : s.applyOne (.delete x) = (s', .ok u)) : s'.nodes[x]? = none := by
  rcases applyDelete_cases hwf h with ⟨_, hr, _⟩ | ⟨_, _, _, _, _, _, _, _, _, _, _, hgone, rfl, _⟩
  · cases hr
  · dsimp only
    rw [hgone.get, if_pos (hgone.popped x List.mem_cons_self)]

/-- The children of a container after an operation that neither moves nor adds a child. -/
theorem applyOne_container (hwf : WellFormed s) (h : s.applyOne op = (s', .ok u))
    (hup : up ∈ roots) (hsettled : op.Settled up) :
    e ∈ s'.children up ↔ ∃ e₀ ∈ s.children up, ¬ op.Displaces e₀.id ∧ op.rewrite e₀ = e := by
  have hwf' := hwf.applyOne h
  have hinto : op.into ≠ some up := by
    cases op <;> first | exact hsettled | exact hsettled.elim
  constructor
  · intro he
    obtain ⟨e₀, he₀, hid, _⟩ := applyOne_mem_children hwf h hinto he
    have hplace : ¬ op.Displaces e₀.id := by
      intro hdisplaces
      cases op with
      | delete x =>
        obtain rfl : x = e₀.id := hdisplaces
        obtain ⟨n, hn, _⟩ := (mem_children_iff hwf').mp he
        rw [← hid, delete_gone hwf h] at hn
        cases hn
      | move => exact hsettled
      | create => exact hdisplaces
      | setAttribute => exact hdisplaces
      | removeAttribute => exact hdisplaces
      | replaceText => exact hdisplaces
      | appendText => exact hdisplaces
      | replacePayload => exact hdisplaces
    have hrewrite := applyOne_rewrite hwf h hup hplace he₀
    have hsame : (op.rewrite e₀).id = e.id := (PatchOp.rewrite_id op e₀).trans hid
    exact ⟨e₀, he₀, hplace, (eq_of_mem_children hwf' hrewrite he hsame).1⟩
  · rintro ⟨e₀, he₀, hplace, rfl⟩
    exact applyOne_rewrite hwf h hup hplace he₀

/-- The children of a container after a list of such operations. -/
theorem applyOps_container {done : List Undo} {ops : List PatchOp} (hwf : WellFormed s)
    (h : s.applyOps done ops = (s', .ok ())) (hup : up ∈ roots)
    (hsettled : ∀ op ∈ ops, op.Settled up) :
    e ∈ s'.children up ↔ ∃ e₀ ∈ s.children up, (∀ op ∈ ops, ¬ op.Displaces e₀.id) ∧
      ops.foldl PatchOp.rewrite e₀ = e := by
  induction ops generalizing s done with
  | nil =>
      cases h
      exact ⟨fun he => ⟨e, he, fun _ hop => absurd hop List.not_mem_nil, rfl⟩,
        fun ⟨_, he₀, _, heq⟩ => heq ▸ he₀⟩
  | cons op ops ih =>
      obtain ⟨hop, hops⟩ := List.forall_mem_cons.mp hsettled
      unfold applyOps at h
      split at h
      · next s₁ u happly =>
        rw [ih (hwf.applyOne happly) h hops]
        constructor
        · rintro ⟨e₁, he₁, hplaces, rfl⟩
          obtain ⟨e₀, he₀, hplace, rfl⟩ := (applyOne_container hwf happly hup hop).mp he₁
          rw [PatchOp.rewrite_id] at hplaces
          exact ⟨e₀, he₀, List.forall_mem_cons.mpr ⟨hplace, hplaces⟩, rfl⟩
        · rintro ⟨e₀, he₀, hplaces, rfl⟩
          obtain ⟨hplace, hplaces⟩ := List.forall_mem_cons.mp hplaces
          refine ⟨op.rewrite e₀, (applyOne_container hwf happly hup hop).mpr
            ⟨e₀, he₀, hplace, rfl⟩, ?_, rfl⟩
          rw [PatchOp.rewrite_id]
          exact hplaces
      · cases h

/-! ## The order of the children -/

/-- The children of a node are those that it lists, in its order. -/
theorem children_ids (hwf : WellFormed s) {n : Node} (hn : s.nodes[up]? = some n) :
    (s.children up).map ElementSnapshot.id = n.children := by
  have hlisted : ∀ keys : List ElementId, (∀ key ∈ keys, key ∈ n.children) →
      (keys.filterMap s.element).map ElementSnapshot.id = keys := by
    intro keys
    induction keys with
    | nil => exact fun _ => rfl
    | cons key keys ih =>
      intro hkeys
      obtain ⟨hkey, hkeys⟩ := List.forall_mem_cons.mp hkeys
      obtain ⟨child, hchild⟩ := element_of_child hwf hn hkey
      obtain ⟨node, hnode, rfl⟩ := Option.map_eq_some_iff.mp hchild
      rw [List.filterMap_cons, hchild, List.map_cons, ih hkeys, hwf.named hnode]
  unfold children
  rw [hn]
  exact hlisted n.children fun _ hkey => hkey

/-- The children that such an operation leaves stand in the order in which they stood. -/
theorem applyOne_sublist (hwf : WellFormed s) (h : s.applyOne op = (s', .ok u)) (hup : up ∈ roots)
    (hsettled : op.Settled up) : ((s'.children up).map ElementSnapshot.id).Sublist
      ((s.children up).map ElementSnapshot.id) := by
  have hwf' := hwf.applyOne h
  obtain ⟨n', hn', -⟩ := hwf'.containers up hup
  have hnode : ∃ n, s.nodes[up]? = some n ∧ n'.children.Sublist n.children := by
    cases applied_of_ok h with
    | @create parent index element h =>
      have hinto : parent ≠ up := fun heq => hsettled (congrArg some heq)
      obtain ⟨hfresh, -, rfl, -⟩ := applyCreate_ok h
      dsimp only at hn'
      rw [getElem?_insert] at hn'
      split at hn'
      · next heq =>
        obtain ⟨n, hn, -⟩ := hwf.containers up hup
        exact absurd (hwf.used hn) (heq ▸ hfresh)
      · obtain ⟨n, hn, rfl⟩ := getElem?_modify_eq_some.mp hn'
        rw [if_neg hinto]
        exact ⟨n, hn, .refl _⟩
    | delete h =>
      rcases applyDelete_cases hwf h with ⟨_, hr, _⟩ |
        ⟨_, _, _, _, _, _, _, _, _, _, _, hgone, rfl, _⟩
      · cases hr
      · dsimp only at hn'
        rw [hgone.get] at hn'
        split at hn'
        · cases hn'
        · obtain ⟨n, hn, rfl⟩ := getElem?_modify_eq_some.mp hn'
          refine ⟨n, hn, ?_⟩
          split
          · exact List.eraseIdx_sublist n.children _
          · exact .refl _
    | move => exact hsettled.elim
    | content hkey hs' _ =>
      rw [hs'] at hn'
      obtain ⟨n, hn, rfl⟩ := getElem?_modify_eq_some.mp hn'
      refine ⟨n, hn, ?_⟩
      split <;> exact .refl _
  obtain ⟨n, hn, hsublist⟩ := hnode
  rw [children_ids hwf hn, children_ids hwf' hn']
  exact hsublist

theorem applyOps_sublist {done : List Undo} {ops : List PatchOp} (hwf : WellFormed s)
    (h : s.applyOps done ops = (s', .ok ())) (hup : up ∈ roots)
    (hsettled : ∀ op ∈ ops, op.Settled up) : ((s'.children up).map ElementSnapshot.id).Sublist
      ((s.children up).map ElementSnapshot.id) := by
  induction ops generalizing s done with
  | nil =>
      cases h
      exact .refl _
  | cons op ops ih =>
      obtain ⟨hop, hops⟩ := List.forall_mem_cons.mp hsettled
      unfold applyOps at h
      split at h
      · next s₁ u happly =>
        exact (ih (hwf.applyOne happly) h hops).trans (applyOne_sublist hwf happly hup hop)
      · cases h

/-! ## Operations that succeed -/

/-- A child that is no container can be deleted. -/
theorem exists_delete (hwf : WellFormed s) (he : e ∈ s.children up) (hroot : e.id ∉ roots) :
    ∃ s' u, s.applyOne (.delete e.id) = (s', .ok u) := by
  obtain ⟨n, hn, _, hparent⟩ := (mem_children_iff hwf).mp he
  have htop : e.id ≠ rootId := fun heq =>
    hwf.tree.not_up_top up ⟨_, heq ▸ linksOf_of_get hn, hparent⟩
  obtain ⟨parent, link, hlisted, hlink, hmem⟩ := hwf.tree.listed (linksOf_of_get hn) htop
  obtain rfl : up = parent := Option.some.inj (hparent.symm.trans hlisted)
  obtain ⟨parentNode, hparentNode, rfl⟩ := linksOf_eq_some.mp hlink
  obtain ⟨index, hindex⟩ : ∃ index, parentNode.children.idxOf? e.id = some index := by
    cases hfound : parentNode.children.idxOf? e.id with
    | none => exact absurd hmem (List.idxOf?_eq_none_iff.mp hfound)
    | some index => exact ⟨index, rfl⟩
  have hlocation : s.mutableLocation e.id = .ok (up, index) := by
    unfold mutableLocation
    rw [if_neg hroot, hn]
    dsimp only
    rw [hparent]
    dsimp only
    rw [hparentNode]
    dsimp only
    rw [hindex]
  cases hdelete : s.applyDelete e.id with
  | mk s' result =>
      rcases applyDelete_cases hwf hdelete with ⟨e', rfl, _⟩ |
        ⟨_, _, _, _, _, _, _, _, _, _, _, _, _, rfl⟩
      · unfold applyDelete at hdelete
        rw [hlocation] at hdelete
        dsimp only at hdelete
        split at hdelete
        · next nodes error hloop =>
          obtain ⟨removed, htotal⟩ := removeSubtree_unlink hwf.tree hn hparent hparentNode
            (getElem?_of_idxOf? hindex)
          unfold unlink at htotal
          dsimp only [modifyNode] at hloop
          rw [hloop] at htotal
          cases htotal
        · cases hdelete
      · exact ⟨s', _, hdelete⟩

theorem exists_setAttribute (hwf : WellFormed s) (he : e ∈ s.children up) (name : String)
    (value : TypedValue) : ∃ s' u, s.applyOne (.setAttribute e.id name value) = (s', .ok u) := by
  obtain ⟨n, hn, _⟩ := (mem_children_iff hwf).mp he
  unfold applyOne applyContent require
  dsimp only
  rw [hn]
  exact ⟨_, _, rfl⟩

theorem exists_replacePayload (hwf : WellFormed s) (he : e ∈ s.children up) (value : Json.Value) :
    ∃ s' u, s.applyOne (.replacePayload e.id value) = (s', .ok u) := by
  obtain ⟨n, hn, _⟩ := (mem_children_iff hwf).mp he
  unfold applyOne applyContent require
  dsimp only
  rw [hn]
  exact ⟨_, _, rfl⟩

/-- Updates of children succeed one after the other if none follows the deletion of its child. -/
theorem exists_updates {done : List Undo} {ops : List PatchOp} (hwf : WellFormed s)
    (hup : up ∈ roots) (h : ∀ op ∈ ops, ∃ e ∈ s.children up, op.Updates e.id)
    (hapart : ops.Pairwise fun op later => ∀ x, op = .delete x → ¬later.Updates x) :
    ∃ s', s.applyOps done ops = (s', .ok ()) := by
  induction ops generalizing s done with
  | nil => exact ⟨s, rfl⟩
  | cons op ops ih =>
      obtain ⟨hfirst, hrest⟩ := List.forall_mem_cons.mp h
      obtain ⟨hlater, hapart⟩ := List.pairwise_cons.mp hapart
      obtain ⟨e, he, hupdates⟩ := hfirst
      have hgoes : op.Settled up ∧ ∃ s₁ u, s.applyOne op = (s₁, .ok u) := by
        cases op with
        | replacePayload key value =>
          obtain rfl : key = e.id := hupdates
          exact ⟨nofun, exists_replacePayload hwf he value⟩
        | delete key =>
          obtain ⟨rfl, hroot⟩ : key = e.id ∧ key ∉ roots := hupdates
          exact ⟨nofun, exists_delete hwf he hroot⟩
        | _ => exact hupdates.elim
      obtain ⟨hsettled, s₁, u, happly⟩ := hgoes
      have hremain : ∀ later ∈ ops, ∃ e ∈ s₁.children up, later.Updates e.id := by
        intro later hmem
        obtain ⟨e', he', hupdates'⟩ := hrest later hmem
        refine ⟨op.rewrite e', (applyOne_container hwf happly hup hsettled).mpr
          ⟨e', he', fun hdisplaces => ?_, rfl⟩, by rw [PatchOp.rewrite_id]; exact hupdates'⟩
        cases op with
        | delete key =>
          have hkey : key = e'.id := hdisplaces
          exact hlater later hmem key rfl (hkey ▸ hupdates')
        | move => exact hsettled
        | _ => exact hdisplaces
      obtain ⟨s', hs'⟩ := ih (hwf.applyOne happly) hremain hapart
      exact ⟨s', by unfold applyOps; rw [happly]; exact hs'⟩

/-- An element with a fresh identifier can be added at the end of a container. -/
theorem exists_create (hwf : WellFormed s) (hup : up ∈ roots) (hfresh : e.id ∉ s.usedIds) :
    ∃ s' u, s.applyOne (.create up (UInt32.ofNat (s.children up).length) e) = (s', .ok u) := by
  obtain ⟨n, hn, _⟩ := hwf.containers up hup
  have hlength : (s.children up).length ≤ n.children.length := by
    unfold children
    rw [hn]
    exact List.length_filterMap_le _ _
  have hindex : ¬ n.children.length < (UInt32.ofNat (s.children up).length).toNat := by
    have hmod := Nat.mod_le (s.children up).length (2 ^ 32)
    rw [UInt32.toNat_ofNat']
    omega
  unfold applyOne applyCreate require
  dsimp only
  rw [if_neg (by simpa using hfresh), hn]
  dsimp only
  rw [if_neg hindex]
  exact ⟨_, _, rfl⟩

/-- Writing attributes of children and deleting them succeeds, each up to its deletion. -/
theorem exists_applyOps {done : List Undo} {ops : List PatchOp} (hwf : WellFormed s)
    (hup : up ∈ roots)
    (hops : ∀ op ∈ ops, ∃ e ∈ s.children up,
      op = .delete e.id ∧ e.id ∉ roots ∨ ∃ name value, op = .setAttribute e.id name value)
    (hlast : ops.Pairwise fun a b => ∀ x, a = .delete x → b.target ≠ some x) :
    ∃ s', s.applyOps done ops = (s', .ok ()) := by
  induction ops generalizing s done with
  | nil => exact ⟨s, rfl⟩
  | cons op ops ih =>
      obtain ⟨hop, hrest⟩ := List.forall_mem_cons.mp hops
      obtain ⟨hfirst, hlast⟩ := List.pairwise_cons.mp hlast
      obtain ⟨s₁, u, happly⟩ : ∃ s₁ u, s.applyOne op = (s₁, .ok u) := by
        obtain ⟨e, he, ⟨rfl, hroot⟩ | ⟨name, value, rfl⟩⟩ := hop
        · exact exists_delete hwf he hroot
        · exact exists_setAttribute hwf he name value
      have hsettled : op.Settled up := by
        obtain ⟨e, _, ⟨rfl, _⟩ | ⟨_, _, rfl⟩⟩ := hop <;> exact nofun
      have hkept : ∀ other ∈ ops, ∃ e ∈ s₁.children up, other = .delete e.id ∧ e.id ∉ roots ∨
          ∃ name value, other = .setAttribute e.id name value := by
        intro other hother
        obtain ⟨e, he, hform⟩ := hrest other hother
        -- the first operation has not deleted the target of a later one
        have hplace : ¬ op.Displaces e.id := by
          have hdelete := hfirst other hother e.id
          have htarget : other.target = some e.id := by
            rcases hform with ⟨rfl, _⟩ | ⟨_, _, rfl⟩ <;> rfl
          cases op with
          | delete x =>
            rintro rfl
            exact hdelete rfl htarget
          | move => exact hsettled.elim
          | create => exact id
          | setAttribute => exact id
          | removeAttribute => exact id
          | replaceText => exact id
          | appendText => exact id
          | replacePayload => exact id
        refine ⟨op.rewrite e, (applyOne_container hwf happly hup hsettled).mpr ⟨e, he, hplace, rfl⟩,
          ?_⟩
        rw [PatchOp.rewrite_id]
        exact hform
      obtain ⟨s', hs'⟩ : ∃ s', s₁.applyOps (u :: done) ops = (s', .ok ()) :=
        ih (hwf.applyOne happly) hkept hlast
      refine ⟨s', ?_⟩
      unfold applyOps
      rw [happly]
      exact hs'

end Omp2.State.SessionSnapshot
