import Omp2.State.Containers
import Omp2.State.Freshness

/-!
# Operations about an element that are accepted

Writing to an element of the body, deleting what it holds and creating elements under it is accepted
wherever the created elements have fresh identifiers and stand at places that the element has.
-/

namespace Omp2

/-- The operation writes to the contents of an element. -/
def PatchOp.WritesTo (x : ElementId) (op : PatchOp) : Prop :=
  op.target = some x ∧ ¬ op.Displaces x

end Omp2

namespace Omp2.State.SessionSnapshot

variable {s s' : SessionSnapshot} {e : ElementSnapshot} {up x : ElementId}

/-! ## The same elements -/

/-- The same elements stand in the same places, whatever they say. -/
structure SamePlaces (s s' : SessionSnapshot) : Prop where
  used : s'.usedIds = s.usedIds
  children : ∀ up, (s'.children up).map ElementSnapshot.id = (s.children up).map ElementSnapshot.id

theorem SamePlaces.refl (s : SessionSnapshot) : SamePlaces s s :=
  ⟨rfl, fun _ => rfl⟩

theorem SamePlaces.trans {s₁ : SessionSnapshot} (h : SamePlaces s s₁) (h' : SamePlaces s₁ s') :
    SamePlaces s s' :=
  ⟨h'.used.trans h.used, fun up => (h'.children up).trans (h.children up)⟩

theorem SamePlaces.child (h : SamePlaces s s') (he : e ∈ s.children up) :
    ∃ e' ∈ s'.children up, e'.id = e.id := by
  have hmem : e.id ∈ (s'.children up).map ElementSnapshot.id := by
    rw [h.children]
    exact List.mem_map_of_mem he
  obtain ⟨e', he', hid⟩ := List.mem_map.mp hmem
  exact ⟨e', he', hid⟩

theorem SamePlaces.length (h : SamePlaces s s') (up : ElementId) :
    (s'.children up).length = (s.children up).length := by
  have hlength := congrArg List.length (h.children up)
  rw [List.length_map, List.length_map] at hlength
  exact hlength

/-- Changing what an element says leaves all elements in their places. -/
theorem samePlaces_modify (s : SessionSnapshot) (key : ElementId)
    {change : ElementSnapshot → ElementSnapshot} (hchange : ∀ e, (change e).id = e.id) :
    SamePlaces s (s.modifyNode key (setElement change)) := by
  refine ⟨rfl, fun up => ?_⟩
  have hid : ∀ k, ((s.modifyNode key (setElement change)).element k).map ElementSnapshot.id =
      (s.element k).map ElementSnapshot.id := by
    intro k
    unfold SessionSnapshot.element modifyNode
    rw [getElem?_modify]
    cases hn : s.nodes[k]? with
    | none => split <;> rfl
    | some n =>
      split
      · exact congrArg some (hchange n.element)
      · rfl
  have hlist : ∀ keys : List ElementId,
      (keys.filterMap (s.modifyNode key (setElement change)).element).map ElementSnapshot.id =
        (keys.filterMap s.element).map ElementSnapshot.id := by
    intro keys
    rw [List.map_filterMap, List.map_filterMap]
    exact List.filterMap_congr fun k _ => hid k
  have hnode : (s.modifyNode key (setElement change)).nodes[up]? =
      if key = up then (s.nodes[up]?).map (setElement change) else s.nodes[up]? :=
    getElem?_modify ..
  unfold SessionSnapshot.children
  rw [hnode]
  by_cases hkey : key = up
  · rw [if_pos hkey]
    cases hn : s.nodes[up]? with
    | none => rfl
    | some n => exact hlist n.children
  · rw [if_neg hkey]
    cases hn : s.nodes[up]? with
    | none => rfl
    | some n => exact hlist n.children

/-! ## Writing to an element -/

/-- Writing to a child is accepted. -/
theorem exists_writeTo (hwf : WellFormed s) {op : PatchOp} (he : e ∈ s.children up)
    (hop : op.WritesTo e.id) : ∃ s' u, s.applyOne op = (s', .ok u) ∧ SamePlaces s s' := by
  obtain ⟨n, hn, _⟩ := (mem_children_iff hwf).mp he
  obtain ⟨htarget, hplace⟩ := hop
  have hcontent : ∀ {key : ElementId} (change : ElementSnapshot → ElementSnapshot)
      (old : ElementSnapshot → Undo), some key = some e.id → (∀ e, (change e).id = e.id) →
      ∃ s' u, s.applyContent key change old = (s', .ok u) ∧ SamePlaces s s' := by
    intro key change old hkey hchange
    cases hkey
    refine ⟨_, old n.element, ?_, samePlaces_modify s e.id hchange⟩
    unfold applyContent require
    rw [hn]
  cases op with
  | create => cases htarget
  | delete => exact absurd (Option.some.inj htarget) hplace
  | move => exact absurd (Option.some.inj htarget) hplace
  | setAttribute =>
      dsimp only [SessionSnapshot.applyOne]
      exact hcontent _ _ htarget fun _ => rfl
  | removeAttribute =>
      dsimp only [SessionSnapshot.applyOne]
      exact hcontent _ _ htarget fun _ => rfl
  | replaceText =>
      dsimp only [SessionSnapshot.applyOne]
      exact hcontent _ _ htarget fun _ => rfl
  | appendText =>
      dsimp only [SessionSnapshot.applyOne]
      exact hcontent _ _ htarget fun _ => rfl
  | replacePayload =>
      dsimp only [SessionSnapshot.applyOne]
      exact hcontent _ _ htarget fun _ => rfl

/-- Writing to a child several times is accepted, whatever comes then. -/
theorem exists_writes (done : List Undo) {ops : List PatchOp} (hwf : WellFormed s)
    (he : e ∈ s.children up) (hops : ∀ op ∈ ops, op.WritesTo e.id) (more : List PatchOp) :
    ∃ s₁ done₁, s.applyOps done (ops ++ more) = s₁.applyOps done₁ more ∧ WellFormed s₁ ∧
      SamePlaces s s₁ := by
  induction ops generalizing s done e with
  | nil => exact ⟨s, done, rfl, hwf, .refl s⟩
  | cons op ops ih =>
      obtain ⟨hop, hrest⟩ := List.forall_mem_cons.mp hops
      obtain ⟨s₁, u, happly, hplaces⟩ := exists_writeTo hwf he hop
      obtain ⟨e₁, he₁, hid⟩ := hplaces.child he
      rw [← hid] at hrest
      obtain ⟨s₂, done₂, happly₂, hwf₂, hplaces₂⟩ := ih (u :: done) (hwf.applyOne happly) he₁ hrest
      refine ⟨s₂, done₂, ?_, hwf₂, hplaces.trans hplaces₂⟩
      rw [List.cons_append, SessionSnapshot.applyOps, happly]
      exact happly₂

/-! ## Creating elements -/

/-- A fresh element can be created at a place that its parent has. -/
theorem exists_createAt (hwf : WellFormed s) (hup : ∃ n, s.nodes[up]? = some n) {index : UInt32}
    (hfresh : e.id ∉ s.usedIds) (hindex : index.toNat ≤ (s.children up).length) :
    ∃ s' u, s.applyOne (.create up index e) = (s', .ok u) ∧ Created s s' up e ∧
      ∀ key ∈ s'.usedIds, key = e.id ∨ key ∈ s.usedIds := by
  obtain ⟨n, hn⟩ := hup
  have hlength : (s.children up).length ≤ n.children.length := by
    unfold SessionSnapshot.children
    rw [hn]
    exact List.length_filterMap_le _ _
  obtain ⟨s', u, happly⟩ :=
    (applyCreate_accepts up index e).mpr ⟨hfresh, n, hn, hindex.trans hlength⟩
  refine ⟨s', u, happly, applyCreate_created hwf happly, fun key hkey => ?_⟩
  obtain ⟨_, _, rfl, _⟩ := applyCreate_ok happly
  exact (Std.ExtTreeSet.mem_insert.mp hkey).imp_left fun heq =>
    (Std.LawfulEqCmp.eq_of_compare heq).symm

/-- Fresh elements can be created one after the other behind what an element holds. -/
theorem exists_creates (done : List Undo) {elements : List ElementSnapshot} {start : Nat}
    (hwf : WellFormed s) (hup : ∃ n, s.nodes[up]? = some n)
    (hstart : start + 1 ≤ (s.children up).length)
    (hfresh : ∀ e ∈ elements, e.id ∉ s.usedIds)
    (hapart : (elements.map ElementSnapshot.id).Nodup) :
    ∃ s', s.applyOps done ((elements.zipIdx start).map fun child =>
        .create up (UInt32.ofNat (child.2 + 1)) child.1) = (s', .ok ()) ∧
      ∀ c, c ∈ s'.children up ↔ c ∈ s.children up ∨ c ∈ elements := by
  induction elements generalizing s done start with
  | nil => exact ⟨s, rfl, fun c => by simp⟩
  | cons e elements ih =>
      obtain ⟨hfirst, hrest⟩ := List.forall_mem_cons.mp hfresh
      obtain ⟨hnew, hapart⟩ := List.nodup_cons.mp hapart
      have hindex : (UInt32.ofNat (start + 1)).toNat ≤ (s.children up).length := by
        rw [UInt32.toNat_ofNat']
        exact (Nat.mod_le _ _).trans hstart
      obtain ⟨s₁, u, happly, hcreated, hused⟩ := exists_createAt hwf hup hfirst hindex
      obtain ⟨n, hn⟩ := hup
      have hup₁ : ∃ n, s₁.nodes[up]? = some n := by
        obtain ⟨c, hc⟩ : ∃ c, c ∈ s₁.children up :=
          ⟨e, hcreated.children.mem_iff.mpr List.mem_cons_self⟩
        unfold SessionSnapshot.children at hc
        split at hc
        · next n hn => exact ⟨n, hn⟩
        · cases hc
      have hfresh₁ : ∀ e' ∈ elements, e'.id ∉ s₁.usedIds := by
        intro e' he' hmem
        rcases hused e'.id hmem with hid | hold
        · exact hnew (hid ▸ List.mem_map_of_mem he')
        · exact hrest e' he' hold
      have hstart₁ : start + 1 + 1 ≤ (s₁.children up).length := by
        rw [hcreated.children.length_eq, List.length_cons]
        omega
      obtain ⟨s', hs', hchildren⟩ := ih (u :: done) (hwf.applyOne happly) hup₁ hstart₁ hfresh₁ hapart
      refine ⟨s', ?_, fun c => ?_⟩
      · rw [List.zipIdx_cons, List.map_cons, SessionSnapshot.applyOps, happly]
        exact hs'
      · rw [hchildren, hcreated.children.mem_iff, List.mem_cons, List.mem_cons]
        tauto

/-! ## Deleting elements -/

/-- What an element of the body holds is no container. -/
theorem not_root_of_held {c : ElementSnapshot} (hwf : WellFormed s) (he : e ∈ s.getVisibleBody)
    (hc : c ∈ s.children e.id) : c.id ∉ roots := by
  have hno : ∀ key ∈ roots, containerParent key ≠ some (staticId "body") := by decide
  obtain ⟨n, hn, rfl, hup⟩ := (mem_children_iff hwf).mp he
  obtain ⟨m, hm, rfl, hmup⟩ := (mem_children_iff hwf).mp hc
  intro hroot
  obtain ⟨held, hheld, hparent⟩ := hwf.containers _ hroot
  rw [hm] at hheld
  cases hheld
  -- the parent of a container is a container, and none of these stands in the body
  have hcontainer := mem_roots_of_parent _ hroot n.element.id (hparent.symm.trans hmup)
  obtain ⟨upper, hupper, hupperParent⟩ := hwf.containers _ hcontainer
  rw [hn] at hupper
  cases hupper
  exact hno _ hcontainer (hupperParent.symm.trans hup)

/-- What an element of the body holds can be deleted, one after the other. -/
theorem exists_deletes {done : List Undo} {keys : List ElementId} (hwf : WellFormed s)
    (he : e ∈ s.getVisibleBody) (hheld : ∀ key ∈ keys, ∃ c ∈ s.children e.id, c.id = key)
    (hapart : keys.Nodup) : ∃ s', s.applyOps done (keys.map .delete) = (s', .ok ()) := by
  induction keys generalizing s done with
  | nil => exact ⟨s, rfl⟩
  | cons key keys ih =>
      obtain ⟨⟨c, hc, rfl⟩, hrest⟩ := List.forall_mem_cons.mp hheld
      obtain ⟨hnew, hapart⟩ := List.nodup_cons.mp hapart
      obtain ⟨s₁, u, happly⟩ := exists_delete hwf hc (not_root_of_held hwf he hc)
      have hbody : staticId "body" ∈ roots := by decide
      have hother : (PatchOp.delete c.id).target ≠ some e.id := by
        intro heq
        exact body_ne hwf he (eq_of_mem_children hwf hc he (Option.some.inj heq)).2
      have hkept : ∀ key ∈ keys, ∃ c ∈ s₁.children e.id, c.id = key := by
        intro key hkey
        obtain ⟨c', hc', rfl⟩ := hrest key hkey
        refine ⟨c', applyOne_children_kept hwf happly (.inr ⟨hother, _, hbody, e, he, rfl⟩) ?_ hc',
          rfl⟩
        intro heq
        exact hnew (Option.some.inj heq ▸ hkey)
      obtain ⟨s', hs'⟩ := ih (hwf.applyOne happly)
        (applyOne_children_kept hwf happly (.inl hbody) hother he) hkept hapart
      refine ⟨s', ?_⟩
      rw [List.map_cons, SessionSnapshot.applyOps, happly]
      exact hs'

end Omp2.State.SessionSnapshot
