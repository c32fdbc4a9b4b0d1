import Omp2.State.Untouched

/-!
# Fresh identifiers

The snapshot remembers every identifier it has used. An accepted `Create` adds one, a `Delete`
forgets none, and a refused patch takes back what it had added. So along any calls of
`apply_patch` the identifiers of the accepted creations are pairwise different, and every other
identifier is still free.
-/

namespace Omp2

open List

/-- The identifier an operation uses up. -/
def PatchOp.createdId : PatchOp → Option ElementId
  | .create _ _ element => some element.id
  | _ => none

/-- The identifiers a patch uses up, in order. -/
def Patch.createdIds (patch : Patch) : List ElementId :=
  patch.ops.filterMap PatchOp.createdId

namespace State.SessionSnapshot

variable {s s' : SessionSnapshot} {created : List ElementId}

/-- The identifiers in use are the containers and the created ones, each of them once. -/
structure Fresh (s : SessionSnapshot) (created : List ElementId) : Prop where
  nodup : (roots ++ created).Nodup
  used : ∀ key, key ∈ s.usedIds ↔ key ∈ roots ++ created

theorem fresh_empty (sessionId : SessionId) : Fresh (empty sessionId) [] := by
  refine ⟨?_, fun key => ?_⟩
  · rw [append_nil]
    exact roots_nodup
  · rw [append_nil]
    exact (seeded_empty sessionId).used key

/-- An identifier outside of those in use is added at the end. -/
theorem Fresh.insert {key : ElementId} (h : Fresh s created) (hkey : key ∉ s.usedIds)
    (hused : ∀ other, other ∈ s'.usedIds ↔ other = key ∨ other ∈ s.usedIds) :
    Fresh s' (created ++ [key]) := by
  rw [h.used] at hkey
  constructor
  · rw [← append_assoc]
    exact nodup_append.mpr ⟨h.nodup, nodup_singleton key, fun other hother last hlast =>
      fun heq => hkey (mem_singleton.mp hlast ▸ heq ▸ hother)⟩
  · intro other
    rw [hused, h.used, ← append_assoc, mem_append (t := [key]), mem_singleton]
    exact or_comm

/-- An operation that creates nothing uses no identifier and frees none. -/
theorem applyOne_uncreated {op : PatchOp} {u : Undo} (hwf : WellFormed s)
    (hop : op.createdId = none) (h : s.applyOne op = (s', .ok u)) : s'.usedIds = s.usedIds := by
  cases applied_of_ok h with
  | create h => cases hop
  | delete h =>
      rcases applyDelete_cases hwf h with ⟨_, hr, _⟩ |
        ⟨_, _, _, _, _, _, _, _, _, _, _, _, rfl, _⟩
      · cases hr
      · rfl
  | move h =>
      obtain ⟨_, _, _, _, _, _, _, _, _, _, _, _, _, rfl, _⟩ := applyMove_ok h
      rfl
  | content _ hs' _ =>
      rw [hs']
      rfl

/-- An accepted operation adds the identifier it creates. -/
theorem Fresh.applyOne {op : PatchOp} {u : Undo} (h : Fresh s created) (hwf : WellFormed s)
    (hop : s.applyOne op = (s', .ok u)) : Fresh s' (created ++ op.createdId.toList) := by
  cases hcreated : op.createdId with
  | none =>
      rw [Option.toList_none, append_nil]
      exact ⟨h.nodup, fun key => by rw [applyOne_uncreated hwf hcreated hop, h.used]⟩
  | some key =>
      cases op with
      | create parent index element =>
        cases hcreated
        obtain ⟨hfresh, -, rfl, -⟩ := applyCreate_ok hop
        refine h.insert hfresh fun other => ?_
        rw [Std.ExtTreeSet.mem_insert, Std.compare_eq_iff_eq]
        exact or_congr_left eq_comm
      | _ => cases hcreated

/-- Operations that are all accepted add the identifiers they create. -/
theorem Fresh.applyOps {done : List Undo} {ops : List PatchOp} (h : Fresh s created)
    (hwf : WellFormed s) (hops : s.applyOps done ops = (s', .ok ())) :
    Fresh s' (created ++ ops.filterMap PatchOp.createdId) := by
  induction ops generalizing s done created with
  | nil =>
      cases hops
      rw [filterMap_nil, append_nil]
      exact h
  | cons op ops ih =>
      unfold SessionSnapshot.applyOps at hops
      split at hops
      · next s₁ u hop =>
        have hrest := ih (h.applyOne hwf hop) (hwf.applyOne hop) hops
        rw [append_assoc] at hrest
        rw [filterMap_cons]
        cases hcreated : op.createdId with
        | none =>
          rw [hcreated] at hrest
          exact hrest
        | some key =>
          rw [hcreated] at hrest
          exact hrest
      · cases hops

/-- A `Create` is accepted exactly under a free identifier, at a place its parent has. -/
theorem applyCreate_accepts (parent : ElementId) (index : UInt32) (element : ElementSnapshot) :
    (∃ s' u, s.applyOne (.create parent index element) = (s', .ok u)) ↔
      element.id ∉ s.usedIds ∧
        ∃ node, s.nodes[parent]? = some node ∧ index.toNat ≤ node.children.length := by
  constructor
  · rintro ⟨s', u, h⟩
    obtain ⟨hfresh, hplace, -⟩ := applyCreate_ok h
    exact ⟨hfresh, hplace⟩
  · rintro ⟨hfresh, node, hnode, hindex⟩
    have hunused : ¬s.usedIds.contains element.id = true := by simpa using hfresh
    have hrequire : s.require parent = .ok node := by
      unfold require
      rw [hnode]
    dsimp only [SessionSnapshot.applyOne]
    unfold applyCreate
    rw [if_neg hunused, hrequire]
    dsimp only
    rw [if_neg (Nat.not_lt.mpr hindex)]
    exact ⟨_, _, rfl⟩

variable [Json.SerdeJson]

/-- The patches that are accepted, in order, when they are applied one after the other. -/
def accepted (s : SessionSnapshot) : List Patch → List Patch
  | [] => []
  | patch :: rest =>
    match s.applyPatch patch with
    | (s', .ok ()) => patch :: accepted s' rest
    | (s', .error _) => accepted s' rest

theorem Fresh.applyPatch {patch : Patch} (h : Fresh s created) (hwf : WellFormed s)
    (hpatch : s.applyPatch patch = (s', .ok ())) : Fresh s' (created ++ patch.createdIds) := by
  obtain ⟨-, -, s₁, hops, rfl⟩ := applyPatch_ok hpatch
  obtain ⟨hnodup, hused⟩ := h.applyOps hwf hops
  exact ⟨hnodup, hused⟩

/-- Any calls add the identifiers that the accepted patches create. -/
theorem Fresh.run (h : Fresh s created) (hwf : WellFormed s) (patches : List Patch) :
    Fresh (Machine.run patchStep s patches)
      (created ++ (accepted s patches).flatMap Patch.createdIds) := by
  induction patches generalizing s created with
  | nil =>
      rw [accepted, flatMap_nil, append_nil]
      exact h
  | cons patch rest ih =>
      rw [Machine.run_cons, accepted]
      cases hpatch : s.applyPatch patch with
      | mk s' result =>
        have hstep : s.patchStep patch = s' := congrArg Prod.fst hpatch
        rw [hstep]
        rcases applyPatch_cases hwf hpatch with ⟨rfl, hwf'⟩ | ⟨⟨e, rfl⟩, rfl⟩
        · dsimp only
          rw [flatMap_cons, ← append_assoc]
          exact ih (h.applyPatch hwf hpatch) hwf'
        · exact ih h hwf

/-- Along any calls of `apply_patch` on a fresh session the accepted creations use pairwise
different identifiers, none of them a container's. The next patch is accepted or changes nothing,
and a creation is possible exactly under an identifier that no accepted patch has used. -/
theorem createdIds_once (sessionId : SessionId) (patches : List Patch) :
    let s := afterPatches sessionId patches
    let used := roots ++ (accepted (empty sessionId) patches).flatMap Patch.createdIds
    used.Nodup ∧
      (∀ patch, (s.applyPatch patch).2 = .ok () ∨ (s.applyPatch patch).1 = s) ∧
      ∀ parent index element,
        (∃ s' u, s.applyOne (.create parent index element) = (s', .ok u)) ↔
          element.id ∉ used ∧
            ∃ node, s.nodes[parent]? = some node ∧ index.toNat ≤ node.children.length := by
  intro s used
  have hfresh := (fresh_empty sessionId).run (empty_wellFormed sessionId) patches
  rw [nil_append] at hfresh
  refine ⟨hfresh.nodup, fun patch => ?_, fun parent index element => ?_⟩
  · exact (applyPatch_atomic sessionId patches patch).imp id And.right
  · rw [applyCreate_accepts]
    exact and_congr_left fun _ => not_congr (hfresh.used element.id)

end State.SessionSnapshot

end Omp2
