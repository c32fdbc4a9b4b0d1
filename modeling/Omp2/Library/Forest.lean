import Mathlib.Algebra.Ring.Int.Defs
import Mathlib.Algebra.Ring.Nat
import Mathlib.Data.List.Basic
import Mathlib.Logic.Relation

/-!
# Walks and forests

`walk` visits the nodes of a graph breadth first, each one once. With fuel for every edge of the
graph it visits exactly the nodes that the start leads to. A forest is a list of nodes that grows by
a new root over some of its present roots, and every node of a forest has exactly one root above it.
-/

namespace Omp2.Forest

open List

variable {α : Type*}

/-! ## Walks -/

section Walk

variable [DecidableEq α] (next : α → List α)

/-- The nodes that a breadth-first walk visits from a queue, in order. -/
def walk : Nat → List α → List α → List α
  | 0, _, _ => []
  | _ + 1, _, [] => []
  | fuel + 1, visited, x :: queue =>
    if x ∈ visited then walk fuel visited queue
    else x :: walk fuel (x :: visited) (queue ++ next x)

/-- One node leads to another one along edges. -/
def Leads : α → α → Prop :=
  Relation.ReflTransGen fun x y => y ∈ next x

/-- The edges that leave nodes that have not been visited. -/
def unvisited (support visited : List α) : Nat :=
  ((support.filter (· ∉ visited)).map fun x => (next x).length).sum

variable {next} {fuel : Nat} {visited queue support : List α}

/-- A walk visits what its queue leads to. -/
theorem leads_of_mem_walk {y : α} (h : y ∈ walk next fuel visited queue) :
    ∃ x ∈ queue, Leads next x y := by
  induction fuel generalizing visited queue with
  | zero => cases h
  | succ fuel ih =>
      cases queue with
      | nil => cases h
      | cons x queue =>
        unfold walk at h
        split at h
        · obtain ⟨z, hz, hleads⟩ := ih h
          exact ⟨z, mem_cons_of_mem _ hz, hleads⟩
        · rcases mem_cons.mp h with rfl | h
          · exact ⟨y, mem_cons_self, .refl⟩
          · obtain ⟨z, hz, hleads⟩ := ih h
            rcases mem_append.mp hz with hz | hz
            · exact ⟨z, mem_cons_of_mem _ hz, hleads⟩
            · exact ⟨x, mem_cons_self, .head hz hleads⟩

/-- Visiting a node uses up its edges. -/
theorem unvisited_visit {x : α} (hnodup : support.Nodup) (hnext : x ∉ support → next x = [])
    (hx : x ∉ visited) :
    unvisited next support (x :: visited) + (next x).length ≤ unvisited next support visited := by
  induction support with
  | nil =>
      rw [hnext not_mem_nil]
      exact Nat.le_refl _
  | cons y support ih =>
      obtain ⟨hy, hnodup⟩ := nodup_cons.mp hnodup
      by_cases hxy : x = y
      · -- the other nodes are visited or not as before
        subst hxy
        have hrest : support.filter (· ∉ x :: visited) = support.filter (· ∉ visited) := by
          refine filter_congr fun z hz => ?_
          have hne : z ≠ x := fun heq => hy (heq ▸ hz)
          simp [hne]
        unfold unvisited
        rw [filter_cons_of_neg (by simp), filter_cons_of_pos (by simpa using hx), hrest,
          map_cons, sum_cons]
        exact Nat.le_of_eq (Nat.add_comm _ _)
      · have hle := ih hnodup fun hmem => hnext fun h => (mem_cons.mp h).elim hxy hmem
        unfold unvisited at hle ⊢
        by_cases hvisited : y ∈ visited
        · rw [filter_cons_of_neg (by simp [hvisited]),
            filter_cons_of_neg (by simp [hvisited])]
          exact hle
        · rw [filter_cons_of_pos (by simp [hvisited, Ne.symm hxy]),
            filter_cons_of_pos (by simp [hvisited])]
          simp only [map_cons, sum_cons]
          omega

/-- A walk with enough fuel visits its queue and the successors of what it visits. -/
theorem walk_closed (visited queue : List α) (hnodup : support.Nodup)
    (hnext : ∀ x, x ∉ support → next x = [])
    (hfuel : queue.length + unvisited next support visited ≤ fuel) :
    (∀ x ∈ queue, x ∈ visited ∨ x ∈ walk next fuel visited queue) ∧
      ∀ y ∈ walk next fuel visited queue, ∀ z ∈ next y,
        z ∈ visited ∨ z ∈ walk next fuel visited queue := by
  induction fuel generalizing visited queue with
  | zero =>
      have hempty : queue = [] := eq_nil_of_length_eq_zero (by omega)
      subst hempty
      exact ⟨nofun, nofun⟩
  | succ fuel ih =>
      cases queue with
      | nil => exact ⟨nofun, nofun⟩
      | cons x queue =>
        rw [length_cons] at hfuel
        unfold walk
        split
        · next hx =>
          obtain ⟨hqueue, hclosed⟩ := ih visited queue (by omega)
          refine ⟨fun y hy => ?_, hclosed⟩
          rcases mem_cons.mp hy with rfl | hy
          · exact .inl hx
          · exact hqueue y hy
        · next hx =>
          have hvisit := unvisited_visit hnodup (hnext x) hx
          obtain ⟨hqueue, hclosed⟩ := ih (x :: visited) (queue ++ next x) (by
            rw [length_append]
            omega)
          -- what counts as visited for the rest is visited before or is the first node
          have hmoved : ∀ y, y ∈ x :: visited ∨
              y ∈ walk next fuel (x :: visited) (queue ++ next x) →
              y ∈ visited ∨ y ∈ x :: walk next fuel (x :: visited) (queue ++ next x) := by
            rintro y (hy | hy)
            · rcases mem_cons.mp hy with rfl | hy
              · exact .inr mem_cons_self
              · exact .inl hy
            · exact .inr (mem_cons_of_mem _ hy)
          refine ⟨fun y hy => ?_, fun y hy z hz => ?_⟩
          · rcases mem_cons.mp hy with rfl | hy
            · exact .inr mem_cons_self
            · exact hmoved y (hqueue y (mem_append_left _ hy))
          · rcases mem_cons.mp hy with rfl | hy
            · exact hmoved z (hqueue z (mem_append_right _ hz))
            · exact hmoved z (hclosed y hy z hz)

/-- A walk with enough fuel visits exactly what its start leads to. -/
theorem mem_walk_iff {x y : α} (hnodup : support.Nodup) (hnext : ∀ x, x ∉ support → next x = [])
    (hfuel : 1 + (support.map fun x => (next x).length).sum ≤ fuel) :
    y ∈ walk next fuel [] [x] ↔ Leads next x y := by
  have hall : unvisited next support [] = (support.map fun x => (next x).length).sum := by
    unfold unvisited
    rw [filter_eq_self.mpr fun _ _ => by simp]
  obtain ⟨hqueue, hclosed⟩ :=
    walk_closed [] [x] hnodup hnext (hall ▸ hfuel)
  constructor
  · intro h
    obtain ⟨z, hz, hleads⟩ := leads_of_mem_walk h
    rw [← mem_singleton.mp hz]
    exact hleads
  · intro h
    induction h with
    | refl => exact (hqueue x (mem_singleton.mpr rfl)).resolve_left not_mem_nil
    | tail _ hstep ih => exact (hclosed _ ih _ hstep).resolve_left not_mem_nil

end Walk

/-! ## Forests -/

variable {groups : List (α × List α)}

/-- One node leads to another one through the members of groups. -/
def Above (groups : List (α × List α)) : α → α → Prop :=
  Relation.ReflTransGen fun x y => ∃ members, (x, members) ∈ groups ∧ y ∈ members

/-- A node that is a member of no group. -/
def IsRoot (groups : List (α × List α)) (x : α) : Prop :=
  x ∈ groups.map Prod.fst ∧ x ∉ groups.flatMap Prod.snd

/-- A forest grows by a new node, whose members are some of the roots. -/
inductive Grown : List (α × List α) → Prop where
  | nil : Grown []
  | add {groups x members} : Grown groups → x ∉ groups.map Prod.fst →
      (∀ y ∈ members, IsRoot groups y) → Grown ((x, members) :: groups)

theorem Grown.mem_of_member (h : Grown groups) {y : α} (hy : y ∈ groups.flatMap Prod.snd) :
    y ∈ groups.map Prod.fst := by
  induction h with
  | nil => cases hy
  | add h _ hmembers ih =>
      rw [map_cons]
      rcases mem_append.mp (flatMap_cons ▸ hy) with hy | hy
      · exact mem_cons_of_mem _ (hmembers y hy).1
      · exact mem_cons_of_mem _ (ih hy)

theorem Grown.nodup (h : Grown groups) : (groups.map Prod.fst).Nodup := by
  induction h with
  | nil => exact nodup_nil
  | add _ hfresh _ ih => exact nodup_cons.mpr ⟨hfresh, ih⟩

/-- Below a node that was there before, nothing has changed. -/
theorem Grown.above_add {x y z : α} {members : List α} (h : Grown groups)
    (hfresh : x ∉ groups.map Prod.fst) (hy : y ∈ groups.map Prod.fst) :
    Above ((x, members) :: groups) y z ↔ Above groups y z := by
  have hmono : ∀ a b, (∃ members, (a, members) ∈ groups ∧ b ∈ members) →
      ∃ below, (a, below) ∈ (x, members) :: groups ∧ b ∈ below :=
    fun a b ⟨below, hbelow, hb⟩ => ⟨below, mem_cons_of_mem _ hbelow, hb⟩
  constructor
  · intro habove
    suffices hkept : Above groups y z ∧ z ∈ groups.map Prod.fst from hkept.1
    induction habove with
    | refl => exact ⟨.refl, hy⟩
    | tail _ hstep ih =>
      obtain ⟨below, hbelow, hb⟩ := hstep
      rcases mem_cons.mp hbelow with heq | hbelow
      · cases heq
        exact absurd ih.2 hfresh
      · exact ⟨.tail ih.1 ⟨below, hbelow, hb⟩,
          h.mem_of_member (mem_flatMap.mpr ⟨_, hbelow, hb⟩)⟩
  · exact Relation.ReflTransGen.mono hmono y z

/-- What is below a new node is the node itself or below one of its members. -/
theorem Grown.above_new {x z : α} {members : List α} (h : Grown groups)
    (hfresh : x ∉ groups.map Prod.fst) (hmembers : ∀ y ∈ members, IsRoot groups y) :
    Above ((x, members) :: groups) x z ↔ z = x ∨ ∃ y ∈ members, Above groups y z := by
  constructor
  · intro habove
    rcases Relation.ReflTransGen.cases_head habove with rfl | ⟨y, ⟨below, hbelow, hy⟩, hrest⟩
    · exact .inl rfl
    · rcases mem_cons.mp hbelow with heq | hbelow
      · cases heq
        exact .inr ⟨y, hy, (h.above_add hfresh (hmembers y hy).1).mp hrest⟩
      · exact absurd (mem_map.mpr ⟨_, hbelow, rfl⟩) hfresh
  · rintro (rfl | ⟨y, hy, hbelow⟩)
    · exact .refl
    · exact .head ⟨members, mem_cons_self, hy⟩
        ((h.above_add hfresh (hmembers y hy).1).mpr hbelow)

/-- The roots after a new node are the node and the roots that are none of its members. -/
theorem Grown.isRoot_add {x r : α} {members : List α} (h : Grown groups)
    (hfresh : x ∉ groups.map Prod.fst) (hmembers : ∀ y ∈ members, IsRoot groups y) :
    IsRoot ((x, members) :: groups) r ↔ r = x ∨ IsRoot groups r ∧ r ∉ members := by
  have hmember : r ∈ ((x, members) :: groups).flatMap Prod.snd ↔
      r ∈ members ∨ r ∈ groups.flatMap Prod.snd := by
    rw [flatMap_cons, mem_append]
  unfold IsRoot
  rw [map_cons, mem_cons, hmember]
  constructor
  · rintro ⟨rfl | hr, hnot⟩
    · exact .inl rfl
    · exact .inr ⟨⟨hr, fun hmem => hnot (.inr hmem)⟩, fun hmem => hnot (.inl hmem)⟩
  · rintro (rfl | ⟨⟨hr, hnot⟩, hnew⟩)
    · refine ⟨.inl rfl, ?_⟩
      rintro (hmem | hmem)
      · exact hfresh (hmembers _ hmem).1
      · exact hfresh (h.mem_of_member hmem)
    · refine ⟨.inr hr, ?_⟩
      rintro (hmem | hmem)
      · exact hnew hmem
      · exact hnot hmem

/-- Every node of a forest is below exactly one root. -/
theorem Grown.existsUnique_root (h : Grown groups) {y : α} (hy : y ∈ groups.map Prod.fst) :
    ∃! r, IsRoot groups r ∧ Above groups r y := by
  induction h with
  | nil => cases hy
  | @add groups x members h hfresh hmembers ih =>
      by_cases hyx : y = x
      · -- nothing but the new node leads to it
        subst hyx
        refine ⟨y, ⟨(h.isRoot_add hfresh hmembers).mpr (.inl rfl), .refl⟩, ?_⟩
        rintro r ⟨hroot, habove⟩
        rcases (h.isRoot_add hfresh hmembers).mp hroot with rfl | ⟨hr, _⟩
        · rfl
        · rw [h.above_add hfresh hr.1] at habove
          rcases Relation.ReflTransGen.cases_tail habove with rfl | ⟨z, _, below, hbelow, hmem⟩
          · rfl
          · exact absurd (h.mem_of_member (mem_flatMap.mpr ⟨_, hbelow, hmem⟩)) hfresh
      · have hold : y ∈ groups.map Prod.fst := (mem_cons.mp hy).resolve_left hyx
        obtain ⟨r, ⟨hr, habove⟩, hunique⟩ := ih hold
        -- the root of a node becomes the new node when it is one of its members
        by_cases hmem : r ∈ members
        · refine ⟨x, ⟨(h.isRoot_add hfresh hmembers).mpr (.inl rfl),
            (h.above_new hfresh hmembers).mpr (.inr ⟨r, hmem, habove⟩)⟩, ?_⟩
          rintro r' ⟨hroot', habove'⟩
          rcases (h.isRoot_add hfresh hmembers).mp hroot' with rfl | ⟨hr', hnot⟩
          · rfl
          · rw [h.above_add hfresh hr'.1] at habove'
            exact absurd (hunique r' ⟨hr', habove'⟩ ▸ hmem) hnot
        · refine ⟨r, ⟨(h.isRoot_add hfresh hmembers).mpr (.inr ⟨hr, hmem⟩),
            (h.above_add hfresh hr.1).mpr habove⟩, ?_⟩
          rintro r' ⟨hroot', habove'⟩
          rcases (h.isRoot_add hfresh hmembers).mp hroot' with rfl | ⟨hr', _⟩
          · rcases (h.above_new hfresh hmembers).mp habove' with rfl | ⟨z, hz, hbelow⟩
            · exact absurd rfl hyx
            · exact absurd (hunique z ⟨hmembers z hz, hbelow⟩ ▸ hz) hmem
          · exact hunique r' ⟨hr', (h.above_add hfresh hr'.1).mp habove'⟩

end Omp2.Forest
