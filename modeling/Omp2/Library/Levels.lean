import Omp2.Library.Forest

/-!
# Breadth-first order

The nodes below a queue, level after level, with a node as often as paths lead to it. A walk visits
the nodes in the order in which they first stand in this list.
-/

namespace Omp2.Forest

open List

variable {α β : Type*} {next : α → List α}

/-- The nodes of the first levels below a queue. -/
def levels (next : α → List α) : Nat → List α → List α
  | 0, _ => []
  | depth + 1, queue => queue ++ levels next depth (queue.flatMap next)

theorem levels_nil (depth : Nat) : levels next depth [] = [] := by
  induction depth with
  | zero => rfl
  | succ depth ih => exact ih

/-- What leaves the nodes that have been seen with a level is seen or stands in the next level. -/
theorem level_closed {seen queue front : List α} (hfront : ∀ x ∈ queue, x ∈ front ∨ x ∈ seen)
    (hclosed : ∀ x ∈ seen, ∀ y ∈ next x, y ∈ queue ++ seen) :
    ∀ x ∈ queue ++ seen, ∀ y ∈ next x, y ∈ front.flatMap next ++ (queue ++ seen) := by
  intro x hx y hy
  rcases (mem_append.mp hx).elim (hfront x) .inr with hx | hx
  · exact mem_append_left _ (mem_flatMap.mpr ⟨x, hx, hy⟩)
  · exact mem_append_right _ (hclosed x hx y hy)

/-! ## First occurrences -/

variable [DecidableEq α] [DecidableEq β]

/-- The first occurrences of the elements that have not been seen. -/
def firsts : List α → List α → List α
  | _, [] => []
  | seen, x :: xs => if x ∈ seen then firsts seen xs else x :: firsts (x :: seen) xs

/-- Which elements are first occurrences depends on what has been seen, not on its order. -/
theorem firsts_congr {seen seen' : List α} (h : ∀ x, x ∈ seen ↔ x ∈ seen') (xs : List α) :
    firsts seen xs = firsts seen' xs := by
  induction xs generalizing seen seen' with
  | nil => rfl
  | cons x xs ih =>
      unfold firsts
      by_cases hx : x ∈ seen
      · rw [if_pos hx, if_pos ((h x).mp hx)]
        exact ih h
      · rw [if_neg hx, if_neg (mt (h x).mpr hx)]
        exact congrArg (x :: ·) (ih fun y => by rw [mem_cons, mem_cons, h])

theorem mem_firsts {seen xs : List α} {y : α} : y ∈ firsts seen xs ↔ y ∈ xs ∧ y ∉ seen := by
  induction xs generalizing seen with
  | nil => simp [firsts]
  | cons x xs ih =>
      unfold firsts
      split <;> by_cases hy : y = x <;> simp_all

theorem firsts_append (seen xs ys : List α) :
    firsts seen (xs ++ ys) = firsts seen xs ++ firsts (xs ++ seen) ys := by
  induction xs generalizing seen with
  | nil => rfl
  | cons x xs ih =>
      rw [cons_append, firsts, firsts]
      split
      · next hx =>
        rw [ih]
        refine congrArg _ (firsts_congr (fun y => ?_) ys)
        by_cases hy : y = x <;> simp_all
      · rw [ih, cons_append]
        refine congrArg (x :: firsts (x :: seen) xs ++ ·) (firsts_congr (fun y => ?_) ys)
        simp only [mem_append, mem_cons]
        tauto

theorem firsts_eq_nil {seen xs : List α} (h : ∀ x ∈ xs, x ∈ seen) : firsts seen xs = [] := by
  refine eq_nil_iff_forall_not_mem.mpr fun x hx => ?_
  exact (mem_firsts.mp hx).2 (h x (mem_firsts.mp hx).1)

/-- What stands below a repeated node stands below its first occurrence before. -/
theorem firsts_flatMap_firsts (next : α → List β) {seen : List α} {below : List β} (xs : List α)
    (hbelow : ∀ x ∈ seen, ∀ y ∈ next x, y ∈ below) :
    firsts below ((firsts seen xs).flatMap next) = firsts below (xs.flatMap next) := by
  induction xs generalizing seen below with
  | nil => rfl
  | cons x xs ih =>
      rw [flatMap_cons, firsts_append]
      by_cases hx : x ∈ seen
      · rw [firsts, if_pos hx, firsts_eq_nil (hbelow x hx), nil_append, ih hbelow]
        refine firsts_congr (fun y => ?_) _
        rw [mem_append]
        exact ⟨.inr, fun h => h.elim (hbelow x hx y) id⟩
      · rw [firsts, if_neg hx, flatMap_cons, firsts_append]
        refine congrArg _ (ih fun z hz y hy => mem_append.mpr ?_)
        rcases mem_cons.mp hz with rfl | hz
        · exact .inl hy
        · exact .inr (hbelow z hz y hy)

/-! ## The order of a walk -/

variable {support : List α}

/-- Queues with the same first occurrences have the same first occurrences below them. -/
theorem firsts_levels (depth : Nat) {seen queue queue' : List α}
    (hclosed : ∀ x ∈ seen, ∀ y ∈ next x, y ∈ queue ++ seen)
    (h : firsts seen queue = firsts seen queue') :
    firsts seen (levels next depth queue) = firsts seen (levels next depth queue') := by
  induction depth generalizing seen queue queue' with
  | zero => rfl
  | succ depth ih =>
      have hmem : ∀ {x}, x ∈ queue ∧ x ∉ seen ↔ x ∈ queue' ∧ x ∉ seen := by
        intro x
        rw [← mem_firsts, ← mem_firsts, h]
      have hsame : ∀ x, x ∈ queue' ++ seen ↔ x ∈ queue ++ seen := by
        intro x
        have := hmem (x := x)
        rw [mem_append, mem_append]
        tauto
      rw [levels, levels, firsts_append, firsts_append, h, firsts_congr hsame]
      refine congrArg _ (ih (level_closed (fun _ => .inl) hclosed) ?_)
      rw [← firsts_flatMap_firsts next queue hclosed, h,
        firsts_flatMap_firsts next queue' hclosed]

/-- A walk depends on what has been visited, not on its order. -/
theorem walk_congr {visited visited' : List α} (h : ∀ x, x ∈ visited ↔ x ∈ visited') (fuel : Nat)
    (queue : List α) : walk next fuel visited queue = walk next fuel visited' queue := by
  induction fuel generalizing visited visited' queue with
  | zero => rfl
  | succ fuel ih =>
      cases queue with
      | nil => rfl
      | cons x queue =>
        unfold walk
        by_cases hx : x ∈ visited
        · rw [if_pos hx, if_pos ((h x).mp hx)]
          exact ih h queue
        · rw [if_neg hx, if_neg (mt (h x).mpr hx)]
          exact congrArg (x :: ·) (ih (fun y => by rw [mem_cons, mem_cons, h]) _)

/-- A walk visits what is new in the front of its queue and goes on with what is below it. -/
theorem walk_append (front : List α) (fuel : Nat) (visited queue : List α) :
    walk next (front.length + fuel) visited (front ++ queue) =
      firsts visited front ++
        walk next fuel (front ++ visited) (queue ++ (firsts visited front).flatMap next) := by
  induction front generalizing visited queue with
  | nil => simp [firsts]
  | cons x front ih =>
      rw [length_cons, Nat.add_right_comm, cons_append, walk, firsts]
      by_cases hx : x ∈ visited
      · rw [if_pos hx, if_pos hx, ih]
        refine congrArg (_ ++ ·) (walk_congr (fun y => ?_) fuel _)
        by_cases hy : y = x <;> simp_all
      · rw [if_neg hx, if_neg hx, append_assoc, ih, cons_append, flatMap_cons,
          append_assoc]
        refine congrArg (x :: firsts (x :: visited) front ++ ·) (walk_congr (fun y => ?_) fuel _)
        simp only [mem_append, mem_cons]
        tauto

/-- Visiting a queue uses up the edges of what is new in it. -/
theorem unvisited_queue (hnodup : support.Nodup) (hnext : ∀ x, x ∉ support → next x = [])
    (queue visited : List α) :
    ((firsts visited queue).flatMap next).length + unvisited next support (queue ++ visited) ≤
      unvisited next support visited := by
  have hcongr : ∀ seen seen' : List α, (∀ x, x ∈ seen ↔ x ∈ seen') →
      unvisited next support seen = unvisited next support seen' := by
    intro seen seen' h
    unfold unvisited
    rw [filter_congr fun x _ => decide_eq_decide.mpr (not_congr (h x))]
  induction queue generalizing visited with
  | nil => exact Nat.le_of_eq (Nat.zero_add _)
  | cons x queue ih =>
      unfold firsts
      split
      · next hx =>
        rw [cons_append, hcongr (x :: (queue ++ visited)) (queue ++ visited) fun y => by
          by_cases hy : y = x <;> simp_all]
        exact ih visited
      · next hx =>
        have hvisit := unvisited_visit hnodup (hnext x) hx
        have hrest := ih (x :: visited)
        rw [hcongr (queue ++ x :: visited) (x :: queue ++ visited) fun y => by
          simp only [mem_append, mem_cons]
          tauto] at hrest
        rw [flatMap_cons, length_append]
        omega

/-- A walk with enough fuel is in breadth-first order. -/
theorem walk_eq_firsts (hnodup : support.Nodup) (hnext : ∀ x, x ∉ support → next x = [])
    {fuel depth : Nat} {visited queue : List α} (hdepth : fuel ≤ depth)
    (hfuel : queue.length + unvisited next support visited ≤ fuel)
    (hclosed : ∀ x ∈ visited, ∀ y ∈ next x, y ∈ queue ++ visited) :
    walk next fuel visited queue = firsts visited (levels next depth queue) := by
  induction depth generalizing fuel visited queue with
  | zero =>
      rw [Nat.le_zero.mp hdepth]
      rfl
  | succ depth ih =>
      rcases queue.eq_nil_or_concat with rfl | ⟨init, last, hqueue⟩
      · rw [levels_nil]
        cases fuel <;> rfl
      · have hedges := unvisited_queue hnodup hnext queue visited
        have hlength : 0 < queue.length := by simp [hqueue]
        obtain ⟨rest, rfl⟩ := Nat.exists_eq_add_of_le (Nat.le_trans (Nat.le_add_right _ _) hfuel)
        have hwalk : walk next (queue.length + rest) visited queue = _ :=
          (append_nil queue) ▸ walk_append queue rest visited []
        rw [nil_append] at hwalk
        have hfront : ∀ x ∈ queue, x ∈ firsts visited queue ∨ x ∈ visited := fun x hx =>
          or_iff_not_imp_right.mpr fun hnew => mem_firsts.mpr ⟨hx, hnew⟩
        rw [hwalk, levels, firsts_append, ih (by omega) (by omega) (level_closed hfront hclosed)]
        exact congrArg _ (firsts_levels depth (level_closed hfront hclosed)
          (firsts_flatMap_firsts next queue hclosed))

end Omp2.Forest
