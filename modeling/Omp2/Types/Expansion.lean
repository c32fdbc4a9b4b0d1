import Omp2.Library.Levels
import Omp2.Types.Summary

/-!
# The order of an expansion

`expand_covered` ends on every map of nodes, whatever the nodes refer to. What it returns is listed
in breadth-first order: level after level below the root, each element where it first stands.
-/

namespace Omp2

/-- A run of the loop of `expand_covered` to the end of its queue. -/
inductive Expands (nodes : SummaryNodes) :
    List ElementId → List ElementId → List ElementId → List ElementId → Prop
  | done {visited expanded} : Expands nodes visited [] expanded expanded
  | visited {id visited queue expanded result} : id ∈ visited →
      Expands nodes visited queue expanded result →
      Expands nodes visited (id :: queue) expanded result
  | absent {id visited queue expanded result} : id ∉ visited → nodes[id]? = none →
      Expands nodes (id :: visited) queue expanded result →
      Expands nodes visited (id :: queue) expanded result
  | node {id node visited queue expanded result} : id ∉ visited → nodes[id]? = some node →
      Expands nodes (id :: visited) (queue ++ node.children)
        (node.covered.foldl listCovered expanded) result →
      Expands nodes visited (id :: queue) expanded result

variable {nodes : SummaryNodes} {visited queue expanded : List ElementId}

theorem childrenOf_eq_nil {id : ElementId} (h : id ∉ nodes.keys) : childrenOf nodes id = [] := by
  unfold childrenOf
  rw [Std.ExtTreeMap.getElem?_eq_none (fun hmem => h (Std.ExtTreeMap.mem_keys.mpr hmem))]
  rfl

theorem unvisited_nil (nodes : SummaryNodes) :
    Forest.unvisited (childrenOf nodes) nodes.keys [] =
      (nodes.toList.map fun entry => entry.2.children.length).sum := by
  unfold Forest.unvisited
  rw [List.filter_eq_self.mpr fun _ _ => by simp, sum_childrenOf]

/-- Every round uses up an entry of the queue or the children of a node. -/
theorem expands_expandFrom {fuel : Nat}
    (hfuel : queue.length + Forest.unvisited (childrenOf nodes) nodes.keys visited ≤ fuel) :
    Expands nodes visited queue expanded (expandFrom nodes fuel visited queue expanded) := by
  induction fuel generalizing visited queue expanded with
  | zero =>
      rw [List.eq_nil_of_length_eq_zero (by omega : queue.length = 0)]
      exact .done
  | succ fuel ih =>
      cases queue with
      | nil => exact .done
      | cons id queue =>
        rw [List.length_cons] at hfuel
        unfold expandFrom
        split
        · next hvisited => exact .visited hvisited (ih (by omega))
        · next hnew =>
          have hvisit := Forest.unvisited_visit Std.ExtTreeMap.nodup_keys
            (fun habsent : id ∉ nodes.keys => childrenOf_eq_nil habsent) hnew
          cases hnode : nodes[id]? with
          | none => exact .absent hnew hnode (ih (by omega))
          | some node =>
            rw [show childrenOf nodes id = node.children by
              unfold childrenOf
              rw [hnode]
              rfl] at hvisit
            exact .node hnew hnode (ih (by rw [List.length_append]; omega))

/-- The loop has one result. -/
theorem Expands.unique {first second : List ElementId}
    (h : Expands nodes visited queue expanded first)
    (h' : Expands nodes visited queue expanded second) : first = second := by
  induction h with
  | done => cases h'; rfl
  | visited hvisited _ ih =>
      cases h' with
      | visited _ h' => exact ih h'
      | absent hnew => exact absurd hvisited hnew
      | node hnew => exact absurd hvisited hnew
  | absent hnew hnode _ ih =>
      cases h' with
      | visited hvisited => exact absurd hvisited hnew
      | absent _ _ h' => exact ih h'
      | node _ hnode' => exact nomatch hnode.symm.trans hnode'
  | node hnew hnode _ ih =>
      cases h' with
      | visited hvisited => exact absurd hvisited hnew
      | absent _ hnode' => exact nomatch hnode.symm.trans hnode'
      | node _ hnode' h' =>
        cases Option.some.inj (hnode.symm.trans hnode')
        exact ih h'

/-- Listing appends what is new, in order. -/
theorem foldl_listCovered (expanded covered : List ElementId) :
    covered.foldl listCovered expanded = expanded ++ Forest.firsts expanded covered := by
  induction covered generalizing expanded with
  | nil => exact (List.append_nil _).symm
  | cons first covered ih =>
      rw [List.foldl_cons, ih, listCovered, Forest.firsts]
      split
      · rfl
      · rw [List.append_assoc, List.singleton_append]
        refine congrArg (expanded ++ first :: ·) (Forest.firsts_congr (fun x => ?_) covered)
        rw [List.mem_append, List.mem_singleton, List.mem_cons, or_comm]

/-- An expansion is the first occurrences of what the nodes cover, level after level. -/
theorem expandCovered_eq_firsts (nodes : SummaryNodes) (root : ElementId) :
    ∃ bound, ∀ depth ≥ bound, expandCovered nodes root =
      Forest.firsts [] ((Forest.levels (childrenOf nodes) depth [root]).flatMap
        (coveredOf nodes)) := by
  refine ⟨1 + (nodes.toList.map fun entry => entry.2.children.length).sum, fun depth hdepth => ?_⟩
  rw [expandCovered, expandFrom_eq, ← List.foldl_flatMap, foldl_listCovered, List.nil_append,
    Forest.walk_eq_firsts Std.ExtTreeMap.nodup_keys (fun _ => childrenOf_eq_nil) hdepth
      (Nat.le_of_eq (congrArg (1 + ·) (unvisited_nil nodes)))
      fun _ h => absurd h List.not_mem_nil,
    Forest.firsts_flatMap_firsts _ _ fun _ h => absurd h List.not_mem_nil]

/-- For every map of nodes and every root the loop of `expand_covered` comes to the end of its queue
with one result. This lists each element that is covered by a node to which the children lead, once
and nothing else, in the order of the first occurrences level after level below the root. -/
theorem expandCovered_breadthFirst (nodes : SummaryNodes) (root : ElementId) :
    (∀ result, Expands nodes [] [root] [] result ↔ result = expandCovered nodes root) ∧
    (expandCovered nodes root).Nodup ∧
    (∀ x, x ∈ expandCovered nodes root ↔
      ∃ id node, Forest.Leads (childrenOf nodes) root id ∧ nodes[id]? = some node ∧
        x ∈ node.covered) ∧
    ∃ bound, ∀ depth ≥ bound, expandCovered nodes root =
      Forest.firsts [] ((Forest.levels (childrenOf nodes) depth [root]).flatMap
        (coveredOf nodes)) := by
  have hruns : Expands nodes [] [root] [] (expandCovered nodes root) :=
    expands_expandFrom (Nat.le_of_eq (congrArg (1 + ·) (unvisited_nil nodes)))
  refine ⟨fun result => ⟨fun h => h.unique hruns, fun h => h ▸ hruns⟩,
    nodup_expandCovered nodes root, fun x => ?_, expandCovered_eq_firsts nodes root⟩
  rw [mem_expandCovered]
  refine exists_congr fun id => ?_
  unfold coveredOf
  cases nodes[id]? with
  | none => simp
  | some node => simp

end Omp2
