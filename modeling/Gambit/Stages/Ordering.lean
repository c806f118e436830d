import Gambit.Stages.Validation

/-!
# Stage ordering

`topological_order` refuses a graph with a missing dependency, then one with a
cycle, and sorts every other graph.  The depth of its recursion is bounded by
the number of stages, so no bound of the interpreter matters beyond it.
-/

set_option autoImplicit false

namespace Gambit.StageGraph

open Raising TopologicalOrder

variable {graph : StageGraph} {name : String}

/-- Every dependency of every stage is a stage. -/
def Complete (graph : StageGraph) : Prop :=
  ∀ node ∈ graph.nodes, ∀ dependency ∈ node.dependencies, dependency ∈ graph.names

theorem missing_iff :
    (graph.nodes.any fun node => node.dependencies.any (· ∉ graph.names)) = true ↔
      ¬ graph.Complete := by
  simp only [Complete, List.any_eq_true, decide_eq_true_eq]
  push Not
  exact Iff.rfl

theorem topologicalOrder_incomplete (incomplete : ¬ graph.Complete) :
    graph.topologicalOrder = .error (.valueError "stage dependencies are missing: ") :=
  if_pos (missing_iff.mpr incomplete)

theorem topologicalOrder_complete (complete : graph.Complete) :
    graph.topologicalOrder =
      match TopologicalOrder.sort graph.dependencies (graph.nodes.length + 1) graph.names with
      | .ok order => .ok order
      | .error (.cycle _) => .error (.valueError "stage dependency cycle: ")
      | .error .tooDeep => .error .recursionError :=
  if_neg fun missing => missing_iff.mp missing complete

theorem complete_closed (complete : graph.Complete) :
    ∀ name ∈ graph.names, graph.dependencies name ⊆ graph.names :=
  StageGraph.closed fun missing => missing_iff.mp missing complete

/-- A name that is no stage has no dependencies. -/
theorem mem_names_of_dependencies (some : graph.dependencies name ≠ []) : name ∈ graph.names := by
  unfold StageGraph.dependencies at some
  cases found : graph.nodes.find? fun node => node.name = name with
  | none =>
      rw [found] at some
      exact absurd rfl some
  | some node =>
      have named : node.name = name := by simpa using List.find?_some found
      rw [← named]
      exact List.mem_map_of_mem (List.mem_of_find?_eq_some found)

theorem length_names (graph : StageGraph) : graph.names.length = graph.nodes.length :=
  List.length_map ..

/-- An accepted graph has no cycle. -/
theorem acyclic_of_ok {order : List String} (accepted : graph.topologicalOrder = .ok order) :
    ¬ Cyclic graph.dependencies := by
  obtain ⟨ordered, all, _⟩ := topologicalOrder_ok accepted
  exact ordered.acyclic fun node some => all (mem_names_of_dependencies some)

theorem perm_of_ok {order : List String} (accepted : graph.topologicalOrder = .ok order) :
    order.Perm graph.names := by
  obtain ⟨ordered, all, fewer⟩ := topologicalOrder_ok accepted
  have sub := graph.unique.subperm all
  rw [← length_names] at fewer
  exact (sub.perm_of_length_le fewer).symm

/-- The answer for a graph without missing dependencies. -/
theorem topologicalOrder_cases (complete : graph.Complete) :
    (∃ order, graph.topologicalOrder = .ok order ∧ ¬ Cyclic graph.dependencies) ∨
      graph.topologicalOrder = .error (.valueError "stage dependency cycle: ") ∧
        Cyclic graph.dependencies := by
  have sorted := topologicalOrder_complete complete
  have depth := graph.topologicalOrder_deep
  have cycles := sort_cycle graph.dependencies (graph.nodes.length + 1) graph.names
  cases run : TopologicalOrder.sort graph.dependencies (graph.nodes.length + 1) graph.names with
  | ok order =>
      rw [run] at sorted
      exact .inl ⟨order, sorted, acyclic_of_ok sorted⟩
  | error stop =>
      rw [run] at sorted cycles
      cases stop with
      | cycle path => exact .inr ⟨sorted, cycles nofun⟩
      | tooDeep => exact absurd sorted depth

/-- Missing dependencies are reported first and cycles then; any other graph is sorted. -/
theorem topologicalOrder_sorts (graph : StageGraph) :
    (graph.topologicalOrder = .error (.valueError "stage dependencies are missing: ") ↔
      ∃ node ∈ graph.nodes, ∃ dependency ∈ node.dependencies, dependency ∉ graph.names) ∧
    ((∀ node ∈ graph.nodes, ∀ dependency ∈ node.dependencies, dependency ∈ graph.names) →
      (∀ depth, graph.nodes.length < depth →
        TopologicalOrder.sort graph.dependencies depth graph.names =
          TopologicalOrder.sort graph.dependencies (graph.nodes.length + 1) graph.names) ∧
      (graph.topologicalOrder = .error (.valueError "stage dependency cycle: ") ↔
        ∃ name, Relation.TransGen (fun node dependency => dependency ∈ graph.dependencies node)
          name name) ∧
      ((¬ ∃ name, Relation.TransGen (fun node dependency => dependency ∈ graph.dependencies node)
          name name) →
        ∃ order, graph.topologicalOrder = .ok order ∧ order.Perm graph.names ∧
          ∀ name ∈ graph.names, ∀ dependency ∈ graph.dependencies name,
            order.idxOf dependency < order.idxOf name)) := by
  refine ⟨⟨fun missing => ?_, fun missing => ?_⟩, fun complete => ⟨fun depth deep => ?_, ?_, ?_⟩⟩
  · by_contra none
    push Not at none
    have complete : graph.Complete := none
    rcases topologicalOrder_cases complete with ⟨order, accepted, _⟩ | ⟨cycle, _⟩
    · rw [accepted] at missing
      cases missing
    · rw [cycle] at missing
      simp at missing
  · apply topologicalOrder_incomplete
    intro complete
    obtain ⟨node, member, dependency, depends, absent⟩ := missing
    exact absent (complete node member dependency depends)
  · rw [← length_names] at deep ⊢
    exact sort_depth (complete_closed complete) (List.Subset.refl _) deep
  · rcases topologicalOrder_cases complete with ⟨order, accepted, acyclic⟩ | ⟨cycle, cyclic⟩
    · rw [accepted]
      exact ⟨nofun, fun cyclic => absurd cyclic acyclic⟩
    · exact ⟨fun _ => cyclic, fun _ => cycle⟩
  · intro acyclic
    rcases topologicalOrder_cases complete with ⟨order, accepted, _⟩ | ⟨_, cyclic⟩
    · refine ⟨order, accepted, perm_of_ok accepted, ?_⟩
      obtain ⟨ordered, all, _⟩ := topologicalOrder_ok accepted
      intro name member dependency depends
      exact (ordered.idxOf_lt (all member) depends).2
    · exact absurd cyclic acyclic

end Gambit.StageGraph
