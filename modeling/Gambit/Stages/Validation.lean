import Gambit.Lib.KeyedLists
import Gambit.Stages.Pipeline

/-!
# What stage validation promises

The groups of a registered stage are configured ones.  A stage graph that
passes has every dependency registered for the groups that use it, and a rank
that falls along dependencies.
-/

set_option autoImplicit false

namespace Gambit

open Raising

variable {W A : Type}

/-! ## What validation promises -/

theorem lookup_ok {V : Type} {dict : OrderedDict String V} {name : String} {value : V} :
    lookup dict name = .ok value ↔ dict.get? name = some value := by
  unfold lookup
  cases dict.get? name with
  | none => simp
  | some found => simp

theorem requireGroupCoverage_ok {consumerGroups dependencyGroups : List String} :
    requireGroupCoverage consumerGroups dependencyGroups = .ok () ↔
      consumerGroups ⊆ dependencyGroups := by
  unfold requireGroupCoverage
  rw [refuse_ok]
  simp [List.subset_def]

theorem validatedStageGroups_ok {contractGroups : Option (List String)}
    {configuredGroups groups : List String}
    (accepted : validatedStageGroups contractGroups configuredGroups = .ok groups)
    (nonempty : configuredGroups ≠ []) : groups ≠ [] ∧ groups ⊆ configuredGroups := by
  cases contractGroups with
  | none =>
      cases accepted
      exact ⟨nonempty, List.Subset.refl _⟩
  | some asked =>
      obtain ⟨some', accepted⟩ := refuse_ok.mp accepted
      obtain ⟨known, accepted⟩ := refuse_ok.mp accepted
      cases accepted
      refine ⟨some', fun group member => ?_⟩
      simp only [List.any_eq_true, decide_eq_true_eq, not_exists, not_and, not_not] at known
      exact known group member

namespace Pipeline

variable {self : Pipeline W A}

/-- The groups of every stage are configured ones, and there are some. -/
structure Configured (pipeline : Pipeline W A) : Prop where
  indicators : ∀ name stage, pipeline.indicators.get? name = some stage →
    stage.cgroups ≠ [] ∧ stage.cgroups ⊆ pipeline.contractGroups
  signals : ∀ name stage, pipeline.signals.get? name = some stage →
    stage.cgroups ≠ [] ∧ stage.cgroups ⊆ pipeline.contractGroups

theorem getD_of {V : Type} {P : V → Prop} {found : Option V} {value : V}
    (stored : ∀ other, found = some other → P other) (fallback : P value) :
    P (found.getD value) := by
  cases found with
  | none => exact fallback
  | some other => exact stored other rfl

theorem new_configured {contractGroups : List String} {groupsNonempty : contractGroups ≠ []}
    {groupsUnique : contractGroups.Nodup} {timestamps : Grid} :
    (new contractGroups groupsNonempty groupsUnique timestamps : Pipeline W A).Configured :=
  ⟨fun _ _ found => (Option.some_ne_none _ found.symm).elim,
    fun _ _ found => (Option.some_ne_none _ found.symm).elim⟩

theorem addIndicator_configured {name : String} {indicator : IndicatorFunction W A}
    {contractGroups dependsOn : Option (List String)} {after : Pipeline W A}
    (configured : self.Configured)
    (accepted : self.addIndicator name indicator contractGroups dependsOn = .ok after) :
    after.Configured := by
  obtain ⟨groups, chosen, accepted⟩ := bind_ok.mp accepted
  obtain ⟨new, accepted⟩ := refuse_ok.mp accepted
  obtain ⟨same, accepted⟩ := refuse_ok.mp accepted
  cases accepted
  obtain ⟨nonempty, known⟩ := validatedStageGroups_ok chosen self.groupsNonempty
  refine ⟨fun other stage found => ?_, configured.signals⟩
  rw [OrderedDict.get?_set] at found
  split at found
  · cases found
    refine ⟨List.append_ne_nil_of_right_ne_nil _ nonempty, List.append_subset.mpr ⟨?_, known⟩⟩
    apply getD_of (P := fun stage : IndicatorStage W A => stage.cgroups ⊆ self.contractGroups)
    · intro stage present
      exact (configured.indicators name stage present).2
    · exact List.nil_subset _
  · exact configured.indicators other stage found

theorem addSignal_configured {name : String} {signalFunction : SignalFunction W A}
    {contractGroups dependsOnIndicators dependsOnSignals : Option (List String)}
    {after : Pipeline W A} (configured : self.Configured)
    (accepted : self.addSignal name signalFunction contractGroups dependsOnIndicators
      dependsOnSignals = .ok after) : after.Configured := by
  obtain ⟨groups, chosen, accepted⟩ := bind_ok.mp accepted
  obtain ⟨new, accepted⟩ := refuse_ok.mp accepted
  obtain ⟨sameIndicators, accepted⟩ := refuse_ok.mp accepted
  obtain ⟨sameSignals, accepted⟩ := refuse_ok.mp accepted
  cases accepted
  obtain ⟨nonempty, known⟩ := validatedStageGroups_ok chosen self.groupsNonempty
  refine ⟨configured.indicators, fun other stage found => ?_⟩
  rw [OrderedDict.get?_set] at found
  split at found
  · cases found
    refine ⟨List.append_ne_nil_of_right_ne_nil _ nonempty, List.append_subset.mpr ⟨?_, known⟩⟩
    apply getD_of (P := fun stage : SignalStage W A => stage.cgroups ⊆ self.contractGroups)
    · intro stage present
      exact (configured.signals name stage present).2
    · exact List.nil_subset _
  · exact configured.signals other stage found

theorem register_configured {registration : Registration W A} {after : Pipeline W A}
    (configured : self.Configured) (accepted : self.register registration = .ok after) :
    after.Configured := by
  cases registration with
  | indicator name indicator contractGroups dependsOn =>
      exact addIndicator_configured configured accepted
  | signal name signalFunction contractGroups dependsOnIndicators dependsOnSignals =>
      exact addSignal_configured configured accepted
  | rule name signalName =>
      obtain ⟨_, accepted⟩ := refuse_ok.mp accepted
      obtain ⟨_, accepted⟩ := refuse_ok.mp accepted
      obtain ⟨_, accepted⟩ := refuse_ok.mp accepted
      cases accepted
      exact ⟨configured.indicators, configured.signals⟩
  | marketSim =>
      cases accepted
      exact ⟨configured.indicators, configured.signals⟩

theorem Configured.registerAll (configured : self.Configured)
    (registrations : List (Registration W A)) : (self.registerAll registrations).Configured := by
  induction registrations generalizing self with
  | nil => exact configured
  | cons registration rest ih =>
      apply ih
      change ((self.register registration).toOption.getD self).Configured
      cases accepted : self.register registration with
      | error raised => exact configured
      | ok after => exact register_configured configured accepted

/-- Dependencies are registered for the groups of the stage, and a rank falls
along them. -/
structure Validated (pipeline : Pipeline W A) (rank : String → Nat) : Prop where
  indicators : ∀ name stage, pipeline.indicators.get? name = some stage →
    ∀ dependency ∈ stage.dependencies,
      rank (indicatorNode dependency) < rank (indicatorNode name) ∧
      ∃ parent, pipeline.indicators.get? dependency = some parent ∧ stage.cgroups ⊆ parent.cgroups
  signalIndicators : ∀ name stage, pipeline.signals.get? name = some stage →
    ∀ dependency ∈ stage.indicatorDependencies,
      ∃ parent, pipeline.indicators.get? dependency = some parent ∧ stage.cgroups ⊆ parent.cgroups
  signals : ∀ name stage, pipeline.signals.get? name = some stage →
    ∀ dependency ∈ stage.signalDependencies,
      rank (signalNode dependency) < rank (signalNode name) ∧
      ∃ parent, pipeline.signals.get? dependency = some parent ∧ stage.cgroups ⊆ parent.cgroups
  indicatorRank : ∀ name stage, pipeline.indicators.get? name = some stage →
    rank (indicatorNode name) < pipeline.depth
  signalRank : ∀ name stage, pipeline.signals.get? name = some stage →
    rank (signalNode name) < pipeline.depth

end Pipeline

theorem StageGraph.dependencies_node {graph : StageGraph} {node : StageNode}
    (member : node ∈ graph.nodes) : graph.dependencies node.name = node.dependencies := by
  have found : (graph.nodes.find? fun other => other.name = node.name) = some node := by
    have only := KeyedLists.filter_key_eq graph.unique member
    rw [← List.head?_filter, only]
    rfl
  rw [StageGraph.dependencies, found]
  rfl

/-- No dependency is missing. -/
theorem StageGraph.closed {graph : StageGraph}
    (present : ¬ graph.nodes.any fun node => node.dependencies.any (· ∉ graph.names)) :
    ∀ name ∈ graph.names, graph.dependencies name ⊆ graph.names := by
  intro name member dependency depends
  obtain ⟨node, inside, rfl⟩ := List.mem_map.mp member
  rw [graph.dependencies_node inside] at depends
  simp only [List.any_eq_true, decide_eq_true_eq, not_exists, not_and, not_not] at present
  exact present node inside dependency depends

theorem StageGraph.topologicalOrder_ok {graph : StageGraph} {order : List String}
    (accepted : graph.topologicalOrder = .ok order) :
    TopologicalOrder.Ordered graph.dependencies order ∧ graph.names ⊆ order ∧
      order.length ≤ graph.nodes.length := by
  unfold StageGraph.topologicalOrder at accepted
  obtain ⟨present, accepted⟩ := refuse_ok.mp accepted
  split at accepted
  · rename_i sorted
    cases accepted
    obtain ⟨ordered, all⟩ := TopologicalOrder.sort_ok sorted
    refine ⟨ordered, all, ?_⟩
    have within := TopologicalOrder.sort_within (StageGraph.closed present)
      (List.Subset.refl _) sorted
    have fewer := (ordered.nodup.subperm within).length_le
    rwa [StageGraph.names, List.length_map] at fewer
  · cases accepted
  · cases accepted

/-- A graph that closes over its dependencies is never too deep. -/
theorem StageGraph.topologicalOrder_deep (graph : StageGraph) :
    graph.topologicalOrder ≠ .error .recursionError := by
  unfold StageGraph.topologicalOrder
  split
  · exact nofun
  · rename_i present
    split
    · exact nofun
    · exact nofun
    · rename_i deep
      have length : graph.names.length < graph.nodes.length + 1 := by
        rw [StageGraph.names, List.length_map]
        exact Nat.lt_succ_self _
      have enough := TopologicalOrder.sort_deep (StageGraph.closed present) (List.Subset.refl _)
        length
      exact (enough.of_error deep rfl).elim

namespace Pipeline

variable {self : Pipeline W A}

theorem indicatorNode_mem {name : String} {stage : IndicatorStage W A}
    (found : self.indicators.get? name = some stage) :
    (⟨indicatorNode name, "indicator", stage.dependencies.map indicatorNode⟩ : StageNode) ∈
      self.stageNodes := by
  have member := (self.indicators.get?_eq_some_iff name stage).mp found
  simp only [stageNodes, List.mem_append, List.mem_map]
  exact .inl (.inl (.inl (.inl ⟨(name, stage), member, rfl⟩)))

theorem signalNode_mem {name : String} {stage : SignalStage W A}
    (found : self.signals.get? name = some stage) :
    (⟨signalNode name, "signal", stage.indicatorDependencies.map indicatorNode ++
      stage.signalDependencies.map signalNode⟩ : StageNode) ∈ self.stageNodes := by
  have member := (self.signals.get?_eq_some_iff name stage).mp found
  simp only [stageNodes, List.mem_append, List.mem_map]
  exact .inl (.inl (.inl (.inr ⟨(name, stage), member, rfl⟩)))

theorem validateDependencyScopes_ok (accepted : self.validateDependencyScopes = .ok ()) :
    (∀ name stage, self.indicators.get? name = some stage → ∀ dependency ∈ stage.dependencies,
      ∃ parent, self.indicators.get? dependency = some parent ∧ stage.cgroups ⊆ parent.cgroups) ∧
    ∀ name stage, self.signals.get? name = some stage →
      (∀ dependency ∈ stage.indicatorDependencies,
        ∃ parent, self.indicators.get? dependency = some parent ∧
          stage.cgroups ⊆ parent.cgroups) ∧
      ∀ dependency ∈ stage.signalDependencies,
        ∃ parent, self.signals.get? dependency = some parent ∧
          stage.cgroups ⊆ parent.cgroups := by
  obtain ⟨_, indicators, signals⟩ := bind_ok.mp accepted
  refine ⟨fun name stage found dependency member => ?_, fun name stage found => ?_⟩
  · have each := forM_ok.mp indicators _ ((OrderedDict.get?_eq_some_iff _ _ _).mp found)
    obtain ⟨parent, stored, covered⟩ := bind_ok.mp (forM_ok.mp each dependency member)
    exact ⟨parent, lookup_ok.mp stored, requireGroupCoverage_ok.mp covered⟩
  · have each := forM_ok.mp signals _ ((OrderedDict.get?_eq_some_iff _ _ _).mp found)
    obtain ⟨_, parents, others⟩ := bind_ok.mp each
    refine ⟨fun dependency member => ?_, fun dependency member => ?_⟩
    · obtain ⟨parent, stored, covered⟩ := bind_ok.mp (forM_ok.mp parents dependency member)
      exact ⟨parent, lookup_ok.mp stored, requireGroupCoverage_ok.mp covered⟩
    · obtain ⟨parent, stored, covered⟩ := bind_ok.mp (forM_ok.mp others dependency member)
      exact ⟨parent, lookup_ok.mp stored, requireGroupCoverage_ok.mp covered⟩

theorem stageGraph_nodes {graph : StageGraph} (built : self.stageGraph = .ok graph) :
    graph.nodes = self.stageNodes := by
  unfold stageGraph StageGraph.new at built
  split at built
  · cases built
    rfl
  · cases built

theorem validateStageGraph_ok {order : List String}
    (valid : self.validateStageGraph = .ok order) : ∃ rank, self.Validated rank := by
  obtain ⟨graph, built, rest⟩ := bind_ok.mp valid
  obtain ⟨order', sorted, rest⟩ := bind_ok.mp rest
  obtain ⟨_, scopes, _⟩ := bind_ok.mp rest
  obtain ⟨ordered, all, fewer⟩ := graph.topologicalOrder_ok sorted
  obtain ⟨indicatorScopes, signalScopes⟩ := validateDependencyScopes_ok scopes
  have nodes := stageGraph_nodes built
  have less (node : StageNode) (member : node ∈ self.stageNodes) (dependency : String)
      (depends : dependency ∈ node.dependencies) :
      order'.idxOf dependency < order'.idxOf node.name := by
    rw [← nodes] at member
    rw [← graph.dependencies_node member] at depends
    exact (ordered.idxOf_lt (all (List.mem_map_of_mem member)) depends).2
  have bounded (node : StageNode) (member : node ∈ self.stageNodes) :
      order'.idxOf node.name < self.depth := by
    rw [← nodes] at member
    have inside := List.idxOf_lt_length_of_mem (all (List.mem_map_of_mem member))
    rw [nodes] at fewer
    exact (inside.trans_le fewer).trans (Nat.lt_succ_self _)
  exact ⟨order'.idxOf, {
    indicators := fun name stage found dependency member =>
      ⟨less _ (indicatorNode_mem found) _ (List.mem_map_of_mem member),
        indicatorScopes name stage found dependency member⟩
    signalIndicators := fun name stage found => (signalScopes name stage found).1
    signals := fun name stage found dependency member =>
      ⟨less _ (signalNode_mem found) _ (List.mem_append_right _ (List.mem_map_of_mem member)),
        (signalScopes name stage found).2 dependency member⟩
    indicatorRank := fun name stage found => bounded _ (indicatorNode_mem found)
    signalRank := fun name stage found => bounded _ (signalNode_mem found) }⟩

end Pipeline

end Gambit
