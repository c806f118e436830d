import Gambit.Stages.Calls

/-!
# Every registered pair once, after its inputs

One level of the nested calls gives the loops above it what they need, and the
rank of a stage in the topological order bounds the levels.
-/

set_option autoImplicit false

namespace Gambit

open Raising

variable {W A : Type}

namespace Pipeline

variable {self : Pipeline W A} {run after : StageRun W A} {name group : String}
  {rank : String → Nat} [NdArray A]

/-! ## Indicators -/

/-- What the nested call for one indicator and one group does. -/
def Nested (pipeline : Pipeline W A) (again : List String → List String → StageStep W A)
    (stage : Stage) (name group : String) : Prop :=
  ∀ run, pipeline.Consistent run →
    Yields (fun after => pipeline.Consistent after ∧
        (pipeline.Registered stage group → (after.value stage group).isSome) ∧ run.Grows after)
      (fun raised => raised.error.IsCallback ∨ ¬ pipeline.Registered stage group)
      (again [name] [group] run)

theorem runIndicator_yields {again : List String → List String → StageStep W A}
    (valid : self.Validated rank) (consistent : self.Consistent run)
    (nested : ∀ stage, self.indicators.get? name = some stage →
      ∀ parent ∈ stage.dependencies, self.Nested again (.indicator parent) parent group) :
    Yields (self.Calculated run (.indicator name) group)
      (fun raised => raised.error.IsCallback ∨ ¬ self.Registered (.indicator name) group)
      (self.runIndicator again group name run) := by
  unfold runIndicator lookup
  cases found : self.indicators.get? name with
  | none =>
      refine .inr fun registered => ?_
      obtain ⟨stage, stored, _⟩ := registered
      rw [found] at stored
      cases stored
  | some stage =>
      have unregistered : (∃ parent ∈ stage.dependencies,
          ¬ self.Registered (.indicator parent) group) →
          ¬ self.Registered (.indicator name) group := by
        rintro ⟨parent, depends, absent⟩ ⟨other, stored, member⟩
        rw [found] at stored
        cases stored
        exact absent (valid.registered found member depends)
      have parents : Yields (fun after => self.Consistent after ∧ (∀ parent ∈ stage.dependencies,
            self.Registered (.indicator parent) group →
              (after.value (.indicator parent) group).isSome) ∧ run.Grows after)
          (fun raised => raised.error.IsCallback ∨ ¬ self.Registered (.indicator name) group)
          (stage.dependencies.foldlM (fun run parent =>
            if (run.indicatorValues group).hasattr parent then .ok run
            else again [parent] [group] run) run) := by
        apply Yields.foldlM_each (Q := fun parent after =>
          self.Registered (.indicator parent) group →
            (after.value (.indicator parent) group).isSome) StageRun.Grows.refl
          (fun _ _ _ => StageRun.Grows.trans)
          (fun parent s t grows stored registered => grows _ _ (stored registered))
        · intro parent depends s now
          split
          · rename_i stored
            exact ⟨now, fun _ => stored, .refl s⟩
          · apply (nested stage found parent depends s now).weaken (fun _ after => after)
            intro raised failed
            exact failed.imp_right fun absent => unregistered ⟨parent, depends, absent⟩
        · exact consistent
      apply parents.bind
      intro before ready
      obtain ⟨now, stored, grows⟩ := ready
      split
      · rename_i already
        exact ⟨now, already, grows⟩
      · rename_i missing
        have new : before.value (.indicator name) group = none := by
          simpa [SimpleNamespace.hasattr, StageRun.value] using missing
        apply (callIndicator_yields now found new).weaken
        · intro after calculated
          exact ⟨calculated.consistent, calculated.value, grows.trans calculated.grows⟩
        · rintro raised (callback | outside | ⟨parent, depends, none⟩)
          · exact .inl callback
          · refine .inr fun registered => ?_
            obtain ⟨other, stored, member⟩ := registered
            rw [found] at stored
            cases stored
            exact outside member
          · refine .inr fun registered => ?_
            obtain ⟨other, stored', member⟩ := registered
            rw [found] at stored'
            cases stored'
            have there := stored parent depends (valid.registered found member depends)
            rw [none] at there
            cases there

/-- The two loops, over names that may be called for all the groups. -/
theorem indicatorLoops_yields {again : List String → List String → StageStep W A}
    (valid : self.Validated rank) (consistent : self.Consistent run) {names groups : List String}
    (nested : ∀ group ∈ groups, ∀ name ∈ names, ∀ stage, self.indicators.get? name = some stage →
      ∀ parent ∈ stage.dependencies, self.Nested again (.indicator parent) parent group) :
    Yields (fun after => self.Consistent after ∧ (∀ group ∈ groups, ∀ name ∈ names,
          (after.value (.indicator name) group).isSome) ∧ run.Grows after)
      (fun raised => raised.error.IsCallback ∨
        ∃ group ∈ groups, ∃ name ∈ names, ¬ self.Registered (.indicator name) group)
      (groups.foldlM (fun run group => names.foldlM (fun run name =>
        self.runIndicator again group name run) run) run) := by
  apply Yields.foldlM_each (Q := fun group after => ∀ name ∈ names,
      (after.value (.indicator name) group).isSome) StageRun.Grows.refl
    (fun _ _ _ => StageRun.Grows.trans)
    (fun group s t grows stored name member => grows _ _ (stored name member))
  · intro group chosen s now
    apply Yields.foldlM_each (Q := fun name after =>
        (StageRun.value after (.indicator name) group).isSome) StageRun.Grows.refl
      (fun _ _ _ => StageRun.Grows.trans) (fun name s t grows stored => grows _ _ stored)
    · intro name member s now
      apply (runIndicator_yields valid now (nested group chosen name member)).weaken
      · intro after calculated
        exact ⟨calculated.consistent, calculated.value, calculated.grows⟩
      · intro raised failed
        exact failed.imp_right fun absent => ⟨group, chosen, name, member, absent⟩
    · exact now
  · exact consistent

theorem runIndicators_succ {depth : Nat} {asked : Option (List String)}
    {chosen : Option (List String)} {names groups : List String}
    (accepted : validatedStageNames asked self.indicators.keys = .ok names)
    (configured : validatedStageGroups chosen self.contractGroups = .ok groups) :
    self.runIndicators (depth + 1) asked chosen false run =
      groups.foldlM (fun run group => (names.filter fun name =>
        (self.indicators.get? name).any fun stage => overlaps stage.cgroups groups).foldlM
          (fun run name => self.runIndicator (fun names groups =>
            self.runIndicators depth (some names) (some groups) false) group name run) run) run := by
  rw [runIndicators, accepted, configured]
  rfl

theorem validated_single {name : String} {names : List String} (known : name ∈ names) :
    validatedStageNames (some [name]) names = .ok [name] := by
  simp [validatedStageNames, known, List.eraseDups_cons]

theorem validated_group {group : String} {groups : List String} (known : group ∈ groups) :
    validatedStageGroups (some [group]) groups = .ok [group] := by
  simp [validatedStageGroups, known]

theorem overlaps_single {cgroups : List String} {group : String} :
    overlaps cgroups [group] = true ↔ group ∈ cgroups := by
  simp [overlaps]

/-- The nested calls are deep enough for the rank of the name. -/
theorem runIndicators_nested (valid : self.Validated rank) {depth : Nat}
    (configured : group ∈ self.contractGroups) (deep : rank (indicatorNode name) < depth) :
    self.Nested (fun names groups => self.runIndicators depth (some names) (some groups) false)
      (.indicator name) name group := by
  induction depth generalizing name with
  | zero => cases deep
  | succ depth ih =>
      intro run consistent
      by_cases known : name ∈ self.indicators.keys
      swap
      · have refused : validatedStageNames (some [name]) self.indicators.keys =
            .error (.valueError "unknown names: ") := by
          simp [validatedStageNames, known]
        change Yields _ _ (self.runIndicators (depth + 1) (some [name]) (some [group]) false run)
        rw [runIndicators, refused]
        refine .inr fun registered => ?_
        obtain ⟨stage, found, _⟩ := registered
        exact known (OrderedDict.mem_keys_of_get? found)
      change Yields _ _ (self.runIndicators (depth + 1) (some [name]) (some [group]) false run)
      rw [runIndicators_succ (validated_single known) (validated_group configured)]
      obtain ⟨stage, found⟩ := Option.isSome_iff_exists.mp
        ((OrderedDict.contains_iff _ _).mpr known)
      by_cases covered : group ∈ stage.cgroups
      · have kept : ([name].filter fun name => (self.indicators.get? name).any fun stage =>
            overlaps stage.cgroups [group]) = [name] := by
          rw [List.filter_eq_self]
          intro other single
          rw [List.mem_singleton.mp single, found]
          exact overlaps_single.mpr covered
        rw [kept]
        have parents : ∀ chosen ∈ [group], ∀ other ∈ [name], ∀ stage,
            self.indicators.get? other = some stage → ∀ parent ∈ stage.dependencies,
              self.Nested (fun names groups =>
                self.runIndicators depth (some names) (some groups) false) (.indicator parent)
                parent chosen := by
          intro chosen single other singleName stage found parent depends
          rw [List.mem_singleton.mp single]
          rw [List.mem_singleton.mp singleName] at found
          have less := (valid.indicators name stage found parent depends).1
          exact ih (less.trans_le (Nat.le_of_lt_succ deep))
        apply (indicatorLoops_yields valid consistent parents).weaken
        · intro after held
          obtain ⟨now, stored, grows⟩ := held
          exact ⟨now, fun _ => stored group (by simp) name (by simp), grows⟩
        · rintro raised (callback | ⟨other, single, some', singleName, absent⟩)
          · exact .inl callback
          · rw [List.mem_singleton.mp single, List.mem_singleton.mp singleName] at absent
            exact .inr absent
      · have dropped : ([name].filter fun name => (self.indicators.get? name).any fun stage =>
            overlaps stage.cgroups [group]) = [] := by
          rw [List.filter_eq_nil_iff]
          intro other single
          rw [List.mem_singleton.mp single, found]
          exact fun overlapping => covered (overlaps_single.mp overlapping)
        rw [dropped]
        refine ⟨consistent, fun registered => ?_, .refl run⟩
        obtain ⟨other, stored, member⟩ := registered
        rw [found] at stored
        cases stored
        exact (covered member).elim

/-- `run_indicators` stores a value for every indicator and every group, or a
callback raises, or an indicator is not registered for some group. -/
theorem runIndicators_yields (valid : self.Validated rank) (configured : self.Configured)
    (consistent : self.Consistent run) :
    Yields (fun after => self.Consistent after ∧ ∀ group ∈ self.contractGroups,
          ∀ name ∈ self.indicators.keys, (after.value (.indicator name) group).isSome)
      (fun raised => raised.error.IsCallback ∨ ∃ group ∈ self.contractGroups,
        ∃ name ∈ self.indicators.keys, ¬ self.Registered (.indicator name) group)
      (self.runIndicators self.depth none none false run) := by
  rw [depth, runIndicators_succ rfl rfl]
  have kept : (self.indicators.keys.filter fun name => (self.indicators.get? name).any fun stage =>
      overlaps stage.cgroups self.contractGroups) = self.indicators.keys := by
    rw [List.filter_eq_self]
    intro name known
    obtain ⟨stage, found⟩ := Option.isSome_iff_exists.mp ((OrderedDict.contains_iff _ _).mpr known)
    obtain ⟨nonempty, within⟩ := configured.indicators name stage found
    obtain ⟨group, member⟩ := List.exists_mem_of_ne_nil _ nonempty
    rw [found]
    exact List.any_eq_true.mpr ⟨group, within member, decide_eq_true member⟩
  rw [kept]
  have parents : ∀ group ∈ self.contractGroups, ∀ name ∈ self.indicators.keys, ∀ stage,
      self.indicators.get? name = some stage → ∀ parent ∈ stage.dependencies,
        self.Nested (fun names groups =>
          self.runIndicators self.stageNodes.length (some names) (some groups) false)
          (.indicator parent) parent group := by
    intro group chosen name _ stage found parent depends
    have less := (valid.indicators name stage found parent depends).1
    exact runIndicators_nested valid chosen
      (less.trans_le (Nat.le_of_lt_succ (valid.indicatorRank name stage found)))
  apply (indicatorLoops_yields valid consistent parents).weaken
  · intro after held
    exact ⟨held.1, held.2.1⟩
  · exact fun _ failed => failed

/-! ## Signals -/

/-- Every registered indicator has its value. -/
def Ready (pipeline : Pipeline W A) (run : StageRun W A) : Prop :=
  ∀ name group, pipeline.Registered (.indicator name) group →
    (run.value (.indicator name) group).isSome

omit [NdArray A] in
theorem Ready.grows (ready : self.Ready run) (grows : run.Grows after) : self.Ready after :=
  fun name group registered => grows _ _ (ready name group registered)

/-- What a round or a nested call for a signal and a group does. -/
def SignalDone (pipeline : Pipeline W A) (run : StageRun W A) (name group : String)
    (after : StageRun W A) : Prop :=
  (pipeline.Consistent after ∧ pipeline.Ready after) ∧
    (pipeline.Registered (.signal name) group → (after.value (.signal name) group).isSome) ∧
    run.Grows after

def NestedSignal (pipeline : Pipeline W A) (again : List String → List String → StageStep W A)
    (name group : String) : Prop :=
  ∀ run, pipeline.Consistent run ∧ pipeline.Ready run →
    Yields (pipeline.SignalDone run name group) (fun raised => raised.error.IsCallback)
      (again [name] [group] run)

theorem runSignal_yields {again : List String → List String → StageStep W A}
    (valid : self.Validated rank) (now : self.Consistent run ∧ self.Ready run)
    (known : name ∈ self.signals.keys)
    (nested : ∀ stage, self.signals.get? name = some stage →
      ∀ parent ∈ stage.signalDependencies, self.NestedSignal again parent group) :
    Yields (self.SignalDone run name group) (fun raised => raised.error.IsCallback)
      (self.runSignal again group name run) := by
  obtain ⟨stage, found⟩ := Option.isSome_iff_exists.mp ((OrderedDict.contains_iff _ _).mpr known)
  unfold runSignal lookup
  rw [found]
  by_cases member : group ∈ stage.cgroups
  swap
  · change Yields _ _ (if group ∉ stage.cgroups then _ else _)
    rw [if_pos member]
    refine ⟨now, fun registered => ?_, .refl run⟩
    obtain ⟨other, stored, inside⟩ := registered
    rw [found] at stored
    cases stored
    exact (member inside).elim
  · change Yields _ _ (if group ∉ stage.cgroups then _ else _)
    rw [if_neg (not_not.mpr member)]
    have parents : Yields (fun after => (self.Consistent after ∧ self.Ready after) ∧
          (∀ parent ∈ stage.signalDependencies, (after.value (.signal parent) group).isSome) ∧
          run.Grows after) (fun raised => raised.error.IsCallback)
        (stage.signalDependencies.foldlM (fun run parent =>
          if (run.signalValues group).hasattr parent then .ok run
          else again [parent] [group] run) run) := by
      apply Yields.foldlM_each (Q := fun parent after =>
          (StageRun.value after (.signal parent) group).isSome) StageRun.Grows.refl
        (fun _ _ _ => StageRun.Grows.trans) (fun parent s t grows stored => grows _ _ stored)
      · intro parent depends s before
        split
        · rename_i stored
          exact ⟨before, stored, .refl s⟩
        · apply (nested stage found parent depends s before).mono
          intro after done
          obtain ⟨_, other, stored, covered⟩ := valid.signals name stage found parent depends
          exact ⟨done.1, done.2.1 ⟨other, stored, covered member⟩, done.2.2⟩
      · exact now
    apply parents.bind
    intro before reached
    obtain ⟨⟨consistent, ready⟩, stored, grows⟩ := reached
    split
    · rename_i already
      exact ⟨⟨consistent, ready⟩, fun _ => already, grows⟩
    · rename_i missing
      have new : before.value (.signal name) group = none := by
        simpa [SimpleNamespace.hasattr, StageRun.value] using missing
      have inputs : ∀ parent ∈ stage.indicatorDependencies,
          (before.value (.indicator parent) group).isSome := by
        intro parent depends
        obtain ⟨other, stored, covered⟩ := valid.signalIndicators name stage found parent depends
        exact ready parent group ⟨other, stored, covered member⟩
      apply (callSignal_yields consistent found member new inputs stored).mono
      intro after calculated
      exact ⟨⟨calculated.consistent, ready.grows calculated.grows⟩, fun _ => calculated.value,
        grows.trans calculated.grows⟩

theorem signalLoops_yields {again : List String → List String → StageStep W A}
    (valid : self.Validated rank) (now : self.Consistent run ∧ self.Ready run)
    {names groups : List String} (known : names ⊆ self.signals.keys)
    (nested : ∀ group ∈ groups, ∀ name ∈ names, ∀ stage, self.signals.get? name = some stage →
      ∀ parent ∈ stage.signalDependencies, self.NestedSignal again parent group) :
    Yields (fun after => (self.Consistent after ∧ self.Ready after) ∧
          (∀ group ∈ groups, ∀ name ∈ names, self.Registered (.signal name) group →
            (after.value (.signal name) group).isSome) ∧ run.Grows after)
      (fun raised => raised.error.IsCallback)
      (groups.foldlM (fun run group => names.foldlM (fun run name =>
        self.runSignal again group name run) run) run) := by
  apply Yields.foldlM_each (Q := fun group after => ∀ name ∈ names,
      self.Registered (.signal name) group → (StageRun.value after (.signal name) group).isSome)
    StageRun.Grows.refl (fun _ _ _ => StageRun.Grows.trans)
    (fun group s t grows stored name member registered =>
      grows _ _ (stored name member registered))
  · intro group chosen s before
    apply Yields.foldlM_each (Q := fun name after => self.Registered (.signal name) group →
        (StageRun.value after (.signal name) group).isSome)
      StageRun.Grows.refl (fun _ _ _ => StageRun.Grows.trans)
      (fun name s t grows stored registered => grows _ _ (stored registered))
    · intro name member s before
      exact runSignal_yields valid before (known member) (nested group chosen name member)
    · exact before
  · exact now

theorem runSignals_succ {depth : Nat} {asked : Option (List String)}
    {chosen : Option (List String)} {names groups : List String}
    (accepted : validatedStageNames asked self.signals.keys = .ok names)
    (configured : validatedStageGroups chosen self.contractGroups = .ok groups) :
    self.runSignals (depth + 1) asked chosen false run =
      groups.foldlM (fun run group => (names.filter fun name =>
        (self.signals.get? name).any fun stage => overlaps stage.cgroups groups).foldlM
          (fun run name => self.runSignal (fun names groups =>
            self.runSignals depth (some names) (some groups) false) group name run) run) run := by
  rw [runSignals, accepted, configured]
  rfl

theorem runSignals_nested (valid : self.Validated rank) {depth : Nat}
    (configured : group ∈ self.contractGroups) (known : name ∈ self.signals.keys)
    (deep : rank (signalNode name) < depth) :
    self.NestedSignal
      (fun names groups => self.runSignals depth (some names) (some groups) false) name group := by
  induction depth generalizing name with
  | zero => cases deep
  | succ depth ih =>
      intro run now
      change Yields _ _ (self.runSignals (depth + 1) (some [name]) (some [group]) false run)
      rw [runSignals_succ (validated_single known) (validated_group configured)]
      have parents : ∀ chosen ∈ [group], ∀ other ∈ ([name].filter fun name =>
          (self.signals.get? name).any fun stage => overlaps stage.cgroups [group]), ∀ stage,
          self.signals.get? other = some stage → ∀ parent ∈ stage.signalDependencies,
            self.NestedSignal (fun names groups =>
              self.runSignals depth (some names) (some groups) false) parent chosen := by
        intro chosen single other kept stage found parent depends
        rw [List.mem_singleton.mp single]
        rw [List.mem_singleton.mp (List.mem_filter.mp kept).1] at found
        obtain ⟨less, before, stored, _⟩ := valid.signals name stage found parent depends
        exact ih (OrderedDict.mem_keys_of_get? stored) (less.trans_le (Nat.le_of_lt_succ deep))
      have within : ([name].filter fun name => (self.signals.get? name).any fun stage =>
          overlaps stage.cgroups [group]) ⊆ self.signals.keys := by
        intro other kept
        rw [List.mem_singleton.mp (List.mem_filter.mp kept).1]
        exact known
      apply (signalLoops_yields valid now within parents).mono
      intro after held
      obtain ⟨reached, stored, grows⟩ := held
      refine ⟨reached, fun registered => stored group (by simp) name ?_ registered, grows⟩
      obtain ⟨stage, found, member⟩ := registered
      refine List.mem_filter.mpr ⟨by simp, ?_⟩
      rw [found]
      exact overlaps_single.mpr member

theorem runSignals_yields (valid : self.Validated rank) (configured : self.Configured)
    (now : self.Consistent run ∧ self.Ready run) :
    Yields (fun after => self.Consistent after ∧ self.Ready after ∧ ∀ name group,
          self.Registered (.signal name) group → (after.value (.signal name) group).isSome)
      (fun raised => raised.error.IsCallback)
      (self.runSignals self.depth none none false run) := by
  rw [depth, runSignals_succ rfl rfl]
  have parents : ∀ group ∈ self.contractGroups, ∀ name ∈ (self.signals.keys.filter fun name =>
      (self.signals.get? name).any fun stage => overlaps stage.cgroups self.contractGroups),
      ∀ stage, self.signals.get? name = some stage → ∀ parent ∈ stage.signalDependencies,
        self.NestedSignal (fun names groups =>
          self.runSignals self.stageNodes.length (some names) (some groups) false) parent group := by
    intro group chosen name _ stage found parent depends
    obtain ⟨less, other, stored, _⟩ := valid.signals name stage found parent depends
    exact runSignals_nested valid chosen (OrderedDict.mem_keys_of_get? stored)
      (less.trans_le (Nat.le_of_lt_succ (valid.signalRank name stage found)))
  apply (signalLoops_yields valid now (fun _ kept => (List.mem_filter.mp kept).1) parents).mono
  intro after held
  obtain ⟨⟨consistent, ready⟩, stored, _⟩ := held
  refine ⟨consistent, ready, fun name group registered => ?_⟩
  obtain ⟨stage, found, member⟩ := registered
  have within := (configured.signals name stage found).2
  refine stored group (within member) name ?_ ⟨stage, found, member⟩
  refine List.mem_filter.mpr ⟨OrderedDict.mem_keys_of_get? found, ?_⟩
  rw [found]
  exact List.any_eq_true.mpr ⟨group, within member, decide_eq_true member⟩

/-! ## Both -/

/-- Every indicator is registered for every configured group. -/
def IndicatorsCoverGroups (pipeline : Pipeline W A) : Prop :=
  ∀ name stage, pipeline.indicators.get? name = some stage →
    pipeline.contractGroups ⊆ stage.cgroups

omit [NdArray A] in
theorem Consistent.evaluated (consistent : self.Consistent run)
    (all : ∀ stage group, self.Registered stage group → (run.value stage group).isSome) :
    self.Evaluated run.log where
  once := consistent.once
  called := by
    intro stage group
    constructor
    · intro member
      obtain ⟨call, listed, keyed⟩ := List.mem_map.mp member
      obtain ⟨rfl, rfl⟩ := Prod.ext_iff.mp keyed
      exact consistent.registered call listed
    · intro registered
      obtain ⟨value, found⟩ := Option.isSome_iff_exists.mp (all stage group registered)
      obtain ⟨call, listed, keyed, _⟩ := (consistent.stored stage group value).mp found
      exact List.mem_map.mpr ⟨call, listed, keyed⟩
  fed := consistent.fed

omit [NdArray A] in
theorem Consistent.registered_of_value (consistent : self.Consistent run) {stage : Stage}
    (stored : (run.value stage group).isSome) : self.Registered stage group := by
  obtain ⟨value, found⟩ := Option.isSome_iff_exists.mp stored
  obtain ⟨call, listed, keyed, _⟩ := (consistent.stored stage group value).mp found
  obtain ⟨rfl, rfl⟩ := Prod.ext_iff.mp keyed
  exact consistent.registered call listed

instance : NdArray (List Int) := ⟨fun _ => 1, List.length⟩

def oneBar : Grid := ⟨[0], by decide, by decide⟩

def twoGroups (registrations : List (Registration Unit (List Int))) :
    Pipeline Unit (List Int) :=
  (new ["IBM", "AAPL"] (by decide) (by decide) oneBar).registerAll registrations

def constant (value : Int) : IndicatorFunction Unit (List Int) :=
  fun world _ _ => (world, .ok (.array [value]))

/-- An indicator for both groups and a signal for one. -/
def signalForOne : Pipeline Unit (List Int) :=
  twoGroups [.indicator "price" (constant 100) none none,
    .signal "entry" (fun world _ indicators _ =>
      (world, .ok (.array ((indicators "price").getD [])))) (some ["AAPL"]) (some ["price"]) none]

def returns (pipeline : Pipeline Unit (List Int)) : Bool :=
  match pipeline.runStages () with
  | .ok _ => true
  | .error _ => false

theorem quiet_of_returns {pipeline : Pipeline Unit (List Int)} (ran : returns pipeline = true) :
    ∀ raised, pipeline.runStages () = .error raised → ¬ raised.error.IsCallback := by
  intro raised failed
  rw [returns, failed] at ran
  cases ran

/-- An indicator for one of the groups. -/
def indicatorForOne : Pipeline Unit (List Int) :=
  twoGroups [.indicator "price" (constant 100) (some ["IBM"]) none]

end Pipeline

end Gambit
