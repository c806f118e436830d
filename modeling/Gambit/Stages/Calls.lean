import Gambit.Stages.Validation

/-!
# Calls of stages

A run keeps its stored values and its log in step: what is stored for a stage
and a group is what the one call for them returned, and a call is given what the
calls before it returned.
-/

set_option autoImplicit false

namespace Gambit

open Raising

variable {W A : Type}

/-! ## The log and the stored values -/

namespace StageRun

/-- The stored value of a stage for a group. -/
def value (run : StageRun W A) : Stage → String → Option A
  | .indicator name, group => run.indicatorValues group name
  | .signal name, group => run.signalValues group name

/-- What is stored stays stored. -/
def Grows (before after : StageRun W A) : Prop :=
  ∀ stage group, (before.value stage group).isSome → (after.value stage group).isSome

theorem Grows.refl (run : StageRun W A) : Grows run run := fun _ _ stored => stored

theorem Grows.trans {first second third : StageRun W A} (before : Grows first second)
    (after : Grows second third) : Grows first third :=
  fun stage group stored => after stage group (before stage group stored)

end StageRun

def StageCall.key (call : StageCall A) : Stage × String := (call.stage, call.contractGroup)

/-- The values are those that earlier calls for the group returned for the named
stages, and no others. -/
def Results (front : List (StageCall A)) (group : String) (kind : String → Stage)
    (names : List String) (values : SimpleNamespace A) : Prop :=
  ∀ name, (name ∈ names → ∃ earlier ∈ front, earlier.key = (kind name, group) ∧
      values name = some earlier.result) ∧
    (name ∉ names → values name = none)

namespace Pipeline

variable (self : Pipeline W A)

def Registered : Stage → String → Prop
  | .indicator name, group =>
      ∃ stage, self.indicators.get? name = some stage ∧ group ∈ stage.cgroups
  | .signal name, group =>
      ∃ stage, self.signals.get? name = some stage ∧ group ∈ stage.cgroups

/-- A call was given the results of its dependencies from the calls before it. -/
def Fed (front : List (StageCall A)) (call : StageCall A) : Prop :=
  match call.stage with
  | .indicator name => ∃ stage, self.indicators.get? name = some stage ∧
      Results front call.contractGroup .indicator [] call.indicatorValues ∧
      Results front call.contractGroup .indicator stage.dependencies call.parentValues
  | .signal name => ∃ stage, self.signals.get? name = some stage ∧
      Results front call.contractGroup .indicator stage.indicatorDependencies
        call.indicatorValues ∧
      Results front call.contractGroup .signal stage.signalDependencies call.parentValues

/-- Every registered pair is called once, no other pair is called, and every call
was given what it depends on. -/
structure Evaluated (pipeline : Pipeline W A) (log : List (StageCall A)) : Prop where
  once : (log.map StageCall.key).Nodup
  called : ∀ stage group, (stage, group) ∈ log.map StageCall.key ↔
    pipeline.Registered stage group
  fed : ∀ front call, front ++ [call] <+: log → pipeline.Fed front call

/-- The stored values are the results of the calls so far. -/
structure Consistent (pipeline : Pipeline W A) (run : StageRun W A) : Prop where
  once : (run.log.map StageCall.key).Nodup
  registered : ∀ call ∈ run.log, pipeline.Registered call.stage call.contractGroup
  fed : ∀ front call, front ++ [call] <+: run.log → pipeline.Fed front call
  stored : ∀ stage group value, run.value stage group = some value ↔
    ∃ call ∈ run.log, call.key = (stage, group) ∧ call.result = value

variable {self} {run after : StageRun W A} {call : StageCall A}

theorem fresh_consistent (world : W) : self.Consistent (.fresh world) where
  once := List.nodup_nil
  registered := fun _ member => (List.not_mem_nil member).elim
  fed := fun front call start => by
    have none := List.prefix_nil.mp start
    simp at none
  stored := fun stage group value => by
    cases stage <;> simp [StageRun.fresh, StageRun.value, SimpleNamespace.empty]

theorem Consistent.called (consistent : self.Consistent run)
    (new : run.value call.stage call.contractGroup = none)
    (registered : self.Registered call.stage call.contractGroup) (fed : self.Fed run.log call)
    (log : after.log = run.log ++ [call])
    (values : ∀ stage group, after.value stage group =
      if (stage, group) = call.key then some call.result else run.value stage group) :
    self.Consistent after where
  once := by
    rw [log, List.map_append, List.map_singleton]
    refine List.nodup_append.mpr ⟨consistent.once, List.nodup_singleton _, ?_⟩
    intro key member other single same
    rw [List.mem_singleton.mp single] at same
    obtain ⟨earlier, listed, keyed⟩ := List.mem_map.mp member
    have stored := (consistent.stored call.stage call.contractGroup earlier.result).mpr
      ⟨earlier, listed, keyed.trans same, rfl⟩
    rw [new] at stored
    cases stored
  registered := by
    intro other member
    rw [log] at member
    rcases List.mem_append.mp member with old | single
    · exact consistent.registered other old
    · rw [List.mem_singleton.mp single]
      exact registered
  fed := by
    intro front other start
    rw [log] at start
    rcases List.prefix_concat_iff.mp start with whole | inside
    · obtain ⟨rfl, same⟩ := List.append_inj' whole rfl
      cases same
      exact fed
    · exact consistent.fed front other inside
  stored := by
    intro stage group value
    rw [values, log]
    split
    · rename_i same
      constructor
      · intro result
        exact ⟨call, by simp, same.symm, Option.some.inj result⟩
      · rintro ⟨other, member, keyed, rfl⟩
        rcases List.mem_append.mp member with old | single
        · have stored := (consistent.stored stage group other.result).mpr ⟨other, old, keyed, rfl⟩
          simp only [StageCall.key, Prod.mk.injEq] at same
          rw [same.1, same.2, new] at stored
          cases stored
        · rw [List.mem_singleton.mp single]
    · rename_i differs
      rw [consistent.stored]
      constructor
      · rintro ⟨other, member, keyed⟩
        exact ⟨other, List.mem_append_left _ member, keyed⟩
      · rintro ⟨other, member, keyed, result⟩
        rcases List.mem_append.mp member with old | single
        · exact ⟨other, old, keyed, result⟩
        · rw [List.mem_singleton.mp single] at keyed
          exact (differs keyed.symm).elim

end Pipeline

/-! ## One call -/

def StageError.IsCallback : StageError → Prop
  | .callback _ => True
  | _ => False

theorem SimpleNamespace.copied_yields (values : SimpleNamespace A) (names : List String) :
    Yields (fun copy => ∀ name,
        (name ∈ names → copy name = values name ∧ (values name).isSome) ∧
        (name ∉ names → copy name = none))
      (fun _ => ∃ name ∈ names, values name = none) (values.copied names) := by
  have along (start : SimpleNamespace A) : Yields (fun copy => ∀ name,
        (name ∈ names → copy name = values name ∧ (values name).isSome) ∧
        (name ∉ names → copy name = start name))
      (fun _ => ∃ name ∈ names, values name = none)
      (names.foldlM (values.copyOne) start) := by
    induction names generalizing start with
    | nil => exact fun name => ⟨fun member => (List.not_mem_nil member).elim, fun _ => rfl⟩
    | cons first rest ih =>
        rw [List.foldlM_cons, SimpleNamespace.copyOne]
        cases found : values first with
        | none => exact ⟨first, List.mem_cons_self .., found⟩
        | some value =>
            apply (ih (start.setattr first value)).weaken
            · intro copy later name
              obtain ⟨inside, outside⟩ := later name
              by_cases again : name ∈ rest
              · exact ⟨fun _ => inside again, fun absent =>
                  (absent (List.mem_cons_of_mem _ again)).elim⟩
              · have kept := outside again
                rw [SimpleNamespace.setattr, Function.update_apply] at kept
                by_cases same : name = first
                · subst same
                  rw [if_pos rfl] at kept
                  refine ⟨fun _ => ⟨kept.trans found.symm, ?_⟩, fun absent =>
                    (absent (List.mem_cons_self ..)).elim⟩
                  rw [found]
                  rfl
                · rw [if_neg same] at kept
                  refine ⟨fun member => ?_, fun _ => kept⟩
                  rcases List.mem_cons.mp member with first | inside
                  · exact (same first).elim
                  · exact (again inside).elim
            · intro raised absent
              obtain ⟨name, member, none⟩ := absent
              exact ⟨name, List.mem_cons_of_mem _ member, none⟩
  exact along .empty

namespace Pipeline

variable {self : Pipeline W A} {run after : StageRun W A} {name group : String}

/-- What was copied are the results of the calls that stored it. -/
theorem Consistent.results (consistent : self.Consistent run) {kind : String → Stage}
    {names : List String} {values copy : SimpleNamespace A}
    (kept : ∀ name, values name = run.value (kind name) group)
    (copied : ∀ name, (name ∈ names → copy name = values name ∧ (values name).isSome) ∧
      (name ∉ names → copy name = none)) : Results run.log group kind names copy := by
  intro name
  refine ⟨fun member => ?_, (copied name).2⟩
  obtain ⟨same, present⟩ := (copied name).1 member
  obtain ⟨value, found⟩ := Option.isSome_iff_exists.mp present
  rw [found] at same
  rw [kept] at found
  obtain ⟨call, listed, keyed, result⟩ := (consistent.stored _ _ _).mp found
  exact ⟨call, listed, keyed, result ▸ same⟩

theorem value_keepIndicator (call : StageCall A) (stage : Stage) (other : String) :
    (run.keepIndicator name call).value stage other =
      if (stage, other) = (.indicator name, call.contractGroup) then some call.result
      else run.value stage other := by
  cases stage with
  | signal signal => simp [StageRun.keepIndicator, StageRun.value]
  | indicator indicator =>
      simp only [StageRun.keepIndicator, StageRun.value, Function.update_apply,
        SimpleNamespace.setattr, Prod.mk.injEq, Stage.indicator.injEq]
      by_cases here : other = call.contractGroup
      · simp [here, Function.update_apply]
      · simp [here]

theorem value_keepSignal (call : StageCall A) (stage : Stage) (other : String) :
    (run.keepSignal name call).value stage other =
      if (stage, other) = (.signal name, call.contractGroup) then some call.result
      else run.value stage other := by
  cases stage with
  | indicator indicator => simp [StageRun.keepSignal, StageRun.value]
  | signal signal =>
      simp only [StageRun.keepSignal, StageRun.value, Function.update_apply,
        SimpleNamespace.setattr, Prod.mk.injEq, Stage.signal.injEq]
      by_cases here : other = call.contractGroup
      · simp [here, Function.update_apply]
      · simp [here]

/-- The run goes on from `run` with the value of a stage for a group. -/
structure Calculated (pipeline : Pipeline W A) (run : StageRun W A) (stage : Stage)
    (group : String) (after : StageRun W A) : Prop where
  consistent : pipeline.Consistent after
  value : (after.value stage group).isSome
  grows : run.Grows after

theorem Consistent.calculated (consistent : self.Consistent run) {before : StageRun W A}
    (call : StageCall A) (new : run.value call.stage call.contractGroup = none)
    (registered : self.Registered call.stage call.contractGroup) (fed : self.Fed run.log call)
    (log : before.log = run.log) (values : before.value = run.value)
    (afterLog : after.log = before.log ++ [call])
    (afterValues : ∀ stage group, after.value stage group =
      if (stage, group) = call.key then some call.result else before.value stage group) :
    self.Calculated run call.stage call.contractGroup after where
  consistent := by
    apply consistent.called new registered fed
    · rw [afterLog, log]
    · intro stage group
      rw [afterValues, values]
  value := by
    rw [afterValues, StageCall.key, if_pos rfl]
    rfl
  grows := by
    intro stage group stored
    rw [afterValues, values]
    split
    · rfl
    · exact stored

variable {rank : String → Nat}

theorem Validated.registered (valid : self.Validated rank) {stage : IndicatorStage W A}
    (found : self.indicators.get? name = some stage) (member : group ∈ stage.cgroups)
    {parent : String} (depends : parent ∈ stage.dependencies) :
    self.Registered (.indicator parent) group := by
  obtain ⟨_, other, stored, covered⟩ := valid.indicators name stage found parent depends
  exact ⟨other, stored, covered member⟩

variable [NdArray A]

theorem returned_yields {message : String} {outcome : W × Except Exn (StageResult A)} :
    Yields (fun after => after.1.log = run.log ∧ after.1.value = run.value)
      (fun raised : Raised StageError (StageRun W A) => raised.error.IsCallback)
      (self.returned message outcome run) := by
  unfold returned
  split
  · refine ⟨rfl, ?_⟩
    funext stage other
    cases stage <;> rfl
  · trivial

theorem callIndicator_yields {stage : IndicatorStage W A} (consistent : self.Consistent run)
    (found : self.indicators.get? name = some stage)
    (new : run.value (.indicator name) group = none) :
    Yields (self.Calculated run (.indicator name) group)
      (fun raised => raised.error.IsCallback ∨ group ∉ stage.cgroups ∨
        ∃ parent ∈ stage.dependencies, run.value (.indicator parent) group = none)
      (self.callIndicator stage name group run) := by
  unfold callIndicator
  cases chosen : stage.functions group with
  | none =>
      refine .inr (.inl fun member => ?_)
      have present := (stage.keyed group).mpr member
      rw [chosen] at present
      cases present
  | some indicatorFunction =>
      have member := (stage.keyed group).mp (by rw [chosen]; rfl)
      have parents := ((run.indicatorValues group).copied_yields stage.dependencies).raiseIn run
      apply (parents.weaken (fun _ copied => copied) fun _ absent => .inr (.inr absent)).bind
      intro parentValues copied
      apply (returned_yields.weaken (fun _ returned => returned) fun _ raised => .inl raised).bind
      intro before returned
      have results : Results run.log group .indicator stage.dependencies parentValues :=
        consistent.results (fun _ => rfl) copied
      have none : Results run.log group .indicator [] (.empty : SimpleNamespace A) :=
        fun _ => ⟨fun inside => (List.not_mem_nil inside).elim, fun _ => rfl⟩
      exact consistent.calculated ⟨.indicator name, group, .empty, parentValues, before.2⟩ new
        ⟨stage, found, member⟩ ⟨stage, found, none, results⟩ returned.1 returned.2 rfl
        (value_keepIndicator _)

theorem callSignal_yields {stage : SignalStage W A} (consistent : self.Consistent run)
    (found : self.signals.get? name = some stage) (member : group ∈ stage.cgroups)
    (new : run.value (.signal name) group = none)
    (indicators : ∀ parent ∈ stage.indicatorDependencies,
      (run.value (.indicator parent) group).isSome)
    (signals : ∀ parent ∈ stage.signalDependencies, (run.value (.signal parent) group).isSome) :
    Yields (self.Calculated run (.signal name) group) (fun raised => raised.error.IsCallback)
      (self.callSignal stage name group run) := by
  unfold callSignal
  have absent (kind : String → Stage) {names : List String}
      (present : ∀ parent ∈ names, (run.value (kind parent) group).isSome)
      (missing : ∃ parent ∈ names, run.value (kind parent) group = none) : False := by
    obtain ⟨parent, inside, none⟩ := missing
    have there := present parent inside
    rw [none] at there
    cases there
  cases chosen : stage.functions group with
  | none =>
      have present := (stage.keyed group).mpr member
      rw [chosen] at present
      cases present
  | some signalFunction =>
      have parents := ((run.signalValues group).copied_yields stage.signalDependencies).raiseIn run
      apply (parents.weaken (fun _ copied => copied) fun _ missing =>
        (absent .signal signals missing).elim).bind
      intro parentValues copiedParents
      have inputs :=
        ((run.indicatorValues group).copied_yields stage.indicatorDependencies).raiseIn run
      apply (inputs.weaken (fun _ copied => copied) fun _ missing =>
        (absent .indicator indicators missing).elim).bind
      intro indicatorValues copiedInputs
      apply returned_yields.bind
      intro before returned
      have fromIndicators :
          Results run.log group .indicator stage.indicatorDependencies indicatorValues :=
        consistent.results (fun _ => rfl) copiedInputs
      have fromSignals : Results run.log group .signal stage.signalDependencies parentValues :=
        consistent.results (fun _ => rfl) copiedParents
      exact consistent.calculated
        ⟨.signal name, group, indicatorValues, parentValues, before.2⟩ new ⟨stage, found, member⟩
        ⟨stage, found, fromIndicators, fromSignals⟩ returned.1 returned.2 rfl
        (value_keepSignal _)

end Pipeline

end Gambit
