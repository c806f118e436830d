import Gambit.Accounting.Boundaries
import Gambit.Lib.OrderedDict
import Gambit.Lib.TopologicalOrder

/-!
# The stage pipeline of a strategy

Indicators and signals as registered, the stage graph with its validation, and
the two loops that calculate the values.  Callbacks are arbitrary functions of
their arguments and of a world they share; a run logs the calls that returned
values.
-/

set_option autoImplicit false

namespace Gambit

open Raising

inductive StageError where
  | valueError (message : String)
  | keyError
  | attributeError
  | recursionError
  /-- From a callback or from the validation of what it returned. -/
  | callback (raised : Exn)
deriving DecidableEq, Repr

/-! ## Values -/

/-- What stage validation asks of an array. -/
class NdArray (A : Type) where
  ndim : A → Nat
  len : A → Nat

inductive StageResult (A : Type) where
  | array (values : A)
  | other

/-- `validate_stage_values` -/
def validateStageValues {A : Type} [NdArray A] (result : StageResult A) (expectedLength : Nat) :
    Except Exn A :=
  match result with
  | .other => .error (.typeError " callback must return a NumPy array or Polars Series")
  | .array values =>
      if NdArray.ndim values ≠ 1 then
        .error (.valueError " callback must return a one-dimensional array")
      else if NdArray.len values ≠ expectedLength then
        .error (.valueError " callback returned values for strategy timestamps")
      else .ok values

/-- The attributes of a namespace. -/
abbrev SimpleNamespace (A : Type) := String → Option A

namespace SimpleNamespace

variable {A : Type}

def empty : SimpleNamespace A := fun _ => none

def setattr (self : SimpleNamespace A) (name : String) (value : A) : SimpleNamespace A :=
  Function.update self name (some value)

def hasattr (self : SimpleNamespace A) (name : String) : Bool := (self name).isSome

/-- `setattr(copy, name, getattr(self, name))` -/
def copyOne (self copy : SimpleNamespace A) (name : String) :
    Except StageError (SimpleNamespace A) :=
  match self name with
  | some value => .ok (copy.setattr name value)
  | none => .error .attributeError

/-- A new namespace with some attributes of another. -/
def copied (self : SimpleNamespace A) (names : List String) :
    Except StageError (SimpleNamespace A) :=
  names.foldlM self.copyOne empty

end SimpleNamespace

/-! ## Registration -/

variable (W A : Type)

abbrev IndicatorFunction := W → String → SimpleNamespace A → W × Except Exn (StageResult A)

/-- The indicator values come before those of the parent signals. -/
abbrev SignalFunction :=
  W → String → SimpleNamespace A → SimpleNamespace A → W × Except Exn (StageResult A)

structure IndicatorStage where
  dependencies : List String
  cgroups : List String
  functions : String → Option (IndicatorFunction W A)
  keyed : ∀ group, (functions group).isSome ↔ group ∈ cgroups

structure SignalStage where
  indicatorDependencies : List String
  signalDependencies : List String
  cgroups : List String
  functions : String → Option (SignalFunction W A)
  keyed : ∀ group, (functions group).isSome ↔ group ∈ cgroups

/-- The groups are those `Account` accepts; the dictionaries with the keys of
`indicators` or `signals` are kept as one each. -/
structure Pipeline where
  contractGroups : List String
  groupsNonempty : contractGroups ≠ []
  groupsUnique : contractGroups.Nodup
  timestamps : Grid
  indicators : OrderedDict String (IndicatorStage W A)
  signals : OrderedDict String (SignalStage W A)
  /-- `rule_names`, with the signal of each. -/
  rules : List (String × String)
  marketSims : Nat

variable {W A : Type}

def validatedStageGroups (contractGroups : Option (List String)) (configuredGroups : List String) :
    Except StageError (List String) :=
  match contractGroups with
  | none => .ok configuredGroups
  | some groups =>
      if groups = [] then .error (.valueError " requires at least one contract group")
      else if groups.any (· ∉ configuredGroups) then
        .error (.valueError "contract group is not configured for this strategy")
      else .ok groups

/-- Equal names are kept once, in the order of their first occurrences. -/
def validatedStageNames (names : Option (List String)) (registeredNames : List String) :
    Except StageError (List String) :=
  match names with
  | none => .ok registeredNames
  | some names =>
      if names.any (· ∉ registeredNames) then .error (.valueError "unknown names: ")
      else .ok names.eraseDups

/-- The functions of a stage when a function is registered for further groups. -/
def registered {F : Type} (functions : String → Option F) (function : F) (groups : List String)
    (group : String) : Option F :=
  if group ∈ groups then some function else functions group

theorem registered_keyed {F : Type} {functions : String → Option F} {cgroups : List String}
    (keyed : ∀ group, (functions group).isSome ↔ group ∈ cgroups) (function : F)
    (groups : List String) (group : String) :
    (registered functions function groups group).isSome ↔ group ∈ cgroups ++ groups := by
  rw [registered, List.mem_append]
  split
  · rename_i inside
    simp [inside]
  · rename_i outside
    simp [outside, keyed group]

namespace Pipeline

def new (contractGroups : List String) (groupsNonempty : contractGroups ≠ [])
    (groupsUnique : contractGroups.Nodup) (timestamps : Grid) : Pipeline W A :=
  ⟨contractGroups, groupsNonempty, groupsUnique, timestamps, .empty, .empty, [], 0⟩

def addIndicator (self : Pipeline W A) (name : String) (indicator : IndicatorFunction W A)
    (contractGroups : Option (List String)) (dependsOn : Option (List String)) :
    Except StageError (Pipeline W A) := do
  let groups ← validatedStageGroups contractGroups self.contractGroups
  let dependencies := dependsOn.getD []
  let existing := (self.indicators.get? name).getD ⟨dependencies, [], fun _ => none, by simp⟩
  if groups.any (· ∈ existing.cgroups) then
    .error (.valueError "indicator is already registered for one or more contract groups")
  else if existing.dependencies ≠ dependencies then
    .error (.valueError "indicator registrations must declare identical dependencies")
  else
    .ok { self with
      indicators := self.indicators.set name {
        dependencies := dependencies
        cgroups := existing.cgroups ++ groups
        functions := registered existing.functions indicator groups
        keyed := registered_keyed existing.keyed indicator groups } }

def addSignal (self : Pipeline W A) (name : String) (signalFunction : SignalFunction W A)
    (contractGroups : Option (List String)) (dependsOnIndicators dependsOnSignals :
      Option (List String)) : Except StageError (Pipeline W A) := do
  let groups ← validatedStageGroups contractGroups self.contractGroups
  let indicatorDependencies := dependsOnIndicators.getD []
  let signalDependencies := dependsOnSignals.getD []
  let existing := (self.signals.get? name).getD
    ⟨indicatorDependencies, signalDependencies, [], fun _ => none, by simp⟩
  if groups.any (· ∈ existing.cgroups) then
    .error (.valueError "signal is already registered for one or more contract groups")
  else if existing.indicatorDependencies ≠ indicatorDependencies then
    .error (.valueError "signal registrations must declare identical indicator dependencies")
  else if existing.signalDependencies ≠ signalDependencies then
    .error (.valueError "signal registrations must declare identical signal dependencies")
  else
    .ok { self with
      signals := self.signals.set name {
        indicatorDependencies := indicatorDependencies
        signalDependencies := signalDependencies
        cgroups := existing.cgroups ++ groups
        functions := registered existing.functions signalFunction groups
        keyed := registered_keyed existing.keyed signalFunction groups } }

/-- `add_rule`, of which the stage graph sees the name and the signal. -/
def addRule (self : Pipeline W A) (name signalName : String) :
    Except StageError (Pipeline W A) :=
  if name = "" then .error (.valueError "rule name must be a non-empty string")
  else if name ∈ self.rules.map Prod.fst then
    .error (.valueError "rule is already registered")
  else if signalName = "" then
    .error (.valueError "rule signal_name must be a non-empty string")
  else .ok { self with rules := self.rules ++ [(name, signalName)] }

def addMarketSim (self : Pipeline W A) : Pipeline W A :=
  { self with marketSims := self.marketSims + 1 }

end Pipeline

inductive Registration (W A : Type) where
  | indicator (name : String) (indicator : IndicatorFunction W A)
      (contractGroups dependsOn : Option (List String))
  | signal (name : String) (signalFunction : SignalFunction W A)
      (contractGroups dependsOnIndicators dependsOnSignals : Option (List String))
  | rule (name signalName : String)
  | marketSim

namespace Pipeline

variable (self : Pipeline W A)

def register : Registration W A → Except StageError (Pipeline W A)
  | .indicator name indicator contractGroups dependsOn =>
      self.addIndicator name indicator contractGroups dependsOn
  | .signal name signalFunction contractGroups dependsOnIndicators dependsOnSignals =>
      self.addSignal name signalFunction contractGroups dependsOnIndicators dependsOnSignals
  | .rule name signalName => self.addRule name signalName
  | .marketSim => .ok self.addMarketSim

/-- A registration that raises leaves the strategy as it was. -/
def registerAll (registrations : List (Registration W A)) : Pipeline W A :=
  registrations.foldl (fun pipeline registration =>
    (pipeline.register registration).toOption.getD pipeline) self

end Pipeline

/-! ## The stage graph -/

structure StageNode where
  name : String
  kind : String
  dependencies : List String
deriving DecidableEq

structure StageGraph where
  nodes : List StageNode
  unique : (nodes.map StageNode.name).Nodup

namespace StageGraph

def new (nodes : List StageNode) : Except StageError StageGraph :=
  if unique : (nodes.map StageNode.name).Nodup then .ok ⟨nodes, unique⟩
  else .error (.valueError "stage names must be unique")

def names (self : StageGraph) : List String := self.nodes.map StageNode.name

def dependencies (self : StageGraph) (name : String) : List String :=
  (self.nodes.find? fun node => node.name = name).elim [] StageNode.dependencies

def topologicalOrder (self : StageGraph) : Except StageError (List String) :=
  if self.nodes.any fun node => node.dependencies.any (· ∉ self.names) then
    .error (.valueError "stage dependencies are missing: ")
  else
    match TopologicalOrder.sort self.dependencies (self.nodes.length + 1) self.names with
    | .ok order => .ok order
    | .error (.cycle _) => .error (.valueError "stage dependency cycle: ")
    | .error .tooDeep => .error .recursionError

end StageGraph

def indicatorNode (name : String) : String := "indicator:" ++ name

def signalNode (name : String) : String := "signal:" ++ name

def ruleNode (name : String) : String := "rule:" ++ name

def executionNode (index : Nat) : String := "execution:" ++ toString index

/-- `_require_group_coverage` -/
def requireGroupCoverage (consumerGroups dependencyGroups : List String) :
    Except StageError Unit :=
  if consumerGroups.any (· ∉ dependencyGroups) then
    .error (.valueError " depends on , which is not registered for contract group ")
  else .ok ()

/-- A dictionary indexed by a key. -/
def lookup {V : Type} (dict : OrderedDict String V) (name : String) : Except StageError V :=
  match dict.get? name with
  | some value => .ok value
  | none => .error .keyError

namespace Pipeline

variable (self : Pipeline W A)

def stageNodes : List StageNode :=
  let ruleDependencies := self.rules.map fun rule => ruleNode rule.1
  let executions := (List.range self.marketSims).map executionNode
  (self.indicators.items.map fun item =>
    ⟨indicatorNode item.1, "indicator", item.2.dependencies.map indicatorNode⟩) ++
  (self.signals.items.map fun item =>
    ⟨signalNode item.1, "signal", item.2.indicatorDependencies.map indicatorNode ++
      item.2.signalDependencies.map signalNode⟩) ++
  (self.rules.map fun rule => ⟨ruleNode rule.1, "rule", [signalNode rule.2]⟩) ++
  (executions.map fun execution => ⟨execution, "execution", ruleDependencies⟩) ++
  [⟨"accounting:main", "accounting",
    if executions = [] then ruleDependencies else executions⟩]

def stageGraph : Except StageError StageGraph := StageGraph.new self.stageNodes

def validateDependencyScopes : Except StageError Unit := do
  self.indicators.items.forM fun item => item.2.dependencies.forM fun dependency => do
    requireGroupCoverage item.2.cgroups (← lookup self.indicators dependency).cgroups
  self.signals.items.forM fun item => do
    item.2.indicatorDependencies.forM fun dependency => do
      requireGroupCoverage item.2.cgroups (← lookup self.indicators dependency).cgroups
    item.2.signalDependencies.forM fun dependency => do
      requireGroupCoverage item.2.cgroups (← lookup self.signals dependency).cgroups

def validateStageGraph : Except StageError (List String) := do
  let order ← (← self.stageGraph).topologicalOrder
  self.validateDependencyScopes
  .ok order

end Pipeline

/-! ## Running the stages -/

inductive Stage where
  | indicator (name : String)
  | signal (name : String)
deriving DecidableEq, Repr

/-- A call with what it was given and what it returned.  An indicator is given
the parent values only. -/
structure StageCall (A : Type) where
  stage : Stage
  contractGroup : String
  indicatorValues : SimpleNamespace A
  parentValues : SimpleNamespace A
  result : A

/-- The values are default dictionaries: a group without any has the empty namespace. -/
structure StageRun (W A : Type) where
  world : W
  indicatorValues : String → SimpleNamespace A
  signalValues : String → SimpleNamespace A
  log : List (StageCall A)

abbrev StageStep (W A : Type) := Step StageError (StageRun W A)

namespace StageRun

def fresh (world : W) : StageRun W A := ⟨world, fun _ => .empty, fun _ => .empty, []⟩

def keepIndicator (name : String) (call : StageCall A) (self : StageRun W A) : StageRun W A :=
  { self with
    indicatorValues := Function.update self.indicatorValues call.contractGroup
      ((self.indicatorValues call.contractGroup).setattr name call.result)
    log := self.log ++ [call] }

def keepSignal (name : String) (call : StageCall A) (self : StageRun W A) : StageRun W A :=
  { self with
    signalValues := Function.update self.signalValues call.contractGroup
      ((self.signalValues call.contractGroup).setattr name call.result)
    log := self.log ++ [call] }

end StageRun

namespace Pipeline

variable (self : Pipeline W A) [NdArray A]

/-- What a callback returns or raises, with its result validated. -/
def returned (message : String) (outcome : W × Except Exn (StageResult A)) (run : StageRun W A) :
    Except (Raised StageError (StageRun W A)) (StageRun W A × A) :=
  match outcome.2 >>= fun result =>
      validateStageValues result self.timestamps.timestamps.length with
  | .ok values => .ok ({ run with world := outcome.1 }, values)
  | .error raised =>
      let wrapped := if raised.isInterrupt then raised else .callbackError message raised
      .error ⟨.callback wrapped, { run with world := outcome.1 }⟩

/-- The call of an indicator whose parents are there. -/
def callIndicator (stage : IndicatorStage W A) (name group : String) : StageStep W A := fun run =>
  match stage.functions group with
  | none => .error ⟨.keyError, run⟩
  | some indicatorFunction => do
      let parentValues ← raiseIn run ((run.indicatorValues group).copied stage.dependencies)
      let (run, values) ← self.returned "indicator callback failed for contract group "
        (indicatorFunction run.world group parentValues) run
      .ok (run.keepIndicator name ⟨.indicator name, group, .empty, parentValues, values⟩)

/-- The body of the loop of `run_indicators`; `again` is the nested call. -/
def runIndicator (again : List String → List String → StageStep W A) (group name : String) :
    StageStep W A := fun run => do
  let stage ← raiseIn run (lookup self.indicators name)
  let run ← stage.dependencies.foldlM (fun run parent =>
    if (run.indicatorValues group).hasattr parent then .ok run
    else again [parent] [group] run) run
  if (run.indicatorValues group).hasattr name then .ok run
  else self.callIndicator stage name group run

def overlaps (cgroups groups : List String) : Bool := groups.any (· ∈ cgroups)

/-- `run_indicators`, of at most the given depth of nested calls. -/
def runIndicators : Nat → Option (List String) → Option (List String) → Bool → StageStep W A
  | 0, _, _, _, run => .error ⟨.recursionError, run⟩
  | depth + 1, indicatorNames, contractGroups, clearAll, run => do
      let names ← raiseIn run (validatedStageNames indicatorNames self.indicators.keys)
      let groups ← raiseIn run (validatedStageGroups contractGroups self.contractGroups)
      let run := if clearAll then { run with indicatorValues := fun _ => .empty } else run
      let names := names.filter fun name =>
        (self.indicators.get? name).any fun stage => overlaps stage.cgroups groups
      groups.foldlM (fun run group => names.foldlM (fun run name =>
        self.runIndicator (fun names groups => runIndicators depth (some names) (some groups) false)
          group name run) run) run

/-- The call of a signal whose parents are there. -/
def callSignal (stage : SignalStage W A) (name group : String) : StageStep W A := fun run =>
  match stage.functions group with
  | none => .error ⟨.keyError, run⟩
  | some signalFunction => do
      let parentValues ← raiseIn run ((run.signalValues group).copied stage.signalDependencies)
      let indicatorValues ←
        raiseIn run ((run.indicatorValues group).copied stage.indicatorDependencies)
      let (run, values) ← self.returned "signal callback failed for contract group "
        (signalFunction run.world group indicatorValues parentValues) run
      .ok (run.keepSignal name ⟨.signal name, group, indicatorValues, parentValues, values⟩)

/-- The body of the loop of `run_signals`, which skips a group the signal is not
registered for. -/
def runSignal (again : List String → List String → StageStep W A) (group name : String) :
    StageStep W A := fun run => do
  let stage ← raiseIn run (lookup self.signals name)
  if group ∉ stage.cgroups then .ok run
  else do
    let run ← stage.signalDependencies.foldlM (fun run parent =>
      if (run.signalValues group).hasattr parent then .ok run
      else again [parent] [group] run) run
    if (run.signalValues group).hasattr name then .ok run
    else self.callSignal stage name group run

def runSignals : Nat → Option (List String) → Option (List String) → Bool → StageStep W A
  | 0, _, _, _, run => .error ⟨.recursionError, run⟩
  | depth + 1, signalNames, contractGroups, clearAll, run => do
      let names ← raiseIn run (validatedStageNames signalNames self.signals.keys)
      let groups ← raiseIn run (validatedStageGroups contractGroups self.contractGroups)
      let run := if clearAll then { run with signalValues := fun _ => .empty } else run
      let names := names.filter fun name =>
        (self.signals.get? name).any fun stage => overlaps stage.cgroups groups
      groups.foldlM (fun run group => names.foldlM (fun run name =>
        self.runSignal (fun names groups => runSignals depth (some names) (some groups) false)
          group name run) run) run

/-- No chain of nested calls is longer than the stage graph. -/
def depth : Nat := self.stageNodes.length + 1

/-- `run_indicators` and then `run_signals` on a strategy without values. -/
def runStages (world : W) : Except (Raised StageError (StageRun W A)) (StageRun W A) := do
  let run ← self.runIndicators self.depth none none false (.fresh world)
  self.runSignals self.depth none none false run

end Pipeline

end Gambit
