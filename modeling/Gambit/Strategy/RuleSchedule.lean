import Gambit.Stages.Pipeline
import Gambit.Strategy.Run

/-!
# The schedule of the rules

`_generate_order_iterations` blanks a copy of a signal outside the requested
dates and puts a rule into the bucket of every heartbeat at which the copy has
one of the rule's trigger values; `run_rules` goes through the buckets.  The
membership test of NumPy, element by element, is a parameter.
-/

set_option autoImplicit false

namespace Gambit

open Raising

/-! ## Signal arrays -/

inductive Floating where
  | nan
  | infinite (negative : Bool)
  | finite (value : ℚ)
deriving DecidableEq, Repr

inductive Element where
  | boolean (value : Bool)
  | integer (value : Int)
  | floating (value : Floating)
  | text (value : String)
deriving DecidableEq, Repr

/-- One-dimensional arrays by their dtype; strings have at most `itemsize` characters. -/
inductive SignalArray where
  | booleans (values : List Bool)
  | integers (values : List Int)
  | floats (values : List Floating)
  | strings (itemsize : Nat) (values : List String)
deriving DecidableEq, Repr

/-- `values[start:stop] = null` -/
def blank {α : Type} (start stop : Nat) (null : α) (values : List α) : List α :=
  values.mapIdx fun i value => if start ≤ i ∧ i < stop then null else value

namespace SignalArray

def length : SignalArray → Nat
  | .booleans values => values.length
  | .integers values => values.length
  | .floats values => values.length
  | .strings _ values => values.length

def element (i : Nat) : SignalArray → Option Element
  | .booleans values => values[i]?.map .boolean
  | .integers values => values[i]?.map .integer
  | .floats values => values[i]?.map .floating
  | .strings _ values => values[i]?.map .text

/-- What NaN becomes in an array of strings of the given size. -/
def nanText (itemsize : Nat) : String := String.ofList ("nan".toList.take itemsize)

/-- The null value is `False` in an array of booleans and NaN in any other. -/
def blanked (start stop : Nat) : SignalArray → Except Exn SignalArray
  | .booleans values => .ok (.booleans (blank start stop false values))
  | .integers _ => .error (.valueError "cannot convert float NaN to integer")
  | .floats values => .ok (.floats (blank start stop .nan values))
  | .strings itemsize values =>
      .ok (.strings itemsize (blank start stop (nanText itemsize) values))

/-- Blanking from and to the places of a date; `none` is NaT. -/
def blankedAt (date : Option Timestamp) (start stop : Timestamp → Nat) (self : SignalArray) :
    Except Exn SignalArray :=
  match date with
  | none => .ok self
  | some bound => self.blanked (start bound) (stop bound)

instance : NdArray SignalArray := ⟨fun _ => 1, length⟩

end SignalArray

/-! ## Buckets -/

structure SparseIterations (T : Type) where
  size : Nat
  buckets : OrderedDict Nat (List T)

namespace SparseIterations

variable {T : Type}

def new (size : Nat) : SparseIterations T := ⟨size, .empty⟩

def bucket (self : SparseIterations T) (index : Nat) : List T := (self.buckets.get? index).getD []

def appendAt (self : SparseIterations T) (index : Nat) (value : T) :
    Except Exn (SparseIterations T) :=
  if index < self.size then
    .ok { self with buckets := self.buckets.set index (self.bucket index ++ [value]) }
  else .error (.raised "IndexError" false)

end SparseIterations

/-! ## Rules and their signals -/

/-- A signal after `run_signals`: stage validation accepted its values. -/
structure Signal (length : Nat) where
  cgroups : List String
  values : String → SignalArray
  validated : ∀ group ∈ cgroups,
    validateStageValues (.array (values group)) length = .ok (values group)

/-- A rule is handed the blanked copy of its signal. -/
structure RegisteredRule (W T : Type) (length : Nat) where
  ruleFunction : SignalArray → W → Heap → Account → String → Nat → List OrderId →
    List AccountRead × CallbackRun W (Returned OrderId)
  signal : Signal length
  sigTrueValues : List T
  positionFilter : Option PositionFilter

structure RuleSetup (W T : Type) where
  setup : AccountSetup
  priceFunction : W → PriceFunction
  tradeLag : Nat
  marketSims : List (MarketSim W)
  riskPolicies : List (RiskPolicy W)
  runFinalCalc : Bool
  rules : OrderedDict String (RegisteredRule W T setup.timestamps.timestamps.length)

/-- An element of a bucket. -/
structure ScheduledRule (W : Type) where
  ruleName : String
  rule : Rule W

structure RuleCall where
  heartbeat : Nat
  ruleName : String
  contractGroup : String
deriving DecidableEq, Repr

def StageError.exn : StageError → Exn
  | .valueError message => .valueError message
  | .keyError => .keyError
  | .attributeError => .raised "AttributeError" false
  | .recursionError => .raised "RecursionError" false
  | .callback raised => raised

variable {W T : Type}

namespace RuleSetup

variable (isin : Element → List T → Bool) (self : RuleSetup W T)

def timestamps : List Timestamp := self.setup.timestamps.timestamps

def strategy (iterations : SparseIterations (ScheduledRule W)) : Strategy W where
  setup := self.setup
  priceFunction := self.priceFunction
  tradeLag := self.tradeLag
  marketSims := self.marketSims
  riskPolicies := self.riskPolicies
  ordersIter := fun i => (iterations.bucket i).map ScheduledRule.rule
  runFinalCalc := self.runFinalCalc

/-- The copy of a signal without the values outside the dates. -/
def windowed (sigValues : SignalArray) (startDate endDate : Option Timestamp) :
    Except Exn SignalArray := do
  let sigValues ← sigValues.blankedAt startDate (fun _ => 0) (searchsorted self.timestamps)
  sigValues.blankedAt endDate (searchsorted self.timestamps) (fun _ => sigValues.length)

/-- The heartbeats of a signal, without the last one where nothing can be filled. -/
def triggered (sigValues : SignalArray) (sigTrueValues : List T) : List Nat :=
  let indices := (List.range sigValues.length).filter fun i =>
    (sigValues.element i).any (isin · sigTrueValues)
  if indices.getLast? = some (sigValues.length - 1) ∧ 0 < self.tradeLag then indices.dropLast
  else indices

/-- The body of the inner loop. -/
def scheduleRule (name : String)
    (rule : RegisteredRule W T self.setup.timestamps.timestamps.length)
    (startDate endDate : Option Timestamp) (iterations : SparseIterations (ScheduledRule W))
    (group : String) : Except Exn (SparseIterations (ScheduledRule W)) :=
  if group ∉ rule.signal.cgroups then .ok iterations
  else do
    let sigValues ← self.windowed (rule.signal.values group) startDate endDate
    (self.triggered isin sigValues rule.sigTrueValues).foldlM
      (fun iterations index => iterations.appendAt index
        ⟨name, rule.ruleFunction sigValues, group, rule.positionFilter⟩) iterations

/-- `_generate_order_iterations` -/
def generateOrderIterations (names groups : List String) (startDate endDate : Option Timestamp) :
    Except Exn (SparseIterations (ScheduledRule W)) := do
  Strategy.validateDateRange startDate endDate
  names.foldlM (fun iterations name =>
    match self.rules.get? name with
    | none => .error .keyError
    | some rule =>
        groups.foldlM (self.scheduleRule isin name rule startDate endDate) iterations)
    (.new self.timestamps.length)

/-- The schedule for the requested rules and groups. -/
def schedule (ruleNames contractGroups : Option (List String))
    (startDate endDate : Option Timestamp) : Except Exn (SparseIterations (ScheduledRule W)) := do
  let names ← (validatedStageNames ruleNames self.rules.keys).mapError StageError.exn
  let groups ← (validatedStageGroups contractGroups self.setup.contractGroups).mapError
    StageError.exn
  Strategy.validateDateRange startDate endDate
  self.generateOrderIterations isin names groups startDate endDate

def runRules (ruleNames contractGroups : Option (List String))
    (startDate endDate : Option Timestamp) : Step Exn (Run W) := fun run => do
  let iterations ← raiseIn run (self.schedule isin ruleNames contractGroups startDate endDate)
  (self.strategy iterations).runRules startDate endDate run

end RuleSetup

/-! ## The rules a run comes to -/

namespace Strategy

variable (self : Strategy W) (iterations : SparseIterations (ScheduledRule W))

/-- A run with the rules it came to: each asked its position filter and was
called if the filter admits. -/
abbrev Traced (W : Type) := Run W × List RuleCall

def reachRule (i : Nat) (traced : Traced W) (entry : ScheduledRule W) :
    Except (Raised Exn (Run W)) (Traced W) := do
  let run ← self.runRule i traced.1 entry.rule
  .ok (run, traced.2 ++ [⟨i, entry.ruleName, entry.rule.contractGroup⟩])

def reachIteration (i : Nat) (traced : Traced W) : Except (Raised Exn (Run W)) (Traced W) := do
  let run ← self.simMarket i traced.1
  (iterations.bucket i).foldlM (self.reachRule i) (run, traced.2)

def reachHeartbeats (startDate endDate : Option Timestamp) :
    List (Timestamp × Nat) → Traced W → Except (Raised Exn (Run W)) (Traced W)
  | [], traced => .ok traced
  | (timestamp, i) :: heartbeats, traced =>
      if startDate.any (timestamp < ·) then
        reachHeartbeats startDate endDate heartbeats traced
      else if endDate.any (· < timestamp) then .ok traced
      else do
        let traced ← self.reachIteration iterations i traced
        reachHeartbeats startDate endDate heartbeats traced

end Strategy

end Gambit
