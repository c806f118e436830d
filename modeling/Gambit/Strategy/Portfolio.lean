import Gambit.Lib.Interleaving
import Gambit.Strategy.RuleSchedule

/-!
# Portfolios

portfolio.py.  The strategies run in turns over the union of their timestamps;
a strategy has a turn where the union has one of its own timestamps.  Each
strategy has its own world, orders and account, so the state of a portfolio is
one run for each name.
-/

set_option autoImplicit false

namespace Gambit

open Raising

/-- A strategy with its stage graph and with the signals computed for its rules. -/
structure PortfolioStrategy (W A T : Type) where
  stages : Pipeline W A
  setup : RuleSetup W T
  sameRules : stages.rules.map Prod.fst = setup.rules.keys
  sameGroups : stages.contractGroups = setup.setup.contractGroups
  sameTimestamps : stages.timestamps = setup.setup.timestamps

/-- The dictionary of the strategies: its keys in order, and what they stand for. -/
structure Portfolio (W : String → Type) (A T : Type) where
  names : List String
  distinct : names.Nodup
  strategies : (name : String) → PortfolioStrategy (W name) A T

/-- `np.union1d` -/
def union1d (a b : List Timestamp) : List Timestamp := npUnique (a ++ b)

/-- `account.calc` at the end, whether or not the strategy does so itself. -/
def Strategy.calcToEnd {W : Type} (self : Strategy W) (endDate : Option Timestamp) :
    Step Exn (Run W) := fun run =>
  match self.finalTimestamp endDate with
  | some timestamp => do
      let (run, _) ← act (heartbeat run) (fun _ => .idle) (self.finalCalc timestamp run.state) run
      .ok run
  | none => .ok run

/-- The part of a date range that a list of timestamps has. -/
def withinRange (startDate endDate : Option Timestamp) (timestamps : List Timestamp) :
    List Timestamp :=
  (timestamps.filter fun timestamp => startDate.all (· ≤ timestamp)).filter fun timestamp =>
    endDate.all (timestamp ≤ ·)

variable {W : String → Type} {A T : Type}

/-- The `orders_iter` of every strategy. -/
abbrev OrdersIters (W : String → Type) := ∀ name, SparseIterations (ScheduledRule (W name))

/-- The run of every strategy. -/
abbrev Runs (W : String → Type) := ∀ name, Run (W name)

namespace Portfolio

variable (isin : Element → List T → Bool) (self : Portfolio W A T)

def setup (name : String) : RuleSetup (W name) T := (self.strategies name).setup

def validateDateRange (startDate endDate : Option Timestamp) : Except Exn Unit :=
  (Strategy.validateDateRange startDate endDate).mapError fun _ =>
    .valueError "portfolio rule execution start date cannot be after end date"

/-- `_selected_strategies` -/
def selectedStrategies (strategyNames : Option (List String)) : Except Exn (List String) :=
  let requested := strategyNames.getD self.names
  if requested = [] then .error (.valueError "a portfolio operation requires at least one strategy")
  else if requested.any (· ∉ self.names) then
    .error (.valueError "unknown portfolio strategies: ")
  else .ok requested.eraseDups

/-- The union of the timestamps in the date range. -/
def allTimestamps (names : List String) (startDate endDate : Option Timestamp) :
    Except Exn (List Timestamp) :=
  match names.map fun name => (self.setup name).timestamps with
  | [] => .error (.typeError "reduce() of empty iterable with no initial value")
  | first :: rest => .ok (withinRange startDate endDate (rest.foldl union1d first))

/-- The strategies with their indices, and the rules of each in its `orders_iter`. -/
def generateOrderIterations (names : List String) (startDate endDate : Option Timestamp) :
    Except Exn (List Timestamp × List (String × List Nat) × OrdersIters W) := do
  validateDateRange startDate endDate
  let allTimestamps ← self.allTimestamps names startDate endDate
  let (iterations, ordersIters) ← names.foldlM
    (fun (state : List (String × List Nat) × OrdersIters W) name => do
      let indices := allTimestamps.map (searchsorted (self.setup name).timestamps)
      let ordersIter ← (self.setup name).generateOrderIterations isin (self.setup name).rules.keys
        (self.setup name).setup.contractGroups startDate endDate
      .ok (state.1 ++ [(name, indices)], Function.update state.2 name ordersIter))
    ([], fun name => .new (self.setup name).timestamps.length)
  .ok (allTimestamps, iterations, ordersIters)

/-- The body of the inner loop of `run_rules`. -/
def runOne (ordersIters : OrdersIters W) (timestamp : Timestamp) (i : Nat) (runs : Runs W)
    (iteration : String × List Nat) : Except (Raised Exn (Runs W)) (Runs W) :=
  let (name, indices) := iteration
  match indices[i]? with
  | none => .error ⟨.raised "IndexError" false, runs⟩
  | some idx =>
      if idx ≠ (self.setup name).timestamps.length ∧
          (self.setup name).timestamps[idx]? = some timestamp then
        Interleaving.only name
          (((self.setup name).strategy (ordersIters name)).runIteration idx) runs
      else .ok runs

def runRules (strategyNames : Option (List String)) (startDate endDate : Option Timestamp) :
    Step Exn (Runs W) := fun runs => do
  let names ← raiseIn runs (self.selectedStrategies strategyNames)
  raiseIn runs (validateDateRange startDate endDate)
  names.forM fun name => do
    let _ ← raiseIn runs ((self.strategies name).stages.validateStageGraph.mapError StageError.exn)
  let (allTimestamps, iterations, ordersIters) ← raiseIn runs
    (self.generateOrderIterations isin names startDate endDate)
  let runs ← allTimestamps.zipIdx.foldlM (fun runs heartbeat =>
    iterations.foldlM (self.runOne ordersIters heartbeat.1 heartbeat.2) runs) runs
  names.foldlM (fun runs name =>
    Interleaving.only name
      (((self.setup name).strategy (ordersIters name)).calcToEnd endDate) runs) runs

end Portfolio

end Gambit
