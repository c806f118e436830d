import Gambit.ControlPlane.Levels
import Gambit.Strategy.CallbackContracts

/-!
# Pre-trade risk policies

risk.py with the trade budget and the overrides of control_plane.py.  A policy is user code that
may query the account and whose decision the engine takes over; the built-in
ones only read.
-/

set_option autoImplicit false

namespace Gambit

open Raising

/-- The queries of an account that leave their caches behind. -/
inductive AccountRead where
  | calcPnl (timestamp : Timestamp)
  | equity (timestamp : Timestamp)
  | position (group : String) (timestamp : Timestamp)

def AccountRead.call : AccountRead → AccountCall
  | .calcPnl timestamp => .calcPnl timestamp
  | .equity timestamp => .equity timestamp
  | .position group timestamp => .position group timestamp

def Account.read (setup : AccountSetup) (priceFunction : PriceFunction) (self : Account)
    (query : AccountRead) : Account :=
  (Session.call setup priceFunction ⟨self, []⟩ query.call).account

structure PolicyResult where
  accepted : Bool
  code : String
  message : String
  codeNonempty : code ≠ ""

def PolicyResult.accept : PolicyResult := ⟨true, "accepted", "", by decide⟩

inductive DecisionStatus where
  | accepted | rejected
deriving DecidableEq, Repr

/-- A policy outcome; `snapshot` is the order as it then read. -/
structure OrderDecision where
  order : OrderId
  status : DecisionStatus
  policy : String
  code : String
  message : String
  proposedQty : ℚ
  timestamp : Timestamp
  snapshot : Order
deriving DecidableEq, Repr

structure RiskContext where
  account : Account
  timestamp : Timestamp
  openOrders : List OrderId

namespace RiskContext

def currentPosition (setup : AccountSetup) (order : Order) (self : RiskContext) :
    Except Exn ℚ := do
  let positions ← self.account.positions setup order.contract.contractGroup self.timestamp
  .ok ((positions.filter fun held => held.1.symbol = order.contract.symbol).map Prod.snd).sum

/-- Reachable short and long endpoints for independently fillable orders. -/
def positionBounds (setup : AccountSetup) (heap : Heap) (order : Order) (self : RiskContext) :
    Except Exn (ℚ × ℚ) := do
  let current ← self.currentPosition setup order
  .ok (self.openOrders.foldl (fun bounds pending =>
    let pending := heap.order pending
    if pending.isOpen ∧ pending.contract.symbol = order.contract.symbol then
      (bounds.1 + min 0 pending.qty, bounds.2 + max 0 pending.qty)
    else bounds) (current + min 0 order.qty, current + max 0 order.qty))

/-- The open orders of the context on the contract of `order`. -/
def pendingOn (heap : Heap) (order : Order) (self : RiskContext) : List OrderId :=
  self.openOrders.filter fun pending =>
    (heap.order pending).isOpen ∧ (heap.order pending).contract.symbol = order.contract.symbol

/-- Net position assuming all pending orders and the proposal fill. -/
def projectedPosition (setup : AccountSetup) (heap : Heap) (order : Order) (self : RiskContext) :
    Except Exn ℚ := do
  let current ← self.currentPosition setup order
  .ok (current + ((self.pendingOn heap order).map fun pending => (heap.order pending).qty).sum +
    order.qty)

end RiskContext

structure RiskPolicy (W : Type) where
  name : String
  evaluate : W → Heap → RiskContext → OrderId →
    List AccountRead × CallbackRun W (Option PolicyResult)

/-- A policy that only reads. -/
def RiskPolicy.reading {W : Type} (name : String)
    (evaluate : Heap → RiskContext → Order → Except Exn PolicyResult) : RiskPolicy W where
  name := name
  evaluate := fun world heap context order =>
    ([], ⟨world, heap, some <$> evaluate heap context (heap.order order)⟩)

structure MaxPositionQuantity where
  maximum : ℚ
  name : String
  maximumPositive : 0 < maximum

namespace MaxPositionQuantity

def evaluate (setup : AccountSetup) (self : MaxPositionQuantity) (heap : Heap)
    (context : RiskContext) (order : Order) : Except Exn PolicyResult := do
  let (lower, upper) ← context.positionBounds setup heap order
  if if 0 < order.qty then upper ≤ self.maximum else -self.maximum ≤ lower then
    .ok .accept
  else
    .ok ⟨false, "position_quantity_exceeded", "reachable position range extends beyond maximum",
      by decide⟩

def policy {W : Type} (setup : AccountSetup) (self : MaxPositionQuantity) : RiskPolicy W :=
  .reading self.name (self.evaluate setup)

end MaxPositionQuantity

def Tradability.value : Tradability → String
  | .active => "active"
  | .ignored => "ignored"
  | .untradeable => "untradeable"
  | .duplicate => "duplicate"
  | .bad => "bad"

structure InstrumentTradabilityPolicy where
  allowRiskReducing : Bool
  name : String

namespace InstrumentTradabilityPolicy

def evaluate (setup : AccountSetup) (self : InstrumentTradabilityPolicy) (heap : Heap)
    (context : RiskContext) (order : Order) : Except Exn PolicyResult :=
  if order.contract.expiry.any (· < context.timestamp) then
    .ok ⟨false, "contract_expired", order.contract.symbol ++ " is expired", by decide⟩
  else if order.contract.tradability = .active then .ok .accept
  else do
    let projected ← context.projectedPosition setup heap order
    let positionBeforeOrder := projected - order.qty
    if self.allowRiskReducing ∧ |projected| < |positionBeforeOrder| ∧
        (order.contract.tradability = .ignored ∨ order.contract.tradability = .untradeable) then
      .ok .accept
    else
      .ok ⟨false, "instrument_" ++ order.contract.tradability.value,
        order.contract.symbol ++ " is marked " ++ order.contract.tradability.value,
        by cases order.contract.tradability <;> decide⟩

def policy {W : Type} (setup : AccountSetup) (self : InstrumentTradabilityPolicy) : RiskPolicy W :=
  .reading self.name (self.evaluate setup)

end InstrumentTradabilityPolicy

structure RollingTradeBudget where
  maximumQuantity : ℚ
  window : Int
  level : ControlLevel
  key : Option String
  strategy : Option String
  name : String
  maximumPositive : 0 < maximumQuantity
  windowPositive : 0 < window
  keyed : match level with
    | .portfolio => key = none
    | .strategy => key.getD "" ≠ "" ∧ strategy = key
    | .group | .instrument => key.getD "" ≠ ""

namespace RollingTradeBudget

/-- `_matches` -/
def matchesOrder (self : RollingTradeBudget) (order : Order) : Bool :=
  match self.level with
  | .portfolio | .strategy => true
  | .group => some order.contract.contractGroup = self.key
  | .instrument => some order.contract.symbol = self.key

def evaluate (self : RollingTradeBudget) (heap : Heap) (context : RiskContext) (order : Order) :
    Except Exn PolicyResult := do
  let start := context.timestamp - self.window
  let trades ← context.account.tradesBetween (some start) (some context.timestamp)
  let executed := ((trades.filter fun trade => self.matchesOrder trade.order).map
    fun trade => |(trade.qty : ℚ)|).sum
  let pending := (((context.openOrders.map heap.order).filter fun pending =>
    pending.isOpen ∧ self.matchesOrder pending).map fun pending => |pending.qty|).sum
  if self.maximumQuantity < executed + pending + |order.qty| then
    .ok ⟨false, "rolling_trade_budget_exceeded", "rolling absolute quantity exceeds maximum",
      by decide⟩
  else .ok .accept

def policy {W : Type} (self : RollingTradeBudget) : RiskPolicy W :=
  .reading self.name self.evaluate

end RollingTradeBudget

/-! ## Overrides -/

inductive TradingMode where
  | active | reduceOnly | noTrade
deriving DecidableEq, Repr

structure TradingOverride where
  level : ControlLevel
  mode : TradingMode
  effectiveFrom : Timestamp
  reason : String
  key : Option String
  expiresAt : Option Timestamp
  ordered : ∀ finish ∈ expiresAt, effectiveFrom ≤ finish
  reasonNonempty : ¬ reason.toList.all Char.isWhitespace
  keyed : if level = .portfolio then key = none else key.getD "" ≠ ""

namespace TradingOverride

def isActive (timestamp : Timestamp) (self : TradingOverride) : Bool :=
  self.effectiveFrom ≤ timestamp ∧ self.expiresAt.all (timestamp ≤ ·)

/-- `TradingOverrideBook._matches` -/
def matchesOrder (order : Order) (strategy : Option String) (self : TradingOverride) : Bool :=
  match self.level with
  | .portfolio => true
  | .strategy => strategy = self.key
  | .group => some order.contract.contractGroup = self.key
  | .instrument => some order.contract.symbol = self.key

def severity : TradingMode → Nat
  | .active => 0
  | .reduceOnly => 1
  | .noTrade => 2

def specificity : ControlLevel → Nat
  | .portfolio => 0
  | .strategy => 1
  | .group => 2
  | .instrument => 3

/-- The keys `(severity, specificity, effective_from)` in their order. -/
def outranks (other self : TradingOverride) : Bool :=
  severity other.mode < severity self.mode ∨ severity other.mode = severity self.mode ∧
    (specificity other.level < specificity self.level ∨
      specificity other.level = specificity self.level ∧ other.effectiveFrom < self.effectiveFrom)

end TradingOverride

structure TradingOverrideBook where
  overrides : List TradingOverride

/-- The first of the highest rank among the overrides that apply. -/
def TradingOverrideBook.resolve (order : Order) (timestamp : Timestamp) (strategy : Option String)
    (self : TradingOverrideBook) : Option TradingOverride :=
  (self.overrides.filter fun item => item.isActive timestamp ∧ item.matchesOrder order strategy)
    |>.foldl (fun best item =>
      match best with
      | none => some item
      | some best => if item.outranks best then some item else some best) none

structure TradingOverridePolicy where
  book : TradingOverrideBook
  strategy : Option String
  name : String

namespace TradingOverridePolicy

def evaluate (setup : AccountSetup) (self : TradingOverridePolicy) (heap : Heap)
    (context : RiskContext) (order : Order) : Except Exn PolicyResult :=
  match self.book.resolve order context.timestamp self.strategy with
  | none => .ok .accept
  | some item =>
      match item.mode with
      | .active => .ok .accept
      | .noTrade => .ok ⟨false, "no_trade_override", item.reason, by decide⟩
      | .reduceOnly => do
          let projected ← context.projectedPosition setup heap order
          let before := projected - order.qty
          if |projected| < |before| then .ok .accept
          else .ok ⟨false, "reduce_only_override", item.reason, by decide⟩

def policy {W : Type} (setup : AccountSetup) (self : TradingOverridePolicy) : RiskPolicy W :=
  .reading self.name (self.evaluate setup)

end TradingOverridePolicy

end Gambit
