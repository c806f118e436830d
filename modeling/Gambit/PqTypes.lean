import Gambit.Python
import Gambit.Lib.Raising

/-!
# Contracts, orders and trades

The entities of pq_types.py that accounts and strategies work on.  Contracts
live in one registry with unique symbols, so a contract object is its record;
orders are mutable objects and are referred to by identity.  Timestamps are
nanoseconds.
-/

set_option autoImplicit false

namespace Gambit

abbrev Timestamp := Int

abbrev OrderId := Nat

def nanosPerDay : Int := 86400000000000

def nanosPerMinute : Int := 60000000000

/-- `timestamp.astype("M8[D]")`. -/
def day (timestamp : Timestamp) : Int := timestamp / nanosPerDay

inductive Tradability where
  | active | ignored | untradeable | duplicate | bad
deriving DecidableEq, Repr

structure Contract where
  symbol : String
  contractGroup : String
  expiry : Option Timestamp
  multiplier : ℚ
  tradability : Tradability
deriving DecidableEq, Repr

/-- The contracts of all groups.  `Contract.create` refuses a second contract
with the same symbol. -/
structure Registry where
  contracts : List Contract
  unique : (contracts.map Contract.symbol).Nodup

/-- `contract_group.contracts`, in registration order. -/
def Registry.groupContracts (registry : Registry) (group : String) : List Contract :=
  registry.contracts.filter fun contract => contract.contractGroup = group

inductive OrderStatus where
  | open | partiallyFilled | filled | cancelRequested | cancelled
deriving DecidableEq, Repr

inductive TimeInForce where
  | fok | gtc | day
deriving DecidableEq, Repr

/-- The order classes, with the terms each adds. -/
inductive OrderKind where
  | market
  | limit (limitPrice : Scalar)
  | stopLimit (triggerPrice limitPrice : Scalar)
  | vwap (vwapStop : Scalar) (vwapEndTime : Timestamp)
  | roll (reopenContract : Contract) (closeQty reopenQty : ℚ)
deriving DecidableEq, Repr

structure Order where
  contract : Contract
  timestamp : Timestamp
  qty : ℚ
  timeInForce : TimeInForce
  status : OrderStatus
  kind : OrderKind
  /-- `properties._gambit_roll_id` -/
  rollId : Option String
  /-- `properties._gambit_roll_leg` -/
  rollLeg : Option String
deriving DecidableEq, Repr

def OrderStatus.isOpen : OrderStatus → Bool
  | .open | .cancelRequested | .partiallyFilled => true
  | .filled | .cancelled => false

def Order.isOpen (self : Order) : Bool := self.status.isOpen

def Order.requestCancel (self : Order) : Order :=
  if self.status = .filled ∨ self.status = .cancelled ∨ self.status = .cancelRequested then self
  else { self with status := .cancelRequested }

/-- `fill(fill_qty)`; without an argument the whole remainder is filled. -/
def Order.fill (self : Order) (fillQty : Option ℚ) : Except Exn Order := do
  if self.status ≠ .open ∧ self.status ≠ .partiallyFilled then
    .error (.valueError "cannot fill an order in status")
  let filled ← wholeQuantity (fillQty.getD self.qty) "fill qty"
  if self.qty * filled < 0 then
    .error (.valueError "order qty cannot be opposite sign of fill qty")
  if |self.qty| < |(filled : ℚ)| then
    .error (.valueError "cannot fill qty larger than order qty")
  let remaining := self.qty - filled
  .ok { self with
    qty := remaining
    status := if remaining = 0 then .filled else .partiallyFilled }

def Order.cancel (self : Order) : Order :=
  if self.status = .filled ∨ self.status = .cancelled then self
  else { self with status := .cancelled }

/-- `VWAPOrder._validate_stop`: NaN disables the stop. -/
def validateVwapStop (vwapStop : Scalar) : Except Exn Unit :=
  match vwapStop with
  | .nan => .ok ()
  | stop => do
      let _ ← finiteReal stop "VWAP stop"
      .ok ()

/-- `RollOrder._validated_terms`. -/
def validatedTerms (contract reopenContract : Contract) (closeQty reopenQty : ℚ) :
    Except Exn (Int × Int) := do
  let close ← wholeQuantity closeQty "roll close qty"
  let reopen ← wholeQuantity reopenQty "roll reopen qty"
  if reopenContract = contract then
    .error (.valueError "roll contracts must be distinct")
  if reopenContract.contractGroup ≠ contract.contractGroup then
    .error (.valueError "roll contracts must belong to the same contract group")
  if decide (0 < close) = decide (0 < reopen) then
    .error (.valueError "roll close and reopen quantities must have opposite signs")
  .ok (close, reopen)

/-- `RollOrder.legs`: two fresh market orders under the roll id that
`validate_rule_orders` assigns. -/
def Order.legs (self : Order) (reopenContract : Contract) (closeQty reopenQty : ℚ)
    (rollId : String) : Except Exn (Order × Order) := do
  let (close, reopen) ← validatedTerms self.contract reopenContract closeQty reopenQty
  if self.status ≠ .open then
    .error (.valueError "only an open roll command can be expanded")
  if self.rollId.isSome ∨ self.rollLeg.isSome then
    .error (.typeError "multiple values for keyword argument")
  let leg (contract : Contract) (qty : Int) (name : String) : Order :=
    ⟨contract, self.timestamp, qty, self.timeInForce, .open, .market, some rollId, some name⟩
  .ok (leg self.contract close "close", leg reopenContract reopen "reopen")

def Order.isRoll (self : Order) : Prop :=
  ∃ reopenContract closeQty reopenQty, self.kind = .roll reopenContract closeQty reopenQty

/-- A trade as user code reports it; `order` is the originating order object. -/
structure Trade where
  contract : Contract
  order : OrderId
  timestamp : Timestamp
  qty : ℚ
  price : Scalar
  fee : Scalar
  commission : Scalar
deriving DecidableEq, Repr

structure TradeNumbers where
  qty : Int
  price : ℚ
  fee : ℚ
  commission : ℚ
deriving DecidableEq, Repr

/-- `_validated_trade_numbers`. -/
def validatedTradeNumbers (trade : Trade) : Except Exn TradeNumbers := do
  let qty ← wholeQuantity trade.qty "trade qty"
  let price ← finiteReal trade.price "trade price"
  let fee ← finiteReal trade.fee "trade fee"
  let commission ← finiteReal trade.commission "trade commission"
  .ok ⟨qty, price, fee, commission⟩

/-- `_validate_trade_references`, with the current content of the order. -/
def validateTradeReferences (trade : Trade) (order : Order) : Except Exn Unit :=
  if trade.contract ≠ order.contract then
    .error (.valueError "trade contract must match its originating order")
  else if trade.timestamp < order.timestamp then
    .error (.valueError "trade timestamp cannot precede its originating order")
  else .ok ()

/-! ## What the operations change -/

@[simp] theorem cancel_contract (order : Order) : order.cancel.contract = order.contract := by
  unfold Order.cancel
  split <;> rfl

@[simp] theorem cancel_timestamp (order : Order) : order.cancel.timestamp = order.timestamp := by
  unfold Order.cancel
  split <;> rfl

@[simp] theorem cancel_qty (order : Order) : order.cancel.qty = order.qty := by
  unfold Order.cancel
  split <;> rfl

@[simp] theorem cancel_timeInForce (order : Order) :
    order.cancel.timeInForce = order.timeInForce := by
  unfold Order.cancel
  split <;> rfl

@[simp] theorem cancel_kind (order : Order) : order.cancel.kind = order.kind := by
  unfold Order.cancel
  split <;> rfl

theorem isRoll_congr {a b : Order} (same : a.kind = b.kind) : a.isRoll ↔ b.isRoll := by
  unfold Order.isRoll
  rw [same]

theorem cancel_status (order : Order) :
    order.cancel.status = order.status ∨ order.isOpen ∧ order.cancel.status = .cancelled := by
  unfold Order.cancel
  split
  · exact Or.inl rfl
  · rename_i live
    refine Or.inr ⟨?_, rfl⟩
    cases status : order.status <;> simp_all [Order.isOpen, OrderStatus.isOpen]

theorem fill_ok {order filled : Order} {fillQty : Int}
    (ran : order.fill (some (fillQty : ℚ)) = .ok filled) :
    (order.status = .open ∨ order.status = .partiallyFilled) ∧
      filled = { order with
        qty := order.qty - fillQty
        status := if order.qty - fillQty = 0 then .filled else .partiallyFilled } := by
  unfold Order.fill at ran
  obtain ⟨fillable, ran⟩ := Raising.refuse_ok.mp ran
  obtain ⟨qty, whole, ran⟩ := Raising.bind_ok.mp ran
  obtain ⟨_, ran⟩ := Raising.refuse_ok.mp ran
  obtain ⟨_, ran⟩ := Raising.refuse_ok.mp ran
  cases ran
  have same : (fillQty : ℚ) = qty := (wholeQuantity_ok whole).1
  rw [Int.cast_inj] at same
  subst same
  refine ⟨?_, rfl⟩
  by_cases live : order.status = .open
  · exact Or.inl live
  · exact Or.inr (not_not.mp fun notPartial => fillable ⟨live, notPartial⟩)

theorem cancel_not_open (order : Order) : order.cancel.isOpen = false := by
  unfold Order.cancel
  split
  · rename_i terminal
    rcases terminal with filled | cancelled
    · simp [Order.isOpen, filled, OrderStatus.isOpen]
    · simp [Order.isOpen, cancelled, OrderStatus.isOpen]
  · rfl

end Gambit
