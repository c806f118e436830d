import Gambit.Lib.Traces
import Gambit.Strategy.Risk

/-!
# The run of a strategy

The engine of strategy.py.  Rules, risk policies and market simulators are
arbitrary functions of the orders, the account and their own world.  They write
the orders handed to them, orders they return and orders the engine does not
know; the account they only query.

A run records a point after every callback and after every block of engine code
between two callbacks.  A point holds the engine, the heartbeat and where in
`_run_iteration` the run stands.
-/

set_option autoImplicit false

namespace Gambit

open Raising

structure Engine (W : Type) where
  world : W
  heap : Heap
  orders : List OrderId
  currentOrders : List OrderId
  orderDecisions : List OrderDecision
  account : Account

abbrev MarketSim (W : Type) :=
  W → Heap → List OrderId → Nat → CallbackRun W (Returned Trade)

inductive PositionFilter where
  | zero | nonzero | positive | negative
deriving DecidableEq, Repr

/-- An entry of `orders_iter`: a rule for a contract group. -/
structure Rule (W : Type) where
  ruleFunction : W → Heap → Account → String → Nat → List OrderId →
    List AccountRead × CallbackRun W (Returned OrderId)
  contractGroup : String
  positionFilter : Option PositionFilter

structure Strategy (W : Type) where
  setup : AccountSetup
  priceFunction : W → PriceFunction
  tradeLag : Nat
  marketSims : List (MarketSim W)
  riskPolicies : List (RiskPolicy W)
  ordersIter : Nat → List (Rule W)
  runFinalCalc : Bool

/-- Where a run stands, with the locals of the frame. -/
inductive Control (W : Type) where
  | idle
  | passing (eligibleOrderIds : List OrderId)
  | deciding (orders acceptedOrders undecided : List OrderId) (policies : List (RiskPolicy W))
  | failed

structure Point (W : Type) where
  engine : Engine W
  heartbeat : Nat
  control : Control W

abbrev Run (W : Type) := Recorded (Engine W) (Point W)

variable {W : Type}

def PositionFilter.admits (position : Int) : PositionFilter → Bool
  | .zero => position = 0
  | .nonzero => position ≠ 0
  | .positive => 0 < position
  | .negative => position < 0

def callbackError (message : String) (cause : Exn) : Exn :=
  if cause.isInterrupt then cause else .callbackError message cause

namespace Engine

def new (world : W) (heap : Heap) : Engine W := ⟨world, heap, [], [], [], .new⟩

def captureAll (self : Engine W) (orders : List OrderId) : List OrderCallbackState :=
  orders.map (OrderCallbackState.capture self.heap)

/-- `_update_current_orders` -/
def updateCurrentOrders (self : Engine W) : Engine W :=
  { self with
    currentOrders := self.currentOrders.filter fun order => (self.heap.order order).isOpen }

/-- The exception handlers around a callback. -/
def guarded {α : Type} (states : List OrderCallbackState) (wrap : Exn → Exn)
    (attempt : Except (Raised Exn (Engine W)) α) : Except (Raised Exn (Engine W)) α :=
  match attempt with
  | .ok a => .ok a
  | .error raised =>
      .error ⟨wrap raised.error, { raised.state with
        heap := OrderCallbackState.restoreAll states raised.state.heap }⟩

/-- `reported_fills` applied to the orders the simulator left alone. -/
def applyFills (trades : List Trade) (originalStates : OrderId → ℚ × OrderStatus)
    (currentOrders : List OrderId) : Step Exn (Engine W) := fun self =>
  currentOrders.foldlM (fun (self : Engine W) id =>
    let order := self.heap.order id
    if order.qty = (originalStates id).1 ∧ reportedFills trades id ≠ 0 then do
      let order ← raiseIn self (order.fill (some (reportedFills trades id)))
      .ok { self with heap := self.heap.set id order }
    else .ok self) self

def decision (order : OrderId) (status : DecisionStatus) (policy code message : String)
    (timestamp : Timestamp) (self : Engine W) : OrderDecision :=
  let content := self.heap.order order
  ⟨order, status, policy, code, message, content.qty, timestamp, content⟩

def accept (decision : OrderDecision) (self : Engine W) : Engine W :=
  { self with orderDecisions := self.orderDecisions ++ [decision] }

def reject (decision : OrderDecision) (self : Engine W) : Engine W :=
  { self with
    orderDecisions := self.orderDecisions ++ [decision]
    heap := self.heap.set decision.order (self.heap.order decision.order).cancel }

def submit (orders acceptedOrders : List OrderId) (self : Engine W) : Engine W :=
  { self with
    orders := self.orders ++ orders
    currentOrders := self.currentOrders ++ acceptedOrders }

end Engine

namespace Strategy

variable (self : Strategy W)

def timestamp (i : Nat) : Timestamp := self.setup.timestamps.timestamps.getD i 0

def readAccount (engine : Engine W) (queries : List AccountRead) : Account :=
  queries.foldl (Account.read self.setup (self.priceFunction engine.world)) engine.account

/-! ## Market simulation -/

/-- Cancel acknowledgement and time-in-force expiry of one pending order. -/
def expireOrder (i idx : Nat) (order : Order) : Order :=
  let order := if order.status = .cancelRequested then order.cancel else order
  let order :=
    if order.timeInForce = .day ∧ day order.timestamp < day (self.timestamp i) then order.cancel
    else order
  if self.tradeLag < i - idx ∧ order.timeInForce = .fok then order.cancel else order

/-- One round of the first loop of `_sim_market`. -/
def expirePending (i : Nat) (state : Engine W × List OrderId) (id : OrderId) :
    Except (Raised Exn (Engine W)) (Engine W × List OrderId) :=
  let (engine, eligible) := state
  let order := engine.heap.order id
  let idx := searchsorted self.setup.timestamps.timestamps order.timestamp
  if ¬ (idx < self.setup.timestamps.timestamps.length ∧ idx ≤ i) then
    .error ⟨.assertionError, engine⟩
  else
    let order := self.expireOrder i idx order
    .ok ({ engine with heap := engine.heap.set id order },
      if self.tradeLag ≤ i - idx ∧ order.isOpen then eligible ++ [id] else eligible)

/-- The first loop of `_sim_market`, with `eligible_order_ids`. -/
def expireOrders (i : Nat) (engine : Engine W) :
    Except (Raised Exn (Engine W)) (Engine W × List OrderId) :=
  engine.currentOrders.foldlM (self.expirePending i) (engine, [])

/-- What follows the callback in the `try` block of the second loop. -/
def bookFills (i : Nat) (eligible : List OrderId) (before : Engine W)
    (result : Except Exn (Returned Trade)) : Step Exn (Engine W) := fun engine => do
  let returnedTrades ← raiseIn engine result
  raiseIn engine ((before.captureAll before.currentOrders).forM fun state =>
    if state.order ∈ eligible then state.validateIdentity engine.heap
    else state.validateUnchanged false engine.heap)
  let currentOrders := before.currentOrders.filter (· ∈ eligible)
  let orderStates := fun id => ((before.heap.order id).qty, (before.heap.order id).status)
  let trades ← raiseIn engine
    (validateMarketTrades engine.heap currentOrders (self.timestamp i) orderStates returnedTrades)
  let engine ← engine.applyFills trades orderStates currentOrders
  if trades = [] then .ok engine
  else
    match engine.account.addTrades self.setup (self.priceFunction engine.world) engine.heap.order
        trades with
    | .ok account => .ok { engine with account }
    | .error raised => .error ⟨raised.error, { engine with account := raised.state }⟩

/-- One round of the loop over the market simulators. -/
def runMarketSim (i : Nat) (eligible : List OrderId) (sim : MarketSim W) : Step Exn (Engine W) :=
  fun engine =>
    let before := engine.updateCurrentOrders
    let run := sim before.world before.heap (before.currentOrders.filter (· ∈ eligible)) i
    let left := before.heap.written
      (fun id => id ∈ before.currentOrders ∨ id ∉ before.orders) run.heap
    Engine.guarded (before.captureAll before.currentOrders)
      (callbackError "market simulator failed")
      (self.bookFills i eligible before run.result { before with world := run.world, heap := left })

/-! ## Rules and decisions -/

/-- The engine when a rule or a policy returns or raises. -/
def afterCallback {R : Type} (writable : OrderId → Bool)
    (outcome : List AccountRead × CallbackRun W R) (engine : Engine W) : Engine W :=
  { engine with
    world := outcome.2.world
    heap := engine.heap.written writable outcome.2.heap
    account := self.readAccount engine outcome.1 }

def callRule (i : Nat) (rule : Rule W) (engine : Engine W) :
    Except (Raised Exn (Engine W)) (Engine W × List OrderId) :=
  let states := engine.captureAll engine.currentOrders
  let outcome := rule.ruleFunction engine.world engine.heap engine.account rule.contractGroup i
    engine.currentOrders
  let returned := outcome.2.result.toOption.elim [] Returned.items
  let after := self.afterCallback
    (fun id => id ∈ engine.currentOrders ∨ id ∈ returned ∨ id ∉ engine.orders) outcome engine
  Engine.guarded states (callbackError "rule callback failed") do
    let result ← raiseIn after outcome.2.result
    raiseIn after (states.forM (OrderCallbackState.validateUnchanged true after.heap))
    let (heap, orders) ← raiseIn after (validateRuleOrders self.setup rule.contractGroup
      (self.timestamp i) engine.currentOrders
      ("strategy-roll:" ++ toString engine.orders.length) result after.heap)
    .ok ({ after with heap }, orders)

/-- `_get_orders` -/
def getOrders (i : Nat) (rule : Rule W) (engine : Engine W) :
    Except (Raised Exn (Engine W)) (Engine W × List OrderId) :=
  match rule.positionFilter with
  | none => self.callRule i rule engine
  | some positionFilter =>
      match engine.account.position self.setup rule.contractGroup (self.timestamp i) with
      | .error raised =>
          .error ⟨callbackError "rule callback failed" raised.error,
            { engine with account := raised.state }⟩
      | .ok (account, position) =>
          if positionFilter.admits position then self.callRule i rule { engine with account }
          else .ok ({ engine with account }, [])

/-- The quantity checks at the start of `decide_order`. -/
def validateQuantities (heap : Heap) (order : OrderId) (openOrders : List OrderId) :
    Except Exn Unit := do
  let _ ← wholeQuantity (heap.order order).qty "order qty"
  openOrders.forM fun pending =>
    if (heap.order pending).isOpen then do
      let _ ← wholeQuantity (heap.order pending).qty "pending order qty"
      .ok ()
    else .ok ()

/-- One round of the loop of `decide_order` over the policies. -/
def consult (i : Nat) (orders acceptedOrders : List OrderId) (order : OrderId)
    (policy : RiskPolicy W) (engine : Engine W) :
    Except (Raised Exn (Engine W)) (Engine W × PolicyResult) := do
  let openOrders := engine.currentOrders ++ acceptedOrders
  let states := engine.captureAll (order :: openOrders)
  let outcome := policy.evaluate engine.world engine.heap
    ⟨engine.account, self.timestamp i, openOrders⟩ order
  let after := self.afterCallback
    (fun id => id = order ∨ id ∈ openOrders ∨ id ∉ engine.orders ++ orders) outcome engine
  let result ← Engine.guarded states id do
    let result ← raiseIn after outcome.2.result
    raiseIn after (states.forM (OrderCallbackState.validateUnchanged false after.heap))
    .ok result
  match result with
  | none => .error ⟨.typeError "risk policy must return a PolicyResult", after⟩
  | some result => .ok (after, result)

/-! ## The run -/

/-- An action at heartbeat `i`, recorded. -/
def act {α : Type} (i : Nat) (control : α → Control W)
    (result : Except (Raised Exn (Engine W)) (Engine W × α)) (run : Run W) :
    Except (Raised Exn (Run W)) (Run W × α) :=
  run.act (fun engine a => ⟨engine, i, control a⟩) (fun engine => ⟨engine, i, .failed⟩) result

def simMarket (i : Nat) : Step Exn (Run W) := fun run => do
  let (run, eligible) ← act i .passing (self.expireOrders i run.state) run
  let run ← self.marketSims.foldlM (fun run sim => do
    let (run, _) ← act i (fun _ => .passing eligible)
      ((·, ()) <$> self.runMarketSim i eligible sim run.state) run
    .ok run) run
  let (run, _) ← act i (fun _ => .idle) (.ok (run.state.updateCurrentOrders, ())) run
  .ok run

/-- The loop of `decide_order`, from some policy on. -/
def consultAll (i : Nat) (orders acceptedOrders : List OrderId) (order : OrderId)
    (undecided : List OrderId) :
    List (RiskPolicy W) → Run W → Except (Raised Exn (Run W)) (Run W × OrderDecision)
  | [], run =>
      .ok (run, run.state.decision order .accepted "" "accepted" "" (self.timestamp i))
  | policy :: policies, run => do
      let (run, result) ← act i (fun result => .deciding orders acceptedOrders (order :: undecided)
          (if result.accepted then policies else policy :: policies))
        (self.consult i orders acceptedOrders order policy run.state) run
      if result.accepted then consultAll i orders acceptedOrders order undecided policies run
      else .ok (run, run.state.decision order .rejected policy.name result.code result.message
        (self.timestamp i))

def decideOrder (i : Nat) (orders acceptedOrders : List OrderId) (order : OrderId)
    (undecided : List OrderId) (run : Run W) :
    Except (Raised Exn (Run W)) (Run W × OrderDecision) := do
  raiseIn run (validateQuantities run.state.heap order (run.state.currentOrders ++ acceptedOrders))
  self.consultAll i orders acceptedOrders order undecided self.riskPolicies run

def decideOrders (i : Nat) (orders : List OrderId) (acceptedOrders : List OrderId) :
    List OrderId → Run W → Except (Raised Exn (Run W)) (Run W × List OrderId)
  | [], run => .ok (run, acceptedOrders)
  | order :: undecided, run => do
      let (run, decision) ← self.decideOrder i orders acceptedOrders order undecided run
      match decision.status with
      | .accepted =>
          let (run, _) ← act i
            (fun _ => .deciding orders (acceptedOrders ++ [order]) undecided self.riskPolicies)
            (.ok (run.state.accept decision, ())) run
          decideOrders i orders (acceptedOrders ++ [order]) undecided run
      | .rejected =>
          let (run, _) ← act i
            (fun _ => .deciding orders acceptedOrders undecided self.riskPolicies)
            (.ok (run.state.reject decision, ())) run
          decideOrders i orders acceptedOrders undecided run

/-- The body of the loop over the rules of a heartbeat. -/
def runRule (i : Nat) (run : Run W) (rule : Rule W) : Except (Raised Exn (Run W)) (Run W) := do
  let (run, orders) ← act i (fun orders => .deciding orders [] orders self.riskPolicies)
    (self.getOrders i rule run.state) run
  let (run, acceptedOrders) ← self.decideOrders i orders [] orders run
  let (run, _) ← act i (fun _ => .idle) (.ok (run.state.submit orders acceptedOrders, ())) run
  if self.tradeLag = 0 then self.simMarket i run
  else do
    let (run, _) ← act i (fun _ => .idle) (.ok (run.state.updateCurrentOrders, ())) run
    .ok run

/-- `_run_iteration` -/
def runIteration (i : Nat) : Step Exn (Run W) := fun run => do
  let run ← self.simMarket i run
  (self.ordersIter i).foldlM (self.runRule i) run

/-- The loop of `run_rules` over the heartbeats; `none` is NaT. -/
def runHeartbeats (startDate endDate : Option Timestamp) :
    List (Timestamp × Nat) → Step Exn (Run W)
  | [], run => .ok run
  | (timestamp, i) :: heartbeats, run =>
      if startDate.any (timestamp < ·) then runHeartbeats startDate endDate heartbeats run
      else if endDate.any (· < timestamp) then .ok run
      else do
        let run ← self.runIteration i run
        runHeartbeats startDate endDate heartbeats run

/-- `final_timestamp_at_or_before` -/
def finalTimestamp (endDate : Option Timestamp) : Option Timestamp :=
  match endDate with
  | none => self.setup.timestamps.timestamps.getLast?
  | some finish =>
      match searchsortedRight self.setup.timestamps.timestamps finish with
      | 0 => none
      | index + 1 => self.setup.timestamps.timestamps[index]?

/-- The heartbeat a run stands at. -/
def heartbeat (run : Run W) : Nat := run.points.getLast?.elim 0 Point.heartbeat

def validateDateRange (startDate endDate : Option Timestamp) : Except Exn Unit :=
  match startDate, endDate with
  | some start, some finish =>
      if finish < start then
        .error (.valueError "rule execution start date cannot be after end date")
      else .ok ()
  | _, _ => .ok ()

/-- `account.calc` at the end of the run. -/
def finalCalc (timestamp : Timestamp) (engine : Engine W) :
    Except (Raised Exn (Engine W)) (Engine W × Unit) :=
  match engine.account.calcPnl self.setup (self.priceFunction engine.world) timestamp with
  | .ok account => .ok ({ engine with account }, ())
  | .error raised => .error ⟨raised.error, { engine with account := raised.state }⟩

def runRules (startDate endDate : Option Timestamp) : Step Exn (Run W) := fun run => do
  raiseIn run (validateDateRange startDate endDate)
  let run ← self.runHeartbeats startDate endDate self.setup.timestamps.timestamps.zipIdx run
  match self.runFinalCalc, self.finalTimestamp endDate with
  | true, some timestamp => do
      let (run, _) ← act (heartbeat run) (fun _ => .idle) (self.finalCalc timestamp run.state) run
      .ok run
  | _, _ => .ok run

/-- A strategy that has not run. -/
def start (world : W) (heap : Heap) : Point W := ⟨.new world heap, 0, .idle⟩

/-- The points of a run, up to its return or to the exception that ends it. -/
def trace (startDate endDate : Option Timestamp) (world : W) (heap : Heap) : List (Point W) :=
  match self.runRules startDate endDate ⟨.new world heap, [start world heap]⟩ with
  | .ok run => run.points
  | .error raised => raised.state.points

end Strategy

/-! ## A small strategy

One rule for the stock and one simulator, on the account of `sampleSetup`. -/

def sampleStrategy (tradeLag : Nat) (riskPolicies : List (RiskPolicy Unit))
    (rule : Heap → Nat → Heap × List OrderId) (sim : Heap → List OrderId → Nat → Heap × List Trade) :
    Strategy Unit where
  setup := sampleSetup
  priceFunction := fun _ _ _ => .ok (.real 11)
  tradeLag := tradeLag
  marketSims := [fun world heap orders i =>
    ⟨world, (sim heap orders i).1, .ok (.sequence ((sim heap orders i).2.map some))⟩]
  riskPolicies := riskPolicies
  ordersIter := fun _ => [⟨fun world heap _ _ i _ =>
    ([], ⟨world, (rule heap i).1, .ok (.sequence ((rule heap i).2.map some))⟩), "IBM", none⟩]
  runFinalCalc := false

def sampleHeap : Heap := ⟨1, sampleOrders⟩

end Gambit
