import Gambit.Lib.FixedWidth
import Gambit.Lib.Raising
import Gambit.Lib.Tables

/-!
# The native top-of-book backtester

The replay of `top_of_book_backtest.cpp`: one instrument table, the order, fill
and queue logs, and the cash they move.  Monetary values are price ticks times
quantity lots.  A signed overflow or an access outside a vector is
`undefinedBehaviour`; everything else that stops a call is an exception.
-/

set_option autoImplicit false

namespace Gambit.TopOfBook

open FixedWidth Raising

inductive Failure
  | invalidArgument (text : String)
  | runtimeError (text : String)
  | overflowError (text : String)
  | undefinedBehaviour
deriving DecidableEq, Repr

/-! ## Events and records -/

structure BookEvent where
  sequence : Nat
  eventTimeNs : Int
  receiveTimeNs : Int
  bid : Int
  ask : Int
  bidSize : Int
  askSize : Int
  instrumentId : Nat
  flags : Nat
  fits : ∀ x ∈ [eventTimeNs, receiveTimeNs, bid, ask, bidSize, askSize], Fits x

/-- Trade first, then post-trade quote.  Aggressor: -1 sell, +1 buy, 0 no trade. -/
structure QueueEvent where
  book : BookEvent
  tradePrice : Int
  tradeSize : Int
  aggressor : Int
  reserved : Nat
  fits : Fits tradePrice ∧ Fits tradeSize

structure QueueAudit where
  limitPrice : Int
  ahead : Int
  initialAhead : Int
  arrivalSequence : Nat
  arrivalTimeNs : Int
deriving DecidableEq

inductive OrderStatus
  | opened
  | filled
  | cancelled
  | riskRejected
  | arrivalRejected
deriving DecidableEq, Repr

structure ReplayOrder where
  id : Nat
  sequence : Nat
  timestampNs : Int
  quantity : Int
  remaining : Int
  instrumentId : Nat
  status : OrderStatus
deriving DecidableEq

structure ReplayFill where
  orderId : Nat
  sequence : Nat
  timestampNs : Int
  quantity : Int
  price : Int
  fee : Int
  instrumentId : Nat
deriving DecidableEq

/-- `pending` is the id of the order at work, or 0. -/
structure InstrumentState where
  position : Int
  bid : Int
  countdown : Nat
  pending : Nat
  targetLong : Bool
deriving DecidableEq

structure State where
  instruments : List InstrumentState
  orders : List ReplayOrder
  fills : List ReplayFill
  queues : List QueueAudit
  cash : Int
  processed : Nat
  lastReceiveTimeNs : Int
  totalFees : Int
deriving DecidableEq

namespace State

@[simps]
def setInstrument (self : State) (i : Nat) (state : InstrumentState) : State :=
  { self with instruments := self.instruments.set i state }

@[simps]
def setOrder (self : State) (k : Nat) (order : ReplayOrder) : State :=
  { self with orders := self.orders.set k order }

@[simps]
def setQueue (self : State) (k : Nat) (queue : QueueAudit) : State :=
  { self with queues := self.queues.set k queue }

end State

/-! ## Configuration -/

structure Arguments where
  instruments : Nat
  cash : Int
  targetLots : Int
  rebalanceEvents : Nat
  feePpm : Nat
  latencyNs : Int
  auditCapacity : Nat
  maximumFeedAgeNs : Int
  executionModel : String
  fits : ∀ x ∈ [cash, targetLots, latencyNs, maximumFeedAgeNs], Fits x

def Arguments.Refused (arguments : Arguments) : Prop :=
  arguments.instruments = 0 ∨ arguments.instruments > 4096 ∨ arguments.cash < 0 ∨
    arguments.targetLots ≤ 0 ∨ arguments.rebalanceEvents = 0 ∨ arguments.feePpm > 1000000 ∨
    arguments.latencyNs < 0 ∨ arguments.auditCapacity = 0 ∨ arguments.auditCapacity > 10000000 ∨
    arguments.maximumFeedAgeNs < 0 ∨
    (arguments.executionModel ≠ "market" ∧ arguments.executionModel ≠ "fifo")

instance (arguments : Arguments) : Decidable arguments.Refused := by
  unfold Arguments.Refused
  exact inferInstance

structure Config extends Arguments where
  accepted : ¬ toArguments.Refused

def Config.fifo (config : Config) : Bool := config.executionModel == "fifo"

/-- The object behind the lock. -/
structure Backtester where
  state : State
  failed : Bool

def initialState (config : Config) : State where
  instruments := List.replicate config.instruments
    { position := 0, bid := 0, countdown := config.rebalanceEvents, pending := 0,
      targetLong := false }
  orders := []
  fills := []
  queues := []
  cash := config.cash
  processed := 0
  lastReceiveTimeNs := 0
  totalFees := 0

def construct (arguments : Arguments) : Except Failure (Config × Backtester) :=
  if refused : arguments.Refused then
    .error (.invalidArgument "invalid top-of-book backtest configuration")
  else
    .ok (⟨arguments, refused⟩, ⟨initialState ⟨arguments, refused⟩, false⟩)

/-! ## Checked arithmetic -/

def int64 (x : Int) : Except Failure Int := signed .undefinedBehaviour x

def access {α : Type} (xs : List α) (index : Nat) : Except Failure α :=
  element .undefinedBehaviour xs index

def checkedAdd (a b : Int) : Except Failure Int :=
  if a < 0 ∨ b < 0 ∨ a > int64Max - b then
    .error (.overflowError "backtest monetary addition overflow")
  else
    int64 (a + b)

def checkedProduct (a b : Int) : Except Failure Int :=
  if a < 0 ∨ b < 0 ∨ (b ≠ 0 ∧ a > int64Max.tdiv b) then
    .error (.overflowError "backtest monetary multiplication overflow")
  else
    int64 (a * b)

/-! ## Filling -/

/-- Nonnegative fees, rounded up to the smallest configured monetary unit. -/
def feeOf (feePpm : Nat) (notional : Int) : Except Failure Int := do
  let whole ← int64 (notional.tdiv 1000000 * feePpm)
  let part ← int64 (notional.tmod 1000000 * feePpm)
  let raised ← int64 (part + 999999)
  int64 (whole + raised.tdiv 1000000)

def isBuy (order : ReplayOrder) : Bool := decide (order.remaining > 0)

def outstandingLots (order : ReplayOrder) : Except Failure Int :=
  if isBuy order then .ok order.remaining else int64 (-order.remaining)

def exceedsCash (buy : Bool) (cash notional fee : Int) : Except Failure Bool :=
  if buy = false then .ok false
  else if notional > cash then .ok true
  else do
    let rest ← int64 (cash - notional)
    return decide (fee > rest)

def cashAfter (buy : Bool) (cash notional fee : Int) : Except Failure Int :=
  if buy then do
    let rest ← int64 (cash - notional)
    int64 (rest - fee)
  else do
    let proceeds ← int64 (notional - fee)
    checkedAdd cash proceeds

def signedLots (buy : Bool) (quantity : Int) : Except Failure Int :=
  if buy then .ok quantity else int64 (-quantity)

/-- The part of `fill` after the risk check. -/
def execute (config : Config) (event : BookEvent) (i k : Nat) (state : InstrumentState)
    (order : ReplayOrder) (quantity price notional fee : Int) (self : State) :
    Except Failure State :=
  if self.fills.length = config.auditCapacity then
    .error (.runtimeError "fill audit capacity exhausted")
  else do
    let nextCash ← cashAfter (isBuy order) self.cash notional fee
    let nextFees ← checkedAdd self.totalFees fee
    let signedQuantity ← signedLots (isBuy order) quantity
    let position ← int64 (state.position + signedQuantity)
    let remaining ← int64 (order.remaining - signedQuantity)
    .ok
      { (self.setInstrument i
            { state with
              position
              pending := if remaining = 0 then 0 else state.pending }).setOrder k
          { order with
            remaining
            status := if remaining = 0 then .filled else order.status } with
        cash := nextCash
        totalFees := nextFees
        fills := self.fills ++
          [{ orderId := order.id, sequence := event.sequence,
             timestampNs := event.receiveTimeNs, quantity := signedQuantity, price, fee,
             instrumentId := event.instrumentId }] }

def fill (config : Config) (event : BookEvent) (i k : Nat) (available price : Int)
    (self : State) : Except Failure State := do
  let state ← access self.instruments i
  let order ← access self.orders k
  let outstanding ← outstandingLots order
  let quantity := min outstanding available
  if quantity = 0 then .ok self
  else do
    let notional ← checkedProduct quantity price
    let fee ← feeOf config.feePpm notional
    let refused ← exceedsCash (isBuy order) self.cash notional fee
    if refused then
      .ok ((self.setOrder k { order with status := .riskRejected }).setInstrument i
        { state with pending := 0 })
    else
      execute config event i k state order quantity price notional fee self

/-! ## The queue ahead of a resting order -/

/-- Post-only, best-price arrivals only: no inference about hidden levels. -/
def ArrivalRefused (book : BookEvent) (buy : Bool) (limitPrice : Int) : Prop :=
  limitPrice ≠ (if buy then book.bid else book.ask) ∨
    (if buy then limitPrice ≥ book.ask else limitPrice ≤ book.bid)

instance (book : BookEvent) (buy : Bool) (limitPrice : Int) :
    Decidable (ArrivalRefused book buy limitPrice) := by
  unfold ArrivalRefused
  exact inferInstance

def processQueue (config : Config) (event : QueueEvent) (i k : Nat) (self : State) :
    Except (Raised Failure State) State := do
  let state ← raiseIn self (access self.instruments i)
  let order ← raiseIn self (access self.orders k)
  let queue ← raiseIn self (access self.queues (order.id - 1))
  let buy := isBuy order
  if queue.arrivalTimeNs < 0 then do
    let waited ← raiseIn self (int64 (event.book.receiveTimeNs - order.timestampNs))
    if waited < config.latencyNs then .ok self
    else if ArrivalRefused event.book buy queue.limitPrice then
      .ok ((self.setOrder k { order with status := .arrivalRejected }).setInstrument i
        { state with pending := 0 })
    else
      -- The event's trade precedes this arrival, even at equal timestamps.
      let displayed := if buy then event.book.bidSize else event.book.askSize
      .ok (self.setQueue (order.id - 1)
        { queue with
          ahead := displayed
          initialAhead := displayed
          arrivalSequence := event.book.sequence
          arrivalTimeNs := event.book.receiveTimeNs })
  else if event.tradePrice ≠ queue.limitPrice ∨ event.aggressor ≠ (if buy then -1 else 1) then
    .ok self
  else do
    let consumed := min queue.ahead event.tradeSize
    let ahead ← raiseIn self (int64 (queue.ahead - consumed))
    let self := self.setQueue (order.id - 1) { queue with ahead }
    let available ← raiseIn self (int64 (event.tradeSize - consumed))
    raiseIn self (fill config event.book i k available queue.limitPrice self)

/-! ## One event -/

def invalidBookEvent : Failure :=
  .invalidArgument "invalid, gapped, reordered, or unsupported book event"

def checkEvent (config : Config) (event : BookEvent) (self : State) : Except Failure Unit :=
  if event.sequence ≠ self.processed ∨ self.processed = uint64Max ∨
      event.instrumentId ≥ self.instruments.length ∨ event.flags ≠ 0 ∨
      event.eventTimeNs < 0 ∨ event.receiveTimeNs < event.eventTimeNs then
    .error invalidBookEvent
  else do
    let age ← int64 (event.receiveTimeNs - event.eventTimeNs)
    if age > config.maximumFeedAgeNs ∨
        (self.processed ≠ 0 ∧ event.receiveTimeNs < self.lastReceiveTimeNs) ∨
        event.bid ≤ 0 ∨ event.ask < event.bid ∨ event.bidSize < 0 ∨ event.askSize < 0 then
      .error invalidBookEvent
    else
      .ok ()

/-- What the event does to the order at work. -/
def matchPending (config : Config) (event : BookEvent) (queueEvent : Option QueueEvent)
    (i : Nat) (self : State) : Except (Raised Failure State) State := do
  let state ← raiseIn self (access self.instruments i)
  if state.pending = 0 then .ok self
  else do
    let k := state.pending - 1
    let order ← raiseIn self (access self.orders k)
    match queueEvent with
    | some queueEvent => processQueue config queueEvent i k self
    | none => do
        -- Difference cannot overflow: both receive times are nonnegative and ordered.
        let waited ← raiseIn self (int64 (event.receiveTimeNs - order.timestampNs))
        if waited ≥ config.latencyNs then
          let buy := isBuy order
          raiseIn self (fill config event i k (if buy then event.askSize else event.bidSize)
            (if buy then event.ask else event.bid) self)
        else
          .ok self

/-- `--countdown` on an unsigned counter. -/
def decrement (countdown : Nat) : Nat := if countdown = 0 then uint64Max else countdown - 1

def cancelPending (i : Nat) (state : InstrumentState) (self : State) : Except Failure State :=
  if state.pending = 0 then .ok (self.setInstrument i state)
  else do
    let order ← access self.orders (state.pending - 1)
    return (self.setOrder (state.pending - 1) { order with status := .cancelled }).setInstrument i
      { state with pending := 0 }

def newOrder (event : BookEvent) (id : Nat) (quantity : Int) : ReplayOrder where
  id := id
  sequence := event.sequence
  timestampNs := event.receiveTimeNs
  quantity := quantity
  remaining := quantity
  instrumentId := event.instrumentId
  status := .opened

def newQueue (event : BookEvent) (quantity : Int) : QueueAudit where
  limitPrice := if quantity > 0 then event.bid else event.ask
  ahead := 0
  initialAhead := 0
  arrivalSequence := uint64Max
  arrivalTimeNs := -1

def target (config : Config) (state : InstrumentState) : Int :=
  if state.targetLong then config.targetLots else 0

/-- A new order for the rest of the way to the target. -/
def submit (config : Config) (event : BookEvent) (i : Nat) (self : State) :
    Except Failure State := do
  let state ← access self.instruments i
  let quantity ← int64 (target config state - state.position)
  if quantity = 0 then .ok self
  else if self.orders.length = config.auditCapacity then
    .error (.runtimeError "order audit capacity exhausted")
  else
    let id := self.orders.length + 1
    .ok
      { self.setInstrument i { state with pending := id } with
        orders := self.orders ++ [newOrder event id quantity]
        queues :=
          if config.fifo then self.queues ++ [newQueue event quantity] else self.queues }

def rebalance (config : Config) (event : BookEvent) (i : Nat) (self : State) :
    Except (Raised Failure State) State := do
  let state ← raiseIn self (access self.instruments i)
  let countdown := decrement state.countdown
  if countdown ≠ 0 then .ok (self.setInstrument i { state with countdown })
  else do
    let signalled :=
      { state with countdown := config.rebalanceEvents, targetLong := !state.targetLong }
    let cancelled ← raiseIn (self.setInstrument i signalled) (cancelPending i signalled self)
    raiseIn cancelled (submit config event i cancelled)

def process (config : Config) (event : BookEvent) (queueEvent : Option QueueEvent)
    (self : State) : Except (Raised Failure State) State := do
  raiseIn self (checkEvent config event self)
  let i := event.instrumentId
  let state ← raiseIn self (access self.instruments i)
  let marked := self.setInstrument i { state with bid := event.bid }
  let matched ← matchPending config event queueEvent i marked
  let rebalanced ← rebalance config event i matched
  .ok
    { rebalanced with
      lastReceiveTimeNs := event.receiveTimeNs
      processed := rebalanced.processed + 1 }

/-! ## Batches -/

inductive Observation
  | book (event : BookEvent)
  | queue (event : QueueEvent)

def Observation.event : Observation → BookEvent
  | .book event => event
  | .queue event => event.book

def Observation.queueEvent : Observation → Option QueueEvent
  | .book _ => none
  | .queue event => some event

def checkQueueEvent (event : QueueEvent) : Except Failure Unit :=
  if event.reserved ≠ 0 ∨ event.tradeSize < 0 ∨
      (event.tradeSize = 0 ∧ (event.aggressor ≠ 0 ∨ event.tradePrice ≠ 0)) ∨
      (event.tradeSize > 0 ∧
        (event.tradePrice ≤ 0 ∨ (event.aggressor ≠ -1 ∧ event.aggressor ≠ 1))) then
    .error (.invalidArgument "invalid queue trade event")
  else
    .ok ()

/-- One round of a batch loop. -/
def observe (config : Config) (self : State) :
    Observation → Except (Raised Failure State) State
  | .book event => process config event none self
  | .queue event => do
      raiseIn self (checkQueueEvent event)
      process config event.book (some event) self

/-- A buffer as `request` describes it. -/
structure EventArray (α : Type) where
  ndim : Nat
  aligned : Bool
  items : List α

/-- Earlier events may have been applied.  Never publish them as a valid run. -/
def runBatch (config : Config) (batch : List Observation) (self : Backtester) :
    Except Failure Nat × Backtester :=
  match batch.foldlM (observe config) self.state with
  | .ok state => (.ok batch.length, { self with state })
  | .error raised => (.error raised.error, ⟨raised.state, true⟩)

def inUse : Failure := .runtimeError "backtest is already in use"

/-- The two batch calls differ in mode, texts and loop; `locked` says whether
`try_to_lock` got the lock. -/
def admitBatch {α : Type} (config : Config) (wrongMode : Bool) (modeText shapeText : String)
    (read : α → Observation) (events : EventArray α) (locked : Bool) (self : Backtester) :
    Except Failure Nat × Backtester :=
  if wrongMode then (.error (.invalidArgument modeText), self)
  else if events.ndim ≠ 1 ∨ events.aligned = false then
    (.error (.invalidArgument shapeText), self)
  else if locked = false then (.error inUse, self)
  else if self.failed then
    (.error (.runtimeError "backtest is failed; create a new instance"), self)
  else runBatch config (events.items.map read) self

def processBatch (config : Config) (events : EventArray BookEvent) (locked : Bool)
    (self : Backtester) : Except Failure Nat × Backtester :=
  admitBatch config config.fifo
    "FIFO execution requires process_queue_batch and trade events"
    "book events must be one-dimensional and aligned" .book events locked self

def processQueueBatch (config : Config) (events : EventArray QueueEvent) (locked : Bool)
    (self : Backtester) : Except Failure Nat × Backtester :=
  admitBatch config (!config.fifo)
    "queue events require execution_model='fifo'"
    "queue events must be one-dimensional and aligned" .queue events locked self

/-! ## Results -/

structure Report where
  processed : Nat
  cash : Int
  equity : Int
  netPnl : Int
  totalFees : Int
  positions : List Int
  orders : List ReplayOrder
  fills : List ReplayFill
  queues : Option (List QueueAudit)

def equityOf (self : State) : Except Failure Int :=
  self.instruments.foldlM
    (fun equity state => do
      let value ← checkedProduct state.position state.bid
      checkedAdd equity value)
    self.cash

def result (config : Config) (locked : Bool) (self : Backtester) :
    Except Failure Report × Backtester :=
  if locked = false then (.error inUse, self)
  else if self.failed then (.error (.runtimeError "cannot publish a failed backtest"), self)
  else
    match equityOf self.state with
    | .error error => (.error error, { self with failed := true })
    | .ok equity =>
        (do
          let netPnl ← int64 (equity - config.cash)
          return {
            processed := self.state.processed
            cash := self.state.cash
            equity
            netPnl
            totalFees := self.state.totalFees
            positions := self.state.instruments.map InstrumentState.position
            orders := self.state.orders
            fills := self.state.fills
            queues := if config.fifo then some self.state.queues else none },
          self)

/-! ## Histories of calls -/

inductive Call
  | processBatch (events : EventArray BookEvent)
  | processQueueBatch (events : EventArray QueueEvent)
  | result

/-- A call, and whether it found the backtester free. -/
structure Attempt where
  call : Call
  locked : Bool

inductive Reply
  | processed (count : Nat)
  | report (report : Report)

def attempt (config : Config) (self : Backtester) (made : Attempt) :
    Except Failure Reply × Backtester :=
  match made.call with
  | .processBatch events =>
      let (reply, after) := processBatch config events made.locked self
      (reply.map .processed, after)
  | .processQueueBatch events =>
      let (reply, after) := processQueueBatch config events made.locked self
      (reply.map .processed, after)
  | .result =>
      let (reply, after) := result config made.locked self
      (reply.map .report, after)

def attempts (config : Config) : Backtester → List Attempt →
    List (Except Failure Reply) × Backtester
  | self, [] => ([], self)
  | self, made :: later =>
      let (reply, next) := attempt config self made
      let (replies, final) := attempts config next later
      (reply :: replies, final)

end Gambit.TopOfBook
