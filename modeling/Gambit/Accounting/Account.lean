import Gambit.Accounting.ContractPnl
import Gambit.Lib.OrderedDict

/-!
# The account

account.py.  An account keeps one ledger object for each traded contract.  A
ledger object is referred to by its symbol, so the group index and a snapshot
of the symbol index hold symbols, and the content of the object is what
`symbolPnls` holds under its symbol now.
-/

set_option autoImplicit false

namespace Gambit

open Raising

/-- What `Account.__init__` lets through.  The price function is passed apart. -/
structure AccountSetup where
  contractGroups : List String
  groupsNonempty : contractGroups ≠ []
  groupsUnique : contractGroups.Nodup
  registry : Registry
  timestamps : Grid
  startingEquity : ℚ
  startingEquityPositive : 0 < startingEquity
  pnlCalcTime : Nat
  pnlCalcTimeWithinDay : pnlCalcTime < 24 * 60

abbrev PriceFunction := Contract → Nat → Except Exn Scalar

def AccountSetup.valuation (setup : AccountSetup) (priceFunction : PriceFunction) : Valuation :=
  ⟨setup.timestamps, priceFunction⟩

/-- `_get_calc_timestamps`: the last timestamp of each date that is not after
the time of day at which P&L is calculated. -/
def getCalcTimestamps (timestamps : List Timestamp) (pnlCalcTime : Nat) : List Timestamp :=
  let dates := npUnique (timestamps.map day)
  let dayStarts := dates.map fun date => searchsorted timestamps (date * nanosPerDay)
  let targetEnds := dates.map fun date =>
    searchsortedRight timestamps (date * nanosPerDay + pnlCalcTime * nanosPerMinute)
  (dayStarts.zip targetEnds).filterMap fun (dayStart, targetEnd) =>
    if dayStart < targetEnd then timestamps[targetEnd - 1]? else none

def AccountSetup.calcTimestamps (setup : AccountSetup) : List Timestamp :=
  getCalcTimestamps setup.timestamps.timestamps setup.pnlCalcTime

structure Account where
  contracts : OrderedDict String Contract
  trades : List BookedTrade
  tradesForDate : OrderedDict (String × Int) (List BookedTrade)
  pnl : SortedDict Timestamp ℚ
  symbolPnlsByContractGroup : OrderedDict String (List String)
  symbolPnls : OrderedDict String ContractPnl
deriving DecidableEq

/-- `_AccountTradeState` -/
structure AccountTradeState where
  contractStates : OrderedDict String ContractPnl.State
  contracts : OrderedDict String Contract
  symbolPnls : OrderedDict String String
  groupPnls : OrderedDict String (List String)
  trades : List BookedTrade
  tradesForDate : OrderedDict (String × Int) (List BookedTrade)
  pnl : SortedDict Timestamp ℚ

/-- The validation loop of `add_trades` on one trade, and the detached trade it
goes on with. -/
def bookTrade (setup : AccountSetup) (orders : OrderId → Order) (trade : Trade) :
    Except Exn BookedTrade := do
  let order := orders trade.order
  validateTradeReferences trade order
  let numbers ← validatedTradeNumbers trade
  let _ ← timestampIndex setup.timestamps trade.timestamp
  let contract := trade.contract
  if contract.contractGroup ∉ setup.contractGroups then
    .error (.valueError "trade contract is outside the account's configured contract groups")
  if (setup.registry.groupContracts contract.contractGroup).find?
      (fun registered => registered.symbol = contract.symbol) ≠ some contract then
    .error (.valueError "trade contract is not registered in its contract group")
  .ok ⟨contract, trade.order, order, trade.timestamp, numbers.qty, numbers.price, numbers.fee,
    numbers.commission⟩

/-- `sorted(..., key=timestamp)`, which is stable. -/
def sortByTimestamp (trades : List BookedTrade) : List BookedTrade :=
  trades.insertionSort fun a b => a.timestamp ≤ b.timestamp

def bookTrades (setup : AccountSetup) (orders : OrderId → Order) (trades : List Trade) :
    Except Exn (List BookedTrade) := do
  let booked ← trades.mapM (bookTrade setup orders)
  .ok (sortByTimestamp booked)

namespace Account

def new : Account := ⟨.empty, [], .empty, .empty, .empty, .empty⟩

def addContract (contract : Contract) (self : Account) : Except (Raised Exn Account) Account :=
  if self.symbolPnls.contains contract.symbol then
    .error ⟨.valueError "account already contains contract symbol", self⟩
  else
    .ok { self with
      symbolPnls := self.symbolPnls.set contract.symbol (ContractPnl.new contract)
      symbolPnlsByContractGroup :=
        self.symbolPnlsByContractGroup.appendAt contract.contractGroup contract.symbol
      contracts := self.contracts.set contract.symbol contract }

/-- A method call on the ledger object of a symbol. -/
def onLedger (symbol : String) (method : Step Exn ContractPnl) : Step Exn Account := fun self =>
  match self.symbolPnls.get? symbol with
  | none => .error ⟨.keyError, self⟩
  | some ledger =>
      match method ledger with
      | .ok ledger => .ok { self with symbolPnls := self.symbolPnls.set symbol ledger }
      | .error raised =>
          .error ⟨raised.error,
            { self with symbolPnls := self.symbolPnls.set symbol raised.state }⟩

def snapshotTradeState (symbols : List String) (self : Account) : AccountTradeState where
  contractStates := self.symbolPnls.filterMapItems fun symbol ledger =>
    if symbol ∈ symbols then some ledger.snapshotState else none
  contracts := self.contracts
  symbolPnls := self.symbolPnls.mapItems fun symbol _ => symbol
  groupPnls := self.symbolPnlsByContractGroup
  trades := self.trades
  tradesForDate := self.tradesForDate
  pnl := self.pnl

/-- The ledger objects get their captured states back and the symbol index
refers to the objects it referred to. -/
def restoreTradeState (state : AccountTradeState) (self : Account) : Account where
  contracts := state.contracts
  trades := state.trades
  tradesForDate := state.tradesForDate
  pnl := state.pnl
  symbolPnlsByContractGroup := state.groupPnls
  symbolPnls :=
    let restored := self.symbolPnls.mapItems fun symbol ledger =>
      (state.contractStates.get? symbol).elim ledger ledger.restoreState
    state.symbolPnls.filterMapItems fun _ symbol => restored.get? symbol

/-- The `try` block of `add_trades`. -/
def updateTrades (valuation : Valuation) (trades : List BookedTrade)
    (tradesByContract : OrderedDict String (List BookedTrade)) : Step Exn Account := fun self => do
  let self ← trades.foldlM (fun self trade =>
    if self.contracts.contains trade.contract.symbol then .ok self
    else self.addContract trade.contract) self
  let self ← tradesByContract.items.foldlM (fun self (symbol, contractTrades) =>
    self.onLedger symbol (ContractPnl.addTrades valuation contractTrades)) self
  let self := { self with
    tradesForDate := trades.foldl (fun dated trade =>
      dated.appendAt (trade.contract.symbol, day trade.timestamp) trade) self.tradesForDate
    trades := self.trades ++ trades }
  match trades with
  | [] => .ok self
  | first :: _ => .ok { self with pnl := self.pnl.dropFrom first.timestamp }

def validateChronology (tradesByContract : OrderedDict String (List BookedTrade))
    (self : Account) : Except Exn Unit :=
  tradesByContract.items.forM fun (symbol, contractTrades) =>
    match self.symbolPnls.get? symbol with
    | none => .ok ()
    | some ledger => ledger.validateTradeChronology contractTrades

def addTrades (setup : AccountSetup) (priceFunction : PriceFunction) (orders : OrderId → Order)
    (trades : List Trade) : Step Exn Account := fun self => do
  let trades ← raiseIn self (bookTrades setup orders trades)
  let tradesByContract := OrderedDict.groupBy (fun trade => trade.contract.symbol) trades
  raiseIn self (self.validateChronology tradesByContract)
  let state := self.snapshotTradeState tradesByContract.keys
  match self.updateTrades (setup.valuation priceFunction) trades tradesByContract with
  | .ok self => .ok self
  | .error raised => .error ⟨raised.error, raised.state.restoreTradeState state⟩

/-- One iteration of the loop of `calc`. -/
def calcAt (valuation : Valuation) (self : Account) (ts : Timestamp) :
    Except (Raised Exn Account) Account := do
  let (self, netPnl) ← self.symbolPnls.keys.foldlM (fun (self, netPnl) symbol => do
    let self ← self.onLedger symbol (ContractPnl.calcNetPnl valuation ts)
    .ok (self, netPnl + (self.symbolPnls.get? symbol).elim 0 fun ledger => ledger.netPnlAt ts))
    (self, (0 : ℚ))
  .ok { self with pnl := self.pnl.set ts netPnl }

def intermediateCalcTimestamps (setup : AccountSetup) (timestamp : Timestamp) (self : Account) :
    List Timestamp :=
  let due := setup.calcTimestamps.filter (· ≤ timestamp)
  let due := match itemBefore self.pnl timestamp with
    | none => due
    | some (prevTimestamp, _) => due.filter (prevTimestamp < ·)
  if due.getLast? = some timestamp then due else due ++ [timestamp]

/-- `calc` -/
def calcPnl (setup : AccountSetup) (priceFunction : PriceFunction) (timestamp : Timestamp) :
    Step Exn Account := fun self => do
  let _ ← raiseIn self (timestampIndex setup.timestamps timestamp)
  let due := self.intermediateCalcTimestamps setup timestamp
  if self.pnl.contains timestamp then .ok self
  else due.foldlM (calcAt (setup.valuation priceFunction)) self

def equity (setup : AccountSetup) (priceFunction : PriceFunction) (timestamp : Timestamp)
    (self : Account) : Except (Raised Exn Account) (Account × ℚ) :=
  match self.pnl.get? timestamp with
  | some pnl => .ok (self, setup.startingEquity + pnl)
  | none => do
      let self ← self.calcPnl setup priceFunction timestamp
      match self.pnl.get? timestamp with
      | some pnl => .ok (self, setup.startingEquity + pnl)
      | none => .error ⟨.keyError, self⟩

def requireConfiguredGroup (setup : AccountSetup) (group : String) : Except Exn Unit :=
  if group ∈ setup.contractGroups then .ok ()
  else .error (.valueError "contract group is not configured for this account")

def symbolPosition (self : Account) (timestamp : Timestamp) (symbol : String) : Int :=
  (self.symbolPnls.get? symbol).elim 0 fun ledger => ledger.position timestamp

/-- Looking the group up leaves it in the index. -/
def position (setup : AccountSetup) (group : String) (timestamp : Timestamp) (self : Account) :
    Except (Raised Exn Account) (Account × Int) := do
  raiseIn self (requireConfiguredGroup setup group)
  let self := { self with
    symbolPnlsByContractGroup := self.symbolPnlsByContractGroup.touch group }
  .ok (self, ((self.symbolPnlsByContractGroup.listAt group).map
    (self.symbolPosition timestamp)).sum)

def positions (setup : AccountSetup) (group : String) (timestamp : Timestamp) (self : Account) :
    Except Exn (List (Contract × Int)) := do
  requireConfiguredGroup setup group
  .ok ((setup.registry.groupContracts group).filterMap fun contract =>
    match self.symbolPnls.get? contract.symbol with
    | none => none
    | some ledger =>
        let position := ledger.position timestamp
        if position = 0 then none else some (contract, position))

def getTradesForDate (symbol : String) (date : Int) (self : Account) : List BookedTrade :=
  self.tradesForDate.listAt (symbol, date)

/-- `trades`, with no bound where a date is NaT; the range is refused when it is
reversed. -/
def tradesBetween (startDate endDate : Option Timestamp) (self : Account) :
    Except Exn (List BookedTrade) :=
  match startDate, endDate with
  | some start, some finish =>
      if finish < start then .error (.valueError "account trade query start date cannot be after end date")
      else .ok (self.trades.filter fun trade =>
        start ≤ trade.timestamp ∧ trade.timestamp ≤ finish)
  | _, _ => .ok (self.trades.filter fun trade =>
      startDate.all (· ≤ trade.timestamp) ∧ endDate.all (trade.timestamp ≤ ·))

end Account

/-- The public operations of an account. -/
inductive AccountCall where
  | addTrades (orders : OrderId → Order) (trades : List Trade)
  | calcPnl (timestamp : Timestamp)
  | equity (timestamp : Timestamp)
  | position (group : String) (timestamp : Timestamp)

/-- An account in use, with the trades of the accepted batches in the order in
which the account takes them. -/
structure Session where
  account : Account
  accepted : List BookedTrade

namespace Session

def new : Session := ⟨.new, []⟩

/-- One call, returned or raised. -/
def call (setup : AccountSetup) (priceFunction : PriceFunction) (self : Session) :
    AccountCall → Session
  | .addTrades orders trades =>
      match bookTrades setup orders trades, self.account.addTrades setup priceFunction orders trades with
      | .ok booked, .ok account => ⟨account, self.accepted ++ booked⟩
      | _, .ok account => { self with account }
      | _, .error raised => { self with account := raised.state }
  | .calcPnl timestamp =>
      match self.account.calcPnl setup priceFunction timestamp with
      | .ok account => { self with account }
      | .error raised => { self with account := raised.state }
  | .equity timestamp =>
      match self.account.equity setup priceFunction timestamp with
      | .ok (account, _) => { self with account }
      | .error raised => { self with account := raised.state }
  | .position group timestamp =>
      match self.account.position setup group timestamp with
      | .ok (account, _) => { self with account }
      | .error raised => { self with account := raised.state }

def run (setup : AccountSetup) (priceFunction : PriceFunction) (calls : List AccountCall)
    (self : Session) : Session :=
  calls.foldl (call setup priceFunction) self

end Session

/-! ## A small account

Two contracts, one of which expires at the second of four hours. -/

def sampleTime (hour : Int) : Timestamp := (9 + hour) * 60 * nanosPerMinute

def sampleStock : Contract := ⟨"IBM", "IBM", none, 1, .active⟩

def sampleFuture : Contract := ⟨"ESU9", "ES", some (sampleTime 1), 50, .active⟩

def sampleSetup : AccountSetup where
  contractGroups := ["IBM", "ES"]
  groupsNonempty := by decide
  groupsUnique := by decide
  registry := ⟨[sampleStock, sampleFuture], by decide⟩
  timestamps := ⟨[sampleTime 0, sampleTime 1, sampleTime 2, sampleTime 3], by decide, by decide⟩
  startingEquity := 1000000
  startingEquityPositive := by norm_num
  pnlCalcTime := 900
  pnlCalcTimeWithinDay := by decide

/-- Order 0 is for the stock and every other order for the future. -/
def sampleOrders (order : OrderId) : Order :=
  ⟨if order = 0 then sampleStock else sampleFuture, sampleTime 0, 10, .gtc, .open, .market, none, none⟩

def sampleTrade (order : OrderId) (hour : Int) (qty price : ℚ) : Trade :=
  ⟨(sampleOrders order).contract, order, sampleTime hour, qty, .real price, .real 0, .real 1⟩

end Gambit
