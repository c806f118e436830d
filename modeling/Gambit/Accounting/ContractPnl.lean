import Gambit.Accounting.Boundaries
import Gambit.Accounting.ComputePnl
import Gambit.Lib.Raising
import Gambit.Lib.SortedDict

/-!
# The single-contract position and P&L ledger

contract_pnl.py.  The trade ledger is keyed by trade timestamp, the net P&L
cache by the timestamps that were valued; both are read at the last key at or
before a timestamp.
-/

set_option autoImplicit false

namespace Gambit

open ComputePnl Raising

/-- `snapshot_trade`: the validated trade with its order as it then read. -/
structure BookedTrade where
  contract : Contract
  orderId : OrderId
  order : Order
  timestamp : Timestamp
  qty : Int
  price : ℚ
  fee : ℚ
  commission : ℚ
deriving DecidableEq, Repr

/-- The index of the last key at or before `key`, or -1. -/
def findIndexBefore {ν : Type} (sortedDict : SortedDict Timestamp ν) (key : Timestamp) : Int :=
  let size := sortedDict.items.length
  if size = 0 then -1
  else
    let i := sortedDict.bisectLeft key
    if i = size then size - 1
    else if sortedDict.keys[i]? ≠ some key then i - 1
    else i

/-- `find_index_before` followed by `peekitem`, as every caller does. -/
def itemBefore {ν : Type} (sortedDict : SortedDict Timestamp ν) (key : Timestamp) :
    Option (Timestamp × ν) :=
  let index := findIndexBefore sortedDict key
  if index = -1 then none else sortedDict.peekItem index.toNat

/-- A row of `_trade_pnl`. -/
structure LedgerEntry where
  position : Int
  realized : ℚ
  fee : ℚ
  commission : ℚ
  openQty : Int
  weightedAvgPrice : ℚ
deriving DecidableEq, Repr

def LedgerEntry.zero : LedgerEntry := ⟨0, 0, 0, 0, 0, 0⟩

/-- A row of `_net_pnl`; a missing price is NaN. -/
structure NetEntry where
  price : Option ℚ
  openQty : Int
  unrealized : ℚ
  netPnl : ℚ
deriving DecidableEq, Repr

/-- What a ledger is given when it is made. -/
structure Valuation where
  accountTimestamps : Grid
  priceFunction : Contract → Nat → Except Exn Scalar

structure ContractPnl where
  contract : Contract
  tradePnl : SortedDict Timestamp LedgerEntry
  netPnl : SortedDict Timestamp NetEntry
  openQtys : List Int
  openPrices : List ℚ
  firstTradeTimestamp : Option Timestamp
  /-- Not recorded yet while NaN. -/
  finalPnl : Option ℚ
  newTradesAdded : Bool
deriving DecidableEq

namespace ContractPnl

def new (contract : Contract) : ContractPnl :=
  ⟨contract, .empty, .empty, [], [], none, none, false⟩

/-- `contract.expiry is not None and timestamp > contract.expiry`. -/
def expired (self : ContractPnl) (timestamp : Timestamp) : Bool :=
  self.contract.expiry.any (· < timestamp)

def record (self : ContractPnl) (timestamp : Timestamp) (totals : LedgerEntry) (price : Option ℚ)
    (unrealized : ℚ) : ContractPnl :=
  let netPnl := totals.realized + unrealized - totals.commission - totals.fee
  { self with
    netPnl := self.netPnl.set timestamp ⟨price, totals.openQty, unrealized, netPnl⟩
    finalPnl := if self.expired timestamp then some netPnl else self.finalPnl
    newTradesAdded := false }

def calcNetPnl (valuation : Valuation) (timestamp : Timestamp) (self : ContractPnl) :
    Except (Raised Exn ContractPnl) ContractPnl :=
  if self.netPnl.contains timestamp && !self.newTradesAdded then .ok self
  else if self.firstTradeTimestamp.all (timestamp < ·) then .ok self
  else if self.expired timestamp && self.finalPnl.isSome then .ok self
  else do
    let i ← raiseIn self (timestampIndex valuation.accountTimestamps timestamp)
    let totals := (itemBefore self.tradePnl timestamp).elim LedgerEntry.zero Prod.snd
    if totals.openQty = 0 then
      .ok (self.record timestamp totals none 0)
    else
      let value ← raiseIn self (valuation.priceFunction self.contract i)
      match ← raiseIn self (validatePriceValue value) with
      | none =>
          let prevUnrealized := (itemBefore self.netPnl timestamp).elim 0 fun item => item.2.unrealized
          .ok (self.record timestamp totals none prevUnrealized)
      | some price =>
          .ok (self.record timestamp totals (some price)
            (totals.openQty * (price - totals.weightedAvgPrice) * self.contract.multiplier))

def validateTradeChronology (self : ContractPnl) (trades : List BookedTrade) : Except Exn Unit :=
  match npUnique (trades.map BookedTrade.timestamp), self.tradePnl.items.getLast? with
  | first :: _, some (prevMaxTimestamp, _) =>
      if first < prevMaxTimestamp then
        .error (.valueError "trades can only be added with non-decreasing timestamps")
      else .ok ()
  | _, _ => .ok ()

def weightedAvgPrice (openQtys : List Int) (openPrices : List ℚ) : ℚ :=
  let openQty := openQtys.sum
  if openQty = 0 then 0
  else (List.zipWith (fun (qty : Int) price => (qty : ℚ) * price) openQtys openPrices).sum / openQty

/-- One iteration of the loop over the batch's timestamps. -/
def addTradesAt (valuation : Valuation) (trades : List BookedTrade) (self : ContractPnl)
    (timestamp : Timestamp) : Except (Raised Exn ContractPnl) ContractPnl := do
  let tTrades := trades.filter fun trade => trade.timestamp = timestamp
  let pnl ← raiseIn self (calcTradePnl self.openQtys self.openPrices
    (tTrades.map BookedTrade.qty) (tTrades.map BookedTrade.price) self.contract.multiplier)
  let positionChg := (tTrades.map BookedTrade.qty).sum
  let commissionChg := (tTrades.map BookedTrade.commission).sum
  let feeChg := (tTrades.map BookedTrade.fee).sum
  let prev := (itemBefore self.tradePnl timestamp).elim LedgerEntry.zero Prod.snd
  calcNetPnl valuation timestamp { self with
    openQtys := pnl.openQtys
    openPrices := pnl.openPrices
    tradePnl := self.tradePnl.set timestamp
      ⟨prev.position + positionChg, prev.realized + pnl.realized, prev.fee + feeChg,
        prev.commission + commissionChg, pnl.openQtys.sum,
        weightedAvgPrice pnl.openQtys pnl.openPrices⟩ }

def addTrades (valuation : Valuation) (trades : List BookedTrade) (self : ContractPnl) :
    Except (Raised Exn ContractPnl) ContractPnl :=
  match npUnique (trades.map BookedTrade.timestamp) with
  | [] => .ok self
  | first :: later => do
      let _ ← raiseIn self (self.validateTradeChronology trades)
      (first :: later).foldlM (addTradesAt valuation trades) { self with
        netPnl := self.netPnl.dropFrom first
        firstTradeTimestamp := some (self.firstTradeTimestamp.getD first)
        newTradesAdded := true }

def position (self : ContractPnl) (timestamp : Timestamp) : Int :=
  (itemBefore self.tradePnl timestamp).elim 0 fun item => item.2.position

def netPnlAt (self : ContractPnl) (timestamp : Timestamp) : ℚ :=
  match self.expired timestamp, self.finalPnl with
  | true, some finalPnl => finalPnl
  | _, _ => (itemBefore self.netPnl timestamp).elim 0 fun item => item.2.netPnl

/-- `_snapshot_state`: every field but the contract. -/
structure State where
  tradePnl : SortedDict Timestamp LedgerEntry
  netPnl : SortedDict Timestamp NetEntry
  openQtys : List Int
  openPrices : List ℚ
  firstTradeTimestamp : Option Timestamp
  finalPnl : Option ℚ
  newTradesAdded : Bool

def snapshotState (self : ContractPnl) : State :=
  ⟨self.tradePnl, self.netPnl, self.openQtys, self.openPrices, self.firstTradeTimestamp,
    self.finalPnl, self.newTradesAdded⟩

def restoreState (self : ContractPnl) (state : State) : ContractPnl :=
  { self with
    tradePnl := state.tradePnl
    netPnl := state.netPnl
    openQtys := state.openQtys
    openPrices := state.openPrices
    firstTradeTimestamp := state.firstTradeTimestamp
    finalPnl := state.finalPnl
    newTradesAdded := state.newTradesAdded }

end ContractPnl

/-! ## Reading a sorted dictionary at a timestamp -/

theorem itemBefore_eq {ν : Type} (d : SortedDict Timestamp ν) (key : Timestamp) :
    itemBefore d key = (d.upTo key).getLast? := by
  rw [SortedDict.upTo_getLast?_eq_bisect]
  obtain ⟨before, after, split, lengthEq, less, reached⟩ := d.bisectLeft_split key
  unfold itemBefore findIndexBefore SortedDict.keys SortedDict.peekItem
  simp only [← lengthEq]
  cases after with
  | nil =>
      rw [List.append_nil] at split
      rw [split, List.getElem?_eq_none_iff.mpr le_rfl]
      cases last : before.getLast? with
      | none =>
          rw [List.getLast?_eq_none_iff] at last
          subst last
          simp
      | some item =>
          have nonempty : before ≠ [] := by
            rintro rfl
            cases last
          have positive := List.length_pos_of_ne_nil nonempty
          rw [if_neg (by omega), if_pos rfl, if_neg (by omega), ← last, List.getLast?_eq_getElem?]
          congr 1
          omega
  | cons head rest =>
      have lengthNe : before.length ≠ d.items.length := by
        rw [split]
        simp
      have nonempty : d.items.length ≠ 0 := by
        rw [split]
        simp
      have atHead : d.items[before.length]? = some head := by
        rw [split, List.getElem?_append_right le_rfl, Nat.sub_self]
        rfl
      rw [if_neg nonempty, if_neg lengthNe, atHead, List.getElem?_map, atHead]
      simp only [Option.map_some]
      by_cases same : head.1 = key
      · simp only [same, ne_eq, not_true_eq_false, if_false, if_true]
        rw [if_neg (by omega), Int.toNat_natCast, atHead]
      · have differs : some head.1 ≠ some key := fun e => same (Option.some.inj e)
        rw [if_pos differs, if_neg same, split, List.take_left]
        cases before with
        | nil => simp
        | cons first before =>
            have positive : ((first :: before).length : Int) - 1 ≠ -1 := by
              simp only [List.length_cons]
              omega
            have position : (((first :: before).length : Int) - 1).toNat =
                (first :: before).length - 1 := by
              omega
            rw [if_neg positive, position, List.getLast?_eq_getElem?,
              List.getElem?_append_left (by simp)]

theorem itemBefore_eq_some_iff {ν : Type} (d : SortedDict Timestamp ν) (key : Timestamp)
    (item : Timestamp × ν) :
    itemBefore d key = some item ↔
      item ∈ d.items ∧ item.1 ≤ key ∧ ∀ other ∈ d.items, other.1 ≤ key → other.1 ≤ item.1 := by
  rw [itemBefore_eq, SortedDict.upTo_getLast?_eq_some_iff]

theorem itemBefore_eq_none_iff {ν : Type} (d : SortedDict Timestamp ν) (key : Timestamp) :
    itemBefore d key = none ↔ ∀ item ∈ d.items, key < item.1 := by
  rw [itemBefore_eq, SortedDict.upTo_getLast?_eq_none_iff]

end Gambit
