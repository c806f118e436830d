import Gambit.Accounting.ContractPnl
import Gambit.Lib.ObjectHeap
import Gambit.Lib.OrderedDict

/-!
# Round-trip trades

trade_reconciliation.py.  Trades and their property namespaces are mutable
objects on a heap: `roundtrip_trades` works on copies and writes their
quantities, commissions and indices.  Attribute values that user code put into
a namespace are opaque.
-/

set_option autoImplicit false

namespace Gambit.TradeReconciliation

open ComputePnl Raising

inductive Attribute (V : Type) where
  | whole (value : Nat)
  | user (value : V)
deriving DecidableEq, Repr

/-- A `SimpleNamespace`. -/
abbrev Namespace (V : Type) := OrderedDict String (Attribute V)

/-- A `Trade` object. -/
structure TradeObject extends BookedTrade where
  properties : Nat
deriving DecidableEq, Repr

structure Heap (V : Type) where
  trades : ObjectHeap TradeObject
  namespaces : ObjectHeap (Namespace V)

/-- NaT and NaN are `none`. -/
structure RoundTripTrade where
  contract : Contract
  entryOrder : OrderId
  exitOrder : Option OrderId
  entryTimestamp : Timestamp
  exitTimestamp : Option Timestamp
  qty : Int
  entryPrice : ℚ
  exitPrice : Option ℚ
  entryReason : Option String
  exitReason : Option String
  entryCommission : ℚ
  exitCommission : Option ℚ
  entryProperties : Nat
  exitProperties : Nat
  netPnl : ℚ
deriving DecidableEq, Repr

variable {V : Type}

def Heap.deepcopy (heap : Heap V) (properties : Nat) : Nat × Heap V :=
  let (copied, namespaces) := heap.namespaces.alloc (heap.namespaces.read properties)
  (copied, { heap with namespaces })

def Heap.setAttribute (heap : Heap V) (properties : Nat) (name : String) (value : Attribute V) :
    Heap V :=
  { heap with namespaces := heap.namespaces.modify properties fun held => held.set name value }

/-- The attribute `index`, an `AttributeError` where it is missing. -/
def Heap.index (heap : Heap V) (properties : Nat) : Except Exn Nat :=
  match (heap.namespaces.read properties).get? "index" with
  | some (.whole value) => .ok value
  | _ => .error (.raised "AttributeError" false)

/-- `abs(qty / whole)` -/
def absFraction (qty whole : Int) : Except Exn ℚ :=
  if whole = 0 then .error (.raised "ZeroDivisionError" false) else .ok |(qty : ℚ) / whole|

section Reconciliation

-- The reason codes of the orders, which are objects of their own.
variable (reasonCode : OrderId → String)

/-- The body of `_net_trade` behind its fractions: the round trip, and the
heap with both trades reduced by the matched quantity. -/
def closeOut (entry trade : Nat) (qty : Int) (entryFraction exitFraction : ℚ) (heap : Heap V) :
    RoundTripTrade × Heap V :=
  let entryTrade := heap.trades.read entry
  let exitTrade := heap.trades.read trade
  let pnl := qty * (exitTrade.price - entryTrade.price) * entryTrade.contract.multiplier
    - exitTrade.commission * exitFraction - entryTrade.commission * entryFraction
  let (entryProperties, heap) := heap.deepcopy entryTrade.properties
  let (exitProperties, heap) := heap.deepcopy exitTrade.properties
  let trades := heap.trades.modify entry fun held =>
    { held with qty := held.qty - qty, commission := held.commission * (1 - entryFraction) }
  let trades := trades.modify trade fun held =>
    { held with qty := held.qty + qty, commission := held.commission * (1 - exitFraction) }
  (⟨entryTrade.contract, entryTrade.orderId, some exitTrade.orderId, entryTrade.timestamp,
      some exitTrade.timestamp, qty, entryTrade.price, some exitTrade.price,
      some (reasonCode entryTrade.orderId), some (reasonCode exitTrade.orderId),
      entryTrade.commission * entryFraction, some (exitTrade.commission * exitFraction),
      entryProperties, exitProperties, pnl⟩,
    { heap with trades })

/-- `_net_trade`: the round trip if there is one, the stack and the objects. -/
def netTrade (stack : List Nat) (trade : Nat) (heap : Heap V) :
    Except Exn (Option RoundTripTrade × List Nat × Heap V) :=
  match stack with
  | [] => .ok (none, [trade], heap)
  | entry :: rest =>
      let entryQty := (heap.trades.read entry).qty
      let exitQty := (heap.trades.read trade).qty
      if exitQty.sign = entryQty.sign then .ok (none, entry :: rest ++ [trade], heap)
      else do
        let qty := min |entryQty| |exitQty| * entryQty.sign
        let entryFraction ← absFraction qty entryQty
        let exitFraction ← absFraction qty exitQty
        let (roundtrip, heap) := closeOut reasonCode entry trade qty entryFraction exitFraction heap
        let residual := entryQty - qty
        .ok (some roundtrip, if residual = 0 then rest else entry :: rest, heap)

/-- The `while True` loop over one trade and the stack of its symbol. -/
def netUntilDone : Nat → List Nat → Nat → Heap V →
    Except Exn (List RoundTripTrade × List Nat × Heap V)
  | 0, _, _, _ => .error .undefinedBehaviour
  | fuel + 1, stack, trade, heap => do
      let (roundtrip, stack, heap) ← netTrade reasonCode stack trade heap
      match roundtrip with
      | none => .ok ([], stack, heap)
      | some roundtrip =>
          if (heap.trades.read trade).qty = 0 then .ok ([roundtrip], stack, heap)
          else do
            let (more, stack, heap) ← netUntilDone fuel stack trade heap
            .ok (roundtrip :: more, stack, heap)

structure Progress (V : Type) where
  openStacks : OrderedDict String (List Nat)
  reconciled : List RoundTripTrade
  heap : Heap V

def takeTrade (fuel : Nat) (self : Progress V) (trade : Nat) : Except Exn (Progress V) := do
  let symbol := (self.heap.trades.read trade).contract.symbol
  let (roundtrips, stack, heap) ←
    netUntilDone reasonCode fuel (self.openStacks.listAt symbol) trade self.heap
  .ok ⟨self.openStacks.set symbol stack, self.reconciled ++ roundtrips, heap⟩

/-- The working copies: each has its own namespace, with its index in it. -/
def copyTrades : Nat → List Nat → Heap V → List Nat × Heap V
  | _, [], heap => ([], heap)
  | index, source :: sources, heap =>
      let sourceTrade := heap.trades.read source
      let (properties, heap) := heap.deepcopy sourceTrade.properties
      let (trade, trades) := heap.trades.alloc { sourceTrade with properties }
      let heap := ({ heap with trades }).setAttribute properties "index" (.whole index)
      let (working, heap) := copyTrades (index + 1) sources heap
      (trade :: working, heap)

/-- The round trips of the trades that are still on a stack. -/
def openRoundTrips : List Nat → Heap V → List RoundTripTrade × Heap V
  | [], heap => ([], heap)
  | openRef :: later, heap =>
      let openTrade := heap.trades.read openRef
      let (exitProperties, namespaces) := heap.namespaces.alloc .empty
      let roundtrip : RoundTripTrade :=
        ⟨openTrade.contract, openTrade.orderId, none, openTrade.timestamp, none, openTrade.qty,
          openTrade.price, none, some (reasonCode openTrade.orderId), none, openTrade.commission,
          none, openTrade.properties, exitProperties, 0⟩
      let (roundtrips, heap) := openRoundTrips later { heap with namespaces }
      (roundtrip :: roundtrips, heap)

/-- `reconciled.sort(key=...)`, which is stable. -/
def sortByIndex (heap : Heap V) (roundtrips : List RoundTripTrade) :
    Except Exn (List RoundTripTrade) := do
  let keyed ← roundtrips.mapM fun roundtrip => do
    .ok (← heap.index roundtrip.entryProperties, roundtrip)
  .ok ((keyed.insertionSort fun a b => a.1 ≤ b.1).map Prod.snd)

/-- The final loop over `enumerate(reconciled)`. -/
def renumber : Nat → List RoundTripTrade → Heap V → Except Exn (Heap V)
  | _, [], heap => .ok heap
  | index, roundtrip :: roundtrips, heap => do
      let entryIndex ← heap.index roundtrip.entryProperties
      let heap := heap.setAttribute roundtrip.entryProperties "entry_index" (.whole entryIndex)
      let heap := heap.setAttribute roundtrip.entryProperties "index" (.whole index)
      renumber (index + 1) roundtrips heap

def roundtripTrades (trades : List Nat) (heap : Heap V) :
    Except Exn (List RoundTripTrade × Heap V) := do
  let (working, heap) := copyTrades 0 trades heap
  let progress ← working.foldlM (takeTrade reasonCode (trades.length + 1)) ⟨.empty, [], heap⟩
  let (opened, heap) := openRoundTrips reasonCode progress.openStacks.values.flatten progress.heap
  let reconciled ← sortByIndex heap (progress.reconciled ++ opened)
  let heap ← renumber 0 reconciled heap
  .ok (reconciled, heap)

end Reconciliation

end Gambit.TradeReconciliation
