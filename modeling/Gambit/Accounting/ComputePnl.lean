import Gambit.Lib.FifoNetting
import Gambit.Python

/-!
# The whole-unit P&L kernel

`calc_trade_pnl` of compute_pnl.pyx.  A `TradeVec` is a window on a block of
slots that is allocated once: pushing writes the slot behind the window,
popping moves its start.  C integers are unbounded here and doubles are exact
rationals; an access outside the block gives no result.
-/

set_option autoImplicit false

namespace Gambit.ComputePnl

open FifoNetting

/-- `struct Trade`: a signed quantity and a price. -/
abbrev Trade := Lot ℚ

structure TradeVec where
  startIdx : Nat
  size : Nat
  trades : List Trade
deriving Repr

def TradeVec.at (self : TradeVec) (i : Nat) : Option Trade := self.trades[self.startIdx + i]?

def TradeVec.write (self : TradeVec) (idx : Nat) (trade : Trade) : Option TradeVec :=
  if idx < self.trades.length then some { self with trades := self.trades.set idx trade } else none

def pushBack (self : TradeVec) (trade : Trade) : Option TradeVec :=
  let grown := { self with size := self.size + 1 }
  grown.write (grown.startIdx + grown.size - 1) trade

def popFront (self : TradeVec) : TradeVec :=
  { self with startIdx := self.startIdx + 1, size := self.size - 1 }

def create (qtys : List Int) (prices : List ℚ) (extraCapacity : Nat) : Option TradeVec :=
  (qtys.zip prices).foldlM
    (fun vec entry =>
      if entry.1 ≠ 0 then do
        let written ← vec.write vec.size ⟨entry.1, entry.2⟩
        some { written with size := written.size + 1 }
      else some vec)
    ⟨0, 0, List.replicate (qtys.length + extraCapacity) ⟨0, 0⟩⟩

structure NetResult where
  realized : ℚ
  trade : Trade
  position : Trade

/-- `net_trade`, under its own parameter names: the loop passes the open lot
as `trade` and the new trade as `position`. -/
def netTrade (trade position : Trade) : NetResult :=
  let absTqty := if 0 ≤ trade.qty then trade.qty else -trade.qty
  let absPqty := if 0 ≤ position.qty then position.qty else -position.qty
  let txnQty := if absTqty ≤ absPqty then trade.qty else -position.qty
  ⟨txnQty * (position.price - trade.price),
    { trade with qty := trade.qty - txnQty },
    { position with qty := position.qty + txnQty }⟩

/-- The `while True` loop; every iteration spends one unit of fuel. -/
def calcLoop : Nat → TradeVec → TradeVec → ℚ → Option (TradeVec × ℚ)
  | 0, _, _, _ => none
  | fuel + 1, trades, positions, realized =>
      if trades.size = 0 then some (positions, realized)
      else do
        let trade ← trades.at 0
        if positions.size = 0 then
          let positions ← pushBack positions trade
          calcLoop fuel (popFront trades) positions realized
        else
          let position ← positions.at 0
          if trade.qty.sign = position.qty.sign then
            let positions ← pushBack positions trade
            calcLoop fuel (popFront trades) positions realized
          else
            let netted := netTrade position trade
            let positions ← positions.write positions.startIdx netted.trade
            let trades ← trades.write trades.startIdx netted.position
            let positions := if netted.trade.qty = 0 then popFront positions else positions
            let trades := if netted.position.qty = 0 then popFront trades else trades
            calcLoop fuel trades positions (realized + netted.realized)

structure PnlResult where
  openQtys : List Int
  openPrices : List ℚ
  realized : ℚ
deriving DecidableEq, Repr

def kernel (openQtys : List Int) (openPrices : List ℚ) (newQtys : List Int) (newPrices : List ℚ)
    (multiplier : ℚ) : Option PnlResult := do
  let trades ← create newQtys newPrices 0
  let positions ← create openQtys openPrices newQtys.length
  let (positions, realized) ← calcLoop (2 * trades.size + positions.size + 1) trades positions 0
  let rows ← (List.range positions.size).mapM positions.at
  some ⟨rows.map Lot.qty, rows.map Lot.price, realized * multiplier⟩

def calcTradePnl (openQtys : List Int) (openPrices : List ℚ) (newQtys : List Int)
    (newPrices : List ℚ) (multiplier : ℚ) : Except Exn PnlResult :=
  if openQtys.length ≠ openPrices.length then
    .error (.valueError "open quantities and prices must have the same length")
  else if newQtys.length ≠ newPrices.length then
    .error (.valueError "new quantities and prices must have the same length")
  else
    match kernel openQtys openPrices newQtys newPrices multiplier with
    | some result => .ok result
    | none => .error .undefinedBehaviour

end Gambit.ComputePnl
