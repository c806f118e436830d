import Mathlib
import Gambit.Strategy.Limits

/-!
# MaxPositionQuantity

The policy looks at the one end of the reachable positions that the new order
extends; together with the invariant this bounds both ends, whatever part of
the pending orders fills.
-/

set_option autoImplicit false

namespace Gambit

open Raising Traces Exposure

variable {W : Type} {strategy : Strategy W} {p q : Point W}

/-- A quantity seen from the long or from the short side. -/
def onSide (long : Bool) (qty : ℚ) : ℚ := if long then qty else -qty

theorem onSide_sub (long : Bool) (a b : ℚ) : onSide long (a - b) = onSide long a - onSide long b := by
  cases long
  · simp only [onSide, Bool.false_eq_true, if_false]
    ring
  · rfl

theorem onSide_part {long : Bool} {whole part : ℚ} (realised : Part whole part) :
    Part (onSide long whole) (onSide long part) := by
  cases long
  · exact realised.neg
  · exact realised

/-- What the pending orders of a symbol can add on one side. -/
def positionCharge (long : Bool) (symbol : String) : Charge where
  reserve := fun contract qty => if contract.symbol = symbol then max 0 (onSide long qty) else 0
  use := fun trade => if trade.contract.symbol = symbol then onSide long trade.qty else 0
  nonneg := fun contract qty => by
    split
    · exact le_max_left ..
    · exact le_refl 0
  settles := fun trade whole _ realised => by
    by_cases same : trade.contract.symbol = symbol
    · simp only [if_pos same, onSide_sub]
      exact (onSide_part realised).max_add
    · simp only [if_neg same, add_zero, le_refl]

def positionIn (trades : List BookedTrade) (symbol : String) : ℚ :=
  ((tradesOf trades symbol).map BookedTrade.qty).sum

theorem used_positionCharge (long : Bool) (symbol : String) (trades : List BookedTrade) :
    (positionCharge long symbol).used trades = onSide long (positionIn trades symbol) := by
  induction trades with
  | nil => cases long <;> simp [Charge.used, positionIn, tradesOf, onSide]
  | cons trade trades ih =>
      rw [← List.singleton_append, Charge.used_append, ih]
      by_cases same : trade.contract.symbol = symbol
      · cases long <;> simp [Charge.used, positionCharge, positionIn, tradesOf, onSide, same]
        ring
      · cases long <;> simp [Charge.used, positionCharge, positionIn, tradesOf, onSide, same]

/-! ## What the policy computes -/

/-- The position that the account reports now is the sum of all booked
quantities. -/
theorem positionOf_now (sound : Sound strategy p) (symbol : String) :
    positionOf p.trades symbol (strategy.timestamp p.heartbeat) =
      ((tradesOf p.trades symbol).map BookedTrade.qty).sum := by
  rw [positionOf, tradesUpTo_of_le]
  exact fun trade member => sound.trades_past trade (List.mem_filter.mp member).1

theorem sum_held_positions (contracts : List Contract) (position : Contract → Int) (symbol : String) :
    (((((contracts.map fun contract => (contract, position contract)).filter
        fun item => item.2 ≠ 0).filter fun held => held.1.symbol = symbol).map Prod.snd).sum) =
      ((contracts.filter fun contract => contract.symbol = symbol).map position).sum := by
  induction contracts with
  | nil => rfl
  | cons contract contracts ih =>
      rw [List.map_cons, List.filter_cons, List.filter_cons]
      by_cases flat : position contract = 0
      · by_cases same : contract.symbol = symbol
        · simpa [flat, same] using ih
        · simpa [flat, same] using ih
      · by_cases same : contract.symbol = symbol
        · simpa [flat, same] using ih
        · simpa [flat, same] using ih

theorem currentPosition_ok {engine : Engine W} {i : Nat} {openOrders : List OrderId} {order : Order}
    {position : ℚ} (reconciled : Reconciled strategy.setup engine.account)
    (registered : order.contract ∈ strategy.setup.registry.contracts)
    (run : RiskContext.currentPosition strategy.setup order
      ⟨engine.account, strategy.timestamp i, openOrders⟩ = .ok position) :
    position = positionOf engine.account.trades order.contract.symbol (strategy.timestamp i) := by
  obtain ⟨positions, listed, run⟩ := bind_ok.mp run
  cases run
  have configured : order.contract.contractGroup ∈ strategy.setup.contractGroups := by
    obtain ⟨_, checked, _⟩ := bind_ok.mp listed
    unfold Account.requireConfiguredGroup at checked
    split at checked
    · rename_i configured
      exact configured
    · cases checked
  rw [reconciled.positions configured] at listed
  cases listed
  have own : (strategy.setup.registry.groupContracts order.contract.contractGroup).filter
      (fun contract => contract.symbol = order.contract.symbol) = [order.contract] :=
    KeyedLists.filter_key_eq (strategy.setup.registry.unique.sublist (List.filter_sublist.map _))
      (List.mem_filter.mpr ⟨registered, by simp⟩)
  have held := sum_held_positions
    (strategy.setup.registry.groupContracts order.contract.contractGroup)
    (fun contract => positionOf engine.account.trades contract.symbol (strategy.timestamp i))
    order.contract.symbol
  rw [own, List.map_singleton, List.sum_singleton] at held
  exact congrArg Int.cast held

theorem foldl_bounds (heap : Heap) (symbol : String) (openOrders : List OrderId) (bounds : ℚ × ℚ) :
    openOrders.foldl (fun bounds pending =>
        let pending := heap.order pending
        if pending.isOpen ∧ pending.contract.symbol = symbol then
          (bounds.1 + min 0 pending.qty, bounds.2 + max 0 pending.qty)
        else bounds) bounds =
      (bounds.1 - ((openOrders.filter fun id => (heap.order id).isOpen).map fun id =>
          (positionCharge false symbol).reserve (heap.order id).contract (heap.order id).qty).sum,
        bounds.2 + ((openOrders.filter fun id => (heap.order id).isOpen).map fun id =>
          (positionCharge true symbol).reserve (heap.order id).contract (heap.order id).qty).sum) := by
  induction openOrders generalizing bounds with
  | nil => simp
  | cons id openOrders ih =>
      rw [List.foldl_cons, ih]
      by_cases live : (heap.order id).isOpen
      · by_cases same : (heap.order id).contract.symbol = symbol
        · have mirrored : min 0 (heap.order id).qty = -max 0 (-(heap.order id).qty) := by
            rw [← neg_zero, max_neg_neg, neg_neg, neg_zero]
          simp only [live, same, and_self, if_true, List.filter_cons, List.map_cons, List.sum_cons,
            positionCharge, onSide, mirrored, Bool.false_eq_true, if_false]
          refine Prod.ext ?_ ?_
          · simp only
            ring
          · simp only
            ring
        · simp [live, same, positionCharge]
      · simp [live]

theorem reserved_eq_sum (charge : Charge) (distinct : p.pending.Nodup) :
    charge.reserved p = ((p.pending.filter fun id => (p.order id).isOpen).map fun id =>
      charge.reserve (p.order id).contract (p.order id).qty).sum := by
  rw [Charge.reserved, Point.openOrders, ← List.toFinset_filter,
    List.sum_toFinset _ (distinct.filter _)]

/-- The ends that the policy looks at. -/
theorem positionBounds_ok (sound : Sound strategy p) {order : Order} {bounds : ℚ × ℚ}
    (registered : order.contract ∈ strategy.setup.registry.contracts)
    (run : RiskContext.positionBounds strategy.setup p.engine.heap order
      ⟨p.engine.account, strategy.timestamp p.heartbeat, p.pending⟩ = .ok bounds) :
    let symbol := order.contract.symbol
    bounds = (positionIn p.trades symbol + min 0 order.qty - (positionCharge false symbol).reserved p,
      positionIn p.trades symbol + max 0 order.qty + (positionCharge true symbol).reserved p) := by
  intro symbol
  obtain ⟨current, position, run⟩ := bind_ok.mp run
  cases run
  have distinct := (List.nodup_append.mp sound.distinct).1
  have now := positionOf_now sound order.contract.symbol
  rw [foldl_bounds, currentPosition_ok sound.reconciled registered position,
    reserved_eq_sum _ distinct, reserved_eq_sum _ distinct]
  have same : positionOf p.engine.account.trades order.contract.symbol
      (strategy.timestamp p.heartbeat) =
        ((tradesOf p.trades order.contract.symbol).map BookedTrade.qty).sum := now
  rw [same]
  rfl

/-! ## The policy as a limit -/

theorem accept_within {m : MaxPositionQuantity} {heap : Heap} {context : RiskContext} {order : Order}
    {result : PolicyResult} (run : m.evaluate strategy.setup heap context order = .ok result)
    (approved : result.accepted) :
    ∃ bounds, context.positionBounds strategy.setup heap order = .ok bounds ∧
      (0 < order.qty → bounds.2 ≤ m.maximum) ∧ (¬ 0 < order.qty → -m.maximum ≤ bounds.1) := by
  obtain ⟨⟨lower, upper⟩, bounds, run⟩ := bind_ok.mp run
  refine ⟨_, bounds, ?_⟩
  rcases permit_ok.mp run with ⟨within, _⟩ | ⟨_, refused⟩
  · refine ⟨fun buys => ?_, fun sells => ?_⟩
    · rwa [if_pos buys] at within
    · rwa [if_neg sells] at within
  · cases refused
    cases approved

/-- The end that the order does not extend stays where it was. -/
theorem screens_side {m long : ℚ} {up : Bool} {qty : ℚ} (room : long ≤ m)
    (extended : 0 < onSide up qty → long + onSide up qty ≤ m) :
    long + max 0 (onSide up qty) ≤ m := by
  by_cases positive : 0 < onSide up qty
  · rw [max_eq_right positive.le]
    exact extended positive
  · rw [max_eq_left (not_lt.mp positive), add_zero]
    exact room

def MaxPositionQuantity.limit (m : MaxPositionQuantity)
    (asked : m.policy strategy.setup ∈ strategy.riskPolicies) : Limit strategy where
  policy := m.policy strategy.setup
  asked := asked
  bound := m.maximum
  bound_nonneg := m.maximumPositive.le
  charges := { charge | ∃ long symbol, charge = positionCharge long symbol }
  screened := fun _ => { charge | ∃ long symbol, charge = positionCharge long symbol }
  antitone := fun _ _ _ => Set.Subset.rfl
  spent := fun _ listed _ absent => absurd listed absent
  screens := by
    rintro engine after i orders accepted undecided order policies result p sound run approved room
      _ ⟨long, symbol, rfl⟩
    have before := room _ ⟨long, symbol, rfl⟩
    by_cases same : (p.order order).contract.symbol = symbol
    · subst same
      obtain ⟨bounds, found, within⟩ := accept_within (consult_reading run) approved
      have held : order ∈ p.held := List.mem_append_right _ (List.mem_cons_self ..)
      have ends := positionBounds_ok sound (sound.admissible order held).registered found
      have reserves : (positionCharge long (p.order order).contract.symbol).reserve
          (p.order order).contract (p.order order).qty = max 0 (onSide long (p.order order).qty) :=
        if_pos rfl
      rw [reserves]
      refine screens_side before fun extends_ => ?_
      obtain rfl := ends
      rw [used_positionCharge]
      cases long
      · simp only [onSide, Bool.false_eq_true, if_false] at extends_ ⊢
        have sells : (p.order order).qty < 0 := by linarith
        have lower := within.2 (not_lt.mpr sells.le)
        dsimp only at lower
        rw [min_eq_right sells.le] at lower
        linarith
      · simp only [onSide, if_true] at extends_ ⊢
        have upper := within.1 extends_
        dsimp only at upper
        rw [max_eq_right extends_.le] at upper
        linarith
    · have unreserved : (positionCharge long symbol).reserve (p.order order).contract
          (p.order order).qty = 0 := if_neg same
      rw [unreserved, add_zero]
      exact before

theorem onSide_sum (long : Bool) (s : Finset OrderId) (fills : OrderId → ℚ) :
    onSide long (∑ id ∈ s, fills id) = ∑ id ∈ s, onSide long (fills id) := by
  cases long
  · exact (Finset.sum_neg_distrib fills).symm
  · rfl

/-- Parts of the pending orders stay within what is reserved for them. -/
theorem parts_reserved (long : Bool) (symbol : String) {fills : OrderId → ℚ}
    (parts : ∀ id ∈ p.openOrders, Part (p.order id).qty (fills id)) :
    onSide long (∑ id ∈ p.openOrders.filter (fun id => (p.order id).contract.symbol = symbol),
      fills id) ≤ (positionCharge long symbol).reserved p := by
  rw [onSide_sum, Finset.sum_filter]
  refine Finset.sum_le_sum fun id member => ?_
  by_cases same : (p.order id).contract.symbol = symbol
  · simp only [positionCharge, if_pos same]
    exact (onSide_part (parts id member)).le_max
  · simp only [positionCharge, if_neg same, le_refl]

/-- Under the policy every reached position, and every position that parts of the
pending orders lead to, is within the maximum. -/
theorem position_bounded (strategy : Strategy W) (m : MaxPositionQuantity)
    (asked : m.policy strategy.setup ∈ strategy.riskPolicies) (startDate endDate : Option Timestamp)
    (world : W) (heap : Heap) (k : Nat) (p : Point W)
    (at_k : (strategy.trace startDate endDate world heap)[k]? = some p) (symbol : String) :
    (∀ n, |positionIn (p.trades.take n) symbol| ≤ m.maximum) ∧
    (p.engine.account.symbolPosition (strategy.timestamp p.heartbeat) symbol : ℚ) =
      positionIn p.trades symbol ∧
    ∀ fills : OrderId → ℚ,
      (∀ id ∈ p.openOrders, Part (p.order id).qty (fills id)) →
      |positionIn p.trades symbol +
        ∑ id ∈ p.openOrders.filter (fun id => (p.order id).contract.symbol = symbol), fills id| ≤
          m.maximum := by
  have within := (m.limit asked).trace_within at_k
  have sound := (trace_valid at_k).sound
  refine ⟨fun n => ?_, ?_, fun fills parts => ?_⟩
  · have long := within.kept _ ⟨true, symbol, rfl⟩ n
    have short := within.kept _ ⟨false, symbol, rfl⟩ n
    rw [used_positionCharge] at long short
    simp only [onSide, if_true, Bool.false_eq_true, if_false] at long short
    exact abs_le.mpr ⟨neg_le.mp short, long⟩
  · rw [sound.reconciled.symbolPosition]
    exact congrArg Int.cast (positionOf_now sound symbol)
  · have long := within.room _ ⟨true, symbol, rfl⟩
    have short := within.room _ ⟨false, symbol, rfl⟩
    rw [used_positionCharge] at long short
    have up := parts_reserved true symbol parts
    have down := parts_reserved false symbol parts
    simp only [onSide, if_true, Bool.false_eq_true, if_false] at long short up down
    have bound : (m.limit asked).bound = m.maximum := rfl
    rw [bound] at long short
    exact abs_le.mpr ⟨by linarith, by linarith⟩

/-- Four of ten, with a maximum of ten. -/
theorem position_bounded_partly_filled :
    let m : MaxPositionQuantity := ⟨10, "max_position_quantity", by norm_num⟩
    let strategy := sampleStrategy 0 [m.policy sampleSetup]
      (fun heap i => (heap, if i = 0 then [0] else [])) fillFour
    ∃ p : Point Unit, (strategy.trace none none () sampleHeap)[9]? = some p ∧
      positionIn p.trades "IBM" = 4 ∧ |positionIn (p.trades.take 1) "IBM"| ≤ 10 := by
  intro m strategy
  have traded : ((strategy.trace none none () sampleHeap)[9]?).any
      fun p => positionIn p.trades "IBM" = 4 := by decide +kernel
  obtain ⟨p, at_k, traded⟩ := (Option.any_eq_true _ _).mp traded
  have bounded := position_bounded strategy m (List.mem_singleton_self _) none none () sampleHeap 9 p
    at_k "IBM"
  exact ⟨p, at_k, of_decide_eq_true traded, bounded.1 1⟩

end Gambit
