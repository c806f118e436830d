import Gambit.Strategy.Timing

/-!
# What pending orders reserve

A charge reserves something for every open order and takes it back as the order
fills.  A step of a run raises what is used and reserved only by accepting an
order.
-/

set_option autoImplicit false

namespace Gambit

open Raising Traces Exposure

variable {W : Type} {strategy : Strategy W} {p q : Point W} {id : OrderId}

structure Charge where
  reserve : Contract → ℚ → ℚ
  use : BookedTrade → ℚ
  nonneg : ∀ contract qty, 0 ≤ reserve contract qty
  settles : ∀ trade whole, trade.order.contract = trade.contract → Part whole (trade.qty : ℚ) →
    reserve trade.contract (whole - trade.qty) + use trade ≤ reserve trade.contract whole

/-- The pending orders that are still open. -/
def Point.openOrders (p : Point W) : Finset OrderId :=
  p.pending.toFinset.filter fun id => (p.order id).isOpen

namespace Charge

variable (charge : Charge)

def used (trades : List BookedTrade) : ℚ := (trades.map charge.use).sum

def reserved (p : Point W) : ℚ :=
  ∑ id ∈ p.openOrders, charge.reserve (p.order id).contract (p.order id).qty

theorem used_append (trades batch : List BookedTrade) :
    charge.used (trades ++ batch) = charge.used trades + charge.used batch := by
  rw [used, List.map_append, List.sum_append]
  rfl

theorem reserved_nonneg (p : Point W) : 0 ≤ charge.reserved p :=
  Finset.sum_nonneg fun _ _ => charge.nonneg _ _

end Charge

theorem mem_openOrders : id ∈ p.openOrders ↔ id ∈ p.pending ∧ (p.order id).isOpen := by
  simp [Point.openOrders]

theorem openOrders_held (member : id ∈ p.openOrders) : id ∈ p.held :=
  List.mem_append_left _ (mem_openOrders.mp member).1

/-! ## Batches fill what is pending -/

theorem fillsOf_eq_left (batch : List BookedTrade) (pending : OrderId → ℚ) (id : OrderId) :
    left BookedTrade.orderId (fun trade => (trade.qty : ℚ)) pending batch id =
      pending id - fillsOf batch id := by
  rw [left, fillsOf, Int.cast_list_sum, List.map_map]
  rfl

variable {batch : List BookedTrade}

theorem Effect.fillable (effect : Effect strategy p q batch) :
    Fillable BookedTrade.orderId (fun trade => (trade.qty : ℚ))
      (fun id => (p.order id).qty) batch := by
  have rest : ∀ id, Part (p.order id).qty ((p.order id).qty - fillsOf batch id) := fun id => by
    by_cases held : id ∈ p.held
    · rw [← (effect.moved id held).qty]
      exact (effect.moved id held).rest
    · have unbooked : fillsOf batch id = 0 := fillsOf_eq_zero fun trade booked same =>
        held (same ▸ current_held (effect.booked trade booked).current)
      rw [unbooked, Int.cast_zero, sub_zero]
      exact .refl _
  refine fillable_of_directed (fun id => 0 < (p.order id).qty) (fun trade booked buy => ?_)
    (fun trade booked sell => ?_) (fun id buy => ?_) fun id sell => ?_
  · exact_mod_cast ((effect.booked trade booked).sign.mpr buy).le
  · exact_mod_cast not_lt.mp fun positive => sell ((effect.booked trade booked).sign.mp positive)
  · rw [fillsOf_eq_left]
    rcases rest id with ⟨positive, _⟩ | ⟨above, _⟩
    · exact positive
    · exact buy.le.trans above
  · rw [fillsOf_eq_left]
    rcases rest id with ⟨_, below⟩ | ⟨_, negative⟩
    · exact below.trans (not_lt.mp sell)
    · exact negative

theorem Effect.open_owner (effect : Effect strategy p q batch) {trade : BookedTrade}
    (booked : trade ∈ batch) : trade.orderId ∈ p.openOrders := by
  have traded := effect.booked trade booked
  exact mem_openOrders.mpr ⟨List.mem_append_left _ traded.current, traded.live⟩

/-- After any number of the trades of a step, what they use and what is left is
covered by what was reserved. -/
theorem Effect.covers (charge : Charge) (effect : Effect strategy p q batch) (n : Nat) :
    ∑ id ∈ p.openOrders, charge.reserve (p.order id).contract
        ((p.order id).qty - fillsOf (batch.take n) id) + charge.used (batch.take n) ≤
      charge.reserved p := by
  have covered := reserved_covers (fun id => charge.reserve (p.order id).contract)
    charge.use (effect.fillable.take n)
    (fun trade member => effect.open_owner (List.mem_of_mem_take member))
    fun trade member whole realised => by
      have traded := effect.booked trade (List.mem_of_mem_take member)
      rw [← traded.contract]
      exact charge.settles trade whole traded.snapshot realised
  simp only [fillsOf_eq_left] at covered
  exact covered

/-! ## Steps -/

/-- An order that has passed every policy is accepted. -/
structure Admits (strategy : Strategy W) (p q : Point W) (id : OrderId) : Prop where
  same : q.engine.heap = p.engine.heap ∧ q.engine.account = p.engine.account ∧
    q.engine.currentOrders = p.engine.currentOrders ∧ q.heartbeat = p.heartbeat
  decided : ∃ orders accepted undecided, p.control = .deciding orders accepted (id :: undecided) [] ∧
    q.control = .deciding orders (accepted ++ [id]) undecided strategy.riskPolicies

theorem step_admits (sound : Sound strategy p) (step : strategy.Step p q) :
    (∀ id ∈ q.pending, id ∈ p.pending) ∨ ∃ id, Admits strategy p q id := by
  have current : ∀ id ∈ q.currentOrders, id ∈ p.pending := fun id => step_pending sound step
  cases step with
  | accept => exact Or.inr ⟨_, ⟨rfl, rfl, rfl, rfl⟩, _, _, _, rfl, rfl⟩
  | consult | reject =>
      refine Or.inl fun id member => ?_
      rcases List.mem_append.mp member with old | accepted
      · exact current id old
      · exact List.mem_append_right _ accepted
  | _ =>
      refine Or.inl fun id member => ?_
      rcases List.mem_append.mp member with old | accepted
      · exact current id old
      · cases accepted

/-- Only acceptance adds to what is used and reserved. -/
theorem Effect.exposure_le (charge : Charge) (effect : Effect strategy p q batch)
    (kept : ∀ id ∈ q.pending, id ∈ p.pending) :
    charge.used q.trades + charge.reserved q ≤ charge.used p.trades + charge.reserved p := by
  have covered := effect.covers charge batch.length
  rw [List.take_length] at covered
  have shrinks : q.openOrders ⊆ p.openOrders := fun id member => by
    obtain ⟨pending, live⟩ := mem_openOrders.mp member
    have held : id ∈ p.held := List.mem_append_left _ (kept id pending)
    exact mem_openOrders.mpr ⟨kept id pending, (effect.moved id held).isOpen_before live⟩
  have left : charge.reserved q ≤ ∑ id ∈ p.openOrders, charge.reserve (p.order id).contract
      ((p.order id).qty - fillsOf batch id) := by
    refine le_trans (le_of_eq (Finset.sum_congr rfl fun id member => ?_))
      (Finset.sum_le_sum_of_subset_of_nonneg shrinks fun _ _ _ => charge.nonneg _ _)
    have moved := effect.moved id (openOrders_held (shrinks member))
    rw [moved.identity.contract, moved.qty]
  rw [effect.trades, charge.used_append]
  linarith

theorem Admits.reserved_le (charge : Charge) (admits : Admits strategy p q id) :
    charge.reserved q ≤
      charge.reserved p + charge.reserve (p.order id).contract (p.order id).qty := by
  obtain ⟨⟨heap, _, current, _⟩, orders, accepted, undecided, before, after⟩ := admits
  have order : ∀ id, q.order id = p.order id := fun id => congrFun (congrArg Heap.order heap) id
  have pending : q.pending = p.pending ++ [id] := by
    rw [Point.pending, Point.pending, Point.acceptedOrders, Point.acceptedOrders, before, after,
      Point.currentOrders, Point.currentOrders, current, List.append_assoc]
  have grows : q.openOrders ⊆ insert id p.openOrders := fun other member => by
    obtain ⟨listed, live⟩ := mem_openOrders.mp member
    rw [pending] at listed
    rw [order] at live
    rcases List.mem_append.mp listed with old | new
    · exact Finset.mem_insert_of_mem (mem_openOrders.mpr ⟨old, live⟩)
    · rw [List.mem_singleton.mp new]
      exact Finset.mem_insert_self _ _
  have bound := Finset.sum_le_sum_of_subset_of_nonneg grows fun id _ _ =>
    charge.nonneg (p.order id).contract (p.order id).qty
  simp only [Charge.reserved, order]
  by_cases listed : id ∈ p.openOrders
  · rw [Finset.insert_eq_of_mem listed] at bound
    exact bound.trans (le_add_of_nonneg_right (charge.nonneg _ _))
  · rw [Finset.sum_insert listed, add_comm] at bound
    exact bound

end Gambit
