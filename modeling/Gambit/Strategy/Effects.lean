import Gambit.Strategy.Admission
import Gambit.Strategy.Steps

/-!
# What a step does to the orders the engine holds

Every transition moves each held order along its life cycle: its identity
stays, its quantity falls by what is booked for it, and its status follows.
Only an accepted round of a simulator books trades.
-/

set_option autoImplicit false

namespace Gambit

open Raising OrderCallbackState

variable {W : Type} {strategy : Strategy W}

namespace Point

def order (p : Point W) (id : OrderId) : Order := p.engine.heap.order id

def trades (p : Point W) : List BookedTrade := p.engine.account.trades

def currentOrders (p : Point W) : List OrderId := p.engine.currentOrders

/-- `accepted_orders`, not yet submitted. -/
def acceptedOrders (p : Point W) : List OrderId :=
  match p.control with
  | .deciding _ acceptedOrders _ _ => acceptedOrders
  | _ => []

def undecided (p : Point W) : List OrderId :=
  match p.control with
  | .deciding _ _ undecided _ => undecided
  | _ => []

/-- The orders of the rule under decision. -/
def proposal (p : Point W) : List OrderId :=
  match p.control with
  | .deciding orders _ _ _ => orders
  | _ => []

def pending (p : Point W) : List OrderId := p.currentOrders ++ p.acceptedOrders

def held (p : Point W) : List OrderId := p.pending ++ p.undecided

/-- All orders the engine knows. -/
def known (p : Point W) : List OrderId := p.engine.orders ++ p.proposal

end Point

/-! ## The life cycle of an order -/

structure Moved (before after : Order) (fill : Int) : Prop where
  identity : SameIdentity before after
  qty : after.qty = before.qty - fill
  bounded : |(fill : ℚ)| ≤ |before.qty|
  buy : 0 < before.qty → 0 ≤ fill
  sell : ¬ 0 < before.qty → fill ≤ 0
  status : fill = 0 ∧ after.status = before.status ∨
    before.isOpen ∧ (fill = 0 ∧ after.status = .cancelRequested ∨ after.status = .cancelled ∨
      fill ≠ 0 ∧ after.status = if after.qty = 0 then .filled else .partiallyFilled)

namespace Moved

variable {before after : Order}

theorem unfilled (identity : SameIdentity before after) (qty : after.qty = before.qty)
    (status : after.status = before.status ∨
      before.isOpen ∧ (after.status = .cancelRequested ∨ after.status = .cancelled)) :
    Moved before after 0 where
  identity := identity
  qty := by rw [qty, Int.cast_zero, sub_zero]
  bounded := by
    rw [Int.cast_zero, abs_zero]
    exact abs_nonneg _
  buy := fun _ => le_refl 0
  sell := fun _ => le_refl 0
  status := by
    rcases status with same | ⟨live, requested | cancelled⟩
    · exact Or.inl ⟨rfl, same⟩
    · exact Or.inr ⟨live, Or.inl ⟨rfl, requested⟩⟩
    · exact Or.inr ⟨live, Or.inr (Or.inl cancelled)⟩

theorem refl (order : Order) : Moved order order 0 := unfilled (.refl order) rfl (Or.inl rfl)

theorem of_eq (same : after = before) : Moved before after 0 := same ▸ refl before

theorem of_capture {heap heap' : Heap} {id : OrderId}
    (same : capture heap' id = capture heap id) : Moved (heap.order id) (heap'.order id) 0 := by
  obtain ⟨_, _, _, qty, status⟩ := capture_eq_iff.mp same
  exact unfilled (sameIdentity_of_capture same) qty (Or.inl status)

theorem of_aged (aged : Aged before after) : Moved before after 0 :=
  unfilled aged.identity aged.qty (aged.status.imp_right fun ⟨live, cancelled⟩ =>
    ⟨live, Or.inr cancelled⟩)

theorem of_mayCancel (ruled : MayCancel before after) : Moved before after 0 :=
  unfilled ruled.identity ruled.qty ruled.status

theorem of_filled {fill : Int} (live : before.isOpen) (filled : Filled before after fill) :
    Moved before after fill :=
  ⟨filled.identity, filled.qty, filled.bounded, filled.buy, filled.sell,
    filled.status.imp_right fun status => ⟨live, Or.inr status⟩⟩

/-- A closed order stays as it is. -/
theorem closed {fill : Int} (moved : Moved before after fill) (closed : before.isOpen = false) :
    fill = 0 ∧ after.qty = before.qty ∧ after.status = before.status := by
  rcases moved.status with ⟨none, same⟩ | ⟨live, _⟩
  · refine ⟨none, ?_, same⟩
    rw [moved.qty, none, Int.cast_zero, sub_zero]
  · rw [closed] at live
    cases live

theorem isOpen_before {fill : Int} (moved : Moved before after fill) (live : after.isOpen) :
    before.isOpen := by
  cases status : before.isOpen with
  | true => rfl
  | false =>
      rw [Order.isOpen, (moved.closed status).2.2] at live
      rw [Order.isOpen, live] at status
      cases status

end Moved

/-! ## Soundness of a point -/

/-- What admission establishes of an order. -/
structure Admissible (strategy : Strategy W) (heartbeat : Nat) (order : Order) : Prop where
  registered : order.contract ∈ strategy.setup.registry.contracts
  submitted : ∃ j ≤ heartbeat,
    strategy.setup.timestamps.timestamps[j]? = some order.timestamp
  whole : order.isOpen → ∃ qty : Int, order.qty = qty ∧ qty ≠ 0

theorem Admissible.moved {heartbeat later : Nat} {before after : Order} {fill : Int}
    (admissible : Admissible strategy heartbeat before) (moved : Moved before after fill)
    (onward : heartbeat ≤ later) : Admissible strategy later after where
  registered := moved.identity.contract ▸ admissible.registered
  submitted := by
    obtain ⟨j, le, at_j⟩ := admissible.submitted
    exact ⟨j, le.trans onward, moved.identity.timestamp ▸ at_j⟩
  whole := fun live => by
    obtain ⟨qty, whole, nonzero⟩ := admissible.whole (moved.isOpen_before live)
    refine ⟨qty - fill, by rw [moved.qty, whole, Int.cast_sub], ?_⟩
    rcases moved.status with ⟨rfl, _⟩ | ⟨_, ⟨rfl, _⟩ | cancelled | ⟨_, status⟩⟩
    · rwa [sub_zero]
    · rwa [sub_zero]
    · rw [Order.isOpen, cancelled] at live
      cases live
    · intro zero
      have exhausted : after.qty = 0 := by
        rw [moved.qty, whole, ← Int.cast_sub, zero, Int.cast_zero]
      rw [Order.isOpen, status, if_pos exhausted] at live
      cases live

structure Sound (strategy : Strategy W) (p : Point W) : Prop where
  inside : p.heartbeat < strategy.setup.timestamps.timestamps.length
  distinct : p.held.Nodup
  allocated : ∀ id ∈ p.known, id < p.engine.heap.size
  plain : ∀ id ∈ p.known, ¬ (p.order id).isRoll
  current : ∀ id ∈ p.currentOrders, id ∈ p.engine.orders
  proposed : ∀ id ∈ p.acceptedOrders ++ p.undecided, id ∈ p.proposal ∧
    (p.order id).timestamp = strategy.timestamp p.heartbeat
  admissible : ∀ id ∈ p.held, Admissible strategy p.heartbeat (p.order id)
  reconciled : Reconciled strategy.setup p.engine.account
  past : ∀ trade ∈ p.trades, ∃ j ≤ p.heartbeat,
    strategy.setup.timestamps.timestamps[j]? = some trade.timestamp

theorem Sound.current_distinct {p : Point W} (sound : Sound strategy p) :
    p.currentOrders.Nodup :=
  (List.nodup_append.mp (List.nodup_append.mp sound.distinct).1).1

theorem Sound.current_allocated {p : Point W} (sound : Sound strategy p) :
    ∀ id ∈ p.currentOrders, id < p.engine.heap.size := fun id member =>
  sound.allocated id (List.mem_append_left _ (sound.current id member))

/-! ## Effects -/

/-- The point at which a trade may be booked, seen from the trade. -/
structure Traded (strategy : Strategy W) (p : Point W) (trade : BookedTrade) : Prop where
  eligible : ∃ eligible, p.control = .passing eligible ∧ trade.orderId ∈ eligible
  current : trade.orderId ∈ p.currentOrders
  live : (p.order trade.orderId).isOpen
  timestamp : trade.timestamp = strategy.timestamp p.heartbeat
  contract : trade.contract = (p.order trade.orderId).contract
  snapshot : trade.order.contract = trade.contract
  nonzero : trade.qty ≠ 0
  sign : 0 < trade.qty ↔ 0 < (p.order trade.orderId).qty

structure Effect (strategy : Strategy W) (p q : Point W) (batch : List BookedTrade) : Prop where
  onward : p.heartbeat ≤ q.heartbeat
  inside : q.heartbeat < strategy.setup.timestamps.timestamps.length
  grown : Grown p.engine.heap q.engine.heap
  orders : p.engine.orders <+: q.engine.orders
  trades : q.trades = p.trades ++ batch
  booked : ∀ trade ∈ batch, Traded strategy p trade
  moved : ∀ id ∈ p.held, Moved (p.order id) (q.order id) (fillsOf batch id)
  reconciled : Reconciled strategy.setup q.engine.account

theorem Effect.quiet {p q : Point W} (onward : p.heartbeat ≤ q.heartbeat)
    (inside : q.heartbeat < strategy.setup.timestamps.timestamps.length)
    (grown : Grown p.engine.heap q.engine.heap) (orders : p.engine.orders <+: q.engine.orders)
    (revalued : Account.Revalued p.engine.account q.engine.account)
    (reconciled : Reconciled strategy.setup p.engine.account)
    (moved : ∀ id ∈ p.held, Moved (p.order id) (q.order id) 0) : Effect strategy p q [] where
  onward := onward
  inside := inside
  grown := grown
  orders := orders
  trades := revalued.trades.trans (List.append_nil _).symm
  booked := fun _ member => by cases member
  moved := moved
  reconciled := reconciled.revalue revalued

theorem mem_updateCurrentOrders {engine : Engine W} {id : OrderId} :
    id ∈ engine.updateCurrentOrders.currentOrders ↔
      id ∈ engine.currentOrders ∧ (engine.heap.order id).isOpen :=
  List.mem_filter

theorem held_passing {engine : Engine W} {i : Nat} {eligible : List OrderId} :
    (Point.mk engine i (.passing eligible)).held = engine.currentOrders := by
  simp [Point.held, Point.pending, Point.acceptedOrders, Point.undecided, Point.currentOrders]

theorem held_idle {engine : Engine W} {i : Nat} :
    (Point.mk engine i .idle).held = engine.currentOrders := by
  simp [Point.held, Point.pending, Point.acceptedOrders, Point.undecided, Point.currentOrders]

theorem held_failed {engine : Engine W} {i : Nat} :
    (Point.mk engine i .failed).held = engine.currentOrders := by
  simp [Point.held, Point.pending, Point.acceptedOrders, Point.undecided, Point.currentOrders]

theorem held_deciding {engine : Engine W} {i : Nat} {orders accepted undecided : List OrderId}
    {policies : List (RiskPolicy W)} :
    (Point.mk engine i (.deciding orders accepted undecided policies)).held =
      engine.currentOrders ++ accepted ++ undecided := rfl

theorem prefix_of_eq {α : Type} {xs ys : List α} (same : ys = xs) : xs <+: ys :=
  same ▸ List.prefix_rfl

/-- The orders a round of a simulator does not see keep their contents. -/
theorem simulate_moved {engine after : Engine W} {batch : List BookedTrade} {id : OrderId}
    (known : id ∈ engine.orders) (inside : id < engine.heap.size)
    (member : id ∈ engine.currentOrders)
    (fills : ∀ id ∈ engine.updateCurrentOrders.currentOrders,
      Filled (engine.heap.order id) (after.heap.order id) (fillsOf batch id))
    (booked : ∀ trade ∈ batch, trade.orderId ∈ engine.updateCurrentOrders.currentOrders)
    (untouched : ∀ id ∈ engine.orders, id < engine.heap.size →
      id ∉ engine.updateCurrentOrders.currentOrders →
      after.heap.order id = engine.heap.order id) :
    Moved (engine.heap.order id) (after.heap.order id) (fillsOf batch id) := by
  by_cases live : (engine.heap.order id).isOpen
  · exact .of_filled live (fills id (mem_updateCurrentOrders.mpr ⟨member, live⟩))
  · have closed : id ∉ engine.updateCurrentOrders.currentOrders :=
      fun listed => live (mem_updateCurrentOrders.mp listed).2
    have unbooked : ∀ trade ∈ batch, trade.orderId ≠ id := fun trade traded same =>
      closed (same ▸ booked trade traded)
    rw [fillsOf_eq_zero unbooked]
    exact .of_eq (untouched id known inside closed)

theorem guarded_moved {pending known : List OrderId} {before after : Engine W}
    (guarded : Guarded pending known before after) {id : OrderId} (member : id ∈ pending) :
    Moved (before.heap.order id) (after.heap.order id) 0 :=
  .of_capture (guarded.captured id member)

theorem consulted_moved {orders accepted undecided : List OrderId} {order : OrderId}
    {before after : Engine W} {i : Nat} {policies : List (RiskPolicy W)}
    (sound : Sound strategy ⟨before, i, .deciding orders accepted (order :: undecided) policies⟩)
    (guarded : Guarded (order :: (before.currentOrders ++ accepted)) (before.orders ++ orders)
      before after) {id : OrderId}
    (member : id ∈ before.currentOrders ++ accepted ++ (order :: undecided)) :
    Moved (before.heap.order id) (after.heap.order id) 0 := by
  by_cases listed : id ∈ order :: (before.currentOrders ++ accepted)
  · exact guarded_moved guarded listed
  · have waiting : id ∈ undecided := by
      obtain ⟨notOrder, notOpen⟩ := not_or.mp (mt List.mem_cons.mpr listed)
      exact (List.mem_cons.mp ((List.mem_append.mp member).resolve_left notOpen)).resolve_left
        notOrder
    have known : id ∈ before.orders ++ orders := by
      have proposed := (sound.proposed id (List.mem_append_right _ (List.mem_cons_of_mem _ waiting))).1
      exact List.mem_append_right _ proposed
    exact .of_eq (guarded.untouched id known (sound.allocated id known) listed)

theorem step_effect {p q : Point W} (sound : Sound strategy p) (step : strategy.Step p q) :
    ∃ batch, Effect strategy p q batch := by
  have inside := sound.inside
  have reconciled := sound.reconciled
  cases step with
  | expire onward within run =>
      have aged := expireOrders_aged run
      exact ⟨[], .quiet onward within aged.heapOnly.grown (prefix_of_eq aged.heapOnly.orders)
        (aged.heapOnly.account ▸ Account.Revalued.refl _) reconciled
        fun id _ => .of_aged (aged.aged id)⟩
  | expireFailed onward within run =>
      have aged := expireOrders_error run
      exact ⟨[], .quiet onward within aged.heapOnly.grown (prefix_of_eq aged.heapOnly.orders)
        (aged.heapOnly.account ▸ Account.Revalued.refl _) reconciled
        fun id _ => .of_aged (aged.aged id)⟩
  | @simulate engine after i eligible sim run =>
      obtain ⟨batch, simulated⟩ := runMarketSim_ok sound.current_distinct reconciled run
      refine ⟨batch, Nat.le_refl _, inside, simulated.grown, prefix_of_eq simulated.orders,
        simulated.trades, fun trade member => ?_, fun id member => ?_, simulated.reconciled⟩
      · obtain ⟨current, listed, timestamp, contract, snapshot, nonzero, sign⟩ :=
          simulated.booked trade member
        obtain ⟨member, live⟩ := mem_updateCurrentOrders.mp current
        exact ⟨⟨eligible, rfl, listed⟩, member, live, timestamp, contract, snapshot, nonzero, sign⟩
      · rw [held_passing] at member
        exact simulate_moved (sound.current id member) (sound.current_allocated id member) member
          simulated.fills (fun trade traded => (simulated.booked trade traded).1)
          simulated.untouched
  | @simulateFailed engine i eligible sim raised run =>
      obtain ⟨_, guarded⟩ := runMarketSim_error run
      refine ⟨[], .quiet (Nat.le_refl _) inside guarded.grown (prefix_of_eq guarded.orders)
        guarded.revalued reconciled fun id member => ?_⟩
      rw [held_passing] at member
      by_cases live : (engine.heap.order id).isOpen
      · exact guarded_moved guarded (mem_updateCurrentOrders.mpr ⟨member, live⟩)
      · exact .of_eq (guarded.untouched id (sound.current id member)
          (sound.current_allocated id member)
          fun listed => live (mem_updateCurrentOrders.mp listed).2)
  | pass =>
      exact ⟨[], .quiet (Nat.le_refl _) inside (.refl _) List.prefix_rfl (.refl _) reconciled
        fun _ _ => .refl _⟩
  | @propose engine after i rule orders run =>
      have ruled := getOrders_yields.of_ok run sound.current_allocated
      refine ⟨[], .quiet (Nat.le_refl _) inside ruled.grown (prefix_of_eq ruled.known)
        ruled.revalued reconciled fun id member => ?_⟩
      rw [held_idle] at member
      exact .of_mayCancel (ruled.pending id member)
  | @proposeFailed engine i rule raised run =>
      have guarded := getOrders_yields.of_error run
      refine ⟨[], .quiet (Nat.le_refl _) inside guarded.grown (prefix_of_eq guarded.orders)
        guarded.revalued reconciled fun id member => ?_⟩
      rw [held_idle] at member
      exact guarded_moved guarded member
  | consult run =>
      have guarded := consult_yields.of_ok run
      exact ⟨[], .quiet (Nat.le_refl _) inside guarded.grown (prefix_of_eq guarded.orders)
        guarded.revalued reconciled fun id member => consulted_moved sound guarded member⟩
  | consultFailed run =>
      have guarded := consult_yields.of_error run
      exact ⟨[], .quiet (Nat.le_refl _) inside guarded.grown (prefix_of_eq guarded.orders)
        guarded.revalued reconciled fun id member => consulted_moved sound guarded member⟩
  | accept =>
      exact ⟨[], .quiet (Nat.le_refl _) inside (.refl _) List.prefix_rfl (.refl _) reconciled
        fun _ _ => .refl _⟩
  | @reject engine i orders accepted undecided policies decision =>
      refine ⟨[], .quiet (Nat.le_refl _) inside (grown_set (cancel_kind _)) List.prefix_rfl
        (.refl _) reconciled fun id _ => ?_⟩
      simp only [Point.order, Engine.reject]
      by_cases here : id = decision.order
      · rw [here, Heap.set_same]
        exact .of_aged (aged_cancel _)
      · rw [Heap.set_other here]
        exact .refl _
  | submit =>
      exact ⟨[], .quiet (Nat.le_refl _) inside (.refl _) (List.prefix_append _ _) (.refl _) reconciled
        fun _ _ => .refl _⟩
  | update =>
      exact ⟨[], .quiet (Nat.le_refl _) inside (.refl _) List.prefix_rfl (.refl _) reconciled
        fun _ _ => .refl _⟩
  | finish run =>
      have calculated := finalCalc_yields.of_ok run
      exact ⟨[], .quiet (Nat.le_refl _) inside (calculated.heap ▸ .refl _)
        (prefix_of_eq calculated.orders) calculated.revalued reconciled
        fun id _ => .of_eq (congrFun (congrArg Heap.order calculated.heap) id)⟩
  | finishFailed run =>
      have calculated := finalCalc_yields.of_error run
      exact ⟨[], .quiet (Nat.le_refl _) inside (calculated.heap ▸ .refl _)
        (prefix_of_eq calculated.orders) calculated.revalued reconciled
        fun id _ => .of_eq (congrFun (congrArg Heap.order calculated.heap) id)⟩

end Gambit
