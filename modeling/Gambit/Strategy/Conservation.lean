import Gambit.Lib.Exposure
import Gambit.Strategy.Invariant

/-!
# Conservation of order quantities

From its acceptance until it is terminal, an order's quantity is what remains
of it and what the account booked for it.
-/

set_option autoImplicit false

namespace Gambit

open Raising Traces Exposure OrderCallbackState

variable {W : Type} {strategy : Strategy W} {p q : Point W} {id : OrderId}

/-- Remaining quantity and status tell the same. -/
structure Coherent (order : Order) : Prop where
  filled : order.status = .filled → order.qty = 0
  exhausted : order.qty = 0 → order.status = .filled ∨ order.status = .cancelled

namespace Moved

variable {before after : Order} {fill : Int}

theorem part (moved : Moved before after fill) : Part before.qty (fill : ℚ) := by
  refine part_of_abs_le moved.bounded (fun buy => ?_) fun sell => ?_
  · exact_mod_cast moved.buy buy
  · exact_mod_cast moved.sell sell

theorem rest (moved : Moved before after fill) : Part before.qty after.qty := by
  rw [moved.qty]
  exact moved.part.rest

theorem coherent (moved : Moved before after fill) (coherent : Coherent before) : Coherent after := by
  rcases moved.status with ⟨rfl, same⟩ | ⟨live, ⟨rfl, requested⟩ | cancelled | ⟨_, filled⟩⟩
  · have qty : after.qty = before.qty := by rw [moved.qty, Int.cast_zero, sub_zero]
    refine ⟨fun filled => ?_, fun zero => ?_⟩
    · rw [qty]
      exact coherent.filled (same ▸ filled)
    · rw [same]
      exact coherent.exhausted (qty ▸ zero)
  · have qty : after.qty = before.qty := by rw [moved.qty, Int.cast_zero, sub_zero]
    refine ⟨fun filled => ?_, fun zero => ?_⟩
    · rw [requested] at filled
      cases filled
    · rcases coherent.exhausted (qty ▸ zero) with closed | closed
      · rw [Order.isOpen, closed] at live
        cases live
      · rw [Order.isOpen, closed] at live
        cases live
  · refine ⟨fun filled => ?_, fun _ => Or.inr cancelled⟩
    rw [cancelled] at filled
    cases filled
  · refine ⟨fun terminal => ?_, fun zero => ?_⟩
    · by_contra nonzero
      rw [filled, if_neg nonzero] at terminal
      cases terminal
    · rw [filled, if_pos zero]
      exact Or.inl rfl

end Moved

theorem Sound.held_known (sound : Sound strategy p) (held : id ∈ p.held) : id ∈ p.known := by
  rw [Point.held, Point.pending, List.append_assoc] at held
  rcases List.mem_append.mp held with current | proposed
  · exact List.mem_append_left _ (sound.current id current)
  · exact List.mem_append_right _ (sound.proposed id proposed).1

/-- Along a path on which the order is open. -/
structure Conserved (p q : Point W) (id : OrderId) : Prop where
  booked : ∃ batch, q.trades = p.trades ++ batch ∧
    (p.order id).qty = (q.order id).qty + fillsOf batch id
  rest : Part (p.order id).qty (q.order id).qty
  coherent : Coherent (p.order id) → Coherent (q.order id)
  held : (q.order id).isOpen → ¬ q.isFailed → id ∈ q.held

theorem Conserved.refl (held : id ∈ p.held) : Conserved p p id where
  booked := ⟨[], by simp, by simp [fillsOf]⟩
  rest := .refl _
  coherent := fun coherent => coherent
  held := fun _ _ => held

theorem Conserved.step {r : Point W} (conserved : Conserved p q id) (sound : Sound strategy q)
    (live : (q.order id).isOpen) (step : strategy.Step q r) : Conserved p r id := by
  have held := conserved.held live fun failed => failed_final failed step
  obtain ⟨fills, effect⟩ := step_effect sound step
  have moved := effect.moved id held
  obtain ⟨batch, trades, qty⟩ := conserved.booked
  refine ⟨⟨batch ++ fills, ?_, ?_⟩, conserved.rest.trans moved.rest,
    fun coherent => moved.coherent (conserved.coherent coherent), fun stillLive alive => ?_⟩
  · rw [effect.trades, trades, List.append_assoc]
  · rw [qty, moved.qty, fillsOf_append, Int.cast_add]
    ring
  · by_contra absent
    have released := step_releases sound step alive (sound.held_known held) absent
    rw [released.dropped held] at stillLive
    cases stillLive

/-- Between two points of a run. -/
theorem trace_conserved {startDate endDate : Option Timestamp} {world : W} {heap : Heap}
    {a c : Nat} (at_a : (strategy.trace startDate endDate world heap)[a]? = some p)
    (at_c : (strategy.trace startDate endDate world heap)[c]? = some q) (ordered : a ≤ c)
    (held : id ∈ p.held)
    (live : ∀ k s, a ≤ k → k < c → (strategy.trace startDate endDate world heap)[k]? = some s →
      (s.order id).isOpen) : Conserved p q id := by
  obtain ⟨last, trace⟩ := Strategy.trace_steps strategy startDate endDate world heap
  have path := trace.between (R := fun s _ => Sound strategy s ∧ (s.order id).isOpen) at_a ordered
    at_c fun k s _ after before at_k _ => ⟨(trace_valid at_k).sound, live k s after before at_k⟩
  clear at_c
  induction path with
  | refl => exact .refl held
  | tail _ onward conserved => exact conserved.step onward.2.1 onward.2.2 onward.1

/-- Trades are booked for orders the engine knows. -/
theorem trace_trades_known {startDate endDate : Option Timestamp} {world : W} {heap : Heap}
    {k : Nat} (at_k : (strategy.trace startDate endDate world heap)[k]? = some p) :
    ∀ trade ∈ p.trades, trade.orderId ∈ p.engine.orders := by
  obtain ⟨last, trace⟩ := Strategy.trace_steps strategy startDate endDate world heap
  refine (trace.invariant (P := fun p => Valid strategy p ∧
    ∀ trade ∈ p.trades, trade.orderId ∈ p.engine.orders) ?_ ?_ at_k).2
  · exact ⟨start_valid strategy world heap, fun _ member => by cases member⟩
  · rintro p q ⟨valid, known⟩ step
    obtain ⟨batch, effect⟩ := step_effect valid.sound step
    refine ⟨step_valid valid step, fun trade member => effect.orders.subset ?_⟩
    rw [effect.trades] at member
    rcases List.mem_append.mp member with old | new
    · exact known trade old
    · exact valid.sound.current _ (effect.booked trade new).current

/-- Between an acceptance of an open order and the point at which it is terminal,
trades and remainder make up its quantity; the account's trades for an order
not submitted before are all booked in between. -/
theorem order_quantity_conserved (strategy : Strategy W) (startDate endDate : Option Timestamp)
    (world : W) (heap : Heap) :
    let points := strategy.trace startDate endDate world heap
    (∀ (k : Nat) (s t : Point W), points[k]? = some s → points[k + 1]? = some t →
      s.trades <+: t.trades ∧
        ∀ trade ∈ t.trades.drop s.trades.length, Traded strategy s trade) ∧
    ∀ (id : OrderId) (a b c : Nat) (p r q : Point W), points[a]? = some p →
      points[b]? = some r → points[c]? = some q → a ≤ b → b ≤ c →
      id ∈ p.acceptedOrders → (p.order id).status = .open →
      (∀ k s, a ≤ k → k < c → points[k]? = some s → (s.order id).isOpen) →
      (p.order id).qty = (q.order id).qty + fillsOf (q.trades.drop p.trades.length) id ∧
      (id ∉ p.engine.orders → (p.order id).qty = (q.order id).qty + fillsOf q.trades id) ∧
      ((q.order id).qty = 0 ∨ 0 < (p.order id).qty * (q.order id).qty) ∧
      |(q.order id).qty| ≤ |(r.order id).qty| ∧
      ((q.order id).status = .filled → (q.order id).qty = 0) ∧
      ((q.order id).qty = 0 → (q.order id).status = .filled ∨ (q.order id).status = .cancelled) ∧
      |(fillsOf (q.trades.drop p.trades.length) id : ℚ)| ≤ |(p.order id).qty| := by
  intro points
  refine ⟨fun k s t at_k at_next => ?_, fun id a b c p r q at_a at_b at_c ab bc accepted opened live => ?_⟩
  · obtain ⟨last, trace⟩ := Strategy.trace_steps strategy startDate endDate world heap
    obtain ⟨batch, effect⟩ :=
      step_effect (trace_valid at_k).sound (trace.step_at at_k at_next)
    rw [effect.trades, List.drop_left]
    exact ⟨List.prefix_append _ _, effect.booked⟩
  · have sound := (trace_valid at_a).sound
    have isOpen : (p.order id).isOpen := by rw [Order.isOpen, opened]; rfl
    have held : id ∈ p.held := by
      rw [Point.held, Point.pending]
      exact List.mem_append_left _ (List.mem_append_right _ accepted)
    have conserved := trace_conserved at_a at_c (ab.trans bc) held live
    have upTo := trace_conserved at_a at_b ab held
      fun k s after before at_k => live k s after (before.trans_le bc) at_k
    have monotone : |(q.order id).qty| ≤ |(r.order id).qty| := by
      rcases bc.eq_or_lt with rfl | before
      · rw [at_b] at at_c
        cases at_c
        exact le_refl _
      · have stillOpen := live b r ab before at_b
        have alive : ¬ r.isFailed := fun failed => by
          obtain ⟨last, trace⟩ := Strategy.trace_steps strategy startDate endDate world heap
          obtain ⟨inside, _⟩ := List.getElem?_eq_some_iff.mp at_c
          have next := List.getElem?_eq_getElem (Nat.lt_of_le_of_lt before inside)
          exact failed_final failed (trace.step_at at_b next)
        exact (trace_conserved at_b at_c bc (upTo.held stillOpen alive)
          fun k s after => live k s (ab.trans after)).rest.abs_le
    obtain ⟨qty, whole, nonzero⟩ := (sound.admissible id held).whole isOpen
    have nonzeroQty : (p.order id).qty ≠ 0 := by
      have same : (p.order id).qty = qty := whole
      rw [same]
      exact_mod_cast nonzero
    have coherent : Coherent (p.order id) :=
      ⟨fun filled => absurd (opened.symm.trans filled) (by decide),
        fun zero => absurd zero nonzeroQty⟩
    obtain ⟨filled, exhausted⟩ := conserved.coherent coherent
    obtain ⟨batch, trades, sum⟩ := conserved.booked
    rw [trades, List.drop_left]
    refine ⟨sum, fun fresh => ?_, ?_, monotone, filled, exhausted, ?_⟩
    · have absent : ∀ trade ∈ p.trades, trade.orderId ≠ id := fun trade member same =>
        fresh (same ▸ trace_trades_known at_a trade member)
      rw [fillsOf_append, fillsOf_eq_zero absent, zero_add]
      exact sum
    · by_cases exhausted : (q.order id).qty = 0
      · exact Or.inl exhausted
      · refine Or.inr ?_
        rcases conserved.rest with ⟨positive, below⟩ | ⟨above, negative⟩
        · have remains : 0 < (q.order id).qty := lt_of_le_of_ne positive (Ne.symm exhausted)
          exact mul_pos (remains.trans_le below) remains
        · have remains : (q.order id).qty < 0 := lt_of_le_of_ne negative exhausted
          exact mul_pos_of_neg_of_neg (above.trans_lt remains) remains
    · have fills : (fillsOf batch id : ℚ) = (p.order id).qty - (q.order id).qty := by
        rw [sum]
        ring
      rw [fills]
      exact conserved.rest.rest.abs_le

/-- Fills the first order by four and cancels the rest of it. -/
def fillFour (heap : Heap) (orders : List OrderId) (i : Nat) : Heap × List Trade :=
  match orders with
  | [] => (heap, [])
  | id :: _ =>
      (heap.set id { heap.order id with qty := (heap.order id).qty - 4, status := .cancelled },
        [sampleTrade id i 4 10])

/-- Four of ten are filled and the rest is cancelled in one call. -/
theorem order_quantity_conserved_part :
    let strategy := sampleStrategy 0 [] (fun heap i => (heap, if i = 0 then [0] else [])) fillFour
    ∃ p q, (strategy.trace none none () sampleHeap)[5]? = some p ∧
      (strategy.trace none none () sampleHeap)[8]? = some q ∧
      (p.order 0).qty = (q.order 0).qty + (fillsOf q.trades 0 : ℚ) ∧ fillsOf q.trades 0 = 4 := by
  intro strategy
  let points := strategy.trace none none () sampleHeap
  have accepted : (points[5]?).any fun p =>
      0 ∈ p.acceptedOrders ∧ (p.order 0).status = .open ∧ p.engine.orders = [] := by
    decide +kernel
  have cancelled : (points[8]?).any fun q => fillsOf q.trades 0 = 4 := by decide +kernel
  have live : ((points.drop 5).take 3).all fun s => (s.order 0).isOpen := by decide +kernel
  obtain ⟨p, at_a, holds⟩ := (Option.any_eq_true _ _).mp accepted
  obtain ⟨q, at_c, filled⟩ := (Option.any_eq_true _ _).mp cancelled
  obtain ⟨accepted, opened, fresh⟩ := of_decide_eq_true holds
  have conserved := (order_quantity_conserved strategy none none () sampleHeap).2 0 5 5 8 p p q
    at_a at_a at_c (by omega) (by omega) accepted opened fun k s after before at_k => by
      refine List.all_eq_true.mp live s (List.mem_of_getElem? (i := k - 5) ?_)
      rw [List.getElem?_take_of_lt (by omega), List.getElem?_drop, Nat.add_sub_cancel' after, at_k]
  exact ⟨p, q, at_a, at_c, conserved.2.1 (by rw [fresh]; simp), of_decide_eq_true filled⟩

/-- An order object that was cancelled and is returned again, open, is accepted
while the account holds a trade for it. -/
theorem resubmitted_order_has_earlier_trades :
    let strategy := sampleStrategy 0 []
      (fun heap i => (heap.set 0 { heap.order 0 with timestamp := sampleTime i, status := .open }, [0]))
      fillFour
    ∃ p ∈ strategy.trace none none () sampleHeap, 0 ∈ p.acceptedOrders ∧
      (p.order 0).status = .open ∧
      (p.order 0).qty ≠ (p.order 0).qty + fillsOf p.trades 0 := by
  intro strategy
  have found : (strategy.trace none none () sampleHeap).any (fun p =>
      0 ∈ p.acceptedOrders ∧ (p.order 0).status = .open ∧
        (p.order 0).qty ≠ (p.order 0).qty + fillsOf p.trades 0) = true := by
    decide +kernel
  obtain ⟨p, member, holds⟩ := List.any_eq_true.mp found
  exact ⟨p, member, of_decide_eq_true holds⟩

end Gambit
