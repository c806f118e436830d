import Gambit.Strategy.Conservation

/-!
# When orders execute

Lag, time in force and cancellation, from the submission of an order until the
same order object is submitted again.
-/

set_option autoImplicit false

namespace Gambit

open Raising Traces OrderCallbackState

variable {W : Type} {strategy : Strategy W} {p q r : Point W} {id : OrderId}

/-- A rule call brings the order in. -/
def Submits (p q : Point W) (id : OrderId) : Prop := id ∉ p.undecided ∧ id ∈ q.undecided

theorem undecided_held (undecided : id ∈ p.undecided) : id ∈ p.held :=
  List.mem_append_right _ undecided

theorem accepted_held (accepted : id ∈ p.acceptedOrders) : id ∈ p.held :=
  List.mem_append_left _ (List.mem_append_right _ accepted)

theorem current_held (current : id ∈ p.currentOrders) : id ∈ p.held :=
  List.mem_append_left _ (List.mem_append_left _ current)

/-- Held orders were held before or are brought in. -/
theorem held_before (sound : Sound strategy p) (step : strategy.Step p q) (held : id ∈ q.held)
    (kept : ¬ Submits p q id) : id ∈ p.held := by
  by_contra new
  exact kept ⟨fun undecided => new (undecided_held undecided), (held_new sound step held new).1⟩

theorem step_known (step : strategy.Step p q) (sound : Sound strategy p) (alive : ¬ q.isFailed)
    (known : id ∈ p.known) : id ∈ q.known := by
  obtain ⟨batch, effect⟩ := step_effect sound step
  rcases List.mem_append.mp known with submitted | proposed
  · exact List.mem_append_left _ (effect.orders.subset submitted)
  · cases step with
    | expireFailed | simulateFailed | proposeFailed | consultFailed | finishFailed =>
        exact absurd rfl alive
    | consult run => exact List.mem_append_right _ proposed
    | accept => exact List.mem_append_right _ proposed
    | reject => exact List.mem_append_right _ proposed
    | submit => exact List.mem_append_left _ (List.mem_append_right _ proposed)
    | expire | simulate | pass | propose | update | finish => cases proposed

theorem current_of_eq (same : q.engine.currentOrders = p.engine.currentOrders)
    (current : id ∈ q.currentOrders) : id ∈ p.currentOrders := by
  rw [Point.currentOrders, ← same]
  exact current

/-- Only submission brings orders to the pending ones. -/
theorem step_pending (sound : Sound strategy p) (step : strategy.Step p q)
    (current : id ∈ q.currentOrders) : id ∈ p.pending := by
  rw [Point.pending, List.mem_append]
  cases step with
  | expire onward within run =>
      exact Or.inl (current_of_eq (expireOrders_aged run).heapOnly.currentOrders current)
  | expireFailed onward within run =>
      exact Or.inl (current_of_eq (expireOrders_error run).heapOnly.currentOrders current)
  | simulate run =>
      obtain ⟨batch, simulated⟩ := runMarketSim_ok sound.current_distinct sound.reconciled run
      exact Or.inl (mem_updateCurrentOrders.mp (simulated.currentOrders ▸ current)).1
  | simulateFailed run =>
      obtain ⟨_, guarded⟩ := runMarketSim_error run
      exact Or.inl (mem_updateCurrentOrders.mp (guarded.currentOrders ▸ current)).1
  | pass | update => exact Or.inl (mem_updateCurrentOrders.mp current).1
  | propose run =>
      have ruled := getOrders_yields.of_ok run sound.current_allocated
      exact Or.inl (current_of_eq ruled.currentOrders current)
  | proposeFailed run =>
      have guarded := getOrders_yields.of_error run
      exact Or.inl (current_of_eq guarded.currentOrders current)
  | consult run => exact Or.inl (current_of_eq (consult_yields.of_ok run).currentOrders current)
  | consultFailed run => exact Or.inl (current_of_eq (consult_yields.of_error run).currentOrders current)
  | accept | reject => exact Or.inl current
  | submit => exact List.mem_append.mp current
  | finish run => exact Or.inl (current_of_eq (finalCalc_yields.of_ok run).currentOrders current)
  | finishFailed run => exact Or.inl (current_of_eq (finalCalc_yields.of_error run).currentOrders current)

/-! ## From a submission to the next -/

/-- A step after which the run goes on and which does not bring the order in. -/
structure Onward (strategy : Strategy W) (id : OrderId) (p q : Point W) : Prop where
  step : strategy.Step p q
  valid : Valid strategy p
  alive : ¬ q.isFailed
  kept : ¬ Submits p q id

theorem Onward.timely (onward : Onward strategy id p q) : Timely strategy p :=
  onward.valid.timely fun failed => failed_final failed onward.step

abbrev Path (strategy : Strategy W) (id : OrderId) (p q : Point W) : Prop :=
  Relation.ReflTransGen (Onward strategy id) p q

theorem Path.known (path : Path strategy id p q) (known : id ∈ p.known) : id ∈ q.known := by
  induction path with
  | refl => exact known
  | tail _ onward known => exact step_known onward.step onward.valid.sound onward.alive known

/-- An order held throughout keeps its identity. -/
theorem Path.identity (path : Path strategy id p q) (held : id ∈ q.held) :
    SameIdentity (p.order id) (q.order id) := by
  induction path with
  | refl => exact .refl _
  | tail _ onward identity =>
      have sound := onward.valid.sound
      have heldBefore := held_before sound onward.step held onward.kept
      obtain ⟨batch, effect⟩ := step_effect sound onward.step
      exact (identity heldBefore).trans (effect.moved id heldBefore).identity

/-- Cancellation is requested, outside a pass, or the order is terminal. -/
def Withdrawn (p : Point W) (id : OrderId) : Prop :=
  (p.order id).isOpen = false ∨
    (p.order id).status = .cancelRequested ∧ ∀ eligible, p.control ≠ .passing eligible

theorem Onward.withdrawn (onward : Onward strategy id p q) (known : id ∈ p.known)
    (withdrawn : Withdrawn p id) : Withdrawn q id := by
  have sound := onward.valid.sound
  have timely := step_timely sound onward.timely onward.step onward.alive
  by_cases heldAfter : id ∈ q.held
  · have held := held_before sound onward.step heldAfter onward.kept
    obtain ⟨batch, effect⟩ := step_effect sound onward.step
    have moved := effect.moved id held
    rcases withdrawn with closed | ⟨requested, outside⟩
    · refine Or.inl ?_
      rw [Order.isOpen, (moved.closed closed).2.2]
      exact closed
    · have unfilled : fillsOf batch id = 0 := fillsOf_eq_zero fun trade booked _ => by
        obtain ⟨eligible, passing, _⟩ := (effect.booked trade booked).eligible
        exact outside eligible passing
      -- a pass begins with the acknowledgement of requests
      have entering : ∀ eligible, q.control = .passing eligible → (q.order id).isOpen →
          (q.order id).status ≠ .cancelRequested := fun eligible passing live => by
        have current : id ∈ q.currentOrders := held_of_passing passing ▸ heldAfter
        exact (timely.passing eligible passing id current live).unrequested
      have stays : (q.order id).status = .cancelRequested ∨ (q.order id).isOpen = false := by
        rcases moved.status with ⟨_, same⟩ | ⟨_, ⟨_, again⟩ | cancelled | ⟨fill, _⟩⟩
        · exact Or.inl (same.trans requested)
        · exact Or.inl again
        · exact Or.inr (by rw [Order.isOpen, cancelled]; rfl)
        · exact absurd unfilled fill
      rcases stays with requested | closed
      · refine Or.inr ⟨requested, fun eligible passing => ?_⟩
        exact entering eligible passing (by rw [Order.isOpen, requested]; rfl) requested
      · exact Or.inl closed
  · have known := step_known onward.step sound onward.alive known
    exact Or.inl (timely.closed id known heldAfter)

theorem Path.withdrawn (path : Path strategy id p q) (known : id ∈ p.known)
    (withdrawn : Withdrawn p id) : Withdrawn q id := by
  induction path with
  | refl => exact withdrawn
  | tail path onward withdrawn => exact onward.withdrawn (Path.known path known) withdrawn

/-! ## Points of a run -/

section

variable {startDate endDate : Option Timestamp} {world : W} {heap : Heap}

/-- Between points `a` and `c` the order is not brought in. -/
def NotResubmitted (points : List (Point W)) (id : OrderId) (a c : Nat) : Prop :=
  ∀ k r s, a ≤ k → k < c → points[k]? = some r → points[k + 1]? = some s → ¬ Submits r s id

theorem trace_path {a c : Nat} (at_a : (strategy.trace startDate endDate world heap)[a]? = some p)
    (at_c : (strategy.trace startDate endDate world heap)[c]? = some q) (ordered : a ≤ c)
    (alive : ¬ q.isFailed)
    (kept : NotResubmitted (strategy.trace startDate endDate world heap) id a c) :
    Path strategy id p q := by
  obtain ⟨last, trace⟩ := Strategy.trace_steps strategy startDate endDate world heap
  have path := trace.between (R := fun r s => Valid strategy r ∧ ¬ s.isFailed ∧ ¬ Submits r s id)
    at_a ordered at_c fun k r s after before at_k at_next => by
      refine ⟨trace_valid at_k, fun failed => ?_, kept k r s after before at_k at_next⟩
      -- a run that failed is over
      rcases (Nat.succ_le_of_lt before).eq_or_lt with last | further
      · rw [Nat.succ_eq_add_one] at last
        rw [last, at_c] at at_next
        cases at_next
        exact alive failed
      · obtain ⟨inside, _⟩ := List.getElem?_eq_some_iff.mp at_c
        have next := List.getElem?_eq_getElem (Nat.lt_of_le_of_lt further inside)
        exact failed_final failed (trace.step_at at_next next)
  refine Relation.ReflTransGen.mono ?_ _ _ path
  exact fun r s onward => ⟨onward.1, onward.2.1, onward.2.2.1, onward.2.2.2⟩

/-- A pending order was accepted, and not brought in since. -/
theorem trace_accepted {k : Nat}
    (at_k : (strategy.trace startDate endDate world heap)[k]? = some q) (pending : id ∈ q.pending) :
    ∃ a p, a ≤ k ∧ (strategy.trace startDate endDate world heap)[a]? = some p ∧
      id ∈ p.acceptedOrders ∧
      NotResubmitted (strategy.trace startDate endDate world heap) id a k := by
  obtain ⟨last, trace⟩ := Strategy.trace_steps strategy startDate endDate world heap
  induction k generalizing q with
  | zero =>
      have first := trace.head
      rw [List.head?_eq_getElem?, at_k] at first
      cases first
      cases pending
  | succ k ih =>
      rcases List.mem_append.mp pending with current | accepted
      · obtain ⟨inside, _⟩ := List.getElem?_eq_some_iff.mp at_k
        have present : (strategy.trace startDate endDate world heap)[k]? =
            some (strategy.trace startDate endDate world heap)[k] :=
          List.getElem?_eq_getElem (by omega)
        have pendingBefore := step_pending (trace_valid present).sound
          (trace.step_at present at_k) current
        obtain ⟨a, p, le, at_a, accepted, kept⟩ := ih present pendingBefore
        refine ⟨a, p, by omega, at_a, accepted, fun m r s after before at_m at_next submits => ?_⟩
        rcases (Nat.lt_succ_iff.mp before).eq_or_lt with rfl | earlier
        · rw [at_k] at at_next
          cases at_next
          have distinct := (trace_valid at_k).sound.distinct
          exact (List.nodup_append.mp distinct).2.2 id (List.mem_append_left _ current) id
            submits.2 rfl
        · exact kept m r s after earlier at_m at_next submits
      · exact ⟨k + 1, q, le_refl _, at_k, accepted, fun m _ _ after before => by omega⟩

end

/-- Lag, time in force and cancellation of every trade, and of every FOK order,
between one submission of its order and the next. -/
theorem execution_timing (strategy : Strategy W) (startDate endDate : Option Timestamp)
    (world : W) (heap : Heap) :
    let points := strategy.trace startDate endDate world heap
    (∀ (k : Nat) (s t : Point W) (trade : BookedTrade), points[k]? = some s →
      points[k + 1]? = some t → trade ∈ t.trades.drop s.trades.length →
      trade.timestamp = strategy.timestamp s.heartbeat ∧
      (∃ a p, a ≤ k ∧ points[a]? = some p ∧ trade.orderId ∈ p.acceptedOrders ∧
        NotResubmitted points trade.orderId a k) ∧
      (∀ a p, a ≤ k → points[a]? = some p → trade.orderId ∈ p.acceptedOrders →
        NotResubmitted points trade.orderId a k →
        p.heartbeat + strategy.tradeLag ≤ s.heartbeat ∧
        ((p.order trade.orderId).timeInForce = .fok →
          s.heartbeat = p.heartbeat + strategy.tradeLag) ∧
        ((p.order trade.orderId).timeInForce = .day →
          day trade.timestamp ≤ day (strategy.timestamp p.heartbeat))) ∧
      ∀ a p, a ≤ k → points[a]? = some p → trade.orderId ∈ p.known →
        NotResubmitted points trade.orderId a k → ¬ Withdrawn p trade.orderId) ∧
    ∀ (id : OrderId) (a c : Nat) (p q : Point W), a ≤ c → points[a]? = some p →
      points[c]? = some q → ¬ q.isFailed → id ∈ p.acceptedOrders →
      (p.order id).timeInForce = .fok → NotResubmitted points id a c →
      p.heartbeat + strategy.tradeLag < q.heartbeat → (q.order id).isOpen = false := by
  intro points
  obtain ⟨last, trace⟩ := Strategy.trace_steps strategy startDate endDate world heap
  refine ⟨fun k s t trade at_k at_next booked => ?_,
    fun id a c p q ordered at_a at_c alive accepted isFok kept late => ?_⟩
  · have valid := trace_valid at_k
    have step := trace.step_at at_k at_next
    have alive : ¬ s.isFailed := fun failed => failed_final failed step
    have timely := valid.timely alive
    obtain ⟨batch, effect⟩ := step_effect valid.sound step
    rw [effect.trades, List.drop_left] at booked
    have traded := effect.booked trade booked
    obtain ⟨eligible, passing, listed⟩ := traded.eligible
    have inPass := timely.passing eligible passing _ traded.current traded.live
    have held : trade.orderId ∈ s.held := current_held traded.current
    refine ⟨traded.timestamp, trace_accepted at_k (List.mem_append_left _ traded.current),
      fun a p le at_a accepted kept => ?_, fun a p le at_a known kept withdrawn => ?_⟩
    · have path := trace_path at_a at_k le alive kept
      have identity := path.identity held
      have sound := (trace_valid at_a).sound
      have submitted : (s.order trade.orderId).timestamp = strategy.timestamp p.heartbeat :=
        identity.timestamp.trans (sound.proposed _ (List.mem_append_left _ accepted)).2
      have index : strategy.setup.timestamps.timestamps[p.heartbeat]? =
          some (s.order trade.orderId).timestamp := submitted ▸ timestamp_at sound.inside
      have lagged := inPass.lagged listed p.heartbeat index
      refine ⟨lagged, fun isFok => ?_, fun daily => ?_⟩
      · rw [← identity.timeInForce] at isFok
        exact le_antisymm (timely.fok _ held traded.live isFok p.heartbeat index) lagged
      · rw [← identity.timeInForce] at daily
        rw [traded.timestamp, ← submitted]
        exact inPass.sameDay daily
    · have path := trace_path at_a at_k le alive kept
      rcases path.withdrawn known withdrawn with closed | ⟨_, outside⟩
      · rw [traded.live] at closed
        cases closed
      · exact outside eligible passing
  · have path := trace_path at_a at_c ordered alive kept
    have sound := (trace_valid at_a).sound
    have timely := (trace_valid at_c).timely alive
    by_cases held : id ∈ q.held
    · have identity := path.identity held
      have submitted : (q.order id).timestamp = strategy.timestamp p.heartbeat :=
        identity.timestamp.trans (sound.proposed id (List.mem_append_left _ accepted)).2
      have index : strategy.setup.timestamps.timestamps[p.heartbeat]? =
          some (q.order id).timestamp := submitted ▸ timestamp_at sound.inside
      rw [← identity.timeInForce] at isFok
      by_contra live
      have early := timely.fok id held (by simpa using live) isFok p.heartbeat index
      omega
    · exact timely.closed id (path.known (sound.held_known (accepted_held accepted))) held

theorem notResubmitted_of_all {points : List (Point W)} {a c : Nat}
    (absent : ((points.drop (a + 1)).take (c - a)).all fun s => id ∉ s.undecided) :
    NotResubmitted points id a c := by
  intro k r s after before at_k at_next submits
  have listed : s ∈ (points.drop (a + 1)).take (c - a) := by
    refine List.mem_of_getElem? (i := k - a) ?_
    rw [List.getElem?_take_of_lt (by omega), List.getElem?_drop]
    have index : a + 1 + (k - a) = k + 1 := by omega
    rw [index, at_next]
  exact of_decide_eq_true (List.all_eq_true.mp absent s listed) submits.2

/-- An order with lag one, filled at the next heartbeat. -/
theorem execution_timing_lag :
    let strategy := sampleStrategy 1 [] (fun heap i => (heap, if i = 0 then [0] else [])) fillFour
    ∃ p s : Point Unit, (strategy.trace none none () sampleHeap)[5]? = some p ∧
      (strategy.trace none none () sampleHeap)[8]? = some s ∧ p.heartbeat + 1 ≤ s.heartbeat := by
  intro strategy
  let points := strategy.trace none none () sampleHeap
  have accepted : (points[5]?).any fun p => 0 ∈ p.acceptedOrders := by decide +kernel
  have passing : (points[8]?).any fun s => s.trades = [] := by decide +kernel
  have filled : (points[9]?).any fun t => (t.trades.map BookedTrade.orderId) = [0] := by
    decide +kernel
  have kept : NotResubmitted points 0 5 8 := notResubmitted_of_all (by decide +kernel)
  obtain ⟨p, at_a, accepted⟩ := (Option.any_eq_true _ _).mp accepted
  obtain ⟨s, at_k, untraded⟩ := (Option.any_eq_true _ _).mp passing
  obtain ⟨t, at_next, traded⟩ := (Option.any_eq_true _ _).mp filled
  obtain ⟨trade, single, own⟩ := List.map_eq_singleton_iff.mp (of_decide_eq_true traded)
  have booked : trade ∈ t.trades.drop s.trades.length := by
    rw [of_decide_eq_true untraded, single]
    exact List.mem_singleton_self _
  have timing := (execution_timing strategy none none () sampleHeap).1 8 s t trade at_k at_next booked
  rw [own] at timing
  exact ⟨p, s, at_a, at_k,
    (timing.2.2.1 5 p (by omega) at_a (of_decide_eq_true accepted) kept).1⟩

/-- An order object whose cancellation was requested, and which is returned
again after its acknowledgement, trades. -/
theorem resubmitted_order_trades_after_cancel :
    let strategy := sampleStrategy 0 []
      (fun heap i =>
        if i = 0 then (heap, [0])
        else if i = 1 then (heap.set 0 (heap.order 0).requestCancel, [])
        else if i = 2 then
          (heap.set 0 { heap.order 0 with timestamp := sampleTime 2, status := .open }, [0])
        else (heap, []))
      (fun heap orders i => if i = 2 then fillFour heap orders i else (heap, []))
    ∃ (a c : Nat) (p q : Point Unit), a < c ∧
      (strategy.trace none none () sampleHeap)[a]? = some p ∧
      (strategy.trace none none () sampleHeap)[c]? = some q ∧ 0 ∈ p.currentOrders ∧
      (p.order 0).status = .cancelRequested ∧ p.trades = [] ∧ fillsOf q.trades 0 = 4 := by
  intro strategy
  let points := strategy.trace none none () sampleHeap
  have requested : (points[13]?).any fun p =>
      0 ∈ p.currentOrders ∧ (p.order 0).status = .cancelRequested ∧ p.trades = [] := by
    decide +kernel
  have filled : (points[25]?).any fun q => fillsOf q.trades 0 = 4 := by decide +kernel
  obtain ⟨p, at_a, holds⟩ := (Option.any_eq_true _ _).mp requested
  obtain ⟨q, at_c, filled⟩ := (Option.any_eq_true _ _).mp filled
  obtain ⟨pending, requested, untraded⟩ := of_decide_eq_true holds
  exact ⟨13, 25, p, q, by omega, at_a, at_c, pending, requested, untraded,
    of_decide_eq_true filled⟩

end Gambit
