import Gambit.Strategy.Effects

/-!
# Invariants of a run

`Sound` holds at every point; `Timely` says what the expiry loop has settled
about the orders still open.
-/

set_option autoImplicit false

namespace Gambit

open Raising Traces OrderCallbackState

variable {W : Type} {strategy : Strategy W} {p q : Point W}

/-- No step but a rule call brings orders in. -/
structure Shrinks (p q : Point W) : Prop where
  held : q.held.Sublist p.held
  known : ∀ id ∈ q.known, id ∈ p.known
  current : ∀ id ∈ q.currentOrders, id ∈ q.engine.orders
  decided : ∀ id ∈ q.acceptedOrders ++ q.undecided, id ∈ p.acceptedOrders ++ p.undecided ∧
    q.proposal = p.proposal ∧ q.heartbeat = p.heartbeat

def Proposes (strategy : Strategy W) (p q : Point W) : Prop :=
  ∃ rule orders, p.control = .idle ∧ q.heartbeat = p.heartbeat ∧
    q.control = .deciding orders [] orders strategy.riskPolicies ∧
    Ruled strategy p.heartbeat rule p.engine q.engine orders

theorem sublist_of_eq {α : Type} {xs ys : List α} (same : xs = ys) : xs.Sublist ys :=
  same ▸ List.Sublist.refl _

theorem known_idle {engine : Engine W} {i : Nat} :
    (Point.mk engine i .idle).known = engine.orders :=
  List.append_nil _

theorem known_passing {engine : Engine W} {i : Nat} {eligible : List OrderId} :
    (Point.mk engine i (.passing eligible)).known = engine.orders :=
  List.append_nil _

theorem known_failed {engine : Engine W} {i : Nat} :
    (Point.mk engine i .failed).known = engine.orders :=
  List.append_nil _

/-- A step that leaves no order under decision and keeps the lists up to dropping
pending orders. -/
theorem Shrinks.settled (sound : Sound strategy p) (held : q.held = q.currentOrders)
    (none : q.acceptedOrders ++ q.undecided = [])
    (current : q.currentOrders.Sublist p.currentOrders) (orders : q.engine.orders = p.engine.orders)
    (known : q.known = q.engine.orders) : Shrinks p q where
  held := by
    rw [held]
    exact current.trans ((List.sublist_append_left _ _).trans (List.sublist_append_left _ _))
  known := fun id member => by
    rw [known, orders] at member
    exact List.mem_append_left _ member
  current := fun id member => by
    rw [orders]
    exact sound.current id (current.subset member)
  decided := fun id member => by
    rw [none] at member
    cases member

theorem step_shape (sound : Sound strategy p) (step : strategy.Step p q) :
    Shrinks p q ∨ Proposes strategy p q := by
  cases step with
  | expire onward within run =>
      have aged := (expireOrders_aged run).heapOnly
      exact Or.inl (.settled sound held_passing rfl
        (sublist_of_eq aged.currentOrders) aged.orders known_passing)
  | expireFailed onward within run =>
      have aged := (expireOrders_error run).heapOnly
      exact Or.inl (.settled sound held_failed rfl
        (sublist_of_eq aged.currentOrders) aged.orders known_failed)
  | simulate run =>
      obtain ⟨batch, simulated⟩ := runMarketSim_ok sound.current_distinct sound.reconciled run
      exact Or.inl (.settled sound held_passing rfl
        ((sublist_of_eq simulated.currentOrders).trans List.filter_sublist) simulated.orders known_passing)
  | simulateFailed run =>
      obtain ⟨_, guarded⟩ := runMarketSim_error run
      exact Or.inl (.settled sound held_failed rfl
        ((sublist_of_eq guarded.currentOrders).trans List.filter_sublist) guarded.orders known_failed)
  | pass => exact Or.inl (.settled sound held_idle rfl List.filter_sublist rfl known_idle)
  | @propose engine after i rule orders run =>
      exact Or.inr ⟨rule, orders, rfl, rfl, rfl,
        getOrders_yields.of_ok run sound.current_allocated⟩
  | proposeFailed run =>
      have guarded := getOrders_yields.of_error run
      exact Or.inl (.settled sound held_failed rfl
        (sublist_of_eq guarded.currentOrders) guarded.orders known_failed)
  | @consult engine after i orders accepted undecided order policy policies result run =>
      have guarded := consult_yields.of_ok run
      refine Or.inl ⟨?_, fun id member => ?_, fun id member => ?_, fun id member => ⟨member, rfl, rfl⟩⟩
      · rw [held_deciding, held_deciding, guarded.currentOrders]
      · have listed : id ∈ after.orders ++ orders := member
        rwa [guarded.orders] at listed
      · have listed : id ∈ after.currentOrders := member
        rw [guarded.currentOrders] at listed
        have known : id ∈ engine.orders := sound.current id listed
        rwa [← guarded.orders] at known
  | consultFailed run =>
      have guarded := consult_yields.of_error run
      exact Or.inl (.settled sound held_failed rfl
        (sublist_of_eq guarded.currentOrders) guarded.orders known_failed)
  | @accept engine i orders accepted undecided order decision =>
      refine Or.inl ⟨?_, fun id member => member, sound.current, fun id member => ⟨?_, rfl, rfl⟩⟩
      · rw [held_deciding, held_deciding]
        simp [Engine.accept]
      · simpa [Point.acceptedOrders, Point.undecided] using member
  | @reject engine i orders accepted undecided policies decision =>
      refine Or.inl ⟨?_, fun id member => member, sound.current, fun id member => ⟨?_, rfl, rfl⟩⟩
      · rw [held_deciding, held_deciding]
        exact (List.sublist_cons_self _ _).append_left _
      · exact (((List.sublist_cons_self _ _).append_left _).subset member)
  | @submit engine i orders accepted policies =>
      refine Or.inl ⟨?_, fun id member => ?_, fun id member => ?_, fun id member => by cases member⟩
      · rw [held_deciding, held_idle, List.append_nil]
        exact List.Sublist.refl _
      · rwa [known_idle] at member
      · rcases List.mem_append.mp member with old | new
        · exact List.mem_append_left _ (sound.current id old)
        · exact List.mem_append_right _ (sound.proposed id (List.mem_append_left _ new)).1
  | update => exact Or.inl (.settled sound held_idle rfl List.filter_sublist rfl known_idle)
  | finish run =>
      have calculated := finalCalc_yields.of_ok run
      exact Or.inl (.settled sound held_idle rfl
        (sublist_of_eq calculated.currentOrders) calculated.orders known_idle)
  | finishFailed run =>
      have calculated := finalCalc_yields.of_error run
      exact Or.inl (.settled sound held_failed rfl
        (sublist_of_eq calculated.currentOrders) calculated.orders known_failed)

/-! ## Soundness -/

theorem timestamp_at {i : Nat} (inside : i < strategy.setup.timestamps.timestamps.length) :
    strategy.setup.timestamps.timestamps[i]? = some (strategy.timestamp i) := by
  rw [Strategy.timestamp, List.getD_eq_getElem?_getD, List.getElem?_eq_getElem inside,
    Option.getD_some]

theorem Effect.past {batch : List BookedTrade} (sound : Sound strategy p)
    (effect : Effect strategy p q batch) :
    ∀ trade ∈ q.trades, ∃ j ≤ q.heartbeat,
      strategy.setup.timestamps.timestamps[j]? = some trade.timestamp := by
  intro trade member
  rw [effect.trades] at member
  rcases List.mem_append.mp member with old | new
  · obtain ⟨j, le, at_j⟩ := sound.past trade old
    exact ⟨j, le.trans effect.onward, at_j⟩
  · exact ⟨p.heartbeat, effect.onward, (effect.booked trade new).timestamp ▸ timestamp_at sound.inside⟩

theorem step_sound (sound : Sound strategy p) (step : strategy.Step p q) : Sound strategy q := by
  obtain ⟨batch, effect⟩ := step_effect sound step
  have grown := effect.grown
  rcases step_shape sound step with shrinks | ⟨rule, orders, idle, sameHeartbeat, deciding, ruled⟩
  · refine ⟨effect.inside, sound.distinct.sublist shrinks.held, fun id member => ?_,
      fun id member roll => ?_, shrinks.current, fun id member => ?_, fun id member => ?_,
      effect.reconciled, effect.past sound⟩
    · exact (sound.allocated id (shrinks.known id member)).trans_le grown.size
    · have known := shrinks.known id member
      exact sound.plain id known (grown.rolls id (sound.allocated id known) roll)
    · obtain ⟨undecided, proposal, heartbeat⟩ := shrinks.decided id member
      obtain ⟨proposed, timestamp⟩ := sound.proposed id undecided
      have held : id ∈ p.held := by
        rw [Point.held, Point.pending, List.append_assoc]
        exact List.mem_append_right _ undecided
      rw [proposal, heartbeat, ← timestamp]
      exact ⟨proposed, (effect.moved id held).identity.timestamp⟩
    · have held := shrinks.held.subset member
      exact (sound.admissible id held).moved (effect.moved id held) effect.onward
  · have proposal : q.proposal = orders := by rw [Point.proposal, deciding]
    have accepted : q.acceptedOrders = [] := by rw [Point.acceptedOrders, deciding]
    have undecided : q.undecided = orders := by rw [Point.undecided, deciding]
    have current : q.currentOrders = p.currentOrders := ruled.currentOrders
    have heldEq : q.held = p.currentOrders ++ orders := by
      rw [Point.held, Point.pending, accepted, undecided, current, List.append_nil]
    have heldBefore : p.held = p.currentOrders := by
      obtain ⟨engine, i, control⟩ := p
      cases idle
      exact held_idle
    have knownEq : q.known = p.engine.orders ++ orders := by
      rw [Point.known, proposal, ruled.known]
    refine ⟨effect.inside, ?_, fun id member => ?_, fun id member roll => ?_, fun id member => ?_,
      fun id member => ?_, fun id member => ?_, effect.reconciled, effect.past sound⟩
    · rw [heldEq]
      exact sound.current_distinct.append ruled.distinct fun id old new => ruled.fresh id new old
    · rw [knownEq] at member
      rcases List.mem_append.mp member with old | new
      · exact (sound.allocated id (List.mem_append_left _ old)).trans_le grown.size
      · exact ruled.allocated id new
    · rw [knownEq] at member
      rcases List.mem_append.mp member with old | new
      · have known := List.mem_append_left p.proposal old
        exact sound.plain id known (grown.rolls id (sound.allocated id known) roll)
      · exact (ruled.proposed id new).executable roll
    · rw [current] at member
      exact ruled.known ▸ sound.current id member
    · rw [accepted, undecided, List.nil_append] at member
      rw [proposal, sameHeartbeat]
      exact ⟨member, (ruled.proposed id member).timestamp⟩
    · rw [heldEq] at member
      rcases List.mem_append.mp member with old | new
      · have held : id ∈ p.held := heldBefore ▸ old
        exact (sound.admissible id held).moved (effect.moved id held) effect.onward
      · have proposed := ruled.proposed id new
        refine ⟨proposed.registered, ⟨p.heartbeat, effect.onward, ?_⟩, fun _ => proposed.whole⟩
        rw [Point.order, proposed.timestamp]
        exact timestamp_at sound.inside

theorem start_sound (strategy : Strategy W) (world : W) (heap : Heap) :
    Sound strategy (Strategy.start world heap) := by
  have inside : 0 < strategy.setup.timestamps.timestamps.length :=
    List.length_pos_of_ne_nil strategy.setup.timestamps.nonempty
  refine ⟨inside, .nil, ?_, ?_, ?_, ?_, ?_, Reconciled.new _, ?_⟩
  all_goals exact fun _ member => by cases member

/-! ## Orders the engine no longer holds -/

def Point.isFailed (p : Point W) : Prop := p.control = .failed

/-- An order leaves the engine's hands closed, and is then left alone. -/
structure Released (p q : Point W) (id : OrderId) : Prop where
  dropped : id ∈ p.held → (q.order id).isOpen = false
  untouched : id ∉ p.held → q.order id = p.order id

theorem Released.kept {id : OrderId} (same : q.held = p.held) (absent : id ∉ q.held)
    (untouched : id ∉ p.held → q.order id = p.order id) : Released p q id :=
  ⟨fun held => absurd (same ▸ held) absent, untouched⟩

theorem Released.filtered {engine : Engine W} {i : Nat} {control : Control W} {id : OrderId}
    (held : (Point.mk engine i control).held = engine.currentOrders)
    (absent : id ∉ (Point.mk engine.updateCurrentOrders i .idle).held) :
    Released ⟨engine, i, control⟩ ⟨engine.updateCurrentOrders, i, .idle⟩ id where
  dropped := fun member => by
    rw [held] at member
    rw [held_idle] at absent
    exact Bool.not_eq_true _ ▸ fun live => absent (mem_updateCurrentOrders.mpr ⟨member, live⟩)
  untouched := fun _ => rfl

theorem step_releases (sound : Sound strategy p) (step : strategy.Step p q) (alive : ¬ q.isFailed)
    {id : OrderId} (known : id ∈ p.known) (absent : id ∉ q.held) : Released p q id := by
  have inside := sound.allocated id known
  cases step with
  | expireFailed | simulateFailed | proposeFailed | consultFailed | finishFailed =>
      exact absurd rfl alive
  | expire onward within run =>
      have aged := expireOrders_aged run
      refine .kept ?_ absent fun outside => aged.outside id fun member => ?_
      · rw [held_passing, held_idle, aged.heapOnly.currentOrders]
      · exact outside (held_idle ▸ member)
  | @simulate engine after i eligible sim run =>
      obtain ⟨batch, simulated⟩ := runMarketSim_ok sound.current_distinct sound.reconciled run
      rw [held_passing, simulated.currentOrders] at absent
      rw [known_passing] at known
      have untouched : after.heap.order id = engine.heap.order id :=
        simulated.untouched id known inside absent
      refine ⟨fun member => ?_, fun _ => untouched⟩
      rw [held_passing] at member
      simp only [Point.order, untouched]
      exact Bool.not_eq_true _ ▸ fun live => absent (mem_updateCurrentOrders.mpr ⟨member, live⟩)
  | pass => exact .filtered held_passing absent
  | update => exact .filtered held_idle absent
  | @propose engine after i rule orders run =>
      have ruled := getOrders_yields.of_ok run sound.current_allocated
      rw [held_deciding, List.append_nil, ruled.currentOrders] at absent
      obtain ⟨notCurrent, notNew⟩ := not_or.mp (mt List.mem_append.mpr absent)
      rw [known_idle] at known
      have plain := sound.plain id (known_idle ▸ known)
      refine ⟨fun member => absurd (held_idle ▸ member) notCurrent, fun _ => ?_⟩
      exact ruled.untouched id known inside plain notCurrent notNew
  | @consult engine after i orders accepted undecided order policy policies result run =>
      have guarded := consult_yields.of_ok run
      refine .kept ?_ absent fun outside => guarded.untouched id known inside fun listed => ?_
      · rw [held_deciding, held_deciding, guarded.currentOrders]
      · rw [held_deciding] at outside
        rcases List.mem_cons.mp listed with rfl | pending
        · exact outside (List.mem_append_right _ (List.mem_cons_self ..))
        · exact outside (List.mem_append_left _ pending)
  | @accept engine i orders accepted undecided order decision =>
      refine .kept ?_ absent fun _ => rfl
      rw [held_deciding, held_deciding]
      simp [Engine.accept]
  | @reject engine i orders accepted undecided policies decision =>
      by_cases here : id = decision.order
      · subst here
        refine ⟨fun _ => ?_, fun outside => absurd ?_ outside⟩
        · simp only [Point.order, Engine.reject]
          rw [Heap.set_same]
          exact cancel_not_open _
        · rw [held_deciding]
          exact List.mem_append_right _ (List.mem_cons_self ..)
      · refine ⟨fun member => absurd ?_ absent, fun _ => Heap.set_other here⟩
        rw [held_deciding] at member ⊢
        rcases List.mem_append.mp member with pending | waiting
        · exact List.mem_append_left _ pending
        · exact List.mem_append_right _ ((List.mem_cons.mp waiting).resolve_left here)
  | @submit engine i orders accepted policies =>
      refine .kept ?_ absent fun _ => rfl
      rw [held_deciding, held_idle, List.append_nil]
      rfl
  | finish run =>
      have calculated := finalCalc_yields.of_ok run
      refine .kept ?_ absent fun _ => congrFun (congrArg Heap.order calculated.heap) id
      rw [held_idle, held_idle]
      exact calculated.currentOrders

/-! ## Time in force and cancellation -/

/-- What the expiry loop leaves of an order that is still open in a pass. -/
structure InPass (strategy : Strategy W) (heartbeat : Nat) (eligible : List OrderId) (id : OrderId)
    (order : Order) : Prop where
  unrequested : order.status ≠ .cancelRequested
  sameDay : order.timeInForce = .day → day (strategy.timestamp heartbeat) ≤ day order.timestamp
  lagged : id ∈ eligible → ∀ j, strategy.setup.timestamps.timestamps[j]? = some order.timestamp →
    j + strategy.tradeLag ≤ heartbeat

structure Timely (strategy : Strategy W) (p : Point W) : Prop where
  closed : ∀ id ∈ p.known, id ∉ p.held → (p.order id).isOpen = false
  fok : ∀ id ∈ p.held, (p.order id).isOpen → (p.order id).timeInForce = .fok →
    ∀ j, strategy.setup.timestamps.timestamps[j]? = some (p.order id).timestamp →
      p.heartbeat ≤ j + strategy.tradeLag
  passing : ∀ eligible, p.control = .passing eligible → ∀ id ∈ p.currentOrders,
    (p.order id).isOpen → InPass strategy p.heartbeat eligible id (p.order id)

theorem timestamps_injective {i j : Nat} {timestamp : Timestamp}
    (at_i : strategy.setup.timestamps.timestamps[i]? = some timestamp)
    (at_j : strategy.setup.timestamps.timestamps[j]? = some timestamp) : i = j :=
  (searchsorted_getElem? strategy.setup.timestamps.increasing at_i).symm.trans
    (searchsorted_getElem? strategy.setup.timestamps.increasing at_j)

/-- An open order after the expiry loop. -/
theorem expire_inPass {engine after : Engine W} {i : Nat} {eligible : List OrderId}
    (distinct : engine.currentOrders.Nodup)
    (run : strategy.expireOrders i engine = .ok (after, eligible)) {id : OrderId}
    (member : id ∈ engine.currentOrders) (live : (after.heap.order id).isOpen) :
    InPass strategy i eligible id (after.heap.order id) ∧
      ((after.heap.order id).timeInForce = .fok → ∀ j,
        strategy.setup.timestamps.timestamps[j]? = some (after.heap.order id).timestamp →
          i ≤ j + strategy.tradeLag) := by
  obtain ⟨submitted, content, eligibleLag⟩ := expireOrders_ok distinct run member
  have aged := @expireOrder_aged W strategy i
    (searchsorted strategy.setup.timestamps.timestamps (engine.heap.order id).timestamp)
    (engine.heap.order id)
  rw [← content] at aged
  rw [content] at live
  obtain ⟨unrequested, sameDay, fok⟩ := expireOrder_open live
  rw [← content] at live
  rw [← aged.identity.timeInForce] at fok sameDay
  have status := (aged.isOpen live).2
  refine ⟨⟨status ▸ unrequested, fun daily => ?_, fun listed j at_j => ?_⟩, fun isFok j at_j => ?_⟩
  · rw [aged.identity.timestamp]
    exact sameDay daily
  · rw [aged.identity.timestamp] at at_j
    have index := searchsorted_getElem? strategy.setup.timestamps.increasing at_j
    have lag := eligibleLag listed
    omega
  · rw [aged.identity.timestamp] at at_j
    have index := searchsorted_getElem? strategy.setup.timestamps.increasing at_j
    have lag := fok isFok
    omega

theorem step_into_pass (step : strategy.Step p q) {eligible : List OrderId}
    (passing : q.control = .passing eligible) :
    (p.control = .idle ∧ strategy.expireOrders q.heartbeat p.engine = .ok (q.engine, eligible)) ∨
      (p.control = .passing eligible ∧ q.heartbeat = p.heartbeat ∧
        ∃ sim, strategy.runMarketSim q.heartbeat eligible sim p.engine = .ok q.engine) := by
  cases step with
  | expire onward within run =>
      cases passing
      exact Or.inl ⟨rfl, run⟩
  | simulate run =>
      cases passing
      exact Or.inr ⟨rfl, rfl, _, run⟩
  | _ => cases passing

/-- The expiry loop alone moves on in time. -/
theorem step_heartbeat (step : strategy.Step p q) (alive : ¬ q.isFailed) :
    q.heartbeat = p.heartbeat ∨ ∃ eligible, p.control = .idle ∧ q.control = .passing eligible ∧
      strategy.expireOrders q.heartbeat p.engine = .ok (q.engine, eligible) := by
  cases step with
  | expireFailed => exact absurd rfl alive
  | expire onward within run => exact Or.inr ⟨_, rfl, rfl, run⟩
  | _ => exact Or.inl rfl

theorem held_of_passing {eligible : List OrderId} (passing : p.control = .passing eligible) :
    p.held = p.currentOrders := by
  obtain ⟨engine, i, control⟩ := p
  cases passing
  exact held_passing

theorem held_of_idle (idle : p.control = .idle) : p.held = p.currentOrders := by
  obtain ⟨engine, i, control⟩ := p
  cases idle
  exact held_idle

/-- New among the held orders are only the proposals of this heartbeat. -/
theorem held_new (sound : Sound strategy p) (step : strategy.Step p q) {id : OrderId}
    (member : id ∈ q.held) (new : id ∉ p.held) :
    id ∈ q.undecided ∧ p.control = .idle ∧ id ∉ p.currentOrders ∧
      (q.order id).timestamp = strategy.timestamp p.heartbeat := by
  rcases step_shape sound step with shrinks | ⟨rule, orders, idle, _, deciding, ruled⟩
  · exact absurd (shrinks.held.subset member) new
  · rw [held_of_idle idle] at new
    have accepted : q.acceptedOrders = [] := by rw [Point.acceptedOrders, deciding]
    have undecided : q.undecided = orders := by rw [Point.undecided, deciding]
    have current : q.currentOrders = p.currentOrders := ruled.currentOrders
    rw [Point.held, Point.pending, accepted, undecided, current, List.append_nil] at member
    have listed := (List.mem_append.mp member).resolve_left new
    exact ⟨undecided ▸ listed, idle, new, (ruled.proposed id listed).timestamp⟩

theorem step_timely (sound : Sound strategy p) (timely : Timely strategy p)
    (step : strategy.Step p q) (alive : ¬ q.isFailed) : Timely strategy q := by
  obtain ⟨batch, effect⟩ := step_effect sound step
  refine ⟨fun id known absent => ?_, fun id member live isFok j at_j => ?_,
    fun eligible passing id member live => ?_⟩
  · have knownBefore : id ∈ p.known := by
      rcases step_shape sound step with shrinks | ⟨rule, orders, idle, _, deciding, ruled⟩
      · exact shrinks.known id known
      · have proposal : q.proposal = orders := by rw [Point.proposal, deciding]
        have undecided : q.undecided = orders := by rw [Point.undecided, deciding]
        rw [Point.known, proposal, ruled.known] at known
        rcases List.mem_append.mp known with old | new
        · exact List.mem_append_left _ old
        · exact absurd (List.mem_append_right _ (undecided ▸ new)) absent
    have released := step_releases sound step alive knownBefore absent
    by_cases held : id ∈ p.held
    · exact released.dropped held
    · rw [released.untouched held]
      exact timely.closed id knownBefore held
  · rcases step_heartbeat step alive with same | ⟨eligible, idle, passing, run⟩
    · rw [same]
      by_cases held : id ∈ p.held
      · have moved := effect.moved id held
        rw [moved.identity.timeInForce] at isFok
        rw [moved.identity.timestamp] at at_j
        exact timely.fok id held (moved.isOpen_before live) isFok j at_j
      · obtain ⟨_, _, _, now⟩ := held_new sound step member held
        rw [now] at at_j
        have index := timestamps_injective at_j (timestamp_at sound.inside)
        omega
    · rw [held_of_passing passing] at member
      have current : q.currentOrders = p.engine.currentOrders :=
        (expireOrders_aged run).heapOnly.currentOrders
      exact (expire_inPass sound.current_distinct run (by rwa [← current]) live).2 isFok j at_j
  · rcases step_into_pass step passing with ⟨idle, run⟩ | ⟨passingBefore, same, sim, run⟩
    · have current : q.currentOrders = p.engine.currentOrders :=
        (expireOrders_aged run).heapOnly.currentOrders
      exact (expire_inPass sound.current_distinct run (by rwa [← current]) live).1
    · obtain ⟨fills, simulated⟩ := runMarketSim_ok sound.current_distinct sound.reconciled run
      have listed : id ∈ p.engine.updateCurrentOrders.currentOrders :=
        simulated.currentOrders ▸ member
      obtain ⟨current, liveBefore⟩ := mem_updateCurrentOrders.mp listed
      have inPass := timely.passing eligible passingBefore id current liveBefore
      have filled := simulated.fills id listed
      rw [same]
      refine ⟨fun requested => ?_, fun daily => ?_, fun listed j at_j => ?_⟩
      · have status : (q.engine.heap.order id).status = .cancelRequested := requested
        rcases filled.status with ⟨_, unchanged⟩ | cancelled | ⟨_, filledStatus⟩
        · exact inPass.unrequested (unchanged.symm.trans status)
        · rw [status] at cancelled
          cases cancelled
        · rw [status] at filledStatus
          split at filledStatus
          · cases filledStatus
          · cases filledStatus
      · have day := inPass.sameDay (filled.identity.timeInForce ▸ daily)
        exact filled.identity.timestamp ▸ day
      · exact inPass.lagged listed j (filled.identity.timestamp ▸ at_j)

theorem start_timely (strategy : Strategy W) (world : W) (heap : Heap) :
    Timely strategy (Strategy.start world heap) where
  closed := fun _ member => by cases member
  fok := fun _ member => by cases member
  passing := fun _ passing => by cases passing

theorem failed_final (failed : p.isFailed) : ¬ strategy.Step p q := by
  intro step
  cases step <;> cases failed

/-! ## Every point of a run -/

/-- Sound, and timely unless the run ended there with an exception. -/
structure Valid (strategy : Strategy W) (p : Point W) : Prop where
  sound : Sound strategy p
  timely : ¬ p.isFailed → Timely strategy p

theorem start_valid (strategy : Strategy W) (world : W) (heap : Heap) :
    Valid strategy (Strategy.start world heap) :=
  ⟨start_sound strategy world heap, fun _ => start_timely strategy world heap⟩

theorem step_valid (valid : Valid strategy p) (step : strategy.Step p q) : Valid strategy q :=
  ⟨step_sound valid.sound step, fun alive =>
    step_timely valid.sound (valid.timely fun failed => failed_final failed step) step alive⟩

theorem trace_valid {startDate endDate : Option Timestamp} {world : W} {heap : Heap} {k : Nat}
    (at_k : (strategy.trace startDate endDate world heap)[k]? = some p) : Valid strategy p := by
  obtain ⟨last, trace⟩ := Strategy.trace_steps strategy startDate endDate world heap
  exact trace.invariant (start_valid strategy world heap) (fun _ _ => step_valid) at_k

end Gambit
