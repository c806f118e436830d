import Gambit.Strategy.Invariant

/-!
# What stops a run

The engine itself refuses nothing: the expiry loop finds every pending order on
the grid and the decisions find whole quantities, so a run that stops has
stopped at a callback.
-/

set_option autoImplicit false

namespace Gambit

open Raising Traces

variable {W : Type} {strategy : Strategy W} {p q : Point W}

/-- A callback raised, or what it did was refused. -/
inductive Strategy.CallbackFails (strategy : Strategy W) : Point W → Point W → Prop
  | simulator {engine : Engine W} {i : Nat} {eligible : List OrderId} {sim : MarketSim W}
      {raised : Raised Exn (Engine W)}
      (run : strategy.runMarketSim i eligible sim engine = .error raised) :
      CallbackFails strategy ⟨engine, i, .passing eligible⟩ ⟨raised.state, i, .failed⟩
  | rule {engine looked : Engine W} {i : Nat} {rule : Rule W} {raised : Raised Exn (Engine W)}
      (run : strategy.callRule i rule looked = .error raised) :
      CallbackFails strategy ⟨engine, i, .idle⟩ ⟨raised.state, i, .failed⟩
  | policy {engine : Engine W} {i : Nat} {orders accepted undecided : List OrderId}
      {order : OrderId} {policy : RiskPolicy W} {policies : List (RiskPolicy W)}
      {raised : Raised Exn (Engine W)}
      (run : strategy.consult i orders accepted order policy engine = .error raised) :
      CallbackFails strategy
        ⟨engine, i, .deciding orders accepted (order :: undecided) (policy :: policies)⟩
        ⟨raised.state, i, .failed⟩
  | price {engine : Engine W} {i : Nat} {timestamp : Timestamp} {raised : Raised Exn (Engine W)}
      (run : strategy.finalCalc timestamp engine = .error raised) :
      CallbackFails strategy ⟨engine, i, .idle⟩ ⟨raised.state, i, .failed⟩

/-! ## The expiry loop -/

theorem expirePending_total {i : Nat} {state : Engine W × List OrderId} {id : OrderId}
    (inside : searchsorted strategy.setup.timestamps.timestamps (state.1.heap.order id).timestamp <
        strategy.setup.timestamps.timestamps.length ∧
      searchsorted strategy.setup.timestamps.timestamps (state.1.heap.order id).timestamp ≤ i) :
    ∃ after, strategy.expirePending i state id = .ok after := by
  unfold Strategy.expirePending
  dsimp only
  rw [if_neg (not_not.mpr inside)]
  exact ⟨_, rfl⟩

theorem expireOrders_total {h i : Nat} {engine : Engine W} (onward : h ≤ i)
    (sound : Sound strategy ⟨engine, h, .idle⟩) :
    ∃ out, strategy.expireOrders i engine = .ok out := by
  have placed (id : OrderId) (member : id ∈ engine.currentOrders) :
      let idx := searchsorted strategy.setup.timestamps.timestamps (engine.heap.order id).timestamp
      idx < strategy.setup.timestamps.timestamps.length ∧ idx ≤ i := by
    have held : id ∈ (Point.mk engine h Control.idle).held := by
      rw [held_idle]
      exact member
    obtain ⟨j, le, at_j⟩ := (sound.admissible id held).submitted
    have index := searchsorted_getElem? strategy.setup.timestamps.increasing at_j
    rw [Point.order] at index
    dsimp only
    rw [index]
    exact ⟨(List.getElem?_eq_some_iff.mp at_j).1, le.trans onward⟩
  have rounds : ∀ id ∈ engine.currentOrders, ∀ state : Engine W × List OrderId,
      (∀ id, (state.1.heap.order id).timestamp = (engine.heap.order id).timestamp) →
      ∃ after, strategy.expirePending i state id = .ok after ∧
        ∀ id, (after.1.heap.order id).timestamp = (engine.heap.order id).timestamp := by
    intro id member state same
    have inside := placed id member
    dsimp only at inside
    rw [← same id] at inside
    obtain ⟨after, ran⟩ := expirePending_total inside
    refine ⟨after, ran, fun other => ?_⟩
    obtain ⟨_, rfl⟩ := expirePending_ok ran
    by_cases here : other = id
    · subst here
      rw [Heap.set_same, (expireOrder_aged _ _).identity.timestamp, same]
    · rw [Heap.set_other here, same]
  obtain ⟨out, run, _⟩ := foldlM_total rounds (engine, []) fun _ => rfl
  exact ⟨out, run⟩

/-! ## Decisions -/

/-- The orders still to be decided have whole quantities. -/
def WholeUndecided (p : Point W) : Prop :=
  ∀ id ∈ p.undecided, ∃ qty : Int, (p.order id).qty = qty ∧ qty ≠ 0

/-- No step but a pass moves the quantity of an order under decision. -/
theorem step_qty (sound : Sound strategy p) (step : strategy.Step p q)
    (still : ∀ eligible, p.control ≠ .passing eligible) {id : OrderId} (held : id ∈ p.held) :
    (q.order id).qty = (p.order id).qty := by
  obtain ⟨batch, effect⟩ := step_effect sound step
  have none : batch = [] := by
    apply List.eq_nil_iff_forall_not_mem.mpr
    intro trade member
    obtain ⟨eligible, passing, _⟩ := (effect.booked trade member).eligible
    exact still eligible passing
  have moved := (effect.moved id held).qty
  rwa [none, fillsOf_eq_zero (by simp), Int.cast_zero, sub_zero] at moved

theorem step_wholeUndecided (sound : Sound strategy p) (step : strategy.Step p q)
    (whole : WholeUndecided p) : WholeUndecided q := by
  have still {orders accepted undecided : List OrderId} {policies : List (RiskPolicy W)}
      {engine : Engine W} {i : Nat} (sound : Sound strategy
        ⟨engine, i, .deciding orders accepted undecided policies⟩) {q : Point W}
      (step : strategy.Step ⟨engine, i, .deciding orders accepted undecided policies⟩ q)
      (whole : WholeUndecided ⟨engine, i, .deciding orders accepted undecided policies⟩)
      (id : OrderId) (member : id ∈ undecided) : ∃ qty : Int, (q.order id).qty = qty ∧ qty ≠ 0 := by
    have held : id ∈ (Point.mk engine i (.deciding orders accepted undecided policies)).held := by
      rw [held_deciding]
      exact List.mem_append_right _ member
    rw [step_qty sound step nofun held]
    exact whole id member
  cases step with
  | propose run listed =>
      intro id member
      have ruled := getOrders_yields.of_ok run sound.current_allocated
      exact (ruled.proposed id member).whole
  | consult run listed =>
      intro id member
      exact still sound (.consult run listed) whole id member
  | accept =>
      intro id member
      exact still sound .accept whole id (List.mem_cons_of_mem _ member)
  | reject =>
      intro id member
      exact still sound .reject whole id (List.mem_cons_of_mem _ member)
  | _ => exact fun _ member => (List.not_mem_nil member).elim

theorem validateQuantities_total {engine : Engine W} {i : Nat}
    {orders accepted undecided : List OrderId} {order : OrderId} {policies : List (RiskPolicy W)}
    (sound : Sound strategy ⟨engine, i, .deciding orders accepted (order :: undecided) policies⟩)
    (whole : WholeUndecided
      ⟨engine, i, .deciding orders accepted (order :: undecided) policies⟩) :
    Strategy.validateQuantities engine.heap order (engine.currentOrders ++ accepted) = .ok () := by
  obtain ⟨qty, same, nonzero⟩ := whole order (List.mem_cons_self ..)
  have own : wholeQuantity (engine.heap.order order).qty "order qty" = .ok qty := by
    change (engine.heap.order order).qty = (qty : ℚ) at same
    rw [same]
    exact wholeQuantity_intCast nonzero _
  refine bind_ok.mpr ⟨qty, own, forM_ok.mpr fun pending member => ?_⟩
  split
  · rename_i live
    have held : pending ∈ (Point.mk engine i
        (.deciding orders accepted (order :: undecided) policies)).held := by
      rw [held_deciding]
      exact List.mem_append_left _ member
    obtain ⟨rest, whole, positive⟩ := (sound.admissible pending held).whole live
    refine bind_ok.mpr ⟨rest, ?_, rfl⟩
    change (engine.heap.order pending).qty = (rest : ℚ) at whole
    rw [whole]
    exact wholeQuantity_intCast positive _
  · rfl

/-! ## Runs -/

theorem getOrders_error {i : Nat} {rule : Rule W} {engine : Engine W}
    {raised : Raised Exn (Engine W)}
    (configured : rule.contractGroup ∈ strategy.setup.contractGroups)
    (run : strategy.getOrders i rule engine = .error raised) :
    ∃ looked, strategy.callRule i rule looked = .error raised := by
  unfold Strategy.getOrders at run
  split at run
  · exact ⟨engine, run⟩
  · split at run
    · rename_i failed
      have known : Account.requireConfiguredGroup strategy.setup rule.contractGroup = .ok () :=
        if_pos configured
      unfold Account.position at failed
      rw [known] at failed
      cases failed
    · split at run
      · exact ⟨_, run⟩
      · cases run

/-- A run from the start that stops has stopped at a callback. -/
theorem Strategy.Stopped.at_callback {world : W} {heap : Heap} {raised : Raised Exn (Run W)}
    (configured : ∀ i, ∀ rule ∈ strategy.ordersIter i,
      rule.contractGroup ∈ strategy.setup.contractGroups)
    (stopped : strategy.Stopped (Strategy.start world heap) raised) :
    ∃ before p q, raised.state.points = before ++ [p, q] ∧ strategy.CallbackFails p q := by
  have both {points : List (Point W)} {last : Point W}
      (trace : Trace strategy.Step (Strategy.start world heap) last points) :
      Sound strategy last ∧ WholeUndecided last := by
    have final := trace.final
    rw [List.getLast?_eq_getElem?] at final
    refine trace.invariant (P := fun p => Sound strategy p ∧ WholeUndecided p)
      ⟨start_sound strategy world heap, fun _ member => (List.not_mem_nil member).elim⟩
      (fun p q now step => ⟨step_sound now.1 step, step_wholeUndecided now.1 step now.2⟩) final
  cases stopped with
  | @failed p points engine i before step recorded =>
      obtain ⟨front, ends⟩ := List.getLast?_eq_some_iff.mp before.final
      have now := both before
      refine ⟨front, p, ⟨engine, i, .failed⟩, ?_, ?_⟩
      · rw [recorded, ends, List.append_assoc]
        rfl
      · cases step with
        | expireFailed onward inside run =>
            obtain ⟨out, total⟩ := expireOrders_total onward now.1
            rw [total] at run
            cases run
        | simulateFailed run listed => exact .simulator run
        | proposeFailed run listed =>
            obtain ⟨looked, called⟩ := getOrders_error (configured _ _ listed) run
            exact .rule called
        | consultFailed run listed => exact .policy run
        | finishFailed run => exact .price run
  | refused stands quantities =>
      have now := both stands
      rw [validateQuantities_total now.1 now.2] at quantities
      cases quantities

end Gambit
