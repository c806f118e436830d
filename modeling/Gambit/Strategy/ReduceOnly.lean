import Gambit.Lib.Exposure
import Gambit.Strategy.Risk

/-!
# Reduce-only admission

The overrides and the tradability policy look at one number: the position net
of all pending orders.  What an admitted order does to the position depends on
which of those orders fill before it.
-/

set_option autoImplicit false

namespace Gambit

open Raising Exposure

variable {setup : AccountSetup} {heap : Heap} {context : RiskContext} {order : Order}

/-- Accepted because of the order's effect on the projected position. -/
inductive AdmittedAsReducing (setup : AccountSetup) (heap : Heap) (context : RiskContext)
    (order : Order) : Prop where
  | override (policy : TradingOverridePolicy) (item : TradingOverride) (result : PolicyResult)
      (resolved : policy.book.resolve order context.timestamp policy.strategy = some item)
      (mode : item.mode = .reduceOnly)
      (evaluated : policy.evaluate setup heap context order = .ok result)
      (accepted : result.accepted)
  | tradability (policy : InstrumentTradabilityPolicy) (result : PolicyResult)
      (closed : order.contract.tradability ≠ .active)
      (evaluated : policy.evaluate setup heap context order = .ok result)
      (accepted : result.accepted)

/-- The position when all pending orders of the contract have filled. -/
def netPosition (heap : Heap) (context : RiskContext) (order : Order) (position : ℚ) : ℚ :=
  position + ((context.pendingOn heap order).map fun pending => (heap.order pending).qty).sum

/-- Parts of the pending orders of the contract. -/
def PendingFills (heap : Heap) (context : RiskContext) (order : Order) (fills : List ℚ) : Prop :=
  List.Forall₂ (fun pending fill => Part (heap.order pending).qty fill)
    (context.pendingOn heap order) fills

theorem projectedPosition_ok {projected : ℚ}
    (run : context.projectedPosition setup heap order = .ok projected) :
    ∃ position, context.currentPosition setup order = .ok position ∧
      projected = netPosition heap context order position + order.qty := by
  obtain ⟨position, current, run⟩ := bind_ok.mp run
  cases run
  exact ⟨position, current, rfl⟩

/-- Both policies admit an order by the same comparison. -/
theorem AdmittedAsReducing.lowers (admitted : AdmittedAsReducing setup heap context order) :
    ∃ position, context.currentPosition setup order = .ok position ∧
      |netPosition heap context order position + order.qty| <
        |netPosition heap context order position| := by
  have compared : ∃ projected, context.projectedPosition setup heap order = .ok projected ∧
      |projected| < |projected - order.qty| := by
    cases admitted with
    | override policy item result resolved mode evaluated accepted =>
        simp only [TradingOverridePolicy.evaluate, resolved, mode] at evaluated
        obtain ⟨projected, run, decided⟩ := bind_ok.mp evaluated
        rcases permit_ok.mp decided with ⟨lowers, _⟩ | ⟨_, refused⟩
        · exact ⟨projected, run, lowers⟩
        · cases refused
          cases accepted
    | tradability policy result closed evaluated accepted =>
        unfold InstrumentTradabilityPolicy.evaluate at evaluated
        rcases permit_ok.mp evaluated with ⟨_, refused⟩ | ⟨_, evaluated⟩
        · cases refused
          cases accepted
        rw [if_neg closed] at evaluated
        obtain ⟨projected, run, decided⟩ := bind_ok.mp evaluated
        rcases permit_ok.mp decided with ⟨reduces, _⟩ | ⟨_, refused⟩
        · exact ⟨projected, run, reduces.2.1⟩
        · cases refused
          cases accepted
  obtain ⟨projected, run, lowers⟩ := compared
  obtain ⟨position, current, rfl⟩ := projectedPosition_ok run
  rw [add_sub_cancel_right] at lowers
  exact ⟨position, current, lowers⟩

/-- An admitted order lowers the position that all pending orders lead to.  From
another position that parts of them lead to, it moves towards zero without
crossing it just when that position is on the same side and large enough. -/
theorem reduce_only_lowers_net_position (setup : AccountSetup) (heap : Heap)
    (context : RiskContext) (order : Order)
    (admitted : AdmittedAsReducing setup heap context order) :
    ∃ position, context.currentPosition setup order = .ok position ∧
      (∀ part, Part order.qty part → part ≠ 0 →
        |netPosition heap context order position + part| <
          |netPosition heap context order position|) ∧
      ∀ fills, PendingFills heap context order fills →
        ((∀ part, Part order.qty part →
            |position + fills.sum + part| ≤ |position + fills.sum| ∧
              0 ≤ (position + fills.sum) * (position + fills.sum + part)) ↔
          0 < (position + fills.sum) * netPosition heap context order position ∧
            |order.qty| ≤ |position + fills.sum|) := by
  obtain ⟨position, current, lowers⟩ := admitted.lowers
  refine ⟨position, current, fun part => abs_add_part_lt lowers, fun fills _ => ?_⟩
  simp only [← part_iff_abs_le]
  exact part_add_iff lowers

/-! ## A pending order that does not fill -/

/-- Ten to buy and four to sell. -/
def reducingHeap : Heap :=
  ⟨2, fun id => ⟨sampleStock, sampleTime 0, if id = 0 then 10 else -4, .gtc, .open, .market,
    none, none⟩⟩

def reducingContext : RiskContext := ⟨.new, sampleTime 0, [0]⟩

def reducingPolicy : TradingOverridePolicy :=
  ⟨⟨[⟨.portfolio, .reduceOnly, sampleTime 0, "de-risk", none, none, by decide, by decide, by decide⟩]⟩,
    none, "trading_override"⟩

theorem admitted_reducing :
    AdmittedAsReducing sampleSetup reducingHeap reducingContext (reducingHeap.order 1) := by
  have accepted : (reducingPolicy.evaluate sampleSetup reducingHeap reducingContext
      (reducingHeap.order 1)).toOption.any PolicyResult.accepted := by
    decide +kernel
  cases evaluated : reducingPolicy.evaluate sampleSetup reducingHeap reducingContext
      (reducingHeap.order 1) with
  | error raised =>
      rw [evaluated] at accepted
      cases accepted
  | ok result =>
      rw [evaluated] at accepted
      exact .override reducingPolicy _ result rfl rfl evaluated accepted

theorem reduce_only_lowers_net_position_sell :
    ∃ position, reducingContext.currentPosition sampleSetup (reducingHeap.order 1) = .ok position ∧
      ∀ part, Part (-4) part → part ≠ 0 →
        |netPosition reducingHeap reducingContext (reducingHeap.order 1) position + part| <
          |netPosition reducingHeap reducingContext (reducingHeap.order 1) position| := by
  obtain ⟨position, current, lowers, _⟩ := reduce_only_lowers_net_position sampleSetup reducingHeap
    reducingContext (reducingHeap.order 1) admitted_reducing
  exact ⟨position, current, lowers⟩

/-- The order that is admitted against a pending purchase goes short when it
fills first. -/
theorem reduce_only_can_enlarge :
    ¬ ∀ (setup : AccountSetup) (heap : Heap) (context : RiskContext) (order : Order),
      AdmittedAsReducing setup heap context order →
      ∀ position, context.currentPosition setup order = .ok position →
      ∀ fills, PendingFills heap context order fills →
        |position + fills.sum + order.qty| ≤ |position + fills.sum| ∧
          0 ≤ (position + fills.sum) * (position + fills.sum + order.qty) := by
  intro claimed
  have pending : PendingFills reducingHeap reducingContext (reducingHeap.order 1) [0] :=
    .cons (.zero _) .nil
  have enlarged := claimed sampleSetup reducingHeap reducingContext (reducingHeap.order 1)
    admitted_reducing 0 rfl [0] pending
  have sold : (reducingHeap.order 1).qty = -4 := rfl
  rw [sold] at enlarged
  norm_num at enlarged

end Gambit
