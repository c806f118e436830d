import Gambit.Strategy.Admission

/-!
# Failing callbacks leave orders and account alone

A simulator, rule or policy that raises, or whose results are refused, leaves
the protected fields of the pending orders as they were when it was called.
-/

set_option autoImplicit false

namespace Gambit

open Raising OrderCallbackState

variable {W : Type} {strategy : Strategy W} {i : Nat}

/-- One round of the loop over the simulators, of a run and of its engine. -/
def Strategy.simRound (strategy : Strategy W) (i : Nat) (eligible : List OrderId) (run : Run W)
    (sim : MarketSim W) : Except (Raised Exn (Run W)) (Run W) := do
  let (run, _) ← Strategy.act i (fun _ => .passing eligible)
    ((·, ()) <$> strategy.runMarketSim i eligible sim run.state) run
  .ok run

theorem simRound_ok {eligible : List OrderId} {run after : Run W} {sim : MarketSim W}
    (ran : strategy.simRound i eligible run sim = .ok after) :
    strategy.runMarketSim i eligible sim run.state = .ok after.state := by
  obtain ⟨⟨middle, _⟩, acted, ran⟩ := bind_ok.mp ran
  cases ran
  have returned := (Recorded.act_ok acted).1
  cases outcome : strategy.runMarketSim i eligible sim run.state with
  | ok engine =>
      rw [outcome] at returned
      cases returned
      rfl
  | error raised =>
      rw [outcome] at returned
      cases returned

theorem simRound_error {eligible : List OrderId} {run : Run W} {sim : MarketSim W}
    {raised : Raised Exn (Run W)} (ran : strategy.simRound i eligible run sim = .error raised) :
    strategy.runMarketSim i eligible sim run.state = .error ⟨raised.error, raised.state.state⟩ := by
  rcases bind_error.mp ran with failed | ⟨_, _, ran⟩
  · have raises := (Recorded.act_error failed).1
    cases outcome : strategy.runMarketSim i eligible sim run.state with
    | ok engine =>
        rw [outcome] at raises
        cases raises
    | error inner =>
        rw [outcome] at raises
        cases raises
        rfl
  · cases ran

/-- A pass that raises does so in the expiry loop, before any simulator, or in
one of the simulators. -/
theorem simMarket_error {run : Run W} {raised : Raised Exn (Run W)}
    (ran : strategy.simMarket i run = .error raised) :
    strategy.expireOrders i run.state = .error ⟨raised.error, raised.state.state⟩ ∨
      ∃ expired eligible k sim before,
        strategy.expireOrders i run.state = .ok (expired, eligible) ∧
        strategy.marketSims[k]? = some sim ∧
        (strategy.marketSims.take k).foldlM
          (fun engine sim => strategy.runMarketSim i eligible sim engine) expired = .ok before ∧
        strategy.runMarketSim i eligible sim before =
          .error ⟨raised.error, raised.state.state⟩ := by
  unfold Strategy.simMarket at ran
  rcases bind_error.mp ran with failed | ⟨⟨begun, eligible⟩, acted, ran⟩
  · exact Or.inl (Recorded.act_error failed).1
  · have expired := (Recorded.act_ok acted).1
    rcases bind_error.mp ran with failed | ⟨after, _, ran⟩
    · obtain ⟨k, sim, middle, at_k, before, failed⟩ := foldlM_error failed
      have engines := foldlM_view Recorded.state
        (g := fun engine sim => strategy.runMarketSim i eligible sim engine)
        (fun sim run after round => simRound_ok round) before
      exact Or.inr ⟨begun.state, eligible, k, sim, middle.state, expired, at_k, engines,
        simRound_error failed⟩
    · rcases bind_error.mp ran with failed | ⟨_, _, ran⟩
      · obtain ⟨absurd, _⟩ := Recorded.act_error failed
        cases absurd
      · cases ran

/-- Simulator `k` fails: orders and account are those after the expiries and the
simulators before `k`.  A rule or a policy fails: the orders are those before
it. -/
theorem callback_failure_atomic (strategy : Strategy W) (i : Nat) :
    (∀ (run : Run W) (raised : Raised Exn (Run W)), strategy.simMarket i run = .error raised →
      strategy.expireOrders i run.state = .error ⟨raised.error, raised.state.state⟩ ∨
      ∃ expired eligible k sim before,
        strategy.expireOrders i run.state = .ok (expired, eligible) ∧
        strategy.marketSims[k]? = some sim ∧
        (strategy.marketSims.take k).foldlM
          (fun engine sim => strategy.runMarketSim i eligible sim engine) expired = .ok before ∧
        raised.state.state.account = before.account ∧
        ∀ id ∈ before.currentOrders, (before.heap.order id).isOpen →
          capture raised.state.state.heap id = capture before.heap id) ∧
    (∀ (rule : Rule W) (engine : Engine W) (raised : Raised Exn (Engine W)),
      strategy.getOrders i rule engine = .error raised →
      raised.state.account.trades = engine.account.trades ∧
      ∀ id ∈ engine.currentOrders, capture raised.state.heap id = capture engine.heap id) ∧
    ∀ (orders accepted : List OrderId) (order : OrderId) (policy : RiskPolicy W) (engine : Engine W)
      (raised : Raised Exn (Engine W)),
      strategy.consult i orders accepted order policy engine = .error raised →
      raised.state.account.trades = engine.account.trades ∧
      ∀ id ∈ order :: (engine.currentOrders ++ accepted),
        capture raised.state.heap id = capture engine.heap id := by
  refine ⟨fun run raised ran => ?_, fun rule engine raised ran => ?_,
    fun orders accepted order policy engine raised ran => ?_⟩
  · rcases simMarket_error ran with assertion | ⟨expired, eligible, k, sim, before, ran⟩
    · exact Or.inl assertion
    · obtain ⟨started, at_k, earlier, failed⟩ := ran
      obtain ⟨account, guarded⟩ := runMarketSim_error failed
      exact Or.inr ⟨expired, eligible, k, sim, before, started, at_k, earlier, account,
        fun id member live => guarded.captured id (List.mem_filter.mpr ⟨member, live⟩)⟩
  · have guarded := getOrders_yields.of_error ran
    exact ⟨guarded.revalued.trades, guarded.captured⟩
  · have guarded := consult_yields.of_error ran
    exact ⟨guarded.revalued.trades, guarded.captured⟩

/-- The first simulator fills six of ten, the second one asks for a hundred. -/
theorem callback_failure_atomic_second_simulator :
    let strategy := { sampleStrategy 0 [] (fun heap _ => (heap, [])) (fun heap _ _ => (heap, [])) with
      marketSims := [
        fun world heap _ i => ⟨world, heap, .ok (.sequence [some (sampleTrade 0 i 6 10)])⟩,
        fun world heap _ _ =>
          ⟨world, heap.set 0 { heap.order 0 with qty := 100 }, .ok (.sequence [])⟩] }
    let engine : Engine Unit := ⟨(), sampleHeap, [0], [0], [], .new⟩
    ∃ (raised : Raised Exn (Run Unit)) (before : Engine Unit),
      strategy.simMarket 0 ⟨engine, []⟩ = .error raised ∧
      raised.state.state.account = before.account ∧ fillsOf before.account.trades 0 = 6 ∧
      (raised.state.state.heap.order 0).qty = 4 := by
  intro strategy engine
  have outcome : (match strategy.simMarket 0 ⟨engine, []⟩ with
      | .ok _ => none
      | .error raised => some ((raised.state.state.heap.order 0).qty,
          fillsOf raised.state.state.account.trades 0)) = some (4, 6) := by
    decide +kernel
  have begins : (match strategy.expireOrders 0 engine with
      | .ok _ => true
      | .error _ => false) = true := by
    decide +kernel
  cases ran : strategy.simMarket 0 ⟨engine, []⟩ with
  | ok run =>
      rw [ran] at outcome
      cases outcome
  | error raised =>
      rw [ran] at outcome
      obtain ⟨qty, fills⟩ := Prod.mk.inj (Option.some.inj outcome)
      rcases (callback_failure_atomic strategy 0).1 ⟨engine, []⟩ raised ran with
        failed | ⟨_, _, _, _, before, _, _, _, account, _⟩
      · rw [failed] at begins
        cases begins
      · exact ⟨raised, before, rfl, account, account ▸ fills, qty⟩

end Gambit
