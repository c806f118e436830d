import Gambit.Strategy.Run

/-!
# The transitions of a run

The steps a strategy takes from one point to the next, and that every recorded
run takes only such steps.
-/

set_option autoImplicit false

namespace Gambit

open Raising Traces

variable {W : Type}

namespace Strategy

inductive Step (strategy : Strategy W) : Point W → Point W → Prop
  | expire {engine after : Engine W} {h i : Nat} {eligible : List OrderId} (onward : h ≤ i)
      (inside : i < strategy.setup.timestamps.timestamps.length)
      (run : strategy.expireOrders i engine = .ok (after, eligible)) :
      Step strategy ⟨engine, h, .idle⟩ ⟨after, i, .passing eligible⟩
  | expireFailed {engine : Engine W} {h i : Nat} {raised : Raised Exn (Engine W)} (onward : h ≤ i)
      (inside : i < strategy.setup.timestamps.timestamps.length)
      (run : strategy.expireOrders i engine = .error raised) :
      Step strategy ⟨engine, h, .idle⟩ ⟨raised.state, i, .failed⟩
  | simulate {engine after : Engine W} {i : Nat} {eligible : List OrderId} {sim : MarketSim W}
      (run : strategy.runMarketSim i eligible sim engine = .ok after)
      (listed : sim ∈ strategy.marketSims) :
      Step strategy ⟨engine, i, .passing eligible⟩ ⟨after, i, .passing eligible⟩
  | simulateFailed {engine : Engine W} {i : Nat} {eligible : List OrderId} {sim : MarketSim W}
      {raised : Raised Exn (Engine W)}
      (run : strategy.runMarketSim i eligible sim engine = .error raised)
      (listed : sim ∈ strategy.marketSims) :
      Step strategy ⟨engine, i, .passing eligible⟩ ⟨raised.state, i, .failed⟩
  | pass {engine : Engine W} {i : Nat} {eligible : List OrderId} :
      Step strategy ⟨engine, i, .passing eligible⟩ ⟨engine.updateCurrentOrders, i, .idle⟩
  | propose {engine after : Engine W} {i : Nat} {rule : Rule W} {orders : List OrderId}
      (run : strategy.getOrders i rule engine = .ok (after, orders))
      (listed : rule ∈ strategy.ordersIter i) :
      Step strategy ⟨engine, i, .idle⟩
        ⟨after, i, .deciding orders [] orders strategy.riskPolicies⟩
  | proposeFailed {engine : Engine W} {i : Nat} {rule : Rule W} {raised : Raised Exn (Engine W)}
      (run : strategy.getOrders i rule engine = .error raised)
      (listed : rule ∈ strategy.ordersIter i) :
      Step strategy ⟨engine, i, .idle⟩ ⟨raised.state, i, .failed⟩
  | consult {engine after : Engine W} {i : Nat} {orders accepted undecided : List OrderId}
      {order : OrderId} {policy : RiskPolicy W} {policies : List (RiskPolicy W)}
      {result : PolicyResult}
      (run : strategy.consult i orders accepted order policy engine = .ok (after, result))
      (listed : policy ∈ strategy.riskPolicies) :
      Step strategy ⟨engine, i, .deciding orders accepted (order :: undecided) (policy :: policies)⟩
        ⟨after, i, .deciding orders accepted (order :: undecided)
          (if result.accepted then policies else policy :: policies)⟩
  | consultFailed {engine : Engine W} {i : Nat} {orders accepted undecided : List OrderId}
      {order : OrderId} {policy : RiskPolicy W} {policies : List (RiskPolicy W)}
      {raised : Raised Exn (Engine W)}
      (run : strategy.consult i orders accepted order policy engine = .error raised)
      (listed : policy ∈ strategy.riskPolicies) :
      Step strategy ⟨engine, i, .deciding orders accepted (order :: undecided) (policy :: policies)⟩
        ⟨raised.state, i, .failed⟩
  | accept {engine : Engine W} {i : Nat} {orders accepted undecided : List OrderId}
      {order : OrderId} {decision : OrderDecision} :
      Step strategy ⟨engine, i, .deciding orders accepted (order :: undecided) []⟩
        ⟨engine.accept decision, i,
          .deciding orders (accepted ++ [order]) undecided strategy.riskPolicies⟩
  | reject {engine : Engine W} {i : Nat} {orders accepted undecided : List OrderId}
      {policies : List (RiskPolicy W)} {decision : OrderDecision} :
      Step strategy ⟨engine, i, .deciding orders accepted (decision.order :: undecided) policies⟩
        ⟨engine.reject decision, i, .deciding orders accepted undecided strategy.riskPolicies⟩
  | submit {engine : Engine W} {i : Nat} {orders accepted : List OrderId}
      {policies : List (RiskPolicy W)} :
      Step strategy ⟨engine, i, .deciding orders accepted [] policies⟩
        ⟨engine.submit orders accepted, i, .idle⟩
  | update {engine : Engine W} {i : Nat} :
      Step strategy ⟨engine, i, .idle⟩ ⟨engine.updateCurrentOrders, i, .idle⟩
  | finish {engine after : Engine W} {i : Nat} {timestamp : Timestamp}
      (run : strategy.finalCalc timestamp engine = .ok (after, ())) :
      Step strategy ⟨engine, i, .idle⟩ ⟨after, i, .idle⟩
  | finishFailed {engine : Engine W} {i : Nat} {timestamp : Timestamp}
      {raised : Raised Exn (Engine W)}
      (run : strategy.finalCalc timestamp engine = .error raised) :
      Step strategy ⟨engine, i, .idle⟩ ⟨raised.state, i, .failed⟩

/-! ## Recorded runs take steps -/

variable {strategy : Strategy W} {origin : Point W}

/-- The run stands where its last point says. -/
def Stands (strategy : Strategy W) (origin : Point W) (i : Nat) (control : Control W)
    (run : Run W) : Prop :=
  Trace (Step strategy) origin ⟨run.state, i, control⟩ run.points

def Ended (strategy : Strategy W) (origin : Point W) (raised : Raised Exn (Run W)) : Prop :=
  ∃ last, Trace (Step strategy) origin last raised.state.points

/-- What a run stopped at: the last step failed, or the quantities of a decision
were refused. -/
inductive Stopped (strategy : Strategy W) (origin : Point W) (raised : Raised Exn (Run W)) : Prop
  | failed {p : Point W} {points : List (Point W)} {engine : Engine W} {i : Nat}
      (before : Trace (Step strategy) origin p points) (step : Step strategy p ⟨engine, i, .failed⟩)
      (points : raised.state.points = points ++ [⟨engine, i, .failed⟩])
  | refused {i : Nat} {orders accepted undecided : List OrderId} {order : OrderId}
      {policies : List (RiskPolicy W)} {error : Exn}
      (stands : Stands strategy origin i (.deciding orders accepted (order :: undecided) policies)
        raised.state)
      (quantities : validateQuantities raised.state.state.heap order
        (raised.state.state.currentOrders ++ accepted) = .error error)

theorem Stopped.ended {raised : Raised Exn (Run W)} (stopped : Stopped strategy origin raised) :
    Ended strategy origin raised := by
  cases stopped with
  | failed before step points =>
      have onward := before.snoc step
      rw [← points] at onward
      exact ⟨_, onward⟩
  | refused stands quantities => exact ⟨_, stands⟩

theorem act_stands {α : Type} {h i : Nat} {before : Control W} {control : α → Control W}
    {result : Except (Raised Exn (Engine W)) (Engine W × α)} {run : Run W}
    (stands : Stands strategy origin h before run)
    (returns : ∀ after a, result = .ok (after, a) →
      Step strategy ⟨run.state, h, before⟩ ⟨after, i, control a⟩)
    (raises : ∀ raised, result = .error raised →
      Step strategy ⟨run.state, h, before⟩ ⟨raised.state, i, .failed⟩) :
    Yields (fun after : Run W × α => Stands strategy origin i (control after.2) after.1)
      (Stopped strategy origin) (act i control result run) := by
  cases outcome : act i control result run with
  | ok after =>
      obtain ⟨returned, points⟩ := Recorded.act_ok outcome
      have onward := stands.snoc (returns _ _ returned)
      rw [← points] at onward
      exact onward
  | error raised =>
      obtain ⟨failed, points⟩ := Recorded.act_error outcome
      exact .failed stands (raises _ failed) points

theorem simMarket_stands {h i : Nat} {run : Run W} (stands : Stands strategy origin h .idle run)
    (onward : h ≤ i) (inside : i < strategy.setup.timestamps.timestamps.length) :
    Yields (Stands strategy origin i .idle) (Stopped strategy origin) (strategy.simMarket i run) := by
  unfold simMarket
  refine (act_stands stands (fun after eligible ran => .expire onward inside ran)
    fun raised ran => .expireFailed onward inside ran).bind ?_
  rintro ⟨run, eligible⟩ passing
  refine (Yields.foldlM ?_ passing).bind fun run passing => ?_
  · intro sim listed run passing
    refine (act_stands passing ?_ ?_).bind fun after stands => stands
    · intro after _ ran
      cases simulated : strategy.runMarketSim i eligible sim run.state with
      | ok engine =>
          rw [simulated] at ran
          cases ran
          exact .simulate simulated listed
      | error raised =>
          rw [simulated] at ran
          cases ran
    · intro raised ran
      cases simulated : strategy.runMarketSim i eligible sim run.state with
      | ok engine =>
          rw [simulated] at ran
          cases ran
      | error raised =>
          rw [simulated] at ran
          cases ran
          exact .simulateFailed simulated listed
  · refine (act_stands passing (fun after _ ran => ?_) fun raised ran => ?_).bind
      fun after stands => stands
    · cases ran
      exact .pass
    · cases ran

/-- A decision is about its order, and an accepted order has passed every policy. -/
theorem consultAll_stands {i : Nat} {orders accepted undecided : List OrderId} {order : OrderId} :
    ∀ {policies : List (RiskPolicy W)} {run : Run W}, policies ⊆ strategy.riskPolicies →
      Stands strategy origin i (.deciding orders accepted (order :: undecided) policies) run →
      Yields (fun out : Run W × OrderDecision => out.2.order = order ∧
          ∃ rest, (out.2.status = .accepted → rest = []) ∧
            Stands strategy origin i (.deciding orders accepted (order :: undecided) rest) out.1)
        (Stopped strategy origin)
        (strategy.consultAll i orders accepted order undecided policies run) := by
  intro policies
  induction policies with
  | nil => exact fun _ stands => ⟨rfl, [], fun _ => rfl, stands⟩
  | cons policy policies ih =>
      intro run listed stands
      obtain ⟨own, rest⟩ := List.cons_subset.mp listed
      unfold consultAll
      refine (act_stands stands (fun after result ran => .consult ran own)
        fun raised ran => .consultFailed ran own).bind ?_
      rintro ⟨run, result⟩ consulted
      dsimp only at consulted ⊢
      by_cases approved : result.accepted = true
      · rw [if_pos approved] at consulted ⊢
        exact ih rest consulted
      · rw [if_neg approved] at consulted ⊢
        exact ⟨rfl, _, (by intro rejected; cases rejected), consulted⟩

theorem decideOrders_stands {i : Nat} {orders : List OrderId} :
    ∀ {undecided accepted : List OrderId} {run : Run W},
      Stands strategy origin i (.deciding orders accepted undecided strategy.riskPolicies) run →
      Yields (fun out : Run W × List OrderId => ∃ policies,
          Stands strategy origin i (.deciding orders out.2 [] policies) out.1)
        (Stopped strategy origin) (strategy.decideOrders i orders accepted undecided run) := by
  intro undecided
  induction undecided with
  | nil => exact fun stands => ⟨_, stands⟩
  | cons order undecided ih =>
      intro accepted run stands
      unfold decideOrders
      have decided : Yields (fun out : Run W × OrderDecision => out.2.order = order ∧
          ∃ rest, (out.2.status = .accepted → rest = []) ∧
            Stands strategy origin i (.deciding orders accepted (order :: undecided) rest) out.1)
          (Stopped strategy origin)
          (strategy.decideOrder i orders accepted order undecided run) := by
        unfold decideOrder
        cases checked : validateQuantities run.state.heap order
            (run.state.currentOrders ++ accepted) with
        | ok _ => exact consultAll_stands (List.Subset.refl _) stands
        | error error => exact .refused stands checked
      refine decided.bind ?_
      rintro ⟨run, decision⟩ ⟨rfl, rest, approved, stands⟩
      cases status : decision.status with
      | accepted =>
          simp only [status]
          obtain rfl : rest = [] := approved status
          refine (act_stands stands (fun after _ ran => ?_) fun raised ran => ?_).bind
            fun after stands => ih stands
          · cases ran
            exact .accept
          · cases ran
      | rejected =>
          simp only [status]
          refine (act_stands stands (fun after _ ran => ?_) fun raised ran => ?_).bind
            fun after stands => ih stands
          · cases ran
            exact .reject
          · cases ran

theorem runRule_stands {i : Nat} {run : Run W} (inside : i < strategy.setup.timestamps.timestamps.length)
    (stands : Stands strategy origin i .idle run) {rule : Rule W}
    (listed : rule ∈ strategy.ordersIter i) :
    Yields (Stands strategy origin i .idle) (Stopped strategy origin)
      (strategy.runRule i run rule) := by
  unfold runRule
  refine (act_stands stands (fun after orders ran => .propose ran listed)
    fun raised ran => .proposeFailed ran listed).bind ?_
  rintro ⟨run, orders⟩ proposed
  refine (decideOrders_stands proposed).bind ?_
  rintro ⟨run, accepted⟩ ⟨policies, decided⟩
  refine (act_stands decided (fun after _ ran => ?_)
    fun raised ran => ?_).bind ?_
  · cases ran
    exact .submit
  · cases ran
  · rintro ⟨run, _⟩ submitted
    dsimp only at submitted ⊢
    by_cases immediate : strategy.tradeLag = 0
    · rw [if_pos immediate]
      exact simMarket_stands submitted (Nat.le_refl i) inside
    · rw [if_neg immediate]
      refine (act_stands submitted (fun after _ ran => ?_) fun raised ran => ?_).bind
        fun after stands => stands
      · cases ran
        exact .update
      · cases ran

theorem runIteration_stands {h i : Nat} {run : Run W} (stands : Stands strategy origin h .idle run)
    (onward : h ≤ i) (inside : i < strategy.setup.timestamps.timestamps.length) :
    Yields (Stands strategy origin i .idle) (Stopped strategy origin)
      (strategy.runIteration i run) := by
  unfold runIteration
  exact (simMarket_stands stands onward inside).bind fun run now =>
    Yields.foldlM (fun _ listed _ now => runRule_stands inside now listed) now

theorem runHeartbeats_stands {startDate endDate : Option Timestamp} {timestamps : List Timestamp} :
    ∀ {h n : Nat} {run : Run W}, Stands strategy origin h .idle run → h ≤ n →
      n + timestamps.length ≤ strategy.setup.timestamps.timestamps.length →
      Yields (fun run => ∃ h, Stands strategy origin h .idle run) (Stopped strategy origin)
        (strategy.runHeartbeats startDate endDate (timestamps.zipIdx n) run) := by
  induction timestamps with
  | nil => exact fun stands _ _ => ⟨_, stands⟩
  | cons timestamp timestamps ih =>
      intro h n run stands onward inside
      rw [List.length_cons] at inside
      rw [List.zipIdx_cons]
      unfold runHeartbeats
      split
      · exact ih stands (by omega) (by omega)
      · split
        · exact ⟨h, stands⟩
        · exact (runIteration_stands stands onward (by omega)).bind fun run now =>
            ih now (Nat.le_succ n) (by omega)

theorem Stands.heartbeat {i : Nat} {control : Control W} {run : Run W}
    (stands : Stands strategy origin i control run) : Strategy.heartbeat run = i := by
  rw [Strategy.heartbeat, stands.final]
  rfl

/-- The loop and the final calculation of a run. -/
theorem heartbeatsAndCalc_stands {startDate endDate : Option Timestamp} {run : Run W}
    (stands : Stands strategy origin 0 .idle run) :
    Yields (fun run => ∃ h, Stands strategy origin h .idle run) (Stopped strategy origin) (do
      let run ← strategy.runHeartbeats startDate endDate
        strategy.setup.timestamps.timestamps.zipIdx run
      match strategy.runFinalCalc, strategy.finalTimestamp endDate with
      | true, some timestamp => do
          let (run, _) ← act (heartbeat run) (fun _ => .idle)
            (strategy.finalCalc timestamp run.state) run
          .ok run
      | _, _ => .ok run) := by
  refine (runHeartbeats_stands stands (Nat.le_refl 0) (by omega)).bind ?_
  rintro run ⟨h, stands⟩
  split
  · rw [stands.heartbeat]
    refine (act_stands stands (fun after _ ran => .finish ran)
      fun raised ran => .finishFailed ran).bind fun after stands => ⟨h, stands⟩
  · exact ⟨h, stands⟩

/-- Every run takes steps only, whether it returns or raises. -/
theorem trace_steps (strategy : Strategy W) (startDate endDate : Option Timestamp) (world : W)
    (heap : Heap) :
    ∃ last, Trace (Step strategy) (start world heap) last
      (strategy.trace startDate endDate world heap) := by
  have begins : Stands strategy (start world heap) 0 .idle
      ⟨.new world heap, [start world heap]⟩ := Trace.nil (start world heap)
  have ran : Yields (fun run => ∃ h, Stands strategy (start world heap) h .idle run)
      (Ended strategy (start world heap))
      (strategy.runRules startDate endDate ⟨.new world heap, [start world heap]⟩) := by
    unfold runRules
    cases validateDateRange startDate endDate with
    | error error => exact ⟨_, begins⟩
    | ok _ =>
        exact (heartbeatsAndCalc_stands begins).weaken (fun _ stands => stands)
          fun _ stopped => stopped.ended
  unfold Strategy.trace
  cases outcome : strategy.runRules startDate endDate ⟨.new world heap, [start world heap]⟩ with
  | ok run =>
      obtain ⟨h, stands⟩ := ran.of_ok outcome
      exact ⟨_, stands⟩
  | error raised => exact ran.of_error outcome

end Strategy

end Gambit
