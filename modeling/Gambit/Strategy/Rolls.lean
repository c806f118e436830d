import Gambit.Strategy.RollIds

/-!
# Roll properties over a run

The engine writes the roll properties of an order once, when it makes a leg.
-/

set_option autoImplicit false

namespace Gambit

open Raising Traces OrderCallbackState

variable {W : Type}

/-- The rules that may be called at a point leave the roll properties of existing
orders alone and return orders without a roll id. -/
structure FreshProperties (strategy : Strategy W) (p : Point W) : Prop where
  rules : ∀ rule ∈ strategy.ordersIter p.heartbeat, ∀ account,
    Account.Revalued p.engine.account account →
    let outcome := (rule.ruleFunction p.engine.world p.engine.heap account rule.contractGroup
      p.heartbeat p.currentOrders).2
    KeepsRolls p.engine.heap outcome.heap ∧
      ∀ id ∈ outcome.result.toOption.elim [] Returned.items,
        (outcome.heap.order id).rollId = none

/-- Nor do the policies write roll properties. -/
structure UntouchedRolls (strategy : Strategy W) (p : Point W) : Prop
    extends FreshProperties strategy p where
  policies : ∀ policy ∈ strategy.riskPolicies, ∀ order ∈ p.undecided,
    KeepsRolls p.engine.heap (policy.evaluate p.engine.world p.engine.heap
      ⟨p.engine.account, strategy.timestamp p.heartbeat, p.pending⟩ order).2.heap

def SimpleSimulators (strategy : Strategy W) : Prop :=
  ∀ sim ∈ strategy.marketSims, ∃ simple : SimpleMarketSimulator W,
    sim = simple.call strategy.setup.timestamps

/-- Every order keeps its roll properties. -/
def SameRolls (before after : Heap) : Prop :=
  ∀ id, SameRoll (before.order id) (after.order id)

theorem SameRolls.refl (heap : Heap) : SameRolls heap heap := fun _ => .refl _

theorem SameRolls.trans {a b c : Heap} (first : SameRolls a b) (second : SameRolls b c) :
    SameRolls a c := fun id => (first id).trans (second id)

theorem SameRolls.set {before heap : Heap} (now : SameRolls before heap) {id : OrderId}
    {order : Order} (same : SameRoll (heap.order id) order) : SameRolls before (heap.set id order) :=
  now.trans (sameRoll_set same)

theorem KeepsRolls.after {a b c : Heap} (first : KeepsRolls a b) (second : SameRolls b c) :
    KeepsRolls a c := fun id inside => (first id inside).trans (second id)

theorem keepsRolls_written {heap left : Heap} (writable : OrderId → Bool)
    (kept : KeepsRolls heap left) : KeepsRolls heap (heap.written writable left) := by
  intro id inside
  dsimp only [Heap.written]
  split
  · exact .refl _
  · exact kept id inside

theorem sameRolls_restoreAll (states : List OrderCallbackState) (heap : Heap) :
    SameRolls heap (restoreAll states heap) := by
  induction states generalizing heap with
  | nil => exact .refl _
  | cons state states ih =>
      have restored : SameRolls heap (state.restore heap) := (SameRolls.refl heap).set ⟨rfl, rfl⟩
      exact restored.trans (ih _)

theorem sameRoll_cancel (order : Order) : SameRoll order order.cancel := by
  unfold Order.cancel
  split
  · exact .refl _
  · exact ⟨rfl, rfl⟩

/-! ## Engine code -/

variable {strategy : Strategy W} {i : Nat} {eligible : List OrderId}

theorem expireOrder_sameRoll (idx : Nat) (order : Order) :
    SameRoll order (strategy.expireOrder i idx order) := by
  have cancels : ∀ (p : Prop) [Decidable p] (order : Order),
      SameRoll order (if p then order.cancel else order) := fun p _ order => by
    split
    · exact sameRoll_cancel order
    · exact .refl order
  exact (cancels _ order).trans ((cancels _ _).trans (cancels _ _))

theorem expireOrders_sameRolls (before : Engine W) :
    KeepsOn Prod.fst (fun engine : Engine W => SameRolls before.heap engine.heap)
      fun state : Engine W × List OrderId =>
        before.currentOrders.foldlM (strategy.expirePending i) state := by
  refine KeepsOn.foldlM fun id _ state now => ⟨fun after ran => ?_, fun raised ran => ?_⟩
  · obtain ⟨_, rfl⟩ := expirePending_ok ran
    exact now.set (expireOrder_sameRoll _ _)
  · rw [expirePending_error ran]
    exact now

theorem applyFills_sameRolls (before : Engine W) (trades : List Trade)
    (originalStates : OrderId → ℚ × OrderStatus) (currentOrders : List OrderId) :
    Keeps (fun engine => SameRolls before.heap engine.heap)
      (Engine.applyFills (W := W) trades originalStates currentOrders) := by
  refine Keeps.foldlM fun id _ engine now => ⟨fun after ran => ?_, fun raised ran => ?_⟩
  · dsimp only at ran
    split at ran
    · obtain ⟨order, fills, ran⟩ := bind_ok.mp ran
      cases ran
      exact now.set (sameRoll_fill (raiseIn_ok.mp fills))
    · cases ran
      exact now
  · dsimp only at ran
    split at ran
    · rcases bind_error.mp ran with failed | ⟨order, _, ran⟩
      · obtain ⟨_, _, rfl⟩ := raiseIn_error.mp failed
        exact now
      · cases ran
    · cases ran

theorem bookFills_sameRolls {before left : Engine W} {result : Except Exn (Returned Trade)} :
    Yields (fun after : Engine W => SameRolls left.heap after.heap)
      (fun raised => SameRolls left.heap raised.state.heap)
      (strategy.bookFills i eligible before result left) := by
  have checks : ∀ {α : Type} (m : Except Exn α), Yields (fun _ => True)
      (fun raised => SameRolls left.heap raised.state.heap) (raiseIn left m) := by
    intro α m
    cases m with
    | ok a => trivial
    | error e => exact .refl _
  unfold Strategy.bookFills
  refine (checks result).bind fun returned _ => ?_
  refine (checks _).bind fun _ _ => ?_
  refine (checks _).bind fun trades _ => ?_
  have applied := applyFills_sameRolls left trades
    (fun id => ((before.heap.order id).qty, (before.heap.order id).status))
    (before.currentOrders.filter (· ∈ eligible)) left (.refl _)
  cases ran : left.applyFills trades
      (fun id => ((before.heap.order id).qty, (before.heap.order id).status))
      (before.currentOrders.filter (· ∈ eligible)) with
  | error raised => exact applied.2 raised ran
  | ok engine =>
      have now := applied.1 engine ran
      dsimp only [bind, Except.bind]
      split
      · exact now
      · split
        · exact now
        · exact now

theorem runMarketSim_keepsRolls (simple : SimpleMarketSimulator W) (engine : Engine W) :
    Yields (fun after : Engine W => KeepsRolls engine.heap after.heap)
      (fun raised => KeepsRolls engine.heap raised.state.heap)
      (strategy.runMarketSim i eligible (simple.call strategy.setup.timestamps) engine) := by
  unfold Strategy.runMarketSim
  dsimp only
  refine guarded_yields (fun after ran => ?_) fun raised ran => ?_
  · refine (keepsRolls_written _ fun id _ => ?_).after (bookFills_sameRolls.of_ok ran)
    exact SimpleMarketSimulator.call_sameRoll id
  · refine KeepsRolls.after ?_ (sameRolls_restoreAll _ _)
    refine (keepsRolls_written _ fun id _ => ?_).after (bookFills_sameRolls.of_error ran)
    exact SimpleMarketSimulator.call_sameRoll id

/-! ## Callbacks -/

theorem consult_keepsRolls {engine : Engine W} {orders accepted undecided : List OrderId}
    {order : OrderId} {policy : RiskPolicy W} {policies : List (RiskPolicy W)}
    (untouched : UntouchedRolls strategy
      ⟨engine, i, .deciding orders accepted (order :: undecided) policies⟩)
    (listed : policy ∈ strategy.riskPolicies) :
    Yields (fun out : Engine W × PolicyResult => KeepsRolls engine.heap out.1.heap)
      (fun raised => KeepsRolls engine.heap raised.state.heap)
      (strategy.consult i orders accepted order policy engine) := by
  have evaluated := untouched.policies policy listed order (List.mem_cons_self ..)
  have left := keepsRolls_written (fun id => id = order ∨ id ∈ engine.currentOrders ++ accepted ∨
    id ∉ engine.orders ++ orders) evaluated
  unfold Strategy.consult
  refine Yields.bind (P := fun _ => True) (guarded_yields (fun _ _ => trivial) fun raised ran => ?_)
    fun result _ => ?_
  · refine KeepsRolls.after ?_ (sameRolls_restoreAll _ _)
    rcases bind_error.mp ran with failed | ⟨_, _, ran⟩
    · obtain ⟨_, _, rfl⟩ := raiseIn_error.mp failed
      exact left
    · rcases bind_error.mp ran with failed | ⟨_, _, ran⟩
      · obtain ⟨_, _, rfl⟩ := raiseIn_error.mp failed
        exact left
      · cases ran
  · cases result with
    | none => exact left
    | some result => exact left

/-- A rule leaves the ids alone, and of the orders it returns those that get one
are new legs. -/
structure RolledOut (before after : Engine W) (orders : List OrderId) : Prop where
  kept : KeepsRolls before.heap after.heap
  paired : Paired (· = before.orders.length) after.heap.order orders
  new : ∀ id ∈ orders, (after.heap.order id).rollId ≠ none → before.heap.size ≤ id

theorem callRule_rolls {engine : Engine W} {rule : Rule W} {account : Account}
    (untouched : UntouchedRolls strategy ⟨engine, i, .idle⟩) (listed : rule ∈ strategy.ordersIter i)
    (revalued : Account.Revalued engine.account account) :
    Yields (fun out : Engine W × List OrderId => RolledOut engine out.1 out.2)
      (fun raised => KeepsRolls engine.heap raised.state.heap)
      (strategy.callRule i rule { engine with account }) := by
  have evaluated := untouched.rules rule listed account revalued
  unfold Strategy.callRule
  dsimp only [Point.currentOrders] at evaluated ⊢
  generalize rule.ruleFunction engine.world engine.heap account rule.contractGroup i
    engine.currentOrders = outcome at evaluated ⊢
  obtain ⟨kept, unmarked⟩ := evaluated
  generalize returnedEq : outcome.2.result.toOption.elim [] Returned.items = returned at unmarked ⊢
  generalize afterEq : strategy.afterCallback (fun id => id ∈ engine.currentOrders ∨
    id ∈ returned ∨ id ∉ engine.orders) outcome { engine with account } = after
  have left : KeepsRolls engine.heap after.heap := by
    subst afterEq
    exact keepsRolls_written _ kept
  have grows : engine.heap.size ≤ after.heap.size := by
    subst afterEq
    exact le_max_left ..
  have written : ∀ id ∈ returned, (after.heap.order id).rollId = none := by
    subst afterEq
    intro id member
    dsimp only [Strategy.afterCallback, Heap.written]
    split
    · rename_i inside
      exact (kept id inside.1).rollId.symm.trans (unmarked id member)
    · exact unmarked id member
  refine guarded_yields (fun out ran => ?_) fun raised ran => ?_
  · obtain ⟨result, resultEq, ran⟩ := bind_ok.mp ran
    obtain ⟨_, _, ran⟩ := bind_ok.mp ran
    obtain ⟨⟨heap, orders⟩, accepted, ran⟩ := bind_ok.mp ran
    cases ran
    obtain ⟨items, batch, rfl, built, rfl, rfl⟩ := validateRuleOrders_ok (raiseIn_ok.mp accepted)
    rw [raiseIn_ok.mp resultEq] at returnedEq
    obtain ⟨paired, new⟩ := validateRuleOrders_rolled (fun id submitted => written id (by
      subst returnedEq
      simpa [Returned.items, Except.toOption] using submitted)) (raiseIn_ok.mp accepted)
    refine ⟨fun id inside => (left id inside).trans ?_, paired, fun id member marked =>
      grows.trans (new id member marked)⟩
    rw [built.kept id (inside.trans_le grows)]
    exact .refl _
  · refine KeepsRolls.after ?_ (sameRolls_restoreAll _ _)
    rcases bind_error.mp ran with failed | ⟨_, _, ran⟩
    · obtain ⟨_, _, rfl⟩ := raiseIn_error.mp failed
      exact left
    rcases bind_error.mp ran with failed | ⟨_, _, ran⟩
    · obtain ⟨_, _, rfl⟩ := raiseIn_error.mp failed
      exact left
    rcases bind_error.mp ran with failed | ⟨_, _, ran⟩
    · obtain ⟨_, _, rfl⟩ := raiseIn_error.mp failed
      exact left
    · cases ran

theorem getOrders_rolls {engine : Engine W} {rule : Rule W}
    (untouched : UntouchedRolls strategy ⟨engine, i, .idle⟩) (listed : rule ∈ strategy.ordersIter i) :
    Yields (fun out : Engine W × List OrderId => RolledOut engine out.1 out.2)
      (fun raised => KeepsRolls engine.heap raised.state.heap)
      (strategy.getOrders i rule engine) := by
  unfold Strategy.getOrders
  cases rule.positionFilter with
  | none => exact callRule_rolls untouched listed (.refl _)
  | some positionFilter =>
      have queried := @Account.position_revalued strategy.setup rule.contractGroup
        (strategy.timestamp i) engine.account
      dsimp only
      cases outcome : engine.account.position strategy.setup rule.contractGroup
          (strategy.timestamp i) with
      | error raised => exact .refl _
      | ok read =>
          obtain ⟨account, position⟩ := read
          dsimp only
          split
          · exact callRule_rolls untouched listed (queried.1 account position outcome)
          · exact ⟨.refl _, .nil _ _, fun _ member => by cases member⟩

/-! ## The invariant -/

variable {p q : Point W}

/-- Submitted legs have ids of earlier batches, those under decision the id of
the present one. -/
structure Rolled (p : Point W) : Prop where
  submitted : Paired (· < p.engine.orders.length) p.order p.engine.orders
  proposed : Paired (· = p.engine.orders.length) p.order p.proposal

theorem step_keepsRolls (untouched : UntouchedRolls strategy p) (simulators : SimpleSimulators strategy)
    (step : strategy.Step p q) : KeepsRolls p.engine.heap q.engine.heap := by
  cases step with
  | @expire engine after h i eligible onward within run =>
      have kept := @expireOrders_sameRolls W strategy i engine (engine, []) (.refl _)
      exact fun id _ => kept.1 _ run id
  | @expireFailed engine h i raised onward within run =>
      have kept := @expireOrders_sameRolls W strategy i engine (engine, []) (.refl _)
      exact fun id _ => kept.2 _ run id
  | simulate run listed =>
      obtain ⟨simple, rfl⟩ := simulators _ listed
      exact (runMarketSim_keepsRolls simple _).of_ok run
  | simulateFailed run listed =>
      obtain ⟨simple, rfl⟩ := simulators _ listed
      exact (runMarketSim_keepsRolls simple _).of_error run
  | propose run listed => exact ((getOrders_rolls untouched listed).of_ok run).kept
  | proposeFailed run listed => exact (getOrders_rolls untouched listed).of_error run
  | consult run listed => exact (consult_keepsRolls untouched listed).of_ok run
  | consultFailed run listed => exact (consult_keepsRolls untouched listed).of_error run
  | @reject engine i orders accepted undecided policies decision =>
      have kept : SameRolls engine.heap (engine.reject decision).heap :=
        (SameRolls.refl _).set (sameRoll_cancel _)
      exact fun id _ => kept id
  | pass | accept | submit | update => exact .refl _
  | finish run =>
      rw [(finalCalc_yields.of_ok run).heap]
      exact .refl _
  | finishFailed run =>
      rw [(finalCalc_yields.of_error run).heap]
      exact .refl _

theorem Rolled.carry (rolled : Rolled p) (sound : Sound strategy p)
    (kept : KeepsRolls p.engine.heap q.engine.heap) (orders : q.engine.orders = p.engine.orders)
    (proposal : q.proposal = p.proposal ∨ q.proposal = []) : Rolled q where
  submitted := by
    rw [orders]
    exact rolled.submitted.congr fun id member =>
      kept id (sound.allocated id (List.mem_append_left _ member))
  proposed := by
    rw [orders]
    rcases proposal with same | none
    · rw [same]
      exact rolled.proposed.congr fun id member =>
        kept id (sound.allocated id (List.mem_append_right _ member))
    · rw [none]
      exact .nil _ _

theorem step_rolled (untouched : UntouchedRolls strategy p) (simulators : SimpleSimulators strategy)
    (sound : Sound strategy p) (rolled : Rolled p) (step : strategy.Step p q) : Rolled q := by
  have kept := step_keepsRolls untouched simulators step
  cases step with
  | expire onward within run =>
      exact rolled.carry sound kept (expireOrders_aged run).heapOnly.orders (Or.inr rfl)
  | expireFailed onward within run =>
      exact rolled.carry sound kept (expireOrders_error run).heapOnly.orders (Or.inr rfl)
  | simulate run listed =>
      obtain ⟨batch, simulated⟩ := runMarketSim_ok sound.current_distinct sound.reconciled run
      exact rolled.carry sound kept simulated.orders (Or.inr rfl)
  | simulateFailed run listed =>
      obtain ⟨_, guarded⟩ := runMarketSim_error run
      exact rolled.carry sound kept guarded.orders (Or.inr rfl)
  | @propose engine after i rule orders run listed =>
      have ruled := getOrders_yields.of_ok run sound.current_allocated
      have out := (getOrders_rolls untouched listed).of_ok run
      have carried : Rolled (Point.mk after i (.idle : Control W)) :=
        rolled.carry sound kept ruled.known (Or.inr rfl)
      refine ⟨carried.submitted, ?_⟩
      have paired := out.paired
      rw [← ruled.known] at paired
      exact paired
  | proposeFailed run listed =>
      exact rolled.carry sound kept (getOrders_yields.of_error run).orders (Or.inr rfl)
  | consult run listed =>
      exact rolled.carry sound kept (consult_yields.of_ok run).orders (Or.inl rfl)
  | consultFailed run listed =>
      exact rolled.carry sound kept (consult_yields.of_error run).orders (Or.inr rfl)
  | accept | reject => exact rolled.carry sound kept rfl (Or.inl rfl)
  | @submit engine i orders accepted policies =>
      refine ⟨?_, .nil _ _⟩
      have length : (engine.submit orders accepted).orders.length =
          engine.orders.length + orders.length := List.length_append
      simp only [length]
      refine rolled.submitted.append rolled.proposed (fun m n earlier now => ?_)
        (fun m earlier => Nat.lt_add_right _ earlier) fun present n now => ?_
      · rw [now]
        exact Nat.ne_of_lt earlier
      · rw [now]
        exact Nat.lt_add_of_pos_right (List.length_pos_iff.mpr present)
  | pass | update => exact rolled.carry sound kept rfl (Or.inr rfl)
  | finish run =>
      exact rolled.carry sound kept (finalCalc_yields.of_ok run).orders (Or.inr rfl)
  | finishFailed run =>
      exact rolled.carry sound kept (finalCalc_yields.of_error run).orders (Or.inr rfl)

theorem Rolled.known (rolled : Rolled p) : Paired (fun _ => True) p.order p.known := by
  refine rolled.submitted.append rolled.proposed (fun m n earlier now => ?_) (fun _ _ => trivial)
    fun _ _ _ => trivial
  rw [now]
  exact Nat.ne_of_lt earlier

theorem trace_rolled {startDate endDate : Option Timestamp} {world : W} {heap : Heap}
    (untouched : ∀ p ∈ strategy.trace startDate endDate world heap, UntouchedRolls strategy p)
    (simulators : SimpleSimulators strategy) {k : Nat}
    (at_k : (strategy.trace startDate endDate world heap)[k]? = some p) : Rolled p := by
  obtain ⟨last, trace⟩ := Strategy.trace_steps strategy startDate endDate world heap
  have both := trace.invariant_of_mem (P := fun p => Valid strategy p ∧ Rolled p)
    ⟨start_valid strategy world heap, .nil _ _, .nil _ _⟩
    (fun p member q now step => ⟨step_valid now.1 step,
      step_rolled (untouched p member) simulators now.1.sound now.2 step⟩) at_k
  exact both.2

/-- An order with a roll id is not brought in again. -/
theorem rolled_not_resubmitted (untouched : UntouchedRolls strategy p) (sound : Sound strategy p)
    (step : strategy.Step p q) {id : OrderId} (known : id ∈ p.known)
    (marked : (q.order id).rollId ≠ none) (held : id ∈ q.held) : id ∈ p.held := by
  by_contra new
  obtain ⟨undecided, idle, _⟩ := held_new sound step held new
  cases step with
  | propose run listed =>
      have out := (getOrders_rolls untouched listed).of_ok run
      exact Nat.not_lt.mpr (out.new id undecided marked) (sound.allocated id known)
  | expire | simulate | pass | update | finish | submit => cases undecided
  | expireFailed | simulateFailed | proposeFailed | consultFailed | finishFailed =>
      cases undecided
  | consult | accept | reject => cases idle

end Gambit
