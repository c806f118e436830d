import Gambit.Strategy.Fills

/-!
# What rules and risk policies do to orders and account

One lemma for each way `_get_orders` and a policy consultation end.
-/

set_option autoImplicit false

namespace Gambit

open Raising OrderCallbackState

variable {W : Type} {strategy : Strategy W} {i : Nat}

/-! ## Queries -/

theorem Account.read_revalued (setup : AccountSetup) (priceFunction : PriceFunction)
    (account : Account) (query : AccountRead) :
    Account.Revalued account (account.read setup priceFunction query) := by
  refine (Session.call_query ⟨account, []⟩ fun orders trades absurd => ?_).1
  cases query <;> cases absurd

theorem readAccount_revalued (engine : Engine W) (queries : List AccountRead) :
    Account.Revalued engine.account (strategy.readAccount engine queries) := by
  have loop : ∀ {account : Account}, Account.Revalued engine.account account →
      Account.Revalued engine.account
        (queries.foldl (Account.read strategy.setup (strategy.priceFunction engine.world)) account) := by
    induction queries with
    | nil => exact fun now => now
    | cons query queries ih =>
        exact fun now => ih (now.trans (Account.read_revalued _ _ _ query))
  exact loop (.refl _)

/-! ## Guarded callbacks -/

/-- The engine between a callback's return and the checks. -/
structure Called (writable : OrderId → Bool) (before after : Engine W) : Prop where
  orders : after.orders = before.orders
  currentOrders : after.currentOrders = before.currentOrders
  heap : ∃ left, after.heap = before.heap.written writable left
  revalued : Account.Revalued before.account after.account

theorem afterCallback_called {R : Type} {writable : OrderId → Bool}
    {outcome : List AccountRead × CallbackRun W R} {before after : Engine W}
    (afterEq : strategy.afterCallback writable outcome before = after) :
    Called writable before after := by
  subst afterEq
  exact ⟨rfl, rfl, ⟨outcome.2.heap, rfl⟩, readAccount_revalued before outcome.1⟩

theorem Called.grown {writable : OrderId → Bool} {before after : Engine W}
    (called : Called writable before after) : Grown before.heap after.heap := by
  obtain ⟨left, heap⟩ := called.heap
  rw [heap]
  exact grown_written writable before.heap left

theorem Called.unwritten {writable : OrderId → Bool} {before after : Engine W}
    (called : Called writable before after) {id : OrderId} (inside : id < before.heap.size)
    (guarded : writable id = false) : after.heap.order id = before.heap.order id := by
  obtain ⟨left, heap⟩ := called.heap
  rw [heap]
  exact Heap.written_of_not_writable inside guarded

/-- A handler that caught an exception has undone what the guards protect. -/
theorem Called.restored {writable : OrderId → Bool} {before after : Engine W}
    {pending known : List OrderId} (called : Called writable before after)
    (guarded : ∀ id ∈ known, id ∉ pending → writable id = false) :
    Guarded pending known before { after with
      heap := restoreAll (before.captureAll pending) after.heap } where
  orders := called.orders
  currentOrders := called.currentOrders
  grown := called.grown.trans (grown_restoreAll _ _)
  captured := fun id member => capture_restoreAll member _
  untouched := fun id member inside outside => by
    dsimp only
    rw [Engine.captureAll, restoreAll_of_not_mem outside]
    exact called.unwritten inside (guarded id member outside)
  revalued := called.revalued

theorem validateAll_ok {before after : Engine W} {orders : List OrderId} {allowCancel : Bool}
    (valid : (before.captureAll orders).forM
      (validateUnchanged allowCancel after.heap) = .ok ()) {id : OrderId} (member : id ∈ orders) :
    (capture before.heap id).validateUnchanged allowCancel after.heap = .ok () :=
  forM_ok.mp valid _ (List.mem_map_of_mem member)

theorem Called.unchanged {writable : OrderId → Bool} {before after : Engine W}
    {pending known : List OrderId} (called : Called writable before after)
    (guarded : ∀ id ∈ known, id ∉ pending → writable id = false)
    (valid : (before.captureAll pending).forM (validateUnchanged false after.heap) = .ok ()) :
    Guarded pending known before after where
  orders := called.orders
  currentOrders := called.currentOrders
  grown := called.grown
  captured := fun _ member => validateUnchanged_strict.mp (validateAll_ok valid member)
  untouched := fun id member inside outside => called.unwritten inside (guarded id member outside)
  revalued := called.revalued

theorem guarded_yields {α : Type} {states : List OrderCallbackState} {wrap : Exn → Exn}
    {attempt : Except (Raised Exn (Engine W)) α} {P : α → Prop} {E : Raised Exn (Engine W) → Prop}
    (returns : ∀ a, attempt = .ok a → P a)
    (raises : ∀ raised, attempt = .error raised → E ⟨wrap raised.error, { raised.state with
      heap := restoreAll states raised.state.heap }⟩) :
    Yields P E (Engine.guarded states wrap attempt) := by
  cases attempt with
  | ok a => exact returns a rfl
  | error raised => exact raises raised rfl

/-! ## Policies -/

theorem consult_yields {orders accepted : List OrderId} {order : OrderId} {policy : RiskPolicy W}
    {engine : Engine W} :
    Yields
      (fun out : Engine W × PolicyResult =>
        Guarded (order :: (engine.currentOrders ++ accepted)) (engine.orders ++ orders) engine out.1)
      (fun raised =>
        Guarded (order :: (engine.currentOrders ++ accepted)) (engine.orders ++ orders) engine
          raised.state)
      (strategy.consult i orders accepted order policy engine) := by
  unfold Strategy.consult
  dsimp only
  generalize policy.evaluate engine.world engine.heap
    ⟨engine.account, strategy.timestamp i, engine.currentOrders ++ accepted⟩ order = outcome
  generalize afterEq : strategy.afterCallback (fun id => id = order ∨
    id ∈ engine.currentOrders ++ accepted ∨ id ∉ engine.orders ++ orders) outcome engine = after
  have called := afterCallback_called afterEq
  have guarded : ∀ id ∈ engine.orders ++ orders, id ∉ order :: (engine.currentOrders ++ accepted) →
      decide (id = order ∨ id ∈ engine.currentOrders ++ accepted ∨ id ∉ engine.orders ++ orders) =
        false := by
    intro id known outside
    obtain ⟨notOrder, notOpen⟩ := not_or.mp (mt List.mem_cons.mpr outside)
    exact decide_eq_false fun writable => writable.elim notOrder fun rest =>
      rest.elim notOpen fun unknown => unknown known
  refine Yields.bind (P := fun _ => Guarded (order :: (engine.currentOrders ++ accepted))
    (engine.orders ++ orders) engine after) ?_ fun result unchanged => ?_
  · refine guarded_yields (fun result ran => ?_) fun raised ran => ?_
    · obtain ⟨_, _, ran⟩ := bind_ok.mp ran
      obtain ⟨_, valid, ran⟩ := bind_ok.mp ran
      exact called.unchanged guarded (raiseIn_ok.mp valid)
    · have stays : raised.state = after := by
        rcases bind_error.mp ran with failed | ⟨_, _, ran⟩
        · obtain ⟨_, _, rfl⟩ := raiseIn_error.mp failed
          rfl
        · rcases bind_error.mp ran with failed | ⟨_, _, ran⟩
          · obtain ⟨_, _, rfl⟩ := raiseIn_error.mp failed
            rfl
          · cases ran
      rw [stays]
      exact called.restored guarded
  · cases result with
    | none => exact unchanged
    | some result => exact unchanged

/-! ## Rules -/

/-- What a rule may do to a pending order: ask for its cancellation. -/
structure MayCancel (before after : Order) : Prop where
  identity : SameIdentity before after
  qty : after.qty = before.qty
  status : after.status = before.status ∨
    before.isOpen ∧ (after.status = .cancelRequested ∨ after.status = .cancelled)

theorem MayCancel.refl (order : Order) : MayCancel order order := ⟨.refl order, rfl, Or.inl rfl⟩

/-- An accepted call of a rule. -/
structure Ruled (strategy : Strategy W) (i : Nat) (rule : Rule W) (before after : Engine W)
    (orders : List OrderId) : Prop where
  known : after.orders = before.orders
  currentOrders : after.currentOrders = before.currentOrders
  grown : Grown before.heap after.heap
  revalued : Account.Revalued before.account after.account
  pending : ∀ id ∈ before.currentOrders,
    MayCancel (before.heap.order id) (after.heap.order id)
  distinct : orders.Nodup
  fresh : ∀ id ∈ orders, id ∉ before.currentOrders
  allocated : ∀ id ∈ orders, id < after.heap.size
  proposed : ∀ id ∈ orders,
    Proposed strategy.setup rule.contractGroup (strategy.timestamp i) (after.heap.order id)
  untouched : ∀ id ∈ before.orders, id < before.heap.size → ¬ (before.heap.order id).isRoll →
    id ∉ before.currentOrders → id ∉ orders → after.heap.order id = before.heap.order id

theorem callRule_yields {rule : Rule W} {engine : Engine W} :
    Yields (fun out : Engine W × List OrderId =>
        (∀ id ∈ engine.currentOrders, id < engine.heap.size) →
          Ruled strategy i rule engine out.1 out.2)
      (fun raised => Guarded engine.currentOrders [] engine raised.state)
      (strategy.callRule i rule engine) := by
  unfold Strategy.callRule
  dsimp only
  generalize rule.ruleFunction engine.world engine.heap engine.account rule.contractGroup i
    engine.currentOrders = outcome
  generalize returnedEq : outcome.2.result.toOption.elim [] Returned.items = returned
  generalize afterEq : strategy.afterCallback (fun id => id ∈ engine.currentOrders ∨
    id ∈ returned ∨ id ∉ engine.orders) outcome engine = after
  have called := afterCallback_called afterEq
  refine guarded_yields (fun out ran allocated => ?_) fun raised ran => ?_
  · obtain ⟨result, resultEq, ran⟩ := bind_ok.mp ran
    obtain ⟨_, valid, ran⟩ := bind_ok.mp ran
    obtain ⟨⟨heap, orders⟩, accepted, ran⟩ := bind_ok.mp ran
    cases ran
    obtain ⟨submitted, batch, rfl, built, rfl, rfl⟩ :=
      validateRuleOrders_ok (raiseIn_ok.mp accepted)
    rw [raiseIn_ok.mp resultEq] at returnedEq
    have inside : ∀ id, id < engine.heap.size → id < after.heap.size :=
      fun id less => less.trans_le called.grown.size
    refine ⟨called.orders, called.currentOrders, called.grown.trans built.grown, called.revalued,
      fun id member => ?_, built.distinct, fun id member current => ?_, built.allocated,
      built.proposed, fun id known less plain waiting absent => ?_⟩
    · obtain ⟨identity, qty, status⟩ :=
        validateUnchanged_ok.mp (validateAll_ok (raiseIn_ok.mp valid) member)
      rw [← built.kept id (inside id (allocated id member))] at identity qty status
      exact ⟨identity, qty, status.imp_right And.right⟩
    · exact (built.returned id member (inside id (allocated id current))).2 current
    · dsimp only
      rw [built.kept id (inside id less)]
      by_cases listed : id ∈ returned
      · exfalso
        subst returnedEq
        have submittedId : some id ∈ submitted := by
          simpa [Returned.items, Except.toOption] using listed
        rcases built.covered id submittedId with new | roll
        · exact absent new
        · exact plain (called.grown.rolls id less roll)
      · exact called.unwritten less (decide_eq_false fun writable => writable.elim waiting fun rest =>
          rest.elim listed fun unknown => unknown known)
  · have stays : raised.state = after := by
      rcases bind_error.mp ran with failed | ⟨_, _, ran⟩
      · obtain ⟨_, _, rfl⟩ := raiseIn_error.mp failed
        rfl
      rcases bind_error.mp ran with failed | ⟨_, _, ran⟩
      · obtain ⟨_, _, rfl⟩ := raiseIn_error.mp failed
        rfl
      rcases bind_error.mp ran with failed | ⟨_, _, ran⟩
      · obtain ⟨_, _, rfl⟩ := raiseIn_error.mp failed
        rfl
      · cases ran
    rw [stays]
    exact called.restored fun _ known => by cases known

theorem Ruled.of_revalued {rule : Rule W} {engine : Engine W} {account : Account}
    {after : Engine W} {orders : List OrderId}
    (revalued : Account.Revalued engine.account account)
    (ruled : Ruled strategy i rule { engine with account } after orders) :
    Ruled strategy i rule engine after orders :=
  { ruled with revalued := revalued.trans ruled.revalued }

theorem Guarded.of_revalued {pending known : List OrderId} {engine after : Engine W}
    {account : Account} (revalued : Account.Revalued engine.account account)
    (guarded : Guarded pending known { engine with account } after) :
    Guarded pending known engine after :=
  { guarded with revalued := revalued.trans guarded.revalued }

theorem getOrders_yields {rule : Rule W} {engine : Engine W} :
    Yields (fun out : Engine W × List OrderId =>
        (∀ id ∈ engine.currentOrders, id < engine.heap.size) →
          Ruled strategy i rule engine out.1 out.2)
      (fun raised => Guarded engine.currentOrders [] engine raised.state)
      (strategy.getOrders i rule engine) := by
  unfold Strategy.getOrders
  cases rule.positionFilter with
  | none => exact callRule_yields
  | some positionFilter =>
      have queried := @Account.position_revalued strategy.setup rule.contractGroup (strategy.timestamp i)
        engine.account
      dsimp only
      cases outcome : engine.account.position strategy.setup rule.contractGroup
          (strategy.timestamp i) with
      | error raised =>
          exact ⟨rfl, rfl, .refl _, fun _ _ => rfl, fun _ _ _ _ => rfl,
            queried.2 raised outcome⟩
      | ok read =>
          obtain ⟨account, position⟩ := read
          have revalued := queried.1 account position outcome
          dsimp only
          split
          · have ran := @callRule_yields W strategy i rule { engine with account }
            cases called : strategy.callRule i rule { engine with account } with
            | ok out =>
                rw [called] at ran
                exact fun allocated => (ran allocated).of_revalued revalued
            | error raised =>
                rw [called] at ran
                exact ran.of_revalued revalued
          · exact fun _ => ⟨rfl, rfl, .refl _, revalued, fun _ _ => .refl _, .nil,
              fun _ member => (by cases member), fun _ member => (by cases member),
              fun _ member => (by cases member), fun _ _ _ _ _ _ => rfl⟩

/-- Only the account's caches differ. -/
structure AccountOnly (before after : Engine W) : Prop where
  heap : after.heap = before.heap
  orders : after.orders = before.orders
  currentOrders : after.currentOrders = before.currentOrders
  revalued : Account.Revalued before.account after.account

theorem finalCalc_yields {timestamp : Timestamp} {engine : Engine W} :
    Yields (fun out : Engine W × Unit => AccountOnly engine out.1)
      (fun raised => AccountOnly engine raised.state) (strategy.finalCalc timestamp engine) := by
  have calculated := @Account.calcPnl_revalued strategy.setup engine.account
    (strategy.priceFunction engine.world) timestamp engine.account (.refl _)
  unfold Strategy.finalCalc
  cases outcome : engine.account.calcPnl strategy.setup (strategy.priceFunction engine.world)
      timestamp with
  | ok account => exact ⟨rfl, rfl, rfl, calculated.1 account outcome⟩
  | error raised => exact ⟨rfl, rfl, rfl, calculated.2 raised outcome⟩

end Gambit
