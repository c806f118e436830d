import Gambit.Accounting.Reconciliation
import Gambit.Accounting.Rollback
import Gambit.Strategy.Run

/-!
# What market simulators do to orders and account

One lemma for each part of `_sim_market`: the expiry loop, an accepted round of
a simulator, and a round that failed.
-/

set_option autoImplicit false

namespace Gambit

open Raising OrderCallbackState

variable {W : Type}

/-! ## Booked quantities of an order -/

def fillsOf (trades : List BookedTrade) (order : OrderId) : Int :=
  ((trades.filter fun trade => trade.orderId = order).map BookedTrade.qty).sum

theorem fillsOf_append (trades batch : List BookedTrade) (order : OrderId) :
    fillsOf (trades ++ batch) order = fillsOf trades order + fillsOf batch order := by
  rw [fillsOf, List.filter_append, List.map_append, List.sum_append]
  rfl

theorem fillsOf_eq_zero {trades : List BookedTrade} {order : OrderId}
    (absent : ∀ trade ∈ trades, trade.orderId ≠ order) : fillsOf trades order = 0 := by
  rw [fillsOf, List.filter_eq_nil_iff.mpr fun trade member => by simpa using absent trade member]
  rfl

theorem fillsOf_perm {trades trades' : List BookedTrade} (same : trades.Perm trades')
    (order : OrderId) : fillsOf trades order = fillsOf trades' order :=
  ((same.filter _).map _).sum_eq

theorem fillsOf_mapM {setup : AccountSetup} {orders : OrderId → Order} {trades : List Trade}
    {booked : List BookedTrade} (accepted : trades.mapM (bookTrade setup orders) = .ok booked)
    (order : OrderId) : fillsOf booked order = reportedFills trades order := by
  rw [reportedFills_eq_sum]
  induction trades generalizing booked with
  | nil =>
      cases accepted
      rfl
  | cons trade trades ih =>
      rw [List.mapM_cons] at accepted
      obtain ⟨first, found, accepted⟩ := bind_ok.mp accepted
      obtain ⟨rest, tail, accepted⟩ := bind_ok.mp accepted
      cases accepted
      obtain ⟨_, _, _, own, _, _, numbers, _⟩ := bookTrade_ok found
      have qty : trade.qty.num = first.qty := by
        rw [(validatedTradeNumbers_ok numbers).1]
        exact Rat.num_intCast _
      have tail := ih tail
      rw [fillsOf] at tail ⊢
      by_cases same : trade.order = order
      · rw [List.filter_cons_of_pos (by simpa [own] using same),
          List.filter_cons_of_pos (by simpa using same), List.map_cons, List.map_cons,
          List.sum_cons, List.sum_cons, tail, qty]
      · rw [List.filter_cons_of_neg (by simpa [own] using same),
          List.filter_cons_of_neg (by simpa using same), tail]

theorem fillsOf_bookTrades {setup : AccountSetup} {orders : OrderId → Order} {trades : List Trade}
    {batch : List BookedTrade} (accepted : bookTrades setup orders trades = .ok batch)
    (order : OrderId) : fillsOf batch order = reportedFills trades order := by
  obtain ⟨booked, valid, accepted⟩ := bind_ok.mp accepted
  cases accepted
  rw [← fillsOf_mapM valid, sortByTimestamp]
  exact fillsOf_perm (List.perm_insertionSort _ _) order

/-! ## Engine code -/

/-- Only the order contents differ. -/
structure HeapOnly (before after : Engine W) : Prop where
  world : after.world = before.world
  orders : after.orders = before.orders
  currentOrders : after.currentOrders = before.currentOrders
  account : after.account = before.account
  grown : Grown before.heap after.heap

theorem HeapOnly.refl (engine : Engine W) : HeapOnly engine engine :=
  ⟨rfl, rfl, rfl, rfl, .refl _⟩

theorem HeapOnly.trans {a b c : Engine W} (first : HeapOnly a b) (second : HeapOnly b c) :
    HeapOnly a c :=
  ⟨second.world.trans first.world, second.orders.trans first.orders,
    second.currentOrders.trans first.currentOrders, second.account.trans first.account,
    first.grown.trans second.grown⟩

theorem HeapOnly.set (engine : Engine W) {id : OrderId} {order : Order}
    (same : order.kind = (engine.heap.order id).kind) :
    HeapOnly engine { engine with heap := engine.heap.set id order } :=
  ⟨rfl, rfl, rfl, rfl, grown_set same⟩

variable {trades : List Trade} {originalStates : OrderId → ℚ × OrderStatus}

theorem applyFills_keeps (before : Engine W) (currentOrders : List OrderId) :
    Keeps (fun engine => HeapOnly before engine ∧
        ∀ id, id ∉ currentOrders → engine.heap.order id = before.heap.order id)
      (Engine.applyFills (W := W) trades originalStates currentOrders) := by
  refine Keeps.foldlM fun id member engine now => ⟨fun after run => ?_, fun raised run => ?_⟩
  · dsimp only at run
    split at run
    · obtain ⟨order, filled, run⟩ := bind_ok.mp run
      cases run
      have sameKind : order.kind = (engine.heap.order id).kind := by
        rw [(fill_ok (raiseIn_ok.mp filled)).2]
      refine ⟨now.1.trans (.set engine sameKind), fun other outside => ?_⟩
      have apart : other ≠ id := fun same => outside (same ▸ member)
      rw [Heap.set_other apart]
      exact now.2 other outside
    · cases run
      exact now
  · dsimp only at run
    split at run
    · rcases bind_error.mp run with failed | ⟨order, _, run⟩
      · obtain ⟨error, _, rfl⟩ := raiseIn_error.mp failed
        exact now
      · cases run
    · cases run

/-- Each order is filled once, or left as the simulator left it. -/
theorem applyFills_ok {currentOrders : List OrderId} (distinct : currentOrders.Nodup)
    {before after : Engine W}
    (run : before.applyFills trades originalStates currentOrders = .ok after) {id : OrderId}
    (member : id ∈ currentOrders) :
    ((before.heap.order id).qty = (originalStates id).1 ∧ reportedFills trades id ≠ 0 ∧
        (before.heap.order id).fill (some (reportedFills trades id)) =
          .ok (after.heap.order id)) ∨
      (¬ ((before.heap.order id).qty = (originalStates id).1 ∧ reportedFills trades id ≠ 0) ∧
        after.heap.order id = before.heap.order id) := by
  induction currentOrders generalizing before with
  | nil => cases member
  | cons first currentOrders ih =>
      obtain ⟨apart, distinct⟩ := List.nodup_cons.mp distinct
      unfold Engine.applyFills at run
      rw [List.foldlM_cons] at run
      obtain ⟨middle, step, rest⟩ := bind_ok.mp run
      have later := (applyFills_keeps middle currentOrders middle ⟨.refl _, fun _ _ => rfl⟩).1
        after rest
      dsimp only at step
      rcases List.mem_cons.mp member with rfl | member
      · rw [later.2 id apart]
        split at step
        · rename_i fills
          obtain ⟨order, filled, step⟩ := bind_ok.mp step
          cases step
          rw [Heap.set_same]
          exact Or.inl ⟨fills.1, fills.2, raiseIn_ok.mp filled⟩
        · rename_i left
          cases step
          exact Or.inr ⟨left, rfl⟩
      · have other : id ≠ first := fun same => apart (same ▸ member)
        have same : middle.heap.order id = before.heap.order id := by
          split at step
          · obtain ⟨order, filled, step⟩ := bind_ok.mp step
            cases step
            exact Heap.set_other other
          · cases step
            rfl
        rw [← same]
        exact ih distinct rest member

/-! ## One round of a simulator -/

/-- What a round does to an open order: a fill in the order's direction, within
its quantity, and the status that goes with it. -/
structure Filled (before after : Order) (fill : Int) : Prop where
  identity : SameIdentity before after
  qty : after.qty = before.qty - fill
  bounded : |(fill : ℚ)| ≤ |before.qty|
  buy : 0 < before.qty → 0 ≤ fill
  sell : ¬ 0 < before.qty → fill ≤ 0
  status : fill = 0 ∧ after.status = before.status ∨ after.status = .cancelled ∨
    fill ≠ 0 ∧ after.status = if after.qty = 0 then .filled else .partiallyFilled

theorem filled_of_capture {before after : Heap} {id : OrderId}
    (same : capture after id = capture before id) :
    Filled (before.order id) (after.order id) 0 := by
  obtain ⟨contract, timestamp, timeInForce, qty, status⟩ := capture_eq_iff.mp same
  exact ⟨⟨contract, timestamp, timeInForce⟩, by simp [qty], by simp, fun _ => le_refl 0,
    fun _ => le_refl 0, Or.inl ⟨rfl, status⟩⟩

/-- An accepted round, from the engine in which the simulator is called. -/
structure Simulated (strategy : Strategy W) (i : Nat) (eligible : List OrderId)
    (before after : Engine W) (batch : List BookedTrade) : Prop where
  orders : after.orders = before.orders
  currentOrders : after.currentOrders = before.currentOrders
  grown : Grown before.heap after.heap
  trades : after.account.trades = before.account.trades ++ batch
  reconciled : Reconciled strategy.setup after.account
  booked : ∀ trade ∈ batch, trade.orderId ∈ before.currentOrders ∧ trade.orderId ∈ eligible ∧
    trade.timestamp = strategy.timestamp i ∧
    trade.contract = (before.heap.order trade.orderId).contract ∧
    trade.order.contract = trade.contract ∧ trade.qty ≠ 0 ∧
    (0 < trade.qty ↔ 0 < (before.heap.order trade.orderId).qty)
  fills : ∀ id ∈ before.currentOrders,
    Filled (before.heap.order id) (after.heap.order id) (fillsOf batch id)
  untouched : ∀ id ∈ before.orders, id < before.heap.size → id ∉ before.currentOrders →
    after.heap.order id = before.heap.order id

variable {strategy : Strategy W} {i : Nat} {eligible : List OrderId} {sim : MarketSim W}

/-- The heap a simulator leaves. -/
def Engine.leftBy (before : Engine W) (run : CallbackRun W (Returned Trade)) : Engine W :=
  { before with
    world := run.world
    heap := before.heap.written (fun id => id ∈ before.currentOrders ∨ id ∉ before.orders) run.heap }

theorem leftBy_untouched {before : Engine W} {run : CallbackRun W (Returned Trade)} {id : OrderId}
    (known : id ∈ before.orders) (inside : id < before.heap.size)
    (outside : id ∉ before.currentOrders) :
    (before.leftBy run).heap.order id = before.heap.order id :=
  Heap.written_of_not_writable inside (by simp [known, outside])

/-- The order of an accepted trade batch, from the callback to the engine's own fill. -/
theorem filled_of_checks {before left after : Order} {fill : Int}
    (identity : SameIdentity before left)
    (checked : (left.qty = before.qty ∧ left.status = before.status) ∨
      (fill ≠ 0 ∧ left.qty = before.qty - fill ∧
        (left.status = (if before.qty - fill = 0 then .filled else .partiallyFilled) ∨
          left.status = .cancelled)) ∨
      (fill = 0 ∧ left.qty = before.qty ∧ left.status = .cancelled))
    (bounded : |(fill : ℚ)| ≤ |before.qty|) (buy : 0 < before.qty → 0 ≤ fill)
    (sell : ¬ 0 < before.qty → fill ≤ 0)
    (applied : (left.qty = before.qty ∧ fill ≠ 0 ∧ left.fill (some (fill : ℚ)) = .ok after) ∨
      (¬ (left.qty = before.qty ∧ fill ≠ 0) ∧ after = left)) :
    Filled before after fill := by
  rcases applied with ⟨same, nonzero, ran⟩ | ⟨left_alone, rfl⟩
  · obtain ⟨_, rfl⟩ := fill_ok ran
    refine ⟨⟨identity.contract, identity.timestamp, identity.timeInForce⟩, ?_, bounded, buy, sell,
      Or.inr (Or.inr ⟨nonzero, rfl⟩)⟩
    dsimp only
    rw [same]
  · rcases checked with ⟨qty, status⟩ | ⟨nonzero, qty, status⟩ | ⟨zero, qty, status⟩
    · obtain rfl : fill = 0 := not_not.mp fun nonzero => left_alone ⟨qty, nonzero⟩
      exact ⟨identity, by simp [qty], bounded, buy, sell, Or.inl ⟨rfl, status⟩⟩
    · refine ⟨identity, qty, bounded, buy, sell, Or.inr ?_⟩
      rw [qty]
      exact status.symm.imp_right fun status => ⟨nonzero, status⟩
    · subst zero
      exact ⟨identity, by simp [qty], bounded, buy, sell, Or.inr (Or.inl status)⟩

theorem reportedFills_eq_zero {trades : List Trade} {id : OrderId}
    (absent : ∀ trade ∈ trades, trade.order ≠ id) : reportedFills trades id = 0 := by
  rw [reportedFills_eq_sum,
    List.filter_eq_nil_iff.mpr fun trade member => by simpa using absent trade member]
  rfl

/-- The guards of an accepted round. -/
theorem bookFills_guards {before left : Engine W}
    (valid : (before.captureAll before.currentOrders).forM (fun state =>
      if state.order ∈ eligible then state.validateIdentity left.heap
      else state.validateUnchanged false left.heap) = .ok ()) {id : OrderId}
    (member : id ∈ before.currentOrders) :
    SameIdentity (before.heap.order id) (left.heap.order id) ∧
      (id ∉ eligible → capture left.heap id = capture before.heap id) := by
  have checked := forM_ok.mp valid (capture before.heap id) (List.mem_map_of_mem member)
  by_cases listed : id ∈ eligible
  · rw [if_pos (by exact listed)] at checked
    exact ⟨validateIdentity_ok.mp checked, fun waiting => absurd listed waiting⟩
  · rw [if_neg (by exact listed)] at checked
    have same := validateUnchanged_strict.mp checked
    exact ⟨sameIdentity_of_capture same, fun _ => same⟩

theorem bookFills_ok {before after : Engine W} {run : CallbackRun W (Returned Trade)}
    (distinct : before.currentOrders.Nodup) (reconciled : Reconciled strategy.setup before.account)
    (ran : strategy.bookFills i eligible before run.result (before.leftBy run) = .ok after) :
    ∃ batch, Simulated strategy i eligible before after batch := by
  obtain ⟨returnedTrades, _, ran⟩ := bind_ok.mp ran
  obtain ⟨_, guards, ran⟩ := bind_ok.mp ran
  obtain ⟨trades, valid, ran⟩ := bind_ok.mp ran
  obtain ⟨engine, applied, ran⟩ := bind_ok.mp ran
  have guards := fun id => @bookFills_guards W eligible before (before.leftBy run) (raiseIn_ok.mp guards) id
  obtain ⟨reported, bounded, checked⟩ := validateMarketTrades_ok (raiseIn_ok.mp valid)
  obtain ⟨heapOnly, outside⟩ :=
    (applyFills_keeps (before.leftBy run) _ _ ⟨.refl _, fun _ _ => rfl⟩).1 engine applied
  have fills : ∀ id ∈ before.currentOrders,
      Filled (before.heap.order id) (engine.heap.order id) (reportedFills trades id) := by
    intro id member
    obtain ⟨identity, waiting⟩ := guards id member
    by_cases listed : id ∈ eligible
    · have open' : id ∈ before.currentOrders.filter (· ∈ eligible) :=
        List.mem_filter.mpr ⟨member, by simpa using listed⟩
      obtain ⟨buy, sell⟩ := reportedFills_sign reported id
      exact filled_of_checks identity (validateOpenOrder_ok (checked id open')) (bounded id) buy sell
        (applyFills_ok (distinct.filter _) applied open')
    · have unreported : reportedFills trades id = 0 := reportedFills_eq_zero fun trade traded same =>
        listed (by simpa [same] using (List.mem_filter.mp (reported trade traded).pending).2)
      have kept := outside id fun open' => listed (by simpa using (List.mem_filter.mp open').2)
      rw [unreported, kept]
      exact filled_of_capture (waiting listed)
  have untouched : ∀ id ∈ before.orders, id < before.heap.size → id ∉ before.currentOrders →
      engine.heap.order id = before.heap.order id := by
    intro id known inside absent
    rw [outside id fun open' => absent (List.mem_filter.mp open').1]
    exact leftBy_untouched known inside absent
  have grown : Grown before.heap engine.heap := (grown_written _ _ _).trans heapOnly.grown
  have sameAccount : engine.account = before.account := heapOnly.account
  by_cases none : trades = []
  · rw [if_pos none] at ran
    cases ran
    refine ⟨[], heapOnly.orders, heapOnly.currentOrders, grown, ?_, sameAccount ▸ reconciled,
      fun _ member => (by cases member), ?_, untouched⟩
    · rw [sameAccount, List.append_nil]
    · rw [none] at fills
      exact fills
  · rw [if_neg none] at ran
    split at ran
    · rename_i account booking
      cases ran
      rw [sameAccount] at booking
      obtain ⟨batch, booked, bookable, indexed, updated⟩ :=
        Account.addTrades_ok reconciled.indexed booking
      refine ⟨batch, heapOnly.orders, heapOnly.currentOrders, grown, updated.trades,
        reconciled.update bookable indexed updated, fun trade member => ?_, ?_, untouched⟩
      · obtain ⟨raw, traded, own⟩ := mem_bookTrades booked member
        obtain ⟨_, _, contract, orderId, order, timestamp, numbers, references⟩ := bookTrade_ok own
        have report := reported raw traded
        obtain ⟨pending, listed⟩ := List.mem_filter.mp report.pending
        have current : (before.heap.order raw.order).contract = raw.contract := by
          rw [report.contract]
          exact (guards _ pending).1.contract.symm
        have qty : raw.qty.num = trade.qty := by
          rw [(validatedTradeNumbers_ok numbers).1]
          exact Rat.num_intCast _
        rw [orderId, order, timestamp, contract, current, ← qty]
        exact ⟨pending, by simpa using listed, report.timestamp, rfl,
          (validateTradeReferences_ok.mp references).1.symm, report.nonzero, report.sign⟩
      · intro id member
        rw [fillsOf_bookTrades booked]
        exact fills id member
    · cases ran

theorem runMarketSim_ok {engine after : Engine W}
    (distinct : engine.currentOrders.Nodup) (reconciled : Reconciled strategy.setup engine.account)
    (ran : strategy.runMarketSim i eligible sim engine = .ok after) :
    ∃ batch, Simulated strategy i eligible engine.updateCurrentOrders after batch := by
  unfold Strategy.runMarketSim Engine.guarded at ran
  dsimp only at ran
  split at ran
  · rename_i booked
    cases ran
    exact bookFills_ok (distinct.filter _) reconciled booked
  · cases ran

/-! ## A round that failed -/

/-- What a guarded callback leaves as it was: the protected fields of the
`pending` orders, the content of every other `known` order, and all of the
account but its caches. -/
structure Guarded (pending known : List OrderId) (before after : Engine W) : Prop where
  orders : after.orders = before.orders
  currentOrders : after.currentOrders = before.currentOrders
  grown : Grown before.heap after.heap
  captured : ∀ id ∈ pending, capture after.heap id = capture before.heap id
  untouched : ∀ id ∈ known, id < before.heap.size → id ∉ pending →
    after.heap.order id = before.heap.order id
  revalued : Account.Revalued before.account after.account

theorem bookFills_error {before left : Engine W} {result : Except Exn (Returned Trade)}
    {raised : Raised Exn (Engine W)}
    (ran : strategy.bookFills i eligible before result left = .error raised) :
    HeapOnly left raised.state ∧ ∀ id, id ∉ before.currentOrders →
      raised.state.heap.order id = left.heap.order id := by
  have unmoved : ∀ {α : Type} {m : Except Exn α}, raiseIn left m = .error raised →
      HeapOnly left raised.state ∧ ∀ id, id ∉ before.currentOrders →
        raised.state.heap.order id = left.heap.order id := by
    intro α m failed
    obtain ⟨error, _, rfl⟩ := raiseIn_error.mp failed
    exact ⟨.refl _, fun _ _ => rfl⟩
  have narrowed : ∀ {id}, id ∉ before.currentOrders →
      id ∉ before.currentOrders.filter (· ∈ eligible) :=
    fun absent listed => absent (List.mem_filter.mp listed).1
  rcases bind_error.mp ran with failed | ⟨_, _, ran⟩
  · exact unmoved failed
  rcases bind_error.mp ran with failed | ⟨_, _, ran⟩
  · exact unmoved failed
  rcases bind_error.mp ran with failed | ⟨trades, _, ran⟩
  · exact unmoved failed
  rcases bind_error.mp ran with failed | ⟨engine, applied, ran⟩
  · have kept := (applyFills_keeps left _ left ⟨.refl _, fun _ _ => rfl⟩).2 raised failed
    exact ⟨kept.1, fun id absent => kept.2 id (narrowed absent)⟩
  · have kept := (applyFills_keeps left _ left ⟨.refl _, fun _ _ => rfl⟩).1 engine applied
    split at ran
    · cases ran
    · split at ran
      · cases ran
      · rename_i refused booking
        cases ran
        have account := Account.addTrades_error booking
        refine ⟨⟨kept.1.world, kept.1.orders, kept.1.currentOrders, ?_, kept.1.grown⟩,
          fun id absent => kept.2 id (narrowed absent)⟩
        exact account.trans kept.1.account

theorem runMarketSim_error {engine : Engine W} {raised : Raised Exn (Engine W)}
    (ran : strategy.runMarketSim i eligible sim engine = .error raised) :
    raised.state.account = engine.account ∧
      Guarded engine.updateCurrentOrders.currentOrders engine.orders engine.updateCurrentOrders
        raised.state := by
  unfold Strategy.runMarketSim Engine.guarded at ran
  dsimp only at ran
  split at ran
  · cases ran
  · rename_i inner booking
    cases ran
    obtain ⟨heapOnly, outside⟩ := bookFills_error booking
    refine ⟨heapOnly.account, heapOnly.orders, heapOnly.currentOrders, ?_, fun id member => ?_,
      fun id known inside absent => ?_, ?_⟩
    · exact ((grown_written _ _ _).trans heapOnly.grown).trans (grown_restoreAll _ _)
    · exact capture_restoreAll member _
    · rw [Engine.captureAll, restoreAll_of_not_mem absent, outside id absent]
      exact leftBy_untouched known inside absent
    · exact heapOnly.account ▸ Account.Revalued.refl _

/-! ## Expiry -/

/-- The acknowledgements and expiries change no field but the status. -/
structure Aged (before after : Order) : Prop where
  kind : after.kind = before.kind
  identity : SameIdentity before after
  qty : after.qty = before.qty
  status : after.status = before.status ∨ before.isOpen ∧ after.status = .cancelled

theorem Aged.refl (order : Order) : Aged order order := ⟨rfl, .refl order, rfl, Or.inl rfl⟩

theorem Aged.trans {a b c : Order} (first : Aged a b) (second : Aged b c) : Aged a c where
  kind := second.kind.trans first.kind
  identity := first.identity.trans second.identity
  qty := second.qty.trans first.qty
  status := by
    rcases second.status with same | ⟨live, cancelled⟩
    · rcases first.status with same' | ⟨live, cancelled⟩
      · exact Or.inl (same.trans same')
      · exact Or.inr ⟨live, same.trans cancelled⟩
    · rcases first.status with same' | ⟨live', _⟩
      · exact Or.inr ⟨by rwa [Order.isOpen, same'] at live, cancelled⟩
      · exact Or.inr ⟨live', cancelled⟩

theorem aged_cancel (order : Order) : Aged order order.cancel :=
  ⟨cancel_kind order, sameIdentity_cancel order, cancel_qty order, cancel_status order⟩

theorem aged_ite (p : Prop) [Decidable p] (order : Order) :
    Aged order (if p then order.cancel else order) := by
  split
  · exact aged_cancel order
  · exact .refl order

theorem Aged.isOpen {before after : Order} (aged : Aged before after) (live : after.isOpen) :
    before.isOpen ∧ after.status = before.status := by
  rcases aged.status with same | ⟨_, cancelled⟩
  · rw [Order.isOpen, same] at live
    exact ⟨live, same⟩
  · rw [Order.isOpen, cancelled] at live
    cases live

theorem expireOrder_aged (idx : Nat) (order : Order) : Aged order (strategy.expireOrder i idx order) :=
  (aged_ite _ order).trans ((aged_ite _ _).trans (aged_ite _ _))

theorem ite_cancel_open {p : Prop} [Decidable p] {order : Order}
    (live : (if p then order.cancel else order).isOpen) : ¬ p ∧ order.isOpen := by
  by_cases cancelled : p
  · rw [if_pos cancelled, cancel_not_open] at live
    cases live
  · rw [if_neg cancelled] at live
    exact ⟨cancelled, live⟩

/-- An order that is still open asked for no cancellation and is within its time
in force. -/
theorem expireOrder_open {idx : Nat} {order : Order}
    (live : (strategy.expireOrder i idx order).isOpen) :
    order.status ≠ .cancelRequested ∧
      (order.timeInForce = .day → day (strategy.timestamp i) ≤ day order.timestamp) ∧
      (order.timeInForce = .fok → i - idx ≤ strategy.tradeLag) := by
  unfold Strategy.expireOrder at live
  dsimp only at live
  obtain ⟨notLate, live⟩ := ite_cancel_open live
  obtain ⟨notPast, live⟩ := ite_cancel_open live
  obtain ⟨notRequested, _⟩ := ite_cancel_open live
  rw [if_neg notRequested] at notPast notLate
  rw [if_neg notPast] at notLate
  exact ⟨notRequested, fun daily => not_lt.mp fun past => notPast ⟨daily, past⟩,
    fun fok => not_lt.mp fun late => notLate ⟨late, fok⟩⟩

theorem expirePending_ok {state after : Engine W × List OrderId} {id : OrderId}
    (ran : strategy.expirePending i state id = .ok after) :
    let idx := searchsorted strategy.setup.timestamps.timestamps (state.1.heap.order id).timestamp
    let order := strategy.expireOrder i idx (state.1.heap.order id)
    idx ≤ i ∧ after = ({ state.1 with heap := state.1.heap.set id order },
      if strategy.tradeLag ≤ i - idx ∧ order.isOpen then state.2 ++ [id] else state.2) := by
  obtain ⟨inside, ran⟩ := refuse_ok.mp ran
  cases ran
  exact ⟨(not_not.mp inside).2, rfl⟩

theorem expirePending_error {state : Engine W × List OrderId} {id : OrderId}
    {raised : Raised Exn (Engine W)}
    (ran : strategy.expirePending i state id = .error raised) : raised.state = state.1 := by
  unfold Strategy.expirePending at ran
  dsimp only at ran
  split at ran
  · cases ran
    rfl
  · cases ran

/-- Between the start of the loop and any of its exits. -/
structure AllAged (before after : Engine W) : Prop where
  heapOnly : HeapOnly before after
  aged : ∀ id, Aged (before.heap.order id) (after.heap.order id)
  outside : ∀ id, id ∉ before.currentOrders → after.heap.order id = before.heap.order id

theorem expireOrders_keeps (before : Engine W) :
    KeepsOn Prod.fst (AllAged before) fun state : Engine W × List OrderId =>
      before.currentOrders.foldlM (strategy.expirePending i) state := by
  refine KeepsOn.foldlM fun id member state now => ⟨fun after ran => ?_, fun raised ran => ?_⟩
  · obtain ⟨_, rfl⟩ := expirePending_ok ran
    refine ⟨now.heapOnly.trans (.set _ (expireOrder_aged _ _).kind), fun other => ?_, fun other outside => ?_⟩
    · by_cases same : other = id
      · subst same
        rw [Heap.set_same]
        exact (now.aged other).trans (expireOrder_aged _ _)
      · rw [Heap.set_other same]
        exact now.aged other
    · have apart : other ≠ id := fun same => outside (same ▸ member)
      rw [Heap.set_other apart]
      exact now.outside other outside
  · rw [expirePending_error ran]
    exact now

theorem expireOrders_aged {before after : Engine W}
    (ran : strategy.expireOrders i before = .ok (after, eligible)) : AllAged before after :=
  (expireOrders_keeps before (before, []) ⟨.refl _, fun _ => .refl _, fun _ _ => rfl⟩).1 _ ran

theorem expireOrders_error {before : Engine W} {raised : Raised Exn (Engine W)}
    (ran : strategy.expireOrders i before = .error raised) : AllAged before raised.state :=
  (expireOrders_keeps before (before, []) ⟨.refl _, fun _ => .refl _, fun _ _ => rfl⟩).2 _ ran

/-- The expiry loop on each pending order. -/
structure Expired (strategy : Strategy W) (i : Nat) (eligible : List OrderId) (before after : Order)
    (id : OrderId) : Prop where
  submitted : searchsorted strategy.setup.timestamps.timestamps before.timestamp ≤ i
  content : after = strategy.expireOrder i
    (searchsorted strategy.setup.timestamps.timestamps before.timestamp) before
  eligible : id ∈ eligible →
    strategy.tradeLag ≤ i - searchsorted strategy.setup.timestamps.timestamps before.timestamp

theorem expireOrders_ok {before after : Engine W} (distinct : before.currentOrders.Nodup)
    (ran : strategy.expireOrders i before = .ok (after, eligible)) {id : OrderId}
    (member : id ∈ before.currentOrders) :
    Expired strategy i eligible (before.heap.order id) (after.heap.order id) id := by
  have loop : (∀ id, id ∉ before.currentOrders → after.heap.order id = before.heap.order id) ∧
      (∀ id ∈ eligible, id ∈ before.currentOrders) ∧ ∀ id ∈ before.currentOrders,
        Expired strategy i eligible (before.heap.order id) (after.heap.order id) id := by
    refine foldlM_ok (P := fun done (state : Engine W × List OrderId) =>
      (∀ id, id ∉ done → state.1.heap.order id = before.heap.order id) ∧
      (∀ id ∈ state.2, id ∈ done) ∧
      ∀ id ∈ done, Expired strategy i state.2 (before.heap.order id) (state.1.heap.order id) id)
      ?_ ⟨fun _ _ => rfl, by simp, by simp⟩ ran
    intro done x state next inside now step
    obtain ⟨fresh, listed, expired⟩ := now
    obtain ⟨submitted, rfl⟩ := expirePending_ok step
    have apart : x ∉ done := by
      have distinct := distinct.sublist inside.sublist
      exact fun again => (List.nodup_append.mp distinct).2.2 x again x (by simp) rfl
    rw [fresh x apart] at submitted ⊢
    refine ⟨fun id outside => ?_, fun id member => ?_, fun id member => ?_⟩
    · obtain ⟨notDone, notHere⟩ := not_or.mp (mt List.mem_append.mpr outside)
      rw [List.mem_singleton] at notHere
      dsimp only
      rw [Heap.set_other notHere]
      exact fresh id notDone
    · dsimp only at member
      split at member
      · rcases List.mem_append.mp member with old | new
        · exact List.mem_append_left _ (listed id old)
        · exact List.mem_append_right _ new
      · exact List.mem_append_left _ (listed id member)
    · rcases List.mem_append.mp member with old | new
      · have differs : id ≠ x := fun same => apart (same ▸ old)
        obtain ⟨submitted, content, timely⟩ := expired id old
        dsimp only
        rw [Heap.set_other differs]
        refine ⟨submitted, content, fun member => timely ?_⟩
        split at member
        · exact (List.mem_append.mp member).resolve_right (by simpa using differs)
        · exact member
      · obtain rfl := List.mem_singleton.mp new
        dsimp only
        rw [Heap.set_same]
        refine ⟨submitted, rfl, fun member => ?_⟩
        split at member
        · rename_i timely
          exact timely.1
        · exact absurd (listed id member) apart
  exact loop.2.2 id member

end Gambit
