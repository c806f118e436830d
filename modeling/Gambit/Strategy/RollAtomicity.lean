import Gambit.Strategy.Rolls
import Gambit.Strategy.Timing

/-!
# Rolls execute both legs or neither

Whatever a simulator call books for one leg it books for the other, whole; and
a leg is filled only once.
-/

set_option autoImplicit false

namespace Gambit

open Raising Traces OrderCallbackState SimpleMarketSimulator

variable {W : Type} {strategy : Strategy W} {p q : Point W}

/-! ## The batch of a call -/

theorem mapM_bookTrade {setup : AccountSetup} {orders : OrderId → Order} {trades : List Trade}
    {booked : List BookedTrade} (accepted : trades.mapM (bookTrade setup orders) = .ok booked) :
    (booked.map fun trade => (trade.orderId, trade.qty)) =
      trades.map fun trade => (trade.order, trade.qty.num) := by
  induction trades generalizing booked with
  | nil =>
      cases accepted
      rfl
  | cons trade trades ih =>
      rw [List.mapM_cons] at accepted
      obtain ⟨first, found, accepted⟩ := bind_ok.mp accepted
      obtain ⟨rest, tail, accepted⟩ := bind_ok.mp accepted
      cases accepted
      obtain ⟨_, _, _, own, _, _, numbers, _⟩ := bookTrade_ok found
      have qty : trade.qty.num = first.qty := by
        rw [(validatedTradeNumbers_ok numbers).1]
        exact Rat.num_intCast _
      rw [List.map_cons, List.map_cons, ih tail, own, qty]

theorem bookTrades_perm {setup : AccountSetup} {orders : OrderId → Order} {trades : List Trade}
    {batch : List BookedTrade} (accepted : bookTrades setup orders trades = .ok batch) :
    (batch.map fun trade => (trade.orderId, trade.qty)).Perm
      (trades.map fun trade => (trade.order, trade.qty.num)) := by
  obtain ⟨booked, valid, accepted⟩ := bind_ok.mp accepted
  cases accepted
  rw [← mapM_bookTrade valid]
  exact (List.perm_insertionSort _ _).map _

theorem validateMarketTrades_some {heap : Heap} {openOrders : List OrderId}
    {currentTimestamp : Timestamp} {originalStates : OrderId → ℚ × OrderStatus}
    {trades trades' : List Trade}
    (accepted : validateMarketTrades heap openOrders currentTimestamp originalStates
      (.sequence (trades.map some)) = .ok trades') : trades' = trades := by
  obtain ⟨batch, ran, accepted⟩ := bind_ok.mp accepted
  obtain ⟨_, _, accepted⟩ := bind_ok.mp accepted
  cases accepted
  have listed : batch.trades.map some = trades.map some := by
    refine foldlM_ok (P := fun done (batch : MarketBatch) => batch.trades.map some = done)
      ?_ rfl ran
    intro done result before after _ listed step
    obtain ⟨trade, _, rfl, _⟩ := validateMarketTrade_ok step
    cases result with
    | none => cases step
    | some own =>
        obtain ⟨_, _, step⟩ := bind_ok.mp step
        obtain ⟨_, step⟩ := refuse_ok.mp step
        obtain ⟨_, step⟩ := refuse_ok.mp step
        obtain ⟨_, _, step⟩ := bind_ok.mp step
        obtain ⟨_, step⟩ := refuse_ok.mp step
        obtain ⟨_, step⟩ := refuse_ok.mp step
        have same := List.append_cancel_left (MarketBatch.mk.inj (Except.ok.inj step)).1
        rw [List.map_append, listed, ← same]
        rfl
  exact (List.map_injective_iff.mpr (Option.some_injective _)) listed

theorem bookFills_batch {i : Nat} {eligible : List OrderId} {before left after : Engine W}
    {trades : List Trade}
    (ran : strategy.bookFills i eligible before (.ok (.sequence (trades.map some))) left =
      .ok after) (indexed : Account.Indexed strategy.setup left.account) :
    ∃ batch, after.account.trades = left.account.trades ++ batch ∧
      (batch.map fun trade => (trade.orderId, trade.qty)).Perm
        (trades.map fun trade => (trade.order, trade.qty.num)) := by
  obtain ⟨returned, result, checked⟩ := bind_ok.mp ran
  cases raiseIn_ok.mp result
  obtain ⟨_, _, checked⟩ := bind_ok.mp checked
  obtain ⟨validated, valid, applies⟩ := bind_ok.mp checked
  obtain ⟨filled, applied, books⟩ := bind_ok.mp applies
  have same := validateMarketTrades_some (raiseIn_ok.mp valid)
  have account : filled.account = left.account :=
    ((applyFills_keeps _ _ _ ⟨.refl _, fun _ _ => rfl⟩).1 filled applied).1.account
  rw [same] at books
  by_cases none : trades = []
  · rw [if_pos none] at books
    cases books
    refine ⟨[], ?_, ?_⟩
    · rw [account, List.append_nil]
    · rw [none]
      exact .refl _
  · rw [if_neg none] at books
    split at books
    · rename_i account' booking
      cases books
      rw [account] at booking
      obtain ⟨batch, accepted, _, _, updated⟩ := Account.addTrades_ok indexed booking
      exact ⟨batch, updated.trades, bookTrades_perm accepted⟩
    · cases books

/-- An accepted call of a simple simulator books what the call executed. -/
theorem runMarketSim_booked {simple : SimpleMarketSimulator W} {i : Nat} {eligible : List OrderId}
    {engine after : Engine W} (distinct : engine.currentOrders.Nodup)
    (reconciled : Reconciled strategy.setup engine.account)
    (run : strategy.runMarketSim i eligible (simple.call strategy.setup.timestamps) engine =
      .ok after) :
    ∃ (orders : List OrderId) (trades : List Trade) (batch : List BookedTrade), orders.Nodup ∧
      (∀ id ∈ orders, id ∈ engine.currentOrders) ∧ Executed engine.heap orders trades ∧
      after.account.trades = engine.account.trades ++ batch ∧
      (batch.map fun trade => (trade.orderId, trade.qty)).Perm
        (trades.map fun trade => (trade.order, trade.qty.num)) := by
  unfold Strategy.runMarketSim Engine.guarded at run
  dsimp only at run
  split at run
  · rename_i engine' booked
    cases run
    obtain ⟨returned, result, _⟩ := bind_ok.mp booked
    have result := raiseIn_ok.mp result
    obtain ⟨trades, rfl, executed⟩ := call_executed result
    rw [result] at booked
    obtain ⟨batch, onward, same⟩ := bookFills_batch booked reconciled.indexed
    refine ⟨_, trades, batch, (distinct.filter _).filter _, fun id member => ?_, executed, onward,
      same⟩
    exact (List.mem_filter.mp (List.mem_filter.mp member).1).1
  · cases run

/-- The trades for an order. -/
def tradesFor (trades : List BookedTrade) (id : OrderId) : List BookedTrade :=
  trades.filter fun trade => trade.orderId = id

theorem tradesFor_append (trades batch : List BookedTrade) (id : OrderId) :
    tradesFor (trades ++ batch) id = tradesFor trades id ++ tradesFor batch id :=
  List.filter_append ..

theorem tradesFor_eq_nil {trades : List BookedTrade} {id : OrderId} :
    tradesFor trades id = [] ↔ ∀ trade ∈ trades, trade.orderId ≠ id := by
  simp [tradesFor, List.filter_eq_nil_iff]

/-- An order that is executed once is booked once. -/
theorem booked_once {trades : List Trade} {batch : List BookedTrade}
    (same : (batch.map fun trade => (trade.orderId, trade.qty)).Perm
      (trades.map fun trade => (trade.order, trade.qty.num)))
    (distinct : (trades.map Trade.order).Nodup) {trade : Trade} (member : trade ∈ trades) :
    ∃ booked, tradesFor batch trade.order = [booked] ∧ booked.qty = trade.qty.num := by
  have own := same.filter fun pair : OrderId × Int => pair.1 = trade.order
  rw [List.filter_map, List.filter_map] at own
  have single : trades.filter ((fun pair : OrderId × Int => decide (pair.1 = trade.order)) ∘
      fun trade => (trade.order, trade.qty.num)) = [trade] :=
    KeyedLists.filter_key_eq distinct member
  rw [single, List.map_singleton, List.perm_singleton] at own
  obtain ⟨booked, listed, pair⟩ := List.map_eq_singleton_iff.mp own
  exact ⟨booked, listed, congrArg Prod.snd pair⟩

/-! ## The legs of one roll -/

theorem both_of_length {α : Type} {xs : List α} {a b : α} (distinct : xs.Nodup)
    (length : xs.length = 2) (only : ∀ x ∈ xs, x = a ∨ x = b) : a ∈ xs ∧ b ∈ xs := by
  obtain ⟨x, y, rfl⟩ := List.length_eq_two.mp length
  have apart : x ≠ y := fun same => (List.nodup_cons.mp distinct).1 (by simp [same])
  rcases only x (by simp) with rfl | rfl
  · rcases only y (by simp) with rfl | rfl
    · exact absurd rfl apart
    · simp
  · rcases only y (by simp) with rfl | rfl
    · simp
    · exact absurd rfl apart

/-- A call executes both legs of a roll or neither. -/
theorem executed_both {heap : Heap} {orders known : List OrderId} {trades : List Trade}
    {rollId : String} {close : OrderId} (distinct : orders.Nodup)
    (listed : ∀ id ∈ orders, id ∈ known) (executed : Executed heap orders trades)
    (legs : Legs heap.order known rollId close) :
    (∀ trade ∈ trades, trade.order ≠ close ∧ trade.order ≠ close + 1) ∨
      ∃ closing ∈ trades, closing.order = close ∧
        ∃ reopening ∈ trades, reopening.order = close + 1 := by
  by_cases touched : ∃ trade ∈ trades, trade.order = close ∨ trade.order = close + 1
  · obtain ⟨trade, member, own⟩ := touched
    have marked : (heap.order trade.order).rollId = some rollId := by
      rcases own with same | same
      · rw [same]
        exact legs.closeId
      · rw [same]
        exact legs.reopenId
    have counted := executed.rolls trade member rollId marked
    rw [rollCount, List.countP_eq_length_filter] at counted
    have both := both_of_length ((distinct.sublist executed.listed).filter _) counted
      fun id member => by
        obtain ⟨traded, same⟩ := List.mem_filter.mp member
        exact legs.only id (listed id (executed.listed.subset traded)) (of_decide_eq_true same)
    obtain ⟨closing, closingListed, closingOwn⟩ := List.mem_map.mp (List.mem_filter.mp both.1).1
    obtain ⟨reopening, reopeningListed, reopeningOwn⟩ :=
      List.mem_map.mp (List.mem_filter.mp both.2).1
    exact Or.inr ⟨closing, closingListed, closingOwn, reopening, reopeningListed, reopeningOwn⟩
  · refine Or.inl fun trade member => ⟨fun same => touched ⟨trade, member, Or.inl same⟩,
      fun same => touched ⟨trade, member, Or.inr same⟩⟩

/-- One trade, for the whole order. -/
def BookedWhole (p : Point W) (batch : List BookedTrade) (id : OrderId) : Prop :=
  ∃ trade, tradesFor batch id = [trade] ∧ (trade.qty : ℚ) = (p.order id).qty

/-- A step at which a simulator of the strategy is called. -/
def Simulates (strategy : Strategy W) (p q : Point W) : Prop :=
  ∃ eligible, ∃ sim ∈ strategy.marketSims, p.control = .passing eligible ∧
    strategy.runMarketSim p.heartbeat eligible sim p.engine = .ok q.engine

theorem tradesFor_mem {trades : List BookedTrade} {id : OrderId} {trade : BookedTrade}
    (single : tradesFor trades id = [trade]) : trade ∈ trades ∧ trade.orderId = id := by
  have listed : trade ∈ tradesFor trades id := single ▸ List.mem_singleton_self _
  obtain ⟨member, own⟩ := List.mem_filter.mp listed
  exact ⟨member, of_decide_eq_true own⟩

theorem simulate_both (simulators : SimpleSimulators strategy) {engine after : Engine W} {i : Nat}
    {eligible : List OrderId} {sim : MarketSim W} (listed : sim ∈ strategy.marketSims)
    (sound : Sound strategy ⟨engine, i, .passing eligible⟩) {rollId : String} {close : OrderId}
    (legs : Legs engine.heap.order engine.orders rollId close)
    (run : strategy.runMarketSim i eligible sim engine = .ok after) :
    ∃ batch, after.account.trades = engine.account.trades ++ batch ∧
      ((tradesFor batch close = [] ∧ tradesFor batch (close + 1) = []) ∨
        BookedWhole ⟨engine, i, .passing eligible⟩ batch close ∧
          BookedWhole ⟨engine, i, .passing eligible⟩ batch (close + 1)) := by
  obtain ⟨simple, rfl⟩ := simulators sim listed
  obtain ⟨orders, trades, batch, distinct, current, executed, onward, same⟩ :=
    runMarketSim_booked sound.current_distinct sound.reconciled run
  refine ⟨batch, onward, ?_⟩
  have whole : ∀ trade ∈ trades,
      BookedWhole ⟨engine, i, .passing eligible⟩ batch trade.order := by
    intro trade member
    obtain ⟨booked, single, qty⟩ := booked_once same (distinct.sublist executed.listed) member
    refine ⟨booked, single, ?_⟩
    have pending := current _ (executed.listed.subset (List.mem_map_of_mem member))
    obtain ⟨effectBatch, effect⟩ := step_effect sound (.simulate run listed)
    have sameBatch : effectBatch = batch :=
      List.append_cancel_left (effect.trades.symm.trans onward)
    have traded := effect.booked booked (sameBatch ▸ (tradesFor_mem single).1)
    have live := traded.live
    rw [(tradesFor_mem single).2] at live
    have held : trade.order ∈ (Point.mk engine i (.passing eligible : Control W)).held := by
      rw [held_passing]
      exact pending
    obtain ⟨quantity, integral, _⟩ := (sound.admissible _ held).whole live
    rw [qty, executed.qty trade member]
    have integral : (engine.heap.order trade.order).qty = quantity := integral
    rw [integral, Rat.num_intCast]
    exact integral.symm
  rcases executed_both distinct (fun id member => sound.current id (current id member)) executed legs
    with neither | ⟨closing, closingListed, rfl, reopening, reopeningListed, own⟩
  · have unbooked : ∀ id, (∀ trade ∈ trades, trade.order ≠ id) → tradesFor batch id = [] := by
      intro id absent
      refine tradesFor_eq_nil.mpr fun booked member own => ?_
      have paired := same.subset (List.mem_map_of_mem member)
      obtain ⟨trade, listed, pair⟩ := List.mem_map.mp paired
      exact absent trade listed ((congrArg Prod.fst pair).trans own)
    exact Or.inl ⟨unbooked close fun trade member => (neither trade member).1,
      unbooked (close + 1) fun trade member => (neither trade member).2⟩
  · exact Or.inr ⟨whole closing closingListed, own ▸ whole reopening reopeningListed⟩

/-- What a step books for the two legs. -/
theorem step_both (simulators : SimpleSimulators strategy) (sound : Sound strategy p)
    {rollId : String} {close : OrderId} (legs : Legs p.order p.known rollId close)
    (step : strategy.Step p q) :
    ∃ batch, Effect strategy p q batch ∧
      ((tradesFor batch close = [] ∧ tradesFor batch (close + 1) = []) ∨
        Simulates strategy p q ∧ BookedWhole p batch close ∧ BookedWhole p batch (close + 1)) := by
  obtain ⟨batch, effect⟩ := step_effect sound step
  refine ⟨batch, effect, ?_⟩
  have quiet : q.trades = p.trades → tradesFor batch close = [] ∧ tradesFor batch (close + 1) = [] := by
    intro same
    have none : batch = [] := List.append_right_eq_self.mp (effect.trades.symm.trans same)
    rw [none]
    exact ⟨rfl, rfl⟩
  cases step with
  | @simulate engine after i eligible sim run listed =>
      rw [known_passing] at legs
      obtain ⟨batch', onward, both⟩ := simulate_both simulators listed sound legs run
      obtain rfl : batch = batch' := List.append_cancel_left (effect.trades.symm.trans onward)
      exact both.imp_right fun booked => ⟨⟨eligible, sim, listed, rfl, run⟩, booked⟩
  | @simulateFailed engine i eligible sim raised run listed =>
      exact Or.inl (quiet (congrArg Account.trades (runMarketSim_error run).1))
  | pass => exact Or.inl (quiet rfl)
  | _ =>
      -- only a pass books trades
      refine Or.inl (quiet ?_)
      have none : batch = [] := List.eq_nil_iff_forall_not_mem.mpr fun trade member => by
        obtain ⟨_, passing, _⟩ := (effect.booked trade member).eligible
        cases passing
      rw [effect.trades, none, List.append_nil]

/-- A leg for which nothing is booked keeps its quantity, and stays closed. -/
theorem leg_step (untouched : UntouchedRolls strategy p) (simulators : SimpleSimulators strategy)
    (sound : Sound strategy p) (step : strategy.Step p q) (alive : ¬ q.isFailed)
    {batch : List BookedTrade} (effect : Effect strategy p q batch) {leg : OrderId}
    (known : leg ∈ p.known) (marked : (p.order leg).rollId ≠ none)
    (unbooked : tradesFor batch leg = []) :
    (q.order leg).qty = (p.order leg).qty ∧
      ((p.order leg).isOpen = false → (q.order leg).isOpen = false) := by
  by_cases held : leg ∈ p.held
  · have moved := effect.moved leg held
    rw [fillsOf_eq_zero (tradesFor_eq_nil.mp unbooked)] at moved
    refine ⟨by rw [moved.qty, Int.cast_zero, sub_zero], fun closed => ?_⟩
    rw [Order.isOpen, (moved.closed closed).2.2]
    exact closed
  · have same := (step_keepsRolls untouched simulators step leg (sound.allocated leg known)).rollId
    have absent : leg ∉ q.held := fun again =>
      held (rolled_not_resubmitted untouched sound step known (fun none => marked (same.symm.trans none)) again)
    rw [(step_releases sound step alive known absent).untouched held]
    exact ⟨rfl, fun closed => closed⟩

theorem closed_of_booked {batch : List BookedTrade} {leg : OrderId}
    (effect : Effect strategy p q batch) (booked : BookedWhole p batch leg) :
    (q.order leg).isOpen = false ∧ (p.order leg).isOpen := by
  obtain ⟨trade, single, whole⟩ := booked
  obtain ⟨member, rfl⟩ := tradesFor_mem single
  have traded := effect.booked trade member
  have moved := effect.moved trade.orderId (current_held traded.current)
  have fill : fillsOf batch trade.orderId = trade.qty := by
    have sum : fillsOf batch trade.orderId =
        ((tradesFor batch trade.orderId).map BookedTrade.qty).sum := rfl
    rw [sum, single, List.map_singleton, List.sum_singleton]
  rw [fill] at moved
  have exhausted : (q.order trade.orderId).qty = 0 := by rw [moved.qty, whole, sub_self]
  refine ⟨?_, traded.live⟩
  rcases moved.status with ⟨zero, _⟩ | ⟨_, ⟨zero, _⟩ | cancelled | ⟨_, status⟩⟩
  · exact absurd zero traded.nonzero
  · exact absurd zero traded.nonzero
  · rw [Order.isOpen, cancelled]
    rfl
  · rw [Order.isOpen, status, if_pos exhausted]
    rfl

/-! ## A roll through a run -/

/-- Both legs of a roll await their decisions. -/
structure SubmittedRoll (p : Point W) (rollId : String) (close reopen : OrderId) : Prop where
  undecided : close ∈ p.undecided ∧ reopen ∈ p.undecided
  rollIds : (p.order close).rollId = some rollId ∧ (p.order reopen).rollId = some rollId
  rollLegs : (p.order close).rollLeg = some "close" ∧ (p.order reopen).rollLeg = some "reopen"

/-- The order has one trade, booked between `s` and `t`, for all of its quantity at `q`. -/
def FilledWhole (strategy : Strategy W) (q s t p : Point W) (id : OrderId) : Prop :=
  ∃ trade, tradesFor p.trades id = [trade] ∧ tradesFor t.trades id = [trade] ∧
    tradesFor s.trades id = [] ∧ (trade.qty : ℚ) = (q.order id).qty ∧
    trade.timestamp = strategy.timestamp s.heartbeat

/-- A leg at a later point. -/
structure LegAt (q p : Point W) (leg : OrderId) : Prop where
  known : leg ∈ p.known
  roll : SameRoll (q.order leg) (p.order leg)

theorem LegAt.onward {r : Point W} {leg : OrderId} (at_p : LegAt q p leg)
    (untouched : UntouchedRolls strategy p) (simulators : SimpleSimulators strategy)
    (sound : Sound strategy p) (step : strategy.Step p r) (alive : ¬ r.isFailed) : LegAt q r leg where
  known := step_known step sound alive at_p.known
  roll := at_p.roll.trans
    (step_keepsRolls untouched simulators step leg (sound.allocated leg at_p.known))

theorem Rolled.legs (rolled : Rolled p) {rollId : String} {close reopen : OrderId}
    (closeKnown : close ∈ p.known) (reopenKnown : reopen ∈ p.known)
    (closeId : (p.order close).rollId = some rollId)
    (reopenId : (p.order reopen).rollId = some rollId)
    (closeLeg : (p.order close).rollLeg = some "close")
    (reopenLeg : (p.order reopen).rollLeg = some "reopen") :
    Legs p.order p.known rollId close ∧ reopen = close + 1 := by
  have named : some "close" ≠ some "reopen" := by decide
  obtain ⟨_, _, first, _, _, legs, own⟩ := rolled.known close closeKnown rollId closeId
  rcases own with rfl | rfl
  · refine ⟨legs, (legs.only reopen reopenKnown reopenId).resolve_left fun same => ?_⟩
    subst same
    exact named (closeLeg.symm.trans reopenLeg)
  · exact absurd (closeLeg.symm.trans legs.reopenLeg) named

theorem SubmittedRoll.legs {rollId : String} {close reopen : OrderId}
    (submitted : SubmittedRoll q rollId close reopen) (rolled : Rolled p)
    (first : LegAt q p close) (second : LegAt q p reopen) :
    Legs p.order p.known rollId close ∧ reopen = close + 1 :=
  rolled.legs first.known second.known (first.roll.rollId.trans submitted.rollIds.1)
    (second.roll.rollId.trans submitted.rollIds.2) (first.roll.rollLeg.trans submitted.rollLegs.1)
    (second.roll.rollLeg.trans submitted.rollLegs.2)

/-- Neither leg has traded; while the run goes on both are as they were submitted. -/
structure Untraded (q p : Point W) (close reopen : OrderId) : Prop where
  closeTrades : tradesFor p.trades close = []
  reopenTrades : tradesFor p.trades reopen = []
  closeLeg : ¬ p.isFailed → LegAt q p close ∧ (p.order close).qty = (q.order close).qty
  reopenLeg : ¬ p.isFailed → LegAt q p reopen ∧ (p.order reopen).qty = (q.order reopen).qty

/-- One call has filled both legs, which are closed. -/
structure BothTraded (strategy : Strategy W) (q s t p : Point W) (close reopen : OrderId) :
    Prop where
  closeFilled : FilledWhole strategy q s t p close
  reopenFilled : FilledWhole strategy q s t p reopen
  closed : ¬ p.isFailed → ∀ leg, leg = close ∨ leg = reopen →
    LegAt q p leg ∧ (p.order leg).isOpen = false

theorem tradesFor_onward {batch : List BookedTrade} (effect : Effect strategy p q batch)
    (id : OrderId) : tradesFor q.trades id = tradesFor p.trades id ++ tradesFor batch id := by
  rw [effect.trades, tradesFor_append]

theorem BookedWhole.filled {r : Point W} {batch : List BookedTrade} {leg : OrderId}
    (effect : Effect strategy p r batch) (none : tradesFor p.trades leg = [])
    (qty : (p.order leg).qty = (q.order leg).qty) (booked : BookedWhole p batch leg) :
    FilledWhole strategy q p r r leg := by
  obtain ⟨trade, single, whole⟩ := booked
  have onward := tradesFor_onward effect leg
  rw [none, single, List.nil_append] at onward
  exact ⟨trade, onward, onward, none, whole.trans qty,
    (effect.booked trade (tradesFor_mem single).1).timestamp⟩

theorem FilledWhole.onward {s t r : Point W} {batch : List BookedTrade} {leg : OrderId}
    (filled : FilledWhole strategy q s t p leg) (effect : Effect strategy p r batch)
    (none : tradesFor batch leg = []) : FilledWhole strategy q s t r leg := by
  obtain ⟨trade, single, rest⟩ := filled
  refine ⟨trade, ?_, rest⟩
  rw [tradesFor_onward effect, single, none, List.append_nil]

section

variable {r : Point W} {rollId : String} {close reopen : OrderId}

theorem untraded_step (untouched : UntouchedRolls strategy p) (simulators : SimpleSimulators strategy)
    (submitted : SubmittedRoll q rollId close reopen) (sound : Sound strategy p) (rolled : Rolled p)
    (untraded : Untraded q p close reopen) (step : strategy.Step p r) :
    Untraded q r close reopen ∨
      Simulates strategy p r ∧ BothTraded strategy q p r r close reopen := by
  have alive : ¬ p.isFailed := fun failed => failed_final failed step
  obtain ⟨first, closeQty⟩ := untraded.closeLeg alive
  obtain ⟨second, reopenQty⟩ := untraded.reopenLeg alive
  obtain ⟨legs, rfl⟩ := submitted.legs rolled first second
  obtain ⟨batch, effect, ⟨noClose, noReopen⟩ | ⟨simulates, bookedClose, bookedReopen⟩⟩ :=
    step_both simulators sound legs step
  · have closeMarked : (p.order close).rollId ≠ none := by
      rw [legs.closeId]
      exact Option.some_ne_none _
    have reopenMarked : (p.order (close + 1)).rollId ≠ none := by
      rw [legs.reopenId]
      exact Option.some_ne_none _
    refine Or.inl ⟨?_, ?_, fun going => ?_, fun going => ?_⟩
    · rw [tradesFor_onward effect, untraded.closeTrades, noClose]
      rfl
    · rw [tradesFor_onward effect, untraded.reopenTrades, noReopen]
      rfl
    · have same := leg_step untouched simulators sound step going effect first.known closeMarked noClose
      exact ⟨first.onward untouched simulators sound step going, same.1.trans closeQty⟩
    · have same := leg_step untouched simulators sound step going effect second.known reopenMarked noReopen
      exact ⟨second.onward untouched simulators sound step going, same.1.trans reopenQty⟩
  · refine Or.inr ⟨simulates, bookedClose.filled effect untraded.closeTrades closeQty,
      bookedReopen.filled effect untraded.reopenTrades reopenQty, fun going leg own => ?_⟩
    rcases own with rfl | rfl
    · exact ⟨first.onward untouched simulators sound step going, (closed_of_booked effect bookedClose).1⟩
    · exact ⟨second.onward untouched simulators sound step going, (closed_of_booked effect bookedReopen).1⟩

theorem bothTraded_step {s t : Point W} (untouched : UntouchedRolls strategy p)
    (simulators : SimpleSimulators strategy) (submitted : SubmittedRoll q rollId close reopen)
    (sound : Sound strategy p) (rolled : Rolled p)
    (traded : BothTraded strategy q s t p close reopen) (step : strategy.Step p r) :
    BothTraded strategy q s t r close reopen := by
  have alive : ¬ p.isFailed := fun failed => failed_final failed step
  obtain ⟨first, closeClosed⟩ := traded.closed alive close (Or.inl rfl)
  obtain ⟨second, reopenClosed⟩ := traded.closed alive reopen (Or.inr rfl)
  obtain ⟨legs, rfl⟩ := submitted.legs rolled first second
  obtain ⟨batch, effect, ⟨noClose, noReopen⟩ | ⟨_, bookedClose, _⟩⟩ :=
    step_both simulators sound legs step
  · refine ⟨traded.closeFilled.onward effect noClose, traded.reopenFilled.onward effect noReopen,
      fun going leg own => ?_⟩
    obtain ⟨at_p, closed⟩ := traded.closed alive leg own
    have marked : (p.order leg).rollId ≠ none := by
      rcases own with rfl | rfl
      · rw [legs.closeId]
        exact Option.some_ne_none _
      · rw [legs.reopenId]
        exact Option.some_ne_none _
    have unbooked : tradesFor batch leg = [] := by
      rcases own with rfl | rfl
      · exact noClose
      · exact noReopen
    have same := leg_step untouched simulators sound step going effect at_p.known marked unbooked
    exact ⟨at_p.onward untouched simulators sound step going, same.2 closed⟩
  · -- a closed leg is not booked again
    have live := (closed_of_booked effect bookedClose).2
    rw [closeClosed] at live
    cases live

end

/-- The roll ids of known orders mark the two legs of one roll each, and every
roll is executed in both legs by one simulator call, or in neither. -/
theorem roll_executes_both_or_neither (strategy : Strategy W)
    (simulators : SimpleSimulators strategy) (startDate endDate : Option Timestamp) (world : W)
    (heap : Heap)
    (untouched : ∀ p ∈ strategy.trace startDate endDate world heap, UntouchedRolls strategy p) :
    let points := strategy.trace startDate endDate world heap
    (∀ (k : Nat) (p : Point W), points[k]? = some p → ∀ id ∈ p.known, ∀ rollId,
      (p.order id).rollId = some rollId →
      ∃ close reopen, close ≠ reopen ∧ (id = close ∨ id = reopen) ∧
        close ∈ p.known ∧ reopen ∈ p.known ∧
        (p.order close).rollId = some rollId ∧ (p.order reopen).rollId = some rollId ∧
        (p.order close).rollLeg = some "close" ∧ (p.order reopen).rollLeg = some "reopen" ∧
        ∀ other ∈ p.known, (p.order other).rollId = some rollId → other = close ∨ other = reopen) ∧
    ∀ (a k : Nat) (q p : Point W) (rollId : String) (close reopen : OrderId), a ≤ k →
      points[a]? = some q → points[k]? = some p → SubmittedRoll q rollId close reopen →
      (tradesFor p.trades close = [] ∧ tradesFor p.trades reopen = []) ∨
        ∃ j s t, a ≤ j ∧ j < k ∧ points[j]? = some s ∧ points[j + 1]? = some t ∧
          Simulates strategy s t ∧ FilledWhole strategy q s t p close ∧
          FilledWhole strategy q s t p reopen := by
  intro points
  obtain ⟨last, trace⟩ := Strategy.trace_steps strategy startDate endDate world heap
  refine ⟨fun k p at_k id known rollId marked => ?_,
    fun a k q p rollId close reopen ordered at_a at_k submitted => ?_⟩
  · obtain ⟨_, _, close, _, _, legs, own⟩ :=
      (trace_rolled untouched simulators at_k).known id known rollId marked
    exact ⟨close, close + 1, Nat.ne_of_lt (Nat.lt_succ_self _), own, legs.closeListed,
      legs.reopenListed, legs.closeId, legs.reopenId, legs.closeLeg, legs.reopenLeg, legs.only⟩
  · have outcome : Untraded q p close reopen ∨
        ∃ j s t, a ≤ j ∧ j < k ∧ points[j]? = some s ∧ points[j + 1]? = some t ∧
          Simulates strategy s t ∧ BothTraded strategy q s t p close reopen := by
      induction k, ordered using Nat.le_induction generalizing p with
      | base =>
          rw [at_a] at at_k
          cases at_k
          have sound := (trace_valid at_a).sound
          have rolled := trace_rolled untouched simulators at_a
          have untraded : ∀ leg ∈ q.undecided, (q.order leg).rollId = some rollId →
              tradesFor q.trades leg = [] ∧ leg ∈ q.known := by
            intro leg undecided marked
            have proposed := (sound.proposed leg (List.mem_append_right _ undecided)).1
            obtain ⟨n, index, _, now, text, _⟩ := rolled.proposed leg proposed rollId marked
            refine ⟨tradesFor_eq_nil.mpr fun trade member own => ?_, List.mem_append_right _ proposed⟩
            -- what has traded was submitted, under an earlier id
            have earlier := trace_trades_known at_a trade member
            rw [own] at earlier
            obtain ⟨m, index', _, before, text', _⟩ := rolled.submitted leg earlier rollId marked
            have same := (rollIdText_injective (text.symm.trans text')).1
            omega
          obtain ⟨closeNone, closeKnown⟩ := untraded close submitted.undecided.1 submitted.rollIds.1
          obtain ⟨reopenNone, reopenKnown⟩ := untraded reopen submitted.undecided.2 submitted.rollIds.2
          exact Or.inl ⟨closeNone, reopenNone, fun _ => ⟨⟨closeKnown, .refl _⟩, rfl⟩,
            fun _ => ⟨⟨reopenKnown, .refl _⟩, rfl⟩⟩
      | succ k le ih =>
          obtain ⟨inside, _⟩ := List.getElem?_eq_some_iff.mp at_k
          have present : points[k]? = some points[k] := List.getElem?_eq_getElem (by omega)
          have sound := (trace_valid present).sound
          have rolled := trace_rolled untouched simulators present
          have step := trace.step_at present at_k
          have untouched := untouched _ (List.getElem_mem (Nat.lt_of_succ_lt inside))
          rcases ih _ present with untraded | ⟨j, s, t, after, before, at_j, at_next, calls, traded⟩
          · rcases untraded_step untouched simulators submitted sound rolled untraded step with
              untraded | ⟨simulates, traded⟩
            · exact Or.inl untraded
            · exact Or.inr ⟨k, points[k], p, le, by omega, present, at_k, simulates, traded⟩
          · exact Or.inr ⟨j, s, t, after, by omega, at_j, at_next, calls,
              bothTraded_step untouched simulators submitted sound rolled traded step⟩
    rcases outcome with untraded | ⟨j, s, t, after, before, at_j, at_next, calls, traded⟩
    · exact Or.inl ⟨untraded.closeTrades, untraded.reopenTrades⟩
    · exact Or.inr ⟨j, s, t, after, before, at_j, at_next, calls, traded.closeFilled, traded.reopenFilled⟩

/-! ## A small roll -/

def rollNear : Contract := ⟨"ESU9", "ES", none, 50, .active⟩

def rollFar : Contract := ⟨"ESZ9", "ES", none, 50, .active⟩

def rollSetup : AccountSetup :=
  { sampleSetup with
    contractGroups := ["ES"]
    groupsNonempty := by decide
    groupsUnique := by decide
    registry := ⟨[rollNear, rollFar], by decide⟩ }

/-- Always at a hundred, without charges. -/
def rollSimulator : SimpleMarketSimulator Unit where
  components := fun _ => []
  priceFunc := fun world _ _ => (world, .ok (.real 100))
  slippage := fun _ _ => .ok (.real 0)
  commission := fun _ _ => .ok (.real 0)
  fee := fun _ _ => .ok (.real 0)
  priceRounding := 3
  postTradeFunc := none

/-- One rule, which submits the roll command at the first heartbeat. -/
def rollStrategy (riskPolicies : List (RiskPolicy Unit)) : Strategy Unit where
  setup := rollSetup
  priceFunction := fun _ _ _ => .ok (.real 100)
  tradeLag := 0
  marketSims := [rollSimulator.call rollSetup.timestamps]
  riskPolicies := riskPolicies
  ordersIter := fun _ => [⟨fun world heap _ _ i _ =>
    ([], ⟨world, heap, .ok (.sequence (if i = 0 then [some 0] else []))⟩), "ES", none⟩]
  runFinalCalc := false

def rollHeap : Heap :=
  ⟨1, fun _ => ⟨rollNear, sampleTime 0, -10, .gtc, .open, .roll rollFar (-10) 10, none, none⟩⟩

theorem rollStrategy_simple (riskPolicies : List (RiskPolicy Unit)) :
    SimpleSimulators (rollStrategy riskPolicies) := fun _ listed =>
  ⟨rollSimulator, List.mem_singleton.mp listed⟩

theorem rollStrategy_fresh {riskPolicies : List (RiskPolicy Unit)} {p : Point Unit}
    (command : (p.order 0).rollId = none) : FreshProperties (rollStrategy riskPolicies) p where
  rules := by
    intro rule listed account _
    cases List.mem_singleton.mp listed
    refine ⟨.refl _, fun id returned => ?_⟩
    have submitted : id ∈ Returned.items (.sequence (if p.heartbeat = 0 then [some 0] else [])) :=
      returned
    have own : id = 0 := by
      split at submitted
      · simpa [Returned.items] using submitted
      · cases submitted
    rw [own]
    exact command

theorem roll_executes_both_or_neither_two_legs :
    let points := (rollStrategy []).trace none none () rollHeap
    ∃ q p, points[4]? = some q ∧ points[9]? = some p ∧ SubmittedRoll q "strategy-roll:0:0" 1 2 ∧
      tradesFor p.trades 1 ≠ [] ∧
      ∃ j s t, 4 ≤ j ∧ j < 9 ∧ points[j]? = some s ∧ points[j + 1]? = some t ∧
        Simulates (rollStrategy []) s t ∧ FilledWhole (rollStrategy []) q s t p 1 ∧
        FilledWhole (rollStrategy []) q s t p 2 := by
  intro points
  have submits : (points[4]?).any fun q => (1 ∈ q.undecided ∧ 2 ∈ q.undecided) ∧
      ((q.order 1).rollId = some "strategy-roll:0:0" ∧
        (q.order 2).rollId = some "strategy-roll:0:0") ∧
      (q.order 1).rollLeg = some "close" ∧ (q.order 2).rollLeg = some "reopen" := by
    decide +kernel
  have trades : (points[9]?).any fun p => tradesFor p.trades 1 ≠ [] := by decide +kernel
  have command : points.all fun p => (p.order 0).rollId = none := by decide +kernel
  obtain ⟨q, at_q, submitted⟩ := (Option.any_eq_true _ _).mp submits
  obtain ⟨p, at_p, traded⟩ := (Option.any_eq_true _ _).mp trades
  obtain ⟨undecided, rollIds, rollLegs⟩ := of_decide_eq_true submitted
  have traded := of_decide_eq_true traded
  have outcome := (roll_executes_both_or_neither (rollStrategy []) (rollStrategy_simple [])
    none none () rollHeap fun p member => ⟨rollStrategy_fresh
      (of_decide_eq_true (List.all_eq_true.mp command p member)), fun _ listed => by cases listed⟩).2
    4 9 q p "strategy-roll:0:0" 1 2 (by decide) at_q at_p ⟨undecided, rollIds, rollLegs⟩
  exact ⟨q, p, at_q, at_p, ⟨undecided, rollIds, rollLegs⟩, traded,
    outcome.resolve_left fun neither => traded neither.1⟩

/-- Takes the roll id from every order it is asked about and accepts the sales. -/
def strippingPolicy : RiskPolicy Unit where
  name := "stripping"
  evaluate := fun world heap _ order =>
    ([], ⟨world, heap.set order { heap.order order with rollId := none },
      .ok (some (if (heap.order order).qty < 0 then .accept
        else ⟨false, "purchase", "", by decide⟩))⟩)

/-- A policy that rewrites the properties of one leg and rejects the other splits
the roll. -/
theorem policy_can_split_roll :
    let points := (rollStrategy [strippingPolicy]).trace none none () rollHeap
    SimpleSimulators (rollStrategy [strippingPolicy]) ∧
      (∀ p ∈ points, FreshProperties (rollStrategy [strippingPolicy]) p) ∧
      ∃ q p, q ∈ points ∧ p ∈ points ∧ SubmittedRoll q "strategy-roll:0:0" 1 2 ∧
        tradesFor p.trades 1 ≠ [] ∧ tradesFor p.trades 2 = [] := by
  intro points
  have submits : points.any fun q => (1 ∈ q.undecided ∧ 2 ∈ q.undecided) ∧
      ((q.order 1).rollId = some "strategy-roll:0:0" ∧
        (q.order 2).rollId = some "strategy-roll:0:0") ∧
      (q.order 1).rollLeg = some "close" ∧ (q.order 2).rollLeg = some "reopen" := by
    decide +kernel
  have trades : points.any fun p => tradesFor p.trades 1 ≠ [] ∧ tradesFor p.trades 2 = [] := by
    decide +kernel
  have command : points.all fun p => (p.order 0).rollId = none := by decide +kernel
  obtain ⟨q, at_q, submitted⟩ := List.any_eq_true.mp submits
  obtain ⟨p, at_p, traded⟩ := List.any_eq_true.mp trades
  obtain ⟨undecided, rollIds, rollLegs⟩ := of_decide_eq_true submitted
  exact ⟨rollStrategy_simple _, fun p member => rollStrategy_fresh
    (of_decide_eq_true (List.all_eq_true.mp command p member)),
    q, p, at_q, at_p, ⟨undecided, rollIds, rollLegs⟩, of_decide_eq_true traded⟩

end Gambit
