import Gambit.TopOfBook.Histories

/-!
# What an event leaves alone

Matching changes one row and one order and may append one fill; a signal step
changes one row and appends or closes orders.  Every account of the replay is
kept along these two frames.
-/

set_option autoImplicit false

namespace Gambit.TopOfBook

open FixedWidth Raising

/-! ## Rows and orders -/

structure OrderKept (before after : ReplayOrder) : Prop where
  id : after.id = before.id
  sequence : after.sequence = before.sequence
  timestampNs : after.timestampNs = before.timestampNs
  quantity : after.quantity = before.quantity
  instrumentId : after.instrumentId = before.instrumentId

structure RowKept (before after : InstrumentState) : Prop where
  bid : after.bid = before.bid
  countdown : after.countdown = before.countdown
  targetLong : after.targetLong = before.targetLong

/-- Matching neither signals nor marks, and opens no order. -/
structure Steady (before after : State) : Prop where
  row : ∀ (j : Nat) row', after.instruments[j]? = some row' →
    ∃ row, before.instruments[j]? = some row ∧ RowKept row row'
  order : ∀ (k : Nat) order', after.orders[k]? = some order' →
    ∃ order, before.orders[k]? = some order ∧ OrderKept order order' ∧
      (order'.status = .opened → order.status = .opened)
  length : after.orders.length = before.orders.length

section Frames

variable {config : Config} {seen : Observation} {event : BookEvent} {i k : Nat}
  {state state' : InstrumentState} {order order' : ReplayOrder} {queue : QueueAudit}
  {self after : State}

theorem Steady.refl (self : State) : Steady self self where
  row := fun _ row read => ⟨row, read, rfl, rfl, rfl⟩
  order := fun _ order read => ⟨order, read, ⟨rfl, rfl, rfl, rfl, rfl⟩, id⟩
  length := rfl

theorem Steady.of_tables (atRow : self.instruments[i]? = some state)
    (atOrder : self.orders[k]? = some order) (rowKept : RowKept state state')
    (orderKept : OrderKept order order')
    (opens : order'.status = .opened → order.status = .opened)
    (rows : after.instruments = self.instruments.set i state')
    (orders : after.orders = self.orders.set k order') : Steady self after where
  row := by
    intro j row' read
    rw [rows] at read
    rcases Tables.set_some read with ⟨rfl, rfl⟩ | ⟨_, before⟩
    · exact ⟨state, atRow, rowKept⟩
    · exact ⟨row', before, rfl, rfl, rfl⟩
  order := by
    intro m other read
    rw [orders] at read
    rcases Tables.set_some read with ⟨rfl, rfl⟩ | ⟨_, before⟩
    · exact ⟨order, atOrder, orderKept, opens⟩
    · exact ⟨other, before, ⟨rfl, rfl, rfl, rfl, rfl⟩, id⟩
  length := by rw [orders, List.length_set]

theorem Steady.retired {status : OrderStatus} (atRow : self.instruments[i]? = some state)
    (atOrder : self.orders[k]? = some order) (closed : status ≠ .opened) :
    Steady self (retired i k state order status self) := by
  have rowKept : RowKept state { state with pending := 0 } := ⟨rfl, rfl, rfl⟩
  have orderKept : OrderKept order { order with status } := ⟨rfl, rfl, rfl, rfl, rfl⟩
  exact .of_tables atRow atOrder rowKept orderKept
    (fun isOpen => absurd isOpen closed) rfl rfl

theorem Filled.steady {available price : Int} (atRow : self.instruments[i]? = some state)
    (atOrder : self.orders[k]? = some order)
    (filled : Filled config event i k state order available price self after) :
    Steady self after := by
  cases filled with
  | nothing _ => exact .refl self
  | refused _ _ => exact .retired atRow atOrder OrderStatus.noConfusion
  | executed lots fee _ =>
      have orderKept : OrderKept order (filledOrder order lots) := ⟨rfl, rfl, rfl, rfl, rfl⟩
      have rowKept : RowKept state (filledRow state order lots) := ⟨rfl, rfl, rfl⟩
      refine .of_tables atRow atOrder rowKept orderKept ?_ rfl rfl
      intro isOpen
      simp only [filledOrder] at isOpen
      split at isOpen
      · cases isOpen
      · exact isOpen

theorem Matched.steady (matched : Matched config seen i self after) : Steady self after := by
  cases matched with
  | idle _ _ _ => exact .refl self
  | early _ => exact .refl self
  | quoted k state order working _ _ filled =>
      exact filled.steady working.atRow working.atOrder
  | queued k state order queue event working _ _ queued =>
      cases queued with
      | travelling _ _ => exact .refl self
      | rejected _ _ =>
          exact .retired working.atRow working.atOrder OrderStatus.noConfusion
      | arrived _ _ _ => exact { Steady.refl self with }
      | passed _ _ => exact .refl self
      | traded _ _ filled =>
          have atRow : (self.setQueue k (consumedQueue event.tradeSize queue)).instruments[i]? =
              some state := working.atRow
          have inner := filled.steady atRow working.atOrder
          exact { inner with }

/-- The rows after a signal step: the event's own counted down or flipped. -/
theorem Rebalanced.row_cases (rebalanced : Rebalanced config event i state self after) {j : Nat}
    {row' : InstrumentState} (read : after.instruments[j]? = some row') :
    j = i ∧ row'.position = state.position ∧ row'.bid = state.bid ∧
        (decrement state.countdown ≠ 0 ∧ row'.countdown = decrement state.countdown ∧
            row'.targetLong = state.targetLong ∧ row'.pending = state.pending ∨
          decrement state.countdown = 0 ∧ row'.countdown = config.rebalanceEvents ∧
            row'.targetLong = !state.targetLong) ∨
      j ≠ i ∧ self.instruments[j]? = some row' := by
  cases rebalanced with
  | counting more =>
      rcases Tables.set_some read with ⟨rfl, rfl⟩ | ⟨apart, before⟩
      · exact Or.inl ⟨rfl, rfl, rfl, Or.inl ⟨more, rfl, rfl, rfl⟩⟩
      · exact Or.inr ⟨Ne.symm apart, before⟩
  | settled due _ =>
      rcases Tables.set_some read with ⟨rfl, rfl⟩ | ⟨apart, before⟩
      · exact Or.inl ⟨rfl, rfl, rfl, Or.inr ⟨due, rfl, rfl⟩⟩
      · exact Or.inr ⟨Ne.symm apart, before⟩
  | submitted due quantity _ _ =>
      rcases Tables.set_some read with ⟨rfl, rfl⟩ | ⟨apart, before⟩
      · exact Or.inl ⟨rfl, rfl, rfl, Or.inr ⟨due, rfl, rfl⟩⟩
      · rcases Tables.set_some before with ⟨rfl, rfl⟩ | ⟨_, first⟩
        · exact absurd rfl apart
        · exact Or.inr ⟨Ne.symm apart, first⟩

theorem cancelled_some {pending : Nat} {orders : List ReplayOrder}
    (read : (cancelled pending orders)[k]? = some order') :
    orders[k]? = some order' ∧ pending ≠ k + 1 ∨
      pending = k + 1 ∧ ∃ order, orders[k]? = some order ∧
        order' = { order with status := .cancelled } := by
  cases pending with
  | zero => exact Or.inl ⟨read, (Nat.succ_ne_zero k).symm⟩
  | succ m =>
      simp only [cancelled] at read
      by_cases same : m = k
      · subst same
        rw [List.getElem?_modify_eq] at read
        obtain ⟨order, atOrder, isOrder⟩ := Option.map_eq_some_iff.mp read
        exact Or.inr ⟨rfl, order, atOrder, isOrder.symm⟩
      · rw [List.getElem?_modify_ne _ _ same] at read
        exact Or.inl ⟨read, by omega⟩

theorem length_cancelled (pending : Nat) (orders : List ReplayOrder) :
    (cancelled pending orders).length = orders.length := by
  cases pending with
  | zero => rfl
  | succ m => exact List.length_modify ..

/-- The orders after a signal step: as they were, cancelled, or new. -/
theorem Rebalanced.order_cases (rebalanced : Rebalanced config event i state self after)
    (read : after.orders[k]? = some order') :
    self.orders[k]? = some order' ∧
        (decrement state.countdown = 0 → state.pending ≠ k + 1) ∨
      (decrement state.countdown = 0 ∧ state.pending = k + 1 ∧
        ∃ order, self.orders[k]? = some order ∧ order' = { order with status := .cancelled }) ∨
      (decrement state.countdown = 0 ∧ k = self.orders.length ∧
        ∃ quantity, quantity = target config (flippedRow config state) - state.position ∧
          quantity ≠ 0 ∧ order' = newOrder event (k + 1) quantity) := by
  have kept (due : decrement state.countdown = 0)
      (old : (cancelled state.pending self.orders)[k]? = some order') :
      self.orders[k]? = some order' ∧
          (decrement state.countdown = 0 → state.pending ≠ k + 1) ∨
        (decrement state.countdown = 0 ∧ state.pending = k + 1 ∧
          ∃ order, self.orders[k]? = some order ∧
            order' = { order with status := .cancelled }) := by
    rcases cancelled_some old with ⟨before, apart⟩ | ⟨same, closed⟩
    · exact Or.inl ⟨before, fun _ => apart⟩
    · exact Or.inr ⟨due, same, closed⟩
  cases rebalanced with
  | counting more => exact Or.inl ⟨read, fun due => absurd due more⟩
  | settled due _ =>
      rcases kept due read with old | closed
      · exact Or.inl old
      · exact Or.inr (Or.inl closed)
  | submitted due quantity way short =>
      rcases Tables.append_some read with ⟨isLast, isNew⟩ | old
      · simp only [flipped, length_cancelled] at isLast isNew
        refine Or.inr (Or.inr ⟨due, isLast, quantity, way, short, ?_⟩)
        rw [isLast]
        exact isNew
      · rcases kept due old with old | closed
        · exact Or.inl old
        · exact Or.inr (Or.inl closed)

end Frames

/-! ## Fills -/

/-- Nothing has been bought or sold. -/
structure Unfilled (before after : State) : Prop where
  row : ∀ (j : Nat) row', after.instruments[j]? = some row' →
    ∃ row, before.instruments[j]? = some row ∧ row'.position = row.position
  order : ∀ (k : Nat) order', after.orders[k]? = some order' →
    ∃ order, before.orders[k]? = some order ∧ OrderKept order order' ∧
      order'.remaining = order.remaining
  fills : after.fills = before.fills
  cash : after.cash = before.cash
  totalFees : after.totalFees = before.totalFees

/-- Where the lots of a fill come from: the displayed quote, or the part of an
opposing trade that passes the queue. -/
inductive Offer (config : Config) (seen : Observation) (k : Nat) (order : ReplayOrder)
    (self : State) : Int → Int → State → Prop
  | quote (isQuote : seen.queueEvent = none)
      (due : config.latencyNs ≤ seen.event.receiveTimeNs - order.timestampNs) :
      Offer config seen k order self (opposingSize seen.event (isBuy order))
        (opposingPrice seen.event (isBuy order)) self
  | trade (event : QueueEvent) (queue : QueueAudit) (isTrade : seen.queueEvent = some event)
      (atQueue : self.queues[k]? = some queue) (resting : 0 ≤ queue.arrivalTimeNs)
      (qualifies : Qualifies event (isBuy order) queue.limitPrice) :
      Offer config seen k order self (event.tradeSize - min queue.ahead event.tradeSize)
        queue.limitPrice (self.setQueue k (consumedQueue event.tradeSize queue))

inductive Exchange (config : Config) (seen : Observation) (i : Nat) (self : State) : State → Prop
  | none {after : State} (unfilled : Unfilled self after) : Exchange config seen i self after
  | some (k : Nat) (state : InstrumentState) (order : ReplayOrder) {available price : Int}
      {base : State} (working : Working config seen.event i k state order self)
      (offer : Offer config seen k order self available price base) (lots fee : Int)
      (executes : Executes config order available price base lots fee) :
      Exchange config seen i self (executed seen.event i k state order lots price fee base)

section Fills

variable {config : Config} {seen : Observation} {event : BookEvent} {i k : Nat}
  {state : InstrumentState} {order : ReplayOrder} {available price : Int} {self base after : State}

theorem Unfilled.of_same (rows : after.instruments = self.instruments)
    (orders : after.orders = self.orders) (fills : after.fills = self.fills)
    (cash : after.cash = self.cash) (totalFees : after.totalFees = self.totalFees) :
    Unfilled self after where
  row := fun _ row read => ⟨row, rows ▸ read, rfl⟩
  order := fun _ order read => ⟨order, orders ▸ read, ⟨rfl, rfl, rfl, rfl, rfl⟩, rfl⟩
  fills := fills
  cash := cash
  totalFees := totalFees

theorem Unfilled.refl (self : State) : Unfilled self self := .of_same rfl rfl rfl rfl rfl

theorem Unfilled.retired {status : OrderStatus} (atRow : self.instruments[i]? = some state)
    (atOrder : self.orders[k]? = some order) :
    Unfilled self (retired i k state order status self) where
  row := by
    intro j row' read
    rcases Tables.set_some read with ⟨rfl, rfl⟩ | ⟨_, before⟩
    · exact ⟨state, atRow, rfl⟩
    · exact ⟨row', before, rfl⟩
  order := by
    intro m order' read
    rcases Tables.set_some read with ⟨rfl, rfl⟩ | ⟨_, before⟩
    · exact ⟨order, atOrder, ⟨rfl, rfl, rfl, rfl, rfl⟩, rfl⟩
    · exact ⟨order', before, ⟨rfl, rfl, rfl, rfl, rfl⟩, rfl⟩
  fills := rfl
  cash := rfl
  totalFees := rfl

theorem Unfilled.trans (first : Unfilled self base) (second : Unfilled base after) :
    Unfilled self after where
  row := by
    intro j row' read
    obtain ⟨middle, atBase, position⟩ := second.row j row' read
    obtain ⟨row, before, same⟩ := first.row j middle atBase
    exact ⟨row, before, position.trans same⟩
  order := by
    intro m order' read
    obtain ⟨middle, atBase, kept, remaining⟩ := second.order m order' read
    obtain ⟨order, before, keptFirst, same⟩ := first.order m middle atBase
    exact ⟨order, before,
      ⟨kept.id.trans keptFirst.id, kept.sequence.trans keptFirst.sequence,
        kept.timestampNs.trans keptFirst.timestampNs, kept.quantity.trans keptFirst.quantity,
        kept.instrumentId.trans keptFirst.instrumentId⟩, remaining.trans same⟩
  fills := second.fills.trans first.fills
  cash := second.cash.trans first.cash
  totalFees := second.totalFees.trans first.totalFees

theorem Offer.unfilled (offer : Offer config seen k order self available price base) :
    Unfilled self base ∧ base.instruments = self.instruments ∧ base.orders = self.orders := by
  cases offer with
  | quote _ _ => exact ⟨.refl self, rfl, rfl⟩
  | trade _ _ _ _ _ _ => exact ⟨.of_same rfl rfl rfl rfl rfl, rfl, rfl⟩

theorem Filled.exchange (working : Working config seen.event i k state order self)
    (offer : Offer config seen k order self available price base)
    (filled : Filled config seen.event i k state order available price base after) :
    Exchange config seen i self after := by
  obtain ⟨unfilled, rows, orders⟩ := offer.unfilled
  cases filled with
  | nothing _ => exact .none unfilled
  | refused _ _ =>
      have atRow : base.instruments[i]? = some state := rows ▸ working.atRow
      have atOrder : base.orders[k]? = some order := orders ▸ working.atOrder
      exact .none (unfilled.trans (.retired atRow atOrder))
  | executed lots fee executes => exact .some k state order working offer lots fee executes

theorem Matched.exchange (matched : Matched config seen i self after) :
    Exchange config seen i self after := by
  cases matched with
  | idle _ _ _ => exact .none (.refl self)
  | early _ => exact .none (.refl self)
  | quoted k state order working quote due filled =>
      exact filled.exchange working (.quote quote due)
  | queued k state order queue event working atQueue trade queued =>
      have isEvent : event.book = seen.event := by
        cases seen with
        | book _ => cases trade
        | queue _ =>
            cases trade
            rfl
      cases queued with
      | travelling _ _ => exact .none (.refl self)
      | rejected _ _ => exact .none (.retired working.atRow working.atOrder)
      | arrived _ _ _ => exact .none (.of_same rfl rfl rfl rfl rfl)
      | passed _ _ => exact .none (.refl self)
      | traded resting qualifies filled =>
          rw [isEvent] at filled
          exact filled.exchange working (.trade event queue trade atQueue resting qualifies)

/-- A signal step buys and sells nothing; what it adds to the orders is new. -/
theorem Rebalanced.unfilled (rebalanced : Rebalanced config event i state self after)
    (atRow : self.instruments[i]? = some state) :
    after.fills = self.fills ∧ after.cash = self.cash ∧ after.totalFees = self.totalFees ∧
      (∀ (j : Nat) row', after.instruments[j]? = some row' →
        ∃ row, self.instruments[j]? = some row ∧ row'.position = row.position) ∧
      ∀ (k : Nat) order', after.orders[k]? = some order' →
        (∃ order, self.orders[k]? = some order ∧ OrderKept order order' ∧
          order'.remaining = order.remaining) ∨
        (k = self.orders.length ∧ ∃ quantity, order' = newOrder event (k + 1) quantity) := by
  have books : after.fills = self.fills ∧ after.cash = self.cash ∧
      after.totalFees = self.totalFees := by
    cases rebalanced with
    | counting _ => exact ⟨rfl, rfl, rfl⟩
    | settled _ _ => exact ⟨rfl, rfl, rfl⟩
    | submitted _ _ _ _ => exact ⟨rfl, rfl, rfl⟩
  refine ⟨books.1, books.2.1, books.2.2, ?_, ?_⟩
  · intro j row' read
    rcases rebalanced.row_cases read with ⟨rfl, position, _, _⟩ | ⟨_, kept⟩
    · exact ⟨state, atRow, position⟩
    · exact ⟨row', kept, rfl⟩
  · intro k order' read
    rcases rebalanced.order_cases read with
      ⟨old, _⟩ | ⟨_, _, order, old, rfl⟩ | ⟨_, isLast, quantity, _, _, isNew⟩
    · exact Or.inl ⟨order', old, ⟨rfl, rfl, rfl, rfl, rfl⟩, rfl⟩
    · exact Or.inl ⟨order, old, ⟨rfl, rfl, rfl, rfl, rfl⟩, rfl⟩
    · exact Or.inr ⟨isLast, quantity, isNew⟩

theorem Rebalanced.length_le (rebalanced : Rebalanced config event i state self after) :
    self.orders.length ≤ after.orders.length := by
  cases rebalanced with
  | counting _ => exact le_refl _
  | settled _ _ => exact (length_cancelled ..).ge
  | submitted _ _ _ _ =>
      simp only [TopOfBook.submitted, flipped, List.length_append, length_cancelled]
      omega

end Fills

end Gambit.TopOfBook
