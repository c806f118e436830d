import Gambit.Lib.QueueFront
import Gambit.TopOfBook.Accounting

/-!
# Queue position

In queue mode an order admitted behind some displayed size keeps a front: what
is still ahead of it and what has been filled.  Event by event the front is the
closed form in the opposing volume at its limit price.
-/

set_option autoImplicit false

namespace Gambit.TopOfBook

open FixedWidth Raising QueueFront

/-- The side of the market an order is on, whatever is left of it. -/
def ReplayOrder.buys (order : ReplayOrder) : Bool := decide (0 < order.quantity)

/-- A trade against the order at its limit price. -/
def Opposes (order : ReplayOrder) (limitPrice : Int) (event : QueueEvent) : Prop :=
  event.book.instrumentId = order.instrumentId ∧ Qualifies event order.buys limitPrice

instance (order : ReplayOrder) (limitPrice : Int) (event : QueueEvent) :
    Decidable (Opposes order limitPrice event) := by
  unfold Opposes Qualifies
  exact inferInstance

def opposingVolume (order : ReplayOrder) (limitPrice : Int) (seen : Observation) : Int :=
  match seen.queueEvent with
  | some event => if Opposes order limitPrice event then event.tradeSize else 0
  | none => 0

/-- The opposing volume since the order joined the queue. -/
def queueVolume (events : List Observation) (order : ReplayOrder) (queue : QueueAudit) : Int :=
  ((events.drop (queue.arrivalSequence + 1)).map (opposingVolume order queue.limitPrice)).sum

def sameSideSize (event : BookEvent) (buy : Bool) : Int :=
  if buy then event.bidSize else event.askSize

def sameSidePrice (event : BookEvent) (buy : Bool) : Int :=
  if buy then event.bid else event.ask

/-- Where the order joined the queue. -/
structure Joined (config : Config) (events : List Observation) (order : ReplayOrder)
    (queue : QueueAudit) (seen : Observation) : Prop where
  read : events[queue.arrivalSequence]? = some seen
  instrument : seen.event.instrumentId = order.instrumentId
  later : order.sequence < queue.arrivalSequence
  time : queue.arrivalTimeNs = seen.event.receiveTimeNs
  latency : order.timestampNs + config.latencyNs ≤ queue.arrivalTimeNs
  price : queue.limitPrice = sameSidePrice seen.event order.buys
  displayed : queue.initialAhead = sameSideSize seen.event order.buys
  nonneg : 0 ≤ queue.initialAhead

/-- An order of the queue mode and its audit record, after the events. -/
structure Placed (config : Config) (events : List Observation) (order : ReplayOrder)
    (queue : QueueAudit) : Prop where
  waiting : queue.arrivalTimeNs < 0 → order.remaining = order.quantity
  rejected : order.status = .arrivalRejected → queue.arrivalTimeNs < 0
  filled : order.status = .filled → order.remaining = 0
  joined : 0 ≤ queue.arrivalTimeNs → ∃ seen, Joined config events order queue seen
  front : 0 ≤ queue.arrivalTimeNs → order.status ≠ .cancelled → order.status ≠ .riskRejected →
    ⟨queue.ahead, |order.quantity| - |order.remaining|⟩ =
      Front.after queue.initialAhead |order.quantity| (queueVolume events order queue)

section Volumes

variable {config : Config} {events : List Observation} {seen : Observation}
  {order order' : ReplayOrder} {queue : QueueAudit}

theorem opposingVolume_nonneg (limitPrice : Int)
    (trade : ∀ event, seen.queueEvent = some event → TradeChecked event) :
    0 ≤ opposingVolume order limitPrice seen := by
  unfold opposingVolume
  split
  · next event isTrade =>
      split
      · exact (trade event isTrade).size
      · exact le_refl 0
  · exact le_refl 0

theorem opposingVolume_of_not {limitPrice : Int}
    (apart : ∀ event, seen.queueEvent = some event → ¬ Opposes order limitPrice event) :
    opposingVolume order limitPrice seen = 0 := by
  unfold opposingVolume
  split
  · next event isTrade => exact if_neg (apart event isTrade)
  · rfl

theorem opposingVolume_elsewhere {limitPrice : Int}
    (apart : seen.event.instrumentId ≠ order.instrumentId) :
    opposingVolume order limitPrice seen = 0 := by
  refine opposingVolume_of_not fun event isTrade opposes => ?_
  cases seen with
  | book _ => cases isTrade
  | queue _ =>
      cases isTrade
      exact apart opposes.1

theorem queueVolume_append (past : queue.arrivalSequence < events.length) :
    queueVolume (events ++ [seen]) order queue =
      queueVolume events order queue + opposingVolume order queue.limitPrice seen := by
  unfold queueVolume
  rw [List.drop_append_of_le_length past, List.map_append, List.sum_append, List.map_singleton,
    List.sum_singleton]

theorem queueVolume_last (last : queue.arrivalSequence = events.length) :
    queueVolume (events ++ [seen]) order queue = 0 := by
  unfold queueVolume
  rw [List.drop_of_length_le (by rw [List.length_append, List.length_singleton, last])]
  rfl

theorem queueVolume_kept (kept : OrderKept order order') :
    queueVolume events order' queue = queueVolume events order queue := by
  have opposes (event : QueueEvent) : Opposes order' queue.limitPrice event ↔
      Opposes order queue.limitPrice event := by
    unfold Opposes ReplayOrder.buys
    rw [kept.instrumentId, kept.quantity]
  have same : opposingVolume order' queue.limitPrice = opposingVolume order queue.limitPrice := by
    funext seen
    simp only [opposingVolume, opposes]
  rw [queueVolume, same]
  rfl

theorem Joined.append (joined : Joined config events order queue seen) (later : Observation) :
    Joined config (events ++ [later]) order queue seen :=
  { joined with read := Tables.read_append joined.read }

theorem Joined.kept (joined : Joined config events order queue seen)
    (kept : OrderKept order order') : Joined config events order' queue seen where
  read := joined.read
  instrument := joined.instrument.trans kept.instrumentId.symm
  later := kept.sequence ▸ joined.later
  time := joined.time
  latency := kept.timestampNs ▸ joined.latency
  price := by
    rw [ReplayOrder.buys, kept.quantity]
    exact joined.price
  displayed := by
    rw [ReplayOrder.buys, kept.quantity]
    exact joined.displayed
  nonneg := joined.nonneg

/-- A closed order, and one the event does not oppose, stays placed. -/
theorem Placed.append (placed : Placed config events order queue) (sized : order.quantity ≠ 0)
    (nonneg : 0 ≤ opposingVolume order queue.limitPrice seen)
    (idle : opposingVolume order queue.limitPrice seen = 0 ∨ order.status ≠ .opened) :
    Placed config (events ++ [seen]) order queue where
  waiting := placed.waiting
  rejected := placed.rejected
  filled := placed.filled
  joined := fun resting => by
    obtain ⟨arrival, joined⟩ := placed.joined resting
    exact ⟨arrival, joined.append seen⟩
  front := by
    intro resting uncancelled unrefused
    obtain ⟨arrival, joined⟩ := placed.joined resting
    have past := (List.getElem?_eq_some_iff.mp joined.read).1
    have front := placed.front resting uncancelled unrefused
    rw [queueVolume_append past]
    rcases idle with none | shut
    · rw [none, add_zero]
      exact front
    · have done : order.remaining = 0 := by
        cases status : order.status with
        | opened => exact absurd status shut
        | filled => exact placed.filled status
        | cancelled => exact absurd status uncancelled
        | riskRejected => exact absurd status unrefused
        | arrivalRejected => exact absurd resting (not_le.mpr (placed.rejected status))
      have sizePos : 0 < |order.quantity| := abs_pos.mpr sized
      have full := congrArg Front.filled front
      rw [done, abs_zero, sub_zero] at full
      rw [Front.after_add_of_filled sizePos nonneg full.symm]
      exact front

/-- A closed order keeps its place through a change of status. -/
theorem Placed.close {status : OrderStatus} (placed : Placed config events order queue)
    (shut : status = .cancelled ∨ status = .riskRejected) :
    Placed config events { order with status } queue where
  waiting := placed.waiting
  rejected := fun isRejected => by
    rcases shut with same | same
    · rw [same] at isRejected
      cases isRejected
    · rw [same] at isRejected
      cases isRejected
  filled := fun isFilled => by
    rcases shut with same | same
    · rw [same] at isFilled
      cases isFilled
    · rw [same] at isFilled
      cases isFilled
  joined := fun resting => by
    obtain ⟨arrival, joined⟩ := placed.joined resting
    exact ⟨arrival, joined.kept ⟨rfl, rfl, rfl, rfl, rfl⟩⟩
  front := fun _ uncancelled unrefused => by
    rcases shut with same | same
    · exact absurd same uncancelled
    · exact absurd same unrefused

end Volumes

/-! ## The order at work -/

/-- What an event of the queue mode does to the order at work and its record. -/
inductive Moved (config : Config) (event : QueueEvent) (order : ReplayOrder)
    (queue : QueueAudit) : ReplayOrder → QueueAudit → Prop
  | kept (apart : queue.arrivalTimeNs < 0 ∨ ¬ Qualifies event (isBuy order) queue.limitPrice) :
      Moved config event order queue order queue
  | rejected (waiting : queue.arrivalTimeNs < 0) :
      Moved config event order queue { order with status := .arrivalRejected } queue
  | arrived (waiting : queue.arrivalTimeNs < 0)
      (due : config.latencyNs ≤ event.book.receiveTimeNs - order.timestampNs)
      (best : ¬ ArrivalRefused event.book (isBuy order) queue.limitPrice) :
      Moved config event order queue order (arrivedQueue event.book (isBuy order) queue)
  | passed (resting : 0 ≤ queue.arrivalTimeNs)
      (qualifies : Qualifies event (isBuy order) queue.limitPrice)
      (none : event.tradeSize - min queue.ahead event.tradeSize = 0) :
      Moved config event order queue order (consumedQueue event.tradeSize queue)
  | refused (resting : 0 ≤ queue.arrivalTimeNs) :
      Moved config event order queue { order with status := .riskRejected }
        (consumedQueue event.tradeSize queue)
  | filled (lots : Int) (resting : 0 ≤ queue.arrivalTimeNs)
      (qualifies : Qualifies event (isBuy order) queue.limitPrice)
      (toward : 0 < order.remaining ∧ 0 < lots ∧ lots ≤ order.remaining ∨
        order.remaining < 0 ∧ lots < 0 ∧ order.remaining ≤ lots)
      (size : |lots| = min |order.remaining| (event.tradeSize - min queue.ahead event.tradeSize)) :
      Moved config event order queue (filledOrder order lots)
        (consumedQueue event.tradeSize queue)

section Moves

variable {config : Config} {event : QueueEvent} {i k : Nat} {state : InstrumentState}
  {order order' : ReplayOrder} {queue queue' : QueueAudit} {self after : State}
  {events : List Observation}

theorem Queued.moved (atOrder : self.orders[k]? = some order)
    (atQueue : self.queues[k]? = some queue)
    (queued : Queued config event i k state order queue self after) :
    (∃ order' queue', after.orders[k]? = some order' ∧ after.queues[k]? = some queue' ∧
      Moved config event order queue order' queue') ∧
    ∀ m, m ≠ k → after.orders[m]? = self.orders[m]? ∧ after.queues[m]? = self.queues[m]? := by
  have setOrder {order'' : ReplayOrder} := Tables.read_set_self (x := order'') atOrder
  have setQueue {queue'' : QueueAudit} := Tables.read_set_self (x := queue'') atQueue
  cases queued with
  | travelling waiting _ =>
      exact ⟨⟨order, queue, atOrder, atQueue, .kept (Or.inl waiting)⟩, fun m _ => ⟨rfl, rfl⟩⟩
  | rejected waiting _ =>
      refine ⟨⟨_, queue, setOrder, atQueue, .rejected waiting⟩, fun m apart => ⟨?_, rfl⟩⟩
      exact List.getElem?_set_ne (Ne.symm apart)
  | arrived waiting due best =>
      refine ⟨⟨order, _, atOrder, setQueue, .arrived waiting due best⟩, fun m apart => ⟨rfl, ?_⟩⟩
      exact List.getElem?_set_ne (Ne.symm apart)
  | passed _ apart =>
      exact ⟨⟨order, queue, atOrder, atQueue, .kept (Or.inr apart)⟩, fun m _ => ⟨rfl, rfl⟩⟩
  | traded resting qualifies filled =>
      have others (m : Nat) (apart : m ≠ k) :
          (self.queues.set k (consumedQueue event.tradeSize queue))[m]? = self.queues[m]? :=
        List.getElem?_set_ne (Ne.symm apart)
      cases filled with
      | nothing none =>
          exact ⟨⟨order, _, atOrder, setQueue, .passed resting qualifies none⟩,
            fun m apart => ⟨rfl, others m apart⟩⟩
      | refused _ _ =>
          refine ⟨⟨_, _, setOrder, setQueue, .refused resting⟩, fun m apart => ⟨?_, others m apart⟩⟩
          exact List.getElem?_set_ne (Ne.symm apart)
      | executed lots fee executes =>
          refine ⟨⟨_, _, setOrder, setQueue, .filled lots resting qualifies executes.toward
            executes.size⟩, fun m apart => ⟨?_, others m apart⟩⟩
          exact List.getElem?_set_ne (Ne.symm apart)

theorem OrderSound.quantity_ne {clock : Int} {horizon : Nat} {instruments : List InstrumentState}
    (sound : OrderSound instruments clock horizon k order) : order.quantity ≠ 0 := by
  have between := sound.remaining
  omega

theorem isBuy_eq_buys {clock : Int} {horizon : Nat} {instruments : List InstrumentState}
    (sound : OrderSound instruments clock horizon k order) (left : order.remaining ≠ 0) :
    isBuy order = order.buys := by
  have between := sound.remaining
  unfold isBuy ReplayOrder.buys
  rw [decide_eq_decide]
  omega

theorem Joined.consumed {seen : Observation} (joined : Joined config events order queue seen)
    (tradeSize : Int) : Joined config events order (consumedQueue tradeSize queue) seen :=
  { joined with }

/-- A qualifying trade is served to the front of the order at work. -/
theorem Placed.served (placed : Placed config events order queue)
    (isOpen : order.status = .opened) (resting : 0 ≤ queue.arrivalTimeNs)
    (opposes : Opposes order queue.limitPrice event) (traded : 0 ≤ event.tradeSize) :
    (⟨queue.ahead - min queue.ahead event.tradeSize, |order.quantity| - |order.remaining| +
        min |order.remaining| (event.tradeSize - min queue.ahead event.tradeSize)⟩ : Front) =
      Front.after queue.initialAhead |order.quantity|
        (queueVolume (events ++ [.queue event]) order (consumedQueue event.tradeSize queue)) := by
  obtain ⟨arrival, joined⟩ := placed.joined resting
  have past := (List.getElem?_eq_some_iff.mp joined.read).1
  have front := placed.front resting (by rw [isOpen]; decide) (by rw [isOpen]; decide)
  have volume : queueVolume (events ++ [.queue event]) order
      (consumedQueue event.tradeSize queue) =
      queueVolume events order queue + event.tradeSize := by
    have whole : opposingVolume order queue.limitPrice (.queue event) = event.tradeSize :=
      if_pos opposes
    have appended := @queueVolume_append events (.queue event) order queue past
    rw [whole] at appended
    exact appended
  rw [volume, ← Front.serve_after traded, ← front, Front.serve]
  have left : |order.quantity| - (|order.quantity| - |order.remaining|) = |order.remaining| := by
    omega
  rw [left]

theorem Placed.waitingOn {order' : ReplayOrder} (waiting : queue.arrivalTimeNs < 0)
    (placed : Placed config events order queue) (kept : OrderKept order order')
    (remaining : order'.remaining = order.remaining) (unfilled : order'.status ≠ .filled)
    (later : List Observation) : Placed config later order' queue where
  waiting := fun _ => by rw [remaining, kept.quantity, placed.waiting waiting]
  rejected := fun _ => waiting
  filled := fun isFilled => absurd isFilled unfilled
  joined := fun resting => by omega
  front := fun resting => by omega

/-- The step of the closed form. -/
theorem Placed.moved {clock : Int} {instruments : List InstrumentState}
    (placed : Placed config events order queue)
    (sound : OrderSound instruments clock events.length k order)
    (isOpen : order.status = .opened) (left : order.remaining ≠ 0)
    (isRow : event.book.instrumentId = order.instrumentId)
    (numbered : event.book.sequence = events.length)
    (received : 0 ≤ event.book.receiveTimeNs)
    (sizes : 0 ≤ event.book.bidSize ∧ 0 ≤ event.book.askSize) (traded : 0 ≤ event.tradeSize)
    (moved : Moved config event order queue order' queue') :
    Placed config (events ++ [.queue event]) order' queue' := by
  have side := isBuy_eq_buys sound left
  have sized := sound.quantity_ne
  have same : OrderKept order order := ⟨rfl, rfl, rfl, rfl, rfl⟩
  have unfilled : order.status ≠ .filled := by
    rw [isOpen]
    decide
  have opposes (qualifies : Qualifies event (isBuy order) queue.limitPrice) :
      Opposes order queue.limitPrice event := ⟨isRow, side ▸ qualifies⟩
  have rejoined {order' : ReplayOrder} (kept : OrderKept order order')
      (resting : 0 ≤ queue.arrivalTimeNs) : ∃ seen, Joined config (events ++ [.queue event]) order'
        (consumedQueue event.tradeSize queue) seen := by
    obtain ⟨arrival, joined⟩ := placed.joined resting
    exact ⟨arrival, ((joined.append _).kept kept).consumed _⟩
  cases moved with
  | kept apart =>
      by_cases waiting : queue.arrivalTimeNs < 0
      · exact placed.waitingOn waiting same rfl unfilled _
      · have none : opposingVolume order queue.limitPrice (.queue event) = 0 := by
          refine if_neg fun opposes => ?_
          rcases apart with waits | unqualified
          · exact waiting waits
          · exact unqualified (side ▸ opposes.2)
        exact placed.append sized none.ge (Or.inl none)
  | rejected waiting =>
      have kept : OrderKept order { order with status := .arrivalRejected } :=
        ⟨rfl, rfl, rfl, rfl, rfl⟩
      exact placed.waitingOn waiting kept rfl OrderStatus.noConfusion _
  | arrived waiting due best =>
      have isLast : (arrivedQueue event.book (isBuy order) queue).arrivalSequence = events.length :=
        numbered
      unfold ArrivalRefused at best
      rw [not_or, not_ne_iff, side] at best
      have displayed : 0 ≤ sameSideSize event.book order.buys := by
        unfold sameSideSize
        split
        · exact sizes.1
        · exact sizes.2
      refine
        { waiting := fun waits => absurd received (not_le.mpr waits)
          rejected := fun isRejected => by rw [isOpen] at isRejected; cases isRejected
          filled := fun isFilled => absurd isFilled unfilled
          joined := fun _ => ⟨.queue event, ?_⟩
          front := fun _ _ _ => ?_ }
      · exact
          { read := by rw [isLast, List.getElem?_concat_length]
            instrument := isRow
            later := by
              rw [isLast]
              exact sound.sequence_lt
            time := rfl
            latency := by
              simp only [arrivedQueue]
              omega
            price := best.1
            displayed := by
              rw [← side]
              rfl
            nonneg := by
              rw [← side] at displayed
              exact displayed }
      · rw [queueVolume_last isLast, placed.waiting waiting, sub_self, side]
        exact (Front.after_zero displayed (abs_nonneg _)).symm
  | passed resting qualifies none =>
      have served := placed.served isOpen resting (opposes qualifies) traded
      have nonneg := abs_nonneg order.remaining
      have untouched : min |order.remaining| (event.tradeSize - min queue.ahead event.tradeSize) = 0 := by
        omega
      rw [untouched, add_zero] at served
      exact
        { waiting := fun waits => absurd resting (not_le.mpr waits)
          rejected := fun isRejected => by rw [isOpen] at isRejected; cases isRejected
          filled := fun isFilled => absurd isFilled unfilled
          joined := fun _ => rejoined same resting
          front := fun _ _ _ => served }
  | refused resting =>
      exact
        { waiting := fun waits => absurd resting (not_le.mpr waits)
          rejected := fun isRejected => by cases isRejected
          filled := fun isFilled => by cases isFilled
          joined := fun _ => rejoined ⟨rfl, rfl, rfl, rfl, rfl⟩ resting
          front := fun _ _ unrefused => absurd rfl unrefused }
  | filled lots resting qualifies toward size =>
      have served := placed.served isOpen resting (opposes qualifies) traded
      have kept : OrderKept order (filledOrder order lots) := ⟨rfl, rfl, rfl, rfl, rfl⟩
      have taken : |order.remaining - lots| = |order.remaining| - |lots| := by
        rcases toward with ⟨buy, positive, within⟩ | ⟨sell, negative, within⟩
        · rw [abs_of_nonneg (by omega), abs_of_pos buy, abs_of_pos positive]
        · rw [abs_of_nonpos (by omega), abs_of_neg sell, abs_of_neg negative]
          omega
      refine
        { waiting := fun waits => absurd resting (not_le.mpr waits)
          rejected := fun isRejected => ?_
          filled := fun isFilled => ?_
          joined := fun _ => rejoined kept resting
          front := fun _ _ _ => ?_ }
      · simp only [filledOrder, isOpen] at isRejected
        split at isRejected
        · cases isRejected
        · cases isRejected
      · simp only [filledOrder, isOpen] at isFilled ⊢
        split at isFilled
        · next done => exact done
        · cases isFilled
      · rw [queueVolume_kept kept]
        have front := served
        rw [← size] at front
        have amount : |(filledOrder order lots).quantity| - |(filledOrder order lots).remaining| =
            |order.quantity| - |order.remaining| + |lots| := by
          simp only [filledOrder]
          rw [taken]
          ring
        rw [amount]
        exact front

end Moves

/-! ## Every order -/

def Queueing (config : Config) (events : List Observation) (now : State) : Prop :=
  ∀ (k : Nat) order queue, now.orders[k]? = some order → now.queues[k]? = some queue →
    Placed config events order queue

section Queue

variable {config : Config} {event : QueueEvent} {i : Nat} {state : InstrumentState}
  {self now after : State} {events : List Observation}

theorem Matched.queue_cases
    (matched : Matched config (.queue event) i self after) :
    (∃ state, self.instruments[i]? = some state ∧ state.pending = 0 ∧ after = self) ∨
    ∃ k state order queue, Working config event.book i k state order self ∧
      self.queues[k]? = some queue ∧ Queued config event i k state order queue self after := by
  cases matched with
  | idle state atRow free => exact Or.inl ⟨state, atRow, free, rfl⟩
  | early quote => cases quote
  | quoted _ _ _ _ quote _ _ => cases quote
  | queued k state order queue event working atQueue trade queued =>
      cases trade
      exact Or.inr ⟨k, state, order, queue, working, atQueue, queued⟩

theorem Rebalanced.queue_cases {book : BookEvent} {k : Nat} {queue : QueueAudit}
    (rebalanced : Rebalanced config book i state self after)
    (read : after.queues[k]? = some queue) :
    self.queues[k]? = some queue ∨ config.fifo = true ∧
      k = self.queues.length ∧ ∃ quantity, queue = newQueue book quantity := by
  cases rebalanced with
  | counting _ => exact Or.inl read
  | settled _ _ => exact Or.inl read
  | submitted _ quantity _ _ =>
      simp only [TopOfBook.submitted] at read
      split at read
      · next fifo =>
          rcases Tables.append_some read with ⟨isLast, isNew⟩ | old
          · exact Or.inr ⟨fifo, isLast, quantity, isNew⟩
          · exact Or.inl old
      · exact Or.inl read

/-- No open order but the one at work can meet the event. -/
theorem Sound.elsewhere {clock limitPrice : Int} {horizon k : Nat} {order : ReplayOrder}
    (sound : Sound config clock horizon self)
    (atRow : self.instruments[event.book.instrumentId]? = some state)
    (apart : state.pending ≠ k + 1) (atOrder : self.orders[k]? = some order) :
    opposingVolume order limitPrice (.queue event) = 0 ∨ order.status ≠ .opened := by
  by_cases same : event.book.instrumentId = order.instrumentId
  · refine Or.inr fun isOpen => ?_
    obtain ⟨_, row, atInstrument, slot⟩ := (sound.order k order atOrder).opened isOpen
    rw [← same, atRow] at atInstrument
    cases atInstrument
    exact apart slot
  · exact Or.inl (opposingVolume_elsewhere same)

/-- Matching keeps every order placed, the one at work by its move. -/
theorem Queueing.matched (queueing : Queueing config events self)
    (sound : Sound config event.book.receiveTimeNs (events.length + 1) self)
    (earlier : ∀ (k : Nat) order, self.orders[k]? = some order → order.sequence < events.length)
    (numbered : event.book.sequence = events.length) (received : 0 ≤ event.book.receiveTimeNs)
    (sizes : 0 ≤ event.book.bidSize ∧ 0 ≤ event.book.askSize) (trade : TradeChecked event)
    (atRow : self.instruments[event.book.instrumentId]? = some state)
    (matched : Matched config (.queue event) event.book.instrumentId self after) :
    Queueing config (events ++ [.queue event]) after := by
  have nonneg (order : ReplayOrder) (limitPrice : Int) :
      0 ≤ opposingVolume order limitPrice (.queue event) :=
    opposingVolume_nonneg limitPrice fun _ isTrade => by cases isTrade; exact trade
  rcases matched.queue_cases with ⟨row, atSelf, free, rfl⟩ |
    ⟨k, row, order, queue, working, atQueue, queued⟩
  · intro m other audit atOther atAudit
    have old := sound.order m other atOther
    refine (queueing m other audit atOther atAudit).append old.quantity_ne (nonneg _ _) ?_
    exact sound.elsewhere atSelf (by omega) atOther
  · obtain ⟨⟨order', queue', atOrder', atQueue', moved⟩, others⟩ :=
      queued.moved working.atOrder atQueue
    obtain ⟨_, atOpen, isOpen, instrument, _⟩ :=
      (sound.row _ row working.atRow).busy k working.pending
    rw [working.atOrder] at atOpen
    cases atOpen
    intro m other audit atOther atAudit
    by_cases isSlot : m = k
    · subst isSlot
      rw [atOrder'] at atOther
      rw [atQueue'] at atAudit
      cases atOther
      cases atAudit
      have old := { sound.order m order working.atOrder with
        sequence_lt := earlier m order working.atOrder }
      exact (queueing m order queue working.atOrder atQueue).moved old isOpen working.outstanding
        instrument.symm numbered received sizes trade.size moved
    · obtain ⟨sameOrder, sameQueue⟩ := others m isSlot
      rw [sameOrder] at atOther
      rw [sameQueue] at atAudit
      have old := sound.order m other atOther
      refine (queueing m other audit atOther atAudit).append old.quantity_ne (nonneg _ _) ?_
      refine sound.elsewhere working.atRow ?_ atOther
      rw [working.pending]
      omega

theorem Queueing.rebalanced {book : BookEvent} (queueing : Queueing config events self)
    (lengths : self.queues.length = self.orders.length)
    (rebalanced : Rebalanced config book i state self after) : Queueing config events after := by
  intro k order queue atOrder atQueue
  have audit := rebalanced.queue_cases atQueue
  rcases rebalanced.order_cases atOrder with
    ⟨old, _⟩ | ⟨_, _, before, old, rfl⟩ | ⟨_, isLast, quantity, _, _, rfl⟩
  · have inside := (List.getElem?_eq_some_iff.mp old).1
    rcases audit with kept | ⟨_, isLast, _⟩
    · exact queueing k order queue old kept
    · omega
  · have inside := (List.getElem?_eq_some_iff.mp old).1
    rcases audit with kept | ⟨_, isLast, _⟩
    · exact (queueing k before queue old kept).close (Or.inl rfl)
    · omega
  · rcases audit with kept | ⟨_, _, _, rfl⟩
    · have inside := (List.getElem?_eq_some_iff.mp kept).1
      omega
    · have waiting (quantity : Int) : ¬ 0 ≤ (newQueue book quantity).arrivalTimeNs :=
        of_decide_eq_false rfl
      exact
        { waiting := fun _ => rfl
          rejected := fun isRejected => by cases isRejected
          filled := fun isFilled => by cases isFilled
          joined := fun resting => absurd resting (waiting _)
          front := fun resting => absurd resting (waiting _) }

theorem Queueing.observed (queueing : Queueing config events now) (idle : Idle config now)
    (numbered : now.processed = events.length) (fifo : config.fifo = true)
    (observed : Observed config (.queue event) now after) :
    Queueing config (events ++ [.queue event]) after := by
  cases observed with
  | @mk state row matched rebalanced checked trade atRow matching atMatched rebalancing =>
      have before := idle.marked checked atRow
      have sound := before.matched checked.sizes
        (fun event isTrade => (trade event isTrade).size) matching
      have earlier (k : Nat) (order : ReplayOrder)
          (atOrder : (marked event.book state now).orders[k]? = some order) :
          order.sequence < events.length :=
        numbered ▸ (idle.sound.order k order atOrder).sequence_lt
      have number : event.book.sequence = events.length := checked.sequence.trans numbered
      have atMarked : (marked event.book state now).instruments[event.book.instrumentId]? =
          some { state with bid := event.book.bid } := Tables.read_set_self atRow
      have unmarked : Queueing config events (marked event.book state now) := queueing
      have placed := unmarked.matched (numbered ▸ before) earlier number checked.received
        checked.sizes (trade event rfl) atMarked matching
      have all : Queueing config (events ++ [.queue event]) rebalanced :=
        placed.rebalanced (sound.queues fifo) rebalancing
      exact all

theorem Replayed.queueing (replayed : Replayed config events now) (fifo : config.fifo = true) :
    Queueing config events now := by
  refine (replayed.induction (P := fun events now => Queueing config events now ∧
    now.processed = events.length) ⟨?_, rfl⟩ ?_).1.1
  · intro k order queue atOrder
    cases atOrder
  intro events seen now after idle holds suited observed
  refine ⟨?_, ?_⟩
  · cases seen with
    | book _ =>
        rw [fifo] at suited
        cases suited
    | queue event => exact holds.1.observed idle holds.2 fifo observed
  · rw [observed.sequence.2, holds.2, List.length_append, List.length_singleton]

end Queue

theorem OrderSound.abs_filled {clock : Int} {horizon k : Nat} {instruments : List InstrumentState}
    {order : ReplayOrder} (sound : OrderSound instruments clock horizon k order) :
    |order.quantity - order.remaining| = |order.quantity| - |order.remaining| := by
  rcases sound.remaining with ⟨positive, nonneg, below⟩ | ⟨negative, above, nonpos⟩
  · rw [abs_of_nonneg (by omega), abs_of_pos positive, abs_of_nonneg nonneg]
  · rw [abs_of_nonpos (by omega), abs_of_neg negative, abs_of_nonpos nonpos]
    omega

/-- Until an admitted order is cancelled or refused by risk, what is ahead of it
and what has been filled are functions of the displayed size it joined behind
and of the opposing volume at its limit price since. -/
theorem queue_position_closed_form {arguments : Arguments} {config : Config}
    {backtester : Backtester} (built : construct arguments = .ok (config, backtester))
    (fifo : config.fifo = true) (history : List Attempt)
    (running : (attempts config backtester history).2.failed = false) {k : Nat}
    {order : ReplayOrder} {queue : QueueAudit}
    (atOrder : (attempts config backtester history).2.state.orders[k]? = some order)
    (atQueue : (attempts config backtester history).2.state.queues[k]? = some queue)
    (admitted : 0 ≤ queue.arrivalTimeNs) (uncancelled : order.status ≠ .cancelled)
    (unrefused : order.status ≠ .riskRejected) :
    (∃ arrival, Joined config (fed config history) order queue arrival) ∧
      queue.ahead =
        max 0 (queue.initialAhead - queueVolume (fed config history) order queue) ∧
      |filledOf order.id (attempts config backtester history).2.state.fills| =
        min |order.quantity|
          (max 0 (queueVolume (fed config history) order queue - queue.initialAhead)) := by
  have isFresh := construct_ok built
  subst isFresh
  have replayed := fresh_replayed history running
  have placed := replayed.queueing fifo k order queue atOrder atQueue
  have front := placed.front admitted uncancelled unrefused
  have sound := replayed.idle.sound.order k order atOrder
  have filled := replayed.recomputed.order order (List.mem_of_getElem? atOrder)
  refine ⟨placed.joined admitted, congrArg Front.ahead front, ?_⟩
  rw [← filled, sound.abs_filled]
  exact congrArg Front.filled front

/-! A trade of six lots against an order that joined behind five. -/

def fifoArguments : Arguments :=
  { marketArguments with rebalanceEvents := 3, executionModel := "fifo" }

def fifoConfig : Config where
  toArguments := fifoArguments
  accepted := by decide

def soldQuote (sequence : Nat) (sold : Bool) : QueueEvent where
  book := steadyQuote sequence
  tradePrice := if sold then 99 else 0
  tradeSize := if sold then 6 else 0
  aggressor := if sold then -1 else 0
  reserved := 0
  fits := by cases sold <;> decide

def fifoHistory : List Attempt :=
  [⟨.processQueueBatch ⟨1, true, (List.range 4).map fun sequence => soldQuote sequence false⟩, true⟩,
   ⟨.processQueueBatch ⟨1, true, [soldQuote 4 true]⟩, true⟩]

theorem fifo_built : construct fifoArguments = .ok (fifoConfig, fresh fifoConfig) := rfl

theorem queue_position_closed_form_past_front :
    (∃ arrival, Joined fifoConfig (fed fifoConfig fifoHistory)
        ⟨1, 2, 0, 3, 2, 0, .opened⟩ ⟨99, 0, 5, 3, 0⟩ arrival) ∧
      (0 : Int) = max 0 (5 - queueVolume (fed fifoConfig fifoHistory)
        ⟨1, 2, 0, 3, 2, 0, .opened⟩ ⟨99, 0, 5, 3, 0⟩) ∧
      |filledOf 1 (attempts fifoConfig (fresh fifoConfig) fifoHistory).2.state.fills| =
        min |3| (max 0 (queueVolume (fed fifoConfig fifoHistory)
          ⟨1, 2, 0, 3, 2, 0, .opened⟩ ⟨99, 0, 5, 3, 0⟩ - 5)) :=
  @queue_position_closed_form fifoArguments fifoConfig (fresh fifoConfig) fifo_built
    (by decide +kernel) fifoHistory (by decide +kernel) 0 ⟨1, 2, 0, 3, 2, 0, .opened⟩
    ⟨99, 0, 5, 3, 0⟩ (by decide +kernel) (by decide +kernel) (by decide) (by decide) (by decide)

end Gambit.TopOfBook
