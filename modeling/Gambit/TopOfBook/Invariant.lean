import Gambit.TopOfBook.Effects

/-!
# The invariant of the replay

What holds between two events, and at every point inside one: each position
lies between zero and the target, cash and fees are nonnegative values of
their type, and an instrument's slot and the one open order it names agree.
Time enters through `clock` and `horizon`, the latest receive time and the
number of events begun.
-/

set_option autoImplicit false

namespace Gambit.TopOfBook

open FixedWidth Raising

structure RowSound (config : Config) (orders : List ReplayOrder) (i : Nat)
    (state : InstrumentState) : Prop where
  position_nonneg : 0 ≤ state.position
  position_le : state.position ≤ config.targetLots
  countdown_pos : 0 < state.countdown
  countdown_le : state.countdown ≤ config.rebalanceEvents
  busy : ∀ k, state.pending = k + 1 → ∃ order, orders[k]? = some order ∧
    order.status = .opened ∧ order.instrumentId = i ∧
    state.position + order.remaining = target config state

structure OrderSound (instruments : List InstrumentState) (clock : Int) (horizon k : Nat)
    (order : ReplayOrder) : Prop where
  id : order.id = k + 1
  sequence_lt : order.sequence < horizon
  timestampNs_nonneg : 0 ≤ order.timestampNs
  timestampNs_le : order.timestampNs ≤ clock
  remaining : 0 < order.quantity ∧ 0 ≤ order.remaining ∧ order.remaining ≤ order.quantity ∨
    order.quantity < 0 ∧ order.quantity ≤ order.remaining ∧ order.remaining ≤ 0
  opened : order.status = .opened → order.remaining ≠ 0 ∧
    ∃ state, instruments[order.instrumentId]? = some state ∧ state.pending = k + 1

structure Sound (config : Config) (clock : Int) (horizon : Nat) (now : State) : Prop where
  instruments : now.instruments.length = config.instruments
  queues : config.fifo = true → now.queues.length = now.orders.length
  unqueued : config.fifo = false → now.queues = []
  cash : 0 ≤ now.cash ∧ Fits now.cash
  fees : 0 ≤ now.totalFees ∧ Fits now.totalFees
  row : ∀ i state, now.instruments[i]? = some state → RowSound config now.orders i state
  order : ∀ k order, now.orders[k]? = some order →
    OrderSound now.instruments clock horizon k order
  queue : ∀ (k : Nat) queue, now.queues[k]? = some queue → 0 ≤ queue.ahead ∧ Fits queue.ahead

section Preservation

variable {config : Config} {clock : Int} {horizon i k : Nat} {now : State}
  {state : InstrumentState} {order : ReplayOrder}

theorem OrderSound.later {clock' : Int} {horizon' : Nat}
    (sound : OrderSound now.instruments clock horizon k order) (clockLe : clock ≤ clock')
    (horizonLe : horizon ≤ horizon') : OrderSound now.instruments clock' horizon' k order :=
  { sound with
    sequence_lt := sound.sequence_lt.trans_le horizonLe
    timestampNs_le := sound.timestampNs_le.trans clockLe }

theorem Sound.later {clock' : Int} {horizon' : Nat} (sound : Sound config clock horizon now)
    (clockLe : clock ≤ clock') (horizonLe : horizon ≤ horizon') :
    Sound config clock' horizon' now :=
  { sound with
    order := fun k order atOrder => (sound.order k order atOrder).later clockLe horizonLe }

/-- A row may change in what its order does not depend on. -/
theorem Sound.setRow {state' : InstrumentState} (sound : Sound config clock horizon now)
    (atRow : now.instruments[i]? = some state)
    (row : RowSound config now.orders i state') (same : state'.pending = state.pending) :
    Sound config clock horizon (now.setInstrument i state') := by
  refine { sound with
    instruments := (List.length_set ..).trans sound.instruments
    row := ?_
    order := ?_ }
  · intro j row' atJ
    rcases Tables.set_some atJ with ⟨rfl, rfl⟩ | ⟨_, before⟩
    · exact row
    · exact sound.row j row' before
  · intro m order' atM
    have before := sound.order m order' atM
    refine { before with opened := fun isOpen => ?_ }
    obtain ⟨left, row', atInstrument, slot⟩ := before.opened isOpen
    refine ⟨left, ?_⟩
    by_cases isRow : i = order'.instrumentId
    · subst isRow
      rw [atRow] at atInstrument
      cases atInstrument
      exact ⟨state', Tables.read_set_self atRow, same.trans slot⟩
    · exact ⟨row', (List.getElem?_set_ne isRow).trans atInstrument, slot⟩

/-- How a row and its order move together: the order stays at work, or leaves
the table. -/
structure Advance (config : Config) (k : Nat) (state : InstrumentState) (order : ReplayOrder)
    (state' : InstrumentState) (order' : ReplayOrder) : Prop where
  id : order'.id = order.id
  sequence : order'.sequence = order.sequence
  timestampNs : order'.timestampNs = order.timestampNs
  instrumentId : order'.instrumentId = order.instrumentId
  remaining : 0 < order'.quantity ∧ 0 ≤ order'.remaining ∧ order'.remaining ≤ order'.quantity ∨
    order'.quantity < 0 ∧ order'.quantity ≤ order'.remaining ∧ order'.remaining ≤ 0
  countdown : 0 < state'.countdown ∧ state'.countdown ≤ config.rebalanceEvents
  position : 0 ≤ state'.position ∧ state'.position ≤ config.targetLots
  outcome : (state'.pending = k + 1 ∧ order'.status = .opened ∧ order'.remaining ≠ 0 ∧
      state'.position + order'.remaining = target config state') ∨
    (state'.pending = 0 ∧ order'.status ≠ .opened)

theorem Sound.advance {state' : InstrumentState} {order' : ReplayOrder}
    (sound : Sound config clock horizon now) (atRow : now.instruments[i]? = some state)
    (atOrder : now.orders[k]? = some order) (slot : state.pending = k + 1)
    (advance : Advance config k state order state' order') :
    Sound config clock horizon ((now.setOrder k order').setInstrument i state') := by
  have row := sound.row i state atRow
  obtain ⟨atWork, sameOrder, _, instrument, _⟩ := row.busy k slot
  rw [atOrder] at sameOrder
  cases sameOrder
  have old := sound.order k order atOrder
  refine { sound with
    instruments := (List.length_set ..).trans sound.instruments
    queues := fun fifo => (sound.queues fifo).trans (List.length_set ..).symm
    row := ?_
    order := ?_ }
  · intro j row' atJ
    rcases Tables.set_some atJ with ⟨rfl, rfl⟩ | ⟨isRow, before⟩
    · refine
        { position_nonneg := advance.position.1
          position_le := advance.position.2
          countdown_pos := advance.countdown.1
          countdown_le := advance.countdown.2
          busy := ?_ }
      intro m slot'
      rcases advance.outcome with ⟨stays, isOpen, _, aimed⟩ | ⟨leaves, _⟩
      · have isSlot : m = k := by omega
        subst isSlot
        exact ⟨order', Tables.read_set_self atOrder, isOpen,
          advance.instrumentId.trans instrument, aimed⟩
      · omega
    · have other := sound.row j row' before
      refine { other with busy := fun m slot' => ?_ }
      obtain ⟨order'', atM, isOpen, instrument', aimed⟩ := other.busy m slot'
      have apart : k ≠ m := by
        intro isSlot
        subst isSlot
        rw [atOrder] at atM
        cases atM
        exact isRow (instrument.symm.trans instrument')
      exact ⟨order'', (List.getElem?_set_ne apart).trans atM, isOpen, instrument', aimed⟩
  · intro m order'' atM
    rcases Tables.set_some atM with ⟨rfl, rfl⟩ | ⟨isSlot, before⟩
    · refine
        { id := advance.id.trans old.id
          sequence_lt := advance.sequence ▸ old.sequence_lt
          timestampNs_nonneg := advance.timestampNs ▸ old.timestampNs_nonneg
          timestampNs_le := advance.timestampNs ▸ old.timestampNs_le
          remaining := advance.remaining
          opened := ?_ }
      intro isOpen
      rcases advance.outcome with ⟨stays, _, left, _⟩ | ⟨_, closed⟩
      · rw [advance.instrumentId, instrument]
        exact ⟨left, state', Tables.read_set_self atRow, stays⟩
      · exact absurd isOpen closed
    · have other := sound.order m order'' before
      refine { other with opened := fun isOpen => ?_ }
      obtain ⟨left, row', atInstrument, slot'⟩ := other.opened isOpen
      have apart : i ≠ order''.instrumentId := by
        intro isRow
        rw [← isRow, atRow] at atInstrument
        cases atInstrument
        omega
      exact ⟨left, row', (List.getElem?_set_ne apart).trans atInstrument, slot'⟩

theorem Sound.working {event : BookEvent} (sound : Sound config event.receiveTimeNs horizon now)
    (atRow : now.instruments[i]? = some state) (slot : state.pending = k + 1) :
    ∃ order, Working config event i k state order now := by
  have row := sound.row i state atRow
  have aims := target_bounds config state
  obtain ⟨order, atOrder, isOpen, _, aimed⟩ := row.busy k slot
  have old := sound.order k order atOrder
  exact ⟨order,
    { atRow, atOrder
      outstanding := (old.opened isOpen).1
      held := ⟨row.position_nonneg, row.position_le⟩
      aimed := by omega
      cash := sound.cash
      fees := sound.fees
      pending := slot
      id := old.id
      submitted := ⟨old.timestampNs_nonneg, old.timestampNs_le⟩ }⟩

/-- An order that leaves the table unfilled. -/
theorem Sound.retire {event : BookEvent} {status : OrderStatus}
    (sound : Sound config clock horizon now) (working : Working config event i k state order now)
    (closed : status ≠ .opened) :
    Sound config clock horizon (retired i k state order status now) := by
  have row := sound.row i state working.atRow
  refine sound.advance working.atRow working.atOrder working.pending ?_
  exact
    { id := rfl, sequence := rfl, timestampNs := rfl, instrumentId := rfl
      remaining := (sound.order k order working.atOrder).remaining
      countdown := ⟨row.countdown_pos, row.countdown_le⟩
      position := working.held
      outcome := Or.inr ⟨rfl, closed⟩ }

theorem Sound.filled {event : BookEvent} {available price : Int} {after : State}
    (sound : Sound config clock horizon now) (working : Working config event i k state order now)
    (filled : Filled config event i k state order available price now after) :
    Sound config clock horizon after := by
  cases filled with
  | nothing _ => exact sound
  | refused _ _ => exact sound.retire working (by decide)
  | executed lots fee executes =>
      have row := sound.row i state working.atRow
      have old := sound.order k order working.atOrder
      obtain ⟨_, sameOrder, isOpen, _, meets⟩ := row.busy k working.pending
      rw [working.atOrder] at sameOrder
      cases sameOrder
      have toward := executes.toward
      have within := old.remaining
      have held := working.held
      have aimed := working.aimed
      have moved : Sound config clock horizon
          ((now.setOrder k (filledOrder order lots)).setInstrument i
            (filledRow state order lots)) := by
        refine sound.advance working.atRow working.atOrder working.pending ?_
        refine
          { id := rfl, sequence := rfl, timestampNs := rfl, instrumentId := rfl
            remaining := by
              simp only [filledOrder]
              omega
            countdown := ⟨row.countdown_pos, row.countdown_le⟩
            position := by
              simp only [filledRow]
              omega
            outcome := ?_ }
        by_cases done : order.remaining - lots = 0
        · refine Or.inr ⟨if_pos done, ?_⟩
          simp only [filledOrder, if_pos done]
          decide
        · refine Or.inl ⟨(if_neg done).trans working.pending, (if_neg done).trans isOpen, done, ?_⟩
          rw [show target config (filledRow state order lots) = target config state from rfl,
            ← meets]
          simp only [filledRow, filledOrder]
          omega
      have charge : 0 ≤ fee := executes.charged ▸ feeDue_nonneg executes.notional.1
      have oldFees := sound.fees.1
      exact { moved with
        cash := executes.cash
        fees := ⟨add_nonneg oldFees charge, executes.fees⟩ }

theorem Sound.setQueue {queue' : QueueAudit} (sound : Sound config clock horizon now)
    (ahead : 0 ≤ queue'.ahead ∧ Fits queue'.ahead) :
    Sound config clock horizon (now.setQueue k queue') := by
  refine { sound with
    queues := fun fifo => (List.length_set ..).trans (sound.queues fifo)
    unqueued := fun quote => by
      rw [State.setQueue, sound.unqueued quote, List.set_nil]
    queue := ?_ }
  intro m other atM
  rcases Tables.set_some atM with ⟨_, rfl⟩ | ⟨_, before⟩
  · exact ahead
  · exact sound.queue m other before

theorem BookEvent.bidSize_fits (event : BookEvent) : Fits event.bidSize :=
  event.fits _ (by simp)

theorem BookEvent.askSize_fits (event : BookEvent) : Fits event.askSize :=
  event.fits _ (by simp)

theorem Sound.queued {event : QueueEvent} {queue : QueueAudit} {after : State}
    (sound : Sound config clock horizon now)
    (working : Working config event.book i k state order now)
    (atQueue : now.queues[k]? = some queue) (traded : 0 ≤ event.tradeSize)
    (sizes : 0 ≤ event.book.bidSize ∧ 0 ≤ event.book.askSize)
    (queued : Queued config event i k state order queue now after) :
    Sound config clock horizon after := by
  obtain ⟨aheadNonneg, aheadFits⟩ := sound.queue k queue atQueue
  cases queued with
  | travelling _ _ => exact sound
  | rejected _ _ => exact sound.retire working (by decide)
  | arrived _ _ _ =>
      refine sound.setQueue ?_
      simp only [arrivedQueue]
      split
      · exact ⟨sizes.1, event.book.bidSize_fits⟩
      · exact ⟨sizes.2, event.book.askSize_fits⟩
  | passed _ _ => exact sound
  | traded _ _ filled =>
      have consumed : Sound config clock horizon
          (now.setQueue k (consumedQueue event.tradeSize queue)) := by
        refine sound.setQueue ⟨?_, aheadFits.of_nonneg ?_ ?_⟩
        · simp only [consumedQueue]
          omega
        · simp only [consumedQueue]
          omega
        · simp only [consumedQueue]
          omega
      exact consumed.filled { working with } filled

theorem Sound.matched {seen : Observation} {after : State}
    (sound : Sound config clock horizon now)
    (sizes : 0 ≤ seen.event.bidSize ∧ 0 ≤ seen.event.askSize)
    (traded : ∀ event, seen.queueEvent = some event → 0 ≤ event.tradeSize)
    (matched : Matched config seen i now after) : Sound config clock horizon after := by
  cases matched with
  | idle _ _ _ => exact sound
  | early _ => exact sound
  | quoted k state order working _ _ filled => exact sound.filled working filled
  | queued k state order queue event working atQueue trade queued =>
      cases seen with
      | book _ => cases trade
      | queue _ =>
          cases trade
          exact sound.queued working atQueue (traded _ rfl) sizes queued

theorem Sound.flipped (sound : Sound config clock horizon now)
    (atRow : now.instruments[i]? = some state) :
    Sound config clock horizon (flipped config i state now) := by
  have row := sound.row i state atRow
  have interval := config.rebalanceEvents_pos
  cases slot : state.pending with
  | zero =>
      have kept : Sound config clock horizon (now.setInstrument i (flippedRow config state)) := by
        refine sound.setRow atRow ?_ slot.symm
        exact
          { position_nonneg := row.position_nonneg
            position_le := row.position_le
            countdown_pos := interval
            countdown_le := le_refl _
            busy := fun k taken => absurd taken (Nat.succ_ne_zero k).symm }
      unfold TopOfBook.flipped
      rw [slot]
      exact kept
  | succ k =>
      obtain ⟨order, atOrder, isOpen, instrument, aimed⟩ := row.busy k slot
      have moved : Sound config clock horizon
          ((now.setOrder k { order with status := .cancelled }).setInstrument i
            (flippedRow config state)) := by
        refine sound.advance atRow atOrder slot ?_
        exact
          { id := rfl, sequence := rfl, timestampNs := rfl, instrumentId := rfl
            remaining := (sound.order k order atOrder).remaining
            countdown := ⟨interval, le_refl _⟩
            position := ⟨row.position_nonneg, row.position_le⟩
            outcome := Or.inr ⟨rfl, OrderStatus.noConfusion⟩ }
      unfold TopOfBook.flipped
      rw [slot, cancelled, Tables.modify_eq_set atOrder]
      exact moved

theorem Sound.submitted {event : BookEvent} {quantity : Int}
    (sound : Sound config clock horizon now) (atRow : now.instruments[i]? = some state)
    (free : state.pending = 0) (isRow : event.instrumentId = i)
    (began : event.sequence < horizon)
    (received : 0 ≤ event.receiveTimeNs ∧ event.receiveTimeNs ≤ clock) (short : quantity ≠ 0)
    (way : quantity = target config state - state.position) :
    Sound config clock horizon (submitted config event i state quantity now) := by
  have row := sound.row i state atRow
  refine
    { instruments := (List.length_set ..).trans sound.instruments
      queues := ?_
      unqueued := fun quote => by
        simp only [TopOfBook.submitted, quote, Bool.false_eq_true, if_false]
        exact sound.unqueued quote
      cash := sound.cash
      fees := sound.fees
      row := ?_
      order := ?_
      queue := ?_ }
  · intro fifo
    simp only [TopOfBook.submitted, fifo, if_true, List.length_append, List.length_singleton,
      sound.queues fifo]
  · intro j row' atJ
    rcases Tables.set_some atJ with ⟨rfl, rfl⟩ | ⟨_, before⟩
    · refine { row with busy := fun k slot => ?_ }
      have isLast : k = now.orders.length := by
        simp only at slot
        omega
      subst isLast
      refine ⟨newOrder event (now.orders.length + 1) quantity, List.getElem?_concat_length, rfl,
        isRow, ?_⟩
      rw [newOrder, way]
      exact add_sub_cancel state.position (target config state)
    · have other := sound.row j row' before
      refine { other with busy := fun k slot => ?_ }
      obtain ⟨order, atOrder, rest⟩ := other.busy k slot
      exact ⟨order, Tables.read_append atOrder, rest⟩
  · intro k order atK
    rcases Tables.append_some atK with ⟨rfl, rfl⟩ | before
    · refine
        { id := rfl
          sequence_lt := began
          timestampNs_nonneg := received.1
          timestampNs_le := received.2
          remaining := by
            simp only [newOrder]
            omega
          opened := fun _ => ⟨short, ?_⟩ }
      refine ⟨{ state with pending := now.orders.length + 1 }, ?_, rfl⟩
      rw [newOrder, isRow]
      exact Tables.read_set_self atRow
    · have other := sound.order k order before
      refine { other with opened := fun isOpen => ?_ }
      obtain ⟨left, row', atInstrument, slot⟩ := other.opened isOpen
      have apart : i ≠ order.instrumentId := by
        intro same
        rw [← same, atRow] at atInstrument
        cases atInstrument
        omega
      exact ⟨left, row', (List.getElem?_set_ne apart).trans atInstrument, slot⟩
  · intro k queue atK
    have appended : k = now.queues.length ∧ queue = newQueue event quantity ∨
        now.queues[k]? = some queue := by
      by_cases fifo : config.fifo = true
      · simp only [TopOfBook.submitted, if_pos fifo] at atK
        exact Tables.append_some atK
      · simp only [TopOfBook.submitted, if_neg fifo] at atK
        exact Or.inr atK
    rcases appended with ⟨_, rfl⟩ | before
    · exact ⟨le_refl 0, fits_zero⟩
    · exact sound.queue k queue before

theorem Sound.rebalanced {event : BookEvent} {after : State}
    (sound : Sound config clock horizon now) (atRow : now.instruments[i]? = some state)
    (isRow : event.instrumentId = i) (began : event.sequence < horizon)
    (received : 0 ≤ event.receiveTimeNs ∧ event.receiveTimeNs ≤ clock)
    (rebalanced : Rebalanced config event i state now after) :
    Sound config clock horizon after := by
  have row := sound.row i state atRow
  have atFlipped : (TopOfBook.flipped config i state now).instruments[i]? =
      some (flippedRow config state) := Tables.read_set_self atRow
  cases rebalanced with
  | counting more =>
      have bounded : decrement state.countdown ≤ config.rebalanceEvents := by
        rw [decrement_eq row.countdown_pos]
        exact (Nat.sub_le ..).trans row.countdown_le
      refine sound.setRow atRow ?_ rfl
      exact { row with
        countdown_pos := Nat.pos_of_ne_zero more
        countdown_le := bounded }
  | settled _ _ => exact sound.flipped atRow
  | submitted _ quantity way short =>
      exact (sound.flipped atRow).submitted atFlipped rfl isRow began received short way

end Preservation

/-! ## Between events -/

structure Idle (config : Config) (now : State) : Prop where
  sound : Sound config now.lastReceiveTimeNs now.processed now
  fresh : now.processed = 0 → now.lastReceiveTimeNs = 0

section Events

variable {config : Config} {seen : Observation} {now after : State} {state : InstrumentState}

theorem Idle.initial (config : Config) : Idle config (initialState config) where
  sound :=
    { instruments := List.length_replicate
      queues := fun _ => rfl
      unqueued := fun _ => rfl
      cash := ⟨config.cash_nonneg, config.cash_fits⟩
      fees := ⟨le_refl 0, fits_zero⟩
      row := by
        intro i state atRow
        have isNew := List.eq_of_mem_replicate (List.mem_of_getElem? atRow)
        subst isNew
        have targetPos := config.targetLots_pos
        exact
          { position_nonneg := le_refl 0
            position_le := targetPos.le
            countdown_pos := config.rebalanceEvents_pos
            countdown_le := le_refl _
            busy := fun k taken => absurd taken (Nat.succ_ne_zero k).symm }
      order := fun k order atOrder => by cases atOrder
      queue := fun k queue atQueue => by cases atQueue }
  fresh := fun _ => rfl

theorem Idle.marked (idle : Idle config now) (checked : Checked config seen.event now)
    (atRow : now.instruments[seen.event.instrumentId]? = some state) :
    Sound config seen.event.receiveTimeNs (now.processed + 1) (marked seen.event state now) := by
  have clock : now.lastReceiveTimeNs ≤ seen.event.receiveTimeNs := by
    by_cases begun : now.processed = 0
    · rw [idle.fresh begun]
      exact checked.received
    · exact checked.ordered begun
  have sound := idle.sound.later clock (Nat.le_succ _)
  exact sound.setRow atRow { sound.row _ state atRow with } rfl

theorem Idle.observed (idle : Idle config now) (observed : Observed config seen now after) :
    Idle config after := by
  cases observed with
  | mk checked trade atRow matching atMatched rebalancing =>
      have before := idle.marked checked atRow
      have matched := before.matched checked.sizes (fun event isTrade => (trade event isTrade).size)
        matching
      have began : seen.event.sequence < now.processed + 1 := by
        rw [checked.sequence]
        exact Nat.lt_succ_self _
      have rebalanced := matched.rebalanced atMatched rfl began ⟨checked.received, le_refl _⟩
        rebalancing
      have processed := rebalancing.processed.trans matching.processed
      rw [show (TopOfBook.marked seen.event _ now).processed = now.processed from rfl] at processed
      refine { sound := ?_, fresh := fun zero => absurd zero (Nat.succ_ne_zero _) }
      simp only [closed, processed]
      exact { rebalanced with }

theorem process_yields (idle : Idle config now)
    (trade : ∀ event, seen.queueEvent = some event → TradeChecked event)
    (queued : seen.queueEvent.isSome → config.fifo = true) :
    Yields (Observed config seen now) (fun raised => Defined raised.error)
      (process config seen.event seen.queueEvent now) := by
  unfold process
  refine ((checkEvent_yields config seen.event now).raiseIn now).bind fun _ checked => ?_
  obtain ⟨state, atRow⟩ : ∃ state, now.instruments[seen.event.instrumentId]? = some state :=
    ⟨_, List.getElem?_eq_getElem checked.instrument⟩
  refine Yields.bind_of_ok (raiseIn_ok.mpr (access_of_some atRow)) ?_
  have before := idle.marked checked atRow
  have atMarked : (marked seen.event state now).instruments[seen.event.instrumentId]? =
      some { state with bid := seen.event.bid } := Tables.read_set_self atRow
  refine (matchPending_yields atMarked checked.sizes (fun k => before.working atMarked) ?_).bind
    fun matched matching => ?_
  · intro event isTrade
    refine ⟨(trade event isTrade).size, fun k slot => ?_⟩
    obtain ⟨order, working⟩ := before.working atMarked slot
    have inside := (List.getElem?_eq_some_iff.mp working.atOrder).1
    rw [← before.queues (queued (by rw [isTrade]; rfl))] at inside
    have atQueue := List.getElem?_eq_getElem inside
    exact ⟨_, atQueue, before.queue k _ atQueue⟩
  · have sound := before.matched checked.sizes
      (fun event isTrade => (trade event isTrade).size) matching
    have within : seen.event.instrumentId < matched.instruments.length := by
      rw [sound.instruments, ← idle.sound.instruments]
      exact checked.instrument
    have atMatched := List.getElem?_eq_getElem within
    have row := sound.row _ _ atMatched
    refine (rebalance_yields atMatched ⟨row.position_nonneg, row.position_le⟩ ?_).bind
      fun rebalanced rebalancing => ?_
    · intro k slot
      obtain ⟨order, atOrder, _⟩ := row.busy k slot
      exact ⟨order, atOrder⟩
    · exact Observed.mk checked trade atRow matching atMatched rebalancing

/-- A round of a batch loop does one event or raises, and is defined. -/
theorem observe_yields (idle : Idle config now)
    (queued : seen.queueEvent.isSome → config.fifo = true) :
    Yields (Observed config seen now) (fun raised => Defined raised.error)
      (observe config now seen) := by
  cases seen with
  | book event =>
      exact @process_yields config (.book event) now idle (fun _ absent => by cases absent) queued
  | queue event =>
      refine ((checkQueueEvent_yields event).raiseIn now).bind fun _ trade => ?_
      have checked : ∀ other, (Observation.queue event).queueEvent = some other →
          TradeChecked other := by
        intro other isTrade
        cases isTrade
        exact trade
      exact process_yields idle checked queued

end Events

end Gambit.TopOfBook
