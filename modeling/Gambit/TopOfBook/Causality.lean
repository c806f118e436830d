import Gambit.TopOfBook.QueuePosition

/-!
# No look-ahead

A fill is made at a later event than its order, from what that event shows,
and never more than one an event.  The fills up to some event are a function
of the events up to it, and a refused event ends the run for good.
-/

set_option autoImplicit false

namespace Gambit.TopOfBook

open FixedWidth Raising

/-- The size an event offers to a side of the market. -/
def offered (seen : Observation) (buy : Bool) : Int :=
  match seen.queueEvent with
  | some event => event.tradeSize
  | none => opposingSize seen.event buy

/-- The event a fill was made at. -/
structure RecordedAt (events : List Observation) (fill : ReplayFill) (seen : Observation) :
    Prop where
  read : events[fill.sequence]? = some seen
  sequence : seen.event.sequence = fill.sequence
  instrument : seen.event.instrumentId = fill.instrumentId
  time : seen.event.receiveTimeNs = fill.timestampNs
  size : 0 < |fill.quantity| ∧ |fill.quantity| ≤ offered seen (decide (0 < fill.quantity))

structure FillTimed (config : Config) (events : List Observation) (now : State)
    (fill : ReplayFill) : Prop where
  logged : 0 < fill.orderId ∧ fill.orderId ≤ now.orders.length
  recorded : ∃ seen, RecordedAt events fill seen
  order : ∀ order, now.orders[fill.orderId - 1]? = some order →
    order.sequence < fill.sequence ∧
      order.timestampNs + config.latencyNs ≤ fill.timestampNs
  queue : ∀ queue, now.queues[fill.orderId - 1]? = some queue →
    0 ≤ queue.arrivalTimeNs ∧ queue.arrivalSequence < fill.sequence

structure Timed (config : Config) (events : List Observation) (now : State) : Prop where
  single : now.fills.Pairwise fun fill later => fill.sequence < later.sequence
  each : ∀ fill ∈ now.fills, FillTimed config events now fill

section Step

variable {config : Config} {events : List Observation} {seen : Observation} {i : Nat}
  {now self after : State}

/-- No event was received after the last one. -/
theorem Replayed.clock (replayed : Replayed config events now) :
    ∀ seen ∈ events, seen.event.receiveTimeNs ≤ now.lastReceiveTimeNs := by
  refine (replayed.induction (P := fun events now => (∀ seen ∈ events,
    seen.event.receiveTimeNs ≤ now.lastReceiveTimeNs) ∧ now.processed = events.length) ⟨?_, rfl⟩
    ?_).1.1
  · intro seen absent
    cases absent
  · intro events seen now after _ holds _ observed
    refine ⟨?_, ?_⟩
    · cases observed with
      | mk checked _ _ _ _ _ =>
          intro other member
          rcases List.mem_append.mp member with old | new
          · have begun : now.processed ≠ 0 := by
              rw [holds.2]
              exact (List.length_pos_of_mem old).ne'
            exact (holds.1 other old).trans (checked.ordered begun)
          · rw [List.mem_singleton.mp new]
            exact le_refl _
    · rw [observed.sequence.2, holds.2, List.length_append, List.length_singleton]

/-- An audit record that has arrived keeps its arrival. -/
theorem Matched.arrival {m : Nat} {queue' : QueueAudit} (matched : Matched config seen i self after)
    (read : after.queues[m]? = some queue') :
    ∃ queue, self.queues[m]? = some queue ∧ (0 ≤ queue.arrivalTimeNs →
      queue'.arrivalTimeNs = queue.arrivalTimeNs ∧
        queue'.arrivalSequence = queue.arrivalSequence) := by
  have same (kept : after.queues = self.queues) :
      ∃ queue, self.queues[m]? = some queue ∧ (0 ≤ queue.arrivalTimeNs →
        queue'.arrivalTimeNs = queue.arrivalTimeNs ∧
          queue'.arrivalSequence = queue.arrivalSequence) :=
    ⟨queue', kept ▸ read, fun _ => ⟨rfl, rfl⟩⟩
  cases matched with
  | idle _ _ _ => exact same rfl
  | early _ => exact same rfl
  | quoted k state order _ _ _ filled => exact same filled.frame.2
  | queued k state order queue event _ atQueue _ queued =>
      cases queued with
      | travelling _ _ => exact same rfl
      | rejected _ _ => exact same rfl
      | passed _ _ => exact same rfl
      | arrived waiting _ _ =>
          rcases Tables.set_some read with ⟨rfl, rfl⟩ | ⟨_, before⟩
          · exact ⟨queue, atQueue, fun resting => by omega⟩
          · exact ⟨queue', before, fun _ => ⟨rfl, rfl⟩⟩
      | traded _ _ filled =>
          rw [filled.frame.2] at read
          rcases Tables.set_some read with ⟨rfl, rfl⟩ | ⟨_, before⟩
          · exact ⟨queue, atQueue, fun _ => ⟨rfl, rfl⟩⟩
          · exact ⟨queue', before, fun _ => ⟨rfl, rfl⟩⟩

/-- An order after the event was there before it, as it was made, or is new. -/
theorem Observed.order_cases {k : Nat} {order' : ReplayOrder}
    (observed : Observed config seen now after) (read : after.orders[k]? = some order') :
    (∃ order, now.orders[k]? = some order ∧ OrderKept order order') ∨
      k = now.orders.length ∧ ∃ quantity, order' = newOrder seen.event (k + 1) quantity := by
  cases observed with
  | @mk _ _ matched _ _ _ _ matching _ rebalancing =>
      have length : matched.orders.length = now.orders.length := matching.steady.length
      rcases rebalancing.order_cases read with
        ⟨kept, _⟩ | ⟨_, _, order, kept, rfl⟩ | ⟨_, isLast, quantity, _, _, isNew⟩
      · obtain ⟨order, before, same, _⟩ := matching.steady.order k order' kept
        exact Or.inl ⟨order, before, same⟩
      · obtain ⟨first, before, same, _⟩ := matching.steady.order k order kept
        exact Or.inl ⟨first, before, { same with }⟩
      · exact Or.inr ⟨isLast.trans length, quantity, isNew⟩

theorem Observed.order_back {k : Nat} {order' : ReplayOrder}
    (observed : Observed config seen now after) (old : k < now.orders.length)
    (read : after.orders[k]? = some order') :
    ∃ order, now.orders[k]? = some order ∧ OrderKept order order' := by
  rcases observed.order_cases read with before | ⟨isLast, _⟩
  · exact before
  · omega

theorem Observed.arrival {k : Nat} {queue' : QueueAudit} (idle : Idle config now)
    (observed : Observed config seen now after) (old : k < now.orders.length)
    (read : after.queues[k]? = some queue') :
    ∃ queue, now.queues[k]? = some queue ∧ (0 ≤ queue.arrivalTimeNs →
      queue'.arrivalTimeNs = queue.arrivalTimeNs ∧
        queue'.arrivalSequence = queue.arrivalSequence) := by
  cases observed with
  | @mk _ _ matched _ checked trade atRow matching _ rebalancing =>
      have sound := (idle.marked checked atRow).matched checked.sizes
        (fun event isTrade => (trade event isTrade).size) matching
      have length : matched.orders.length = now.orders.length := matching.steady.length
      rcases rebalancing.queue_cases read with kept | ⟨fifo, isLast, _⟩
      · exact matching.arrival kept
      · have lengths := sound.queues fifo
        omega

/-- The one fill an event may make. -/
structure Traded (config : Config) (seen : Observation) (now : State) (k : Nat)
    (order : ReplayOrder) (fill : ReplayFill) : Prop where
  atOrder : now.orders[k]? = some order
  id : order.id = k + 1
  orderId : fill.orderId = k + 1
  sequence : fill.sequence = seen.event.sequence
  timestampNs : fill.timestampNs = seen.event.receiveTimeNs
  instrumentId : fill.instrumentId = seen.event.instrumentId
  size : 0 < |fill.quantity| ∧ |fill.quantity| ≤ offered seen (decide (0 < fill.quantity))
  source : seen.queueEvent = none ∧
      order.timestampNs + config.latencyNs ≤ seen.event.receiveTimeNs ∨
    seen.queueEvent.isSome = true ∧
      ∃ queue, now.queues[k]? = some queue ∧ 0 ≤ queue.arrivalTimeNs

theorem Offer.covers {available price lots : Int} {k : Nat} {order : ReplayOrder}
    {base : State} {fee : Int} (offer : Offer config seen k order self available price base)
    (executes : Executes config order available price base lots fee)
    (ahead : ∀ (m : Nat) queue, self.queues[m]? = some queue → 0 ≤ queue.ahead)
    (trade : ∀ event, seen.queueEvent = some event → TradeChecked event) :
    |lots| ≤ offered seen (decide (0 < lots)) ∧
      (seen.queueEvent = none ∧
          order.timestampNs + config.latencyNs ≤ seen.event.receiveTimeNs ∨
        seen.queueEvent.isSome = true ∧
          ∃ queue, self.queues[k]? = some queue ∧ 0 ≤ queue.arrivalTimeNs) := by
  have within := executes.size.le.trans (min_le_right ..)
  have side : isBuy order = decide (0 < lots) := by
    have toward := executes.toward
    unfold isBuy
    rw [decide_eq_decide]
    omega
  cases offer with
  | quote isQuote due =>
      refine ⟨?_, Or.inl ⟨isQuote, by omega⟩⟩
      rw [offered, isQuote, ← side]
      exact within
  | trade event queue isTrade atQueue resting qualifies =>
      have nonneg := ahead k queue atQueue
      have size := (trade event isTrade).size
      refine ⟨?_, Or.inr ⟨by rw [isTrade]; rfl, queue, atQueue, resting⟩⟩
      rw [offered, isTrade]
      exact within.trans (sub_le_self _ (le_min nonneg size))

/-- An event makes one fill or none. -/
theorem Observed.fills_cases (idle : Idle config now) (observed : Observed config seen now after) :
    after.fills = now.fills ∨
      ∃ k order fill, after.fills = now.fills ++ [fill] ∧
        Traded config seen now k order fill := by
  cases observed with
  | mk checked trade atRow matching atMatched rebalancing =>
      have fills := (rebalancing.unfilled atMatched).1
      cases matching.exchange with
      | none unfilled => exact Or.inl (fills.trans unfilled.fills)
      | @some k state order available price base working offer lots fee executes =>
          refine Or.inr ⟨k, order, recordedFill seen.event order lots price fee,
            fills.trans ?_, ?_⟩
          · simp only [executed]
            rw [offer.unfilled.1.fills]
            rfl
          · obtain ⟨size, source⟩ := offer.covers executes
              (fun m queue read => (idle.sound.queue m queue read).1) trade
            have moved : 0 < |lots| := abs_pos.mpr (by have toward := executes.toward; omega)
            exact
              { atOrder := working.atOrder, id := working.id, orderId := working.id
                sequence := rfl, timestampNs := rfl, instrumentId := rfl
                size := ⟨moved, size⟩, source }

theorem Observed.length_le (observed : Observed config seen now after) :
    now.orders.length ≤ after.orders.length := by
  cases observed with
  | @mk _ _ matched _ _ _ _ matching _ rebalancing =>
      have length : matched.orders.length = now.orders.length := matching.steady.length
      have onward := rebalancing.length_le
      rw [length] at onward
      exact onward

theorem FillTimed.observed {fill : ReplayFill} (timed : FillTimed config events now fill)
    (idle : Idle config now) (observed : Observed config seen now after) :
    FillTimed config (events ++ [seen]) after fill where
  logged := ⟨timed.logged.1, timed.logged.2.trans observed.length_le⟩
  recorded := by
    obtain ⟨other, recorded⟩ := timed.recorded
    exact ⟨other, { recorded with read := Tables.read_append recorded.read }⟩
  order := by
    intro order' read
    have logged := timed.logged
    obtain ⟨order, before, kept⟩ := observed.order_back (by omega) read
    rw [kept.sequence, kept.timestampNs]
    exact timed.order order before
  queue := by
    intro queue' read
    have logged := timed.logged
    obtain ⟨queue, before, arrival⟩ := observed.arrival idle (by omega) read
    obtain ⟨resting, earlier⟩ := timed.queue queue before
    obtain ⟨time, sequence⟩ := arrival resting
    rw [time, sequence]
    exact ⟨resting, earlier⟩

/-- The fill of an event is later than its order, by the latency at least. -/
theorem Traded.timed {k : Nat} {order : ReplayOrder} {fill : ReplayFill}
    (traded : Traded config seen now k order fill) (replayed : Replayed config events now)
    (suited : seen.queueEvent.isSome = config.fifo) (observed : Observed config seen now after) :
    FillTimed config (events ++ [seen]) after fill := by
  have idle := replayed.idle
  have numbered := replayed.numbered.1
  have sequence := observed.sequence.1
  have inside := (List.getElem?_eq_some_iff.mp traded.atOrder).1
  have old := idle.sound.order k order traded.atOrder
  have slot : fill.orderId - 1 = k := by rw [traded.orderId, Nat.add_sub_cancel]
  refine
    { logged := ⟨by rw [traded.orderId]; omega, ?_⟩
      recorded := ⟨seen, ?_⟩
      order := ?_
      queue := ?_ }
  · rw [traded.orderId]
    exact inside.trans_le observed.length_le
  · exact
      { read := by
          rw [traded.sequence, sequence, numbered]
          exact List.getElem?_concat_length
        sequence := traded.sequence.symm
        instrument := traded.instrumentId.symm
        time := traded.timestampNs.symm
        size := traded.size }
  · intro order' read
    rw [slot] at read
    obtain ⟨first, before, kept⟩ := observed.order_back inside read
    rw [traded.atOrder] at before
    cases before
    rw [kept.sequence, kept.timestampNs, traded.sequence, traded.timestampNs, sequence]
    refine ⟨old.sequence_lt, ?_⟩
    rcases traded.source with ⟨_, due⟩ | ⟨isTrade, queue, atQueue, resting⟩
    · exact due
    · -- The latency had passed when the order joined, and no event is older.
      have placed := replayed.queueing (suited ▸ isTrade) k order queue traded.atOrder atQueue
      obtain ⟨arrival, joined⟩ := placed.joined resting
      have earlier := replayed.clock arrival (List.mem_of_getElem? joined.read)
      have received : now.lastReceiveTimeNs ≤ seen.event.receiveTimeNs := by
        cases observed with
        | mk checked _ _ _ _ _ =>
            refine checked.ordered ?_
            rw [numbered]
            exact (List.length_pos_of_mem (List.mem_of_getElem? joined.read)).ne'
      have latency := joined.latency
      have time := joined.time
      omega
  · intro queue' read
    rw [slot] at read
    obtain ⟨queue, before, arrival⟩ := observed.arrival idle inside read
    rcases traded.source with ⟨quote, _⟩ | ⟨isTrade, other, atQueue, resting⟩
    · have mode : config.fifo = false := by
        rw [← suited, quote]
        rfl
      rw [idle.sound.unqueued mode] at before
      cases before
    · rw [atQueue] at before
      cases before
      obtain ⟨time, same⟩ := arrival resting
      have placed := replayed.queueing (suited ▸ isTrade) k order queue traded.atOrder atQueue
      obtain ⟨seen', joined⟩ := placed.joined resting
      have past := (List.getElem?_eq_some_iff.mp joined.read).1
      rw [time, same, traded.sequence, sequence, numbered]
      exact ⟨resting, past⟩

theorem Timed.observed (timed : Timed config events now) (replayed : Replayed config events now)
    (suited : seen.queueEvent.isSome = config.fifo) (observed : Observed config seen now after) :
    Timed config (events ++ [seen]) after := by
  have old (fill : ReplayFill) (member : fill ∈ now.fills) :=
    (timed.each fill member).observed replayed.idle observed
  rcases observed.fills_cases replayed.idle with same | ⟨k, order, fill, appended, traded⟩
  · refine { single := ?_, each := ?_ }
    · rw [same]
      exact timed.single
    · rw [same]
      exact old
  · have new := traded.timed replayed suited observed
    refine { single := ?_, each := ?_ }
    · rw [appended, List.pairwise_append]
      refine ⟨timed.single, List.pairwise_singleton .., fun first member last isLast => ?_⟩
      obtain ⟨seen', recorded⟩ := (timed.each first member).recorded
      have past := (List.getElem?_eq_some_iff.mp recorded.read).1
      rw [List.mem_singleton.mp isLast, traded.sequence, observed.sequence.1, replayed.numbered.1]
      exact past
    · rw [appended]
      exact List.forall_mem_append.mpr ⟨old, List.forall_mem_singleton.mpr new⟩

theorem Replayed.timed (replayed : Replayed config events now) : Timed config events now := by
  have along : Timed config events now ∧ Replayed config events now := by
    refine foldlM_ok (P := fun done now => Timed config done now ∧ Replayed config done now) ?_
      ⟨⟨.nil, fun fill absent => by cases absent⟩, Replayed.start config⟩ replayed.run
    intro done seen now after onward holds step
    have suited := replayed.suited seen (onward.subset (by simp))
    have observed := observed_of_ok holds.2.idle suited step
    refine ⟨holds.1.observed holds.2 suited observed, @Replayed.onward _ _ [seen] _ _ holds.2 ?_ ?_⟩
    · exact fun other isSeen => List.mem_singleton.mp isSeen ▸ suited
    · rw [List.foldlM_cons, step]
      rfl
  exact along.1

end Step

/-! ## Two runs, and failed ones -/

section Runs

variable {config : Config} {done later events : List Observation} {now middle : State}

/-- The event an order was made at. -/
theorem Replayed.created (replayed : Replayed config events now) :
    ∀ (k : Nat) order, now.orders[k]? = some order → ∃ seen, events[order.sequence]? = some seen ∧
      seen.event.receiveTimeNs = order.timestampNs ∧
      seen.event.instrumentId = order.instrumentId := by
  refine (replayed.induction (P := fun events now => (∀ (k : Nat) order,
    now.orders[k]? = some order → ∃ seen, events[order.sequence]? = some seen ∧
      seen.event.receiveTimeNs = order.timestampNs ∧
      seen.event.instrumentId = order.instrumentId) ∧ now.processed = events.length)
    ⟨?_, rfl⟩ ?_).1.1
  · intro k order absent
    cases absent
  · intro events seen now after _ holds _ observed
    refine ⟨?_, ?_⟩
    · intro k order' read
      rcases observed.order_cases read with ⟨order, before, kept⟩ | ⟨_, quantity, rfl⟩
      · obtain ⟨other, at_event, time, instrument⟩ := holds.1 k order before
        rw [kept.sequence, kept.timestampNs, kept.instrumentId]
        exact ⟨other, Tables.read_append at_event, time, instrument⟩
      · refine ⟨seen, ?_, rfl, rfl⟩
        rw [newOrder, observed.sequence.1, holds.2]
        exact List.getElem?_concat_length
    · rw [observed.sequence.2, holds.2, List.length_append, List.length_singleton]

/-- Later events add later fills and change none. -/
theorem Replayed.fills_stable (replayed : Replayed config done middle)
    (suited : ∀ seen ∈ later, seen.queueEvent.isSome = config.fifo)
    (run : later.foldlM (observe config) middle = .ok now) :
    (now.fills.filter fun fill => fill.sequence < done.length) = middle.fills := by
  have along : Replayed config (done ++ later) now ∧
      (now.fills.filter fun fill => fill.sequence < done.length) = middle.fills := by
    refine foldlM_ok (P := fun more now => Replayed config (done ++ more) now ∧
      (now.fills.filter fun fill => fill.sequence < done.length) = middle.fills) ?_ ⟨?_, ?_⟩ run
    · intro more seen now after onward holds step
      have fits := suited seen (onward.subset (by simp))
      have observed := observed_of_ok holds.1.idle fits step
      have next : Replayed config ((done ++ more) ++ [seen]) after := by
        refine @Replayed.onward _ _ [seen] _ _ holds.1 ?_ ?_
        · exact fun other isSeen => List.mem_singleton.mp isSeen ▸ fits
        · rw [List.foldlM_cons, step]
          rfl
      rw [List.append_assoc] at next
      refine ⟨next, ?_⟩
      rcases observed.fills_cases holds.1.idle with same | ⟨k, order, fill, appended, traded⟩
      · rw [same]
        exact holds.2
      · have late : ¬ fill.sequence < done.length := by
          rw [traded.sequence, observed.sequence.1, holds.1.numbered.1, List.length_append]
          omega
        rw [appended, List.filter_append, holds.2, List.filter_singleton, decide_eq_false late,
          cond_false, List.append_nil]
    · rw [List.append_nil]
      exact replayed
    · refine List.filter_eq_self.mpr fun fill member => decide_eq_true ?_
      obtain ⟨seen, recorded⟩ := (replayed.timed.each fill member).recorded
      exact (List.getElem?_eq_some_iff.mp recorded.read).1
  exact along.2

/-- The fills before event `n` are those of a replay that stops there. -/
theorem Replayed.fills_before (replayed : Replayed config events now) (n : Nat) :
    ∃ middle, Replayed config (events.take n) middle ∧
      (now.fills.filter fun fill => fill.sequence < n) = middle.fills := by
  have run := replayed.run
  rw [← List.take_append_drop n events, List.foldlM_append, bind_ok] at run
  obtain ⟨middle, first, rest⟩ := run
  have start : Replayed config (events.take n) middle :=
    ⟨fun seen member => replayed.suited seen (List.mem_of_mem_take member), first⟩
  have stable := start.fills_stable
    (fun seen member => replayed.suited seen (List.mem_of_mem_drop member)) rest
  refine ⟨middle, start, ?_⟩
  rw [← stable]
  refine List.filter_congr fun fill member => decide_eq_decide.mpr ?_
  obtain ⟨seen, recorded⟩ := (replayed.timed.each fill member).recorded
  have past := (List.getElem?_eq_some_iff.mp recorded.read).1
  rw [List.length_take]
  omega

/-- What was filled up to event `s` depends on the events up to `s` alone. -/
theorem Replayed.fills_causal {other : List Observation} {now' : State} {s : Nat}
    (replayed : Replayed config events now) (replayed' : Replayed config other now')
    (agree : (events.filter fun seen => seen.event.sequence ≤ s) =
      other.filter fun seen => seen.event.sequence ≤ s) :
    (now.fills.filter fun fill => fill.sequence ≤ s) =
      now'.fills.filter fun fill => fill.sequence ≤ s := by
  simp only [← Nat.lt_succ_iff] at agree ⊢
  rw [Tables.filter_key_lt_eq_take replayed.numbered.2,
    Tables.filter_key_lt_eq_take replayed'.numbered.2] at agree
  obtain ⟨middle, first, fills⟩ := replayed.fills_before (s + 1)
  obtain ⟨middle', first', fills'⟩ := replayed'.fills_before (s + 1)
  have same := first.run
  rw [agree, first'.run] at same
  cases same
  rw [fills, fills']

/-- The loop of the call comes to an event and refuses it. -/
def EventRefused (config : Config) (self : Backtester) (made : Attempt) : Prop :=
  self.failed = false ∧ ∃ done seen rest now raised,
    made.fed config = done ++ seen :: rest ∧
      done.foldlM (observe config) self.state = .ok now ∧
      observe config now seen = .error raised

theorem attempts_append (config : Config) (self : Backtester) (before rest : List Attempt) :
    (attempts config self (before ++ rest)).1 =
        (attempts config self before).1 ++
          (attempts config (attempts config self before).2 rest).1 ∧
      (attempts config self before).1.length = before.length := by
  induction before generalizing self with
  | nil => exact ⟨rfl, rfl⟩
  | cons made before ih =>
      obtain ⟨replies, length⟩ := ih (attempt config self made).2
      refine ⟨?_, ?_⟩
      · simp only [List.cons_append, attempts]
        exact congrArg (_ :: ·) replies
      · simp only [attempts, List.length_cons, length]

theorem EventRefused.halts {self : Backtester} {made : Attempt}
    (refused : EventRefused config self made) (idle : self.failed = false → Idle config self.state) :
    (attempt config self made).2.failed = true ∧
      ∃ error, (attempt config self made).1 = .error error := by
  obtain ⟨running, done, seen, rest, now, raised, fed, first, stops⟩ := refused
  have run : (made.fed config).foldlM (observe config) self.state = .error raised := by
    rw [fed, List.foldlM_append, first]
    change (seen :: rest).foldlM (observe config) now = .error raised
    rw [List.foldlM_cons, stops]
    rfl
  obtain ⟨failed, reply⟩ := (attempt_answered self made idle).halted running raised run
  exact ⟨failed, _, reply⟩

theorem failed_refuses {self : Backtester} (failed : self.failed = true)
    (history : List Attempt) :
    ∀ reply ∈ (attempts config self history).1, ∃ error, reply = .error error := by
  have replayed : self.failed = false → Replayed config [] self.state := by
    intro running
    rw [failed] at running
    cases running
  exact ((attempts_replayed replayed history).2.1 failed).2

end Runs

/-- Every fill is later than its order and no larger than what its event shows. -/
structure NoLookAhead (config : Config) (events : List Observation) (now : State) : Prop where
  later : ∀ fill ∈ now.fills, ∃ order ∈ now.orders, order.id = fill.orderId ∧
    order.sequence < fill.sequence ∧
      order.timestampNs + config.latencyNs ≤ fill.timestampNs
  created : ∀ order ∈ now.orders, ∃ seen, events[order.sequence]? = some seen ∧
    seen.event.receiveTimeNs = order.timestampNs ∧ seen.event.instrumentId = order.instrumentId
  arrived : config.fifo = true → ∀ fill ∈ now.fills, ∃ queue,
    now.queues[fill.orderId - 1]? = some queue ∧ 0 ≤ queue.arrivalTimeNs ∧
      queue.arrivalSequence < fill.sequence
  single : now.fills.Pairwise fun fill later => fill.sequence < later.sequence
  recorded : ∀ fill ∈ now.fills, ∃ seen, RecordedAt events fill seen

theorem Replayed.noLookAhead {config : Config} {events : List Observation} {now : State}
    (replayed : Replayed config events now) : NoLookAhead config events now := by
  have timed := replayed.timed
  have sound := replayed.idle.sound
  refine
    { later := ?_, created := ?_, arrived := ?_, single := timed.single
      recorded := fun fill member => (timed.each fill member).recorded }
  · intro fill member
    have each := timed.each fill member
    have logged := each.logged
    obtain ⟨order, read⟩ : ∃ order, now.orders[fill.orderId - 1]? = some order :=
      ⟨_, List.getElem?_eq_getElem (by omega)⟩
    have id := (sound.order _ order read).id
    exact ⟨order, List.mem_of_getElem? read, by omega, each.order order read⟩
  · intro order member
    obtain ⟨k, read⟩ := List.mem_iff_getElem?.mp member
    exact replayed.created k order read
  · intro fifo fill member
    have each := timed.each fill member
    have logged := each.logged
    have lengths := sound.queues fifo
    obtain ⟨queue, read⟩ : ∃ queue, now.queues[fill.orderId - 1]? = some queue :=
      ⟨_, List.getElem?_eq_getElem (by omega)⟩
    exact ⟨queue, read, each.queue queue read⟩

/-- No look-ahead and fail-stop: fills are later than their orders, by the
latency, and bounded by their event; from the call that refuses an event on
every reply is an error; and fills up to an event depend on the events up to
it. -/
theorem causal_and_fail_stop {arguments : Arguments} {config : Config} {backtester : Backtester}
    (built : construct arguments = .ok (config, backtester)) (history : List Attempt) :
    ((attempts config backtester history).2.failed = false →
        NoLookAhead config (fed config history) (attempts config backtester history).2.state) ∧
      (∀ before made later, history = before ++ made :: later →
        EventRefused config (attempts config backtester before).2 made →
          ∀ (k : Nat) reply, before.length ≤ k →
            (attempts config backtester history).1[k]? = some reply →
              ∃ error, reply = .error error) ∧
      ∀ (other : List Attempt) (s : Nat),
        (attempts config backtester history).2.failed = false →
        (attempts config backtester other).2.failed = false →
        ((fed config history).filter fun seen => seen.event.sequence ≤ s) =
            ((fed config other).filter fun seen => seen.event.sequence ≤ s) →
          ((attempts config backtester history).2.state.fills.filter
              fun fill => fill.sequence ≤ s) =
            (attempts config backtester other).2.state.fills.filter
              fun fill => fill.sequence ≤ s := by
  have isFresh := construct_ok built
  subst isFresh
  refine ⟨fun running => (fresh_replayed history running).noLookAhead, ?_, ?_⟩
  · rintro before made later rfl refused k reply after read
    have idle : (attempts config (fresh config) before).2.failed = false →
        Idle config (attempts config (fresh config) before).2.state :=
      fun running => (fresh_replayed before running).idle
    obtain ⟨failed, error, isError⟩ := refused.halts idle
    obtain ⟨replies, length⟩ := attempts_append config (fresh config) before (made :: later)
    rw [replies, List.getElem?_append_right (by omega)] at read
    have member := List.mem_of_getElem? read
    simp only [attempts, List.mem_cons] at member
    rcases member with isReply | rest
    · exact ⟨error, isReply.trans isError⟩
    · exact failed_refuses failed later reply rest
  · intro other s running runningOther agree
    exact (fresh_replayed history running).fills_causal (fresh_replayed other runningOther) agree

theorem causal_and_fail_stop_two_batches :
    NoLookAhead marketConfig (fed marketConfig twoBatches)
      (attempts marketConfig (fresh marketConfig) twoBatches).2.state :=
  (causal_and_fail_stop market_built twoBatches).1 (by decide +kernel)

end Gambit.TopOfBook
