import Gambit.TopOfBook.Frames

/-!
# The signal, and what every reached state satisfies

The target of an instrument is a function of how many of its events have been
seen.  With it the invariant of the replay says, of any state reached without
a failure, what its positions, its cash and its order table look like, in
terms of the events fed and not of the path taken.
-/

set_option autoImplicit false

namespace Gambit.TopOfBook

open FixedWidth Raising

/-- How many of the events are of the instrument. -/
def observations (i : Nat) (events : List Observation) : Nat :=
  events.countP fun seen => seen.event.instrumentId == i

/-- The side of the signal after so many events. -/
def longAfter (config : Config) (count : Nat) : Bool :=
  decide (count / config.rebalanceEvents % 2 = 1)

/-- The target the signal set at the event that created the order. -/
def signalTarget (config : Config) (events : List Observation) (order : ReplayOrder) : Int :=
  if longAfter config (observations order.instrumentId (events.take (order.sequence + 1))) then
    config.targetLots
  else 0

section Counting

variable {config : Config} {events : List Observation} {seen : Observation} {count : Nat}

theorem observations_append (i : Nat) (events : List Observation) (seen : Observation) :
    observations i (events ++ [seen]) =
      observations i events + if seen.event.instrumentId = i then 1 else 0 := by
  unfold observations
  rw [List.countP_append, List.countP_singleton]
  simp only [beq_iff_eq]

theorem signalTarget_append (seen : Observation) {order : ReplayOrder}
    (past : order.sequence < events.length) :
    signalTarget config (events ++ [seen]) order = signalTarget config events order := by
  unfold signalTarget
  rw [List.take_append_of_le_length past]

theorem round_on {count round : Nat} (inside : count % round + 1 < round) :
    (count + 1) / round = count / round ∧ (count + 1) % round = count % round + 1 := by
  have parts := Nat.mod_add_div count round
  exact (Nat.div_mod_unique (by omega)).mpr ⟨by omega, inside⟩

theorem round_over {count round : Nat} (full : count % round + 1 = round) :
    (count + 1) / round = count / round + 1 ∧ (count + 1) % round = 0 := by
  have parts := Nat.mod_add_div count round
  have next : round * (count / round + 1) = round * (count / round) + round := Nat.mul_succ ..
  exact (Nat.div_mod_unique (by omega)).mpr ⟨by omega, by omega⟩

theorem longAfter_on (inside : count % config.rebalanceEvents + 1 < config.rebalanceEvents) :
    longAfter config (count + 1) = longAfter config count := by
  unfold longAfter
  rw [(round_on inside).1]

theorem longAfter_over (full : count % config.rebalanceEvents + 1 = config.rebalanceEvents) :
    longAfter config (count + 1) = !longAfter config count := by
  unfold longAfter
  rw [(round_over full).1]
  by_cases odd : count / config.rebalanceEvents % 2 = 1
  · rw [decide_eq_true odd]
    exact decide_eq_false (by omega)
  · rw [decide_eq_false odd]
    exact decide_eq_true (by omega)

end Counting

/-- Rows count their own events, and an order at work was made for the target
its row still has. -/
structure Signalled (config : Config) (done : List Observation) (now : State) : Prop where
  row : ∀ (i : Nat) row, now.instruments[i]? = some row →
    row.countdown =
        config.rebalanceEvents - observations i done % config.rebalanceEvents ∧
      row.targetLong = longAfter config (observations i done)
  order : ∀ (k : Nat) order row, now.orders[k]? = some order → order.status = .opened →
    now.instruments[order.instrumentId]? = some row →
      signalTarget config done order = target config row

section Step

variable {config : Config} {done : List Observation} {seen : Observation} {now after : State}

/-- One row over one event. -/
theorem signalled_row {before row : InstrumentState} {count : Nat}
    (counted : before.countdown = config.rebalanceEvents - count % config.rebalanceEvents ∧
      before.targetLong = longAfter config count)
    (moved : decrement before.countdown ≠ 0 ∧ row.countdown = decrement before.countdown ∧
        row.targetLong = before.targetLong ∨
      decrement before.countdown = 0 ∧ row.countdown = config.rebalanceEvents ∧
        row.targetLong = !before.targetLong) :
    row.countdown = config.rebalanceEvents - (count + 1) % config.rebalanceEvents ∧
      row.targetLong = longAfter config (count + 1) := by
  have interval := config.rebalanceEvents_pos
  have below := Nat.mod_lt count interval
  have positive : 0 < before.countdown := by omega
  rw [decrement_eq positive] at moved
  rcases moved with ⟨more, countdown, side⟩ | ⟨due, countdown, side⟩
  · have inside : count % config.rebalanceEvents + 1 < config.rebalanceEvents := by omega
    have onward := (round_on inside).2
    exact ⟨by omega, side.trans (counted.2.trans (longAfter_on inside).symm)⟩
  · have full : count % config.rebalanceEvents + 1 = config.rebalanceEvents := by omega
    have onward := (round_over full).2
    refine ⟨by omega, ?_⟩
    rw [side, counted.2, longAfter_over full]

/-- Up to the signal step an event leaves countdowns and sides alone. -/
theorem matched_row {i : Nat} {state : InstrumentState} {matched : State}
    (isRow : i = seen.event.instrumentId) (atRow : now.instruments[i]? = some state)
    (matching : Matched config seen i (marked seen.event state now) matched) {j : Nat}
    {row : InstrumentState} (read : matched.instruments[j]? = some row) :
    ∃ before, now.instruments[j]? = some before ∧ row.countdown = before.countdown ∧
      row.targetLong = before.targetLong := by
  obtain ⟨between, atMarked, kept⟩ := matching.steady.row j row read
  subst isRow
  rcases Tables.set_some atMarked with ⟨rfl, rfl⟩ | ⟨_, first⟩
  · exact ⟨state, atRow, kept.countdown, kept.targetLong⟩
  · exact ⟨between, first, kept.countdown, kept.targetLong⟩

theorem Signalled.rows (signalled : Signalled config done now)
    (observed : Observed config seen now after) {j : Nat} {row' : InstrumentState}
    (read : after.instruments[j]? = some row') :
    row'.countdown = config.rebalanceEvents -
        observations j (done ++ [seen]) % config.rebalanceEvents ∧
      row'.targetLong = longAfter config (observations j (done ++ [seen])) := by
  cases observed with
  | mk checked _ atRow matching atMatched rebalancing =>
      rw [observations_append]
      rcases rebalancing.row_cases read with ⟨rfl, _, _, moved⟩ | ⟨apart, kept⟩
      · obtain ⟨before, atNow, countdown, side⟩ := matched_row rfl atRow matching atMatched
        have counted := signalled.row _ before atNow
        rw [← countdown, ← side] at counted
        rw [if_pos rfl]
        refine signalled_row counted ?_
        rcases moved with ⟨more, counts, sides, _⟩ | flips
        · exact Or.inl ⟨more, counts, sides⟩
        · exact Or.inr flips
      · obtain ⟨before, atNow, countdown, side⟩ := matched_row rfl atRow matching kept
        rw [if_neg (Ne.symm apart), Nat.add_zero, countdown, side]
        exact signalled.row j before atNow

theorem Signalled.observed (signalled : Signalled config done now) (idle : Idle config now)
    (numbered : now.processed = done.length) (observed : Observed config seen now after) :
    Signalled config (done ++ [seen]) after := by
  refine ⟨fun j row' read => signalled.rows observed read, ?_⟩
  intro k order row' atOrder isOpen atAfter
  have side := (signalled.rows observed atAfter).2
  cases observed with
  | @mk _ row matched _ checked trade atRow matching atMatched rebalancing =>
      have sound := (idle.marked checked atRow).matched checked.sizes
        (fun event isTrade => (trade event isTrade).size) matching
      rcases rebalancing.order_cases atOrder with
        ⟨old, spared⟩ | ⟨_, _, before, _, isClosed⟩ | ⟨_, _, quantity, _, _, isNew⟩
      · -- An order that stays open: its row has not flipped since.
        obtain ⟨_, atWork, atInstrument, slot⟩ := (sound.order k order old).opened isOpen
        obtain ⟨first, atFirst, kept, opens⟩ := matching.steady.order k order old
        have past := (idle.sound.order k first atFirst).sequence_lt
        rw [numbered, ← kept.sequence] at past
        obtain ⟨before, atNow, _, sameSide⟩ := matched_row rfl atRow matching atInstrument
        have aimed := signalled.order k first before atFirst (opens isOpen) (kept.instrumentId ▸ atNow)
        have same : signalTarget config done first = signalTarget config done order := by
          unfold signalTarget
          rw [kept.instrumentId, kept.sequence]
        rw [signalTarget_append seen past, ← same, aimed]
        have unflipped : row'.targetLong = atWork.targetLong := by
          rcases rebalancing.row_cases atAfter with ⟨isRow, _, _, moved⟩ | ⟨_, kept⟩
          · rw [isRow, atMatched] at atInstrument
            cases atInstrument
            rcases moved with ⟨_, _, stays, _⟩ | ⟨due, _⟩
            · exact stays
            · exact absurd slot (spared due)
          · rw [kept] at atInstrument
            cases atInstrument
            rfl
        unfold target
        rw [unflipped, sameSide]
      · rw [isClosed] at isOpen
        cases isOpen
      · have whole : (done ++ [seen]).take (order.sequence + 1) = done ++ [seen] := by
          refine List.take_of_length_le ?_
          rw [isNew, newOrder, checked.sequence, numbered, List.length_append, List.length_singleton]
        unfold signalTarget target
        rw [whole, side]

theorem Signalled.initial (config : Config) :
    Signalled config [] (initialState config) where
  row := by
    intro i row atRow
    have isNew := List.eq_of_mem_replicate (List.mem_of_getElem? atRow)
    subst isNew
    refine ⟨(Nat.sub_zero _).symm, ?_⟩
    simp [longAfter, observations]
  order := fun k order row atOrder => by cases atOrder

theorem Replayed.signalled (replayed : Replayed config done now) : Signalled config done now := by
  refine (replayed.induction (P := fun done now => Signalled config done now ∧
    now.processed = done.length) ⟨Signalled.initial config, rfl⟩ ?_).1.1
  intro done seen now after idle holds _ observed
  refine ⟨holds.1.observed idle holds.2 observed, ?_⟩
  rw [observed.sequence.2, holds.2, List.length_append, List.length_singleton]

end Step

/-! ## Reached states -/

/-- A state as its tables and the events fed describe it. -/
structure Consistent (config : Config) (events : List Observation) (now : State) : Prop where
  position : ∀ row ∈ now.instruments, 0 ≤ row.position ∧ row.position ≤ config.targetLots
  cash : 0 ≤ now.cash
  slot : ∀ (i : Nat) row, now.instruments[i]? = some row →
    row.pending = 0 ∨ ∃ order ∈ now.orders, order.id = row.pending
  pending : ∀ (i : Nat) row, now.instruments[i]? = some row → ∀ order ∈ now.orders,
    row.pending = order.id ↔ order.status = .opened ∧ order.instrumentId = i
  opened : ∀ order ∈ now.orders, order.status = .opened →
    ∃ row, now.instruments[order.instrumentId]? = some row ∧
      row.position + order.remaining = signalTarget config events order
  single : ∀ order ∈ now.orders, ∀ other ∈ now.orders, order.status = .opened →
    other.status = .opened → order.instrumentId = other.instrumentId → order = other
  sign : ∀ order ∈ now.orders, order.status = .opened →
    0 < order.quantity ∧ 0 < order.remaining ∨ order.quantity < 0 ∧ order.remaining < 0
  size : ∀ order ∈ now.orders, |order.remaining| ≤ |order.quantity|

section Reached

variable {config : Config} {events : List Observation} {now : State} {order : ReplayOrder}

theorem Sound.order_of_mem {clock : Int} {horizon : Nat} (sound : Sound config clock horizon now)
    (member : order ∈ now.orders) :
    ∃ k, now.orders[k]? = some order ∧ OrderSound now.instruments clock horizon k order := by
  obtain ⟨k, atOrder⟩ := List.mem_iff_getElem?.mp member
  exact ⟨k, atOrder, sound.order k order atOrder⟩

theorem Sound.pending_iff {clock : Int} {horizon i : Nat} {row : InstrumentState}
    (sound : Sound config clock horizon now) (atRow : now.instruments[i]? = some row)
    (member : order ∈ now.orders) :
    row.pending = order.id ↔ order.status = .opened ∧ order.instrumentId = i := by
  obtain ⟨k, atOrder, old⟩ := sound.order_of_mem member
  rw [old.id]
  constructor
  · intro slot
    obtain ⟨other, atOther, isOpen, instrument, _⟩ := (sound.row i row atRow).busy k slot
    rw [atOrder] at atOther
    cases atOther
    exact ⟨isOpen, instrument⟩
  · intro ⟨isOpen, instrument⟩
    obtain ⟨_, other, atInstrument, slot⟩ := old.opened isOpen
    rw [instrument, atRow] at atInstrument
    cases atInstrument
    exact slot

theorem Replayed.consistent (replayed : Replayed config events now) :
    Consistent config events now := by
  have sound := replayed.idle.sound
  refine
    { position := ?_, cash := sound.cash.1, slot := ?_, pending := ?_, opened := ?_
      single := ?_, sign := ?_, size := ?_ }
  · intro row member
    obtain ⟨i, atRow⟩ := List.mem_iff_getElem?.mp member
    have held := sound.row i row atRow
    exact ⟨held.position_nonneg, held.position_le⟩
  · intro i row atRow
    cases slot : row.pending with
    | zero => exact Or.inl rfl
    | succ k =>
        obtain ⟨order, atOrder, _⟩ := (sound.row i row atRow).busy k slot
        exact Or.inr ⟨order, List.mem_of_getElem? atOrder, (sound.order k order atOrder).id⟩
  · intro i row atRow order member
    exact sound.pending_iff atRow member
  · intro order member isOpen
    obtain ⟨k, atOrder, old⟩ := sound.order_of_mem member
    obtain ⟨_, row, atRow, slot⟩ := old.opened isOpen
    obtain ⟨other, atOther, _, _, aimed⟩ := (sound.row _ row atRow).busy k slot
    rw [atOrder] at atOther
    cases atOther
    exact ⟨row, atRow, aimed.trans (replayed.signalled.order k order row atOrder isOpen atRow).symm⟩
  · intro order member other otherMember isOpen otherOpen same
    obtain ⟨k, atOrder, old⟩ := sound.order_of_mem member
    obtain ⟨m, atOther, otherOld⟩ := sound.order_of_mem otherMember
    obtain ⟨_, row, atRow, slot⟩ := old.opened isOpen
    have otherSlot := (sound.pending_iff atRow otherMember).mpr ⟨otherOpen, same.symm⟩
    rw [slot, otherOld.id] at otherSlot
    cases otherSlot
    rw [atOrder] at atOther
    cases atOther
    rfl
  · intro order member isOpen
    obtain ⟨k, _, old⟩ := sound.order_of_mem member
    have left := (old.opened isOpen).1
    have between := old.remaining
    omega
  · intro order member
    obtain ⟨k, _, old⟩ := sound.order_of_mem member
    rcases old.remaining with ⟨_, nonneg, below⟩ | ⟨_, above, nonpos⟩
    · rw [abs_of_nonneg nonneg, abs_of_nonneg (nonneg.trans below)]
      exact below
    · rw [abs_of_nonpos nonpos, abs_of_nonpos (above.trans nonpos)]
      omega

end Reached

/-- Whatever calls are made of a backtester, no signed operation overflows and
no vector is read outside its bounds; and while none has failed it, its state is
consistent. -/
theorem calls_keep_consistent {arguments : Arguments} {config : Config} {backtester : Backtester}
    (built : construct arguments = .ok (config, backtester)) (history : List Attempt) :
    (∀ reply ∈ (attempts config backtester history).1,
        reply ≠ .error .undefinedBehaviour) ∧
      ((attempts config backtester history).2.failed = false →
        Consistent config (fed config history) (attempts config backtester history).2.state) := by
  have isFresh := construct_ok built
  subst isFresh
  have along := @attempts_replayed config [] (fresh config) (fun _ => Replayed.start config) history
  exact ⟨along.1, fun running => (along.2.2 running).consistent⟩

/-! A buy of three lots, filled, and the sale that follows, cut in two batches. -/

def marketArguments : Arguments where
  instruments := 1
  cash := 1000
  targetLots := 3
  rebalanceEvents := 2
  feePpm := 10000
  latencyNs := 0
  auditCapacity := 10
  maximumFeedAgeNs := 0
  executionModel := "market"
  fits := by decide

def marketConfig : Config where
  toArguments := marketArguments
  accepted := by decide

def steadyQuote (sequence : Nat) : BookEvent where
  sequence := sequence
  eventTimeNs := 0
  receiveTimeNs := 0
  bid := 99
  ask := 101
  bidSize := 5
  askSize := 5
  instrumentId := 0
  flags := 0
  fits := by decide

def quoteBatch (first count : Nat) : Attempt where
  call := .processBatch ⟨1, true, (List.range' first count).map steadyQuote⟩
  locked := true

def twoBatches : List Attempt := [quoteBatch 0 3, quoteBatch 3 2]

theorem market_built :
    construct marketArguments = .ok (marketConfig, fresh marketConfig) := rfl

theorem calls_keep_consistent_two_batches :
    Consistent marketConfig (fed marketConfig twoBatches)
      (attempts marketConfig (fresh marketConfig) twoBatches).2.state :=
  (calls_keep_consistent market_built twoBatches).2 (by decide +kernel)

end Gambit.TopOfBook
