import Gambit.TopOfBook.Signal

/-!
# The books, recomputed from the logs

Cash, fees, positions and the open part of each order are sums over the fill
log; marks are the last bids seen.  What `result` reports is therefore a
function of the log and the events.
-/

set_option autoImplicit false

namespace Gambit.TopOfBook

open FixedWidth Raising

def feesOf (fills : List ReplayFill) : Int := (fills.map ReplayFill.fee).sum

/-- Net value of the lots bought, at their prices. -/
def turnover (fills : List ReplayFill) : Int :=
  (fills.map fun fill => fill.quantity * fill.price).sum

def heldOf (i : Nat) (fills : List ReplayFill) : Int :=
  ((fills.filter fun fill => fill.instrumentId == i).map ReplayFill.quantity).sum

def filledOf (orderId : Nat) (fills : List ReplayFill) : Int :=
  ((fills.filter fun fill => fill.orderId == orderId).map ReplayFill.quantity).sum

/-- The bid of the instrument's last event, or 0. -/
def lastBid (i : Nat) (events : List Observation) : Int :=
  match (events.filter fun seen => seen.event.instrumentId == i).getLast? with
  | some seen => seen.event.bid
  | none => 0

section Sums

variable {fills : List ReplayFill} {fill : ReplayFill}

theorem feesOf_append : feesOf (fills ++ [fill]) = feesOf fills + fill.fee := by
  simp [feesOf]

theorem turnover_append :
    turnover (fills ++ [fill]) = turnover fills + fill.quantity * fill.price := by
  simp [turnover]

theorem heldOf_append (i : Nat) :
    heldOf i (fills ++ [fill]) =
      heldOf i fills + if fill.instrumentId = i then fill.quantity else 0 := by
  unfold heldOf
  rw [List.filter_append, List.map_append, List.sum_append, List.filter_singleton]
  by_cases same : fill.instrumentId = i
  · rw [beq_iff_eq.mpr same, cond_true, if_pos same, List.map_singleton, List.sum_singleton]
  · rw [beq_false_of_ne same, cond_false, if_neg same, List.map_nil, List.sum_nil]

theorem filledOf_append (orderId : Nat) :
    filledOf orderId (fills ++ [fill]) =
      filledOf orderId fills + if fill.orderId = orderId then fill.quantity else 0 := by
  unfold filledOf
  rw [List.filter_append, List.map_append, List.sum_append, List.filter_singleton]
  by_cases same : fill.orderId = orderId
  · rw [beq_iff_eq.mpr same, cond_true, if_pos same, List.map_singleton, List.sum_singleton]
  · rw [beq_false_of_ne same, cond_false, if_neg same, List.map_nil, List.sum_nil]

theorem filledOf_none {orderId : Nat} (before : ∀ fill ∈ fills, fill.orderId < orderId) :
    filledOf orderId fills = 0 := by
  have none : (fills.filter fun fill => fill.orderId == orderId) = [] := by
    refine List.filter_eq_nil_iff.mpr fun fill member same => ?_
    have less := before fill member
    rw [beq_iff_eq.mp same] at less
    exact lt_irrefl _ less
  rw [filledOf, none]
  rfl

theorem lastBid_append (i : Nat) (events : List Observation) (seen : Observation) :
    lastBid i (events ++ [seen]) =
      if seen.event.instrumentId = i then seen.event.bid else lastBid i events := by
  unfold lastBid
  rw [List.filter_append, List.filter_singleton]
  by_cases same : seen.event.instrumentId = i
  · rw [beq_iff_eq.mpr same, cond_true, if_pos same, List.getLast?_concat]
  · rw [beq_false_of_ne same, cond_false, if_neg same, List.append_nil]

/-- The turnover in the terms of a trader: paid for buys, received for sales. -/
theorem turnover_eq_sides (fills : List ReplayFill) :
    turnover fills =
      ((fills.filter fun fill => 0 < fill.quantity).map
          fun fill => |fill.quantity| * fill.price).sum -
        ((fills.filter fun fill => fill.quantity < 0).map
          fun fill => |fill.quantity| * fill.price).sum := by
  induction fills with
  | nil => rfl
  | cons fill fills ih =>
      have split : turnover (fill :: fills) = fill.quantity * fill.price + turnover fills := by
        simp [turnover]
      rw [split, ih]
      rcases lt_trichotomy fill.quantity 0 with sell | none | buy
      · have notBuy : ¬ 0 < fill.quantity := by omega
        simp only [List.filter_cons, sell, notBuy, decide_true, decide_false, if_true,
          Bool.false_eq_true, if_false, List.map_cons, List.sum_cons, abs_of_neg sell]
        ring
      · simp only [List.filter_cons, none, lt_irrefl, decide_false, Bool.false_eq_true, if_false,
          zero_mul, zero_add]
      · have notSell : ¬ fill.quantity < 0 := by omega
        simp only [List.filter_cons, buy, notSell, decide_true, decide_false, if_true,
          Bool.false_eq_true, if_false, List.map_cons, List.sum_cons, abs_of_pos buy]
        ring

end Sums

/-- The books agree with the fill log. -/
structure Accounted (config : Config) (now : State) : Prop where
  cash : now.cash = config.cash - turnover now.fills - now.totalFees
  fees : now.totalFees = feesOf now.fills
  position : ∀ (i : Nat) row, now.instruments[i]? = some row → row.position = heldOf i now.fills
  remaining : ∀ (k : Nat) order, now.orders[k]? = some order →
    order.quantity - order.remaining = filledOf (k + 1) now.fills
  logged : ∀ fill ∈ now.fills, fill.orderId ≤ now.orders.length
  fee : ∀ fill ∈ now.fills, 0 ≤ |fill.quantity| * fill.price ∧
    Fits (|fill.quantity| * fill.price) ∧
    fill.fee = feeDue config.feePpm (|fill.quantity| * fill.price)

section Books

variable {config : Config} {seen : Observation} {i k : Nat} {state : InstrumentState}
  {order : ReplayOrder} {self after : State}

theorem Accounted.initial (config : Config) : Accounted config (initialState config) where
  cash := by simp [initialState, turnover]
  fees := rfl
  position := by
    intro i row atRow
    have isNew := List.eq_of_mem_replicate (List.mem_of_getElem? atRow)
    subst isNew
    rfl
  remaining := fun k order atOrder => by cases atOrder
  logged := fun fill absent => by cases absent
  fee := fun fill absent => by cases absent

theorem Accounted.unfilled (accounted : Accounted config self) (unfilled : Unfilled self after)
    (length : after.orders.length = self.orders.length) : Accounted config after where
  cash := by
    rw [unfilled.cash, unfilled.fills, unfilled.totalFees]
    exact accounted.cash
  fees := by
    rw [unfilled.totalFees, unfilled.fills]
    exact accounted.fees
  position := by
    intro j row' read
    obtain ⟨row, before, same⟩ := unfilled.row j row' read
    rw [same, unfilled.fills]
    exact accounted.position j row before
  remaining := by
    intro m order' read
    obtain ⟨order, before, kept, same⟩ := unfilled.order m order' read
    rw [kept.quantity, same, unfilled.fills]
    exact accounted.remaining m order before
  logged := by
    rw [unfilled.fills, length]
    exact accounted.logged
  fee := by
    rw [unfilled.fills]
    exact accounted.fee

/-- A fill enters every account it belongs to and no other. -/
theorem Accounted.executed {available price lots fee : Int} {base : State}
    (accounted : Accounted config base) (atRow : base.instruments[i]? = some state)
    (atOrder : base.orders[k]? = some order) (isRow : seen.event.instrumentId = i)
    (id : order.id = k + 1)
    (executes : Executes config order available price base lots fee) :
    Accounted config (executed seen.event i k state order lots price fee base) where
  cash := by
    simp only [TopOfBook.executed, turnover_append, recordedFill]
    rw [accounted.cash]
    ring
  fees := by
    simp only [TopOfBook.executed, feesOf_append, recordedFill]
    rw [accounted.fees]
  position := by
    intro j row' read
    simp only [TopOfBook.executed, heldOf_append, recordedFill]
    rcases Tables.set_some read with ⟨rfl, rfl⟩ | ⟨apart, before⟩
    · rw [if_pos isRow, ← accounted.position i state atRow]
      rfl
    · rw [if_neg (isRow ▸ apart), add_zero]
      exact accounted.position j row' before
  remaining := by
    intro m order' read
    simp only [TopOfBook.executed, filledOf_append, recordedFill]
    rcases Tables.set_some read with ⟨rfl, rfl⟩ | ⟨apart, before⟩
    · rw [if_pos id, ← accounted.remaining k order atOrder]
      simp only [filledOrder]
      ring
    · rw [if_neg (by omega), add_zero]
      exact accounted.remaining m order' before
  logged := by
    intro fill member
    simp only [TopOfBook.executed, State.setInstrument, State.setOrder, List.length_set] at member ⊢
    rcases List.mem_append.mp member with old | new
    · exact accounted.logged fill old
    · have inside := (List.getElem?_eq_some_iff.mp atOrder).1
      rw [List.mem_singleton.mp new, recordedFill, id]
      exact inside
  fee := by
    intro fill member
    rcases List.mem_append.mp member with old | new
    · exact accounted.fee fill old
    · rw [List.mem_singleton.mp new]
      exact ⟨executes.notional.1, executes.notional.2, executes.charged⟩

theorem Accounted.matched (accounted : Accounted config self)
    (matched : Matched config seen seen.event.instrumentId self after) :
    Accounted config after := by
  have length := matched.steady.length
  cases matched.exchange with
  | none unfilled => exact accounted.unfilled unfilled length
  | some k state order working offer lots fee executes =>
      obtain ⟨unfilled, rows, orders⟩ := offer.unfilled
      have base := accounted.unfilled unfilled (congrArg List.length orders)
      exact base.executed (rows ▸ working.atRow) (orders ▸ working.atOrder) rfl working.id executes

theorem Accounted.rebalanced {event : BookEvent} (accounted : Accounted config self)
    (atRow : self.instruments[i]? = some state)
    (rebalanced : Rebalanced config event i state self after) : Accounted config after := by
  obtain ⟨fills, cash, totalFees, rows, orders⟩ := rebalanced.unfilled atRow
  refine
    { cash := ?_, fees := ?_, position := ?_, remaining := ?_, logged := ?_, fee := ?_ }
  · rw [cash, fills, totalFees]
    exact accounted.cash
  · rw [totalFees, fills]
    exact accounted.fees
  · intro j row' read
    obtain ⟨row, before, same⟩ := rows j row' read
    rw [same, fills]
    exact accounted.position j row before
  · intro k order' read
    rw [fills]
    rcases orders k order' read with ⟨order, before, kept, same⟩ | ⟨isLast, quantity, isNew⟩
    · rw [kept.quantity, same]
      exact accounted.remaining k order before
    · have none : filledOf (k + 1) self.fills = 0 :=
        filledOf_none fun fill member => by
          have past := accounted.logged fill member
          omega
      rw [none, isNew]
      exact sub_self quantity
  · intro fill member
    rw [fills] at member
    exact (accounted.logged fill member).trans rebalanced.length_le
  · rw [fills]
    exact accounted.fee

theorem Accounted.observed (accounted : Accounted config self)
    (observed : Observed config seen self after) : Accounted config after := by
  cases observed with
  | @mk state row matched rebalanced _ _ atRow matching atMatched rebalancing =>
      have unmoved : Unfilled self (marked seen.event state self) :=
        { row := by
            intro j row' read
            rcases Tables.set_some read with ⟨rfl, rfl⟩ | ⟨_, before⟩
            · exact ⟨state, atRow, rfl⟩
            · exact ⟨row', before, rfl⟩
          order := fun k order read => ⟨order, read, ⟨rfl, rfl, rfl, rfl, rfl⟩, rfl⟩
          fills := rfl
          cash := rfl
          totalFees := rfl }
      have before := accounted.unfilled unmoved rfl
      have all := (before.matched matching).rebalanced atMatched rebalancing
      exact { all with }

theorem Replayed.accounted {done : List Observation} {now : State}
    (replayed : Replayed config done now) : Accounted config now :=
  (replayed.induction (P := fun _ now => Accounted config now) (Accounted.initial config)
    fun _ _ _ _ _ accounted _ observed => accounted.observed observed).1

/-! ## Marks -/

theorem Replayed.marks {done : List Observation} {now : State}
    (replayed : Replayed config done now) :
    ∀ (i : Nat) row, now.instruments[i]? = some row → row.bid = lastBid i done := by
  refine (replayed.induction (P := fun done now => ∀ (i : Nat) row,
    now.instruments[i]? = some row → row.bid = lastBid i done) ?_ ?_).1
  · intro i row atRow
    have isNew := List.eq_of_mem_replicate (List.mem_of_getElem? atRow)
    subst isNew
    rfl
  · intro done seen now after _ marks _ observed j row' read
    cases observed with
    | @mk state row matched rebalanced _ _ atRow matching atMatched rebalancing =>
        have marked : ∀ (j : Nat) row, matched.instruments[j]? = some row →
            row.bid = lastBid j (done ++ [seen]) := by
          intro j row read
          obtain ⟨between, atMarked, kept⟩ := matching.steady.row j row read
          rw [kept.bid, lastBid_append]
          rcases Tables.set_some atMarked with ⟨rfl, rfl⟩ | ⟨apart, before⟩
          · exact (if_pos rfl).symm
          · rw [if_neg apart]
            exact marks j between before
        rcases rebalancing.row_cases read with ⟨rfl, _, bid, _⟩ | ⟨_, kept⟩
        · exact bid.trans (marked _ row atMatched)
        · exact marked j row' kept

end Books

/-! ## What the logs determine -/

/-- The books of a state, from its fill log.  Amounts are in a currency in which
one monetary unit is worth `multiplier`. -/
structure Recomputed (config : Config) (now : State) : Prop where
  cash : ∀ multiplier : Int, now.cash * multiplier = config.cash * multiplier -
    ((now.fills.filter fun fill => 0 < fill.quantity).map
      fun fill => |fill.quantity| * fill.price * multiplier).sum +
    ((now.fills.filter fun fill => fill.quantity < 0).map
      fun fill => |fill.quantity| * fill.price * multiplier).sum - now.totalFees * multiplier
  position : ∀ (i : Nat) row, now.instruments[i]? = some row → row.position = heldOf i now.fills
  order : ∀ order ∈ now.orders, order.quantity - order.remaining = filledOf order.id now.fills
  fee : ∀ fill ∈ now.fills, feeOf config.feePpm (|fill.quantity| * fill.price) = .ok fill.fee ∧
    fill.fee = ⌈((|fill.quantity| * fill.price : Int) * config.feePpm : ℚ) / 1000000⌉
  fees : now.totalFees = feesOf now.fills

/-- The report, from its own fill log and the events. -/
structure Reported (config : Config) (events : List Observation) (report : Report) : Prop where
  processed : report.processed = events.length
  cash : report.cash = config.cash - turnover report.fills - feesOf report.fills
  totalFees : report.totalFees = feesOf report.fills
  positions : report.positions =
    (List.range config.instruments).map fun i => heldOf i report.fills
  equity : report.equity = config.cash - turnover report.fills - feesOf report.fills +
    ((List.range config.instruments).map fun i => heldOf i report.fills * lastBid i events).sum
  netPnl : report.netPnl =
    ((List.range config.instruments).map fun i => heldOf i report.fills * lastBid i events).sum -
      turnover report.fills - feesOf report.fills

section Reports

variable {config : Config} {events : List Observation} {now : State}

theorem Replayed.recomputed (replayed : Replayed config events now) : Recomputed config now := by
  have accounted := replayed.accounted
  have sound := replayed.idle.sound
  refine
    { cash := ?_, position := accounted.position, order := ?_, fee := ?_, fees := accounted.fees }
  · intro multiplier
    rw [List.sum_map_mul_right, List.sum_map_mul_right, accounted.cash, turnover_eq_sides]
    ring
  · intro order member
    obtain ⟨k, atOrder⟩ := List.mem_iff_getElem?.mp member
    rw [(sound.order k order atOrder).id]
    exact accounted.remaining k order atOrder
  · intro fill member
    obtain ⟨nonneg, fits, charged⟩ := accounted.fee fill member
    refine ⟨?_, charged⟩
    rw [charged]
    exact feeOf_eq nonneg fits config.feePpm_le

/-- A column of the instrument table, by instrument. -/
theorem Replayed.column (replayed : Replayed config events now) {f : InstrumentState → Int}
    {g : Nat → Int}
    (each : ∀ (i : Nat) row, now.instruments[i]? = some row → f row = g i) :
    now.instruments.map f = (List.range config.instruments).map g := by
  have length := replayed.idle.sound.instruments
  apply List.ext_getElem?
  intro i
  rw [List.getElem?_map, List.getElem?_map]
  by_cases inside : i < config.instruments
  · have present := List.getElem?_eq_getElem (length.symm ▸ inside)
    rw [List.getElem?_range inside, present]
    exact congrArg some (each i _ present)
  · rw [List.getElem?_eq_none (by omega),
      List.getElem?_eq_none (by rw [List.length_range]; omega)]
    rfl

theorem Replayed.reported (replayed : Replayed config events now) {locked : Bool}
    {self : Backtester} {report : Report} (state : self.state = now)
    (run : (result config locked self).1 = .ok report) :
    report.fills = now.fills ∧ Reported config events report := by
  subst state
  have accounted := replayed.accounted
  have sound := replayed.idle.sound
  have valued := equityOf_yields self.state sound.cash.1 sound.cash.2
  have worth := replayed.column (f := fun row => row.position * row.bid) fun i row atRow =>
    congrArg₂ (· * ·) (accounted.position i row atRow) (replayed.marks i row atRow)
  unfold result at run
  split at run
  · cases run
  split at run
  · cases run
  split at run
  · cases run
  · next equity equityRun =>
      obtain ⟨total, _, _⟩ := valued.of_ok equityRun
      obtain ⟨netPnl, pnlRun, published⟩ := bind_ok.mp run
      obtain ⟨isPnl, _⟩ := signed_ok pnlRun
      cases published
      have cash : self.state.cash =
          config.cash - turnover self.state.fills - feesOf self.state.fills := by
        rw [accounted.cash, accounted.fees]
      rw [worth, cash] at total
      refine ⟨rfl, ?_⟩
      exact
        { processed := replayed.numbered.1
          cash := cash
          totalFees := accounted.fees
          positions := replayed.column accounted.position
          equity := total
          netPnl := by
            rw [isPnl, total]
            ring }

end Reports

/-- Without a failure, every amount of the backtester and of its report is the
one recomputed from the fill log and the last marks. -/
theorem books_recomputed {arguments : Arguments} {config : Config} {backtester : Backtester}
    (built : construct arguments = .ok (config, backtester)) (history : List Attempt)
    (running : (attempts config backtester history).2.failed = false) :
    Recomputed config (attempts config backtester history).2.state ∧
      ∀ (locked : Bool) report,
        (result config locked (attempts config backtester history).2).1 = .ok report →
          report.fills = (attempts config backtester history).2.state.fills ∧
            Reported config (fed config history) report := by
  have isFresh := construct_ok built
  subst isFresh
  have replayed := fresh_replayed history running
  exact ⟨replayed.recomputed, fun locked report run => replayed.reported rfl run⟩

theorem books_recomputed_two_batches :
    Recomputed marketConfig (attempts marketConfig (fresh marketConfig) twoBatches).2.state :=
  (books_recomputed market_built twoBatches (by decide +kernel)).1

end Gambit.TopOfBook
