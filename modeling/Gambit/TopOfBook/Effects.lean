import Gambit.TopOfBook.Backtester

/-!
# What one event can do

Each function of the replay is described once: the states it can return, with
the guards that led there, and that it never reaches undefined behaviour.
Later files read these descriptions and not the functions.
-/

set_option autoImplicit false

namespace Gambit.TopOfBook

open FixedWidth Raising

def Defined (error : Failure) : Prop := error ≠ .undefinedBehaviour

/-! ## Arithmetic -/

theorem int64_of_fits {x : Int} (fits : Fits x) : int64 x = .ok x := signed_of_fits fits

theorem access_of_some {α : Type} {xs : List α} {index : Nat} {x : α}
    (present : xs[index]? = some x) : access xs index = .ok x := element_of_some present

theorem checkedAdd_yields (a b : Int) :
    Yields (fun sum => sum = a + b ∧ 0 ≤ a ∧ 0 ≤ b ∧ Fits (a + b)) Defined (checkedAdd a b) := by
  unfold checkedAdd
  split
  · exact Failure.noConfusion
  · next accepted =>
      obtain ⟨aNonneg, bNonneg, room⟩ : 0 ≤ a ∧ 0 ≤ b ∧ a ≤ int64Max - b := by omega
      have fits : Fits (a + b) := by
        refine ⟨?_, by omega⟩
        unfold int64Min
        omega
      rw [int64_of_fits fits]
      exact ⟨rfl, aNonneg, bNonneg, fits⟩

theorem checkedProduct_yields (a b : Int) :
    Yields (fun product => product = a * b ∧ 0 ≤ a ∧ 0 ≤ b ∧ Fits (a * b)) Defined
      (checkedProduct a b) := by
  unfold checkedProduct
  split
  · exact Failure.noConfusion
  · next accepted =>
      have aNonneg : 0 ≤ a := by omega
      have bNonneg : 0 ≤ b := by omega
      have nonneg : 0 ≤ a * b := mul_nonneg aNonneg bNonneg
      have below : a * b ≤ int64Max := by
        by_cases zero : b = 0
        · rw [zero, mul_zero]
          decide
        · have maxNonneg : 0 ≤ int64Max := by decide
          have quotient : a ≤ int64Max.tdiv b := by
            by_contra above
            exact accepted (Or.inr (Or.inr ⟨zero, by omega⟩))
          rw [Int.tdiv_eq_ediv_of_nonneg maxNonneg] at quotient
          exact (Int.le_ediv_iff_mul_le (by omega)).mp quotient
      have fits : Fits (a * b) := by
        refine ⟨?_, below⟩
        unfold int64Min
        omega
      rw [int64_of_fits fits]
      exact ⟨rfl, aNonneg, bNonneg, fits⟩

/-- The fee on a notional, in the monetary unit. -/
def feeDue (feePpm : Nat) (notional : Int) : Int := ⌈(notional * feePpm : ℚ) / 1000000⌉

section Fee

variable {feePpm : Nat} {notional : Int}

theorem feeDue_nonneg (nonneg : 0 ≤ notional) : 0 ≤ feeDue feePpm notional :=
  @ceil_share_nonneg notional feePpm 1000000 nonneg (by omega) (by norm_num)

theorem feeDue_le (nonneg : 0 ≤ notional) (atMostOne : feePpm ≤ 1000000) :
    feeDue feePpm notional ≤ notional :=
  @ceil_share_le notional feePpm 1000000 nonneg (by exact_mod_cast atMostOne) (by norm_num)

/-- No intermediate of the fee leaves the type. -/
theorem feeOf_eq (nonneg : 0 ≤ notional) (fits : Fits notional) (atMostOne : feePpm ≤ 1000000) :
    feeOf feePpm notional = .ok (feeDue feePpm notional) := by
  have rateLe : (feePpm : Int) ≤ 1000000 := by exact_mod_cast atMostOne
  have quotient := Int.tdiv_eq_ediv_of_nonneg (b := 1000000) nonneg
  have remainder := Int.tmod_eq_emod_of_nonneg (b := 1000000) nonneg
  have restNonneg := Int.emod_nonneg notional (b := 1000000) (by norm_num)
  have restLt := Int.emod_lt_of_pos notional (b := 1000000) (by norm_num)
  have wholeNonneg : 0 ≤ notional / 1000000 := Int.ediv_nonneg nonneg (by norm_num)
  have wholeLe : notional / 1000000 * feePpm ≤ notional := by
    have scaled := mul_le_mul_of_nonneg_left rateLe wholeNonneg
    omega
  have wholeFits : Fits (notional / 1000000 * feePpm) :=
    fits.of_nonneg (mul_nonneg wholeNonneg (by omega)) wholeLe
  have partNonneg : 0 ≤ notional % 1000000 * feePpm := mul_nonneg restNonneg (by omega)
  have partLe : notional % 1000000 * feePpm ≤ 1000000 * 1000000 :=
    mul_le_mul restLt.le rateLe (by omega) (by norm_num)
  have largest : Fits (1000000 * 1000000 + 999999) := by decide
  have partFits : Fits (notional % 1000000 * feePpm) := largest.of_nonneg partNonneg (by omega)
  have raisedFits : Fits (notional % 1000000 * feePpm + 999999) :=
    largest.of_nonneg (by omega) (by omega)
  have split := @split_share_eq_ceil notional feePpm 1000000 (by norm_num)
  have due : notional / 1000000 * feePpm + (notional % 1000000 * feePpm + 999999) / 1000000 =
      feeDue feePpm notional := by
    unfold feeDue
    exact_mod_cast split
  have dueFits : Fits (feeDue feePpm notional) :=
    fits.of_nonneg (feeDue_nonneg nonneg) (feeDue_le nonneg atMostOne)
  unfold feeOf
  rw [quotient, remainder, int64_of_fits wholeFits, int64_of_fits partFits]
  simp only [bind, Except.bind]
  rw [int64_of_fits raisedFits]
  simp only
  rw [Int.tdiv_eq_ediv_of_nonneg (by omega), due, int64_of_fits dueFits]

end Fee

/-! ## Filling -/

/-- What a fill needs of the order it works on. -/
structure Fillable (config : Config) (i k : Nat) (state : InstrumentState) (order : ReplayOrder)
    (now : State) : Prop where
  atRow : now.instruments[i]? = some state
  atOrder : now.orders[k]? = some order
  outstanding : order.remaining ≠ 0
  held : 0 ≤ state.position ∧ state.position ≤ config.targetLots
  aimed : 0 ≤ state.position + order.remaining ∧
    state.position + order.remaining ≤ config.targetLots
  cash : 0 ≤ now.cash ∧ Fits now.cash
  fees : 0 ≤ now.totalFees ∧ Fits now.totalFees

/-- `lots`, signed as the order is, change hands at `price`. -/
structure Executes (config : Config) (order : ReplayOrder) (available price : Int) (now : State)
    (lots fee : Int) : Prop where
  toward : 0 < order.remaining ∧ 0 < lots ∧ lots ≤ order.remaining ∨
    order.remaining < 0 ∧ lots < 0 ∧ order.remaining ≤ lots
  size : |lots| = min |order.remaining| available
  notional : 0 ≤ |lots| * price ∧ Fits (|lots| * price)
  charged : fee = feeDue config.feePpm (|lots| * price)
  cash : 0 ≤ now.cash - lots * price - fee ∧ Fits (now.cash - lots * price - fee)
  fees : Fits (now.totalFees + fee)

def filledOrder (order : ReplayOrder) (lots : Int) : ReplayOrder :=
  { order with
    remaining := order.remaining - lots
    status := if order.remaining - lots = 0 then .filled else order.status }

def filledRow (state : InstrumentState) (order : ReplayOrder) (lots : Int) : InstrumentState :=
  { state with
    position := state.position + lots
    pending := if order.remaining - lots = 0 then 0 else state.pending }

def recordedFill (event : BookEvent) (order : ReplayOrder) (lots price fee : Int) : ReplayFill where
  orderId := order.id
  sequence := event.sequence
  timestampNs := event.receiveTimeNs
  quantity := lots
  price := price
  fee := fee
  instrumentId := event.instrumentId

def executed (event : BookEvent) (i k : Nat) (state : InstrumentState) (order : ReplayOrder)
    (lots price fee : Int) (self : State) : State :=
  { (self.setInstrument i (filledRow state order lots)).setOrder k (filledOrder order lots) with
    cash := self.cash - lots * price - fee
    totalFees := self.totalFees + fee
    fills := self.fills ++ [recordedFill event order lots price fee] }

/-- The order leaves the table without a fill. -/
def retired (i k : Nat) (state : InstrumentState) (order : ReplayOrder) (status : OrderStatus)
    (self : State) : State :=
  (self.setOrder k { order with status }).setInstrument i { state with pending := 0 }

inductive Filled (config : Config) (event : BookEvent) (i k : Nat) (state : InstrumentState)
    (order : ReplayOrder) (available price : Int) (self : State) : State → Prop
  | nothing (empty : available = 0) :
      Filled config event i k state order available price self self
  | refused (buy : 0 < order.remaining) (offered : 0 < available) :
      Filled config event i k state order available price self
        (retired i k state order .riskRejected self)
  | executed (lots fee : Int) (executes : Executes config order available price self lots fee) :
      Filled config event i k state order available price self
        (executed event i k state order lots price fee self)

section Filling

variable {config : Config} {event : BookEvent} {i k : Nat} {state : InstrumentState}
  {order : ReplayOrder} {self : State} {available price : Int}

theorem Config.feePpm_le (config : Config) : config.feePpm ≤ 1000000 := by
  have accepted := config.accepted
  unfold Arguments.Refused at accepted
  omega

theorem Config.targetLots_pos (config : Config) : 0 < config.targetLots := by
  have accepted := config.accepted
  unfold Arguments.Refused at accepted
  omega

theorem Config.targetLots_fits (config : Config) : Fits config.targetLots :=
  config.fits _ (by simp)

theorem Config.latencyNs_nonneg (config : Config) : 0 ≤ config.latencyNs := by
  have accepted := config.accepted
  unfold Arguments.Refused at accepted
  omega

theorem Config.rebalanceEvents_pos (config : Config) : 0 < config.rebalanceEvents := by
  have accepted := config.accepted
  unfold Arguments.Refused at accepted
  omega

theorem Config.cash_nonneg (config : Config) : 0 ≤ config.cash := by
  have accepted := config.accepted
  unfold Arguments.Refused at accepted
  omega

theorem Config.cash_fits (config : Config) : Fits config.cash :=
  config.fits _ (by simp)

theorem isBuy_of_pos (buy : 0 < order.remaining) : isBuy order = true := decide_eq_true buy

theorem isBuy_of_neg (sell : order.remaining < 0) : isBuy order = false :=
  decide_eq_false (by omega)

theorem outstandingLots_eq (fits : Fits |order.remaining|) :
    outstandingLots order = .ok |order.remaining| := by
  unfold outstandingLots isBuy
  by_cases buy : order.remaining > 0
  · rw [if_pos (decide_eq_true buy), abs_of_pos buy]
  · have negated : |order.remaining| = -order.remaining := abs_of_nonpos (by omega)
    rw [if_neg (by simp only [decide_eq_true_eq, buy, not_false_eq_true]), ← negated,
      int64_of_fits fits]

theorem exceedsCash_eq {buy : Bool} {cash notional fee : Int} (fits : Fits cash)
    (notionalNonneg : 0 ≤ notional) (feeNonneg : 0 ≤ fee) :
    exceedsCash buy cash notional fee = .ok (buy && decide (cash < notional + fee)) := by
  unfold exceedsCash
  cases buy with
  | false => rfl
  | true =>
      by_cases short : notional > cash
      · have exceeded : cash < notional + fee := by omega
        simp only [Bool.true_eq_false, if_false, short, if_true, decide_eq_true exceeded,
          Bool.and_self]
      · have restFits : Fits (cash - notional) := fits.of_nonneg (by omega) (by omega)
        simp only [Bool.true_eq_false, if_false, short, int64_of_fits restFits, bind, Except.bind,
          pure, Except.pure, Bool.true_and, Except.ok.injEq, decide_eq_decide]
        omega

/-- What a fill leaves in cash, on either side of the market. -/
theorem cashAfter_yields {lots notional fee : Int} (cashFits : Fits self.cash)
    (notionalFits : Fits notional) (feeNonneg : 0 ≤ fee) (feeLe : fee ≤ notional)
    (worth : 0 < order.remaining ∧ notional = lots * price ∨
      order.remaining < 0 ∧ notional = -(lots * price))
    (affordable : 0 < order.remaining → notional + fee ≤ self.cash) :
    Yields
      (fun cash => cash = self.cash - lots * price - fee ∧ 0 ≤ cash ∧ Fits cash)
      Defined (cashAfter (isBuy order) self.cash notional fee) := by
  unfold cashAfter
  rcases worth with ⟨buy, paid⟩ | ⟨sell, received⟩
  · have afford := affordable buy
    rw [isBuy_of_pos buy, if_pos rfl]
    refine Yields.bind_of_ok (int64_of_fits (cashFits.of_nonneg (by omega) (by omega))) ?_
    have restFits : Fits (self.cash - notional - fee) :=
      cashFits.of_nonneg (by omega) (by omega)
    rw [int64_of_fits restFits]
    exact ⟨by rw [paid], by omega, restFits⟩
  · rw [isBuy_of_neg sell, if_neg Bool.false_ne_true]
    refine Yields.bind_of_ok (int64_of_fits (notionalFits.of_nonneg (by omega) (by omega))) ?_
    refine (checkedAdd_yields self.cash (notional - fee)).mono fun cash gained => ?_
    obtain ⟨isSum, _, _, fits⟩ := gained
    exact ⟨by omega, by omega, isSum ▸ fits⟩

theorem signedLots_eq {lots : Int} (fits : Fits lots)
    (toward : 0 < order.remaining ∧ 0 < lots ∧ lots ≤ order.remaining ∨
      order.remaining < 0 ∧ lots < 0 ∧ order.remaining ≤ lots) :
    signedLots (isBuy order) |lots| = .ok lots := by
  unfold signedLots
  rcases toward with ⟨buy, positive, _⟩ | ⟨sell, negative, _⟩
  · rw [isBuy_of_pos buy, if_pos rfl, abs_of_pos positive]
  · rw [isBuy_of_neg sell, if_neg Bool.false_ne_true, abs_of_neg negative, neg_neg,
      int64_of_fits fits]

theorem execute_yields (fillable : Fillable config i k state order self) {lots fee : Int}
    (toward : 0 < order.remaining ∧ 0 < lots ∧ lots ≤ order.remaining ∨
      order.remaining < 0 ∧ lots < 0 ∧ order.remaining ≤ lots)
    (size : |lots| = min |order.remaining| available)
    (notional : 0 ≤ |lots| * price ∧ Fits (|lots| * price))
    (charged : fee = feeDue config.feePpm (|lots| * price))
    (affordable : 0 < order.remaining → |lots| * price + fee ≤ self.cash) :
    Yields (Filled config event i k state order available price self) Defined
      (execute config event i k state order |lots| price (|lots| * price) fee self) := by
  have feeNonneg : 0 ≤ fee := charged ▸ feeDue_nonneg notional.1
  have feeLe : fee ≤ |lots| * price := charged ▸ feeDue_le notional.1 config.feePpm_le
  have bounds := fillable.held
  have aims := fillable.aimed
  have targetFits := config.targetLots_fits
  have lotsFits : Fits lots := targetFits.of_abs_le (abs_le.mpr ⟨by omega, by omega⟩)
  have positionFits : Fits (state.position + lots) :=
    targetFits.of_nonneg (by omega) (by omega)
  have remainingFits : Fits (order.remaining - lots) :=
    targetFits.of_abs_le (abs_le.mpr ⟨by omega, by omega⟩)
  have worth : 0 < order.remaining ∧ |lots| * price = lots * price ∨
      order.remaining < 0 ∧ |lots| * price = -(lots * price) := by
    rcases toward with ⟨buy, positive, _⟩ | ⟨sell, negative, _⟩
    · exact Or.inl ⟨buy, by rw [abs_of_pos positive]⟩
    · exact Or.inr ⟨sell, by rw [abs_of_neg negative, neg_mul]⟩
  unfold execute
  split
  · exact Failure.noConfusion
  refine (cashAfter_yields fillable.cash.2 notional.2 feeNonneg feeLe worth affordable).bind
    fun nextCash settled => ?_
  obtain ⟨rfl, cashNonneg, cashFits⟩ := settled
  refine (checkedAdd_yields self.totalFees fee).bind fun nextFees added => ?_
  obtain ⟨rfl, _, _, feesFit⟩ := added
  refine Yields.bind_of_ok (signedLots_eq lotsFits toward) ?_
  refine Yields.bind_of_ok (int64_of_fits positionFits) ?_
  refine Yields.bind_of_ok (int64_of_fits remainingFits) ?_
  exact Filled.executed lots fee
    { toward, size, notional, charged, cash := ⟨cashNonneg, cashFits⟩, fees := feesFit }

theorem fill_yields (fillable : Fillable config i k state order self)
    (availableNonneg : 0 ≤ available) :
    Yields (Filled config event i k state order available price self) Defined
      (fill config event i k available price self) := by
  have bounds := fillable.held
  have aims := fillable.aimed
  have outstanding := fillable.outstanding
  have magnitudeFits : Fits |order.remaining| :=
    config.targetLots_fits.of_nonneg (abs_nonneg _) (abs_le.mpr ⟨by omega, by omega⟩)
  have magnitudePos : 0 < |order.remaining| := abs_pos.mpr outstanding
  -- The lots that change hands, signed as the order is.
  obtain ⟨lots, size, toward⟩ : ∃ lots : Int, |lots| = min |order.remaining| available ∧
      (available ≠ 0 → 0 < order.remaining ∧ 0 < lots ∧ lots ≤ order.remaining ∨
        order.remaining < 0 ∧ lots < 0 ∧ order.remaining ≤ lots) := by
    rcases lt_or_gt_of_ne outstanding with sell | buy
    · have negated : |order.remaining| = -order.remaining := abs_of_neg sell
      refine ⟨-min |order.remaining| available, ?_, fun _ => Or.inr ⟨sell, by omega, by omega⟩⟩
      rw [abs_neg, abs_of_nonneg (by omega)]
    · have same : |order.remaining| = order.remaining := abs_of_pos buy
      refine ⟨min |order.remaining| available, ?_, fun _ => Or.inl ⟨buy, by omega, by omega⟩⟩
      rw [abs_of_nonneg (by omega)]
  unfold fill
  refine Yields.bind_of_ok (access_of_some fillable.atRow) ?_
  refine Yields.bind_of_ok (access_of_some fillable.atOrder) ?_
  refine Yields.bind_of_ok (outstandingLots_eq magnitudeFits) ?_
  simp only [← size]
  split
  · exact Filled.nothing (by omega)
  · refine (checkedProduct_yields |lots| price).bind fun notional multiplied => ?_
    obtain ⟨rfl, _, priceNonneg, fits⟩ := multiplied
    have notionalNonneg : 0 ≤ |lots| * price := mul_nonneg (abs_nonneg _) priceNonneg
    refine Yields.bind_of_ok (feeOf_eq notionalNonneg fits config.feePpm_le) ?_
    have feeNonneg : 0 ≤ feeDue config.feePpm (|lots| * price) := feeDue_nonneg notionalNonneg
    refine Yields.bind_of_ok
      (exceedsCash_eq fillable.cash.2 notionalNonneg feeNonneg) ?_
    split
    · next refused =>
        rw [Bool.and_eq_true] at refused
        exact Filled.refused (of_decide_eq_true refused.1) (by omega)
    · next within =>
        refine execute_yields fillable (toward (by omega)) size ⟨notionalNonneg, fits⟩ rfl ?_
        intro buy
        by_contra short
        exact within (by simp only [isBuy_of_pos buy, Bool.true_and, decide_eq_true_eq]; omega)

end Filling

/-! ## The order at work -/

/-- The opposing trade that consumes the queue the order rests in. -/
def Qualifies (event : QueueEvent) (buy : Bool) (limitPrice : Int) : Prop :=
  event.tradePrice = limitPrice ∧ event.aggressor = if buy then -1 else 1

def arrivedQueue (event : BookEvent) (buy : Bool) (queue : QueueAudit) : QueueAudit :=
  { queue with
    ahead := if buy then event.bidSize else event.askSize
    initialAhead := if buy then event.bidSize else event.askSize
    arrivalSequence := event.sequence
    arrivalTimeNs := event.receiveTimeNs }

def consumedQueue (tradeSize : Int) (queue : QueueAudit) : QueueAudit :=
  { queue with ahead := queue.ahead - min queue.ahead tradeSize }

structure Working (config : Config) (event : BookEvent) (i k : Nat) (state : InstrumentState)
    (order : ReplayOrder) (now : State) : Prop extends
    Fillable config i k state order now where
  pending : state.pending = k + 1
  id : order.id = k + 1
  submitted : 0 ≤ order.timestampNs ∧ order.timestampNs ≤ event.receiveTimeNs

inductive Queued (config : Config) (event : QueueEvent) (i k : Nat) (state : InstrumentState)
    (order : ReplayOrder) (queue : QueueAudit) (self : State) : State → Prop
  | travelling (waiting : queue.arrivalTimeNs < 0)
      (early : event.book.receiveTimeNs - order.timestampNs < config.latencyNs) :
      Queued config event i k state order queue self self
  | rejected (waiting : queue.arrivalTimeNs < 0)
      (unfit : ArrivalRefused event.book (isBuy order) queue.limitPrice) :
      Queued config event i k state order queue self
        (retired i k state order .arrivalRejected self)
  | arrived (waiting : queue.arrivalTimeNs < 0)
      (due : config.latencyNs ≤ event.book.receiveTimeNs - order.timestampNs)
      (best : ¬ ArrivalRefused event.book (isBuy order) queue.limitPrice) :
      Queued config event i k state order queue self
        (self.setQueue k (arrivedQueue event.book (isBuy order) queue))
  | passed (resting : 0 ≤ queue.arrivalTimeNs)
      (apart : ¬ Qualifies event (isBuy order) queue.limitPrice) :
      Queued config event i k state order queue self self
  | traded (resting : 0 ≤ queue.arrivalTimeNs)
      (qualifies : Qualifies event (isBuy order) queue.limitPrice) {after : State}
      (filled : Filled config event.book i k state order
        (event.tradeSize - min queue.ahead event.tradeSize) queue.limitPrice
        (self.setQueue k (consumedQueue event.tradeSize queue)) after) :
      Queued config event i k state order queue self after

def opposingSize (event : BookEvent) (buy : Bool) : Int :=
  if buy then event.askSize else event.bidSize

def opposingPrice (event : BookEvent) (buy : Bool) : Int :=
  if buy then event.ask else event.bid

inductive Matched (config : Config) (seen : Observation) (i : Nat) (self : State) : State → Prop
  | idle (state : InstrumentState) (atRow : self.instruments[i]? = some state)
      (free : state.pending = 0) : Matched config seen i self self
  | early (quote : seen.queueEvent = none) : Matched config seen i self self
  | quoted (k : Nat) (state : InstrumentState) (order : ReplayOrder)
      (working : Working config seen.event i k state order self)
      (quote : seen.queueEvent = none)
      (due : config.latencyNs ≤ seen.event.receiveTimeNs - order.timestampNs) {after : State}
      (filled : Filled config seen.event i k state order
        (opposingSize seen.event (isBuy order)) (opposingPrice seen.event (isBuy order)) self
        after) :
      Matched config seen i self after
  | queued (k : Nat) (state : InstrumentState) (order : ReplayOrder) (queue : QueueAudit)
      (event : QueueEvent) (working : Working config seen.event i k state order self)
      (atQueue : self.queues[k]? = some queue) (trade : seen.queueEvent = some event)
      {after : State} (queued : Queued config event i k state order queue self after) :
      Matched config seen i self after

section Matching

variable {config : Config} {seen : Observation} {event : QueueEvent} {i k : Nat}
  {state : InstrumentState} {order : ReplayOrder} {queue : QueueAudit} {self : State}

theorem QueueEvent.tradeSize_fits (event : QueueEvent) : Fits event.tradeSize := event.fits.2

theorem BookEvent.receiveTimeNs_fits (event : BookEvent) : Fits event.receiveTimeNs :=
  event.fits _ (by simp)

theorem processQueue_yields (working : Working config event.book i k state order self)
    (atQueue : self.queues[k]? = some queue) (aheadNonneg : 0 ≤ queue.ahead)
    (aheadFits : Fits queue.ahead) (traded : 0 ≤ event.tradeSize) :
    Yields (Queued config event i k state order queue self)
      (fun raised => Defined raised.error) (processQueue config event i k self) := by
  have slot : order.id - 1 = k := by rw [working.id, Nat.add_sub_cancel]
  have submitted := working.submitted
  unfold processQueue
  refine Yields.bind_of_ok (raiseIn_ok.mpr (access_of_some working.atRow)) ?_
  refine Yields.bind_of_ok (raiseIn_ok.mpr (access_of_some working.atOrder)) ?_
  rw [slot]
  refine Yields.bind_of_ok (raiseIn_ok.mpr (access_of_some atQueue)) ?_
  simp only
  split
  · next waiting =>
      have waitedFits : Fits (event.book.receiveTimeNs - order.timestampNs) :=
        event.book.receiveTimeNs_fits.of_nonneg (by omega) (by omega)
      refine Yields.bind_of_ok (raiseIn_ok.mpr (int64_of_fits waitedFits)) ?_
      split
      · next early => exact Queued.travelling waiting early
      · split
        · next unfit => exact Queued.rejected waiting unfit
        · next due best => exact Queued.arrived waiting (by omega) best
  · next resting =>
      by_cases apart : event.tradePrice ≠ queue.limitPrice ∨
          event.aggressor ≠ if isBuy order then -1 else 1
      · rw [if_pos apart]
        refine Queued.passed (by omega) fun qualifies => ?_
        rcases apart with price | side
        · exact price qualifies.1
        · exact side qualifies.2
      · rw [if_neg apart]
        rw [not_or, not_ne_iff, not_ne_iff] at apart
        have aheadLeft : Fits (queue.ahead - min queue.ahead event.tradeSize) :=
          aheadFits.of_nonneg (by omega) (by omega)
        have availableFits : Fits (event.tradeSize - min queue.ahead event.tradeSize) :=
          event.tradeSize_fits.of_nonneg (by omega) (by omega)
        refine Yields.bind_of_ok (raiseIn_ok.mpr (int64_of_fits aheadLeft)) ?_
        refine Yields.bind_of_ok (raiseIn_ok.mpr (int64_of_fits availableFits)) ?_
        have fillable : Fillable config i k state order
            (self.setQueue k (consumedQueue event.tradeSize queue)) :=
          { working.toFillable with }
        refine ((fill_yields fillable (by omega)).raiseIn _).mono fun after filled => ?_
        exact Queued.traded (by omega) apart filled

theorem matchPending_yields (atRow : self.instruments[i]? = some state)
    (sizes : 0 ≤ seen.event.bidSize ∧ 0 ≤ seen.event.askSize)
    (busy : ∀ k, state.pending = k + 1 →
      ∃ order, Working config seen.event i k state order self)
    (resting : ∀ event, seen.queueEvent = some event → 0 ≤ event.tradeSize ∧
      ∀ k, state.pending = k + 1 →
        ∃ queue, self.queues[k]? = some queue ∧ 0 ≤ queue.ahead ∧ Fits queue.ahead) :
    Yields (Matched config seen i self) (fun raised => Defined raised.error)
      (matchPending config seen.event seen.queueEvent i self) := by
  unfold matchPending
  refine Yields.bind_of_ok (raiseIn_ok.mpr (access_of_some atRow)) ?_
  split
  · next free => exact Matched.idle state atRow free
  · next taken =>
      obtain ⟨k, slot⟩ := Nat.exists_eq_succ_of_ne_zero taken
      obtain ⟨order, working⟩ := busy k slot
      have index : state.pending - 1 = k := by omega
      have submitted := working.submitted
      rw [index]
      refine Yields.bind_of_ok (raiseIn_ok.mpr (access_of_some working.atOrder)) ?_
      split
      · next event trade =>
          obtain ⟨traded, atQueues⟩ := resting event trade
          obtain ⟨queue, atQueue, aheadNonneg, aheadFits⟩ := atQueues k slot
          have same : event.book = seen.event := by
            cases seen with
            | book _ => cases trade
            | queue _ =>
                cases trade
                rfl
          refine (processQueue_yields (same ▸ working) atQueue aheadNonneg aheadFits traded).mono ?_
          exact fun after queued =>
            Matched.queued k state order queue event working atQueue trade queued
      · next quote =>
          have waitedFits : Fits (seen.event.receiveTimeNs - order.timestampNs) :=
            seen.event.receiveTimeNs_fits.of_nonneg (by omega) (by omega)
          refine Yields.bind_of_ok (raiseIn_ok.mpr (int64_of_fits waitedFits)) ?_
          split
          · next due =>
              have offered : 0 ≤ opposingSize seen.event (isBuy order) := by
                unfold opposingSize
                split
                · exact sizes.2
                · exact sizes.1
              refine ((fill_yields working.toFillable offered).raiseIn _).mono ?_
              exact fun after filled =>
                Matched.quoted k state order working quote due filled
          · exact Matched.early quote

end Matching

/-! ## The signal -/

/-- The order table without the order at work, if there is one. -/
def cancelled (pending : Nat) (orders : List ReplayOrder) : List ReplayOrder :=
  match pending with
  | 0 => orders
  | k + 1 => orders.modify k fun order => { order with status := .cancelled }

def flippedRow (config : Config) (state : InstrumentState) : InstrumentState :=
  { state with
    countdown := config.rebalanceEvents
    targetLong := !state.targetLong
    pending := 0 }

/-- The table once the signal has flipped and nothing is at work. -/
def flipped (config : Config) (i : Nat) (state : InstrumentState) (self : State) : State :=
  { self.setInstrument i (flippedRow config state) with
    orders := cancelled state.pending self.orders }

def submitted (config : Config) (event : BookEvent) (i : Nat) (state : InstrumentState)
    (quantity : Int) (self : State) : State :=
  { self.setInstrument i { state with pending := self.orders.length + 1 } with
    orders := self.orders ++ [newOrder event (self.orders.length + 1) quantity]
    queues := if config.fifo then self.queues ++ [newQueue event quantity] else self.queues }

inductive Rebalanced (config : Config) (event : BookEvent) (i : Nat) (state : InstrumentState)
    (self : State) : State → Prop
  | counting (more : decrement state.countdown ≠ 0) :
      Rebalanced config event i state self
        (self.setInstrument i { state with countdown := decrement state.countdown })
  | settled (due : decrement state.countdown = 0)
      (there : target config (flippedRow config state) - state.position = 0) :
      Rebalanced config event i state self (flipped config i state self)
  | submitted (due : decrement state.countdown = 0) (quantity : Int)
      (way : quantity = target config (flippedRow config state) - state.position)
      (short : quantity ≠ 0) :
      Rebalanced config event i state self
        (submitted config event i (flippedRow config state) quantity (flipped config i state self))

section Rebalancing

variable {config : Config} {event : BookEvent} {i : Nat} {state : InstrumentState}
  {self : State}

theorem decrement_eq {countdown : Nat} (positive : 0 < countdown) :
    decrement countdown = countdown - 1 :=
  if_neg (by omega)

theorem target_bounds (config : Config) (state : InstrumentState) :
    0 ≤ target config state ∧ target config state ≤ config.targetLots := by
  have positive := config.targetLots_pos
  unfold target
  split
  · omega
  · omega

theorem cancelPending_eq {signalled : InstrumentState}
    (busy : ∀ k, signalled.pending = k + 1 → ∃ order, self.orders[k]? = some order) :
    cancelPending i signalled self =
      .ok { self.setInstrument i { signalled with pending := 0 } with
            orders := cancelled signalled.pending self.orders } := by
  unfold cancelPending
  cases slot : signalled.pending with
  | zero =>
      obtain ⟨position, bid, countdown, pending, targetLong⟩ := signalled
      cases slot
      rfl
  | succ k =>
      obtain ⟨order, atOrder⟩ := busy k slot
      have modified : self.orders.modify k (fun order => { order with status := .cancelled }) =
          self.orders.set k { order with status := .cancelled } :=
        Tables.modify_eq_set atOrder
      rw [if_neg (Nat.succ_ne_zero k), Nat.add_sub_cancel, access_of_some atOrder]
      simp only [bind, Except.bind, pure, Except.pure, cancelled, modified]
      rfl

theorem rebalance_yields (atRow : self.instruments[i]? = some state)
    (held : 0 ≤ state.position ∧ state.position ≤ config.targetLots)
    (busy : ∀ k, state.pending = k + 1 → ∃ order, self.orders[k]? = some order) :
    Yields (Rebalanced config event i state self) (fun raised => Defined raised.error)
      (rebalance config event i self) := by
  unfold rebalance
  refine Yields.bind_of_ok (raiseIn_ok.mpr (access_of_some atRow)) ?_
  by_cases more : decrement state.countdown ≠ 0
  · simp only [if_pos more]
    exact Rebalanced.counting more
  · have due : decrement state.countdown = 0 := not_ne_iff.mp more
    have bounds := target_bounds config (flippedRow config state)
    have within : i < self.instruments.length := (List.getElem?_eq_some_iff.mp atRow).1
    have atFlipped : (flipped config i state self).instruments[i]? =
        some (flippedRow config state) := List.getElem?_set_self within
    have wayFits : Fits (target config (flippedRow config state) - state.position) :=
      config.targetLots_fits.of_abs_le (abs_le.mpr ⟨by omega, by omega⟩)
    simp only [if_neg more]
    refine Yields.bind_of_ok (raiseIn_ok.mpr (cancelPending_eq busy)) ?_
    refine Yields.raiseIn _ ?_
    unfold submit
    refine Yields.bind_of_ok (access_of_some atFlipped) ?_
    refine Yields.bind_of_ok (int64_of_fits wayFits) ?_
    split
    · next there => exact Rebalanced.settled due there
    · next short =>
        split
        · exact Failure.noConfusion
        · exact Rebalanced.submitted due _ rfl short

end Rebalancing

/-! ## One event -/

structure Checked (config : Config) (event : BookEvent) (now : State) : Prop where
  sequence : event.sequence = now.processed
  instrument : event.instrumentId < now.instruments.length
  received : 0 ≤ event.receiveTimeNs
  ordered : now.processed ≠ 0 → now.lastReceiveTimeNs ≤ event.receiveTimeNs
  bid : 0 < event.bid
  spread : event.bid ≤ event.ask
  sizes : 0 ≤ event.bidSize ∧ 0 ≤ event.askSize

structure TradeChecked (event : QueueEvent) : Prop where
  size : 0 ≤ event.tradeSize
  quiet : event.tradeSize = 0 → event.aggressor = 0 ∧ event.tradePrice = 0

def marked (event : BookEvent) (state : InstrumentState) (self : State) : State :=
  self.setInstrument event.instrumentId { state with bid := event.bid }

def closed (event : BookEvent) (self : State) : State :=
  { self with
    lastReceiveTimeNs := event.receiveTimeNs
    processed := self.processed + 1 }

inductive Observed (config : Config) (seen : Observation) (self : State) : State → Prop
  | mk {state row : InstrumentState} {matched rebalanced : State}
      (checked : Checked config seen.event self)
      (trade : ∀ event, seen.queueEvent = some event → TradeChecked event)
      (atRow : self.instruments[seen.event.instrumentId]? = some state)
      (matching : Matched config seen seen.event.instrumentId (marked seen.event state self) matched)
      (atMatched : matched.instruments[seen.event.instrumentId]? = some row)
      (rebalancing : Rebalanced config seen.event seen.event.instrumentId row matched rebalanced) :
      Observed config seen self (closed seen.event rebalanced)

section Observing

variable {config : Config} {event : BookEvent} {i k : Nat} {state : InstrumentState}
  {order : ReplayOrder} {queue : QueueAudit} {self after : State}

theorem checkEvent_yields (config : Config) (event : BookEvent) (self : State) :
    Yields (fun _ => Checked config event self) Defined (checkEvent config event self) := by
  unfold checkEvent
  split
  · exact Failure.noConfusion
  · next early =>
      simp only [not_or] at early
      obtain ⟨sequence, _, instrument, _, began, received⟩ := early
      have ageFits : Fits (event.receiveTimeNs - event.eventTimeNs) :=
        event.receiveTimeNs_fits.of_nonneg (by omega) (by omega)
      refine Yields.bind_of_ok (int64_of_fits ageFits) ?_
      split
      · exact Failure.noConfusion
      · next late =>
          simp only [not_or, not_and] at late
          obtain ⟨_, ordered, bid, spread, bidSize, askSize⟩ := late
          exact
            { sequence := not_ne_iff.mp sequence
              instrument := by omega
              received := by omega
              ordered := fun begun => not_lt.mp (ordered begun)
              bid := by omega
              spread := by omega
              sizes := by omega }

theorem checkQueueEvent_yields (event : QueueEvent) :
    Yields (fun _ => TradeChecked event) Defined (checkQueueEvent event) := by
  unfold checkQueueEvent
  split
  · exact Failure.noConfusion
  · next accepted => exact { size := by omega, quiet := by omega }

theorem Filled.frame {available price : Int}
    (filled : Filled config event i k state order available price self after) :
    after.processed = self.processed ∧ after.queues = self.queues := by
  cases filled with
  | nothing _ => exact ⟨rfl, rfl⟩
  | refused _ _ => exact ⟨rfl, rfl⟩
  | executed _ _ _ => exact ⟨rfl, rfl⟩

theorem Matched.processed {seen : Observation} (matched : Matched config seen i self after) :
    after.processed = self.processed := by
  cases matched with
  | idle _ _ _ => rfl
  | early _ => rfl
  | quoted k state order _ _ _ filled => exact filled.frame.1
  | queued k state order queue event _ _ _ queued =>
      cases queued with
      | travelling _ _ => rfl
      | rejected _ _ => rfl
      | arrived _ _ _ => rfl
      | passed _ _ => rfl
      | traded _ _ filled => exact filled.frame.1

theorem Rebalanced.processed (rebalanced : Rebalanced config event i state self after) :
    after.processed = self.processed := by
  cases rebalanced with
  | counting _ => rfl
  | settled _ _ => rfl
  | submitted _ _ _ _ => rfl

end Observing

end Gambit.TopOfBook
