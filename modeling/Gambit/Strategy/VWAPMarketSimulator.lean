import Gambit.Strategy.SimpleMarketSimulator

/-!
# VWAPMarketSimulator

The simulator of strategy_components.py for VWAP orders.  What it does with an
order is decided from the order and the market data and then applied to the
order.  Array values are floats read exactly, with NaN and the infinities; times
are nanoseconds.
-/

set_option autoImplicit false

namespace Gambit

open Raising

/-- A value of a float array. -/
inductive ArrayValue where
  | real (value : ℚ)
  | nan
  | posInf
  | negInf
deriving DecidableEq, Repr

namespace ArrayValue

def infinity (positive : Bool) : ArrayValue := if positive then .posInf else .negInf

/-- A real times an infinity. -/
def scaled (value : ℚ) (positive : Bool) : ArrayValue :=
  if value = 0 then .nan else infinity (decide (0 < value) == positive)

def mul : ArrayValue → ArrayValue → ArrayValue
  | .nan, _ | _, .nan => .nan
  | .real a, .real b => .real (a * b)
  | .real a, .posInf | .posInf, .real a => scaled a true
  | .real a, .negInf | .negInf, .real a => scaled a false
  | .posInf, .posInf | .negInf, .negInf => .posInf
  | .posInf, .negInf | .negInf, .posInf => .negInf

def add : ArrayValue → ArrayValue → ArrayValue
  | .nan, _ | _, .nan => .nan
  | .real a, .real b => .real (a + b)
  | .posInf, .negInf | .negInf, .posInf => .nan
  | .posInf, _ | _, .posInf => .posInf
  | .negInf, _ | _, .negInf => .negInf

/-- Division; a divisor of zero counts as positive. -/
def div : ArrayValue → ArrayValue → ArrayValue
  | .nan, _ | _, .nan => .nan
  | .real a, .real b => if b = 0 then scaled a true else .real (a / b)
  | .real _, _ => .real 0
  | .posInf, .real b => infinity (decide (0 ≤ b))
  | .negInf, .real b => infinity (decide (b < 0))
  | _, _ => .nan

/-- `np.sum` -/
def sum (values : List ArrayValue) : ArrayValue := values.foldl add (.real 0)

/-- `value > 0` -/
def isPositive : ArrayValue → Bool
  | .real value => 0 < value
  | .posInf => true
  | .nan | .negInf => false

/-- `value <= bound` -/
def atMost (value : ArrayValue) (bound : ℚ) : Bool :=
  match value with
  | .real value => value ≤ bound
  | .negInf => true
  | .nan | .posInf => false

/-- `value >= bound` -/
def atLeast (value : ArrayValue) (bound : ℚ) : Bool :=
  match value with
  | .real value => bound ≤ value
  | .posInf => true
  | .nan | .negInf => false

def toScalar : ArrayValue → Scalar
  | .real value => .real value
  | .nan => .nan
  | .posInf | .negInf => .infinite

end ArrayValue

/-- An indicator's values, one for each timestamp. -/
structure Series (timestamps : Grid) where
  values : List ArrayValue
  perTimestamp : values.length = timestamps.timestamps.length

/-- What `getattr` finds on a namespace of indicators. -/
inductive IndicatorAttribute (timestamps : Grid) where
  | missing
  | none
  | series (values : Series timestamps)

/-- The indicators of each contract group. -/
abbrev Indicators (timestamps : Grid) := String → Option (String → IndicatorAttribute timestamps)

/-- What the simulator does with an order. -/
inductive Decision where
  | wait
  | cancel
  | fill (qty price : ℚ)
deriving DecidableEq

structure VWAPMarketSimulator where
  priceIndicator : String
  volumeIndicator : String
  backupPriceIndicator : Option String

namespace VWAPMarketSimulator

variable {timestamps : Grid} (self : VWAPMarketSimulator)

/-- `assert_`, whose messages name the contract group, the timestamp and the index. -/
def assertionFailed : Exn := .raised "PQException" false

def seriesOf (found : IndicatorAttribute timestamps) : Except Exn (Series timestamps) :=
  match found with
  | .missing => .error (.raised "AttributeError" false)
  | .none => .error assertionFailed
  | .series values => .ok values

def valueAt (values : Series timestamps) (i : Nat) : Except Exn ArrayValue :=
  match values.values[i]? with
  | some value => .ok value
  | none => .error (.raised "IndexError" false)

/-- `_validate_window` and `_validate_stop`; a timestamp of this model is never NaT. -/
def validateOrder (order : Order) : Except Exn Unit :=
  match order.kind with
  | .vwap vwapStop vwapEndTime =>
      if vwapEndTime < order.timestamp then
        .error (.valueError "VWAP end time cannot precede the order timestamp")
      else validateVwapStop vwapStop
  | _ => .ok ()

/-- The stop, which is off when it is not finite. -/
def stopReached (order : Order) (vwapStop : Scalar) (price : ArrayValue) : Bool :=
  match vwapStop with
  | .real stop => (0 ≤ order.qty && price.atMost stop) || (order.qty < 0 && price.atLeast stop)
  | _ => false

/-- The index ends the grid or its day. -/
def dayEnds (timestamps : Grid) (i : Nat) (timestamp : Timestamp) : Bool :=
  match timestamps.timestamps[i + 1]? with
  | none => true
  | some next => day timestamp < day next

/-- The prices and volumes under the mask, for times from `start` to `stop`. -/
def masked (price volume : Series timestamps) (timestamp start stop : Timestamp) :
    List (ArrayValue × ArrayValue) :=
  ((timestamps.timestamps.zip (price.values.zip volume.values)).filter fun bar =>
    bar.2.1.isPositive && bar.2.2.isPositive && bar.1 ≤ timestamp && start ≤ bar.1 &&
      bar.1 ≤ stop).map Prod.snd

def averagePrice (bars : List (ArrayValue × ArrayValue)) : ArrayValue :=
  (ArrayValue.sum (bars.map fun bar => bar.1.mul bar.2)).div
    (ArrayValue.sum (bars.map Prod.snd))

/-- The price of the bars, or the backup price where there are none. -/
def executionPrice (indicators : String → IndicatorAttribute timestamps) (i : Nat)
    (bars : List (ArrayValue × ArrayValue)) : Except Exn ArrayValue :=
  if bars = [] then
    match self.backupPriceIndicator with
    | none => .error assertionFailed
    | some name => do
        let backup ← seriesOf (indicators name)
        valueAt backup i
  else .ok (averagePrice bars)

/-- `np.fix` -/
def fix (value : ℚ) : ℤ := if 0 ≤ value then ⌊value⌋ else ⌈value⌉

/-- The quantity a stop fills: the part of the window elapsed, in whole contracts. -/
def stopQuantity (order : Order) (vwapEndTime timestamp : Timestamp) : ℚ :=
  let duration := vwapEndTime - order.timestamp
  let fraction : ℚ :=
    if duration ≤ 0 then 1
    else min (max ((timestamp - order.timestamp : Int) / (duration : ℚ)) 0) 1
  fix (order.qty * fraction)

def decision (i : Nat) (timestamp : Timestamp) (indicators : Indicators timestamps)
    (order : Order) (vwapStop : Scalar) (vwapEndTime : Timestamp) : Except Exn Decision :=
  match indicators order.contract.contractGroup with
  | none => .error assertionFailed
  | some attributes => do
      let price ← seriesOf (attributes self.priceIndicator)
      let volume ← seriesOf (attributes self.volumeIndicator)
      let current ← valueAt price i
      let endOrder := stopReached order vwapStop current
      if ¬ endOrder ∧ timestamp < vwapEndTime ∧ ¬ dayEnds timestamps i timestamp then .ok .wait
      else do
        let bars := masked price volume timestamp order.timestamp
          (if endOrder then timestamp else vwapEndTime)
        let vwap ← self.executionPrice attributes i bars
        match ← validatePrice "VWAP execution price" false vwap.toScalar with
        | none => .error assertionFailed
        | some vwap =>
            if vwap < 0 then .error (.valueError "VWAP execution price cannot be negative")
            else if endOrder then
              let fillQty := stopQuantity order vwapEndTime timestamp
              .ok (if fillQty = 0 then .cancel else .fill fillQty vwap)
            else .ok (.fill order.qty vwap)

/-- Fills and cancels the order and reports the trade, which is checked last. -/
def fillOrder (timestamp : Timestamp) (id : OrderId) (qty price : ℚ) (heap : Heap) :
    Except (Raised Exn Heap) (Heap × Trade) := do
  let filled ← raiseIn heap ((heap.order id).fill (some qty))
  let heap := heap.set id filled.cancel
  let trade : Trade := ⟨filled.contract, id, timestamp, qty, .real price, .real 0, .real 0⟩
  raiseIn heap (validateTradeReferences trade filled.cancel)
  let _ ← raiseIn heap (validatedTradeNumbers trade)
  .ok (heap, trade)

/-- The body of the loop over the orders. -/
def step (i : Nat) (timestamp : Timestamp) (indicators : Indicators timestamps)
    (state : Heap × List Trade) (id : OrderId) :
    Except (Raised Exn Heap) (Heap × List Trade) := do
  let (heap, trades) := state
  match (heap.order id).kind with
  | .vwap vwapStop vwapEndTime =>
      match ← raiseIn heap
        (self.decision i timestamp indicators (heap.order id) vwapStop vwapEndTime) with
      | .wait => .ok (heap, trades)
      | .cancel => .ok (heap.set id (heap.order id).cancel, trades)
      | .fill qty price => do
          let (heap, trade) ← fillOrder timestamp id qty price heap
          .ok (heap, trades ++ [trade])
  | _ => .ok (heap, trades)

/-- `__call__`: the orders after it and the trades, or what it raises in which state. -/
def call (i : Nat) (indicators : Indicators timestamps) (heap : Heap) (orders : List OrderId) :
    Except (Raised Exn Heap) (Heap × List Trade) :=
  match timestamps.timestamps[i]? with
  | none => .error ⟨.raised "IndexError" false, heap⟩
  | some timestamp => do
      orders.forM fun id => raiseIn heap (validateOrder (heap.order id))
      orders.foldlM (self.step i timestamp indicators) (heap, [])

/-! ## No look-ahead -/

/-- Equal up to and including the index. -/
def AgreeTo (i : Nat) (a b : Series timestamps) : Prop :=
  ∀ j ≤ i, a.values[j]? = b.values[j]?

/-- Both there and related, or both absent in the same way. -/
def AttributesAgree (related : Series timestamps → Series timestamps → Prop) :
    IndicatorAttribute timestamps → IndicatorAttribute timestamps → Prop
  | .missing, .missing => True
  | .none, .none => True
  | .series a, .series b => related a b
  | _, _ => False

/-- The prices and volumes agree up to the index, the backup prices at it. -/
structure GroupsAgree (simulator : VWAPMarketSimulator) (i : Nat)
    (a b : String → IndicatorAttribute timestamps) : Prop where
  price : AttributesAgree (AgreeTo i) (a simulator.priceIndicator) (b simulator.priceIndicator)
  volume : AttributesAgree (AgreeTo i) (a simulator.volumeIndicator) (b simulator.volumeIndicator)
  backup : ∀ name ∈ simulator.backupPriceIndicator,
    AttributesAgree (fun x y => x.values[i]? = y.values[i]?) (a name) (b name)

def Agree (i : Nat) (a b : Indicators timestamps) : Prop :=
  ∀ group, Option.Rel (self.GroupsAgree i) (a group) (b group)

variable {self} {i : Nat} {timestamp : Timestamp} {a b price volume : Series timestamps}

theorem AgreeTo.take (agree : AgreeTo i a b) :
    a.values.take (i + 1) = b.values.take (i + 1) := by
  apply List.ext_getElem?
  intro j
  by_cases inside : j < i + 1
  · rw [List.getElem?_take_of_lt inside, List.getElem?_take_of_lt inside]
    exact agree j (Nat.le_of_lt_succ inside)
  · rw [List.getElem?_eq_none (by rw [List.length_take]; omega),
      List.getElem?_eq_none (by rw [List.length_take]; omega)]

theorem lt_of_mem_drop {time : Timestamp} (found : timestamps.timestamps[i]? = some timestamp)
    (later : time ∈ timestamps.timestamps.drop (i + 1)) : timestamp < time := by
  obtain ⟨inside, rfl⟩ := List.getElem?_eq_some_iff.1 found
  have ordered := timestamps.increasing
  rw [← List.take_append_drop i timestamps.timestamps, List.drop_eq_getElem_cons inside,
    List.pairwise_append, List.pairwise_cons] at ordered
  exact ordered.2.1.1 time later

/-- The mask keeps no bar behind the index. -/
theorem masked_take (found : timestamps.timestamps[i]? = some timestamp) (start stop : Timestamp) :
    masked price volume timestamp start stop =
      ((((timestamps.timestamps.zip (price.values.zip volume.values)).take (i + 1)).filter
        fun bar => bar.2.1.isPositive && bar.2.2.isPositive && bar.1 ≤ timestamp &&
          start ≤ bar.1 && bar.1 ≤ stop)).map Prod.snd := by
  unfold masked
  generalize barsAre : timestamps.timestamps.zip (price.values.zip volume.values) = bars
  have later : ∀ bar ∈ bars.drop (i + 1), ¬ bar.1 ≤ timestamp := by
    intro bar member
    rw [← barsAre, List.zip, List.drop_zipWith] at member
    exact not_le.2 (lt_of_mem_drop found (List.of_mem_zip member).1)
  nth_rewrite 1 [← List.take_append_drop (i + 1) bars]
  rw [List.filter_append, List.map_append]
  have none : (bars.drop (i + 1)).filter (fun bar => bar.2.1.isPositive && bar.2.2.isPositive &&
      bar.1 ≤ timestamp && start ≤ bar.1 && bar.1 ≤ stop) = [] := by
    rw [List.filter_eq_nil_iff]
    intro bar member
    simp [later bar member]
  rw [none, List.map_nil, List.append_nil]

theorem masked_agree (found : timestamps.timestamps[i]? = some timestamp)
    {price' volume' : Series timestamps} (prices : AgreeTo i price price')
    (volumes : AgreeTo i volume volume') (start stop : Timestamp) :
    masked price volume timestamp start stop = masked price' volume' timestamp start stop := by
  rw [masked_take found, masked_take found]
  simp only [List.zip, List.take_zipWith, prices.take, volumes.take]

theorem valueAt_congr (same : a.values[i]? = b.values[i]?) : valueAt a i = valueAt b i := by
  unfold valueAt
  rw [same]

/-- What is read of attributes that agree decides the same. -/
theorem seriesOf_bind {β : Type} {related : Series timestamps → Series timestamps → Prop}
    {x y : IndicatorAttribute timestamps} {f g : Series timestamps → Except Exn β}
    (agree : AttributesAgree related x y) (same : ∀ a b, related a b → f a = g b) :
    (seriesOf x >>= f) = (seriesOf y >>= g) := by
  cases x with
  | missing =>
      cases y with
      | missing => rfl
      | none => exact agree.elim
      | series b => exact agree.elim
  | none =>
      cases y with
      | missing => exact agree.elim
      | none => rfl
      | series b => exact agree.elim
  | series a =>
      cases y with
      | missing => exact agree.elim
      | none => exact agree.elim
      | series b => exact same a b agree

theorem executionPrice_agree {x y : String → IndicatorAttribute timestamps}
    (agree : self.GroupsAgree i x y) (bars : List (ArrayValue × ArrayValue)) :
    self.executionPrice x i bars = self.executionPrice y i bars := by
  unfold executionPrice
  by_cases none : bars = []
  · rw [if_pos none, if_pos none]
    cases name : self.backupPriceIndicator with
    | none => rfl
    | some name' => exact seriesOf_bind (agree.backup name' name) fun _ _ same => valueAt_congr same
  · rw [if_neg none, if_neg none]

theorem decision_agree (found : timestamps.timestamps[i]? = some timestamp)
    {x y : Indicators timestamps} (agree : self.Agree i x y) (order : Order) (vwapStop : Scalar)
    (vwapEndTime : Timestamp) :
    self.decision i timestamp x order vwapStop vwapEndTime =
      self.decision i timestamp y order vwapStop vwapEndTime := by
  have group := agree order.contract.contractGroup
  unfold decision
  cases left : x order.contract.contractGroup with
  | none =>
      rw [left] at group
      cases right : y order.contract.contractGroup with
      | none => rfl
      | some _ =>
          rw [right] at group
          cases group
  | some first =>
      rw [left] at group
      cases right : y order.contract.contractGroup with
      | none =>
          rw [right] at group
          cases group
      | some second =>
          rw [right] at group
          cases group with
          | some groups =>
              refine seriesOf_bind groups.price fun price price' prices => ?_
              refine seriesOf_bind groups.volume fun volume volume' volumes => ?_
              rw [valueAt_congr (prices i (Nat.le_refl _))]
              simp only [masked_agree found prices volumes, executionPrice_agree groups]

/-- Market data that agree up to the index lead to the same orders, trades and exceptions. -/
theorem call_agree {x y : Indicators timestamps} (agree : self.Agree i x y) (heap : Heap)
    (orders : List OrderId) : self.call i x heap orders = self.call i y heap orders := by
  unfold call
  cases found : timestamps.timestamps[i]? with
  | none => rfl
  | some timestamp =>
      have same : self.step i timestamp x = self.step i timestamp y := by
        funext state id
        obtain ⟨heap, trades⟩ := state
        unfold step
        simp only [decision_agree found agree]
      simp only [same]

/-! ## What a call leaves behind -/

variable {heap heap' after : Heap} {order filled : Order} {id : OrderId} {qty vwap : ℚ}
  {trade : Trade} {trades trades' : List Trade} {x : Indicators timestamps} {orders : List OrderId}

theorem fill_bounds (ran : order.fill (some qty) = .ok filled) :
    order.isOpen = true ∧ 0 < qty * order.qty ∧ |qty| ≤ |order.qty| := by
  unfold Order.fill at ran
  obtain ⟨fillable, ran⟩ := refuse_ok.mp ran
  obtain ⟨whole, checked, ran⟩ := bind_ok.mp ran
  obtain ⟨sameSign, ran⟩ := refuse_ok.mp ran
  obtain ⟨bounded, _⟩ := refuse_ok.mp ran
  obtain ⟨same, nonzero⟩ := wholeQuantity_ok checked
  rw [Option.getD_some] at same
  rw [← same] at sameSign bounded
  have qtyNonzero : qty ≠ 0 := by
    rw [same]
    exact mod_cast nonzero
  have small := not_lt.1 bounded
  have orderNonzero : order.qty ≠ 0 := by
    intro zero
    rw [zero, abs_zero] at small
    exact qtyNonzero (abs_nonpos_iff.1 small)
  refine ⟨?_, ?_, small⟩
  · cases status : order.status with
    | «open» => simp [Order.isOpen, status, OrderStatus.isOpen]
    | partiallyFilled => simp [Order.isOpen, status, OrderStatus.isOpen]
    | filled => exact absurd ⟨by simp [status], by simp [status]⟩ fillable
    | cancelRequested => exact absurd ⟨by simp [status], by simp [status]⟩ fillable
    | cancelled => exact absurd ⟨by simp [status], by simp [status]⟩ fillable
  · rw [mul_comm]
    exact lt_of_le_of_ne (not_lt.1 sameSign) (Ne.symm (mul_ne_zero orderNonzero qtyNonzero))

theorem fillOrder_ok {price : ℚ}
    (ran : fillOrder timestamp id qty price heap = .ok (heap', trade)) :
    ∃ filled, (heap.order id).fill (some qty) = .ok filled ∧ heap' = heap.set id filled.cancel ∧
      trade.order = id ∧ trade.qty = qty := by
  obtain ⟨filled, fills, ran⟩ := bind_ok.mp ran
  obtain ⟨_, _, ran⟩ := bind_ok.mp ran
  obtain ⟨_, _, ran⟩ := bind_ok.mp ran
  cases ran
  exact ⟨filled, raiseIn_ok.mp fills, rfl, rfl, rfl⟩

/-- Everything one round can do. -/
theorem step_ok (ran : self.step i timestamp x (heap, trades) id = .ok (heap', trades')) :
    (heap' = heap ∧ trades' = trades) ∨
      (heap' = heap.set id (heap.order id).cancel ∧ trades' = trades) ∨
      ∃ trade filled, (heap.order id).fill (some trade.qty) = .ok filled ∧
        heap' = heap.set id filled.cancel ∧ trade.order = id ∧ trades' = trades ++ [trade] := by
  unfold step at ran
  simp only at ran
  cases kind : (heap.order id).kind with
  | vwap vwapStop vwapEndTime =>
      rw [kind] at ran
      obtain ⟨decided, _, ran⟩ := bind_ok.mp ran
      cases decided with
      | wait =>
          cases ran
          exact Or.inl ⟨rfl, rfl⟩
      | cancel =>
          cases ran
          exact Or.inr (Or.inl ⟨rfl, rfl⟩)
      | fill qty price =>
          obtain ⟨⟨next, trade⟩, executed, ran⟩ := bind_ok.mp ran
          cases ran
          obtain ⟨filled, fills, same, own, whole⟩ := fillOrder_ok executed
          exact Or.inr (Or.inr ⟨trade, filled, by rw [whole]; exact fills, same, own, rfl⟩)
  | market | limit _ | stopLimit _ _ | roll _ _ _ =>
      rw [kind] at ran
      cases ran
      exact Or.inl ⟨rfl, rfl⟩

/-- A trade of an order: its sign, no more than its quantity, and the order is done. -/
structure FilledBy (before after : Heap) (trade : Trade) : Prop where
  sameSign : 0 < trade.qty * (before.order trade.order).qty
  bounded : |trade.qty| ≤ |(before.order trade.order).qty|
  terminal : (after.order trade.order).isOpen = false

/-- An order is as it was before the call or done. -/
def Settled (before after : Heap) (trades : List Trade) : Prop :=
  (∀ id, after.order id = before.order id ∨ (after.order id).isOpen = false) ∧
    ∀ trade ∈ trades, FilledBy before after trade

/-- Closing an order keeps what is settled. -/
theorem Settled.close {before : Heap} (id : OrderId) (settled : Settled before heap trades)
    (closed : order.isOpen = false) : Settled before (heap.set id order) trades := by
  have each : ∀ other, (heap.set id order).order other = heap.order other ∨
      ((heap.set id order).order other).isOpen = false := by
    intro other
    by_cases here : other = id
    · subst here
      rw [Heap.set_same]
      exact Or.inr closed
    · exact Or.inl (Heap.set_other here)
  refine ⟨fun other => ?_, fun trade member => ?_⟩
  · rcases each other with same | done
    · rw [same]
      exact settled.1 other
    · exact Or.inr done
  · obtain ⟨sameSign, bounded, terminal⟩ := settled.2 trade member
    refine ⟨sameSign, bounded, ?_⟩
    rcases each trade.order with same | done
    · rw [same]
      exact terminal
    · exact done

theorem step_settled {before : Heap} (settled : Settled before heap trades)
    (ran : self.step i timestamp x (heap, trades) id = .ok (heap', trades')) :
    Settled before heap' trades' := by
  rcases step_ok ran with ⟨rfl, rfl⟩ | ⟨rfl, rfl⟩ | ⟨trade, filled, fills, rfl, own, rfl⟩
  · exact settled
  · exact settled.close id (cancel_not_open _)
  · have closed := settled.close id (cancel_not_open filled)
    obtain ⟨live, sameSign, bounded⟩ := fill_bounds fills
    have untouched : heap.order id = before.order id := by
      rcases settled.1 id with same | done
      · exact same
      · rw [live] at done
        exact Bool.noConfusion done
    refine ⟨closed.1, fun other member => ?_⟩
    rcases List.mem_append.mp member with old | new
    · exact closed.2 other old
    · rw [List.mem_singleton.mp new]
      rw [untouched] at sameSign bounded
      exact ⟨by rw [own]; exact sameSign, by rw [own]; exact bounded,
        by rw [own, Heap.set_same]; exact cancel_not_open filled⟩

theorem call_ok (ran : self.call i x heap orders = .ok (after, trades)) :
    ∃ timestamp, timestamps.timestamps[i]? = some timestamp ∧
      orders.foldlM (self.step i timestamp x) (heap, []) = .ok (after, trades) := by
  unfold call at ran
  cases found : timestamps.timestamps[i]? with
  | none =>
      rw [found] at ran
      cases ran
  | some timestamp =>
      rw [found] at ran
      obtain ⟨_, _, ran⟩ := bind_ok.mp ran
      exact ⟨timestamp, rfl, ran⟩

theorem call_settled (ran : self.call i x heap orders = .ok (after, trades)) :
    Settled heap after trades := by
  obtain ⟨timestamp, _, ran⟩ := call_ok ran
  refine foldlM_ok (P := fun _ state => Settled heap state.1 state.2) ?_
    ⟨fun _ => Or.inl rfl, fun _ none => absurd none List.not_mem_nil⟩ ran
  rintro done id ⟨now, sofar⟩ ⟨next, more⟩ _ settled step
  exact step_settled settled step

/-- The stop of a VWAP order is reached at the index, and the quantity it would fill rounds to
zero. -/
structure StopRoundsToZero (simulator : VWAPMarketSimulator) (i : Nat)
    (x : Indicators timestamps) (order : Order) (timestamp : Timestamp) (vwapStop : Scalar)
    (vwapEndTime : Timestamp) : Prop where
  kind : order.kind = .vwap vwapStop vwapEndTime
  reached : ∃ attributes prices current, x order.contract.contractGroup = some attributes ∧
    attributes simulator.priceIndicator = .series prices ∧ prices.values[i]? = some current ∧
    stopReached order vwapStop current = true
  rounded : stopQuantity order vwapEndTime timestamp = 0

variable {vwapStop : Scalar} {vwapEndTime : Timestamp}

theorem StopRoundsToZero.cancelled
    (rounds : self.StopRoundsToZero i x order timestamp vwapStop vwapEndTime) :
    self.StopRoundsToZero i x order.cancel timestamp vwapStop vwapEndTime := by
  obtain ⟨kind, ⟨attributes, prices, current, group, price, here, reached⟩, rounded⟩ := rounds
  refine ⟨by rw [cancel_kind, kind], ⟨attributes, prices, current, ?_, price, here, ?_⟩, ?_⟩
  · rw [cancel_contract, group]
  · simpa only [stopReached, cancel_qty] using reached
  · simpa only [stopQuantity, cancel_qty, cancel_timestamp] using rounded

theorem StopRoundsToZero.decision {decided : Decision}
    (rounds : self.StopRoundsToZero i x order timestamp vwapStop vwapEndTime)
    (ran : self.decision i timestamp x order vwapStop vwapEndTime = .ok decided) :
    decided = .cancel := by
  obtain ⟨kind, ⟨attributes, prices, current, group, price, here, reached⟩, rounded⟩ := rounds
  unfold VWAPMarketSimulator.decision at ran
  rw [group] at ran
  obtain ⟨series, present, ran⟩ := bind_ok.mp ran
  rw [price] at present
  cases present
  obtain ⟨_, _, ran⟩ := bind_ok.mp ran
  obtain ⟨value, read, ran⟩ := bind_ok.mp ran
  have same : value = current := by
    rw [valueAt, here] at read
    exact (Except.ok.inj read).symm
  subst same
  simp only [reached, not_true_eq_false, false_and, if_false, if_true] at ran
  obtain ⟨_, _, ran⟩ := bind_ok.mp ran
  obtain ⟨checked, _, ran⟩ := bind_ok.mp ran
  cases checked with
  | none => cases ran
  | some vwap =>
      obtain ⟨_, ran⟩ := refuse_ok.mp ran
      simp only [rounded, if_true] at ran
      exact (Except.ok.inj ran).symm

theorem cancel_cancel (order : Order) : order.cancel.cancel = order.cancel := by
  unfold Order.cancel
  by_cases done : order.status = .filled ∨ order.status = .cancelled
  · rw [if_pos done, if_pos done]
  · rw [if_neg done]
    exact if_pos (Or.inr rfl)

/-- Such an order is cancelled, and no trade is made for it. -/
theorem call_rounds (ran : self.call i x heap orders = .ok (after, trades))
    (found : timestamps.timestamps[i]? = some timestamp) (listed : id ∈ orders)
    (rounds : self.StopRoundsToZero i x (heap.order id) timestamp vwapStop vwapEndTime) :
    after.order id = (heap.order id).cancel ∧ ∀ trade ∈ trades, trade.order ≠ id := by
  obtain ⟨time, foundTime, ran⟩ := call_ok ran
  obtain rfl : time = timestamp := Option.some.inj (foundTime.symm.trans found)
  have whole : (id ∉ orders ∧ after.order id = heap.order id ∨
      after.order id = (heap.order id).cancel) ∧ ∀ trade ∈ trades, trade.order ≠ id := by
    refine foldlM_ok (P := fun done state =>
      (id ∉ done ∧ state.1.order id = heap.order id ∨
        state.1.order id = (heap.order id).cancel) ∧ ∀ trade ∈ state.2, trade.order ≠ id)
      ?_ ⟨Or.inl ⟨List.not_mem_nil, rfl⟩, fun _ none => absurd none List.not_mem_nil⟩ ran
    rintro done other ⟨now, sofar⟩ ⟨next, more⟩ _ ⟨kept, others⟩ step
    simp only at kept others ⊢
    by_cases here : other = id
    · subst here
      -- The order is as before the call or cancelled already; either way it is cancelled.
      have again : self.StopRoundsToZero i x (now.order other) time vwapStop vwapEndTime ∧
          (now.order other).cancel = (heap.order other).cancel := by
        rcases kept with ⟨_, same⟩ | same
        · rw [same]
          exact ⟨rounds, rfl⟩
        · rw [same]
          exact ⟨rounds.cancelled, cancel_cancel _⟩
      unfold VWAPMarketSimulator.step at step
      simp only [again.1.kind] at step
      obtain ⟨decided, decision, step⟩ := bind_ok.mp step
      obtain rfl := again.1.decision (raiseIn_ok.mp decision)
      cases step
      exact ⟨Or.inr (by rw [Heap.set_same, again.2]), others⟩
    · have apart : ∀ (own : Order), (now.set other own).order id = now.order id :=
        fun own => Heap.set_other (Ne.symm here)
      have still : id ∉ done → id ∉ done ++ [other] := by
        intro absent member
        rcases List.mem_append.mp member with old | new
        · exact absent old
        · exact here (List.mem_singleton.mp new).symm
      rcases step_ok step with ⟨rfl, rfl⟩ | ⟨rfl, rfl⟩ | ⟨trade, filled, _, rfl, own, rfl⟩
      · exact ⟨kept.imp_left fun first => ⟨still first.1, first.2⟩, others⟩
      · rw [apart]
        exact ⟨kept.imp_left fun first => ⟨still first.1, first.2⟩, others⟩
      · rw [apart]
        refine ⟨kept.imp_left fun first => ⟨still first.1, first.2⟩, fun later member => ?_⟩
        rcases List.mem_append.mp member with old | new
        · exact others later old
        · rw [List.mem_singleton.mp new, own]
          exact here
  refine ⟨?_, whole.2⟩
  rcases whole.1 with ⟨absent, _⟩ | cancelled
  · exact absurd listed absent
  · exact cancelled

def threeMinutes : Grid where
  timestamps := [0, 60000000000, 120000000000]
  nonempty := by decide
  increasing := by decide

/-- Two bars that are given and a last one of the price `last`. -/
def history (last : ArrayValue) : Indicators threeMinutes := fun _ =>
  some fun name =>
    if name = "price" then .series ⟨[.real 100, .real 104, last], rfl⟩
    else if name = "volume" then .series ⟨[.real 1, .real 3, last], rfl⟩
    else .missing

/-- Eight contracts for the first minute. -/
def minuteOrder : Order where
  contract := ⟨"S", "g", none, 1, .active⟩
  timestamp := 0
  qty := 8
  timeInForce := .gtc
  status := .open
  kind := .vwap .nan 60000000000
  rollId := none
  rollLeg := none

end VWAPMarketSimulator

end Gambit
