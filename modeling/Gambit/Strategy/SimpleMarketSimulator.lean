import Gambit.Strategy.Run

/-!
# SimpleMarketSimulator

The simulator of strategy_components.py.  Its price function may change user
state and may miss prices; the slippage and charge models return numbers, and
none of these writes orders.  The legs of a roll are executed together or not
at all.
-/

set_option autoImplicit false

namespace Gambit

open Raising

/-- `validate_price_value` -/
def validatePrice (source : String) (allowMissing : Bool) (value : Scalar) :
    Except Exn (Option ℚ) :=
  match value with
  | .real price => .ok (some price)
  | .nan =>
      if allowMissing then .ok none
      else .error (.valueError (source ++ " returned a missing price"))
  | .infinite => .error (.valueError (source ++ " returned a non-finite price"))
  | .foreign => .error (.typeError (source ++ " returned a non-real scalar price"))

/-- `round`, half to even. -/
def pyRound (digits : Int) (value : ℚ) : ℚ :=
  let scaled := value * 10 ^ digits
  let rest := scaled - ⌊scaled⌋
  let rounded := if rest < 1 / 2 ∨ rest = 1 / 2 ∧ ⌊scaled⌋ % 2 = 0 then ⌊scaled⌋ else ⌊scaled⌋ + 1
  rounded / 10 ^ digits

/-- The float sum of a finite price and another float. -/
def Scalar.addTo (price : ℚ) : Scalar → Scalar
  | .real value => .real (price + value)
  | other => other

structure SimpleMarketSimulator (W : Type) where
  /-- `contract.components`, of a basket. -/
  components : Contract → List (Contract × ℚ)
  priceFunc : W → Contract → Nat → W × Except Exn Scalar
  slippage : Order → ℚ → Except Exn Scalar
  commission : Order → ℚ → Except Exn Scalar
  fee : Order → ℚ → Except Exn Scalar
  priceRounding : Int
  postTradeFunc : Option (W → Trade → W × Except Exn Unit)

namespace SimpleMarketSimulator

variable {W : Type} (self : SimpleMarketSimulator W)

def quote (source : String) (i : Nat) (contract : Contract) (world : W) :
    Except (Raised Exn W) (W × Option ℚ) := do
  let (world, value) := self.priceFunc world contract i
  let price ← raiseIn world (value >>= validatePrice source true)
  .ok (world, price)

/-- The loop over the components ends at a missing price. -/
def basketPrice (i : Nat) (contract : Contract) (world : W) :
    Except (Raised Exn W) (W × Option ℚ) :=
  (self.components contract).foldlM (fun (world, rawPrice) (component, ratio) =>
    match rawPrice with
    | none => .ok (world, none)
    | some rawPrice => do
        let (world, price) ← self.quote "market simulator basket price callback" i component world
        .ok (world, price.map fun price => rawPrice + price * ratio)) (world, some 0)

def rawPrice (i : Nat) (contract : Contract) (world : W) :
    Except (Raised Exn W) (W × Option ℚ) :=
  if self.components contract = [] then
    self.quote "market simulator price callback" i contract world
  else self.basketPrice i contract world

def isMarketable (order : Order) (price : ℚ) : Except Exn Bool :=
  match order.kind with
  | .limit limitPrice => do
      let limitPrice ← finiteReal limitPrice "limit price"
      .ok (0 < order.qty ∧ price ≤ limitPrice ∨ order.qty < 0 ∧ limitPrice ≤ price)
  | _ => .ok true

/-- The trade at a raw price; a limit order may not be marketable. -/
def execute (timestamp : Timestamp) (id : OrderId) (order : Order) (rawPrice : ℚ) :
    Except Exn (Option Trade) := do
  let slippage ← self.slippage order rawPrice
  match ← validatePrice "slippage model" false (slippage.addTo rawPrice) with
  | none => .ok none
  | some price => do
      let price := pyRound self.priceRounding price
      if ← isMarketable order price then do
        let commission ← self.commission order price
        let fee ← self.fee order price
        let trade : Trade :=
          ⟨order.contract, id, timestamp, order.qty, .real price, fee, commission⟩
        validateTradeReferences trade order
        let _ ← validatedTradeNumbers trade
        .ok (some trade)
      else .ok none

/-- The body of the loop over the orders. -/
def candidate (timestamp : Timestamp) (i : Nat) (heap : Heap) (world : W) (id : OrderId) :
    Except (Raised Exn W) (W × Option Trade) :=
  let order := heap.order id
  match order.kind with
  | .stopLimit _ _ =>
      .error ⟨.valueError "StopLimitOrder is deprecated and cannot be executed; emit a MarketOrder or LimitOrder from an explicit trigger rule", world⟩
  | .vwap _ _ | .roll _ _ _ => .ok (world, none)
  | .market | .limit _ => do
      match ← self.rawPrice i order.contract world with
      | (world, none) => .ok (world, none)
      | (world, some rawPrice) => do
          let trade ← raiseIn world (self.execute timestamp id order rawPrice)
          .ok (world, trade)

def candidateTrades (timestamp : Timestamp) (i : Nat) (heap : Heap) (orders : List OrderId)
    (world : W) : Except (Raised Exn W) (W × List Trade) :=
  orders.foldlM (fun (world, trades) id => do
    let (world, trade) ← self.candidate timestamp i heap world id
    .ok (world, trades ++ trade.toList)) (world, [])

/-- `roll_order_counts` and `roll_trade_counts` -/
def rollCount (heap : Heap) (orders : List OrderId) (rollId : String) : Nat :=
  orders.countP fun id => (heap.order id).rollId = some rollId

/-- The candidates that belong to no roll or to one with both legs. -/
def complete (heap : Heap) (orders : List OrderId) (candidates : List Trade) : List Trade :=
  candidates.filter fun trade =>
    match (heap.order trade.order).rollId with
    | none => true
    | some rollId =>
        rollCount heap (candidates.map Trade.order) rollId = rollCount heap orders rollId ∧
          rollCount heap orders rollId = 2

def settle (state : W × Heap) (trade : Trade) : Except (Raised Exn (W × Heap)) (W × Heap) := do
  let (world, heap) := state
  let order ← raiseIn state ((heap.order trade.order).fill none)
  let heap := heap.set trade.order order
  match self.postTradeFunc with
  | none => .ok (world, heap)
  | some postTradeFunc => do
      let (world, result) := postTradeFunc world trade
      raiseIn (world, heap) result
      .ok (world, heap)

/-- `__call__` -/
def call (timestamps : Grid) : MarketSim W := fun world heap orders i =>
  match self.candidateTrades (timestamps.timestamps.getD i 0) i heap orders world with
  | .error raised => ⟨raised.state, heap, .error raised.error⟩
  | .ok (world, candidates) =>
      let trades := complete heap orders candidates
      match trades.foldlM self.settle (world, heap) with
      | .error raised => ⟨raised.state.1, raised.state.2, .error raised.error⟩
      | .ok (world, heap) => ⟨world, heap, .ok (.sequence (trades.map some))⟩

end SimpleMarketSimulator

/-! ## Roll properties -/

structure SameRoll (before after : Order) : Prop where
  rollId : after.rollId = before.rollId
  rollLeg : after.rollLeg = before.rollLeg

theorem SameRoll.refl (order : Order) : SameRoll order order := ⟨rfl, rfl⟩

theorem SameRoll.trans {a b c : Order} (first : SameRoll a b) (second : SameRoll b c) :
    SameRoll a c :=
  ⟨second.rollId.trans first.rollId, second.rollLeg.trans first.rollLeg⟩

/-- No order loses, gains or changes its roll properties. -/
def KeepsRolls (before after : Heap) : Prop :=
  ∀ id < before.size, SameRoll (before.order id) (after.order id)

theorem KeepsRolls.refl (heap : Heap) : KeepsRolls heap heap := fun _ _ => .refl _

theorem KeepsRolls.trans {a b c : Heap} (first : KeepsRolls a b) (grows : a.size ≤ b.size)
    (second : KeepsRolls b c) : KeepsRolls a c :=
  fun id inside => (first id inside).trans (second id (inside.trans_le grows))

theorem sameRoll_set {heap : Heap} {id : OrderId} {order : Order}
    (same : SameRoll (heap.order id) order) (other : OrderId) :
    SameRoll (heap.order other) ((heap.set id order).order other) := by
  by_cases here : other = id
  · subst here
    rw [Heap.set_same]
    exact same
  · rw [Heap.set_other here]
    exact .refl _

theorem sameRoll_fill {order filled : Order} {fillQty : Option ℚ}
    (ran : order.fill fillQty = .ok filled) : SameRoll order filled := by
  unfold Order.fill at ran
  obtain ⟨_, ran⟩ := refuse_ok.mp ran
  obtain ⟨_, _, ran⟩ := bind_ok.mp ran
  obtain ⟨_, ran⟩ := refuse_ok.mp ran
  obtain ⟨_, ran⟩ := refuse_ok.mp ran
  cases ran
  exact ⟨rfl, rfl⟩

namespace SimpleMarketSimulator

variable {W : Type} {self : SimpleMarketSimulator W} {timestamp : Timestamp} {i : Nat}
  {heap : Heap} {orders : List OrderId} {world world' : W}

/-! ## What a call executes -/

theorem execute_ok {id : OrderId} {order : Order} {rawPrice : ℚ} {trade : Trade}
    (ran : self.execute timestamp id order rawPrice = .ok (some trade)) :
    trade.order = id ∧ trade.qty = order.qty := by
  obtain ⟨_, _, ran⟩ := bind_ok.mp ran
  obtain ⟨price, _, ran⟩ := bind_ok.mp ran
  cases price with
  | none => cases ran
  | some price =>
      obtain ⟨marketable, _, ran⟩ := bind_ok.mp ran
      cases marketable with
      | false => cases ran
      | true =>
          rw [if_pos rfl] at ran
          obtain ⟨_, _, ran⟩ := bind_ok.mp ran
          obtain ⟨_, _, ran⟩ := bind_ok.mp ran
          obtain ⟨_, _, ran⟩ := bind_ok.mp ran
          obtain ⟨_, _, ran⟩ := bind_ok.mp ran
          cases ran
          exact ⟨rfl, rfl⟩

theorem candidate_ok {id : OrderId} {trade : Trade}
    (ran : self.candidate timestamp i heap world id = .ok (world', some trade)) :
    trade.order = id ∧ trade.qty = (heap.order id).qty := by
  have priced : (do
      match ← self.rawPrice i (heap.order id).contract world with
      | (world, none) => .ok (world, none)
      | (world, some rawPrice) => do
          let trade ← raiseIn world (self.execute timestamp id (heap.order id) rawPrice)
          .ok (world, trade) : Except (Raised Exn W) (W × Option Trade)) = .ok (world', some trade) →
      trade.order = id ∧ trade.qty = (heap.order id).qty := by
    intro ran
    obtain ⟨⟨world, rawPrice⟩, _, ran⟩ := bind_ok.mp ran
    cases rawPrice with
    | none => cases ran
    | some rawPrice =>
        obtain ⟨trade, executed, ran⟩ := bind_ok.mp ran
        cases ran
        exact execute_ok (raiseIn_ok.mp executed)
  unfold candidate at ran
  cases kind : (heap.order id).kind with
  | stopLimit _ _ =>
      simp only [kind] at ran
      cases ran
  | vwap _ _ | roll _ _ _ =>
      simp only [kind] at ran
      cases ran
  | market | limit _ =>
      simp only [kind] at ran
      exact priced ran

theorem candidateTrades_ok {candidates : List Trade}
    (ran : self.candidateTrades timestamp i heap orders world = .ok (world', candidates)) :
    (candidates.map Trade.order).Sublist orders ∧
      ∀ trade ∈ candidates, trade.qty = (heap.order trade.order).qty := by
  refine foldlM_ok (P := fun done (state : W × List Trade) =>
    (state.2.map Trade.order).Sublist done ∧
      ∀ trade ∈ state.2, trade.qty = (heap.order trade.order).qty)
    ?_ ⟨List.Sublist.refl _, fun _ member => by cases member⟩ ran
  rintro done id ⟨world, trades⟩ after _ ⟨listed, qty⟩ step
  obtain ⟨⟨world, trade⟩, ran, step⟩ := bind_ok.mp step
  cases step
  cases trade with
  | none =>
      rw [Option.toList_none, List.append_nil]
      exact ⟨listed.trans (List.sublist_append_left ..), qty⟩
  | some trade =>
      obtain ⟨own, whole⟩ := candidate_ok ran
      refine ⟨?_, fun other member => ?_⟩
      · rw [Option.toList_some, List.map_append, List.map_singleton, own]
        exact listed.append_right _
      · rcases List.mem_append.mp member with old | new
        · exact qty other old
        · rw [List.mem_singleton.mp new, own]
          exact whole

/-- Trades for whole orders; of a roll, both legs. -/
structure Executed (heap : Heap) (orders : List OrderId) (trades : List Trade) : Prop where
  listed : (trades.map Trade.order).Sublist orders
  qty : ∀ trade ∈ trades, trade.qty = (heap.order trade.order).qty
  rolls : ∀ trade ∈ trades, ∀ rollId, (heap.order trade.order).rollId = some rollId →
    rollCount heap (trades.map Trade.order) rollId = 2

theorem complete_executed {candidates : List Trade}
    (listed : (candidates.map Trade.order).Sublist orders)
    (qty : ∀ trade ∈ candidates, trade.qty = (heap.order trade.order).qty) :
    Executed heap orders (complete heap orders candidates) where
  listed := (List.filter_sublist.map _).trans listed
  qty := fun trade member => qty trade (List.mem_filter.mp member).1
  rolls := fun trade member rollId rolled => by
    obtain ⟨_, counted⟩ := List.mem_filter.mp member
    rw [rolled] at counted
    obtain ⟨same, both⟩ := of_decide_eq_true counted
    rw [← both, ← same, rollCount, rollCount, List.countP_map, List.countP_map, complete,
      List.countP_filter]
    refine List.countP_congr fun other _ => ?_
    -- the other candidates of the roll pass with this one
    by_cases own : (heap.order other.order).rollId = some rollId
    · simp [own, same, both]
    · simp [own]

theorem settle_keeps (start : W × Heap) (trades : List Trade) :
    Keeps (fun state : W × Heap => ∀ id, SameRoll (start.2.order id) (state.2.order id))
      fun state => trades.foldlM self.settle state := by
  refine Keeps.foldlM fun trade _ state now => ?_
  have filled : ∀ order, (state.2.order trade.order).fill none = .ok order → ∀ id,
      SameRoll (start.2.order id) ((state.2.set trade.order order).order id) := fun order ran id =>
    (now id).trans (sameRoll_set (sameRoll_fill ran) id)
  refine ⟨fun after ran => ?_, fun raised ran => ?_⟩
  · obtain ⟨order, fills, rest⟩ := bind_ok.mp ran
    dsimp only at rest
    split at rest
    · cases rest
      exact filled order (raiseIn_ok.mp fills)
    · obtain ⟨_, _, rest⟩ := bind_ok.mp rest
      cases rest
      exact filled order (raiseIn_ok.mp fills)
  · rcases bind_error.mp ran with failed | ⟨order, fills, rest⟩
    · obtain ⟨_, _, rfl⟩ := raiseIn_error.mp failed
      exact now
    · dsimp only at rest
      split at rest
      · cases rest
      · rcases bind_error.mp rest with failed | ⟨_, _, rest⟩
        · obtain ⟨_, _, rfl⟩ := raiseIn_error.mp failed
          exact filled order (raiseIn_ok.mp fills)
        · cases rest

variable {timestamps : Grid}

/-- A call leaves the roll properties alone, however it ends. -/
theorem call_sameRoll (id : OrderId) :
    SameRoll (heap.order id) ((self.call timestamps world heap orders i).heap.order id) := by
  unfold call
  cases self.candidateTrades (timestamps.timestamps.getD i 0) i heap orders world with
  | error raised => exact .refl _
  | ok found =>
      obtain ⟨world, candidates⟩ := found
      have kept := @settle_keeps W self (world, heap) (complete heap orders candidates)
        (world, heap) fun _ => .refl _
      dsimp only
      cases settled : (complete heap orders candidates).foldlM self.settle (world, heap) with
      | error raised => exact kept.2 raised settled id
      | ok state => exact kept.1 state settled id

theorem call_executed {returned : Returned Trade}
    (ran : (self.call timestamps world heap orders i).result = .ok returned) :
    ∃ trades, returned = .sequence (trades.map some) ∧ Executed heap orders trades := by
  unfold call at ran
  cases found : self.candidateTrades (timestamps.timestamps.getD i 0) i heap orders world with
  | error raised =>
      rw [found] at ran
      cases ran
  | ok state =>
      obtain ⟨world, candidates⟩ := state
      rw [found] at ran
      dsimp only at ran
      obtain ⟨listed, qty⟩ := candidateTrades_ok found
      split at ran
      · cases ran
      · cases ran
        exact ⟨_, rfl, complete_executed listed qty⟩

end SimpleMarketSimulator

end Gambit
