import Gambit.Accounting.Account
import Gambit.Strategy.OrderCallbackState

/-!
# What callbacks may return

callback_contracts.py: the orders of a rule and the trades of a market
simulator.
-/

set_option autoImplicit false

namespace Gambit

open Raising

/-- What a callback leaves behind, and its result or what it raised.  `W` is the
state of all user code. -/
structure CallbackRun (W R : Type) where
  world : W
  heap : Heap
  result : Except Exn R

/-- A value returned where a sequence is expected; an element is `none` where it
is of another type. -/
inductive Returned (α : Type) where
  | sequence (items : List (Option α))
  | other

def Returned.items {α : Type} : Returned α → List α
  | .sequence items => items.filterMap id
  | .other => []

/-- `contract_group.contracts.get(symbol)` -/
def Registry.contract? (registry : Registry) (group symbol : String) : Option Contract :=
  (registry.groupContracts group).find? fun registered => registered.symbol = symbol

/-! ## Orders -/

structure RuleBatch where
  heap : Heap
  seen : List OrderId
  orders : List OrderId

def validateOrderTerms (order : Order) : Except Exn Unit :=
  match order.kind with
  | .stopLimit _ _ =>
      .error (.valueError "StopLimitOrder is deprecated and cannot be executed; emit a MarketOrder or LimitOrder from an explicit trigger rule")
  | .roll _ _ _ => .ok ()
  | .limit limitPrice => do
      let _ ← wholeQuantity order.qty "order qty"
      let _ ← finiteReal limitPrice "limit price"
      .ok ()
  | .market | .vwap _ _ => do
      let _ ← wholeQuantity order.qty "order qty"
      .ok ()

/-- `VWAPOrder._validate_window` and `_validate_stop`. -/
def validateVwapTerms (order : Order) : Except Exn Unit :=
  match order.kind with
  | .vwap vwapStop vwapEndTime =>
      if vwapEndTime < order.timestamp then
        .error (.valueError "VWAP end time cannot precede the order timestamp")
      else validateVwapStop vwapStop
  | _ => .ok ()

/-- The order itself, or the legs of a roll command. -/
def expandOrder (setup : AccountSetup) (contractGroup rollId : String) (heap : Heap)
    (id : OrderId) : Except Exn (Heap × List OrderId) :=
  match (heap.order id).kind with
  | .roll reopenContract closeQty reopenQty => do
      if setup.registry.contract? contractGroup reopenContract.symbol ≠ some reopenContract then
        .error (.valueError "rule returned an unregistered roll contract")
      let (close, reopen) ← (heap.order id).legs reopenContract closeQty reopenQty rollId
      let (heap, closeLeg) := heap.alloc close
      let (heap, reopenLeg) := heap.alloc reopen
      .ok (heap, [closeLeg, reopenLeg])
  | _ => .ok (heap, [id])

/-- One round of the loop of `validate_rule_orders`; the rule left `size` orders. -/
def validateRuleOrder (setup : AccountSetup) (contractGroup : String)
    (currentTimestamp : Timestamp) (rollIdPrefix : String) (size : Nat) (batch : RuleBatch)
    (submission : Option OrderId × Nat) : Except Exn RuleBatch :=
  match submission.1.filter (· < size) with
  | none => .error (.typeError "rule callback returned a non-Order value")
  | some id => do
      if id ∈ batch.seen then
        .error (.valueError "rule returned a duplicate or already-pending order object")
      let order := batch.heap.order id
      validateOrderTerms order
      if order.contract.contractGroup ≠ contractGroup then
        .error (.valueError "rule returned an order outside contract group")
      if setup.registry.contract? contractGroup order.contract.symbol ≠ some order.contract then
        .error (.valueError "rule returned an unregistered contract")
      if order.timestamp ≠ currentTimestamp then
        .error (.valueError "rule order timestamp does not match the current strategy timestamp")
      validateVwapTerms order
      let (heap, legs) ← expandOrder setup contractGroup
        (rollIdPrefix ++ ":" ++ toString submission.2) batch.heap id
      .ok ⟨heap, batch.seen ++ [id], batch.orders ++ legs⟩

def validateRuleOrders (setup : AccountSetup) (contractGroup : String)
    (currentTimestamp : Timestamp) (pendingOrders : List OrderId) (rollIdPrefix : String)
    (result : Returned OrderId) (heap : Heap) : Except Exn (Heap × List OrderId) :=
  match result with
  | .other => .error (.typeError "rule callback must return a sequence of Order objects")
  | .sequence submitted => do
      let batch ← submitted.zipIdx.foldlM
        (validateRuleOrder setup contractGroup currentTimestamp rollIdPrefix heap.size)
        ⟨heap, pendingOrders, []⟩
      .ok (batch.heap, batch.orders)

/-! ## Trades -/

def addFill (filledQuantities : OrderId → Int) (order : OrderId) (quantity : Int) :
    OrderId → Int :=
  Function.update filledQuantities order (filledQuantities order + quantity)

/-- `reported_fills` of `_sim_market`. -/
def reportedFills (trades : List Trade) : OrderId → Int :=
  trades.foldl (fun filledQuantities trade =>
    addFill filledQuantities trade.order trade.qty.num) fun _ => 0

structure MarketBatch where
  trades : List Trade
  filledQuantities : OrderId → Int

/-- One round of the first loop of `validate_market_trades`; `originalStates`
holds the quantities and statuses before the callback. -/
def validateMarketTrade (heap : Heap) (openOrders : List OrderId) (currentTimestamp : Timestamp)
    (originalStates : OrderId → ℚ × OrderStatus) (batch : MarketBatch) (result : Option Trade) :
    Except Exn MarketBatch :=
  match result with
  | none => .error (.typeError "market simulator returned a non-Trade value")
  | some trade => do
      validateTradeReferences trade (heap.order trade.order)
      if trade.order ∉ openOrders then
        .error (.valueError "market simulator returned a trade for an order outside the open order set")
      if trade.timestamp ≠ currentTimestamp then
        .error (.valueError "market simulator trade timestamp does not match the current strategy timestamp")
      let numbers ← validatedTradeNumbers trade
      let originalQuantity := (originalStates trade.order).1
      if decide (0 < numbers.qty) ≠ decide (0 < originalQuantity) then
        .error (.valueError "market simulator fill has the opposite sign to its originating order")
      let filledQuantities := addFill batch.filledQuantities trade.order numbers.qty
      if |originalQuantity| < |(filledQuantities trade.order : ℚ)| then
        .error (.valueError "market simulator fills exceed the originating order remaining quantity")
      .ok ⟨batch.trades ++ [trade], filledQuantities⟩

/-- One round of the second loop: the simulator left the order alone, applied
its fills itself, or cancelled the order. -/
def validateOpenOrder (heap : Heap) (originalStates : OrderId → ℚ × OrderStatus)
    (filledQuantities : OrderId → Int) (id : OrderId) : Except Exn Unit :=
  let order := heap.order id
  let filledQuantity := filledQuantities id
  let (originalQuantity, originalStatus) := originalStates id
  let expectedRemaining := originalQuantity - filledQuantity
  let expectedFillStatus : OrderStatus :=
    if expectedRemaining = 0 then .filled else .partiallyFilled
  if order.qty = originalQuantity ∧ order.status = originalStatus then .ok ()
  else if filledQuantity ≠ 0 ∧ order.qty = expectedRemaining ∧
      (order.status = expectedFillStatus ∨ order.status = .cancelled) then .ok ()
  else if filledQuantity = 0 ∧ order.qty = originalQuantity ∧ order.status = .cancelled then .ok ()
  else .error (.valueError "market simulator trades do not match the originating order quantity changes")

def validateMarketTrades (heap : Heap) (openOrders : List OrderId) (currentTimestamp : Timestamp)
    (originalStates : OrderId → ℚ × OrderStatus) (result : Returned Trade) :
    Except Exn (List Trade) :=
  match result with
  | .other => .error (.typeError "market simulator must return a sequence of Trade objects")
  | .sequence results => do
      let batch ← results.foldlM
        (validateMarketTrade heap openOrders currentTimestamp originalStates) ⟨[], fun _ => 0⟩
      openOrders.forM (validateOpenOrder heap originalStates batch.filledQuantities)
      .ok batch.trades

/-! ## What accepted orders satisfy -/

/-- An order fit for admission at `now`. -/
structure Proposed (setup : AccountSetup) (contractGroup : String) (now : Timestamp)
    (order : Order) : Prop where
  registered : order.contract ∈ setup.registry.contracts
  group : order.contract.contractGroup = contractGroup
  timestamp : order.timestamp = now
  whole : ∃ qty : Int, order.qty = qty ∧ qty ≠ 0
  executable : ¬ order.isRoll

theorem Registry.contract?_some {registry : Registry} {group symbol : String} {contract : Contract}
    (found : registry.contract? group symbol = some contract) :
    contract ∈ registry.contracts ∧ contract.contractGroup = group := by
  obtain ⟨member, own⟩ := List.mem_filter.mp (List.mem_of_find?_eq_some found)
  exact ⟨member, of_decide_eq_true own⟩

theorem validateOrderTerms_ok {order : Order} (valid : validateOrderTerms order = .ok ()) :
    order.isRoll ∨ ∃ qty : Int, order.qty = qty ∧ qty ≠ 0 := by
  unfold validateOrderTerms at valid
  cases kind : order.kind with
  | stopLimit triggerPrice limitPrice =>
      rw [kind] at valid
      cases valid
  | roll reopenContract closeQty reopenQty => exact Or.inl ⟨_, _, _, kind⟩
  | limit limitPrice =>
      rw [kind] at valid
      obtain ⟨qty, whole, _⟩ := bind_ok.mp valid
      exact Or.inr ⟨qty, wholeQuantity_ok whole⟩
  | market =>
      rw [kind] at valid
      obtain ⟨qty, whole, _⟩ := bind_ok.mp valid
      exact Or.inr ⟨qty, wholeQuantity_ok whole⟩
  | vwap vwapStop vwapEndTime =>
      rw [kind] at valid
      obtain ⟨qty, whole, _⟩ := bind_ok.mp valid
      exact Or.inr ⟨qty, wholeQuantity_ok whole⟩

theorem validatedTerms_ok {contract reopenContract : Contract} {closeQty reopenQty : ℚ}
    {terms : Int × Int} (valid : validatedTerms contract reopenContract closeQty reopenQty = .ok terms) :
    terms.1 ≠ 0 ∧ terms.2 ≠ 0 ∧ reopenContract.contractGroup = contract.contractGroup := by
  obtain ⟨close, closeWhole, valid⟩ := bind_ok.mp valid
  obtain ⟨reopen, reopenWhole, valid⟩ := bind_ok.mp valid
  obtain ⟨_, valid⟩ := refuse_ok.mp valid
  obtain ⟨sameGroup, valid⟩ := refuse_ok.mp valid
  obtain ⟨_, valid⟩ := refuse_ok.mp valid
  cases valid
  exact ⟨(wholeQuantity_ok closeWhole).2, (wholeQuantity_ok reopenWhole).2, not_not.mp sameGroup⟩

theorem legs_proposed {setup : AccountSetup} {contractGroup rollId : String} {now : Timestamp}
    {order : Order} {reopenContract : Contract} {closeQty reopenQty : ℚ} {legs : Order × Order}
    (registered : order.contract ∈ setup.registry.contracts)
    (group : order.contract.contractGroup = contractGroup) (timestamp : order.timestamp = now)
    (reopenRegistered : reopenContract ∈ setup.registry.contracts)
    (expanded : order.legs reopenContract closeQty reopenQty rollId = .ok legs) :
    Proposed setup contractGroup now legs.1 ∧ Proposed setup contractGroup now legs.2 := by
  obtain ⟨⟨close, reopen⟩, valid, expanded⟩ := bind_ok.mp expanded
  obtain ⟨_, expanded⟩ := refuse_ok.mp expanded
  obtain ⟨_, expanded⟩ := refuse_ok.mp expanded
  cases expanded
  obtain ⟨closeNonzero, reopenNonzero, sameGroup⟩ := validatedTerms_ok valid
  have market : ∀ reopenContract closeQty reopenQty,
      OrderKind.market ≠ .roll reopenContract closeQty reopenQty := by
    intro _ _ _ absurd
    cases absurd
  refine ⟨⟨registered, group, timestamp, ⟨close, rfl, closeNonzero⟩, ?_⟩,
    ⟨reopenRegistered, sameGroup.trans group, timestamp, ⟨reopen, rfl, reopenNonzero⟩, ?_⟩⟩
  · rintro ⟨_, _, _, roll⟩
    exact market _ _ _ roll
  · rintro ⟨_, _, _, roll⟩
    exact market _ _ _ roll

/-- What a loop over the returned orders has built after `done`. -/
structure RuleBatch.Built (setup : AccountSetup) (contractGroup : String) (now : Timestamp)
    (pendingOrders : List OrderId) (heap : Heap) (done : List (Option OrderId))
    (batch : RuleBatch) : Prop where
  grows : heap.size ≤ batch.heap.size
  kept : ∀ id < heap.size, batch.heap.order id = heap.order id
  seen : ∀ id, id ∈ pendingOrders ∨ some id ∈ done → id ∈ batch.seen
  distinct : batch.orders.Nodup
  allocated : ∀ id ∈ batch.orders, id < batch.heap.size
  proposed : ∀ id ∈ batch.orders, Proposed setup contractGroup now (batch.heap.order id)
  returned : ∀ id ∈ batch.orders, id < heap.size → some id ∈ done ∧ id ∉ pendingOrders
  covered : ∀ id, some id ∈ done → id ∈ batch.orders ∨ (heap.order id).isRoll

section

variable {setup : AccountSetup} {contractGroup rollIdPrefix : String} {now : Timestamp}
  {pendingOrders : List OrderId} {heap : Heap}

theorem expandOrder_ok {rollId : String} {id : OrderId} {heap' : Heap} {legs : List OrderId}
    (expanded : expandOrder setup contractGroup rollId heap id = .ok (heap', legs)) :
    (¬ (heap.order id).isRoll ∧ heap' = heap ∧ legs = [id]) ∨
      ((heap.order id).isRoll ∧ ∃ reopenContract closeQty reopenQty close reopen,
        reopenContract ∈ setup.registry.contracts ∧
        (heap.order id).legs reopenContract closeQty reopenQty rollId = .ok (close, reopen) ∧
        heap' = ((heap.alloc close).1.alloc reopen).1 ∧ legs = [heap.size, heap.size + 1]) := by
  unfold expandOrder at expanded
  cases kind : (heap.order id).kind with
  | roll reopenContract closeQty reopenQty =>
      rw [kind] at expanded
      obtain ⟨registered, expanded⟩ := refuse_ok.mp expanded
      obtain ⟨⟨close, reopen⟩, made, expanded⟩ := bind_ok.mp expanded
      cases expanded
      exact Or.inr ⟨⟨_, _, _, kind⟩, reopenContract, closeQty, reopenQty, close, reopen,
        (Registry.contract?_some (not_not.mp registered)).1, made, rfl, rfl⟩
  | market | limit limitPrice | stopLimit triggerPrice limitPrice | vwap vwapStop vwapEndTime =>
      rw [kind] at expanded
      cases expanded
      refine Or.inl ⟨?_, rfl, rfl⟩
      rintro ⟨_, _, _, roll⟩
      rw [kind] at roll
      cases roll

theorem alloc_order_of_lt {order : Order} {id : OrderId} (inside : id < heap.size) :
    (heap.alloc order).1.order id = heap.order id :=
  Function.update_of_ne (Nat.ne_of_lt inside) _ _

theorem alloc_order_new (order : Order) : (heap.alloc order).1.order heap.size = order :=
  Function.update_self ..

theorem RuleBatch.Built.grown {done : List (Option OrderId)} {batch : RuleBatch}
    (built : batch.Built setup contractGroup now pendingOrders heap done) :
    Grown heap batch.heap :=
  ⟨built.grows, fun id inside roll => by rwa [built.kept id inside] at roll⟩

/-- Fresh and newly returned orders join the batch. -/
theorem RuleBatch.Built.append {done : List (Option OrderId)} {batch : RuleBatch} {heap' : Heap}
    {id : OrderId} {legs : List OrderId}
    (built : batch.Built setup contractGroup now pendingOrders heap done)
    (grows : batch.heap.size ≤ heap'.size)
    (kept : ∀ id < batch.heap.size, heap'.order id = batch.heap.order id)
    (distinct : legs.Nodup) (absent : ∀ leg ∈ legs, leg ∉ batch.orders)
    (allocated : ∀ leg ∈ legs, leg < heap'.size)
    (proposed : ∀ leg ∈ legs, Proposed setup contractGroup now (heap'.order leg))
    (returned : ∀ leg ∈ legs, leg < heap.size → leg = id ∧ id ∉ pendingOrders)
    (covered : id ∈ legs ∨ (heap.order id).isRoll) :
    (RuleBatch.mk heap' (batch.seen ++ [id]) (batch.orders ++ legs)).Built setup contractGroup now
      pendingOrders heap (done ++ [some id]) where
  grows := built.grows.trans grows
  kept := fun other inside => (kept other (inside.trans_le built.grows)).trans (built.kept other inside)
  seen := fun other known => by
    rw [List.mem_append, List.mem_singleton]
    rcases known with pending | listed
    · exact Or.inl (built.seen other (Or.inl pending))
    · rcases List.mem_append.mp listed with old | single
      · exact Or.inl (built.seen other (Or.inr old))
      · exact Or.inr (Option.some.inj (List.mem_singleton.mp single))
  distinct := built.distinct.append distinct fun other old new => absent other new old
  allocated := fun other member => by
    rcases List.mem_append.mp member with old | new
    · exact (built.allocated other old).trans_le grows
    · exact allocated other new
  proposed := fun other member => by
    rcases List.mem_append.mp member with old | new
    · rw [kept other (built.allocated other old)]
      exact built.proposed other old
    · exact proposed other new
  returned := fun other member inside => by
    rcases List.mem_append.mp member with old | new
    · obtain ⟨listed, notPending⟩ := built.returned other old inside
      exact ⟨List.mem_append_left _ listed, notPending⟩
    · obtain ⟨rfl, notPending⟩ := returned other new inside
      exact ⟨List.mem_append_right _ (List.mem_singleton.mpr rfl), notPending⟩
  covered := fun other listed => by
    rcases List.mem_append.mp listed with old | single
    · exact (built.covered other old).imp (List.mem_append_left _) fun roll => roll
    · cases List.mem_singleton.mp single
      exact covered.imp (List.mem_append_right _) fun roll => roll

theorem validateRuleOrder_built {done : List (Option OrderId)} {before after : RuleBatch}
    {submission : Option OrderId × Nat}
    (built : before.Built setup contractGroup now pendingOrders heap done)
    (accepted : validateRuleOrder setup contractGroup now rollIdPrefix heap.size before submission =
      .ok after) :
    after.Built setup contractGroup now pendingOrders heap (done ++ [submission.1]) := by
  obtain ⟨item, submissionIndex⟩ := submission
  unfold validateRuleOrder at accepted
  cases item with
  | none => cases accepted
  | some id =>
      by_cases inside : id < heap.size
      swap
      · simp [Option.filter, inside] at accepted
      simp only [Option.filter_some_pos, inside, decide_true] at accepted
      obtain ⟨fresh, accepted⟩ := refuse_ok.mp accepted
      obtain ⟨_, terms, accepted⟩ := bind_ok.mp accepted
      obtain ⟨group, accepted⟩ := refuse_ok.mp accepted
      obtain ⟨registered, accepted⟩ := refuse_ok.mp accepted
      obtain ⟨timestamp, accepted⟩ := refuse_ok.mp accepted
      obtain ⟨_, _, accepted⟩ := bind_ok.mp accepted
      obtain ⟨⟨heap', legs⟩, expanded, accepted⟩ := bind_ok.mp accepted
      cases accepted
      rw [built.kept id inside] at terms group registered timestamp
      have unseen : id ∉ pendingOrders ∧ some id ∉ done :=
        not_or.mp fun known => fresh (built.seen id known)
      have absent : id ∉ before.orders := fun listed =>
        unseen.2 (built.returned id listed inside).1
      have known := (Registry.contract?_some (not_not.mp registered)).1
      rcases expandOrder_ok expanded with ⟨plain, rfl, rfl⟩ | ⟨roll, reopenContract, closeQty, reopenQty,
        close, reopen, reopenRegistered, made, rfl, rfl⟩
      · rw [built.kept id inside] at plain
        refine built.append (Nat.le_refl _) (fun _ _ => rfl) (List.nodup_singleton id) ?_ ?_ ?_ ?_
          (Or.inl (List.mem_singleton_self id))
        · intro leg member
          rwa [List.mem_singleton.mp member]
        · intro leg member
          rw [List.mem_singleton.mp member]
          exact inside.trans_le built.grows
        · intro leg member
          rw [List.mem_singleton.mp member, built.kept id inside]
          exact ⟨known, not_not.mp group, not_not.mp timestamp,
            (validateOrderTerms_ok terms).resolve_left plain, plain⟩
        · intro leg member _
          exact ⟨List.mem_singleton.mp member, unseen.1⟩
      · rw [built.kept id inside] at roll made
        obtain ⟨closeFit, reopenFit⟩ := legs_proposed known (not_not.mp group)
          (not_not.mp timestamp) reopenRegistered made
        have closeKept : ((before.heap.alloc close).1.alloc reopen).1.order before.heap.size = close := by
          rw [alloc_order_of_lt (Nat.lt_succ_self _), alloc_order_new]
        have reopenKept :
            ((before.heap.alloc close).1.alloc reopen).1.order (before.heap.size + 1) = reopen :=
          alloc_order_new reopen
        have legCases : ∀ leg ∈ [before.heap.size, before.heap.size + 1],
            leg = before.heap.size ∨ leg = before.heap.size + 1 := by simp
        refine built.append (by simp [Heap.alloc, Nat.add_assoc]) (fun other inside => ?_)
          (by simp) ?_ ?_ ?_ ?_ (Or.inr roll)
        · rw [alloc_order_of_lt (Nat.lt_succ_of_lt inside), alloc_order_of_lt inside]
        · intro leg member listed
          have allocated := built.allocated leg listed
          rcases legCases leg member with rfl | rfl
          · exact Nat.lt_irrefl _ allocated
          · exact Nat.lt_irrefl _ (Nat.lt_of_succ_lt allocated)
        · intro leg member
          rcases legCases leg member with rfl | rfl
          · exact Nat.lt_succ_of_lt (Nat.lt_succ_self _)
          · exact Nat.lt_succ_self _
        · intro leg member
          rcases legCases leg member with rfl | rfl
          · rw [closeKept]
            exact closeFit
          · rw [reopenKept]
            exact reopenFit
        · intro leg member old
          rcases legCases leg member with rfl | rfl
          · exact absurd old (Nat.not_lt.mpr built.grows)
          · exact absurd (Nat.lt_of_succ_lt old) (Nat.not_lt.mpr built.grows)

theorem validateRuleOrders_ok {result : Returned OrderId} {heap' : Heap} {orders : List OrderId}
    (accepted : validateRuleOrders setup contractGroup now pendingOrders rollIdPrefix result heap =
      .ok (heap', orders)) :
    ∃ (submitted : List (Option OrderId)) (batch : RuleBatch), result = .sequence submitted ∧
      batch.Built setup contractGroup now pendingOrders heap submitted ∧
      batch.heap = heap' ∧ batch.orders = orders := by
  cases result with
  | other => cases accepted
  | sequence submitted =>
      obtain ⟨batch, ran, accepted⟩ := bind_ok.mp accepted
      cases accepted
      have built := foldlM_ok (P := fun done batch =>
          batch.Built setup contractGroup now pendingOrders heap (done.map Prod.fst))
        (fun done submission before after _ built step => by
          rw [List.map_append, List.map_singleton]
          exact validateRuleOrder_built built step)
        ⟨Nat.le_refl _, fun _ _ => rfl, (by simp), .nil, (by simp), (by simp), (by simp), (by simp)⟩
        ran
      rw [List.zipIdx_map_fst] at built
      exact ⟨submitted, batch, rfl, built, rfl, rfl⟩

end

/-! ## What an accepted batch of trades satisfies -/

theorem reportedFills_snoc (trades : List Trade) (trade : Trade) :
    reportedFills (trades ++ [trade]) = addFill (reportedFills trades) trade.order trade.qty.num := by
  rw [reportedFills, List.foldl_append]
  rfl

theorem reportedFills_eq_sum (trades : List Trade) (order : OrderId) :
    reportedFills trades order =
      ((trades.filter fun trade => trade.order = order).map fun trade => trade.qty.num).sum := by
  induction trades using List.reverseRecOn with
  | nil => rfl
  | append_singleton trades trade ih =>
      rw [reportedFills_snoc, addFill, List.filter_append, List.map_append, List.sum_append, ← ih]
      by_cases same : trade.order = order
      · subst same
        simp
      · rw [Function.update_of_ne (Ne.symm same)]
        simp [same]

structure Reported (heap : Heap) (openOrders : List OrderId) (currentTimestamp : Timestamp)
    (originalStates : OrderId → ℚ × OrderStatus) (trade : Trade) : Prop where
  pending : trade.order ∈ openOrders
  timestamp : trade.timestamp = currentTimestamp
  contract : trade.contract = (heap.order trade.order).contract
  whole : trade.qty = trade.qty.num
  nonzero : trade.qty.num ≠ 0
  sign : 0 < trade.qty.num ↔ 0 < (originalStates trade.order).1

theorem validatedTradeNumbers_ok {trade : Trade} {numbers : TradeNumbers}
    (valid : validatedTradeNumbers trade = .ok numbers) :
    trade.qty = numbers.qty ∧ numbers.qty ≠ 0 := by
  obtain ⟨qty, whole, valid⟩ := bind_ok.mp valid
  obtain ⟨price, _, valid⟩ := bind_ok.mp valid
  obtain ⟨fee, _, valid⟩ := bind_ok.mp valid
  obtain ⟨commission, _, valid⟩ := bind_ok.mp valid
  cases valid
  exact wholeQuantity_ok whole

theorem validateTradeReferences_ok {trade : Trade} {order : Order} :
    validateTradeReferences trade order = .ok () ↔
      trade.contract = order.contract ∧ order.timestamp ≤ trade.timestamp := by
  simp only [validateTradeReferences, refuse_ok, not_not, not_lt, and_true]

variable {heap : Heap} {openOrders : List OrderId} {currentTimestamp : Timestamp}
  {originalStates : OrderId → ℚ × OrderStatus}

theorem validateMarketTrade_ok {before after : MarketBatch} {result : Option Trade}
    (accepted : validateMarketTrade heap openOrders currentTimestamp originalStates before result =
      .ok after) :
    ∃ trade, Reported heap openOrders currentTimestamp originalStates trade ∧
      after = ⟨before.trades ++ [trade],
        addFill before.filledQuantities trade.order trade.qty.num⟩ ∧
      |(addFill before.filledQuantities trade.order trade.qty.num trade.order : ℚ)| ≤
        |(originalStates trade.order).1| := by
  cases result with
  | none => cases accepted
  | some trade =>
      obtain ⟨_, references, accepted⟩ := bind_ok.mp accepted
      obtain ⟨pending, accepted⟩ := refuse_ok.mp accepted
      obtain ⟨timestamp, accepted⟩ := refuse_ok.mp accepted
      obtain ⟨numbers, valid, accepted⟩ := bind_ok.mp accepted
      obtain ⟨sign, accepted⟩ := refuse_ok.mp accepted
      obtain ⟨bounded, accepted⟩ := refuse_ok.mp accepted
      cases accepted
      obtain ⟨whole, nonzero⟩ := validatedTradeNumbers_ok valid
      have num : trade.qty.num = numbers.qty := by rw [whole]; exact Rat.num_intCast _
      refine ⟨trade, ⟨not_not.mp pending, not_not.mp timestamp,
        (validateTradeReferences_ok.mp references).1, num ▸ whole, num ▸ nonzero, ?_⟩, ?_, ?_⟩
      · rw [num]
        simpa using sign
      · rw [num]
      · rw [num]
        exact not_lt.mp bounded

theorem validateMarketTrades_ok {result : Returned Trade} {trades : List Trade}
    (accepted : validateMarketTrades heap openOrders currentTimestamp originalStates result =
      .ok trades) :
    (∀ trade ∈ trades, Reported heap openOrders currentTimestamp originalStates trade) ∧
      (∀ order, |(reportedFills trades order : ℚ)| ≤ |(originalStates order).1|) ∧
      ∀ order ∈ openOrders,
        validateOpenOrder heap originalStates (reportedFills trades) order = .ok () := by
  cases result with
  | other => cases accepted
  | sequence results =>
      obtain ⟨batch, ran, accepted⟩ := bind_ok.mp accepted
      obtain ⟨_, checked, accepted⟩ := bind_ok.mp accepted
      cases accepted
      have loop : (∀ trade ∈ batch.trades,
            Reported heap openOrders currentTimestamp originalStates trade) ∧
          (∀ order, |(batch.filledQuantities order : ℚ)| ≤ |(originalStates order).1|) ∧
          batch.filledQuantities = reportedFills batch.trades := by
        refine foldlM_ok (P := fun _ batch => (∀ trade ∈ batch.trades,
            Reported heap openOrders currentTimestamp originalStates trade) ∧
          (∀ order, |(batch.filledQuantities order : ℚ)| ≤ |(originalStates order).1|) ∧
          batch.filledQuantities = reportedFills batch.trades) ?_ ?_ ran
        · rintro done result before after _ ⟨reported, bounded, filled⟩ step
          obtain ⟨trade, new, rfl, within⟩ := validateMarketTrade_ok step
          refine ⟨fun other member => ?_, fun order => ?_, ?_⟩
          · rcases List.mem_append.mp member with old | single
            · exact reported other old
            · rw [List.mem_singleton.mp single]
              exact new
          · by_cases same : order = trade.order
            · subst same
              exact within
            · dsimp only [addFill]
              rw [Function.update_of_ne same]
              exact bounded order
          · rw [reportedFills_snoc, filled]
        · refine ⟨fun _ member => ?_, fun order => ?_, rfl⟩
          · cases member
          · rw [Int.cast_zero, abs_zero]
            exact abs_nonneg _
      obtain ⟨reported, bounded, filled⟩ := loop
      rw [filled] at bounded checked
      exact ⟨reported, bounded, forM_ok.mp checked⟩

/-- A batch fills an order in the order's direction. -/
theorem reportedFills_sign {trades : List Trade}
    (reported : ∀ trade ∈ trades, Reported heap openOrders currentTimestamp originalStates trade)
    (order : OrderId) :
    (0 < (originalStates order).1 → 0 ≤ reportedFills trades order) ∧
      (¬ 0 < (originalStates order).1 → reportedFills trades order ≤ 0) := by
  rw [reportedFills_eq_sum]
  constructor
  · intro buy
    refine List.sum_nonneg fun qty member => ?_
    obtain ⟨trade, listed, rfl⟩ := List.mem_map.mp member
    obtain ⟨member, same⟩ := List.mem_filter.mp listed
    have sign := (reported trade member).sign
    rw [of_decide_eq_true same] at sign
    exact (sign.mpr buy).le
  · intro sell
    refine (List.sum_le_card_nsmul _ 0 fun qty member => ?_).trans (smul_zero _).le
    obtain ⟨trade, listed, rfl⟩ := List.mem_map.mp member
    obtain ⟨member, same⟩ := List.mem_filter.mp listed
    have sign := (reported trade member).sign
    rw [of_decide_eq_true same] at sign
    exact not_lt.mp fun positive => sell (sign.mp positive)

theorem validateOpenOrder_ok {filledQuantities : OrderId → Int} {order : OrderId}
    (valid : validateOpenOrder heap originalStates filledQuantities order = .ok ()) :
    ((heap.order order).qty = (originalStates order).1 ∧
        (heap.order order).status = (originalStates order).2) ∨
      (filledQuantities order ≠ 0 ∧
        (heap.order order).qty = (originalStates order).1 - filledQuantities order ∧
        ((heap.order order).status =
            (if (originalStates order).1 - filledQuantities order = 0 then .filled
              else .partiallyFilled) ∨
          (heap.order order).status = .cancelled)) ∨
      (filledQuantities order = 0 ∧ (heap.order order).qty = (originalStates order).1 ∧
        (heap.order order).status = .cancelled) := by
  rcases permit_ok.mp valid with ⟨untouched, _⟩ | ⟨_, valid⟩
  · exact Or.inl untouched
  rcases permit_ok.mp valid with ⟨applied, _⟩ | ⟨_, valid⟩
  · exact Or.inr (Or.inl applied)
  rcases permit_ok.mp valid with ⟨cancelled, _⟩ | ⟨_, valid⟩
  · exact Or.inr (Or.inr cancelled)
  cases valid

end Gambit
