import Gambit.Accounting.RoundTripAgreement

/-!
# Round trips against the ledger

`Account.roundtrip_trades`, and its net P&L against that of the ledgers.  A
round trip is charged the commissions of its two trades; the ledger is charged
commissions and fees.
-/

set_option autoImplicit false

namespace Gambit

open FifoNetting TradeReconciliation

variable {V : Type}

/-- `Account.roundtrip_trades`; `trades` are the account's trade objects and no
bound is set where a date is NaT. -/
def Account.roundtripTrades (setup : AccountSetup) (reasonCode : OrderId → String)
    (trades : List Nat) (contractGroup : Option String) (startDate endDate : Option Timestamp)
    (heap : Heap V) : Except Exn (List RoundTripTrade × Heap V) := do
  if let some group := contractGroup then requireConfiguredGroup setup group
  if let (some start, some finish) := (startDate, endDate) then
    if finish < start then
      .error (.valueError "account round-trip query start date cannot be after end date")
  let trades := trades.filter fun ref =>
    contractGroup.all fun group => (heap.trades.read ref).order.contract.contractGroup = group
  let trades := trades.filter fun ref => startDate.all (· ≤ (heap.trades.read ref).timestamp)
  let trades := trades.filter fun ref => endDate.all ((heap.trades.read ref).timestamp ≤ ·)
  TradeReconciliation.roundtripTrades reasonCode trades heap

theorem Account.roundtripTrades_all (setup : AccountSetup) (reasonCode : OrderId → String)
    (trades : List Nat) (heap : Heap V) :
    Account.roundtripTrades setup reasonCode trades none none none heap =
      TradeReconciliation.roundtripTrades reasonCode trades heap := by
  simp [Account.roundtripTrades]

/-- The heap holds the account's trades at `refs`. -/
structure Stores (heap : Heap V) (refs : List Nat) (trades : List BookedTrade) : Prop where
  alive : ∀ ref ∈ refs, ref < heap.trades.next
  reads : refs.map (fun ref => (heap.trades.read ref).toBookedTrade) = trades

/-- The last row of `_trade_pnl`. -/
def ContractPnl.lastRow (self : ContractPnl) : LedgerEntry :=
  (self.tradePnl.items.getLast?).elim LedgerEntry.zero Prod.snd

/-- Realized P&L minus all commissions minus all fees. -/
def Account.ledgerNetPnl (self : Account) : ℚ :=
  (self.symbolPnls.values.map fun ledger =>
    ledger.lastRow.realized - ledger.lastRow.commission - ledger.lastRow.fee).sum

theorem Books.lastRow {ledger : ContractPnl} {trades : List BookedTrade}
    (books : Books ledger trades) :
    ledger.lastRow = ledgerRow ledger.contract.multiplier trades := by
  cases last : ledger.tradePnl.items.getLast? with
  | none =>
      have empty : trades = [] := by
        cases trades with
        | nil => rfl
        | cons trade trades =>
            have listed := books.row_of_mem (List.mem_cons_self ..)
            rw [List.getLast?_eq_none_iff.mp last] at listed
            cases listed
      rw [ContractPnl.lastRow, last, empty, ledgerRow_nil]
      rfl
  | some item =>
      obtain ⟨initial, split⟩ := List.getLast?_eq_some_iff.mp last
      have reached : ∀ trade ∈ trades, trade.timestamp ≤ item.1 := by
        intro trade member
        have listed := books.row_of_mem member
        have increasing := ledger.tradePnl.sorted
        rw [split] at listed increasing
        rcases List.mem_append.mp listed with before | same
        · exact ((List.pairwise_append.mp increasing).2.2 _ before _ (List.mem_singleton_self _)).le
        · exact (congrArg Prod.fst (List.mem_singleton.mp same)).le
      have rowEq := ((books.rows item).mp (by rw [split]; simp)).2
      rw [tradesUpTo_of_le reached] at rowEq
      rw [ContractPnl.lastRow, last]
      exact rowEq

theorem sum_map_sub {α : Type} (f g : α → ℚ) (xs : List α) :
    (xs.map fun x => f x - g x).sum = (xs.map f).sum - (xs.map g).sum := by
  induction xs with
  | nil => simp
  | cons x xs ih =>
      simp only [List.map_cons, List.sum_cons, ih]
      ring

/-- Adding up key by key is adding up. -/
theorem sum_by_key {α κ : Type} [DecidableEq κ] {key : α → κ} {keys : List κ} (distinct : keys.Nodup)
    (f : α → ℚ) (xs : List α) (covered : ∀ x ∈ xs, key x ∈ keys) :
    (keys.map fun k => ((xs.filter fun x => key x = k).map f).sum).sum = (xs.map f).sum := by
  induction xs with
  | nil => simp
  | cons x xs ih =>
      have rest := ih fun y member => covered y (List.mem_cons_of_mem _ member)
      have split : ∀ k, (((x :: xs).filter fun y => key y = k).map f).sum =
          (if key x = k then f x else 0) + ((xs.filter fun y => key y = k).map f).sum := by
        intro k
        by_cases same : key x = k
        · rw [List.filter_cons_of_pos (by simpa using same), if_pos same, List.map_cons,
            List.sum_cons]
        · rw [List.filter_cons_of_neg (by simpa using same), if_neg same, zero_add]
      have once : (keys.map fun k => if key x = k then f x else 0).sum = f x := by
        have here := covered x (List.mem_cons_self ..)
        clear ih rest covered split
        induction keys with
        | nil => cases here
        | cons k keys ih =>
            obtain ⟨absent, distinct⟩ := List.nodup_cons.mp distinct
            rw [List.map_cons, List.sum_cons]
            by_cases same : key x = k
            · have others : (keys.map fun k' => if key x = k' then f x else 0) =
                  keys.map fun _ => (0 : ℚ) :=
                List.map_congr_left fun k' member =>
                  if_neg fun same' => absent ((same.symm.trans same').symm ▸ member)
              rw [if_pos same, others]
              simp
            · rw [if_neg same, zero_add]
              exact ih distinct ((List.mem_cons.mp here).resolve_left same)
      simp only [split, List.sum_map_add, once, rest, List.map_cons, List.sum_cons]

theorem Session.run_whole (setup : AccountSetup) (priceFunction : PriceFunction)
    (calls : List AccountCall) :
    ∀ trade ∈ (Session.new.run setup priceFunction calls).accepted, trade.qty ≠ 0 := by
  have kept : ∀ (session : Session) (operation : AccountCall),
      (session.Sound setup ∧ ∀ trade ∈ session.accepted, trade.qty ≠ 0) →
        (session.call setup priceFunction operation).Sound setup ∧
          ∀ trade ∈ (session.call setup priceFunction operation).accepted, trade.qty ≠ 0 := by
    rintro session operation ⟨sound, whole⟩
    refine ⟨session.call_sound operation sound, ?_⟩
    rcases @Session.call_cases setup priceFunction session operation sound.reconciled.indexed with
      ⟨orders, trades, batch, after, _, accepted, _, _, _, _, result⟩ | ⟨_, same⟩
    · rw [result]
      intro trade member
      rcases List.mem_append.mp member with earlier | new
      · exact whole trade earlier
      · obtain ⟨raw, _, booked⟩ := mem_bookTrades accepted new
        obtain ⟨_, _, _, _, _, _, numbers, _⟩ := bookTrade_ok booked
        obtain ⟨qty, valid, numbers⟩ := Raising.bind_ok.mp numbers
        obtain ⟨_, _, numbers⟩ := Raising.bind_ok.mp numbers
        obtain ⟨_, _, numbers⟩ := Raising.bind_ok.mp numbers
        obtain ⟨_, _, numbers⟩ := Raising.bind_ok.mp numbers
        have qtyEq : qty = trade.qty := congrArg TradeNumbers.qty (Except.ok.inj numbers)
        exact qtyEq ▸ (wholeQuantity_ok valid).2
    · rw [same]
      exact whole
  exact (Session.run_induction kept calls Session.new
    ⟨Session.run_sound setup priceFunction [], fun _ member => by cases member⟩).2

/-- On a flat symbol every round trip is closed, and their net P&L is the
realized P&L less the commissions. -/
theorem TradeReconciliation.Agrees.netPnl {symbol : String} {made : List RoundTripTrade}
    {booked : List BookedTrade} {contracts : List Contract} {contract : Contract}
    (agrees : Agrees symbol made booked) (reports : ∀ one ∈ made, Reports contracts one)
    (named : ∀ other ∈ contracts, other.symbol = symbol → other = contract)
    (flat : (booked.map BookedTrade.qty).sum = 0) :
    ((made.filter fun one => one.contract.symbol = symbol).map RoundTripTrade.netPnl).sum =
      contract.multiplier * profit (fifo booked).closed -
        (booked.map BookedTrade.commission).sum := by
  have noLots : (fifo booked).lots = [] :=
    (total_eq_zero_iff (fifo_legal booked)).mp ((fifo_total booked).trans flat)
  have noneOpen := agrees.opened
  rw [noLots, List.map_eq_nil_iff, List.filter_eq_nil_iff] at noneOpen
  have allClosed : (made.filter fun one => one.isClosed ∧ one.contract.symbol = symbol) =
      made.filter fun one => one.contract.symbol = symbol := by
    refine List.filter_congr fun one member => ?_
    have closed := noneOpen one member
    simp only [decide_eq_true_eq, not_and] at closed
    by_cases onSymbol : one.contract.symbol = symbol
    · simp [onSymbol, not_not.mp fun isOpen => closed isOpen onSymbol]
    · simp [onSymbol]
  have realized := agrees.realized contract.multiplier
  rw [allClosed] at realized
  have each : (made.filter fun one => one.contract.symbol = symbol).map RoundTripTrade.netPnl =
      (made.filter fun one => one.contract.symbol = symbol).map fun one =>
        one.qty * (one.exitPrice.getD 0 - one.entryPrice) * contract.multiplier -
          one.commission := by
    refine List.map_congr_left fun one member => ?_
    obtain ⟨listed, onSymbol⟩ := List.mem_filter.mp member
    have onSymbol : one.contract.symbol = symbol := by simpa using onSymbol
    have closed : one.isClosed = true := by
      have := noneOpen one listed
      simpa [onSymbol] using this
    rw [(reports one listed).netPnl, if_pos closed,
      named one.contract (reports one listed).contract onSymbol]
  rw [each, sum_map_sub, realized, ← agrees.commission]

/-- When every contract is flat, the round trips' net P&L is the ledger's if and
only if the fees of the accepted trades cancel. -/
theorem roundtrips_reconcile_iff (setup : AccountSetup) (priceFunction : PriceFunction)
    (calls : List AccountCall) (reasonCode : OrderId → String) (heap : Heap V) (trades : List Nat)
    (stored : Stores heap trades (Session.new.run setup priceFunction calls).account.trades)
    (flat : ∀ contract, (((Session.new.run setup priceFunction calls).accepted.filter fun trade =>
      trade.contract = contract).map BookedTrade.qty).sum = 0) :
    ∃ made after,
      Account.roundtripTrades setup reasonCode trades none none none heap = .ok (made, after) ∧
      ((made.map RoundTripTrade.netPnl).sum =
          (Session.new.run setup priceFunction calls).account.ledgerNetPnl ↔
        ((Session.new.run setup priceFunction calls).accepted.map BookedTrade.fee).sum = 0) := by
  have sound := Session.run_sound setup priceFunction calls
  have whole := Session.run_whole setup priceFunction calls
  generalize Session.new.run setup priceFunction calls = session at stored flat sound whole
  have reconciled := sound.reconciled
  rw [← sound.accepted] at flat whole ⊢
  have storedTrade : ∀ ref ∈ trades,
      (heap.trades.read ref).toBookedTrade ∈ session.account.trades := fun ref member =>
    stored.reads ▸ List.mem_map_of_mem member
  have registered : ∀ ref ∈ trades, setup.Registered (heap.trades.read ref).contract :=
    fun ref member => (reconciled.traded _ (storedTrade ref member)).1
  obtain ⟨made, after, runs, _, _, agrees, reports⟩ := roundtripTrades_reports reasonCode heap trades
    stored.alive (fun ref member => whole _ (storedTrade ref member))
    (fun ref member other otherMember same =>
      AccountSetup.registered_unique (registered ref member) (registered other otherMember) same)
  rw [stored.reads] at agrees
  refine ⟨made, after, (Account.roundtripTrades_all ..).trans runs, ?_⟩
  have symbolsOfMade : ∀ one ∈ made, one.contract.symbol ∈ session.account.symbolPnls.keys := by
    intro one member
    obtain ⟨ref, listed, same⟩ := List.mem_map.mp (reports one member).contract
    obtain ⟨_, ledger, found⟩ := reconciled.traded _ (storedTrade ref listed)
    rw [← same]
    exact OrderedDict.mem_keys_of_get? found
  have symbolsOfTrades : ∀ trade ∈ session.account.trades,
      trade.contract.symbol ∈ session.account.symbolPnls.keys := by
    intro trade member
    obtain ⟨_, ledger, found⟩ := reconciled.traded trade member
    exact OrderedDict.mem_keys_of_get? found
  have item : ∀ item ∈ session.account.symbolPnls.items,
      ((made.filter fun one => one.contract.symbol = item.1).map RoundTripTrade.netPnl).sum =
        item.2.lastRow.realized - item.2.lastRow.commission ∧
      ((session.account.trades.filter fun trade => trade.contract.symbol = item.1).map
        BookedTrade.fee).sum = item.2.lastRow.fee := by
    rintro ⟨symbol, ledger⟩ member
    have found := (OrderedDict.get?_eq_some_iff _ _ _).mpr member
    obtain ⟨symbolEq, ownRegistered⟩ := reconciled.indexed.own found
    have row := (reconciled.books symbol ledger found).lastRow
    have named : ∀ other ∈ trades.map (fun ref => (heap.trades.read ref).contract),
        other.symbol = symbol → other = ledger.contract := by
      intro other listed same
      obtain ⟨ref, refMember, rfl⟩ := List.mem_map.mp listed
      exact AccountSetup.registered_unique (registered ref refMember) ownRegistered
        (same.trans symbolEq.symm)
    have flatSymbol : ((tradesOf session.account.trades symbol).map BookedTrade.qty).sum = 0 := by
      rw [← flat ledger.contract, tradesOf]
      refine congrArg List.sum (congrArg _ (List.filter_congr fun trade listed => ?_))
      refine decide_eq_decide.mpr ⟨fun same => ?_, fun same => same ▸ symbolEq⟩
      exact AccountSetup.registered_unique (reconciled.traded trade listed).1 ownRegistered
        (same.trans symbolEq.symm)
    have net := (agrees symbol).netPnl reports named flatSymbol
    rw [row]
    exact ⟨net, rfl⟩
  have bySymbol := sum_by_key session.account.symbolPnls.distinct RoundTripTrade.netPnl made
    symbolsOfMade
  have fees := sum_by_key session.account.symbolPnls.distinct BookedTrade.fee
    session.account.trades symbolsOfTrades
  have netBySymbol : (session.account.symbolPnls.items.map fun item =>
      item.2.lastRow.realized - item.2.lastRow.commission).sum =
        (made.map RoundTripTrade.netPnl).sum := by
    rw [← bySymbol, List.map_map]
    exact congrArg List.sum (List.map_congr_left fun one member => (item one member).1.symm)
  have feesBySymbol : (session.account.symbolPnls.items.map fun item => item.2.lastRow.fee).sum =
      (session.account.trades.map BookedTrade.fee).sum := by
    rw [← fees, List.map_map]
    exact congrArg List.sum (List.map_congr_left fun one member => (item one member).2.symm)
  rw [Account.ledgerNetPnl, OrderedDict.values, List.map_map]
  simp only [Function.comp_def]
  rw [sum_map_sub, feesBySymbol, netBySymbol]
  constructor
  · intro same
    linarith
  · intro noFees
    linarith

/-- A purchase and a sale of ten; the purchase has a fee. -/
def feeCalls (fee : ℚ) : List AccountCall :=
  [.addTrades sampleOrders
    [{ sampleTrade 0 0 10 10 with fee := .real fee }, sampleTrade 0 1 (-10) 12]]

def feeSession (fee : ℚ) : Session :=
  Session.new.run sampleSetup (fun _ _ => .ok (.real 11)) (feeCalls fee)

/-- The account's trades in the order it took them. -/
def feeHeap (fee : ℚ) : Heap Unit where
  trades := ⟨fun ref => ⟨(feeSession fee).account.trades.getD ref
    ⟨sampleStock, 0, sampleOrders 0, 0, 1, 0, 0, 0⟩, ref⟩, 2⟩
  namespaces := ⟨fun _ => .empty, 2⟩

theorem roundtrips_reconcile_iff_without_fees :
    ∃ made after, Account.roundtripTrades sampleSetup (fun _ => "") [0, 1] none none none (feeHeap 0) =
        .ok (made, after) ∧
      (made.map RoundTripTrade.netPnl).sum = (feeSession 0).account.ledgerNetPnl := by
  have accepted : (feeSession 0).accepted.all (fun trade => trade.contract = sampleStock) = true := by
    decide +kernel
  obtain ⟨made, after, runs, reconcile⟩ := roundtrips_reconcile_iff sampleSetup
    (fun _ _ => .ok (.real 11)) (feeCalls 0) (fun _ => "") (feeHeap 0) [0, 1]
    ⟨by decide, by decide +kernel⟩ (fun contract => by
      by_cases stock : contract = sampleStock
      · subst stock
        decide +kernel
      · have none_ : (feeSession 0).accepted.filter (fun trade => trade.contract = contract) = [] :=
          List.filter_eq_nil_iff.mpr fun trade member => by
            have own := List.all_eq_true.mp accepted trade member
            simp only [decide_eq_true_eq] at own ⊢
            exact fun same => stock (same.symm.trans own)
        exact (congrArg (fun trades => (trades.map BookedTrade.qty).sum) none_))
  exact ⟨made, after, runs, reconcile.mpr (by decide +kernel)⟩

/-- Twenty gained less two commissions of one; the ledger also takes the fee. -/
theorem roundtrips_omit_fees :
    (Account.roundtripTrades sampleSetup (fun _ => "") [0, 1] none none none (feeHeap 3)).toOption.map
        (fun result => (result.1.map RoundTripTrade.netPnl).sum) = some 18 ∧
      (feeSession 3).account.ledgerNetPnl = 15 := by
  decide +kernel

end Gambit
