import Gambit.Accounting.DailyPnl
import Gambit.Accounting.LedgerInvariants

/-!
# Daily rows are complete and fresh

While the P&L of a time is cached, that of every earlier calculation timestamp
is, and every ledger has either a row there or no trade up to there.  The row
is then the one recomputed from the accepted trades.
-/

set_option autoImplicit false

namespace Gambit

open FifoNetting KeyedLists Raising

section Ledgers

variable {valuation : Valuation} {mark : Contract → Timestamp → ℚ}
variable {ledger ledger' : ContractPnl} {trades : List BookedTrade} {timestamp : Timestamp}

namespace ContractPnl

/-- The ledger has a row at a timestamp, or began after it. -/
def Covers (self : ContractPnl) (timestamp : Timestamp) : Prop :=
  (∃ row, (timestamp, row) ∈ self.netPnl.items) ∨
    self.firstTradeTimestamp.all (timestamp < ·) = true

theorem covers_of_calcNetPnl (unexpiring : ledger.contract.expiry = none)
    (run : calcNetPnl valuation timestamp ledger = .ok ledger') : ledger'.Covers timestamp := by
  rcases calcNetPnl_ok run with ⟨fresh, rfl⟩ | ⟨_, _, price, unrealized, rfl⟩
  · unfold upToDate expired at fresh
    simp only [unexpiring, Option.any_none, Bool.false_and, Bool.or_false, Bool.or_eq_true,
      Bool.and_eq_true] at fresh
    rcases fresh with ⟨cached, _⟩ | before
    · obtain ⟨row, found⟩ := Option.isSome_iff_exists.mp cached
      exact Or.inl ⟨row, (SortedDict.get?_eq_some_iff _ _ _).mp found⟩
    · exact Or.inr before
  · exact Or.inl ⟨_, (SortedDict.mem_set_iff _ _ _ _).mpr (Or.inl rfl)⟩

theorem Covers.calcNetPnl {other : Timestamp} (covers : ledger.Covers other)
    (run : calcNetPnl valuation timestamp ledger = .ok ledger') : ledger'.Covers other := by
  rcases calcNetPnl_ok run with ⟨_, rfl⟩ | ⟨_, _, price, unrealized, rfl⟩
  · exact covers
  · rcases covers with ⟨row, member⟩ | before
    · by_cases same : other = timestamp
      · exact Or.inl ⟨_, (SortedDict.mem_set_iff _ _ _ _).mpr (Or.inl (by rw [same]))⟩
      · exact Or.inl ⟨row, (SortedDict.mem_set_iff _ _ _ _).mpr (Or.inr ⟨same, member⟩)⟩
    · exact Or.inr before

theorem Covers.addTradesAt {batch : List BookedTrade} {other : Timestamp}
    (covers : ledger.Covers other)
    (run : addTradesAt valuation batch ledger timestamp = .ok ledger') : ledger'.Covers other := by
  obtain ⟨pnl, _, run⟩ := bind_ok.mp run
  exact Covers.calcNetPnl (by exact covers) run

/-- A batch leaves the rows before its trades. -/
theorem Covers.addTrades {batch : List BookedTrade} {other : Timestamp}
    (covers : ledger.Covers other) (later : ∀ trade ∈ batch, other < trade.timestamp)
    (nonempty : batch ≠ []) (run : ledger.addTrades valuation batch = .ok ledger') :
    ledger'.Covers other := by
  obtain ⟨first, rest, timestamps, _, run⟩ := addTrades_ok nonempty run
  have before : other < first := by
    have listed : first ∈ npUnique (batch.map BookedTrade.timestamp) := by simp [timestamps]
    obtain ⟨trade, member, rfl⟩ := List.mem_map.mp (mem_npUnique.mp listed)
    exact later trade member
  have opened : (ledger.openBatch first).Covers other := by
    rcases covers with ⟨row, member⟩ | early
    · exact Or.inl ⟨row, (SortedDict.mem_dropFrom_iff _ _ _).mpr ⟨member, before⟩⟩
    · right
      cases start : ledger.firstTradeTimestamp with
      | none => simpa [openBatch, start] using before
      | some begun => simpa [openBatch, start] using early
  have loop : ∀ (timestamps : List Timestamp) (now : ContractPnl), now.Covers other →
      timestamps.foldlM (ContractPnl.addTradesAt valuation batch) now = .ok ledger' →
      ledger'.Covers other := by
    intro timestamps
    induction timestamps with
    | nil =>
        intro now covers run
        cases run
        exact covers
    | cons t timestamps ih =>
        intro now covers run
        rw [List.foldlM_cons] at run
        obtain ⟨middle, first, rest⟩ := bind_ok.mp run
        exact ih middle (covers.addTradesAt first) rest
  exact loop _ _ opened run

end ContractPnl

/-- The columns of a contract from its trades and its mark. -/
def scratchTotals (contract : Contract) (trades : List BookedTrade) (mark : ℚ) : PnlTotals where
  position := (trades.map BookedTrade.qty).sum
  unrealized := total (fifo trades).lots * (mark - average (fifo trades).lots) * contract.multiplier
  realized := contract.multiplier * profit (fifo trades).closed
  commission := (trades.map BookedTrade.commission).sum
  fee := (trades.map BookedTrade.fee).sum
  netPnl := scratchNetPnl contract trades mark

@[simp] theorem scratchTotals_nil (contract : Contract) (mark : ℚ) :
    scratchTotals contract [] mark = 0 := by
  simp [scratchTotals, scratchNetPnl, fifo, PnlTotals.zero_def, total_nil]

/-- A ledger reads as recomputed from its trades where it is covered. -/
theorem Valued.pnl (valued : Valued mark ledger trades) (books : Books ledger trades)
    (itemised : Itemised ledger trades) (unexpiring : ledger.contract.expiry = none)
    (covers : ledger.Covers timestamp) :
    (ledger.pnl timestamp).totals =
      scratchTotals ledger.contract (tradesUpTo trades timestamp) (mark ledger.contract timestamp) := by
  have totals := books.totalsAt timestamp
  unfold ContractPnl.totalsAt at totals
  unfold ContractPnl.pnl PnlReading.totals
  dsimp only
  rw [totals]
  rcases covers with ⟨row, member⟩ | before
  · have found : itemBefore ledger.netPnl timestamp = some (timestamp, row) :=
      (itemBefore_eq_some_iff _ _ _).mpr ⟨member, le_rfl, fun _ _ le => le⟩
    have fresh := valued.cached _ member (by rw [ContractPnl.expired, unexpiring]; rfl)
    have sum := itemised _ member
    rw [found, Option.elim_some]
    dsimp only at fresh sum ⊢
    have unrealized : row.unrealized =
        total (fifo (tradesUpTo trades timestamp)).lots *
          (mark ledger.contract timestamp - average (fifo (tradesUpTo trades timestamp)).lots) *
            ledger.contract.multiplier := by
      rw [fresh] at sum
      simp only [netPnlFromScratch, scratchNetPnl, ledgerRow] at sum
      linarith only [sum]
    rw [unrealized, fresh]
    rfl
  · have early : ∀ first : Timestamp, ledger.firstTradeTimestamp = some first →
        timestamp < first := fun first stored => by
      rw [stored, Option.all_some, decide_eq_true_eq] at before
      exact before
    have noRow : itemBefore ledger.netPnl timestamp = none :=
      (itemBefore_eq_none_iff _ _).mpr fun item member => by
        obtain ⟨first, stored, le⟩ := valued.cachedFrom item member
        exact (early first stored).trans_le le
    have noTrade : tradesUpTo trades timestamp = [] := tradesUpTo_of_lt fun trade member => by
      obtain ⟨first, stored, le⟩ := valued.started trade member
      exact (early first stored).trans_le le
    rw [noRow, noTrade, scratchTotals_nil, ledgerRow_nil]
    rfl

end Ledgers

variable {setup : AccountSetup} {priceFunction : PriceFunction}
variable {mark : Contract → Timestamp → ℚ} {S : Contract → Prop}

/-! ## The account's cache -/

/-- No contract that the account may trade expires. -/
def Unexpiring (setup : AccountSetup) : Prop :=
  ∀ contract ∈ setup.registry.contracts, contract.expiry = none

/-- Every ledger covers the cached times. -/
def CoveredCache (account : Account) : Prop :=
  ∀ item ∈ account.pnl.items, ∀ symbol ledger,
    account.symbolPnls.get? symbol = some ledger → ledger.Covers item.1

/-- With a time every earlier calculation timestamp is cached. -/
def DenseCache (setup : AccountSetup) (account : Account) : Prop :=
  ∀ p c, account.pnl.contains p = true → c ∈ setup.calcTimestamps → c ≤ p →
    account.pnl.contains c = true

theorem CoveredCache.calcAt {before after : Account} (cache : CoveredCache before)
    (reconciled : Reconciled setup before) (unexpiring : Unexpiring setup) {ts : Timestamp}
    (run : Account.calcAt (setup.valuation priceFunction) before ts = .ok after) :
    CoveredCache after := by
  have revalued := (Account.calcAt_revalued before ts before (Account.Revalued.refl before)).1 after run
  obtain ⟨each, pnl⟩ := Account.calcAt_ok run
  have source : ∀ symbol ledger', after.symbolPnls.get? symbol = some ledger' → ∃ ledger,
      before.symbolPnls.get? symbol = some ledger ∧
        ContractPnl.calcNetPnl (setup.valuation priceFunction) ts ledger = .ok ledger' := by
    intro symbol ledger' stored
    obtain ⟨ledger, found, _⟩ := revalued.ledgers symbol ledger' stored
    obtain ⟨ledger'', valued, stored'⟩ := each symbol ledger found
    rw [stored] at stored'
    cases stored'
    exact ⟨ledger, found, valued⟩
  intro item member symbol ledger' stored
  obtain ⟨ledger, found, valued⟩ := source symbol ledger' stored
  rw [pnl, SortedDict.mem_set_iff] at member
  rcases member with rfl | ⟨_, old⟩
  · exact ContractPnl.covers_of_calcNetPnl (unexpiring _ (reconciled.indexed.own found).2.2) valued
  · exact (cache item old symbol ledger found).calcNetPnl valued

/-- The loop of `calc` caches the timestamps it goes through, and keeps the others. -/
theorem CoveredCache.calcLoop (unexpiring : Unexpiring setup) {due : List Timestamp} :
    ∀ {before after : Account}, CoveredCache before → Reconciled setup before →
      due.foldlM (Account.calcAt (setup.valuation priceFunction)) before = .ok after →
      CoveredCache after ∧ ∀ ts, after.pnl.contains ts = true ↔
        before.pnl.contains ts = true ∨ ts ∈ due := by
  induction due with
  | nil =>
      intro before after cache _ run
      cases run
      simpa using cache
  | cons first due ih =>
      intro before after cache reconciled run
      rw [List.foldlM_cons] at run
      obtain ⟨middle, here, rest⟩ := bind_ok.mp run
      have revalued := (Account.calcAt_revalued before first before
        (Account.Revalued.refl before)).1 middle here
      obtain ⟨cache', cached⟩ := ih (cache.calcAt reconciled unexpiring here)
        (reconciled.revalue revalued) rest
      refine ⟨cache', fun ts => ?_⟩
      have stored : middle.pnl.contains ts = true ↔ before.pnl.contains ts = true ∨ ts = first := by
        rw [(Account.calcAt_ok here).2, SortedDict.contains, SortedDict.contains]
        by_cases same : ts = first
        · simp [same]
        · simp [same, SortedDict.get?_set_of_ne]
      rw [cached, stored, List.mem_cons, or_assoc]

theorem mem_intermediateCalcTimestamps {account : Account} {timestamp ts : Timestamp} :
    ts ∈ account.intermediateCalcTimestamps setup timestamp ↔ ts = timestamp ∨
      (ts ∈ setup.calcTimestamps ∧ ts ≤ timestamp ∧
        ∀ previous, itemBefore account.pnl timestamp = some previous → previous.1 < ts) := by
  have appended : ∀ due : List Timestamp,
      (ts ∈ if due.getLast? = some timestamp then due else due ++ [timestamp]) ↔
        ts = timestamp ∨ ts ∈ due := by
    intro due
    split
    · rename_i last
      refine ⟨Or.inr, fun either => ?_⟩
      rcases either with rfl | member
      · exact List.mem_of_getLast? last
      · exact member
    · rw [List.mem_append, List.mem_singleton, or_comm]
  unfold Account.intermediateCalcTimestamps
  dsimp only
  rw [appended]
  refine or_congr_right ?_
  cases itemBefore account.pnl timestamp with
  | none => simp [List.mem_filter]
  | some previous =>
      simp only [List.mem_filter, decide_eq_true_eq, Option.some.injEq, forall_eq', and_assoc]

theorem CoveredCache.calcPnl {before after : Account} (cache : CoveredCache before)
    (reconciled : Reconciled setup before) (dense : DenseCache setup before)
    (unexpiring : Unexpiring setup) {timestamp : Timestamp}
    (run : before.calcPnl setup priceFunction timestamp = .ok after) :
    CoveredCache after ∧ DenseCache setup after ∧ after.pnl.contains timestamp = true := by
  obtain ⟨_, _, run⟩ := bind_ok.mp run
  dsimp only at run
  split at run
  · rename_i cached
    cases run
    exact ⟨cache, dense, cached⟩
  · obtain ⟨cache', cached⟩ := cache.calcLoop unexpiring reconciled run
    -- up to the last cached time there are no gaps, and what lies behind it is due
    have caught_up : ∀ c ∈ setup.calcTimestamps, c ≤ timestamp →
        before.pnl.contains c = true ∨ c ∈ before.intermediateCalcTimestamps setup timestamp := by
      intro c listed le
      by_cases behind : ∀ previous, itemBefore before.pnl timestamp = some previous → previous.1 < c
      · exact Or.inr (mem_intermediateCalcTimestamps.mpr (Or.inr ⟨listed, le, behind⟩))
      · push Not at behind
        obtain ⟨previous, found, reached⟩ := behind
        obtain ⟨member, _, _⟩ := (itemBefore_eq_some_iff _ _ _).mp found
        exact Or.inl (dense previous.1 c ((SortedDict.contains_iff _ _).mpr ⟨previous.2, member⟩)
          listed reached)
    refine ⟨cache', fun p c present listed le => ?_,
      (cached timestamp).mpr (Or.inr (mem_intermediateCalcTimestamps.mpr (Or.inl rfl)))⟩
    rcases (cached p).mp present with old | due
    · exact (cached c).mpr (Or.inl (dense p c old listed le))
    · have bound : p ≤ timestamp := by
        rcases mem_intermediateCalcTimestamps.mp due with same | ⟨_, early, _⟩
        · exact same.le
        · exact early
      exact (cached c).mpr (caught_up c listed (le.trans bound))

theorem CoveredCache.update {before after : Account} {batch : List BookedTrade}
    (cache : CoveredCache before)
    (updated : Account.Updated (setup.valuation priceFunction) batch before after) :
    CoveredCache after := by
  intro item member symbol ledger' stored
  obtain ⟨old, later⟩ := (updated.pnl item).mp member
  by_cases inBatch : symbol ∈ batch.map fun trade => trade.contract.symbol
  · obtain ⟨trade, booked, rfl⟩ := List.mem_map.mp inBatch
    obtain ⟨ledger'', stored', run⟩ := updated.updated trade booked
    rw [stored] at stored'
    cases stored'
    refine ContractPnl.Covers.addTrades ?_
      (fun new member => later new (List.mem_filter.mp member).1)
      (List.ne_nil_of_mem (List.mem_filter.mpr ⟨booked, by simp⟩)) run
    cases found : before.symbolPnls.get? trade.contract.symbol with
    | none => exact Or.inr rfl
    | some ledger => exact cache item old _ ledger found
  · rw [updated.untouched symbol inBatch] at stored
    exact cache item old symbol ledger' stored

/-- A batch drops the times from its first trade on, so it leaves no gap. -/
theorem DenseCache.update {valuation : Valuation} {before after : Account}
    {batch : List BookedTrade} (dense : DenseCache setup before)
    (updated : Account.Updated valuation batch before after) : DenseCache setup after := by
  intro p c present listed le
  obtain ⟨value, member⟩ := (SortedDict.contains_iff _ _).mp present
  obtain ⟨old, later⟩ := (updated.pnl _).mp member
  obtain ⟨value', member'⟩ := (SortedDict.contains_iff _ _).mp
    (dense p c ((SortedDict.contains_iff _ _).mpr ⟨value, old⟩) listed le)
  refine (SortedDict.contains_iff _ _).mpr ⟨value', (updated.pnl _).mpr ⟨member', ?_⟩⟩
  exact fun trade inBatch => le.trans_lt (later trade inBatch)

namespace Session

theorem run_caches (marked : MarkedAccount setup priceFunction mark)
    (unexpiring : Unexpiring setup) (calls : List AccountCall) :
    let account := (Session.new.run setup priceFunction calls).account
    Valuations setup mark (fun _ => False) account ∧ CoveredCache account ∧
      DenseCache setup account := by
  refine run_induction (P := fun session => Valuations setup mark (fun _ => False) session.account ∧
    CoveredCache session.account ∧ DenseCache setup session.account) ?_ calls Session.new
      ⟨valuations_new setup mark _, fun _ member => (by cases member),
        fun _ _ present => (by cases present)⟩
  rintro session operation ⟨valuations, cache, dense⟩
  have reconciled := valuations.reconciled
  refine ⟨session.call_valuations operation valuations marked fun _ none => none.elim, ?_⟩
  rcases session.call_outcome operation reconciled.indexed marked with
    ⟨orders, trades, batch, after, rfl, accepted, result, bookable, indexed', updated, outcome⟩ |
      ⟨timestamp, after, result, outcome⟩ | ⟨group, outcome⟩ | outcome
  · rw [outcome]
    exact ⟨cache.update updated, dense.update updated⟩
  · rw [outcome]
    obtain ⟨cache', dense', _⟩ := cache.calcPnl reconciled dense unexpiring result
    exact ⟨cache', dense'⟩
  · rw [outcome]
    exact ⟨cache, dense⟩
  · rw [outcome]
    exact ⟨cache, dense⟩

end Session

/-! ## The rows -/

/-- The contracts of a group, or all. -/
def AccountSetup.contractsOf (setup : AccountSetup) (group : Option String) : List Contract :=
  group.elim setup.registry.contracts setup.registry.groupContracts

/-- A row recomputed from the trades accepted so far. -/
def Session.scratchRow (setup : AccountSetup) (mark : Contract → Timestamp → ℚ)
    (group : Option String) (timestamp : Timestamp) (session : Session) : AccountPnlRow :=
  let totals := ((setup.contractsOf group).map fun contract =>
    scratchTotals contract (session.acceptedOf contract timestamp) (mark contract timestamp)).sum
  ⟨timestamp, totals, setup.startingEquity + totals.netPnl⟩

theorem sum_filterMap {α β M : Type} [AddCommMonoid M] (g : α → Option β) (f : β → M)
    (xs : List α) : ((xs.filterMap g).map f).sum = (xs.map fun x => (g x).elim 0 f).sum := by
  induction xs with
  | nil => rfl
  | cons x xs ih =>
      cases found : g x with
      | none => simp [found, ih]
      | some y => simp [found, ih]

/-- The ledgers of a group stand for its contracts. -/
theorem Account.Indexed.sum_symbolPnlsOf {M : Type} [AddCommMonoid M] {account : Account}
    (indexed : Account.Indexed setup account) {group : Option String}
    {symbolPnls : List ContractPnl} (found : account.symbolPnlsOf setup group = .ok symbolPnls)
    (f : ContractPnl → M) :
    (symbolPnls.map f).sum = ((setup.contractsOf group).map fun contract =>
      (account.symbolPnls.get? contract.symbol).elim 0 f).sum := by
  cases group with
  | none =>
      cases found
      have sums := indexed.sum_contracts
        (f := fun contract => (account.symbolPnls.get? contract.symbol).elim 0 f)
        (fun contract absent => by rw [absent]; rfl) fun _ => true
      rw [List.filter_true, List.filter_true] at sums
      refine Eq.trans ?_ sums
      rw [indexed.contracts, OrderedDict.values, OrderedDict.values, OrderedDict.mapItems,
        List.map_map, List.map_map, List.map_map]
      refine congrArg List.sum (List.map_congr_left fun item member => ?_)
      have stored := (OrderedDict.get?_eq_some_iff _ _ _).mpr member
      simp only [Function.comp_apply, (indexed.own stored).1, stored, Option.elim_some]
  | some group =>
      obtain ⟨_, _, found⟩ := bind_ok.mp found
      cases found
      exact sum_filterMap _ f _

theorem Account.pnlRow_eq (setup : AccountSetup) (symbolPnls : List ContractPnl)
    (timestamp : Timestamp) :
    Account.pnlRow setup symbolPnls timestamp =
      let totals := (symbolPnls.map fun symbolPnl => (symbolPnl.pnl timestamp).totals).sum
      ⟨timestamp, totals, setup.startingEquity + totals.netPnl⟩ := by
  have sums : ∀ (symbolPnls : List ContractPnl) (start : PnlTotals),
      symbolPnls.foldl (fun totals symbolPnl => totals + (symbolPnl.pnl timestamp).totals) start =
        start + (symbolPnls.map fun symbolPnl => (symbolPnl.pnl timestamp).totals).sum := by
    intro symbolPnls
    induction symbolPnls with
    | nil => simp
    | cons symbolPnl symbolPnls ih => simp [ih, add_assoc]
  rw [Account.pnlRow, sums, zero_add]

theorem AccountSetup.contractsOf_registered (setup : AccountSetup) {group : Option String}
    {contract : Contract} (member : contract ∈ setup.contractsOf group) :
    contract ∈ setup.registry.contracts := by
  cases group with
  | none => exact member
  | some name => exact (List.mem_filter.mp member).1

theorem Account.symbolPnlsOf_total (account : Account) {group : Option String}
    (configured : ∀ name ∈ group, name ∈ setup.contractGroups) :
    ∃ symbolPnls, account.symbolPnlsOf setup group = .ok symbolPnls := by
  cases group with
  | none => exact ⟨_, rfl⟩
  | some name =>
      unfold Account.symbolPnlsOf Account.requireConfiguredGroup
      dsimp only
      rw [if_pos (configured name rfl)]
      exact ⟨_, rfl⟩

/-- Each calculation timestamp has one row in the report. -/
theorem Account.dfAccountPnl_rows {account : Account} {group : Option String}
    {symbolPnls : List ContractPnl} (found : account.symbolPnlsOf setup group = .ok symbolPnls) :
    ∃ rows, account.dfAccountPnl setup group = .ok rows ∧
      ∀ c ∈ setup.calcTimestamps, ∀ row,
        (row ∈ rows ∧ row.timestamp = c) ↔ row = Account.pnlRow setup symbolPnls c := by
  unfold Account.dfAccountPnl
  simp only [found, bind, Except.bind]
  have increasing := setup.calcTimestamps_increasing
  cases times : setup.calcTimestamps with
  | nil => exact ⟨[], rfl, fun _ member => (by cases member)⟩
  | cons first later =>
      refine ⟨_, rfl, fun c member row => ⟨?_, ?_⟩⟩
      · rintro ⟨listed, rfl⟩
        rcases List.mem_cons.mp listed with rfl | mapped
        · have reached : first ≤ first - nanosPerDay := by
            rw [times] at increasing
            rcases List.mem_cons.mp member with same | behind
            · exact same.ge
            · exact ((List.pairwise_cons.mp increasing).1 _ behind).le
          exact absurd reached (not_le.mpr (sub_lt_self first (by decide)))
        · obtain ⟨ts, _, rfl⟩ := List.mem_map.mp mapped
          rfl
      · rintro rfl
        exact ⟨List.mem_cons_of_mem _ (List.mem_map_of_mem member), rfl⟩

/-- A row of a cached time totals what the trades and the marks give. -/
theorem Valuations.row_fresh {account : Account} (valuations : Valuations setup mark S account)
    (cache : CoveredCache account) (itemised : Account.Each Itemised account)
    (unexpiring : Unexpiring setup) {c : Timestamp} {value : ℚ}
    (stored : (c, value) ∈ account.pnl.items) {group : Option String}
    {symbolPnls : List ContractPnl} (found : account.symbolPnlsOf setup group = .ok symbolPnls) :
    Account.pnlRow setup symbolPnls c =
      let totals := ((setup.contractsOf group).map fun contract => scratchTotals contract
        (tradesUpTo (tradesOf account.trades contract.symbol) c) (mark contract c)).sum
      ⟨c, totals, setup.startingEquity + totals.netPnl⟩ := by
  have reconciled := valuations.reconciled
  have each : ∀ contract ∈ setup.contractsOf group,
      ((account.symbolPnls.get? contract.symbol).elim 0 fun ledger => (ledger.pnl c).totals) =
        scratchTotals contract (tradesUpTo (tradesOf account.trades contract.symbol) c)
          (mark contract c) := by
    intro contract member
    cases found : account.symbolPnls.get? contract.symbol with
    | none =>
        rw [reconciled.no_trades found]
        exact (scratchTotals_nil contract (mark contract c)).symm
    | some ledger =>
        obtain ⟨symbolEq, registered⟩ := reconciled.indexed.own found
        have sameContract : ledger.contract = contract :=
          List.inj_on_of_nodup_map setup.registry.unique registered.2
            (setup.contractsOf_registered member) symbolEq
        have reads := (valuations.valued _ ledger found).pnl (reconciled.books _ ledger found)
          (itemised _ ledger found) (unexpiring _ registered.2) (cache _ stored _ ledger found)
        rw [sameContract] at reads
        exact reads
  rw [Account.pnlRow_eq, reconciled.indexed.sum_symbolPnlsOf found, List.map_congr_left each]

/-- The calculation timestamps are each day's last timestamp that is not after
the calculation time.  At finite marks, and without expiries, the cached times
have no gap among them, and after `calc` every row up to its time is the one
recomputed from the trades accepted so far. -/
theorem daily_rows_complete_and_fresh (setup : AccountSetup) (priceFunction : PriceFunction)
    (mark : Contract → Timestamp → ℚ) (marked : MarkedAccount setup priceFunction mark)
    (unexpiring : Unexpiring setup) (calls : List AccountCall) :
    (∀ (timestamps : List Timestamp) (pnlCalcTime : Nat), timestamps.Pairwise (· ≤ ·) →
      pnlCalcTime < 24 * 60 →
      (getCalcTimestamps timestamps pnlCalcTime).Pairwise (· < ·) ∧
      ∀ ts, ts ∈ getCalcTimestamps timestamps pnlCalcTime ↔
        ts ∈ timestamps ∧ ts ≤ calcTime pnlCalcTime (day ts) ∧
          ∀ other ∈ timestamps, day other = day ts → other ≤ calcTime pnlCalcTime (day ts) →
            other ≤ ts) ∧
    let session := Session.new.run setup priceFunction calls
    (∀ p c, session.account.pnl.contains p = true → c ∈ setup.calcTimestamps → c ≤ p →
      session.account.pnl.contains c = true) ∧
    ∀ timestamp ∈ setup.timestamps.timestamps, ∃ after,
      session.account.calcPnl setup priceFunction timestamp = .ok after ∧
      ∀ group : Option String, (∀ name ∈ group, name ∈ setup.contractGroups) → ∃ rows,
        after.dfAccountPnl setup group = .ok rows ∧
        ∀ c ∈ setup.calcTimestamps, c ≤ timestamp → ∀ row,
          (row ∈ rows ∧ row.timestamp = c) ↔ row = session.scratchRow setup mark group c := by
  refine ⟨fun timestamps pnlCalcTime sorted within =>
    ⟨getCalcTimestamps_increasing sorted within, fun ts => mem_getCalcTimestamps sorted within⟩, ?_⟩
  intro session
  have sound : session.Sound setup := Session.run_sound setup priceFunction calls
  obtain ⟨valuations, cache, dense⟩ := Session.run_caches marked unexpiring calls
  refine ⟨dense, fun timestamp onGrid => ?_⟩
  have reconciled : Reconciled setup session.account := valuations.reconciled
  obtain ⟨after, pnl, run, _⟩ := calcPnl_total reconciled.indexed marked onGrid
  refine ⟨after, run, fun group configured => ?_⟩
  have valuations' := valuations.calcPnl marked run
  obtain ⟨cache', dense', cached⟩ := CoveredCache.calcPnl cache reconciled dense unexpiring run
  have revalued := (Account.calcPnl_revalued session.account priceFunction timestamp session.account
    (Account.Revalued.refl _)).1 after run
  have itemised : Account.Each Itemised after := by
    have all := (itemised_invariant (setup.valuation priceFunction)).run (calls ++ [.calcPnl timestamp])
    rw [Session.run, List.foldl_append] at all
    change Account.Each Itemised (session.call setup priceFunction (.calcPnl timestamp)).account at all
    rw [Session.call, run] at all
    exact all
  obtain ⟨symbolPnls, found⟩ := after.symbolPnlsOf_total configured
  obtain ⟨rows, report, rowAt⟩ := Account.dfAccountPnl_rows found
  refine ⟨rows, report, fun c listed le row => ?_⟩
  obtain ⟨value, stored⟩ := (SortedDict.contains_iff _ _).mp (dense' timestamp c cached listed le)
  have fresh := valuations'.row_fresh cache' itemised unexpiring stored found
  rw [rowAt c listed row, fresh, Session.scratchRow]
  simp only [revalued.trades]
  have accepted : ∀ contract ∈ setup.contractsOf group,
      scratchTotals contract (tradesUpTo (tradesOf session.account.trades contract.symbol) c)
          (mark contract c) =
        scratchTotals contract (session.acceptedOf contract c) (mark contract c) := by
    intro contract member
    rw [reconciled.tradesOf_contract (setup.contractsOf_registered member), sound.accepted]
    rfl
  rw [List.map_congr_left accepted]

/-- A second batch arrives behind the last calculated time, on the second day. -/
theorem daily_rows_complete_and_fresh_two_days :
    let setup := { sampleSetup with
      registry := ⟨[sampleStock], by decide⟩
      timestamps := ⟨[sampleTime 0, sampleTime 3, sampleTime 24, sampleTime 30], by decide, by decide⟩ }
    ∃ after rows, (Session.new.run setup samplePrice
        [.addTrades sampleOrders [sampleTrade 0 0 10 101], .equity (sampleTime 30),
          .addTrades sampleOrders [sampleTrade 0 24 (-4) 105]]).account.calcPnl setup samplePrice
            (sampleTime 30) = .ok after ∧
      after.dfAccountPnl setup none = .ok rows ∧
      ⟨sampleTime 3, ⟨10, 90, 0, 1, 0, 89⟩, 1000089⟩ ∈ rows ∧
      ⟨sampleTime 30, ⟨6, 54, 16, 2, 0, 68⟩, 1000068⟩ ∈ rows := by
  intro setup
  have marked : MarkedAccount setup samplePrice sampleMark := by
    intro contract _ index timestamp found
    match index with
    | 0 | 1 | 2 | 3 =>
        cases found
        rfl
    | index + 4 => cases found
  obtain ⟨after, run, report⟩ := (daily_rows_complete_and_fresh setup samplePrice sampleMark marked
    (by unfold Unexpiring; decide)
    [.addTrades sampleOrders [sampleTrade 0 0 10 101], .equity (sampleTime 30),
      .addTrades sampleOrders [sampleTrade 0 24 (-4) 105]]).2.2 (sampleTime 30) (by decide)
  obtain ⟨rows, read, rowAt⟩ := report none (by simp)
  refine ⟨after, rows, run, read, ?_, ?_⟩
  · exact ((rowAt (sampleTime 3) (by decide +kernel) (by decide) _).mpr (by decide +kernel)).1
  · exact ((rowAt (sampleTime 30) (by decide +kernel) (by decide) _).mpr (by decide +kernel)).1

end Gambit
