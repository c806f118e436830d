import Gambit.Accounting.KernelFifo
import Gambit.Accounting.LedgerSteps
import Gambit.Lib.KeyedLists

/-!
# The trade ledger of one contract

The books of a contract are a function of its trades: the open lots are those
of the textbook netting from an empty book, and the row at a trade timestamp
totals the trades up to it.  A batch extends the trades and keeps the books.
-/

set_option autoImplicit false

namespace Gambit

open FifoNetting KeyedLists

/-- The netting of a contract's trades from scratch. -/
def fifo (trades : List BookedTrade) : Netted ℚ :=
  netAll [] (trades.map fun trade => ⟨trade.qty, trade.price⟩)

def tradesUpTo (trades : List BookedTrade) (timestamp : Timestamp) : List BookedTrade :=
  trades.filter fun trade => trade.timestamp ≤ timestamp

def ledgerRow (multiplier : ℚ) (trades : List BookedTrade) : LedgerEntry where
  position := (trades.map BookedTrade.qty).sum
  realized := multiplier * profit (fifo trades).closed
  fee := (trades.map BookedTrade.fee).sum
  commission := (trades.map BookedTrade.commission).sum
  openQty := total (fifo trades).lots
  weightedAvgPrice := average (fifo trades).lots

@[simp] theorem ledgerRow_nil (multiplier : ℚ) : ledgerRow multiplier [] = LedgerEntry.zero := by
  simp [ledgerRow, fifo, LedgerEntry.zero, average, total_nil]

theorem fifo_legal (trades : List BookedTrade) : Legal (fifo trades).lots :=
  netAll_legal _ _ legal_nil

theorem fifo_total (trades : List BookedTrade) :
    total (fifo trades).lots = (trades.map BookedTrade.qty).sum := by
  rw [fifo, netAll_total, total_nil, zero_add]
  simp [total, Function.comp_def]

theorem fifo_append (trades batch : List BookedTrade) :
    fifo (trades ++ batch) =
      let netted := netAll (fifo trades).lots (batch.map fun trade => ⟨trade.qty, trade.price⟩)
      ⟨netted.lots, (fifo trades).closed ++ netted.closed⟩ := by
  rw [fifo, List.map_append, netAll_append]
  rfl

theorem mem_tradesUpTo {trades : List BookedTrade} {timestamp : Timestamp} {trade : BookedTrade} :
    trade ∈ tradesUpTo trades timestamp ↔ trade ∈ trades ∧ trade.timestamp ≤ timestamp := by
  simp [tradesUpTo, List.mem_filter]

theorem tradesUpTo_append (trades batch : List BookedTrade) (timestamp : Timestamp) :
    tradesUpTo (trades ++ batch) timestamp =
      tradesUpTo trades timestamp ++ tradesUpTo batch timestamp :=
  List.filter_append ..

theorem tradesUpTo_of_le {trades : List BookedTrade} {timestamp : Timestamp}
    (reached : ∀ trade ∈ trades, trade.timestamp ≤ timestamp) :
    tradesUpTo trades timestamp = trades :=
  List.filter_eq_self.mpr fun trade member => by simpa using reached trade member

theorem tradesUpTo_of_lt {trades : List BookedTrade} {timestamp : Timestamp}
    (later : ∀ trade ∈ trades, timestamp < trade.timestamp) : tradesUpTo trades timestamp = [] :=
  List.filter_eq_nil_iff.mpr fun trade member => by simpa using later trade member

/-- No trade lies between two timestamps. -/
theorem tradesUpTo_congr {trades : List BookedTrade} {earlier later : Timestamp}
    (le : earlier ≤ later)
    (none_between : ∀ trade ∈ trades, trade.timestamp ≤ later → trade.timestamp ≤ earlier) :
    tradesUpTo trades later = tradesUpTo trades earlier :=
  List.filter_congr fun trade member => by
    simpa using ⟨none_between trade member, fun h => h.trans le⟩

theorem weightedAvgPrice_lots (lots : List (Lot ℚ)) :
    ContractPnl.weightedAvgPrice (lots.map Lot.qty) (lots.map Lot.price) = average lots := by
  unfold ContractPnl.weightedAvgPrice average total
  dsimp only
  split
  · rename_i flat
    rw [flat, Int.cast_zero, div_zero]
  · rw [List.zipWith_map, List.zipWith_self]

/-- The ledger's lots and rows are those of `trades`. -/
structure Books (ledger : ContractPnl) (trades : List BookedTrade) : Prop where
  chronological : Chronological BookedTrade.timestamp trades
  openQtys : ledger.openQtys = (fifo trades).lots.map Lot.qty
  openPrices : ledger.openPrices = (fifo trades).lots.map Lot.price
  rows : ∀ item, item ∈ ledger.tradePnl.items ↔
    item.1 ∈ trades.map BookedTrade.timestamp ∧
      item.2 = ledgerRow ledger.contract.multiplier (tradesUpTo trades item.1)

theorem books_new (contract : Contract) : Books (ContractPnl.new contract) [] where
  chronological := List.Pairwise.nil
  openQtys := rfl
  openPrices := rfl
  rows := by simp [ContractPnl.new]

theorem Books.of_sameBooks {ledger ledger' : ContractPnl} {trades : List BookedTrade}
    (books : Books ledger trades) (same : ContractPnl.SameBooks ledger ledger') :
    Books ledger' trades where
  chronological := books.chronological
  openQtys := same.openQtys.trans books.openQtys
  openPrices := same.openPrices.trans books.openPrices
  rows := by
    rw [same.tradePnl, same.contract]
    exact books.rows

theorem Books.row_of_mem {ledger : ContractPnl} {trades : List BookedTrade}
    (books : Books ledger trades) {trade : BookedTrade} (member : trade ∈ trades) :
    (trade.timestamp, ledgerRow ledger.contract.multiplier (tradesUpTo trades trade.timestamp)) ∈
      ledger.tradePnl.items :=
  (books.rows _).mpr ⟨List.mem_map_of_mem member, rfl⟩

theorem Books.totalsAt {ledger : ContractPnl} {trades : List BookedTrade}
    (books : Books ledger trades) (timestamp : Timestamp) :
    ledger.totalsAt timestamp = ledgerRow ledger.contract.multiplier (tradesUpTo trades timestamp) := by
  unfold ContractPnl.totalsAt
  cases found : itemBefore ledger.tradePnl timestamp with
  | none =>
      have later := (itemBefore_eq_none_iff _ _).mp found
      rw [tradesUpTo_of_lt, ledgerRow_nil]
      · rfl
      · exact fun trade member => later _ (books.row_of_mem member)
  | some item =>
      obtain ⟨listed, reached, last⟩ := (itemBefore_eq_some_iff _ _ _).mp found
      have row := ((books.rows item).mp listed).2
      rw [Option.elim_some, row, tradesUpTo_congr reached]
      exact fun trade member bound => last _ (books.row_of_mem member) bound

theorem Books.position {ledger : ContractPnl} {trades : List BookedTrade}
    (books : Books ledger trades) (timestamp : Timestamp) :
    ledger.position timestamp = ((tradesUpTo trades timestamp).map BookedTrade.qty).sum := by
  have totals := congrArg LedgerEntry.position (books.totalsAt timestamp)
  unfold ContractPnl.totalsAt at totals
  unfold ContractPnl.position
  cases found : itemBefore ledger.tradePnl timestamp with
  | none =>
      rw [found] at totals
      exact totals
  | some item =>
      rw [found] at totals
      exact totals

namespace ContractPnl

open Raising

variable {valuation : Valuation}

/-- The books after the trades at one timestamp, before they are valued. -/
def withBooks (self : ContractPnl) (trades : List BookedTrade) (timestamp : Timestamp) :
    ContractPnl :=
  { self with
    openQtys := (fifo trades).lots.map Lot.qty
    openPrices := (fifo trades).lots.map Lot.price
    tradePnl := self.tradePnl.set timestamp (ledgerRow self.contract.multiplier trades) }

end ContractPnl

theorem calcTradePnl_batch (trades batch : List BookedTrade) (multiplier : ℚ) :
    ComputePnl.calcTradePnl ((fifo trades).lots.map Lot.qty) ((fifo trades).lots.map Lot.price)
        (batch.map BookedTrade.qty) (batch.map BookedTrade.price) multiplier =
      .ok ⟨(fifo (trades ++ batch)).lots.map Lot.qty, (fifo (trades ++ batch)).lots.map Lot.price,
        multiplier * profit (netAll (fifo trades).lots
          (batch.map fun trade => ⟨trade.qty, trade.price⟩)).closed⟩ := by
  have kernel := KernelFifo.calcTradePnl_book (fifo trades).lots
    (batch.map fun trade => (trade.qty, trade.price)) multiplier (fifo_legal trades)
  rw [List.map_map, List.map_map, KernelFifo.toLots, List.map_map] at kernel
  rw [fifo_append]
  exact kernel

/-- One iteration books its trades and values the contract. -/
theorem Books.addTradesAt {valuation : Valuation} {ledger : ContractPnl}
    {trades batch : List BookedTrade} (books : Books ledger trades) {timestamp : Timestamp}
    (reached : ∀ trade ∈ trades, trade.timestamp ≤ timestamp) :
    ledger.addTradesAt valuation batch timestamp =
      ContractPnl.calcNetPnl valuation timestamp (ledger.withBooks
        (trades ++ batch.filter fun trade => trade.timestamp = timestamp) timestamp) := by
  have totals := books.totalsAt timestamp
  rw [tradesUpTo_of_le reached] at totals
  unfold ContractPnl.totalsAt at totals
  unfold ContractPnl.addTradesAt ContractPnl.withBooks
  dsimp only
  rw [books.openQtys, books.openPrices, calcTradePnl_batch, totals]
  simp only [Raising.raiseIn, bind, Except.bind]
  congr 3
  simp only [ledgerRow, List.map_append, List.sum_append, weightedAvgPrice_lots, total]
  rw [fifo_append trades, profit_append, mul_add]

theorem Books.withBooks {ledger : ContractPnl} {trades batch : List BookedTrade}
    (books : Books ledger trades) {timestamp : Timestamp} (nonempty : batch ≠ [])
    (reached : ∀ trade ∈ trades, trade.timestamp ≤ timestamp)
    (same : ∀ trade ∈ batch, trade.timestamp = timestamp) :
    Books (ledger.withBooks (trades ++ batch) timestamp) (trades ++ batch) where
  chronological := by
    refine chronological_append.mpr ⟨books.chronological, ?_, fun x hx y hy => ?_⟩
    · exact List.pairwise_of_forall_mem_list fun x hx y hy => ((same x hx).trans (same y hy).symm).le
    · exact (reached x hx).trans (same y hy).ge
  openQtys := rfl
  openPrices := rfl
  rows := by
    intro item
    have all : tradesUpTo (trades ++ batch) timestamp = trades ++ batch :=
      tradesUpTo_of_le fun trade member => by
        rcases List.mem_append.mp member with old | new
        · exact reached trade old
        · exact (same trade new).le
    have listed : timestamp ∈ (trades ++ batch).map BookedTrade.timestamp := by
      obtain ⟨trade, member⟩ := List.exists_mem_of_ne_nil batch nonempty
      exact List.mem_map.mpr ⟨trade, List.mem_append_right _ member, same trade member⟩
    show item ∈ (ledger.tradePnl.set timestamp _).items ↔ _ ∧
      item.2 = ledgerRow ledger.contract.multiplier (tradesUpTo (trades ++ batch) item.1)
    rw [SortedDict.mem_set_iff, books.rows]
    by_cases at_timestamp : item.1 = timestamp
    · rw [at_timestamp, all]
      simp only [ne_eq, not_true_eq_false, false_and, or_false, listed, true_and]
      exact ⟨fun e => congrArg Prod.snd e, fun e => Prod.ext at_timestamp e⟩
    · have notNew : item ≠ (timestamp, ledgerRow ledger.contract.multiplier (trades ++ batch)) :=
        fun e => at_timestamp (congrArg Prod.fst e)
      have sameKeys : item.1 ∈ (trades ++ batch).map BookedTrade.timestamp ↔
          item.1 ∈ trades.map BookedTrade.timestamp := by
        rw [List.map_append, List.mem_append]
        refine or_iff_left fun member => ?_
        obtain ⟨trade, inBatch, e⟩ := List.mem_map.mp member
        exact at_timestamp (e ▸ same trade inBatch)
      simp only [notNew, false_or, ne_eq, at_timestamp, not_false_eq_true, true_and, sameKeys]
      refine and_congr_right fun member => ?_
      obtain ⟨trade, inTrades, e⟩ := List.mem_map.mp member
      have before : item.1 < timestamp :=
        lt_of_le_of_ne (e ▸ reached trade inTrades) at_timestamp
      have unaffected : tradesUpTo batch item.1 = [] :=
        tradesUpTo_of_lt fun other inBatch => by rw [same other inBatch]; exact before
      rw [tradesUpTo_append, unaffected, List.append_nil]

/-! ## A batch -/

theorem Books.chronology {ledger : ContractPnl} {trades batch : List BookedTrade}
    (books : Books ledger trades) (checked : ledger.validateTradeChronology batch = .ok ()) :
    ∀ trade ∈ trades, ∀ new ∈ batch, trade.timestamp ≤ new.timestamp := by
  intro trade member new newMember
  have newListed : new.timestamp ∈ npUnique (batch.map BookedTrade.timestamp) :=
    mem_npUnique.mpr (List.mem_map_of_mem newMember)
  have row := books.row_of_mem member
  have sorted := npUnique_sorted (batch.map BookedTrade.timestamp)
  unfold ContractPnl.validateTradeChronology at checked
  split at checked
  · rename_i first rest previous _ timestamps last
    rw [timestamps] at newListed sorted
    split at checked
    · cases checked
    · rename_i notBefore
      have firstLeast : first ≤ new.timestamp := by
        rcases List.mem_cons.mp newListed with same | later
        · exact same.ge
        · exact ((List.pairwise_cons.mp sorted).1 _ later).le
      have lastGreatest : trade.timestamp ≤ previous := by
        obtain ⟨initial, split⟩ := List.getLast?_eq_some_iff.mp last
        have increasing := ledger.tradePnl.sorted
        rw [split] at row increasing
        rcases List.mem_append.mp row with before | same
        · exact ((List.pairwise_append.mp increasing).2.2 _ before _ (List.mem_singleton_self _)).le
        · exact (congrArg Prod.fst (List.mem_singleton.mp same)).le
      exact lastGreatest.trans ((not_lt.mp notBefore).trans firstLeast)
  · rename_i noRow
    cases uniqueTimes : npUnique (batch.map BookedTrade.timestamp) with
    | nil =>
        rw [uniqueTimes] at newListed
        cases newListed
    | cons first rest =>
        cases last : ledger.tradePnl.items.getLast? with
        | none =>
            rw [List.getLast?_eq_none_iff.mp last] at row
            cases row
        | some item => exact absurd last (noRow first rest item.1 item.2 uniqueTimes)

/-- A property of ledgers and their trades that the iterations at the timestamps
of a kind keep.  The cache ends before the timestamp of the iteration. -/
def KeptByBooking (valuation : Valuation) (At : Timestamp → Prop)
    (Q : ContractPnl → List BookedTrade → Prop) : Prop :=
  ∀ (ledger ledger' : ContractPnl) (trades chunk : List BookedTrade) (timestamp : Timestamp),
    At timestamp → Books ledger trades → Q ledger trades →
    Books (ledger.withBooks (trades ++ chunk) timestamp) (trades ++ chunk) →
    (∀ trade ∈ trades, trade.timestamp ≤ timestamp) →
    (∀ item ∈ ledger.netPnl.items, item.1 < timestamp) → chunk ≠ [] →
    (∀ trade ∈ chunk, trade.timestamp = timestamp) →
    ContractPnl.calcNetPnl valuation timestamp
      (ledger.withBooks (trades ++ chunk) timestamp) = .ok ledger' →
    Q ledger' (trades ++ chunk)

theorem calcNetPnl_cached {valuation : Valuation} {ledger ledger' : ContractPnl}
    {timestamp : Timestamp} (run : ContractPnl.calcNetPnl valuation timestamp ledger = .ok ledger')
    {item : Timestamp × NetEntry} (member : item ∈ ledger'.netPnl.items) :
    item.1 = timestamp ∨ item ∈ ledger.netPnl.items := by
  rcases ContractPnl.calcNetPnl_ok run with ⟨_, rfl⟩ | ⟨_, _, price, unrealized, rfl⟩
  · exact Or.inr member
  · rcases (SortedDict.mem_set_iff _ _ _ _).mp member with same | ⟨_, old⟩
    · exact Or.inl (congrArg Prod.fst same)
    · exact Or.inr old

/-- The loop of `_add_trades` over increasing timestamps. -/
theorem Books.addTradesLoop {valuation : Valuation} {At : Timestamp → Prop}
    {Q : ContractPnl → List BookedTrade → Prop} (kept : KeptByBooking valuation At Q)
    {batch : List BookedTrade} {timestamps : List Timestamp} :
    ∀ {ledger ledger' : ContractPnl} {trades : List BookedTrade},
      Books ledger trades → Q ledger trades → (∀ timestamp ∈ timestamps, At timestamp) →
      timestamps.Pairwise (· < ·) →
      (∀ timestamp ∈ timestamps, ∀ trade ∈ trades, trade.timestamp ≤ timestamp) →
      (∀ timestamp ∈ timestamps, ∀ item ∈ ledger.netPnl.items, item.1 < timestamp) →
      (∀ timestamp ∈ timestamps, timestamp ∈ batch.map BookedTrade.timestamp) →
      timestamps.foldlM (ContractPnl.addTradesAt valuation batch) ledger = .ok ledger' →
      let booked := trades ++
        timestamps.flatMap fun timestamp => batch.filter fun trade => trade.timestamp = timestamp
      Books ledger' booked ∧ Q ledger' booked := by
  induction timestamps with
  | nil =>
      intro ledger ledger' trades books holds _ _ _ _ _ run
      cases run
      simpa using ⟨books, holds⟩
  | cons timestamp timestamps ih =>
      intro ledger ledger' trades books holds kinds increasing reached ends present run
      have here := List.mem_cons_self (a := timestamp) (l := timestamps)
      obtain ⟨first, increasingRest⟩ := List.pairwise_cons.mp increasing
      rw [List.foldlM_cons, books.addTradesAt (reached timestamp here)] at run
      obtain ⟨middle, valued, rest⟩ := Raising.bind_ok.mp run
      have nonempty : (batch.filter fun trade => trade.timestamp = timestamp) ≠ [] := by
        obtain ⟨trade, member, same⟩ := List.mem_map.mp (present timestamp here)
        exact List.ne_nil_of_mem (List.mem_filter.mpr ⟨member, by simpa using same⟩)
      have atTimestamp : ∀ trade ∈ batch.filter fun trade => trade.timestamp = timestamp,
          trade.timestamp = timestamp := fun trade member => by
        simpa using (List.mem_filter.mp member).2
      have middleBooks := books.withBooks nonempty (reached timestamp here) atTimestamp
      have reachedRest : ∀ later ∈ timestamps, ∀ trade ∈ trades ++
          batch.filter fun trade => trade.timestamp = timestamp, trade.timestamp ≤ later := by
        intro later member trade listed
        rcases List.mem_append.mp listed with old | new
        · exact reached later (List.mem_cons_of_mem _ member) trade old
        · rw [atTimestamp trade new]
          exact (first later member).le
      have endsRest : ∀ later ∈ timestamps, ∀ item ∈ middle.netPnl.items, item.1 < later := by
        intro later member item listed
        rcases calcNetPnl_cached valued listed with same | old
        · rw [same]
          exact first later member
        · exact ends later (List.mem_cons_of_mem _ member) item old
      have final := ih (middleBooks.of_sameBooks (ContractPnl.calcNetPnl_sameBooks valued))
        (kept ledger middle trades _ timestamp (kinds timestamp here) books holds middleBooks
          (reached timestamp here) (ends timestamp here) nonempty atTimestamp valued)
        (fun later member => kinds later (List.mem_cons_of_mem _ member)) increasingRest
        reachedRest endsRest
        (fun later member => present later (List.mem_cons_of_mem _ member)) rest
      rw [List.flatMap_cons, ← List.append_assoc]
      exact final

namespace ContractPnl

/-- The ledger as the loop of `_add_trades` finds it. -/
def openBatch (self : ContractPnl) (first : Timestamp) : ContractPnl :=
  { self with
    netPnl := self.netPnl.dropFrom first
    firstTradeTimestamp := some (self.firstTradeTimestamp.getD first)
    newTradesAdded := true }

end ContractPnl

theorem Books.openBatch {ledger : ContractPnl} {trades : List BookedTrade}
    (books : Books ledger trades) (first : Timestamp) : Books (ledger.openBatch first) trades :=
  ⟨books.chronological, books.openQtys, books.openPrices, books.rows⟩

/-- `_add_trades` checks the chronology and then runs its loop. -/
theorem addTrades_ok {valuation : Valuation} {ledger ledger' : ContractPnl}
    {batch : List BookedTrade} (nonempty : batch ≠ [])
    (run : ledger.addTrades valuation batch = .ok ledger') :
    ∃ first later, npUnique (batch.map BookedTrade.timestamp) = first :: later ∧
      ledger.validateTradeChronology batch = .ok () ∧
      (first :: later).foldlM (ContractPnl.addTradesAt valuation batch) (ledger.openBatch first) =
        .ok ledger' := by
  unfold ContractPnl.addTrades at run
  split at run
  · rename_i noTimestamp
    obtain ⟨trade, member⟩ := List.exists_mem_of_ne_nil batch nonempty
    have listed : trade.timestamp ∈ npUnique (batch.map BookedTrade.timestamp) :=
      mem_npUnique.mpr (List.mem_map_of_mem member)
    rw [noTimestamp] at listed
    cases listed
  · rename_i first later timestamps
    obtain ⟨_, checked, run⟩ := Raising.bind_ok.mp run
    exact ⟨first, later, timestamps, Raising.raiseIn_ok.mp checked, run⟩

theorem Books.addTrades {valuation : Valuation} {At : Timestamp → Prop}
    {Q : ContractPnl → List BookedTrade → Prop} (kept : KeptByBooking valuation At Q)
    {ledger ledger' : ContractPnl} {trades batch : List BookedTrade} (books : Books ledger trades)
    (sorted : Chronological BookedTrade.timestamp batch)
    (kinds : ∀ trade ∈ batch, At trade.timestamp)
    (opened : ∀ first, (∀ trade ∈ trades, trade.timestamp ≤ first) →
      (∀ trade ∈ batch, first ≤ trade.timestamp) → Q (ledger.openBatch first) trades)
    (nonempty : batch ≠ []) (run : ledger.addTrades valuation batch = .ok ledger') :
    Books ledger' (trades ++ batch) ∧ Q ledger' (trades ++ batch) := by
  obtain ⟨first, later, timestamps, checked, run⟩ := addTrades_ok nonempty run
  have increasing := npUnique_sorted (batch.map BookedTrade.timestamp)
  have listed : ∀ timestamp, timestamp ∈ first :: later ↔
      timestamp ∈ batch.map BookedTrade.timestamp := fun timestamp => by
    rw [← timestamps]
    exact mem_npUnique
  rw [timestamps] at increasing
  have after := books.chronology checked
  have reached : ∀ timestamp ∈ first :: later, ∀ trade ∈ trades, trade.timestamp ≤ timestamp := by
    intro timestamp member trade old
    obtain ⟨new, newMember, rfl⟩ := List.mem_map.mp ((listed timestamp).mp member)
    exact after trade old new newMember
  have least : ∀ timestamp ∈ first :: later, first ≤ timestamp := by
    intro timestamp member
    rcases List.mem_cons.mp member with same | behind
    · exact same.ge
    · exact ((List.pairwise_cons.mp increasing).1 _ behind).le
  have ends : ∀ timestamp ∈ first :: later, ∀ item ∈ (ledger.openBatch first).netPnl.items,
      item.1 < timestamp := fun timestamp member item cached =>
    ((SortedDict.mem_dropFrom_iff _ _ _).mp cached).2.trans_le (least timestamp member)
  have final := (books.openBatch first).addTradesLoop kept
    (opened first (reached first (List.mem_cons_self ..)) fun trade member =>
      least _ ((listed _).mpr (List.mem_map_of_mem member)))
    (fun timestamp member => by
      obtain ⟨trade, inBatch, rfl⟩ := List.mem_map.mp ((listed timestamp).mp member)
      exact kinds trade inBatch)
    increasing reached ends (fun timestamp member => (listed timestamp).mp member) run
  rw [flatMap_filter_keys increasing sorted fun trade member =>
    (listed _).mpr (List.mem_map_of_mem member)] at final
  exact final

theorem Books.addTrades_books {valuation : Valuation} {ledger ledger' : ContractPnl}
    {trades batch : List BookedTrade} (books : Books ledger trades)
    (sorted : Chronological BookedTrade.timestamp batch) (nonempty : batch ≠ [])
    (run : ledger.addTrades valuation batch = .ok ledger') : Books ledger' (trades ++ batch) := by
  have kept : KeptByBooking valuation (fun _ => True) fun _ _ => True :=
    fun _ _ _ _ _ _ _ _ _ _ _ _ _ _ => trivial
  exact (books.addTrades kept sorted (fun _ _ => trivial) (fun _ _ _ => trivial) nonempty run).1

end Gambit
