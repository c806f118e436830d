import Gambit.Accounting.Ledger

/-!
# Valuing a ledger at finite marks

Where the price function returns finite marks, the cached net P&L at a
timestamp that is not past the expiry is the one computed from scratch from
the contract's trades.  Past the expiry the first valuation is kept.
-/

set_option autoImplicit false

namespace Gambit

open FifoNetting KeyedLists

/-- Realized P&L, plus the open quantity at the mark against its average price,
less commissions and fees. -/
def scratchNetPnl (contract : Contract) (trades : List BookedTrade) (mark : ℚ) : ℚ :=
  let netted := fifo trades
  contract.multiplier * profit netted.closed +
    total netted.lots * (mark - average netted.lots) * contract.multiplier -
    (trades.map BookedTrade.commission).sum - (trades.map BookedTrade.fee).sum

/-- The net P&L at a timestamp, from all trades of the contract and its marks. -/
def netPnlFromScratch (contract : Contract) (trades : List BookedTrade) (mark : Timestamp → ℚ)
    (timestamp : Timestamp) : ℚ :=
  scratchNetPnl contract (tradesUpTo trades timestamp) (mark timestamp)

/-- The price function returns these finite marks of a contract on the grid. -/
def Marked (grid : Grid) (priceFunction : Contract → Nat → Except Exn Scalar)
    (mark : Contract → Timestamp → ℚ) (contract : Contract) : Prop :=
  ∀ index timestamp, grid.timestamps[index]? = some timestamp →
    priceFunction contract index = .ok (.real (mark contract timestamp))

theorem netPnlFromScratch_append {trades later : List BookedTrade} {timestamp : Timestamp}
    (after : ∀ trade ∈ later, timestamp < trade.timestamp) (contract : Contract)
    (mark : Timestamp → ℚ) :
    netPnlFromScratch contract (trades ++ later) mark timestamp =
      netPnlFromScratch contract trades mark timestamp := by
  rw [netPnlFromScratch, tradesUpTo_append, tradesUpTo_of_lt after, List.append_nil]
  rfl

theorem netPnlFromScratch_of_none {trades : List BookedTrade} {timestamp : Timestamp}
    (none : tradesUpTo trades timestamp = []) (contract : Contract) (mark : Timestamp → ℚ) :
    netPnlFromScratch contract trades mark timestamp = 0 := by
  rw [netPnlFromScratch, none]
  simp [scratchNetPnl, fifo, total_nil]

namespace ContractPnl

theorem expired_mono {ledger : ContractPnl} {earlier later : Timestamp} (le : earlier ≤ later)
    (past : ledger.expired earlier = true) : ledger.expired later = true := by
  unfold expired at past ⊢
  cases expiry : ledger.contract.expiry with
  | none =>
      rw [expiry] at past
      cases past
  | some limit =>
      rw [expiry] at past
      simp only [Option.any_some, decide_eq_true_eq] at past ⊢
      exact past.trans_le le

end ContractPnl

section Valuing

variable {valuation : Valuation} {mark : Contract → Timestamp → ℚ}
variable {ledger ledger' : ContractPnl} {trades : List BookedTrade} {timestamp : Timestamp}

/-- A valuation at finite marks keeps the ledger or records the net P&L from scratch. -/
theorem Books.calcNetPnl (books : Books ledger trades)
    (marked : Marked valuation.accountTimestamps valuation.priceFunction mark ledger.contract)
    (run : ContractPnl.calcNetPnl valuation timestamp ledger = .ok ledger') :
    (ledger.upToDate timestamp = true ∧ ledger' = ledger) ∨
      (ledger.upToDate timestamp = false ∧ timestamp ∈ valuation.accountTimestamps.timestamps ∧
        ∃ row : NetEntry,
          row.netPnl =
            netPnlFromScratch ledger.contract trades (mark ledger.contract) timestamp ∧
          ledger'.netPnl = ledger.netPnl.set timestamp row ∧
          ledger'.finalPnl =
            if ledger.expired timestamp then some row.netPnl else ledger.finalPnl) := by
  rcases ContractPnl.calcNetPnl_ok run with kept | ⟨stale, onGrid, _, _, _⟩
  · exact Or.inl kept
  · refine Or.inr ⟨stale, onGrid, ?_⟩
    obtain ⟨index, atIndex⟩ := List.mem_iff_getElem?.mp onGrid
    rw [ContractPnl.calcNetPnl_marked atIndex (marked index timestamp atIndex), stale,
      books.totalsAt] at run
    cases run
    refine ⟨_, ?_, rfl, rfl⟩
    simp only [ledgerRow, netPnlFromScratch, scratchNetPnl]

/-- The cached rows and the first trade timestamp agree with the trades. -/
structure Valued (mark : Contract → Timestamp → ℚ) (ledger : ContractPnl)
    (trades : List BookedTrade) : Prop where
  started : ∀ trade ∈ trades, ∃ first,
    ledger.firstTradeTimestamp = some first ∧ first ≤ trade.timestamp
  cachedFrom : ∀ item ∈ ledger.netPnl.items, ∃ first,
    ledger.firstTradeTimestamp = some first ∧ first ≤ item.1
  cached : ∀ item ∈ ledger.netPnl.items, ledger.expired item.1 = false →
    item.2.netPnl = netPnlFromScratch ledger.contract trades (mark ledger.contract) item.1
  recorded : ledger.finalPnl = none → ∀ item ∈ ledger.netPnl.items, ledger.expired item.1 = false

theorem valued_new (mark : Contract → Timestamp → ℚ) (contract : Contract) :
    Valued mark (ContractPnl.new contract) [] :=
  ⟨fun _ member => (by cases member), fun _ member => (by cases member),
    fun _ member => (by cases member), fun _ _ member => (by cases member)⟩

theorem Valued.openBatch (valued : Valued mark ledger trades) (first : Timestamp) :
    Valued mark (ledger.openBatch first) trades where
  started := fun trade member => by
    obtain ⟨start, stored, le⟩ := valued.started trade member
    exact ⟨start, by simp [ContractPnl.openBatch, stored], le⟩
  cachedFrom := fun item member => by
    obtain ⟨start, stored, le⟩ :=
      valued.cachedFrom item ((SortedDict.mem_dropFrom_iff _ _ _).mp member).1
    exact ⟨start, by simp [ContractPnl.openBatch, stored], le⟩
  cached := fun item member => valued.cached item ((SortedDict.mem_dropFrom_iff _ _ _).mp member).1
  recorded := fun unrecorded item member =>
    valued.recorded unrecorded item ((SortedDict.mem_dropFrom_iff _ _ _).mp member).1

theorem Valued.withBooks (valued : Valued mark ledger trades) {chunk : List BookedTrade}
    (ends : ∀ item ∈ ledger.netPnl.items, item.1 < timestamp)
    (same : ∀ trade ∈ chunk, trade.timestamp = timestamp)
    (started : ∃ first, ledger.firstTradeTimestamp = some first ∧ first ≤ timestamp) :
    Valued mark (ledger.withBooks (trades ++ chunk) timestamp) (trades ++ chunk) where
  started := fun trade member => by
    rcases List.mem_append.mp member with old | new
    · exact valued.started trade old
    · rw [same trade new]
      exact started
  cachedFrom := valued.cachedFrom
  cached := fun item member unexpired => by
    refine (valued.cached item member unexpired).trans (netPnlFromScratch_append ?_ _ _).symm
    intro trade new
    rw [same trade new]
    exact ends item member
  recorded := valued.recorded

theorem Valued.calcNetPnl (valued : Valued mark ledger trades) (books : Books ledger trades)
    (marked : Marked valuation.accountTimestamps valuation.priceFunction mark ledger.contract)
    (run : ContractPnl.calcNetPnl valuation timestamp ledger = .ok ledger') :
    Valued mark ledger' trades := by
  have same := ContractPnl.calcNetPnl_sameBooks run
  have sameExpiry : ∀ t, ledger'.expired t = ledger.expired t := fun t => by
    rw [ContractPnl.expired, ContractPnl.expired, same.contract]
  rcases books.calcNetPnl marked run with ⟨_, rfl⟩ | ⟨stale, _, row, value, netPnl, finalPnl⟩
  · exact valued
  · have reached : ∃ first, ledger.firstTradeTimestamp = some first ∧ first ≤ timestamp := by
      unfold ContractPnl.upToDate at stale
      cases stored : ledger.firstTradeTimestamp with
      | none => simp [stored] at stale
      | some first =>
          simp only [stored, Option.all_some, Bool.or_eq_false_iff, decide_eq_false_iff_not,
            not_lt] at stale
          exact ⟨first, rfl, stale.1.2⟩
    refine ⟨?_, fun item member => ?_, fun item member unexpired => ?_,
      fun unrecorded item member => ?_⟩
    · rw [same.firstTradeTimestamp]
      exact valued.started
    · rw [same.firstTradeTimestamp]
      rw [netPnl, SortedDict.mem_set_iff] at member
      rcases member with rfl | ⟨_, old⟩
      · exact reached
      · exact valued.cachedFrom item old
    · rw [sameExpiry] at unexpired
      rw [same.contract]
      rw [netPnl, SortedDict.mem_set_iff] at member
      rcases member with rfl | ⟨_, old⟩
      · exact value
      · exact valued.cached item old unexpired
    · rw [sameExpiry]
      rw [finalPnl] at unrecorded
      split at unrecorded
      · cases unrecorded
      · rename_i unexpired
        rw [netPnl, SortedDict.mem_set_iff] at member
        rcases member with rfl | ⟨_, old⟩
        · simpa using unexpired
        · exact valued.recorded unrecorded item old

/-- A ledger has its first trade timestamp from its first trade. -/
def Begun (ledger : ContractPnl) (trades : List BookedTrade) : Prop :=
  trades = [] → ledger.firstTradeTimestamp = none

/-- The batch begins at or after the ledger's first trade timestamp. -/
theorem Valued.openBatch_first (valued : Valued mark ledger trades) (begun : Begun ledger trades)
    {first : Timestamp} (reached : ∀ trade ∈ trades, trade.timestamp ≤ first) :
    ∃ start, (ledger.openBatch first).firstTradeTimestamp = some start ∧ start ≤ first := by
  cases trades with
  | nil => exact ⟨first, by simp [ContractPnl.openBatch, begun rfl], le_rfl⟩
  | cons trade rest =>
      obtain ⟨start, stored, le⟩ := valued.started trade (List.mem_cons_self ..)
      exact ⟨start, by simp [ContractPnl.openBatch, stored],
        le.trans (reached trade (List.mem_cons_self ..))⟩

/-- The ledger of a batch under way: valued, and begun before every trade of the batch. -/
structure Booking (mark : Contract → Timestamp → ℚ) (contract : Contract)
    (batch : List BookedTrade) (ledger : ContractPnl) (trades : List BookedTrade) : Prop where
  contract : ledger.contract = contract
  valued : Valued mark ledger trades
  begun : ∃ first, ledger.firstTradeTimestamp = some first ∧
    ∀ trade ∈ batch, first ≤ trade.timestamp

theorem Valued.booking (valued : Valued mark ledger trades) (begun : Begun ledger trades)
    {batch : List BookedTrade} {first : Timestamp}
    (reached : ∀ trade ∈ trades, trade.timestamp ≤ first)
    (least : ∀ trade ∈ batch, first ≤ trade.timestamp) :
    Booking mark ledger.contract batch (ledger.openBatch first) trades := by
  obtain ⟨start, stored, le⟩ := valued.openBatch_first begun reached
  exact ⟨rfl, valued.openBatch first, start, stored, fun trade member =>
    le.trans (least trade member)⟩

theorem Booking.step {contract : Contract} {batch chunk : List BookedTrade}
    (booking : Booking mark contract batch ledger trades)
    (inBatch : timestamp ∈ batch.map BookedTrade.timestamp)
    (middleBooks : Books (ledger.withBooks (trades ++ chunk) timestamp) (trades ++ chunk))
    (ends : ∀ item ∈ ledger.netPnl.items, item.1 < timestamp)
    (same : ∀ trade ∈ chunk, trade.timestamp = timestamp)
    (marked : Marked valuation.accountTimestamps valuation.priceFunction mark contract)
    (run : ContractPnl.calcNetPnl valuation timestamp
      (ledger.withBooks (trades ++ chunk) timestamp) = .ok ledger') :
    Booking mark contract batch ledger' (trades ++ chunk) := by
  obtain ⟨rfl, valued, first, stored, least⟩ := booking
  obtain ⟨trade, member, rfl⟩ := List.mem_map.mp inBatch
  have middle := valued.withBooks ends same ⟨first, stored, least trade member⟩
  have sameBooks := ContractPnl.calcNetPnl_sameBooks run
  refine ⟨sameBooks.contract, middle.calcNetPnl middleBooks marked run, first, ?_, least⟩
  rw [sameBooks.firstTradeTimestamp]
  exact stored

theorem Valued.addTrades (valued : Valued mark ledger trades) (books : Books ledger trades)
    (begun : Begun ledger trades)
    (marked : Marked valuation.accountTimestamps valuation.priceFunction mark ledger.contract)
    {batch : List BookedTrade} (sorted : Chronological BookedTrade.timestamp batch)
    (nonempty : batch ≠ []) (run : ledger.addTrades valuation batch = .ok ledger') :
    Valued mark ledger' (trades ++ batch) := by
  have kept : KeptByBooking valuation (fun t => t ∈ batch.map BookedTrade.timestamp)
      (Booking mark ledger.contract batch) := by
    intro ledger ledger' trades chunk t inBatch _ booking middleBooks _ ends _ same calculated
    exact booking.step inBatch middleBooks ends same marked calculated
  exact (books.addTrades kept sorted (fun trade member => List.mem_map_of_mem member)
    (fun first reached least => valued.booking begun reached least) nonempty run).2.valued

/-! ## After the expiry -/

theorem addTrades_final {value : ℚ} (books : Books ledger trades)
    (final : ledger.finalPnl = some value) {batch : List BookedTrade}
    (sorted : Chronological BookedTrade.timestamp batch) (nonempty : batch ≠ [])
    (run : ledger.addTrades valuation batch = .ok ledger') : ledger'.finalPnl = some value := by
  have kept : KeptByBooking valuation (fun _ => True)
      fun ledger _ => ledger.finalPnl = some value := by
    intro ledger ledger' trades chunk t _ _ final _ _ _ _ _ calculated
    exact (ledger.withBooks (trades ++ chunk) t).calcNetPnl_final final calculated
  exact (books.addTrades kept sorted (fun _ _ => trivial) (fun _ _ _ => final) nonempty run).2

/-- The final P&L is the net P&L from scratch at one timestamp past the expiry,
and until there is one no trade is past the expiry. -/
structure Settled (grid : Grid) (mark : Contract → Timestamp → ℚ) (ledger : ContractPnl)
    (trades : List BookedTrade) : Prop where
  frozen : ∀ value, ledger.finalPnl = some value → ∃ settledAt ∈ grid.timestamps,
    ledger.expired settledAt = true ∧ (∀ trade ∈ trades, trade.timestamp ≤ settledAt) ∧
      value = netPnlFromScratch ledger.contract trades (mark ledger.contract) settledAt
  live : ledger.finalPnl = none → ∀ trade ∈ trades, ledger.expired trade.timestamp = false

theorem settled_new (grid : Grid) (mark : Contract → Timestamp → ℚ) (contract : Contract) :
    Settled grid mark (ContractPnl.new contract) [] :=
  ⟨fun _ final => (by cases final), fun _ _ member => (by cases member)⟩

/-- A valuation settles the ledger if every trade that is past the expiry was
made at its timestamp. -/
theorem Settled.record (books : Books ledger trades)
    (marked : Marked valuation.accountTimestamps valuation.priceFunction mark ledger.contract)
    (unsettled : ledger.finalPnl = none)
    (past : ∀ trade ∈ trades, ledger.expired trade.timestamp = true → trade.timestamp = timestamp)
    (stale : ledger.upToDate timestamp = false)
    (run : ContractPnl.calcNetPnl valuation timestamp ledger = .ok ledger') :
    Settled valuation.accountTimestamps mark ledger' trades := by
  have same := ContractPnl.calcNetPnl_sameBooks run
  have sameExpiry : ∀ t, ledger'.expired t = ledger.expired t := fun t => by
    rw [ContractPnl.expired, ContractPnl.expired, same.contract]
  rcases books.calcNetPnl marked run with ⟨fresh, _⟩ | ⟨_, onGrid, row, value, _, finalPnl⟩
  · rw [stale] at fresh
    cases fresh
  · refine ⟨fun final stored => ?_, fun none trade member => ?_⟩
    · rw [finalPnl] at stored
      split at stored
      · rename_i expired
        cases stored
        refine ⟨timestamp, onGrid, by rw [sameExpiry]; exact expired, fun trade member => ?_, ?_⟩
        · cases tradePast : ledger.expired trade.timestamp with
          | true => exact (past trade member tradePast).le
          | false =>
              refine (not_lt.mp fun after => ?_)
              rw [ContractPnl.expired_mono after.le expired] at tradePast
              cases tradePast
        · rw [same.contract]
          exact value
      · rw [unsettled] at stored
        cases stored
    · rw [finalPnl] at none
      split at none
      · cases none
      · rename_i unexpired
        rw [sameExpiry]
        cases tradePast : ledger.expired trade.timestamp with
        | false => rfl
        | true =>
            rw [past trade member tradePast] at tradePast
            exact absurd tradePast unexpired

theorem Settled.calcNetPnl (settled : Settled valuation.accountTimestamps mark ledger trades)
    (books : Books ledger trades)
    (marked : Marked valuation.accountTimestamps valuation.priceFunction mark ledger.contract)
    (run : ContractPnl.calcNetPnl valuation timestamp ledger = .ok ledger') :
    Settled valuation.accountTimestamps mark ledger' trades := by
  cases stale : ledger.upToDate timestamp with
  | true =>
      rcases ContractPnl.calcNetPnl_ok run with ⟨_, rfl⟩ | ⟨fresh, _⟩
      · exact settled
      · rw [stale] at fresh
        cases fresh
  | false =>
      cases final : ledger.finalPnl with
      | none =>
          exact Settled.record books marked final (fun trade member past => by
            rw [settled.live final trade member] at past
            cases past) stale run
      | some value =>
          have same := ContractPnl.calcNetPnl_sameBooks run
          refine ⟨fun value' stored => ?_, fun none => ?_⟩
          · rw [ContractPnl.calcNetPnl_final final run] at stored
            cases stored
            obtain ⟨settledAt, onGrid, past, reached, value'⟩ := settled.frozen value final
            refine ⟨settledAt, onGrid, ?_, reached, by rw [same.contract]; exact value'⟩
            rw [ContractPnl.expired, same.contract]
            exact past
          · rw [ContractPnl.calcNetPnl_final final run] at none
            cases none

/-- An unsettled ledger is valued anew at every timestamp of its batch. -/
theorem Booking.stale {contract : Contract} {batch chunk : List BookedTrade}
    (booking : Booking mark contract batch ledger trades)
    (inBatch : timestamp ∈ batch.map BookedTrade.timestamp)
    (ends : ∀ item ∈ ledger.netPnl.items, item.1 < timestamp) (unsettled : ledger.finalPnl = none) :
    (ledger.withBooks (trades ++ chunk) timestamp).upToDate timestamp = false := by
  obtain ⟨first, stored, least⟩ := booking.begun
  obtain ⟨trade, member, rfl⟩ := List.mem_map.mp inBatch
  have notCached : ledger.netPnl.contains trade.timestamp = false := by
    rw [Bool.eq_false_iff]
    intro cached
    obtain ⟨row, found⟩ := Option.isSome_iff_exists.mp cached
    exact lt_irrefl _ (ends _ ((SortedDict.get?_eq_some_iff _ _ _).mp found))
  simp [ContractPnl.upToDate, ContractPnl.withBooks, notCached, stored, least trade member,
    unsettled]

/-- A batch with at most one timestamp past the expiry, into a ledger that has
no final P&L yet, leaves the ledger settled. -/
theorem Settled.addTrades (settled : Settled valuation.accountTimestamps mark ledger trades)
    (valued : Valued mark ledger trades) (books : Books ledger trades) (begun : Begun ledger trades)
    (marked : Marked valuation.accountTimestamps valuation.priceFunction mark ledger.contract)
    {batch : List BookedTrade} (sorted : Chronological BookedTrade.timestamp batch)
    (unsettled : ledger.finalPnl = none)
    (oncePast : ∀ a ∈ batch, ∀ b ∈ batch, ledger.expired a.timestamp = true →
      ledger.expired b.timestamp = true → a.timestamp = b.timestamp)
    (nonempty : batch ≠ []) (run : ledger.addTrades valuation batch = .ok ledger') :
    Settled valuation.accountTimestamps mark ledger' (trades ++ batch) := by
  have kept : KeptByBooking valuation (fun t => t ∈ batch.map BookedTrade.timestamp)
      fun now trades => Booking mark ledger.contract batch now trades ∧
        Settled valuation.accountTimestamps mark now trades ∧
        (now.finalPnl.isSome → ∃ item ∈ now.netPnl.items, now.expired item.1 = true ∧
          item.1 ∈ batch.map BookedTrade.timestamp) := by
    intro now now' trades chunk t inBatch nowBooks holds middleBooks reached ends _ same calculated
    obtain ⟨booking, settled, recorded⟩ := holds
    have sameContract := booking.contract
    have sameExpiry : ∀ t, now.expired t = ledger.expired t := fun t => by
      rw [ContractPnl.expired, ContractPnl.expired, sameContract]
    have unsettledNow : now.finalPnl = none := by
      rw [← Option.not_isSome_iff_eq_none]
      intro final
      obtain ⟨item, member, past, itemInBatch⟩ := recorded final
      have before := ends item member
      have pastNow := ContractPnl.expired_mono before.le past
      obtain ⟨a, aMember, aTime⟩ := List.mem_map.mp itemInBatch
      obtain ⟨b, bMember, bTime⟩ := List.mem_map.mp inBatch
      rw [sameExpiry] at past pastNow
      have equal := oncePast a aMember b bMember (aTime.symm ▸ past) (bTime.symm ▸ pastNow)
      rw [aTime, bTime] at equal
      exact before.ne equal
    have past : ∀ trade ∈ trades ++ chunk,
        (now.withBooks (trades ++ chunk) t).expired trade.timestamp = true → trade.timestamp = t := by
      intro trade member expired
      rcases List.mem_append.mp member with old | new
      · have live := settled.live unsettledNow trade old
        rw [show now.expired trade.timestamp = true from expired] at live
        cases live
      · exact same trade new
    have middleStale : (now.withBooks (trades ++ chunk) t).upToDate t = false :=
      booking.stale inBatch ends unsettledNow
    have markedNow : Marked valuation.accountTimestamps valuation.priceFunction mark
        (now.withBooks (trades ++ chunk) t).contract := sameContract ▸ marked
    refine ⟨booking.step inBatch middleBooks ends same marked calculated,
      Settled.record middleBooks markedNow unsettledNow past middleStale calculated, fun final => ?_⟩
    rcases middleBooks.calcNetPnl markedNow calculated with
      ⟨fresh, _⟩ | ⟨_, _, row, _, netPnl, finalPnl⟩
    · rw [middleStale] at fresh
      cases fresh
    · rw [finalPnl] at final
      split at final
      · rename_i expired
        refine ⟨(t, row), ?_, ?_, inBatch⟩
        · rw [netPnl]
          exact (SortedDict.mem_set_iff _ _ _ _).mpr (Or.inl rfl)
        · rw [ContractPnl.expired, (ContractPnl.calcNetPnl_sameBooks calculated).contract]
          exact expired
      · rw [show (now.withBooks (trades ++ chunk) t).finalPnl = none from unsettledNow] at final
        cases final
  refine (books.addTrades kept sorted (fun trade member => List.mem_map_of_mem member)
    (fun first reached least => ⟨valued.booking begun reached least,
      ⟨fun value final => ?_, fun _ => settled.live unsettled⟩, fun final => ?_⟩) nonempty run).2.2.1
  · rw [show (ledger.openBatch first).finalPnl = none from unsettled] at final
    cases final
  · rw [show (ledger.openBatch first).finalPnl = none from unsettled] at final
    cases final

/-! ## Reading the net P&L -/

/-- What `calc` reads right after it valued the ledger. -/
theorem Valued.netPnlAt (valued : Valued mark ledger trades) (books : Books ledger trades)
    (marked : Marked valuation.accountTimestamps valuation.priceFunction mark ledger.contract)
    (run : ContractPnl.calcNetPnl valuation timestamp ledger = .ok ledger') :
    (ledger.expired timestamp = false → ledger'.netPnlAt timestamp =
        netPnlFromScratch ledger.contract trades (mark ledger.contract) timestamp) ∧
      (ledger.expired timestamp = true →
        ledger'.finalPnl = some (ledger'.netPnlAt timestamp) ∨
          (tradesUpTo trades timestamp = [] ∧ ledger'.netPnlAt timestamp = 0)) := by
  have valued' := valued.calcNetPnl books marked run
  have same := ContractPnl.calcNetPnl_sameBooks run
  have sameExpiry : ∀ t, ledger'.expired t = ledger.expired t := fun t => by
    rw [ContractPnl.expired, ContractPnl.expired, same.contract]
  have early : ledger'.firstTradeTimestamp.all (timestamp < ·) = true →
      itemBefore ledger'.netPnl timestamp = none ∧ tradesUpTo trades timestamp = [] := by
    intro before
    refine ⟨(itemBefore_eq_none_iff _ _).mpr fun item member => ?_,
      tradesUpTo_of_lt fun trade member => ?_⟩
    · obtain ⟨first, stored, le⟩ := valued'.cachedFrom item member
      rw [stored, Option.all_some, decide_eq_true_eq] at before
      exact before.trans_le le
    · obtain ⟨first, stored, le⟩ := valued'.started trade member
      rw [stored, Option.all_some, decide_eq_true_eq] at before
      exact before.trans_le le
  have outcome : (∃ row, (timestamp, row) ∈ ledger'.netPnl.items) ∨
      ledger'.firstTradeTimestamp.all (timestamp < ·) = true ∨
      (ledger.expired timestamp = true ∧ ledger'.finalPnl.isSome = true) := by
    rcases books.calcNetPnl marked run with ⟨fresh, rfl⟩ | ⟨_, _, row, _, netPnl, _⟩
    · unfold ContractPnl.upToDate at fresh
      rw [Bool.or_eq_true, Bool.or_eq_true, Bool.and_eq_true, Bool.and_eq_true] at fresh
      rcases fresh with (⟨cached, _⟩ | before) | past
      · obtain ⟨row, found⟩ := Option.isSome_iff_exists.mp cached
        exact Or.inl ⟨row, (SortedDict.get?_eq_some_iff _ _ _).mp found⟩
      · exact Or.inr (Or.inl before)
      · exact Or.inr (Or.inr past)
    · refine Or.inl ⟨row, ?_⟩
      rw [netPnl]
      exact (SortedDict.mem_set_iff _ _ _ _).mpr (Or.inl rfl)
  constructor
  · intro unexpired
    have reads : ledger'.netPnlAt timestamp =
        (itemBefore ledger'.netPnl timestamp).elim 0 fun item => item.2.netPnl := by
      unfold ContractPnl.netPnlAt
      rw [sameExpiry, unexpired]
    rw [reads]
    rcases outcome with ⟨row, member⟩ | before | ⟨past, _⟩
    · have found : itemBefore ledger'.netPnl timestamp = some (timestamp, row) :=
        (itemBefore_eq_some_iff _ _ _).mpr ⟨member, le_rfl, fun _ _ le => le⟩
      rw [found, ← same.contract]
      exact valued'.cached (timestamp, row) member (by rw [sameExpiry]; exact unexpired)
    · obtain ⟨none, noTrades⟩ := early before
      rw [none, netPnlFromScratch_of_none noTrades]
      rfl
    · rw [unexpired] at past
      cases past
  · intro expired
    unfold ContractPnl.netPnlAt
    rw [sameExpiry, expired]
    cases final : ledger'.finalPnl with
    | some value => exact Or.inl rfl
    | none =>
        right
        rcases outcome with ⟨row, member⟩ | before | ⟨_, settled⟩
        · have unexpired := valued'.recorded final _ member
          rw [sameExpiry, expired] at unexpired
          cases unexpired
        · obtain ⟨none, noTrades⟩ := early before
          exact ⟨noTrades, by rw [none]; rfl⟩
        · rw [final] at settled
          cases settled

end Valuing

end Gambit
