import Gambit.Accounting.DetailedPnl
import Gambit.Accounting.LedgerInvariants

/-!
# What the report by contract shows

The rows that `df_pnl` keeps of a contract show all changes of its ledger and
end with its latest state if and only if the ledger has a valuation and its net
P&L did not change last before its trades did.
-/

set_option autoImplicit false

namespace Gambit

open KeyedLists Raising

section Ledgers

variable {valuation : Valuation} {ledger ledger' : ContractPnl} {trades : List BookedTrade}
variable {timestamp first : Timestamp}

/-! ## The first valuation -/

/-- The valuations begin with the first trade.  Only a batch at that timestamp,
after the contract expired and was settled, leaves the ledger without any. -/
structure Anchored (ledger : ContractPnl) (first : Timestamp) : Prop where
  begun : ledger.firstTradeTimestamp = some first
  after : ∀ item ∈ ledger.netPnl.items, first ≤ item.1
  valued : (∃ row, (first, row) ∈ ledger.netPnl.items) ∨
    (ledger.netPnl.items = [] ∧ ledger.finalPnl.isSome = true ∧ ledger.expired first = true)

def Unbegun (ledger : ContractPnl) : Prop :=
  ledger.firstTradeTimestamp = none ∧ ledger.netPnl.items = [] ∧ ledger.finalPnl = none

theorem reached_of_stale (begun : ledger.firstTradeTimestamp = some first)
    (stale : ledger.upToDate timestamp = false) : first ≤ timestamp := by
  unfold ContractPnl.upToDate at stale
  simp only [begun, Option.all_some, Bool.or_eq_false_iff, decide_eq_false_iff_not, not_lt] at stale
  exact stale.1.2

theorem Anchored.calcNetPnl (anchored : Anchored ledger first)
    (run : ContractPnl.calcNetPnl valuation timestamp ledger = .ok ledger') :
    Anchored ledger' first := by
  rcases ContractPnl.calcNetPnl_ok run with ⟨_, rfl⟩ | ⟨stale, _, price, unrealized, rfl⟩
  · exact anchored
  · have reached := reached_of_stale anchored.begun stale
    refine ⟨anchored.begun, fun item member => ?_, Or.inl ?_⟩
    · rcases (SortedDict.mem_set_iff _ _ _ _).mp member with rfl | ⟨_, old⟩
      · exact reached
      · exact anchored.after item old
    · rcases anchored.valued with ⟨row, member⟩ | ⟨_, settled, past⟩
      · by_cases same : first = timestamp
        · exact ⟨_, (SortedDict.mem_set_iff _ _ _ _).mpr (Or.inl (by rw [same]))⟩
        · exact ⟨row, (SortedDict.mem_set_iff _ _ _ _).mpr (Or.inr ⟨same, member⟩)⟩
      · unfold ContractPnl.upToDate at stale
        simp [ContractPnl.expired_mono reached past, settled] at stale

/-- Valuing at the first timestamp anchors a ledger without valuations. -/
theorem anchored_of_empty (begun : ledger.firstTradeTimestamp = some timestamp)
    (empty : ledger.netPnl.items = [])
    (run : ContractPnl.calcNetPnl valuation timestamp ledger = .ok ledger') :
    Anchored ledger' timestamp := by
  rcases ContractPnl.calcNetPnl_ok run with ⟨fresh, rfl⟩ | ⟨_, _, price, unrealized, rfl⟩
  · have none_cached : ledger'.netPnl.contains timestamp = false := by
      rw [SortedDict.contains, Option.isSome_eq_false_iff, Option.isNone_iff_eq_none,
        SortedDict.get?_eq_none_iff, empty]
      exact fun _ member => (by cases member)
    unfold ContractPnl.upToDate at fresh
    simp only [none_cached, begun, Option.all_some, lt_self_iff_false, decide_false,
      Bool.false_and, Bool.false_or, Bool.and_eq_true] at fresh
    refine ⟨begun, fun item member => ?_, Or.inr ⟨empty, fresh.2, fresh.1⟩⟩
    rw [empty] at member
    cases member
  · refine ⟨begun, fun item member => ?_,
      Or.inl ⟨_, (SortedDict.mem_set_iff _ _ _ _).mpr (Or.inl rfl)⟩⟩
    rcases (SortedDict.mem_set_iff _ _ _ _).mp member with rfl | ⟨_, old⟩
    · exact le_rfl
    · rw [empty] at old
      cases old

/-- What booking trades at a timestamp leaves to their valuation. -/
structure SameValuations (before after : ContractPnl) : Prop where
  contract : after.contract = before.contract
  netPnl : after.netPnl = before.netPnl
  firstTradeTimestamp : after.firstTradeTimestamp = before.firstTradeTimestamp
  finalPnl : after.finalPnl = before.finalPnl

theorem addTradesAt_values {batch : List BookedTrade}
    (run : ContractPnl.addTradesAt valuation batch ledger timestamp = .ok ledger') :
    ∃ middle, SameValuations ledger middle ∧
      ContractPnl.calcNetPnl valuation timestamp middle = .ok ledger' := by
  obtain ⟨pnl, _, run⟩ := bind_ok.mp run
  refine ⟨_, ?_, run⟩
  exact ⟨rfl, rfl, rfl, rfl⟩

theorem Anchored.of_same (anchored : Anchored ledger first) (same : SameValuations ledger ledger') :
    Anchored ledger' first where
  begun := same.firstTradeTimestamp.trans anchored.begun
  after := by
    rw [same.netPnl]
    exact anchored.after
  valued := by
    rw [same.netPnl, same.finalPnl, ContractPnl.expired, same.contract]
    exact anchored.valued

/-- A batch opens an anchored ledger at a later timestamp. -/
theorem Anchored.openBatch {opening : Timestamp} (anchored : Anchored ledger first)
    (less : first < opening) : Anchored (ledger.openBatch opening) first where
  begun := by simp [ContractPnl.openBatch, anchored.begun]
  after := fun item member =>
    anchored.after item ((SortedDict.mem_dropFrom_iff _ _ _).mp member).1
  valued := by
    rcases anchored.valued with ⟨row, member⟩ | ⟨empty, settled, past⟩
    · exact Or.inl ⟨row, (SortedDict.mem_dropFrom_iff _ _ _).mpr ⟨member, less⟩⟩
    · refine Or.inr ⟨List.eq_nil_iff_forall_not_mem.mpr fun item member => ?_, settled, past⟩
      have old := ((SortedDict.mem_dropFrom_iff _ _ _).mp member).1
      rw [empty] at old
      cases old

theorem openBatch_empty {opening : Timestamp}
    (later : ∀ item ∈ ledger.netPnl.items, opening ≤ item.1) :
    (ledger.openBatch opening).netPnl.items = [] :=
  List.eq_nil_iff_forall_not_mem.mpr fun item member => by
    obtain ⟨old, before⟩ := (SortedDict.mem_dropFrom_iff _ _ _).mp member
    exact absurd before (not_lt.mpr (later item old))

/-- The first iteration of a batch anchors the ledger, or leaves it so. -/
theorem anchored_first {batch : List BookedTrade} {opening : Timestamp}
    (start : Unbegun ledger ∨ ∃ first, Anchored ledger first ∧ first ≤ opening)
    (run : ContractPnl.addTradesAt valuation batch (ledger.openBatch opening) opening =
      .ok ledger') :
    Anchored ledger' (ledger.firstTradeTimestamp.getD opening) := by
  obtain ⟨middle, same, run⟩ := addTradesAt_values run
  have emptied : ledger.firstTradeTimestamp.getD opening = opening →
      (∀ item ∈ ledger.netPnl.items, opening ≤ item.1) →
      Anchored ledger' (ledger.firstTradeTimestamp.getD opening) := by
    intro here later
    rw [here]
    refine anchored_of_empty (same.firstTradeTimestamp.trans (congrArg some here)) ?_ run
    rw [same.netPnl]
    exact openBatch_empty later
  rcases start with ⟨noTrade, noRow, _⟩ | ⟨first, anchored, le⟩
  · refine emptied (by rw [noTrade]; rfl) fun item member => ?_
    rw [noRow] at member
    cases member
  · have begun : ledger.firstTradeTimestamp.getD opening = first := by
      rw [anchored.begun]
      rfl
    rcases le.lt_or_eq with less | rfl
    · rw [begun]
      exact ((anchored.openBatch less).of_same same).calcNetPnl run
    · exact emptied begun anchored.after

theorem Anchored.addTradesLoop {batch : List BookedTrade} {timestamps : List Timestamp} :
    ∀ {ledger : ContractPnl}, Anchored ledger first →
      timestamps.foldlM (ContractPnl.addTradesAt valuation batch) ledger = .ok ledger' →
      Anchored ledger' first := by
  induction timestamps with
  | nil =>
      intro ledger anchored run
      cases run
      exact anchored
  | cons timestamp timestamps ih =>
      intro ledger anchored run
      rw [List.foldlM_cons] at run
      obtain ⟨middle, here, rest⟩ := bind_ok.mp run
      obtain ⟨booked, same, values⟩ := addTradesAt_values here
      exact ih ((anchored.of_same same).calcNetPnl values) rest

/-- A ledger without trades is as new, and one with trades is anchored before them. -/
def Begins (ledger : ContractPnl) (trades : List BookedTrade) : Prop :=
  (trades = [] ∧ Unbegun ledger) ∨
    (trades ≠ [] ∧ ∃ first, Anchored ledger first ∧ ∀ trade ∈ trades, first ≤ trade.timestamp)

theorem begins_invariant (valuation : Valuation) : LedgerInvariant valuation Begins where
  new := fun _ => Or.inl ⟨rfl, rfl, rfl, rfl⟩
  valued := by
    rintro ledger ledger' trades timestamp _ begins run
    rcases begins with ⟨none, unbegun⟩ | ⟨some_trade, first, anchored, least⟩
    · left
      rcases ContractPnl.calcNetPnl_ok run with ⟨_, rfl⟩ | ⟨stale, _⟩
      · exact ⟨none, unbegun⟩
      · unfold ContractPnl.upToDate at stale
        simp [unbegun.1] at stale
    · exact Or.inr ⟨some_trade, first, anchored.calcNetPnl run, least⟩
  booked := by
    intro ledger ledger' trades batch books begins sorted nonempty run
    obtain ⟨opening, later, timestamps, checked, run⟩ := addTrades_ok nonempty run
    have least : ∀ trade ∈ batch, opening ≤ trade.timestamp := by
      intro trade member
      have increasing := npUnique_sorted (batch.map BookedTrade.timestamp)
      have listed : trade.timestamp ∈ npUnique (batch.map BookedTrade.timestamp) :=
        mem_npUnique.mpr (List.mem_map_of_mem member)
      rw [timestamps] at increasing listed
      rcases List.mem_cons.mp listed with same | behind
      · exact same.ge
      · exact ((List.pairwise_cons.mp increasing).1 _ behind).le
    rw [List.foldlM_cons] at run
    obtain ⟨middle, here, rest⟩ := bind_ok.mp run
    refine Or.inr ⟨List.append_ne_nil_of_right_ne_nil _ nonempty, ?_⟩
    rcases begins with ⟨rfl, unbegun⟩ | ⟨some_trade, first, anchored, before⟩
    · have opened := anchored_first (Or.inl unbegun) here
      rw [unbegun.1] at opened
      exact ⟨opening, opened.addTradesLoop rest, least⟩
    · obtain ⟨old, oldMember⟩ := List.exists_mem_of_ne_nil _ some_trade
      have listed : opening ∈ npUnique (batch.map BookedTrade.timestamp) := by simp [timestamps]
      obtain ⟨new, newMember, rfl⟩ := List.mem_map.mp (mem_npUnique.mp listed)
      have reached : first ≤ new.timestamp :=
        (before old oldMember).trans (books.chronology checked old oldMember new newMember)
      have opened := anchored_first (Or.inr ⟨first, anchored, reached⟩) here
      rw [anchored.begun] at opened
      refine ⟨first, opened.addTradesLoop rest, fun trade member => ?_⟩
      rcases List.mem_append.mp member with earlier | added
      · exact before trade earlier
      · exact reached.trans (least trade added)

end Ledgers

/-! ## Reading a ledger between its rows -/

namespace ContractPnl

variable {self : ContractPnl} {t : Timestamp}

/-- The position, realized P&L, fee and commission at a time. -/
def tradeCells (self : ContractPnl) (t : Timestamp) : Int × ℚ × ℚ × ℚ :=
  ((self.pnl t).position, (self.pnl t).realized, (self.pnl t).fee, (self.pnl t).commission)

/-- The ledger reads otherwise than a nanosecond before. -/
def TradeChange (self : ContractPnl) (t : Timestamp) : Prop :=
  self.tradeCells t ≠ self.tradeCells (t - 1)

/-- So does its net P&L, after the first trade. -/
def NetChange (self : ContractPnl) (t : Timestamp) : Prop :=
  self.firstTradeTimestamp.any (· < t) = true ∧
    (self.pnl t).netPnl ≠ (self.pnl (t - 1)).netPnl

theorem mem_timestamps : t ∈ self.timestamps ↔ t ∈ self.tradePnl.keys ∨ t ∈ self.netPnl.keys := by
  rw [timestamps, mem_npUnique, List.mem_append]

theorem itemBefore_congr {ν : Type} {d : SortedDict Timestamp ν} {earlier later : Timestamp}
    (le : earlier ≤ later) (none_between : ∀ key ∈ d.keys, key ≤ later → key ≤ earlier) :
    itemBefore d later = itemBefore d earlier := by
  rw [itemBefore_eq, itemBefore_eq, SortedDict.upTo, SortedDict.upTo]
  refine congrArg List.getLast? (List.filter_congr fun item member => ?_)
  have key := none_between item.1 (List.mem_map_of_mem member)
  simpa using ⟨key, fun reached => reached.trans le⟩

/-- Between its rows the ledger reads as at the row before. -/
theorem pnl_congr {earlier later : Timestamp} (le : earlier ≤ later)
    (none_between : ∀ key ∈ self.timestamps, key ≤ later → key ≤ earlier) :
    self.pnl later = self.pnl earlier := by
  unfold pnl
  rw [itemBefore_congr le fun key member => none_between key (mem_timestamps.mpr (Or.inl member)),
    itemBefore_congr le fun key member => none_between key (mem_timestamps.mpr (Or.inr member))]

theorem TradeChange.mem_timestamps (change : self.TradeChange t) : t ∈ self.timestamps := by
  by_contra absent
  refine change ?_
  have same : self.pnl t = self.pnl (t - 1) :=
    pnl_congr (sub_le_self t zero_le_one) fun key member le =>
      Int.le_sub_one_of_lt (lt_of_le_of_ne le fun same => absent (same ▸ member))
  rw [tradeCells, same]
  rfl

theorem NetChange.mem_netPnl (change : self.NetChange t) : t ∈ self.netPnl.keys := by
  by_contra absent
  refine change.2 ?_
  have same : itemBefore self.netPnl t = itemBefore self.netPnl (t - 1) :=
    itemBefore_congr (sub_le_self t zero_le_one) fun key member le =>
      Int.le_sub_one_of_lt (lt_of_le_of_ne le fun same => absent (same ▸ member))
  unfold pnl
  rw [same]

theorem df_ascending (self : ContractPnl) :
    (self.df.map ContractRow.timestamp).Pairwise (· < ·) := by
  have same : self.df.map ContractRow.timestamp = self.timestamps := by
    rw [df, List.map_map]
    exact List.map_id _
  rw [same]
  exact npUnique_sorted _

theorem mem_df {row : ContractRow} :
    row ∈ self.df ↔ row.timestamp ∈ self.timestamps ∧ row = self.rowAt row.timestamp := by
  rw [df, List.mem_map]
  constructor
  · rintro ⟨t, member, rfl⟩
    exact ⟨member, rfl⟩
  · rintro ⟨member, same⟩
    exact ⟨_, member, same.symm⟩

end ContractPnl

/-- A ledger with trades, as calls leave it. -/
structure Kept (ledger : ContractPnl) (trades : List BookedTrade) (first : Timestamp) : Prop where
  books : Books ledger trades
  itemised : Itemised ledger trades
  anchored : Anchored ledger first
  least : ∀ trade ∈ trades, first ≤ trade.timestamp
  traded : trades ≠ []

namespace Kept

open ContractPnl

variable {ledger : ContractPnl} {trades : List BookedTrade} {first t : Timestamp}

theorem first_le (kept : Kept ledger trades first) (member : t ∈ ledger.timestamps) : first ≤ t := by
  rcases mem_timestamps.mp member with trade | net
  · obtain ⟨item, listed, rfl⟩ := List.mem_map.mp trade
    obtain ⟨new, newMember, sameTime⟩ := List.mem_map.mp ((kept.books.rows item).mp listed).1
    rw [← sameTime]
    exact kept.least new newMember
  · obtain ⟨item, listed, rfl⟩ := List.mem_map.mp net
    exact kept.anchored.after item listed

/-- Where there are valuations, one is at the first trade. -/
theorem valued (kept : Kept ledger trades first) (some_row : ledger.netPnl.items ≠ []) :
    ∃ row, (first, row) ∈ ledger.netPnl.items := by
  rcases kept.anchored.valued with row | ⟨empty, _⟩
  · exact row
  · exact absurd empty some_row

theorem row_at (kept : Kept ledger trades first) (some_row : ledger.netPnl.items ≠ [])
    (reached : first ≤ t) : (ledger.rowAt t).net =
      some ⟨(ledger.pnl t).price, (ledger.pnl t).unrealized, (ledger.pnl t).netPnl⟩ := by
  obtain ⟨row, member⟩ := kept.valued some_row
  unfold rowAt pnl
  cases found : itemBefore ledger.netPnl t with
  | none => exact absurd reached (not_le.mpr ((itemBefore_eq_none_iff _ _).mp found _ member))
  | some item => rfl

/-- The row that a time reads. -/
theorem reading_row (kept : Kept ledger trades first) (some_row : ledger.netPnl.items ≠ [])
    (reached : first ≤ t) : ∃ key ∈ ledger.timestamps, key ≤ t ∧
      (∀ other ∈ ledger.timestamps, other ≤ t → other ≤ key) ∧ ledger.pnl t = ledger.pnl key := by
  obtain ⟨row, member⟩ := kept.valued some_row
  have here : first ∈ ledger.timestamps.filter fun key => decide (key ≤ t) :=
    List.mem_filter.mpr ⟨mem_timestamps.mpr (Or.inr (List.mem_map.mpr ⟨_, member, rfl⟩)),
      by simpa using reached⟩
  have sorted : (ledger.timestamps.filter fun key => decide (key ≤ t)).Pairwise (· ≤ ·) :=
    ((npUnique_sorted _).imp le_of_lt).filter _
  have last := List.getLast?_eq_some_getLast (List.ne_nil_of_mem here)
  obtain ⟨listed, greatest⟩ := (SortedLists.getLast?_eq_some_iff_greatest sorted).mp last
  obtain ⟨keyMember, keyLe⟩ := List.mem_filter.mp listed
  rw [decide_eq_true_eq] at keyLe
  have latest : ∀ other ∈ ledger.timestamps, other ≤ t → other ≤ _ := fun other member le =>
    greatest other (List.mem_filter.mpr ⟨member, by simpa using le⟩)
  exact ⟨_, keyMember, keyLe, latest, pnl_congr keyLe latest⟩

/-- The net P&L adds up with the trades at its valuation. -/
theorem net_adds_up (kept : Kept ledger trades first) (some_row : ledger.netPnl.items ≠ [])
    (reached : first ≤ t) : ∃ key ≤ t, (∀ other ∈ ledger.netPnl.keys, other ≤ t → other ≤ key) ∧
      (ledger.pnl t).netPnl = (ledger.pnl key).realized + (ledger.pnl t).unrealized -
        (ledger.pnl key).commission - (ledger.pnl key).fee := by
  obtain ⟨row, member⟩ := kept.valued some_row
  cases found : itemBefore ledger.netPnl t with
  | none => exact absurd reached (not_le.mpr ((itemBefore_eq_none_iff _ _).mp found _ member))
  | some item =>
      obtain ⟨listed, le, greatest⟩ := (itemBefore_eq_some_iff _ _ _).mp found
      refine ⟨item.1, le, fun other otherMember otherLe => ?_, ?_⟩
      · obtain ⟨otherItem, otherListed, rfl⟩ := List.mem_map.mp otherMember
        exact greatest otherItem otherListed otherLe
      · have sum := kept.itemised item listed
        have totals := kept.books.totalsAt item.1
        rw [← totals] at sum
        unfold pnl
        rw [found]
        exact sum

end Kept

/-! ## The report of a contract -/

/-- The rows have every change of the ledger's position, realized P&L, fee or
commission, and end with its latest state. -/
structure ShowsLedger (ledger : ContractPnl) (rows : List ContractRow) : Prop where
  changes : ∀ t, ledger.TradeChange t → ∃ row ∈ rows, row.timestamp = t ∧
    (row.position, row.realized, row.fee, row.commission) = ledger.tradeCells t
  last : ∀ t, (∀ key ∈ ledger.timestamps, key ≤ t) → ∃ row, rows.getLast? = some row ∧
    row.position = (ledger.pnl t).position ∧ row.realized = (ledger.pnl t).realized ∧
    ∃ cells, row.net = some cells ∧ cells.unrealized = (ledger.pnl t).unrealized ∧
      cells.netPnl = (ledger.pnl t).netPnl

/-- If the net P&L ever changed, then no earlier than the last change of the
position, realized P&L, fee or commission. -/
def NetChangesLast (ledger : ContractPnl) : Prop :=
  (∃ t, ledger.NetChange t) → ∀ t, ledger.TradeChange t → ∃ later ≥ t, ledger.NetChange later

theorem exists_upper_bound (ts : List Timestamp) : ∃ bound, ∀ t ∈ ts, t ≤ bound := by
  induction ts with
  | nil => exact ⟨0, fun _ member => (by cases member)⟩
  | cons t ts ih =>
      obtain ⟨bound, below⟩ := ih
      refine ⟨max t bound, fun other member => ?_⟩
      rcases List.mem_cons.mp member with rfl | later
      · exact le_max_left ..
      · exact (below other later).trans (le_max_right ..)

namespace Kept

open ContractPnl

variable {ledger : ContractPnl} {trades : List BookedTrade} {first : Timestamp}

theorem valued_of_shows {rows : List ContractRow} (listed : ∀ row ∈ rows, row ∈ ledger.df)
    (shows : ShowsLedger ledger rows) : ledger.netPnl.items ≠ [] := by
  intro empty
  obtain ⟨bound, below⟩ := exists_upper_bound ledger.timestamps
  obtain ⟨row, last, _, _, cells, net, _⟩ := shows.last bound below
  have inTable := (mem_df.mp (listed row (List.mem_of_getLast? last))).2
  have noRow : itemBefore ledger.netPnl row.timestamp = none :=
    (itemBefore_eq_none_iff _ _).mpr (by rw [empty]; exact fun _ member => (by cases member))
  rw [inTable, rowAt, noRow] at net
  cases net

theorem netPnl_row (kept : Kept ledger trades first) (some_row : ledger.netPnl.items ≠ [])
    {row : ContractRow} (member : row ∈ ledger.df) :
    row.netPnl = some (ledger.pnl row.timestamp).netPnl := by
  obtain ⟨listed, same⟩ := mem_df.mp member
  rw [ContractRow.netPnl, same, kept.row_at some_row (kept.first_le listed)]
  rfl

/-- From a row on, the net P&L is that of the rows from there on. -/
theorem netPnl_from (kept : Kept ledger trades first) (some_row : ledger.netPnl.items ≠ [])
    {start : Timestamp} (reached : first ≤ start) {value : Option ℚ}
    (constant : ∀ row ∈ ledger.df, start ≤ row.timestamp → row.netPnl = value)
    (listed : start ∈ ledger.timestamps) {t : Timestamp} (le : start ≤ t) :
    some (ledger.pnl t).netPnl = value := by
  obtain ⟨key, member, _, latest, reads⟩ := kept.reading_row some_row (reached.trans le)
  have inTable : ledger.rowAt key ∈ ledger.df := mem_df.mpr ⟨member, rfl⟩
  rw [reads, ← constant _ inTable (latest start listed le)]
  exact (kept.netPnl_row some_row inTable).symm

/-- No valuation differs where all rows have the same net P&L. -/
theorem no_net_change (kept : Kept ledger trades first) (some_row : ledger.netPnl.items ≠ [])
    (constant : ∀ a ∈ ledger.df, ∀ b ∈ ledger.df, a.netPnl = b.netPnl) (t : Timestamp) :
    ¬ ledger.NetChange t := by
  rintro ⟨later, differs⟩
  rw [kept.anchored.begun, Option.any_some, decide_eq_true_eq] at later
  obtain ⟨row, member⟩ := kept.valued some_row
  have listed : first ∈ ledger.timestamps :=
    mem_timestamps.mpr (Or.inr (List.mem_map.mpr ⟨_, member, rfl⟩))
  have reads : ∀ t, first ≤ t → some (ledger.pnl t).netPnl = (ledger.rowAt first).netPnl :=
    fun t le => kept.netPnl_from some_row le_rfl
      (fun row member _ => constant row member _ (mem_df.mpr ⟨listed, rfl⟩)) listed le
  refine differs (Option.some.inj ?_)
  rw [reads t later.le, reads (t - 1) (Int.le_sub_one_of_lt later)]

section Cut

variable {before after : List ContractRow} {a b : ContractRow}

theorem cut_sorted (split : ledger.df = before ++ a :: b :: after) :
    (∀ row ∈ ledger.df, row ∈ before ++ [a, b] ∨ row ∈ after) ∧
      (∀ row ∈ before ++ [a, b], row.timestamp ≤ b.timestamp) ∧
      (∀ row ∈ after, b.timestamp < row.timestamp) ∧ a.timestamp < b.timestamp ∧
      ∀ row ∈ ledger.df, row.timestamp < b.timestamp → row.timestamp ≤ a.timestamp := by
  have ascending := List.pairwise_map.mp ledger.df_ascending
  rw [split] at ascending ⊢
  obtain ⟨_, rest, across⟩ := List.pairwise_append.mp ascending
  obtain ⟨fromA, rest⟩ := List.pairwise_cons.mp rest
  obtain ⟨fromB, _⟩ := List.pairwise_cons.mp rest
  have order := fromA b (List.mem_cons_self ..)
  refine ⟨fun row member => ?_, fun row member => ?_, fromB, order, fun row member less => ?_⟩
  · simp only [List.mem_append, List.mem_cons, List.not_mem_nil, or_false] at member ⊢
    tauto
  · simp only [List.mem_append, List.mem_cons, List.not_mem_nil, or_false] at member
    rcases member with earlier | rfl | rfl
    · exact (across row earlier b (by simp)).le
    · exact order.le
    · exact le_rfl
  · simp only [List.mem_append, List.mem_cons] at member
    rcases member with earlier | rfl | rfl | later
    · exact (across row earlier a (by simp)).le
    · exact le_rfl
    · exact absurd less (lt_irrefl _)
    · exact absurd (less.trans (fromB row later)) (lt_irrefl _)

/-- The last kept row is the last change of the net P&L. -/
theorem last_net_change (kept : Kept ledger trades first) (some_row : ledger.netPnl.items ≠ [])
    (split : ledger.df = before ++ a :: b :: after)
    (differs : a.netPnl = none ∨ b.netPnl = none ∨ a.netPnl ≠ b.netPnl)
    (constant : ∀ row ∈ after, row.netPnl = b.netPnl) :
    ledger.NetChange b.timestamp ∧
      (∀ t, b.timestamp ≤ t → (ledger.pnl t).netPnl = (ledger.pnl b.timestamp).netPnl) ∧
      ∀ t, ledger.NetChange t → t ≤ b.timestamp := by
  obtain ⟨cases, keptLe, afterLt, order, below⟩ := cut_sorted split
  have memberA : a ∈ ledger.df := by simp [split]
  have memberB : b ∈ ledger.df := by simp [split]
  have firstA := kept.first_le (mem_df.mp memberA).1
  have listedB := (mem_df.mp memberB).1
  rw [kept.netPnl_row some_row memberA, kept.netPnl_row some_row memberB] at differs
  have stays : ∀ t, b.timestamp ≤ t →
      (ledger.pnl t).netPnl = (ledger.pnl b.timestamp).netPnl := by
    intro t le
    have fromB : ∀ row ∈ ledger.df, b.timestamp ≤ row.timestamp → row.netPnl = b.netPnl := by
      intro row member reached
      rcases cases row member with early | late
      · have same : row.timestamp = b.timestamp := le_antisymm (keptLe row early) reached
        rw [(mem_df.mp member).2, (mem_df.mp memberB).2, same]
      · exact constant row late
    have reads := kept.netPnl_from some_row (firstA.trans order.le) fromB listedB le
    rw [kept.netPnl_row some_row memberB] at reads
    exact Option.some.inj reads
  refine ⟨⟨?_, ?_⟩, stays, fun t change => ?_⟩
  · rw [kept.anchored.begun, Option.any_some, decide_eq_true_eq]
    exact firstA.trans_lt order
  · have same : ledger.pnl (b.timestamp - 1) = ledger.pnl a.timestamp :=
      pnl_congr (Int.le_sub_one_of_lt order) fun key member le =>
        below _ (mem_df.mpr ⟨member, rfl⟩ : ledger.rowAt key ∈ ledger.df)
          (Int.lt_of_le_sub_one le)
    rw [same]
    rcases differs with none | none | differs
    · cases none
    · cases none
    · exact fun same => differs (congrArg some same.symm)
  · by_contra later
    have less := not_le.mp later
    exact change.2 ((stays t less.le).trans (stays (t - 1) (Int.le_sub_one_of_lt less)).symm)

/-- Without a later change of the trades, a row reads as every later time. -/
theorem tradeCells_from {start : Timestamp}
    (unchanged : ∀ t, start < t → ¬ ledger.TradeChange t) {t : Timestamp} (le : start ≤ t) :
    ledger.tradeCells t = ledger.tradeCells start := by
  induction t, le using Int.leInduction with
  | base => rfl
  | succ t le ih =>
      have same := not_not.mp (unchanged (t + 1) (Int.lt_add_one_of_le le))
      rw [same, add_sub_cancel_right, ih]

/-- Unrealized P&L is what the other columns leave of the net P&L. -/
theorem unrealized_from (kept : Kept ledger trades first) (some_row : ledger.netPnl.items ≠ [])
    {start : Timestamp} (valuation : start ∈ ledger.netPnl.keys)
    (unchanged : ∀ t, start < t → ¬ ledger.TradeChange t) {t : Timestamp} (le : start ≤ t)
    (sameNet : (ledger.pnl t).netPnl = (ledger.pnl start).netPnl) :
    (ledger.pnl t).unrealized = (ledger.pnl start).unrealized := by
  have reached := kept.first_le (mem_timestamps.mpr (Or.inr valuation))
  have adds : ∀ t, start ≤ t → ∃ key, start ≤ key ∧ (ledger.pnl t).netPnl =
      (ledger.pnl key).realized + (ledger.pnl t).unrealized - (ledger.pnl key).commission -
        (ledger.pnl key).fee := by
    intro t le
    obtain ⟨key, _, latest, sum⟩ := kept.net_adds_up some_row (reached.trans le)
    exact ⟨key, latest start valuation le, sum⟩
  obtain ⟨key, keyLe, sum⟩ := adds t le
  obtain ⟨key', keyLe', sum'⟩ := adds start le_rfl
  have cells := tradeCells_from unchanged keyLe
  have cells' := tradeCells_from unchanged keyLe'
  simp only [tradeCells, Prod.mk.injEq] at cells cells'
  rw [cells.2.1, cells.2.2.1, cells.2.2.2] at sum
  rw [cells'.2.1, cells'.2.2.1, cells'.2.2.2] at sum'
  linarith only [sum, sum', sameNet]

end Cut

theorem rowAt_cells (ledger : ContractPnl) (t : Timestamp) :
    ((ledger.rowAt t).position, (ledger.rowAt t).realized, (ledger.rowAt t).fee,
      (ledger.rowAt t).commission) = ledger.tradeCells t := rfl

/-- A row shows the ledger at a time that reads the same. -/
theorem row_shows (kept : Kept ledger trades first) (some_row : ledger.netPnl.items ≠ [])
    {row : ContractRow} (member : row ∈ ledger.df) {t : Timestamp}
    (cells : ledger.tradeCells t = ledger.tradeCells row.timestamp)
    (unrealized : (ledger.pnl t).unrealized = (ledger.pnl row.timestamp).unrealized)
    (net : (ledger.pnl t).netPnl = (ledger.pnl row.timestamp).netPnl) :
    row.position = (ledger.pnl t).position ∧ row.realized = (ledger.pnl t).realized ∧
      ∃ cells, row.net = some cells ∧ cells.unrealized = (ledger.pnl t).unrealized ∧
        cells.netPnl = (ledger.pnl t).netPnl := by
  obtain ⟨listed, same⟩ := mem_df.mp member
  simp only [tradeCells, Prod.mk.injEq] at cells
  have valuation := kept.row_at some_row (kept.first_le listed)
  rw [← same] at valuation
  refine ⟨?_, ?_, _, valuation, unrealized.symm, net.symm⟩
  · rw [cells.1, same]
    rfl
  · rw [cells.2.1, same]
    rfl

/-- The last row of the whole table reads as every later time. -/
theorem last_row (kept : Kept ledger trades first) (some_row : ledger.netPnl.items ≠ [])
    {t : Timestamp} (bound : ∀ key ∈ ledger.timestamps, key ≤ t) :
    ∃ row ∈ ledger.df, ledger.df.getLast? = some row ∧
      ledger.pnl t = ledger.pnl row.timestamp := by
  obtain ⟨entry, member⟩ := kept.valued some_row
  have listed : first ∈ ledger.timestamps :=
    mem_timestamps.mpr (Or.inr (List.mem_map.mpr ⟨_, member, rfl⟩))
  have inTable : ledger.rowAt first ∈ ledger.df := mem_df.mpr ⟨listed, rfl⟩
  have last := List.getLast?_eq_some_getLast (List.ne_nil_of_mem inTable)
  obtain ⟨row, rowEq⟩ : ∃ row, ledger.df.getLast (List.ne_nil_of_mem inTable) = row := ⟨_, rfl⟩
  rw [rowEq] at last
  have rowMember := List.mem_of_getLast? last
  refine ⟨row, rowMember, last, pnl_congr (bound _ (mem_df.mp rowMember).1) fun key keyMember _ => ?_⟩
  obtain ⟨initial, split⟩ := List.getLast?_eq_some_iff.mp last
  have ascending := List.pairwise_map.mp ledger.df_ascending
  have keyRow : ledger.rowAt key ∈ ledger.df := mem_df.mpr ⟨keyMember, rfl⟩
  rw [split] at ascending keyRow
  rcases List.mem_append.mp keyRow with earlier | same
  · exact ((List.pairwise_append.mp ascending).2.2 _ earlier row (by simp)).le
  · rw [← List.mem_singleton.mp same]
    exact le_rfl

/-- The rows that are kept show the ledger exactly where its net P&L changes last. -/
theorem showsLedger_iff (kept : Kept ledger trades first) :
    ShowsLedger ledger (cutTail ledger.df) ↔
      ledger.netPnl.items ≠ [] ∧ NetChangesLast ledger := by
  constructor
  · intro shows
    have some_row := valued_of_shows (fun row => ( cutTail_prefix _).mem) shows
    refine ⟨some_row, fun ⟨changed, change⟩ t traded => ?_⟩
    rcases cutTail_cases ledger.df with ⟨_, constant⟩ | ⟨before, a, b, after, split, cut, differs, constant⟩
    · exact absurd change (kept.no_net_change some_row constant changed)
    · obtain ⟨row, member, rfl, _⟩ := shows.changes t traded
      rw [cut] at member
      exact ⟨b.timestamp, (cut_sorted split).2.1 row member,
        (kept.last_net_change some_row split differs constant).1⟩
  · rintro ⟨some_row, changesLast⟩
    rcases cutTail_cases ledger.df with ⟨whole, constant⟩ | ⟨before, a, b, after, split, cut, differs, constant⟩
    · rw [whole]
      refine ⟨fun t traded => ?_, fun t bound => ?_⟩
      · exact ⟨ledger.rowAt t, mem_df.mpr ⟨traded.mem_timestamps, rfl⟩, rfl, rowAt_cells ledger t⟩
      · obtain ⟨row, member, last, reads⟩ := kept.last_row some_row bound
        refine ⟨row, last, kept.row_shows some_row member ?_ (by rw [reads]) (by rw [reads])⟩
        rw [tradeCells, reads]
        rfl
    · obtain ⟨changeB, stays, latest⟩ := kept.last_net_change some_row split differs constant
      obtain ⟨cases, keptLe, afterLt, order, below⟩ := cut_sorted split
      have memberB : b ∈ ledger.df := by simp [split]
      have unchanged : ∀ t, b.timestamp < t → ¬ ledger.TradeChange t := by
        intro t less traded
        obtain ⟨later, le, change⟩ := changesLast ⟨_, changeB⟩ t traded
        exact absurd (less.trans_le (le.trans (latest later change))) (lt_irrefl _)
      rw [cut]
      refine ⟨fun t traded => ?_, fun t bound => ?_⟩
      · have inTable : ledger.rowAt t ∈ ledger.df := mem_df.mpr ⟨traded.mem_timestamps, rfl⟩
        rcases cases _ inTable with inKept | late
        · exact ⟨_, inKept, rfl, rowAt_cells ledger t⟩
        · exact absurd traded (unchanged t (afterLt _ late))
      · have le := bound _ (mem_df.mp memberB).1
        refine ⟨b, by simp, kept.row_shows some_row memberB (tradeCells_from unchanged le) ?_
          (stays t le)⟩
        exact kept.unrealized_from some_row changeB.mem_netPnl unchanged le (stays t le)

end Kept

/-! ## The report of an account -/

theorem getLast?_of_same_rows {xs ys : List ContractRow}
    (sorted : (xs.map ContractRow.timestamp).Pairwise (· ≤ ·))
    (increasing : (ys.map ContractRow.timestamp).Pairwise (· < ·))
    (same : ∀ row, row ∈ xs ↔ row ∈ ys) : xs.getLast? = ys.getLast? := by
  have latest : ∀ {zs : List ContractRow} {row : ContractRow},
      (zs.map ContractRow.timestamp).Pairwise (· ≤ ·) → zs.getLast? = some row →
      ∀ other ∈ zs, other.timestamp ≤ row.timestamp := by
    intro zs row sorted last other member
    have lastTime : (zs.map ContractRow.timestamp).getLast? = some row.timestamp := by
      rw [List.getLast?_map, last]
      rfl
    exact ((SortedLists.getLast?_eq_some_iff_greatest sorted).mp lastTime).2 _
      (List.mem_map_of_mem member)
  cases lastY : ys.getLast? with
  | none =>
      rw [List.getLast?_eq_none_iff] at lastY ⊢
      refine List.eq_nil_iff_forall_not_mem.mpr fun row member => ?_
      rw [same, lastY] at member
      cases member
  | some y =>
      have memberY := List.mem_of_getLast? lastY
      have last := List.getLast?_eq_some_getLast (List.ne_nil_of_mem ((same y).mpr memberY))
      rw [last]
      have memberX := (same _).mp (List.mem_of_getLast? last)
      refine congrArg some (List.inj_on_of_nodup_map (increasing.imp ne_of_lt) memberX memberY ?_)
      exact le_antisymm (latest (increasing.imp le_of_lt) lastY _ memberX)
        (latest sorted last y ((same y).mpr memberY))

variable {setup : AccountSetup} {priceFunction : PriceFunction} {groups : Option (List String)}

/-- The rows that the report has under a symbol. -/
def rowsOf (rows : List DetailedRow) (symbol : String) : List ContractRow :=
  (rows.filter fun row => row.symbol = symbol).map DetailedRow.toContractRow

/-- The groups that the report goes through are configured, and have every
requested ledger. -/
theorem reported_groups {account : Account} (indexed : Account.Indexed setup account)
    (requested : ∀ names ∈ groups, ∀ name ∈ names, name ∈ setup.contractGroups)
    {names : List String} (namesEq : groups.getD
      (account.contracts.values.map Contract.contractGroup).eraseDups = names) :
    (∀ name ∈ names, name ∈ setup.contractGroups) ∧
      ∀ symbol ledger, account.symbolPnls.get? symbol = some ledger →
        (∀ names ∈ groups, ledger.contract.contractGroup ∈ names) →
        ledger.contract.contractGroup ∈ names := by
  cases groups with
  | some given =>
      cases namesEq
      exact ⟨requested given rfl, fun _ _ _ included => included given rfl⟩
  | none =>
      rw [Option.getD_none] at namesEq
      subst namesEq
      refine ⟨fun name member => ?_, fun symbol ledger stored _ => ?_⟩
      · obtain ⟨contract, listed, rfl⟩ := List.mem_map.mp (List.mem_eraseDups.mp member)
        obtain ⟨item, itemMember, rfl⟩ := List.mem_map.mp listed
        have found := (OrderedDict.get?_eq_some_iff _ _ _).mpr itemMember
        exact (indexed.registered _ _ found).2.1
      · have found := indexed.contract_of_ledger stored
        have item := (OrderedDict.get?_eq_some_iff _ _ _).mp found
        exact List.mem_eraseDups.mpr (List.mem_map_of_mem (List.mem_map.mpr ⟨_, item, rfl⟩))

theorem timestamp_le_of_key {a b : DetailedRow} (le : a.key ≤ b.key) :
    a.timestamp ≤ b.timestamp := by
  rcases (Prod.Lex.toLex_le_toLex).mp le with less | ⟨same, _⟩
  · exact less.le
  · exact same.le

/-- Under a symbol the report has the kept rows of its ledger, in their order. -/
theorem dfPnl_rows {account : Account} (indexed : Account.Indexed setup account)
    (requested : ∀ names ∈ groups, ∀ name ∈ names, name ∈ setup.contractGroups) :
    ∃ rows, account.dfPnl setup groups = .ok rows ∧
      ∀ symbol ledger, account.symbolPnls.get? symbol = some ledger →
        (∀ names ∈ groups, ledger.contract.contractGroup ∈ names) →
        (∀ row, row ∈ rowsOf rows symbol ↔ row ∈ cutTail ledger.df) ∧
          (rowsOf rows symbol).getLast? = (cutTail ledger.df).getLast? := by
  obtain ⟨names, namesEq⟩ : ∃ names, groups.getD
      (account.contracts.values.map Contract.contractGroup).eraseDups = names := ⟨_, rfl⟩
  obtain ⟨configured, included⟩ := reported_groups indexed requested namesEq
  unfold Account.dfPnl
  simp only [namesEq]
  have each : ∀ name ∈ names, (do
      Account.requireConfiguredGroup setup name
      .ok ((setup.registry.groupContracts name).filterMap fun contract =>
        (account.symbolPnls.get? contract.symbol).map fun symbolPnl =>
          (cutTail symbolPnl.df).map fun row => (⟨row, name⟩ : DetailedRow))) =
      Except.ok ((setup.registry.groupContracts name).filterMap fun contract =>
        (account.symbolPnls.get? contract.symbol).map fun symbolPnl =>
          (cutTail symbolPnl.df).map fun row => (⟨row, name⟩ : DetailedRow)) := by
    intro name member
    rw [Account.requireConfiguredGroup, if_pos (configured name member)]
    rfl
  rw [mapM_ok_of_each each]
  refine ⟨_, rfl, fun symbol ledger stored inGroups => ?_⟩
  obtain ⟨symbolEq, registered⟩ := indexed.own stored
  have sameRows : ∀ row, row ∈ rowsOf ((names.map fun name =>
      (setup.registry.groupContracts name).filterMap fun contract =>
        (account.symbolPnls.get? contract.symbol).map fun symbolPnl =>
          (cutTail symbolPnl.df).map fun row => (⟨row, name⟩ : DetailedRow)).flatten.flatten
            |>.insertionSort fun a b => a.key ≤ b.key) symbol ↔ row ∈ cutTail ledger.df := by
    intro row
    simp only [rowsOf, List.mem_map, List.mem_filter, List.mem_insertionSort, List.mem_flatten,
      decide_eq_true_eq]
    constructor
    · rintro ⟨detailed, ⟨⟨dfs, ⟨groupDfs, ⟨name, _, rfl⟩, listed⟩, member⟩, sameSymbol⟩, rfl⟩
      obtain ⟨contract, _, found⟩ := List.mem_filterMap.mp listed
      obtain ⟨other, otherStored, rfl⟩ := Option.map_eq_some_iff.mp found
      obtain ⟨row, rowMember, rfl⟩ := List.mem_map.mp member
      have ownSymbol : row.symbol = other.contract.symbol := by
        rw [(ContractPnl.mem_df.mp (( cutTail_prefix _).mem rowMember)).2]
        rfl
      rw [(indexed.own otherStored).1] at ownSymbol
      rw [← ownSymbol, show row.symbol = symbol from sameSymbol, stored] at otherStored
      cases otherStored
      exact rowMember
    · intro member
      have detailed := List.mem_map_of_mem (f := fun row =>
        (⟨row, ledger.contract.contractGroup⟩ : DetailedRow)) member
      have inGroup : (cutTail ledger.df).map (fun row =>
          (⟨row, ledger.contract.contractGroup⟩ : DetailedRow)) ∈
          (setup.registry.groupContracts ledger.contract.contractGroup).filterMap fun contract =>
            (account.symbolPnls.get? contract.symbol).map fun symbolPnl =>
              (cutTail symbolPnl.df).map fun row =>
                (⟨row, ledger.contract.contractGroup⟩ : DetailedRow) := by
        refine List.mem_filterMap.mpr ⟨ledger.contract, List.mem_filter.mpr
          ⟨registered.2, by simp⟩, ?_⟩
        rw [symbolEq, stored]
        rfl
      refine ⟨_, ⟨⟨_, ⟨_, ⟨_, included symbol ledger stored inGroups, rfl⟩, inGroup⟩, detailed⟩, ?_⟩,
        rfl⟩
      rw [← symbolEq]
      exact congrArg ContractRow.symbol (ContractPnl.mem_df.mp (( cutTail_prefix _).mem member)).2
  refine ⟨sameRows, getLast?_of_same_rows ?_ ?_ sameRows⟩
  · have total : Std.Total fun a b : DetailedRow => a.key ≤ b.key := ⟨fun a b => le_total a.key b.key⟩
    have trans : IsTrans DetailedRow fun a b => a.key ≤ b.key := ⟨fun _ _ _ => le_trans⟩
    refine List.pairwise_map.mpr (List.pairwise_map.mpr (List.Pairwise.filter _ ?_))
    exact (List.pairwise_insertionSort (fun a b : DetailedRow => a.key ≤ b.key) _).imp
      timestamp_le_of_key
  · exact ledger.df_ascending.sublist (( cutTail_prefix _).sublist.map _)

theorem ShowsLedger.congr {ledger : ContractPnl} {xs ys : List ContractRow}
    (same : ∀ row, row ∈ xs ↔ row ∈ ys) (last : xs.getLast? = ys.getLast?) :
    ShowsLedger ledger xs ↔ ShowsLedger ledger ys := by
  constructor
  · intro shows
    exact ⟨by simpa only [same] using shows.changes, by simpa only [last] using shows.last⟩
  · intro shows
    exact ⟨by simpa only [same] using shows.changes, by simpa only [last] using shows.last⟩

/-- A trade without fee and commission. -/
def freeTrade (hour : Int) (qty price : ℚ) : Trade :=
  ⟨sampleStock, 0, sampleTime hour, qty, .real price, .real 0, .real 0⟩

def boughtCalls : List AccountCall :=
  [.addTrades sampleOrders [freeTrade 0 10 100], .equity (sampleTime 1)]

/-- The ledger of the stock after some calls. -/
def stockLedger (calls : List AccountCall) : ContractPnl :=
  ((Session.new.run sampleSetup samplePrice calls).account.symbolPnls.get? "IBM").getD
    (ContractPnl.new sampleStock)

end Gambit
