import Gambit.Accounting.AccountSteps
import Gambit.Accounting.Rollback

/-!
# Positions and ledgers reconcile with the accepted trades

In every account reachable by calls, accepted or refused, each ledger holds
the books of the account's trades in its contract.
-/

set_option autoImplicit false

namespace Gambit

open FifoNetting Raising

def tradesOf (trades : List BookedTrade) (symbol : String) : List BookedTrade :=
  trades.filter fun trade => trade.contract.symbol = symbol

theorem tradesOf_append (trades batch : List BookedTrade) (symbol : String) :
    tradesOf (trades ++ batch) symbol = tradesOf trades symbol ++ tradesOf batch symbol :=
  List.filter_append ..

theorem tradesOf_eq_nil_iff {trades : List BookedTrade} {symbol : String} :
    tradesOf trades symbol = [] ↔ symbol ∉ trades.map fun trade => trade.contract.symbol := by
  rw [tradesOf, List.filter_eq_nil_iff, List.mem_map]
  simp

structure Reconciled (setup : AccountSetup) (account : Account) : Prop where
  indexed : Account.Indexed setup account
  books : ∀ symbol ledger, account.symbolPnls.get? symbol = some ledger →
    Books ledger (tradesOf account.trades symbol)
  traded : ∀ trade ∈ account.trades, setup.Registered trade.contract ∧
    ∃ ledger, account.symbolPnls.get? trade.contract.symbol = some ledger
  begun : ∀ symbol ledger, account.symbolPnls.get? symbol = some ledger →
    tradesOf account.trades symbol ≠ []
  dated : ∀ key, account.tradesForDate.listAt key =
    account.trades.filter fun trade => (trade.contract.symbol, day trade.timestamp) = key

namespace Reconciled

variable {setup : AccountSetup} {before after : Account}

theorem new (setup : AccountSetup) : Reconciled setup Account.new where
  indexed := Account.indexed_new setup
  books := fun _ _ stored => by cases stored
  traded := fun _ member => by cases member
  begun := fun _ _ stored => by cases stored
  dated := fun _ => rfl

theorem no_trades (reconciled : Reconciled setup before) {symbol : String}
    (absent : before.symbolPnls.get? symbol = none) : tradesOf before.trades symbol = [] := by
  rw [tradesOf_eq_nil_iff]
  intro listed
  obtain ⟨trade, member, rfl⟩ := List.mem_map.mp listed
  obtain ⟨_, ledger, stored⟩ := reconciled.traded trade member
  rw [absent] at stored
  cases stored

/-- The ledger a batch adds to, and its books. -/
theorem start (reconciled : Reconciled setup before) (contract : Contract) :
    Books ((before.symbolPnls.get? contract.symbol).getD (ContractPnl.new contract))
      (tradesOf before.trades contract.symbol) := by
  cases stored : before.symbolPnls.get? contract.symbol with
  | none =>
      rw [reconciled.no_trades stored]
      exact books_new contract
  | some ledger => exact reconciled.books contract.symbol ledger stored

theorem update {valuation : Valuation} {batch : List BookedTrade}
    (reconciled : Reconciled setup before) (bookable : Bookable setup batch)
    (indexed : Account.Indexed setup after)
    (updated : Account.Updated valuation batch before after) : Reconciled setup after where
  indexed := indexed
  books := fun symbol ledger stored => by
    rw [updated.trades, tradesOf_append]
    by_cases inBatch : symbol ∈ batch.map fun trade => trade.contract.symbol
    · obtain ⟨trade, member, rfl⟩ := List.mem_map.mp inBatch
      obtain ⟨ledger', stored', run⟩ := updated.updated trade member
      rw [stored'] at stored
      cases stored
      refine (reconciled.start trade.contract).addTrades_books
        (bookable.chronological.filter _) ?_ run
      exact List.ne_nil_of_mem (List.mem_filter.mpr ⟨member, by simp⟩)
    · rw [tradesOf_eq_nil_iff.mpr inBatch, List.append_nil]
      rw [updated.untouched symbol inBatch] at stored
      exact reconciled.books symbol ledger stored
  traded := fun trade member => by
    rw [updated.trades] at member
    rcases List.mem_append.mp member with old | new
    · obtain ⟨registered, ledger, stored⟩ := reconciled.traded trade old
      refine ⟨registered, ?_⟩
      by_cases inBatch : trade.contract.symbol ∈ batch.map fun trade => trade.contract.symbol
      · obtain ⟨other, otherMember, same⟩ := List.mem_map.mp inBatch
        obtain ⟨ledger', stored', _⟩ := updated.updated other otherMember
        exact ⟨ledger', same ▸ stored'⟩
      · exact ⟨ledger, (updated.untouched _ inBatch).trans stored⟩
    · obtain ⟨ledger', stored', _⟩ := updated.updated trade new
      exact ⟨bookable.registered trade new, ledger', stored'⟩
  begun := fun symbol ledger stored => by
    rw [updated.trades, tradesOf_append]
    by_cases inBatch : symbol ∈ batch.map fun trade => trade.contract.symbol
    · exact List.append_ne_nil_of_right_ne_nil _ fun none => tradesOf_eq_nil_iff.mp none inBatch
    · rw [updated.untouched symbol inBatch] at stored
      exact List.append_ne_nil_of_left_ne_nil (reconciled.begun symbol ledger stored) _
  dated := fun key => by
    rw [updated.dated, reconciled.dated, updated.trades, List.filter_append]

theorem revalue (reconciled : Reconciled setup before)
    (revalued : Account.Revalued before after) : Reconciled setup after where
  indexed := revalued.indexed reconciled.indexed
  books := fun symbol ledger' stored => by
    obtain ⟨ledger, found, same⟩ := revalued.ledgers symbol ledger' stored
    rw [revalued.trades]
    exact (reconciled.books symbol ledger found).of_sameBooks same
  traded := fun trade member => by
    rw [revalued.trades] at member
    obtain ⟨registered, ledger, stored⟩ := reconciled.traded trade member
    have listed := OrderedDict.mem_keys_of_get? stored
    rw [← revalued.keys] at listed
    exact ⟨registered, Option.isSome_iff_exists.mp ((OrderedDict.contains_iff _ _).mpr listed)⟩
  begun := fun symbol ledger' stored => by
    obtain ⟨ledger, found, _⟩ := revalued.ledgers symbol ledger' stored
    rw [revalued.trades]
    exact reconciled.begun symbol ledger found
  dated := fun key => by rw [revalued.tradesForDate, revalued.trades, reconciled.dated]

end Reconciled

/-! ## Calls and runs -/

namespace Session

variable {setup : AccountSetup} {priceFunction : PriceFunction}

/-- A query leaves the books alone. -/
theorem call_query (session : Session) {operation : AccountCall}
    (query : ∀ orders trades, operation ≠ .addTrades orders trades) :
    Account.Revalued session.account (session.call setup priceFunction operation).account ∧
      (session.call setup priceFunction operation).accepted = session.accepted := by
  cases operation with
  | addTrades orders trades => exact absurd rfl (query orders trades)
  | calcPnl timestamp =>
      have calculated := @Account.calcPnl_revalued setup session.account priceFunction
        timestamp session.account (Account.Revalued.refl _)
      simp only [call]
      cases result : session.account.calcPnl setup priceFunction timestamp with
      | ok after => exact ⟨calculated.1 after result, rfl⟩
      | error raised => exact ⟨calculated.2 raised result, rfl⟩
  | equity timestamp =>
      have valued := @Account.equity_revalued setup priceFunction timestamp session.account
      simp only [call]
      cases result : session.account.equity setup priceFunction timestamp with
      | ok after => exact ⟨valued.1 after.1 after.2 result, rfl⟩
      | error raised => exact ⟨valued.2 raised result, rfl⟩
  | position group timestamp =>
      have read := @Account.position_revalued setup group timestamp session.account
      simp only [call]
      cases result : session.account.position setup group timestamp with
      | ok after => exact ⟨read.1 after.1 after.2 result, rfl⟩
      | error raised => exact ⟨read.2 raised result, rfl⟩

/-- A call accepts a batch or leaves the books alone. -/
theorem call_cases (session : Session) (operation : AccountCall)
    (indexed : Account.Indexed setup session.account) :
    (∃ orders trades batch after, operation = .addTrades orders trades ∧
        bookTrades setup orders trades = .ok batch ∧
        session.account.addTrades setup priceFunction orders trades = .ok after ∧
        Bookable setup batch ∧ Account.Indexed setup after ∧
        Account.Updated (setup.valuation priceFunction) batch session.account after ∧
        session.call setup priceFunction operation = ⟨after, session.accepted ++ batch⟩) ∨
      (Account.Revalued session.account (session.call setup priceFunction operation).account ∧
        (session.call setup priceFunction operation).accepted = session.accepted) := by
  cases operation with
  | addTrades orders trades =>
      simp only [call]
      cases result : session.account.addTrades setup priceFunction orders trades with
      | ok after =>
          obtain ⟨batch, accepted, bookable, indexed', updated⟩ :=
            Account.addTrades_ok indexed result
          exact Or.inl ⟨orders, trades, batch, after, rfl, accepted, result, bookable, indexed', updated, by
            simp only [accepted]⟩
      | error raised =>
          right
          simp only [Account.addTrades_error result]
          exact ⟨Account.Revalued.refl _, by trivial⟩
  | calcPnl timestamp => exact Or.inr (session.call_query fun _ _ absurd => by cases absurd)
  | equity timestamp => exact Or.inr (session.call_query fun _ _ absurd => by cases absurd)
  | position group timestamp => exact Or.inr (session.call_query fun _ _ absurd => by cases absurd)

/-- What one call preserves, every run preserves. -/
theorem run_induction {P : Session → Prop}
    (step : ∀ session operation, P session → P (session.call setup priceFunction operation))
    (calls : List AccountCall) : ∀ session, P session → P (session.run setup priceFunction calls) := by
  induction calls with
  | nil => exact fun _ holds => holds
  | cons operation calls ih => exact fun session holds => ih _ (step session operation holds)

structure Sound (setup : AccountSetup) (session : Session) : Prop where
  reconciled : Reconciled setup session.account
  accepted : session.account.trades = session.accepted

theorem call_sound (session : Session) (operation : AccountCall) (sound : Sound setup session) :
    Sound setup (session.call setup priceFunction operation) := by
  rcases @call_cases setup priceFunction session operation sound.reconciled.indexed with
    ⟨orders, trades, batch, after, _, _, _, bookable, indexed, updated, result⟩ | ⟨revalued, same⟩
  · rw [result]
    exact ⟨sound.reconciled.update bookable indexed updated, by
      rw [updated.trades, sound.accepted]⟩
  · exact ⟨sound.reconciled.revalue revalued, by
      rw [revalued.trades, sound.accepted, same]⟩

theorem run_sound (setup : AccountSetup) (priceFunction : PriceFunction) (calls : List AccountCall) :
    Sound setup (Session.new.run setup priceFunction calls) :=
  run_induction call_sound calls Session.new ⟨Reconciled.new setup, rfl⟩

end Session

/-! ## Positions -/

section Positions

variable {setup : AccountSetup} {account : Account}

def positionOf (trades : List BookedTrade) (symbol : String) (timestamp : Timestamp) : Int :=
  ((tradesUpTo (tradesOf trades symbol) timestamp).map BookedTrade.qty).sum

theorem Reconciled.symbolPosition (reconciled : Reconciled setup account) (symbol : String)
    (timestamp : Timestamp) :
    account.symbolPosition timestamp symbol = positionOf account.trades symbol timestamp := by
  unfold Account.symbolPosition positionOf
  cases stored : account.symbolPnls.get? symbol with
  | none =>
      rw [reconciled.no_trades stored]
      rfl
  | some ledger => exact (reconciled.books symbol ledger stored).position timestamp

theorem Reconciled.group_positions (reconciled : Reconciled setup account) (group : String)
    (timestamp : Timestamp) :
    ((account.symbolPnlsByContractGroup.listAt group).map
        (account.symbolPosition timestamp)).sum =
      ((setup.registry.groupContracts group).map fun contract =>
        positionOf account.trades contract.symbol timestamp).sum := by
  have listed : account.symbolPnlsByContractGroup.listAt group =
      (account.contracts.values.filter fun contract => contract.contractGroup = group).map
        Contract.symbol := by
    rw [reconciled.indexed.groups, OrderedDict.values, List.filter_map, List.map_map]
    exact List.map_congr_left fun item member =>
      (reconciled.indexed.symbols item (List.mem_filter.mp member).1).symm
  rw [listed, List.map_map]
  refine Eq.trans (congrArg List.sum (List.map_congr_left fun contract _ =>
    reconciled.symbolPosition contract.symbol timestamp)) ?_
  exact reconciled.indexed.sum_contracts (f := fun contract =>
    positionOf account.trades contract.symbol timestamp) (fun contract absent => by
      rw [positionOf, reconciled.no_trades absent]
      rfl) fun contract => contract.contractGroup = group

theorem Reconciled.positions (reconciled : Reconciled setup account) {group : String}
    (configured : group ∈ setup.contractGroups) (timestamp : Timestamp) :
    account.positions setup group timestamp =
      .ok (((setup.registry.groupContracts group).map fun contract =>
        (contract, positionOf account.trades contract.symbol timestamp)).filter
          fun item => item.2 ≠ 0) := by
  unfold Account.positions Account.requireConfiguredGroup
  rw [if_pos configured]
  simp only [bind, Except.bind]
  refine congrArg Except.ok ?_
  generalize setup.registry.groupContracts group = contracts
  induction contracts with
  | nil => rfl
  | cons contract contracts ih =>
      have position := reconciled.symbolPosition contract.symbol timestamp
      unfold Account.symbolPosition at position
      rw [List.filterMap_cons, List.map_cons, List.filter_cons, ← position, ih]
      cases account.symbolPnls.get? contract.symbol with
      | none => simp
      | some ledger =>
          by_cases flat : ledger.position timestamp = 0
          · simp [flat]
          · simp [flat]

theorem Reconciled.tradesOf_contract (reconciled : Reconciled setup account) {contract : Contract}
    (registered : contract ∈ setup.registry.contracts) (timestamp : Timestamp) :
    tradesUpTo (tradesOf account.trades contract.symbol) timestamp =
      account.trades.filter fun trade =>
        trade.contract = contract ∧ trade.timestamp ≤ timestamp := by
  rw [tradesUpTo, tradesOf, List.filter_filter]
  refine List.filter_congr fun trade member => ?_
  have sameContract : trade.contract.symbol = contract.symbol ↔ trade.contract = contract :=
    ⟨List.inj_on_of_nodup_map setup.registry.unique (reconciled.traded trade member).1.2 registered,
      congrArg Contract.symbol⟩
  simp [sameContract, Bool.and_comm]

theorem Reconciled.position (reconciled : Reconciled setup account) {group : String}
    (configured : group ∈ setup.contractGroups) (timestamp : Timestamp) :
    ∃ after positions,
      account.position setup group timestamp = .ok (after, (positions.map Prod.snd).sum) ∧
        account.positions setup group timestamp = .ok positions := by
  refine ⟨{ account with
    symbolPnlsByContractGroup := account.symbolPnlsByContractGroup.touch group }, _, ?_,
    reconciled.positions configured timestamp⟩
  unfold Account.position Account.requireConfiguredGroup
  rw [if_pos configured]
  simp only [raiseIn, bind, Except.bind, OrderedDict.listAt_touch]
  refine congrArg Except.ok (Prod.ext rfl ?_)
  have sums := reconciled.group_positions group timestamp
  refine Eq.trans ?_ (sums.trans ?_)
  · rfl
  · generalize setup.registry.groupContracts group = contracts
    induction contracts with
    | nil => rfl
    | cons contract contracts ih =>
        rw [List.map_cons, List.map_cons, List.sum_cons, ih, List.filter_cons]
        by_cases flat : positionOf account.trades contract.symbol timestamp = 0
        · simp [flat]
        · simp [flat]

end Positions

/-! ## Ledgers -/

theorem Books.last_row {ledger : ContractPnl} {trades : List BookedTrade}
    (books : Books ledger trades) {timestamp : Timestamp} {row : LedgerEntry}
    (last : ledger.tradePnl.items.getLast? = some (timestamp, row)) :
    row.position = row.openQty ∧ row.openQty = ledger.openQtys.sum := by
  obtain ⟨initial, split⟩ := List.getLast?_eq_some_iff.mp last
  have reached : ∀ trade ∈ trades, trade.timestamp ≤ timestamp := by
    intro trade member
    have listed := books.row_of_mem member
    have increasing := ledger.tradePnl.sorted
    rw [split] at listed increasing
    rcases List.mem_append.mp listed with before | same
    · exact ((List.pairwise_append.mp increasing).2.2 _ before _ (List.mem_singleton_self _)).le
    · exact (congrArg Prod.fst (List.mem_singleton.mp same)).le
  have rowEq := ((books.rows (timestamp, row)).mp (by rw [split]; simp)).2
  simp only [tradesUpTo_of_le reached] at rowEq
  rw [rowEq, books.openQtys]
  exact ⟨(fifo_total trades).symm, rfl⟩

end Gambit
