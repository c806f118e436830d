import Gambit.Accounting.Marks
import Gambit.Accounting.Reconciliation

/-!
# Equity from the accepted trades

At finite marks, what `equity` returns is a sum over the registered contracts
of what each contributes: the net P&L from scratch, or past the contract's
expiry the P&L it was settled at.
-/

set_option autoImplicit false

namespace Gambit

open KeyedLists Raising

variable {setup : AccountSetup} {priceFunction : PriceFunction}
variable {mark : Contract → Timestamp → ℚ} {S : Contract → Prop}

/-- `contract.expiry is not None and timestamp > contract.expiry` -/
def Contract.expiredAt (contract : Contract) (timestamp : Timestamp) : Bool :=
  contract.expiry.any (· < timestamp)

/-- What a contract may add to the account's P&L at a timestamp.  `S` are the
contracts that are traded only until they are settled. -/
structure Contributes (mark : Contract → Timestamp → ℚ) (S : Contract → Prop) (account : Account)
    (contract : Contract) (timestamp : Timestamp) (value : ℚ) : Prop where
  unexpired : contract.expiredAt timestamp = false →
    value = netPnlFromScratch contract (tradesOf account.trades contract.symbol) (mark contract)
      timestamp
  expired : contract.expiredAt timestamp = true → S contract →
    (∃ ledger, account.symbolPnls.get? contract.symbol = some ledger ∧
      ledger.finalPnl = some value) ∨
    (tradesUpTo (tradesOf account.trades contract.symbol) timestamp = [] ∧ value = 0)

/-- A P&L of the account as a sum of contributions. -/
def Accounts (setup : AccountSetup) (mark : Contract → Timestamp → ℚ) (S : Contract → Prop)
    (account : Account) (timestamp : Timestamp) (pnl : ℚ) : Prop :=
  ∃ used : Contract → ℚ, pnl = (setup.registry.contracts.map used).sum ∧
    ∀ contract ∈ setup.registry.contracts,
      Contributes mark S account contract timestamp (used contract)

/-- Every registered contract has finite marks on the grid. -/
def MarkedAccount (setup : AccountSetup) (priceFunction : PriceFunction)
    (mark : Contract → Timestamp → ℚ) : Prop :=
  ∀ contract ∈ setup.registry.contracts, Marked setup.timestamps priceFunction mark contract

structure Valuations (setup : AccountSetup) (mark : Contract → Timestamp → ℚ)
    (S : Contract → Prop) (account : Account) : Prop where
  reconciled : Reconciled setup account
  valued : ∀ symbol ledger, account.symbolPnls.get? symbol = some ledger →
    Valued mark ledger (tradesOf account.trades symbol)
  settled : ∀ symbol ledger, account.symbolPnls.get? symbol = some ledger → S ledger.contract →
    Settled setup.timestamps mark ledger (tradesOf account.trades symbol)
  cache : ∀ item ∈ account.pnl.items, Accounts setup mark S account item.1 item.2

theorem valuations_new (setup : AccountSetup) (mark : Contract → Timestamp → ℚ)
    (S : Contract → Prop) : Valuations setup mark S Account.new :=
  ⟨Reconciled.new setup, fun _ _ stored => (by cases stored), fun _ _ stored => (by cases stored),
    fun _ member => (by cases member)⟩

/-! ## Queries -/

theorem Contributes.revalue {before after : Account} {contract : Contract} {timestamp : Timestamp}
    {value : ℚ} (contributes : Contributes mark S before contract timestamp value)
    (revalued : Account.Revalued before after) :
    Contributes mark S after contract timestamp value where
  unexpired := by
    rw [revalued.trades]
    exact contributes.unexpired
  expired := fun past inS => by
    rw [revalued.trades]
    rcases contributes.expired past inS with ⟨ledger, stored, final⟩ | none
    · exact Or.inl (revalued.finals contract.symbol ledger value stored final)
    · exact Or.inr none

theorem Accounts.revalue {before after : Account} {timestamp : Timestamp} {pnl : ℚ}
    (accounts : Accounts setup mark S before timestamp pnl)
    (revalued : Account.Revalued before after) : Accounts setup mark S after timestamp pnl := by
  obtain ⟨used, total, each⟩ := accounts
  exact ⟨used, total, fun contract member => (each contract member).revalue revalued⟩

/-- A contract contributes what its ledger reads right after it was valued. -/
theorem Valuations.contributes {before after : Account} (valuations : Valuations setup mark S before)
    (marked : MarkedAccount setup priceFunction mark) {ts : Timestamp}
    (run : Account.calcAt (setup.valuation priceFunction) before ts = .ok after)
    {contract : Contract} (member : contract ∈ setup.registry.contracts) :
    Contributes mark S after contract ts (after.netPnlOf ts contract.symbol) := by
  have revalued := (Account.calcAt_revalued before ts before (Account.Revalued.refl before)).1 after run
  have reconciled := valuations.reconciled.revalue revalued
  unfold Account.netPnlOf
  cases stored : after.symbolPnls.get? contract.symbol with
  | none =>
      have noTrades := reconciled.no_trades stored
      refine ⟨fun _ => ?_, fun _ _ => Or.inr ⟨?_, rfl⟩⟩
      · rw [noTrades, netPnlFromScratch_of_none rfl]
        rfl
      · rw [noTrades]
        rfl
  | some ledger' =>
      obtain ⟨ledger, found, same⟩ := revalued.ledgers _ ledger' stored
      obtain ⟨ledger'', valued, stored'⟩ := (Account.calcAt_ok run).1 _ ledger found
      rw [stored] at stored'
      cases stored'
      obtain ⟨symbolEq, registered⟩ := valuations.reconciled.indexed.own found
      have sameContract : ledger.contract = contract :=
        List.inj_on_of_nodup_map setup.registry.unique registered.2 member symbolEq
      have reads := (valuations.valued _ ledger found).netPnlAt
        (valuations.reconciled.books _ ledger found) (marked _ registered.2) valued
      rw [sameContract] at reads
      refine ⟨fun unexpired => ?_, fun past _ => ?_⟩
      · rw [revalued.trades]
        exact reads.1 (by rw [ContractPnl.expired, sameContract]; exact unexpired)
      · rw [revalued.trades]
        refine (reads.2 (by rw [ContractPnl.expired, sameContract]; exact past)).imp_left fun final => ?_
        exact ⟨ledger', stored, final⟩

theorem Valuations.calcAt {before after : Account} (valuations : Valuations setup mark S before)
    (marked : MarkedAccount setup priceFunction mark) {ts : Timestamp}
    (run : Account.calcAt (setup.valuation priceFunction) before ts = .ok after) :
    Valuations setup mark S after := by
  have revalued := (Account.calcAt_revalued before ts before (Account.Revalued.refl before)).1 after run
  have reconciled := valuations.reconciled.revalue revalued
  obtain ⟨each, pnl⟩ := Account.calcAt_ok run
  have source : ∀ symbol ledger', after.symbolPnls.get? symbol = some ledger' → ∃ ledger,
      before.symbolPnls.get? symbol = some ledger ∧ ledger'.contract = ledger.contract ∧
        ContractPnl.calcNetPnl (setup.valuation priceFunction) ts ledger = .ok ledger' := by
    intro symbol ledger' stored
    obtain ⟨ledger, found, same⟩ := revalued.ledgers symbol ledger' stored
    obtain ⟨ledger'', valued, stored'⟩ := each symbol ledger found
    rw [stored] at stored'
    cases stored'
    exact ⟨ledger, found, same.contract, valued⟩
  refine ⟨reconciled, fun symbol ledger' stored => ?_, fun symbol ledger' stored inS => ?_,
    fun item member => ?_⟩
  · obtain ⟨ledger, found, _, valued⟩ := source symbol ledger' stored
    rw [revalued.trades]
    exact (valuations.valued symbol ledger found).calcNetPnl
      (valuations.reconciled.books symbol ledger found)
      (marked _ (valuations.reconciled.indexed.own found).2.2) valued
  · obtain ⟨ledger, found, sameContract, valued⟩ := source symbol ledger' stored
    rw [revalued.trades]
    exact (valuations.settled symbol ledger found (sameContract ▸ inS)).calcNetPnl
      (valuations.reconciled.books symbol ledger found)
      (marked _ (valuations.reconciled.indexed.own found).2.2) valued
  · rw [pnl, SortedDict.mem_set_iff] at member
    rcases member with rfl | ⟨_, old⟩
    · refine ⟨fun contract => after.netPnlOf ts contract.symbol, ?_, fun contract member =>
        valuations.contributes marked run member⟩
      have sums := reconciled.indexed.sum_contracts
        (f := fun contract => after.netPnlOf ts contract.symbol)
        (fun contract absent => by rw [Account.netPnlOf, absent]; rfl) fun _ => true
      rw [List.filter_true, List.filter_true] at sums
      dsimp only
      rw [← sums, ← reconciled.indexed.keys, ← reconciled.indexed.values_symbols, List.map_map]
      rfl
    · exact (valuations.cache item old).revalue revalued

theorem Valuations.calcLoop (marked : MarkedAccount setup priceFunction mark)
    {due : List Timestamp} : ∀ {before after : Account}, Valuations setup mark S before →
      due.foldlM (Account.calcAt (setup.valuation priceFunction)) before = .ok after →
      Valuations setup mark S after := by
  induction due with
  | nil =>
      intro before after valuations run
      cases run
      exact valuations
  | cons ts due ih =>
      intro before after valuations run
      rw [List.foldlM_cons] at run
      obtain ⟨middle, first, rest⟩ := bind_ok.mp run
      exact ih (valuations.calcAt marked first) rest

theorem Valuations.calcPnl {before after : Account} (valuations : Valuations setup mark S before)
    (marked : MarkedAccount setup priceFunction mark) {timestamp : Timestamp}
    (run : before.calcPnl setup priceFunction timestamp = .ok after) :
    Valuations setup mark S after := by
  obtain ⟨_, _, run⟩ := bind_ok.mp run
  dsimp only at run
  split at run
  · cases run
    exact valuations
  · exact valuations.calcLoop marked run

/-- On the grid, and at finite marks, no valuation raises. -/
theorem calcNetPnl_total {ts : Timestamp} (onGrid : ts ∈ setup.timestamps.timestamps)
    (ledger : ContractPnl) (marked : Marked setup.timestamps priceFunction mark ledger.contract) :
    ∃ ledger', ContractPnl.calcNetPnl (setup.valuation priceFunction) ts ledger = .ok ledger' := by
  obtain ⟨index, atIndex⟩ := List.mem_iff_getElem?.mp onGrid
  rw [ContractPnl.calcNetPnl_marked atIndex
    (marked index ts atIndex)]
  split
  · exact ⟨_, rfl⟩
  · exact ⟨_, rfl⟩

theorem calcTimestamps_onGrid (setup : AccountSetup) :
    ∀ ts ∈ setup.calcTimestamps, ts ∈ setup.timestamps.timestamps := by
  intro ts member
  unfold AccountSetup.calcTimestamps getCalcTimestamps at member
  obtain ⟨bounds, _, found⟩ := List.mem_filterMap.mp member
  dsimp only at found
  split at found
  · exact List.mem_of_getElem? found
  · cases found

/-- What `calc` goes through ends with the timestamp it was called for. -/
theorem intermediateCalcTimestamps_split (account : Account) (timestamp : Timestamp) :
    ∃ earlier, account.intermediateCalcTimestamps setup timestamp = earlier ++ [timestamp] ∧
      ∀ ts ∈ earlier, ts ∈ setup.timestamps.timestamps := by
  have onGrid : ∀ due : List Timestamp, (∀ ts ∈ due, ts ∈ setup.timestamps.timestamps) →
      ∃ earlier, (if due.getLast? = some timestamp then due else due ++ [timestamp]) =
        earlier ++ [timestamp] ∧ ∀ ts ∈ earlier, ts ∈ setup.timestamps.timestamps := by
    intro due listed
    split
    · rename_i last
      obtain ⟨earlier, rfl⟩ := List.getLast?_eq_some_iff.mp last
      exact ⟨earlier, rfl, fun ts member => listed ts (List.mem_append_left _ member)⟩
    · exact ⟨due, rfl, listed⟩
  unfold Account.intermediateCalcTimestamps
  apply onGrid
  intro ts member
  split at member
  · exact calcTimestamps_onGrid setup ts (List.mem_filter.mp member).1
  · exact calcTimestamps_onGrid setup ts (List.mem_filter.mp (List.mem_filter.mp member).1).1

theorem calcPnl_total {account : Account} (indexed : Account.Indexed setup account)
    (marked : MarkedAccount setup priceFunction mark) {timestamp : Timestamp}
    (onGrid : timestamp ∈ setup.timestamps.timestamps) :
    ∃ after pnl, account.calcPnl setup priceFunction timestamp = .ok after ∧
      after.pnl.get? timestamp = some pnl := by
  obtain ⟨index, found⟩ := timestampIndex_of_mem onGrid
  unfold Account.calcPnl
  simp only [found, raiseIn, bind, Except.bind]
  split
  · rename_i cached
    obtain ⟨pnl, stored⟩ := Option.isSome_iff_exists.mp cached
    exact ⟨account, pnl, rfl, stored⟩
  · obtain ⟨earlier, split, listed⟩ := intermediateCalcTimestamps_split account timestamp
    have step : ∀ ts ∈ setup.timestamps.timestamps, ∀ self, Account.Revalued account self →
        ∃ after, self.calcAt (setup.valuation priceFunction) ts = .ok after ∧
          Account.Revalued account after := fun ts member self revalued =>
      Account.calcAt_total revalued fun symbol ledger stored now same =>
        calcNetPnl_total member now (same ▸ marked _ (indexed.own stored).2.2)
    obtain ⟨middle, first, revalued⟩ := foldlM_total (P := Account.Revalued account)
      (f := Account.calcAt (setup.valuation priceFunction))
      (fun ts member self revalued => step ts (listed ts member) self revalued) account
      (Account.Revalued.refl account)
    obtain ⟨after, last, _⟩ := step timestamp onGrid middle revalued
    refine ⟨after, (after.symbolPnls.keys.map (after.netPnlOf timestamp)).sum, ?_, ?_⟩
    · rw [split, List.foldlM_append, first]
      simp only [bind, Except.bind, List.foldlM_cons, List.foldlM_nil, last]
      rfl
    · rw [(Account.calcAt_ok last).2]
      exact SortedDict.get?_set_self ..

/-- `equity` returns what the contracts account for. -/
theorem Valuations.equity {account : Account} (valuations : Valuations setup mark S account)
    (marked : MarkedAccount setup priceFunction mark) {timestamp : Timestamp}
    (onGrid : timestamp ∈ setup.timestamps.timestamps) :
    ∃ after pnl, account.equity setup priceFunction timestamp =
        .ok (after, setup.startingEquity + pnl) ∧
      Valuations setup mark S after ∧ Account.Revalued account after ∧
      Accounts setup mark S after timestamp pnl := by
  cases cached : account.pnl.get? timestamp with
  | some pnl =>
      refine ⟨account, pnl, by simp only [Account.equity, cached], valuations,
        Account.Revalued.refl account, ?_⟩
      exact valuations.cache (timestamp, pnl) ((SortedDict.get?_eq_some_iff _ _ _).mp cached)
  | none =>
      obtain ⟨after, pnl, run, stored⟩ := calcPnl_total valuations.reconciled.indexed marked onGrid
      have valuations' := valuations.calcPnl marked run
      refine ⟨after, pnl, by simp only [Account.equity, cached, run, bind, Except.bind, stored],
        valuations', (Account.calcPnl_revalued account priceFunction timestamp account
          (Account.Revalued.refl account)).1 after run, ?_⟩
      exact valuations'.cache (timestamp, pnl) ((SortedDict.get?_eq_some_iff _ _ _).mp stored)

/-! ## Accepted batches -/

theorem Reconciled.final {valuation : Valuation} {before after : Account}
    {batch : List BookedTrade} (reconciled : Reconciled setup before)
    (bookable : Bookable setup batch) (updated : Account.Updated valuation batch before after)
    {symbol : String} {ledger : ContractPnl} {value : ℚ}
    (stored : before.symbolPnls.get? symbol = some ledger) (final : ledger.finalPnl = some value) :
    ∃ ledger', after.symbolPnls.get? symbol = some ledger' ∧ ledger'.finalPnl = some value := by
  by_cases inBatch : symbol ∈ batch.map fun trade => trade.contract.symbol
  · obtain ⟨trade, member, rfl⟩ := List.mem_map.mp inBatch
    obtain ⟨ledger', stored', run⟩ := updated.updated trade member
    rw [stored] at run
    exact ⟨ledger', stored', addTrades_final (reconciled.books _ ledger stored) final
      (bookable.chronological.filter _)
      (List.ne_nil_of_mem (List.mem_filter.mpr ⟨member, by simp⟩)) run⟩
  · exact ⟨ledger, (updated.untouched symbol inBatch).trans stored, final⟩

theorem Contributes.update {valuation : Valuation} {before after : Account}
    {batch : List BookedTrade} {contract : Contract} {timestamp : Timestamp} {value : ℚ}
    (contributes : Contributes mark S before contract timestamp value)
    (reconciled : Reconciled setup before) (bookable : Bookable setup batch)
    (updated : Account.Updated valuation batch before after)
    (later : ∀ trade ∈ batch, timestamp < trade.timestamp) :
    Contributes mark S after contract timestamp value := by
  have laterOf : ∀ trade ∈ tradesOf batch contract.symbol, timestamp < trade.timestamp :=
    fun trade member => later trade (List.mem_filter.mp member).1
  refine ⟨fun unexpired => ?_, fun past inS => ?_⟩
  · rw [updated.trades, tradesOf_append, netPnlFromScratch_append laterOf]
    exact contributes.unexpired unexpired
  · rw [updated.trades, tradesOf_append, tradesUpTo_append, tradesUpTo_of_lt laterOf,
      List.append_nil]
    rcases contributes.expired past inS with ⟨ledger, stored, final⟩ | none
    · exact Or.inl (reconciled.final bookable updated stored final)
    · exact Or.inr none

/-- The contract's trades in a batch come before it is settled, and at most one
timestamp of them is past its expiry. -/
def BeforeSettlement (account : Account) (batch : List BookedTrade) (contract : Contract) : Prop :=
  (∀ ledger, account.symbolPnls.get? contract.symbol = some ledger → ledger.finalPnl = none) ∧
    ∀ a ∈ tradesOf batch contract.symbol, ∀ b ∈ tradesOf batch contract.symbol,
      contract.expiredAt a.timestamp = true → contract.expiredAt b.timestamp = true →
        a.timestamp = b.timestamp

theorem Valuations.update {before after : Account} {batch : List BookedTrade}
    (valuations : Valuations setup mark S before)
    (marked : MarkedAccount setup priceFunction mark) (bookable : Bookable setup batch)
    (indexed : Account.Indexed setup after)
    (updated : Account.Updated (setup.valuation priceFunction) batch before after)
    (timely : ∀ trade ∈ batch, S trade.contract → BeforeSettlement before batch trade.contract) :
    Valuations setup mark S after := by
  have reconciled := valuations.reconciled.update bookable indexed updated
  have start : ∀ contract : Contract, setup.Registered contract →
      let ledger := (before.symbolPnls.get? contract.symbol).getD (ContractPnl.new contract)
      let trades := tradesOf before.trades contract.symbol
      ledger.contract = contract ∧ Valued mark ledger trades ∧ Begun ledger trades ∧
        (S contract → Settled setup.timestamps mark ledger trades) := by
    intro contract registered
    cases stored : before.symbolPnls.get? contract.symbol with
    | none =>
        rw [valuations.reconciled.no_trades stored]
        exact ⟨rfl, valued_new mark contract, fun _ => rfl, fun _ => settled_new _ mark contract⟩
    | some ledger =>
        obtain ⟨symbolEq, registered'⟩ := valuations.reconciled.indexed.own stored
        have sameContract := AccountSetup.registered_unique registered' registered symbolEq
        exact ⟨sameContract, valuations.valued _ ledger stored, fun none =>
          absurd none (valuations.reconciled.begun _ ledger stored), fun inS =>
          valuations.settled _ ledger stored (sameContract.symm ▸ inS)⟩
  refine ⟨reconciled, fun symbol ledger' stored => ?_, fun symbol ledger' stored inS => ?_,
    fun item member => ?_⟩
  · by_cases inBatch : symbol ∈ batch.map fun trade => trade.contract.symbol
    · obtain ⟨trade, member, rfl⟩ := List.mem_map.mp inBatch
      obtain ⟨ledger, stored', run⟩ := updated.updated trade member
      rw [stored] at stored'
      cases stored'
      have registered := bookable.registered trade member
      obtain ⟨sameContract, valued, begun, _⟩ := start trade.contract registered
      rw [updated.trades, tradesOf_append]
      exact valued.addTrades (valuations.reconciled.start trade.contract) begun
        (sameContract.symm ▸ marked _ registered.2) (bookable.chronological.filter _)
        (List.ne_nil_of_mem (List.mem_filter.mpr ⟨member, by simp⟩)) run
    · rw [updated.trades, tradesOf_append, tradesOf_eq_nil_iff.mpr inBatch, List.append_nil]
      rw [updated.untouched symbol inBatch] at stored
      exact valuations.valued symbol ledger' stored
  · by_cases inBatch : symbol ∈ batch.map fun trade => trade.contract.symbol
    · obtain ⟨trade, member, rfl⟩ := List.mem_map.mp inBatch
      obtain ⟨ledger, stored', run⟩ := updated.updated trade member
      rw [stored] at stored'
      cases stored'
      have registered := bookable.registered trade member
      obtain ⟨sameContract, valued, begun, settled⟩ := start trade.contract registered
      have contractEq : ledger'.contract = trade.contract :=
        (ContractPnl.addTrades_keeps_contract trade.contract _ _ sameContract).1 ledger' run
      rw [contractEq] at inS
      obtain ⟨unsettled, oncePast⟩ := timely trade member inS
      rw [updated.trades, tradesOf_append]
      refine (settled inS).addTrades valued
        (valuations.reconciled.start trade.contract) begun
        (sameContract.symm ▸ marked _ registered.2) (bookable.chronological.filter _) ?_ ?_ (List.ne_nil_of_mem (List.mem_filter.mpr ⟨member, by simp⟩)) run
      · cases stored' : before.symbolPnls.get? trade.contract.symbol with
        | none => rfl
        | some ledger => exact unsettled ledger stored'
      · intro a aMember b bMember
        rw [ContractPnl.expired, ContractPnl.expired, sameContract]
        exact oncePast a aMember b bMember
    · rw [updated.trades, tradesOf_append, tradesOf_eq_nil_iff.mpr inBatch, List.append_nil]
      rw [updated.untouched symbol inBatch] at stored
      exact valuations.settled symbol ledger' stored inS
  · obtain ⟨cached, later⟩ := (updated.pnl item).mp member
    obtain ⟨used, total, each⟩ := valuations.cache item cached
    exact ⟨used, total, fun contract listed =>
      (each contract listed).update valuations.reconciled bookable updated later⟩

/-! ## Runs -/

/-- At finite marks a `calc` that raises was called off the grid and did nothing. -/
theorem calcPnl_error {account : Account} (indexed : Account.Indexed setup account)
    (marked : MarkedAccount setup priceFunction mark) {timestamp : Timestamp}
    {raised : Raised Exn Account}
    (run : account.calcPnl setup priceFunction timestamp = .error raised) :
    raised.state = account := by
  cases found : timestampIndex setup.timestamps timestamp with
  | ok index =>
      obtain ⟨after, _, returned, _⟩ := calcPnl_total indexed marked (timestampIndex_mem found)
      rw [returned] at run
      cases run
  | error e =>
      rw [Account.calcPnl, found] at run
      cases run
      rfl

theorem Valuations.touch {account : Account} (valuations : Valuations setup mark S account)
    (group : String) : Valuations setup mark S { account with
      symbolPnlsByContractGroup := account.symbolPnlsByContractGroup.touch group } where
  reconciled := valuations.reconciled.revalue (Account.Revalued.touch account group)
  valued := valuations.valued
  settled := valuations.settled
  cache := fun item member =>
    (valuations.cache item member).revalue (Account.Revalued.touch account group)

namespace Session

/-- The call books no trade of the contract after its settlement. -/
def Timely (setup : AccountSetup) (priceFunction : PriceFunction) (contract : Contract)
    (session : Session) : AccountCall → Prop
  | .addTrades orders trades => ∀ batch after, bookTrades setup orders trades = .ok batch →
      session.account.addTrades setup priceFunction orders trades = .ok after →
      contract ∈ batch.map BookedTrade.contract → BeforeSettlement session.account batch contract
  | _ => True

def TimelyRun (setup : AccountSetup) (priceFunction : PriceFunction) (contract : Contract) :
    List AccountCall → Session → Prop
  | [], _ => True
  | operation :: calls, session =>
      Timely setup priceFunction contract session operation ∧
        TimelyRun setup priceFunction contract calls (session.call setup priceFunction operation)

/-- What a call does at finite marks: it books a batch, it values the account at
a timestamp, it looks a group up, or it does nothing. -/
theorem call_outcome (session : Session) (operation : AccountCall)
    (indexed : Account.Indexed setup session.account)
    (marked : MarkedAccount setup priceFunction mark) :
    (∃ orders trades batch after, operation = .addTrades orders trades ∧
        bookTrades setup orders trades = .ok batch ∧
        session.account.addTrades setup priceFunction orders trades = .ok after ∧
        Bookable setup batch ∧ Account.Indexed setup after ∧
        Account.Updated (setup.valuation priceFunction) batch session.account after ∧
        session.call setup priceFunction operation = ⟨after, session.accepted ++ batch⟩) ∨
      (∃ timestamp after, session.account.calcPnl setup priceFunction timestamp = .ok after ∧
        session.call setup priceFunction operation = ⟨after, session.accepted⟩) ∨
      (∃ group, session.call setup priceFunction operation =
        ⟨{ session.account with
          symbolPnlsByContractGroup := session.account.symbolPnlsByContractGroup.touch group },
          session.accepted⟩) ∨
      session.call setup priceFunction operation = session := by
  cases operation with
  | addTrades orders trades =>
      simp only [call]
      cases result : session.account.addTrades setup priceFunction orders trades with
      | ok after =>
          obtain ⟨batch, accepted, bookable, indexed', updated⟩ :=
            Account.addTrades_ok indexed result
          refine Or.inl ⟨orders, trades, batch, after, rfl, accepted, result, bookable, indexed',
            updated, ?_⟩
          simp only [accepted]
      | error raised =>
          simp only [Account.addTrades_error result]
          exact Or.inr (Or.inr (Or.inr trivial))
  | calcPnl timestamp =>
      simp only [call]
      cases result : session.account.calcPnl setup priceFunction timestamp with
      | ok after => exact Or.inr (Or.inl ⟨timestamp, after, result, rfl⟩)
      | error raised =>
          simp only [calcPnl_error indexed marked result]
          exact Or.inr (Or.inr (Or.inr trivial))
  | equity timestamp =>
      simp only [call, Account.equity]
      cases cached : session.account.pnl.get? timestamp with
      | some pnl => exact Or.inr (Or.inr (Or.inr rfl))
      | none =>
          cases result : session.account.calcPnl setup priceFunction timestamp with
          | ok after =>
              refine Or.inr (Or.inl ⟨timestamp, after, result, ?_⟩)
              simp only [bind, Except.bind]
              cases after.pnl.get? timestamp with
              | some pnl => rfl
              | none => rfl
          | error raised =>
              simp only [bind, Except.bind, calcPnl_error indexed marked result]
              exact Or.inr (Or.inr (Or.inr trivial))
  | position group timestamp =>
      simp only [call]
      cases result : session.account.position setup group timestamp with
      | ok read =>
          obtain ⟨_, _, run⟩ := bind_ok.mp result
          cases run
          exact Or.inr (Or.inr (Or.inl ⟨group, rfl⟩))
      | error raised =>
          rcases bind_error.mp result with failed | ⟨_, _, run⟩
          · obtain ⟨_, _, rfl⟩ := raiseIn_error.mp failed
            exact Or.inr (Or.inr (Or.inr rfl))
          · cases run

theorem call_valuations (session : Session) (operation : AccountCall)
    (valuations : Valuations setup mark S session.account)
    (marked : MarkedAccount setup priceFunction mark)
    (timely : ∀ contract, S contract → Timely setup priceFunction contract session operation) :
    Valuations setup mark S (session.call setup priceFunction operation).account := by
  have indexed := valuations.reconciled.indexed
  rcases session.call_outcome operation indexed marked with
    ⟨orders, trades, batch, after, rfl, accepted, result, bookable, indexed', updated, outcome⟩ |
      ⟨timestamp, after, result, outcome⟩ | ⟨group, outcome⟩ | outcome
  · rw [outcome]
    exact valuations.update marked bookable indexed' updated fun trade member inS =>
      timely trade.contract inS batch after accepted result (List.mem_map_of_mem member)
  · rw [outcome]
    exact valuations.calcPnl marked result
  · rw [outcome]
    exact valuations.touch group
  · rw [outcome]
    exact valuations

theorem run_valuations (marked : MarkedAccount setup priceFunction mark) (calls : List AccountCall) :
    ∀ session : Session, Valuations setup mark S session.account →
      (∀ contract, S contract → TimelyRun setup priceFunction contract calls session) →
      Valuations setup mark S (session.run setup priceFunction calls).account := by
  induction calls with
  | nil => exact fun _ valuations _ => valuations
  | cons operation calls ih =>
      intro session valuations timely
      exact ih _ (session.call_valuations operation valuations marked fun contract inS =>
        (timely contract inS).1) fun contract inS => (timely contract inS).2

/-- A recorded final P&L survives every call. -/
theorem run_final {symbol : String} {value : ℚ} (calls : List AccountCall) (session : Session)
    (reconciled : Reconciled setup session.account)
    (final : ∃ ledger, session.account.symbolPnls.get? symbol = some ledger ∧
      ledger.finalPnl = some value) :
    ∃ ledger, (session.run setup priceFunction calls).account.symbolPnls.get? symbol = some ledger ∧
      ledger.finalPnl = some value := by
  refine (run_induction (P := fun session => Reconciled setup session.account ∧
    ∃ ledger, session.account.symbolPnls.get? symbol = some ledger ∧
      ledger.finalPnl = some value) ?_ calls session ⟨reconciled, final⟩).2
  rintro session operation ⟨reconciled, ledger, stored, final⟩
  rcases session.call_cases operation reconciled.indexed with
    ⟨_, _, batch, after, _, _, _, bookable, indexed, updated, result⟩ | ⟨revalued, _⟩
  · rw [result]
    exact ⟨reconciled.update bookable indexed updated,
      reconciled.final bookable updated stored final⟩
  · exact ⟨reconciled.revalue revalued, revalued.finals symbol ledger value stored final⟩

end Session

/-- The accepted trades of a contract up to a timestamp. -/
def Session.acceptedOf (session : Session) (contract : Contract) (timestamp : Timestamp) :
    List BookedTrade :=
  session.accepted.filter fun trade => trade.contract = contract ∧ trade.timestamp ≤ timestamp

theorem Session.Sound.fromScratch {session : Session} (sound : session.Sound setup)
    {contract : Contract} (registered : contract ∈ setup.registry.contracts)
    (mark : Contract → Timestamp → ℚ) (timestamp : Timestamp) :
    netPnlFromScratch contract (tradesOf session.account.trades contract.symbol) (mark contract)
        timestamp =
      scratchNetPnl contract (session.acceptedOf contract timestamp) (mark contract timestamp) := by
  rw [netPnlFromScratch, sound.reconciled.tradesOf_contract registered, sound.accepted]
  rfl

/-- The marks of the sample account: 100 at the first hour, 110 afterwards. -/
def samplePrice : PriceFunction := fun _ index => .ok (.real (if index = 0 then 100 else 110))

def sampleMark (_ : Contract) (timestamp : Timestamp) : ℚ :=
  if timestamp = sampleTime 0 then 100 else 110

theorem sampleMarked (contract : Contract) :
    Marked sampleSetup.timestamps samplePrice sampleMark contract := by
  intro index timestamp found
  match index with
  | 0 | 1 | 2 | 3 =>
      cases found
      rfl
  | index + 4 => cases found

end Gambit
