import Gambit.Accounting.Account
import Gambit.Accounting.Ledger

/-!
# What an account step can do

`Updated` is everything an accepted batch changes, `Revalued` everything a
query can change.  The indices by symbol and by group agree throughout.
-/

set_option autoImplicit false

namespace Gambit

open KeyedLists Raising

def AccountSetup.Registered (setup : AccountSetup) (contract : Contract) : Prop :=
  contract.contractGroup ∈ setup.contractGroups ∧ contract ∈ setup.registry.contracts

theorem AccountSetup.registered_unique {setup : AccountSetup} {a b : Contract}
    (ha : setup.Registered a) (hb : setup.Registered b) (same : a.symbol = b.symbol) : a = b :=
  List.inj_on_of_nodup_map setup.registry.unique ha.2 hb.2 same

/-! ## Accepted batches -/

theorem bookTrade_ok {setup : AccountSetup} {orders : OrderId → Order} {trade : Trade}
    {booked : BookedTrade} (accepted : bookTrade setup orders trade = .ok booked) :
    setup.Registered booked.contract ∧ booked.timestamp ∈ setup.timestamps.timestamps ∧
      booked.contract = trade.contract ∧ booked.orderId = trade.order ∧
      booked.order = orders trade.order ∧ booked.timestamp = trade.timestamp ∧
      validatedTradeNumbers trade =
        .ok ⟨booked.qty, booked.price, booked.fee, booked.commission⟩ ∧
      validateTradeReferences trade (orders trade.order) = .ok () := by
  unfold bookTrade at accepted
  obtain ⟨_, references, accepted⟩ := bind_ok.mp accepted
  obtain ⟨numbers, valid, accepted⟩ := bind_ok.mp accepted
  obtain ⟨index, found, accepted⟩ := bind_ok.mp accepted
  dsimp only at accepted
  split at accepted
  · cases accepted
  · rename_i configured
    split at accepted
    · cases accepted
    · rename_i registered
      cases accepted
      have member := List.mem_of_find?_eq_some (not_not.mp registered)
      exact ⟨⟨not_not.mp configured, (List.mem_filter.mp member).1⟩, timestampIndex_mem found, rfl,
        rfl, rfl, rfl, valid, references⟩

theorem mem_of_mapM_ok {α β ε : Type} {f : α → Except ε β} {xs : List α} {ys : List β}
    (run : xs.mapM f = .ok ys) {y : β} (member : y ∈ ys) : ∃ x ∈ xs, f x = .ok y := by
  induction xs generalizing ys with
  | nil =>
      cases run
      cases member
  | cons x xs ih =>
      rw [List.mapM_cons] at run
      obtain ⟨first, found, run⟩ := bind_ok.mp run
      obtain ⟨rest, tail, run⟩ := bind_ok.mp run
      cases run
      rcases List.mem_cons.mp member with same | later
      · exact ⟨x, List.mem_cons_self .., same ▸ found⟩
      · obtain ⟨x', listed, found'⟩ := ih tail later
        exact ⟨x', List.mem_cons_of_mem _ listed, found'⟩

/-- What `add_trades` has checked of a batch it goes on with. -/
structure Bookable (setup : AccountSetup) (batch : List BookedTrade) : Prop where
  chronological : Chronological BookedTrade.timestamp batch
  registered : ∀ trade ∈ batch, setup.Registered trade.contract
  onGrid : ∀ trade ∈ batch, trade.timestamp ∈ setup.timestamps.timestamps

theorem mem_bookTrades {setup : AccountSetup} {orders : OrderId → Order} {trades : List Trade}
    {batch : List BookedTrade} (accepted : bookTrades setup orders trades = .ok batch)
    {trade : BookedTrade} (member : trade ∈ batch) :
    ∃ raw ∈ trades, bookTrade setup orders raw = .ok trade := by
  obtain ⟨booked, valid, accepted⟩ := bind_ok.mp accepted
  cases accepted
  exact mem_of_mapM_ok valid ((List.mem_insertionSort _).mp member)

theorem bookTrades_bookable {setup : AccountSetup} {orders : OrderId → Order} {trades : List Trade}
    {batch : List BookedTrade} (accepted : bookTrades setup orders trades = .ok batch) :
    Bookable setup batch where
  chronological := by
    obtain ⟨booked, valid, accepted⟩ := bind_ok.mp accepted
    cases accepted
    exact chronological_insertionSort BookedTrade.timestamp booked
  registered := fun trade member => by
    obtain ⟨raw, _, booked⟩ := mem_bookTrades accepted member
    exact (bookTrade_ok booked).1
  onGrid := fun trade member => by
    obtain ⟨raw, _, booked⟩ := mem_bookTrades accepted member
    exact (bookTrade_ok booked).2.1

namespace Account

variable {setup : AccountSetup} {valuation : Valuation}

theorem onLedger_ok {symbol : String} {method : Step Exn ContractPnl} {self self' : Account}
    (run : onLedger symbol method self = .ok self') :
    ∃ ledger ledger', self.symbolPnls.get? symbol = some ledger ∧ method ledger = .ok ledger' ∧
      self' = { self with symbolPnls := self.symbolPnls.set symbol ledger' } := by
  unfold onLedger at run
  split at run
  · cases run
  · rename_i ledger present
    split at run
    · rename_i ledger' returned
      cases run
      exact ⟨ledger, ledger', present, returned, rfl⟩
    · cases run

theorem onLedger_error {symbol : String} {method : Step Exn ContractPnl} {self : Account}
    {raised : Raised Exn Account} (run : onLedger symbol method self = .error raised) :
    raised.state = self ∨
      ∃ ledger failed, self.symbolPnls.get? symbol = some ledger ∧ method ledger = .error failed ∧
        raised.state = { self with symbolPnls := self.symbolPnls.set symbol failed.state } := by
  unfold onLedger at run
  split at run
  · cases run
    exact Or.inl rfl
  · rename_i ledger present
    split at run
    · cases run
    · rename_i failed raises
      cases run
      exact Or.inr ⟨ledger, failed, present, raises, rfl⟩

/-! ## The indices -/

structure Indexed (setup : AccountSetup) (account : Account) : Prop where
  registered : ∀ symbol contract, account.contracts.get? symbol = some contract →
    contract.symbol = symbol ∧ setup.Registered contract
  contracts : account.contracts = account.symbolPnls.mapItems fun _ ledger => ledger.contract
  groups : ∀ group, account.symbolPnlsByContractGroup.listAt group =
    (account.contracts.items.filter fun item => item.2.contractGroup = group).map Prod.fst

theorem indexed_new (setup : AccountSetup) : Indexed setup Account.new where
  registered := fun _ _ found => by cases found
  contracts := rfl
  groups := fun _ => rfl

theorem Indexed.contract_of_ledger {self : Account} (indexed : Indexed setup self) {symbol : String}
    {ledger : ContractPnl} (stored : self.symbolPnls.get? symbol = some ledger) :
    self.contracts.get? symbol = some ledger.contract := by
  rw [indexed.contracts, OrderedDict.get?_mapItems, stored]
  rfl

theorem Indexed.own {self : Account} (indexed : Indexed setup self) {symbol : String}
    {ledger : ContractPnl} (stored : self.symbolPnls.get? symbol = some ledger) :
    ledger.contract.symbol = symbol ∧ setup.Registered ledger.contract :=
  indexed.registered symbol ledger.contract (indexed.contract_of_ledger stored)

theorem Indexed.keys {account : Account} (indexed : Indexed setup account) :
    account.contracts.keys = account.symbolPnls.keys := by
  rw [indexed.contracts, OrderedDict.keys_mapItems]

theorem Indexed.symbols {account : Account} (indexed : Indexed setup account) :
    ∀ item ∈ account.contracts.items, item.2.symbol = item.1 := fun item member =>
  (indexed.registered item.1 item.2 ((OrderedDict.get?_eq_some_iff _ _ _).mpr member)).1

theorem Indexed.values_symbols {account : Account} (indexed : Indexed setup account) :
    account.contracts.values.map Contract.symbol = account.contracts.keys := by
  rw [OrderedDict.values, List.map_map, OrderedDict.keys]
  exact List.map_congr_left fun item member => indexed.symbols item member

theorem Indexed.contains_iff {self : Account} (indexed : Indexed setup self) (symbol : String) :
    self.contracts.contains symbol = self.symbolPnls.contains symbol := by
  rw [OrderedDict.contains, OrderedDict.contains, indexed.contracts, OrderedDict.get?_mapItems,
    Option.isSome_map]

theorem Indexed.write {self : Account} (indexed : Indexed setup self) {symbol : String}
    {ledger ledger' : ContractPnl} (stored : self.symbolPnls.get? symbol = some ledger)
    (same : ledger'.contract = ledger.contract) :
    Indexed setup { self with symbolPnls := self.symbolPnls.set symbol ledger' } where
  registered := indexed.registered
  contracts := by
    dsimp only
    rw [OrderedDict.mapItems_set, same, ← indexed.contracts,
      OrderedDict.set_get? (indexed.contract_of_ledger stored)]
  groups := indexed.groups

theorem Indexed.addContract {self self' : Account} (indexed : Indexed setup self)
    {contract : Contract} (registered : setup.Registered contract)
    (run : self.addContract contract = .ok self') : Indexed setup self' := by
  unfold Account.addContract at run
  split at run
  · cases run
  · rename_i absent
    cases run
    have notListed : contract.symbol ∉ self.contracts.keys := fun member => by
      rw [← indexed.contains_iff] at absent
      exact absent ((OrderedDict.contains_iff _ _).mpr member)
    refine ⟨fun symbol other found => ?_, ?_, fun group => ?_⟩
    · rw [OrderedDict.get?_set] at found
      split at found
      · rename_i same
        cases found
        exact ⟨same.symm, registered⟩
      · exact indexed.registered symbol other found
    · dsimp only
      rw [OrderedDict.mapItems_set, ← indexed.contracts]
      rfl
    · dsimp only
      rw [OrderedDict.listAt_appendAt, indexed.groups, OrderedDict.items_set_of_not_mem notListed,
        List.filter_append, List.map_append]
      by_cases same : contract.contractGroup = group
      · simp [same]
      · simp [same]

/-- The registered contracts of an account, in another order than the registry's. -/
theorem Indexed.contracts_perm {account : Account} (indexed : Indexed setup account) :
    account.contracts.values.Perm
      (setup.registry.contracts.filter fun contract =>
        account.symbolPnls.contains contract.symbol) := by
  have distinct : account.contracts.values.Nodup :=
    List.Nodup.of_map Contract.symbol (indexed.values_symbols ▸ account.contracts.distinct)
  refine (List.perm_ext_iff_of_nodup distinct (setup.registry.unique.of_map.filter _)).mpr
    fun contract => ?_
  rw [List.mem_filter, ← indexed.contains_iff, OrderedDict.contains_iff]
  constructor
  · intro member
    obtain ⟨item, listed, rfl⟩ := List.mem_map.mp member
    have stored := (OrderedDict.get?_eq_some_iff account.contracts item.1 item.2).mpr listed
    obtain ⟨same, registered⟩ := indexed.registered item.1 item.2 stored
    exact ⟨registered.2, same ▸ OrderedDict.mem_keys_of_get? stored⟩
  · rintro ⟨registered, present⟩
    obtain ⟨item, listed, same⟩ := List.mem_map.mp present
    have stored := (OrderedDict.get?_eq_some_iff account.contracts item.1 item.2).mpr listed
    have registered' := (indexed.registered item.1 item.2 stored).2.2
    have sameContract : item.2 = contract := List.inj_on_of_nodup_map setup.registry.unique
      registered' registered ((indexed.symbols item listed).trans same)
    exact List.mem_map.mpr ⟨item, listed, sameContract⟩

/-- A sum over the account's contracts is one over the registry's. -/
theorem Indexed.sum_contracts {M : Type} [AddCommMonoid M] {account : Account}
    (indexed : Indexed setup account) {f : Contract → M}
    (absent : ∀ contract, account.symbolPnls.get? contract.symbol = none → f contract = 0)
    (p : Contract → Bool) :
    ((account.contracts.values.filter p).map f).sum =
      ((setup.registry.contracts.filter p).map f).sum := by
  rw [((indexed.contracts_perm.filter p).map f).sum_eq]
  induction setup.registry.contracts with
  | nil => rfl
  | cons contract contracts ih =>
      by_cases present : account.symbolPnls.contains contract.symbol = true
      · rw [List.filter_cons_of_pos (by simpa using present)]
        cases chosen : p contract with
        | true =>
            rw [List.filter_cons_of_pos chosen, List.filter_cons_of_pos chosen, List.map_cons,
              List.map_cons, List.sum_cons, List.sum_cons, ih]
        | false =>
            rw [List.filter_cons_of_neg (by simp [chosen]),
              List.filter_cons_of_neg (by simp [chosen]), ih]
      · rw [List.filter_cons_of_neg (by simpa using present), ih]
        have none : account.symbolPnls.get? contract.symbol = none := by
          simpa [OrderedDict.contains] using present
        cases chosen : p contract with
        | true =>
            rw [List.filter_cons_of_pos chosen, List.map_cons, List.sum_cons, absent contract none,
              zero_add]
        | false => rw [List.filter_cons_of_neg (by simp [chosen])]

/-! ## An accepted batch -/

/-- All that an accepted batch changes. -/
structure Updated (valuation : Valuation) (batch : List BookedTrade) (before after : Account) :
    Prop where
  trades : after.trades = before.trades ++ batch
  dated : ∀ key, after.tradesForDate.listAt key = before.tradesForDate.listAt key ++
    batch.filter fun trade => (trade.contract.symbol, day trade.timestamp) = key
  pnl : ∀ item, item ∈ after.pnl.items ↔
    item ∈ before.pnl.items ∧ ∀ trade ∈ batch, item.1 < trade.timestamp
  updated : ∀ trade ∈ batch, ∃ ledger,
    after.symbolPnls.get? trade.contract.symbol = some ledger ∧
      ((before.symbolPnls.get? trade.contract.symbol).getD (ContractPnl.new trade.contract)).addTrades
        valuation (batch.filter fun other => other.contract.symbol = trade.contract.symbol) =
          .ok ledger
  untouched : ∀ symbol, symbol ∉ batch.map (fun trade => trade.contract.symbol) →
    after.symbolPnls.get? symbol = before.symbolPnls.get? symbol

/-- What registering contracts and booking into ledgers leave alone. -/
structure SameTrades (before after : Account) : Prop where
  trades : after.trades = before.trades
  tradesForDate : after.tradesForDate = before.tradesForDate
  pnl : after.pnl = before.pnl

theorem SameTrades.trans {a b c : Account} (first : SameTrades a b) (second : SameTrades b c) :
    SameTrades a c :=
  ⟨second.trades.trans first.trades, second.tradesForDate.trans first.tradesForDate,
    second.pnl.trans first.pnl⟩

/-- The loop that registers the contracts of a batch. -/
def registerContracts (batch : List BookedTrade) (self : Account) :
    Except (Raised Exn Account) Account :=
  batch.foldlM (fun self trade =>
    if self.contracts.contains trade.contract.symbol then .ok self
    else self.addContract trade.contract) self

theorem registerContracts_ok {batch : List BookedTrade}
    (registered : ∀ trade ∈ batch, setup.Registered trade.contract) :
    ∀ {before after : Account}, Indexed setup before →
      registerContracts batch before = .ok after →
      Indexed setup after ∧ SameTrades before after ∧
        (∀ symbol ledger, before.symbolPnls.get? symbol = some ledger →
          after.symbolPnls.get? symbol = some ledger) ∧
        (∀ trade ∈ batch, before.symbolPnls.get? trade.contract.symbol = none →
          after.symbolPnls.get? trade.contract.symbol = some (ContractPnl.new trade.contract)) ∧
        ∀ symbol, symbol ∉ batch.map (fun trade => trade.contract.symbol) →
          after.symbolPnls.get? symbol = before.symbolPnls.get? symbol := by
  unfold registerContracts
  induction batch with
  | nil =>
      intro before after indexed run
      cases run
      exact ⟨indexed, ⟨rfl, rfl, rfl⟩, fun _ _ h => h, fun _ listed => (by cases listed),
        fun _ _ => rfl⟩
  | cons trade batch ih =>
      intro before after indexed run
      have ih := @ih
        fun other member => registered other (List.mem_cons_of_mem _ member)
      rw [List.foldlM_cons] at run
      obtain ⟨middle, step, rest⟩ := bind_ok.mp run
      split at step
      · rename_i present
        cases step
        obtain ⟨indexed', same, kept, added, untouched⟩ := ih indexed rest
        refine ⟨indexed', same, kept, fun other member absent => ?_, fun symbol outside =>
          untouched symbol fun member => outside (List.mem_cons_of_mem _ member)⟩
        rcases List.mem_cons.mp member with rfl | later
        · rw [indexed.contains_iff, OrderedDict.contains, absent] at present
          cases present
        · exact added other later absent
      · have middleIndexed := indexed.addContract (registered trade (List.mem_cons_self ..)) step
        unfold addContract at step
        split at step
        · cases step
        · rename_i absent
          cases step
          obtain ⟨indexed', same, kept, added, untouched⟩ := ih middleIndexed rest
          have stored : ∀ symbol ledger, before.symbolPnls.get? symbol = some ledger →
              symbol ≠ trade.contract.symbol := by
            rintro symbol ledger found rfl
            exact absent (by rw [OrderedDict.contains, found]; rfl)
          refine ⟨indexed', ⟨same.trades, same.tradesForDate, same.pnl⟩, fun symbol ledger found => ?_,
            fun other member none => ?_, fun symbol outside => ?_⟩
          · exact kept symbol ledger (by
              rw [OrderedDict.get?_set, if_neg (stored symbol ledger found), found])
          · by_cases sameSymbol : other.contract.symbol = trade.contract.symbol
            · have sameContract := AccountSetup.registered_unique (registered other member)
                (registered trade (List.mem_cons_self ..)) sameSymbol
              rw [sameContract]
              exact kept _ _ (OrderedDict.get?_set_self ..)
            · rcases List.mem_cons.mp member with rfl | later
              · exact absurd rfl sameSymbol
              · exact added other later (by rw [OrderedDict.get?_set, if_neg sameSymbol, none])
          · rw [List.map_cons, List.mem_cons, not_or] at outside
            rw [untouched symbol outside.2, OrderedDict.get?_set, if_neg outside.1]

/-- The loop that books the trades of each contract. -/
def bookContracts (valuation : Valuation) (items : List (String × List BookedTrade))
    (self : Account) : Except (Raised Exn Account) Account :=
  items.foldlM (fun self (symbol, contractTrades) =>
    self.onLedger symbol (ContractPnl.addTrades valuation contractTrades)) self

theorem bookContracts_ok {items : List (String × List BookedTrade)}
    (distinct : (items.map Prod.fst).Nodup) :
    ∀ {before after : Account}, Indexed setup before →
      bookContracts valuation items before = .ok after →
      Indexed setup after ∧ SameTrades before after ∧
        (∀ item ∈ items, ∃ ledger ledger', before.symbolPnls.get? item.1 = some ledger ∧
          ledger.addTrades valuation item.2 = .ok ledger' ∧
          after.symbolPnls.get? item.1 = some ledger') ∧
        ∀ symbol, symbol ∉ items.map Prod.fst →
          after.symbolPnls.get? symbol = before.symbolPnls.get? symbol := by
  unfold bookContracts
  induction items with
  | nil =>
      intro before after indexed run
      cases run
      exact ⟨indexed, ⟨rfl, rfl, rfl⟩, fun _ none => (by cases none), fun _ _ => rfl⟩
  | cons item items ih =>
      intro before after indexed run
      obtain ⟨fresh, distinctRest⟩ := List.nodup_cons.mp distinct
      rw [List.foldlM_cons] at run
      obtain ⟨middle, step, rest⟩ := bind_ok.mp run
      obtain ⟨ledger, ledger', present, booked, rfl⟩ := onLedger_ok step
      have sameContract :=
        (ContractPnl.addTrades_keeps_contract ledger.contract item.2 ledger rfl).1 ledger' booked
      obtain ⟨indexed', same, each, untouched⟩ :=
        ih distinctRest (indexed.write present sameContract) rest
      refine ⟨indexed', ⟨same.trades, same.tradesForDate, same.pnl⟩, fun other member => ?_,
        fun symbol outside => ?_⟩
      · rcases List.mem_cons.mp member with rfl | later
        · exact ⟨ledger, ledger', present, booked, by
            rw [untouched _ fresh, OrderedDict.get?_set_self]⟩
        · obtain ⟨old, new, found, run', final⟩ := each other later
          have differs : other.1 ≠ item.1 := fun e =>
            fresh (e ▸ List.mem_map_of_mem (f := Prod.fst) later)
          rw [OrderedDict.get?_set, if_neg differs] at found
          exact ⟨old, new, found, run', final⟩
      · rw [List.map_cons, List.mem_cons, not_or] at outside
        rw [untouched symbol outside.2, OrderedDict.get?_set, if_neg outside.1]

theorem updateTrades_ok {batch : List BookedTrade} (bookable : Bookable setup batch)
    {before after : Account} (indexed : Indexed setup before)
    (run : before.updateTrades valuation batch
      (OrderedDict.groupBy (fun trade => trade.contract.symbol) batch) = .ok after) :
    Indexed setup after ∧ Updated valuation batch before after := by
  obtain ⟨middle, registers, run⟩ := bind_ok.mp run
  obtain ⟨booked, books, run⟩ := bind_ok.mp run
  obtain ⟨indexed₁, same₁, kept, added, untouched₁⟩ :=
    registerContracts_ok bookable.registered indexed registers
  obtain ⟨indexed₂, same₂, each, untouched₂⟩ :=
    bookContracts_ok (OrderedDict.groupBy _ batch).distinct indexed₁ books
  have same := same₁.trans same₂
  have pnlItems : ∀ item, item ∈ after.pnl.items ↔
      item ∈ before.pnl.items ∧ ∀ trade ∈ batch, item.1 < trade.timestamp := by
    intro item
    cases batch with
    | nil =>
        cases run
        simp [same.pnl]
    | cons first rest =>
        cases run
        have least := (List.pairwise_cons.mp bookable.chronological).1
        dsimp only
        rw [SortedDict.mem_dropFrom_iff, same.pnl]
        refine and_congr_right fun _ => ⟨fun less trade member => ?_, fun less =>
          less first (List.mem_cons_self ..)⟩
        rcases List.mem_cons.mp member with rfl | later
        · exact less
        · exact less.trans_le (least trade later)
  have fields : after.symbolPnls = booked.symbolPnls ∧ after.contracts = booked.contracts ∧
      after.symbolPnlsByContractGroup = booked.symbolPnlsByContractGroup ∧
      after.trades = booked.trades ++ batch ∧
      after.tradesForDate = batch.foldl (fun dated trade =>
        dated.appendAt (trade.contract.symbol, day trade.timestamp) trade) booked.tradesForDate := by
    cases batch with
    | nil =>
        cases run
        exact ⟨rfl, rfl, rfl, rfl, rfl⟩
    | cons first rest =>
        cases run
        exact ⟨rfl, rfl, rfl, rfl, rfl⟩
  obtain ⟨ledgers, contracts, groups, trades, dated⟩ := fields
  refine ⟨⟨by rw [contracts]; exact indexed₂.registered,
    by rw [contracts, ledgers]; exact indexed₂.contracts,
    by rw [contracts, groups]; exact indexed₂.groups⟩, ?_⟩
  refine ⟨by rw [trades, same.trades], fun key => ?_, pnlItems, fun trade member => ?_,
    fun symbol outside => ?_⟩
  · rw [dated, OrderedDict.listAt_foldl_appendAt (fun trade : BookedTrade =>
      (trade.contract.symbol, day trade.timestamp)), same.tradesForDate]
  · obtain ⟨ledger, ledger', found, run', final⟩ := each _
      ((OrderedDict.get?_eq_some_iff _ _ _).mp
        (OrderedDict.get?_groupBy member))
    refine ⟨ledger', by rw [ledgers]; exact final, ?_⟩
    have start : (before.symbolPnls.get? trade.contract.symbol).getD
        (ContractPnl.new trade.contract) = ledger := by
      cases stored : before.symbolPnls.get? trade.contract.symbol with
      | none => exact Option.some.inj ((added trade member stored).symm.trans found)
      | some old => exact Option.some.inj ((kept _ old stored).symm.trans found)
    rw [start]
    exact run'
  · rw [ledgers, untouched₂ symbol fun listed => outside (OrderedDict.mem_keys_groupBy.mp listed),
      untouched₁ symbol outside]

/-- An accepted `add_trades`. -/
theorem addTrades_ok {priceFunction : PriceFunction} {orders : OrderId → Order}
    {trades : List Trade} {before after : Account} (indexed : Indexed setup before)
    (run : before.addTrades setup priceFunction orders trades = .ok after) :
    ∃ batch, bookTrades setup orders trades = .ok batch ∧ Bookable setup batch ∧
      Indexed setup after ∧ Updated (setup.valuation priceFunction) batch before after := by
  obtain ⟨batch, accepted, run⟩ := bind_ok.mp run
  obtain ⟨_, _, run⟩ := bind_ok.mp run
  have accepted := raiseIn_ok.mp accepted
  have bookable := bookTrades_bookable accepted
  dsimp only at run
  split at run
  · rename_i updates
    cases run
    exact ⟨batch, accepted, bookable, updateTrades_ok bookable indexed updates⟩
  · cases run

/-! ## Queries -/

/-- All that a query leaves as it was. -/
structure Revalued (before after : Account) : Prop where
  contracts : after.contracts = before.contracts
  trades : after.trades = before.trades
  tradesForDate : after.tradesForDate = before.tradesForDate
  groups : ∀ group, after.symbolPnlsByContractGroup.listAt group =
    before.symbolPnlsByContractGroup.listAt group
  keys : after.symbolPnls.keys = before.symbolPnls.keys
  ledgers : ∀ symbol ledger', after.symbolPnls.get? symbol = some ledger' →
    ∃ ledger, before.symbolPnls.get? symbol = some ledger ∧ ContractPnl.SameBooks ledger ledger'
  finals : ∀ symbol ledger value, before.symbolPnls.get? symbol = some ledger →
    ledger.finalPnl = some value →
    ∃ ledger', after.symbolPnls.get? symbol = some ledger' ∧ ledger'.finalPnl = some value

theorem Revalued.refl (account : Account) : Revalued account account :=
  ⟨rfl, rfl, rfl, fun _ => rfl, rfl, fun _ ledger stored =>
    ⟨ledger, stored, ContractPnl.SameBooks.refl ledger⟩, fun _ ledger _ stored final =>
    ⟨ledger, stored, final⟩⟩

theorem Revalued.trans {a b c : Account} (first : Revalued a b) (second : Revalued b c) :
    Revalued a c where
  contracts := second.contracts.trans first.contracts
  trades := second.trades.trans first.trades
  tradesForDate := second.tradesForDate.trans first.tradesForDate
  groups := fun group => (second.groups group).trans (first.groups group)
  keys := second.keys.trans first.keys
  ledgers := fun symbol ledger stored => by
    obtain ⟨middle, found, same⟩ := second.ledgers symbol ledger stored
    obtain ⟨old, found', same'⟩ := first.ledgers symbol middle found
    exact ⟨old, found', ⟨same.contract.trans same'.contract, same.tradePnl.trans same'.tradePnl,
      same.openQtys.trans same'.openQtys, same.openPrices.trans same'.openPrices,
      same.firstTradeTimestamp.trans same'.firstTradeTimestamp⟩⟩
  finals := fun symbol ledger value stored final => by
    obtain ⟨middle, found, final'⟩ := first.finals symbol ledger value stored final
    exact second.finals symbol middle value found final'

theorem revalued_write {before : Account} {symbol : String} {ledger ledger' : ContractPnl}
    (present : before.symbolPnls.get? symbol = some ledger)
    (same : ContractPnl.SameBooks ledger ledger')
    (final : ∀ value, ledger.finalPnl = some value → ledger'.finalPnl = some value) :
    Revalued before { before with symbolPnls := before.symbolPnls.set symbol ledger' } where
  contracts := rfl
  trades := rfl
  tradesForDate := rfl
  groups := fun _ => rfl
  keys := by
    dsimp only
    rw [OrderedDict.keys_set, if_pos (OrderedDict.mem_keys_of_get? present)]
  ledgers := fun other found stored => by
    dsimp only at stored
    rw [OrderedDict.get?_set] at stored
    split at stored
    · rename_i at_symbol
      cases stored
      exact ⟨ledger, at_symbol ▸ present, same⟩
    · exact ⟨found, stored, ContractPnl.SameBooks.refl found⟩
  finals := fun other old value stored finalOld => by
    dsimp only
    rw [OrderedDict.get?_set]
    split
    · rename_i at_symbol
      rw [at_symbol, present] at stored
      cases stored
      exact ⟨ledger', rfl, final value finalOld⟩
    · exact ⟨old, stored, finalOld⟩

theorem onLedger_calcNetPnl_revalued (before : Account) (symbol : String) (ts : Timestamp) :
    Keeps (Revalued before) (onLedger symbol (ContractPnl.calcNetPnl valuation ts)) := by
  intro self revalued
  refine ⟨fun self' run => ?_, fun raised run => ?_⟩
  · obtain ⟨ledger, ledger', present, valued, rfl⟩ := onLedger_ok run
    exact revalued.trans (revalued_write present (ContractPnl.calcNetPnl_sameBooks valued)
      fun _ final => ContractPnl.calcNetPnl_final final valued)
  · rcases onLedger_error run with same | ⟨ledger, failed, present, raises, left⟩
    · rw [same]
      exact revalued
    · rw [left, ContractPnl.calcNetPnl_error raises]
      exact revalued.trans (revalued_write present (ContractPnl.SameBooks.refl ledger)
        fun _ final => final)

/-- The body of the inner loop of `calc`. -/
def valueSymbol (valuation : Valuation) (ts : Timestamp) (state : Account × ℚ) (symbol : String) :
    Except (Raised Exn Account) (Account × ℚ) := do
  let self ← state.1.onLedger symbol (ContractPnl.calcNetPnl valuation ts)
  .ok (self, state.2 + (self.symbolPnls.get? symbol).elim 0 fun ledger => ledger.netPnlAt ts)

theorem calcAt_eq (self : Account) (ts : Timestamp) :
    calcAt valuation self ts = (do
      let (self, netPnl) ← self.symbolPnls.keys.foldlM (valueSymbol valuation ts) (self, (0 : ℚ))
      .ok { self with pnl := self.pnl.set ts netPnl }) := rfl

section Keeping

variable {P : Account → Prop}

/-- What valuing a ledger and writing the cache keep, an iteration of `calc` keeps. -/
theorem calcAt_keeps {ts : Timestamp}
    (valuing : ∀ symbol, Keeps P (onLedger symbol (ContractPnl.calcNetPnl valuation ts)))
    (caching : ∀ (self : Account) (pnl : SortedDict Timestamp ℚ), P self → P { self with pnl }) :
    Keeps P fun self => calcAt valuation self ts := by
  intro self holds
  have loop : KeepsOn Prod.fst P fun state : Account × ℚ =>
      self.symbolPnls.keys.foldlM (valueSymbol valuation ts) state := by
    refine KeepsOn.foldlM fun symbol _ => ?_
    intro state holds
    have valued := valuing symbol state.1 holds
    refine ⟨fun state' run => ?_, fun raised run => ?_⟩
    · obtain ⟨middle, calculated, run⟩ := bind_ok.mp run
      cases run
      exact valued.1 middle calculated
    · rcases bind_error.mp run with failed | ⟨middle, _, run⟩
      · exact valued.2 raised failed
      · cases run
  dsimp only
  rw [calcAt_eq]
  refine ⟨fun self' run => ?_, fun raised run => ?_⟩
  · obtain ⟨⟨middle, netPnl⟩, looped, run⟩ := bind_ok.mp run
    cases run
    exact caching middle _ ((loop (self, 0) holds).1 _ looped)
  · rcases bind_error.mp run with failed | ⟨⟨middle, netPnl⟩, _, run⟩
    · exact (loop (self, 0) holds).2 raised failed
    · cases run

theorem calcPnl_keeps {priceFunction : PriceFunction}
    (valuing : ∀ symbol ts,
      Keeps P (onLedger symbol (ContractPnl.calcNetPnl (setup.valuation priceFunction) ts)))
    (caching : ∀ (self : Account) (pnl : SortedDict Timestamp ℚ), P self → P { self with pnl })
    (timestamp : Timestamp) : Keeps P (calcPnl setup priceFunction timestamp) := by
  intro self holds
  have loop : Keeps P fun now => (self.intermediateCalcTimestamps setup timestamp).foldlM
      (calcAt (setup.valuation priceFunction)) now :=
    Keeps.foldlM fun ts _ => calcAt_keeps (fun symbol => valuing symbol ts) caching
  unfold calcPnl
  refine ⟨fun self' run => ?_, fun raised run => ?_⟩
  · obtain ⟨_, _, run⟩ := bind_ok.mp run
    dsimp only at run
    split at run
    · cases run
      exact holds
    · exact (loop self holds).1 self' run
  · rcases bind_error.mp run with failed | ⟨_, _, run⟩
    · obtain ⟨_, _, rfl⟩ := raiseIn_error.mp failed
      exact holds
    · dsimp only at run
      split at run
      · cases run
      · exact (loop self holds).2 raised run

/-- `equity` leaves behind what its `calc` leaves behind. -/
theorem equity_keeps {priceFunction : PriceFunction} {timestamp : Timestamp} {before : Account}
    (holds : P before) (calculating : Keeps P (calcPnl setup priceFunction timestamp)) :
    (∀ after value, before.equity setup priceFunction timestamp = .ok (after, value) → P after) ∧
      ∀ raised, before.equity setup priceFunction timestamp = .error raised → P raised.state := by
  have calculated := calculating before holds
  unfold equity
  split
  · refine ⟨fun after value run => ?_, fun raised run => ?_⟩
    · cases run
      exact holds
    · cases run
  · refine ⟨fun after value run => ?_, fun raised run => ?_⟩
    · obtain ⟨middle, calculates, run⟩ := bind_ok.mp run
      split at run
      · cases run
        exact calculated.1 _ calculates
      · cases run
    · rcases bind_error.mp run with failed | ⟨middle, calculates, run⟩
      · exact calculated.2 raised failed
      · split at run
        · cases run
        · cases run
          exact calculated.1 _ calculates

/-- `position` only looks the group up. -/
theorem position_keeps {group : String} {timestamp : Timestamp} {before : Account}
    (holds : P before) (touching : ∀ group, P { before with
      symbolPnlsByContractGroup := before.symbolPnlsByContractGroup.touch group }) :
    (∀ after value, before.position setup group timestamp = .ok (after, value) → P after) ∧
      ∀ raised, before.position setup group timestamp = .error raised → P raised.state := by
  unfold position
  refine ⟨fun after value run => ?_, fun raised run => ?_⟩
  · obtain ⟨_, _, run⟩ := bind_ok.mp run
    cases run
    exact touching group
  · rcases bind_error.mp run with failed | ⟨_, _, run⟩
    · obtain ⟨_, _, rfl⟩ := raiseIn_error.mp failed
      exact holds
    · cases run

end Keeping

theorem Revalued.cache {before after : Account} (revalued : Revalued before after)
    (pnl : SortedDict Timestamp ℚ) : Revalued before { after with pnl } :=
  ⟨revalued.contracts, revalued.trades, revalued.tradesForDate, revalued.groups, revalued.keys,
    revalued.ledgers, revalued.finals⟩

theorem Revalued.touch (account : Account) (group : String) : Revalued account { account with
    symbolPnlsByContractGroup := account.symbolPnlsByContractGroup.touch group } :=
  ⟨rfl, rfl, rfl, fun _ => OrderedDict.listAt_touch .., rfl, (Revalued.refl account).ledgers,
    (Revalued.refl account).finals⟩

theorem calcAt_revalued (before : Account) (ts : Timestamp) :
    Keeps (Revalued before) fun self => calcAt valuation self ts :=
  calcAt_keeps (fun symbol => onLedger_calcNetPnl_revalued before symbol ts)
    fun _ pnl revalued => revalued.cache pnl

/-- What a ledger index reads as net P&L. -/
def netPnlOf (self : Account) (ts : Timestamp) (symbol : String) : ℚ :=
  (self.symbolPnls.get? symbol).elim 0 fun ledger => ledger.netPnlAt ts

theorem valueSymbols_ok {ts : Timestamp} {symbols : List String} (distinct : symbols.Nodup) :
    ∀ {state state' : Account × ℚ}, symbols.foldlM (valueSymbol valuation ts) state = .ok state' →
      (∀ symbol ∈ symbols, ∃ ledger ledger', state.1.symbolPnls.get? symbol = some ledger ∧
        ContractPnl.calcNetPnl valuation ts ledger = .ok ledger' ∧
        state'.1.symbolPnls.get? symbol = some ledger') ∧
      (∀ symbol, symbol ∉ symbols →
        state'.1.symbolPnls.get? symbol = state.1.symbolPnls.get? symbol) ∧
      state'.1.pnl = state.1.pnl ∧
      state'.2 = state.2 + (symbols.map (state'.1.netPnlOf ts)).sum := by
  induction symbols with
  | nil =>
      intro state state' run
      cases run
      exact ⟨fun _ none => (by cases none), fun _ _ => rfl, rfl, by simp⟩
  | cons symbol symbols ih =>
      intro state state' run
      obtain ⟨fresh, distinctRest⟩ := List.nodup_cons.mp distinct
      rw [List.foldlM_cons] at run
      obtain ⟨middle, step, rest⟩ := bind_ok.mp run
      obtain ⟨self, calculated, step⟩ := bind_ok.mp step
      cases step
      obtain ⟨ledger, ledger', present, valued, rfl⟩ := onLedger_ok calculated
      obtain ⟨each, untouched, samePnl, total⟩ := ih distinctRest rest
      have final : state'.1.symbolPnls.get? symbol = some ledger' := by
        rw [untouched symbol fresh]
        exact OrderedDict.get?_set_self ..
      refine ⟨fun other member => ?_, fun other outside => ?_, samePnl, ?_⟩
      · rcases List.mem_cons.mp member with rfl | later
        · exact ⟨ledger, ledger', present, valued, final⟩
        · obtain ⟨old, new, found, run', stored⟩ := each other later
          have differs : other ≠ symbol := fun e => fresh (e ▸ later)
          dsimp only at found
          rw [OrderedDict.get?_set, if_neg differs] at found
          exact ⟨old, new, found, run', stored⟩
      · rw [List.mem_cons, not_or] at outside
        rw [untouched other outside.2]
        dsimp only
        rw [OrderedDict.get?_set, if_neg outside.1]
      · rw [total, List.map_cons, List.sum_cons, ← add_assoc, netPnlOf, final]
        dsimp only
        rw [OrderedDict.get?_set_self]

theorem calcAt_ok {before after : Account} {ts : Timestamp}
    (run : calcAt valuation before ts = .ok after) :
    (∀ symbol ledger, before.symbolPnls.get? symbol = some ledger →
      ∃ ledger', ContractPnl.calcNetPnl valuation ts ledger = .ok ledger' ∧
        after.symbolPnls.get? symbol = some ledger') ∧
      after.pnl = before.pnl.set ts ((after.symbolPnls.keys.map (after.netPnlOf ts)).sum) := by
  have revalued := (calcAt_revalued before ts before
    (Revalued.refl before)).1 after run
  rw [calcAt_eq] at run
  obtain ⟨⟨middle, netPnl⟩, looped, run⟩ := bind_ok.mp run
  cases run
  obtain ⟨each, _, samePnl, total⟩ := valueSymbols_ok before.symbolPnls.distinct looped
  refine ⟨fun symbol ledger stored => ?_, ?_⟩
  · obtain ⟨old, new, found, valued, final⟩ := each symbol (OrderedDict.mem_keys_of_get? stored)
    rw [stored] at found
    cases found
    exact ⟨new, valued, final⟩
  · rw [revalued.keys]
    dsimp only at total samePnl ⊢
    rw [samePnl, total, zero_add]
    rfl

/-- `calc` does not raise at a timestamp where no ledger's contract does. -/
theorem calcAt_total {ts : Timestamp} {before self : Account} (revalued : Revalued before self)
    (valued : ∀ symbol ledger, before.symbolPnls.get? symbol = some ledger →
      ∀ now : ContractPnl, now.contract = ledger.contract →
        ∃ now', ContractPnl.calcNetPnl valuation ts now = .ok now') :
    ∃ after, calcAt valuation self ts = .ok after ∧ Revalued before after := by
  have loop := foldlM_total (P := fun state : Account × ℚ => Revalued before state.1)
    (f := valueSymbol valuation ts)
    (fun symbol (member : symbol ∈ self.symbolPnls.keys) state holds => by
      rw [revalued.keys, ← holds.keys, ← OrderedDict.contains_iff] at member
      obtain ⟨now, stored⟩ := Option.isSome_iff_exists.mp member
      obtain ⟨ledger, found, same⟩ := holds.ledgers symbol now stored
      obtain ⟨now', run⟩ := valued symbol ledger found now same.contract
      refine ⟨({ state.1 with symbolPnls := state.1.symbolPnls.set symbol now' },
        state.2 + now'.netPnlAt ts), ?_, ?_⟩
      · simp only [valueSymbol, onLedger, stored, run, bind, Except.bind,
          OrderedDict.get?_set_self, Option.elim_some]
      · exact holds.trans (revalued_write stored (ContractPnl.calcNetPnl_sameBooks run)
          fun _ final => ContractPnl.calcNetPnl_final final run))
    (self, 0) revalued
  obtain ⟨state, looped, _⟩ := loop
  have run : calcAt valuation self ts =
      .ok { state.1 with pnl := state.1.pnl.set ts state.2 } := by
    rw [calcAt_eq, looped]
    rfl
  exact ⟨_, run, (calcAt_revalued before ts self revalued).1 _ run⟩

theorem calcPnl_revalued (before : Account) (priceFunction : PriceFunction) (timestamp : Timestamp) :
    Keeps (Revalued before) (calcPnl setup priceFunction timestamp) :=
  calcPnl_keeps (fun symbol ts => onLedger_calcNetPnl_revalued before symbol ts)
    (fun _ pnl revalued => revalued.cache pnl) timestamp

theorem equity_revalued {priceFunction : PriceFunction} {timestamp : Timestamp} {before : Account} :
    (∀ after value, before.equity setup priceFunction timestamp = .ok (after, value) →
        Revalued before after) ∧
      ∀ raised, before.equity setup priceFunction timestamp = .error raised →
        Revalued before raised.state :=
  equity_keeps (Revalued.refl before) (calcPnl_revalued before priceFunction timestamp)

theorem position_revalued {group : String} {timestamp : Timestamp} {before : Account} :
    (∀ after value, before.position setup group timestamp = .ok (after, value) →
        Revalued before after) ∧
      ∀ raised, before.position setup group timestamp = .error raised →
        Revalued before raised.state :=
  position_keeps (Revalued.refl before) (Revalued.touch before)

theorem Revalued.indexed {before after : Account} (revalued : Revalued before after)
    (indexed : Indexed setup before) : Indexed setup after where
  registered := by
    rw [revalued.contracts]
    exact indexed.registered
  contracts := by
    rw [revalued.contracts, indexed.contracts]
    apply OrderedDict.ext_get?
    · rw [OrderedDict.keys_mapItems, OrderedDict.keys_mapItems, revalued.keys]
    · intro symbol
      rw [OrderedDict.get?_mapItems, OrderedDict.get?_mapItems]
      cases stored : after.symbolPnls.get? symbol with
      | none =>
          rw [OrderedDict.get?_eq_none_iff, revalued.keys, ← OrderedDict.get?_eq_none_iff] at stored
          rw [stored]
      | some ledger' =>
          obtain ⟨ledger, found, same⟩ := revalued.ledgers symbol ledger' stored
          rw [found, Option.map_some, Option.map_some, same.contract]
  groups := fun group => by rw [revalued.groups, revalued.contracts, indexed.groups]

end Account

end Gambit
