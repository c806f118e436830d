import Gambit.Accounting.Reconciliation

/-!
# Invariants of single ledgers over runs

What valuing and booking keep of a ledger and its trades holds of every ledger
of every account that calls reach, whatever the price function does.
-/

set_option autoImplicit false

namespace Gambit

open KeyedLists Raising

/-- A property of a ledger and its trades that valuing and booking keep. -/
structure LedgerInvariant (valuation : Valuation) (Q : ContractPnl → List BookedTrade → Prop) :
    Prop where
  new : ∀ contract, Q (ContractPnl.new contract) []
  valued : ∀ (ledger ledger' : ContractPnl) (trades : List BookedTrade) (timestamp : Timestamp),
    Books ledger trades → Q ledger trades →
    ContractPnl.calcNetPnl valuation timestamp ledger = .ok ledger' → Q ledger' trades
  booked : ∀ (ledger ledger' : ContractPnl) (trades batch : List BookedTrade),
    Books ledger trades → Q ledger trades → Chronological BookedTrade.timestamp batch →
    batch ≠ [] → ledger.addTrades valuation batch = .ok ledger' → Q ledger' (trades ++ batch)

/-- The property holds of each ledger of an account. -/
def Account.Each (Q : ContractPnl → List BookedTrade → Prop) (account : Account) : Prop :=
  ∀ symbol ledger, account.symbolPnls.get? symbol = some ledger →
    Q ledger (tradesOf account.trades symbol)

namespace LedgerInvariant

variable {setup : AccountSetup} {priceFunction : PriceFunction} {valuation : Valuation}
variable {Q : ContractPnl → List BookedTrade → Prop}

theorem onLedger (invariant : LedgerInvariant valuation Q) (symbol : String) (ts : Timestamp) :
    Keeps (fun self => Reconciled setup self ∧ Account.Each Q self)
      (Account.onLedger symbol (ContractPnl.calcNetPnl valuation ts)) := by
  rintro self ⟨reconciled, each⟩
  have revalues := @Account.onLedger_calcNetPnl_revalued valuation self symbol ts self
    (Account.Revalued.refl self)
  refine ⟨fun self' run => ?_, fun raised run => ?_⟩
  · refine ⟨reconciled.revalue (revalues.1 self' run), fun other ledger' stored => ?_⟩
    obtain ⟨ledger, valued, present, calculated, rfl⟩ := Account.onLedger_ok run
    dsimp only at stored ⊢
    rw [OrderedDict.get?_set] at stored
    split at stored
    · rename_i same
      cases stored
      rw [same]
      exact invariant.valued ledger ledger' _ ts (reconciled.books symbol ledger present)
        (each symbol ledger present) calculated
    · exact each other ledger' stored
  · refine ⟨reconciled.revalue (revalues.2 raised run), fun other ledger' stored => ?_⟩
    rcases Account.onLedger_error run with same | ⟨ledger, failed, present, raises, left⟩
    · rw [same] at stored ⊢
      exact each other ledger' stored
    · rw [left, ContractPnl.calcNetPnl_error raises] at stored ⊢
      dsimp only at stored ⊢
      rw [OrderedDict.get?_set] at stored
      split at stored
      · rename_i same
        cases stored
        exact each other ledger' (same ▸ present)
      · exact each other ledger' stored

theorem update (invariant : LedgerInvariant valuation Q) {before after : Account}
    {batch : List BookedTrade} (reconciled : Reconciled setup before)
    (bookable : Bookable setup batch) (updated : Account.Updated valuation batch before after)
    (each : Account.Each Q before) : Account.Each Q after := by
  intro symbol ledger' stored
  by_cases inBatch : symbol ∈ batch.map fun trade => trade.contract.symbol
  · obtain ⟨trade, booked, rfl⟩ := List.mem_map.mp inBatch
    obtain ⟨ledger'', stored', run⟩ := updated.updated trade booked
    rw [stored] at stored'
    cases stored'
    rw [updated.trades, tradesOf_append]
    refine invariant.booked _ ledger' _ _ (reconciled.start trade.contract) ?_
      (bookable.chronological.filter _)
      (List.ne_nil_of_mem (List.mem_filter.mpr ⟨booked, by simp⟩)) run
    cases found : before.symbolPnls.get? trade.contract.symbol with
    | none =>
        rw [reconciled.no_trades found]
        exact invariant.new trade.contract
    | some ledger => exact each _ ledger found
  · rw [updated.trades, tradesOf_append, tradesOf_eq_nil_iff.mpr inBatch, List.append_nil]
    rw [updated.untouched symbol inBatch] at stored
    exact each symbol ledger' stored

theorem call (invariant : LedgerInvariant (setup.valuation priceFunction) Q) (session : Session)
    (operation : AccountCall) (reconciled : Reconciled setup session.account)
    (each : Account.Each Q session.account) :
    Reconciled setup (session.call setup priceFunction operation).account ∧
      Account.Each Q (session.call setup priceFunction operation).account := by
  have holds : Reconciled setup session.account ∧ Account.Each Q session.account :=
    ⟨reconciled, each⟩
  have calculating : ∀ timestamp,
      Keeps (fun self => Reconciled setup self ∧ Account.Each Q self)
        (Account.calcPnl setup priceFunction timestamp) :=
    Account.calcPnl_keeps (fun symbol ts => invariant.onLedger symbol ts)
      fun self pnl holds => ⟨holds.1.revalue ((Account.Revalued.refl self).cache pnl), holds.2⟩
  cases operation with
  | addTrades orders trades =>
      simp only [Session.call]
      cases result : session.account.addTrades setup priceFunction orders trades with
      | ok after =>
          obtain ⟨batch, accepted, bookable, indexed, updated⟩ :=
            Account.addTrades_ok reconciled.indexed result
          simp only [accepted]
          exact ⟨reconciled.update bookable indexed updated,
            invariant.update reconciled bookable updated each⟩
      | error raised =>
          simp only [Account.addTrades_error result]
          exact holds
  | calcPnl timestamp =>
      simp only [Session.call]
      cases result : session.account.calcPnl setup priceFunction timestamp with
      | ok after => exact (calculating timestamp _ holds).1 after result
      | error raised => exact (calculating timestamp _ holds).2 raised result
  | equity timestamp =>
      have valued := Account.equity_keeps holds (calculating timestamp)
      simp only [Session.call]
      cases result : session.account.equity setup priceFunction timestamp with
      | ok after => exact valued.1 after.1 after.2 result
      | error raised => exact valued.2 raised result
  | position group timestamp =>
      have touching : ∀ group, Reconciled setup { session.account with
          symbolPnlsByContractGroup := session.account.symbolPnlsByContractGroup.touch group } ∧
          Account.Each Q { session.account with
            symbolPnlsByContractGroup := session.account.symbolPnlsByContractGroup.touch group } :=
        fun group => ⟨reconciled.revalue (Account.Revalued.touch session.account group), each⟩
      have read := @Account.position_keeps setup
        (fun self => Reconciled setup self ∧ Account.Each Q self) group timestamp session.account
        holds touching
      simp only [Session.call]
      cases result : session.account.position setup group timestamp with
      | ok after => exact read.1 after.1 after.2 result
      | error raised => exact read.2 raised result

/-- A ledger invariant holds in every account that calls reach. -/
theorem run (invariant : LedgerInvariant (setup.valuation priceFunction) Q)
    (calls : List AccountCall) :
    Account.Each Q (Session.new.run setup priceFunction calls).account :=
  (Session.run_induction
    (P := fun session => Reconciled setup session.account ∧ Account.Each Q session.account)
    (fun session operation holds => invariant.call session operation holds.1 holds.2) calls
    Session.new ⟨Reconciled.new setup, fun _ _ stored => (by cases stored)⟩).2

end LedgerInvariant

/-! ## Cached rows add up -/

section Ledgers

variable {valuation : Valuation} {ledger ledger' : ContractPnl} {trades : List BookedTrade}
variable {timestamp : Timestamp}

/-- The cached rows add up with the totals of the trades. -/
def Itemised (ledger : ContractPnl) (trades : List BookedTrade) : Prop :=
  ∀ item ∈ ledger.netPnl.items,
    let totals := ledgerRow ledger.contract.multiplier (tradesUpTo trades item.1)
    item.2.netPnl = totals.realized + item.2.unrealized - totals.commission - totals.fee

theorem itemised_new (contract : Contract) : Itemised (ContractPnl.new contract) [] :=
  fun _ member => (by cases member)

theorem Itemised.calcNetPnl (itemised : Itemised ledger trades) (books : Books ledger trades)
    (run : ContractPnl.calcNetPnl valuation timestamp ledger = .ok ledger') :
    Itemised ledger' trades := by
  rcases ContractPnl.calcNetPnl_ok run with ⟨_, rfl⟩ | ⟨_, _, price, unrealized, rfl⟩
  · exact itemised
  · intro item member
    rcases (SortedDict.mem_set_iff _ _ _ _).mp member with rfl | ⟨_, old⟩
    · simp only [books.totalsAt, ContractPnl.record_contract]
    · exact itemised item old

theorem Itemised.addTrades (itemised : Itemised ledger trades) (books : Books ledger trades)
    {batch : List BookedTrade} (sorted : Chronological BookedTrade.timestamp batch)
    (nonempty : batch ≠ []) (run : ledger.addTrades valuation batch = .ok ledger') :
    Itemised ledger' (trades ++ batch) := by
  have kept : KeptByBooking valuation (fun _ => True) Itemised := by
    intro ledger ledger' trades chunk t _ _ itemised middleBooks _ ends _ same calculated
    have middle : Itemised (ledger.withBooks (trades ++ chunk) t) (trades ++ chunk) := by
      intro item member
      have later : ∀ trade ∈ chunk, item.1 < trade.timestamp := fun trade new => by
        rw [same trade new]
        exact ends item member
      rw [tradesUpTo_append, tradesUpTo_of_lt later, List.append_nil]
      exact itemised item member
    exact middle.calcNetPnl middleBooks calculated
  refine (books.addTrades kept sorted (fun _ _ => trivial) (fun first _ _ => ?_) nonempty run).2
  exact fun item member => itemised item ((SortedDict.mem_dropFrom_iff _ _ _).mp member).1

theorem itemised_invariant (valuation : Valuation) : LedgerInvariant valuation Itemised where
  new := itemised_new
  valued := fun _ _ _ _ books itemised run => itemised.calcNetPnl books run
  booked := fun _ _ _ _ books itemised sorted nonempty run =>
    itemised.addTrades books sorted nonempty run

end Ledgers

end Gambit
