import Mathlib
import Gambit.Accounting.Account
import Gambit.Accounting.LedgerSteps

/-!
# A refused batch leaves no trace

Whatever the update did before it raised, every ledger the account had is
still there for its contract, and the ledgers of other contracts were not
touched.  That is all the restore needs.
-/

set_option autoImplicit false

namespace Gambit.Account

open Raising

variable {setup : AccountSetup} {priceFunction : PriceFunction} {valuation : Valuation}
variable {symbols : List String} {before self : Account}

/-- The ledgers of `before` are in `self`, those outside the batch unchanged. -/
def Restorable (symbols : List String) (before self : Account) : Prop :=
  ∀ symbol ledger, before.symbolPnls.get? symbol = some ledger →
    ∃ now, self.symbolPnls.get? symbol = some now ∧ now.contract = ledger.contract ∧
      (symbol ∉ symbols → now = ledger)

theorem restorable_refl (symbols : List String) (before : Account) :
    Restorable symbols before before :=
  fun _ ledger stored => ⟨ledger, stored, rfl, fun _ => rfl⟩

theorem addContract_restorable (contract : Contract) :
    Keeps (Restorable symbols before) (addContract contract) := by
  intro self restorable
  unfold addContract
  split
  · refine ⟨fun self' run => ?_, fun raised run => ?_⟩
    · cases run
    · cases run
      exact restorable
  · rename_i absent
    refine ⟨fun self' run => ?_, fun raised run => ?_⟩
    · cases run
      intro symbol ledger stored
      obtain ⟨now, found, same⟩ := restorable symbol ledger stored
      have differs : symbol ≠ contract.symbol := by
        rintro rfl
        exact absent (by rw [OrderedDict.contains, found]; rfl)
      exact ⟨now, by rw [OrderedDict.get?_set, if_neg differs, found], same⟩
    · cases run

theorem onLedger_restorable {symbol : String} {method : Step Exn ContractPnl}
    (inBatch : symbol ∈ symbols)
    (keeps : ∀ contract, Keeps (fun ledger => ledger.contract = contract) method) :
    Keeps (Restorable symbols before) (onLedger symbol method) := by
  intro self restorable
  have write : ∀ ledger ledger' : ContractPnl, self.symbolPnls.get? symbol = some ledger →
      ledger'.contract = ledger.contract →
      Restorable symbols before
        { self with symbolPnls := self.symbolPnls.set symbol ledger' } := by
    intro ledger ledger' present sameContract other old stored
    obtain ⟨now, found, same, untouched⟩ := restorable other old stored
    by_cases at_symbol : other = symbol
    · subst at_symbol
      rw [present] at found
      cases found
      exact ⟨ledger', OrderedDict.get?_set_self .., sameContract.trans same,
        fun outside => absurd inBatch outside⟩
    · exact ⟨now, by rw [OrderedDict.get?_set, if_neg at_symbol, found], same, untouched⟩
  unfold onLedger
  split
  · refine ⟨fun self' run => ?_, fun raised run => ?_⟩
    · cases run
    · cases run
      exact restorable
  · rename_i ledger present
    have kept := keeps ledger.contract ledger rfl
    split
    · rename_i ledger' returned
      refine ⟨fun self' run => ?_, fun raised run => ?_⟩
      · cases run
        exact write ledger ledger' present (kept.1 ledger' returned)
      · cases run
    · rename_i failed raises
      refine ⟨fun self' run => ?_, fun raised run => ?_⟩
      · cases run
      · cases run
        exact write ledger failed.state present (kept.2 failed raises)

theorem updateTrades_restorable {trades : List BookedTrade}
    {tradesByContract : OrderedDict String (List BookedTrade)} :
    Keeps (Restorable tradesByContract.keys before)
      (updateTrades valuation trades tradesByContract) := by
  unfold updateTrades
  refine Keeps.bind (Keeps.foldlM fun trade _ => ?_)
    (Keeps.bind (Keeps.foldlM fun item member => ?_) ?_)
  · intro self restorable
    dsimp only
    split
    · refine ⟨fun self' run => ?_, fun raised run => ?_⟩
      · cases run
        exact restorable
      · cases run
    · exact addContract_restorable trade.contract self restorable
  · exact onLedger_restorable (List.mem_map.mpr ⟨item, member, rfl⟩) fun contract =>
      ContractPnl.addTrades_keeps_contract contract item.2
  · intro self restorable
    cases trades with
    | nil =>
        refine ⟨fun self' run => ?_, fun raised run => ?_⟩
        · cases run
          exact restorable
        · cases run
    | cons first rest =>
        refine ⟨fun self' run => ?_, fun raised run => ?_⟩
        · cases run
          exact restorable
        · cases run

/-- The snapshot covers all that a restorable state may have changed. -/
theorem restoreTradeState_snapshot (restorable : Restorable symbols before self) :
    self.restoreTradeState (before.snapshotTradeState symbols) = before := by
  have objects : ∀ symbol ledger, before.symbolPnls.get? symbol = some ledger →
      (self.symbolPnls.mapItems fun symbol ledger =>
        ((before.snapshotTradeState symbols).contractStates.get? symbol).elim ledger
          ledger.restoreState).get? symbol = some ledger := by
    intro symbol ledger stored
    obtain ⟨now, found, same, untouched⟩ := restorable symbol ledger stored
    rw [OrderedDict.get?_mapItems, found]
    simp only [snapshotTradeState, OrderedDict.get?_filterMapItems, stored, Option.bind_some,
      Option.map_some, Option.some.injEq]
    by_cases inBatch : symbol ∈ symbols
    · rw [if_pos inBatch]
      exact ContractPnl.restoreState_snapshotState same
    · rw [if_neg inBatch]
      exact untouched inBatch
  have symbolPnls : (self.restoreTradeState (before.snapshotTradeState symbols)).symbolPnls =
      before.symbolPnls := by
    apply OrderedDict.ext_get?
    · refine (OrderedDict.keys_filterMapItems fun item member => ?_).trans
        (OrderedDict.keys_mapItems _ _)
      obtain ⟨source, sourceMember, rfl⟩ := List.mem_map.mp member
      have stored := (OrderedDict.get?_eq_some_iff before.symbolPnls source.1 source.2).mpr sourceMember
      exact Option.isSome_iff_exists.mpr ⟨_, objects _ _ stored⟩
    · intro symbol
      refine (OrderedDict.get?_filterMapItems _ _ symbol).trans ?_
      rw [snapshotTradeState, OrderedDict.get?_mapItems]
      cases stored : before.symbolPnls.get? symbol with
      | none => rfl
      | some ledger => exact objects symbol ledger stored
  cases before
  simp only [restoreTradeState, snapshotTradeState, Account.mk.injEq, true_and]
  exact symbolPnls

theorem addTrades_error {orders : OrderId → Order} {trades : List Trade}
    {raised : Raised Exn Account}
    (refused : before.addTrades setup priceFunction orders trades = .error raised) :
    raised.state = before := by
  rcases bind_error.mp refused with failed | ⟨booked, _, refused⟩
  · obtain ⟨_, _, rfl⟩ := raiseIn_error.mp failed
    rfl
  · rcases bind_error.mp refused with failed | ⟨_, _, refused⟩
    · obtain ⟨_, _, rfl⟩ := raiseIn_error.mp failed
      rfl
    · dsimp only at refused
      split at refused
      · cases refused
      · rename_i partial_ raises
        cases refused
        exact restoreTradeState_snapshot
          ((updateTrades_restorable before (restorable_refl _ before)).2 partial_ raises)

/-- A batch that raises, wherever it raises, leaves the account it was given,
and from then on nothing tells that the call was made. -/
theorem addTrades_all_or_nothing (setup : AccountSetup) (priceFunction : PriceFunction)
    (history later : List AccountCall) (orders : OrderId → Order) (trades : List Trade)
    (raised : Raised Exn Account)
    (refused : (Session.new.run setup priceFunction history).account.addTrades setup priceFunction
      orders trades = .error raised) :
    raised.state = (Session.new.run setup priceFunction history).account ∧
      let withCall := Session.new.run setup priceFunction
        (history ++ .addTrades orders trades :: later)
      let without := Session.new.run setup priceFunction (history ++ later)
      withCall.account = without.account ∧ withCall.accepted = without.accepted ∧
        ∀ group timestamp,
          withCall.account.position setup group timestamp =
            without.account.position setup group timestamp ∧
          withCall.account.positions setup group timestamp =
            without.account.positions setup group timestamp ∧
          withCall.account.equity setup priceFunction timestamp =
            without.account.equity setup priceFunction timestamp := by
  have same := addTrades_error refused
  have skipped : (Session.new.run setup priceFunction history).call setup priceFunction
      (.addTrades orders trades) = Session.new.run setup priceFunction history := by
    simp only [Session.call, refused, same]
  have sessions : Session.new.run setup priceFunction (history ++ .addTrades orders trades :: later) =
      Session.new.run setup priceFunction (history ++ later) := by
    simp only [Session.run, List.foldl_append, List.foldl_cons] at skipped ⊢
    rw [skipped]
  refine ⟨same, ?_⟩
  dsimp only
  rw [sessions]
  exact ⟨rfl, rfl, fun _ _ => ⟨rfl, rfl, rfl⟩⟩

def exception {α σ : Type} : Except (Raised Exn σ) α → Option Exn
  | .ok _ => none
  | .error raised => some raised.error

/-- The stock is booked and valued before the price of the future raises. -/
theorem addTrades_all_or_nothing_second_contract :
    let price : PriceFunction := fun contract _ =>
      if contract = sampleStock then .ok (.real 11) else .error (.raised "KeyError" false)
    let account := (Session.new.run sampleSetup price
      [.addTrades sampleOrders [sampleTrade 0 0 10 10], .equity (sampleTime 1)]).account
    ∃ raised : Raised Exn Account,
      account.addTrades sampleSetup price sampleOrders
        [sampleTrade 0 1 5 12, sampleTrade 1 1 5 100] = .error raised ∧
      raised.error = .raised "KeyError" false ∧ raised.state = account := by
  intro price account
  have outcome : exception (account.addTrades sampleSetup price sampleOrders
      [sampleTrade 0 1 5 12, sampleTrade 1 1 5 100]) = some (.raised "KeyError" false) := by
    decide +kernel
  cases refused : account.addTrades sampleSetup price sampleOrders
      [sampleTrade 0 1 5 12, sampleTrade 1 1 5 100] with
  | ok _ =>
      rw [refused] at outcome
      cases outcome
  | error raised =>
      rw [refused] at outcome
      exact ⟨raised, rfl, Option.some.inj outcome,
        (addTrades_all_or_nothing sampleSetup price
          [.addTrades sampleOrders [sampleTrade 0 0 10 10], .equity (sampleTime 1)] []
          sampleOrders _ raised refused).1⟩

end Gambit.Account
