import Gambit.Accounting.ContractPnl

/-!
# What a ledger step can do

Each method of the ledger is described once: what it returns, what a raise
leaves behind, and which fields it cannot change.
-/

set_option autoImplicit false

namespace Gambit.ContractPnl

open ComputePnl Raising

variable {valuation : Valuation} {self self' : ContractPnl} {timestamp : Timestamp}

/-- The last row of the trade ledger at or before a timestamp. -/
def totalsAt (self : ContractPnl) (timestamp : Timestamp) : LedgerEntry :=
  (itemBefore self.tradePnl timestamp).elim LedgerEntry.zero Prod.snd

/-- The three early returns of `calc_net_pnl`. -/
def upToDate (self : ContractPnl) (timestamp : Timestamp) : Bool :=
  (self.netPnl.contains timestamp && !self.newTradesAdded) ||
    self.firstTradeTimestamp.all (timestamp < ·) ||
    (self.expired timestamp && self.finalPnl.isSome)

theorem calcNetPnl_eq : calcNetPnl valuation timestamp self =
    if self.upToDate timestamp then .ok self
    else (do
      let i ← raiseIn self (timestampIndex valuation.accountTimestamps timestamp)
      let totals := self.totalsAt timestamp
      if totals.openQty = 0 then .ok (self.record timestamp totals none 0)
      else
        let value ← raiseIn self (valuation.priceFunction self.contract i)
        match ← raiseIn self (validatePriceValue value) with
        | none => .ok (self.record timestamp totals none
            ((itemBefore self.netPnl timestamp).elim 0 fun item => item.2.unrealized))
        | some price => .ok (self.record timestamp totals (some price)
            (totals.openQty * (price - totals.weightedAvgPrice) * self.contract.multiplier))) := by
  unfold calcNetPnl upToDate
  by_cases cached : (self.netPnl.contains timestamp && !self.newTradesAdded) = true
  · simp only [cached, if_true, Bool.true_or]
  · by_cases early : self.firstTradeTimestamp.all (timestamp < ·) = true
    · simp only [cached, early, if_true, Bool.or_true, Bool.true_or]
      rfl
    · by_cases final : (self.expired timestamp && self.finalPnl.isSome) = true
      · simp only [cached, early, final, if_true, Bool.or_true]
        rfl
      · simp only [cached, early, final, Bool.or_self, Bool.false_eq_true, if_false]
        rfl

/-- A valuation leaves the ledger as it is or records one row. -/
theorem calcNetPnl_ok (run : calcNetPnl valuation timestamp self = .ok self') :
    (self.upToDate timestamp = true ∧ self' = self) ∨
      (self.upToDate timestamp = false ∧ timestamp ∈ valuation.accountTimestamps.timestamps ∧
        ∃ price unrealized,
          self' = self.record timestamp (self.totalsAt timestamp) price unrealized) := by
  rw [calcNetPnl_eq] at run
  split at run
  · rename_i skips
    exact Or.inl ⟨skips, (Except.ok.inj run).symm⟩
  · rename_i stale
    right
    obtain ⟨i, found, run⟩ := bind_ok.mp run
    refine ⟨by simpa using stale, timestampIndex_mem (raiseIn_ok.mp found), ?_⟩
    dsimp only at run
    split at run
    · exact ⟨_, _, (Except.ok.inj run).symm⟩
    · obtain ⟨value, _, run⟩ := bind_ok.mp run
      obtain ⟨price, _, run⟩ := bind_ok.mp run
      cases price with
      | none => exact ⟨_, _, (Except.ok.inj run).symm⟩
      | some price => exact ⟨_, _, (Except.ok.inj run).symm⟩

/-- A valuation that raises has written nothing. -/
theorem calcNetPnl_error {raised : Raised Exn ContractPnl}
    (run : calcNetPnl valuation timestamp self = .error raised) : raised.state = self := by
  rw [calcNetPnl_eq] at run
  split at run
  · cases run
  · rcases bind_error.mp run with failed | ⟨i, _, run⟩
    · obtain ⟨_, _, rfl⟩ := raiseIn_error.mp failed
      rfl
    · dsimp only at run
      split at run
      · cases run
      · rcases bind_error.mp run with failed | ⟨value, _, run⟩
        · obtain ⟨_, _, rfl⟩ := raiseIn_error.mp failed
          rfl
        · rcases bind_error.mp run with failed | ⟨price, _, run⟩
          · obtain ⟨_, _, rfl⟩ := raiseIn_error.mp failed
            rfl
          · cases price with
            | none => cases run
            | some price => cases run

/-- Where the price function returns a finite mark the valuation succeeds. -/
theorem calcNetPnl_marked {index : Nat} {mark : ℚ}
    (onGrid : valuation.accountTimestamps.timestamps[index]? = some timestamp)
    (marked : valuation.priceFunction self.contract index = .ok (.real mark)) :
    calcNetPnl valuation timestamp self =
      if self.upToDate timestamp then .ok self
      else
        let totals := self.totalsAt timestamp
        .ok (self.record timestamp totals (if totals.openQty = 0 then none else some mark)
          (totals.openQty * (mark - totals.weightedAvgPrice) * self.contract.multiplier)) := by
  rw [calcNetPnl_eq, timestampIndex_of_getElem? onGrid]
  split
  · rfl
  · simp only [raiseIn, bind, Except.bind, marked, validatePriceValue]
    split
    · rename_i flat
      simp [flat]
    · rfl

@[simp] theorem record_contract (totals : LedgerEntry) (price : Option ℚ) (unrealized : ℚ) :
    (self.record timestamp totals price unrealized).contract = self.contract := rfl

@[simp] theorem record_tradePnl (totals : LedgerEntry) (price : Option ℚ) (unrealized : ℚ) :
    (self.record timestamp totals price unrealized).tradePnl = self.tradePnl := rfl

@[simp] theorem record_openQtys (totals : LedgerEntry) (price : Option ℚ) (unrealized : ℚ) :
    (self.record timestamp totals price unrealized).openQtys = self.openQtys := rfl

@[simp] theorem record_openPrices (totals : LedgerEntry) (price : Option ℚ) (unrealized : ℚ) :
    (self.record timestamp totals price unrealized).openPrices = self.openPrices := rfl

@[simp] theorem record_firstTradeTimestamp (totals : LedgerEntry) (price : Option ℚ)
    (unrealized : ℚ) :
    (self.record timestamp totals price unrealized).firstTradeTimestamp =
      self.firstTradeTimestamp := rfl

/-- What a valuation cannot touch. -/
structure SameBooks (before after : ContractPnl) : Prop where
  contract : after.contract = before.contract
  tradePnl : after.tradePnl = before.tradePnl
  openQtys : after.openQtys = before.openQtys
  openPrices : after.openPrices = before.openPrices
  firstTradeTimestamp : after.firstTradeTimestamp = before.firstTradeTimestamp

theorem SameBooks.refl (ledger : ContractPnl) : SameBooks ledger ledger := ⟨rfl, rfl, rfl, rfl, rfl⟩

theorem calcNetPnl_sameBooks (run : calcNetPnl valuation timestamp self = .ok self') :
    SameBooks self self' := by
  rcases calcNetPnl_ok run with ⟨_, rfl⟩ | ⟨_, _, price, unrealized, rfl⟩
  · exact SameBooks.refl _
  · exact ⟨rfl, rfl, rfl, rfl, rfl⟩

/-- A final P&L, once there, stays. -/
theorem calcNetPnl_final {value : ℚ} (final : self.finalPnl = some value)
    (run : calcNetPnl valuation timestamp self = .ok self') : self'.finalPnl = some value := by
  rcases calcNetPnl_ok run with ⟨_, rfl⟩ | ⟨stale, _, price, unrealized, rfl⟩
  · exact final
  · unfold upToDate at stale
    rw [final, Option.isSome_some, Bool.and_true, Bool.or_eq_false_iff] at stale
    simp only [record, stale.2, Bool.false_eq_true, if_false]
    exact final

/-! ## The contract of a ledger is fixed -/

theorem calcNetPnl_keeps_contract (contract : Contract) :
    Keeps (fun ledger => ledger.contract = contract) (calcNetPnl valuation timestamp) := by
  intro ledger same
  refine ⟨fun ledger' run => ?_, fun raised run => ?_⟩
  · exact (calcNetPnl_sameBooks run).contract.trans same
  · rw [calcNetPnl_error run]
    exact same

theorem addTradesAt_keeps_contract (contract : Contract) (trades : List BookedTrade) :
    Keeps (fun ledger => ledger.contract = contract)
      fun ledger => addTradesAt valuation trades ledger timestamp := by
  intro ledger same
  refine ⟨fun ledger' run => ?_, fun raised run => ?_⟩
  · obtain ⟨pnl, _, run⟩ := bind_ok.mp run
    exact (calcNetPnl_keeps_contract contract _ (by exact same)).1 ledger' run
  · rcases bind_error.mp run with failed | ⟨pnl, _, run⟩
    · obtain ⟨_, _, rfl⟩ := raiseIn_error.mp failed
      exact same
    · exact (calcNetPnl_keeps_contract contract _ (by exact same)).2 raised run

theorem addTrades_keeps_contract (contract : Contract) (trades : List BookedTrade) :
    Keeps (fun ledger => ledger.contract = contract) (addTrades valuation trades) := by
  intro ledger same
  unfold addTrades
  split
  · refine ⟨fun ledger' run => ?_, fun raised run => ?_⟩
    · cases run
      exact same
    · cases run
  · rename_i first later _
    have loop : Keeps (fun ledger => ledger.contract = contract) fun ledger =>
        (first :: later).foldlM (addTradesAt valuation trades) ledger :=
      Keeps.foldlM fun _ _ => addTradesAt_keeps_contract contract trades
    refine ⟨fun ledger' run => ?_, fun raised run => ?_⟩
    · obtain ⟨_, _, run⟩ := bind_ok.mp run
      exact (loop _ (by exact same)).1 ledger' run
    · rcases bind_error.mp run with failed | ⟨_, _, run⟩
      · obtain ⟨_, _, rfl⟩ := raiseIn_error.mp failed
        exact same
      · exact (loop _ (by exact same)).2 raised run

theorem restoreState_snapshotState {self other : ContractPnl} (same : other.contract = self.contract) :
    other.restoreState self.snapshotState = self := by
  unfold restoreState snapshotState
  rw [same]

end Gambit.ContractPnl
