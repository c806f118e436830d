import Gambit.Accounting.Equity
import Gambit.Lib.SortedLists

/-!
# Daily P&L

`df_account_pnl` in account.py: one row for each calculation timestamp, read
from the ledgers as they are.  The calculation timestamps are, day by day, the
last timestamps that are not after the calculation time.
-/

set_option autoImplicit false

namespace Gambit

open SortedLists

/-- What `pnl` returns. -/
structure PnlReading where
  position : Int
  price : Option ℚ
  realized : ℚ
  unrealized : ℚ
  fee : ℚ
  commission : ℚ
  netPnl : ℚ
deriving DecidableEq

def ContractPnl.pnl (timestamp : Timestamp) (self : ContractPnl) : PnlReading :=
  let trade := (itemBefore self.tradePnl timestamp).elim LedgerEntry.zero Prod.snd
  let net := (itemBefore self.netPnl timestamp).elim ⟨some 0, 0, 0, 0⟩ Prod.snd
  ⟨trade.position, net.price, trade.realized, net.unrealized, trade.fee, trade.commission,
    net.netPnl⟩

/-- The summed columns of a row. -/
@[ext]
structure PnlTotals where
  position : Int
  unrealized : ℚ
  realized : ℚ
  commission : ℚ
  fee : ℚ
  netPnl : ℚ
deriving DecidableEq

namespace PnlTotals

instance : Zero PnlTotals := ⟨⟨0, 0, 0, 0, 0, 0⟩⟩

instance : Add PnlTotals := ⟨fun a b =>
  ⟨a.position + b.position, a.unrealized + b.unrealized, a.realized + b.realized,
    a.commission + b.commission, a.fee + b.fee, a.netPnl + b.netPnl⟩⟩

theorem add_def (a b : PnlTotals) : a + b =
    ⟨a.position + b.position, a.unrealized + b.unrealized, a.realized + b.realized,
      a.commission + b.commission, a.fee + b.fee, a.netPnl + b.netPnl⟩ := rfl

theorem zero_def : (0 : PnlTotals) = ⟨0, 0, 0, 0, 0, 0⟩ := rfl

instance : AddCommMonoid PnlTotals where
  add_assoc a b c := by simp [add_def, add_assoc]
  zero_add a := by simp [add_def, zero_def]
  add_zero a := by simp [add_def, zero_def]
  add_comm a b := by simp [add_def, add_comm]
  nsmul := nsmulRec

end PnlTotals

/-- The columns of a reading that are summed.  The price, which may be NaN, is
not one of them, and the others are finite. -/
def PnlReading.totals (self : PnlReading) : PnlTotals :=
  ⟨self.position, self.unrealized, self.realized, self.commission, self.fee, self.netPnl⟩

structure AccountPnlRow where
  timestamp : Timestamp
  totals : PnlTotals
  equity : ℚ
deriving DecidableEq

namespace Account

/-- The ledgers that `df_account_pnl` goes through. -/
def symbolPnlsOf (setup : AccountSetup) (group : Option String) (self : Account) :
    Except Exn (List ContractPnl) :=
  match group with
  | none => .ok self.symbolPnls.values
  | some group => do
      requireConfiguredGroup setup group
      .ok ((setup.registry.groupContracts group).filterMap fun contract =>
        self.symbolPnls.get? contract.symbol)

def pnlRow (setup : AccountSetup) (symbolPnls : List ContractPnl) (timestamp : Timestamp) :
    AccountPnlRow :=
  let totals := symbolPnls.foldl (fun totals symbolPnl =>
    totals + (symbolPnl.pnl timestamp).totals) 0
  ⟨timestamp, totals, setup.startingEquity + totals.netPnl⟩

/-- `df_account_pnl`.  The first row is a day before the first calculation. -/
def dfAccountPnl (setup : AccountSetup) (group : Option String) (self : Account) :
    Except Exn (List AccountPnlRow) := do
  let symbolPnls ← self.symbolPnlsOf setup group
  match setup.calcTimestamps with
  | [] => .ok []
  | first :: later =>
      .ok (⟨first - nanosPerDay, 0, setup.startingEquity + 0⟩ ::
        (first :: later).map (pnlRow setup symbolPnls))

end Account

/-! ## The calculation timestamps -/

/-- The instant of a date at which P&L is calculated. -/
def calcTime (pnlCalcTime : Nat) (date : Int) : Int :=
  date * nanosPerDay + pnlCalcTime * nanosPerMinute

variable {timestamps : List Timestamp} {pnlCalcTime : Nat}

theorem day_mono {a b : Timestamp} (le : a ≤ b) : day a ≤ day b :=
  Int.ediv_le_ediv (by decide) le

/-- Within a day, what is not after the calculation time. -/
theorem between_iff_of_within (within : pnlCalcTime < 24 * 60) (date ts : Int) :
    (date * nanosPerDay ≤ ts ∧ ts ≤ calcTime pnlCalcTime date) ↔
      (day ts = date ∧ ts ≤ calcTime pnlCalcTime date) := by
  refine and_congr_left fun le => ?_
  unfold calcTime nanosPerMinute nanosPerDay at le
  unfold day nanosPerDay
  omega

theorem dayStart_le_calcTime (pnlCalcTime : Nat) (date : Int) :
    date * nanosPerDay ≤ calcTime pnlCalcTime date := by
  unfold calcTime nanosPerMinute
  omega

theorem getCalcTimestamps_eq (sorted : timestamps.Pairwise (· ≤ ·)) (within : pnlCalcTime < 24 * 60) :
    getCalcTimestamps timestamps pnlCalcTime =
      (npUnique (timestamps.map day)).filterMap fun date => (timestamps.filter fun ts =>
        decide (day ts = date ∧ ts ≤ calcTime pnlCalcTime date)).getLast? := by
  unfold getCalcTimestamps
  dsimp only
  rw [List.zip_map', List.filterMap_map]
  refine List.filterMap_congr fun date _ => ?_
  have found := last_between sorted (dayStart_le_calcTime pnlCalcTime date)
  simp only [between_iff_of_within within] at found
  exact found

theorem mem_getCalcTimestamps (sorted : timestamps.Pairwise (· ≤ ·)) (within : pnlCalcTime < 24 * 60)
    {ts : Timestamp} :
    ts ∈ getCalcTimestamps timestamps pnlCalcTime ↔
      ts ∈ timestamps ∧ ts ≤ calcTime pnlCalcTime (day ts) ∧
        ∀ other ∈ timestamps, day other = day ts → other ≤ calcTime pnlCalcTime (day ts) →
          other ≤ ts := by
  rw [getCalcTimestamps_eq sorted within, List.mem_filterMap]
  have lastOf := fun (date : Int) (x : Timestamp) => getLast?_eq_some_iff_greatest
    (sorted.filter fun ts => decide (day ts = date ∧ ts ≤ calcTime pnlCalcTime date)) (x := x)
  simp only [lastOf, List.mem_filter, decide_eq_true_eq]
  constructor
  · rintro ⟨date, _, ⟨member, rfl, le⟩, greatest⟩
    exact ⟨member, le, fun other listed sameDay early => greatest other ⟨listed, sameDay, early⟩⟩
  · rintro ⟨member, le, greatest⟩
    exact ⟨day ts, mem_npUnique.mpr (List.mem_map_of_mem member), ⟨member, rfl, le⟩,
      fun other listed => greatest other listed.1 listed.2.1 listed.2.2⟩

theorem getCalcTimestamps_increasing (sorted : timestamps.Pairwise (· ≤ ·))
    (within : pnlCalcTime < 24 * 60) :
    (getCalcTimestamps timestamps pnlCalcTime).Pairwise (· < ·) := by
  rw [getCalcTimestamps_eq sorted within]
  have dated : ∀ date ts, (timestamps.filter fun ts =>
      decide (day ts = date ∧ ts ≤ calcTime pnlCalcTime date)).getLast? = some ts → day ts = date := by
    intro date ts last
    have member := List.mem_of_getLast? last
    simp only [List.mem_filter, decide_eq_true_eq] at member
    exact member.2.1
  refine List.pairwise_filterMap.mpr ((npUnique_sorted _).imp fun earlier a lastA b lastB => ?_)
  rw [← dated _ a lastA, ← dated _ b lastB] at earlier
  by_contra notBefore
  exact absurd (day_mono (not_lt.mp notBefore)) (not_le.mpr earlier)

theorem AccountSetup.calcTimestamps_increasing (setup : AccountSetup) :
    setup.calcTimestamps.Pairwise (· < ·) :=
  getCalcTimestamps_increasing (setup.timestamps.increasing.imp le_of_lt)
    setup.pnlCalcTimeWithinDay

end Gambit
