import Gambit.Accounting.DailyPnl
import Gambit.Lib.OuterJoin
import Gambit.Strategy.RunAlone

/-!
# The returns of a portfolio

`df_returns` in portfolio.py joins the daily equities of the strategies on
their dates and sums the rows.  The dataframe library promises no order for the
rows of a join, so the join is a parameter.
-/

set_option autoImplicit false

namespace Gambit

open OuterJoin Raising

/-- `df_returns` of a strategy, read at its equity: of each day the last row of
the account's P&L. -/
def Account.dailyEquity (setup : AccountSetup) (self : Account) :
    Except Exn (SortedDict Timestamp ℚ) := do
  let pnl ← self.dfAccountPnl setup none
  let sorted := pnl.insertionSort fun a b => a.timestamp ≤ b.timestamp
  .ok (sorted.foldl (fun daily row =>
    daily.set (day row.timestamp * nanosPerDay) row.equity) .empty)

/-- The sum of the cells that are not null. -/
def sumHorizontal (cells : List (Option ℚ)) : ℚ := (cells.filterMap id).sum

@[simp] theorem sumHorizontal_nil : sumHorizontal [] = 0 := rfl

@[simp] theorem sumHorizontal_none (cells : List (Option ℚ)) :
    sumHorizontal (none :: cells) = sumHorizontal cells := rfl

@[simp] theorem sumHorizontal_some (cell : ℚ) (cells : List (Option ℚ)) :
    sumHorizontal (some cell :: cells) = cell + sumHorizontal cells := rfl

/-- `current / previous - 1`, in floating point where `previous` is zero. -/
def pctChange (previous current : ℚ) : Scalar :=
  if previous ≠ 0 then .real (current / previous - 1)
  else if current = 0 then .nan else .infinite

structure PortfolioRow where
  timestamp : Timestamp
  equities : List (Option ℚ)
  equity : ℚ
  ret : Option Scalar
deriving DecidableEq

/-- The columns `equity` and `ret`, row by row after the equity of the row before. -/
def withReturns : Option ℚ → List (Timestamp × List (Option ℚ)) → List PortfolioRow
  | _, [] => []
  | previous, (timestamp, equities) :: rows =>
      let equity := sumHorizontal equities
      ⟨timestamp, equities, equity, previous.map fun previous => pctChange previous equity⟩ ::
        withReturns (some equity) rows

/-- A full join of two frames on the timestamp. -/
abbrev Join := Frame Timestamp ℚ → SortedDict Timestamp ℚ → Frame Timestamp ℚ

variable {W : String → Type} {A T : Type}

/-- `df_returns` -/
def Portfolio.dfReturns (join : Join) (self : Portfolio W A T)
    (strategyNames : Option (List String)) (runs : Runs W) : Except Exn (List PortfolioRow) := do
  let names ← self.selectedStrategies strategyNames
  let equityList ← names.mapM fun name =>
    (runs name).state.account.dailyEquity (self.setup name).setup
  match equityList with
  | [] => .error (.typeError "reduce() of empty iterable with no initial value")
  | first :: later => .ok (withReturns none (later.foldl join (Frame.ofColumn first)).rows)

/-! ## What the rows should say -/

/-- A strategy's starting equity and its equity by date. -/
structure EquityHistory where
  startingEquity : ℚ
  daily : SortedDict Timestamp ℚ

/-- The latest equity on or before a date, or the starting equity. -/
def EquityHistory.latest (self : EquityHistory) (date : Timestamp) : ℚ :=
  (itemBefore self.daily date).elim self.startingEquity Prod.snd

/-- A strategy has an equity on the date. -/
def HasDate (histories : List EquityHistory) (date : Timestamp) : Prop :=
  ∃ history ∈ histories, date ∈ history.daily.keys

/-- One row for each date of any strategy, in order, with the sum of the latest
equities and its relative changes. -/
structure SumsEquities (histories : List EquityHistory) (rows : List PortfolioRow) : Prop where
  ascending : (rows.map PortfolioRow.timestamp).Pairwise (· < ·)
  dates : ∀ date, date ∈ rows.map PortfolioRow.timestamp ↔ HasDate histories date
  equity : ∀ row ∈ rows,
    row.equity = (histories.map fun history => history.latest row.timestamp).sum
  first : ∀ row, rows[0]? = some row → row.ret = none
  relative : ∀ i previous row, rows[i]? = some previous → rows[i + 1]? = some row →
    row.ret = some (pctChange previous.equity row.equity)

/-- On every date the strategies without a row have latest equities that cancel. -/
def MissingCancel (histories : List EquityHistory) : Prop :=
  ∀ date, HasDate histories date →
    ((histories.filter fun history => history.daily.get? date = none).map fun history =>
      history.latest date).sum = 0

/-! ## What the rows say -/

theorem withReturns_timestamps (rows : List (Timestamp × List (Option ℚ))) :
    ∀ previous, (withReturns previous rows).map PortfolioRow.timestamp = rows.map Prod.fst := by
  induction rows with
  | nil => exact fun _ => rfl
  | cons row rows ih =>
      intro previous
      rw [withReturns, List.map_cons, List.map_cons, ih]

theorem mem_withReturns {rows : List (Timestamp × List (Option ℚ))} {result : PortfolioRow} :
    ∀ {previous : Option ℚ}, result ∈ withReturns previous rows →
      ∃ row ∈ rows, result.timestamp = row.1 ∧ result.equity = sumHorizontal row.2 := by
  induction rows with
  | nil => exact fun member => (by cases member)
  | cons row rows ih =>
      intro previous member
      rcases List.mem_cons.mp member with rfl | later
      · exact ⟨row, List.mem_cons_self .., rfl, rfl⟩
      · obtain ⟨row', listed, same⟩ := ih later
        exact ⟨row', List.mem_cons_of_mem _ listed, same⟩

theorem withReturns_of_mem {rows : List (Timestamp × List (Option ℚ))}
    {row : Timestamp × List (Option ℚ)} (member : row ∈ rows) :
    ∀ previous, ∃ result ∈ withReturns previous rows,
      result.timestamp = row.1 ∧ result.equity = sumHorizontal row.2 := by
  induction rows with
  | nil => cases member
  | cons head rows ih =>
      intro previous
      rcases List.mem_cons.mp member with rfl | later
      · exact ⟨_, List.mem_cons_self .., rfl, rfl⟩
      · obtain ⟨result, listed, same⟩ := ih later _
        exact ⟨result, List.mem_cons_of_mem _ listed, same⟩

theorem withReturns_first {rows : List (Timestamp × List (Option ℚ))} {previous : Option ℚ}
    {row : PortfolioRow} (first : (withReturns previous rows)[0]? = some row) :
    row.ret = previous.map fun previous => pctChange previous row.equity := by
  cases rows with
  | nil => cases first
  | cons head rows =>
      cases first
      rfl

theorem withReturns_relative {rows : List (Timestamp × List (Option ℚ))} :
    ∀ {start : Option ℚ} {i : Nat} {previous row : PortfolioRow},
      (withReturns start rows)[i]? = some previous → (withReturns start rows)[i + 1]? = some row →
      row.ret = some (pctChange previous.equity row.equity) := by
  induction rows with
  | nil => exact fun found => (by cases found)
  | cons head rows ih =>
      intro start i previous row found next
      cases i with
      | zero =>
          cases found
          exact withReturns_first next
      | succ i => exact ih found next

/-- The latest equities are those of the date itself and those of the strategies
without a row there. -/
theorem sum_latest (histories : List EquityHistory) (date : Timestamp) :
    (histories.map fun history => history.latest date).sum =
      sumHorizontal (histories.map fun history => history.daily.get? date) +
        ((histories.filter fun history => history.daily.get? date = none).map fun history =>
          history.latest date).sum := by
  induction histories with
  | nil => simp
  | cons history histories ih =>
      rw [List.map_cons, List.sum_cons, ih, List.map_cons]
      cases found : history.daily.get? date with
      | none =>
          rw [sumHorizontal_none, List.filter_cons_of_pos (by simpa using found), List.map_cons,
            List.sum_cons]
          ring
      | some equity =>
          have latest : history.latest date = equity := by
            have here : itemBefore history.daily date = some (date, equity) :=
              (itemBefore_eq_some_iff _ _ _).mpr
                ⟨(SortedDict.get?_eq_some_iff _ _ _).mp found, le_rfl, fun _ _ le => le⟩
            rw [EquityHistory.latest, here]
            rfl
          rw [sumHorizontal_some, List.filter_cons_of_neg (by simp [found]), latest, add_assoc]

/-- What a frame of the daily equities gives, whatever the order of its rows. -/
theorem sumsEquities_iff {histories : List EquityHistory} {frame : Frame Timestamp ℚ}
    (tabulates : Tabulates (histories.map EquityHistory.daily) frame) :
    SumsEquities histories (withReturns none frame.rows) ↔
      frame.keys.Pairwise (· < ·) ∧ MissingCancel histories := by
  have held : ∀ date, date ∈ frame.keys ↔ HasDate histories date := by
    intro date
    rw [tabulates.mem_keys, HasDate]
    simp only [List.mem_map, exists_exists_and_eq_and]
  have cells : ∀ row ∈ frame.rows,
      row.2 = histories.map fun history => history.daily.get? row.1 := by
    intro row member
    rw [((tabulates.rows row).mp member).2, List.map_map]
    rfl
  constructor
  · intro sums
    refine ⟨?_, fun date present => ?_⟩
    · have ascending := sums.ascending
      rw [withReturns_timestamps] at ascending
      exact ascending
    · obtain ⟨row, member, rfl⟩ := List.mem_map.mp ((held date).mpr present)
      obtain ⟨result, listed, sameTime, equity⟩ := withReturns_of_mem member none
      have total := sums.equity result listed
      rw [sameTime, equity, cells row member, sum_latest] at total
      exact left_eq_add.mp total
  · rintro ⟨ascending, cancel⟩
    constructor
    · rw [withReturns_timestamps]
      exact ascending
    · intro date
      rw [withReturns_timestamps]
      exact held date
    · intro result listed
      obtain ⟨row, member, sameTime, equity⟩ := mem_withReturns listed
      have present := (held row.1).mp (List.mem_map_of_mem member)
      rw [sameTime, equity, cells row member, sum_latest, cancel row.1 present, add_zero]
    · intro row first
      rw [withReturns_first first]
      rfl
    · intro i previous row found next
      exact withReturns_relative found next

theorem Account.dailyEquity_total (setup : AccountSetup) (account : Account) :
    ∃ daily, account.dailyEquity setup = .ok daily := by
  unfold Account.dailyEquity Account.dfAccountPnl Account.symbolPnlsOf
  cases setup.calcTimestamps with
  | nil => exact ⟨_, rfl⟩
  | cons first later => exact ⟨_, rfl⟩

/-- The frame that `df_returns` sums. -/
def joined (join : Join) : List (SortedDict Timestamp ℚ) → Frame Timestamp ℚ
  | [] => ⟨0, []⟩
  | first :: later => later.foldl join (Frame.ofColumn first)

theorem joined_tabulates {join : Join} (full : FullJoin join)
    {columns : List (SortedDict Timestamp ℚ)} (nonempty : columns ≠ []) :
    Tabulates columns (joined join columns) := by
  cases columns with
  | nil => exact absurd rfl nonempty
  | cons first later => exact (tabulates_column first).joinAll full later

theorem joined_descending {columns : List (SortedDict Timestamp ℚ)} (several : columns.length ≠ 1) :
    (joined descending columns).keys.Pairwise (· ≥ ·) := by
  match columns with
  | [] => exact List.Pairwise.nil
  | [_] => exact absurd rfl several
  | first :: second :: later =>
      obtain ⟨before, last, split⟩ : ∃ before last, second :: later = before ++ [last] :=
        ⟨_, _, (List.dropLast_append_getLast (List.cons_ne_nil second later)).symm⟩
      rw [joined, split, List.foldl_append]
      exact descending_keys _ _

theorem subsingleton_of_sorted_both {xs : List Timestamp} (up : xs.Pairwise (· < ·))
    (down : xs.Pairwise (· ≥ ·)) : ∀ a ∈ xs, ∀ b ∈ xs, a = b := by
  match xs with
  | [] => simp
  | [x] => simp
  | x :: y :: rest =>
      have less := (List.pairwise_cons.mp up).1 y (List.mem_cons_self ..)
      have greater := (List.pairwise_cons.mp down).1 y (List.mem_cons_self ..)
      exact absurd less (not_lt.mpr greater)

theorem sorted_of_subsingleton {xs : List Timestamp} (distinct : xs.Nodup)
    (same : ∀ a ∈ xs, ∀ b ∈ xs, a = b) : xs.Pairwise (· < ·) := by
  match xs with
  | [] => exact List.Pairwise.nil
  | [x] => exact List.pairwise_singleton ..
  | x :: y :: rest =>
      have equal := same x (by simp) y (by simp)
      simp [equal] at distinct

namespace Portfolio

variable {self : Portfolio W A T} {strategyNames : Option (List String)} {names : List String}
variable {runs : Runs W}

theorem dfReturns_joined (join : Join)
    (selected : self.selectedStrategies strategyNames = .ok names)
    {daily : String → SortedDict Timestamp ℚ} (each : ∀ name ∈ names,
      (runs name).state.account.dailyEquity (self.setup name).setup = .ok (daily name)) :
    self.dfReturns join strategyNames runs =
      .ok (withReturns none (joined join (names.map daily)).rows) := by
  obtain ⟨nonempty, _⟩ := selectedStrategies_ok selected
  unfold dfReturns
  simp only [selected, bind, Except.bind, mapM_ok_of_each each]
  cases names with
  | nil => exact absurd rfl nonempty
  | cons first later => rfl

end Portfolio

/-- The histories of the strategies of a portfolio. -/
def Portfolio.histories (self : Portfolio W A T) (daily : String → SortedDict Timestamp ℚ)
    (names : List String) : List EquityHistory :=
  names.map fun name => ⟨(self.setup name).setup.startingEquity, daily name⟩

def quietRuns : Runs fun _ => Unit := fun _ => RuleSetup.begin () sampleHeap

/-- A day at the starting equity before the first day that has a calculation. -/
def quietDaily (date : Int) : SortedDict Timestamp ℚ :=
  ⟨[((date - 1) * nanosPerDay, 1000000), (date * nanosPerDay, 1000000)],
    by simp [nanosPerDay, sub_mul]⟩

/-- The second of the two strategies has its timestamps on the next day. -/
def staggeredStrategies : Portfolio (fun _ => Unit) (List Int) Element where
  names := ["early", "late"]
  distinct := by decide
  strategies := fun name =>
    if name = "early" then everyHeartbeat sampleSetup fun _ => []
    else everyHeartbeat { sampleSetup with
      timestamps := ⟨[sampleTime 24, sampleTime 28], by decide, by decide⟩ } fun _ => []

end Gambit
