import Gambit.Calendars.BusinessDays
import Gambit.Python

/-!
# Counting and listing trading days

`Calendar.num_trading_days` and `Calendar.get_trading_days` of two dates, on the
64-bit days of numpy, where one past the last day is `NaT`.
-/

set_option autoImplicit false

namespace Gambit.Calendars

/-- A `datetime64`, as its 64-bit ticks. -/
abbrev Datetime64 := Int64

/-- `NaT` -/
def notATime : Datetime64 := Int64.minValue

def isNat (date : Datetime64) : Bool := date = notATime

/-- `np.busday_count` and `np.is_busday` for a calendar. -/
structure BusDayFunctions (calendar : BusDayCalendar) where
  busdayCount : Datetime64 → Datetime64 → Int
  isBusday : Datetime64 → Bool
  busdayCount_correct : ∀ first last : Datetime64, isNat first = false → isNat last = false →
    first ≤ last → busdayCount first last = (calendar.openDays first.toInt last.toInt).card
  isBusday_correct : ∀ date : Datetime64, isNat date = false →
    isBusday date = calendar.isOpen date.toInt

/-- `date + np.timedelta64(1, "D")` -/
def nextDay (date : Datetime64) : Datetime64 := if isNat date then notATime else date + 1

/-- `s > e`, which is false of `NaT` -/
def isAfter (s e : Datetime64) : Bool := !isNat s && !isNat e && decide (e < s)

/-- `_normalize` -/
def normalize (start last : Datetime64) (includeFirst includeLast : Bool) :
    Except Exn (Datetime64 × Datetime64) :=
  if isAfter start last then .error (.valueError "start date must not be after end date")
  else
    let s := if includeFirst then start else nextDay start
    let e := if includeLast then nextDay last else last
    .ok (if isAfter s e then e else s, e)

/-- `np.arange` of days -/
def arange (s e : Datetime64) : Except Exn (List Datetime64) :=
  if isNat s || isNat e then .error (.raised "ValueError" false)
  else .ok ((List.range (e.toInt - s.toInt).toNat).map fun k : Nat => Int64.ofInt (s.toInt + k))

section Calendar

variable {calendar : BusDayCalendar} (functions : BusDayFunctions calendar)

/-- The count as a float. -/
def numTradingDays (start last : Datetime64) (includeFirst includeLast : Bool) : Except Exn Scalar := do
  let (s, e) ← normalize start last includeFirst includeLast
  if isNat s || isNat e then .ok .nan
  else .ok (.real (functions.busdayCount s e))

def getTradingDays (start last : Datetime64) (includeFirst includeLast : Bool) :
    Except Exn (List Datetime64) := do
  let (s, e) ← normalize start last includeFirst includeLast
  let dates ← arange s e
  .ok (dates.filter functions.isBusday)

/-- The interval the flags describe. -/
def InInterval (start last : Datetime64) (includeFirst includeLast : Bool) (day : Int) : Prop :=
  (if includeFirst then start.toInt ≤ day else start.toInt < day) ∧
    if includeLast then day ≤ last.toInt else day < last.toInt

/-- Count and listing are those of the open days of the interval. -/
def CountAndListAgree (start last : Datetime64) (includeFirst includeLast : Bool) : Prop :=
  ∃ days, getTradingDays functions start last includeFirst includeLast = .ok days ∧
    numTradingDays functions start last includeFirst includeLast = .ok (.real days.length) ∧
    days.Pairwise (fun a b => a.toInt < b.toInt) ∧
    ∀ day : Int, (∃ date ∈ days, date.toInt = day) ↔
      calendar.isOpen day = true ∧ InInterval start last includeFirst includeLast day

end Calendar

/-! ## Days and their ticks -/

variable {date s e start last : Datetime64}

theorem isNat_eq_false : isNat date = false ↔ -2 ^ 63 < date.toInt := by
  have least := date.le_toInt
  unfold isNat
  rw [decide_eq_false_iff_not, ← Int64.toInt_inj]
  change ¬ date.toInt = -2 ^ 63 ↔ _
  omega

theorem isAfter_iff (isDate : isNat s = false) (isDate' : isNat e = false) :
    isAfter s e = true ↔ e.toInt < s.toInt := by
  simp [isAfter, isDate, isDate', Int64.lt_iff_toInt_lt]

theorem nextDay_toInt (isDate : isNat date = false) (inside : date ≠ Int64.maxValue) :
    (nextDay date).toInt = date.toInt + 1 ∧ isNat (nextDay date) = false := by
  have most := date.toInt_le
  have below : date.toInt ≠ Int64.maxValue.toInt := fun same => inside (Int64.toInt_inj.mp same)
  rw [Int64.toInt_maxValue] at most below
  have value := isNat_eq_false.mp isDate
  have added : (date + 1).toInt = date.toInt + 1 := by
    rw [Int64.toInt_add]
    exact Int.bmod_eq_of_le (by simp; omega) (by simp; omega)
  unfold nextDay
  rw [isDate]
  refine ⟨added, isNat_eq_false.mpr ?_⟩
  simp only [Bool.false_eq_true, if_false, added]
  omega

theorem nextDay_maxValue : isNat (nextDay Int64.maxValue) = true := by decide

theorem mem_arange (isDate : isNat s = false) (isDate' : isNat e = false) :
    ∃ dates, arange s e = .ok dates ∧ dates.Pairwise (fun a b => a.toInt < b.toInt) ∧
      (∀ date ∈ dates, isNat date = false) ∧
      ∀ day : Int, (∃ date ∈ dates, date.toInt = day) ↔ s.toInt ≤ day ∧ day < e.toInt := by
  have low := isNat_eq_false.mp isDate
  have high := e.toInt_lt
  have ticks : ∀ k < (e.toInt - s.toInt).toNat, (Int64.ofInt (s.toInt + k)).toInt = s.toInt + k := by
    intro k inside
    exact Int64.toInt_ofInt_of_le (by omega) (by omega)
  refine ⟨_, by rw [arange, isDate, isDate']; rfl, ?_, ?_, fun day => ?_⟩
  · rw [List.pairwise_map]
    refine List.pairwise_lt_range.imp_of_mem fun {k l} inside inside' before => ?_
    rw [ticks k (List.mem_range.mp inside), ticks l (List.mem_range.mp inside')]
    omega
  · intro date member
    obtain ⟨k, inside, rfl⟩ := List.mem_map.mp member
    rw [isNat_eq_false, ticks k (List.mem_range.mp inside)]
    omega
  · constructor
    · rintro ⟨date, member, rfl⟩
      obtain ⟨k, inside, rfl⟩ := List.mem_map.mp member
      have below := List.mem_range.mp inside
      rw [ticks k below]
      omega
    · rintro ⟨first, before⟩
      have inside : (day - s.toInt).toNat < (e.toInt - s.toInt).toNat := by omega
      refine ⟨_, List.mem_map.mpr ⟨_, List.mem_range.mpr inside, rfl⟩, ?_⟩
      rw [ticks _ inside]
      omega

/-! ## The interval -/

variable {includeFirst includeLast : Bool}

/-- An endpoint of the half-open interval, a day later where the flag asks for it. -/
theorem moved_toInt {moves : Bool} (isDate : isNat date = false)
    (inside : moves = true → date ≠ Int64.maxValue) :
    (if moves then nextDay date else date).toInt = date.toInt + (if moves then 1 else 0) ∧
      isNat (if moves then nextDay date else date) = false := by
  cases moves with
  | false => simpa using isDate
  | true => simpa using nextDay_toInt isDate (inside rfl)

theorem normalize_eq (startDate : isNat start = false) (lastDate : isNat last = false)
    (ordered : start ≤ last) (firstInside : (!includeFirst) = true → start ≠ Int64.maxValue)
    (lastInside : includeLast = true → last ≠ Int64.maxValue) :
    ∃ s e, normalize start last includeFirst includeLast = .ok (s, e) ∧ isNat s = false ∧
      isNat e = false ∧ s ≤ e ∧
      ∀ day : Int, s.toInt ≤ day ∧ day < e.toInt ↔
        InInterval start last includeFirst includeLast day := by
  rw [Int64.le_iff_toInt_le] at ordered
  obtain ⟨firstTicks, firstDate⟩ := moved_toInt startDate firstInside
  obtain ⟨lastTicks, endDate⟩ := moved_toInt lastDate lastInside
  have notAfter : isAfter start last = false := by
    rw [Bool.eq_false_iff, Ne, isAfter_iff startDate lastDate]
    omega
  have first : (if includeFirst then start else nextDay start) =
      if !includeFirst then nextDay start else start := by
    cases includeFirst <;> rfl
  unfold normalize
  rw [notAfter, first]
  generalize (if !includeFirst then nextDay start else start) = s at firstTicks firstDate ⊢
  generalize (if includeLast then nextDay last else last) = e at lastTicks endDate ⊢
  have interval : ∀ day : Int, s.toInt ≤ day ∧ day < e.toInt ↔
      InInterval start last includeFirst includeLast day := by
    intro day
    unfold InInterval
    rw [firstTicks, lastTicks]
    cases includeFirst <;> cases includeLast <;> simp <;> omega
  cases crossed : isAfter s e with
  | false =>
      refine ⟨s, e, by simp [crossed], firstDate, endDate, ?_, interval⟩
      rw [Bool.eq_false_iff, Ne, isAfter_iff firstDate endDate] at crossed
      rw [Int64.le_iff_toInt_le]
      omega
  | true =>
      -- both ends of one day left out: the interval is empty
      refine ⟨e, e, by simp [crossed], endDate, endDate, Int64.le_refl e, fun day => ?_⟩
      rw [isAfter_iff firstDate endDate] at crossed
      rw [← interval day]
      omega

/-- A day moved past the last one is missing. -/
theorem normalize_missing (startDate : isNat start = false) (lastDate : isNat last = false)
    (ordered : start ≤ last) (outside : (includeFirst = false ∧ start = Int64.maxValue) ∨
      (includeLast = true ∧ last = Int64.maxValue)) :
    ∃ s e, normalize start last includeFirst includeLast = .ok (s, e) ∧
      (isNat s || isNat e) = true := by
  have notAfter : isAfter start last = false := by
    rw [Bool.eq_false_iff, Ne, isAfter_iff startDate lastDate]
    rw [Int64.le_iff_toInt_le] at ordered
    omega
  unfold normalize
  rw [notAfter]
  refine ⟨_, _, rfl, ?_⟩
  rcases outside with ⟨rfl, rfl⟩ | ⟨rfl, rfl⟩
  · simp [isAfter, nextDay_maxValue]
  · simp [nextDay_maxValue]

/-! ## Both functions -/

variable {calendar : BusDayCalendar} (functions : BusDayFunctions calendar)

theorem length_eq_card {days : List Datetime64} (ascending : days.Pairwise fun a b => a.toInt < b.toInt)
    (first last : Int) (members : ∀ day : Int, (∃ date ∈ days, date.toInt = day) ↔
      calendar.isOpen day = true ∧ first ≤ day ∧ day < last) :
    (calendar.openDays first last).card = days.length := by
  have distinct : (days.map Int64.toInt).Nodup :=
    List.Pairwise.map _ (fun _ _ before => before.ne) ascending
  rw [← List.length_map (f := Int64.toInt), ← List.toFinset_card_of_nodup distinct]
  congr 1
  ext day
  rw [List.mem_toFinset, List.mem_map, members, BusDayCalendar.openDays, Finset.mem_filter,
    Finset.mem_Ico]
  exact and_comm

theorem countAndListAgree_inside (startDate : isNat start = false) (lastDate : isNat last = false)
    (ordered : start ≤ last) (firstInside : (!includeFirst) = true → start ≠ Int64.maxValue)
    (lastInside : includeLast = true → last ≠ Int64.maxValue) :
    CountAndListAgree functions start last includeFirst includeLast := by
  obtain ⟨s, e, normalized, sDate, eDate, sorted, interval⟩ :=
    normalize_eq startDate lastDate ordered firstInside lastInside
  obtain ⟨dates, ranged, ascending, areDates, members⟩ := mem_arange sDate eDate
  have listed : ∀ day : Int, (∃ date ∈ dates.filter functions.isBusday, date.toInt = day) ↔
      calendar.isOpen day = true ∧ s.toInt ≤ day ∧ day < e.toInt := by
    intro day
    constructor
    · rintro ⟨date, member, rfl⟩
      obtain ⟨inRange, busday⟩ := List.mem_filter.mp member
      rw [functions.isBusday_correct date (areDates date inRange)] at busday
      exact ⟨busday, (members _).mp ⟨date, inRange, rfl⟩⟩
    · rintro ⟨isOpen, inside⟩
      obtain ⟨date, inRange, rfl⟩ := (members day).mpr inside
      refine ⟨date, List.mem_filter.mpr ⟨inRange, ?_⟩, rfl⟩
      rw [functions.isBusday_correct date (areDates date inRange)]
      exact isOpen
  refine ⟨dates.filter functions.isBusday, ?_, ?_, ascending.filter _, fun day => ?_⟩
  · rw [getTradingDays, normalized]
    change (arange s e >>= _) = _
    rw [ranged]
    rfl
  · rw [numTradingDays, normalized]
    change (if isNat s || isNat e then _ else _) = _
    rw [sDate, eDate, ← length_eq_card (ascending.filter _) s.toInt e.toInt listed]
    rw [functions.busdayCount_correct s e sDate eDate sorted]
    simp
  · rw [listed, interval]

/-- The count is that of the listed open days, up to the end of the 64-bit days. -/
theorem countAndListAgree_iff {calendar : BusDayCalendar} (functions : BusDayFunctions calendar)
    (start last : Datetime64) (includeFirst includeLast : Bool) (startDate : isNat start = false)
    (lastDate : isNat last = false) (ordered : start ≤ last) :
    CountAndListAgree functions start last includeFirst includeLast ↔
      ¬ (includeFirst = false ∧ start = Int64.maxValue) ∧
        ¬ (includeLast = true ∧ last = Int64.maxValue) := by
  constructor
  · rintro ⟨days, listed, -⟩
    rw [← not_or]
    intro outside
    obtain ⟨s, e, normalized, missing⟩ := normalize_missing startDate lastDate ordered outside
    rw [getTradingDays, normalized] at listed
    change (arange s e >>= _) = _ at listed
    rw [arange, missing] at listed
    cases listed
  · rintro ⟨firstInside, lastInside⟩
    refine countAndListAgree_inside functions startDate lastDate ordered (fun excluded same => ?_)
      fun included same => lastInside ⟨included, same⟩
    exact firstInside ⟨by simpa using excluded, same⟩

/-- The functions numpy documents. -/
noncomputable def exactFunctions (calendar : BusDayCalendar) : BusDayFunctions calendar where
  busdayCount first last := (calendar.openDays first.toInt last.toInt).card
  isBusday date := calendar.isOpen date.toInt
  busdayCount_correct _ _ _ _ _ := rfl
  isBusday_correct _ _ := rfl

theorem countAndListAgree_iff_acrossEpoch :
    CountAndListAgree (exactFunctions acrossEpoch) (-7) 0 false true ↔
      ¬ (false = false ∧ (-7 : Int64) = Int64.maxValue) ∧
        ¬ (true = true ∧ (0 : Int64) = Int64.maxValue) :=
  countAndListAgree_iff (exactFunctions acrossEpoch) (-7) 0 false true (by decide) (by decide) (by decide)

/-- From the last 64-bit day to itself: it is not listed, and the count is NaN. -/
theorem lastDay_lost : (Int64.maxValue : Datetime64) ≤ Int64.maxValue ∧
    getTradingDays (exactFunctions acrossEpoch) Int64.maxValue Int64.maxValue true true =
      .error (.raised "ValueError" false) ∧
    numTradingDays (exactFunctions acrossEpoch) Int64.maxValue Int64.maxValue true true = .ok .nan ∧
    ¬ CountAndListAgree (exactFunctions acrossEpoch) Int64.maxValue Int64.maxValue true true := by
  have listed : getTradingDays (exactFunctions acrossEpoch) Int64.maxValue Int64.maxValue true true =
      .error (.raised "ValueError" false) := rfl
  refine ⟨by decide, listed, rfl, ?_⟩
  rintro ⟨days, run, -⟩
  rw [listed] at run
  cases run

end Gambit.Calendars
