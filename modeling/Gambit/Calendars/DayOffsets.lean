import Mathlib
import Gambit.Calendars.TradingDays
import Gambit.Lib.Raising

/-!
# Adding trading days

`Calendar.add_trading_days`: the offset of numpy is checked against exact
ordinals, and the timestamp is put together without wrapping.
-/

set_option autoImplicit false

namespace Gambit.Calendars

open Raising

inductive DatetimeUnit where
  | D | h | m | s | ms | us | ns
deriving DecidableEq, Repr

/-- `_DAY_TICKS` -/
def DatetimeUnit.dayTicks : DatetimeUnit → Int
  | .D => 1
  | .h => 24
  | .m => 1440
  | .s => 86400
  | .ms => 86400000
  | .us => 86400000000
  | .ns => 86400000000000

structure Timestamp where
  unit : DatetimeUnit
  ticks : Int64
deriving DecidableEq

inductive OffsetExn where
  | valueError (message : String)
  | overflowError (message : String)
deriving DecidableEq, Repr

/-- The rolls of `np.busday_offset`. -/
inductive Roll where
  | raise | nat | forward | following | backward | preceding | modifiedfollowing | modifiedpreceding
deriving DecidableEq, Repr

inductive RollArgument where
  | allow
  | numpy (roll : Roll)
deriving DecidableEq, Repr

/-! ## Exact rolls and offsets -/

/-- Months since the beginning of year zero, in the proleptic Gregorian calendar. -/
def monthNumber (day : Int) : Int :=
  let shifted := day + 719468
  let era := shifted / 146097
  let dayOfEra := shifted % 146097
  let yearOfEra := (dayOfEra - dayOfEra / 1460 + dayOfEra / 36524 - dayOfEra / 146096) / 365
  let dayOfYear := dayOfEra - (365 * yearOfEra + yearOfEra / 4 - yearOfEra / 100)
  12 * (400 * era + yearOfEra) + (5 * dayOfYear + 2) / 153 + 2

section Exact

variable (calendar : BusDayCalendar)

structure IsNext (day base : Int) : Prop where
  isOpen : calendar.isOpen base = true
  after : day ≤ base
  closed : ∀ other, day ≤ other → other < base → calendar.isOpen other = false

structure IsPrevious (day base : Int) : Prop where
  isOpen : calendar.isOpen base = true
  before : base ≤ day
  closed : ∀ other, base < other → other ≤ day → calendar.isOpen other = false

/-- The open day a date is rolled to. -/
def Rolls (roll : Roll) (day base : Int) : Prop :=
  match roll with
  | .raise | .nat => base = day ∧ calendar.isOpen day = true
  | .forward | .following => IsNext calendar day base
  | .backward | .preceding => IsPrevious calendar day base
  | .modifiedfollowing => ∃ next, IsNext calendar day next ∧
      if monthNumber next = monthNumber day then base = next else IsPrevious calendar day base
  | .modifiedpreceding => ∃ previous, IsPrevious calendar day previous ∧
      if monthNumber previous = monthNumber day then base = previous else IsNext calendar day base

/-- The open day `count` open days after `base`, before it for a negative count. -/
def OpenDaysAfter (base count out : Int) : Prop :=
  calendar.isOpen out = true ∧
    if 0 ≤ count then base ≤ out ∧ (calendar.openDays base out).card = count
    else out ≤ base ∧ (calendar.openDays out base).card = -count

/-- `np.busday_offset`: dates roll exactly where a 64-bit day is there to roll to and become
`NaT` otherwise; other offsets may come out wrong. -/
structure BusdayOffset where
  busdayOffset : Datetime64 → Int64 → Roll → Except OffsetExn Datetime64
  isBusday : Datetime64 → Bool
  isBusday_correct : ∀ date, isNat date = false → isBusday date = calendar.isOpen date.toInt
  exact : ∀ date base roll, isNat date = false → isNat base = false →
    Rolls calendar roll date.toInt base.toInt → busdayOffset date 0 roll = .ok base
  exactOrNat : ∀ date base roll, isNat date = false → busdayOffset date 0 roll = .ok base →
    isNat base = true ∨ Rolls calendar roll date.toInt base.toInt
  openOrNat : ∀ date count roll out, busdayOffset date count roll = .ok out →
    isNat out = true ∨ calendar.isOpen out.toInt = true
  missing : ∀ date count roll, isNat date = true → busdayOffset date count roll = .ok notATime
  rolledToNat : ∀ date count roll base out, isNat date = false →
    busdayOffset date 0 roll = .ok base → isNat base = true →
    busdayOffset date count roll = .ok out → isNat out = true
  returns : ∀ date count roll, roll ≠ .raise ∨ calendar.isOpen date.toInt = true →
    ∃ out, busdayOffset date count roll = .ok out

end Exact

/-! ## The code -/

/-- `_normalize_datetime` -/
def normalizeDatetime (start : Timestamp) : Datetime64 × Int64 :=
  if isNat start.ticks then (notATime, notATime)
  else (Int64.ofInt (start.ticks.toInt / start.unit.dayTicks),
    Int64.ofInt (start.ticks.toInt % start.unit.dayTicks))

variable {calendar : BusDayCalendar} (numpy : BusdayOffset calendar)

/-- The offset and the roll handed to numpy. -/
def offsetAndRoll (startDate : Datetime64) (numDays : Int64) : RollArgument → Int64 × Roll
  | .allow => (if !numpy.isBusday startDate && decide (0 < numDays) then numDays - 1 else numDays, .forward)
  | .numpy roll => (numDays, roll)

variable (calendar) in
/-- The offset could not be made in 64-bit days. -/
def offsetLost (startDate base out : Datetime64) (numDays : Int64) : Bool :=
  let valid := !isNat base
  let displacement := calendar.businessDayOrdinal out.toInt - calendar.businessDayOrdinal base.toInt
  let rollDistance := base.toInt - startDate.toInt
  (valid && (isNat out || displacement ≠ numDays.toInt)) ||
    (!isNat startDate && decide (7 * ((calendar.holidays.length : Int) + 1) < |rollDistance|) && valid)

def addTradingDays (start : Timestamp) (numDays : Int64) (roll : RollArgument) :
    Except OffsetExn Timestamp := do
  let (startDate, timeDelta) := normalizeDatetime start
  let (numDays, roll) := offsetAndRoll numpy startDate numDays roll
  let base ← numpy.busdayOffset startDate 0 roll
  let out ← numpy.busdayOffset startDate numDays roll
  if offsetLost calendar startDate base out numDays then
    .error (.overflowError "trading-day offset exceeds the representable date range")
  else
    let ticks := out.toInt * start.unit.dayTicks + timeDelta.toInt
    let missing := isNat out || isNat timeDelta
    let limit : Int := 2 ^ 63 - 1
    if !missing && (decide (ticks < -limit) || decide (limit < ticks)) then
      .error (.overflowError "trading-day offset exceeds the representable timestamp range")
    else .ok ⟨start.unit, if missing then notATime else Int64.ofInt ticks⟩

/-! ## What is promised -/

/-- A 64-bit integer that is not `NaT`. -/
def Representable (ticks : Int) : Prop := -2 ^ 63 < ticks ∧ ticks < 2 ^ 63

/-- The roll of numpy; `allow` rolls forward. -/
def RollArgument.roll : RollArgument → Roll
  | .allow => .forward
  | .numpy roll => roll

/-- From a closed day `allow` takes the rolled day for day one. -/
def RollArgument.countedDays (calendar : BusDayCalendar) (date : Int) (numDays : Int) :
    RollArgument → Int
  | .allow => if calendar.isOpen date = false ∧ 0 < numDays then numDays - 1 else numDays
  | .numpy _ => numDays

/-- The rolled start date and the exact instant, in unbounded days and ticks. -/
structure ExactInstant (calendar : BusDayCalendar) (start : Timestamp) (numDays : Int64)
    (roll : RollArgument) (base instant : Int) : Prop where
  isTime : isNat start.ticks = false
  rolls : Rolls calendar roll.roll (start.ticks.toInt / start.unit.dayTicks) base
  lands : ∃ out, OpenDaysAfter calendar base (roll.countedDays calendar
      (start.ticks.toInt / start.unit.dayTicks) numDays.toInt) out ∧
    instant = out * start.unit.dayTicks + start.ticks.toInt % start.unit.dayTicks

/-- A timestamp returned is the exact instant, and an instant out of range raises. -/
def ExactOrRefused (start : Timestamp) (numDays : Int64) (roll : RollArgument) : Prop :=
  (∀ result, addTradingDays numpy start numDays roll = .ok result → isNat result.ticks = false →
    result.unit = start.unit ∧
      ∃ base, ExactInstant calendar start numDays roll base result.ticks.toInt) ∧
  ∀ base instant, ExactInstant calendar start numDays roll base instant → ¬ Representable instant →
    ∃ message, addTradingDays numpy start numDays roll = .error (.overflowError message)

/-! ## Ordinals of open days -/

theorem ordinal_mono {first last : Int} (ordered : first ≤ last) :
    calendar.businessDayOrdinal first ≤ calendar.businessDayOrdinal last := by
  have counts : calendar.businessDayOrdinal last - calendar.businessDayOrdinal first = _ :=
    ordinal_counts ordered
  omega

theorem ordinal_lt {first last : Int} (isOpen : calendar.isOpen first = true) (ordered : first < last) :
    calendar.businessDayOrdinal first < calendar.businessDayOrdinal last := by
  have counted : calendar.businessDayOrdinal (first + 1) = _ := businessDayOrdinal_succ first
  have later : calendar.businessDayOrdinal (first + 1) ≤ calendar.businessDayOrdinal last :=
    ordinal_mono ordered
  rw [isOpen, if_pos rfl] at counted
  omega

/-- On open days the ordinal is injective. -/
theorem ordinal_injective {first last : Int} (firstOpen : calendar.isOpen first = true)
    (lastOpen : calendar.isOpen last = true)
    (same : calendar.businessDayOrdinal first = calendar.businessDayOrdinal last) : first = last := by
  rcases lt_trichotomy first last with before | equal | after
  · have less := ordinal_lt firstOpen before
    omega
  · exact equal
  · have less := ordinal_lt lastOpen after
    omega

/-- Between open days the difference of the ordinals is the signed count. -/
theorem openDaysAfter_iff {base count out : Int} (baseOpen : calendar.isOpen base = true)
    (outOpen : calendar.isOpen out = true) : OpenDaysAfter calendar base count out ↔
      calendar.businessDayOrdinal out - calendar.businessDayOrdinal base = count := by
  unfold OpenDaysAfter
  constructor
  · rintro ⟨-, counted⟩
    split at counted
    · rw [ordinal_counts counted.1, counted.2]
    · have counts : calendar.businessDayOrdinal base - calendar.businessDayOrdinal out = _ :=
        ordinal_counts counted.1
      omega
  · intro difference
    refine ⟨outOpen, ?_⟩
    split
    · have ordered : base ≤ out := by
        by_contra backwards
        have less := ordinal_lt outOpen (not_le.mp backwards)
        omega
      exact ⟨ordered, by rw [← ordinal_counts ordered, difference]⟩
    · have ordered : out ≤ base := by
        by_contra forwards
        have less := ordinal_lt baseOpen (not_le.mp forwards)
        omega
      exact ⟨ordered, by rw [← ordinal_counts ordered, ← difference]; ring⟩

/-! ## Rolled days -/

section Rolled

variable {roll : Roll} {day base other : Int}

theorem IsNext.unique (next : IsNext calendar day base) (next' : IsNext calendar day other) :
    base = other := by
  rcases lt_trichotomy base other with before | equal | after
  · have closed := next'.closed base next.after before
    rw [next.isOpen] at closed
    cases closed
  · exact equal
  · have closed := next.closed other next'.after after
    rw [next'.isOpen] at closed
    cases closed

theorem IsPrevious.unique (previous : IsPrevious calendar day base)
    (previous' : IsPrevious calendar day other) : base = other := by
  rcases lt_trichotomy base other with before | equal | after
  · have closed := previous.closed other before previous'.before
    rw [previous'.isOpen] at closed
    cases closed
  · exact equal
  · have closed := previous'.closed base after previous.before
    rw [previous.isOpen] at closed
    cases closed

theorem Rolls.isOpen (rolls : Rolls calendar roll day base) : calendar.isOpen base = true := by
  cases roll with
  | raise | nat => exact rolls.1 ▸ rolls.2
  | forward | following => exact IsNext.isOpen rolls
  | backward | preceding => exact IsPrevious.isOpen rolls
  | modifiedfollowing =>
      obtain ⟨next, isNext, rolled⟩ := rolls
      split at rolled
      · exact rolled ▸ isNext.isOpen
      · exact rolled.isOpen
  | modifiedpreceding =>
      obtain ⟨previous, isPrevious, rolled⟩ := rolls
      split at rolled
      · exact rolled ▸ isPrevious.isOpen
      · exact rolled.isOpen

theorem Rolls.unique (rolls : Rolls calendar roll day base) (rolls' : Rolls calendar roll day other) :
    base = other := by
  cases roll with
  | raise | nat => exact rolls.1.trans rolls'.1.symm
  | forward | following => exact IsNext.unique rolls rolls'
  | backward | preceding => exact IsPrevious.unique rolls rolls'
  | modifiedfollowing =>
      obtain ⟨next, isNext, rolled⟩ := rolls
      obtain ⟨next', isNext', rolled'⟩ := rolls'
      obtain rfl := isNext.unique isNext'
      split at rolled
      · rw [if_pos ‹_›] at rolled'
        exact rolled.trans rolled'.symm
      · rw [if_neg ‹_›] at rolled'
        exact rolled.unique rolled'
  | modifiedpreceding =>
      obtain ⟨previous, isPrevious, rolled⟩ := rolls
      obtain ⟨previous', isPrevious', rolled'⟩ := rolls'
      obtain rfl := isPrevious.unique isPrevious'
      split at rolled
      · rw [if_pos ‹_›] at rolled'
        exact rolled.trans rolled'.symm
      · rw [if_neg ‹_›] at rolled'
        exact rolled.unique rolled'

/-- Only `raise` can fail, and on a closed day. -/
theorem Rolls.permitted (rolls : Rolls calendar roll day base) :
    roll ≠ .raise ∨ calendar.isOpen day = true := by
  by_cases raising : roll = .raise
  · subst raising
    exact Or.inr rolls.2
  · exact Or.inl raising

end Rolled

/-! ## The parts of a timestamp -/

variable {start : Timestamp} {numDays : Int64} {roll : RollArgument}

theorem DatetimeUnit.dayTicks_pos (unit : DatetimeUnit) : 0 < unit.dayTicks := by
  cases unit <;> decide

theorem normalizeDatetime_eq (isTime : isNat start.ticks = false) :
    ∃ date timeDelta, normalizeDatetime start = (date, timeDelta) ∧ isNat date = false ∧
      isNat timeDelta = false ∧ date.toInt = start.ticks.toInt / start.unit.dayTicks ∧
      timeDelta.toInt = start.ticks.toInt % start.unit.dayTicks := by
  have positive := start.unit.dayTicks_pos
  have low := isNat_eq_false.mp isTime
  have high := start.ticks.toInt_lt
  have inDay : start.ticks.toInt % start.unit.dayTicks < 2 ^ 63 :=
    (Int.emod_lt_of_pos _ positive).trans (by cases start.unit <;> decide)
  have notNegative := Int.emod_nonneg start.ticks.toInt positive.ne'
  have daysLow : -2 ^ 63 + 1 ≤ start.ticks.toInt / start.unit.dayTicks := by
    rw [Int.le_ediv_iff_mul_le positive]
    nlinarith
  have daysHigh : start.ticks.toInt / start.unit.dayTicks < 2 ^ 63 := by
    apply Int.ediv_lt_of_lt_mul positive
    nlinarith
  have days := Int64.toInt_ofInt_of_le (by omega) daysHigh
  have time := Int64.toInt_ofInt_of_le (by omega) inDay
  refine ⟨_, _, by rw [normalizeDatetime, isTime]; rfl, ?_, ?_, days, time⟩
  · rw [isNat_eq_false, days]
    omega
  · rw [isNat_eq_false, time]
    omega

variable {numpy : BusdayOffset calendar}

theorem offsetAndRoll_eq (numpy : BusdayOffset calendar) (numDays : Int64) (roll : RollArgument)
    {date : Datetime64} (isDate : isNat date = false) :
    ∃ count, offsetAndRoll numpy date numDays roll = (count, roll.roll) ∧
      count.toInt = roll.countedDays calendar date.toInt numDays.toInt := by
  cases roll with
  | numpy roll => exact ⟨numDays, rfl, rfl⟩
  | allow =>
      refine ⟨_, rfl, ?_⟩
      unfold RollArgument.countedDays
      have positive : 0 < numDays ↔ 0 < numDays.toInt := Int64.lt_iff_toInt_lt
      rw [numpy.isBusday_correct date isDate]
      by_cases adjusted : calendar.isOpen date.toInt = false ∧ 0 < numDays.toInt
      · have high := numDays.toInt_lt
        rw [if_pos (by simpa [positive] using adjusted), if_pos adjusted, Int64.toInt_sub]
        exact Int.bmod_eq_of_le (by simp; omega) (by simp; omega)
      · rw [if_neg (by simpa [positive] using adjusted), if_neg adjusted]

/-- The days of numpy, once made, decide the timestamp. -/
theorem addTradingDays_eq {date timeDelta base out : Datetime64} {count : Int64} {rolled : Roll}
    (parts : normalizeDatetime start = (date, timeDelta))
    (counted : offsetAndRoll numpy date numDays roll = (count, rolled))
    (based : numpy.busdayOffset date 0 rolled = .ok base)
    (moved : numpy.busdayOffset date count rolled = .ok out) :
    addTradingDays numpy start numDays roll =
      if offsetLost calendar date base out count then
        .error (.overflowError "trading-day offset exceeds the representable date range")
      else if !(isNat out || isNat timeDelta) &&
          (decide (out.toInt * start.unit.dayTicks + timeDelta.toInt < -(2 ^ 63 - 1)) ||
            decide (2 ^ 63 - 1 < out.toInt * start.unit.dayTicks + timeDelta.toInt)) then
        .error (.overflowError "trading-day offset exceeds the representable timestamp range")
      else .ok ⟨start.unit, if isNat out || isNat timeDelta then notATime
        else Int64.ofInt (out.toInt * start.unit.dayTicks + timeDelta.toInt)⟩ := by
  unfold addTradingDays
  rw [parts]
  simp only [counted, based, moved]
  rfl

/-- Both calls to numpy come back. -/
theorem addTradingDays_days {date timeDelta : Datetime64} {count : Int64} {rolled : Roll}
    {result : Timestamp} (parts : normalizeDatetime start = (date, timeDelta))
    (counted : offsetAndRoll numpy date numDays roll = (count, rolled))
    (returned : addTradingDays numpy start numDays roll = .ok result) :
    ∃ base out, numpy.busdayOffset date 0 rolled = .ok base ∧
      numpy.busdayOffset date count rolled = .ok out := by
  unfold addTradingDays at returned
  rw [parts] at returned
  simp only [counted] at returned
  obtain ⟨base, based, rest⟩ := bind_ok.mp returned
  obtain ⟨out, moved, -⟩ := bind_ok.mp rest
  exact ⟨base, out, based, moved⟩

/-- A missing start stays missing. -/
theorem isTime_of_returned {result : Timestamp}
    (returned : addTradingDays numpy start numDays roll = .ok result)
    (isResult : isNat result.ticks = false) : isNat start.ticks = false := by
  cases missing : isNat start.ticks with
  | false => rfl
  | true =>
      have parts : normalizeDatetime start = (notATime, notATime) := by
        rw [normalizeDatetime, missing]
        rfl
      obtain ⟨⟨count, rolled⟩, counted⟩ : ∃ pair, offsetAndRoll numpy notATime numDays roll = pair :=
        ⟨_, rfl⟩
      obtain ⟨base, out, based, moved⟩ := addTradingDays_days parts counted returned
      have stays := numpy.missing notATime count rolled (by decide)
      rw [moved] at stays
      cases stays
      rw [addTradingDays_eq parts counted based moved] at returned
      split at returned
      · cases returned
      · simp only [isNat, decide_true, Bool.true_or, Bool.not_true, Bool.false_and,
          Bool.false_eq_true, if_false, if_true, Except.ok.injEq] at returned
        rw [← returned] at isResult
        cases isResult

theorem offsetLost_eq_false {date base out : Datetime64} {count : Int64} (isBase : isNat base = false)
    (kept : offsetLost calendar date base out count = false) :
    isNat out = false ∧
      calendar.businessDayOrdinal out.toInt - calendar.businessDayOrdinal base.toInt = count.toInt := by
  simp only [offsetLost, isBase, Bool.not_false, Bool.true_and, Bool.and_true, Bool.or_eq_false_iff,
    decide_eq_false_iff_not, not_not] at kept
  exact kept.1

theorem offsetLost_missing {date base out : Datetime64} {count : Int64} (noBase : isNat base = true) :
    offsetLost calendar date base out count = false := by
  simp [offsetLost, noBase]

/-! ## Exact or refused -/

theorem representable_of_isDate {date : Datetime64} (isDate : isNat date = false) :
    Representable date.toInt :=
  ⟨isNat_eq_false.mp isDate, date.toInt_lt⟩

/-- A representable rolled date is the one numpy finds. -/
theorem busdayOffset_zero (numpy : BusdayOffset calendar) {date : Datetime64} {roll : Roll} {base : Int} (isDate : isNat date = false)
    (rolls : Rolls calendar roll date.toInt base) (inRange : Representable base) :
    ∃ rolled, numpy.busdayOffset date 0 roll = .ok rolled ∧ isNat rolled = false ∧
      rolled.toInt = base := by
  have ticks : (Int64.ofInt base).toInt = base :=
    Int64.toInt_ofInt_of_le (by have := inRange.1; omega) inRange.2
  have isBase : isNat (Int64.ofInt base) = false := by
    rw [isNat_eq_false, ticks]
    exact inRange.1
  exact ⟨_, numpy.exact date _ roll isDate isBase (ticks.symm ▸ rolls), isBase, ticks⟩

/-- A rolled date beyond the 64-bit days is missing, and so is its offset. -/
theorem busdayOffset_unrepresentable (numpy : BusdayOffset calendar) (count : Int64)
    {date : Datetime64} {roll : Roll} {base : Int}
    (isDate : isNat date = false) (rolls : Rolls calendar roll date.toInt base)
    (outOfRange : ¬ Representable base) :
    ∃ rolled out, numpy.busdayOffset date 0 roll = .ok rolled ∧ isNat rolled = true ∧
      numpy.busdayOffset date count roll = .ok out ∧ isNat out = true := by
  obtain ⟨rolled, based⟩ := numpy.returns date 0 roll rolls.permitted
  obtain ⟨out, moved⟩ := numpy.returns date count roll rolls.permitted
  have missing : isNat rolled = true := by
    cases value : isNat rolled with
    | true => rfl
    | false =>
        rcases numpy.exactOrNat date rolled roll isDate based with noDate | exact
        · rw [value] at noDate
          exact noDate
        · have same := exact.unique rolls
          exact absurd (same ▸ representable_of_isDate value) outOfRange
  exact ⟨rolled, out, based, missing, moved,
    numpy.rolledToNat date count roll rolled out isDate based missing moved⟩

/-- A timestamp that comes back is the exact instant. -/
theorem addTradingDays_exact {result : Timestamp}
    (returned : addTradingDays numpy start numDays roll = .ok result)
    (isResult : isNat result.ticks = false) :
    result.unit = start.unit ∧
      ∃ base, ExactInstant calendar start numDays roll base result.ticks.toInt := by
  have isTime := isTime_of_returned returned isResult
  obtain ⟨date, timeDelta, parts, isDate, isDelta, days, time⟩ := normalizeDatetime_eq isTime
  obtain ⟨count, counted, count_eq⟩ := offsetAndRoll_eq numpy numDays roll isDate
  obtain ⟨rolled, out, based, moved⟩ := addTradingDays_days parts counted returned
  rw [addTradingDays_eq parts counted based moved] at returned
  split at returned
  · cases returned
  split at returned
  · cases returned
  rename_i kept inRange
  cases returned
  have isOut : isNat out = false := by
    cases value : isNat out with
    | false => rfl
    | true =>
        rw [value] at isResult
        cases isResult
  have isBase : isNat rolled = false := by
    cases value : isNat rolled with
    | false => rfl
    | true =>
        have missing := numpy.rolledToNat date count roll.roll rolled out isDate based value moved
        rw [isOut] at missing
        cases missing
  have rolls := (numpy.exactOrNat date rolled roll.roll isDate based).resolve_left (by simp [isBase])
  have outOpen := (numpy.openOrNat date count roll.roll out moved).resolve_left (by simp [isOut])
  obtain ⟨-, displacement⟩ := offsetLost_eq_false isBase (Bool.eq_false_iff.mpr kept)
  have lands := (openDaysAfter_iff rolls.isOpen outOpen).mpr displacement
  rw [isOut, isDelta] at inRange isResult ⊢
  simp at inRange
  refine ⟨rfl, rolled.toInt, isTime, days ▸ rolls, out.toInt, ?_, ?_⟩
  · rw [← days, ← count_eq]
    exact lands
  · rw [← time]
    exact Int64.toInt_ofInt_of_le (by omega) (by omega)

/-- An instant out of range is refused where its start date rolls to a 64-bit day. -/
theorem addTradingDays_refused {base instant : Int}
    (exact : ExactInstant calendar start numDays roll base instant) (inRange : Representable base)
    (outOfRange : ¬ Representable instant) :
    ∃ message, addTradingDays numpy start numDays roll = .error (.overflowError message) := by
  obtain ⟨isTime, rolls, out, lands, rfl⟩ := exact
  obtain ⟨date, timeDelta, parts, isDate, isDelta, days, time⟩ := normalizeDatetime_eq isTime
  obtain ⟨count, counted, count_eq⟩ := offsetAndRoll_eq numpy numDays roll isDate
  rw [← days] at rolls lands
  rw [← count_eq] at lands
  obtain ⟨rolled, based, isBase, rfl⟩ := busdayOffset_zero numpy isDate rolls inRange
  obtain ⟨moved, offset⟩ := numpy.returns date count roll.roll rolls.permitted
  rw [addTradingDays_eq parts counted based offset]
  cases lost : offsetLost calendar date rolled moved count with
  | true => exact ⟨_, rfl⟩
  | false =>
      obtain ⟨isOut, displacement⟩ := offsetLost_eq_false isBase lost
      have outOpen := (numpy.openOrNat date count roll.roll moved offset).resolve_left (by simp [isOut])
      have landed := (openDaysAfter_iff rolls.isOpen lands.1).mp lands
      have same : moved.toInt = out := ordinal_injective outOpen lands.1 (by omega)
      refine ⟨"trading-day offset exceeds the representable timestamp range", ?_⟩
      rw [if_neg (by simp), if_pos]
      rw [isOut, isDelta, same, time]
      simp only [Representable] at outOfRange
      simp
      omega

/-- A start date that rolls beyond the 64-bit days comes back missing, whatever the offset. -/
theorem addTradingDays_unrepresentable {base instant : Int}
    (exact : ExactInstant calendar start numDays roll base instant) (outOfRange : ¬ Representable base) :
    addTradingDays numpy start numDays roll = .ok ⟨start.unit, notATime⟩ := by
  obtain ⟨isTime, rolls, -⟩ := exact
  obtain ⟨date, timeDelta, parts, isDate, -, days, -⟩ := normalizeDatetime_eq isTime
  obtain ⟨count, counted, -⟩ := offsetAndRoll_eq numpy numDays roll isDate
  rw [← days] at rolls
  obtain ⟨rolled, out, based, noBase, moved, noOut⟩ :=
    busdayOffset_unrepresentable numpy count isDate rolls outOfRange
  rw [addTradingDays_eq parts counted based moved, offsetLost_missing noBase, noOut]
  rfl

open Classical in
/-- The offsets numpy documents, missing where no 64-bit day is there. -/
noncomputable def exactOffset (calendar : BusDayCalendar) : BusdayOffset calendar where
  busdayOffset date count roll :=
    if isNat date then .ok notATime
    else if roll = .raise ∧ calendar.isOpen date.toInt = false then
      .error (.valueError "Non-business day date in busday_offset")
    else if rolls : ∃ base, isNat base = false ∧ Rolls calendar roll date.toInt base.toInt then
      if count = 0 then .ok rolls.choose
      else if lands : ∃ out, isNat out = false ∧
          OpenDaysAfter calendar rolls.choose.toInt count.toInt out.toInt then .ok lands.choose
      else .ok notATime
    else .ok notATime
  isBusday date := calendar.isOpen date.toInt
  isBusday_correct := (exactFunctions calendar).isBusday_correct
  exact date base roll isDate isBase rolls := by
    have found : ∃ base, isNat base = false ∧ Rolls calendar roll date.toInt base.toInt :=
      ⟨base, isBase, rolls⟩
    have same := found.choose_spec.2.unique rolls
    have permitted : ¬ (roll = .raise ∧ calendar.isOpen date.toInt = false) := by
      rintro ⟨raising, closed⟩
      exact rolls.permitted.elim (· raising) (by simp [closed])
    rw [isDate, if_neg (by decide), if_neg permitted, dif_pos found, if_pos rfl]
    exact congrArg Except.ok (Int64.toInt_inj.mp same)
  exactOrNat date base roll isDate based := by
    rw [isDate, if_neg (by decide)] at based
    split at based
    · cases based
    split at based
    · rename_i found
      cases based
      exact Or.inr found.choose_spec.2
    · cases based
      exact Or.inl rfl
  openOrNat date count roll out moved := by
    repeat' split at moved
    all_goals cases moved
    · exact Or.inl rfl
    · rename_i found _
      exact Or.inr found.choose_spec.2.isOpen
    · rename_i found
      exact Or.inr found.choose_spec.2.1
    · exact Or.inl rfl
    · exact Or.inl rfl
  missing date count roll noDate := by
    rw [noDate]
    rfl
  rolledToNat date count roll base out isDate based noBase moved := by
    rw [isDate, if_neg (by decide)] at based moved
    split at based
    · cases based
    rw [if_neg ‹_›] at moved
    split at based
    · rename_i found
      cases based
      rw [found.choose_spec.1] at noBase
      cases noBase
    · rw [dif_neg ‹_›] at moved
      cases moved
      rfl
  returns date count roll permitted := by
    have notRaised : ¬ (roll = .raise ∧ calendar.isOpen date.toInt = false) := by
      rintro ⟨raising, closed⟩
      exact permitted.elim (· raising) (by simp [closed])
    rw [if_neg notRaised]
    repeat' split
    all_goals exact ⟨_, rfl⟩

/-- Open on Fridays. -/
def fridays : BusDayCalendar where
  weekmask weekday := weekday.val = 4
  someOpen := ⟨4, by decide⟩
  holidays := []
  sorted := by decide
  onOpenWeekdays := by decide

/-- The last 64-bit day is a Thursday. -/
theorem lastThursday_rolls : ExactInstant fridays ⟨.D, Int64.maxValue⟩ 0 (.numpy .forward)
    (2 ^ 63) (2 ^ 63) where
  isTime := by decide
  rolls := by
    refine ⟨by decide, by decide, fun other low high => ?_⟩
    obtain rfl : other = 2 ^ 63 - 1 := by
      change (2 ^ 63 - 1 : Int) / 1 ≤ other at low
      omega
    decide
  lands := ⟨2 ^ 63, ⟨by decide, by simp [RollArgument.countedDays, BusDayCalendar.openDays]⟩, by decide⟩

end Gambit.Calendars
