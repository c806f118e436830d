import Mathlib.Tactic
import Mathlib.Data.Int.Interval

/-!
# Business days

A `np.busdaycalendar` and the closed form of `_business_day_ordinal`, which
counts open days before and after the epoch alike.
-/

set_option autoImplicit false

namespace Gambit.Calendars

/-- Day zero is a Thursday; Monday is zero. -/
def weekday (day : Int) : Fin 7 := ⟨((day + 3) % 7).toNat, by omega⟩

/-- Holidays are kept sorted, without repetitions and only on open weekdays. -/
structure BusDayCalendar where
  weekmask : Fin 7 → Bool
  someOpen : ∃ weekday, weekmask weekday = true
  holidays : List Int
  sorted : holidays.Pairwise (· < ·)
  onOpenWeekdays : ∀ day ∈ holidays, weekmask (weekday day) = true

variable (calendar : BusDayCalendar)

/-- Open in the weekmask, and no holiday. -/
def BusDayCalendar.isOpen (day : Int) : Bool :=
  calendar.weekmask (weekday day) && !decide (day ∈ calendar.holidays)

/-- `np.roll(calendar.weekmask, -3)` as numbers -/
def BusDayCalendar.rolledWeekmask : List Int :=
  (List.finRange 7).map fun weekday => if calendar.weekmask (weekday + 3) then 1 else 0

/-- `np.concatenate(([0], np.cumsum(...)))` -/
def BusDayCalendar.prefixCounts : List Int := calendar.rolledWeekmask.scanl (· + ·) 0

/-- `np.searchsorted` -/
def searchsorted (sorted : List Int) (value : Int) : Nat := (sorted.takeWhile (· < value)).length

/-- `_business_day_ordinal` -/
def BusDayCalendar.businessDayOrdinal (day : Int) : Int :=
  let weekdays := day / 7 * calendar.rolledWeekmask.sum +
    calendar.prefixCounts.getD (day % 7).toNat 0
  weekdays - searchsorted calendar.holidays day

/-! ## One day -/

variable {calendar}

theorem length_rolledWeekmask : calendar.rolledWeekmask.length = 7 := by
  simp [BusDayCalendar.rolledWeekmask]

theorem prefixCounts_getD {phase : Nat} (inWeek : phase ≤ 7) :
    calendar.prefixCounts.getD phase 0 = (calendar.rolledWeekmask.take phase).sum := by
  rw [BusDayCalendar.prefixCounts, List.getD_eq_getElem?_getD, List.getElem?_scanl, if_pos,
    Option.getD_some, List.sum_eq_foldl]
  rw [length_rolledWeekmask]
  exact inWeek

theorem weekday_eq (week : Int) (phase : Fin 7) : weekday (7 * week + phase) = phase + 3 := by
  apply Fin.ext
  simp only [weekday, Fin.val_add]
  omega

/-- Open weekdays before a day, holidays not yet taken off. -/
def BusDayCalendar.weekdaysBefore (calendar : BusDayCalendar) (day : Int) : Int :=
  day / 7 * calendar.rolledWeekmask.sum + calendar.prefixCounts.getD (day % 7).toNat 0

theorem weekdaysBefore_eq (week : Int) {phase : Nat} (inWeek : phase ≤ 7) :
    calendar.weekdaysBefore (7 * week + phase) =
      week * calendar.rolledWeekmask.sum + (calendar.rolledWeekmask.take phase).sum := by
  unfold BusDayCalendar.weekdaysBefore
  rcases inWeek.lt_or_eq with inside | rfl
  · rw [show (7 * week + phase : Int) / 7 = week by omega,
      show ((7 * week + phase : Int) % 7).toNat = phase by omega, prefixCounts_getD inWeek]
  · -- seven days on is day zero of the next week
    rw [show (7 * week + (7 : Nat) : Int) / 7 = week + 1 by omega,
      show ((7 * week + (7 : Nat) : Int) % 7).toNat = 0 by omega, prefixCounts_getD (Nat.zero_le 7),
      List.take_of_length_le length_rolledWeekmask.le]
    simp
    ring

theorem weekdaysBefore_succ (day : Int) : calendar.weekdaysBefore (day + 1) =
    calendar.weekdaysBefore day + if calendar.weekmask (weekday day) then 1 else 0 := by
  obtain ⟨week, phase, rfl⟩ : ∃ (week : Int) (phase : Fin 7), day = 7 * week + (phase : Nat) :=
    ⟨day / 7, ⟨(day % 7).toNat, by omega⟩, by simp only; omega⟩
  have next : (7 * week + (phase : Nat) + 1 : Int) = 7 * week + ((phase + 1 : Nat) : Int) := by
    push_cast
    ring
  have inTable : (phase : Nat) < calendar.rolledWeekmask.length := by
    rw [length_rolledWeekmask]
    exact phase.isLt
  rw [next, weekdaysBefore_eq week phase.isLt, weekdaysBefore_eq week phase.isLt.le, weekday_eq,
    List.sum_take_succ _ _ inTable, ← add_assoc]
  simp [BusDayCalendar.rolledWeekmask]

theorem searchsorted_succ {sorted : List Int} (ascending : sorted.Pairwise (· < ·)) (day : Int) :
    (searchsorted sorted (day + 1) : Int) = searchsorted sorted day + if day ∈ sorted then 1 else 0 := by
  induction sorted with
  | nil => rfl
  | cons holiday rest ih =>
      obtain ⟨above, ascending⟩ := List.pairwise_cons.mp ascending
      have rest_eq := ih ascending
      unfold searchsorted at rest_eq ⊢
      rcases lt_trichotomy holiday day with before | rfl | after
      · rw [List.takeWhile_cons_of_pos (by simp; omega), List.takeWhile_cons_of_pos (by simpa)]
        simp only [List.length_cons, Nat.cast_add, Nat.cast_one, rest_eq, List.mem_cons,
          before.ne', false_or]
        ring
      · -- the holidays after this one are no earlier than the next day
        have none : rest.takeWhile (fun x => decide (x < holiday + 1)) = [] := by
          cases rest with
          | nil => rfl
          | cons next rest =>
              have later := above next List.mem_cons_self
              exact List.takeWhile_cons_of_neg (by simp; omega)
        rw [List.takeWhile_cons_of_pos (by simp), List.takeWhile_cons_of_neg (by simp), none]
        simp
      · have notLater : day ∉ rest := fun member => by
          have later := above day member
          omega
        rw [List.takeWhile_cons_of_neg (by simp; omega), List.takeWhile_cons_of_neg (by simp; omega)]
        simp [after.ne, notLater]

/-- From one day to the next the ordinal counts the day if it is open. -/
theorem businessDayOrdinal_succ (day : Int) : calendar.businessDayOrdinal (day + 1) =
    calendar.businessDayOrdinal day + if calendar.isOpen day then 1 else 0 := by
  have weekdays : calendar.weekdaysBefore (day + 1) = _ := weekdaysBefore_succ day
  have holidays := searchsorted_succ calendar.sorted day
  change calendar.weekdaysBefore (day + 1) - _ = calendar.weekdaysBefore day - _ + _
  rw [weekdays, holidays]
  by_cases holiday : day ∈ calendar.holidays
  · simp [BusDayCalendar.isOpen, holiday, calendar.onOpenWeekdays day holiday]
  · simp [BusDayCalendar.isOpen, holiday]
    ring

/-! ## Counting -/

/-- The open days of a half-open interval. -/
noncomputable def BusDayCalendar.openDays (calendar : BusDayCalendar) (first last : Int) : Finset Int :=
  (Finset.Ico first last).filter fun day => calendar.isOpen day = true

theorem openDays_succ {first last : Int} (ordered : first ≤ last) :
    ((calendar.openDays first (last + 1)).card : Int) =
      (calendar.openDays first last).card + if calendar.isOpen last then 1 else 0 := by
  have split : Finset.Ico first (last + 1) = insert last (Finset.Ico first last) := by
    ext day
    simp only [Finset.mem_Ico, Finset.mem_insert]
    omega
  unfold BusDayCalendar.openDays
  rw [split, Finset.filter_insert]
  split
  · rw [Finset.card_insert_of_notMem (by simp)]
    push_cast
    rfl
  · rw [add_zero]

theorem ordinal_counts {first last : Int} (ordered : first ≤ last) :
    calendar.businessDayOrdinal last - calendar.businessDayOrdinal first =
      (calendar.openDays first last).card := by
  induction last, ordered using Int.leInduction with
  | base => simp [BusDayCalendar.openDays]
  | succ last ordered ih =>
      rw [businessDayOrdinal_succ, openDays_succ ordered, ← ih]
      ring

/-- Ordinals count the open days between two days. -/
theorem businessDayOrdinal_counts (calendar : BusDayCalendar) (first last : Int)
    (ordered : first ≤ last) :
    calendar.businessDayOrdinal last - calendar.businessDayOrdinal first =
      (((Finset.Ico first last).filter fun day => calendar.isOpen day = true).card : Int) :=
  ordinal_counts ordered

/-- Sunday to Thursday, closed on 1969-12-25 and 1970-01-01. -/
def acrossEpoch : BusDayCalendar where
  weekmask weekday := weekday ≠ 4 ∧ weekday ≠ 5
  someOpen := ⟨0, by decide⟩
  holidays := [-7, 0]
  sorted := by decide
  onOpenWeekdays := by decide

theorem businessDayOrdinal_counts_acrossEpoch :
    acrossEpoch.businessDayOrdinal 9 - acrossEpoch.businessDayOrdinal (-12) = 13 ∧
      ((Finset.Ico (-12) 9).filter fun day => acrossEpoch.isOpen day = true).card = 13 := by
  have counts := businessDayOrdinal_counts acrossEpoch (-12) 9 (by decide)
  have ordinals : acrossEpoch.businessDayOrdinal 9 - acrossEpoch.businessDayOrdinal (-12) = 13 := by
    decide +kernel
  rw [ordinals] at counts
  exact ⟨ordinals, by exact_mod_cast counts.symm⟩

end Gambit.Calendars
