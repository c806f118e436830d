import Mathlib.Tactic

/-!
# Integers

`checked_integer` accumulates a magnitude in an unsigned 64-bit integer and
checks every digit against the limit before it is added.  Operations that would
leave the range of their type are errors of the model.
-/

set_option autoImplicit false

namespace Gambit.Csv

/-- The target types. -/
inductive Width where
  | int32 | int64
deriving DecidableEq

/-- `std::numeric_limits<T>::max()` -/
def Width.maximum : Width → Nat
  | .int32 => 2 ^ 31 - 1
  | .int64 => 2 ^ 63 - 1

/-- `std::numeric_limits<T>::min()` -/
def Width.minimum (width : Width) : Int := -(width.maximum : Int) - 1

inductive IntegerError where
  | outOfRange
  /-- An operation whose result does not fit its type. -/
  | overflow
  | readPastEnd
deriving DecidableEq

def checkedAdd (x y : UInt64) : Except IntegerError UInt64 :=
  if x.toNat + y.toNat < 2 ^ 64 then .ok (x + y) else .error .overflow

def checkedSub (x y : UInt64) : Except IntegerError UInt64 :=
  if y.toNat ≤ x.toNat then .ok (x - y) else .error .overflow

def checkedMul (x y : UInt64) : Except IntegerError UInt64 :=
  if x.toNat * y.toNat < 2 ^ 64 then .ok (x * y) else .error .overflow

/-- A signed value of the target type. -/
def Width.fit (width : Width) (value : Int) : Except IntegerError Int :=
  if width.minimum ≤ value ∧ value ≤ width.maximum then .ok value else .error .overflow

def isDigit (byte : UInt8) : Bool := 48 ≤ byte.toNat && byte.toNat ≤ 57

/-- `*str - '0'` of a digit -/
def digitValue (byte : UInt8) : Nat := byte.toNat - 48

/-- The loop of `checked_integer` from the address `str` points to. -/
def accumulate (limit : UInt64) (thousandsSeparator : UInt8) :
    List UInt8 → UInt64 → Except IntegerError UInt64
  | [], _ => .error .readPastEnd
  | byte :: rest, result =>
      if isDigit byte || byte = thousandsSeparator then
        if byte = thousandsSeparator then accumulate limit thousandsSeparator rest result
        else do
          let digit := UInt64.ofNat (digitValue byte)
          let room ← checkedSub limit digit
          if room / 10 < result then .error .outOfRange
          let scaled ← checkedMul result 10
          let result ← checkedAdd scaled digit
          accumulate limit thousandsSeparator rest result
      else .ok result

def checkedInteger (width : Width) (str : List UInt8) (thousandsSeparator : UInt8) :
    Except IntegerError Int := do
  let negative := str.head? = some 45
  let str := if negative then str.tail else str
  let maximum := UInt64.ofNat width.maximum
  let limit ← checkedAdd maximum (if negative then 1 else 0)
  let result ← accumulate limit thousandsSeparator str 0
  let beyond ← checkedAdd maximum 1
  if negative ∧ result = beyond then .ok width.minimum
  else
    let value ← width.fit result.toNat
    if negative then width.fit (-value) else .ok value

def strToInt32 (str : List UInt8) (thousandsSeparator : UInt8) : Except IntegerError Int :=
  checkedInteger .int32 str thousandsSeparator

def strToInt64 (str : List UInt8) (thousandsSeparator : UInt8) : Except IntegerError Int :=
  checkedInteger .int64 str thousandsSeparator

/-! ## The value of a prefix -/

/-- The value of decimal digits after those already read. -/
def digitsFrom (read : Nat) (digits : List UInt8) : Nat :=
  digits.foldl (fun value digit => 10 * value + digitValue digit) read

/-- The digits of the longest prefix of digits and separators. -/
def leadingDigits (thousandsSeparator : UInt8) (text : List UInt8) : List UInt8 :=
  (text.takeWhile fun byte => isDigit byte || byte = thousandsSeparator).filter
    (· ≠ thousandsSeparator)

/-- The signed value of the longest prefix of an optional minus sign and digits and separators. -/
def leadingInteger (thousandsSeparator : UInt8) : List UInt8 → Int
  | [] => 0
  | byte :: rest =>
      if byte = 45 then -(digitsFrom 0 (leadingDigits thousandsSeparator rest) : Int)
      else digitsFrom 0 (leadingDigits thousandsSeparator (byte :: rest))

theorem le_digitsFrom (read : Nat) (digits : List UInt8) : read ≤ digitsFrom read digits := by
  induction digits generalizing read with
  | nil => exact Nat.le_refl _
  | cons digit rest ih =>
      refine Nat.le_trans ?_ (ih (10 * read + digitValue digit))
      omega

theorem digitsFrom_cons (read : Nat) (digit : UInt8) (rest : List UInt8) :
    digitsFrom read (digit :: rest) = digitsFrom (10 * read + digitValue digit) rest := by
  rw [digitsFrom, digitsFrom, List.foldl_cons]

variable {width : Width} {thousandsSeparator byte : UInt8} {text : List UInt8}

theorem leadingDigits_separator :
    leadingDigits thousandsSeparator (thousandsSeparator :: text) =
      leadingDigits thousandsSeparator text := by
  simp [leadingDigits]

theorem leadingDigits_digit (digit : isDigit byte = true) (other : byte ≠ thousandsSeparator) :
    leadingDigits thousandsSeparator (byte :: text) =
      byte :: leadingDigits thousandsSeparator text := by
  simp [leadingDigits, digit, other]

theorem leadingDigits_stop (notDigit : isDigit byte = false) (other : byte ≠ thousandsSeparator) :
    leadingDigits thousandsSeparator (byte :: text) = [] := by
  simp [leadingDigits, notDigit, other]

theorem digitValue_lt (digit : isDigit byte = true) : digitValue byte < 10 := by
  simp only [isDigit, Bool.and_eq_true, decide_eq_true_eq] at digit
  unfold digitValue
  omega

/-! ## The loop -/

theorem accumulate_ok {limit result : UInt64} (nonzero : thousandsSeparator ≠ 0)
    (large : 9 ≤ limit.toNat) (within : result.toNat ≤ limit.toNat) (beyond : List UInt8) :
    accumulate limit thousandsSeparator (text ++ 0 :: beyond) result =
      if digitsFrom result.toNat (leadingDigits thousandsSeparator text) ≤ limit.toNat then
        .ok (UInt64.ofNat (digitsFrom result.toNat (leadingDigits thousandsSeparator text)))
      else .error .outOfRange := by
  induction text generalizing result with
  | nil =>
      have notSeparator : ¬ (0 : UInt8) = thousandsSeparator := fun zero => nonzero zero.symm
      rw [List.nil_append, accumulate]
      simp [isDigit, notSeparator, leadingDigits, digitsFrom, within]
  | cons byte text ih =>
      rw [List.cons_append, accumulate]
      by_cases separator : byte = thousandsSeparator
      · subst separator
        simp only [decide_true, Bool.or_true, if_true, leadingDigits_separator]
        exact ih within
      · cases digit : isDigit byte with
        | false =>
            rw [leadingDigits_stop digit separator]
            simp [separator, digitsFrom, within]
        | true =>
            rw [leadingDigits_digit digit separator, digitsFrom_cons]
            simp only [separator, decide_false, Bool.or_false, if_true, if_false]
            have small := digitValue_lt digit
            have cast : (UInt64.ofNat (digitValue byte)).toNat = digitValue byte :=
              UInt64.toNat_ofNat_of_lt' (lt_trans small (by decide))
            have room : checkedSub limit (UInt64.ofNat (digitValue byte)) =
                .ok (limit - UInt64.ofNat (digitValue byte)) :=
              if_pos (by rw [cast]; omega)
            have left : (limit - UInt64.ofNat (digitValue byte)).toNat =
                limit.toNat - digitValue byte := by
              rw [UInt64.toNat_sub_of_le _ _ (by rw [UInt64.le_iff_toNat_le, cast]; omega), cast]
            have grows := le_digitsFrom (10 * result.toNat + digitValue byte)
              (leadingDigits thousandsSeparator text)
            have bounded := limit.toNat_lt
            have test : (limit - UInt64.ofNat (digitValue byte)) / 10 < result ↔
                limit.toNat < 10 * result.toNat + digitValue byte := by
              rw [UInt64.lt_iff_toNat_lt, UInt64.toNat_div, left]
              change (limit.toNat - digitValue byte) / 10 < result.toNat ↔ _
              omega
            rw [room]
            simp only [bind, Except.bind, test]
            by_cases exceeds : limit.toNat < 10 * result.toNat + digitValue byte
            · rw [if_pos exceeds, if_neg (by omega)]
            · have scaled : checkedMul result 10 = .ok (result * 10) :=
                if_pos (by change result.toNat * 10 < 2 ^ 64; omega)
              have scaledNat : (result * 10).toNat = result.toNat * 10 := by
                rw [UInt64.toNat_mul]
                change result.toNat * 10 % 2 ^ 64 = _
                omega
              have added : checkedAdd (result * 10) (UInt64.ofNat (digitValue byte)) =
                  .ok (result * 10 + UInt64.ofNat (digitValue byte)) :=
                if_pos (by rw [scaledNat, cast]; omega)
              have addedNat : (result * 10 + UInt64.ofNat (digitValue byte)).toNat =
                  10 * result.toNat + digitValue byte := by
                rw [UInt64.toNat_add, scaledNat, cast]
                omega
              rw [if_neg exceeds, scaled]
              simp only [added]
              rw [ih (by rw [addedNat]; omega), addedNat]

theorem accumulate_zero (limit : UInt64) (text beyond : List UInt8)
    (nonzero : thousandsSeparator ≠ 0) (large : 9 ≤ limit.toNat) :
    accumulate limit thousandsSeparator (text ++ 0 :: beyond) 0 =
      if digitsFrom 0 (leadingDigits thousandsSeparator text) ≤ limit.toNat then
        .ok (UInt64.ofNat (digitsFrom 0 (leadingDigits thousandsSeparator text)))
      else .error .outOfRange :=
  accumulate_ok nonzero large (Nat.zero_le _) beyond

theorem Width.maximum_lt (width : Width) : width.maximum < 2 ^ 63 := by
  cases width <;> decide

theorem Width.nine_le_maximum (width : Width) : 9 ≤ width.maximum := by
  cases width <;> decide

theorem Width.toNat_maximum (width : Width) :
    (UInt64.ofNat width.maximum).toNat = width.maximum :=
  UInt64.toNat_ofNat_of_lt' (lt_trans width.maximum_lt (by decide))

theorem Width.checkedAdd_maximum (width : Width) :
    checkedAdd (UInt64.ofNat width.maximum) 1 = .ok (UInt64.ofNat (width.maximum + 1)) := by
  have below := width.maximum_lt
  rw [checkedAdd, if_pos (by rw [width.toNat_maximum]; change width.maximum + 1 < _; omega)]
  exact congrArg _ (UInt64.ofNat_add width.maximum 1).symm

theorem Width.toNat_maximum_add_one (width : Width) :
    (UInt64.ofNat (width.maximum + 1)).toNat = width.maximum + 1 := by
  have below := width.maximum_lt
  exact UInt64.toNat_ofNat_of_lt' (lt_trans (b := 2 ^ 63 + 1) (by omega) (by decide))

theorem Width.fit_ok {value : Int} (atLeast : width.minimum ≤ value)
    (atMost : value ≤ width.maximum) : width.fit value = .ok value :=
  if_pos ⟨atLeast, atMost⟩

theorem checkedInteger_unsigned (nonzero : thousandsSeparator ≠ 0) (noSign : text.head? ≠ some 45)
    (beyond : List UInt8) :
    checkedInteger width (text ++ 0 :: beyond) thousandsSeparator =
      if digitsFrom 0 (leadingDigits thousandsSeparator text) ≤ width.maximum then
        .ok (digitsFrom 0 (leadingDigits thousandsSeparator text) : Int)
      else .error .outOfRange := by
  have positive : (text ++ 0 :: beyond).head? ≠ some 45 := by
    cases text with
    | nil => simp
    | cons byte rest => simpa using noSign
  have below := width.maximum_lt
  have limit : checkedAdd (UInt64.ofNat width.maximum) 0 = .ok (UInt64.ofNat width.maximum) := by
    rw [checkedAdd, UInt64.toNat_zero, Nat.add_zero, if_pos (UInt64.toNat_lt _), UInt64.add_zero]
  have loop := accumulate_zero (UInt64.ofNat width.maximum) text beyond nonzero
    (by rw [width.toNat_maximum]; exact width.nine_le_maximum)
  rw [width.toNat_maximum] at loop
  simp only [checkedInteger, positive, if_false, limit, loop,
    width.checkedAdd_maximum, bind, Except.bind, false_and]
  generalize digitsFrom 0 (leadingDigits thousandsSeparator text) = value
  by_cases fits : value ≤ width.maximum
  · have stored : (UInt64.ofNat value).toNat = value :=
      UInt64.toNat_ofNat_of_lt' (lt_of_le_of_lt fits (lt_trans below (by decide)))
    have least : width.minimum ≤ value := by
      unfold Width.minimum
      omega
    rw [if_pos fits, if_pos fits]
    simp only [stored, Width.fit_ok least (Int.ofNat_le.2 fits)]
  · rw [if_neg fits, if_neg fits]

theorem checkedInteger_negative (nonzero : thousandsSeparator ≠ 0) (beyond : List UInt8) :
    checkedInteger width (45 :: text ++ 0 :: beyond) thousandsSeparator =
      if digitsFrom 0 (leadingDigits thousandsSeparator text) ≤ width.maximum + 1 then
        .ok (-(digitsFrom 0 (leadingDigits thousandsSeparator text) : Int))
      else .error .outOfRange := by
  have below := width.maximum_lt
  have least := width.nine_le_maximum
  have loop := accumulate_zero (UInt64.ofNat (width.maximum + 1)) text beyond nonzero
    (by rw [width.toNat_maximum_add_one]; omega)
  rw [width.toNat_maximum_add_one] at loop
  simp only [checkedInteger, List.cons_append, List.head?_cons, if_true,
    List.tail_cons, loop, width.checkedAdd_maximum, bind, Except.bind, true_and]
  generalize digitsFrom 0 (leadingDigits thousandsSeparator text) = value
  by_cases fits : value ≤ width.maximum + 1
  · have stored : (UInt64.ofNat value).toNat = value :=
      UInt64.toNat_ofNat_of_lt'
        (lt_of_le_of_lt (b := 2 ^ 63) (by omega) (by decide))
    rw [if_pos fits, if_pos fits]
    -- The minimum is the one magnitude that has no positive counterpart.
    by_cases smallest : value = width.maximum + 1
    · simp only [smallest, if_true]
      refine congrArg _ ?_
      unfold Width.minimum
      omega
    · have other : UInt64.ofNat value ≠ UInt64.ofNat (width.maximum + 1) := by
        intro same
        refine smallest ?_
        rw [← stored, same, width.toNat_maximum_add_one]
      have positive : width.fit value = .ok (value : Int) :=
        Width.fit_ok (by unfold Width.minimum; omega) (by omega)
      have negative : width.fit (-value) = .ok (-(value : Int)) :=
        Width.fit_ok (by unfold Width.minimum; omega) (by omega)
      simp only [other, if_false, stored, positive, negative]
  · rw [if_neg fits, if_neg fits]

theorem checkedInteger_text (width : Width) (text beyond : List UInt8)
    (thousandsSeparator : UInt8) (nonzero : thousandsSeparator ≠ 0) :
    checkedInteger width (text ++ 0 :: beyond) thousandsSeparator =
      if width.minimum ≤ leadingInteger thousandsSeparator text ∧
          leadingInteger thousandsSeparator text ≤ width.maximum then
        .ok (leadingInteger thousandsSeparator text)
      else .error .outOfRange := by
  have minimum : width.minimum = -(width.maximum : Int) - 1 := rfl
  by_cases signed : text.head? = some 45
  · obtain ⟨rest, rfl⟩ : ∃ rest, text = 45 :: rest := by
      cases text with
      | nil => simp at signed
      | cons byte rest => exact ⟨rest, by simpa using signed⟩
    rw [checkedInteger_negative nonzero beyond, leadingInteger, if_pos rfl]
    refine if_congr ?_ rfl rfl
    omega
  · have value : leadingInteger thousandsSeparator text =
        digitsFrom 0 (leadingDigits thousandsSeparator text) := by
      cases text with
      | nil => rfl
      | cons byte rest =>
          have other : byte ≠ 45 := by simpa using signed
          rw [leadingInteger, if_neg other]
    rw [checkedInteger_unsigned nonzero signed beyond, value]
    refine if_congr ?_ rfl rfl
    omega

/-- `checked_integer` returns the value of the prefix where the type has it and raises
elsewhere; no operation on the way leaves its type. -/
theorem checkedInteger_exact (width : Width) (text beyond : List UInt8)
    (thousandsSeparator : UInt8) (nonzero : thousandsSeparator ≠ 0) :
    checkedInteger width (text ++ 0 :: beyond) thousandsSeparator =
      if width.minimum ≤ leadingInteger thousandsSeparator text ∧
          leadingInteger thousandsSeparator text ≤ width.maximum then
        .ok (leadingInteger thousandsSeparator text)
      else .error .outOfRange :=
  checkedInteger_text width text beyond thousandsSeparator nonzero

/-- `-2147483648` with a separator, and one less. -/
theorem checkedInteger_exact_minimum :
    strToInt32 ([45, 50, 49, 52, 55, 44, 52, 56, 51, 54, 52, 56] ++ 0 :: []) 44 =
        .ok (-2147483648) ∧
      strToInt32 ([45, 50, 49, 52, 55, 44, 52, 56, 51, 54, 52, 57] ++ 0 :: []) 44 =
        .error .outOfRange :=
  ⟨(checkedInteger_exact .int32 _ [] 44 (by decide)).trans (by decide +kernel),
    (checkedInteger_exact .int32 _ [] 44 (by decide)).trans (by decide +kernel)⟩

end Gambit.Csv
