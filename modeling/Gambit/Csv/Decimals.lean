import Gambit.Csv.Integers

/-!
# Decimals

`str_to_float` and `str_to_double` have the same body.  Their accumulators are
read as exact rationals here, `0.1f` as a tenth and `pow` as the exact power.
A read past the end of the memory has no result.
-/

set_option autoImplicit false

namespace Gambit.Csv

inductive Number where
  | nan
  | value (exact : ℚ)
deriving DecidableEq

/-- The loop over digits and separators, with the text it stops at. -/
def wholePart (thousandsSeparator : UInt8) : List UInt8 → ℚ → Option (ℚ × List UInt8)
  | [], _ => none
  | byte :: rest, result =>
      if isDigit byte || byte = thousandsSeparator then
        if byte = thousandsSeparator then wholePart thousandsSeparator rest result
        else wholePart thousandsSeparator rest (result * 10 + digitValue byte)
      else some (result, byte :: rest)

/-- The loop after the decimal point. -/
def fractionDigits : List UInt8 → ℚ → ℚ → Option (ℚ × List UInt8)
  | [], _, _ => none
  | byte :: rest, result, multiplier =>
      if isDigit byte then
        fractionDigits rest (result + digitValue byte * multiplier) (multiplier / 10)
      else some (result, byte :: rest)

def fractionPart (decimalPoint : UInt8) (str : List UInt8) (result : ℚ) :
    Option (ℚ × List UInt8) := do
  let point ← str.head?
  if point = decimalPoint then fractionDigits str.tail result (1 / 10)
  else some (result, str)

/-- The loop after the exponent's sign. -/
def exponentDigits : List UInt8 → Nat → Option Nat
  | [], _ => none
  | byte :: rest, power =>
      if isDigit byte then exponentDigits rest (power * 10 + digitValue byte) else some power

def exponentPart (str : List UInt8) (result : ℚ) : Option ℚ := do
  let mark ← str.head?
  if mark = 101 ∨ mark = 69 then
    let str := str.tail
    let minus ← str.head?
    let powerer : ℚ := if minus = 45 then 1 / 10 else 10
    let power ← exponentDigits (if minus = 45 then str.tail else str) 0
    some (result * powerer ^ power)
  else some result

/-- The body that `str_to_float` and `str_to_double` share, behind the sign. -/
def unsignedToNumber (sign : ℚ) (str : List UInt8) (decimalPoint thousandsSeparator : UInt8) :
    Option Number := do
  let leading ← str.head?
  let zero := leading = 48
  let (result, str) ← wholePart thousandsSeparator str 0
  if ¬ zero ∧ result = 0 then some .nan
  else
    let (result, str) ← fractionPart decimalPoint str result
    let result ← exponentPart str (result * sign)
    some (.value result)

def strToNumber (str : List UInt8) (decimalPoint thousandsSeparator : UInt8) :
    Option Number := do
  let first ← str.head?
  if first = 45 then unsignedToNumber (-1) str.tail decimalPoint thousandsSeparator
  else unsignedToNumber 1 str decimalPoint thousandsSeparator

def strToFloat (str : List UInt8) (decimalPoint thousandsSeparator : UInt8) : Option Number :=
  strToNumber str decimalPoint thousandsSeparator

def strToDouble (str : List UInt8) (decimalPoint thousandsSeparator : UInt8) : Option Number :=
  strToNumber str decimalPoint thousandsSeparator

/-! ## Literals -/

/-- The sign that may stand after `e`. -/
inductive ExponentSign where
  | absent | plus | minus
deriving DecidableEq

def ExponentSign.text : ExponentSign → List UInt8
  | .absent => []
  | .plus => [43]
  | .minus => [45]

structure Exponent where
  sign : ExponentSign
  digits : List UInt8
  areDigits : ∀ byte ∈ digits, isDigit byte = true
  nonempty : digits ≠ []

/-- `[-]digits[.digits][e[+|-]digits]` or `[-].digits[e[+|-]digits]` -/
structure Literal where
  negative : Bool
  whole : List UInt8
  fraction : Option (List UInt8)
  exponent : Option Exponent
  wholeAreDigits : ∀ byte ∈ whole, isDigit byte = true
  fractionAreDigits : ∀ digits ∈ fraction, digits ≠ [] ∧ ∀ byte ∈ digits, isDigit byte = true
  nonempty : whole = [] → fraction ≠ none

namespace Literal

def signText (literal : Literal) : List UInt8 := if literal.negative then [45] else []

def fractionText (literal : Literal) : List UInt8 :=
  match literal.fraction with
  | none => []
  | some digits => 46 :: digits

def exponentText (literal : Literal) : List UInt8 :=
  match literal.exponent with
  | none => []
  | some exponent => 101 :: (exponent.sign.text ++ exponent.digits)

def text (literal : Literal) : List UInt8 :=
  literal.signText ++ (literal.whole ++ (literal.fractionText ++ literal.exponentText))

def sign (literal : Literal) : ℚ := if literal.negative then -1 else 1

def fractionValue (literal : Literal) : ℚ :=
  match literal.fraction with
  | none => 0
  | some digits => digitsFrom 0 digits / 10 ^ digits.length

/-- The value before the exponent. -/
def mantissa (literal : Literal) : ℚ :=
  (digitsFrom 0 literal.whole + literal.fractionValue) * literal.sign

def power (literal : Literal) : ℤ :=
  match literal.exponent with
  | none => 0
  | some exponent =>
      match exponent.sign with
      | .minus => -(digitsFrom 0 exponent.digits : ℤ)
      | _ => digitsFrom 0 exponent.digits

def value (literal : Literal) : ℚ := literal.mantissa * 10 ^ literal.power

/-- The exponent is written with a plus sign. -/
def plusSigned (literal : Literal) : Bool := literal.exponent.any (·.sign = .plus)

end Literal

/-- The bytes a literal and its terminator are made of. -/
def isLiteralByte (byte : UInt8) : Bool :=
  isDigit byte || byte ∈ [0, 43, 45, 46, 101]

/-! ## The three loops on digits -/

theorem digitsFrom_shift (read : Nat) (digits : List UInt8) :
    digitsFrom read digits = read * 10 ^ digits.length + digitsFrom 0 digits := by
  induction digits generalizing read with
  | nil => simp [digitsFrom]
  | cons digit rest ih =>
      rw [digitsFrom_cons, digitsFrom_cons, ih, ih (10 * 0 + digitValue digit), List.length_cons,
        pow_succ]
      ring

theorem digitsFrom_pos (digits : List UInt8) {digit : UInt8} (isDigits : isDigit digit = true)
    (nonzero : digit ≠ 48) : 0 < digitsFrom 0 (digit :: digits) := by
  have value : 0 < digitValue digit := by
    simp only [isDigit, Bool.and_eq_true, decide_eq_true_eq] at isDigits
    have other : digit.toNat ≠ 48 := fun same => nonzero (UInt8.toNat_inj.1 same)
    unfold digitValue
    omega
  rw [digitsFrom_cons]
  exact lt_of_lt_of_le (by omega) (le_digitsFrom _ digits)

variable {thousandsSeparator stop : UInt8} {digits : List UInt8} (rest : List UInt8)

theorem wholePart_digits (areDigits : ∀ byte ∈ digits, isDigit byte = true)
    (apart : isDigit thousandsSeparator = false) (notDigit : isDigit stop = false)
    (other : stop ≠ thousandsSeparator) (read : Nat) :
    wholePart thousandsSeparator (digits ++ stop :: rest) read =
      some ((digitsFrom read digits : ℚ), stop :: rest) := by
  induction digits generalizing read with
  | nil => simp [wholePart, notDigit, other, digitsFrom]
  | cons digit digits ih =>
      have here := areDigits digit List.mem_cons_self
      have different : digit ≠ thousandsSeparator := by
        rintro rfl
        rw [here] at apart
        exact Bool.noConfusion apart
      rw [List.cons_append, wholePart, here, Bool.true_or, if_pos rfl, if_neg different,
        digitsFrom_cons, ← ih (fun byte inside => areDigits byte (List.mem_cons_of_mem _ inside))]
      push_cast
      rw [mul_comm]

theorem fractionDigits_digits (areDigits : ∀ byte ∈ digits, isDigit byte = true)
    (notDigit : isDigit stop = false) (result multiplier : ℚ) :
    fractionDigits (digits ++ stop :: rest) result multiplier =
      some (result + 10 * multiplier * (digitsFrom 0 digits / 10 ^ digits.length),
        stop :: rest) := by
  induction digits generalizing result multiplier with
  | nil => simp [fractionDigits, notDigit, digitsFrom]
  | cons digit digits ih =>
      rw [List.cons_append, fractionDigits, areDigits digit List.mem_cons_self, if_pos rfl,
        ih fun byte inside => areDigits byte (List.mem_cons_of_mem _ inside), digitsFrom_cons,
        digitsFrom_shift (10 * 0 + digitValue digit), List.length_cons, pow_succ]
      have scale : (10 : ℚ) ^ digits.length ≠ 0 := pow_ne_zero _ (by norm_num)
      refine congrArg some (Prod.ext ?_ rfl)
      push_cast
      field_simp
      ring

theorem exponentDigits_digits (areDigits : ∀ byte ∈ digits, isDigit byte = true)
    (notDigit : isDigit stop = false) (power : Nat) :
    exponentDigits (digits ++ stop :: rest) power = some (digitsFrom power digits) := by
  induction digits generalizing power with
  | nil => simp [exponentDigits, notDigit, digitsFrom]
  | cons digit digits ih =>
      rw [List.cons_append, exponentDigits, areDigits digit List.mem_cons_self, if_pos rfl,
        ih fun byte inside => areDigits byte (List.mem_cons_of_mem _ inside), digitsFrom_cons,
        mul_comm]

/-! ## The parts of a literal -/

namespace Literal

variable (literal : Literal) (beyond : List UInt8)

theorem exponentText_stops :
    ∃ stop rest, literal.exponentText ++ 0 :: beyond = stop :: rest ∧ (stop = 0 ∨ stop = 101) := by
  unfold exponentText
  cases literal.exponent with
  | none => exact ⟨0, beyond, rfl, Or.inl rfl⟩
  | some exponent => exact ⟨101, _, rfl, Or.inr rfl⟩

theorem fractionText_stops :
    ∃ stop rest, literal.fractionText ++ (literal.exponentText ++ 0 :: beyond) = stop :: rest ∧
      (stop = 46 ∨ stop = 0 ∨ stop = 101) ∧ (literal.fraction ≠ none → stop = 46) := by
  unfold fractionText
  cases literal.fraction with
  | none =>
      obtain ⟨stop, rest, same, which⟩ := literal.exponentText_stops beyond
      exact ⟨stop, rest, same, Or.inr which, fun present => absurd rfl present⟩
  | some digits => exact ⟨46, _, rfl, Or.inl rfl, fun _ => rfl⟩

theorem fractionPart_text (result : ℚ) :
    fractionPart 46 (literal.fractionText ++ (literal.exponentText ++ 0 :: beyond)) result =
      some (result + literal.fractionValue, literal.exponentText ++ 0 :: beyond) := by
  obtain ⟨stop, rest, same, which⟩ := literal.exponentText_stops beyond
  have notDigit : isDigit stop = false := by rcases which with rfl | rfl <;> rfl
  have notPoint : stop ≠ 46 := by rcases which with rfl | rfl <;> decide
  rw [same]
  unfold fractionText fractionValue
  cases present : literal.fraction with
  | none => simp [fractionPart, notPoint]
  | some digits =>
      have areDigits := (literal.fractionAreDigits digits present).2
      have loop := fractionDigits_digits rest areDigits notDigit result (1 / 10)
      norm_num at loop
      simpa [fractionPart] using loop

theorem exponentPart_text (result : ℚ) :
    exponentPart (literal.exponentText ++ 0 :: beyond) result =
      some (result * 10 ^ (if literal.plusSigned then 0 else literal.power)) := by
  unfold exponentText plusSigned power
  cases literal.exponent with
  | none => simp [exponentPart]
  | some exponent =>
      obtain ⟨sign, digits, areDigits, nonempty⟩ := exponent
      have notDigit : isDigit 0 = false := rfl
      have loop := exponentDigits_digits beyond areDigits notDigit 0
      cases sign with
      | minus => simp [exponentPart, ExponentSign.text, loop]
      | plus => simp [exponentPart, ExponentSign.text, exponentDigits, isDigit]
      | absent =>
          cases digits with
          | nil => exact absurd rfl nonempty
          | cons digit digits =>
              have isDigits := areDigits digit List.mem_cons_self
              have notMinus : digit ≠ 45 := by
                rintro rfl
                exact Bool.noConfusion isDigits
              simp only [List.cons_append] at loop
              simp [exponentPart, ExponentSign.text, loop, notMinus]

theorem wholePart_text {thousandsSeparator : UInt8}
    (apart : isLiteralByte thousandsSeparator = false) :
    wholePart thousandsSeparator
        (literal.whole ++ (literal.fractionText ++ (literal.exponentText ++ 0 :: beyond))) 0 =
      some ((digitsFrom 0 literal.whole : ℚ),
        literal.fractionText ++ (literal.exponentText ++ 0 :: beyond)) := by
  obtain ⟨stop, rest, same, which, _⟩ := literal.fractionText_stops beyond
  have literalByte : isLiteralByte stop = true := by rcases which with rfl | rfl | rfl <;> rfl
  have notDigit : isDigit stop = false := by rcases which with rfl | rfl | rfl <;> rfl
  have other : stop ≠ thousandsSeparator := by
    rintro rfl
    rw [literalByte] at apart
    exact Bool.noConfusion apart
  have notDigitSeparator : isDigit thousandsSeparator = false :=
    (Bool.or_eq_false_iff.1 apart).1
  rw [same]
  exact mod_cast wholePart_digits rest literal.wholeAreDigits notDigitSeparator notDigit other 0

theorem unsignedToNumber_text {thousandsSeparator : UInt8}
    (apart : isLiteralByte thousandsSeparator = false) (sign : ℚ) :
    unsignedToNumber sign
        (literal.whole ++ (literal.fractionText ++ (literal.exponentText ++ 0 :: beyond))) 46
        thousandsSeparator =
      some (if literal.whole = [] then .nan
        else .value ((digitsFrom 0 literal.whole + literal.fractionValue) * sign *
          10 ^ (if literal.plusSigned then 0 else literal.power))) := by
  have loop := literal.wholePart_text beyond apart
  have fraction := literal.fractionPart_text beyond (digitsFrom 0 literal.whole)
  have areDigits := literal.wholeAreDigits
  rw [unsignedToNumber, loop]
  cases whole : literal.whole with
  | nil =>
      obtain ⟨stop, rest, same, _, point⟩ := literal.fractionText_stops beyond
      have notZero : stop ≠ 48 := by
        rw [point (literal.nonempty whole)]
        decide
      rw [List.nil_append, same]
      simp [notZero, digitsFrom]
  | cons digit digits =>
      rw [whole] at fraction areDigits
      have effective : ¬ (¬ digit = 48 ∧ (digitsFrom 0 (digit :: digits) : ℚ) = 0) := by
        rintro ⟨notZero, vanishes⟩
        have positive := digitsFrom_pos digits (areDigits digit List.mem_cons_self) notZero
        exact absurd (Nat.cast_eq_zero.1 vanishes) positive.ne'
      simp only [List.cons_append, List.head?_cons, Option.bind_eq_bind, Option.bind_some,
        if_neg effective, fraction, exponentPart_text, reduceCtorEq, if_false]

theorem unsignedText_first {first : UInt8} {rest : List UInt8}
    (start : literal.whole ++ (literal.fractionText ++ (literal.exponentText ++ 0 :: beyond)) =
      first :: rest) : first ≠ 45 := by
  cases whole : literal.whole with
  | nil =>
      obtain ⟨stop, tail, same, _, point⟩ := literal.fractionText_stops beyond
      rw [whole, List.nil_append, same] at start
      cases start
      rw [point (literal.nonempty whole)]
      decide
  | cons digit digits =>
      have isDigits := literal.wholeAreDigits digit (by simp [whole])
      rw [whole] at start
      cases start
      rintro rfl
      exact Bool.noConfusion isDigits

/-- What the parsers make of a literal. -/
theorem strToNumber_text {thousandsSeparator : UInt8}
    (apart : isLiteralByte thousandsSeparator = false) :
    strToNumber (literal.text ++ 0 :: beyond) 46 thousandsSeparator =
      some (if literal.whole = [] then .nan
        else .value (literal.mantissa *
          10 ^ (if literal.plusSigned then 0 else literal.power))) := by
  have unsigned := fun sign => literal.unsignedToNumber_text beyond apart sign
  unfold strToNumber text signText mantissa sign
  simp only [List.append_assoc]
  cases literal.negative with
  | true => simpa using unsigned (-1)
  | false =>
      simp only [Bool.false_eq_true, if_false, List.nil_append]
      rw [← unsigned 1]
      cases text : literal.whole ++ (literal.fractionText ++ (literal.exponentText ++ 0 :: beyond)) with
      | nil => simp at text
      | cons first rest => simp [literal.unsignedText_first beyond text]

end Literal

/-- `.5` -/
def pointFive : Literal where
  negative := false
  whole := []
  fraction := some [53]
  exponent := none
  wholeAreDigits := by simp [isDigit]
  fractionAreDigits := by simp [isDigit]
  nonempty := by decide

/-- `1e+5` -/
def plusFive : Literal where
  negative := false
  whole := [49]
  fraction := none
  exponent := some
    { sign := .plus, digits := [53], areDigits := by simp [isDigit], nonempty := by decide }
  wholeAreDigits := by simp [isDigit]
  fractionAreDigits := by simp [isDigit]
  nonempty := by decide

/-- `-12.5e-1` -/
def negativeLiteral : Literal where
  negative := true
  whole := [49, 50]
  fraction := some [53]
  exponent := some
    { sign := .minus, digits := [49], areDigits := by simp [isDigit], nonempty := by decide }
  wholeAreDigits := by simp [isDigit]
  fractionAreDigits := by simp [isDigit]
  nonempty := by decide

end Gambit.Csv
