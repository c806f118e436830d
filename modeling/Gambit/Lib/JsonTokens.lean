import Gambit.Lib.PythonJson

/-!
# JSON strings and numbers are read as they were printed

Each scanner stops exactly where the printer did, whatever stands behind the
token, as long as nothing behind a number continues it.
-/

set_option autoImplicit false

namespace PythonJson

variable {φ : Type} (floats : FloatFormat φ)

/-! ## Strings -/

/-- The four digits of a `\u00XY` escape. -/
theorem hexCode_control : ∀ n < 32,
    hexCode '0' '0' (hexDigit (n / 16)) (hexDigit (n % 16)) = some n := by
  decide +kernel

theorem no_surrogate {n : Nat} (control : n < 32) : isHigh n = false ∧ isLow n = false := by
  constructor
  · simp only [isHigh, Bool.and_eq_false_iff, decide_eq_false_iff_not]
    omega
  · simp only [isLow, Bool.and_eq_false_iff, decide_eq_false_iff_not]
    omega

/-- One character of a string, by its escape. -/
theorem scanString_escape (c : Char) (rest : List Char) :
    scanString (escape c ++ rest) =
      (scanString rest).map fun scanned => (c :: scanned.1, scanned.2) := by
  by_cases quote : c = '"'
  · subst quote
    cases scanned : scanString rest <;> simp [escape, scanString, unescape, scanned]
  by_cases backslash : c = '\\'
  · subst backslash
    cases scanned : scanString rest <;> simp [escape, scanString, unescape, scanned]
  by_cases newline : c = '\n'
  · subst newline
    cases scanned : scanString rest <;> simp [escape, scanString, unescape, scanned]
  by_cases returned : c = '\r'
  · subst returned
    cases scanned : scanString rest <;> simp [escape, scanString, unescape, scanned]
  by_cases tab : c = '\t'
  · subst tab
    cases scanned : scanString rest <;> simp [escape, scanString, unescape, scanned]
  by_cases feed : c = Char.ofNat 12
  · subst feed
    cases scanned : scanString rest <;> simp [escape, scanString, unescape, scanned]
  by_cases backspace : c = Char.ofNat 8
  · subst backspace
    cases scanned : scanString rest <;> simp [escape, scanString, unescape, scanned]
  by_cases control : c.toNat < 32
  · obtain ⟨notHigh, notLow⟩ := no_surrogate control
    cases scanned : scanString rest <;>
      simp [escape, quote, backslash, newline, returned, tab, feed, backspace, control, scanString,
        hexCode_control _ control, notHigh, notLow, scanned]
  · cases scanned : scanString rest <;>
      simp [escape, quote, backslash, newline, returned, tab, feed, backspace, control, scanString,
        scanned]

theorem scanString_quoted (text rest : List Char) :
    scanString (text.flatMap escape ++ '"' :: rest) = some (text, rest) := by
  induction text with
  | nil => rfl
  | cons c text ih =>
      rw [List.flatMap_cons, List.append_assoc, scanString_escape, ih]
      rfl

/-! ## Numbers -/

/-- Nothing that would continue a number. -/
def EndsNumber (rest : List Char) : Prop :=
  ∀ c ∈ rest.head?, c.isDigit = false ∧ c ≠ '.' ∧ c ≠ 'e' ∧ c ≠ 'E'

/-- No further digit. -/
def EndsDigits (rest : List Char) : Prop := ∀ c ∈ rest.head?, c.isDigit = false

theorem takeWhile_digits {digits rest : List Char} (areDigits : AreDigits digits)
    (ends : EndsDigits rest) : (digits ++ rest).takeWhile Char.isDigit = digits := by
  rw [List.takeWhile_append_of_pos areDigits]
  cases rest with
  | nil => simp
  | cons c rest => rw [List.takeWhile_cons_of_neg (by simp [ends c rfl]), List.append_nil]

theorem dropWhile_digits {digits rest : List Char} (areDigits : AreDigits digits)
    (ends : EndsDigits rest) : (digits ++ rest).dropWhile Char.isDigit = rest := by
  rw [List.dropWhile_append_of_pos areDigits]
  cases rest with
  | nil => rfl
  | cons c rest => rw [List.dropWhile_cons_of_neg (by simp [ends c rfl])]

theorem scanWhole_text {whole rest : List Char} (areDigits : AreDigits whole)
    (leading : whole = ['0'] ∨ ∃ first others, whole = first :: others ∧ first ≠ '0')
    (ends : EndsDigits rest) : scanWhole (whole ++ rest) = some (whole, rest) := by
  obtain rfl | ⟨first, others, rfl, noZero⟩ := leading
  · rfl
  · have others_digits : AreDigits others := fun c member => areDigits c (List.mem_cons_of_mem _ member)
    rw [List.cons_append, scanWhole.eq_2 _ _ noZero, if_pos (areDigits first List.mem_cons_self),
      takeWhile_digits others_digits ends, dropWhile_digits others_digits ends]

/-- The fraction as it is printed. -/
def fractionText : Option (List Char) → List Char
  | none => []
  | some digits => '.' :: digits

def exponentText : Option (Option Char × List Char) → List Char
  | none => []
  | some (sign, digits) => 'e' :: (sign.toList ++ digits)

theorem text_eq (literal : NumberLiteral) :
    literal.text = (if literal.negative then ['-'] else []) ++ literal.whole ++
      fractionText literal.fraction ++ exponentText literal.exponent := rfl

theorem scanFraction_text {fraction : Option (List Char)} {rest : List Char}
    (valid : ∀ digits, fraction = some digits → digits ≠ [] ∧ AreDigits digits)
    (ends : ∀ c ∈ rest.head?, c.isDigit = false ∧ c ≠ '.') :
    scanFraction (fractionText fraction ++ rest) = (fraction, rest) := by
  cases fraction with
  | none =>
      cases rest with
      | nil => rfl
      | cons c rest => exact scanFraction.eq_2 _ fun _ same => (ends c rfl).2 (List.cons.inj same).1
  | some digits =>
      obtain ⟨nonempty, areDigits⟩ := valid digits rfl
      have endsDigits : EndsDigits rest := fun c here => (ends c here).1
      rw [fractionText, List.cons_append, scanFraction, takeWhile_digits areDigits endsDigits,
        dropWhile_digits areDigits endsDigits, if_neg nonempty]

theorem exponentSign_text {sign : Option Char} {digits rest : List Char}
    (signs : ∀ c, sign = some c → c = '+' ∨ c = '-') (nonempty : digits ≠ [])
    (areDigits : AreDigits digits) :
    exponentSign (sign.toList ++ digits ++ rest) = (sign, digits ++ rest) := by
  cases sign with
  | some c => exact if_pos (signs c rfl)
  | none =>
      cases digits with
      | nil => exact absurd rfl nonempty
      | cons first others =>
          have digit := areDigits first List.mem_cons_self
          refine if_neg ?_
          rintro (rfl | rfl) <;> exact absurd digit (by decide)

theorem scanExponent_text {exponent : Option (Option Char × List Char)} {rest : List Char}
    (valid : ∀ sign digits, exponent = some (sign, digits) →
      digits ≠ [] ∧ AreDigits digits ∧ ∀ c, sign = some c → c = '+' ∨ c = '-')
    (ends : EndsNumber rest) :
    scanExponent (exponentText exponent ++ rest) = (exponent, rest) := by
  match exponent with
  | none =>
      cases rest with
      | nil => rfl
      | cons c rest =>
          obtain ⟨-, -, noSmall, noCapital⟩ := ends c rfl
          exact if_neg fun here => here.1.elim noSmall noCapital
  | some (sign, digits) =>
      obtain ⟨nonempty, areDigits, signs⟩ := valid sign digits rfl
      have endsDigits : EndsDigits rest := fun c here => (ends c here).1
      rw [exponentText, List.cons_append, scanExponent,
        exponentSign_text signs nonempty areDigits, takeWhile_digits areDigits endsDigits,
        dropWhile_digits areDigits endsDigits, if_pos ⟨.inl rfl, nonempty⟩]

/-- What stands behind the whole part does not continue it. -/
theorem ends_exponent {exponent : Option (Option Char × List Char)} {rest : List Char}
    (ends : EndsNumber rest) :
    ∀ c ∈ (exponentText exponent ++ rest).head?, c.isDigit = false ∧ c ≠ '.' := by
  match exponent with
  | none => exact fun c here => ⟨(ends c here).1, (ends c here).2.1⟩
  | some (sign, digits) =>
      rintro c ⟨rfl⟩
      decide

theorem ends_fraction {fraction : Option (List Char)} {rest : List Char}
    (ends : EndsDigits rest) : EndsDigits (fractionText fraction ++ rest) := by
  cases fraction with
  | none => exact ends
  | some digits =>
      rintro c ⟨rfl⟩
      decide

theorem scanSign_text {negative : Bool} {text : List Char}
    (digit : ∀ c ∈ text.head?, c.isDigit = true) :
    scanSign ((if negative then ['-'] else []) ++ text) = (negative, text) := by
  cases negative with
  | true => rfl
  | false =>
      cases text with
      | nil => rfl
      | cons c text =>
          have noMinus : c ≠ '-' := by
            rintro rfl
            exact absurd (digit _ rfl) (by decide)
          exact scanSign.eq_2 _ fun _ same => noMinus (List.cons.inj same).1

theorem whole_first {literal : NumberLiteral} (valid : literal.Valid) :
    ∃ first others, literal.whole = first :: others ∧ first.isDigit = true := by
  obtain zero | ⟨first, others, whole, -⟩ := valid.leading
  · exact ⟨'0', [], zero, rfl⟩
  · exact ⟨first, others, whole, valid.digits first (by rw [whole]; exact List.mem_cons_self)⟩

theorem scanNumber_text {literal : NumberLiteral} {rest : List Char} (valid : literal.Valid)
    (ends : EndsNumber rest) : scanNumber (literal.text ++ rest) = some (literal, rest) := by
  obtain ⟨first, others, whole, digit⟩ := whole_first valid
  have behind : ∀ c ∈ (exponentText literal.exponent ++ rest).head?, c.isDigit = false ∧ c ≠ '.' :=
    ends_exponent ends
  have sign : scanSign (literal.text ++ rest) = (literal.negative, literal.whole ++
      (fractionText literal.fraction ++ (exponentText literal.exponent ++ rest))) := by
    rw [text_eq, List.append_assoc, List.append_assoc, List.append_assoc]
    refine scanSign_text ?_
    rw [whole]
    rintro c ⟨rfl⟩
    exact digit
  rw [scanNumber, sign]
  simp only [scanWhole_text valid.digits valid.leading
      (ends_fraction fun c here => (behind c here).1),
    scanFraction_text valid.fraction behind, scanExponent_text valid.exponent ends,
    Option.bind_eq_bind, Option.bind_some]

/-! ## The numbers Python prints -/

theorem toDigits_leading (n : Nat) : Nat.toDigits 10 n = ['0'] ∨
    ∃ first others, Nat.toDigits 10 n = first :: others ∧ first ≠ '0' := by
  induction n using Nat.strongRecOn with
  | _ n ih =>
      by_cases small : n < 10
      · rw [Nat.toDigits_of_lt_base small]
        interval_cases n <;> simp [Nat.digitChar]
      · rw [Nat.toDigits_of_base_le (by omega) (by omega)]
        obtain zero | ⟨first, others, digits, noZero⟩ := ih (n / 10) (by omega)
        · have isZero := congrArg (Nat.ofDigitChars 10 · 0) zero
          simp only [Nat.ofDigitChars_ten_toDigits] at isZero
          exact absurd isZero (by simp [Nat.ofDigitChars]; omega)
        · exact .inr ⟨first, _, by rw [digits, List.cons_append], noZero⟩

theorem intLiteral_valid (value : Int) : (intLiteral value).Valid where
  digits := fun _ member => Nat.isDigit_of_mem_toDigits (by decide) (by decide) member
  leading := toDigits_leading _
  fraction := by simp [intLiteral]
  exponent := by simp [intLiteral]

theorem numberValue_int (value : Int) : numberValue floats (intLiteral value) = .int value := by
  simp only [numberValue, intLiteral, NumberLiteral.isFloat, Option.isSome_none, Bool.or_self,
    Bool.false_eq_true, if_false, Nat.ofDigitChars_ten_toDigits, decide_eq_true_eq]
  split <;> congr <;> omega

theorem numberValue_float (value : φ) : numberValue floats (floats.repr value) = .float value := by
  rw [numberValue, if_pos (floats.isFloat value), floats.read_repr]

/-- A number's text starts with a digit, or with a minus and a digit. -/
theorem text_first {literal : NumberLiteral} (valid : literal.Valid) :
    ∃ first others, first.isDigit = true ∧
      (literal.text = first :: others ∨ literal.text = '-' :: first :: others) := by
  obtain ⟨first, others, whole, digit⟩ := whole_first valid
  refine ⟨first, others ++ fractionText literal.fraction ++ exponentText literal.exponent, digit, ?_⟩
  rw [text_eq, whole]
  cases literal.negative
  · exact .inl (by simp)
  · exact .inr (by simp)

end PythonJson
