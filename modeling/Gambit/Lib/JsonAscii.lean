import Gambit.Lib.JsonRoundTrip

/-!
# JSON texts in ASCII

`json.dumps` with `ensure_ascii` prints what it prints without, and each character
beyond ASCII as an escape.  The escapes, and a newline at the end, change nothing
of what a text is read as.
-/

set_option autoImplicit false

namespace PythonJson

variable {φ : Type} (floats : FloatFormat φ)

/-- `\uXXXX` -/
def unicodeEscape (code : Nat) : List Char :=
  ['\\', 'u', hexDigit (code / 4096), hexDigit (code / 256 % 16), hexDigit (code / 16 % 16),
    hexDigit (code % 16)]

/-- A character of a string; beyond 16 bits it is two surrogates. -/
def asciiEscape (c : Char) : List Char :=
  if c.toNat < 127 then [c]
  else if c.toNat < 0x10000 then unicodeEscape c.toNat
  else unicodeEscape (0xd800 + (c.toNat - 0x10000) / 1024) ++
    unicodeEscape (0xdc00 + (c.toNat - 0x10000) % 1024)

def asciiText (text : List Char) : List Char := text.flatMap asciiEscape

/-- `json.dumps` with `ensure_ascii`: outside its strings a text is ASCII anyway. -/
def dumpsAscii (value : PyValue φ) : Option (List Char) := (dumps floats value).map asciiText

/-- The text as a file holds it, with a newline. -/
def asciiLine (text : List Char) : List Char := asciiText text ++ ['\n']

/-! ## Escapes -/

theorem asciiLine_nil : asciiLine [] = ['\n'] := rfl

theorem asciiLine_cons (c : Char) (text : List Char) :
    asciiLine (c :: text) = asciiEscape c ++ asciiLine text := by
  simp [asciiLine, asciiText]

theorem asciiLine_ascii {c : Char} (ascii : c.toNat < 127) (text : List Char) :
    asciiLine (c :: text) = c :: asciiLine text := by
  rw [asciiLine_cons, asciiEscape, if_pos ascii]
  rfl

/-- A line starts as its text does, or with what starts no token. -/
theorem asciiLine_first (text : List Char) :
    (∃ c rest, text = c :: rest ∧ c.toNat < 127 ∧ asciiLine text = c :: asciiLine rest) ∨
      ∃ c rest, (c = '\\' ∨ c = '\n') ∧ asciiLine text = c :: rest ∧
        ∀ first ∈ text.head?, ¬ first.toNat < 127 := by
  cases text with
  | nil => exact .inr ⟨'\n', [], .inr rfl, rfl, by simp⟩
  | cons c text =>
      by_cases ascii : c.toNat < 127
      · exact .inl ⟨c, text, rfl, ascii, asciiLine_ascii ascii text⟩
      · refine .inr ⟨'\\', ?_⟩
        rw [asciiLine_cons, asciiEscape, if_neg ascii]
        have foreign : ∀ first ∈ (c :: text).head?, ¬ first.toNat < 127 := by
          rintro first ⟨rfl⟩
          exact ascii
        split
        · exact ⟨_, .inl rfl, rfl, foreign⟩
        · exact ⟨_, .inl rfl, rfl, foreign⟩

theorem hexValue_digit : ∀ n < 16, hexValue (hexDigit n) = some n := by
  decide +kernel

theorem hexCode_escape {code : Nat} (small : code < 0x10000) :
    hexCode (hexDigit (code / 4096)) (hexDigit (code / 256 % 16)) (hexDigit (code / 16 % 16))
      (hexDigit (code % 16)) = some code := by
  simp only [hexCode, hexValue_digit (code / 4096) (by omega), hexValue_digit (code / 256 % 16) (by omega),
    hexValue_digit (code / 16 % 16) (by omega), hexValue_digit (code % 16) (by omega),
    Option.bind_eq_bind, Option.bind_some, Option.some.injEq]
  omega

theorem hexValue_ascii {c : Char} {n : Nat} (value : hexValue c = some n) : c.toNat < 127 := by
  unfold hexValue at value
  split at value
  · rename_i digit
    have upper := (Char.isDigit_iff_toNat.mp digit).2
    have : '9'.toNat = 57 := rfl
    omega
  · split at value
    · rename_i lower
      have upper : c.toNat ≤ 'f'.toNat := lower.2
      have : 'f'.toNat = 102 := rfl
      omega
    · split at value
      · rename_i capital
        have upper : c.toNat ≤ 'F'.toNat := capital.2
        have : 'F'.toNat = 70 := rfl
        omega
      · cases value

theorem hexCode_ascii {a b c d : Char} {code : Nat} (value : hexCode a b c d = some code) :
    a.toNat < 127 ∧ b.toNat < 127 ∧ c.toNat < 127 ∧ d.toNat < 127 := by
  simp only [hexCode, Option.bind_eq_bind, Option.bind_eq_some_iff] at value
  obtain ⟨first, readA, second, readB, third, readC, fourth, readD, -⟩ := value
  exact ⟨hexValue_ascii readA, hexValue_ascii readB, hexValue_ascii readC, hexValue_ascii readD⟩

theorem unescape_ascii {c result : Char} (value : unescape c = some result) : c.toNat < 127 := by
  unfold unescape at value
  split_ifs at value <;> subst_vars <;> decide

theorem scanString_unicode {a b c d : Char} {code : Nat} (read : hexCode a b c d = some code)
    (notHigh : isHigh code = false) (notLow : isLow code = false) (rest : List Char) :
    scanString ('\\' :: 'u' :: a :: b :: c :: d :: rest) =
      (scanString rest).map fun scanned => (Char.ofNat code :: scanned.1, scanned.2) := by
  simp only [scanString, read, notHigh, notLow, Option.bind_eq_bind, Option.bind_some,
    Bool.false_eq_true, if_false]
  cases scanString rest <;> rfl

theorem scanString_pair {a b c d e f g h : Char} {code low : Nat}
    (read : hexCode a b c d = some code) (readLow : hexCode e f g h = some low)
    (isHigh : isHigh code = true) (isLow : isLow low = true) (rest : List Char) :
    scanString ('\\' :: 'u' :: a :: b :: c :: d :: '\\' :: 'u' :: e :: f :: g :: h :: rest) =
      (scanString rest).map fun scanned =>
        (Char.ofNat (0x10000 + ((code - 0xd800) * 1024 + (low - 0xdc00))) :: scanned.1, scanned.2) := by
  simp only [scanString, read, readLow, isHigh, isLow, Option.bind_eq_bind, Option.bind_some, if_true]
  cases scanString rest <;> rfl

/-- The escape of a character is read as the character. -/
theorem scanString_asciiEscape {c : Char} (foreign : ¬ c.toNat < 127) (rest : List Char) :
    scanString (asciiEscape c ++ rest) =
      (scanString rest).map fun scanned => (c :: scanned.1, scanned.2) := by
  have apart : c.toNat < 0xd800 ∨ 0xdfff < c.toNat ∧ c.toNat < 0x110000 := c.valid
  rw [asciiEscape, if_neg foreign]
  split
  · rename_i small
    refine (scanString_unicode (hexCode_escape small) ?_ ?_ rest).trans ?_
    · simp only [isHigh, Bool.and_eq_false_iff, decide_eq_false_iff_not]
      omega
    · simp only [isLow, Bool.and_eq_false_iff, decide_eq_false_iff_not]
      omega
    · rw [Char.ofNat_toNat]
  · refine (scanString_pair (hexCode_escape (by omega)) (hexCode_escape (by omega)) ?_ ?_ rest).trans ?_
    · simp only [isHigh, Bool.and_eq_true, decide_eq_true_eq]
      omega
    · simp only [isLow, Bool.and_eq_true, decide_eq_true_eq]
      omega
    · have whole : 0x10000 + ((0xd800 + (c.toNat - 0x10000) / 1024 - 0xd800) * 1024 +
          (0xdc00 + (c.toNat - 0x10000) % 1024 - 0xdc00)) = c.toNat := by
        omega
      rw [whole, Char.ofNat_toNat]

theorem scanned_some {c : Char} {text chars rest : List Char}
    (scanned : ((scanString text).map fun scanned => (c :: scanned.1, scanned.2)) = some (chars, rest)) :
    ∃ others, scanString text = some (others, rest) ∧ chars = c :: others := by
  obtain ⟨⟨others, left⟩, read, same⟩ := Option.map_eq_some_iff.mp scanned
  cases same
  exact ⟨others, read, rfl⟩

theorem bind_scanned (c : Char) (text : List Char) :
    (do
      let (chars, rest) ← scanString text
      some (c :: chars, rest)) =
      (scanString text).map fun scanned => (c :: scanned.1, scanned.2) := by
  cases scanString text <;> rfl

theorem scanString_asciiLine {text chars rest : List Char}
    (scanned : scanString text = some (chars, rest)) :
    scanString (asciiLine text) = some (chars, asciiLine rest) := by
  fun_induction scanString text generalizing chars rest with
  | case1 behind =>
      cases scanned
      rw [asciiLine_ascii (by decide), scanString]
  | case2 a b c d behind ihPair ih =>
      obtain ⟨code, read, scanned⟩ := Option.bind_eq_some_iff.mp scanned
      obtain ⟨asciiA, asciiB, asciiC, asciiD⟩ := hexCode_ascii read
      rw [asciiLine_ascii (by decide), asciiLine_ascii (by decide), asciiLine_ascii asciiA,
        asciiLine_ascii asciiB, asciiLine_ascii asciiC, asciiLine_ascii asciiD]
      split at scanned
      · rename_i high
        split at scanned
        · obtain ⟨low, readLow, scanned⟩ := Option.bind_eq_some_iff.mp scanned
          obtain ⟨asciiE, asciiF, asciiG, asciiH⟩ := hexCode_ascii readLow
          split at scanned
          · rename_i isLow
            rw [bind_scanned] at scanned
            obtain ⟨others, following, rfl⟩ := scanned_some scanned
            rw [asciiLine_ascii (by decide), asciiLine_ascii (by decide), asciiLine_ascii asciiE,
              asciiLine_ascii asciiF, asciiLine_ascii asciiG, asciiLine_ascii asciiH,
              scanString_pair read readLow high isLow, ihPair following]
            rfl
          · cases scanned
        · cases scanned
      · rename_i notHigh
        split at scanned
        · cases scanned
        · rename_i notLow
          rw [bind_scanned] at scanned
          obtain ⟨others, following, rfl⟩ := scanned_some scanned
          rw [scanString_unicode read (Bool.eq_false_of_not_eq_true notHigh)
            (Bool.eq_false_of_not_eq_true notLow), ih following]
          rfl
  | case3 c behind apart ih =>
      obtain ⟨character, read, scanned⟩ := Option.bind_eq_some_iff.mp scanned
      rw [bind_scanned] at scanned
      obtain ⟨others, following, rfl⟩ := scanned_some scanned
      have noCode : c ≠ 'u' := by
        rintro rfl
        cases read
      rw [asciiLine_ascii (by decide), asciiLine_ascii (unescape_ascii read), scanString.eq_3 _ _
        fun _ _ _ _ _ same => absurd same noCode]
      simp only [read, ih following, Option.bind_eq_bind, Option.bind_some]
  | case4 => cases scanned
  | case5 c behind noQuote noCode noEscape noControl ih =>
      rw [bind_scanned] at scanned
      obtain ⟨others, following, rfl⟩ := scanned_some scanned
      have noBackslash : c ≠ '\\' := by
        rintro rfl
        cases behind with
        | nil => cases following
        | cons next behind => exact noEscape next behind rfl rfl
      by_cases ascii : c.toNat < 127
      · rw [asciiLine_ascii ascii, scanString.eq_4 _ _ noQuote (fun _ _ _ _ _ same => absurd same noBackslash)
          (fun _ _ same => absurd same noBackslash), if_neg noControl, ih following]
        rfl
      · rw [asciiLine_cons, scanString_asciiEscape ascii, ih following]
        rfl
  | case6 => cases scanned

/-! ## Spaces and numbers -/

theorem ascii_of_isDigit {c : Char} (digit : c.isDigit = true) : c.toNat < 127 := by
  have upper := (Char.isDigit_iff_toNat.mp digit).2
  have : '9'.toNat = 57 := rfl
  omega

theorem ascii_of_isSpace {c : Char} (space : isSpace c = true) : c.toNat < 127 := by
  simp only [isSpace, Bool.or_eq_true, decide_eq_true_eq] at space
  obtain ((rfl | rfl) | rfl) | rfl := space <;> decide

/-- A scan for leading characters of a kind stops in a line where it stops in the text. -/
theorem takeWhile_asciiLine {kind : Char → Bool} (ascii : ∀ c, kind c = true → c.toNat < 127)
    (backslash : kind '\\' = false) (newline : kind '\n' = false) (text : List Char) :
    (asciiLine text).takeWhile kind = text.takeWhile kind ∧
      (asciiLine text).dropWhile kind = asciiLine (text.dropWhile kind) := by
  induction text with
  | nil => simp [asciiLine_nil, newline]
  | cons c text ih =>
      cases here : kind c with
      | true =>
          rw [asciiLine_ascii (ascii c here)]
          simp [here, ih]
      | false =>
          rcases asciiLine_first (c :: text) with ⟨first, rest, same, _, line⟩ | ⟨first, rest, which, line, _⟩
          · cases same
            rw [line, List.takeWhile_cons_of_neg (by simp [here]), List.dropWhile_cons_of_neg (by simp [here]),
              List.takeWhile_cons_of_neg (by simp [here]), List.dropWhile_cons_of_neg (by simp [here]), line]
            exact ⟨rfl, rfl⟩
          · have stops : kind first = false := by
              obtain rfl | rfl := which <;> assumption
            rw [line, List.takeWhile_cons_of_neg (by simp [stops]), List.dropWhile_cons_of_neg (by simp [stops]),
              List.takeWhile_cons_of_neg (by simp [here]), List.dropWhile_cons_of_neg (by simp [here]), line]
            exact ⟨rfl, rfl⟩

theorem takeWhile_digits_line (text : List Char) :
    (asciiLine text).takeWhile Char.isDigit = text.takeWhile Char.isDigit :=
  (takeWhile_asciiLine (fun _ => ascii_of_isDigit) (by decide) (by decide) text).1

theorem dropWhile_digits_line (text : List Char) :
    (asciiLine text).dropWhile Char.isDigit = asciiLine (text.dropWhile Char.isDigit) :=
  (takeWhile_asciiLine (fun _ => ascii_of_isDigit) (by decide) (by decide) text).2

theorem skipSpace_asciiLine (text : List Char) :
    skipSpace (asciiLine text) =
      if skipSpace text = [] then [] else asciiLine (skipSpace text) := by
  induction text with
  | nil => rfl
  | cons c text ih =>
      cases here : isSpace c with
      | true =>
          rw [asciiLine_ascii (ascii_of_isSpace here)]
          unfold skipSpace at ih ⊢
          rw [List.dropWhile_cons_of_pos here, List.dropWhile_cons_of_pos here]
          exact ih
      | false =>
          unfold skipSpace at ih ⊢
          rw [List.dropWhile_cons_of_neg (by simp [here]), if_neg (List.cons_ne_nil _ _)]
          rcases asciiLine_first (c :: text) with ⟨first, rest, same, _, line⟩ | ⟨first, rest, which, line, away⟩
          · cases same
            rw [line, List.dropWhile_cons_of_neg (by simp [here])]
          · have foreign := away c rfl
            rw [asciiLine_cons, asciiEscape, if_neg foreign]
            split <;> rfl

theorem scanSign_asciiLine (text : List Char) :
    scanSign (asciiLine text) = ((scanSign text).1, asciiLine (scanSign text).2) := by
  rcases asciiLine_first text with ⟨c, rest, rfl, _, line⟩ | ⟨c, rest, which, line, away⟩
  · rw [line]
    by_cases minus : c = '-'
    · subst minus
      rfl
    · have other : ∀ behind, scanSign (c :: behind) = (false, c :: behind) :=
        fun behind => scanSign.eq_2 _ fun _ same => minus (List.cons.inj same).1
      rw [other, other, line]
  · have unsigned : scanSign text = (false, text) := by
      refine scanSign.eq_2 _ ?_
      rintro behind rfl
      exact away '-' rfl (by decide)
    rw [unsigned, line]
    obtain rfl | rfl := which <;> rfl

theorem scanWhole_asciiLine {text whole rest : List Char} (scanned : scanWhole text = some (whole, rest)) :
    scanWhole (asciiLine text) = some (whole, asciiLine rest) := by
  cases text with
  | nil => cases scanned
  | cons c text =>
      by_cases zero : c = '0'
      · subst zero
        cases scanned
        rw [asciiLine_ascii (by decide)]
        rfl
      · rw [scanWhole.eq_2 _ _ zero] at scanned
        split at scanned
        · rename_i digit
          cases scanned
          rw [asciiLine_ascii (ascii_of_isDigit digit), scanWhole.eq_2 _ _ zero, if_pos digit,
            takeWhile_digits_line, dropWhile_digits_line]
        · cases scanned

theorem scanFraction_asciiLine (text : List Char) :
    scanFraction (asciiLine text) = ((scanFraction text).1, asciiLine (scanFraction text).2) := by
  rcases asciiLine_first text with ⟨c, rest, rfl, _, line⟩ | ⟨c, rest, which, line, away⟩
  · rw [line]
    by_cases point : c = '.'
    · subst point
      rw [scanFraction, scanFraction, takeWhile_digits_line, dropWhile_digits_line]
      split
      · rw [asciiLine_ascii (by decide)]
      · rfl
    · have other : ∀ behind, scanFraction (c :: behind) = (none, c :: behind) :=
        fun behind => scanFraction.eq_2 _ fun _ same => point (List.cons.inj same).1
      rw [other, other, line]
  · have whole : scanFraction text = (none, text) := by
      refine scanFraction.eq_2 _ ?_
      rintro behind rfl
      exact away '.' rfl (by decide)
    rw [whole, line]
    obtain rfl | rfl := which <;> rfl

theorem exponentSign_asciiLine (text : List Char) :
    exponentSign (asciiLine text) = ((exponentSign text).1, asciiLine (exponentSign text).2) := by
  rcases asciiLine_first text with ⟨c, rest, rfl, _, line⟩ | ⟨c, rest, which, line, away⟩
  · rw [line, exponentSign, exponentSign]
    split
    · rfl
    · rw [line]
  · have unsigned : exponentSign text = (none, text) := by
      cases text with
      | nil => rfl
      | cons first text =>
          refine if_neg ?_
          rintro (rfl | rfl)
          · exact away '+' rfl (by decide)
          · exact away '-' rfl (by decide)
    rw [unsigned, line]
    obtain rfl | rfl := which <;> rfl

theorem scanExponent_asciiLine (text : List Char) :
    scanExponent (asciiLine text) = ((scanExponent text).1, asciiLine (scanExponent text).2) := by
  rcases asciiLine_first text with ⟨c, rest, rfl, _, line⟩ | ⟨c, rest, which, line, away⟩
  · rw [line, scanExponent, scanExponent, exponentSign_asciiLine, takeWhile_digits_line,
      dropWhile_digits_line]
    split
    · rfl
    · rw [line]
  · have none : scanExponent text = (none, text) := by
      cases text with
      | nil => rfl
      | cons first text =>
          refine if_neg fun here => ?_
          obtain rfl | rfl := here.1
          · exact away 'e' rfl (by decide)
          · exact away 'E' rfl (by decide)
    rw [none, line]
    obtain rfl | rfl := which <;> rfl

theorem scanNumber_asciiLine {text rest : List Char} {literal : NumberLiteral}
    (scanned : scanNumber text = some (literal, rest)) :
    scanNumber (asciiLine text) = some (literal, asciiLine rest) := by
  simp only [scanNumber, Option.bind_eq_bind, Option.bind_eq_some_iff] at scanned
  obtain ⟨⟨whole, behind⟩, first, same⟩ := scanned
  cases same
  simp only [scanNumber, scanSign_asciiLine, scanWhole_asciiLine first, scanFraction_asciiLine,
    scanExponent_asciiLine, Option.bind_eq_bind, Option.bind_some]

/-- What a number's text starts with. -/
theorem scanNumber_first {text rest : List Char} {literal : NumberLiteral}
    (scanned : scanNumber text = some (literal, rest)) :
    ∃ first others, first.isDigit = true ∧ (text = first :: others ∨ text = '-' :: first :: others) := by
  simp only [scanNumber, Option.bind_eq_bind, Option.bind_eq_some_iff] at scanned
  obtain ⟨⟨whole, behind⟩, read, _⟩ := scanned
  have digit : ∀ unsigned, scanWhole unsigned = some (whole, behind) →
      ∃ first others, first.isDigit = true ∧ unsigned = first :: others := by
    intro unsigned read
    cases unsigned with
    | nil => cases read
    | cons c unsigned =>
        refine ⟨c, unsigned, ?_, rfl⟩
        by_cases zero : c = '0'
        · subst zero
          rfl
        · rw [scanWhole.eq_2 _ _ zero] at read
          split at read
          · assumption
          · cases read
  obtain ⟨first, others, isDigit, same⟩ := digit _ read
  refine ⟨first, others, isDigit, ?_⟩
  cases text with
  | nil => cases same
  | cons c text =>
      by_cases minus : c = '-'
      · subst minus
        exact .inr (congrArg _ same)
      · rw [scanSign.eq_2 _ fun _ equal => minus (List.cons.inj equal).1] at same
        exact .inl same

/-! ## Values -/

/-- A number is scanned as one, after the other beginnings of a value have been ruled out. -/
theorem scanOnce_number {text rest : List Char} {literal : NumberLiteral}
    (scanned : scanNumber text = some (literal, rest)) (fuel : Nat) :
    scanOnce floats (fuel + 1) text = some (numberValue floats literal, rest) := by
  obtain ⟨first, others, digit, rfl | rfl⟩ := scanNumber_first scanned
  · obtain ⟨noSpace, quote, brace, bracket, n, t, f, nan, infinity, minus, close, closing⟩ :=
      digit_apart digit
    rw [scanOnce.eq_11, scanned]
    · rfl
    all_goals
      intro tail same
      have here := (List.cons.inj same).1
      contradiction
  · have here := digit_apart digit
    rw [scanOnce.eq_11, scanned]
    · rfl
    all_goals
      intro tail same
      simp only [List.cons.injEq] at same
      first
        | exact absurd same.1 (by decide)
        | exact here.2.2.2.2.2.2.2.2.1 same.2.1

/-- With as much fuel the line is scanned as the text is. -/
structure LineScans (fuel : Nat) : Prop where
  once : ∀ {text rest value}, scanOnce floats fuel text = some (value, rest) → ∀ more, fuel ≤ more →
    scanOnce floats more (asciiLine text) = some (value, asciiLine rest)
  items : ∀ {text rest values}, scanItems floats fuel text = some (values, rest) → ∀ more, fuel ≤ more →
    scanItems floats more (asciiLine text) = some (values, asciiLine rest)
  fields : ∀ {text rest entries}, scanFields floats fuel text = some (entries, rest) → ∀ more, fuel ≤ more →
    scanFields floats more (asciiLine text) = some (entries, asciiLine rest)

variable {floats}

theorem scanOnce_nil (fuel : Nat) : scanOnce floats fuel [] = none := by
  cases fuel <;> rfl

theorem scanItems_nil (fuel : Nat) : scanItems floats fuel [] = none := by
  cases fuel with
  | zero => rfl
  | succ fuel => rw [scanItems, scanOnce_nil]; rfl

theorem scanFields_nil (fuel : Nat) : scanFields floats fuel [] = none := by
  cases fuel <;> rfl

/-- Spaces before something that is scanned. -/
theorem skipSpace_line {text : List Char} (something : skipSpace text ≠ []) :
    skipSpace (asciiLine text) = asciiLine (skipSpace text) := by
  rw [skipSpace_asciiLine, if_neg something]

theorem skipSpace_line_cons {text rest : List Char} {c : Char} (skipped : skipSpace text = c :: rest)
    (ascii : c.toNat < 127) : skipSpace (asciiLine text) = c :: asciiLine rest := by
  rw [skipSpace_line (by simp [skipped]), skipped, asciiLine_ascii ascii]

theorem asciiLine_apart {text : List Char} {c : Char} (apart : text.head? ≠ some c)
    (noBackslash : '\\' ≠ c) (noNewline : '\n' ≠ c) : (asciiLine text).head? ≠ some c := by
  rcases asciiLine_first text with ⟨first, rest, rfl, _, line⟩ | ⟨first, rest, which, line, _⟩
  · rw [line]
    exact apart
  · rw [line]
    obtain rfl | rfl := which <;> simp [noBackslash, noNewline]

theorem scanOnce_dict (fuel : Nat) {rest : List Char} (more : (skipSpace rest).head? ≠ some '}') :
    scanOnce floats (fuel + 1) ('{' :: rest) = (scanFields floats fuel (skipSpace rest)).map fun scanned =>
      (.mapping true (OrderedDict.ofList scanned.1).items, scanned.2) := by
  rw [scanOnce]
  split
  · rename_i closes
    exact absurd (congrArg List.head? closes) more
  · cases scanFields floats fuel (skipSpace rest) <;> rfl

theorem scanOnce_list (fuel : Nat) {rest : List Char} (more : (skipSpace rest).head? ≠ some ']') :
    scanOnce floats (fuel + 1) ('[' :: rest) = (scanItems floats fuel (skipSpace rest)).map fun scanned =>
      (.sequence .list scanned.1, scanned.2) := by
  rw [scanOnce]
  split
  · rename_i closes
    exact absurd (congrArg List.head? closes) more
  · cases scanItems floats fuel (skipSpace rest) <;> rfl

theorem LineScans.dict {fuel : Nat} (scans : LineScans floats fuel) {text rest : List Char}
    {value : PyValue φ} (scanned : scanOnce floats (fuel + 1) ('{' :: text) = some (value, rest)) (more : Nat)
    (enough : fuel ≤ more) :
    scanOnce floats (more + 1) ('{' :: asciiLine text) = some (value, asciiLine rest) := by
  by_cases closes : (skipSpace text).head? = some '}'
  · obtain ⟨tail, skipped⟩ := List.head?_eq_some_iff.mp closes
    rw [scanOnce, skipped] at scanned
    cases scanned
    rw [scanOnce, skipSpace_line_cons skipped (by decide)]
    rfl
  · rw [scanOnce_dict fuel closes] at scanned
    obtain ⟨⟨entries, behind⟩, read, same⟩ := Option.map_eq_some_iff.mp scanned
    cases same
    have something : skipSpace text ≠ [] := by
      intro nothing
      rw [nothing, scanFields_nil] at read
      cases read
    have open' : (skipSpace (asciiLine text)).head? ≠ some '}' := by
      rw [skipSpace_line something]
      exact asciiLine_apart closes (by decide) (by decide)
    rw [scanOnce_dict more open', skipSpace_line something, scans.fields read more enough]
    rfl

theorem LineScans.list {fuel : Nat} (scans : LineScans floats fuel) {text rest : List Char}
    {value : PyValue φ} (scanned : scanOnce floats (fuel + 1) ('[' :: text) = some (value, rest)) (more : Nat)
    (enough : fuel ≤ more) :
    scanOnce floats (more + 1) ('[' :: asciiLine text) = some (value, asciiLine rest) := by
  by_cases closes : (skipSpace text).head? = some ']'
  · obtain ⟨tail, skipped⟩ := List.head?_eq_some_iff.mp closes
    rw [scanOnce, skipped] at scanned
    cases scanned
    rw [scanOnce, skipSpace_line_cons skipped (by decide)]
    rfl
  · rw [scanOnce_list fuel closes] at scanned
    obtain ⟨⟨items, behind⟩, read, same⟩ := Option.map_eq_some_iff.mp scanned
    cases same
    have something : skipSpace text ≠ [] := by
      intro nothing
      rw [nothing, scanItems_nil] at read
      cases read
    have open' : (skipSpace (asciiLine text)).head? ≠ some ']' := by
      rw [skipSpace_line something]
      exact asciiLine_apart closes (by decide) (by decide)
    rw [scanOnce_list more open', skipSpace_line something, scans.items read more enough]
    rfl

theorem LineScans.once_succ {fuel : Nat} (scans : LineScans floats fuel) {text rest : List Char}
    {value : PyValue φ} (scanned : scanOnce floats (fuel + 1) text = some (value, rest)) (more : Nat)
    (enough : fuel ≤ more) :
    scanOnce floats (more + 1) (asciiLine text) = some (value, asciiLine rest) := by
  have run := scanned
  unfold scanOnce at scanned
  split at scanned
  case h_1 impossible => cases impossible
  case h_2 behind _ =>
      obtain ⟨⟨chars, left⟩, read, same⟩ := Option.bind_eq_some_iff.mp scanned
      cases same
      rw [asciiLine_ascii (by decide), scanOnce, scanString_asciiLine read]
      rfl
  case h_3 behind _ =>
      rw [asciiLine_ascii (by decide)]
      exact scans.dict run more enough
  case h_4 behind _ =>
      rw [asciiLine_ascii (by decide)]
      exact scans.list run more enough
  case h_11 =>
      obtain ⟨⟨literal, left⟩, read, same⟩ := Option.bind_eq_some_iff.mp scanned
      cases same
      exact scanOnce_number floats (scanNumber_asciiLine read) more
  all_goals
    cases scanned
    repeat rw [asciiLine_ascii (by decide)]
    rfl

theorem LineScans.items_succ {fuel : Nat} (scans : LineScans floats fuel) {text rest : List Char}
    {values : List (PyValue φ)} (scanned : scanItems floats (fuel + 1) text = some (values, rest)) (more : Nat)
    (enough : fuel ≤ more) :
    scanItems floats (more + 1) (asciiLine text) = some (values, asciiLine rest) := by
  rw [scanItems] at scanned
  obtain ⟨⟨item, behind⟩, read, scanned⟩ := Option.bind_eq_some_iff.mp scanned
  rw [scanItems, scans.once read more enough]
  simp only [Option.bind_eq_bind, Option.bind_some]
  dsimp only at scanned
  split at scanned
  · rename_i tail skipped
    cases scanned
    rw [skipSpace_line_cons skipped (by decide)]
    rfl
  · rename_i tail skipped
    obtain ⟨⟨items, left⟩, others, same⟩ := Option.bind_eq_some_iff.mp scanned
    cases same
    have something : skipSpace tail ≠ [] := by
      intro nothing
      rw [nothing, scanItems_nil] at others
      cases others
    rw [skipSpace_line_cons skipped (by decide)]
    simp only [skipSpace_line something, scans.items others more enough, Option.bind_some]
  · cases scanned

theorem LineScans.fields_succ {fuel : Nat} (scans : LineScans floats fuel) {text rest : List Char}
    {entries : List (Key × PyValue φ)} (scanned : scanFields floats (fuel + 1) text = some (entries, rest))
    (more : Nat) (enough : fuel ≤ more) :
    scanFields floats (more + 1) (asciiLine text) = some (entries, asciiLine rest) := by
  unfold scanFields at scanned
  split at scanned
  · rename_i impossible
    cases impossible
  · rename_i behind same
    cases same
    obtain ⟨⟨key, left⟩, readKey, scanned⟩ := Option.bind_eq_some_iff.mp scanned
    rw [asciiLine_ascii (by decide), scanFields, scanString_asciiLine readKey]
    simp only [Option.bind_eq_bind, Option.bind_some]
    dsimp only at scanned
    split at scanned
    · rename_i tail skipped
      obtain ⟨⟨value, left⟩, read, scanned⟩ := Option.bind_eq_some_iff.mp scanned
      dsimp only at scanned
      have something : skipSpace tail ≠ [] := by
        intro nothing
        rw [nothing, scanOnce_nil] at read
        cases read
      rw [skipSpace_line_cons skipped (by decide)]
      simp only [skipSpace_line something, scans.once read more enough, Option.bind_some]
      split at scanned
      · rename_i final closes
        cases scanned
        rw [skipSpace_line_cons closes (by decide)]
        rfl
      · rename_i final comma
        obtain ⟨⟨others, last⟩, readOthers, same⟩ := Option.bind_eq_some_iff.mp scanned
        cases same
        have something : skipSpace final ≠ [] := by
          intro nothing
          rw [nothing, scanFields_nil] at readOthers
          cases readOthers
        rw [skipSpace_line_cons comma (by decide)]
        simp only [skipSpace_line something, scans.fields readOthers more enough, Option.bind_some]
      · cases scanned
    · cases scanned
  · cases scanned

theorem lineScans (fuel : Nat) : LineScans floats fuel := by
  induction fuel with
  | zero =>
      refine ⟨?_, ?_, ?_⟩
      · intro text rest value scanned
        cases scanned
      · intro text rest values scanned
        cases scanned
      · intro text rest entries scanned
        cases scanned
  | succ fuel ih =>
      refine ⟨?_, ?_, ?_⟩
      all_goals
        intro text rest result scanned more enough
        obtain ⟨more, rfl⟩ : ∃ less, more = less + 1 := ⟨more - 1, by omega⟩
      · exact ih.once_succ scanned more (by omega)
      · exact ih.items_succ scanned more (by omega)
      · exact ih.fields_succ scanned more (by omega)

theorem length_le_asciiLine (text : List Char) : text.length ≤ (asciiLine text).length := by
  induction text with
  | nil => exact Nat.zero_le _
  | cons c text ih =>
      have escaped : 1 ≤ (asciiEscape c).length := by
        unfold asciiEscape
        split
        · exact le_refl 1
        · split <;> simp [unicodeEscape]
      rw [asciiLine_cons, List.length_append, List.length_cons]
      omega

/-- Escapes and a final newline are read over. -/
theorem loads_asciiLine {text : List Char} {value : PyValue φ} (read : loads floats text = some value) :
    loads floats (asciiLine text) = some value := by
  rw [loads] at read
  obtain ⟨⟨found, rest⟩, scanned, finished⟩ := Option.bind_eq_some_iff.mp read
  dsimp only at finished
  split at finished
  · rename_i last
    cases finished
    have something : skipSpace text ≠ [] := by
      intro nothing
      rw [nothing, scanOnce_nil] at scanned
      cases scanned
    have length := length_le_asciiLine text
    rw [loads, skipSpace_line something, (lineScans _).once scanned _ (by omega)]
    simp only [Option.bind_eq_bind, Option.bind_some, skipSpace_asciiLine, last, if_true]
  · cases finished

/-- What is written as a line of JSON is read back. -/
theorem loads_dumpsAscii {allowed : String → Prop} {value : PyValue φ} (plain : Plain allowed value) :
    ∃ text, dumpsAscii floats value = some text ∧ loads floats (text ++ ['\n']) = some value := by
  obtain ⟨text, printed, read⟩ := loads_dumps floats plain
  refine ⟨asciiText text, ?_, loads_asciiLine read⟩
  rw [dumpsAscii, printed]
  rfl

end PythonJson
