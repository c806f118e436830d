import Mathlib.Data.String.Basic
import Gambit.Lib.OrderedDict
import Gambit.Lib.SortedDict

/-!
# Python values as JSON text

`json.dumps` with sorted keys, compact separators, characters beyond ASCII as they
are and no NaN, and `json.loads`.  Finite floats are of any type whose decimal
literals are read back as the float they were printed from.
-/

set_option autoImplicit false

namespace PythonJson

/-- A number as JSON spells it: digits, then maybe a fraction and an exponent. -/
structure NumberLiteral where
  negative : Bool
  whole : List Char
  fraction : Option (List Char)
  /-- With the sign, if it is written. -/
  exponent : Option (Option Char × List Char)
deriving DecidableEq

def AreDigits (digits : List Char) : Prop := ∀ c ∈ digits, c.isDigit = true

structure NumberLiteral.Valid (literal : NumberLiteral) : Prop where
  digits : AreDigits literal.whole
  /-- No zero in front of another digit. -/
  leading : literal.whole = ['0'] ∨ ∃ first rest, literal.whole = first :: rest ∧ first ≠ '0'
  fraction : ∀ digits, literal.fraction = some digits → digits ≠ [] ∧ AreDigits digits
  exponent : ∀ sign digits, literal.exponent = some (sign, digits) →
    digits ≠ [] ∧ AreDigits digits ∧ ∀ c, sign = some c → c = '+' ∨ c = '-'

def NumberLiteral.isFloat (literal : NumberLiteral) : Bool :=
  literal.fraction.isSome || literal.exponent.isSome

def NumberLiteral.text (literal : NumberLiteral) : List Char :=
  (if literal.negative then ['-'] else []) ++ literal.whole ++
    (match literal.fraction with
      | none => []
      | some digits => '.' :: digits) ++
    match literal.exponent with
      | none => []
      | some (sign, digits) => 'e' :: (sign.toList ++ digits)

/-- `float.__repr__` and `float` on finite floats; a literal out of range is infinite. -/
structure FloatFormat (φ : Type) where
  repr : φ → NumberLiteral
  read : NumberLiteral → Option φ
  valid : ∀ x, (repr x).Valid
  isFloat : ∀ x, (repr x).isFloat = true
  read_repr : ∀ x, read (repr x) = some x

inductive Key where
  | str (text : String)
  /-- A key that is no `str`. -/
  | other
deriving DecidableEq

def Key.text : Key → String
  | .str text => text
  | .other => ""

inductive SequenceType where
  | list
  | tuple
  /-- Neither `str` nor `bytes`, which are no values of these. -/
  | other
deriving DecidableEq

inductive PyValue (φ : Type) where
  | none
  | bool (value : Bool)
  | int (value : Int)
  | float (value : φ)
  /-- NaN or an infinity. -/
  | nonFinite
  /-- A `str` that UTF-8 can encode. -/
  | str (text : String)
  /-- A `dict` or another `Mapping`, as its items. -/
  | mapping (isDict : Bool) (entries : List (Key × PyValue φ))
  | sequence (type : SequenceType) (items : List (PyValue φ))
  | unsupported (typeName : String)

variable {φ : Type} (floats : FloatFormat φ)

/-! ## `json.dumps` -/

def hexDigit (n : Nat) : Char := Nat.digitChar n

/-- The escape of a character, if it has one. -/
def escape (c : Char) : List Char :=
  if c = '"' then ['\\', '"']
  else if c = '\\' then ['\\', '\\']
  else if c = '\n' then ['\\', 'n']
  else if c = '\r' then ['\\', 'r']
  else if c = '\t' then ['\\', 't']
  else if c = Char.ofNat 12 then ['\\', 'f']
  else if c = Char.ofNat 8 then ['\\', 'b']
  else if c.toNat < 32 then ['\\', 'u', '0', '0', hexDigit (c.toNat / 16), hexDigit (c.toNat % 16)]
  else [c]

def quoted (text : String) : List Char := '"' :: (text.toList.flatMap escape ++ ['"'])

def intLiteral (value : Int) : NumberLiteral :=
  ⟨decide (value < 0), Nat.toDigits 10 value.natAbs, none, none⟩

/-- Texts with commas between them. -/
def joined : List (List Char) → List Char
  | [] => []
  | [text] => text
  | text :: rest => text ++ ',' :: joined rest

/-- `"key":value` -/
def fieldText (field : String × List Char) : List Char := quoted field.1 ++ ':' :: field.2

mutual

/-- None where `json.dumps` raises, and where it would have to print a key that is no `str`. -/
def dumps : PyValue φ → Option (List Char)
  | .none => some ['n', 'u', 'l', 'l']
  | .bool true => some ['t', 'r', 'u', 'e']
  | .bool false => some ['f', 'a', 'l', 's', 'e']
  | .int value => some (intLiteral value).text
  | .float value => some (floats.repr value).text
  | .nonFinite => none
  | .str text => some (quoted text)
  | .mapping isDict entries => do
      let fields ← dumpsFields entries
      if isDict then
        some ('{' :: (joined ((SortedDict.ofList fields).items.map fieldText) ++ ['}']))
      else none
  | .sequence .other _ => none
  | .sequence _ items => do
      let texts ← dumpsItems items
      some ('[' :: (joined texts ++ [']']))
  | .unsupported _ => none

def dumpsItems : List (PyValue φ) → Option (List (List Char))
  | [] => some []
  | item :: rest => do
      let text ← dumps item
      let texts ← dumpsItems rest
      some (text :: texts)

def dumpsFields : List (Key × PyValue φ) → Option (List (String × List Char))
  | [] => some []
  | (.str key, value) :: rest => do
      let text ← dumps value
      let fields ← dumpsFields rest
      some ((key, text) :: fields)
  | (.other, _) :: _ => none

end

/-! ## `json.loads` -/

def isSpace (c : Char) : Bool := c = ' ' || c = '\t' || c = '\n' || c = '\r'

def skipSpace (text : List Char) : List Char := text.dropWhile isSpace

def hexValue (c : Char) : Option Nat :=
  if c.isDigit then some (c.toNat - 48)
  else if 'a' ≤ c ∧ c ≤ 'f' then some (c.toNat - 87)
  else if 'A' ≤ c ∧ c ≤ 'F' then some (c.toNat - 55)
  else none

def hexCode (a b c d : Char) : Option Nat := do
  some (((← hexValue a) * 16 + (← hexValue b)) * 256 + ((← hexValue c) * 16 + (← hexValue d)))

/-- The character after a backslash, other than `u`. -/
def unescape (c : Char) : Option Char :=
  if c = '"' then some '"'
  else if c = '\\' then some '\\'
  else if c = '/' then some '/'
  else if c = 'b' then some (Char.ofNat 8)
  else if c = 'f' then some (Char.ofNat 12)
  else if c = 'n' then some '\n'
  else if c = 'r' then some '\r'
  else if c = 't' then some '\t'
  else none

def isHigh (code : Nat) : Bool := 0xd800 ≤ code && code ≤ 0xdbff

def isLow (code : Nat) : Bool := 0xdc00 ≤ code && code ≤ 0xdfff

/-- After the opening quote: the characters, and the text after the closing one.  A surrogate by
itself is no character here. -/
def scanString : List Char → Option (List Char × List Char)
  | '"' :: rest => some ([], rest)
  | '\\' :: 'u' :: a :: b :: c :: d :: rest => do
      let code ← hexCode a b c d
      if isHigh code then
        match rest with
        | '\\' :: 'u' :: e :: f :: g :: h :: rest => do
            let low ← hexCode e f g h
            if isLow low then
              let (chars, rest) ← scanString rest
              some (Char.ofNat (0x10000 + ((code - 0xd800) * 1024 + (low - 0xdc00))) :: chars, rest)
            else none
        | _ => none
      else if isLow code then none
      else
        let (chars, rest) ← scanString rest
        some (Char.ofNat code :: chars, rest)
  | '\\' :: c :: rest => do
      let c ← unescape c
      let (chars, rest) ← scanString rest
      some (c :: chars, rest)
  | c :: rest =>
      if c.toNat < 32 then none
      else do
        let (chars, rest) ← scanString rest
        some (c :: chars, rest)
  | [] => none

def scanSign : List Char → Bool × List Char
  | '-' :: rest => (true, rest)
  | text => (false, text)

def scanWhole : List Char → Option (List Char × List Char)
  | '0' :: rest => some (['0'], rest)
  | c :: rest =>
      if c.isDigit then some (c :: rest.takeWhile Char.isDigit, rest.dropWhile Char.isDigit) else none
  | [] => none

def scanFraction : List Char → Option (List Char) × List Char
  | '.' :: rest =>
      if rest.takeWhile Char.isDigit = [] then (none, '.' :: rest)
      else (some (rest.takeWhile Char.isDigit), rest.dropWhile Char.isDigit)
  | text => (none, text)

/-- The sign of an exponent, if it is written. -/
def exponentSign : List Char → Option Char × List Char
  | c :: rest => if c = '+' ∨ c = '-' then (some c, rest) else (none, c :: rest)
  | [] => (none, [])

def scanExponent : List Char → Option (Option Char × List Char) × List Char
  | c :: rest =>
      if (c = 'e' ∨ c = 'E') ∧ (exponentSign rest).2.takeWhile Char.isDigit ≠ [] then
        (some ((exponentSign rest).1, (exponentSign rest).2.takeWhile Char.isDigit),
          (exponentSign rest).2.dropWhile Char.isDigit)
      else (none, c :: rest)
  | [] => (none, [])

def scanNumber (text : List Char) : Option (NumberLiteral × List Char) := do
  let (negative, text) := scanSign text
  let (whole, rest) ← scanWhole text
  let (fraction, rest) := scanFraction rest
  let (exponent, rest) := scanExponent rest
  some (⟨negative, whole, fraction, exponent⟩, rest)

/-- `float` of a literal with a fraction or an exponent, `int` of any other. -/
def numberValue (literal : NumberLiteral) : PyValue φ :=
  if literal.isFloat then
    match floats.read literal with
    | some value => .float value
    | none => .nonFinite
  else
    let magnitude : Int := Nat.ofDigitChars 10 literal.whole 0
    .int (if literal.negative then -magnitude else magnitude)

mutual

/-- `scan_once` -/
def scanOnce : Nat → List Char → Option (PyValue φ × List Char)
  | 0, _ => none
  | _ + 1, '"' :: rest => do
      let (chars, rest) ← scanString rest
      some (.str (String.ofList chars), rest)
  | fuel + 1, '{' :: rest =>
      match skipSpace rest with
      | '}' :: rest => some (.mapping true [], rest)
      | rest => do
          let (entries, rest) ← scanFields fuel rest
          some (.mapping true (OrderedDict.ofList entries).items, rest)
  | fuel + 1, '[' :: rest =>
      match skipSpace rest with
      | ']' :: rest => some (.sequence .list [], rest)
      | rest => do
          let (items, rest) ← scanItems fuel rest
          some (.sequence .list items, rest)
  | _ + 1, 'n' :: 'u' :: 'l' :: 'l' :: rest => some (.none, rest)
  | _ + 1, 't' :: 'r' :: 'u' :: 'e' :: rest => some (.bool true, rest)
  | _ + 1, 'f' :: 'a' :: 'l' :: 's' :: 'e' :: rest => some (.bool false, rest)
  | _ + 1, 'N' :: 'a' :: 'N' :: rest => some (.nonFinite, rest)
  | _ + 1, 'I' :: 'n' :: 'f' :: 'i' :: 'n' :: 'i' :: 't' :: 'y' :: rest => some (.nonFinite, rest)
  | _ + 1, '-' :: 'I' :: 'n' :: 'f' :: 'i' :: 'n' :: 'i' :: 't' :: 'y' :: rest => some (.nonFinite, rest)
  | _ + 1, text => do
      let (literal, rest) ← scanNumber text
      some (numberValue floats literal, rest)

def scanItems : Nat → List Char → Option (List (PyValue φ) × List Char)
  | 0, _ => none
  | fuel + 1, text => do
      let (item, rest) ← scanOnce fuel text
      match skipSpace rest with
      | ']' :: rest => some ([item], rest)
      | ',' :: rest => do
          let (items, rest) ← scanItems fuel (skipSpace rest)
          some (item :: items, rest)
      | _ => none

/-- The pairs as they are assigned. -/
def scanFields : Nat → List Char → Option (List (Key × PyValue φ) × List Char)
  | 0, _ => none
  | fuel + 1, '"' :: rest => do
      let (key, rest) ← scanString rest
      match skipSpace rest with
      | ':' :: rest => do
          let (value, rest) ← scanOnce fuel (skipSpace rest)
          match skipSpace rest with
          | '}' :: rest => some ([(.str (String.ofList key), value)], rest)
          | ',' :: rest => do
              let (entries, rest) ← scanFields fuel (skipSpace rest)
              some ((.str (String.ofList key), value) :: entries, rest)
          | _ => none
      | _ => none
  | _ + 1, _ => none

end

/-- None where `json.loads` raises. -/
def loads (text : List Char) : Option (PyValue φ) := do
  let (value, rest) ← scanOnce floats (2 * text.length + 1) (skipSpace text)
  if skipSpace rest = [] then some value else none

end PythonJson
