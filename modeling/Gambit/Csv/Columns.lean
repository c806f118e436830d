import Gambit.Lib.ByteImages
import Gambit.Csv.Integers
import Gambit.Csv.LineReader
import Gambit.Csv.Tokens

/-!
# The packed columns

A column holds the bytes of its values, each of the width its dtype names.
The floating-point parsers enter only through the bytes they store.
-/

set_option autoImplicit false

namespace Gambit.Csv

open ByteImages Raising

/-- The bytes of `str_to_float` and `str_to_double` on a text. -/
structure FloatParsers where
  float : List UInt8 → List UInt8
  double : List UInt8 → List UInt8
  floatSize : ∀ text, (float text).length = 4
  doubleSize : ∀ text, (double text).length = 8

structure CsvColumn where
  dtype : String
  itemsize : Nat
  values : List UInt8
deriving DecidableEq

def itemSizeLoop : List Char → Nat → Except CsvError Nat
  | [], width => .ok width
  | c :: rest, width =>
      if c < '0' ∨ '9' < c ∨ (2 ^ 31 - 1 - (c.toNat - 48)) / 10 < width then
        .error (.invalidArgument "string item size must be a positive int fitting a C int")
      else itemSizeLoop rest (width * 10 + (c.toNat - 48))

/-- `M8[` with a unit and `]` -/
def isDatetime (dtype : String) : Bool :=
  4 < dtype.toList.length && dtype.toList.take 3 = ['M', '8', '['] &&
    dtype.toList.getLast? = some ']'

def csvItemsize (dtype : String) : Except CsvError Nat :=
  if dtype = "i1" then .ok 1
  else if dtype = "i4" ∨ dtype = "f4" then .ok 4
  else if dtype = "i8" ∨ dtype = "f8" ∨ isDatetime dtype then .ok 8
  else if dtype.toList.head? = some 'S' then do
    let width ← itemSizeLoop dtype.toList.tail 0
    if width = 0 then .error (.invalidArgument "string item size must be a positive int")
    else .ok width
  else .error (.runtime "invalid type:  expected i1, i4, i8, f4, f8, M8[*] or S[n]")

/-- The C string a pointer into the line's memory reads. -/
def readString (memory : List UInt8) : Except CsvError (List UInt8) :=
  if 0 ∈ memory then .ok (memory.takeWhile (· ≠ 0)) else .error .undefinedBehaviour

/-- The digits at the end of `str_to_int8`, in eight-bit arithmetic. -/
def int8Digits : List UInt8 → Int8 → Int8
  | [], result => result
  | byte :: rest, result =>
      if isDigit byte then int8Digits rest (result * 10 + Int8.ofNat (digitValue byte)) else result

def strToInt8 (str : List UInt8) : Int8 :=
  let text := str.map fun byte => Char.ofNat byte.toNat
  if str = [] then 0
  else if text = "true".toList ∨ text = "TRUE".toList ∨ text = "True".toList then 1
  else if text = "false".toList ∨ text = "FALSE".toList ∨ text = "False".toList then 0
  else if str.head? = some 45 then int8Digits str.tail 0 * -1
  else int8Digits str 0

def IntegerError.toCsv : IntegerError → CsvError
  | .outOfRange => .runtime "CSV integer value out of range"
  | .overflow => .undefinedBehaviour
  | .readPastEnd => .undefinedBehaviour

/-- The value's bytes, two's complement and little-endian. -/
def integerBytes (size : Nat) (value : Int) : List UInt8 :=
  littleEndian size (value % 256 ^ size).toNat

/-- What `add_line` copies to its destination for the field a pointer reads. -/
def valueBytes (parsers : FloatParsers) (dtype : String) (itemsize : Nat)
    (memory : List UInt8) : Except CsvError (List UInt8) :=
  if dtype.toList.head? = some 'S' then do
    let text ← readString memory
    .ok (text.take itemsize ++ List.replicate (itemsize - text.length) 0)
  else if dtype = "f4" then do
    let text ← readString memory
    .ok (parsers.float text)
  else if dtype = "f8" then do
    let text ← readString memory
    .ok (parsers.double text)
  else if dtype = "i1" then do
    let text ← readString memory
    .ok (integerBytes 1 (strToInt8 text).toInt)
  else if dtype = "i4" then do
    let value ← (strToInt32 memory 44).mapError IntegerError.toCsv
    .ok (integerBytes 4 value)
  else do
    let value ← (strToInt64 memory 44).mapError IntegerError.toCsv
    .ok (integerBytes 8 value)

def addValue (parsers : FloatParsers) (memory : List UInt8) (maximum : Nat) (column : CsvColumn) :
    Except CsvError CsvColumn :=
  let oldSize := column.values.length
  if column.itemsize > maximum - oldSize then
    .error (.runtime "CSV output byte limit exceeded")
  else do
    let bytes ← valueBytes parsers column.dtype column.itemsize memory
    -- The destination has room for one item.
    if bytes.length > column.itemsize then .error .undefinedBehaviour
    else .ok { column with values := column.values ++ bytes }

/-- `add_line`, with the fields as addresses in the line's memory. -/
def addLine (parsers : FloatParsers) (memory : List UInt8) (maximum : Nat) :
    List Nat → List CsvColumn → Except CsvError (List CsvColumn)
  | _, [] => .ok []
  | [], _ :: _ => .error .undefinedBehaviour
  | field :: fields, column :: data => do
      let column ← addValue parsers (memory.drop field) maximum column
      let data ← addLine parsers memory maximum fields data
      .ok (column :: data)

/-! ## What a field is stored as -/

variable {parsers : FloatParsers} {dtype : String} {itemsize : Nat}
  {memory text beyond bytes : List UInt8}

/-- What a field's text is stored as. -/
def fieldBytes (parsers : FloatParsers) (dtype : String) (itemsize : Nat) (text : List UInt8) :
    Except CsvError (List UInt8) :=
  valueBytes parsers dtype itemsize (text ++ [0])

theorem readString_text (clean : 0 ∉ text) (beyond : List UInt8) :
    readString (text ++ 0 :: beyond) = .ok text := by
  have member : (0 : UInt8) ∈ text ++ 0 :: beyond := by simp
  have nonzero : ∀ byte ∈ text, decide (byte ≠ 0) = true := by
    intro byte inside
    exact decide_eq_true fun zero => clean (zero ▸ inside)
  rw [readString, if_pos member, List.takeWhile_append_of_pos nonzero]
  simp

theorem checkedInteger_beyond (width : Width) (text beyond : List UInt8) :
    checkedInteger width (text ++ 0 :: beyond) 44 = checkedInteger width (text ++ [0]) 44 := by
  rw [checkedInteger_text width text beyond 44 (by decide),
    checkedInteger_text width text [] 44 (by decide)]

/-- Only the field's own text matters, not the memory behind its NUL. -/
theorem valueBytes_text (clean : 0 ∉ text) (beyond : List UInt8) :
    valueBytes parsers dtype itemsize (text ++ 0 :: beyond) =
      fieldBytes parsers dtype itemsize text := by
  unfold fieldBytes valueBytes
  simp only [readString_text clean, strToInt32, strToInt64, checkedInteger_beyond _ text beyond]

theorem integerBytes_length (size : Nat) (value : Int) :
    (integerBytes size value).length = size :=
  length_littleEndian size _

theorem isDatetime_head (datetime : isDatetime dtype = true) : dtype.toList.head? = some 'M' := by
  unfold isDatetime at datetime
  simp only [Bool.and_eq_true, decide_eq_true_eq] at datetime
  have first := congrArg List.head? datetime.1.2
  rw [List.head?_take, if_neg (by decide)] at first
  simpa using first

/-- The dtypes `csv_itemsize` accepts. -/
theorem csvItemsize_ok (sized : csvItemsize dtype = .ok itemsize) :
    dtype = "i1" ∧ itemsize = 1 ∨ dtype = "i4" ∧ itemsize = 4 ∨ dtype = "f4" ∧ itemsize = 4 ∨
      dtype = "f8" ∧ itemsize = 8 ∨
      (dtype ≠ "f4" ∧ dtype ≠ "f8" ∧ dtype ≠ "i1" ∧ dtype ≠ "i4" ∧
        dtype.toList.head? ≠ some 'S') ∧ itemsize = 8 ∨
      dtype.toList.head? = some 'S' ∧ 0 < itemsize := by
  unfold csvItemsize at sized
  by_cases i1 : dtype = "i1"
  · rw [if_pos i1] at sized
    exact Or.inl ⟨i1, (Except.ok.inj sized).symm⟩
  rw [if_neg i1] at sized
  by_cases four : dtype = "i4" ∨ dtype = "f4"
  · rw [if_pos four] at sized
    have size := (Except.ok.inj sized).symm
    rcases four with i4 | f4
    · exact Or.inr (Or.inl ⟨i4, size⟩)
    · exact Or.inr (Or.inr (Or.inl ⟨f4, size⟩))
  rw [if_neg four] at sized
  rw [not_or] at four
  by_cases eight : dtype = "i8" ∨ dtype = "f8" ∨ isDatetime dtype = true
  · rw [if_pos eight] at sized
    have size := (Except.ok.inj sized).symm
    by_cases f8 : dtype = "f8"
    · exact Or.inr (Or.inr (Or.inr (Or.inl ⟨f8, size⟩)))
    · refine Or.inr (Or.inr (Or.inr (Or.inr (Or.inl ⟨⟨four.2, f8, i1, four.1, ?_⟩, size⟩))))
      rcases eight with rfl | same | datetime
      · decide
      · exact absurd same f8
      · rw [isDatetime_head datetime]
        decide
  rw [if_neg eight] at sized
  by_cases string : dtype.toList.head? = some 'S'
  · rw [if_pos string] at sized
    obtain ⟨width, _, checked⟩ := bind_ok.1 sized
    obtain ⟨positive, same⟩ := refuse_ok.1 checked
    cases same
    exact Or.inr (Or.inr (Or.inr (Or.inr (Or.inr ⟨string, Nat.pos_of_ne_zero positive⟩))))
  · rw [if_neg string] at sized
    cases sized

theorem csvItemsize_pos (sized : csvItemsize dtype = .ok itemsize) : 0 < itemsize := by
  rcases csvItemsize_ok sized with h | h | h | h | h | h <;> omega

/-- A field is stored as one item or found out of range. -/
theorem fieldBytes_yields (parsers : FloatParsers) (sized : csvItemsize dtype = .ok itemsize) (clean : 0 ∉ text) :
    Yields (fun bytes => bytes.length = itemsize)
      (fun e => e = .runtime "CSV integer value out of range")
      (fieldBytes parsers dtype itemsize text) := by
  have read := readString_text clean []
  have integer : ∀ width size, Yields (fun bytes => bytes.length = size)
      (fun e => e = .runtime "CSV integer value out of range")
      (do
        let value ← (checkedInteger width (text ++ [0]) 44).mapError IntegerError.toCsv
        .ok (integerBytes size value)) := by
    intro width size
    rw [checkedInteger_text width text [] 44 (by decide)]
    split
    · exact integerBytes_length size _
    · rfl
  unfold fieldBytes valueBytes
  rw [read]
  rcases csvItemsize_ok sized with ⟨rfl, rfl⟩ | ⟨rfl, rfl⟩ | ⟨rfl, rfl⟩ | ⟨rfl, rfl⟩ |
    ⟨⟨f4, f8, i1, i4, string⟩, rfl⟩ | ⟨string, _⟩
  · exact integerBytes_length 1 _
  · exact integer .int32 4
  · exact parsers.floatSize text
  · exact parsers.doubleSize text
  · rw [if_neg string, if_neg f4, if_neg f8, if_neg i1, if_neg i4]
    exact integer .int64 8
  · rw [if_pos string]
    change (text.take itemsize ++ List.replicate (itemsize - text.length) 0).length = itemsize
    rw [List.length_append, List.length_take, List.length_replicate]
    omega

/-! ## Rows of columns -/

/-- The dtypes with their widths. -/
abbrev Schema := List (String × Nat)

def Schema.Sized (schema : Schema) : Prop := ∀ item ∈ schema, csvItemsize item.1 = .ok item.2

def Schema.width (schema : Schema) : Nat := (schema.map Prod.snd).sum

/-- The row the fields of a line are stored as. -/
def parseFields (parsers : FloatParsers) :
    Schema → List (List UInt8) → Except CsvError (List (List UInt8))
  | [], _ => .ok []
  | _ :: _, [] => .error .undefinedBehaviour
  | (dtype, itemsize) :: schema, text :: texts => do
      let bytes ← fieldBytes parsers dtype itemsize text
      let row ← parseFields parsers schema texts
      .ok (bytes :: row)

def appendRow (data : List CsvColumn) (row : List (List UInt8)) : List CsvColumn :=
  data.zipWith (fun column bytes => { column with values := column.values ++ bytes }) row

def emptyColumns (schema : Schema) : List CsvColumn :=
  schema.map fun item => ⟨item.1, item.2, []⟩

/-- The columns of the rows. -/
def columnsOf (schema : Schema) (rows : List (List (List UInt8))) : List CsvColumn :=
  rows.foldl appendRow (emptyColumns schema)

/-- Every column is of its dtype and holds so many items. -/
def Filled (schema : Schema) (count : Nat) (data : List CsvColumn) : Prop :=
  List.Forall₂ (fun item column => column.dtype = item.1 ∧ column.itemsize = item.2 ∧
    column.values.length = count * item.2) schema data

/-- Every value has the width of its column. -/
def RowFits (schema : Schema) (row : List (List UInt8)) : Prop :=
  List.Forall₂ (fun item bytes => bytes.length = item.2) schema row

variable {schema : Schema} {data : List CsvColumn} {row : List (List UInt8)} {count maximum : Nat}
  {ret : List Nat} {texts : List (List UInt8)}

theorem filled_empty (schema : Schema) : Filled schema 0 (emptyColumns schema) := by
  induction schema with
  | nil => exact .nil
  | cons item schema ih => exact .cons ⟨rfl, rfl, by simp⟩ ih

theorem Filled.append (filled : Filled schema count data) (fits : RowFits schema row) :
    Filled schema (count + 1) (appendRow data row) := by
  induction filled generalizing row with
  | nil =>
      cases fits
      exact .nil
  | cons first rest ih =>
      cases fits with
      | cons here later =>
          obtain ⟨dtype, itemsize, length⟩ := first
          refine .cons ⟨dtype, itemsize, ?_⟩ (ih later)
          simp only [List.length_append, length, here]
          ring

theorem parseFields_yields (sized : schema.Sized) (same : texts.length = schema.length)
    (clean : ∀ text ∈ texts, 0 ∉ text) :
    Yields (RowFits schema) (fun e => e = .runtime "CSV integer value out of range")
      (parseFields parsers schema texts) := by
  induction schema generalizing texts with
  | nil => exact .nil
  | cons item schema ih =>
      cases texts with
      | nil => exact absurd same (Nat.succ_ne_zero _).symm
      | cons text texts =>
          have first := fieldBytes_yields parsers
            (sized item List.mem_cons_self) (clean text List.mem_cons_self)
          refine first.bind fun bytes here => ?_
          refine (ih (fun other member => sized other (List.mem_cons_of_mem _ member))
            (Nat.succ.inj same) fun other member => clean other (List.mem_cons_of_mem _ member)).bind
            fun row rest => ?_
          exact .cons here rest

/-- One value, whose destination has room for exactly one item. -/
theorem addValue_eq (parsers : FloatParsers) (column : CsvColumn) {field : Nat}
    (sized : csvItemsize column.dtype = .ok column.itemsize)
    (ends : Ends memory field text)
    (room : column.values.length + column.itemsize ≤ maximum) :
    addValue parsers (memory.drop field) maximum column =
      (fieldBytes parsers column.dtype column.itemsize text).map
        fun bytes => { column with values := column.values ++ bytes } := by
  obtain ⟨clean, after, held⟩ := ends
  have yields := fieldBytes_yields parsers sized clean
  unfold addValue
  rw [if_neg (by omega), held, valueBytes_text clean after]
  cases stored : fieldBytes parsers column.dtype column.itemsize text with
  | error e => rfl
  | ok bytes =>
      have length := yields.of_ok stored
      change (if bytes.length > column.itemsize then _ else _) = _
      rw [if_neg (by omega)]
      rfl

/-- `add_line` appends the row its fields are stored as, while every column has room. -/
theorem addLine_eq (filled : Filled schema count data) (sized : schema.Sized)
    (ends : List.Forall₂ (Ends memory) ret texts) (same : texts.length = schema.length)
    (room : ∀ item ∈ schema, (count + 1) * item.2 ≤ maximum) :
    addLine parsers memory maximum ret data =
      (parseFields parsers schema texts).map (appendRow data) := by
  induction filled generalizing ret texts with
  | nil =>
      cases ends
      · rfl
      · rfl
  | @cons item column schema data first rest ih =>
      cases ends with
      | nil => exact absurd same (Nat.succ_ne_zero _).symm
      | @cons field text ret texts here later =>
          obtain ⟨dtype, itemsize⟩ := item
          obtain ⟨columnDtype, columnItemsize, values⟩ := column
          obtain ⟨rfl, rfl, length⟩ := first
          have within : values.length + columnItemsize ≤ maximum := by
            have bound := room (columnDtype, columnItemsize) List.mem_cons_self
            simp only at length bound
            linarith
          have value := addValue_eq parsers ⟨columnDtype, columnItemsize, values⟩
            (sized _ List.mem_cons_self) here within
          have others := ih (fun other member => sized other (List.mem_cons_of_mem _ member)) later
            (Nat.succ.inj same) fun other member => room other (List.mem_cons_of_mem _ member)
          rw [addLine, value, others, parseFields]
          cases fieldBytes parsers columnDtype columnItemsize text with
          | error e => rfl
          | ok bytes =>
              cases parseFields parsers schema texts with
              | error e => rfl
              | ok row => rfl

end Gambit.Csv
