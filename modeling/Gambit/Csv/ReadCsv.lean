import Gambit.Csv.Columns

/-!
# Reading a file

`read_csv` and its row loop on a plain file, and the same loop over the list of
the file's lines.  The loop over the buffer follows the loop over the lines as
long as no limit of the line reader is exceeded.
-/

set_option autoImplicit false

namespace Gambit.Csv

open Raising

structure CsvLimits where
  maxInputBytes : Nat
  maxOutputBytes : Nat
  maxColumns : Nat

structure CsvArguments where
  colIndices : List Int32
  dtypes : List String
  separator : UInt8
  skipRows : Int32
  maxRows : Int32
  limits : CsvLimits

def CsvArguments.indices (arguments : CsvArguments) : List Int :=
  arguments.colIndices.map Int32.toInt

/-- `static_cast<size_t>(skip_rows)` of a nonnegative number -/
def CsvArguments.skip (arguments : CsvArguments) : Nat := arguments.skipRows.toInt.toNat

def CsvArguments.most (arguments : CsvArguments) : Nat := arguments.maxRows.toInt.toNat

def schemaLoop (maxOutputBytes : Nat) :
    List String → Nat → List CsvColumn → Except CsvError (Nat × List CsvColumn)
  | [], rowWidth, output => .ok (rowWidth, output)
  | dtype :: dtypes, rowWidth, output => do
      let width ← csvItemsize dtype
      if width > maxOutputBytes - rowWidth then
        .error (.runtime "CSV output byte limit exceeded by schema")
      schemaLoop maxOutputBytes dtypes (rowWidth + width) (output ++ [⟨dtype, width, []⟩])

structure Progress where
  rowNum : Nat
  dataRowCount : Nat
  output : List CsvColumn
deriving DecidableEq

/-- The checks on a line's fields, and `add_line`. -/
def acceptFields (parsers : FloatParsers) (arguments : CsvArguments) (rowWidth : Nat)
    (memory : List UInt8) (fields : List Nat) (progress : Progress) :
    Except CsvError Progress :=
  if fields.length = 0 then .ok progress
  else if fields.length ≠ arguments.dtypes.length then
    .error (.runtime " found   fields on row:  line:  but dtypes arg length was ")
  else if progress.dataRowCount ≥ arguments.limits.maxOutputBytes / rowWidth then
    .error (.runtime "CSV output byte limit exceeded")
  else do
    let output ← addLine parsers memory arguments.limits.maxOutputBytes fields progress.output
    .ok { progress with output, dataRowCount := progress.dataRowCount + 1 }

def Progress.finished (progress : Progress) (arguments : CsvArguments) : Prop :=
  arguments.most ≠ 0 ∧ arguments.most ≤ progress.dataRowCount

instance (progress : Progress) (arguments : CsvArguments) :
    Decidable (progress.finished arguments) :=
  inferInstanceAs (Decidable (_ ∧ _))

def Progress.nextRow (progress : Progress) : Progress :=
  { progress with rowNum := progress.rowNum + 1 }

/-- The loop of `read_csv_file`; the flag is `more_to_read`. -/
def csvLoop (environment : Environment) (parsers : FloatParsers) (arguments : CsvArguments)
    (rowWidth : Nat) :
    Nat → Option LineBuffer → Reader → Progress → Except CsvError (Bool × Progress)
  | 0, _, _, _ => .error .undefinedBehaviour
  | rounds + 1, buffer, reader, progress =>
      if progress.finished arguments then .ok (true, progress)
      else do
        let round ← readLine environment buffer reader
        match round with
        | .line address size buffer reader =>
            -- A line without a byte looks like the end of the input.
            if size = 0 then .ok (false, progress)
            else
              let progress := progress.nextRow
              if progress.rowNum ≤ arguments.skip then
                csvLoop environment parsers arguments rowWidth rounds (some buffer) reader progress
              else do
                let (memory, fields) ←
                  (tokenizeLine (buffer.block.drop address) arguments.separator
                    arguments.indices).mapError fun _ => CsvError.undefinedBehaviour
                let buffer := { buffer with block := buffer.block.take address ++ memory }
                let progress ← acceptFields parsers arguments rowWidth memory fields progress
                csvLoop environment parsers arguments rowWidth rounds (some buffer) reader progress
        | _ => .ok (false, progress)

def readCsvFile (environment : Environment) (parsers : FloatParsers) (arguments : CsvArguments)
    (reader : Reader) : Except CsvError (Bool × List CsvColumn) := do
  let (rowWidth, output) ← schemaLoop arguments.limits.maxOutputBytes arguments.dtypes 0 []
  let (moreToRead, progress) ←
    csvLoop environment parsers arguments rowWidth (reader.left.length + 1) none reader
      ⟨0, 0, output⟩
  .ok (moreToRead, progress.output)

/-- `previous` is below every index that follows. -/
def increasing (previous : Int) : List Int → Bool
  | [] => true
  | index :: rest => previous < index && increasing index rest

def checkArguments (arguments : CsvArguments) : Except CsvError Unit :=
  if arguments.limits.maxInputBytes = 0 ∨ arguments.limits.maxOutputBytes = 0 ∨
      arguments.limits.maxColumns = 0 then
    .error (.invalidArgument "CSV limits must be positive")
  else if arguments.dtypes = [] ∨ arguments.dtypes.length ≠ arguments.colIndices.length ∨
      arguments.limits.maxColumns < arguments.dtypes.length then
    .error (.invalidArgument "CSV schema size/column limit invalid")
  else if arguments.skipRows.toInt < 0 ∨ arguments.maxRows.toInt < 0 then
    .error (.invalidArgument "CSV row counts must be nonnegative")
  else if increasing (-1) arguments.indices = false then
    .error (.invalidArgument "CSV column indices must be monotonically increasing")
  else .ok ()

/-- `read_csv` on a plain file: what it returns or raises, and the caller's output after it. -/
def readCsv (environment : Environment) (parsers : FloatParsers) (arguments : CsvArguments)
    (input : List UInt8) (output : List CsvColumn) : Except CsvError Bool × List CsvColumn :=
  let body : Except CsvError (Bool × List CsvColumn) := do
    checkArguments arguments
    readCsvFile environment parsers arguments
      (Reader.openAt arguments.limits.maxInputBytes input)
  match body with
  | .ok (moreToRead, pending) => (.ok moreToRead, pending)
  | .error e => (.error e, output)

/-! ## The loop over the lines -/

/-- The fields of a line that the indices select. -/
def selectedFields (arguments : CsvArguments) (line : List UInt8) : List (List UInt8) :=
  arguments.indices.filterMap fun index =>
    ((line.takeWhile (· ≠ 0)).splitOn arguments.separator)[index.toNat]?

/-- `acceptFields` on the texts of the fields. -/
def acceptLine (parsers : FloatParsers) (arguments : CsvArguments) (schema : Schema)
    (line : List UInt8) (progress : Progress) : Except CsvError Progress :=
  let texts := selectedFields arguments line
  if texts.length = 0 then .ok progress
  else if texts.length ≠ arguments.dtypes.length then
    .error (.runtime " found   fields on row:  line:  but dtypes arg length was ")
  else if progress.dataRowCount ≥ arguments.limits.maxOutputBytes / schema.width then
    .error (.runtime "CSV output byte limit exceeded")
  else do
    let row ← parseFields parsers schema texts
    .ok { progress with
      output := appendRow progress.output row
      dataRowCount := progress.dataRowCount + 1 }

def rowsFrom (parsers : FloatParsers) (arguments : CsvArguments) (schema : Schema) :
    List (List UInt8) → Progress → Except CsvError (Bool × Progress)
  | [], progress => .ok (decide (progress.finished arguments), progress)
  | line :: rest, progress =>
      if progress.finished arguments then .ok (true, progress)
      else if line = [] then .ok (false, progress)
      else
        let progress := progress.nextRow
        if progress.rowNum ≤ arguments.skip then rowsFrom parsers arguments schema rest progress
        else do
          let progress ← acceptLine parsers arguments schema line progress
          rowsFrom parsers arguments schema rest progress

/-! ## One line -/

/-- What the checks of the arguments and of the schema have established. -/
structure Prepared (arguments : CsvArguments) (schema : Schema) : Prop where
  dtypes : schema.length = arguments.dtypes.length
  sized : schema.Sized
  nonempty : arguments.indices ≠ []
  paired : arguments.dtypes.length = arguments.indices.length
  ordered : arguments.indices.Pairwise (· < ·)
  range : ∀ index ∈ arguments.indices, 0 ≤ index ∧ index < 2 ^ 31

variable {environment : Environment} {parsers : FloatParsers} {arguments : CsvArguments}
  {schema : Schema} {buffer : LineBuffer} {reader : Reader} {line pending memory text : List UInt8}
  {ret : List Nat} {progress : Progress} {address : Nat}

theorem takeWhile_clean (line : List UInt8) : 0 ∉ line.takeWhile (· ≠ 0) := by
  intro member
  have holds := List.all_eq_true.1 (@List.all_takeWhile _ (fun byte : UInt8 => byte ≠ 0) line) 0 member
  exact of_decide_eq_true holds rfl

/-- Up to its first NUL a line is its C string. -/
theorem line_split (line : List UInt8) :
    ∃ more, line ++ [0] = line.takeWhile (· ≠ 0) ++ 0 :: more := by
  induction line with
  | nil => exact ⟨[], rfl⟩
  | cons byte line ih =>
      by_cases zero : byte = 0
      · exact ⟨line ++ [0], by simp [zero]⟩
      · obtain ⟨more, same⟩ := ih
        exact ⟨more, by simpa [zero] using same⟩

/-- Cutting a returned line into its fields leaves the pending bytes alone. -/
theorem tokenizeLine_returned (prepared : Prepared arguments schema)
    (returned : buffer.Returns address line pending) :
    ∃ memory ret,
      tokenizeLine (buffer.block.drop address) arguments.separator arguments.indices =
        .ok (memory, ret) ∧
      List.Forall₂ (Ends memory) ret (selectedFields arguments line) ∧
      LineBuffer.Holds { buffer with block := buffer.block.take address ++ memory } pending := by
  obtain ⟨front, back, layout, rfl, frame⟩ := returned
  obtain ⟨more, split⟩ := line_split line
  obtain ⟨changed, ret, run, length, ends⟩ :=
    tokenizeLine_ends (line.takeWhile (· ≠ 0)) (more ++ back) arguments.separator
      (takeWhile_clean line) prepared.nonempty prepared.ordered prepared.range
  have start : buffer.block.drop front.length =
      line.takeWhile (· ≠ 0) ++ 0 :: (more ++ back) := by
    rw [layout, List.append_assoc, List.drop_left, split]
    simp
  have before : buffer.block.take front.length = front := by
    rw [layout, List.append_assoc, List.take_left]
  refine ⟨changed ++ (more ++ back), ret, by rw [start, run], ends, ?_⟩
  have count := congrArg List.length split
  simp only [List.length_append, List.length_cons, List.length_nil] at count
  have held := frame (changed ++ more) (by rw [List.length_append]; omega)
  rwa [before, ← List.append_assoc, ← List.append_assoc, List.append_assoc front]

/-- The dtypes fit their row, so a row that fits leaves room in every column. -/
theorem Schema.item_le_width {item : String × Nat} (member : item ∈ schema) :
    item.2 ≤ schema.width :=
  List.single_le_sum (fun _ _ => Nat.zero_le _) _ (List.mem_map_of_mem member)

theorem room_of_lt {item : String × Nat} {count maximum : Nat} (member : item ∈ schema)
    (below : count < maximum / schema.width) : (count + 1) * item.2 ≤ maximum :=
  calc
    (count + 1) * item.2 ≤ (maximum / schema.width) * schema.width :=
      Nat.mul_le_mul below (Schema.item_le_width member)
    _ ≤ maximum := Nat.div_mul_le_self _ _

theorem acceptFields_eq (parsers : FloatParsers) (progress : Progress)
    (prepared : Prepared arguments schema)
    (filled : Filled schema progress.dataRowCount progress.output)
    (ends : List.Forall₂ (Ends memory) ret (selectedFields arguments line)) :
    acceptFields parsers arguments schema.width memory ret progress =
      acceptLine parsers arguments schema line progress := by
  have same := ends.length_eq
  unfold acceptFields acceptLine
  simp only [same]
  by_cases none : (selectedFields arguments line).length = 0
  · rw [if_pos none, if_pos none]
  rw [if_neg none, if_neg none]
  by_cases some : (selectedFields arguments line).length ≠ arguments.dtypes.length
  · rw [if_pos some, if_pos some]
  rw [if_neg some, if_neg some]
  by_cases full : progress.dataRowCount ≥ arguments.limits.maxOutputBytes / schema.width
  · rw [if_pos full, if_pos full]
  rw [if_neg full, if_neg full]
  have all : (selectedFields arguments line).length = schema.length := by
    rw [prepared.dtypes]
    exact not_not.1 some
  rw [addLine_eq filled prepared.sized ends all
    fun item member => room_of_lt member (Nat.lt_of_not_le full)]
  cases parseFields parsers schema (selectedFields arguments line) with
  | error e => rfl
  | ok row => rfl

/-! ## The loop -/

theorem mem_of_mem_splitOn {separator byte : UInt8} {part : List UInt8} (inside : byte ∈ part)
    {line : List UInt8} (piece : part ∈ line.splitOn separator) : byte ∈ line := by
  induction line generalizing part with
  | nil =>
      rw [List.splitOn_nil, List.mem_singleton] at piece
      rwa [piece] at inside
  | cons first line ih =>
      rw [List.splitOn_cons_eq_if_modifyHead] at piece
      split at piece
      · rcases List.mem_cons.1 piece with rfl | later
        · exact absurd inside List.not_mem_nil
        · exact List.mem_cons_of_mem _ (ih inside later)
      · cases split : line.splitOn separator with
        | nil => exact absurd split (List.splitOn_ne_nil _ _)
        | cons head tail =>
            rw [split] at piece ih
            rcases List.mem_cons.1 piece with rfl | later
            · rcases List.mem_cons.1 inside with rfl | deeper
              · exact List.mem_cons_self
              · exact List.mem_cons_of_mem _ (ih deeper List.mem_cons_self)
            · exact List.mem_cons_of_mem _ (ih inside (List.mem_cons_of_mem _ later))

/-- A line's row has the widths of the schema. -/
theorem parseFields_line (parsers : FloatParsers) (prepared : Prepared arguments schema)
    (all : (selectedFields arguments line).length = arguments.dtypes.length) :
    Yields (RowFits schema) (fun e => e = .runtime "CSV integer value out of range")
      (parseFields parsers schema (selectedFields arguments line)) := by
  refine parseFields_yields prepared.sized (all.trans prepared.dtypes.symm) fun text member => ?_
  obtain ⟨index, _, found⟩ := List.mem_filterMap.1 member
  exact fun zero => takeWhile_clean line (mem_of_mem_splitOn zero (List.mem_of_getElem? found))

/-- A line either is passed over or adds a row. -/
theorem acceptLine_yields (prepared : Prepared arguments schema) :
    Yields (fun next => selectedFields arguments line = [] ∧ next = progress ∨
        ∃ row, (selectedFields arguments line).length = arguments.dtypes.length ∧
          progress.dataRowCount < arguments.limits.maxOutputBytes / schema.width ∧
          parseFields parsers schema (selectedFields arguments line) = .ok row ∧
          RowFits schema row ∧
          next = { progress with
            output := appendRow progress.output row
            dataRowCount := progress.dataRowCount + 1 })
      (fun e => ∃ message, e = .runtime message)
      (acceptLine parsers arguments schema line progress) := by
  unfold acceptLine
  by_cases none : (selectedFields arguments line).length = 0
  · rw [if_pos none]
    exact Or.inl ⟨List.length_eq_zero_iff.1 none, rfl⟩
  rw [if_neg none]
  by_cases some : (selectedFields arguments line).length ≠ arguments.dtypes.length
  · rw [if_pos some]
    exact ⟨_, rfl⟩
  rw [if_neg some]
  by_cases full : progress.dataRowCount ≥ arguments.limits.maxOutputBytes / schema.width
  · rw [if_pos full]
    exact ⟨_, rfl⟩
  rw [if_neg full]
  have all := not_not.1 some
  have row := parseFields_line parsers prepared all
  cases parsed : parseFields parsers schema (selectedFields arguments line) with
  | error e => exact ⟨_, row.of_error parsed⟩
  | ok cells =>
      exact Or.inr ⟨cells, all, Nat.lt_of_not_le full, rfl, row.of_ok parsed, rfl⟩

theorem acceptLine_filled {next : Progress} (prepared : Prepared arguments schema)
    (filled : Filled schema progress.dataRowCount progress.output)
    (accepted : acceptLine parsers arguments schema line progress = .ok next) :
    Filled schema next.dataRowCount next.output := by
  rcases (acceptLine_yields prepared).of_ok accepted with
    ⟨_, rfl⟩ | ⟨row, _, _, _, fits, rfl⟩
  · exact filled
  · exact filled.append fits

/-- What the row loop returns is what the loop over the lines returns, and it raises where that
one raises or a limit of the reader is exceeded. -/
theorem csvLoop_yields {limit total : Nat} (prepared : Prepared arguments schema)
    (rounds : Nat) {buffer : Option LineBuffer} (enough : text.length < rounds)
    (owes : Owes buffer reader text) (maximum : reader.maximum = limit)
    (balance : reader.consumed + reader.left.length = total)
    (filled : Filled schema progress.dataRowCount progress.output) :
    Yields (fun result => rowsFrom parsers arguments schema (lines text) progress = .ok result ∧
        (arguments.most = 0 → [] ∉ lines text →
          total ≤ limit ∧ ∀ segment ∈ segments text, segment.length < maxLineSize))
      (fun e => rowsFrom parsers arguments schema (lines text) progress = .error e ∨
        (∃ message, e = .runtime message) ∧
          (limit < total ∨ ¬ ∀ segment ∈ segments text, segment.length < maxLineSize))
      (csvLoop environment parsers arguments schema.width rounds buffer reader progress) := by
  induction rounds generalizing buffer reader text progress with
  | zero => exact absurd enough (Nat.not_lt_zero _)
  | succ rounds ih =>
      rw [csvLoop]
      by_cases finished : progress.finished arguments
      · rw [if_pos finished]
        refine ⟨?_, fun unlimited => absurd unlimited finished.1⟩
        cases lines text with
        | nil => rw [rowsFrom, decide_eq_true finished]
        | cons line rest => rw [rowsFrom, if_pos finished]
      rw [if_neg finished]
      have call := readLine_yields environment owes maximum balance
      refine Yields.bind (call.weaken (fun _ facts => facts)
        fun e refused => Or.inr refused.reason) ?_
      rintro round returned
      cases round with
      | again buffer' reader' => exact returned.elim
      | endOfInput buffer' reader' =>
          obtain ⟨rfl, within⟩ := returned
          have single : segments ([] : List UInt8) = [[]] := segments_last List.not_mem_nil
          refine ⟨by rw [lines_nil, rowsFrom, decide_eq_false finished], fun _ _ => ⟨within, ?_⟩⟩
          rw [single, List.forall_mem_singleton]
          exact maxLineSize_pos
      | line address size buffer' reader' =>
          obtain ⟨segment, line, rest, pending, first, short, same, stands, restIs, maximum',
            balance'⟩ := returned
          have fewer := first.shorter
          have limits := first.segments_short maxLineSize_pos
          simp only [first.lines_eq, same, List.length_eq_zero_iff]
          by_cases blank : line = []
          · rw [if_pos blank, rowsFrom, if_neg finished, if_pos blank]
            exact ⟨rfl, fun _ absent => absurd (blank ▸ List.mem_cons_self) absent⟩
          rw [if_neg blank]
          -- Both loops go on to the rest of the text with the same progress.
          have goOn : ∀ {buffer : LineBuffer} {next : Progress}, buffer.Holds pending →
              Filled schema next.dataRowCount next.output →
              rowsFrom parsers arguments schema (line :: lines rest) progress =
                rowsFrom parsers arguments schema (lines rest) next →
              Yields
                (fun result =>
                  rowsFrom parsers arguments schema (line :: lines rest) progress = .ok result ∧
                  (arguments.most = 0 → [] ∉ line :: lines rest → total ≤ limit ∧
                    ∀ segment ∈ segments text, segment.length < maxLineSize))
                (fun e =>
                  rowsFrom parsers arguments schema (line :: lines rest) progress = .error e ∨
                  (∃ message, e = .runtime message) ∧
                    (limit < total ∨ ¬ ∀ segment ∈ segments text, segment.length < maxLineSize))
                (csvLoop environment parsers arguments schema.width rounds (some buffer) reader'
                  next) := by
            intro buffer next holds filled' follows
            have owes' : Owes (some buffer) reader' rest := ⟨pending, holds, restIs⟩
            refine (ih (by omega) owes' maximum' balance' filled').weaken ?_ ?_
            · rintro result ⟨returned, checked⟩
              refine ⟨follows.trans returned, fun unlimited absent => ?_⟩
              obtain ⟨within, allShort⟩ :=
                checked unlimited fun member => absent (List.mem_cons_of_mem _ member)
              exact ⟨within, limits.2 ⟨short, allShort⟩⟩
            · rintro e (raised | ⟨message, reason⟩)
              · exact Or.inl (follows.trans raised)
              · exact Or.inr ⟨message, reason.imp_right fun long all => long (limits.1 all).2⟩
          by_cases skipped : progress.nextRow.rowNum ≤ arguments.skip
          · rw [if_pos skipped]
            refine goOn stands.holds filled ?_
            rw [rowsFrom, if_neg finished, if_neg blank]
            simp only [if_pos skipped]
          · rw [if_neg skipped]
            obtain ⟨memory, ret, cut, ends, holds⟩ := tokenizeLine_returned prepared stands
            have accepted := acceptFields_eq parsers progress.nextRow prepared filled ends
            rw [cut]
            refine Yields.bind_of_ok rfl ?_
            simp only [accepted]
            have unfolded : rowsFrom parsers arguments schema (line :: lines rest) progress =
                (acceptLine parsers arguments schema line progress.nextRow >>=
                  rowsFrom parsers arguments schema (lines rest)) := by
              rw [rowsFrom, if_neg finished, if_neg blank]
              simp only [if_neg skipped]
            cases outcome : acceptLine parsers arguments schema line progress.nextRow with
            | error e => exact Or.inl (by rw [unfolded, outcome]; rfl)
            | ok next =>
                have filled' : Filled schema progress.nextRow.dataRowCount progress.nextRow.output := filled
                refine goOn holds (acceptLine_filled prepared filled' outcome) ?_
                rw [unfolded, outcome]
                rfl

end Gambit.Csv
