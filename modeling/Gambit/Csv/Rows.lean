import Mathlib
import Gambit.Csv.ReadCsv

/-!
# The rows returned

Which lines of a file `read_csv` returns as rows, and which inputs its limits
accept.  A blank line ends the reading, and a line with none of the selected
columns is passed over; rows are counted against the output limit before they
are stored.
-/

set_option autoImplicit false

namespace Gambit.Csv

open Raising

/-- At most `most` rows in all, `count` of them returned already; zero is no bound. -/
def truncated (most count : Nat) (rows : List (List UInt8)) : List (List UInt8) :=
  if most = 0 then rows else rows.take (most - count)

def parseLine (parsers : FloatParsers) (arguments : CsvArguments) (schema : Schema)
    (line : List UInt8) : Except CsvError (List (List UInt8)) :=
  if (selectedFields arguments line).length = arguments.dtypes.length then
    parseFields parsers schema (selectedFields arguments line)
  else .error (.runtime " found   fields on row:  line:  but dtypes arg length was ")

/-- The lines the loop stores: it stops at a blank line and passes over those without a
selected column. -/
def storedLines (arguments : CsvArguments) (rowNum count : Nat) (lines : List (List UInt8)) :
    List (List UInt8) :=
  truncated arguments.most count
    (((lines.takeWhile (· ≠ [])).drop (arguments.skip - rowNum)).filter
      (selectedFields arguments · ≠ []))

/-- The rows are those of the lines, in order. -/
def RowsOf (parsers : FloatParsers) (arguments : CsvArguments) (schema : Schema)
    (lines : List (List UInt8)) (rows : List (List (List UInt8))) : Prop :=
  List.Forall₂ (fun line row => parseLine parsers arguments schema line = .ok row) lines rows

variable {parsers : FloatParsers} {arguments : CsvArguments} {schema : Schema}
  {line : List UInt8} {rest content : List (List UInt8)} {progress final : Progress}
  {moreToRead : Bool}

theorem storedLines_finished (finished : progress.finished arguments) :
    storedLines arguments progress.rowNum progress.dataRowCount content = [] := by
  rw [storedLines, truncated, if_neg finished.1, Nat.sub_eq_zero_of_le finished.2, List.take_zero]

theorem storedLines_blank (rowNum count : Nat) :
    storedLines arguments rowNum count ([] :: rest) = [] := by
  simp [storedLines, truncated]

theorem storedLines_skipped {rowNum : Nat} (count : Nat) (nonblank : line ≠ [])
    (skipped : rowNum + 1 ≤ arguments.skip) :
    storedLines arguments rowNum count (line :: rest) =
      storedLines arguments (rowNum + 1) count rest := by
  have less : arguments.skip - rowNum = arguments.skip - (rowNum + 1) + 1 := by omega
  rw [storedLines, List.takeWhile_cons, if_pos (decide_eq_true nonblank), less,
    List.drop_succ_cons, storedLines]

theorem storedLines_passed {rowNum : Nat} (count : Nat) (nonblank : line ≠ [])
    (past : ¬ rowNum + 1 ≤ arguments.skip) (none : selectedFields arguments line = []) :
    storedLines arguments rowNum count (line :: rest) =
      storedLines arguments (rowNum + 1) count rest := by
  have here : arguments.skip - rowNum = 0 := by omega
  have next : arguments.skip - (rowNum + 1) = 0 := by omega
  simp [storedLines, nonblank, here, next, none]

theorem storedLines_stored {rowNum count : Nat} (nonblank : line ≠ [])
    (past : ¬ rowNum + 1 ≤ arguments.skip) (some : selectedFields arguments line ≠ [])
    (unfinished : ¬ (arguments.most ≠ 0 ∧ arguments.most ≤ count)) :
    storedLines arguments rowNum count (line :: rest) =
      line :: storedLines arguments (rowNum + 1) (count + 1) rest := by
  have here : arguments.skip - rowNum = 0 := by omega
  have next : arguments.skip - (rowNum + 1) = 0 := by omega
  by_cases unlimited : arguments.most = 0
  · simp [storedLines, truncated, nonblank, here, next, some, unlimited]
  · have left : arguments.most - count = arguments.most - (count + 1) + 1 := by omega
    simp [storedLines, truncated, nonblank, here, next, some, unlimited, left]

/-- What a run of the loop over the lines has stored. -/
theorem rowsFrom_ok (prepared : Prepared arguments schema)
    (run : rowsFrom parsers arguments schema content progress = .ok (moreToRead, final)) :
    ∃ rows, RowsOf parsers arguments schema
        (storedLines arguments progress.rowNum progress.dataRowCount content) rows ∧
      final.output = rows.foldl appendRow progress.output := by
  induction content generalizing progress with
  | nil =>
      cases run
      exact ⟨[], by simpa [storedLines, truncated] using .nil, rfl⟩
  | cons line rest ih =>
      have nothing : storedLines arguments progress.rowNum progress.dataRowCount (line :: rest) = [] →
          final = progress → ∃ rows, RowsOf parsers arguments schema
            (storedLines arguments progress.rowNum progress.dataRowCount (line :: rest)) rows ∧
            final.output = rows.foldl appendRow progress.output := by
        rintro none rfl
        exact ⟨[], by rw [none]; exact .nil, rfl⟩
      rw [rowsFrom] at run
      by_cases finished : progress.finished arguments
      · rw [if_pos finished] at run
        cases run
        exact nothing (storedLines_finished finished) rfl
      rw [if_neg finished] at run
      by_cases blank : line = []
      · rw [if_pos blank] at run
        cases run
        exact nothing (by rw [blank, storedLines_blank]) rfl
      rw [if_neg blank] at run
      simp only at run
      by_cases skipped : progress.nextRow.rowNum ≤ arguments.skip
      · rw [if_pos skipped] at run
        rw [storedLines_skipped _ blank skipped]
        exact ih run
      rw [if_neg skipped] at run
      obtain ⟨next, accepted, run⟩ := bind_ok.1 run
      rcases (acceptLine_yields prepared).of_ok accepted with
        ⟨none, rfl⟩ | ⟨row, all, _, parsed, _, rfl⟩
      · rw [storedLines_passed _ blank skipped none]
        exact ih run
      · have some : selectedFields arguments line ≠ [] := by
          intro none
          rw [none, prepared.paired] at all
          exact prepared.nonempty (List.length_eq_zero_iff.1 all.symm)
        obtain ⟨rows, parsedRest, output⟩ := ih run
        have here : parseLine parsers arguments schema line = .ok row := by
          rw [parseLine, if_pos all, parsed]
        refine ⟨row :: rows, ?_, output⟩
        rw [storedLines_stored blank skipped some finished]
        exact .cons here parsedRest

/-! ## From the file to its rows -/

/-- The schema of a list of dtypes. -/
def Schema.Of (schema : Schema) (dtypes : List String) : Prop :=
  schema.map Prod.fst = dtypes ∧ schema.Sized

theorem schemaLoop_ok {maximum rowWidth width : Nat} {dtypes : List String}
    {output columns : List CsvColumn}
    (run : schemaLoop maximum dtypes rowWidth output = .ok (width, columns)) :
    ∃ schema : Schema, schema.Of dtypes ∧ width = rowWidth + schema.width ∧
      columns = output ++ emptyColumns schema := by
  induction dtypes generalizing rowWidth output with
  | nil =>
      cases run
      exact ⟨[], ⟨rfl, fun _ none => absurd none List.not_mem_nil⟩, rfl, by simp [emptyColumns]⟩
  | cons dtype dtypes ih =>
      obtain ⟨itemsize, sized, run⟩ := bind_ok.1 run
      obtain ⟨_, run⟩ := refuse_ok.1 run
      obtain ⟨schema, ⟨names, allSized⟩, same, columnsAre⟩ := ih run
      refine ⟨(dtype, itemsize) :: schema,
        ⟨by rw [List.map_cons, names], List.forall_mem_cons.2 ⟨sized, allSized⟩⟩, ?_, ?_⟩
      · simp only [Schema.width, List.map_cons, List.sum_cons] at same ⊢
        omega
      · rw [columnsAre]
        simp [emptyColumns]

theorem schemaLoop_fits {maximum : Nat} {schema : Schema} (sized : schema.Sized) (rowWidth : Nat)
    (output : List CsvColumn) (fits : rowWidth + schema.width ≤ maximum) :
    schemaLoop maximum (schema.map Prod.fst) rowWidth output =
      .ok (rowWidth + schema.width, output ++ emptyColumns schema) := by
  induction schema generalizing rowWidth output with
  | nil => simp [schemaLoop, Schema.width, emptyColumns]
  | cons item schema ih =>
      have first := sized item List.mem_cons_self
      simp only [Schema.width, List.map_cons, List.sum_cons] at fits ih ⊢
      have rest := ih (fun other member => sized other (List.mem_cons_of_mem _ member))
        (rowWidth + item.2) (output ++ [⟨item.1, item.2, []⟩]) (by omega)
      rw [schemaLoop, first]
      change (if _ then _ else _) = _
      rw [if_neg (by omega), rest]
      simp [emptyColumns, Nat.add_assoc]

theorem increasing_iff {previous : Int} {indices : List Int} :
    increasing previous indices = true ↔
      indices.Pairwise (· < ·) ∧ ∀ index ∈ indices, previous < index := by
  induction indices generalizing previous with
  | nil => simp [increasing]
  | cons index rest ih =>
      simp only [increasing, Bool.and_eq_true, decide_eq_true_eq, ih, List.pairwise_cons,
        List.forall_mem_cons]
      constructor
      · rintro ⟨below, ordered, above⟩
        exact ⟨⟨above, ordered⟩, below, fun other member => lt_trans below (above other member)⟩
      · rintro ⟨⟨above, ordered⟩, below, _⟩
        exact ⟨below, ordered, above⟩

/-- What the checks establish. -/
theorem prepared_of_checks (checked : checkArguments arguments = .ok ())
    (named : schema.Of arguments.dtypes) : Prepared arguments schema := by
  unfold checkArguments at checked
  obtain ⟨_, checked⟩ := refuse_ok.1 checked
  obtain ⟨shape, checked⟩ := refuse_ok.1 checked
  obtain ⟨_, checked⟩ := refuse_ok.1 checked
  obtain ⟨order, _⟩ := refuse_ok.1 checked
  rw [Bool.not_eq_false] at order
  obtain ⟨ordered, above⟩ := increasing_iff.1 order
  push Not at shape
  have paired : arguments.dtypes.length = arguments.indices.length := by
    rw [shape.2.1, CsvArguments.indices, List.length_map]
  refine ⟨by rw [← named.1, List.length_map], named.2, ?_, paired, ordered, ?_⟩
  · intro none
    rw [none, List.length_nil] at paired
    exact shape.1 (List.length_eq_zero_iff.1 paired)
  · intro index member
    have positive := above index member
    obtain ⟨stored, _, rfl⟩ := List.mem_map.1 member
    exact ⟨by omega, stored.toInt_lt⟩

variable {environment : Environment} {input : List UInt8} {output result : List CsvColumn}

theorem csvLoop_start (environment : Environment) (parsers : FloatParsers) (input : List UInt8)
    (limit : Nat) (prepared : Prepared arguments schema) :
    Yields (fun outcome => rowsFrom parsers arguments schema (lines input)
          ⟨0, 0, emptyColumns schema⟩ = .ok outcome ∧
        (arguments.most = 0 → [] ∉ lines input →
          input.length ≤ limit ∧ ∀ segment ∈ segments input, segment.length < maxLineSize))
      (fun e => rowsFrom parsers arguments schema (lines input) ⟨0, 0, emptyColumns schema⟩ =
          .error e ∨ (∃ message, e = .runtime message) ∧
        (limit < input.length ∨ ¬ ∀ segment ∈ segments input, segment.length < maxLineSize))
      (csvLoop environment parsers arguments schema.width (input.length + 1) none
        (Reader.openAt limit input) ⟨0, 0, emptyColumns schema⟩) :=
  csvLoop_yields prepared _ (Nat.lt_succ_self _)
    (show Owes none (Reader.openAt limit input) input from rfl) rfl (Nat.zero_add _)
    (filled_empty schema)

/-- `read_csv` once its arguments and its schema are accepted. -/
theorem readCsv_eq (environment : Environment) (parsers : FloatParsers) (input : List UInt8)
    (output : List CsvColumn) (checked : checkArguments arguments = .ok ())
    (loop : schemaLoop arguments.limits.maxOutputBytes arguments.dtypes 0 [] =
      .ok (schema.width, emptyColumns schema)) :
    readCsv environment parsers arguments input output =
      match csvLoop environment parsers arguments schema.width (input.length + 1) none
        (Reader.openAt arguments.limits.maxInputBytes input) ⟨0, 0, emptyColumns schema⟩ with
      | .ok (moreToRead, progress) => (.ok moreToRead, progress.output)
      | .error e => (.error e, output) := by
  unfold readCsv readCsvFile
  rw [checked, loop]
  have whole : (Reader.openAt arguments.limits.maxInputBytes input).left = input := rfl
  simp only [bind, Except.bind, whole]
  cases csvLoop environment parsers arguments schema.width (input.length + 1) none
    (Reader.openAt arguments.limits.maxInputBytes input) ⟨0, 0, emptyColumns schema⟩ with
  | ok outcome => rfl
  | error e => rfl

/-- A file read without an exception. -/
theorem readCsv_ok
    (returned : readCsv environment parsers arguments input output = (.ok moreToRead, result)) :
    ∃ schema : Schema, schema.Of arguments.dtypes ∧ Prepared arguments schema ∧
      ∃ final, rowsFrom parsers arguments schema (lines input) ⟨0, 0, emptyColumns schema⟩ =
          .ok (moreToRead, final) ∧ final.output = result ∧
        (arguments.most = 0 → [] ∉ lines input →
          WithinLimits arguments.limits.maxInputBytes input) := by
  cases checked : checkArguments arguments with
  | error e =>
      rw [readCsv, checked] at returned
      exact nomatch congrArg Prod.fst returned
  | ok checks =>
      cases loop : schemaLoop arguments.limits.maxOutputBytes arguments.dtypes 0 [] with
      | error e =>
          rw [readCsv, checked, readCsvFile, loop] at returned
          exact nomatch congrArg Prod.fst returned
      | ok columns =>
          obtain ⟨rowWidth, columns⟩ := columns
          obtain ⟨schema, named, same, columnsAre⟩ := schemaLoop_ok loop
          rw [Nat.zero_add] at same
          rw [List.nil_append] at columnsAre
          subst same columnsAre
          have prepared := prepared_of_checks checked named
          have run := csvLoop_start environment parsers input arguments.limits.maxInputBytes prepared
          rw [readCsv_eq environment parsers input output checked loop] at returned
          cases outcome : csvLoop environment parsers arguments schema.width (input.length + 1) none
              (Reader.openAt arguments.limits.maxInputBytes input) ⟨0, 0, emptyColumns schema⟩ with
          | error e =>
              rw [outcome] at returned
              exact nomatch congrArg Prod.fst returned
          | ok found =>
              rw [outcome] at returned
              obtain ⟨more, final⟩ := found
              cases returned
              have facts := run.of_ok outcome
              exact ⟨schema, named, prepared, final, facts.1, rfl,
                fun most nonblank => (facts.2 most nonblank).symm⟩

/-- Within the limits of the reader the loop over the lines decides. -/
theorem readCsv_within (environment : Environment) (parsers : FloatParsers)
    (output : List CsvColumn) (checked : checkArguments arguments = .ok ())
    (named : schema.Of arguments.dtypes)
    (fits : schema.width ≤ arguments.limits.maxOutputBytes)
    (within : WithinLimits arguments.limits.maxInputBytes input) :
    readCsv environment parsers arguments input output =
      match rowsFrom parsers arguments schema (lines input) ⟨0, 0, emptyColumns schema⟩ with
      | .ok (moreToRead, progress) => (.ok moreToRead, progress.output)
      | .error e => (.error e, output) := by
  have loop := schemaLoop_fits named.2 0 [] (le_of_eq_of_le (Nat.zero_add _) fits)
  rw [named.1, Nat.zero_add, List.nil_append] at loop
  have run := csvLoop_start environment parsers input arguments.limits.maxInputBytes
    (prepared_of_checks checked named)
  rw [readCsv_eq environment parsers input output checked loop]
  cases outcome : csvLoop environment parsers arguments schema.width (input.length + 1) none
      (Reader.openAt arguments.limits.maxInputBytes input) ⟨0, 0, emptyColumns schema⟩ with
  | ok found => rw [(run.of_ok outcome).1]
  | error e =>
      rcases run.of_error outcome with raised | ⟨_, beyond | long⟩
      · rw [raised]
      · exact absurd within.2 (Nat.not_le.2 beyond)
      · exact absurd within.1 long

/-! ## Every row -/

/-- The nonblank lines after the skipped ones, as many as asked for. -/
def wantedLines (arguments : CsvArguments) (input : List UInt8) : List (List UInt8) :=
  truncated arguments.most 0 (((lines input).drop arguments.skip).filter (· ≠ []))

/-- The columns hold the rows of the wanted lines, one for each and in order. -/
def ReturnsEveryRow (parsers : FloatParsers) (arguments : CsvArguments) (input : List UInt8)
    (result : List CsvColumn) : Prop :=
  ∃ (schema : Schema) (rows : List (List (List UInt8))), schema.Of arguments.dtypes ∧
    RowsOf parsers arguments schema (wantedLines arguments input) rows ∧
    result = columnsOf schema rows

/-- No line before the last wanted one is blank, the skipped lines included, and every wanted
line has one of the selected columns. -/
def NoRowLost (arguments : CsvArguments) (input : List UInt8) : Prop :=
  wantedLines arguments input <+:
      ((lines input).takeWhile (· ≠ [])).drop arguments.skip ∧
    ∀ line ∈ wantedLines arguments input, selectedFields arguments line ≠ []

theorem truncated_prefix (most count : Nat) (rows : List (List UInt8)) :
    truncated most count rows <+: rows := by
  unfold truncated
  split
  · exact List.prefix_refl _
  · exact List.take_prefix _ _

/-- The lines before the first blank one begin the nonblank ones. -/
theorem unbroken_prefix (skip : Nat) (content : List (List UInt8)) :
    (content.takeWhile (· ≠ [])).drop skip <+: (content.drop skip).filter (· ≠ []) := by
  have front := ((List.takeWhile_prefix (l := content) (· ≠ [])).drop skip).filter (· ≠ [])
  rwa [List.filter_eq_self.2] at front
  intro line member
  exact List.all_eq_true.1 (@List.all_takeWhile _ (· ≠ []) content) line (List.mem_of_mem_drop member)

/-- Where no row is lost, the lines stored are the lines wanted. -/
theorem storedLines_eq_wantedLines (whole : NoRowLost arguments input) :
    storedLines arguments 0 0 (lines input) = wantedLines arguments input := by
  obtain ⟨⟨more, unbroken⟩, selected⟩ := whole
  have front := unbroken_prefix arguments.skip (lines input)
  unfold storedLines
  rw [Nat.sub_zero, ← unbroken, List.filter_append, List.filter_eq_self.2
    fun line member => decide_eq_true (selected line member)]
  rw [← unbroken] at front
  have lengths := front.length_le
  rw [List.length_append] at lengths
  unfold wantedLines at *
  generalize (List.drop arguments.skip (lines input)).filter (· ≠ []) = wanted at *
  unfold truncated at *
  by_cases unlimited : arguments.most = 0
  · simp only [if_pos unlimited] at *
    have none : more = [] := List.length_eq_zero_iff.1 (by omega)
    rw [none, List.filter_nil, List.append_nil]
  · simp only [if_neg unlimited, Nat.sub_zero] at *
    rw [List.length_take] at lengths
    by_cases enough : arguments.most ≤ wanted.length
    · refine List.take_left' ?_
      rw [List.length_take]
      omega
    · have none : more = [] := List.length_eq_zero_iff.1 (by omega)
      rw [none, List.filter_nil, List.append_nil, List.take_take, Nat.min_self]

theorem storedLines_length_le (arguments : CsvArguments) (content : List (List UInt8)) :
    (storedLines arguments 0 0 content).length ≤
      ((content.takeWhile (· ≠ [])).drop arguments.skip).length :=
  le_trans ( truncated_prefix _ _ _).length_le (List.length_filter_le _ _)

/-- Lines wanted that are no more than the lines stored stand before the first blank line. -/
theorem wantedLines_prefix
    (count : (storedLines arguments 0 0 (lines input)).length =
      (wantedLines arguments input).length) :
    wantedLines arguments input <+:
      ((lines input).takeWhile (· ≠ [])).drop arguments.skip := by
  have stored := storedLines_length_le arguments (lines input)
  have front := unbroken_prefix arguments.skip (lines input)
  have wanted : wantedLines arguments input <+:
      ((lines input).drop arguments.skip).filter (· ≠ []) := truncated_prefix _ _ _
  rcases List.prefix_or_prefix_of_prefix wanted front with before | after
  · exact before
  · have same := after.eq_of_length_le (by omega)
    rw [same]

/-! ### Counting the rows of columns -/

theorem RowsOf.fits (prepared : Prepared arguments schema) {content : List (List UInt8)}
    {rows : List (List (List UInt8))} (rowsOf : RowsOf parsers arguments schema content rows) :
    ∀ row ∈ rows, RowFits schema row := by
  intro row member
  induction rowsOf with
  | nil => exact absurd member List.not_mem_nil
  | cons here _ ih =>
      rcases List.mem_cons.1 member with rfl | later
      · unfold parseLine at here
        split at here
        · rename_i all
          exact (parseFields_line parsers prepared all).of_ok here
        · cases here
      · exact ih later

theorem RowsOf.selected (prepared : Prepared arguments schema) {content : List (List UInt8)}
    {rows : List (List (List UInt8))} (rowsOf : RowsOf parsers arguments schema content rows) :
    ∀ line ∈ content, selectedFields arguments line ≠ [] := by
  intro line member none
  induction rowsOf with
  | nil => exact absurd member List.not_mem_nil
  | cons here _ ih =>
      rcases List.mem_cons.1 member with rfl | later
      · rw [parseLine, none, if_neg] at here
        · cases here
        · rw [prepared.paired]
          exact fun zero => prepared.nonempty (List.length_eq_zero_iff.1 zero.symm)
      · exact ih later

theorem filled_foldl {count : Nat} {data : List CsvColumn} {rows : List (List (List UInt8))}
    (filled : Filled schema count data) (fits : ∀ row ∈ rows, RowFits schema row) :
    Filled schema (count + rows.length) (rows.foldl appendRow data) := by
  induction rows generalizing count data with
  | nil => exact filled
  | cons row rows ih =>
      rw [List.forall_mem_cons] at fits
      have rest := ih (filled.append fits.1) fits.2
      rwa [List.length_cons, Nat.add_comm rows.length, ← Nat.add_assoc]

theorem Filled.count_eq {count other : Nat} {data : List CsvColumn} (nonempty : schema ≠ [])
    (sized : schema.Sized) (filled : Filled schema count data)
    (filledOther : Filled schema other data) : count = other := by
  cases filled with
  | nil => exact absurd rfl nonempty
  | @cons item column _ _ first _ =>
      cases filledOther with
      | cons second _ =>
          have positive := csvItemsize_pos (sized item List.mem_cons_self)
          exact Nat.eq_of_mul_eq_mul_right positive (first.2.2.symm.trans second.2.2)

theorem Schema.Of.unique {other : Schema} {dtypes : List String} (first : schema.Of dtypes)
    (second : other.Of dtypes) : schema = other := by
  induction dtypes generalizing schema other with
  | nil => rw [List.map_eq_nil_iff.1 first.1, List.map_eq_nil_iff.1 second.1]
  | cons dtype dtypes ih =>
      obtain ⟨⟨_, n⟩, schema, rfl, rfl, names⟩ := List.map_eq_cons_iff.1 first.1
      obtain ⟨⟨_, m⟩, other, rfl, same, otherNames⟩ := List.map_eq_cons_iff.1 second.1
      simp only at same
      subst same
      have here := first.2 _ List.mem_cons_self
      have there := second.2 _ List.mem_cons_self
      have size : n = m := Except.ok.inj (here.symm.trans there)
      have rest := ih ⟨names, fun item member => first.2 item (List.mem_cons_of_mem _ member)⟩
        ⟨otherNames, fun item member => second.2 item (List.mem_cons_of_mem _ member)⟩
      rw [size, rest]

theorem returnsEveryRow_iff (environment : Environment) (parsers : FloatParsers)
    (arguments : CsvArguments) (input : List UInt8) (output result : List CsvColumn)
    (moreToRead : Bool)
    (returned : readCsv environment parsers arguments input output = (.ok moreToRead, result)) :
    ReturnsEveryRow parsers arguments input result ↔ NoRowLost arguments input := by
  obtain ⟨schema, named, prepared, final, run, rfl, _⟩ := readCsv_ok returned
  obtain ⟨rows, stored, columns⟩ := rowsFrom_ok prepared run
  simp only at stored columns
  constructor
  · rintro ⟨other, wantedRows, otherNamed, wanted, same⟩
    obtain rfl := named.unique otherNamed
    have nonempty : schema ≠ [] := by
      rintro rfl
      have none := prepared.dtypes.trans prepared.paired
      exact prepared.nonempty (List.length_eq_zero_iff.1 none.symm)
    have count : rows.length = wantedRows.length := by
      have left := filled_foldl (filled_empty schema) (stored.fits prepared)
      have right := filled_foldl (filled_empty schema) (wanted.fits prepared)
      rw [← columns, same] at left
      have counts := Filled.count_eq nonempty prepared.sized left right
      omega
    refine ⟨ wantedLines_prefix ?_, wanted.selected prepared⟩
    rw [stored.length_eq, wanted.length_eq, count]
  · intro whole
    rw [storedLines_eq_wantedLines whole] at stored
    exact ⟨schema, rows, named, stored, columns⟩

/-- A file read without an exception has every row returned exactly where no row is lost. -/
theorem readCsv_returns_every_row_iff (environment : Environment) (parsers : FloatParsers)
    (arguments : CsvArguments) (input : List UInt8) (output result : List CsvColumn)
    (moreToRead : Bool)
    (returned : readCsv environment parsers arguments input output = (.ok moreToRead, result)) :
    ReturnsEveryRow parsers arguments input result ↔ NoRowLost arguments input :=
  returnsEveryRow_iff environment parsers arguments input output result moreToRead returned

def zeroParsers : FloatParsers :=
  ⟨fun _ => [0, 0, 0, 0], fun _ => [0, 0, 0, 0, 0, 0, 0, 0], fun _ => rfl, fun _ => rfl⟩

/-- Reads of one byte into memory of zeros. -/
def bytewise : Environment := ⟨fun _ => 0, fun _ => 1⟩

/-- One column of `i1`, of any number of rows. -/
def firstColumn : CsvArguments where
  colIndices := [0]
  dtypes := ["i1"]
  separator := 44
  skipRows := 0
  maxRows := 0
  limits := ⟨1000, 1000, 1⟩

theorem firstColumn_schema : Schema.Of [("i1", 1)] firstColumn.dtypes := by
  refine ⟨rfl, ?_⟩
  rw [Schema.Sized, List.forall_mem_singleton]
  rfl

/-- The line of `2` stands behind a blank one. -/
theorem blankLine_read :
    readCsv bytewise zeroParsers firstColumn [49, 10, 10, 50, 10] [] =
      (.ok false, [⟨"i1", 1, [1]⟩]) :=
  (readCsv_within bytewise zeroParsers [] (by decide +kernel) firstColumn_schema
    (by decide +kernel) (by decide +kernel)).trans (by decide +kernel)

theorem blankLine_ends_reading :
    readCsv bytewise zeroParsers firstColumn [49, 10, 10, 50, 10] [] =
        (.ok false, [⟨"i1", 1, [1]⟩]) ∧
      ¬ ReturnsEveryRow zeroParsers firstColumn [49, 10, 10, 50, 10] [⟨"i1", 1, [1]⟩] := by
  refine ⟨blankLine_read, fun every => ?_⟩
  have whole := (returnsEveryRow_iff _ _ _ _ _ _ _ blankLine_read).1 every
  have lost : ¬ wantedLines firstColumn [49, 10, 10, 50, 10] <+:
      ((lines [49, 10, 10, 50, 10]).takeWhile (· ≠ [])).drop firstColumn.skip := by
    decide +kernel
  exact lost whole.1

theorem twoLines_read :
    readCsv bytewise zeroParsers firstColumn [49, 13, 10, 50] [] =
      (.ok false, [⟨"i1", 1, [1, 2]⟩]) :=
  (readCsv_within bytewise zeroParsers [] (by decide +kernel) firstColumn_schema
    (by decide +kernel) (by decide +kernel)).trans (by decide +kernel)

theorem readCsv_returns_every_row_iff_two_lines :
    ReturnsEveryRow zeroParsers firstColumn [49, 13, 10, 50] [⟨"i1", 1, [1, 2]⟩] ↔
      NoRowLost firstColumn [49, 13, 10, 50] :=
  readCsv_returns_every_row_iff bytewise zeroParsers firstColumn [49, 13, 10, 50] []
    [⟨"i1", 1, [1, 2]⟩] false twoLines_read

end Gambit.Csv
