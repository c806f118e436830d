import Gambit.Csv.Rows

/-!
# The limits of a read

Which inputs the byte limits accept, for files whose rows can all be stored.
The row limit is compared with the bytes up to the LF, so that a row of exactly
the documented size is refused, and one a byte shorter that ends in CRLF.
-/

set_option autoImplicit false

namespace Gambit.Csv

open Raising

variable {environment : Environment} {parsers : FloatParsers} {arguments : CsvArguments}
  {schema : Schema} {input : List UInt8} {output : List CsvColumn}
  {content : List (List UInt8)}

/-- Every row has the selected columns, with values in range. -/
def RowsStorable (parsers : FloatParsers) (arguments : CsvArguments) (schema : Schema)
    (rows : List (List UInt8)) : Prop :=
  ∀ line ∈ rows, ∃ row, parseLine parsers arguments schema line = .ok row

theorem Prepared.width_pos (prepared : Prepared arguments schema) : 0 < schema.width := by
  have nonempty : schema ≠ [] := by
    rintro rfl
    have none := prepared.dtypes.trans prepared.paired
    exact prepared.nonempty (List.length_eq_zero_iff.1 none.symm)
  obtain ⟨item, member⟩ := List.exists_mem_of_ne_nil schema nonempty
  exact lt_of_lt_of_le (csvItemsize_pos (prepared.sized item member)) (Schema.item_le_width member)

/-- The loop over the lines returns exactly where the rows are within the output limit. -/
theorem rowsFrom_returns (progress : Progress) (prepared : Prepared arguments schema) (unlimited : arguments.most = 0)
    (nonblank : [] ∉ content)
    (storable : RowsStorable parsers arguments schema
      (content.drop (arguments.skip - progress.rowNum)))
    (room : progress.dataRowCount ≤ arguments.limits.maxOutputBytes / schema.width) :
    (∃ outcome, rowsFrom parsers arguments schema content progress = .ok outcome) ↔
      progress.dataRowCount + (content.drop (arguments.skip - progress.rowNum)).length ≤
        arguments.limits.maxOutputBytes / schema.width := by
  induction content generalizing progress with
  | nil => simpa [rowsFrom] using room
  | cons line rest ih =>
      rw [List.mem_cons, not_or] at nonblank
      have unfinished : ¬ progress.finished arguments := fun finished => finished.1 unlimited
      rw [rowsFrom, if_neg unfinished, if_neg (Ne.symm nonblank.1)]
      simp only
      by_cases skipped : progress.nextRow.rowNum ≤ arguments.skip
      · have less : arguments.skip - progress.rowNum =
            arguments.skip - progress.nextRow.rowNum + 1 := by
          have next : progress.nextRow.rowNum = progress.rowNum + 1 := rfl
          omega
        rw [if_pos skipped, less, List.drop_succ_cons]
        rw [less, List.drop_succ_cons] at storable
        exact ih progress.nextRow nonblank.2 storable room
      · have here : arguments.skip - progress.rowNum = 0 := by
          have next : progress.nextRow.rowNum = progress.rowNum + 1 := rfl
          omega
        have next : arguments.skip - progress.nextRow.rowNum = 0 := by omega
        rw [if_neg skipped, here, List.drop_zero]
        rw [here, List.drop_zero] at storable
        obtain ⟨row, parsed⟩ := storable line List.mem_cons_self
        have all : (selectedFields arguments line).length = arguments.dtypes.length := by
          by_contra short
          rw [parseLine, if_neg short] at parsed
          cases parsed
        rw [parseLine, if_pos all] at parsed
        have some : (selectedFields arguments line).length ≠ 0 := by
          rw [all, prepared.paired]
          exact fun zero => prepared.nonempty (List.length_eq_zero_iff.1 zero)
        by_cases full : progress.dataRowCount ≥ arguments.limits.maxOutputBytes / schema.width
        · have refused : acceptLine parsers arguments schema line progress.nextRow =
              .error (.runtime "CSV output byte limit exceeded") := by
            rw [acceptLine, if_neg some, if_neg (not_not.2 all)]
            exact if_pos full
          rw [refused]
          constructor
          · rintro ⟨outcome, returned⟩
            cases returned
          · intro fits
            rw [List.length_cons] at fits
            omega
        · have accepted : acceptLine parsers arguments schema line progress.nextRow =
              .ok { progress.nextRow with
                output := appendRow progress.output row
                dataRowCount := progress.dataRowCount + 1 } := by
            rw [acceptLine, if_neg some, if_neg (not_not.2 all), parsed]
            exact if_neg full
          rw [accepted]
          have rest := ih { progress.nextRow with
            output := appendRow progress.output row
            dataRowCount := progress.dataRowCount + 1 } nonblank.2
            (fun line member => storable line (List.mem_cons_of_mem _ (List.mem_of_mem_drop member)))
            (Nat.lt_of_not_le full)
          refine rest.trans ?_
          rw [next, List.drop_zero, List.length_cons]
          simp only
          omega

/-- The documented limits: no row of more than 16 MiB, the bytes of the file, and the bytes of
the rows returned. -/
structure WithinDocumentedLimits (arguments : CsvArguments) (schema : Schema)
    (input : List UInt8) : Prop where
  rows : ∀ line ∈ lines input, line.length ≤ maxLineSize
  bytes : input.length ≤ arguments.limits.maxInputBytes
  returned : ((lines input).drop arguments.skip).length * schema.width ≤
    arguments.limits.maxOutputBytes

/-- `read_csv` returns within the documented limits and only there, and what it raises leaves
the caller's output alone. -/
def LimitsExact (environment : Environment) (parsers : FloatParsers) (arguments : CsvArguments)
    (schema : Schema) (input : List UInt8) (output : List CsvColumn) : Prop :=
  ((∃ moreToRead result,
      readCsv environment parsers arguments input output = (.ok moreToRead, result)) ↔
    WithinDocumentedLimits arguments schema input) ∧
  ∀ e result, readCsv environment parsers arguments input output = (.error e, result) →
    result = output

theorem lines_le_segments {limit : Nat}
    (short : ∀ segment ∈ segments input, segment.length < limit) :
    ∀ line ∈ lines input, line.length < limit := by
  intro line member
  rcases List.mem_append.1 member with ended | last
  · obtain ⟨segment, inside, rfl⟩ := List.mem_map.1 ended
    exact lt_of_le_of_lt (dropCr_length_le segment)
      (short segment (List.dropLast_subset _ inside))
  · have inside := (List.mem_filter.1 last).1
    rw [Option.mem_toList] at inside
    exact short line (List.mem_of_getLast? inside)

theorem readCsv_error_output {e : CsvError} {result : List CsvColumn}
    (raised : readCsv environment parsers arguments input output = (.error e, result)) :
    result = output := by
  unfold readCsv at raised
  simp only at raised
  split at raised
  · cases raised
  · cases raised
    rfl

/-- Exactly the inputs below the row limit and within the other two are read. -/
theorem readCsv_returns_iff (environment : Environment) (output : List CsvColumn)
    (checked : checkArguments arguments = .ok ())
    (named : schema.Of arguments.dtypes)
    (fits : schema.width ≤ arguments.limits.maxOutputBytes)
    (unlimited : arguments.maxRows = 0) (nonblank : [] ∉ lines input)
    (storable : RowsStorable parsers arguments schema ((lines input).drop arguments.skip)) :
    (∃ moreToRead result,
        readCsv environment parsers arguments input output = (.ok moreToRead, result)) ↔
      WithinLimits arguments.limits.maxInputBytes input ∧
        ((lines input).drop arguments.skip).length * schema.width ≤
          arguments.limits.maxOutputBytes := by
  have prepared := prepared_of_checks checked named
  have most : arguments.most = 0 := by rw [CsvArguments.most, unlimited]; rfl
  have positive := prepared.width_pos
  have rows := rowsFrom_returns ⟨0, 0, emptyColumns schema⟩ prepared most nonblank
    storable (Nat.zero_le _)
  simp only [Nat.sub_zero, Nat.zero_add, Nat.le_div_iff_mul_le positive] at rows
  constructor
  · rintro ⟨moreToRead, result, returned⟩
    obtain ⟨other, otherNamed, _, final, run, _, within⟩ := readCsv_ok returned
    obtain rfl := named.unique otherNamed
    exact ⟨within most nonblank, rows.1 ⟨_, run⟩⟩
  · rintro ⟨within, few⟩
    obtain ⟨⟨moreToRead, final⟩, run⟩ := rows.2 few
    have read := readCsv_within environment parsers output checked named fits within
    rw [run] at read
    exact ⟨moreToRead, final.output, read⟩

/-- A row of at most 16 MiB that has 16 MiB before its LF. -/
def RowAtTheLimit (input : List UInt8) : Prop :=
  (∀ line ∈ lines input, line.length ≤ maxLineSize) ∧
    ∃ segment ∈ segments input, maxLineSize ≤ segment.length

theorem limitsExact_iff (environment : Environment) (parsers : FloatParsers)
    (output : List CsvColumn) (checked : checkArguments arguments = .ok ())
    (named : schema.Of arguments.dtypes)
    (fits : schema.width ≤ arguments.limits.maxOutputBytes)
    (unlimited : arguments.maxRows = 0) (nonblank : [] ∉ lines input)
    (storable : RowsStorable parsers arguments schema ((lines input).drop arguments.skip)) :
    LimitsExact environment parsers arguments schema input output ↔
      ¬ (RowAtTheLimit input ∧ input.length ≤ arguments.limits.maxInputBytes ∧
        ((lines input).drop arguments.skip).length * schema.width ≤
          arguments.limits.maxOutputBytes) := by
  have returns := readCsv_returns_iff environment output checked named fits unlimited nonblank storable
  unfold LimitsExact
  rw [returns]
  constructor
  · rintro ⟨exact_, _⟩ ⟨⟨rows, segment, member, long⟩, bytes, few⟩
    have within := (exact_.2 ⟨rows, bytes, few⟩).1
    exact absurd (within.1 segment member) (Nat.not_lt.2 long)
  · intro clear
    refine ⟨⟨?_, ?_⟩, fun e result raised => readCsv_error_output raised⟩
    · rintro ⟨within, few⟩
      exact ⟨fun line member => (lines_le_segments within.1 line member).le, within.2, few⟩
    · rintro ⟨rows, bytes, few⟩
      refine ⟨⟨fun segment member => ?_, bytes⟩, few⟩
      by_contra long
      exact clear ⟨⟨rows, segment, member, Nat.le_of_not_lt long⟩, bytes, few⟩

/-- On files whose rows can all be stored the documented limits are exact unless a row of at
most 16 MiB reaches the row limit before its LF, with the other limits met. -/
theorem readCsv_limits_exact_iff (environment : Environment) (parsers : FloatParsers)
    (arguments : CsvArguments) (schema : Schema) (input : List UInt8) (output : List CsvColumn)
    (checked : checkArguments arguments = .ok ()) (named : schema.Of arguments.dtypes)
    (fits : schema.width ≤ arguments.limits.maxOutputBytes)
    (unlimited : arguments.maxRows = 0) (nonblank : [] ∉ lines input)
    (storable : RowsStorable parsers arguments schema ((lines input).drop arguments.skip)) :
    LimitsExact environment parsers arguments schema input output ↔
      ¬ (RowAtTheLimit input ∧ input.length ≤ arguments.limits.maxInputBytes ∧
        ((lines input).drop arguments.skip).length * schema.width ≤
          arguments.limits.maxOutputBytes) :=
  limitsExact_iff environment parsers output checked named fits unlimited nonblank storable

/-- The file `1`, `2` with a CR behind the first row. -/
theorem readCsv_limits_exact_iff_two_lines :
    LimitsExact bytewise zeroParsers firstColumn [("i1", 1)] [49, 13, 10, 50] [] ↔
      ¬ (RowAtTheLimit [49, 13, 10, 50] ∧
        [49, 13, 10, 50].length ≤ firstColumn.limits.maxInputBytes ∧
        ((lines [49, 13, 10, 50]).drop firstColumn.skip).length * Schema.width [("i1", 1)] ≤
          firstColumn.limits.maxOutputBytes) := by
  have rows : (lines [49, 13, 10, 50]).drop firstColumn.skip = [[49], [50]] := by decide +kernel
  refine readCsv_limits_exact_iff bytewise zeroParsers firstColumn [("i1", 1)] [49, 13, 10, 50] []
    (by decide +kernel) firstColumn_schema (by decide +kernel) rfl (by decide +kernel) ?_
  rw [rows]
  intro line member
  rcases List.mem_pair.1 member with rfl | rfl
  · exact ⟨[[1]], by decide +kernel⟩
  · exact ⟨[[2]], by decide +kernel⟩

/-! ## A row at the limit -/

/-- One column of `S1`, with the limits the reader has by default. -/
def stringColumn : CsvArguments where
  colIndices := [0]
  dtypes := ["S1"]
  separator := 44
  skipRows := 0
  maxRows := 0
  limits := ⟨1024 * 1024 * 1024, 256 * 1024 * 1024, 4096⟩

theorem stringColumn_schema : Schema.Of [("S1", 1)] stringColumn.dtypes := by
  refine ⟨rfl, ?_⟩
  rw [Schema.Sized, List.forall_mem_singleton]
  decide +kernel

section OneRow

variable {row : List UInt8} (letters : ∀ byte ∈ row, byte = 65)

include letters

theorem letters_avoid {byte : UInt8} (other : byte ≠ 65) : byte ∉ row :=
  fun member => other (letters byte member)

theorem segments_letters : segments row = [row] :=
  segments_last (letters_avoid letters (by decide))

theorem lines_letters (nonempty : row ≠ []) : lines row = [row] := by
  rw [(FirstLine.last row (letters_avoid letters (by decide)) nonempty).lines_eq, lines_nil]

theorem selectedFields_letters : selectedFields stringColumn row = [row] := by
  have whole : row.takeWhile (· ≠ 0) = row := by
    rw [← List.append_nil row, List.takeWhile_append_of_pos]
    · simp
    · intro byte member
      rw [letters byte member]
      rfl
  have one : row.splitOn 44 = [row] :=
    List.splitOn_eq_singleton (letters_avoid letters (by decide))
  rw [selectedFields, whole]
  change [(0 : Int)].filterMap (fun index => (row.splitOn 44)[index.toNat]?) = [row]
  rw [one]
  rfl

theorem parseLine_letters :
    ∃ cells, parseLine zeroParsers stringColumn [("S1", 1)] row = .ok cells := by
  have fields := selectedFields_letters letters
  have one : [row].length = stringColumn.dtypes.length := rfl
  rw [parseLine, fields, if_pos one, parseFields, fieldBytes, valueBytes, if_pos (by decide +kernel),
    readString_text (letters_avoid letters (by decide))]
  exact ⟨_, rfl⟩

theorem longest_refused (exactly : row.length = maxLineSize) :
    RowsStorable zeroParsers stringColumn [("S1", 1)] ((lines row).drop stringColumn.skip) ∧
    WithinDocumentedLimits stringColumn [("S1", 1)] row ∧
      ¬ ∃ moreToRead result,
        readCsv bytewise zeroParsers stringColumn row [] = (.ok moreToRead, result) := by
  have nonempty : row ≠ [] := by
    rintro rfl
    exact absurd exactly.symm maxLineSize_pos.ne'
  have whole := lines_letters letters nonempty
  have dropped : (lines row).drop stringColumn.skip = [row] := by
    rw [whole]
    rfl
  have storable : RowsStorable zeroParsers stringColumn [("S1", 1)]
      ((lines row).drop stringColumn.skip) := by
    rw [dropped, RowsStorable, List.forall_mem_singleton]
    exact parseLine_letters letters
  refine ⟨storable, ⟨?_, ?_, ?_⟩, ?_⟩
  · rw [whole, List.forall_mem_singleton]
    exact exactly.le
  · rw [exactly]
    decide
  · rw [dropped, List.length_singleton]
    decide
  · rw [readCsv_returns_iff _ _ (by decide +kernel) stringColumn_schema (by decide) rfl
      (by rw [whole]; simpa using nonempty.symm) storable]
    rintro ⟨within, _⟩
    have short := within.1 row (by rw [segments_letters letters]; exact List.mem_singleton_self row)
    exact absurd exactly short.ne

end OneRow

/-- A file of one row of exactly 16 MiB, every byte of it `A`. -/
theorem row_of_16_MiB_refused :
    (List.replicate maxLineSize (65 : UInt8)).length = 16 * 1024 * 1024 ∧
      lines (List.replicate maxLineSize 65) = [List.replicate maxLineSize 65] ∧
      RowsStorable zeroParsers stringColumn [("S1", 1)]
        ((lines (List.replicate maxLineSize 65)).drop stringColumn.skip) ∧
      WithinDocumentedLimits stringColumn [("S1", 1)] (List.replicate maxLineSize 65) ∧
      ¬ ∃ moreToRead result,
        readCsv bytewise zeroParsers stringColumn (List.replicate maxLineSize 65) [] =
          (.ok moreToRead, result) := by
  have letters : ∀ byte ∈ List.replicate maxLineSize (65 : UInt8), byte = 65 :=
    fun byte member => List.eq_of_mem_replicate member
  have exactly : (List.replicate maxLineSize (65 : UInt8)).length = maxLineSize :=
    List.length_replicate
  refine ⟨exactly, lines_letters letters ?_, longest_refused letters exactly⟩
  intro none
  rw [none] at exactly
  exact absurd exactly.symm maxLineSize_pos.ne'

end Gambit.Csv
