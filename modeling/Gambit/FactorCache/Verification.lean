import Gambit.FactorCache.Geometry
import Gambit.Lib.Triples

/-!
# What a mapped column returns

Every byte of a returned view was part of a range whose checksum was compared
with the stored one, at opening or by a call.  The flags of the verified chunks
never run ahead of these comparisons.
-/

set_option autoImplicit false
set_option mvcgen.warning false

namespace Gambit.MappedColumn

open ByteImages Std.Do

variable {checksums : Checksums} {mapping : List UInt8} {column : Column} {recorded : Prop}
  {header : Header} {chunk : UInt64}

/-- A column over a mapping whose set flags are those of agreeing chunks.  With
`recorded` the comparisons themselves are in the log. -/
structure Opened (checksums : Checksums) (mapping : List UInt8) (recorded : Prop)
    (column : Column) : Prop extends Clean checksums mapping column where
  geometry : Geometry mapping
  flags : (Header.decode mapping).version ≠ formatVersionV1 →
    column.verified.length = (Header.decode mapping).chunkCount.toNat
  agrees : (Header.decode mapping).version ≠ formatVersionV1 → ∀ chunk : UInt64,
    column.verified[chunk.toNat]? = some true → ChunkAgrees checksums mapping chunk
  logged : recorded → (Header.decode mapping).version ≠ formatVersionV1 → ∀ chunk : UInt64,
    column.verified[chunk.toNat]? = some true →
      chunkEvent (Header.decode mapping) chunk ∈ column.log
  whole : recorded → (Header.decode mapping).version = formatVersionV1 →
    .matched (Header.decode mapping).dataOffset (Header.decode mapping).dataBytes
      Header.checksumAt ∈ column.log

/-- The flags of a range of chunks are set. -/
def Done (low high : Nat) (column : Column) : Prop :=
  ∀ chunk : UInt64, low ≤ chunk.toNat → chunk.toNat < high →
    column.verified[chunk.toNat]? = some true

/-- A later log over the same flags. -/
theorem Opened.later {after : Column} (opened : Opened checksums mapping recorded column)
    (clean : Clean checksums mapping after) (flags : after.verified = column.verified)
    (log : column.log ⊆ after.log) : Opened checksums mapping recorded after where
  toClean := clean
  geometry := opened.geometry
  flags := by
    rw [flags]
    exact opened.flags
  agrees := by
    rw [flags]
    exact opened.agrees
  logged := by
    rw [flags]
    exact fun records chunked chunk set => log (opened.logged records chunked chunk set)
  whole := fun records plain => log (opened.whole records plain)

theorem Opened.flagged {index : UInt64} {count : Nat}
    (opened : Opened checksums mapping recorded column) (inside : index.toNat < count) :
    Opened checksums mapping recorded (column.note (.flag index count)) :=
  opened.later (opened.toClean.flag inside) rfl (List.subset_append_left _ _)

theorem Opened.paged (opened : Opened checksums mapping recorded column) :
    Opened checksums mapping recorded (column.note (.read 0 sizeofHeader)) :=
  opened.later (opened.toClean.page (Nat.le.intro opened.geometry.reach)) rfl
    (List.subset_append_left _ _)

/-- Marking a chunk whose comparison is in the log. -/
theorem Opened.mark (opened : Opened checksums mapping recorded column)
    (agrees : ChunkAgrees checksums mapping chunk)
    (logged : chunkEvent (Header.decode mapping) chunk ∈ column.log) :
    Opened checksums mapping recorded (column.mark chunk) where
  same := opened.same
  within := opened.within
  truthful := opened.truthful
  geometry := opened.geometry
  flags := by
    intro chunked
    rw [mark_verified, List.length_set]
    exact opened.flags chunked
  agrees := by
    intro chunked other set
    rw [mark_verified] at set
    by_cases here : chunk.toNat = other.toNat
    · rw [← UInt64.toNat_inj.mp here]
      exact agrees
    · rw [List.getElem?_set_ne here] at set
      exact opened.agrees chunked other set
  logged := by
    intro records chunked other set
    rw [mark_verified] at set
    by_cases here : chunk.toNat = other.toNat
    · rw [← UInt64.toNat_inj.mp here]
      exact logged
    · rw [List.getElem?_set_ne here] at set
      exact opened.logged records chunked other set
  whole := opened.whole

theorem Done.mark {low : Nat} (before : Done low chunk.toNat column)
    (inside : chunk.toNat < column.verified.length) :
    Done low (chunk.toNat + 1) (column.mark chunk) := by
  intro other above below
  rw [mark_verified]
  by_cases here : chunk.toNat = other.toNat
  · rw [← here, List.getElem?_set_self inside]
  · rw [List.getElem?_set_ne here]
    exact before other above (by omega)

def mismatch : Failure := .runtimeError "factor cache chunk checksum mismatch"

/-! ## Verifying a range -/

theorem compareChunk_spec {flags : List Bool} (decoded : header = Header.decode mapping)
    (chunked : header.version ≠ formatVersionV1)
    (inside : chunk.toNat < header.chunkCount.toNat) :
    ⦃fun column => ⌜Opened checksums mapping recorded column ∧ column.verified = flags⌝⦄
    compareChunk checksums header chunk
    ⦃post⟨fun _ column => ⌜Opened checksums mapping recorded column ∧ column.verified = flags ∧
        ChunkAgrees checksums mapping chunk ∧
        chunkEvent (Header.decode mapping) chunk ∈ column.log⌝,
      fun failure column => ⌜Opened checksums mapping recorded column ∧ failure = mismatch ∧
        ¬ ChunkAgrees checksums mapping chunk⌝⟩⦄ := by
  subst decoded
  -- the seven steps before the comparison
  have stepped (before : Column) (opened : Opened checksums mapping recorded before) :=
    have placed := opened.geometry.placed chunked inside
    ((((((opened.toClean.product placed.product).difference placed.before).sum
      placed.sum).read placed.inside).product placed.scaled).sum placed.behind).read placed.tabled
  mvcgen [compareChunk, emit, update, times, minus, plus, readBytes, checksumSlot, refuseIf]
  case vc1 column before differs =>
      have opened := before.1
      refine ⟨opened.later (stepped column opened) rfl ?_, rfl, ?_⟩
      · intro event member
        simp only [note_log, List.mem_append, member, true_or]
      · simp only [note_mapping, opened.same] at differs
        exact differs
  case vc2 column before same =>
      obtain ⟨opened, unchanged⟩ := before
      have agrees : ChunkAgrees checksums mapping chunk := by
        simp only [note_mapping, opened.same, not_not] at same
        exact same
      refine ⟨opened.later ((stepped column opened).matched agrees) rfl ?_, unchanged, agrees, ?_⟩
      · intro event member
        simp only [note_log, List.mem_append, member, true_or]
      · exact List.mem_append_right _ (List.mem_singleton_self _)

theorem verifyChunk_spec {low : Nat} (decoded : header = Header.decode mapping)
    (chunked : header.version ≠ formatVersionV1)
    (inside : chunk.toNat < header.chunkCount.toNat) :
    ⦃fun column => ⌜Opened checksums mapping recorded column ∧ Done low chunk.toNat column⌝⦄
    verifyChunk checksums header chunk
    ⦃post⟨fun _ column => ⌜Opened checksums mapping recorded column ∧
        Done low (chunk.toNat + 1) column⌝,
      fun failure column => ⌜Opened checksums mapping recorded column ∧ failure = mismatch ∧
        ¬ ChunkAgrees checksums mapping chunk⌝⟩⦄ := by
  have held (column : Column) (opened : Opened checksums mapping recorded column) :
      chunk.toNat < column.verified.length := by
    rw [opened.flags (decoded ▸ chunked), ← decoded]
    exact inside
  mvcgen [verifyChunk, emit, update, compareChunk_spec]
  case vc1 column before set =>
      obtain ⟨opened, done⟩ := before
      refine ⟨opened.flagged (held column opened), ?_⟩
      intro other above below
      rw [note_verified]
      by_cases here : chunk.toNat = other.toNat
      · rw [← here, set]
      · exact done other above (by omega)
  case flags column _ _ => exact column.verified
  case vc6 column before _ => exact ⟨before.1.flagged (held column before.1), rfl⟩
  case vc7 column before _ _ after compared =>
      obtain ⟨opened, unchanged, agrees, logged⟩ := compared
      have inside' : chunk.toNat < column.verified.length := held column before.1
      refine ⟨(opened.flagged inside').mark agrees (List.mem_append_left _ logged), ?_⟩
      apply Done.mark
      · intro other above below
        rw [note_verified, unchanged]
        exact before.2 other above below
      · rw [note_verified, unchanged]
        exact inside'

theorem verifyChunks_spec {rounds : Nat} {firstChunk lastChunk : UInt64}
    (decoded : header = Header.decode mapping) (chunked : header.version ≠ formatVersionV1)
    (inside : lastChunk.toNat < header.chunkCount.toNat) (few : header.chunkCount.toNat ≤ 504)
    (first : firstChunk.toNat ≤ chunk.toNat) (bounded : chunk.toNat ≤ lastChunk.toNat + 1)
    (enough : lastChunk.toNat + 2 ≤ chunk.toNat + rounds) :
    ⦃fun column => ⌜Opened checksums mapping recorded column ∧
        Done firstChunk.toNat chunk.toNat column⌝⦄
    verifyChunks checksums header lastChunk rounds chunk
    ⦃post⟨fun _ column => ⌜Opened checksums mapping recorded column ∧
        Done firstChunk.toNat (lastChunk.toNat + 1) column⌝,
      fun failure column => ⌜Opened checksums mapping recorded column ∧ failure = mismatch ∧
        ∃ chunk : UInt64, firstChunk.toNat ≤ chunk.toNat ∧ chunk.toNat ≤ lastChunk.toNat ∧
          ¬ ChunkAgrees checksums mapping chunk⌝⟩⦄ := by
  induction rounds generalizing chunk with
  | zero => omega
  | succ rounds ih =>
      have body := @verifyChunk_spec checksums mapping recorded header chunk firstChunk.toNat
        decoded chunked
      have next : chunk ≤ lastChunk → (chunk + 1).toNat = chunk.toNat + 1 := by
        intro within
        have small := UInt64.le_iff_toNat_le.mp within
        apply Chunking.toNat_add_of_fits
        change chunk.toNat + 1 < 2 ^ 64
        omega
      mvcgen [verifyChunks, emit, update, plus, body, ih]
      case inside within _ _ =>
          have small := UInt64.le_iff_toNat_le.mp within
          omega
      case first within _ _ _ _ _ =>
          rw [next within]
          omega
      case bounded within _ _ _ _ _ =>
          have small := UInt64.le_iff_toNat_le.mp within
          rw [next within]
          omega
      case enough within _ _ _ _ _ =>
          rw [next within]
          omega
      case vc6 within _ _ _ column now =>
          rw [next within]
          refine ⟨now.1.later (now.1.toClean.sum ?_) rfl (List.subset_append_left _ _), now.2⟩
          change chunk.toNat + 1 < 2 ^ 64
          have small := UInt64.le_iff_toNat_le.mp within
          omega
      case vc7 within _ _ _ _ =>
          exact fun opened failed differs =>
            ⟨opened, failed, chunk, first, UInt64.le_iff_toNat_le.mp within, differs⟩
      case vc8 beyond column now =>
          rw [UInt64.le_iff_toNat_le] at beyond
          have last : chunk.toNat = lastChunk.toNat + 1 := by omega
          rw [← last]
          exact now

/-- The chunks of a range of rows agree with the table. -/
def RangeAgrees (checksums : Checksums) (mapping : List UInt8) (start stop : UInt64) : Prop :=
  (Header.decode mapping).version ≠ formatVersionV1 → start.toNat < stop.toNat →
    ∀ chunk : UInt64,
      8 * start.toNat / (Header.decode mapping).chunkBytes.toNat ≤ chunk.toNat →
      chunk.toNat ≤ (8 * stop.toNat - 1) / (Header.decode mapping).chunkBytes.toNat →
        ChunkAgrees checksums mapping chunk

/-- The flags of the chunks of a range of rows are set. -/
def RangeDone (mapping : List UInt8) (start stop : UInt64) (column : Column) : Prop :=
  (Header.decode mapping).version ≠ formatVersionV1 → start.toNat < stop.toNat →
    Done (8 * start.toNat / (Header.decode mapping).chunkBytes.toNat)
      ((8 * stop.toNat - 1) / (Header.decode mapping).chunkBytes.toNat + 1) column

/-- The numbers of a range of rows, without wrapping. -/
structure RowsPlaced (header : Header) (start stop : UInt64) : Prop where
  firstByte : start.toNat * sizeofDouble.toNat < 2 ^ 64
  stopByte : stop.toNat * sizeofDouble.toNat < 2 ^ 64
  positive : (1 : UInt64).toNat ≤ (stop * sizeofDouble).toNat
  firstChunk : (start * sizeofDouble / header.chunkBytes).toNat =
    8 * start.toNat / header.chunkBytes.toNat
  lastChunk : ((stop * sizeofDouble - 1) / header.chunkBytes).toNat =
    (8 * stop.toNat - 1) / header.chunkBytes.toNat
  inside : ((stop * sizeofDouble - 1) / header.chunkBytes).toNat < header.chunkCount.toNat
  ordered : (start * sizeofDouble / header.chunkBytes).toNat ≤
    ((stop * sizeofDouble - 1) / header.chunkBytes).toNat

theorem rowsPlaced {size : Nat} {start stop : UInt64} (reach : Bounded header size)
    (chunked : Chunked header) (nonempty : start.toNat < stop.toNat)
    (within : stop.toNat ≤ header.rowCount.toNat) : RowsPlaced header start stop := by
  have small : size ≤ 9223372036854775807 := reach.sized
  have rest := reach.reach
  have rows := reach.dataBytes
  have word : sizeofDouble.toNat = 8 := rfl
  have firstByte : start.toNat * sizeofDouble.toNat < 2 ^ 64 := by
    rw [word]
    omega
  have stopByte : stop.toNat * sizeofDouble.toNat < 2 ^ 64 := by
    rw [word]
    omega
  have stopped : (stop * sizeofDouble).toNat = 8 * stop.toNat := by
    rw [Chunking.toNat_mul_of_fits stopByte, word, Nat.mul_comm]
  have positive : (1 : UInt64).toNat ≤ (stop * sizeofDouble).toNat := by
    rw [stopped]
    change 1 ≤ _
    omega
  have firstChunk : (start * sizeofDouble / header.chunkBytes).toNat =
      8 * start.toNat / header.chunkBytes.toNat := by
    rw [UInt64.toNat_div, Chunking.toNat_mul_of_fits firstByte, word, Nat.mul_comm]
  have lastChunk : ((stop * sizeofDouble - 1) / header.chunkBytes).toNat =
      (8 * stop.toNat - 1) / header.chunkBytes.toNat := by
    rw [UInt64.toNat_div, Chunking.toNat_sub_of_le positive, stopped]
    rfl
  exact {
    firstByte := firstByte
    stopByte := stopByte
    positive := positive
    firstChunk := firstChunk
    lastChunk := lastChunk
    inside := by
      rw [lastChunk, chunked.chunkCount]
      exact Chunking.chunk_lt (by omega)
    ordered := by
      rw [firstChunk, lastChunk]
      exact Nat.div_le_div_right (by omega) }

theorem verifyRows_spec {start stop : UInt64} (decoded : header = Header.decode mapping)
    (chunked : header.version ≠ formatVersionV1) (placed : RowsPlaced header start stop)
    (table : Chunked header) :
    ⦃fun column => ⌜Opened checksums mapping recorded column⌝⦄
    verifyRows checksums header start stop
    ⦃post⟨fun _ column => ⌜Opened checksums mapping recorded column ∧
        RangeDone mapping start stop column⌝,
      fun failure column => ⌜Opened checksums mapping recorded column ∧ failure = mismatch ∧
        ∃ chunk : UInt64, 8 * start.toNat / header.chunkBytes.toNat ≤ chunk.toNat ∧
          chunk.toNat ≤ (8 * stop.toNat - 1) / header.chunkBytes.toNat ∧
            ¬ ChunkAgrees checksums mapping chunk⌝⟩⦄ := by
  have loop := @verifyChunks_spec checksums mapping recorded header
    (start * sizeofDouble / header.chunkBytes)
    (((stop * sizeofDouble - 1) / header.chunkBytes).toNat -
      (start * sizeofDouble / header.chunkBytes).toNat + 2)
    (start * sizeofDouble / header.chunkBytes) ((stop * sizeofDouble - 1) / header.chunkBytes)
    decoded chunked placed.inside table.table le_rfl (placed.ordered.trans (Nat.le_succ _))
    (by omega)
  mvcgen [verifyRows, emit, update, times, minus, dividedBy, loop]
  case vc1 column opened =>
      refine ⟨?_, fun other above below => absurd below (Nat.not_lt.mpr above)⟩
      refine opened.later ?_ rfl fun event member => ?_
      · exact ((((opened.toClean.product placed.firstByte).product placed.stopByte).quotient
          table.chunkBytes).difference placed.positive).quotient table.chunkBytes
      · simp only [note_log, List.mem_append, member, true_or]
  case vc2 =>
      intro opened done
      rw [placed.firstChunk, placed.lastChunk, decoded] at done
      exact ⟨opened, fun _ _ => done⟩
  case vc3 =>
      intro opened failed differs
      rw [placed.firstChunk, placed.lastChunk] at differs
      exact ⟨opened, failed, differs⟩

theorem verifyRange_spec {start stop : UInt64} (geometry : Geometry mapping)
    (ordered : start.toNat ≤ stop.toNat)
    (within : stop.toNat ≤ (Header.decode mapping).rowCount.toNat) :
    ⦃fun column => ⌜Opened checksums mapping recorded column⌝⦄
    verifyRange checksums start stop
    ⦃post⟨fun _ column => ⌜Opened checksums mapping recorded column ∧
        RangeDone mapping start stop column⌝,
      fun failure column => ⌜Opened checksums mapping recorded column ∧ failure = mismatch ∧
        ¬ RangeAgrees checksums mapping start stop⌝⟩⦄ := by
  have distinct : start ≠ stop → start.toNat < stop.toNat := fun different =>
    Nat.lt_of_le_of_ne ordered fun same => different (UInt64.toNat_inj.mp same)
  mvcgen [verifyRange, readHeader_spec, verifyRows_spec]
  case vc1 column opened trivially =>
      refine ⟨opened.paged, fun chunked nonempty => ?_⟩
      rw [opened.same] at trivially
      rcases trivially with plain | same
      · exact absurd plain chunked
      · rw [same] at nonempty
        exact absurd nonempty (lt_irrefl _)
  case decoded opened _ => rw [opened.same]
  case chunked opened needed => exact (not_or.mp needed).1
  case placed column opened needed =>
      rw [opened.same] at needed ⊢
      obtain ⟨chunked, different⟩ := not_or.mp needed
      exact rowsPlaced geometry.toBounded (geometry.chunked chunked) (distinct different) within
  case table opened needed =>
      rw [opened.same] at needed ⊢
      exact geometry.chunked (not_or.mp needed).1
  case vc8 column opened _ => exact opened.paged
  case vc9 => exact fun now done => ⟨now, done⟩
  case vc10 column opened needed _ _ =>
      intro now failed differs
      rw [opened.same] at needed differs
      obtain ⟨chunked, different⟩ := not_or.mp needed
      obtain ⟨chunk, above, below, disagrees⟩ := differs
      exact ⟨now, failed, fun agrees =>
        disagrees (agrees chunked (distinct different) chunk above below)⟩

/-- The view of a range of rows. -/
structure Returned (start stop : UInt64) (view : View) : Prop where
  offset : view.offset.toNat = 4096 + 8 * start.toNat
  rows : view.rows.toNat = stop.toNat - start.toNat

theorem arrayView_spec {start stop : UInt64} (geometry : Geometry mapping)
    (ordered : start.toNat ≤ stop.toNat)
    (within : stop.toNat ≤ (Header.decode mapping).rowCount.toNat) :
    ⦃fun column => ⌜Opened checksums mapping recorded column ∧
        RangeDone mapping start stop column⌝⦄
    arrayView start stop
    ⦃⇓ view column => ⌜Opened checksums mapping recorded column ∧
        RangeDone mapping start stop column ∧ Returned start stop view⌝⦄ := by
  have sized : mapping.length ≤ 9223372036854775807 := geometry.sized
  have reach := geometry.reach
  have rows := geometry.dataBytes
  have word : sizeofDouble.toNat = 8 := rfl
  have count : (stop - start).toNat = stop.toNat - start.toNat :=
    Chunking.toNat_sub_of_le ordered
  have first : start.toNat * sizeofDouble.toNat < 2 ^ 64 := by
    rw [word]
    omega
  have offset : (start * sizeofDouble).toNat = 8 * start.toNat := by
    rw [Chunking.toNat_mul_of_fits first, word, Nat.mul_comm]
  have page : (Header.decode mapping).dataOffset.toNat = 4096 := by
    rw [geometry.dataOffset]
    rfl
  have place : (Header.decode mapping).dataOffset.toNat + (start * sizeofDouble).toNat <
      2 ^ 64 := by
    rw [page, offset]
    omega
  mvcgen [arrayView, readHeader_spec, emit, update, times, minus, plus, refuseIf]
  case vc1 large =>
      have most : ssizeMax.toNat = 9223372036854775807 := rfl
      rw [UInt64.lt_iff_toNat_lt, count, most] at large
      omega
  case vc2 column before _ =>
      obtain ⟨opened, done⟩ := before
      rw [opened.same]
      refine ⟨opened.later ?_ rfl fun event member => ?_, done, ?_, count⟩
      · exact ((opened.paged.toClean.difference ordered).product first).sum place
      · simp only [note_log, List.mem_append, member, true_or]
      · rw [Chunking.toNat_add_of_fits place, page, offset]

theorem fetch_spec {start stop : UInt64} (geometry : Geometry mapping)
    (ordered : start.toNat ≤ stop.toNat)
    (within : stop.toNat ≤ (Header.decode mapping).rowCount.toNat) :
    ⦃fun column => ⌜Opened checksums mapping recorded column⌝⦄
    fetch checksums start stop
    ⦃post⟨fun view column => ⌜Opened checksums mapping recorded column ∧
        RangeDone mapping start stop column ∧ Returned start stop view⌝,
      fun failure column => ⌜Opened checksums mapping recorded column ∧ failure = mismatch ∧
        ¬ RangeAgrees checksums mapping start stop⌝⟩⦄ := by
  have last := @arrayView_spec checksums mapping recorded start stop geometry ordered within
  mvcgen [fetch, verifyRange_spec, last]
  case vc6 => exact fun opened done returned => ⟨opened, done, returned⟩

/-! ## Calls -/

/-- The rows a call asks for. -/
def ColumnCall.start : ColumnCall → UInt64
  | .values => 0
  | .slice start _ => start

def ColumnCall.stop (header : Header) : ColumnCall → UInt64
  | .values => header.rowCount
  | .slice _ stop => stop

/-- The rows are rows of the column. -/
def ColumnCall.Fits (header : Header) (call : ColumnCall) : Prop :=
  call.start.toNat ≤ (call.stop header).toNat ∧
    (call.stop header).toNat ≤ header.rowCount.toNat

def outOfBounds : Failure := .outOfRange "factor cache slice bounds are invalid"

theorem answer_spec (geometry : Geometry mapping) (call : ColumnCall) :
    ⦃fun column => ⌜Opened checksums mapping recorded column⌝⦄
    answer checksums call
    ⦃post⟨fun view column => ⌜Opened checksums mapping recorded column ∧
        RangeDone mapping call.start (call.stop (Header.decode mapping)) column ∧
        Returned call.start (call.stop (Header.decode mapping)) view ∧
        call.Fits (Header.decode mapping)⌝,
      fun failure column => ⌜Opened checksums mapping recorded column ∧
        (failure = outOfBounds ∧ ¬ call.Fits (Header.decode mapping) ∨
          failure = mismatch ∧ call.Fits (Header.decode mapping) ∧
            ¬ RangeAgrees checksums mapping call.start (call.stop (Header.decode mapping)))⌝⟩⦄ := by
  cases call with
  | values =>
      have fits : ColumnCall.Fits (Header.decode mapping) .values := ⟨Nat.zero_le _, le_rfl⟩
      mvcgen [answer, values, readHeader_spec, fetch_spec]
      case ordered => exact Nat.zero_le _
      case within opened => rw [opened.same]
      case vc6 opened => exact opened.paged
      case vc7 opened _ _ =>
          rw [opened.same]
          exact fun now done returned => ⟨now, done, returned, fits⟩
      case vc8 opened _ _ =>
          rw [opened.same]
          exact fun now failed differs => ⟨now, .inr ⟨failed, fits, differs⟩⟩
  | slice start stop =>
      have fits {column : Column} (opened : Opened checksums mapping recorded column)
          (accepted : ¬ (stop < start ∨ (Header.decode column.mapping).rowCount < stop)) :
          ColumnCall.Fits (Header.decode mapping) (.slice start stop) := by
        rw [opened.same, not_or, UInt64.lt_iff_toNat_lt, UInt64.lt_iff_toNat_lt] at accepted
        exact ⟨Nat.le_of_not_lt accepted.1, Nat.le_of_not_lt accepted.2⟩
      mvcgen [answer, slice, readHeader_spec, refuseIf, fetch_spec]
      case vc1 opened refused =>
          refine ⟨opened.paged, .inl ⟨rfl, fun fits => ?_⟩⟩
          rw [opened.same, UInt64.lt_iff_toNat_lt, UInt64.lt_iff_toNat_lt] at refused
          obtain ⟨ordered, within⟩ := fits
          rcases refused with reversed | beyond
          · exact absurd reversed (Nat.not_lt.mpr ordered)
          · exact absurd beyond (Nat.not_lt.mpr within)
      case ordered opened accepted => exact (fits opened accepted).1
      case within opened accepted => exact (fits opened accepted).2
      case vc7 opened _ => exact opened.paged
      case vc8 opened accepted _ _ =>
          exact fun now done returned => ⟨now, done, returned, fits opened accepted⟩
      case vc9 opened accepted _ _ =>
          exact fun now failed differs => ⟨now, .inr ⟨failed, fits opened accepted, differs⟩⟩

end Gambit.MappedColumn
