import Gambit.FactorCache.Creation
import Gambit.FactorCache.Integrity

/-!
# Created files read back

A created file is valid, every chunk of it agrees with its table, and every
view, of the created column and of the reopened one, is of the original values.
-/

set_option autoImplicit false
set_option mvcgen.warning false

namespace Gambit.MappedColumn

open ByteImages Std.Do Triples

variable {checksums : Checksums} {values : List UInt64} {formatVersion : UInt32}
  {column : Column}

namespace Created

theorem geometry (created : Created checksums values formatVersion column) :
    Geometry column.mapping where
  dataOffset := created.dataOffset
  dataBytes := by rw [created.dataBytes, created.rowCount]
  reach := by rw [created.dataBytes, created.sized]
  sized := created.bounded
  chunked := fun chunked => created.chunked (created.version ▸ chunked)

/-- A part of the stored payload is the part of the values. -/
theorem load_part (created : Created checksums values formatVersion column) {start length : Nat}
    (inside : start + length ≤ 8 * values.length) :
    load column.mapping (4096 + start) length = load (words values) start length := by
  rw [← load_load inside, created.payload]

theorem chunk_agrees (created : Created checksums values formatVersion column)
    (chunked : (Header.decode column.mapping).version ≠ formatVersionV1) {chunk : UInt64}
    (inside : chunk.toNat < (Header.decode column.mapping).chunkCount.toNat) :
    ChunkAgrees checksums column.mapping chunk := by
  have placed := created.geometry.placed chunked inside
  have counted := inside
  rw [(created.geometry.chunked chunked).chunkCount, created.dataBytes] at counted
  have entry := created.entries (created.version ▸ chunked) chunk.toNat inside
  have part := created.load_part (Chunking.end_le counted)
  change checksums.forVersion _ (load column.mapping (_ : UInt64).toNat (_ : UInt64).toNat) =
    word64 (load column.mapping (_ : UInt64).toNat 8)
  rw [placed.place, placed.length, placed.slot, created.dataBytes, part, entry, created.version]

theorem payload_agrees (created : Created checksums values formatVersion column) :
    Matches checksums column.mapping (Header.decode column.mapping).dataOffset
      (Header.decode column.mapping).dataBytes Header.checksumAt := by
  have stored : word64 (load column.mapping Header.checksumAt.toNat 8) =
      (Header.decode column.mapping).checksum := rfl
  have page : headerBytes.toNat = 4096 := rfl
  rw [Matches, stored, created.checksum, created.version, created.dataOffset, created.dataBytes,
    page, created.payload]

/-- Validation accepts a created file. -/
theorem valid (created : Created checksums values formatVersion column)
    (known : formatVersion ∈ [formatVersionV1, formatVersionV2, formatVersionV3]) :
    Valid checksums column.mapping where
  toGeometry := created.geometry
  payload := fun _ => created.payload_agrees
  magic := created.magic
  known := by
    rw [created.version]
    exact known
  committed := created.state

/-- The created column keeps the invariant of opened ones, without comparisons. -/
theorem opened (created : Created checksums values formatVersion column) :
    Opened checksums column.mapping False column where
  same := rfl
  within := fun event member => (created.quiet event member).1
  truthful := fun event member => (created.quiet event member).2 column.mapping
  geometry := created.geometry
  flags := fun chunked => created.flags (created.version ▸ chunked)
  agrees := by
    intro chunked chunk set
    apply created.chunk_agrees chunked
    rw [← created.flags (created.version ▸ chunked)]
    exact (List.getElem?_eq_some_iff.mp set).1
  logged := fun recorded => recorded.elim
  whole := fun recorded => recorded.elim

theorem range_agrees (created : Created checksums values formatVersion column)
    {start stop : UInt64}
    (within : stop.toNat ≤ (Header.decode column.mapping).rowCount.toNat) :
    RangeAgrees checksums column.mapping start stop := by
  intro chunked nonempty chunk _ below
  apply created.chunk_agrees chunked
  have last := @Chunking.chunk_lt _ (Header.decode column.mapping).chunkBytes.toNat _
    (show 8 * stop.toNat - 1 < (Header.decode column.mapping).dataBytes.toNat by
      rw [created.dataBytes, ← created.rowCount]
      omega)
  rw [(created.geometry.chunked chunked).chunkCount]
  omega

/-- A view of a range of rows is of their values. -/
theorem view_values (created : Created checksums values formatVersion column)
    {start stop : UInt64} {view : View} (returned : Returned start stop view)
    (ordered : start.toNat ≤ stop.toNat)
    (within : stop.toNat ≤ (Header.decode column.mapping).rowCount.toNat) :
    view.values column.mapping =
      (values.drop start.toNat).take (stop.toNat - start.toNat) := by
  rw [created.rowCount] at within
  rw [View.values, returned.offset, returned.rows, ← readWords_words values (by omega)]
  apply readWords_congr
  intro i small
  have part := congrArg (fun bytes => bytes[8 * start.toNat + i]?) created.payload
  simp only [getElem?_load] at part
  rw [if_pos (by omega)] at part
  rw [Nat.add_assoc, part]

end Created

/-- The values a call asks for. -/
def ColumnCall.part (values : List UInt64) : ColumnCall → List UInt64
  | .values => values
  | .slice start stop => (values.drop start.toNat).take (stop.toNat - start.toNat)

def ColumnCall.InRange (rows : Nat) : ColumnCall → Prop
  | .values => True
  | .slice start stop => start.toNat ≤ stop.toNat ∧ stop.toNat ≤ rows

/-- Whatever was called before, a call in range returns the values it asks for
and nothing wraps on the way. -/
def ReadsBack (checksums : Checksums) (values : List UInt64) (column : Column) : Prop :=
  ∀ (before : List ColumnCall) (call : ColumnCall), call.InRange values.length →
    ∃ (view : View) (after : Column),
      afterAnd checksums column before call = (.ok view, after) ∧
      view.values after.mapping = call.part values ∧
      ∀ event ∈ after.log, event.Within after.mapping.length

/-- What creation wrote of the layout is what opening computes from it. -/
structure SameGeometry (values : List UInt64) (formatVersion : UInt32) (column : Column) :
    Prop where
  version : (Header.decode column.mapping).version = formatVersion
  rowCount : (Header.decode column.mapping).rowCount.toNat = values.length
  dataOffset : (Header.decode column.mapping).dataOffset = headerBytes
  dataBytes : (Header.decode column.mapping).dataBytes.toNat = 8 * values.length
  reach : headerBytes.toNat + 8 * values.length = column.mapping.length
  expected : formatVersion ≠ formatVersionV1 →
    ((expectedChunks (Header.decode column.mapping)).on column).1 =
      .ok (Header.decode column.mapping).chunkCount
  counted : formatVersion ≠ formatVersionV1 →
    (Header.decode column.mapping).chunkCount ≤ maximumChunks
  table : formatVersion ≠ formatVersionV1 →
    sizeofHeader.toNat + 8 * (Header.decode column.mapping).chunkCount.toNat ≤ headerBytes.toNat

namespace Created

theorem fits (created : Created checksums values formatVersion column) {call : ColumnCall}
    (inRange : call.InRange values.length) : call.Fits (Header.decode column.mapping) := by
  rw [ColumnCall.Fits, created.rowCount]
  cases call with
  | values => exact ⟨Nat.zero_le _, created.rowCount.le⟩
  | slice start stop => exact inRange

theorem part_values (created : Created checksums values formatVersion column)
    {call : ColumnCall} {view : View}
    (returned : Returned call.start (call.stop (Header.decode column.mapping)) view)
    (inRange : call.InRange values.length) :
    view.values column.mapping = call.part values := by
  have fits := created.fits inRange
  rw [created.view_values returned fits.1 fits.2]
  cases call with
  | values =>
      change (values.drop 0).take ((Header.decode column.mapping).rowCount.toNat - 0) = values
      rw [created.rowCount, List.drop_zero, Nat.sub_zero, List.take_length]
  | slice start stop => rfl

/-- Any opened column over a created file reads its values back. -/
theorem reads_back (created : Created checksums values formatVersion column) {recorded : Prop}
    {opened : Column} (start : Opened checksums column.mapping recorded opened) :
    ReadsBack checksums values opened := by
  intro before call inRange
  have fits := created.fits inRange
  have ends := answer_ends (start.afterCalls before) call
  rcases run : afterAnd checksums opened before call with ⟨result, after⟩
  cases result with
  | ok view =>
      obtain ⟨now, _, returned, _⟩ := ends.of_ok run
      refine ⟨view, after, rfl, ?_, ?_⟩
      · rw [now.same]
        exact created.part_values returned inRange
      · rw [now.same]
        exact now.within
  | error failure =>
      obtain ⟨_, ⟨_, unfit⟩ | ⟨_, _, disagrees⟩⟩ := ends.of_error run
      · exact (unfit fits).elim
      · exact (disagrees (created.range_agrees fits.2)).elim

theorem same_geometry (created : Created checksums values formatVersion column) :
    SameGeometry values formatVersion column where
  version := created.version
  rowCount := created.rowCount
  dataOffset := created.dataOffset
  dataBytes := created.dataBytes
  reach := created.sized.symm
  expected := by
    intro versioned
    have chunked := created.chunked versioned
    have ends := ends_of_triple (@expectedChunks_spec checksums _ _)
      ⟨created.opened.toClean, created.geometry.toBounded, chunked.chunkBytes⟩
    rcases run : (expectedChunks (Header.decode column.mapping)).on column with ⟨result, after⟩
    cases result with
    | ok expected =>
        have counted := (ends.of_ok run).2
        rw [← chunked.chunkCount] at counted
        rw [UInt64.toNat_inj.mp counted]
    | error failure => exact (ends.of_error run).elim
  counted := fun versioned => (created.chunked versioned).table
  table := by
    intro versioned
    have counted := (created.chunked versioned).table
    change 64 + 8 * _ ≤ 4096
    omega

/-- Opening accepts a created file. -/
theorem reopened (created : Created checksums values formatVersion column)
    (known : formatVersion ∈ [formatVersionV1, formatVersionV2, formatVersionV3])
    {openCalls : OpenCalls}
    (granted : openCalls.opened ∧ openCalls.stated ∧ openCalls.mapped) :
    ∃ opened, (openExisting checksums openCalls ⟨column.mapping, created.bounded⟩).on Column.empty =
        (.ok (), opened) ∧
      Opened checksums column.mapping True opened := by
  have ends := ends_of_triple (@openExisting_spec checksums openCalls
    ⟨column.mapping, created.bounded⟩) rfl
  rcases run : (openExisting checksums openCalls ⟨column.mapping, created.bounded⟩).on
    Column.empty with ⟨result, opened⟩
  cases result with
  | ok _ => exact ⟨opened, rfl, ends.of_ok run⟩
  | error failure =>
      rcases ends.of_error run with refused | invalid
      · exact (refused granted).elim
      · exact (invalid (created.valid known)).elim

end Created

/-- A creation that does not refuse: its file keeps the layout that opening
computes, opening accepts it, and the created and the reopened column read the
values back over any sequence of calls. -/
theorem mapped_column_round_trip (checksums : Checksums) (calls : CreateCalls)
    (values : List UInt64) (formatVersion : UInt32)
    (known : formatVersion ∈ [formatVersionV1, formatVersionV2, formatVersionV3])
    (column : Column)
    (accepted : (createImpl checksums calls values formatVersion).on Column.empty =
      (.ok (), column)) :
    (∀ event ∈ column.log, event.Within column.mapping.length) ∧
    SameGeometry values formatVersion column ∧
    ReadsBack checksums values column ∧
    ∃ segment : Segment, segment.bytes = column.mapping ∧
      ∀ openCalls : OpenCalls, openCalls.opened ∧ openCalls.stated ∧ openCalls.mapped →
        ∃ opened, (openExisting checksums openCalls segment).on Column.empty = (.ok (), opened) ∧
          (∀ event ∈ opened.log, event.Within column.mapping.length) ∧
          ReadsBack checksums values opened := by
  have created : Created checksums values formatVersion column :=
    (ends_of_triple (createImpl_spec known) rfl).of_ok accepted
  refine ⟨fun event member => (created.quiet event member).1, created.same_geometry,
    created.reads_back created.opened, ⟨column.mapping, created.bounded⟩, rfl, ?_⟩
  intro openCalls granted
  obtain ⟨opened, run, start⟩ := created.reopened known granted
  exact ⟨opened, run, start.within, created.reads_back start⟩

def allowed : CreateCalls := ⟨true, true, true, true, true, true⟩

theorem mapped_column_round_trip_two_rows :
    ReadsBack Gambit.checksums [7, 9]
      ((createImpl Gambit.checksums allowed [7, 9] formatVersionV2).on Column.empty).2 := by
  have accepted : (createImpl Gambit.checksums allowed [7, 9] formatVersionV2).on Column.empty =
      (.ok (), ((createImpl Gambit.checksums allowed [7, 9] formatVersionV2).on Column.empty).2) :=
    result_eq (by decide +kernel)
  exact (mapped_column_round_trip Gambit.checksums allowed [7, 9] formatVersionV2 (by decide) _
    accepted).2.2.1

end Gambit.MappedColumn
