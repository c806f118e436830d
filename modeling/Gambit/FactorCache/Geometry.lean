import Gambit.FactorCache.MappedColumn
import Gambit.Lib.Chunking

/-!
# What validation establishes

An accepted header describes its file: the payload is the rest of the file and
the chunk table fits behind the header.  Every access and every offset
computation of a chunk of such a file stays inside it.
-/

set_option autoImplicit false
set_option mvcgen.warning false

namespace Gambit.MappedColumn

open ByteImages Std.Do

variable {checksums : Checksums} {mapping : List UInt8} {column : Column} {event : Event}

/-- A range of a file of the given size: of its header page or of its payload. -/
def Inside (size : Nat) (offset length : UInt64) : Prop :=
  4096 ≤ size ∧ offset.toNat + length.toNat ≤ 4096 ∨
    4096 ≤ offset.toNat ∧ offset.toNat + length.toNat ≤ size

/-- An event of a column of the given size: the access is inside, the
arithmetic does not wrap, the loop ends. -/
def Event.Within (size : Nat) : Event → Prop
  | .read offset length => Inside size offset length
  | .wrote offset length => Inside size offset length
  | .sum x y => x.toNat + y.toNat < 2 ^ 64
  | .difference x y => y.toNat ≤ x.toNat
  | .product x y => x.toNat * y.toNat < 2 ^ 64
  | .quotient _ y => 0 < y.toNat
  | .flag index count => index.toNat < count
  | .matched _ _ _ => True
  | .unfinished => False

/-- The checksum of a range is the word stored at an offset. -/
def Matches (checksums : Checksums) (mapping : List UInt8)
    (offset length storedAt : UInt64) : Prop :=
  checksums.forVersion (Header.decode mapping).version
      (load mapping offset.toNat length.toNat) =
    word64 (load mapping storedAt.toNat 8)

def Event.Truthful (checksums : Checksums) (mapping : List UInt8) : Event → Prop
  | .matched offset length storedAt => Matches checksums mapping offset length storedAt
  | _ => True

/-- A column over a mapping in whose past nothing went wrong. -/
structure Clean (checksums : Checksums) (mapping : List UInt8) (column : Column) : Prop where
  same : column.mapping = mapping
  within : ∀ event ∈ column.log, event.Within mapping.length
  truthful : ∀ event ∈ column.log, event.Truthful checksums mapping

section Notes

@[simp] theorem note_mapping (event : Event) (column : Column) :
    (column.note event).mapping = column.mapping := rfl

@[simp] theorem note_verified (event : Event) (column : Column) :
    (column.note event).verified = column.verified := rfl

@[simp] theorem note_log (event : Event) (column : Column) :
    (column.note event).log = column.log ++ [event] := rfl

@[simp] theorem mark_mapping (chunk : UInt64) (column : Column) :
    (column.mark chunk).mapping = column.mapping := rfl

@[simp] theorem mark_verified (chunk : UInt64) (column : Column) :
    (column.mark chunk).verified = column.verified.set chunk.toNat true := rfl

@[simp] theorem mark_log (chunk : UInt64) (column : Column) :
    (column.mark chunk).log = column.log := rfl

theorem Clean.note (clean : Clean checksums mapping column) (within : event.Within mapping.length)
    (truthful : event.Truthful checksums mapping) : Clean checksums mapping (column.note event) where
  same := clean.same
  within := by
    intro other member
    rcases List.mem_append.mp member with before | last
    · exact clean.within other before
    · rw [List.mem_singleton.mp last]
      exact within
  truthful := by
    intro other member
    rcases List.mem_append.mp member with before | last
    · exact clean.truthful other before
    · rw [List.mem_singleton.mp last]
      exact truthful

theorem Clean.sum {x y : UInt64} (clean : Clean checksums mapping column)
    (fits : x.toNat + y.toNat < 2 ^ 64) : Clean checksums mapping (column.note (.sum x y)) :=
  @Clean.note checksums mapping column (.sum x y) clean fits trivial

theorem Clean.difference {x y : UInt64} (clean : Clean checksums mapping column)
    (ordered : y.toNat ≤ x.toNat) : Clean checksums mapping (column.note (.difference x y)) :=
  @Clean.note checksums mapping column (.difference x y) clean ordered trivial

theorem Clean.product {x y : UInt64} (clean : Clean checksums mapping column)
    (fits : x.toNat * y.toNat < 2 ^ 64) : Clean checksums mapping (column.note (.product x y)) :=
  @Clean.note checksums mapping column (.product x y) clean fits trivial

theorem Clean.quotient {x y : UInt64} (clean : Clean checksums mapping column)
    (positive : 0 < y.toNat) : Clean checksums mapping (column.note (.quotient x y)) :=
  @Clean.note checksums mapping column (.quotient x y) clean positive trivial

theorem Clean.read {offset length : UInt64} (clean : Clean checksums mapping column)
    (inside : Inside mapping.length offset length) :
    Clean checksums mapping (column.note (.read offset length)) :=
  @Clean.note checksums mapping column (.read offset length) clean inside trivial

theorem Clean.page (clean : Clean checksums mapping column) (paged : 4096 ≤ mapping.length) :
    Clean checksums mapping (column.note (.read 0 sizeofHeader)) := by
  apply clean.read
  exact .inl ⟨paged, by decide⟩

theorem Clean.flag {index : UInt64} {count : Nat} (clean : Clean checksums mapping column)
    (inside : index.toNat < count) : Clean checksums mapping (column.note (.flag index count)) :=
  @Clean.note checksums mapping column (.flag index count) clean inside trivial

theorem Clean.matched {offset length storedAt : UInt64} (clean : Clean checksums mapping column)
    (agrees : Matches checksums mapping offset length storedAt) :
    Clean checksums mapping (column.note (.matched offset length storedAt)) :=
  @Clean.note checksums mapping column (.matched offset length storedAt) clean trivial agrees

end Notes

/-- The payload is the file behind the header page. -/
structure Bounded (header : Header) (size : Nat) : Prop where
  dataOffset : header.dataOffset = headerBytes
  dataBytes : header.dataBytes.toNat = 8 * header.rowCount.toNat
  reach : 4096 + header.dataBytes.toNat = size
  sized : size ≤ offMax.toNat

/-- The table has a checksum for every chunk of the payload. -/
structure Chunked (header : Header) : Prop where
  chunkBytes : 0 < header.chunkBytes.toNat
  chunkCount : header.chunkCount.toNat =
    Chunking.count header.dataBytes.toNat header.chunkBytes.toNat
  table : header.chunkCount.toNat ≤ 504

/-- What the header of an accepted file says of the file. -/
structure Geometry (mapping : List UInt8) : Prop
    extends Bounded (Header.decode mapping) mapping.length where
  chunked : (Header.decode mapping).version ≠ formatVersionV1 → Chunked (Header.decode mapping)

theorem decode_page (image : List UInt8) :
    Header.decode (load image (0 : UInt64).toNat sizeofHeader.toNat) = Header.decode image := by
  have field (start count : Nat) (inside : start + count ≤ 64) :
      load (load image (0 : UInt64).toNat sizeofHeader.toNat) start count =
        load image start count := by
    change load (load image 0 64) start count = _
    rw [load_load inside, Nat.zero_add]
  simp only [Header.decode]
  rw [field _ _ (by decide), field _ _ (by decide), field _ _ (by decide), field _ _ (by decide),
    field _ _ (by decide), field _ _ (by decide), field _ _ (by decide), field _ _ (by decide),
    field _ _ (by decide)]

theorem readHeader_spec {Q : PostCond Header (.except Failure (.arg Column .pure))} :
    ⦃fun column => Q.1 (Header.decode column.mapping) (column.note (.read 0 sizeofHeader))⦄
    readHeader
    ⦃Q⦄ := by
  mvcgen [readHeader, readBytes, emit, update]
  case vc1 column post =>
      change (Q.1 (Header.decode (load column.mapping (0 : UInt64).toNat _)) _).down
      rw [decode_page]
      exact post

/-- The comparison made for a chunk. -/
def chunkEvent (header : Header) (chunk : UInt64) : Event :=
  .matched (header.dataOffset + chunk * header.chunkBytes)
    (min header.chunkBytes (header.dataBytes - chunk * header.chunkBytes))
    (sizeofHeader + chunk * sizeofUint64)

/-- A chunk's checksum is the one in the table. -/
def ChunkAgrees (checksums : Checksums) (mapping : List UInt8) (chunk : UInt64) : Prop :=
  (chunkEvent (Header.decode mapping) chunk).Truthful checksums mapping

section Chunks

variable {header : Header} {chunk : UInt64}

/-- The numbers of a chunk, without wrapping. -/
structure ChunkPlaced (dataOffset chunkBytes dataBytes : UInt64) (size : Nat) (chunk : UInt64) :
    Prop where
  start : (chunk * chunkBytes).toNat = chunk.toNat * chunkBytes.toNat
  product : chunk.toNat * chunkBytes.toNat < 2 ^ 64
  before : (chunk * chunkBytes).toNat ≤ dataBytes.toNat
  length : (min chunkBytes (dataBytes - chunk * chunkBytes)).toNat =
    Chunking.lengthOf dataBytes.toNat chunkBytes.toNat chunk.toNat
  place : (dataOffset + chunk * chunkBytes).toNat =
    4096 + chunk.toNat * chunkBytes.toNat
  sum : dataOffset.toNat + (chunk * chunkBytes).toNat < 2 ^ 64
  inside : Inside size (dataOffset + chunk * chunkBytes)
    (min chunkBytes (dataBytes - chunk * chunkBytes))
  scaled : chunk.toNat * sizeofUint64.toNat < 2 ^ 64
  slot : (sizeofHeader + chunk * sizeofUint64).toNat = 64 + 8 * chunk.toNat
  behind : sizeofHeader.toNat + (chunk * sizeofUint64).toNat < 2 ^ 64
  tabled : Inside size (sizeofHeader + chunk * sizeofUint64) sizeofUint64

/-- The chunks of a payload behind a header page are where they should be. -/
theorem chunkPlaced {size : Nat} {dataOffset chunkBytes dataBytes : UInt64}
    (offset : dataOffset = headerBytes)
    (reach : 4096 + dataBytes.toNat ≤ size) (sized : size < 2 ^ 64)
    (inside : chunk.toNat < Chunking.count dataBytes.toNat chunkBytes.toNat)
    (few : chunk.toNat < 504) :
    ChunkPlaced dataOffset chunkBytes dataBytes size chunk := by
  have first := Chunking.start_lt inside
  have last := Chunking.end_le inside
  have product : chunk.toNat * chunkBytes.toNat < 2 ^ 64 := by omega
  have start := Chunking.toNat_mul_of_fits product
  have page : dataOffset.toNat = 4096 := by
    rw [offset]
    rfl
  have sum : dataOffset.toNat + (chunk * chunkBytes).toNat < 2 ^ 64 := by
    rw [page, start]
    omega
  have place := Chunking.toNat_add_of_fits sum
  rw [page, start] at place
  have length : (min chunkBytes (dataBytes - chunk * chunkBytes)).toNat =
      Chunking.lengthOf dataBytes.toNat chunkBytes.toNat chunk.toNat := by
    rw [Chunking.toNat_min, Chunking.toNat_sub_of_le (by rw [start]; omega), start]
    rfl
  have word : sizeofUint64.toNat = 8 := rfl
  have page64 : sizeofHeader.toNat = 64 := rfl
  have scaled : chunk.toNat * sizeofUint64.toNat < 2 ^ 64 := by
    rw [word]
    omega
  have behind : sizeofHeader.toNat + (chunk * sizeofUint64).toNat < 2 ^ 64 := by
    rw [Chunking.toNat_mul_of_fits scaled, word, page64]
    omega
  have slot : (sizeofHeader + chunk * sizeofUint64).toNat = 64 + 8 * chunk.toNat := by
    rw [Chunking.toNat_add_of_fits behind, Chunking.toNat_mul_of_fits scaled, word, page64]
    omega
  exact {
    start := start
    product := product
    before := by
      rw [start]
      omega
    length := length
    place := place
    sum := sum
    inside := by
      right
      rw [place, length]
      omega
    scaled := scaled
    slot := slot
    behind := behind
    tabled := by
      left
      rw [slot, word]
      omega }

theorem Geometry.placed (geometry : Geometry mapping)
    (chunked : (Header.decode mapping).version ≠ formatVersionV1)
    (inside : chunk.toNat < (Header.decode mapping).chunkCount.toNat) :
    ChunkPlaced (Header.decode mapping).dataOffset (Header.decode mapping).chunkBytes
      (Header.decode mapping).dataBytes mapping.length chunk := by
  have few := (geometry.chunked chunked).table
  have sized : mapping.length ≤ 9223372036854775807 := geometry.sized
  rw [(geometry.chunked chunked).chunkCount] at inside few
  exact chunkPlaced geometry.dataOffset geometry.reach.le (by omega) inside (by omega)

end Chunks

/-! ## Validation -/

section Validation

variable {header : Header} {mappingBytes : UInt64}

theorem validateBounds_spec (sized : mapping.length ≤ offMax.toNat)
    (paged : 4096 ≤ mapping.length) (size : mappingBytes.toNat = mapping.length) :
    ⦃fun column => ⌜Clean checksums mapping column⌝⦄
    validateBounds header mappingBytes
    ⦃post⟨fun _ column => ⌜Clean checksums mapping column ∧ Bounded header mapping.length⌝,
      fun _ column => ⌜Clean checksums mapping column ∧ ¬ Bounded header mapping.length⌝⟩⦄ := by
  have bounded : mapping.length ≤ 9223372036854775807 := sized
  have page : headerBytes.toNat = 4096 := rfl
  have word : sizeofDouble.toNat = 8 := rfl
  have product : ¬ uint64Max / sizeofDouble < header.rowCount →
      header.rowCount.toNat * sizeofDouble.toNat < 2 ^ 64 := by
    intro few
    have most : (uint64Max / sizeofDouble).toNat = 2305843009213693951 := rfl
    rw [UInt64.lt_iff_toNat_lt, most] at few
    rw [word]
    omega
  have difference : headerBytes.toNat ≤ mappingBytes.toNat := by
    rw [page, size]
    exact paged
  have sum : header.dataOffset = headerBytes → ¬ mappingBytes - headerBytes < header.dataBytes →
      header.dataOffset.toNat + header.dataBytes.toNat < 2 ^ 64 := by
    intro offset room
    rw [UInt64.lt_iff_toNat_lt, Chunking.toNat_sub_of_le difference] at room
    rw [offset]
    omega
  mvcgen [validateBounds, emit, update, times, minus, plus, refuseIf]
  case vc1 _ column clean many =>
      refine ⟨clean, fun valid => ?_⟩
      have most : (uint64Max / sizeofDouble).toNat = 2305843009213693951 := rfl
      have rows := valid.dataBytes
      have reach := valid.reach
      rw [UInt64.lt_iff_toNat_lt, most] at many
      omega
  case vc2 _ column clean _ offset => exact ⟨clean, fun valid => offset valid.dataOffset⟩
  case vc3 _ column clean few _ payload =>
      refine ⟨clean.product (product few), fun valid => payload (UInt64.toNat_inj.mp ?_)⟩
      rw [valid.dataBytes, Chunking.toNat_mul_of_fits (product few), word, Nat.mul_comm]
  case vc4 _ column clean few _ _ room =>
      refine ⟨(clean.product (product few)).difference difference, fun valid => ?_⟩
      have reach := valid.reach
      rw [UInt64.lt_iff_toNat_lt, Chunking.toNat_sub_of_le difference, page, size] at room
      omega
  case vc5 _ column clean few offset _ room reach =>
      have fits := sum (not_not.mp offset) room
      refine ⟨((clean.product (product few)).difference difference).sum fits, fun valid =>
        reach (UInt64.toNat_inj.mp ?_)⟩
      rw [Chunking.toNat_add_of_fits fits, not_not.mp offset, page, size]
      exact valid.reach
  case vc6 _ column clean few offset payload room reach =>
      have fits := sum (not_not.mp offset) room
      refine ⟨?_, { dataOffset := not_not.mp offset, dataBytes := ?_, reach := ?_, sized := sized }⟩
      · apply Clean.sum _ fits
        exact (clean.product (product few)).difference difference
      · rw [not_not.mp payload, Chunking.toNat_mul_of_fits (product few), word, Nat.mul_comm]
      · rw [← size, ← not_not.mp reach, Chunking.toNat_add_of_fits fits, not_not.mp offset, page]

theorem validatePayload_spec (decoded : header = Header.decode mapping) :
    ⦃fun column => ⌜Clean checksums mapping column ∧ Bounded header mapping.length ∧
        header.version = formatVersionV1⌝⦄
    validatePayload checksums header
    ⦃post⟨fun _ column => ⌜Clean checksums mapping column ∧ Bounded header mapping.length ∧
        header.version = formatVersionV1 ∧
        .matched header.dataOffset header.dataBytes Header.checksumAt ∈ column.log⌝,
      fun _ column => ⌜Clean checksums mapping column ∧
        ¬ Matches checksums mapping header.dataOffset header.dataBytes Header.checksumAt⌝⟩⦄ := by
  have inside : Bounded header mapping.length →
      Inside mapping.length header.dataOffset header.dataBytes := by
    intro bounded
    rw [bounded.dataOffset]
    exact .inr ⟨le_rfl, bounded.reach.le⟩
  have compared : header.version = formatVersionV1 →
      (Matches checksums mapping header.dataOffset header.dataBytes Header.checksumAt ↔
        checksums.bytes (load mapping header.dataOffset.toNat header.dataBytes.toNat) =
          header.checksum) := by
    intro plain
    have stored : header.checksum = word64 (load mapping Header.checksumAt.toNat 8) := by
      rw [decoded]
      rfl
    have slow : ¬ header.version = 3 := by
      rw [plain]
      decide
    rw [Matches, ← decoded, Checksums.forVersion, if_neg slow, stored]
  mvcgen [validatePayload, emit, update, readBytes, refuseIf]
  case vc1 column before differs =>
      obtain ⟨clean, bounded, plain⟩ := before
      rw [note_mapping, clean.same] at differs
      exact ⟨clean.read (inside bounded), fun agrees => differs ((compared plain).mp agrees)⟩
  case vc2 column before same =>
      obtain ⟨clean, bounded, plain⟩ := before
      rw [note_mapping, clean.same, not_not] at same
      have agrees := (compared plain).mpr same
      refine ⟨(clean.read (inside bounded)).matched agrees, bounded, plain, ?_⟩
      simp only [note_log, List.mem_append, List.mem_singleton, or_true]

theorem expectedChunks_spec :
    ⦃fun column => ⌜Clean checksums mapping column ∧ Bounded header mapping.length ∧
        0 < header.chunkBytes.toNat⌝⦄
    expectedChunks header
    ⦃⇓ expected column => ⌜Clean checksums mapping column ∧
        expected.toNat = Chunking.count header.dataBytes.toNat header.chunkBytes.toNat⌝⦄ := by
  have one : (1 : UInt64).toNat = 1 := rfl
  mvcgen [expectedChunks, emit, update, minus, plus, dividedBy]
  case vc1 empty column before =>
      refine ⟨before.1, ?_⟩
      rw [empty]
      exact (Chunking.count_zero _).symm
  case vc2 nonempty column before =>
      obtain ⟨clean, bounded, chunked⟩ := before
      have reach := bounded.reach
      have small : mapping.length ≤ 9223372036854775807 := bounded.sized
      have positive := Chunking.toNat_pos nonempty
      have ordered : (1 : UInt64).toNat ≤ header.dataBytes.toNat := positive
      have last : (header.dataBytes - 1).toNat = header.dataBytes.toNat - 1 :=
        Chunking.toNat_sub_of_le ordered
      have whole : ((header.dataBytes - 1) / header.chunkBytes).toNat =
          (header.dataBytes.toNat - 1) / header.chunkBytes.toNat := by
        rw [UInt64.toNat_div, last]
      have smaller := Nat.div_le_self (header.dataBytes.toNat - 1) header.chunkBytes.toNat
      have fits : (1 : UInt64).toNat + ((header.dataBytes - 1) / header.chunkBytes).toNat <
          2 ^ 64 := by
        rw [whole, one]
        omega
      refine ⟨?_, ?_⟩
      · apply Clean.sum _ fits
        exact (clean.difference ordered).quotient chunked
      · rw [Chunking.toNat_add_of_fits fits, whole, one, Chunking.count_of_pos positive]

theorem validateChunkTable_spec :
    ⦃fun column => ⌜Clean checksums mapping column ∧ Bounded header mapping.length⌝⦄
    validateChunkTable header
    ⦃post⟨fun _ column => ⌜Clean checksums mapping column ∧ Bounded header mapping.length ∧
        Chunked header⌝,
      fun _ column => ⌜Clean checksums mapping column ∧ ¬ Chunked header⌝⟩⦄ := by
  have most : maximumChunks.toNat = 504 := rfl
  mvcgen [validateChunkTable, refuseIf, expectedChunks_spec]
  case vc1 before empty =>
      refine ⟨before.1, fun chunked => ?_⟩
      have positive := chunked.chunkBytes
      rw [empty] at positive
      exact absurd positive (by decide)
  case vc4 before positive => exact ⟨before.1, before.2, Chunking.toNat_pos positive⟩
  case vc5 refused column computed =>
      obtain ⟨clean, counted⟩ := computed
      refine ⟨clean, fun chunked => ?_⟩
      rcases refused with other | many
      · exact other (UInt64.toNat_inj.mp (chunked.chunkCount.trans counted.symm))
      · rw [UInt64.lt_iff_toNat_lt, most] at many
        exact absurd chunked.table (Nat.not_le.mpr many)
  case vc6 _ first before positive expected accepted column computed =>
      obtain ⟨clean, counted⟩ := computed
      obtain ⟨same, few⟩ := not_or.mp accepted
      rw [UInt64.lt_iff_toNat_lt, most] at few
      rw [← not_not.mp same] at counted
      exact ⟨clean, before.2, {
        chunkBytes := Chunking.toNat_pos positive
        chunkCount := counted
        table := Nat.le_of_not_lt few }⟩

/-- A file whose header describes it and whose payload has the stored checksum,
where that is checked at once. -/
structure Layout (checksums : Checksums) (mapping : List UInt8) : Prop
    extends Geometry mapping where
  payload : (Header.decode mapping).version = formatVersionV1 →
    Matches checksums mapping (Header.decode mapping).dataOffset (Header.decode mapping).dataBytes
      Header.checksumAt

/-- A file that validation accepts. -/
structure Valid (checksums : Checksums) (mapping : List UInt8) : Prop
    extends Layout checksums mapping where
  magic : (Header.decode mapping).magic = magic
  known : (Header.decode mapping).version ∈ [formatVersionV1, formatVersionV2, formatVersionV3]
  committed : (Header.decode mapping).state = stateCommitted

/-- What validation gives to the column opened over the mapping. -/
structure Validated (checksums : Checksums) (mapping : List UInt8) (column : Column) : Prop
    extends Clean checksums mapping column where
  geometry : Geometry mapping
  whole : (Header.decode mapping).version = formatVersionV1 →
    .matched (Header.decode mapping).dataOffset (Header.decode mapping).dataBytes
      Header.checksumAt ∈ column.log

theorem validateLayout_spec (sized : mapping.length ≤ offMax.toNat)
    (paged : 4096 ≤ mapping.length) (size : mappingBytes.toNat = mapping.length)
    (decoded : header = Header.decode mapping) :
    ⦃fun column => ⌜Clean checksums mapping column⌝⦄
    validateLayout checksums header mappingBytes
    ⦃post⟨fun _ column => ⌜Validated checksums mapping column⌝,
      fun _ column => ⌜Clean checksums mapping column ∧ ¬ Layout checksums mapping⌝⟩⦄ := by
  have payload := @validatePayload_spec checksums mapping header decoded
  mvcgen [validateLayout, validateBounds_spec, payload, validateChunkTable_spec]
  case vc7 plain _ before => exact ⟨before.1, before.2, plain⟩
  case vc8 =>
      intro clean bounded plain whole
      rw [decoded] at bounded plain whole
      exact {
        toClean := clean
        geometry := { toBounded := bounded, chunked := fun chunked => (chunked plain).elim }
        whole := fun _ => whole }
  case vc9 plain _ _ _ _ =>
      intro clean differs
      rw [decoded] at plain differs
      exact ⟨clean, fun layout => differs (layout.payload plain)⟩
  case vc11 chunked _ _ _ _ =>
      intro clean bounded table
      rw [decoded] at chunked bounded table
      exact {
        toClean := clean
        geometry := { toBounded := bounded, chunked := fun _ => table }
        whole := fun plain => (chunked plain).elim }
  case vc12 chunked _ _ _ _ =>
      intro clean untabled
      rw [decoded] at chunked untabled
      exact ⟨clean, fun layout => untabled (layout.chunked chunked)⟩
  case vc15 =>
      intro clean unbounded
      rw [decoded] at unbounded
      exact ⟨clean, fun layout => unbounded layout.toBounded⟩

theorem validate_spec (sized : mapping.length ≤ offMax.toNat)
    (paged : 4096 ≤ mapping.length) (size : mappingBytes.toNat = mapping.length) :
    ⦃fun column => ⌜Clean checksums mapping column⌝⦄
    validate checksums mappingBytes
    ⦃post⟨fun _ column => ⌜Validated checksums mapping column⌝,
      fun _ column => ⌜Clean checksums mapping column ∧ ¬ Valid checksums mapping⌝⟩⦄ := by
  mvcgen [validate, readHeader_spec, refuseIf, validateLayout_spec]
  case vc1 clean refused =>
      refine ⟨clean.page paged, fun valid => ?_⟩
      rw [clean.same] at refused
      have known := valid.known
      simp only [List.mem_cons, List.not_mem_nil, or_false] at known
      rcases refused with other | ⟨first, second, third⟩
      · exact other valid.magic
      · tauto
  case vc2 clean _ uncommitted =>
      rw [clean.same] at uncommitted
      exact ⟨clean.page paged, fun valid => uncommitted valid.committed⟩
  case decoded clean _ _ => rw [clean.same]
  case vc8 clean _ _ => exact clean.page paged
  case vc9 => exact fun validated => validated
  case vc10 => exact fun clean refused => ⟨clean, fun valid => refused valid.toLayout⟩

end Validation

end Gambit.MappedColumn
