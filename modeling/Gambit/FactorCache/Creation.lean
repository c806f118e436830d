import Gambit.FactorCache.Geometry
import Gambit.Lib.Triples

/-!
# What creation writes

The fields of a created file are written one after another to ranges that do
not meet, so the file reads back as all of them.
-/

set_option autoImplicit false
set_option mvcgen.warning false

namespace Gambit.MappedColumn

open ByteImages Std.Do

/-- A range of the mapping and the bytes it holds. -/
abbrev Field := Nat × List UInt8

/-- The range of a field does not meet the one of a write. -/
def Field.Apart (field : Field) (offset length : Nat) : Prop :=
  field.1 + field.2.length ≤ offset ∨ offset + length ≤ field.1

/-- A column under creation that holds the given fields. -/
structure Holds (checksums : Checksums) (size : Nat) (fields : List Field) (column : Column) :
    Prop where
  sized : column.mapping.length = size
  quiet : ∀ event ∈ column.log, event.Within size ∧
    ∀ mapping, event.Truthful checksums mapping
  held : ∀ field ∈ fields, load column.mapping field.1 field.2.length = field.2

variable {checksums : Checksums} {size : Nat} {fields : List Field} {column : Column}
  {bytes : List UInt8} {offset dataBytes chunkBytes chunkCount chunk : UInt64}
  {formatVersion : UInt32}

theorem Holds.note {event : Event} (holds : Holds checksums size fields column)
    (within : event.Within size) (quiet : ∀ mapping, event.Truthful checksums mapping) :
    Holds checksums size fields (column.note event) where
  sized := holds.sized
  quiet := by
    intro other member
    rcases List.mem_append.mp member with before | last
    · exact holds.quiet other before
    · rw [List.mem_singleton.mp last]
      exact ⟨within, quiet⟩
  held := holds.held

theorem Holds.sum {x y : UInt64} (holds : Holds checksums size fields column)
    (fits : x.toNat + y.toNat < 2 ^ 64) : Holds checksums size fields (column.note (.sum x y)) :=
  @Holds.note checksums size fields column (.sum x y) holds fits fun _ => trivial

theorem Holds.difference {x y : UInt64} (holds : Holds checksums size fields column)
    (ordered : y.toNat ≤ x.toNat) :
    Holds checksums size fields (column.note (.difference x y)) :=
  @Holds.note checksums size fields column (.difference x y) holds ordered fun _ => trivial

theorem Holds.product {x y : UInt64} (holds : Holds checksums size fields column)
    (fits : x.toNat * y.toNat < 2 ^ 64) :
    Holds checksums size fields (column.note (.product x y)) :=
  @Holds.note checksums size fields column (.product x y) holds fits fun _ => trivial

theorem Holds.quotient {x y : UInt64} (holds : Holds checksums size fields column)
    (positive : 0 < y.toNat) : Holds checksums size fields (column.note (.quotient x y)) :=
  @Holds.note checksums size fields column (.quotient x y) holds positive fun _ => trivial

theorem Holds.read {length : UInt64} (holds : Holds checksums size fields column)
    (inside : Inside size offset length) :
    Holds checksums size fields (column.note (.read offset length)) :=
  @Holds.note checksums size fields column (.read offset length) holds inside fun _ => trivial

theorem Holds.wrote {length : UInt64} (holds : Holds checksums size fields column)
    (inside : Inside size offset length) :
    Holds checksums size fields (column.note (.wrote offset length)) :=
  @Holds.note checksums size fields column (.wrote offset length) holds inside fun _ => trivial

theorem Holds.weaken {fewer : List Field} (holds : Holds checksums size fields column)
    (part : fewer ⊆ fields) : Holds checksums size fewer column where
  sized := holds.sized
  quiet := holds.quiet
  held := fun field member => holds.held field (part member)

/-- A write to a range away from the fields adds one. -/
theorem Holds.stored (holds : Holds checksums size fields column)
    (inside : Inside size offset (UInt64.ofNat bytes.length)) (length : bytes.length < 2 ^ 64)
    (apart : ∀ field ∈ fields, Field.Apart field offset.toNat bytes.length) :
    Holds checksums size ((offset.toNat, bytes) :: fields)
      ((column.note (.wrote offset (UInt64.ofNat bytes.length))).stored offset bytes) := by
  have room : offset.toNat + bytes.length ≤ column.mapping.length := by
    have count : (UInt64.ofNat bytes.length).toNat = bytes.length :=
      UInt64.toNat_ofNat_of_lt' length
    unfold Inside at inside
    rw [count] at inside
    rw [holds.sized]
    omega
  exact {
    sized := by
      change (store column.mapping offset.toNat bytes).length = size
      rw [length_store room, holds.sized]
    quiet := (holds.wrote inside).quiet
    held := by
      intro field member
      change load (store column.mapping offset.toNat bytes) _ _ = _
      rcases List.mem_cons.mp member with here | before
      · rw [here]
        exact load_store_same room
      · rw [load_store_away room (apart field before)]
        exact holds.held field before }

theorem writeBytes_spec (inside : Inside size offset (UInt64.ofNat bytes.length))
    (length : bytes.length < 2 ^ 64)
    (apart : ∀ field ∈ fields, Field.Apart field offset.toNat bytes.length) :
    ⦃fun column => ⌜Holds checksums size fields column⌝⦄
    writeBytes offset bytes
    ⦃⇓ _ column => ⌜Holds checksums size ((offset.toNat, bytes) :: fields) column⌝⦄ := by
  mvcgen [writeBytes, emit, update]
  case vc1 column holds => exact holds.stored inside length apart

/-- A field of the header below an offset, or of the payload. -/
def Field.Clear (offset : Nat) (field : Field) : Prop :=
  field.1 + field.2.length ≤ offset ∨ 4096 ≤ field.1

theorem Field.Clear.apart {field : Field} {start : Nat} (clear : field.Clear start)
    (low : start + 8 ≤ 4096) : field.Apart start 8 := by
  rcases clear with before | behind
  · exact .inl before
  · exact .inr (low.trans behind)

theorem word_clear {start limit : Nat} (word : UInt64) (below : start + 8 ≤ limit) :
    Field.Clear limit (start, bytes64 word) := by
  left
  rw [length_bytes64]
  exact below

theorem writeWord_spec {word : UInt64} (inside : Inside size offset sizeofUint64)
    (apart : ∀ field ∈ fields, Field.Apart field offset.toNat 8) :
    ⦃fun column => ⌜Holds checksums size fields column⌝⦄
    writeBytes offset (bytes64 word)
    ⦃⇓ _ column => ⌜Holds checksums size ((offset.toNat, bytes64 word) :: fields) column⌝⦄ := by
  apply writeBytes_spec
  · rw [length_bytes64]
    exact inside
  · rw [length_bytes64]
    decide
  · rw [length_bytes64]
    exact apart

/-! ## The chunk table -/

/-- The checksum stored for a chunk of a payload. -/
def tableEntry (checksums : Checksums) (formatVersion : UInt32) (payload : List UInt8)
    (chunkBytes : UInt64) (k : Nat) : Field :=
  (64 + 8 * k, bytes64 (checksums.forVersion formatVersion
    (load payload (k * chunkBytes.toNat)
      (Chunking.lengthOf payload.length chunkBytes.toNat k))))

def tableEntries (checksums : Checksums) (formatVersion : UInt32) (payload : List UInt8)
    (chunkBytes : UInt64) (count : Nat) : List Field :=
  (List.range count).map (tableEntry checksums formatVersion payload chunkBytes)

theorem writeChecksum_spec {payload : List UInt8}
    (placed : ChunkPlaced headerBytes chunkBytes dataBytes size chunk)
    (whole : dataBytes.toNat = payload.length) (stored : (4096, payload) ∈ fields)
    (inside : chunk.toNat < Chunking.count payload.length chunkBytes.toNat)
    (apart : ∀ field ∈ fields, Field.Apart field (64 + 8 * chunk.toNat) 8) :
    ⦃fun column => ⌜Holds checksums size fields column⌝⦄
    writeChecksum checksums formatVersion dataBytes chunkBytes chunk
    ⦃⇓ _ column => ⌜Holds checksums size
      (tableEntry checksums formatVersion payload chunkBytes chunk.toNat :: fields) column⌝⦄ := by
  have stepped (before : Column) (holds : Holds checksums size fields before) :=
    (((((holds.product placed.product).difference placed.before).sum placed.sum).read
      placed.inside).product placed.scaled).sum placed.behind
  have last := @writeWord_spec checksums size fields
  mvcgen [writeChecksum, emit, update, times, minus, plus, readBytes, checksumSlot, last]
  case inside => exact placed.tabled
  case apart =>
      rw [placed.slot]
      exact apart
  case vc3 column holds => exact stepped column holds
  case vc4 column holds _ _ =>
      have part : load column.mapping (headerBytes + chunk * chunkBytes).toNat
          (min chunkBytes (dataBytes - chunk * chunkBytes)).toNat =
          load payload (chunk.toNat * chunkBytes.toNat)
            (Chunking.lengthOf payload.length chunkBytes.toNat chunk.toNat) := by
        have payloadHeld := holds.held _ stored
        rw [placed.place, placed.length, whole,
          ← load_load (Chunking.end_le inside), payloadHeld]
      simp only [note_mapping, part, placed.slot]
      exact fun now => now

theorem tableEntries_succ {payload : List UInt8} (k : Nat) :
    tableEntries checksums formatVersion payload chunkBytes (k + 1) =
      tableEntries checksums formatVersion payload chunkBytes k ++
        [tableEntry checksums formatVersion payload chunkBytes k] := by
  simp only [tableEntries, List.range_succ, List.map_append, List.map_singleton]

/-- The next checksum is behind those written and before the payload. -/
theorem entry_apart {payload : List UInt8} {k : Nat} (few : k < 504)
    (clear : ∀ field ∈ fields, field.Clear 64) :
    ∀ field ∈ tableEntries checksums formatVersion payload chunkBytes k ++ fields,
      Field.Apart field (64 + 8 * k) 8 := by
  intro field member
  rcases List.mem_append.mp member with entry | other
  · obtain ⟨j, below, rfl⟩ := List.mem_map.mp entry
    have before := List.mem_range.mp below
    left
    change 64 + 8 * j + (bytes64 _).length ≤ _
    rw [length_bytes64]
    omega
  · rcases clear field other with before | behind
    · exact .inl (by omega)
    · exact .inr (by omega)

theorem writeChecksums_spec {payload : List UInt8} {rounds : Nat}
    (reach : 4096 + dataBytes.toNat ≤ size) (sized : size < 2 ^ 64)
    (whole : dataBytes.toNat = payload.length) (stored : (4096, payload) ∈ fields)
    (counted : chunkCount.toNat = Chunking.count payload.length chunkBytes.toNat)
    (few : chunkCount.toNat ≤ 504) (clear : ∀ field ∈ fields, field.Clear 64)
    (bounded : chunk.toNat ≤ chunkCount.toNat)
    (enough : chunkCount.toNat + 1 ≤ chunk.toNat + rounds) :
    ⦃fun column => ⌜Holds checksums size
      (tableEntries checksums formatVersion payload chunkBytes chunk.toNat ++ fields) column⌝⦄
    writeChecksums checksums formatVersion dataBytes chunkBytes chunkCount rounds chunk
    ⦃⇓ _ column => ⌜Holds checksums size
      (tableEntries checksums formatVersion payload chunkBytes chunkCount.toNat ++ fields)
        column⌝⦄ := by
  induction rounds generalizing chunk with
  | zero => omega
  | succ rounds ih =>
      have next : chunk < chunkCount → (chunk + 1).toNat = chunk.toNat + 1 := by
        intro within
        have small := UInt64.lt_iff_toNat_lt.mp within
        apply Chunking.toNat_add_of_fits
        change chunk.toNat + 1 < 2 ^ 64
        omega
      have body (within : chunk < chunkCount) :=
        have below := UInt64.lt_iff_toNat_lt.mp within
        have inside : chunk.toNat < Chunking.count payload.length chunkBytes.toNat :=
          counted ▸ below
        @writeChecksum_spec checksums size
          (tableEntries checksums formatVersion payload chunkBytes chunk.toNat ++ fields)
          dataBytes chunkBytes chunk formatVersion payload
          (chunkPlaced rfl reach sized (whole ▸ inside) (by omega)) whole
          (List.mem_append_right _ stored) inside (entry_apart (by omega) clear)
      mvcgen [writeChecksums, emit, update, plus, body, ih]
      case bounded within _ _ _ _ _ =>
          have below := UInt64.lt_iff_toNat_lt.mp within
          rw [next within]
          omega
      case enough within _ _ _ _ _ =>
          rw [next within]
          omega
      case vc5 within _ _ _ after holds =>
          have below := UInt64.lt_iff_toNat_lt.mp within
          have fits : chunk.toNat + (1 : UInt64).toNat < 2 ^ 64 := by
            change chunk.toNat + 1 < 2 ^ 64
            omega
          rw [next within, tableEntries_succ]
          apply (holds.weaken _).sum fits
          intro field member
          simp only [List.mem_append, List.mem_cons] at member ⊢
          tauto
      case vc6 beyond column holds =>
          rw [UInt64.lt_iff_toNat_lt] at beyond
          have last : chunk.toNat = chunkCount.toNat := by omega
          rw [← last]
          exact holds

theorem minimumChunkBytes_spec (sized : dataBytes.toNat ≤ offMax.toNat) :
    ⦃fun column => ⌜Holds checksums size fields column⌝⦄
    minimumChunkBytes dataBytes
    ⦃⇓ least column => ⌜Holds checksums size fields column ∧
      least.toNat = 1 + (dataBytes.toNat - 1) / 504⌝⦄ := by
  have one : (1 : UInt64).toNat = 1 := rfl
  have most : maximumChunks.toNat = 504 := rfl
  have small : dataBytes.toNat ≤ 9223372036854775807 := sized
  mvcgen [minimumChunkBytes, emit, update, minus, plus, dividedBy]
  case vc1 empty column holds =>
      refine ⟨holds, ?_⟩
      rw [empty]
      rfl
  case vc2 nonempty column holds =>
      have ordered : (1 : UInt64).toNat ≤ dataBytes.toNat := Chunking.toNat_pos nonempty
      have share : ((dataBytes - 1) / maximumChunks).toNat = (dataBytes.toNat - 1) / 504 := by
        rw [UInt64.toNat_div, Chunking.toNat_sub_of_le ordered, most, one]
      have smaller := Nat.div_le_self (dataBytes.toNat - 1) 504
      have fits : (1 : UInt64).toNat + ((dataBytes - 1) / maximumChunks).toNat < 2 ^ 64 := by
        rw [share, one]
        omega
      refine ⟨((holds.difference ordered).quotient (by decide)).sum fits, ?_⟩
      rw [Chunking.toNat_add_of_fits fits, share, one]

theorem chunksWritten_spec (positive : 0 < chunkBytes.toNat)
    (fits : dataBytes.toNat + chunkBytes.toNat < 2 ^ 64) :
    ⦃fun column => ⌜Holds checksums size fields column⌝⦄
    chunksWritten dataBytes chunkBytes
    ⦃⇓ count column => ⌜Holds checksums size fields column ∧
      count.toNat = Chunking.count dataBytes.toNat chunkBytes.toNat⌝⦄ := by
  mvcgen [chunksWritten, emit, update, minus, plus, dividedBy]
  case vc1 empty column holds =>
      refine ⟨holds, ?_⟩
      rw [empty]
      exact (Chunking.count_zero _).symm
  case vc2 nonempty column holds =>
      have reach := Chunking.toNat_add_of_fits fits
      have ordered : (1 : UInt64).toNat ≤ (dataBytes + chunkBytes).toNat := by
        rw [reach]
        change 1 ≤ _
        omega
      refine ⟨((holds.sum fits).difference ordered).quotient positive, ?_⟩
      rw [UInt64.toNat_div, Chunking.toNat_sub_of_le ordered, reach]
      exact Chunking.roundedUp_eq_count positive (Chunking.toNat_pos nonempty)

/-- The fields of a header with its chunk table. -/
def tableFields (checksums : Checksums) (formatVersion : UInt32) (payload : List UInt8)
    (chunkBytes chunkCount : UInt64) : List Field :=
  tableEntries checksums formatVersion payload chunkBytes chunkCount.toNat ++
    [(56, bytes64 chunkCount), (48, bytes64 chunkBytes)]

theorem writeChunks_spec {payload : List UInt8}
    (reach : 4096 + dataBytes.toNat ≤ size) (sized : size < 2 ^ 64)
    (whole : dataBytes.toNat = payload.length) (stored : (4096, payload) ∈ fields)
    (clear : ∀ field ∈ fields, field.Clear 48) (positive : 0 < chunkBytes.toNat)
    (fits : dataBytes.toNat + chunkBytes.toNat < 2 ^ 64)
    (few : Chunking.count dataBytes.toNat chunkBytes.toNat ≤ 504) :
    ⦃fun column => ⌜Holds checksums size fields column⌝⦄
    writeChunks checksums formatVersion dataBytes chunkBytes
    ⦃⇓ _ column => ⌜∃ chunkCount : UInt64,
      chunkCount.toNat = Chunking.count dataBytes.toNat chunkBytes.toNat ∧
      Holds checksums size
        (tableFields checksums formatVersion payload chunkBytes chunkCount ++ fields) column⌝⦄ := by
  have page : 4096 ≤ size := by omega
  have later {offset : Nat} (low : 48 ≤ offset) {field : Field} (clear : field.Clear 48) :
      field.Clear offset := by
    rcases clear with before | behind
    · exact .inl (before.trans low)
    · exact .inr behind
  have first := @writeWord_spec checksums size fields Header.chunkBytesAt chunkBytes
    (.inl ⟨page, by decide⟩) fun field member => (clear field member).apart (by decide)
  have second := @chunksWritten_spec checksums size
    ((Header.chunkBytesAt.toNat, bytes64 chunkBytes) :: fields) dataBytes chunkBytes positive fits
  have third (chunkCount : UInt64) := @writeWord_spec checksums size
    ((Header.chunkBytesAt.toNat, bytes64 chunkBytes) :: fields) Header.chunkCountAt chunkCount
    (.inl ⟨page, by decide⟩) (by
      intro field member
      rcases List.mem_cons.mp member with rfl | other
      · exact (word_clear chunkBytes (by decide)).apart (by decide)
      · exact (later (by decide) (clear field other)).apart (by decide))
  have last (chunkCount : UInt64) (counted : chunkCount.toNat =
      Chunking.count dataBytes.toNat chunkBytes.toNat) := @writeChecksums_spec checksums size
    ((Header.chunkCountAt.toNat, bytes64 chunkCount) ::
      (Header.chunkBytesAt.toNat, bytes64 chunkBytes) :: fields)
    dataBytes chunkBytes chunkCount 0 formatVersion payload (chunkCount.toNat + 1) reach sized whole
    (List.mem_cons_of_mem _ (List.mem_cons_of_mem _ stored)) (whole ▸ counted) (counted ▸ few) (by
      intro field member
      rcases List.mem_cons.mp member with rfl | other
      · exact word_clear chunkCount (by decide)
      · rcases List.mem_cons.mp other with rfl | early
        · exact word_clear chunkBytes (by decide)
        · exact later (by decide) (clear field early))
    (Nat.zero_le _) (by omega)
  mvcgen [writeChunks, first, second, third, last]
  case vc3 computed => exact computed.1
  case vc5 chunkCount _ computed _ _ _ _ _ =>
      intro holds
      refine ⟨chunkCount, computed.2, ?_⟩
      rw [tableFields, List.append_assoc]
      exact holds
  case vc6 computed _ => exact fun _ _ => computed.2

theorem writeChunkTable_spec {payload : List UInt8}
    (reach : 4096 + dataBytes.toNat ≤ size) (sized : size ≤ offMax.toNat)
    (whole : dataBytes.toNat = payload.length) (stored : (4096, payload) ∈ fields)
    (clear : ∀ field ∈ fields, field.Clear 48) :
    ⦃fun column => ⌜Holds checksums size fields column⌝⦄
    writeChunkTable checksums formatVersion dataBytes
    ⦃⇓ _ column => ⌜∃ chunkBytes chunkCount : UInt64, 0 < chunkBytes.toNat ∧
      chunkCount.toNat = Chunking.count dataBytes.toNat chunkBytes.toNat ∧
      chunkCount.toNat ≤ 504 ∧
      Holds checksums size
        (tableFields checksums formatVersion payload chunkBytes chunkCount ++ fields) column⌝⦄ := by
  have small : size ≤ 9223372036854775807 := sized
  have room : dataBytes.toNat ≤ offMax.toNat := by
    change dataBytes.toNat ≤ 9223372036854775807
    omega
  have first := @minimumChunkBytes_spec checksums size fields dataBytes room
  have large (least : UInt64) (computed : least.toNat = 1 + (dataBytes.toNat - 1) / 504) :
      1 + (dataBytes.toNat - 1) / 504 ≤ (max defaultChunkBytes least).toNat ∧
        dataBytes.toNat + (max defaultChunkBytes least).toNat < 2 ^ 64 := by
    have default : defaultChunkBytes.toNat = 262144 := rfl
    have smaller := Nat.div_le_self (dataBytes.toNat - 1) 504
    rw [Chunking.toNat_max, default, computed]
    omega
  have second (least : UInt64) (computed : least.toNat = 1 + (dataBytes.toNat - 1) / 504) :=
    @writeChunks_spec checksums size fields dataBytes (max defaultChunkBytes least) formatVersion
      payload reach (by omega) whole stored clear
      (lt_of_lt_of_le (by omega) (large least computed).1) (large least computed).2
      (Chunking.count_le (by decide) (large least computed).1)
  mvcgen [writeChunkTable, first, second]
  case vc2 computed => exact computed.1
  case vc3 least _ computed _ _ =>
      intro written
      obtain ⟨chunkCount, counted, holds⟩ := written
      have enough := large least computed.2
      refine ⟨_, chunkCount, lt_of_lt_of_le (by omega) enough.1, counted, ?_, holds⟩
      rw [counted]
      exact Chunking.count_le (by decide) enough.1
  case vc4 => exact fun _ _ computed => computed

/-! ## The page and the payload -/

/-- The fields of the first page and the payload. -/
def pageFields (checksums : Checksums) (formatVersion : UInt32) (payload : List UInt8)
    (rows dataBytes : UInt64) : List Field :=
  [(40, bytes64 (checksums.forVersion formatVersion payload)), (4096, payload),
    (32, bytes64 dataBytes), (24, bytes64 headerBytes), (16, bytes64 rows),
    (8, bytes32 formatVersion), (0, magic)]

theorem writePage_spec {values : List UInt64} {rows : UInt64}
    (reach : 4096 + dataBytes.toNat = size) (sized : size < 2 ^ 64)
    (whole : dataBytes.toNat = (words values).length) :
    ⦃fun column => ⌜Holds checksums size [] column⌝⦄
    writePage checksums values formatVersion rows dataBytes
    ⦃⇓ _ column => ⌜Holds checksums size
      (pageFields checksums formatVersion (words values) rows dataBytes) column⌝⦄ := by
  have page : 4096 ≤ size := by omega
  have zeros := @writeBytes_spec checksums size [] (List.replicate headerBytes.toNat 0) 0
    (.inl ⟨page, by rw [List.length_replicate]; decide⟩)
    (by rw [List.length_replicate]; decide) (fun _ none => (List.not_mem_nil none).elim)
  have first := @writeBytes_spec checksums size [] magic Header.magicAt
    (.inl ⟨page, by decide⟩) (by decide) (fun _ none => (List.not_mem_nil none).elim)
  have second := @writeBytes_spec checksums size [(0, magic)] (bytes32 formatVersion)
    Header.versionAt (.inl ⟨page, by rw [length_bytes32]; decide⟩)
    (by rw [length_bytes32]; decide) (by
      intro field member
      rw [List.mem_singleton.mp member]
      exact .inl (by decide))
  have third := @writeWord_spec checksums size
    [(8, bytes32 formatVersion), (0, magic)] Header.rowCountAt rows
    (.inl ⟨page, by decide⟩) (by simp [Field.Apart, Header.rowCountAt, magic])
  have fourth := @writeWord_spec checksums size
    [(16, bytes64 rows), (8, bytes32 formatVersion), (0, magic)] Header.dataOffsetAt headerBytes
    (.inl ⟨page, by decide⟩) (by simp [Field.Apart, Header.dataOffsetAt, magic])
  have fifth := @writeWord_spec checksums size
    [(24, bytes64 headerBytes), (16, bytes64 rows), (8, bytes32 formatVersion), (0, magic)]
    Header.dataBytesAt dataBytes
    (.inl ⟨page, by decide⟩) (by simp [Field.Apart, Header.dataBytesAt, magic])
  have payload := @writeBytes_spec checksums size
    [(32, bytes64 dataBytes), (24, bytes64 headerBytes), (16, bytes64 rows),
      (8, bytes32 formatVersion), (0, magic)]
    (words values) headerBytes
    (by
      have count : (UInt64.ofNat (words values).length).toNat = (words values).length :=
        UInt64.toNat_ofNat_of_lt' (by change _ < 2 ^ 64; omega)
      right
      rw [count]
      exact ⟨le_rfl, by rw [← whole]; exact reach.le⟩)
    (by omega) (by simp [Field.Apart, headerBytes, magic])
  have last (sum : UInt64) := @writeWord_spec checksums size
    [(4096, words values), (32, bytes64 dataBytes), (24, bytes64 headerBytes),
      (16, bytes64 rows), (8, bytes32 formatVersion), (0, magic)]
    Header.checksumAt sum
    (.inl ⟨page, by decide⟩) (by simp [Field.Apart, Header.checksumAt, magic])
  mvcgen [writePage, readBytes, emit, update, zeros, first, second, third, fourth, fifth, payload,
    last]
  case vc2 holds => exact holds.weaken (List.nil_subset _)
  case vc8 holds =>
      apply holds.read
      exact .inr ⟨le_rfl, reach.le⟩
  case vc9 column holds _ _ =>
      have data : load column.mapping headerBytes.toNat dataBytes.toNat = words values := by
        rw [whole]
        exact holds.held (4096, words values) (List.mem_cons_self ..)
      rw [note_mapping, data]
      exact fun now => now

/-- The chunked versions have the fields of a chunk table. -/
def Tabled (checksums : Checksums) (formatVersion : UInt32) (payload : List UInt8)
    (table : List Field) : Prop :=
  formatVersion ≠ formatVersionV1 → ∃ chunkBytes chunkCount : UInt64, 0 < chunkBytes.toNat ∧
    chunkCount.toNat = Chunking.count payload.length chunkBytes.toNat ∧
    chunkCount.toNat ≤ 504 ∧
    table = tableFields checksums formatVersion payload chunkBytes chunkCount

theorem tableFields_low {payload : List UInt8} :
    ∀ field ∈ tableFields checksums formatVersion payload chunkBytes chunkCount,
      48 ≤ field.1 := by
  intro field member
  rcases List.mem_append.mp member with entry | header
  · obtain ⟨k, _, rfl⟩ := List.mem_map.mp entry
    change 48 ≤ 64 + 8 * k
    omega
  · simp only [List.mem_cons, List.not_mem_nil, or_false] at header
    rcases header with rfl | rfl
    · exact (by decide : 48 ≤ 56)
    · exact le_rfl

/-- A written file, before and after its state is set. -/
def Written (checksums : Checksums) (values : List UInt64) (formatVersion : UInt32)
    (rows dataBytes : UInt64) (committed : List Field) (column : Column) : Prop :=
  ∃ table, Tabled checksums formatVersion (words values) table ∧
    (∀ field ∈ table, 48 ≤ field.1) ∧
    Holds checksums (4096 + dataBytes.toNat) (committed ++ (table ++
      pageFields checksums formatVersion (words values) rows dataBytes)) column

theorem writeSegment_spec {values : List UInt64} {rows : UInt64}
    (sized : 4096 + dataBytes.toNat ≤ offMax.toNat)
    (whole : dataBytes.toNat = (words values).length)
    (known : formatVersion ∈ [formatVersionV1, formatVersionV2, formatVersionV3]) :
    ⦃fun column => ⌜Holds checksums (4096 + dataBytes.toNat) [] column⌝⦄
    writeSegment checksums values formatVersion rows dataBytes
    ⦃⇓ _ column => ⌜Written checksums values formatVersion rows dataBytes [] column⌝⦄ := by
  have small : 4096 + dataBytes.toNat < 2 ^ 64 := lt_of_le_of_lt sized (by decide)
  have first := @writePage_spec checksums (4096 + dataBytes.toNat) dataBytes formatVersion values
    rows rfl small whole
  have second := @writeChunkTable_spec checksums (4096 + dataBytes.toNat)
    (pageFields checksums formatVersion (words values) rows dataBytes) dataBytes formatVersion
    (words values) le_rfl sized whole (by simp [pageFields])
    (by simp [pageFields, Field.Clear, magic])
  mvcgen [writeSegment, first, second]
  case vc3 =>
      rintro ⟨chunkBytes, chunkCount, positive, counted, few, holds⟩
      rw [whole] at counted
      exact ⟨_, fun _ => ⟨chunkBytes, chunkCount, positive, counted, few, rfl⟩,
        tableFields_low, holds⟩
  case vc4 plain column holds =>
      refine ⟨[], fun chunked => ?_, fun _ none => (List.not_mem_nil none).elim, holds⟩
      simp only [List.mem_cons, List.not_mem_nil, or_false] at known
      tauto

/-- A file as creation leaves it. -/
structure Created (checksums : Checksums) (values : List UInt64) (formatVersion : UInt32)
    (column : Column) : Prop where
  sized : column.mapping.length = 4096 + 8 * values.length
  bounded : column.mapping.length ≤ offMax.toNat
  quiet : ∀ event ∈ column.log, event.Within column.mapping.length ∧
    ∀ mapping, event.Truthful checksums mapping
  magic : (Header.decode column.mapping).magic = magic
  version : (Header.decode column.mapping).version = formatVersion
  state : (Header.decode column.mapping).state = stateCommitted
  rowCount : (Header.decode column.mapping).rowCount.toNat = values.length
  dataOffset : (Header.decode column.mapping).dataOffset = headerBytes
  dataBytes : (Header.decode column.mapping).dataBytes.toNat = 8 * values.length
  checksum : (Header.decode column.mapping).checksum =
    checksums.forVersion formatVersion (words values)
  payload : load column.mapping 4096 (8 * values.length) = words values
  chunked : formatVersion ≠ formatVersionV1 → Chunked (Header.decode column.mapping)
  entries : formatVersion ≠ formatVersionV1 →
    ∀ k, k < (Header.decode column.mapping).chunkCount.toNat →
      word64 (load column.mapping (64 + 8 * k) 8) = checksums.forVersion formatVersion
        (load (words values) (k * (Header.decode column.mapping).chunkBytes.toNat)
          (Chunking.lengthOf (8 * values.length)
            (Header.decode column.mapping).chunkBytes.toNat k))
  flags : formatVersion ≠ formatVersionV1 →
    column.verified.length = (Header.decode column.mapping).chunkCount.toNat

section Fields

variable {values : List UInt64} {rows : UInt64}

/-- The fields of a committed file are those of its header. -/
theorem Written.created
    (written : Written checksums values formatVersion rows dataBytes
      [(12, bytes32 stateCommitted)] column)
    (sized : 4096 + dataBytes.toNat ≤ offMax.toNat)
    (rowCount : rows.toNat = values.length) (whole : dataBytes.toNat = 8 * values.length)
    (flags : (Header.decode column.mapping).version ≠ formatVersionV1 →
      column.verified.length = (Header.decode column.mapping).chunkCount.toNat) :
    Created checksums values formatVersion column := by
  obtain ⟨table, tabled, _, holds⟩ := written
  have page (field : Field) (member : field ∈
      pageFields checksums formatVersion (words values) rows dataBytes) :=
    holds.held field (List.mem_append_right _ (List.mem_append_right _ member))
  have magicHeld := page (0, magic) (by simp [pageFields])
  have versionHeld := page (8, bytes32 formatVersion) (by simp [pageFields])
  have rowCountHeld := page (16, bytes64 rows) (by simp [pageFields])
  have dataOffsetHeld := page (24, bytes64 headerBytes) (by simp [pageFields])
  have dataBytesHeld := page (32, bytes64 dataBytes) (by simp [pageFields])
  have checksumHeld := page (40, bytes64 (checksums.forVersion formatVersion (words values)))
    (by simp [pageFields])
  have payloadHeld := page (4096, words values) (by simp [pageFields])
  have stateHeld := holds.held (12, bytes32 stateCommitted) (by simp)
  simp only [length_bytes64, length_bytes32] at versionHeld rowCountHeld stateHeld
  simp only [length_bytes64, length_words] at dataOffsetHeld dataBytesHeld checksumHeld payloadHeld
  have version : (Header.decode column.mapping).version = formatVersion := by
    change word32 (load column.mapping 8 4) = _
    rw [versionHeld, word32_bytes32]
  have bytes : (Header.decode column.mapping).dataBytes.toNat = 8 * values.length := by
    change (word64 (load column.mapping 32 8)).toNat = _
    rw [dataBytesHeld, word64_bytes64, whole]
  have chunks (chunked : formatVersion ≠ formatVersionV1) :
      Chunked (Header.decode column.mapping) ∧
      ∀ k, k < (Header.decode column.mapping).chunkCount.toNat →
        tableEntry checksums formatVersion (words values)
          (Header.decode column.mapping).chunkBytes k ∈ table := by
    obtain ⟨chunkBytes, chunkCount, positive, counted, few, rfl⟩ := tabled chunked
    have entry (field : Field) (member : field ∈ tableFields checksums formatVersion
        (words values) chunkBytes chunkCount) :=
      holds.held field (List.mem_append_right _ (List.mem_append_left _ member))
    have sizeHeld := entry (48, bytes64 chunkBytes) (by simp [tableFields])
    have countHeld := entry (56, bytes64 chunkCount) (by simp [tableFields])
    simp only [length_bytes64] at sizeHeld countHeld
    have size : (Header.decode column.mapping).chunkBytes = chunkBytes := by
      change word64 (load column.mapping 48 8) = _
      rw [sizeHeld, word64_bytes64]
    have count : (Header.decode column.mapping).chunkCount = chunkCount := by
      change word64 (load column.mapping 56 8) = _
      rw [countHeld, word64_bytes64]
    rw [length_words] at counted
    refine ⟨{ chunkBytes := ?_, chunkCount := ?_, table := ?_ }, fun k below => ?_⟩
    · rw [size]
      exact positive
    · rw [count, size, bytes, counted]
    · rw [count]
      exact few
    · rw [count] at below
      rw [size]
      exact List.mem_append_left _ (List.mem_map.mpr ⟨k, List.mem_range.mpr below, rfl⟩)
  exact {
    sized := by rw [holds.sized, whole]
    bounded := by
      rw [holds.sized]
      exact sized
    quiet := by
      rw [holds.sized]
      exact holds.quiet
    magic := magicHeld
    version := version
    state := by
      change word32 (load column.mapping 12 4) = _
      rw [stateHeld, word32_bytes32]
    rowCount := by
      change (word64 (load column.mapping 16 8)).toNat = _
      rw [rowCountHeld, word64_bytes64, rowCount]
    dataOffset := by
      change word64 (load column.mapping 24 8) = _
      rw [dataOffsetHeld, word64_bytes64]
    dataBytes := bytes
    checksum := by
      change word64 (load column.mapping 40 8) = _
      rw [checksumHeld, word64_bytes64]
    payload := payloadHeld
    chunked := fun chunked => (chunks chunked).1
    entries := by
      intro chunked k below
      have held := holds.held _ (List.mem_append_right _ (List.mem_append_left _
        ((chunks chunked).2 k below)))
      simp only [tableEntry, length_bytes64] at held
      rw [held, word64_bytes64, length_words]
    flags := fun chunked => flags (version ▸ chunked) }

end Fields

theorem writeState_spec {values : List UInt64} {rows : UInt64} :
    ⦃fun column => ⌜Written checksums values formatVersion rows dataBytes [] column⌝⦄
    writeBytes Header.stateAt (bytes32 stateCommitted)
    ⦃⇓ _ column => ⌜Written checksums values formatVersion rows dataBytes
      [(12, bytes32 stateCommitted)] column⌝⦄ := by
  have apart : ∀ field ∈ pageFields checksums formatVersion (words values) rows dataBytes,
      Field.Apart field Header.stateAt.toNat (bytes32 stateCommitted).length := by
    simp [pageFields, Field.Apart, Header.stateAt, magic]
  mvcgen [writeBytes, emit, update]
  case vc1 column written =>
      obtain ⟨table, tabled, low, holds⟩ := written
      refine ⟨table, tabled, low, ?_⟩
      refine @Holds.stored checksums _ _ column (bytes32 stateCommitted) Header.stateAt holds
        (.inl ⟨Nat.le_add_right _ _, by decide⟩) (by decide) ?_
      intro field member
      change field ∈ table ++ _ at member
      rcases List.mem_append.mp member with entry | page
      · right
        rw [length_bytes32]
        exact le_trans (by decide) (low field entry)
      · exact apart field page

theorem commitSegment_spec {calls : CreateCalls} {values : List UInt64} {rows : UInt64}
    (sized : 4096 + dataBytes.toNat ≤ offMax.toNat) (rowCount : rows.toNat = values.length)
    (whole : dataBytes.toNat = 8 * values.length) :
    ⦃fun column => ⌜Written checksums values formatVersion rows dataBytes [] column⌝⦄
    commitSegment calls
    ⦃post⟨fun _ column => ⌜Created checksums values formatVersion column⌝, fun _ _ => ⌜True⌝⟩⦄ := by
  have write := @writeState_spec checksums dataBytes formatVersion values rows
  mvcgen [commitSegment, refuseIf, write, construct, readHeader_spec, update]
  case vc2 column written _ _ count flag =>
      obtain ⟨table, tabled, low, holds⟩ := written
      have read := @Holds.read checksums _ _ column 0 sizeofHeader holds
        (.inl ⟨Nat.le_add_right _ _, by decide⟩)
      refine Written.created ⟨table, tabled, low, ⟨read.sized, read.quiet, read.held⟩⟩ sized
        rowCount whole fun chunked => ?_
      change (Header.decode column.mapping).version ≠ formatVersionV1 at chunked
      change (List.replicate count.toNat flag).length =
        (Header.decode column.mapping).chunkCount.toNat
      simp only [count, if_neg chunked, List.length_replicate]

/-- The sizes of a column that is not refused. -/
structure Sizes (count : Nat) (rows : UInt64) : Prop where
  length : rows.toNat = count
  product : rows.toNat * sizeofDouble.toNat < 2 ^ 64
  dataBytes : (rows * sizeofDouble).toNat = 8 * count
  sum : headerBytes.toNat + (rows * sizeofDouble).toNat < 2 ^ 64
  reach : 4096 + (rows * sizeofDouble).toNat ≤ offMax.toNat

theorem sizes {count : Nat} (few : ¬ (uint64Max / sizeofDouble).toNat < count)
    (fits : ¬ (uint64Max - headerBytes < UInt64.ofNat count * sizeofDouble ∨
      offMax - headerBytes < UInt64.ofNat count * sizeofDouble)) :
    Sizes count (UInt64.ofNat count) := by
  have most : (uint64Max / sizeofDouble).toNat = 2305843009213693951 := rfl
  have room : (offMax - headerBytes).toNat = 9223372036854771711 := rfl
  have limit : offMax.toNat = 9223372036854775807 := rfl
  have page : headerBytes.toNat = 4096 := rfl
  have word : sizeofDouble.toNat = 8 := rfl
  have rows : (UInt64.ofNat count).toNat = count :=
    UInt64.toNat_ofNat_of_lt' (by change _ < 2 ^ 64; omega)
  have product : (UInt64.ofNat count).toNat * sizeofDouble.toNat < 2 ^ 64 := by
    rw [rows, word]
    omega
  have bytes : (UInt64.ofNat count * sizeofDouble).toNat = 8 * count := by
    rw [Chunking.toNat_mul_of_fits product, rows, word, Nat.mul_comm]
  rw [not_or, UInt64.lt_iff_toNat_lt, UInt64.lt_iff_toNat_lt, bytes, room] at fits
  exact {
    length := rows
    product := product
    dataBytes := bytes
    sum := by
      rw [page, bytes]
      omega
    reach := by
      rw [bytes, limit]
      omega }

theorem createImpl_spec {calls : CreateCalls} {values : List UInt64}
    (known : formatVersion ∈ [formatVersionV1, formatVersionV2, formatVersionV3]) :
    ⦃fun column => ⌜column = Column.empty⌝⦄
    createImpl checksums calls values formatVersion
    ⦃post⟨fun _ column => ⌜Created checksums values formatVersion column⌝, fun _ _ => ⌜True⌝⟩⦄ := by
  mvcgen [createImpl, refuseIf, times, plus, emit, update, resize, writeSegment_spec,
    commitSegment_spec]
  case sized few _ fits _ _ _ => exact (sizes few fits).reach
  case whole few _ fits _ _ _ =>
      rw [length_words]
      exact (sizes few fits).dataBytes
  case vc4 column fresh few rows fits _ _ _ =>
      have sized := sizes few fits
      have none : column.log = [] := by
        rw [fresh]
        rfl
      have opened : Holds checksums (4096 + (rows * sizeofDouble).toNat) []
          { column with mapping := List.replicate (headerBytes + rows * sizeofDouble).toNat 0 } := {
        sized := by
          rw [List.length_replicate, Chunking.toNat_add_of_fits sized.sum]
          rfl
        quiet := by
          change ∀ event ∈ column.log, _
          rw [none]
          exact fun event member => (List.not_mem_nil member).elim
        held := fun field member => (List.not_mem_nil member).elim }
      exact (opened.product sized.product).sum sized.sum
  case vc8 few _ fits _ _ _ _ => exact fun _ _ => (sizes few fits).reach
  case vc9 few _ fits _ _ _ _ => exact fun _ _ => (sizes few fits).length
  case vc10 few _ fits _ _ _ _ => exact fun _ _ => (sizes few fits).dataBytes

end Gambit.MappedColumn
