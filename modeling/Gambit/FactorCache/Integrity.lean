import Gambit.FactorCache.Verification

/-!
# Files of any content

Opening accepts a file whose header describes it and then keeps the invariant of
opened columns over every sequence of calls, so a view is of verified bytes and
a chunk that fails its check fails it again.
-/

set_option autoImplicit false
set_option mvcgen.warning false

namespace Gambit.MappedColumn

open ByteImages Std.Do Triples

variable {checksums : Checksums} {mapping : List UInt8} {recorded : Prop} {column after : Column}

theorem construct_spec :
    ⦃fun column => ⌜Validated checksums mapping column⌝⦄
    construct false
    ⦃⇓ _ column => ⌜Opened checksums mapping True column⌝⦄ := by
  mvcgen [construct, readHeader_spec, update]
  case vc1 before validated count flag =>
      have page := Nat.le.intro validated.geometry.reach
      have clean := validated.toClean.page page
      -- no chunk of a chunked column is marked at first
      have unmarked (chunked : (Header.decode mapping).version ≠ formatVersionV1) (chunk : UInt64) :
          (List.replicate count.toNat flag)[chunk.toNat]? ≠ some true := by
        intro set
        rw [List.getElem?_replicate] at set
        rw [← validated.same] at chunked
        simp only [flag, Bool.false_or, decide_eq_false chunked] at set
        split at set <;> cases set
      exact {
        same := clean.same
        within := clean.within
        truthful := clean.truthful
        geometry := validated.geometry
        flags := by
          intro chunked
          simp only [count, validated.same, if_neg chunked, List.length_replicate]
        agrees := fun chunked chunk set => (unmarked chunked chunk set).elim
        logged := fun _ chunked chunk set => (unmarked chunked chunk set).elim
        whole := fun _ plain => List.mem_append_left _ (validated.whole plain) }

theorem openExisting_spec {calls : OpenCalls} {segment : Segment} :
    ⦃fun column => ⌜column = Column.empty⌝⦄
    openExisting checksums calls segment
    ⦃post⟨fun _ column => ⌜Opened checksums segment.bytes True column⌝,
      fun _ _ => ⌜¬ (calls.opened ∧ calls.stated ∧ calls.mapped) ∨
        ¬ Valid checksums segment.bytes⌝⟩⦄ := by
  mvcgen [openExisting, refuseIf, update, validate_spec, construct_spec]
  case vc1 unopened => exact .inl fun granted => unopened granted.1
  case vc2 refused =>
      rcases refused with unstated | short
      · exact .inl fun granted => unstated granted.2.1
      · exact .inr fun valid => absurd (Nat.le.intro valid.reach) (Nat.not_le.mpr short)
  case vc3 unmapped => exact .inl fun granted => unmapped granted.2.2
  case mapping => exact segment.bytes
  case sized => exact segment.sized
  case paged paged _ _ => exact Nat.le_of_not_lt (not_or.mp paged).2
  case size =>
      have small : segment.bytes.length ≤ 9223372036854775807 := segment.sized
      exact UInt64.toNat_ofNat_of_lt' (by change _ < 2 ^ 64; omega)
  case vc8 before fresh _ _ _ _ =>
      have none : before.log = [] := by
        rw [fresh]
        rfl
      exact {
        same := rfl
        within := by
          change ∀ event ∈ before.log, _
          rw [none]
          exact fun event member => (List.not_mem_nil member).elim
        truthful := by
          change ∀ event ∈ before.log, _
          rw [none]
          exact fun event member => (List.not_mem_nil member).elim }
  case vc10 => exact fun opened => opened
  case vc13 => exact fun _ invalid => .inr invalid

/-! ## Sequences of calls -/

/-- How a call on an opened column ends. -/
theorem answer_ends (opened : Opened checksums mapping recorded column) (call : ColumnCall) :
    Ends
      (fun view after => Opened checksums mapping recorded after ∧
        RangeDone mapping call.start (call.stop (Header.decode mapping)) after ∧
        Returned call.start (call.stop (Header.decode mapping)) view ∧
        call.Fits (Header.decode mapping))
      (fun failure after => Opened checksums mapping recorded after ∧
        (failure = outOfBounds ∧ ¬ call.Fits (Header.decode mapping) ∨
          failure = mismatch ∧ call.Fits (Header.decode mapping) ∧
            ¬ RangeAgrees checksums mapping call.start (call.stop (Header.decode mapping))))
      ((answer checksums call).on column) :=
  ends_of_triple (answer_spec opened.geometry call) opened

theorem Opened.answered (opened : Opened checksums mapping recorded column) (call : ColumnCall) :
    Opened checksums mapping recorded ((answer checksums call).on column).2 := by
  have ends := answer_ends opened call
  rcases run : (answer checksums call).on column with ⟨result, after⟩
  cases result with
  | ok view => exact (ends.of_ok run).1
  | error failure => exact (ends.of_error run).1

theorem Opened.afterCalls (opened : Opened checksums mapping recorded column)
    (calls : List ColumnCall) :
    Opened checksums mapping recorded (afterCalls checksums calls column) := by
  induction calls generalizing column with
  | nil => exact opened
  | cons call rest ih => exact ih (opened.answered call)

/-- Marked chunks agree with the table, so a marked range does. -/
theorem RangeDone.agrees {start stop : UInt64} (done : RangeDone mapping start stop column)
    (opened : Opened checksums mapping recorded column) :
    RangeAgrees checksums mapping start stop := by
  intro chunked nonempty chunk above below
  exact opened.agrees chunked chunk (done chunked nonempty chunk above (Nat.lt_succ_of_le below))

/-- A byte of a range whose checksum was found to be the stored one: the whole
payload's for the first version, a chunk's for the others. -/
def Covered (checksums : Checksums) (mapping : List UInt8) (column : Column) (i : Nat) : Prop :=
  ∃ offset length storedAt : UInt64, .matched offset length storedAt ∈ column.log ∧
    Matches checksums mapping offset length storedAt ∧
    offset.toNat ≤ i ∧ i < offset.toNat + length.toNat ∧
    ((Header.decode mapping).version = formatVersionV1 ∧
        Event.matched offset length storedAt = .matched (Header.decode mapping).dataOffset
          (Header.decode mapping).dataBytes Header.checksumAt ∨
      (Header.decode mapping).version ≠ formatVersionV1 ∧
        ∃ chunk : UInt64, chunk.toNat < (Header.decode mapping).chunkCount.toNat ∧
          Event.matched offset length storedAt = chunkEvent (Header.decode mapping) chunk)

theorem Opened.covered {start stop : UInt64} {i : Nat}
    (opened : Opened checksums mapping True column) (done : RangeDone mapping start stop column)
    (within : stop.toNat ≤ (Header.decode mapping).rowCount.toNat)
    (above : 4096 + 8 * start.toNat ≤ i) (below : i < 4096 + 8 * stop.toNat) :
    Covered checksums mapping column i := by
  have geometry := opened.geometry
  have rows := geometry.dataBytes
  by_cases plain : (Header.decode mapping).version = formatVersionV1
  · have whole := opened.whole trivial plain
    have page : (Header.decode mapping).dataOffset.toNat = 4096 := by
      rw [geometry.dataOffset]
      rfl
    refine ⟨_, _, _, whole, opened.truthful _ whole, ?_, ?_, .inl ⟨plain, rfl⟩⟩
    · rw [page]
      omega
    · rw [page]
      omega
  · have table := geometry.chunked plain
    have inside : i - 4096 < (Header.decode mapping).dataBytes.toNat := by omega
    have counted := @Chunking.chunk_lt _ (Header.decode mapping).chunkBytes.toNat _ inside
    rw [← table.chunkCount] at counted
    obtain ⟨chunk, number⟩ : ∃ chunk : UInt64,
        chunk.toNat = (i - 4096) / (Header.decode mapping).chunkBytes.toNat :=
      ⟨_, UInt64.toNat_ofNat_of_lt' (counted.trans (UInt64.toNat_lt _))⟩
    rw [← number] at counted
    have placed := geometry.placed plain counted
    have logged : chunkEvent (Header.decode mapping) chunk ∈ column.log := by
      apply opened.logged trivial plain
      apply done plain (by omega)
      · rw [number]
        exact Nat.div_le_div_right (by omega)
      · rw [number]
        exact Nat.lt_succ_of_le (Nat.div_le_div_right (by omega))
    refine ⟨_, _, _, logged, opened.truthful _ logged, ?_, ?_, .inr ⟨plain, chunk, counted, rfl⟩⟩
    · have start := Chunking.chunk_start_le (i - 4096) (Header.decode mapping).chunkBytes.toNat
      rw [placed.place, number]
      omega
    · have finish := Chunking.lt_chunk_end table.chunkBytes inside
      rw [placed.place, placed.length, number]
      omega

theorem result_eq {α : Type} {outcome : Except Failure α × Column} {result : Except Failure α}
    (first : outcome.1 = result) : outcome = (result, outcome.2) := by
  rw [← first]

/-- The result and the column of a call after a sequence of calls. -/
def afterAnd (checksums : Checksums) (opened : Column) (calls : List ColumnCall)
    (call : ColumnCall) : Except Failure View × Column :=
  (answer checksums call).on (afterCalls checksums calls opened)

/-- Whatever file is opened and whatever calls are made on it: nothing outside
the file is read and no offset wraps, a view is of bytes whose checksum was
compared and matched, a chunk that does not match is not marked, and a call that
failed on one fails again. -/
theorem mapped_column_in_bounds_and_verified (checksums : Checksums) (openCalls : OpenCalls)
    (segment : Segment) (opened : Column)
    (accepted : (openExisting checksums openCalls segment).on Column.empty = (.ok (), opened))
    (before : List ColumnCall) (call : ColumnCall) :
    (∀ event ∈ (afterAnd checksums opened before call).2.log,
      event.Within segment.bytes.length ∧ event.Truthful checksums segment.bytes) ∧
    (∀ view, (afterAnd checksums opened before call).1 = .ok view →
      4096 ≤ view.offset.toNat ∧
      view.offset.toNat + 8 * view.rows.toNat ≤ segment.bytes.length ∧
      ∀ i, view.offset.toNat ≤ i → i < view.offset.toNat + 8 * view.rows.toNat →
        Covered checksums segment.bytes (afterAnd checksums opened before call).2 i) ∧
    ((Header.decode segment.bytes).version = formatVersionV1 →
      .matched (Header.decode segment.bytes).dataOffset (Header.decode segment.bytes).dataBytes
        Header.checksumAt ∈ opened.log) ∧
    ((Header.decode segment.bytes).version ≠ formatVersionV1 → ∀ chunk : UInt64,
      ¬ ChunkAgrees checksums segment.bytes chunk →
        (afterAnd checksums opened before call).2.verified[chunk.toNat]? ≠ some true) ∧
    ((afterAnd checksums opened before call).1 = .error mismatch → ∀ later : List ColumnCall,
      (afterAnd checksums opened (before ++ call :: later) call).1 = .error mismatch) := by
  have fresh : Opened checksums segment.bytes True opened :=
    (ends_of_triple openExisting_spec rfl).of_ok accepted
  have stepped := (fresh.afterCalls before).answered call
  have ends := answer_ends (fresh.afterCalls before) call
  refine ⟨fun event member => ⟨stepped.within event member, stepped.truthful event member⟩,
    fun view answered => ?_, fresh.whole trivial, fun chunked chunk differs set => ?_,
    fun failed later => ?_⟩
  · obtain ⟨now, done, returned, fits⟩ := ends.of_ok (result_eq answered)
    have reach := fresh.geometry.reach
    have rows := fresh.geometry.dataBytes
    obtain ⟨ordered, within⟩ := fits
    rw [returned.offset, returned.rows]
    refine ⟨by omega, by omega, fun i above below => ?_⟩
    exact now.covered done within above (by omega)
  · exact differs (stepped.agrees chunked chunk set)
  · obtain ⟨_, ⟨refused, _⟩ | ⟨_, fits, disagrees⟩⟩ := ends.of_error (result_eq failed)
    · cases refused
    · have again := answer_ends (fresh.afterCalls (before ++ call :: later)) call
      rcases run : afterAnd checksums opened (before ++ call :: later) call with ⟨result, after⟩
      cases result with
      | ok view =>
          obtain ⟨now, done, _⟩ := again.of_ok run
          exact (disagrees (done.agrees now)).elim
      | error failure =>
          obtain ⟨_, ⟨_, unfit⟩ | ⟨same, _⟩⟩ := again.of_error run
          · exact (unfit fits).elim
          · rw [same]

/-- Three rows in two chunks of twelve bytes, so that a chunk ends inside the
second row. -/
def splitRows : Segment where
  bytes := magic ++ bytes32 formatVersionV2 ++ bytes32 stateCommitted ++ bytes64 3 ++
    bytes64 headerBytes ++ bytes64 24 ++ bytes64 0 ++ bytes64 12 ++ bytes64 2 ++
    bytes64 (checksumBytes (List.replicate 12 0)) ++
    bytes64 (checksumBytes (List.replicate 12 0)) ++ List.replicate 4016 0 ++
    List.replicate 24 0
  sized := by decide +kernel

def granted : OpenCalls := ⟨true, true, true⟩

theorem mapped_column_in_bounds_and_verified_split_row :
    ((openExisting Gambit.checksums granted splitRows).on Column.empty).1 = .ok () ∧
      ∀ i, 4104 ≤ i → i < 4112 →
        Covered Gambit.checksums splitRows.bytes
          (afterAnd Gambit.checksums
            ((openExisting Gambit.checksums granted splitRows).on Column.empty).2
            [.values] (.slice 1 2)).2 i := by
  have accepted : (openExisting Gambit.checksums granted splitRows).on Column.empty =
      (.ok (), ((openExisting Gambit.checksums granted splitRows).on Column.empty).2) :=
    result_eq (by decide +kernel)
  have whole := mapped_column_in_bounds_and_verified Gambit.checksums granted splitRows _ accepted
    [.values] (.slice 1 2)
  have place : (4104 : UInt64).toNat = 4104 := by decide
  have rows : 8 * (1 : UInt64).toNat = 8 := by decide
  have view := (whole.2.1 ⟨4104, 1⟩ (by decide +kernel)).2.2
  simp only [place, rows] at view
  exact ⟨by rw [accepted], view⟩

end Gambit.MappedColumn
