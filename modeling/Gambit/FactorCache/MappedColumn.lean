import Mathlib
import Gambit.FactorCache.Checksums

/-!
# Mapped float64 columns

A column is a file of one header page and a payload, mapped as a whole.  An
action reads and writes the mapping with wrapping 64-bit offsets and keeps a
log of what could go wrong on the way: the accesses, the offset arithmetic and
the comparisons with stored checksums.  A throw keeps the column it leaves.
-/

set_option autoImplicit false

namespace Gambit.MappedColumn

open ByteImages

structure Header where
  magic : List UInt8
  version : UInt32
  state : UInt32
  rowCount : UInt64
  dataOffset : UInt64
  dataBytes : UInt64
  checksum : UInt64
  chunkBytes : UInt64
  chunkCount : UInt64
deriving DecidableEq

def headerBytes : UInt64 := 4096
def formatVersionV1 : UInt32 := 1
def formatVersionV2 : UInt32 := 2
def formatVersionV3 : UInt32 := 3
def stateCommitted : UInt32 := 1
def defaultChunkBytes : UInt64 := 256 * 1024
def magic : List UInt8 := [71, 65, 77, 66, 73, 84, 70, 67]

def sizeofDouble : UInt64 := 8
def sizeofHeader : UInt64 := 64
def sizeofUint64 : UInt64 := 8
def uint64Max : UInt64 := 18446744073709551615
def offMax : UInt64 := 9223372036854775807
def ssizeMax : UInt64 := 9223372036854775807

/-- The number of checksums that fit behind the header. -/
def maximumChunks : UInt64 := (headerBytes - sizeofHeader) / sizeofUint64

namespace Header

def magicAt : UInt64 := 0
def versionAt : UInt64 := 8
def stateAt : UInt64 := 12
def rowCountAt : UInt64 := 16
def dataOffsetAt : UInt64 := 24
def dataBytesAt : UInt64 := 32
def checksumAt : UInt64 := 40
def chunkBytesAt : UInt64 := 48
def chunkCountAt : UInt64 := 56

def decode (image : List UInt8) : Header where
  magic := load image magicAt.toNat 8
  version := word32 (load image versionAt.toNat 4)
  state := word32 (load image stateAt.toNat 4)
  rowCount := word64 (load image rowCountAt.toNat 8)
  dataOffset := word64 (load image dataOffsetAt.toNat 8)
  dataBytes := word64 (load image dataBytesAt.toNat 8)
  checksum := word64 (load image checksumAt.toNat 8)
  chunkBytes := word64 (load image chunkBytesAt.toNat 8)
  chunkCount := word64 (load image chunkCountAt.toNat 8)

end Header

inductive Failure
  /-- The operation that failed; the text of `errno` is left out. -/
  | systemError (operation : String)
  | runtimeError (what : String)
  | overflowError (what : String)
  | outOfRange (what : String)
deriving DecidableEq

inductive Event
  | read (offset length : UInt64)
  | wrote (offset length : UInt64)
  | sum (x y : UInt64)
  | difference (x y : UInt64)
  | product (x y : UInt64)
  | quotient (x y : UInt64)
  /-- An element of the verified flags. -/
  | flag (index : UInt64) (count : Nat)
  /-- The checksum of a range equals the word stored at an offset. -/
  | matched (offset length storedAt : UInt64)
  /-- A loop whose counter passed its limit without stopping. -/
  | unfinished
deriving DecidableEq

structure Column where
  mapping : List UInt8
  verified : List Bool
  log : List Event
deriving DecidableEq

abbrev ColumnAction := ExceptT Failure (StateM Column)

def ColumnAction.on {α : Type} (action : ColumnAction α) (column : Column) :
    Except Failure α × Column :=
  action.run.run column

namespace Column

def empty : Column := ⟨[], [], []⟩

def note (event : Event) (column : Column) : Column :=
  { column with log := column.log ++ [event] }

def stored (offset : UInt64) (bytes : List UInt8) (column : Column) : Column :=
  { column with mapping := store column.mapping offset.toNat bytes }

def mark (chunk : UInt64) (column : Column) : Column :=
  { column with verified := column.verified.set chunk.toNat true }

end Column

section Primitives

def update (change : Column → Column) : ColumnAction Unit := do
  let column ← get
  set (change column)

def emit (event : Event) : ColumnAction Unit := update (Column.note event)

def refuseIf (refused : Prop) [Decidable refused] (failure : Failure) : ColumnAction Unit :=
  if refused then throw failure else pure ()

def plus (x y : UInt64) : ColumnAction UInt64 := do
  emit (.sum x y)
  pure (x + y)

def minus (x y : UInt64) : ColumnAction UInt64 := do
  emit (.difference x y)
  pure (x - y)

def times (x y : UInt64) : ColumnAction UInt64 := do
  emit (.product x y)
  pure (x * y)

def dividedBy (x y : UInt64) : ColumnAction UInt64 := do
  emit (.quotient x y)
  pure (x / y)

def readBytes (offset length : UInt64) : ColumnAction (List UInt8) := do
  emit (.read offset length)
  let column ← get
  pure (load column.mapping offset.toNat length.toNat)

def writeBytes (offset : UInt64) (bytes : List UInt8) : ColumnAction Unit := do
  emit (.wrote offset (UInt64.ofNat bytes.length))
  update (Column.stored offset bytes)

def readHeader : ColumnAction Header := do
  let image ← readBytes 0 sizeofHeader
  pure (Header.decode image)

/-- The offset of a chunk's checksum in the table behind the header. -/
def checksumSlot (chunk : UInt64) : ColumnAction UInt64 := do
  let place ← times chunk sizeofUint64
  plus sizeofHeader place

end Primitives

/-! ## Creating a column -/

/-- Which system calls of a creation succeed. -/
structure CreateCalls where
  opened : Bool
  resized : Bool
  mapped : Bool
  flushed : Bool
  published : Bool
  shielded : Bool

/-- The file is extended with zeros. -/
def resize (mappingBytes : UInt64) : ColumnAction Unit :=
  update fun column => { column with mapping := List.replicate mappingBytes.toNat 0 }

def construct (created : Bool) : ColumnAction Unit := do
  let header ← readHeader
  let count := if header.version = formatVersionV1 then 1 else header.chunkCount
  let flag := created || header.version = formatVersionV1
  update fun column => { column with verified := List.replicate count.toNat flag }

section Versions

variable (checksums : Checksums)

def writeChecksum (formatVersion : UInt32) (dataBytes chunkBytes chunk : UInt64) :
    ColumnAction Unit := do
  let offset ← times chunk chunkBytes
  let left ← minus dataBytes offset
  let place ← plus headerBytes offset
  let data ← readBytes place (min chunkBytes left)
  let slot ← checksumSlot chunk
  writeBytes slot (bytes64 (checksums.forVersion formatVersion data))

/-- The loop over the chunks from `chunk`, of at most the given rounds. -/
def writeChecksums (formatVersion : UInt32) (dataBytes chunkBytes chunkCount : UInt64) :
    Nat → UInt64 → ColumnAction Unit
  | 0, _ => emit .unfinished
  | rounds + 1, chunk => do
      if chunk < chunkCount then
        writeChecksum checksums formatVersion dataBytes chunkBytes chunk
        let next ← plus chunk 1
        writeChecksums formatVersion dataBytes chunkBytes chunkCount rounds next
      else pure ()

def minimumChunkBytes (dataBytes : UInt64) : ColumnAction UInt64 := do
  if dataBytes = 0 then pure 1
  else
    let last ← minus dataBytes 1
    let share ← dividedBy last maximumChunks
    plus 1 share

/-- The number of chunks, rounded up. -/
def chunksWritten (dataBytes chunkBytes : UInt64) : ColumnAction UInt64 := do
  if dataBytes = 0 then pure 0
  else
    let reach ← plus dataBytes chunkBytes
    let reach ← minus reach 1
    dividedBy reach chunkBytes

def writeChunks (formatVersion : UInt32) (dataBytes chunkBytes : UInt64) : ColumnAction Unit := do
  writeBytes Header.chunkBytesAt (bytes64 chunkBytes)
  let chunkCount ← chunksWritten dataBytes chunkBytes
  writeBytes Header.chunkCountAt (bytes64 chunkCount)
  writeChecksums checksums formatVersion dataBytes chunkBytes chunkCount (chunkCount.toNat + 1) 0

def writeChunkTable (formatVersion : UInt32) (dataBytes : UInt64) : ColumnAction Unit := do
  let least ← minimumChunkBytes dataBytes
  writeChunks checksums formatVersion dataBytes (max defaultChunkBytes least)

def writePage (values : List UInt64) (formatVersion : UInt32) (rows dataBytes : UInt64) :
    ColumnAction Unit := do
  writeBytes 0 (List.replicate headerBytes.toNat 0)
  writeBytes Header.magicAt magic
  writeBytes Header.versionAt (bytes32 formatVersion)
  writeBytes Header.rowCountAt (bytes64 rows)
  writeBytes Header.dataOffsetAt (bytes64 headerBytes)
  writeBytes Header.dataBytesAt (bytes64 dataBytes)
  writeBytes headerBytes (words values)
  let data ← readBytes headerBytes dataBytes
  writeBytes Header.checksumAt (bytes64 (checksums.forVersion formatVersion data))

def writeSegment (values : List UInt64) (formatVersion : UInt32) (rows dataBytes : UInt64) :
    ColumnAction Unit := do
  writePage checksums values formatVersion rows dataBytes
  if formatVersion = formatVersionV2 ∨ formatVersion = formatVersionV3 then
    writeChunkTable checksums formatVersion dataBytes
  else pure ()

def commitSegment (calls : CreateCalls) : ColumnAction Unit := do
  refuseIf (¬ calls.flushed) (.systemError "flush factor cache data")
  writeBytes Header.stateAt (bytes32 stateCommitted)
  refuseIf (¬ calls.published) (.systemError "publish factor cache header")
  refuseIf (¬ calls.shielded) (.systemError "protect factor cache segment")
  construct true

/-- A failing call unlinks the file, so the column a throw leaves is lost. -/
def createImpl (calls : CreateCalls) (values : List UInt64) (formatVersion : UInt32) :
    ColumnAction Unit := do
  refuseIf ((uint64Max / sizeofDouble).toNat < values.length)
    (.overflowError "factor cache row count is too large")
  let rows := UInt64.ofNat values.length
  let dataBytes ← times rows sizeofDouble
  refuseIf (uint64Max - headerBytes < dataBytes ∨ offMax - headerBytes < dataBytes)
    (.overflowError "factor cache mapping size is too large")
  let mappingBytes ← plus headerBytes dataBytes
  refuseIf (¬ calls.opened) (.systemError "open factor cache segment")
  refuseIf (¬ calls.resized) (.systemError "resize factor cache segment")
  resize mappingBytes
  refuseIf (¬ calls.mapped) (.systemError "map factor cache segment")
  writeSegment checksums values formatVersion rows dataBytes
  commitSegment calls

def create (calls : CreateCalls) (values : List UInt64) : ColumnAction Unit :=
  createImpl checksums calls values formatVersionV1

def createChunked (calls : CreateCalls) (values : List UInt64) : ColumnAction Unit :=
  createImpl checksums calls values formatVersionV2

def createChunkedV3 (calls : CreateCalls) (values : List UInt64) : ColumnAction Unit :=
  createImpl checksums calls values formatVersionV3

/-! ## Opening a column -/

/-- A file, whose size is a signed 64-bit number. -/
structure Segment where
  bytes : List UInt8
  sized : bytes.length ≤ offMax.toNat

/-- Which system calls of an opening succeed. -/
structure OpenCalls where
  opened : Bool
  stated : Bool
  mapped : Bool

def expectedChunks (header : Header) : ColumnAction UInt64 := do
  if header.dataBytes = 0 then pure 0
  else
    let last ← minus header.dataBytes 1
    let whole ← dividedBy last header.chunkBytes
    plus 1 whole

/-- Each comparison is made only when those before it accept. -/
def validateBounds (header : Header) (mappingBytes : UInt64) : ColumnAction Unit := do
  let failure := Failure.runtimeError "factor cache segment bounds are invalid"
  refuseIf (uint64Max / sizeofDouble < header.rowCount) failure
  refuseIf (header.dataOffset ≠ headerBytes) failure
  let payload ← times header.rowCount sizeofDouble
  refuseIf (header.dataBytes ≠ payload) failure
  let room ← minus mappingBytes headerBytes
  refuseIf (room < header.dataBytes) failure
  let reach ← plus header.dataOffset header.dataBytes
  refuseIf (reach ≠ mappingBytes) failure

def validatePayload (header : Header) : ColumnAction Unit := do
  let data ← readBytes header.dataOffset header.dataBytes
  refuseIf (checksums.bytes data ≠ header.checksum)
    (.runtimeError "factor cache checksum mismatch")
  emit (.matched header.dataOffset header.dataBytes Header.checksumAt)

def validateChunkTable (header : Header) : ColumnAction Unit := do
  let failure := Failure.runtimeError "factor cache chunk table is invalid"
  refuseIf (header.chunkBytes = 0) failure
  let expected ← expectedChunks header
  refuseIf (header.chunkCount ≠ expected ∨ maximumChunks < header.chunkCount) failure

def validateLayout (header : Header) (mappingBytes : UInt64) : ColumnAction Unit := do
  validateBounds header mappingBytes
  if header.version = formatVersionV1 then validatePayload checksums header
  else validateChunkTable header

def validate (mappingBytes : UInt64) : ColumnAction Unit := do
  let header ← readHeader
  refuseIf (header.magic ≠ magic ∨ (header.version ≠ formatVersionV1 ∧
      header.version ≠ formatVersionV2 ∧ header.version ≠ formatVersionV3))
    (.runtimeError "factor cache header is invalid or unsupported")
  refuseIf (header.state ≠ stateCommitted) (.runtimeError "factor cache segment is not committed")
  validateLayout checksums header mappingBytes

def openExisting (calls : OpenCalls) (segment : Segment) : ColumnAction Unit := do
  refuseIf (¬ calls.opened) (.systemError "open factor cache segment")
  refuseIf (¬ calls.stated ∨ segment.bytes.length < headerBytes.toNat)
    (.runtimeError "factor cache segment is truncated")
  let mappingBytes := UInt64.ofNat segment.bytes.length
  refuseIf (¬ calls.mapped) (.systemError "map factor cache segment")
  update fun column => { column with mapping := segment.bytes }
  validate checksums mappingBytes
  construct false

/-! ## Reading a column -/

/-- A read-only array over the mapping. -/
structure View where
  offset : UInt64
  rows : UInt64
deriving DecidableEq

def View.values (view : View) (mapping : List UInt8) : List UInt64 :=
  readWords mapping view.offset.toNat view.rows.toNat

def compareChunk (header : Header) (chunk : UInt64) : ColumnAction Unit := do
  let offset ← times chunk header.chunkBytes
  let left ← minus header.dataBytes offset
  let place ← plus header.dataOffset offset
  let data ← readBytes place (min header.chunkBytes left)
  let slot ← checksumSlot chunk
  let stored ← readBytes slot sizeofUint64
  refuseIf (checksums.forVersion header.version data ≠ word64 stored)
    (.runtimeError "factor cache chunk checksum mismatch")
  emit (.matched place (min header.chunkBytes left) slot)

def verifyChunk (header : Header) (chunk : UInt64) : ColumnAction Unit := do
  let column ← get
  emit (.flag chunk column.verified.length)
  if column.verified[chunk.toNat]? = some true then pure ()
  else
    compareChunk checksums header chunk
    emit (.flag chunk column.verified.length)
    update (Column.mark chunk)

/-- The loop over the chunks from `chunk`, of at most the given rounds. -/
def verifyChunks (header : Header) (lastChunk : UInt64) : Nat → UInt64 → ColumnAction Unit
  | 0, _ => emit .unfinished
  | rounds + 1, chunk => do
      if chunk ≤ lastChunk then
        verifyChunk checksums header chunk
        let next ← plus chunk 1
        verifyChunks header lastChunk rounds next
      else pure ()

def verifyRows (header : Header) (start stop : UInt64) : ColumnAction Unit := do
  let firstByte ← times start sizeofDouble
  let stopByte ← times stop sizeofDouble
  let firstChunk ← dividedBy firstByte header.chunkBytes
  let lastByte ← minus stopByte 1
  let lastChunk ← dividedBy lastByte header.chunkBytes
  verifyChunks checksums header lastChunk (lastChunk.toNat - firstChunk.toNat + 2) firstChunk

def verifyRange (start stop : UInt64) : ColumnAction Unit := do
  let header ← readHeader
  if header.version = formatVersionV1 ∨ start = stop then pure ()
  else verifyRows checksums header start stop

def arrayView (start stop : UInt64) : ColumnAction View := do
  let header ← readHeader
  let rows ← minus stop start
  refuseIf (ssizeMax < rows) (.overflowError "factor cache view is too large for NumPy")
  let offset ← times start sizeofDouble
  let place ← plus header.dataOffset offset
  pure ⟨place, rows⟩

/-- The end of both readers. -/
def fetch (start stop : UInt64) : ColumnAction View := do
  verifyRange checksums start stop
  arrayView start stop

def values : ColumnAction View := do
  let header ← readHeader
  fetch checksums 0 header.rowCount

def slice (start stop : UInt64) : ColumnAction View := do
  let header ← readHeader
  refuseIf (stop < start ∨ header.rowCount < stop)
    (.outOfRange "factor cache slice bounds are invalid")
  fetch checksums start stop

inductive ColumnCall
  | values
  | slice (start stop : UInt64)
deriving DecidableEq

def answer : ColumnCall → ColumnAction View
  | .values => values checksums
  | .slice start stop => slice checksums start stop

/-- The column after a sequence of calls, failed ones among them. -/
def afterCalls (calls : List ColumnCall) (column : Column) : Column :=
  calls.foldl (fun column call => ((answer checksums call).on column).2) column

end Versions

end Gambit.MappedColumn
