import Gambit.FactorCache.Integrity
import Gambit.FactorIdentity.CanonicalIdentities
import Gambit.FactorStore.Store
import Gambit.Lib.JsonAscii
import Gambit.Publication.Files

/-!
# Generations as they are read

A generation is a directory with a manifest and the column files it lists.
Opening checks the manifest against the name of the generation, the node key and
the identity, and every column against what the manifest says of it.
-/

set_option autoImplicit false

namespace Gambit.Publication

open PathTrees MappedColumn PythonJson FactorIdentity FactorStore Raising

variable {φ : Type}

/-- What the store rests on outside itself. -/
structure Runtime (φ : Type) where
  floats : FloatFormat φ
  /-- `float == int` -/
  equalsInt : φ → Int → Bool
  /-- SHA-256 in hex. -/
  hexdigest : List Char → String
  checksums : Checksums

def manifestFormat : String := "gambit-factor-generation"

def manifestVersion : Int := 1

def columnFile (name : String) : String := name ++ ".bin"

def generationPath (generation : String) : List String := ["generations", generation]

def manifestPath (generation : String) : List String := ["generations", generation, "manifest.json"]

/-! ## Texts -/

/-- The characters that `str.strip` removes. -/
def isWhitespace (c : Char) : Bool :=
  let n := c.toNat
  9 ≤ n && n ≤ 13 || 28 ≤ n && n ≤ 32 || n = 0x85 || n = 0xa0 || n = 0x1680 ||
    0x2000 ≤ n && n ≤ 0x200a || n = 0x2028 || n = 0x2029 || n = 0x202f || n = 0x205f || n = 0x3000

def strip (text : List Char) : List Char :=
  ((text.dropWhile isWhitespace).reverse.dropWhile isWhitespace).reverse

def readText (path : List String) (disk : Disk) : Except Exn (List Char) :=
  match disk.node path with
  | some (.leaf (.text content)) => .ok content
  | some (.leaf (.binary _)) => .error (.valueError "'utf-8' codec can't decode")
  | some (.branch _) => .error .osError
  | none => .error .fileNotFound

/-- `json.loads(path.read_bytes())` -/
def readJson (runtime : Runtime φ) (path : List String) (disk : Disk) : Except Exn (PyValue φ) := do
  let text ← readText path disk
  match loads runtime.floats text with
  | some value => .ok value
  | none => .error (.valueError "not JSON")

def isStr (value : PyValue φ) (text : String) : Bool :=
  match value with
  | .str found => found = text
  | _ => false

/-- `value == number`; a `bool` is a number too. -/
def isInt (runtime : Runtime φ) (value : PyValue φ) (number : Int) : Bool :=
  match value with
  | .int found => found = number
  | .bool found => (if found then 1 else 0) = number
  | .float found => runtime.equalsInt found number
  | _ => false

/-- `str(value)` where it can be a node key; the text of no other value is one. -/
def textOf (value : PyValue φ) : String :=
  match value with
  | .str text => text
  | .int number => toString number
  | _ => ""

/-! ## Opening -/

def openCalls : OpenCalls := ⟨true, true, true⟩

/-- The bytes of a file, as far as a file can have so many. -/
def File.segment : File → Option Segment
  | .binary segment => some segment
  | .text content =>
      if sized : (String.ofList content).toUTF8.data.toList.length ≤ offMax.toNat then
        some ⟨(String.ofList content).toUTF8.data.toList, sized⟩
      else none

/-- `MappedFloat64Column.open` -/
def openColumnFile (runtime : Runtime φ) (path : List String) (disk : Disk) : Except Exn Column :=
  match disk.node path with
  | some (.leaf file) =>
      match file.segment with
      | some segment =>
          match (openExisting runtime.checksums openCalls segment).on Column.empty with
          | (.ok _, column) => .ok column
          | (.error failure, _) => .error (.native failure)
      | none => .error (.native (.systemError "open factor cache segment"))
  | some (.branch _) => .error (.native (.systemError "map factor cache segment"))
  | none => .error (.native (.systemError "open factor cache segment"))

def rowCount (column : Column) : Int := (Header.decode column.mapping).rowCount.toNat

def checksum (column : Column) : Int := (Header.decode column.mapping).checksum.toNat

def formatVersion (column : Column) : Int := (Header.decode column.mapping).version.toNat

/-- One round of the loop over the columns. -/
def openColumn (runtime : Runtime φ) (generation : String) (disk : Disk) (entry : Key × PyValue φ) :
    Except Exn (String × Column) :=
  match entry with
  | (.str name, .mapping true metadata) => do
      if ¬ isName name then .error (.factorStoreError "factor generation column metadata is invalid")
      else if ¬ isStr (item metadata "file") (columnFile name) then
        .error (.factorStoreError "factor generation column filename is invalid")
      else
        let column ← openColumnFile runtime (generationPath generation ++ [columnFile name]) disk
        if isInt runtime (item metadata "rows") (rowCount column) ∧
            isInt runtime (item metadata "checksum") (checksum column) ∧
            isInt runtime (item metadata "segment_version") (formatVersion column) then
          .ok (name, column)
        else .error (.factorStoreError "factor generation column metadata mismatch")
  | _ => .error (.factorStoreError "factor generation column metadata is invalid")

/-- What opening finds. -/
structure Opened (φ : Type) where
  generation : String
  nodeKey : String
  identity : Option (FactorNodeIdentity φ)
  columns : List (String × Column)

/-- `FactorNodeIdentity.from_snapshot`, and the comparison of its key. -/
def openIdentity (runtime : Runtime φ) (nodeKey : String) (requireIdentity : Bool) (snapshot : PyValue φ) :
    Except Exn (Option (FactorNodeIdentity φ)) :=
  match snapshot with
  | .none =>
      if requireIdentity then .error (.factorStoreError "factor generation has no strict identity snapshot")
      else .ok none
  | snapshot =>
      match fromSnapshot runtime.floats snapshot with
      | .error _ => .error (.factorStoreError "factor generation identity snapshot is invalid")
      | .ok identity =>
          if identity.nodeKey runtime.hexdigest ≠ nodeKey then
            .error (.factorStoreError "factor generation identity hash mismatch")
          else .ok (some identity)

/-- The node key of a manifest that is one of this generation. -/
def manifestNodeKey (runtime : Runtime φ) (generation : String) (expected : Option String)
    (manifest : List (Key × PyValue φ)) : Except Exn String :=
  if ¬ isStr (item manifest "format") manifestFormat ∨ ¬ isInt runtime (item manifest "version") manifestVersion ∨
      ¬ isStr (item manifest "generation") generation ∨ ¬ isNodeKey (textOf (item manifest "node_key")) then
    .error (.factorStoreError "factor generation manifest identity is invalid")
  else if expected ≠ none ∧ expected ≠ some (textOf (item manifest "node_key")) then
    .error (.factorStoreError "factor generation node key does not match its index")
  else .ok (textOf (item manifest "node_key"))

def readManifest (runtime : Runtime φ) (generation : String) (disk : Disk) : Except Exn (List (Key × PyValue φ)) :=
  match readJson runtime (manifestPath generation) disk with
  | .ok (.mapping true manifest) => .ok manifest
  | .ok _ => .error .attributeError
  | .error _ => .error (.factorStoreError "factor generation manifest is unreadable")

/-- `_open_and_lease_generation` up to the lease. -/
def openGeneration (runtime : Runtime φ) (generation : String) (expected : Option String) (requireIdentity : Bool)
    (disk : Disk) : Except Exn (Opened φ) := do
  let manifest ← readManifest runtime generation disk
  let nodeKey ← manifestNodeKey runtime generation expected manifest
  let identity ← openIdentity runtime nodeKey requireIdentity (item manifest "identity")
  match item manifest "columns" with
  | .mapping true (entry :: entries) => do
      let columns ← (entry :: entries).mapM fun entry => openColumn runtime generation disk entry
      .ok ⟨generation, nodeKey, identity, columns⟩
  | _ => .error (.factorStoreError "factor generation manifest has no columns")

/-! ## Pointers -/

def readPointer (path : List String) (disk : Disk) : Except Exn String := do
  let text ← readText path disk
  .ok (String.ofList (strip text))

/-- `_read_node_pointer` -/
def readNodePointer (nodeKey : String) (missingOk : Bool) (disk : Disk) : Except Exn (Option String) :=
  if ¬ isNodeKey nodeKey then .error (.valueError "node_key must be a lowercase SHA-256 digest")
  else
    match readPointer ["nodes", nodeKey] disk with
    | .ok generation =>
        if isGeneration generation then .ok (some generation)
        else .error (.factorStoreError "factor node index generation is invalid")
    | .error .fileNotFound =>
        if missingOk then .ok none else .error (.cacheMiss "factor node is not cached")
    | .error error =>
        .error (if error.isOSError then .factorStoreError "factor node index is unreadable" else error)

/-- `_require_node_pointer` -/
def requireNodePointer (nodeKey : String) (disk : Disk) : Except Exn String := do
  match ← readNodePointer nodeKey false disk with
  | some generation => .ok generation
  | none => .error (.factorStoreError "factor node pointer is missing")

/-- The checked text of `CURRENT`. -/
def readCurrent (disk : Disk) : Except Exn String :=
  match readPointer ["CURRENT"] disk with
  | .ok generation =>
      if isGeneration generation then .ok generation
      else .error (.factorStoreError "factor store CURRENT generation is invalid")
  | .error error =>
      .error (if error.isOSError then .factorStoreError "factor store has no readable CURRENT generation"
        else error)

/-! ## What is read -/

variable {runtime : Runtime φ} {generation nodeKey : String} {disk other : Disk}

theorem readText_congr {path : List String} (same : disk.node path = other.node path) :
    readText path disk = readText path other := by
  unfold readText
  rw [same]

theorem openColumn_congr (same : ∀ path, generationPath generation <+: path → disk.node path = other.node path)
    (entry : Key × PyValue φ) : openColumn runtime generation disk entry = openColumn runtime generation other entry := by
  unfold openColumn openColumnFile
  split
  · rw [same _ (List.prefix_append _ _)]
  · rfl

/-- What is found in a generation depends on its directory alone. -/
theorem openGeneration_congr (same : ∀ path, generationPath generation <+: path → disk.node path = other.node path)
    (expected : Option String) (requireIdentity : Bool) :
    openGeneration runtime generation expected requireIdentity disk =
      openGeneration runtime generation expected requireIdentity other := by
  have manifest : readManifest runtime generation disk = readManifest runtime generation other := by
    unfold readManifest readJson
    rw [readText_congr (same (manifestPath generation) (List.prefix_append _ _))]
  have columns : openColumn runtime generation disk = openColumn runtime generation other :=
    funext fun entry => openColumn_congr same entry
  unfold openGeneration
  rw [manifest, columns]

theorem readNodePointer_congr (same : disk.node ["nodes", nodeKey] = other.node ["nodes", nodeKey])
    (missingOk : Bool) : readNodePointer nodeKey missingOk disk = readNodePointer nodeKey missingOk other := by
  unfold readNodePointer readPointer
  rw [readText_congr same]

theorem readCurrent_congr (same : disk.node ["CURRENT"] = other.node ["CURRENT"]) :
    readCurrent disk = readCurrent other := by
  unfold readCurrent readPointer
  rw [readText_congr same]

end Gambit.Publication
