import Gambit.Publication.Generations

/-!
# Publishing and opening

The statements of `publish_generation`, of opening and of the access records, in
the order of the source.  Any of them may raise; the handlers see it.
-/

set_option autoImplicit false

namespace Gambit.Publication

open PathTrees MappedColumn PythonJson FactorIdentity FactorStore LoggedActions

variable {φ : Type}

abbrev Act (α : Type) := Action Exn Call Disk α

/-- What is drawn or asked while a call runs: `uuid.uuid4().hex`, `time.time_ns()`, the process. -/
structure Draws where
  generation : String
  createdNs : Int
  accessStaging : String
  accessNs : Int
  lease : String
  leaseNs : Int
  pid : Nat
  hostname : String

/-- `np.asarray(values, dtype=np.float64)` -/
inductive FloatArray where
  | vector (values : List UInt64)
  /-- Not one-dimensional. -/
  | other

/-- What a publication is called with; identities come from their constructor. -/
structure Request (runtime : Runtime φ) where
  nodeKey : String
  columns : OrderedDict String FloatArray
  identity : Option (FactorNodeIdentity φ)
  made : ∀ made ∈ identity, ∃ arguments, create runtime.floats arguments = .ok made
  replaceGeneration : Option String
  verifyWritten : Bool

namespace Request

variable {runtime : Runtime φ}

/-- `sorted(columns)` -/
def sortedColumns (request : Request runtime) : List (String × FloatArray) :=
  (SortedDict.ofList request.columns.items).items

/-- `identity.snapshot()` -/
def snapshot (request : Request runtime) : Except Exn (Option (PyValue φ)) :=
  match request.identity with
  | none => .ok none
  | some identity =>
      match identity.snapshot runtime.floats with
      | some snapshot => .ok (some snapshot)
      | none => .error (.valueError "not JSON")

end Request

section Statements

variable (faults : Faults Exn)

def call (statement : Call) : Act Unit := perform faults Call.apply statement

def isDirectory (path : List String) (disk : Disk) : Except Exn Bool := .ok (decide (disk.IsBranch path))

/-- `mkdir(exist_ok=True)`, after `os.mkdir` has raised. -/
def alreadyThere (parent : List String) (name : String) (error : Exn) : Act Unit :=
  if error.isOSError then do
    let there ← observe faults (isDirectory (parent ++ [name]))
    if there then pure () else Action.raise error
  else Action.raise error

def ensureDirectory (parent : List String) (name : String) : Act Unit :=
  (call faults (.makeDirectory parent name)).rescue (alreadyThere faults parent name)

/-- `mkdir(parents=True, exist_ok=True)` of a directory two levels down. -/
def ensureBelow (place name : String) : Act Unit :=
  (call faults (.makeDirectory [place] name)).rescue fun error =>
    if error = .fileNotFound then do
      ensureDirectory faults [] place
      ensureDirectory faults [place] name
    else alreadyThere faults [place] name error

/-- `with path.open("xb") as file: ...` up to `os.fsync` -/
def writeFile (parent : List String) (name : String) (content : List Char) : Act Unit := do
  call faults (.create parent name)
  call faults (.write parent name (.text content))
  call faults (.flushFile parent name)

/-- `unlink(missing_ok=True)` -/
def unlinkIfThere (parent : List String) (name : String) : Act Unit :=
  (call faults (.unlink parent name)).rescue fun error =>
    if error = .fileNotFound then pure () else Action.raise error

/-- `shutil.rmtree(ignore_errors=True)` -/
def removeTreeIfThere (parent : List String) (name : String) : Act Unit :=
  (call faults (.removeTree parent name)).rescue fun error =>
    if error.isOSError then pure () else Action.raise error

/-- The lock file, opened with `O_CREAT`; the lock itself keeps other writers away. -/
def takeLock (name : String) : Act Unit := do
  let node ← observe faults fun disk => .ok (disk.node [name])
  match node with
  | none => call faults (.create [] name)
  | some (.leaf _) => pure ()
  | some (.branch _) => Action.raise .osError

/-- A line of JSON in a new file. -/
def writeJson (runtime : Runtime φ) (parent : List String) (name : String) (value : PyValue φ) : Act Unit :=
  match dumpsAscii runtime.floats value with
  | some text => writeFile faults parent name (text ++ ['\n'])
  | none => Action.raise (.valueError "Out of range float values are not JSON compliant")

/-- A pointer to a generation, put in place at once. -/
def replacePointer (parent : List String) (staging name generation : String) : Act Unit := do
  writeFile faults parent staging (generation.toList ++ ['\n'])
  call faults (.rename parent staging name)
  call faults (.flushDirectory parent)

end Statements

/-! ## Access records -/

def accessFile (nodeKey : String) : String := nodeKey ++ ".json"

/-- The count of the record that is there, and whether it is too recent to be written again. -/
def previousAccess (runtime : Runtime φ) (nodeKey generation : String) (nowNs : Int) (intervalNs : ℚ) (disk : Disk) :
    Except Exn (Int × Bool) :=
  match readJson runtime ["access", accessFile nodeKey] disk with
  | .ok (.mapping true previous) =>
      match item previous "last_access_ns", item previous "access_count" with
      | .int lastAccessNs, .int accessCount =>
          if isStr (item previous "node_key") nodeKey ∧ isStr (item previous "generation") generation then
            .ok (max 0 accessCount, decide (0 ≤ lastAccessNs ∧ lastAccessNs ≤ nowNs ∧
              ((nowNs - lastAccessNs : Int) : ℚ) < intervalNs))
          else .ok (0, false)
      | _, _ => .ok (0, false)
  | _ => .ok (0, false)

def accessRecord (nodeKey generation : String) (nowNs accessCount : Int) : PyValue φ :=
  dict [("format", .str "gambit-factor-access"), ("version", .int 1), ("node_key", .str nodeKey),
    ("generation", .str generation), ("last_access_ns", .int nowNs), ("access_count", .int (accessCount + 1))]

section Programs

variable (runtime : Runtime φ) (faults : Faults Exn) (draws : Draws)

def accessStaging (nodeKey : String) : String := "." ++ nodeKey ++ "-" ++ draws.accessStaging

/-- `_record_node_access`; the record is not written again within the interval. -/
def recordNodeAccess (nodeKey generation : String) (intervalNs : ℚ) : Act Unit :=
  Action.rescue (do
    ensureDirectory faults [] "access"
    let (accessCount, recent) ← observe faults (previousAccess runtime nodeKey generation draws.accessNs intervalNs)
    if recent then pure ()
    else do
      Action.rescue (do
        writeJson faults runtime ["access"] (accessStaging draws nodeKey)
          (accessRecord nodeKey generation draws.accessNs accessCount)
        call faults (.rename ["access"] (accessStaging draws nodeKey) (accessFile nodeKey))
        call faults (.flushDirectory ["access"]))
        fun error => do
          unlinkIfThere faults ["access"] (accessStaging draws nodeKey)
          Action.raise error
      unlinkIfThere faults ["access"] (accessStaging draws nodeKey))
    fun error => if error.isOSError then pure () else Action.raise error

/-! ## Leases -/

/-- A generation that is kept from being collected while this is open. -/
structure Lease (φ : Type) where
  opened : Opened φ
  name : String

def leaseName : String := toString draws.pid ++ "-" ++ draws.lease ++ ".json"

def leaseRecord (generation : String) : PyValue φ :=
  dict [("generation", .str generation), ("pid", .int draws.pid), ("host", .str draws.hostname),
    ("created_ns", .int draws.leaseNs)]

/-- `_open_and_lease_generation` -/
def openAndLease (generation : String) (expected : Option String) (requireIdentity : Bool) : Act (Lease φ) := do
  let opened ← observe faults (openGeneration runtime generation expected requireIdentity)
  ensureBelow faults "leases" generation
  writeJson faults runtime ["leases", generation] (leaseName draws) (leaseRecord draws generation)
  call faults (.flushDirectory ["leases", generation])
  pure ⟨opened, leaseName draws⟩

/-- `FactorGenerationLease.close` -/
def Lease.close (lease : Lease φ) : Act Unit :=
  unlinkIfThere faults ["leases", lease.opened.generation] lease.name

def openCurrentGeneration : Act (Lease φ) := do
  takeLock faults ".lock"
  let generation ← observe faults readCurrent
  openAndLease runtime faults draws generation none false

/-- The interval between access records, if it is finite, in nanoseconds. -/
def openGenerationByNodeKey (nodeKey : String) (intervalNs : Option ℚ) : Act (Lease φ) := do
  match intervalNs with
  | some intervalNs =>
      if intervalNs < 0 then
        Action.raise (.valueError "access_update_interval_seconds must be finite and non-negative")
      else do
        takeLock faults ".lock"
        let generation ← observe faults (requireNodePointer nodeKey)
        let lease ← openAndLease runtime faults draws generation (some nodeKey) true
        recordNodeAccess runtime faults draws nodeKey generation intervalNs
        pure lease
  | none => Action.raise (.valueError "access_update_interval_seconds must be finite and non-negative")

/-! ## Publishing -/

def createCalls : CreateCalls := ⟨true, true, true, true, true, true⟩

/-- `MappedFloat64Column.create_chunked_v3`: what fails after the file is there removes it again. -/
def createColumn (parent : List String) (name : String) (values : List UInt64) : Act Column :=
  match (createChunkedV3 runtime.checksums createCalls values).on Column.empty with
  | (.error failure, _) => Action.raise (.native failure)
  | (.ok _, column) =>
      if sized : column.mapping.length ≤ offMax.toNat then do
        (call faults (.create parent name)).rescue fun error =>
          Action.raise (if error.isOSError then .native (.systemError "open factor cache segment") else error)
        Action.rescue (do
          call faults (.write parent name (.binary ⟨column.mapping, sized⟩))
          call faults (.flushFile parent name))
          fun error => do
            (call faults (.unlink parent name)).rescue fun _ => pure ()
            Action.raise error
        pure column
      else Action.raise (.native (.overflowError "factor cache mapping size is too large"))

def isNaN (bits : UInt64) : Bool := 0x7ff0000000000000 < (bits &&& 0x7fffffffffffffff)

/-- `==` of two floats, with NaN equal to NaN. -/
def equalFloats (bits other : UInt64) : Bool :=
  isNaN bits && isNaN other || (!isNaN bits && !isNaN other &&
    (bits = other || (bits ||| other) &&& 0x7fffffffffffffff = 0))

/-- `np.array_equal(equal_nan=True)` of one-dimensional arrays -/
def equalArrays (values others : List UInt64) : Bool :=
  values.length = others.length && (values.zip others).all fun pair => equalFloats pair.1 pair.2

/-- The values of a column that has been opened. -/
def readValues (column : Column) : Except Exn (List UInt64) :=
  match (values runtime.checksums).on column with
  | (.ok view, after) => .ok (view.values after.mapping)
  | (.error failure, _) => .error (.native failure)

def verifyColumn (path : List String) (values : List UInt64) (disk : Disk) : Except Exn Unit := do
  let verified ← openColumnFile runtime path disk
  let found ← readValues runtime verified
  if equalArrays found values then .ok () else .error (.factorStoreError "factor migration verification failed")

def verifyIf (verifyWritten : Bool) (path : List String) (values : List UInt64) : Act Unit :=
  if verifyWritten then observe faults (verifyColumn runtime path values) else pure ()

/-- The loop over the sorted columns, with the row count of those before. -/
def publishColumns (staging : List String) (verifyWritten : Bool) :
    Option Nat → List (String × FloatArray) → Act (List (String × Column))
  | _, [] => pure []
  | _, (_, .other) :: _ => Action.raise (.valueError "factor columns must be one-dimensional")
  | expectedRows, (name, .vector values) :: rest => do
      if expectedRows ≠ none ∧ expectedRows ≠ some values.length then
        Action.raise (.valueError "factor columns must have equal row counts")
      else do
        let column ← createColumn runtime faults staging (columnFile name) values
        verifyIf runtime faults verifyWritten (staging ++ [columnFile name]) values
        let columns ← publishColumns staging verifyWritten (some values.length) rest
        pure ((name, column) :: columns)

def columnMetadata (name : String) (column : Column) : List (String × PyValue φ) :=
  [("file", .str (columnFile name)), ("rows", .int (rowCount column)), ("checksum", .int (checksum column)),
    ("segment_version", .int (formatVersion column))]

def manifestFields (generation nodeKey : String) (createdNs : Int) (columns : List (String × Column))
    (snapshot : Option (PyValue φ)) : List (String × PyValue φ) :=
  [("format", .str manifestFormat), ("version", .int manifestVersion), ("generation", .str generation),
    ("node_key", .str nodeKey), ("created_ns", .int createdNs),
    ("columns", dict (columns.map fun column => (column.1, dict (columnMetadata column.1 column.2))))] ++
  (snapshot.map fun snapshot => ("identity", snapshot)).toList

def stagingName (generation : String) : String := ".staging-" ++ generation

def pointerStaging (generation : String) : String := ".CURRENT-" ++ generation

def nodeStaging (nodeKey generation : String) : String := "." ++ nodeKey ++ "-" ++ generation

/-- Columns, manifest and the flush of both, in the staging directory. -/
def stage (request : Request runtime) : Act Unit := do
  let staging := ["generations", stagingName draws.generation]
  let columns ← publishColumns runtime faults staging request.verifyWritten none request.sortedColumns
  let snapshot ← Action.of request.snapshot
  writeJson faults runtime staging "manifest.json"
    (dict (manifestFields draws.generation request.nodeKey draws.createdNs columns snapshot))
  call faults (.flushDirectory staging)

/-- What the exclusive lock is held for. -/
def commit (request : Request runtime) : Act Unit := do
  takeLock faults ".lock"
  call faults (.rename ["generations"] (stagingName draws.generation) draws.generation)
  call faults (.flushDirectory ["generations"])
  replacePointer faults [] (pointerStaging draws.generation) "CURRENT" draws.generation
  if request.identity.isSome then do
    ensureDirectory faults [] "nodes"
    replacePointer faults ["nodes"] (nodeStaging request.nodeKey draws.generation) request.nodeKey
      draws.generation
    recordNodeAccess runtime faults draws request.nodeKey draws.generation 0
  else pure ()

/-- The staging directory is removed on interruption before it is reraised. -/
def abandon (error : Exn) : Act Unit := do
  removeTreeIfThere faults ["generations"] (stagingName draws.generation)
  unlinkIfThere faults [] (pointerStaging draws.generation)
  Action.raise error

def buildGeneration (request : Request runtime) : Act String := do
  ensureDirectory faults [] "generations"
  call faults (.makeDirectory ["generations"] (stagingName draws.generation))
  Action.rescue (do
    stage runtime faults draws request
    commit runtime faults draws request)
    (abandon faults draws)
  pure draws.generation

def checkRequest (request : Request runtime) : Except Exn Unit :=
  if request.columns.items = [] then .error (.valueError "columns must not be empty")
  else if ¬ isNodeKey request.nodeKey then
    .error (.valueError "node_key must be a lowercase SHA-256 digest")
  else if request.identity.any fun identity => identity.nodeKey runtime.hexdigest ≠ request.nodeKey then
    .error (.valueError "identity does not hash to node_key")
  else if request.columns.keys.any fun name => !isName name then
    .error (.valueError "factor column names must be safe portable identifiers")
  else .ok ()

/-- The generation to be replaced is the one that is indexed. -/
def checkReplacement (request : Request runtime) : Act Unit :=
  match request.replaceGeneration with
  | none => pure ()
  | some replaced =>
      if request.identity.isNone ∨ ¬ isGeneration replaced then
        Action.raise (.valueError "replacement publication requires an identity and valid generation")
      else do
        let indexed ← observe faults (readNodePointer request.nodeKey false)
        if indexed ≠ some replaced then
          Action.raise (.factorStoreError "factor node changed during migration")
        else pure ()

def indexedGeneration (request : Request runtime) : Act (Option String) :=
  if request.identity.isSome then observe faults (readNodePointer request.nodeKey true) else pure none

/-- The generation that is there for the node already. -/
def reuse (nodeKey generation : String) : Act String := do
  takeLock faults ".lock"
  let lease ← openAndLease runtime faults draws generation (some nodeKey) true
  recordNodeAccess runtime faults draws nodeKey generation 60000000000
  lease.close faults
  pure generation

/-- `publish_generation` -/
def publishGeneration (request : Request runtime) : Act String := do
  Action.of (checkRequest runtime request)
  takeLock faults ".writer.lock"
  checkReplacement runtime faults request
  let indexed ← indexedGeneration runtime faults request
  match indexed, request.replaceGeneration with
  | some generation, none => reuse runtime faults draws request.nodeKey generation
  | _, _ => buildGeneration runtime faults draws request

/-- `publish_factor_node` -/
def publishFactorNode (identity : FactorNodeIdentity φ)
    (made : ∃ arguments, create runtime.floats arguments = .ok identity)
    (columns : OrderedDict String FloatArray) : Act String := do
  let schema := identity.fields.outputSchema
  if ¬ ((∀ column ∈ schema, column.name ∈ columns.keys) ∧ ∀ name ∈ columns.keys, name ∈ schema.map (·.name)) then
    Action.raise (.valueError "identity output schema must exactly match published columns")
  else if schema.any fun column => column.dtype ≠ "float64" || column.nullable then
    Action.raise (.valueError "mapped factor storage currently requires non-nullable float64 columns")
  else
    publishGeneration runtime faults draws {
      nodeKey := identity.nodeKey runtime.hexdigest
      columns := columns
      identity := some identity
      made := by
        rintro _ ⟨rfl⟩
        exact made
      replaceGeneration := none
      verifyWritten := false }

end Programs

end Gambit.Publication
