import Gambit.Python
import Gambit.Lib.OrderedDict

/-!
# Keys and arrays

What `pq_io.py` checks before it opens a file, and how it turns a NumPy array
into the one it stores.  NumPy and h5py are parameters: the shape and dtype of
an array, its conversions and what `create_dataset` accepts.
-/

set_option autoImplicit false

namespace Gambit.Hdf5

/-! ## Keys -/

def pendingSuffix : String := ".__gambit_pending"

def backupSuffix : String := ".__gambit_backup"

structure ValidPart (part : String) : Prop where
  nonempty : part ≠ ""
  notDot : part ≠ "."
  notDotDot : part ≠ ".."
  notPending : ¬ pendingSuffix.toList <:+ part.toList
  notBackup : ¬ backupSuffix.toList <:+ part.toList

instance (part : String) : Decidable (ValidPart part) :=
  decidable_of_iff (part ≠ "" ∧ part ≠ "." ∧ part ≠ ".." ∧
      ¬ pendingSuffix.toList <:+ part.toList ∧ ¬ backupSuffix.toList <:+ part.toList)
    ⟨fun ⟨a, b, c, d, e⟩ => ⟨a, b, c, d, e⟩, fun ⟨a, b, c, d, e⟩ => ⟨a, b, c, d, e⟩⟩

/-- A normalised key: the groups it lies in and its own name. -/
structure Key where
  parent : List String
  name : String
  valid : ∀ part ∈ parent ++ [name], ValidPart part

def Key.path (key : Key) : List String := key.parent ++ [key.name]

/-- `key + ".__gambit_pending"` -/
def Key.pending (key : Key) : List String := key.parent ++ [key.name ++ pendingSuffix]

/-- `key + ".__gambit_backup"` -/
def Key.backup (key : Key) : List String := key.parent ++ [key.name ++ backupSuffix]

instance : DecidableEq Key := fun a b =>
  decidable_of_iff (a.parent = b.parent ∧ a.name = b.name) (by cases a; cases b; simp)

/-- `key.strip("/")` -/
def stripSlashes (key : List Char) : List Char :=
  ((key.dropWhile (· = '/')).reverse.dropWhile (· = '/')).reverse

def normalizeHdf5Key (key : String) : Except Exn Key :=
  let stripped := stripSlashes key.toList
  if stripped = [] ∨ '\x00' ∈ key.toList then
    .error (.valueError "HDF5 key must be a non-empty path")
  else
    let parts := (stripped.splitOn '/').map String.ofList
    if valid : parts ≠ [] ∧ ∀ part ∈ parts, ValidPart part then
      .ok ⟨parts.dropLast, parts.getLast valid.1, by
        rw [List.dropLast_append_getLast]
        exact valid.2⟩
    else .error (.valueError "invalid HDF5 key")

/-! ## Limits -/

structure Limits where
  maxColumns : Int
  maxRows : Int
  maxBytes : Int
deriving DecidableEq

/-- The `DEFAULT_MAX_HDF5_*` constants. -/
def defaultLimits : Limits := ⟨10000, 100000000, 8 * 1024 ^ 3⟩

def validateResourceLimits (limits : Limits) : Except Exn Unit :=
  if limits.maxColumns ≤ 0 ∨ limits.maxRows ≤ 0 ∨ limits.maxBytes ≤ 0 then
    .error (.valueError "HDF5 resource limits must be positive integers")
  else .ok ()

/-! ## Arrays -/

/-- `dtype.kind` -/
inductive Kind where
  | unicode | bytes | object | datetime | other
deriving DecidableEq

/-- What is used of NumPy and of h5py's datasets. -/
structure NumPy (α : Type) where
  kind : α → Kind
  ndim : α → Nat
  len : α → Nat
  nbytes : α → Nat
  itemsize : α → Nat
  /-- `dtype.hasobject` -/
  hasobject : α → Bool
  /-- `sum(len(str(value).encode("utf-8")) for value in array)` -/
  textBytes : α → Nat
  /-- `array.astype` of a dtype by its name, where `M` dtypes are tagged for h5py. -/
  astype : String → α → Except Exn α
  /-- `np.char.encode(array.astype("U"), "utf-8")` -/
  encode : α → Except Exn α
  /-- `np.where(array == None, "", array).astype("S")` -/
  objectBytes : α → Except Exn α
  /-- `array.astype(h5py.opaque_dtype(dtype))` -/
  taggedDatetimes : α → Except Exn α
  /-- The array that `dataset[:]` returns once `create_dataset` has stored one. -/
  stored : α → Except Exn α
  /-- `np.char.decode(array, "utf-8")` -/
  decode : α → Except Exn α
  /-- `array.astype(f"U{array.dtype.itemsize}")` -/
  unicode : α → Except Exn α

variable {α : Type} (np : NumPy α)

def validColumnName (name : String) : Bool :=
  name ≠ "" && !(name.toList.contains '/') && !(name.toList.contains '\x00') && name ≠ "." &&
    name ≠ ".."

/-- One round of the loop of `_validate_hdf5_arrays`, on the row count and the bytes. -/
def validateColumn (counted : Option Nat × Nat) (item : String × α) :
    Except Exn (Option Nat × Nat) := do
  let (name, array) := item
  let (rowCount, totalBytes) := counted
  if !validColumnName name then .error (.valueError "invalid HDF5 column name")
  if np.ndim array ≠ 1 then .error (.valueError "HDF5 column must be one-dimensional")
  if rowCount.getD (np.len array) ≠ np.len array then
    .error (.valueError "all HDF5 columns must have the same row count")
  let bytes := if np.kind array = .object then np.textBytes array else np.nbytes array
  .ok (some (rowCount.getD (np.len array)), totalBytes + bytes)

def validateHdf5Arrays (data : OrderedDict String α) (limits : Limits) : Except Exn Nat := do
  if limits.maxColumns < data.items.length then
    .error (.valueError "HDF5 column count exceeds limit")
  let (rowCount, totalBytes) ← data.items.foldlM (validateColumn np) (none, 0)
  let rows := rowCount.getD 0
  if limits.maxRows < rows then .error (.valueError "HDF5 row count exceeds limit")
  if limits.maxBytes < totalBytes then .error (.valueError "HDF5 input size exceeds limit")
  .ok rows

/-- The arguments of `np_arrays_to_hdf5`, and the time it writes down. -/
structure Request (α : Type) where
  data : OrderedDict String α
  key : String
  dtypes : Option (OrderedDict String String)
  asUtf8 : Option (List String)
  limits : Limits
  timestamp : String

/-- The array to store for a column, and the columns to be decoded as UTF-8. -/
def encodeColumn (dtypes : Option (OrderedDict String String)) (utf8Columns : List String)
    (colname : String) (array : α) : Except Exn (α × List String) :=
  match dtypes.bind (·.get? colname) with
  | some dtype => do
      let array ← np.astype dtype array
      .ok (array, utf8Columns)
  | none =>
      if colname ∈ utf8Columns ∨ np.kind array = .unicode then do
        let array ← np.encode array
        .ok (array, if colname ∈ utf8Columns then utf8Columns else utf8Columns ++ [colname])
      else
        match np.kind array with
        | .object => do
            let array ← np.objectBytes array
            .ok (array, utf8Columns)
        | .datetime => do
            let array ← np.taggedDatetimes array
            .ok (array, utf8Columns)
        | _ => .ok (array, utf8Columns)

/-! ## Sets of arrays

What a completed write leaves in its group.
-/

/-- The datasets of a group in the order of its manifest, and what its attributes say. -/
structure ArraySet (α : Type) where
  columns : OrderedDict String α
  utf8Columns : List String
  rows : Nat
  timestamp : String
deriving DecidableEq

/-- `list(dict.fromkeys(as_utf8))` -/
def Request.utf8Columns (request : Request α) : List String :=
  (request.asUtf8.getD []).eraseDups

/-- One round of the loop over the columns, without the file. -/
def storeColumn (dtypes : Option (OrderedDict String String))
    (done : OrderedDict String α × List String) (item : String × α) :
    Except Exn (OrderedDict String α × List String) := do
  let (array, utf8Columns) ← encodeColumn np dtypes done.2 item.1 item.2
  let array ← np.stored array
  .ok (done.1.set item.1 array, utf8Columns)

/-- The set a request stores, where every conversion succeeds. -/
def Request.arrays (request : Request α) (rowCount : Nat) : Except Exn (ArraySet α) := do
  let (columns, utf8Columns) ←
    request.data.items.foldlM (storeColumn np request.dtypes)
      (OrderedDict.empty, request.utf8Columns)
  .ok ⟨columns, utf8Columns, rowCount, request.timestamp⟩

end Gambit.Hdf5
