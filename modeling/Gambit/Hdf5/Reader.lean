import Gambit.Hdf5.Writer

/-!
# Reading a key

`hdf5_to_np_arrays`: the group is found component by component, its manifest
and the size of what it would return are checked, and only then are the arrays
read and decoded.
-/

set_option autoImplicit false

namespace Gambit.Hdf5

open PathTrees

variable {α : Type}

/-- `_hdf5_local_object`, from the object at `base`. -/
def hdf5LocalObject (file : H5File α) (base : List String) :
    List String → Except Exn (Option (H5Object α))
  | [] => .ok (file.node base)
  | component :: rest =>
      match file.node base with
      | some (.branch _) =>
          match file.node (base ++ [component]) with
          | none => .ok none
          | some _ => hdf5LocalObject file (base ++ [component]) rest
      | _ => .error (.valueError "HDF5 path component is not a group")

def hdf5IntegerAttribute (attrs : Attrs) (name : String) (fallback : Int) : Except Exn Int :=
  match attrs.get? name with
  | none => .ok fallback
  | some (.integer value) => .ok value
  | some _ => .error (.valueError "HDF5 attribute must be an integer scalar")

/-- `json.loads` of an attribute. -/
def loadNames : Option Attr → Except Exn (List String)
  | some (.names value) => .ok value
  | some _ => .error (.valueError "Expecting value")
  | none => .error .keyError

/-- `attribute.split(",")` -/
def splitNames : Attr → Except Exn (List String)
  | .text value => .ok ((value.toList.splitOn ',').map String.ofList)
  | _ => .error (.typeError "a string is expected")

/-- The columns and the UTF-8 columns that the attributes of a group list. -/
def readManifest (attrs : Attrs) : Except Exn (List String × List String) := do
  if attrs.get? "type" ≠ some (.text "dataframe") then
    .error (.valueError "HDF5 group is not a dataframe")
  if attrs.contains "schema_version" then
    let version ← hdf5IntegerAttribute attrs "schema_version" 0
    if attrs.get? "format" ≠ some (.text hdf5Format) ∨ version ≠ hdf5SchemaVersion then
      .error (.valueError "unsupported HDF5 dataframe schema version")
    if attrs.get? "state" ≠ some (.text "committed") then
      .error (.valueError "HDF5 dataframe group is not committed")
    let columns ← loadNames (attrs.get? "columns_json")
    let utf8Cols ← loadNames (some ((attrs.get? "utf8_columns_json").getD (.names [])))
    .ok (columns, utf8Cols)
  else
    match attrs.get? "columns" with
    | none => .error (.valueError "legacy HDF5 dataframe is missing its column manifest")
    | some listed =>
        let columns ← splitNames listed
        let utf8Cols ← splitNames ((attrs.get? "utf8_cols").getD (.text ""))
        .ok (columns, utf8Cols)

variable (np : NumPy α)

/-- The bytes a column takes once it is returned. -/
def decodedBytes (array : α) : Nat :=
  np.len array * (np.itemsize array * if np.kind array = .bytes then 4 else 1)

/-- One round of the loop over the columns: the bytes so far and the datasets admitted. -/
def admitColumn (object : String → Option (H5Object α)) (utf8Cols : List String)
    (declaredRows maxBytes : Int) (admitted : Nat × List (String × α)) (col : String) :
    Except Exn (Nat × List (String × α)) :=
  match object col with
  | some (.leaf dataset) => do
      if np.ndim dataset ≠ 1 ∨ (np.len dataset : Int) ≠ declaredRows then
        .error (.valueError "HDF5 dataframe column has inconsistent rows")
      if np.hasobject dataset then
        .error (.valueError "variable-length HDF5 columns are not supported")
      if col ∈ utf8Cols ∧ np.kind dataset ≠ .bytes then
        .error (.valueError "HDF5 UTF-8 column must use fixed-width bytes")
      let totalBytes := admitted.1 + decodedBytes np dataset
      if maxBytes < totalBytes then .error (.valueError "HDF5 dataset size exceeds limit")
      .ok (totalBytes, admitted.2 ++ [(col, dataset)])
  | _ => .error (.valueError "HDF5 dataframe column is missing or invalid")

def decodeColumn (utf8Cols : List String) (item : String × α) : Except Exn (String × α) :=
  if item.1 ∈ utf8Cols then do
    let array ← np.decode item.2
    .ok (item.1, array)
  else if np.kind item.2 = .bytes then do
    let array ← np.unicode item.2
    .ok (item.1, array)
  else .ok item

/-- The arrays of a group, from its attributes and the objects in it. -/
def readGroup (limits : Limits) (attrs : Attrs) (object : String → Option (H5Object α)) :
    Except Exn (List (String × α)) := do
  let (columns, utf8Cols) ← readManifest attrs
  if !(columns.all validColumnName && decide columns.Nodup) then
    .error (.valueError "invalid HDF5 dataframe column manifest")
  if !(utf8Cols.all fun col => col ∈ columns ∨ col = "") then
    .error (.valueError "HDF5 UTF-8 manifest references unknown columns")
  if limits.maxColumns < columns.length then
    .error (.valueError "HDF5 column count exceeds limit")
  let declaredRows ← hdf5IntegerAttribute attrs "rows" 0
  if declaredRows < 0 ∨ limits.maxRows < declaredRows then
    .error (.valueError "HDF5 row count exceeds limit")
  let (_, datasets) ←
    columns.foldlM (admitColumn np object utf8Cols declaredRows limits.maxBytes) (0, [])
  datasets.mapM (decodeColumn np utf8Cols)

/-- What is returned for the object found at a path. -/
def readObject (limits : Limits) (file : H5File α) (path : List String) :
    H5Object α → Except Exn (List (String × α))
  | .branch attrs => readGroup np limits attrs fun col => file.node (path ++ [col])
  | .leaf _ => .error (.valueError "HDF5 group is not a dataframe")

def hdf5ToNpArrays (file : H5File α) (key : String) (limits : Limits) :
    Except Exn (List (String × α)) := do
  let key ← normalizeHdf5Key key
  let _ ← validateResourceLimits limits
  match ← hdf5LocalObject file [] key.path with
  | some object => readObject np limits file key.path object
  | none =>
      match ← hdf5LocalObject file [] key.backup with
      | some object => readObject np limits file key.backup object
      | none => .ok []

end Gambit.Hdf5
