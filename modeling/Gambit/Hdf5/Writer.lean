import Gambit.Hdf5.Arrays
import Gambit.Lib.Interruptions
import Gambit.Lib.PathTrees

/-!
# Writing a key

`np_arrays_to_hdf5` as a program over the tree of the file.  Each call into
h5py is one statement; a test of what the file holds is read with the call it
guards.
-/

set_option autoImplicit false

namespace Gambit.Hdf5

open Interruptions PathTrees

/-- The value of an attribute; `names` is the JSON text of a list of strings. -/
inductive Attr where
  | text (value : String)
  | integer (value : Int)
  | names (value : List String)
deriving DecidableEq

abbrev Attrs := OrderedDict String Attr

abbrev H5Object (α : Type) := Node Attrs α

abbrev H5File (α : Type) := Tree String Attrs α

abbrev Statement (α : Type) := H5File α → Except Exn (H5File α)

def hdf5Format : String := "gambit.dataframe"

def hdf5SchemaVersion : Int := 1

variable {α : Type}

/-- `path in file` -/
def contains (file : H5File α) (path : List String) : Bool := (file.node path).isSome

def flush : Statement α := fun file => .ok file

def createGroup (path : List String) : Statement α := fun file =>
  if contains file path then .error (.valueError "Unable to create group (name already exists)")
  else
    match file.grow? path OrderedDict.empty with
    | some after => .ok after
    | none => .error (.valueError "Unable to create group (component not found)")

def move (source parent : List String) (name : String) : Statement α := fun file =>
  match file.move? source parent name with
  | some after => .ok after
  | none => .error (.valueError "Unable to move link")

/-- `del file[path]` -/
def delete (parent : List String) (name : String) : Statement α := fun file =>
  if contains file (parent ++ [name]) then .ok (file.delete parent name) else .error .keyError

/-- `grp.attrs[name] = value` -/
def setAttr (path : List String) (name : String) (value : Attr) : Statement α := fun file =>
  .ok (file.relabel path fun attrs => attrs.set name value)

def createDataset (np : NumPy α) (path : List String) (name : String) (array : α) :
    Statement α := fun file => do
  let array ← np.stored array
  match file.put? path name array with
  | some after => .ok after
  | none => .error (.valueError "Unable to create dataset")

/-- `if key not in file and backup_key in file: file.move(backup_key, key)` -/
def restoreBackup (key : Key) : Statement α := fun file =>
  if !contains file key.path && contains file key.backup then
    move key.backup key.parent key.name file
  else .ok file

/-- `if pending_key in file: del file[pending_key]` -/
def discardPending (key : Key) : Statement α := fun file =>
  if contains file key.pending then delete key.parent (key.name ++ pendingSuffix) file
  else .ok file

/-- `if backup_key in file: del file[backup_key]` -/
def discardBackup (key : Key) : Statement α := fun file =>
  if contains file key.backup then delete key.parent (key.name ++ backupSuffix) file
  else .ok file

/-- `if key in file and backup_key in file: del file[backup_key]` -/
def discardStaleBackup (key : Key) : Statement α := fun file =>
  if contains file key.path then discardBackup key file else .ok file

/-- `if key in f: f.move(key, backup_key)` -/
def setAside (key : Key) : Statement α := fun file =>
  if contains file key.path then move key.path key.parent (key.name ++ backupSuffix) file
  else .ok file

/-- `f.move(pending_key, key)` -/
def install (key : Key) : Statement α := move key.pending key.parent key.name

/-- `_recover_hdf5_group` -/
def recoverHdf5Group (key : Key) : List (Statement α) :=
  [restoreBackup key, flush, discardPending key, discardStaleBackup key, flush]

/-- The attributes set before the columns are stored. -/
def openingAttrs : List (String × Attr) :=
  [("format", .text hdf5Format), ("schema_version", .integer hdf5SchemaVersion),
    ("state", .text "writing")]

/-- The attributes set after. -/
def closingAttrs (timestamp : String) (rowCount : Nat) (columns utf8Columns : List String) :
    List (String × Attr) :=
  [("type", .text "dataframe"), ("timestamp", .text timestamp), ("rows", .integer rowCount),
    ("columns_json", .names columns), ("utf8_columns_json", .names utf8Columns),
    ("state", .text "committed")]

def setAttrs (path : List String) (attrs : List (String × Attr)) : List (Statement α) :=
  attrs.map fun attr => setAttr path attr.1 attr.2

/-- The exchange of the committed group for the one at the key. -/
def exchange (key : Key) : List (Statement α) :=
  [flush, discardBackup key, setAside key, flush, install key, flush, discardBackup key, flush]

variable (np : NumPy α) (fate : Fate Exn)

/-- One round of the loop over the columns. -/
def writeColumn (dtypes : Option (OrderedDict String String)) (key : Key)
    (done : Run (H5File α) × List String) (item : String × α) :
    Except (Raised (Halt Exn) (Run (H5File α))) (Run (H5File α) × List String) := do
  let (array, utf8Columns) ← compute (encodeColumn np dtypes done.2 item.1 item.2) done.1
  let run ← perform fate (createDataset np key.pending item.1 array) done.1
  .ok (run, utf8Columns)

/-- The part of the `try` statement that fills the staging group and commits it. -/
def fillGroup (request : Request α) (key : Key) (rowCount : Nat) :
    Program Exn (H5File α) (Run (H5File α)) := fun run => do
  let run ← inOrder fate (setAttrs key.pending openingAttrs) run
  let (run, utf8Columns) ←
    request.data.items.foldlM (writeColumn np fate request.dtypes key) (run, request.utf8Columns)
  inOrder fate (setAttrs key.pending
    (closingAttrs request.timestamp rowCount request.data.keys utf8Columns)) run

/-- The body of the `try` statement. -/
def writeGroup (request : Request α) (key : Key) (rowCount : Nat) :
    Program Exn (H5File α) (Run (H5File α)) := fun run => do
  let run ← fillGroup np fate request key rowCount run
  inOrder fate (exchange key) run

/-- What is refused once the arrays have been checked. -/
def checkColumnOptions (request : Request α) : Except Exn Unit := do
  if ¬ ∀ name ∈ request.asUtf8.getD [], name ∈ request.data.keys then
    .error (.valueError "as_utf8 contains unknown columns")
  if ¬ ∀ name ∈ (request.dtypes.map OrderedDict.keys).getD [], name ∈ request.data.keys then
    .error (.valueError "dtypes contains unknown columns")

/-- What is done before the file is opened: the key and the row count, or nothing
where there are no columns to write. -/
def Request.admission (request : Request α) : Except Exn (Option (Key × Nat)) := do
  let key ← normalizeHdf5Key request.key
  let _ ← validateResourceLimits request.limits
  let rowCount ← validateHdf5Arrays np request.data request.limits
  if request.data.items.isEmpty then .ok none
  else
    let _ ← checkColumnOptions request
    .ok (some (key, rowCount))

/-- What happens while the file is open. -/
def replaceGroup (request : Request α) (key : Key) (rowCount : Nat) :
    Program Exn (H5File α) (Run (H5File α)) := fun run => do
  let run ← inOrder fate (recoverHdf5Group key) run
  let run ← perform fate (createGroup key.pending) run
  guarded (writeGroup np fate request key rowCount)
    (inOrder fate [discardPending key, flush]) run

def npArraysToHdf5 (request : Request α) : Program Exn (H5File α) (Run (H5File α)) := fun run => do
  match ← compute (request.admission np) run with
  | none => .ok run
  | some (key, rowCount) => replaceGroup np fate request key rowCount run

end Gambit.Hdf5
