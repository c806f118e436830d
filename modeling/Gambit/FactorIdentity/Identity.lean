import Gambit.Lib.OrderedDict
import Gambit.FactorIdentity.Canonical

/-!
# Identities of factor-DAG nodes

The constructor's checks, the snapshot it freezes as JSON text, and the way
back from a snapshot.  The texts are UTF-8 in the source, and `hexdigest` is
SHA-256 of them.
-/

set_option autoImplicit false

namespace Gambit.FactorIdentity

open PythonJson Raising

variable {φ : Type} (floats : FloatFormat φ)

def identityFormat : String := "gambit-factor-node"

def identityVersion : Int := 1

/-- `_DIGEST_PATTERN`: `[0-9a-f]{64}` -/
def isDigest (text : String) : Bool :=
  text.length = 64 && text.toList.all fun c => c.isDigit || ('a' ≤ c && c ≤ 'f')

/-- `_NAME_PATTERN`: `[A-Za-z][A-Za-z0-9_.-]{0,127}` -/
def isName (text : String) : Bool :=
  match text.toList with
  | first :: rest =>
      first.isAlpha && rest.length ≤ 127 &&
        rest.all fun c => c.isAlphanum || c = '_' || c = '.' || c = '-'
  | [] => false

def refuse (refused : Bool) (message : String) : Except Exn Unit :=
  if refused then .error (.valueError message) else .ok ()

def validateDigest (value fieldName : String) : Except Exn Unit :=
  refuse (!isDigest value) (fieldName ++ " must contain lowercase SHA-256 digests")

/-! ## Columns -/

structure FactorColumnSchema where
  name : String
  dtype : String
  nullable : Bool
  safe : isName name = true
  sized : dtype ≠ "" ∧ dtype.length ≤ 128

def FactorColumnSchema.create (name dtype : String) (nullable : Bool) : Except Exn FactorColumnSchema :=
  if safe : isName name = true then
    if sized : dtype ≠ "" ∧ dtype.length ≤ 128 then .ok ⟨name, dtype, nullable, safe, sized⟩
    else .error (.valueError "factor column dtype must be non-empty and at most 128 characters")
  else .error (.valueError "factor column name must be a safe portable identifier")

def FactorColumnSchema.snapshot (column : FactorColumnSchema) : PyValue φ :=
  dict [("name", .str column.name), ("dtype", .str column.dtype), ("nullable", .bool column.nullable)]

/-! ## The constructor -/

/-- What the constructor is called with.  The mappings are the caller's. -/
structure Arguments (φ : Type) where
  transform : String
  transformVersion : String
  outputSchema : List FactorColumnSchema
  rowOrdering : List String
  parents : List String
  inputFingerprints : OrderedDict String String
  parameters : List (Key × PyValue φ)
  researchContext : List (Key × PyValue φ)

def checkParents : List String → Except Exn Unit
  | [] => .ok ()
  | parent :: rest => do
      validateDigest parent "parents"
      checkParents rest

def checkInputs : List (String × String) → Except Exn Unit
  | [] => .ok ()
  | (name, fingerprint) :: rest => do
      refuse (!isName name) "input fingerprint names must be safe portable identifiers"
      validateDigest fingerprint "input_fingerprints"
      checkInputs rest

/-- The checks of `__post_init__`, in its order. -/
def Arguments.check (arguments : Arguments φ) : Except Exn Unit := do
  refuse (arguments.transform = "" || 255 < arguments.transform.length)
    "transform must be non-empty and at most 255 characters"
  refuse (arguments.transformVersion = "" || 128 < arguments.transformVersion.length)
    "transform_version must be non-empty and at most 128 characters"
  refuse arguments.outputSchema.isEmpty "output_schema must not be empty"
  refuse (!decide (arguments.outputSchema.map FactorColumnSchema.name).Nodup)
    "output_schema column names must be unique"
  refuse (arguments.rowOrdering.isEmpty || arguments.rowOrdering.any (· = ""))
    "row_ordering must explicitly name at least one ordering field"
  refuse (!decide arguments.rowOrdering.Nodup) "row_ordering fields must be unique"
  checkParents arguments.parents
  refuse (!decide arguments.parents.Nodup) "parents must not contain duplicate node keys"
  refuse (arguments.parents.isEmpty && arguments.inputFingerprints.items.isEmpty)
    "a factor node must identify at least one parent or input"
  checkInputs arguments.inputFingerprints.items

def strings (texts : List String) : PyValue φ := .sequence .list (texts.map .str)

/-- `dict(sorted(self.input_fingerprints.items()))` -/
def sortedInputs (inputs : OrderedDict String String) : List (String × String) :=
  (SortedDict.ofList inputs.items).items

def texts (fields : List (String × String)) : PyValue φ :=
  dict (fields.map fun field => (field.1, .str field.2))

/-- The dict that `_build_snapshot` returns, with the mappings it canonicalised. -/
def Arguments.snapshotDict (arguments : Arguments φ) (parameters researchContext : PyValue φ) : PyValue φ :=
  dict [
    ("format", .str identityFormat),
    ("version", .int identityVersion),
    ("parents", strings arguments.parents),
    ("inputs", texts (sortedInputs arguments.inputFingerprints)),
    ("transform", texts [("name", arguments.transform), ("version", arguments.transformVersion)]),
    ("parameters", parameters),
    ("output_schema", .sequence .list (arguments.outputSchema.map FactorColumnSchema.snapshot)),
    ("row_ordering", strings arguments.rowOrdering),
    ("research_context", researchContext)]

/-- `_build_snapshot` -/
def Arguments.buildSnapshot (arguments : Arguments φ) : Except Exn (PyValue φ) := do
  let parameters ← canonicalize (.mapping true arguments.parameters) "parameters"
  let researchContext ← canonicalize (.mapping true arguments.researchContext) "research_context"
  .ok (arguments.snapshotDict parameters researchContext)

/-- The fields, with the structures the caller passed, and the payload. -/
structure FactorNodeIdentity (φ : Type) where
  fields : Arguments φ
  canonicalPayload : List Char

/-- `FactorNodeIdentity(...)` -/
def create (arguments : Arguments φ) : Except Exn (FactorNodeIdentity φ) := do
  arguments.check
  let snapshot ← arguments.buildSnapshot
  match dumps floats snapshot with
  | some payload => .ok ⟨arguments, payload⟩
  | none => .error (.valueError "Out of range float values are not JSON compliant")

def FactorNodeIdentity.snapshot (identity : FactorNodeIdentity φ) : Option (PyValue φ) :=
  loads floats identity.canonicalPayload

def FactorNodeIdentity.nodeKey (hexdigest : List Char → String) (identity : FactorNodeIdentity φ) :
    String :=
  hexdigest identity.canonicalPayload

/-! ## From a snapshot -/

/-- `snapshot[name]`, of a name it has. -/
def item (entries : List (Key × PyValue φ)) (name : String) : PyValue φ :=
  ((entries.find? fun entry => entry.1 = .str name).map Prod.snd).getD .none

/-- `set(snapshot) == {...}` -/
def hasExactly (entries : List (Key × PyValue φ)) (names : List String) : Bool :=
  entries.all (fun entry => decide (entry.1 ∈ names.map Key.str)) &&
    names.all fun name => decide (Key.str name ∈ entries.map Prod.fst)

def snapshotFields : List String :=
  ["format", "version", "parents", "inputs", "transform", "parameters", "output_schema", "row_ordering",
    "research_context"]

/-- `isinstance(value, dict)` -/
def asDict (message : String) : PyValue φ → Except Exn (List (Key × PyValue φ))
  | .mapping true entries => .ok entries
  | _ => .error (.valueError message)

/-- `isinstance(value, list)` -/
def asList (message : String) : PyValue φ → Except Exn (List (PyValue φ))
  | .sequence .list items => .ok items
  | _ => .error (.valueError message)

/-- `isinstance(value, str)` -/
def asStr (message : String) : PyValue φ → Except Exn String
  | .str text => .ok text
  | _ => .error (.valueError message)

def asBool (message : String) : PyValue φ → Except Exn Bool
  | .bool value => .ok value
  | _ => .error (.valueError message)

def isVersion (format version : PyValue φ) : Bool :=
  match format, version with
  | .str text, .int number => text = identityFormat && number = identityVersion
  | _, _ => false

def allStr (message : String) : List (PyValue φ) → Except Exn (List String)
  | [] => .ok []
  | value :: rest => do
      let text ← asStr message value
      let texts ← allStr message rest
      .ok (text :: texts)

/-- The pairs of `inputs`, names and values `str`. -/
def inputItems : List (Key × PyValue φ) → Except Exn (List (String × String))
  | [] => .ok []
  | (.str name, value) :: rest => do
      let text ← asStr "factor identity inputs are invalid" value
      let items ← inputItems rest
      .ok ((name, text) :: items)
  | (.other, _) :: _ => .error (.valueError "factor identity inputs are invalid")

def columnOf (value : PyValue φ) : Except Exn FactorColumnSchema := do
  let column ← asDict "factor identity output schema is invalid" value
  refuse (!hasExactly column ["name", "dtype", "nullable"]) "factor identity output schema is invalid"
  let name ← asStr "factor identity output schema is invalid" (item column "name")
  let dtype ← asStr "factor identity output schema is invalid" (item column "dtype")
  let nullable ← asBool "factor identity output schema is invalid" (item column "nullable")
  FactorColumnSchema.create name dtype nullable

def columnsOf : List (PyValue φ) → Except Exn (List FactorColumnSchema)
  | [] => .ok []
  | value :: rest => do
      let column ← columnOf value
      let columns ← columnsOf rest
      .ok (column :: columns)

/-- The checks of `from_snapshot`, and what it calls the constructor with. -/
def argumentsOf (snapshot : PyValue φ) : Except Exn (Arguments φ) := do
  let entries ← asDict "factor identity snapshot fields are invalid" snapshot
  refuse (!hasExactly entries snapshotFields) "factor identity snapshot fields are invalid"
  refuse (!isVersion (item entries "format") (item entries "version"))
    "factor identity snapshot version is invalid"
  let transform ← asDict "factor identity transform is invalid" (item entries "transform")
  refuse (!hasExactly transform ["name", "version"]) "factor identity transform is invalid"
  let parents ← asList "factor identity parents are invalid" (item entries "parents")
  let parents ← allStr "factor identity parents are invalid" parents
  let inputs ← asDict "factor identity inputs are invalid" (item entries "inputs")
  let schema ← asList "factor identity output schema is invalid" (item entries "output_schema")
  let ordering ← asList "factor identity row ordering is invalid" (item entries "row_ordering")
  let ordering ← allStr "factor identity row ordering is invalid" ordering
  let parameters ← asDict "factor identity mappings are invalid" (item entries "parameters")
  let context ← asDict "factor identity mappings are invalid" (item entries "research_context")
  let columns ← columnsOf schema
  let name ← asStr "factor identity transform is invalid" (item transform "name")
  let version ← asStr "factor identity transform is invalid" (item transform "version")
  let inputs ← inputItems inputs
  .ok {
    transform := name
    transformVersion := version
    outputSchema := columns
    rowOrdering := ordering
    parents := parents
    inputFingerprints := OrderedDict.ofList inputs
    parameters := parameters
    researchContext := context }

def fromSnapshot (snapshot : PyValue φ) : Except Exn (FactorNodeIdentity φ) := do
  let arguments ← argumentsOf snapshot
  create floats arguments

end Gambit.FactorIdentity
