import Gambit.Lib.OrderedDict
import Gambit.Lib.Raising

/-!
# The factor store on disk

What factor_store.py finds in the directories of a store, leftovers and foreign
files included, and the file-system calls that remove from them.  A regular file
stands for what reading it gives.
-/

set_option autoImplicit false

namespace Gambit.FactorStore

open Raising

inductive StoreExn where
  | factorStoreError (message : String)
  /-- `FactorNodeCacheMiss` -/
  | cacheMiss (message : String)
  | valueError (message : String)
  | osError
  | keyError
  | typeError
  | attributeError
  | overflowError
deriving DecidableEq, Repr

structure Stat where
  size : Nat
  blocks : Nat
  mtimeNs : Int
deriving DecidableEq, Repr

/-- What stands under a name in a directory. -/
inductive Entry (α : Type) where
  | file (stat : Stat) (content : α)
  | link
  /-- A directory or a special file, with the blocks of it and of what is below. -/
  | other (blocks blocksBelow : Nat)
deriving DecidableEq, Repr

/-- A key of a JSON object. -/
inductive Field (α : Type) where
  | missing
  | value (a : α)
  /-- A value of another type. -/
  | foreign
deriving DecidableEq, Repr

/-- A file read as JSON. -/
inductive Document (α : Type) where
  | undecodable
  | notAnObject
  | object (a : α)
deriving DecidableEq, Repr

structure Manifest where
  generation : Field String
  nodeKey : Field String
  createdNs : Field Int
deriving DecidableEq, Repr

structure GenerationDirectory where
  blocks : Nat
  files : OrderedDict String (Entry (Document Manifest))
deriving DecidableEq

inductive GenerationEntry where
  | directory (contents : GenerationDirectory)
  | link
  | file (blocks : Nat)
deriving DecidableEq

/-- A lease file; `created_ns` and `pid` as `int` takes them. -/
structure LeaseMetadata where
  createdNs : Except StoreExn Int
  host : Field String
  pid : Except StoreExn Int
deriving DecidableEq

inductive LeaseFile where
  | file (blocks : Nat) (content : Document LeaseMetadata)
  /-- A symbolic link to a lease of the store; one to elsewhere reads like a file. -/
  | link (generation name : String)
deriving DecidableEq

inductive LeaseDirectory where
  | directory (blocks : Nat) (files : OrderedDict String LeaseFile)
  | link
deriving DecidableEq

/-- A record under `access`. -/
structure AccessRecord where
  format : Field String
  version : Field Int
  nodeKey : Field String
  generation : Field String
  lastAccessNs : Field Int
deriving DecidableEq, Repr

/-- `access` or `admission`; a linked directory is read through the link. -/
structure MetadataDirectory where
  blocks : Nat
  isLink : Bool
  files : OrderedDict String (Entry (Document AccessRecord))
deriving DecidableEq

inductive NodeIndex where
  | missing
  | link
  /-- The pointers, with their texts stripped where they can be read. -/
  | directory (blocks : Nat) (pointers : OrderedDict String (Entry (Option String)))
deriving DecidableEq

inductive MetadataKind where
  | access | admission
deriving DecidableEq, Repr

def MetadataKind.directoryName : MetadataKind → String
  | .access => "access"
  | .admission => "admission"

structure Store where
  /-- The directory of the store is there, and its lock files are. -/
  made : Bool
  writerLock : Bool
  storeLock : Bool
  /-- The text of `CURRENT`, stripped, if it can be read. -/
  current : Option String
  /-- `.CURRENT-*` -/
  pointerStaging : OrderedDict String (Entry Unit)
  nodes : NodeIndex
  generations : Option (OrderedDict String GenerationEntry)
  leases : OrderedDict String LeaseDirectory
  access : Option MetadataDirectory
  admission : Option MetadataDirectory
  /-- Blocks of everything else. -/
  otherBlocks : Nat
deriving DecidableEq

/-! ## Names -/

def isHex (length : Nat) (name : String) : Bool :=
  name.toList.length = length ∧ name.toList.all fun c => c ∈ "0123456789abcdef".toList

/-- `_GENERATION_PATTERN` -/
def isGeneration (name : String) : Bool := isHex 32 name

/-- `_NODE_KEY_PATTERN` -/
def isNodeKey (name : String) : Bool := isHex 64 name

def startsWith (start name : String) : Bool := start.toList.isPrefixOf name.toList

/-- The key of `([0-9a-f]{64})\.json`. -/
def metadataKey (name : String) : Option String :=
  let key := String.ofList (name.toList.take 64)
  if isNodeKey key ∧ name.toList.drop 64 = ".json".toList then some key else none

/-! ## Reading -/

namespace Store

def metadata (store : Store) : MetadataKind → Option MetadataDirectory
  | .access => store.access
  | .admission => store.admission

def pointer (store : Store) (name : String) : Option (Entry (Option String)) :=
  match store.nodes with
  | .directory _ pointers => pointers.get? name
  | _ => none

def generation (store : Store) (name : String) : Option GenerationEntry :=
  store.generations.bind fun entries => entries.get? name

/-- `_require_node_pointer` -/
def requireNodePointer (store : Store) (nodeKey : String) : Except StoreExn String :=
  if ¬ isNodeKey nodeKey then .error (.valueError "node_key must be a lowercase SHA-256 digest")
  else
    match store.pointer nodeKey with
    | some .link => .error (.factorStoreError "factor node index may not use symbolic links")
    | none => .error (.cacheMiss "factor node is not cached")
    | some (.file _ (some generation)) =>
        if isGeneration generation then .ok generation
        else .error (.factorStoreError "factor node index generation is invalid")
    | _ => .error (.factorStoreError "factor node index is unreadable")

/-- The checked text of `CURRENT`. -/
def currentGeneration (store : Store) : Except StoreExn String :=
  match store.current with
  | none => .error (.factorStoreError "factor store has no readable CURRENT generation")
  | some current =>
      if isGeneration current then .ok current
      else .error (.factorStoreError "factor store CURRENT generation is invalid")

/-- The bytes of a lease; a path goes through at most `depth` links. -/
def readLease (store : Store) (generation name : String) :
    Nat → Except StoreExn (Document LeaseMetadata)
  | 0 => .error .osError
  | depth + 1 =>
      match store.leases.get? generation with
      | some (.directory _ files) =>
          match files.get? name with
          | some (.file _ content) => .ok content
          | some (.link generation name) => readLease store generation name depth
          | none => .error .osError
      | _ => .error .osError

end Store

def maximumLinks : Nat := 40

/-! ## Changing -/

/-- A directory that is flushed. -/
inductive Flushed where
  | root
  | nodes
  | generations
  | metadata (kind : MetadataKind)
deriving DecidableEq, Repr

inductive Operation where
  | unlinkPointer (name : String)
  | unlinkNode (name : String)
  | removeGeneration (name : String)
  | unlinkLease (generation name : String)
  | removeLeaseDirectory (generation : String)
  | unlinkMetadata (kind : MetadataKind) (name : String)
  | fsync (directory : Flushed)
deriving DecidableEq, Repr

namespace Store

def unlinkPointer (store : Store) (name : String) : Except StoreExn Store :=
  if store.pointerStaging.contains name then
    .ok { store with pointerStaging := store.pointerStaging.erase name }
  else .error .osError

def unlinkNode (store : Store) (name : String) : Except StoreExn Store :=
  match store.nodes with
  | .directory blocks pointers =>
      if pointers.contains name then
        .ok { store with nodes := .directory blocks (pointers.erase name) }
      else .error .osError
  | _ => .error .osError

def eraseGeneration (store : Store) (name : String) : Store :=
  { store with generations := store.generations.map fun entries => entries.erase name }

/-- `shutil.rmtree` -/
def removeGeneration (store : Store) (name : String) : Except StoreExn Store :=
  match store.generation name with
  | some (.directory _) => .ok (store.eraseGeneration name)
  | _ => .error .osError

/-- `unlink(missing_ok=True)` -/
def unlinkLease (store : Store) (generation name : String) : Except StoreExn Store :=
  match store.leases.get? generation with
  | some (.directory blocks files) =>
      .ok { store with leases := store.leases.set generation (.directory blocks (files.erase name)) }
  | _ => .ok store

/-- `rmdir` -/
def removeLeaseDirectory (store : Store) (generation : String) : Except StoreExn Store :=
  match store.leases.get? generation with
  | some (.directory _ files) =>
      if files.keys = [] then .ok { store with leases := store.leases.erase generation }
      else .error .osError
  | _ => .error .osError

def unlinkMetadata (store : Store) (kind : MetadataKind) (name : String) : Store :=
  let unlink := Option.map fun place : MetadataDirectory =>
    { place with files := place.files.erase name }
  match kind with
  | .access => { store with access := unlink store.access }
  | .admission => { store with admission := unlink store.admission }

/-- Taking the locks makes the directory and the lock files. -/
def locked (store : Store) : Store :=
  { store with made := true, writerLock := true, storeLock := true }

end Store

def Operation.apply (store : Store) : Operation → Except StoreExn Store
  | .unlinkPointer name => store.unlinkPointer name
  | .unlinkNode name => store.unlinkNode name
  | .removeGeneration name => store.removeGeneration name
  | .unlinkLease generation name => store.unlinkLease generation name
  | .removeLeaseDirectory generation => store.removeLeaseDirectory generation
  | .unlinkMetadata kind name => .ok (store.unlinkMetadata kind name)
  | .fsync _ => .ok store

/-- The store, and what has been done to it. -/
structure World where
  store : Store
  performed : List Operation
deriving DecidableEq

def perform (operation : Operation) : Step StoreExn World := fun world =>
  match operation.apply world.store with
  | .ok store => .ok ⟨store, world.performed ++ [operation]⟩
  | .error error => .error ⟨error, world⟩

/-- `if not dry_run: ...` -/
def unlessDry (dryRun : Bool) (step : Step StoreExn World) : Step StoreExn World := fun world =>
  if dryRun then .ok world else step world

/-- What the operating system answers. -/
structure Environment where
  hostname : String
  /-- `_local_process_is_dead`, with the exceptions it lets through. -/
  localProcessIsDead : Int → Except StoreExn Bool
  /-- `time.time_ns()` once the locks are held, and while a node is scanned. -/
  nowNs : Int
  scanNs : String → Int
  /-- Nanoseconds as float seconds, and back as `int(seconds * 1_000_000_000)`. -/
  seconds : Int → Except StoreExn ℚ
  nanoseconds : ℚ → Except StoreExn Int
  /-- `f_bavail * f_frsize` -/
  freeBytes : Nat

end Gambit.FactorStore
