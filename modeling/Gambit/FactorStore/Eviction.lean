import Gambit.FactorStore.Store

/-!
# Bounded eviction

`evict_factor_nodes` and `enforce_factor_cache_quota`: nodes that are neither
current nor leased go, the least recently used first, until the limits hold.
-/

set_option autoImplicit false

namespace Gambit.FactorStore

open Raising

structure EvictArguments where
  maxBytes : Int
  maxNodes : Option Int
  maxCacheAllocatedBytes : Option Int
  minimumFreeBytes : Int
  triggerCacheAllocatedBytes : Option Int
  dryRun : Bool
deriving DecidableEq, Repr

/-- An element of `entries`. -/
structure NodeEntry where
  lastAccessNs : Int
  nodeKey : String
  generation : String
  storedBytes : Nat
  allocatedBytes : Nat
  isProtected : Bool
deriving DecidableEq, Repr

structure Totals where
  bytes : Int
  nodes : Int
  cacheAllocatedBytes : Int
  filesystemFreeBytes : Int
deriving DecidableEq, Repr

structure EvictReport where
  evictedNodeKeys : List String
  removedGenerations : List String
  protectedNodeKeys : List String
  before : Totals
  after : Totals
  quotaTriggered : Bool
  limitsSatisfied : Bool
  dryRun : Bool
deriving DecidableEq, Repr

def EvictArguments.check (arguments : EvictArguments) : Except StoreExn Unit :=
  if arguments.maxBytes < 0 then .error (.valueError "max_bytes must be a non-negative integer")
  else if arguments.maxNodes.any (· < 0) then
    .error (.valueError "max_nodes must be a non-negative integer or None")
  else if arguments.maxCacheAllocatedBytes.any (· < 0) then
    .error (.valueError "max_cache_allocated_bytes must be a non-negative integer or None")
  else if arguments.minimumFreeBytes < 0 then
    .error (.valueError "minimum_free_bytes must be a non-negative integer or None")
  else if arguments.triggerCacheAllocatedBytes.any (· < 0) then
    .error (.valueError "trigger_cache_allocated_bytes must be a non-negative integer or None")
  else
    match arguments.triggerCacheAllocatedBytes, arguments.maxCacheAllocatedBytes with
    | some trigger, some target =>
        if trigger < target then
          .error (.valueError "trigger_cache_allocated_bytes must not be below the cache target")
        else .ok ()
    | _, _ => .ok ()

/-! ## Sizes -/

def blockBytes : Nat := 512

section Sizes

variable {α : Type}

/-- `st_blocks` of everything in a directory that is no link. -/
def allocatedBelow (entries : OrderedDict String (Entry α)) : Nat :=
  (entries.values.map fun entry =>
    match entry with
    | .file stat _ => stat.blocks
    | .link => 0
    | .other blocks blocksBelow => blocks + blocksBelow).sum

/-- `st_blocks` of a path that exists and is no link. -/
def ownBlocks : Option (Entry α) → Nat
  | some (.file stat _) => stat.blocks
  | some (.other blocks _) => blocks
  | _ => 0

end Sizes

def GenerationDirectory.allocatedBlocks (contents : GenerationDirectory) : Nat :=
  allocatedBelow contents.files + contents.blocks

/-- `_generation_stored_bytes` -/
def GenerationDirectory.storedBytes (contents : GenerationDirectory) : Except StoreExn Nat :=
  contents.files.values.foldlM (fun total entry =>
    match entry with
    | .link => .error (.factorStoreError "factor generation may not use symbolic links")
    | .file stat _ => .ok (total + stat.size)
    | .other _ _ => .ok total) 0

namespace Store

/-- `_allocated_bytes(store)` -/
def allocatedBytes (store : Store) : Nat :=
  let generations := (store.generations.map OrderedDict.values).getD []
  let metadata := [store.access, store.admission].filterMap id
  ((generations.map fun entry =>
      match entry with
      | .directory contents => contents.allocatedBlocks
      | .file blocks => blocks
      | .link => 0).sum
    + (store.leases.values.map fun directory =>
        match directory with
        | .directory blocks files => blocks + (files.values.map fun file =>
            match file with
            | .file blocks _ => blocks
            | .link _ _ => 0).sum
        | .link => 0).sum
    + (metadata.map fun place =>
        if place.isLink then 0 else place.blocks + allocatedBelow place.files).sum
    + (match store.nodes with
        | .directory blocks pointers => blocks + allocatedBelow pointers
        | _ => 0)
    + allocatedBelow store.pointerStaging + store.otherBlocks) * blockBytes

def metadataFile (store : Store) (kind : MetadataKind) (nodeKey : String) :
    Option (Entry (Document AccessRecord)) :=
  (store.metadata kind).bind fun place => place.files.get? (nodeKey ++ ".json")

/-- `_node_reclaimable_allocated_bytes` -/
def reclaimableAllocatedBytes (store : Store) (nodeKey generation : String)
    (contents : GenerationDirectory) : Nat :=
  let leaseBlocks :=
    match store.leases.get? generation with
    | some (.directory blocks files) => if files.keys = [] then blocks else 0
    | _ => 0
  (contents.allocatedBlocks + ownBlocks (store.pointer nodeKey)
    + ownBlocks (store.metadataFile .access nodeKey)
    + ownBlocks (store.metadataFile .admission nodeKey) + leaseBlocks) * blockBytes

/-- The directory of a generation, with its manifest. -/
def readManifest (store : Store) (generation : String) :
    Except StoreExn (GenerationDirectory × Stat × Manifest) :=
  match store.generation generation with
  | some .link => .error (.factorStoreError "factor generation may not use symbolic links")
  | some (.directory contents) =>
      match contents.files.get? "manifest.json" with
      | some .link => .error (.factorStoreError "factor generation may not use symbolic links")
      | some (.file stat (.object manifest)) => .ok (contents, stat, manifest)
      | some (.file _ .notAnObject) => .error .attributeError
      | _ => .error (.factorStoreError "factor generation manifest is unreadable")
  | _ => .error (.factorStoreError "factor generation manifest is unreadable")

/-- `_read_node_last_access` -/
def readNodeLastAccess (store : Store) (nowNs : Int) (nodeKey generation : String)
    (fallbackNs : Int) : Int :=
  match store.metadataFile .access nodeKey with
  | some (.file _ (.object record)) =>
      match record.lastAccessNs with
      | .value lastAccessNs =>
          if record.format = .value "gambit-factor-access" ∧ record.version = .value 1 ∧
              record.nodeKey = .value nodeKey ∧ record.generation = .value generation ∧
              0 ≤ lastAccessNs ∧ lastAccessNs ≤ nowNs then
            lastAccessNs
          else fallbackNs
      | _ => fallbackNs
  | _ => fallbackNs

/-- A lease directory that is a link, or has anything in it. -/
def leased (store : Store) (generation : String) : Bool :=
  match store.leases.get? generation with
  | some .link => true
  | some (.directory _ files) => files.keys ≠ []
  | none => false

end Store

/-! ## The scan -/

def createdNs (manifest : Manifest) (stat : Stat) : Except StoreExn Int :=
  let invalid := Except.error (.factorStoreError "factor generation creation timestamp is invalid")
  match manifest.createdNs with
  | .missing => if stat.mtimeNs < 0 then invalid else .ok stat.mtimeNs
  | .value created => if created < 0 then invalid else .ok created
  | .foreign => invalid

/-- The entry of a pointer, or nothing for a staged one. -/
def scanNode (environment : Environment) (current : String) (store : Store) (nodeKey : String) :
    Except StoreExn (Option NodeEntry) :=
  if startsWith "." nodeKey then .ok none
  else if ¬ isNodeKey nodeKey then
    .error (.factorStoreError "factor node index contains an invalid key")
  else do
    let generation ← store.requireNodePointer nodeKey
    let (contents, stat, manifest) ← store.readManifest generation
    if manifest.generation ≠ .value generation ∨ manifest.nodeKey ≠ .value nodeKey then
      .error (.factorStoreError "factor node index does not match its generation manifest")
    else
      let storedBytes ← contents.storedBytes
      let allocatedBytes := store.reclaimableAllocatedBytes nodeKey generation contents
      let fallbackNs ← createdNs manifest stat
      let lastAccessNs :=
        store.readNodeLastAccess (environment.scanNs nodeKey) nodeKey generation fallbackNs
      .ok (some ⟨lastAccessNs, nodeKey, generation, storedBytes, allocatedBytes,
        generation = current || store.leased generation⟩)

def scanNodes (environment : Environment) (current : String) (store : Store) :
    Except StoreExn (List NodeEntry) :=
  match store.nodes with
  | .link => .error (.factorStoreError "factor node index may not use symbolic links")
  | .missing => .ok []
  | .directory _ pointers =>
      pointers.keys.foldlM (fun entries nodeKey => do
        let entry ← scanNode environment current store nodeKey
        .ok (entries ++ entry.toList)) []

/-- Tuples compare by last access and then by node key, which no two share. -/
def NodeEntry.notAfter (a b : NodeEntry) : Bool :=
  a.lastAccessNs < b.lastAccessNs || a.lastAccessNs = b.lastAccessNs && a.nodeKey ≤ b.nodeKey

def sortedEntries (entries : List NodeEntry) : List NodeEntry :=
  entries.insertionSort fun a b => a.notAfter b

/-! ## The limits -/

def totalsBefore (environment : Environment) (store : Store) (entries : List NodeEntry) : Totals where
  bytes := (entries.map NodeEntry.storedBytes).sum
  nodes := entries.length
  cacheAllocatedBytes := store.allocatedBytes
  filesystemFreeBytes := environment.freeBytes

def EvictArguments.quotaTriggered (arguments : EvictArguments) (before : Totals) : Bool :=
  (match arguments.triggerCacheAllocatedBytes with
    | some trigger => trigger < before.cacheAllocatedBytes
    | none => false) || before.filesystemFreeBytes < arguments.minimumFreeBytes

/-- `over_limit` -/
def EvictArguments.overLimit (arguments : EvictArguments) (quotaTriggered : Bool) (totals : Totals) :
    Bool :=
  let ordinaryLimit := arguments.maxBytes < totals.bytes || arguments.maxNodes.any (· < totals.nodes)
  let quotaLimit := quotaTriggered &&
    (arguments.maxCacheAllocatedBytes.any (· < totals.cacheAllocatedBytes) ||
      totals.filesystemFreeBytes < arguments.minimumFreeBytes)
  ordinaryLimit || quotaLimit

def Totals.without (totals : Totals) (entry : NodeEntry) : Totals where
  bytes := totals.bytes - entry.storedBytes
  nodes := totals.nodes - 1
  cacheAllocatedBytes := totals.cacheAllocatedBytes - entry.allocatedBytes
  filesystemFreeBytes := totals.filesystemFreeBytes + entry.allocatedBytes

/-! ## The eviction -/

def removeEmptyLeaseDirectory (generation : String) : Step StoreExn World := fun world =>
  match world.store.leases.get? generation with
  | some (.directory _ files) =>
      if files.keys = [] then perform (.removeLeaseDirectory generation) world else .ok world
  | _ => .ok world

def evictMetadata (nodeKey : String) : Step StoreExn World := fun world =>
  [MetadataKind.access, .admission].foldlM (fun world kind =>
    match world.store.metadataFile kind nodeKey with
    | some (.file _ _) => perform (.unlinkMetadata kind (nodeKey ++ ".json")) world
    | _ => .ok world) world

/-- What is removed for a node, its pointer first. -/
def evictNode (entry : NodeEntry) : Step StoreExn World := fun world => do
  let world ← perform (.unlinkNode entry.nodeKey) world
  let world ← perform (.removeGeneration entry.generation) world
  let world ← removeEmptyLeaseDirectory entry.generation world
  evictMetadata entry.nodeKey world

structure Evicting where
  world : World
  evictedNodeKeys : List String
  removedGenerations : List String
  protectedNodeKeys : List String
  totals : Totals
deriving DecidableEq

/-- The loop over the sorted entries, left once the limits hold. -/
def evictEntries (arguments : EvictArguments) (quotaTriggered : Bool) :
    List NodeEntry → Evicting → Except (Raised StoreExn World) Evicting
  | [], state => .ok state
  | entry :: rest, state =>
      if ¬ arguments.overLimit quotaTriggered state.totals then .ok state
      else if entry.isProtected then
        evictEntries arguments quotaTriggered rest
          { state with protectedNodeKeys := state.protectedNodeKeys ++ [entry.nodeKey] }
      else do
        let world ← unlessDry arguments.dryRun (evictNode entry) state.world
        evictEntries arguments quotaTriggered rest
          { state with
            world
            evictedNodeKeys := state.evictedNodeKeys ++ [entry.nodeKey]
            removedGenerations := state.removedGenerations ++ [entry.generation]
            totals := state.totals.without entry }

def flushEvicted : Step StoreExn World := fun world => do
  let world ← perform (.fsync .nodes) world
  let world ← perform (.fsync .generations) world
  [MetadataKind.access, .admission].foldlM (fun world kind =>
    match world.store.metadata kind with
    | some place => if place.isLink then .ok world else perform (.fsync (.metadata kind)) world
    | none => .ok world) world

/-- What is done with the locks held. -/
def evictLocked (environment : Environment) (arguments : EvictArguments) (world : World) :
    Except (Raised StoreExn World) (EvictReport × World) := do
  let current ← raiseIn world world.store.currentGeneration
  let entries ← raiseIn world (scanNodes environment current world.store)
  let before := totalsBefore environment world.store entries
  let quotaTriggered := arguments.quotaTriggered before
  let state ← evictEntries arguments quotaTriggered (sortedEntries entries) ⟨world, [], [], [], before⟩
  let world ←
    if state.evictedNodeKeys = [] then .ok state.world
    else unlessDry arguments.dryRun flushEvicted state.world
  .ok (⟨state.evictedNodeKeys, state.removedGenerations, state.protectedNodeKeys, before,
    state.totals, quotaTriggered, !arguments.overLimit quotaTriggered state.totals,
    arguments.dryRun⟩, world)

def evictFactorNodes (environment : Environment) (arguments : EvictArguments) (store : Store) :
    Except (Raised StoreExn World) (EvictReport × World) := do
  raiseIn ⟨store, []⟩ arguments.check
  evictLocked environment arguments ⟨store.locked, []⟩

/-! ## The quota -/

/-- Rounding to floats, and the integers that are too large for one. -/
structure Rounding where
  round : ℚ → ℚ
  tooLarge : Int → Bool
  monotone : Monotone round
  round_zero : round 0 = 0

/-- `int(max_cache_bytes * watermark)` -/
def Rounding.watermarkBytes (rounding : Rounding) (maxCacheBytes : Int) (watermark : ℚ) :
    Except StoreExn Int :=
  if rounding.tooLarge maxCacheBytes then .error .overflowError
  else .ok ⌊rounding.round (rounding.round maxCacheBytes * watermark)⌋

structure QuotaArguments where
  maxCacheBytes : Int
  reserveFreeBytes : Int
  /-- None is a float that is not finite. -/
  highWatermark : Option ℚ
  lowWatermark : Option ℚ
  dryRun : Bool

def QuotaArguments.check (arguments : QuotaArguments) : Except StoreExn (ℚ × ℚ) :=
  if arguments.maxCacheBytes < 0 then
    .error (.valueError "max_cache_bytes must be a non-negative integer")
  else if arguments.reserveFreeBytes < 0 then
    .error (.valueError "reserve_free_bytes must be a non-negative integer")
  else
    match arguments.lowWatermark, arguments.highWatermark with
    | some low, some high =>
        if 0 ≤ low ∧ low < high ∧ high ≤ 1 then .ok (low, high)
        else .error (.valueError "watermarks must satisfy 0 <= low < high <= 1")
    | _, _ => .error (.valueError "watermarks must be finite")

structure QuotaReport where
  evicted : EvictReport
  triggerCacheAllocatedBytes : Int
  targetCacheAllocatedBytes : Int
deriving DecidableEq, Repr

def enforceFactorCacheQuota (environment : Environment) (rounding : Rounding)
    (arguments : QuotaArguments) (store : Store) :
    Except (Raised StoreExn World) (QuotaReport × World) := do
  let (low, high) ← raiseIn ⟨store, []⟩ arguments.check
  let targetBytes ← raiseIn ⟨store, []⟩ (rounding.watermarkBytes arguments.maxCacheBytes low)
  let triggerBytes ← raiseIn ⟨store, []⟩ (rounding.watermarkBytes arguments.maxCacheBytes high)
  let (evicted, world) ← evictFactorNodes environment
    { maxBytes := 2 ^ 63 - 1
      maxNodes := none
      maxCacheAllocatedBytes := some targetBytes
      minimumFreeBytes := arguments.reserveFreeBytes
      triggerCacheAllocatedBytes := some triggerBytes
      dryRun := arguments.dryRun } store
  .ok (⟨evicted, triggerBytes, targetBytes⟩, world)

end Gambit.FactorStore
