import Gambit.FactorStore.Store

/-!
# Garbage collection

`collect_garbage`: what no pointer names and no lease protects is removed, or
listed by a dry run.
-/

set_option autoImplicit false

namespace Gambit.FactorStore

open Raising

structure CollectReport where
  removedGenerations : List String
  removedLeases : List String
  removedStaging : List String
  removedPointers : List String
  removedNodeStaging : List String
  removedMetadata : List String
  dryRun : Bool
deriving DecidableEq, Repr

/-- The limits in seconds; none is a float that is not finite. -/
structure CollectArguments where
  staleLeaseSeconds : Option ℚ
  metadataRetentionSeconds : Option ℚ
  dryRun : Bool

def finiteSeconds (value : Option ℚ) (name : String) : Except StoreExn ℚ :=
  match value with
  | some seconds =>
      if seconds < 0 then .error (.valueError (name ++ " must be finite and non-negative"))
      else .ok seconds
  | none => .error (.valueError (name ++ " must be finite and non-negative"))

structure Collecting where
  world : World
  report : CollectReport
  indexedGenerations : List String
  indexedNodeKeys : List String
deriving DecidableEq

abbrev Collected (α : Type) := Except (Raised StoreExn World) α

variable (environment : Environment) (dryRun : Bool)

/-! ## Node pointers -/

def collectNode (state : Collecting) (name : String) : Collected Collecting := do
  let store := state.world.store
  if startsWith "." name then
    match store.pointer name with
    | some (.file _ _) =>
        let world ← unlessDry dryRun (perform (.unlinkNode name)) state.world
        .ok { state with
          world
          report.removedNodeStaging := state.report.removedNodeStaging ++ [name] }
    | _ => .ok state
  else if ¬ isNodeKey name then
    .error ⟨.factorStoreError "factor node index contains an invalid key", state.world⟩
  else
    let generation ← raiseIn state.world (store.requireNodePointer name)
    match store.generation generation with
    | some (.directory _) =>
        .ok { state with
          indexedGenerations := state.indexedGenerations ++ [generation]
          indexedNodeKeys := state.indexedNodeKeys ++ [name] }
    | _ => .error ⟨.factorStoreError "factor node index references a missing generation", state.world⟩

def collectNodes (state : Collecting) : Collected Collecting :=
  match state.world.store.nodes with
  | .link => .error ⟨.factorStoreError "factor node index may not use symbolic links", state.world⟩
  | .directory _ pointers => pointers.keys.foldlM (collectNode dryRun) state
  | .missing => .ok state

/-! ## Leases -/

/-- The exceptions that make a lease ambiguous. -/
def StoreExn.ambiguousLease : StoreExn → Bool
  | .osError | .valueError _ | .keyError | .typeError => true
  | _ => false

/-- Age in seconds, and whether the process was a local one that is dead. -/
def leaseStatus (document : Except StoreExn (Document LeaseMetadata)) : Except StoreExn (ℚ × Bool) := do
  let metadata ← match ← document with
    | .undecodable => .error (.valueError "")
    | .notAnObject => .error .typeError
    | .object metadata => .ok metadata
  let createdNs ← metadata.createdNs
  let ageSeconds ← environment.seconds (environment.nowNs - createdNs)
  match metadata.host with
  | .missing => .error .keyError
  | .foreign => .ok (ageSeconds, false)
  | .value host =>
      if host = environment.hostname then
        let pid ← metadata.pid
        let localDead ← environment.localProcessIsDead pid
        .ok (ageSeconds, localDead)
      else .ok (ageSeconds, false)

/-- A lease is removed if it is old and its process is dead; it survives if this is unclear. -/
def leaseRemovable (staleLeaseSeconds : ℚ) (document : Except StoreExn (Document LeaseMetadata)) :
    Except StoreExn Bool :=
  match leaseStatus environment document with
  | .ok (ageSeconds, localDead) => .ok (staleLeaseSeconds ≤ ageSeconds && localDead)
  | .error error => if error.ambiguousLease then .ok false else .error error

def collectLease (staleLeaseSeconds : ℚ) (generation : String) (state : Collecting × Nat)
    (leaseName : String) : Collected (Collecting × Nat) := do
  let (state, survivingLeases) := state
  let document := state.world.store.readLease generation leaseName maximumLinks
  let removable ← raiseIn state.world (leaseRemovable environment staleLeaseSeconds document)
  if removable then
    let world ← unlessDry dryRun (perform (.unlinkLease generation leaseName)) state.world
    .ok ({ state with
      world
      report.removedLeases := state.report.removedLeases ++ [generation ++ "/" ++ leaseName] },
      survivingLeases)
  else .ok (state, survivingLeases + 1)

/-- `has_leases`, with the leases removed on the way. -/
def collectLeases (staleLeaseSeconds : ℚ) (generation : String) (state : Collecting) :
    Collected (Collecting × Bool) :=
  match state.world.store.leases.get? generation with
  | some .link => .ok (state, true)
  | some (.directory _ files) => do
      let (state, survivingLeases) ← files.keys.foldlM
        (collectLease environment dryRun staleLeaseSeconds generation) (state, 0)
      .ok (state, 0 < survivingLeases)
  | none => .ok (state, false)

/-! ## Generations -/

/-- `shutil.rmtree(generation_path)`, and the lease directory if there is one. -/
def removeGenerationAndLeases (generation : String) : Step StoreExn World := fun world => do
  let world ← perform (.removeGeneration generation) world
  match world.store.leases.get? generation with
  | some (.directory _ _) => perform (.removeLeaseDirectory generation) world
  | _ => .ok world

def collectGeneration (staleLeaseSeconds : ℚ) (current : String) (state : Collecting)
    (generation : String) : Collected Collecting := do
  let store := state.world.store
  if startsWith ".staging-" generation then
    match store.generation generation with
    | some (.directory _) =>
        let world ← unlessDry dryRun (perform (.removeGeneration generation)) state.world
        .ok { state with
          world
          report.removedStaging := state.report.removedStaging ++ [generation] }
    | _ => .ok state
  else if generation = current ∨ generation ∈ state.indexedGenerations ∨ ¬ isGeneration generation then
    .ok state
  else
    let (state, hasLeases) ← collectLeases environment dryRun staleLeaseSeconds generation state
    match hasLeases, state.world.store.generation generation with
    | false, some (.directory _) =>
        let world ← unlessDry dryRun (removeGenerationAndLeases generation) state.world
        .ok { state with
          world
          report.removedGenerations := state.report.removedGenerations ++ [generation] }
    | _, _ => .ok state

def collectGenerations (staleLeaseSeconds : ℚ) (current : String) (state : Collecting) :
    Collected Collecting :=
  match state.world.store.generations with
  | none => .error ⟨.osError, state.world⟩
  | some entries =>
      entries.keys.foldlM (collectGeneration environment dryRun staleLeaseSeconds current) state

/-! ## Staged pointers and metadata -/

def collectPointer (state : Collecting) (name : String) : Collected Collecting :=
  match state.world.store.pointerStaging.get? name with
  | some (.file _ _) => do
      let world ← unlessDry dryRun (perform (.unlinkPointer name)) state.world
      .ok { state with
        world
        report.removedPointers := state.report.removedPointers ++ [name] }
  | _ => .ok state

def collectMetadataFile (cutoffNs : Int) (kind : MetadataKind) (state : Collecting) (name : String) :
    Collected Collecting :=
  match metadataKey name with
  | none => .ok state
  | some key =>
      if key ∈ state.indexedNodeKeys then .ok state
      else
        match (state.world.store.metadata kind).bind fun place => place.files.get? name with
        | some (.file stat _) =>
            if stat.mtimeNs ≤ cutoffNs then do
              let world ← unlessDry dryRun (perform (.unlinkMetadata kind name)) state.world
              .ok { state with
                world
                report.removedMetadata :=
                  state.report.removedMetadata ++ [kind.directoryName ++ "/" ++ name] }
            else .ok state
        | _ => .ok state

def collectMetadata (cutoffNs : Int) (state : Collecting) (kind : MetadataKind) : Collected Collecting :=
  match state.world.store.metadata kind with
  | none => .ok state
  | some place =>
      if place.isLink then
        .error ⟨.factorStoreError "factor metadata directories may not use symbolic links", state.world⟩
      else place.files.keys.foldlM (collectMetadataFile dryRun cutoffNs kind) state

/-! ## The collection -/

def fsyncIf (changed : Bool) (directory : Flushed) : Step StoreExn World := fun world =>
  if changed then perform (.fsync directory) world else .ok world

def flushCollected (report : CollectReport) : Step StoreExn World := fun world => do
  let world ← perform (.fsync .generations) world
  let world ← fsyncIf (report.removedPointers ≠ []) .root world
  let world ← fsyncIf (report.removedNodeStaging ≠ []) .nodes world
  [MetadataKind.access, .admission].foldlM (fun world kind =>
    fsyncIf (report.removedMetadata.any (startsWith (kind.directoryName ++ "/"))) (.metadata kind)
      world) world

/-- What is done with the locks held. -/
def collectLocked (staleLeaseSeconds metadataRetentionSeconds : ℚ) (world : World) :
    Collected (CollectReport × World) := do
  let current ← raiseIn world world.store.currentGeneration
  let state ← collectNodes dryRun ⟨world, ⟨[], [], [], [], [], [], dryRun⟩, [], []⟩
  let state ← collectGenerations environment dryRun staleLeaseSeconds current state
  let state ← state.world.store.pointerStaging.keys.foldlM (collectPointer dryRun) state
  let retentionNs ← raiseIn state.world (environment.nanoseconds metadataRetentionSeconds)
  let state ← [MetadataKind.access, .admission].foldlM
    (collectMetadata dryRun (environment.nowNs - retentionNs)) state
  let world ← unlessDry dryRun (flushCollected state.report) state.world
  .ok (state.report, world)

def collectGarbage (arguments : CollectArguments) (store : Store) : Collected (CollectReport × World) := do
  let staleLeaseSeconds ← raiseIn ⟨store, []⟩
    (finiteSeconds arguments.staleLeaseSeconds "stale_lease_seconds")
  let metadataRetentionSeconds ← raiseIn ⟨store, []⟩
    (finiteSeconds arguments.metadataRetentionSeconds "metadata_retention_seconds")
  collectLocked environment arguments.dryRun staleLeaseSeconds metadataRetentionSeconds
    ⟨store.locked, []⟩

end Gambit.FactorStore
