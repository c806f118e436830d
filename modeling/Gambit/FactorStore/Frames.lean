import Gambit.FactorStore.Store

/-!
# What removals leave

Each file-system call takes away the one thing it names and leaves what stands
under other names.
-/

set_option autoImplicit false

namespace Gambit.FactorStore

open Raising

variable {store store' : Store} {name other generation : String} {world : World}
  {operation : Operation}

theorem perform_ok (done : operation.apply world.store = .ok store') :
    perform operation world = .ok ⟨store', world.performed ++ [operation]⟩ := by
  unfold perform
  rw [done]

theorem perform_fsync (directory : Flushed) (world : World) :
    perform (.fsync directory) world = .ok ⟨world.store, world.performed ++ [.fsync directory]⟩ :=
  rfl

theorem unlinkPointer_ok {entry : Entry Unit} (present : store.pointerStaging.get? name = some entry) :
    store.unlinkPointer name =
      .ok { store with pointerStaging := store.pointerStaging.erase name } := by
  unfold Store.unlinkPointer
  rw [if_pos]
  rw [OrderedDict.contains, present]
  rfl

/-- The index after the removal of a pointer. -/
def NodeIndex.erase (nodes : NodeIndex) (name : String) : NodeIndex :=
  match nodes with
  | .directory blocks pointers => .directory blocks (pointers.erase name)
  | .missing => .missing
  | .link => .link

theorem unlinkNode_ok {entry : Entry (Option String)} (present : store.pointer name = some entry) :
    store.unlinkNode name = .ok { store with nodes := store.nodes.erase name } := by
  unfold Store.pointer at present
  unfold Store.unlinkNode NodeIndex.erase
  cases index : store.nodes with
  | missing | link =>
      rw [index] at present
      cases present
  | directory blocks pointers =>
      simp only [index] at present ⊢
      rw [if_pos]
      rw [OrderedDict.contains, present]
      rfl

theorem pointer_erase : ({ store with nodes := store.nodes.erase name } : Store).pointer other =
    if other = name then none else store.pointer other := by
  unfold Store.pointer NodeIndex.erase
  cases store.nodes with
  | missing | link => simp
  | directory blocks pointers => exact OrderedDict.get?_erase pointers name other

theorem removeGeneration_ok {contents : GenerationDirectory}
    (present : store.generation name = some (.directory contents)) :
    store.removeGeneration name = .ok (store.eraseGeneration name) := by
  unfold Store.removeGeneration
  rw [present]

theorem generation_erase : (store.eraseGeneration name).generation other =
    if other = name then none else store.generation other := by
  unfold Store.generation Store.eraseGeneration
  cases store.generations with
  | none => simp
  | some entries => exact OrderedDict.get?_erase entries name other

theorem metadata_eraseGeneration (kind : MetadataKind) :
    (store.eraseGeneration name).metadata kind = store.metadata kind := by
  cases kind <;> rfl

theorem removeLeaseDirectory_ok {blocks : Nat} {files : OrderedDict String LeaseFile}
    (present : store.leases.get? generation = some (.directory blocks files))
    (empty : files.keys = []) :
    store.removeLeaseDirectory generation =
      .ok { store with leases := store.leases.erase generation } := by
  unfold Store.removeLeaseDirectory
  rw [present]
  exact if_pos empty

theorem unlinkLease_ok {blocks : Nat} {files : OrderedDict String LeaseFile}
    (present : store.leases.get? generation = some (.directory blocks files)) :
    store.unlinkLease generation name = .ok { store with
      leases := store.leases.set generation (.directory blocks (files.erase name)) } := by
  unfold Store.unlinkLease
  rw [present]

/-! ## Metadata -/

def MetadataDirectory.erase (place : MetadataDirectory) (name : String) : MetadataDirectory :=
  { place with files := place.files.erase name }

theorem metadata_unlink (kind : MetadataKind) (name : String) :
    (store.unlinkMetadata kind name).metadata kind =
      (store.metadata kind).map fun place => place.erase name := by
  cases kind <;> rfl

theorem metadata_unlink_of_ne {kind kind' : MetadataKind} (distinct : kind' ≠ kind) :
    (store.unlinkMetadata kind name).metadata kind' = store.metadata kind' := by
  cases kind <;> cases kind' <;> first | rfl | exact absurd rfl distinct

theorem generation_unlinkMetadata (kind : MetadataKind) :
    (store.unlinkMetadata kind name).generation = store.generation := by
  cases kind <;> rfl

theorem pointer_unlinkMetadata (kind : MetadataKind) :
    (store.unlinkMetadata kind name).pointer = store.pointer := by
  cases kind <;> rfl

/-! ## Reading -/

theorem requireNodePointer_congr (same : store.pointer name = store'.pointer name) :
    store.requireNodePointer name = store'.requireNodePointer name := by
  unfold Store.requireNodePointer
  rw [same]

end Gambit.FactorStore
