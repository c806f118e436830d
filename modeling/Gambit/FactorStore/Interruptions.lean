import Gambit.FactorStore.DryRuns
import Gambit.FactorStore.EvictionOrder
import Gambit.Lib.PowerLoss

/-!
# A store after an interruption

What is on the disk when a collection or an eviction stops half-way: the
process dies at some file-system call, or the power fails and calls are lost
whose directory has not been flushed since.
-/

set_option autoImplicit false

namespace Gambit.FactorStore

open Raising PowerLoss

variable {store store' start : Store} {world : World} {operation : Operation} {name other : String}

/-! ## Effects -/

/-- Any part of the tree of a generation may be left. -/
def Store.leaveGeneration (store : Store) (name : String) (left : Option GenerationEntry) : Store :=
  { store with generations := store.generations.map fun entries =>
      match left with
      | some entry => entries.set name entry
      | none => entries.erase name }

/-- What a call takes away when it does not raise. -/
def Operation.effect : Operation → Store → Store
  | .unlinkPointer name, store => { store with pointerStaging := store.pointerStaging.erase name }
  | .unlinkNode name, store => { store with nodes := store.nodes.erase name }
  | .removeGeneration name, store => store.eraseGeneration name
  | .unlinkLease generation name, store =>
      match store.leases.get? generation with
      | some (.directory blocks files) =>
          { store with leases := store.leases.set generation (.directory blocks (files.erase name)) }
      | _ => store
  | .removeLeaseDirectory generation, store => { store with leases := store.leases.erase generation }
  | .unlinkMetadata kind name, store => store.unlinkMetadata kind name
  | .fsync _, store => store

/-- A call is there or not; the removal of a tree can be cut short anywhere. -/
inductive Torn : Operation → Store → Store → Prop where
  | nothing (operation : Operation) (store : Store) : Torn operation store store
  | cutShort (store : Store) (name : String) (left : Option GenerationEntry) :
      Torn (.removeGeneration name) store (store.leaveGeneration name left)

/-- The directory whose flush makes a call durable; leases are not flushed. -/
def Operation.directory : Operation → Option Flushed
  | .unlinkPointer _ => some .root
  | .unlinkNode _ => some .nodes
  | .removeGeneration _ => some .generations
  | .unlinkMetadata kind _ => some (.metadata kind)
  | .unlinkLease _ _ | .removeLeaseDirectory _ | .fsync _ => none

def MakesDurable (later operation : Operation) : Prop :=
  ∃ directory, later = .fsync directory ∧ operation.directory = some directory

theorem effect_of_apply (done : operation.apply store = .ok store') :
    operation.effect store = store' := by
  cases operation with
  | unlinkPointer name =>
      simp only [Operation.apply, Store.unlinkPointer] at done
      split at done
      · cases done
        rfl
      · cases done
  | unlinkNode name =>
      simp only [Operation.apply, Store.unlinkNode] at done
      split at done
      · rename_i blocks pointers index
        split at done
        · cases done
          simp only [Operation.effect, NodeIndex.erase, index]
        · cases done
      · cases done
  | removeGeneration name =>
      simp only [Operation.apply, Store.removeGeneration] at done
      split at done
      · cases done
        rfl
      · cases done
  | unlinkLease generation name =>
      simp only [Operation.apply, Store.unlinkLease] at done
      simp only [Operation.effect]
      cases found : store.leases.get? generation with
      | none =>
          rw [found] at done
          cases done
          rfl
      | some directory =>
          cases directory with
          | directory | link =>
              rw [found] at done
              cases done
              rfl
  | removeLeaseDirectory generation =>
      simp only [Operation.apply, Store.removeLeaseDirectory] at done
      split at done
      · split at done
        · cases done
          rfl
        · cases done
      · cases done
  | unlinkMetadata kind name =>
      cases done
      rfl
  | fsync directory =>
      cases done
      rfl

theorem perform_effect {after : World} (done : perform operation world = .ok after) :
    after = ⟨operation.effect world.store, world.performed ++ [operation]⟩ := by
  unfold perform at done
  split at done
  · rename_i store applied
    cases done
    rw [effect_of_apply applied]
  · cases done

theorem perform_raised {raised : Raised StoreExn World}
    (failed : perform operation world = .error raised) : raised.state = world := by
  unfold perform at failed
  split at failed
  · cases failed
  · cases failed
    rfl

/-! ## What an interruption leaves alone -/

theorem current_effect (operation : Operation) (store : Store) :
    (operation.effect store).current = store.current := by
  cases operation with
  | unlinkLease generation name =>
      simp only [Operation.effect]
      split <;> rfl
  | unlinkMetadata kind name => cases kind <;> rfl
  | _ => rfl

theorem pointer_effect (apart : operation ≠ .unlinkNode name) :
    (operation.effect store).pointer name = store.pointer name := by
  cases operation with
  | unlinkNode other =>
      refine pointer_erase.trans (if_neg ?_)
      rintro rfl
      exact apart rfl
  | unlinkLease generation lease =>
      simp only [Operation.effect]
      split <;> rfl
  | unlinkMetadata kind file => exact congrFun (pointer_unlinkMetadata kind) name
  | _ => rfl

theorem generation_effect (apart : operation ≠ .removeGeneration name) :
    (operation.effect store).generation name = store.generation name := by
  cases operation with
  | removeGeneration other =>
      refine generation_erase.trans (if_neg ?_)
      rintro rfl
      exact apart rfl
  | unlinkLease generation lease =>
      simp only [Operation.effect]
      split <;> rfl
  | unlinkMetadata kind file => exact congrFun (generation_unlinkMetadata kind) name
  | _ => rfl

theorem generation_leave (left : Option GenerationEntry) (apart : other ≠ name) :
    (store.leaveGeneration name left).generation other = store.generation other := by
  unfold Store.leaveGeneration Store.generation
  cases store.generations with
  | none => rfl
  | some entries =>
      cases left with
      | none => exact OrderedDict.get?_erase_of_ne _ apart
      | some entry => exact (OrderedDict.get?_set _ _ _ _).trans (if_neg apart)

theorem Torn.current (torn : Torn operation store store') : store'.current = store.current := by
  cases torn <;> rfl

theorem Torn.pointer (torn : Torn operation store store') : store'.pointer = store.pointer := by
  cases torn <;> rfl

theorem Torn.generation (torn : Torn operation store store')
    (apart : operation ≠ .removeGeneration name) :
    store'.generation name = store.generation name := by
  cases torn with
  | nothing => rfl
  | cutShort =>
      apply generation_leave
      rintro rfl
      exact apart rfl

/-- The process has died, or the power has failed, somewhere in a log. -/
def Interrupted (log : List Operation) (start stopped : Store) : Prop :=
  Killed Operation.effect Torn log start stopped ∨
    ∃ done, done <+: log ∧ Crashed Operation.effect Torn MakesDurable done start stopped

theorem Interrupted.keeps {P : Store → Prop} {log : List Operation} {stopped : Store}
    (interrupted : Interrupted log start stopped) (here : P start)
    (whole : ∀ operation ∈ log, ∀ store, P store → P (operation.effect store))
    (part : ∀ operation ∈ log, ∀ store store', P store → Torn operation store store' → P store') :
    P stopped := by
  rcases interrupted with killed | ⟨done, earlier, crashed⟩
  · exact killed.keeps here whole part
  · exact crashed.keeps here (fun operation member => whole operation (earlier.subset member))
      fun operation member => part operation (earlier.subset member)

/-- The world a call ends in, whether it returns or raises. -/
def worldOf {α : Type} : Except (Raised StoreExn World) (α × World) → World
  | .ok (_, world) => world
  | .error raised => raised.state

end Gambit.FactorStore
