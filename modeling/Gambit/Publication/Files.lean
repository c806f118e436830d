import Gambit.FactorCache.MappedColumn
import Gambit.Lib.LoggedActions
import Gambit.Lib.PathTrees

/-!
# Files under a store

The directory of a factor store as a tree of paths, and the file-system calls
that publishing and opening make there.  Paths are relative to the store.
-/

set_option autoImplicit false

namespace Gambit.Publication

open PathTrees MappedColumn

/-- A file: text in UTF-8, or the bytes of another file. -/
inductive File where
  | text (content : List Char)
  | binary (segment : Segment)

abbrev Disk := Tree String Unit File

inductive Exn where
  | factorStoreError (message : String)
  /-- `FactorNodeCacheMiss` -/
  | cacheMiss (message : String)
  | valueError (message : String)
  | fileNotFound
  | fileExists
  /-- Another `OSError`. -/
  | osError
  /-- What the native extension throws. -/
  | native (failure : Failure)
  | attributeError
  | typeError
  | keyError
  /-- `KeyboardInterrupt` and the like. -/
  | interrupted
deriving DecidableEq

def Exn.isOSError : Exn → Bool
  | .fileNotFound | .fileExists | .osError => true
  | _ => false

/-! ## Calls -/

/-- A call in a directory `parent`. -/
inductive Call where
  | makeDirectory (parent : List String) (name : String)
  /-- `open("xb")` -/
  | create (parent : List String) (name : String)
  /-- All that is written to an open file. -/
  | write (parent : List String) (name : String) (content : File)
  | flushFile (parent : List String) (name : String)
  | flushDirectory (path : List String)
  /-- `os.rename` and `os.replace` -/
  | rename (parent : List String) (source target : String)
  | unlink (parent : List String) (name : String)
  /-- `shutil.rmtree` -/
  | removeTree (parent : List String) (name : String)

def orRaise (error : Exn) : Option Disk → Except Exn Disk
  | some disk => .ok disk
  | none => .error error

/-- Nothing is renamed onto a directory here, not even onto an empty one. -/
def Call.apply : Call → Disk → Except Exn Disk
  | .makeDirectory parent name, disk =>
      if (disk.node (parent ++ [name])).isSome then .error .fileExists
      else if disk.IsBranch parent then orRaise .osError (disk.grow? (parent ++ [name]) ())
      else .error .fileNotFound
  | .create parent name, disk =>
      if (disk.node (parent ++ [name])).isSome then .error .fileExists
      else orRaise .fileNotFound (disk.put? parent name (.text []))
  | .write parent name content, disk =>
      match disk.node (parent ++ [name]) with
      | some (.leaf _) => orRaise .osError (disk.overwrite? parent name content)
      | _ => .error .osError
  | .flushFile _ _, disk => .ok disk
  | .flushDirectory path, disk => if disk.IsBranch path then .ok disk else .error .fileNotFound
  | .rename parent source target, disk =>
      match disk.node (parent ++ [source]) with
      | none => .error .fileNotFound
      | some (.leaf content) =>
          if source = target then .ok disk
          else orRaise .osError
            ((disk.overwrite? parent target content).map fun placed => placed.delete parent source)
      | some (.branch _) =>
          if source = target then .ok disk
          else orRaise .osError (disk.move? (parent ++ [source]) parent target)
  | .unlink parent name, disk =>
      match disk.node (parent ++ [name]) with
      | none => .error .fileNotFound
      | some (.leaf _) => .ok (disk.delete parent name)
      | some (.branch _) => .error .osError
  | .removeTree parent name, disk =>
      match disk.node (parent ++ [name]) with
      | none => .error .fileNotFound
      | some (.leaf _) => .error .osError
      | some (.branch _) => .ok (disk.delete parent name)

/-- What a call does to a disk, nothing where it would raise. -/
def Call.effect (call : Call) (disk : Disk) : Disk :=
  match call.apply disk with
  | .ok after => after
  | .error _ => disk

/-- What a call leaves of itself when its process dies in it: nothing, except that any content may
stand in a file being written, and any part of a tree being removed. -/
inductive Torn : Call → Disk → Disk → Prop where
  | nothing (call : Call) (disk : Disk) : Torn call disk disk
  | garbled (parent : List String) (name : String) (content other : File) (disk : Disk) :
      Torn (.write parent name content) disk (Call.effect (.write parent name other) disk)
  | cutShort (parent : List String) (name : String) (disk left : Disk)
      (outside : ∀ path, ¬ parent ++ [name] <+: path → left.node path = disk.node path)
      (inside : ∀ path, left.node path = disk.node path ∨ left.node path = none) :
      Torn (.removeTree parent name) disk left

/-! ## What calls leave alone -/

/-- The call may change what stands at the path. -/
def Call.Touches : Call → List String → Prop
  | .makeDirectory parent name, path | .create parent name, path | .write parent name _, path =>
      path = parent ++ [name]
  | .unlink parent name, path | .removeTree parent name, path => parent ++ [name] <+: path
  | .rename parent source target, path => parent ++ [source] <+: path ∨ parent ++ [target] <+: path
  | .flushFile _ _, _ | .flushDirectory _, _ => False

variable {call : Call} {disk after : Disk} {path parent : List String} {name : String}

theorem orRaise_ok {error : Exn} {result : Option Disk} :
    orRaise error result = .ok after ↔ result = some after := by
  cases result <;> simp [orRaise]

theorem effect_of_apply (run : call.apply disk = .ok after) : call.effect disk = after := by
  unfold Call.effect
  rw [run]

theorem effect_of_error {error : Exn} (run : call.apply disk = .error error) : call.effect disk = disk := by
  unfold Call.effect
  rw [run]

/-- A call does what it returns, or nothing. -/
theorem effect_cases (call : Call) (disk : Disk) :
    call.apply disk = .ok (call.effect disk) ∨ call.effect disk = disk := by
  cases run : call.apply disk with
  | ok after => exact .inl (by rw [effect_of_apply run])
  | error error => exact .inr (effect_of_error run)

theorem makeDirectory_ok (run : (Call.makeDirectory parent name).apply disk = .ok after) :
    disk.node (parent ++ [name]) = none ∧
      after.node = fun path => if path = parent ++ [name] then some (.branch ()) else disk.node path := by
  simp only [Call.apply] at run
  split at run
  · cases run
  · rename_i free
    rw [Bool.not_eq_true, Option.isSome_eq_false_iff, Option.isNone_iff_eq_none] at free
    split at run
    · rename_i within
      refine ⟨free, ?_⟩
      rw [Tree.grow?_some (orRaise_ok.mp run)]
      funext path
      by_cases here : path = parent ++ [name]
      · subst here
        rw [if_pos ⟨List.prefix_refl _, free⟩, if_pos rfl]
      · rw [if_neg here, if_neg]
        rintro ⟨above, missing⟩
        obtain ⟨below, rfl⟩ := (List.prefix_concat_iff.mp above).resolve_left here
        obtain ⟨label, standing⟩ := within
        by_cases top : below = []
        · subst top
          rw [List.append_nil, missing] at standing
          cases standing
        · obtain ⟨above, there⟩ := disk.branch_of_below top (by
            rw [standing]
            exact Option.some_ne_none _)
          rw [missing] at there
          cases there
    · cases run

theorem create_ok (run : (Call.create parent name).apply disk = .ok after) :
    disk.node (parent ++ [name]) = none ∧
      after.node = fun path => if path = parent ++ [name] then some (.leaf (.text [])) else disk.node path := by
  simp only [Call.apply] at run
  split at run
  · cases run
  · obtain ⟨⟨_, free⟩, placed⟩ := Tree.put?_some (orRaise_ok.mp run)
    exact ⟨free, placed⟩

theorem write_ok {content : File} (run : (Call.write parent name content).apply disk = .ok after) :
    after.node = fun path => if path = parent ++ [name] then some (.leaf content) else disk.node path := by
  simp only [Call.apply] at run
  split at run
  · exact (Tree.overwrite?_some (orRaise_ok.mp run)).2
  · cases run

theorem flushDirectory_ok (run : (Call.flushDirectory path).apply disk = .ok after) : after = disk := by
  simp only [Call.apply] at run
  split at run
  · cases run
    rfl
  · cases run

theorem node_apply (run : call.apply disk = .ok after) (apart : ¬ call.Touches path) :
    after.node path = disk.node path := by
  cases call with
  | makeDirectory parent name =>
      rw [(makeDirectory_ok run).2]
      exact if_neg apart
  | create parent name =>
      rw [(create_ok run).2]
      exact if_neg apart
  | write parent name content =>
      rw [write_ok run]
      exact if_neg apart
  | flushFile parent name =>
      cases run
      rfl
  | flushDirectory place => rw [flushDirectory_ok run]
  | rename parent source target =>
      obtain ⟨notSource, notTarget⟩ := not_or.mp apart
      simp only [Call.apply] at run
      split at run
      · cases run
      · split at run
        · cases run
          rfl
        · obtain ⟨placed, overwritten, rfl⟩ := Option.map_eq_some_iff.mp (orRaise_ok.mp run)
          rw [Tree.node_delete notSource, (Tree.overwrite?_some overwritten).2]
          refine if_neg ?_
          rintro rfl
          exact notTarget (List.prefix_refl _)
      · split at run
        · cases run
          rfl
        · exact Tree.node_move_outside (orRaise_ok.mp run) notSource notTarget
  | unlink parent name =>
      simp only [Call.apply] at run
      split at run
      · cases run
      · cases run
        exact Tree.node_delete apart
      · cases run
  | removeTree parent name =>
      simp only [Call.apply] at run
      split at run
      · cases run
      · cases run
      · cases run
        exact Tree.node_delete apart

theorem node_effect (apart : ¬ call.Touches path) : (call.effect disk).node path = disk.node path := by
  rcases effect_cases call disk with run | same
  · exact node_apply run apart
  · rw [same]

theorem Torn.node (torn : Torn call disk after) (apart : ¬ call.Touches path) :
    after.node path = disk.node path := by
  cases torn with
  | nothing => rfl
  | garbled => exact node_effect apart
  | cutShort _ _ _ _ outside _ => exact outside path apart

end Gambit.Publication
