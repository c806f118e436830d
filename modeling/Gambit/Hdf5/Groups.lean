import Gambit.Hdf5.Regions

/-!
# Where a set of arrays stands

A committed set stands at a path when the group there has its attributes and
its datasets.  What is standing for a key is the set at the key, or the one set
aside while the key is empty; the reader returns it.
-/

set_option autoImplicit false

namespace Gambit.Hdf5

open PathTrees Raising

variable {α : Type} {key other : Key} {path below : List String} {file before after : H5File α}
  {set : ArraySet α} {standing : Option (ArraySet α)}

/-- The attributes of a committed group. -/
def ArraySet.attributes (set : ArraySet α) : Attrs :=
  (openingAttrs ++ closingAttrs set.timestamp set.rows set.columns.keys
    set.utf8Columns).foldl (fun attrs attr => attrs.set attr.1 attr.2) OrderedDict.empty

structure ArraySet.StandsAt (set : ArraySet α) (file : H5File α) (path : List String) : Prop where
  group : file.node path = some (.branch set.attributes)
  datasets : ∀ name array, set.columns.get? name = some array →
    file.node (path ++ [name]) = some (.leaf array)

theorem ArraySet.StandsAt.same_below (stands : set.StandsAt before path)
    (same : ∀ below, after.node (path ++ below) = before.node (path ++ below)) :
    set.StandsAt after path where
  group := by
    have here := same []
    rw [List.append_nil] at here
    rw [here]
    exact stands.group
  datasets := by
    intro name array stored
    rw [same]
    exact stands.datasets name array stored

theorem ArraySet.StandsAt.moved {source parent : List String} {name : String}
    (stands : set.StandsAt before source) (run : before.move? source parent name = some after) :
    set.StandsAt after (parent ++ [name]) where
  group := by
    have here := Tree.node_move_under run []
    rw [List.append_nil, List.append_nil] at here
    rw [here]
    exact stands.group
  datasets := by
    intro name array stored
    rw [Tree.node_move_under run]
    exact stands.datasets name array stored

/-- The groups a key lies in are groups, as far as they exist. -/
def OpenAbove (key : Key) (file : H5File α) : Prop :=
  ∀ path, path <+: key.parent → ∀ content, file.node path ≠ some (.leaf content)

/-- The set at the key, or nothing there. -/
def Target (key : Key) (file : H5File α) : Option (ArraySet α) → Prop
  | some set => set.StandsAt file key.path
  | none => file.node key.path = none

/-- The set at the key, or the one set aside while nothing is there. -/
def Content (key : Key) (file : H5File α) : Option (ArraySet α) → Prop
  | some set => set.StandsAt file key.path ∨
      file.node key.path = none ∧ set.StandsAt file key.backup
  | none => file.node key.path = none ∧ file.node key.backup = none

structure Standing (key : Key) (standing : Option (ArraySet α)) (file : H5File α) : Prop where
  openAbove : OpenAbove key file
  content : Content key file standing

/-! ## Reading what stands -/

theorem hdf5LocalObject_found {rest : List String} {object : H5Object α}
    (found : file.node (path ++ rest) = some object) :
    hdf5LocalObject file path rest = .ok (some object) := by
  induction rest generalizing path with
  | nil =>
      rw [List.append_nil] at found
      rw [hdf5LocalObject, found]
  | cons component rest ih =>
      have present : file.node (path ++ component :: rest) ≠ none := by
        rw [found]
        exact Option.some_ne_none _
      obtain ⟨label, branch⟩ := file.branch_of_below (List.cons_ne_nil _ _) present
      rw [List.append_cons] at found
      rw [hdf5LocalObject, branch]
      cases rest with
      | nil =>
          rw [List.append_nil] at found
          simp only [found]
          exact ih (by rw [List.append_nil]; exact found)
      | cons next rest =>
          have inside : file.node (path ++ [component] ++ next :: rest) ≠ none := by
            rw [found]
            exact Option.some_ne_none _
          obtain ⟨inner, within⟩ := file.branch_of_below (List.cons_ne_nil _ _) inside
          simp only [within]
          exact ih found

theorem hdf5LocalObject_missing {rest : List String} (branch : file.IsBranch path)
    (missing : file.node (path ++ rest) = none)
    (opened : ∀ above, above <+: path ++ rest → ∀ content, file.node above ≠ some (.leaf content)) :
    hdf5LocalObject file path rest = .ok none := by
  induction rest generalizing path with
  | nil =>
      rw [List.append_nil] at missing
      rw [hdf5LocalObject, missing]
  | cons component rest ih =>
      obtain ⟨label, branch⟩ := branch
      rw [List.append_cons] at missing
      rw [hdf5LocalObject, branch]
      cases next : file.node (path ++ [component]) with
      | none => rfl
      | some object =>
          have whole : path ++ [component] ++ rest = path ++ component :: rest :=
            List.append_cons .. |>.symm
          have above : path ++ [component] <+: path ++ component :: rest :=
            whole ▸ List.prefix_append _ _
          cases object with
          | leaf content => exact absurd next (opened _ above content)
          | branch inner =>
              rw [← whole] at opened
              exact ih ⟨inner, next⟩ missing opened

theorem hdf5LocalObject_none {name : String}
    (opened : ∀ above, above <+: path → ∀ content, file.node above ≠ some (.leaf content))
    (missing : file.node (path ++ [name]) = none) :
    hdf5LocalObject file [] (path ++ [name]) = .ok none := by
  refine hdf5LocalObject_missing file.root (by simpa using missing) ?_
  intro above under content leaf
  rcases List.prefix_concat_iff.mp under with whole | inside
  · rw [whole, missing] at leaf
    cases leaf
  · exact opened above inside content leaf

end Gambit.Hdf5
