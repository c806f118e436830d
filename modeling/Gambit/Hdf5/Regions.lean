import Gambit.Hdf5.Reader

/-!
# What a write may reach

A write works on three siblings: the group of its key, the staging group and
the backup.  Away from them it only adds the groups its key lies in.
-/

set_option autoImplicit false

namespace Gambit.Hdf5

open PathTrees

variable {α : Type} {key other : Key} {path below : List String} {col : String}

/-! ## The three groups of a key -/

def Key.stagingName (key : Key) : String := key.name ++ pendingSuffix

def Key.backupName (key : Key) : String := key.name ++ backupSuffix

theorem path_eq (key : Key) : key.path = key.parent ++ [key.name] := rfl

theorem pending_eq (key : Key) : key.pending = key.parent ++ [key.stagingName] := rfl

theorem backup_eq (key : Key) : key.backup = key.parent ++ [key.backupName] := rfl

theorem not_valid_staging (key : Key) : ¬ ValidPart key.stagingName := fun valid =>
  valid.notPending ⟨key.name.toList, by simp [Key.stagingName]⟩

theorem not_valid_backup (key : Key) : ¬ ValidPart key.backupName := fun valid =>
  valid.notBackup ⟨key.name.toList, by simp [Key.backupName]⟩

theorem valid_name (key : Key) : ValidPart key.name :=
  key.valid _ (List.mem_append_right _ (List.mem_singleton_self _))

theorem valid_parent {part : String} (inside : part ∈ key.parent) : ValidPart part :=
  key.valid _ (List.mem_append_left _ inside)

theorem stagingName_ne_name (key other : Key) : key.stagingName ≠ other.name := fun same =>
  not_valid_staging key (same ▸ valid_name other)

theorem backupName_ne_name (key other : Key) : key.backupName ≠ other.name := fun same =>
  not_valid_backup key (same ▸ valid_name other)

theorem stagingName_ne_backupName (key other : Key) : key.stagingName ≠ other.backupName := by
  intro same
  have last := congrArg (fun name => name.toList.getLast?) same
  simp [Key.stagingName, Key.backupName, pendingSuffix, backupSuffix] at last

theorem sibling_under_iff {parent : List String} {x y : String} :
    parent ++ [x] <+: parent ++ [y] ++ below ↔ x = y := by
  rw [List.append_assoc, List.prefix_append_right_inj]
  exact List.singleton_prefix_cons_iff

theorem not_under_parent {parent : List String} {x : String} (above : path <+: parent) :
    ¬ parent ++ [x] <+: path := by
  intro under
  have := (under.trans above).length_le
  simp at this

/-- A path in one of the groups a write to the key works on. -/
structure Key.Covers (key : Key) (path : List String) : Prop where
  covered : key.path <+: path ∨ key.pending <+: path ∨ key.backup <+: path

theorem covers_path (key : Key) (below : List String) : key.Covers (key.path ++ below) :=
  ⟨.inl (List.prefix_append _ _)⟩

theorem covers_pending (key : Key) (below : List String) : key.Covers (key.pending ++ below) :=
  ⟨.inr (.inl (List.prefix_append _ _))⟩

theorem covers_backup (key : Key) (below : List String) : key.Covers (key.backup ++ below) :=
  ⟨.inr (.inr (List.prefix_append _ _))⟩

theorem not_covers_above (above : path <+: key.parent) : ¬ key.Covers path := by
  intro covers
  rcases covers.covered with under | under | under
  · exact not_under_parent above under
  · exact not_under_parent above under
  · exact not_under_parent above under

/-- What lies under a group with a name no key has lies under no key. -/
theorem not_under_invalid {parent : List String} {part : String} (invalid : ¬ ValidPart part)
    (valid : ∀ part ∈ path, ValidPart part) : ¬ parent ++ [part] <+: path := fun under =>
  invalid (valid part (under.subset (List.mem_append_right _ (List.mem_singleton_self _))))

/-- A path of proper parts is reached from a key's own group alone. -/
theorem under_of_covers (covers : other.Covers path) (valid : ∀ part ∈ path, ValidPart part) :
    other.path <+: path := by
  rcases covers.covered with under | under | under
  · exact under
  · exact absurd under (not_under_invalid (not_valid_staging other) valid)
  · exact absurd under (not_under_invalid (not_valid_backup other) valid)

/-- The columns in the group of another key. -/
theorem column_covers (covers : other.Covers (key.path ++ [col])) :
    other.path <+: key.path ∨ key.path ++ [col] = other.path ∨ key.path ++ [col] = other.pending ∨
      key.path ++ [col] = other.backup := by
  rcases covers.covered with under | under | under
  · rcases List.prefix_concat_iff.mp under with whole | inside
    · exact .inr (.inl whole.symm)
    · exact .inl inside
  · rcases List.prefix_concat_iff.mp under with whole | inside
    · exact .inr (.inr (.inl whole.symm))
    · exact absurd inside (not_under_invalid (not_valid_staging other) key.valid)
  · rcases List.prefix_concat_iff.mp under with whole | inside
    · exact .inr (.inr (.inr whole.symm))
    · exact absurd inside (not_under_invalid (not_valid_backup other) key.valid)

/-! ## Keys that are not nested -/

/-- Neither key is the other or lies in its group. -/
structure Key.Apart (key other : Key) : Prop where
  notAbove : ¬ key.path <+: other.path
  notBelow : ¬ other.path <+: key.path

theorem Key.Apart.symm (apart : key.Apart other) : other.Apart key :=
  ⟨apart.notBelow, apart.notAbove⟩

theorem Key.Apart.not_covers_path (apart : key.Apart other) (below : List String) :
    ¬ other.Covers (key.path ++ below) := by
  have foreign : ∀ {x : String}, ¬ ValidPart x →
      ¬ other.parent ++ [x] <+: key.path ++ below := by
    intro x invalid under
    rcases List.prefix_or_prefix_of_prefix under (List.prefix_append _ _) with above | inside
    · exact not_under_invalid invalid key.valid above
    · rcases List.prefix_concat_iff.mp inside with whole | higher
      · have own : other.parent ++ [x] <+: key.path := whole ▸ List.prefix_rfl
        exact not_under_invalid invalid key.valid own
      · exact apart.notAbove (higher.trans (List.prefix_append _ _))
  intro covers
  rcases covers.covered with under | under | under
  · rcases List.prefix_or_prefix_of_prefix under (List.prefix_append _ _) with above | inside
    · exact apart.notBelow above
    · exact apart.notAbove inside
  · exact foreign (not_valid_staging other) under
  · exact foreign (not_valid_backup other) under

theorem backup_inj (same : key.backup = other.backup) : key = other := by
  obtain ⟨parents, names⟩ := List.append_inj' same rfl
  have spelled := congrArg String.toList (List.cons.inj names).1
  rw [String.toList_append, String.toList_append] at spelled
  have name : key.name = other.name := String.toList_inj.mp (List.append_cancel_right spelled)
  cases key
  cases other
  cases parents
  cases name
  rfl

theorem Key.Apart.not_covers_backup (apart : key.Apart other) (below : List String) :
    ¬ other.Covers (key.backup ++ below) := by
  have foreign : ∀ {x : String}, other.parent ++ [x] ≠ key.backup →
      ¬ other.parent ++ [x] <+: key.parent → ¬ other.parent ++ [x] <+: key.backup ++ below := by
    intro x distinct aside under
    rcases List.prefix_or_prefix_of_prefix under (List.prefix_append _ _) with above | inside
    · rcases List.prefix_concat_iff.mp above with whole | higher
      · exact distinct whole
      · exact aside higher
    · rcases List.prefix_concat_iff.mp inside with whole | higher
      · exact distinct whole.symm
      · exact not_under_invalid (not_valid_backup key) (fun part => valid_parent) higher
  intro covers
  rcases covers.covered with under | under | under
  · refine foreign ?_ ?_ under
    · intro same
      exact backupName_ne_name key other (List.cons.inj (List.append_inj' same rfl).2).1.symm
    · intro higher
      exact apart.notBelow (higher.trans (List.prefix_append _ _))
  · refine foreign ?_ ?_ under
    · intro same
      exact stagingName_ne_backupName other key (List.cons.inj (List.append_inj' same rfl).2).1
    · exact not_under_invalid (not_valid_staging other) fun part => valid_parent
  · refine foreign ?_ ?_ under
    · intro same
      rw [backup_inj same] at apart
      exact apart.notAbove List.prefix_rfl
    · exact not_under_invalid (not_valid_backup other) fun part => valid_parent

theorem Key.Apart.not_covers_above (apart : key.Apart other) (above : path <+: key.parent) :
    ¬ other.Covers path := by
  intro covers
  have under := under_of_covers covers fun part inside => valid_parent (above.subset inside)
  exact apart.notBelow ((under.trans above).trans (List.prefix_append _ _))

/-! ## What a write changes -/

/-- Away from the groups of the key, a write leaves the file as it was but for the
groups it adds for the key to lie in. -/
def Touches (key : Key) (before after : H5File α) : Prop :=
  ∀ path, ¬ key.Covers path → after.node path = before.node path ∨
    before.node path = none ∧ path <+: key.parent ∧
      after.node path = some (.branch OrderedDict.empty)

variable {first second third file : H5File α}

theorem Touches.refl (file : H5File α) : Touches key file file := fun _ _ => .inl rfl

theorem Touches.trans (one : Touches key first second) (two : Touches key second third) :
    Touches key first third := by
  intro path outside
  rcases one path outside with same | ⟨missing, above, grown⟩
  · rcases two path outside with again | ⟨missing, above, grown⟩
    · exact .inl (again.trans same)
    · exact .inr ⟨same ▸ missing, above, grown⟩
  · rcases two path outside with again | ⟨absent, _, _⟩
    · exact .inr ⟨missing, above, again.trans grown⟩
    · rw [grown] at absent
      cases absent

/-- What stands outside stays. -/
theorem Touches.kept (touches : Touches key first second) {object : H5Object α}
    (outside : ¬ key.Covers path) (standing : first.node path = some object) :
    second.node path = some object := by
  rcases touches path outside with same | ⟨missing, _, _⟩
  · exact same.trans standing
  · rw [standing] at missing
    cases missing

/-- What is missing outside stays so, but for the groups above the key. -/
theorem Touches.missing (touches : Touches key first second) (outside : ¬ key.Covers path)
    (notAbove : ¬ path <+: key.parent) (missing : first.node path = none) :
    second.node path = none := by
  rcases touches path outside with same | ⟨_, above, _⟩
  · exact same.trans missing
  · exact absurd above notAbove

theorem Touches.noLeaf (touches : Touches key first second) (outside : ¬ key.Covers path)
    (noLeaf : ∀ content, first.node path ≠ some (.leaf content)) (content : α) :
    second.node path ≠ some (.leaf content) := by
  rcases touches path outside with same | ⟨_, _, grown⟩
  · rw [same]
    exact noLeaf content
  · rw [grown]
    exact fun leaf => nomatch leaf

end Gambit.Hdf5
