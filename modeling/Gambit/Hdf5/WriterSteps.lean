import Gambit.Hdf5.Groups

/-!
# The phases of a write

What stands for the key before, while the new group is staged, while the old one
is set aside, and once the new one is installed.  Every statement of the writer
leads from a phase to the next, and wherever it stops something complete stands.
-/

set_option autoImplicit false

namespace Gambit.Hdf5

open PathTrees Interruptions

variable {α : Type} {key other : Key} {path : List String} {file before after : H5File α}
  {set : ArraySet α} {standing : Option (ArraySet α)} {attrs : Attrs}
  {columns : OrderedDict String α} {name : String}

/-! ## Statements -/

theorem contains_eq_false : contains file path = false ↔ file.node path = none := by
  simp [contains]

theorem contains_eq_true : contains file path = true ↔ file.node path ≠ none := by
  simp [contains, Option.isSome_iff_ne_none]

theorem move_ok {source parent : List String} (run : move source parent name before = .ok after) :
    before.move? source parent name = some after := by
  unfold move at run
  split at run
  · rename_i moved
    cases run
    exact moved
  · cases run

theorem delete_ok {parent : List String} (run : delete parent name before = .ok after) :
    after = before.delete parent name := by
  unfold delete at run
  split at run
  · cases run
    rfl
  · cases run

theorem createGroup_ok (run : createGroup path before = .ok after) :
    before.node path = none ∧ after.node = fun other =>
      if other <+: path ∧ before.node other = none then some (.branch OrderedDict.empty)
      else before.node other := by
  unfold createGroup at run
  split at run
  · cases run
  · rename_i free
    refine ⟨contains_eq_false.mp (by simpa using free), ?_⟩
    split at run
    · rename_i grown
      cases run
      exact Tree.grow?_some grown
    · cases run

theorem createDataset_ok {np : NumPy α} {array : α}
    (run : createDataset np path name array before = .ok after) :
    ∃ stored, np.stored array = .ok stored ∧ before.node (path ++ [name]) = none ∧
      after.node = fun other =>
        if other = path ++ [name] then some (.leaf stored) else before.node other := by
  obtain ⟨stored, converted, run⟩ := Raising.bind_ok.mp run
  split at run
  · rename_i placed
    cases run
    obtain ⟨free, nodes⟩ := Tree.put?_some placed
    exact ⟨stored, converted, free.2, nodes⟩
  · cases run

theorem setAttr_ok {value : Attr} (run : setAttr path name value before = .ok after) :
    after = before.relabel path fun attrs => attrs.set name value := (Except.ok.inj run).symm

theorem flush_ok (run : flush before = .ok after) : after = before := (Except.ok.inj run).symm

/-- A deletion that is made where there is something to delete. -/
theorem discard_ok {parent : List String}
    (run : (if contains before (parent ++ [name]) then delete parent name before else .ok before) =
      .ok after) :
    after.node (parent ++ [name]) = none ∧
      ∀ path, ¬ parent ++ [name] <+: path → after.node path = before.node path := by
  split at run
  · rw [delete_ok run]
    exact ⟨Tree.node_delete_under List.prefix_rfl, fun _ outside => Tree.node_delete outside⟩
  · rename_i absent
    cases run
    exact ⟨contains_eq_false.mp (by simpa using absent), fun _ _ => rfl⟩

/-! ## Changes in one of the groups -/

/-- Nothing is changed but under one of the names beside the key. -/
def Beside (key : Key) (name : String) (before after : H5File α) : Prop :=
  ∀ path, ¬ key.parent ++ [name] <+: path → after.node path = before.node path

theorem Beside.openAbove (beside : Beside key name before after) (opened : OpenAbove key before) :
    OpenAbove key after := by
  intro path above content
  rw [beside path (not_under_parent above)]
  exact opened path above content

theorem Beside.below {sibling : String} (beside : Beside key name before after)
    (distinct : name ≠ sibling) (below : List String) :
    after.node (key.parent ++ [sibling] ++ below) = before.node (key.parent ++ [sibling] ++ below) :=
  beside _ fun under => distinct (sibling_under_iff.mp under)

theorem Beside.here {sibling : String} (beside : Beside key name before after)
    (distinct : name ≠ sibling) :
    after.node (key.parent ++ [sibling]) = before.node (key.parent ++ [sibling]) := by
  have same := beside.below distinct []
  rw [List.append_nil] at same
  exact same

theorem Beside.stands {sibling : String} (beside : Beside key name before after)
    (distinct : name ≠ sibling) (stands : set.StandsAt before (key.parent ++ [sibling])) :
    set.StandsAt after (key.parent ++ [sibling]) :=
  stands.same_below (beside.below distinct)

theorem Beside.target (beside : Beside key name before after) (distinct : name ≠ key.name)
    (target : Target key before standing) : Target key after standing := by
  cases standing with
  | none => exact (beside.here distinct).trans target
  | some set => exact beside.stands distinct target

theorem Beside.keeps (beside : Beside key key.stagingName before after)
    (stands : Standing key standing before) : Standing key standing after where
  openAbove := beside.openAbove stands.openAbove
  content := by
    have notName := stagingName_ne_name key key
    have notBackup := stagingName_ne_backupName key key
    have content := stands.content
    cases standing with
    | none =>
        exact ⟨(beside.here notName).trans content.1, (beside.here notBackup).trans content.2⟩
    | some set =>
        rcases content with here | ⟨absent, aside⟩
        · exact .inl (beside.stands notName here)
        · exact .inr ⟨(beside.here notName).trans absent, beside.stands notBackup aside⟩

theorem setAttr_beside {value : Attr} (run : setAttr key.pending name value before = .ok after) :
    Beside key key.stagingName before after := by
  rw [setAttr_ok run]
  intro path outside
  exact Tree.node_relabel_of_ne _ fun same => outside (same ▸ List.prefix_rfl)

theorem createDataset_beside {np : NumPy α} {array : α}
    (run : createDataset np key.pending name array before = .ok after) :
    Beside key key.stagingName before after := by
  obtain ⟨stored, _, _, nodes⟩ := createDataset_ok run
  intro path outside
  rw [nodes]
  simp only
  rw [if_neg]
  intro same
  exact outside (same ▸ List.prefix_append _ _)

theorem discardPending_beside (run : discardPending key before = .ok after) :
    Beside key key.stagingName before after := (discard_ok run).2

theorem discardBackup_beside (run : discardBackup key before = .ok after) :
    after.node key.backup = none ∧ Beside key key.backupName before after := discard_ok run

/-! ## The phases -/

/-- The leftovers of a stopped write are gone. -/
structure Recovered (key : Key) (standing : Option (ArraySet α)) (file : H5File α) : Prop where
  openAbove : OpenAbove key file
  target : Target key file standing
  noBackup : file.node key.backup = none

/-- The new group is being filled, beside what else is known of the file. -/
structure Staging (key : Key) (P : H5File α → Prop) (attrs : Attrs)
    (columns : OrderedDict String α) (file : H5File α) : Prop where
  base : P file
  group : file.node key.pending = some (.branch attrs)
  datasets : ∀ name array, columns.get? name = some array →
    file.node (key.pending ++ [name]) = some (.leaf array)

/-- Work in the staging group does not matter to it. -/
def Steady (key : Key) (P : H5File α → Prop) : Prop :=
  ∀ before after, Beside key key.stagingName before after → P before → P after

/-- What stood at the key is at the backup, and the new set is staged. -/
structure SetAside (key : Key) (standing : Option (ArraySet α)) (set : ArraySet α)
    (file : H5File α) : Prop where
  openAbove : OpenAbove key file
  absent : file.node key.path = none
  aside : ∀ old, standing = some old → old.StandsAt file key.backup
  noBackup : standing = none → file.node key.backup = none
  staged : set.StandsAt file key.pending

structure Installed (key : Key) (set : ArraySet α) (file : H5File α) : Prop where
  openAbove : OpenAbove key file
  here : set.StandsAt file key.path

theorem Recovered.stands (recovered : Recovered key standing file) : Standing key standing file where
  openAbove := recovered.openAbove
  content := by
    have target := recovered.target
    cases standing with
    | none => exact ⟨target, recovered.noBackup⟩
    | some set => exact .inl target

theorem SetAside.stands (aside : SetAside key standing set file) : Standing key standing file where
  openAbove := aside.openAbove
  content := by
    cases standing with
    | none => exact ⟨aside.absent, aside.noBackup rfl⟩
    | some old => exact .inr ⟨aside.absent, aside.aside old rfl⟩

theorem Installed.stands (installed : Installed key set file) : Standing key (some set) file where
  openAbove := installed.openAbove
  content := .inl installed.here

/-! ## Recovery -/

/-- The set is back at its key, if it had been set aside. -/
structure Restored (key : Key) (standing : Option (ArraySet α)) (file : H5File α) : Prop where
  openAbove : OpenAbove key file
  target : Target key file standing
  noBackup : standing = none → file.node key.backup = none

theorem Restored.stands (restored : Restored key standing file) : Standing key standing file where
  openAbove := restored.openAbove
  content := by
    have target := restored.target
    cases standing with
    | none => exact ⟨target, restored.noBackup rfl⟩
    | some set => exact .inl target

theorem Standing.restored_of_target (stands : Standing key standing file)
    (target : Target key file standing) : Restored key standing file where
  openAbove := stands.openAbove
  target := target
  noBackup := by
    intro nothing
    have content := stands.content
    rw [nothing] at content
    exact content.2

theorem path_present (here : set.StandsAt file path) : contains file path = true := by
  rw [contains_eq_true, here.group]
  exact Option.some_ne_none _

theorem move_openAbove {source sibling : String} (opened : OpenAbove key before)
    (run : before.move? (key.parent ++ [source]) key.parent sibling = some after) :
    OpenAbove key after := by
  intro path above content
  rw [Tree.node_move_outside run (not_under_parent above) (not_under_parent above)]
  exact opened path above content

theorem restoreBackup_restores (stands : Standing key standing before)
    (run : restoreBackup key before = .ok after) : Restored key standing after := by
  have content := stands.content
  unfold restoreBackup at run
  cases standing with
  | none =>
      have noBackup : contains before key.backup = false := contains_eq_false.mpr content.2
      simp only [noBackup, Bool.and_false, Bool.false_eq_true, if_false] at run
      cases run
      exact stands.restored_of_target content.1
  | some set =>
      rcases content with here | ⟨absent, aside⟩
      · simp only [path_present here, Bool.not_true, Bool.false_and, Bool.false_eq_true,
          if_false] at run
        cases run
        exact stands.restored_of_target here
      · have free : contains before key.path = false := contains_eq_false.mpr absent
        simp only [free, path_present aside, Bool.not_false, Bool.and_self, if_true] at run
        have moved := move_ok run
        exact ⟨move_openAbove stands.openAbove moved, aside.moved moved, fun nothing => nomatch nothing⟩

theorem Restored.beside (beside : Beside key key.stagingName before after)
    (restored : Restored key standing before) : Restored key standing after where
  openAbove := beside.openAbove restored.openAbove
  target := beside.target (stagingName_ne_name key key) restored.target
  noBackup := fun nothing =>
    (beside.here (stagingName_ne_backupName key key)).trans (restored.noBackup nothing)

theorem discardStaleBackup_recovers (restored : Restored key standing before)
    (run : discardStaleBackup key before = .ok after) : Recovered key standing after := by
  unfold discardStaleBackup at run
  have target := restored.target
  cases standing with
  | none =>
      have absent : contains before key.path = false := contains_eq_false.mpr target
      simp only [absent, Bool.false_eq_true, if_false] at run
      cases run
      exact ⟨restored.openAbove, target, restored.noBackup rfl⟩
  | some set =>
      have here : set.StandsAt before key.path := target
      simp only [path_present here, if_true] at run
      obtain ⟨gone, beside⟩ := discardBackup_beside run
      exact ⟨beside.openAbove restored.openAbove,
        beside.target (backupName_ne_name key key) target, gone⟩

/-! ## Staging -/

theorem createGroup_stages {P : H5File α → Prop}
    (grown : ∀ before after, P before → createGroup key.pending before = .ok after → P after)
    (held : P before) (run : createGroup key.pending before = .ok after) :
    Staging key P OrderedDict.empty OrderedDict.empty after := by
  obtain ⟨free, nodes⟩ := createGroup_ok run
  exact {
    base := grown before after held run
    group := by
      rw [nodes]
      simp only [List.prefix_rfl, free, and_self, if_true]
    datasets := fun name array stored => nomatch stored }

theorem createGroup_recovered (recovered : Recovered key standing before)
    (run : createGroup key.pending before = .ok after) : Recovered key standing after := by
  obtain ⟨free, nodes⟩ := createGroup_ok run
  have same : ∀ {sibling : String} (below : List String), sibling ≠ key.stagingName →
      after.node (key.parent ++ [sibling] ++ below) =
        before.node (key.parent ++ [sibling] ++ below) := by
    intro sibling below distinct
    rw [nodes]
    simp only
    rw [if_neg]
    rintro ⟨under, _⟩
    have shorter := under.trans (List.prefix_append key.pending [])
    rw [pending_eq] at shorter
    exact distinct (sibling_under_iff.mp ((List.prefix_append _ _).trans shorter))
  have here : ∀ {sibling : String}, sibling ≠ key.stagingName →
      after.node (key.parent ++ [sibling]) = before.node (key.parent ++ [sibling]) := by
    intro sibling distinct
    have alone := same [] distinct
    rw [List.append_nil] at alone
    exact alone
  exact {
    openAbove := by
      intro path above content
      rw [nodes]
      simp only
      split
      · exact fun leaf => nomatch leaf
      · exact recovered.openAbove path above content
    target := by
      have target := recovered.target
      cases standing with
      | none => exact (here (stagingName_ne_name key key).symm).trans target
      | some set =>
          exact ArraySet.StandsAt.same_below target
            fun below => same below (stagingName_ne_name key key).symm
    noBackup := (here (stagingName_ne_backupName key key).symm).trans recovered.noBackup }

theorem recovered_steady (key : Key) (standing : Option (ArraySet α)) :
    Steady key (Recovered key standing) := fun _ _ beside recovered =>
  { openAbove := beside.openAbove recovered.openAbove
    target := beside.target (stagingName_ne_name key key) recovered.target
    noBackup := (beside.here (stagingName_ne_backupName key key)).trans recovered.noBackup }

variable {P : H5File α → Prop}

theorem setAttr_stages {value : Attr} (steady : Steady key P)
    (staging : Staging key P attrs columns before)
    (run : setAttr key.pending name value before = .ok after) :
    Staging key P (attrs.set name value) columns after where
  base := steady before after (setAttr_beside run) staging.base
  group := by
    rw [setAttr_ok run]
    exact Tree.node_relabel_self _ staging.group
  datasets := by
    intro col array stored
    rw [setAttr_ok run, Tree.node_relabel_of_ne]
    · exact staging.datasets col array stored
    · simp

theorem createDataset_stages {np : NumPy α} {array : α} (steady : Steady key P)
    (staging : Staging key P attrs columns before)
    (run : createDataset np key.pending name array before = .ok after) :
    ∃ stored, np.stored array = .ok stored ∧
      Staging key P attrs (columns.set name stored) after := by
  obtain ⟨stored, converted, free, nodes⟩ := createDataset_ok run
  refine ⟨stored, converted, ?_⟩
  exact {
    base := steady before after (createDataset_beside run) staging.base
    group := by
      rw [nodes]
      simp [staging.group]
    datasets := by
      intro col held isColumn
      rw [nodes]
      simp only [List.append_cancel_left_eq, List.cons.injEq, and_true]
      rw [OrderedDict.get?_set] at isColumn
      by_cases same : col = name
      · rw [if_pos same] at isColumn ⊢
        rw [Option.some.inj isColumn]
      · rw [if_neg same] at isColumn ⊢
        exact staging.datasets col held isColumn }

/-! ## The exchange -/

theorem Staging.staged (staging : Staging key P set.attributes set.columns file) :
    set.StandsAt file key.pending := ⟨staging.group, staging.datasets⟩

/-- The set is staged and nothing has been moved. -/
structure Ready (key : Key) (standing : Option (ArraySet α)) (set : ArraySet α)
    (file : H5File α) : Prop where
  recovered : Recovered key standing file
  staged : set.StandsAt file key.pending

theorem discardBackup_ready (ready : Ready key standing set before)
    (run : discardBackup key before = .ok after) : Ready key standing set after := by
  obtain ⟨gone, beside⟩ := discardBackup_beside run
  exact {
    recovered := ⟨beside.openAbove ready.recovered.openAbove,
      beside.target (backupName_ne_name key key) ready.recovered.target, gone⟩
    staged := beside.stands (stagingName_ne_backupName key key).symm ready.staged }

theorem setAside_ok (ready : Ready key standing set before)
    (run : setAside key before = .ok after) : SetAside key standing set after := by
  unfold setAside at run
  have target := ready.recovered.target
  cases standing with
  | none =>
      have absent : contains before key.path = false := contains_eq_false.mpr target
      simp only [absent, Bool.false_eq_true, if_false] at run
      cases run
      exact ⟨ready.recovered.openAbove, target, (fun _ nothing => nomatch nothing),
        fun _ => ready.recovered.noBackup, ready.staged⟩
  | some old =>
      have here : old.StandsAt before key.path := target
      simp only [path_present here, if_true] at run
      have moved := move_ok run
      exact {
        openAbove := move_openAbove ready.recovered.openAbove moved
        absent := by
          refine Tree.node_move_source moved List.prefix_rfl ?_
          intro under
          have shorter := under.trans (List.prefix_append key.path [])
          exact backupName_ne_name key key (sibling_under_iff.mp shorter)
        aside := by
          intro previous same
          cases same
          exact here.moved moved
        noBackup := fun nothing => nomatch nothing
        staged := by
          refine ready.staged.same_below fun below => Tree.node_move_outside moved ?_ ?_
          · exact fun under => stagingName_ne_name key key (sibling_under_iff.mp under).symm
          · exact fun under => stagingName_ne_backupName key key (sibling_under_iff.mp under).symm }

theorem install_ok (aside : SetAside key standing set before)
    (run : install key before = .ok after) : Installed key set after where
  openAbove := move_openAbove aside.openAbove (move_ok run)
  here := aside.staged.moved (move_ok run)

theorem discardBackup_installed (installed : Installed key set before)
    (run : discardBackup key before = .ok after) : Installed key set after := by
  have beside := (discardBackup_beside run).2
  exact ⟨beside.openAbove installed.openAbove,
    beside.stands (backupName_ne_name key key) installed.here⟩

end Gambit.Hdf5
