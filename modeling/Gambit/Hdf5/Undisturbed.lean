import Gambit.Hdf5.Reach

/-!
# Writes that nothing disturbs

Such a write either returns with its set at its key, whatever the file held, or
raises before the exchange and leaves what stands outside of the staging group
and the backup.
-/

set_option autoImplicit false

namespace Gambit.Hdf5

open PathTrees Interruptions Raising

variable {α : Type} {np : NumPy α} {request : Request α} {key : Key} {rowCount : Nat}
  {start file before after : H5File α} {set : ArraySet α} {path : List String} {name : String}

/-! ## The exchange returns -/

theorem discardBackup_total (key : Key) (file : H5File α) :
    ∃ after, discardBackup key file = .ok after ∧ after.node key.backup = none ∧
      Beside key key.backupName file after := by
  have total : ∃ after, discardBackup key file = .ok after := by
    unfold discardBackup
    by_cases present : contains file key.backup = true
    · refine ⟨file.delete key.parent key.backupName, ?_⟩
      rw [if_pos present]
      exact if_pos present
    · exact ⟨file, if_neg present⟩
  obtain ⟨after, run⟩ := total
  exact ⟨after, run, discardBackup_beside run⟩

theorem staged_within (staged : set.StandsAt file key.pending) : file.IsBranch key.parent := by
  have present : file.node key.pending ≠ none := by
    rw [staged.group]
    exact Option.some_ne_none _
  exact file.closed key.parent key.stagingName present

theorem not_under_sibling {parent : List String} {x y : String} (distinct : x ≠ y) :
    ¬ parent ++ [x] <+: parent ++ [y] := by
  intro under
  have shorter := under.trans (List.prefix_append (parent ++ [y]) [])
  exact distinct (sibling_under_iff.mp shorter)

theorem setAside_total (staged : set.StandsAt file key.pending) (free : file.node key.backup = none) :
    ∃ after, setAside key file = .ok after ∧
      (set.StandsAt after key.pending ∧ after.node key.path = none) := by
  unfold setAside
  by_cases present : contains file key.path = true
  · obtain ⟨after, moved⟩ := Tree.move?_total (contains_eq_true.mp present) free
      (staged_within staged) (not_under_sibling (backupName_ne_name key key).symm)
    refine ⟨after, ?_, ?_, ?_⟩
    · have named : file.move? key.path key.parent (key.name ++ backupSuffix) = some after := moved
      rw [if_pos present, move, named]
    · refine staged.same_below fun below => Tree.node_move_outside moved ?_ ?_
      · exact fun under => stagingName_ne_name key key (sibling_under_iff.mp under).symm
      · exact fun under => stagingName_ne_backupName key key (sibling_under_iff.mp under).symm
    · exact Tree.node_move_source moved List.prefix_rfl
        (not_under_sibling (backupName_ne_name key key))
  · refine ⟨file, if_neg present, staged, ?_⟩
    exact contains_eq_false.mp (by simpa using present)

theorem install_total (staged : set.StandsAt file key.pending) (free : file.node key.path = none) :
    ∃ after, install key file = .ok after ∧ set.StandsAt after key.path := by
  have present : file.node key.pending ≠ none := by
    rw [staged.group]
    exact Option.some_ne_none _
  obtain ⟨after, moved⟩ := Tree.move?_total present free (staged_within staged)
    (not_under_sibling (stagingName_ne_name key key))
  refine ⟨after, ?_, staged.moved moved⟩
  unfold install move
  rw [moved]

/-- The exchange of a staged set returns with the set at the key. -/
theorem exchange_total {E : H5File α → Prop} :
    Ensures (fun file => set.StandsAt file key.pending) (fun file => set.StandsAt file key.path) E
      (inOrder undisturbed (exchange key)) := by
  have flushes : ∀ {P : H5File α → Prop}, Ensures P P E (perform undisturbed flush) :=
    perform_total fun file held => ⟨file, rfl, held⟩
  have clear : Ensures (fun file => set.StandsAt file key.pending)
      (fun file => set.StandsAt file key.pending ∧ file.node key.backup = none) E
      (perform undisturbed (discardBackup key)) := by
    refine perform_total fun file staged => ?_
    obtain ⟨after, run, gone, beside⟩ := discardBackup_total key file
    exact ⟨after, run, beside.stands (stagingName_ne_backupName key key).symm staged, gone⟩
  have aside : Ensures (fun file => set.StandsAt file key.pending ∧ file.node key.backup = none)
      (fun file => set.StandsAt file key.pending ∧ file.node key.path = none) E
      (perform undisturbed (setAside key)) :=
    perform_total fun file held => setAside_total held.1 held.2
  have place : Ensures (fun file => set.StandsAt file key.pending ∧ file.node key.path = none)
      (fun file => set.StandsAt file key.path) E (perform undisturbed (install key)) :=
    perform_total fun file held => install_total held.1 held.2
  have tidy : Ensures (fun file => set.StandsAt file key.path)
      (fun file => set.StandsAt file key.path) E (perform undisturbed (discardBackup key)) := by
    refine perform_total fun file here => ?_
    obtain ⟨after, run, _, beside⟩ := discardBackup_total key file
    exact ⟨after, run, beside.stands (backupName_ne_name key key) here⟩
  exact flushes.cons <| clear.cons <| aside.cons <| flushes.cons <| place.cons <| flushes.cons <|
    tidy.cons <| flushes.cons <| .nil fun _ held => held

/-! ## What a raise leaves -/

/-- What stood outside of the staging group and the backup stands. -/
def Unstaged (key : Key) (start file : H5File α) : Prop :=
  ∀ path object, ¬ key.pending <+: path → ¬ key.backup <+: path →
    start.node path = some object → file.node path = some object

theorem Unstaged.refl (key : Key) (file : H5File α) : Unstaged key file file :=
  fun _ _ _ _ standing => standing

theorem Unstaged.trans (one : Unstaged key start before) (two : Unstaged key before after) :
    Unstaged key start after := fun path object notPending notBackup standing =>
  two path object notPending notBackup (one path object notPending notBackup standing)

theorem Beside.unstaged (beside : Beside key name before after)
    (staging : name = key.stagingName ∨ name = key.backupName) : Unstaged key before after := by
  intro path object notPending notBackup standing
  rcases staging with rfl | rfl
  · exact (beside path notPending).trans standing
  · exact (beside path notBackup).trans standing

theorem unstaged_steady (key : Key) (start : H5File α) : Steady key (Unstaged key start) :=
  fun _ _ beside held => held.trans (beside.unstaged (.inl rfl))

/-- The backup is restored where nothing stands at the key, and so nothing under it. -/
theorem restoreBackup_unstaged (run : restoreBackup key before = .ok after) :
    Unstaged key before after := by
  unfold restoreBackup at run
  split at run
  · rename_i absent
    rw [Bool.and_eq_true, Bool.not_eq_true', contains_eq_false] at absent
    intro path object _ notBackup standing
    refine (Tree.node_move_outside (move_ok run) notBackup ?_).trans standing
    rintro ⟨below, rfl⟩
    have missing : before.node key.path = none := absent.1
    cases below with
    | nil =>
        rw [List.append_nil] at standing
        rw [path_eq, standing] at missing
        cases missing
    | cons component rest =>
        obtain ⟨label, branch⟩ := before.branch_of_below (List.cons_ne_nil component rest)
          (by rw [standing]; exact Option.some_ne_none _)
        rw [path_eq, branch] at missing
        cases missing
  · cases run
    exact .refl key before

theorem createGroup_unstaged (run : createGroup path before = .ok after) :
    Unstaged key before after := by
  obtain ⟨_, nodes⟩ := createGroup_ok run
  intro other object _ _ standing
  rw [nodes]
  simp [standing]

theorem recover_unstaged : Ensures (Unstaged key start) (Unstaged key start) (Unstaged key start)
    (inOrder undisturbed (recoverHdf5Group key)) := by
  refine inOrder_ensures (fun _ held => held) fun statement member file after held run => ?_
  refine held.trans ?_
  simp only [recoverHdf5Group, List.mem_cons, List.not_mem_nil, or_false] at member
  rcases member with rfl | rfl | rfl | rfl | rfl
  · exact restoreBackup_unstaged run
  · rw [flush_ok run]
    exact .refl key file
  · exact (discardPending_beside run).unstaged (.inl rfl)
  · unfold discardStaleBackup at run
    split at run
    · exact (discardBackup_beside run).2.unstaged (.inr rfl)
    · cases run
      exact .refl key file
  · rw [flush_ok run]
    exact .refl key file

/-- An undisturbed write that opens the file. -/
theorem replaceGroup_undisturbed (np : NumPy α) (request : Request α) (key : Key) (rowCount : Nat) :
    Ensures (Unstaged key start)
      (fun file => ∃ set, request.arrays np rowCount = .ok set ∧ set.StandsAt file key.path)
      (Unstaged key start) (replaceGroup np undisturbed request key rowCount) := by
  have create : Ensures (Unstaged key start)
      (Staging key (Unstaged key start) OrderedDict.empty OrderedDict.empty) (Unstaged key start)
      (perform undisturbed (createGroup key.pending)) :=
    perform_ensures (fun _ held => held) fun _ _ =>
      createGroup_stages fun _ _ held run => held.trans (createGroup_unstaged run)
  have body : Ensures (Staging key (Unstaged key start) OrderedDict.empty OrderedDict.empty)
      (fun file => ∃ set, request.arrays np rowCount = .ok set ∧ set.StandsAt file key.path)
      (Unstaged key start) (writeGroup np undisturbed request key rowCount) := by
    intro run staging
    refine (fillGroup_ensures (unstaged_steady key start) (fun _ held => held) request rowCount run
      staging).bind fun filled result => ?_
    obtain ⟨set, arrays, _, staged⟩ := result
    exact (exchange_total filled staged).mono fun after here => ⟨set, arrays, here⟩
  have cleanup : Ensures (Unstaged key start) (Unstaged key start) (Unstaged key start)
      (inOrder undisturbed [discardPending key, flush]) := by
    refine inOrder_ensures (fun _ held => held) fun statement member file after held run => ?_
    simp only [List.mem_cons, List.not_mem_nil, or_false] at member
    rcases member with rfl | rfl
    · exact held.trans ((discardPending_beside run).unstaged (.inl rfl))
    · rw [flush_ok run]
      exact held
  exact recover_unstaged.bind <| create.bind <| guarded_ensures body cleanup fun _ held => held

end Gambit.Hdf5
