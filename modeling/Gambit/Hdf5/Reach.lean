import Gambit.Hdf5.Attempts

/-!
# The reach of an attempt

Every statement of a write stays in the groups of its key.  What stands for a
key that is not nested with it stands on.
-/

set_option autoImplicit false

namespace Gambit.Hdf5

open PathTrees Interruptions Raising

variable {α : Type} {np : NumPy α} {fate : Fate Exn} {request : Request α} {key other : Key}
  {rowCount : Nat} {start file before after : H5File α} {set : ArraySet α}
  {standing : Option (ArraySet α)} {name own source target : String} {path : List String}

/-! ## The reach of an attempt -/

/-- The names of the three groups of a key. -/
def Key.Own (key : Key) (name : String) : Prop :=
  name = key.name ∨ name = key.stagingName ∨ name = key.backupName

theorem Key.Own.covers (own : key.Own name) (under : key.parent ++ [name] <+: path) :
    key.Covers path := by
  rcases own with rfl | rfl | rfl
  · exact ⟨.inl under⟩
  · exact ⟨.inr (.inl under)⟩
  · exact ⟨.inr (.inr under)⟩

theorem own_staging (key : Key) : key.Own key.stagingName := .inr (.inl rfl)

theorem own_backup (key : Key) : key.Own key.backupName := .inr (.inr rfl)

theorem own_name (key : Key) : key.Own key.name := .inl rfl

theorem Beside.touches (beside : Beside key name before after) (own : key.Own name) :
    Touches key before after := fun _ outside =>
  .inl (beside _ fun under => outside (own.covers under))

theorem move_touches (fromOwn : key.Own source) (toOwn : key.Own target)
    (run : move (key.parent ++ [source]) key.parent target before = .ok after) :
    Touches key before after := fun _ outside =>
  .inl (Tree.node_move_outside (move_ok run) (fun under => outside (fromOwn.covers under))
    fun under => outside (toOwn.covers under))

theorem createGroup_touches (run : createGroup key.pending before = .ok after) :
    Touches key before after := by
  obtain ⟨_, nodes⟩ := createGroup_ok run
  intro path outside
  rw [nodes]
  by_cases grown : path <+: key.pending ∧ before.node path = none
  · refine .inr ⟨grown.2, ?_, if_pos grown⟩
    rcases List.prefix_concat_iff.mp grown.1 with whole | above
    · exact absurd ((own_staging key).covers (whole ▸ List.prefix_rfl)) outside
    · exact above
  · exact .inl (if_neg grown)

/-- A statement that changes the groups of the key alone. -/
def Local (key : Key) (statement : Statement α) : Prop :=
  ∀ before after, statement before = .ok after → Touches key before after

theorem flush_local : Local key (flush : Statement α) := by
  intro before after run
  rw [flush_ok run]
  exact .refl before

theorem discardPending_local : Local key (discardPending key : Statement α) := fun _ _ run =>
  (discardPending_beside run).touches (own_staging key)

theorem discardBackup_local : Local key (discardBackup key : Statement α) := fun _ _ run =>
  (discardBackup_beside run).2.touches (own_backup key)

theorem local_of_guard {statement : Statement α} (inside : Local key statement)
    (guard : H5File α → Bool) :
    Local key fun file => if guard file then statement file else .ok file := by
  intro before after run
  simp only at run
  split at run
  · exact inside before after run
  · cases run
    exact .refl before

theorem setAttr_local (col : String) (value : Attr) :
    Local key (setAttr key.pending col value : Statement α) := fun _ _ run =>
  (setAttr_beside run).touches (own_staging key)

theorem recover_local : ∀ statement ∈ (recoverHdf5Group key : List (Statement α)),
    Local key statement := by
  intro statement member
  simp only [recoverHdf5Group, List.mem_cons, List.not_mem_nil, or_false] at member
  rcases member with rfl | rfl | rfl | rfl | rfl
  · have restore : Local key (move key.backup key.parent key.name : Statement α) :=
      fun _ _ run => move_touches (own_backup key) (own_name key) run
    exact local_of_guard restore _
  · exact flush_local
  · exact discardPending_local
  · exact local_of_guard discardBackup_local _
  · exact flush_local

theorem exchange_local : ∀ statement ∈ (exchange key : List (Statement α)),
    Local key statement := by
  have aside : Local key (move key.path key.parent (key.name ++ backupSuffix) : Statement α) :=
    fun _ _ run => move_touches (own_name key) (own_backup key) run
  intro statement member
  simp only [exchange, List.mem_cons, List.not_mem_nil, or_false] at member
  rcases member with rfl | rfl | rfl | rfl | rfl | rfl | rfl | rfl
  · exact flush_local
  · exact discardBackup_local
  · exact local_of_guard aside _
  · exact flush_local
  · exact fun _ _ run => move_touches (own_staging key) (own_name key) run
  · exact flush_local
  · exact discardBackup_local
  · exact flush_local

theorem Local.ensures {statement : Statement α} (inside : Local key statement) :
    Ensures (Touches key start) (Touches key start) (Touches key start)
      (perform fate statement) :=
  perform_ensures (fun _ held => held) fun _ _ held run => held.trans (inside _ _ run)

theorem locals_ensure {statements : List (Statement α)}
    (inside : ∀ statement ∈ statements, Local key statement) :
    Ensures (Touches key start) (Touches key start) (Touches key start)
      (inOrder fate statements) :=
  inOrder_ensures (fun _ held => held) fun statement member _ _ held run =>
    held.trans (inside statement member _ _ run)

theorem setAttrs_touch (pairs : List (String × Attr)) :
    Ensures (Touches key start) (Touches key start) (Touches key start)
      (inOrder fate (setAttrs key.pending pairs)) := by
  apply locals_ensure
  intro statement member
  obtain ⟨pair, _, rfl⟩ := List.mem_map.mp member
  exact setAttr_local pair.1 pair.2

theorem writeGroup_touches (request : Request α) (key : Key) (rowCount : Nat) :
    Ensures (Touches key start) (Touches key start) (Touches key start)
      (writeGroup np fate request key rowCount) := by
  intro run held
  unfold writeGroup fillGroup
  refine Yields.bind ?_ fun filled held => locals_ensure exchange_local filled held
  refine (setAttrs_touch openingAttrs run held).bind fun opened held => ?_
  have columns : Yields (fun done : Run (H5File α) × List String => Touches key start done.1.state)
      (fun stop => Touches key start stop.state.state)
      (request.data.items.foldlM (writeColumn np fate request.dtypes key)
        (opened, request.utf8Columns)) := by
    refine Yields.foldlM
      (P := fun done : Run (H5File α) × List String => Touches key start done.1.state) ?_ held
    intro item _ done held
    refine (compute_yields held).bind fun encoded _ => ?_
    have placed : Local key (createDataset np key.pending item.1 encoded.1) := fun _ _ run =>
      (createDataset_beside run).touches (own_staging key)
    exact (placed.ensures done.1 held).bind fun after held => held
  refine columns.bind fun done held => ?_
  exact setAttrs_touch _ done.1 held

theorem replaceGroup_touches (np : NumPy α) (fate : Fate Exn) (request : Request α) (key : Key) (rowCount : Nat) :
    Ensures (Touches key start) (Touches key start) (Touches key start)
      (replaceGroup np fate request key rowCount) := by
  have create : Local key (createGroup key.pending : Statement α) := fun _ _ =>
    createGroup_touches
  have cleanup : ∀ statement ∈ [discardPending key, (flush : Statement α)],
      Local key statement := by
    intro statement member
    simp only [List.mem_cons, List.not_mem_nil, or_false] at member
    rcases member with rfl | rfl
    · exact discardPending_local
    · exact flush_local
  exact (locals_ensure recover_local).bind <| create.ensures.bind <|
    guarded_ensures (writeGroup_touches request key rowCount) (locals_ensure cleanup)
      fun _ held => held

/-! ## Keys that are not nested -/

theorem Standing.of_touches (apart : key.Apart other) (touches : Touches other before after)
    (stands : Standing key standing before) : Standing key standing after where
  openAbove := fun _ above content =>
    touches.noLeaf (apart.not_covers_above above) (stands.openAbove _ above) content
  content := by
    have content := stands.content
    have path : ∀ below, ¬ other.Covers (key.path ++ below) := apart.not_covers_path
    have backup : ∀ below, ¬ other.Covers (key.backup ++ below) := apart.not_covers_backup
    have pathHere : ¬ other.Covers key.path := by simpa using path []
    have backupHere : ¬ other.Covers key.backup := by simpa using backup []
    have pathMissing : before.node key.path = none → after.node key.path = none :=
      touches.missing pathHere fun above =>
        apart.notAbove (above.trans (List.prefix_append _ _))
    have backupMissing : before.node key.backup = none → after.node key.backup = none :=
      touches.missing backupHere fun above =>
        not_under_invalid (not_valid_backup key) (fun _ => valid_parent) above
    cases standing with
    | none => exact ⟨pathMissing content.1, backupMissing content.2⟩
    | some set =>
        rcases content with here | ⟨absent, aside⟩
        · exact .inl ⟨touches.kept pathHere here.group,
            fun col array stored => touches.kept (path _) (here.datasets col array stored)⟩
        · exact .inr ⟨pathMissing absent, touches.kept backupHere aside.group,
            fun col array stored => touches.kept (backup _) (aside.datasets col array stored)⟩

end Gambit.Hdf5
