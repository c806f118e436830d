import Gambit.Hdf5.Groups

/-!
# What the reader returns

The reader sees a committed set and nothing else of the file: its answer for a
key is the answer for the set that stands there.
-/

set_option autoImplicit false

namespace Gambit.Hdf5

open PathTrees Raising

variable {α : Type} {np : NumPy α} {limits : Limits} {key : Key} {path : List String}
  {file : H5File α} {set : ArraySet α} {standing : Option (ArraySet α)} {attrs : Attrs}

/-- The answer for a set: its arrays, or the refusal of the reader's own checks. -/
def ArraySet.reading (np : NumPy α) (limits : Limits) (set : ArraySet α) :
    Except Exn (List (String × α)) :=
  readGroup np limits set.attributes fun col => (set.columns.get? col).map .leaf

/-- The answer for what stands for a key: no arrays where nothing does. -/
def obtained (np : NumPy α) (limits : Limits) (standing : Option (ArraySet α)) :
    Except Exn (List (String × α)) := do
  let _ ← validateResourceLimits limits
  match standing with
  | some set => set.reading np limits
  | none => .ok []

theorem obtained_some (positive : validateResourceLimits limits = .ok ()) :
    obtained np limits (some set) = set.reading np limits := by
  simp only [obtained, positive, bind, Except.bind]

/-! ## The manifest of a set -/

theorem readManifest_attributes (set : ArraySet α) :
    readManifest set.attributes = .ok (set.columns.keys, set.utf8Columns) := by
  simp [readManifest, ArraySet.attributes, openingAttrs, closingAttrs, OrderedDict.get?_set,
    OrderedDict.contains, hdf5IntegerAttribute, loadNames, bind, Except.bind]

theorem rows_attributes (set : ArraySet α) :
    hdf5IntegerAttribute set.attributes "rows" 0 = .ok set.rows := by
  simp [hdf5IntegerAttribute, ArraySet.attributes, openingAttrs, closingAttrs,
    OrderedDict.get?_set]

/-- The reader looks at the columns the manifest lists. -/
theorem readGroup_congr {object object' : String → Option (H5Object α)}
    (same : ∀ columns utf8Cols, readManifest attrs = .ok (columns, utf8Cols) →
      ∀ col ∈ columns, object col = object' col) :
    readGroup np limits attrs object = readGroup np limits attrs object' := by
  unfold readGroup
  cases listed : readManifest attrs with
  | error error => rfl
  | ok manifest =>
      obtain ⟨columns, utf8Cols⟩ := manifest
      have agree : ∀ (rows maxBytes : Int) (admitted : Nat × List (String × α)),
          columns.foldlM (admitColumn np object utf8Cols rows maxBytes) admitted =
            columns.foldlM (admitColumn np object' utf8Cols rows maxBytes) admitted := by
        have each := same columns utf8Cols listed
        clear listed same
        intro rows maxBytes admitted
        induction columns generalizing admitted with
        | nil => rfl
        | cons col rest ih =>
            have first : admitColumn np object utf8Cols rows maxBytes admitted col =
                admitColumn np object' utf8Cols rows maxBytes admitted col := by
              unfold admitColumn
              rw [each col (List.mem_cons_self ..)]
            rw [List.foldlM_cons, List.foldlM_cons, first]
            refine bind_congr fun next => ?_
            exact ih (fun col member => each col (List.mem_cons_of_mem _ member)) next
      simp only [bind, Except.bind, agree]

theorem readObject_stands (stands : set.StandsAt file path) {object : H5Object α}
    (found : file.node path = some object) :
    readObject np limits file path object = set.reading np limits := by
  have same : object = .branch set.attributes := Option.some.inj (found.symm.trans stands.group)
  rw [same, readObject, ArraySet.reading]
  apply readGroup_congr
  intro columns utf8Cols listed col member
  rw [readManifest_attributes] at listed
  have whole : set.columns.keys = columns := congrArg Prod.fst (Except.ok.inj listed)
  rw [← whole, ← OrderedDict.contains_iff] at member
  obtain ⟨array, stored⟩ := Option.isSome_iff_exists.mp member
  rw [stands.datasets col array stored, stored]
  rfl

/-! ## Sets the reader admits -/

/-- The names and the UTF-8 columns of a set are what a manifest may hold. -/
structure ArraySet.Listed (set : ArraySet α) : Prop where
  named : ∀ col ∈ set.columns.keys, validColumnName col = true
  encoded : ∀ col ∈ set.utf8Columns, col ∈ set.columns.keys

/-- The set is within the reader's limits, in columns of one shape whose UTF-8 ones
are bytes. -/
structure ArraySet.Readable (np : NumPy α) (limits : Limits) (set : ArraySet α) : Prop where
  few : (set.columns.items.length : Int) ≤ limits.maxColumns
  short : (set.rows : Int) ≤ limits.maxRows
  shaped : ∀ item ∈ set.columns.items,
    np.ndim item.2 = 1 ∧ np.len item.2 = set.rows ∧ np.hasobject item.2 = false
  bytes : ∀ item ∈ set.columns.items, item.1 ∈ set.utf8Columns → np.kind item.2 = .bytes
  small : ((set.columns.items.map fun item => decodedBytes np item.2).sum : Nat) ≤ limits.maxBytes

/-- Every column of the set, decoded. -/
def ArraySet.decoded (np : NumPy α) (set : ArraySet α) : Except Exn (List (String × α)) :=
  set.columns.items.mapM (decodeColumn np set.utf8Columns)

theorem admitColumns_ok {object : String → Option (H5Object α)} {utf8Cols : List String} {rows : Nat}
    {maxBytes : Int} (items : List (String × α))
    (each : ∀ item ∈ items, object item.1 = some (.leaf item.2) ∧ np.ndim item.2 = 1 ∧
      np.len item.2 = rows ∧ np.hasobject item.2 = false ∧
      (item.1 ∈ utf8Cols → np.kind item.2 = .bytes))
    (admitted : Nat × List (String × α))
    (small : (admitted.1 + (items.map fun item => decodedBytes np item.2).sum : Nat) ≤ maxBytes) :
    ∃ total, (items.map Prod.fst).foldlM (admitColumn np object utf8Cols rows maxBytes) admitted =
      .ok (total, admitted.2 ++ items) := by
  induction items generalizing admitted with
  | nil => exact ⟨admitted.1, by rw [List.append_nil]; rfl⟩
  | cons item rest ih =>
      obtain ⟨found, flat, length, plain, encoded⟩ := each item (List.mem_cons_self ..)
      rw [List.map_cons, List.sum_cons, ← Nat.add_assoc] at small
      have within : ¬ maxBytes < ((admitted.1 + decodedBytes np item.2 : Nat) : Int) := by omega
      have utf8 : ¬ (item.1 ∈ utf8Cols ∧ ¬ np.kind item.2 = .bytes) := by
        intro both
        exact both.2 (encoded both.1)
      have first : admitColumn np object utf8Cols rows maxBytes admitted item.1 =
          .ok (admitted.1 + decodedBytes np item.2, admitted.2 ++ [item]) := by
        simp only [admitColumn, found, flat, length, plain, utf8, within, ne_eq, not_true_eq_false,
          or_self, Bool.false_eq_true, if_false]
      obtain ⟨total, others⟩ := ih (fun other member => each other (List.mem_cons_of_mem _ member))
        (admitted.1 + decodedBytes np item.2, admitted.2 ++ [item]) small
      refine ⟨total, ?_⟩
      rw [List.map_cons, List.foldlM_cons, first]
      simp only [List.append_assoc, List.singleton_append] at others
      exact others

theorem reading_of_readable (listed : set.Listed) (readable : set.Readable np limits) :
    set.reading np limits = set.decoded np := by
  let object : String → Option (H5Object α) := fun col => (set.columns.get? col).map .leaf
  have each : ∀ item ∈ set.columns.items, object item.1 = some (.leaf item.2) ∧
      np.ndim item.2 = 1 ∧ np.len item.2 = set.rows ∧ np.hasobject item.2 = false ∧
      (item.1 ∈ set.utf8Columns → np.kind item.2 = .bytes) := by
    intro item member
    obtain ⟨flat, length, plain⟩ := readable.shaped item member
    refine ⟨?_, flat, length, plain, readable.bytes item member⟩
    change (set.columns.get? item.1).map _ = _
    rw [(set.columns.get?_eq_some_iff item.1 item.2).mpr member]
    rfl
  have small := readable.small
  rw [← Nat.zero_add (List.sum _)] at small
  obtain ⟨total, run⟩ := admitColumns_ok set.columns.items each (0, []) small
  have admitted : set.columns.keys.foldlM
      (admitColumn np (fun col => (set.columns.get? col).map .leaf) set.utf8Columns set.rows
        limits.maxBytes) (0, []) = .ok (total, set.columns.items) := run
  have names : (set.columns.keys.all validColumnName && decide set.columns.keys.Nodup) = true := by
    rw [Bool.and_eq_true, List.all_eq_true, decide_eq_true_eq]
    exact ⟨listed.named, set.columns.distinct⟩
  have utf8 : (set.utf8Columns.all fun col => col ∈ set.columns.keys ∨ col = "") = true := by
    rw [List.all_eq_true]
    intro col member
    exact decide_eq_true (.inl (listed.encoded col member))
  have count : ¬ limits.maxColumns < (set.columns.keys.length : Int) := by
    have few := readable.few
    rw [OrderedDict.keys, List.length_map]
    omega
  have rows : ¬ ((set.rows : Int) < 0 ∨ limits.maxRows < (set.rows : Int)) := by
    have short := readable.short
    omega
  unfold ArraySet.reading readGroup
  rw [readManifest_attributes]
  simp only [bind, Except.bind, names, utf8, count, rows_attributes, rows, admitted, Bool.not_true,
    Bool.false_eq_true, if_false]
  rfl

/-! ## The answer for a key -/

theorem reads_standing (stands : Standing key standing file) {name : String}
    (normal : normalizeHdf5Key name = .ok key) :
    hdf5ToNpArrays np file name limits = obtained np limits standing := by
  have empty : ∀ {child : String}, file.node (key.parent ++ [child]) = none →
      hdf5LocalObject file [] (key.parent ++ [child]) = .ok none :=
    hdf5LocalObject_none stands.openAbove
  have found : ∀ {path : List String} {object : H5Object α}, file.node path = some object →
      hdf5LocalObject file [] path = .ok (some object) := fun {path object} present =>
    @hdf5LocalObject_found α [] file path object present
  unfold hdf5ToNpArrays obtained
  rw [normal]
  cases validateResourceLimits limits with
  | error error => rfl
  | ok checked =>
      simp only [bind, Except.bind]
      cases standing with
      | none =>
          obtain ⟨absent, noBackup⟩ := stands.content
          rw [path_eq] at absent ⊢
          rw [backup_eq] at noBackup ⊢
          rw [empty absent]
          simp only [empty noBackup]
      | some set =>
          rcases stands.content with here | ⟨absent, aside⟩
          · rw [found here.group]
            exact readObject_stands here here.group
          · rw [path_eq] at absent ⊢
            rw [empty absent]
            simp only [found aside.group]
            exact readObject_stands aside aside.group

end Gambit.Hdf5
