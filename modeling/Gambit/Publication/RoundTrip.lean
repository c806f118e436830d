import Gambit.Publication.Staging

/-!
# Generations open as they were published

The manifest is read back in key order, and every column of it opens.
-/

set_option autoImplicit false

namespace Gambit.Publication

open PathTrees MappedColumn PythonJson FactorIdentity FactorStore LoggedActions Raising

variable {φ : Type} {runtime : Runtime φ} {draws : Draws} {request : Request runtime}
  {written : List (String × Column)} {snapshot : Option (PyValue φ)} {disk : Disk} {generation : String}

/-- What opening a generation gives of what was published. -/
structure Faithful (request : Request runtime) (generation : String) (opened : Opened φ) : Prop where
  generation : opened.generation = generation
  nodeKey : opened.nodeKey = request.nodeKey
  identity : Option.Rel (fun restored identity => restored.nodeKey runtime.hexdigest =
      identity.nodeKey runtime.hexdigest ∧ restored.snapshot runtime.floats = identity.snapshot runtime.floats)
    opened.identity request.identity
  columns : List.Forall₂ (fun opened column => opened.1 = column.1 ∧
    ∃ values, column.2 = .vector values ∧ ReadsBack runtime.checksums values opened.2)
    opened.columns request.sortedColumns

/-! ## The manifest -/

/-- The metadata of the columns as they are read back. -/
def readMetadata (written : List (String × Column)) : PyValue φ :=
  sortedDict (written.map fun column => (column.1, sortedDict (columnMetadata column.1 column.2)))

def readFields (generation nodeKey : String) (createdNs : Int) (written : List (String × Column))
    (snapshot : Option (PyValue φ)) : List (String × PyValue φ) :=
  [("format", .str manifestFormat), ("version", .int manifestVersion), ("generation", .str generation),
    ("node_key", .str nodeKey), ("created_ns", .int createdNs), ("columns", readMetadata written)] ++
  (snapshot.map fun snapshot => ("identity", snapshot)).toList

theorem columnMetadata_distinct (name : String) (column : Column) :
    ((columnMetadata name column : List (String × PyValue φ)).map Prod.fst).Nodup := by
  change ["file", "rows", "checksum", "segment_version"].Nodup
  decide

theorem readFields_distinct (generation nodeKey : String) (createdNs : Int) :
    ((readFields generation nodeKey createdNs written snapshot).map Prod.fst).Nodup := by
  cases snapshot with
  | none =>
      change ["format", "version", "generation", "node_key", "created_ns", "columns"].Nodup
      decide
  | some snapshot =>
      change ["format", "version", "generation", "node_key", "created_ns", "columns", "identity"].Nodup
      decide

theorem dumps_metadata (distinct : (written.map Prod.fst).Nodup) :
    dumps runtime.floats (dict (written.map fun column =>
      (column.1, dict (columnMetadata column.1 column.2)))) = dumps runtime.floats (readMetadata written) := by
  have each : dumps runtime.floats (dict (written.map fun column =>
      (column.1, dict (columnMetadata column.1 column.2)))) = dumps runtime.floats (dict (written.map fun column =>
        (column.1, sortedDict (columnMetadata column.1 column.2)))) := by
    refine dumps_dict_congr runtime.floats ?_
    rw [List.forall₂_map_left_iff, List.forall₂_map_right_iff, List.forall₂_same]
    exact fun column _ => ⟨rfl, dumps_sortedDict (columnMetadata_distinct _ _)⟩
  rw [each]
  refine dumps_sortedDict ?_
  rw [List.map_map]
  exact distinct

theorem dumps_manifest (generation nodeKey : String) (createdNs : Int) (distinct : (written.map Prod.fst).Nodup) :
    dumps runtime.floats (dict (manifestFields generation nodeKey createdNs written snapshot)) =
      dumps runtime.floats (sortedDict (readFields generation nodeKey createdNs written snapshot)) := by
  rw [← dumps_sortedDict (readFields_distinct generation nodeKey createdNs)]
  refine dumps_dict_congr runtime.floats ?_
  refine List.rel_append ?_ ?_
  · exact .cons ⟨rfl, rfl⟩ (.cons ⟨rfl, rfl⟩ (.cons ⟨rfl, rfl⟩ (.cons ⟨rfl, rfl⟩ (.cons ⟨rfl, rfl⟩
      (.cons ⟨rfl, dumps_metadata distinct⟩ .nil)))))
  · rw [List.forall₂_same]
    exact fun _ _ => ⟨rfl, rfl⟩

theorem Plain.weaken {allowed others : String → Prop} {value : PyValue φ} (plain : Plain allowed value)
    (weaker : ∀ key, allowed key → others key) : Plain others value := by
  induction plain with
  | none => exact .none
  | bool value => exact .bool value
  | int value => exact .int value
  | float value => exact .float value
  | str text => exact .str text
  | list _ ih => exact .list ih
  | dict sorted keys _ ih => exact .dict sorted (fun field member => weaker _ (keys field member)) ih

theorem plain_metadata (written : List (String × Column)) :
    Plain (fun _ => True) (readMetadata written : PyValue φ) := by
  refine plain_sortedDict (fun _ _ => trivial) ?_
  intro field member
  obtain ⟨column, _, rfl⟩ := List.mem_map.mp member
  refine plain_sortedDict (fun _ _ => trivial) ?_
  intro entry stored
  simp only [columnMetadata, List.mem_cons, List.not_mem_nil, or_false] at stored
  obtain rfl | rfl | rfl | rfl := stored
  · exact .str _
  · exact .int _
  · exact .int _
  · exact .int _

theorem plain_manifest (generation nodeKey : String) (createdNs : Int)
    (plain : ∀ value ∈ snapshot, Plain (fun _ => True) value) :
    Plain (fun _ => True) (sortedDict (readFields generation nodeKey createdNs written snapshot)) := by
  refine plain_sortedDict (fun _ _ => trivial) ?_
  intro field member
  rcases List.mem_append.mp member with fixed | optional
  · simp only [List.mem_cons, List.not_mem_nil, or_false] at fixed
    obtain rfl | rfl | rfl | rfl | rfl | rfl := fixed
    · exact .str _
    · exact .int _
    · exact .str _
    · exact .str _
    · exact .int _
    · exact plain_metadata written
  · cases snapshot with
    | none => cases optional
    | some value =>
        rw [List.mem_singleton.mp optional]
        exact plain value rfl

/-- The snapshot of an identity that was constructed. -/
theorem snapshot_made (printed : request.snapshot = .ok snapshot) :
    (request.identity = none ∧ snapshot = none) ∨ ∃ identity restored value, request.identity = some identity ∧
      snapshot = some value ∧ Plain (fun _ => True) value ∧ value ≠ .none ∧
      fromSnapshot runtime.floats value = .ok restored ∧
      restored.nodeKey runtime.hexdigest = identity.nodeKey runtime.hexdigest ∧
      restored.snapshot runtime.floats = identity.snapshot runtime.floats := by
  unfold Request.snapshot at printed
  split at printed
  · rename_i absent
    cases printed
    exact .inl ⟨absent, rfl⟩
  · rename_i identity present
    obtain ⟨arguments, run⟩ := request.made identity present
    obtain ⟨parameters, context, built⟩ := FactorIdentity.create_ok run
    rw [built.snapshot] at printed
    cases printed
    have again := create_sameContract (restored_sameContract built) run
    refine .inr ⟨identity, ⟨arguments.restored parameters context, identity.canonicalPayload⟩, _, present, rfl,
      Plain.weaken built.isCanonical fun _ _ => trivial, ?_, ?_, rfl, rfl⟩
    · intro same
      cases same
    · rw [fromSnapshot, argumentsOf_snapshot]
      exact again

theorem stored_names {columns : List (String × FloatArray)} (stored : Stored runtime.checksums columns written) :
    written.map Prod.fst = columns.map Prod.fst := by
  induction stored with
  | nil => rfl
  | cons agree _ ih => rw [List.map_cons, List.map_cons, agree.1, ih]

theorem Filled.readManifest {place : String} (filled : Filled draws request ["generations", place] written snapshot disk) :
    readManifest runtime place disk =
      .ok (sortedEntries (readFields draws.generation request.nodeKey draws.createdNs written snapshot)) := by
  have distinct : (written.map Prod.fst).Nodup := by
    rw [stored_names filled.stored]
    exact sortedColumns_distinct request
  have plain : ∀ value ∈ snapshot, Plain (fun _ => True) value := by
    rintro value ⟨rfl⟩
    rcases snapshot_made filled.printed with ⟨_, none⟩ | ⟨_, _, found, _, same, plain, _⟩
    · cases none
    · cases same
      exact plain
  obtain ⟨text, printed, file⟩ := filled.manifest
  obtain ⟨line, printedLine, read⟩ := @loads_dumpsAscii φ runtime.floats _ _
    (@plain_manifest φ written snapshot draws.generation request.nodeKey draws.createdNs plain)
  rw [dumpsAscii, dumps_manifest _ _ _ distinct, ← dumpsAscii, printedLine, Option.some.injEq] at printed
  subst printed
  have found : readJson runtime (manifestPath place) disk =
      .ok (sortedDict (readFields draws.generation request.nodeKey draws.createdNs written snapshot)) := by
    have there : disk.node (manifestPath place) = some (.leaf (.text (line ++ ['\n']))) := file
    have text : readText (manifestPath place) disk = .ok (line ++ ['\n']) := by
      rw [readText, there]
    rw [readJson, text]
    simp only [bind, Except.bind, read]
  unfold Publication.readManifest
  rw [found]
  rfl

/-! ## The columns -/

theorem metadata_entries (sorted : (written.map Prod.fst).Pairwise (· < ·)) :
    (readMetadata written : PyValue φ) = .mapping true (written.map fun column =>
      (.str column.1, sortedDict (columnMetadata column.1 column.2))) := by
  have items := SortedDict.ofList_items (⟨written.map fun column =>
    (column.1, (sortedDict (columnMetadata column.1 column.2) : PyValue φ)),
      List.pairwise_map.mpr (List.pairwise_map.mp sorted)⟩ : SortedDict String (PyValue φ))
  rw [readMetadata, sortedDict, dict, items, List.map_map]
  rfl

theorem isInt_int (number : Int) : isInt runtime (.int number) number = true := by
  simp [isInt]

/-- The file of a created column opens, and the metadata it was written with match it. -/
theorem openColumn_created {place name : String} {column : Column} {values : List UInt64} (named : isName name = true)
    (created : Created runtime.checksums values formatVersionV3 column)
    (inFile : InFile (generationPath place ++ [columnFile name]) column disk) :
    ∃ opened, openColumn runtime place disk (.str name, sortedDict (columnMetadata name column)) = .ok (name, opened) ∧
      ReadsBack runtime.checksums values opened := by
  obtain ⟨sized, there⟩ := inFile
  have granted : openCalls.opened ∧ openCalls.stated ∧ openCalls.mapped := ⟨rfl, rfl, rfl⟩
  obtain ⟨opened, run, start⟩ := created.reopened (by decide) granted
  have openedFile : openColumnFile runtime (generationPath place ++ [columnFile name]) disk = .ok opened := by
    unfold openColumnFile
    rw [there]
    simp only [File.segment, run]
  have distinct := @columnMetadata_distinct φ name column
  have file : item (sortedEntries (columnMetadata name column)) "file" = (.str (columnFile name) : PyValue φ) :=
    item_sortedEntries distinct (.head _)
  have rows : item (sortedEntries (columnMetadata name column)) "rows" = (.int (rowCount column) : PyValue φ) :=
    item_sortedEntries distinct (.tail _ (.head _))
  have sum : item (sortedEntries (columnMetadata name column)) "checksum" = (.int (checksum column) : PyValue φ) :=
    item_sortedEntries distinct (.tail _ (.tail _ (.head _)))
  have version : item (sortedEntries (columnMetadata name column)) "segment_version" =
      (.int (formatVersion column) : PyValue φ) :=
    item_sortedEntries distinct (.tail _ (.tail _ (.tail _ (.head _))))
  have sameRows : rowCount opened = rowCount column := by rw [rowCount, start.same, rowCount]
  have sameSum : checksum opened = checksum column := by rw [checksum, start.same, checksum]
  have sameVersion : formatVersion opened = formatVersion column := by
    rw [formatVersion, start.same, formatVersion]
  refine ⟨opened, ?_, created.reads_back start⟩
  have entries : (sortedDict (columnMetadata name column) : PyValue φ) =
      .mapping true (sortedEntries (columnMetadata name column)) := rfl
  have isFile : isStr (.str (columnFile name) : PyValue φ) (columnFile name) = true := by simp [isStr]
  rw [entries, openColumn, if_neg (by simp [named]), file, if_neg (by simp [isFile]), openedFile]
  simp only [bind, Except.bind, rows, sum, version, sameRows, sameSum, sameVersion, isInt_int, and_self, if_true]

theorem openColumns_stored {place : String} {columns : List (String × FloatArray)}
    (stored : Stored runtime.checksums columns written) (named : ∀ column ∈ columns, isName column.1 = true)
    (placed : Placed (generationPath place) written disk) :
    ∃ opened, (written.map fun column => (Key.str column.1, (sortedDict (columnMetadata column.1 column.2) : PyValue φ))).mapM
        (openColumn runtime place disk) = .ok opened ∧
      List.Forall₂ (fun opened column => opened.1 = column.1 ∧
        ∃ values, column.2 = .vector values ∧ ReadsBack runtime.checksums values opened.2) opened columns := by
  induction stored with
  | nil => exact ⟨[], rfl, .nil⟩
  | @cons column created columns written agree _ ih =>
      obtain ⟨same, values, vector, stored⟩ := agree
      obtain ⟨others, run, agreeing⟩ := ih (fun column member => named column (List.mem_cons_of_mem _ member))
        fun column member => placed column (List.mem_cons_of_mem _ member)
      obtain ⟨opened, first, readsBack⟩ := @openColumn_created φ runtime disk place created.1 created.2 values
        (same ▸ named column List.mem_cons_self) stored (placed created List.mem_cons_self)
      refine ⟨(created.1, opened) :: others, ?_, .cons ⟨same, values, vector, readsBack⟩ agreeing⟩
      rw [List.map_cons, List.mapM_cons, first, run]
      rfl

structure Valid (request : Request runtime) : Prop where
  columns : request.columns.items ≠ []
  nodeKey : isNodeKey request.nodeKey = true
  identity : ∀ identity ∈ request.identity, identity.nodeKey runtime.hexdigest = request.nodeKey
  names : ∀ name ∈ request.columns.keys, isName name = true

theorem valid_of_check (valid : checkRequest runtime request = .ok ()) : Valid request := by
  unfold checkRequest at valid
  simp only [refuse_ok] at valid
  obtain ⟨columns, nodeKey, identity, names, _⟩ := valid
  refine ⟨columns, by simpa using nodeKey, ?_, ?_⟩
  · intro found present
    by_contra differs
    apply identity
    rw [Option.any_eq_true]
    exact ⟨found, present, by simpa using differs⟩
  · intro name member
    by_contra unsafeName
    exact names (List.any_eq_true.mpr ⟨name, member, by simpa using unsafeName⟩)

theorem mem_sortedColumns {column : String × FloatArray} :
    column ∈ request.sortedColumns ↔ column ∈ request.columns.items :=
  (SortedDict.perm_ofList request.columns.distinct).mem_iff

theorem item_missing {fields : List (String × PyValue φ)} {name : String} (missing : name ∉ fields.map Prod.fst) :
    item (sortedEntries fields) name = .none := by
  have nothing : (sortedEntries fields).find? (fun entry => entry.1 = .str name) = none := by
    rw [List.find?_eq_none]
    intro entry member here
    obtain ⟨field, stored, rfl⟩ := List.mem_map.mp member
    have same : field.1 = name := by simpa using here
    exact missing (same ▸ List.mem_map_of_mem (SortedDict.mem_ofList stored))
  rw [item, nothing]
  rfl

/-- The identity a generation was published with. -/
theorem openIdentity_made (valid : Valid request) (printed : request.snapshot = .ok snapshot) {requireIdentity : Bool}
    (identified : requireIdentity = true → request.identity.isSome = true) :
    ∃ restored, openIdentity runtime request.nodeKey requireIdentity (snapshot.getD .none) = .ok restored ∧
      Option.Rel (fun restored identity => restored.nodeKey runtime.hexdigest =
        identity.nodeKey runtime.hexdigest ∧ restored.snapshot runtime.floats = identity.snapshot runtime.floats)
        restored request.identity := by
  rcases snapshot_made printed with ⟨absent, rfl⟩ | ⟨identity, restored, value, present, rfl, _, something, read, key, same⟩
  · have optional : requireIdentity = false := by
      rw [absent] at identified
      cases requireIdentity with
      | false => rfl
      | true => cases identified rfl
    rw [optional, absent]
    exact ⟨none, rfl, .none⟩
  · refine ⟨some restored, ?_, by rw [present]; exact .some ⟨key, same⟩⟩
    have sameKey : restored.nodeKey runtime.hexdigest = request.nodeKey :=
      key.trans (valid.identity identity present)
    rw [Option.getD_some]
    unfold openIdentity
    split
    · exact absurd rfl something
    · rw [read]
      simp only [sameKey, ne_eq, not_true_eq_false, if_false]

theorem isStr_str (text : String) : isStr (.str text : PyValue φ) text = true := by
  simp [isStr]

/-- A generation with the files of a publication opens as what was published. -/
theorem Filled.opens (filled : Filled draws request (generationPath draws.generation) written snapshot disk)
    (valid : Valid request) {expected : Option String} {requireIdentity : Bool}
    (expects : expected = none ∨ expected = some request.nodeKey)
    (identified : requireIdentity = true → request.identity.isSome = true) :
    ∃ opened, openGeneration runtime draws.generation expected requireIdentity disk = .ok opened ∧
      Faithful request draws.generation opened := by
  have manifest := filled.readManifest
  have distinct := @readFields_distinct φ written snapshot draws.generation request.nodeKey draws.createdNs
  have stored : ∀ {name : String} {value : PyValue φ},
      (name, value) ∈ readFields draws.generation request.nodeKey draws.createdNs written snapshot →
      item (sortedEntries (readFields draws.generation request.nodeKey draws.createdNs written snapshot)) name = value :=
    fun member => item_sortedEntries distinct member
  have format := stored (.head _)
  have version := stored (.tail _ (.head _))
  have named := stored (.tail _ (.tail _ (.head _)))
  have nodeKey := stored (.tail _ (.tail _ (.tail _ (.head _))))
  have columns := stored (.tail _ (.tail _ (.tail _ (.tail _ (.tail _ (.head _))))))
  have key : manifestNodeKey runtime draws.generation expected (sortedEntries
      (readFields draws.generation request.nodeKey draws.createdNs written snapshot)) = .ok request.nodeKey := by
    have text : textOf (.str request.nodeKey : PyValue φ) = request.nodeKey := rfl
    unfold manifestNodeKey
    rw [format, version, named, nodeKey, isStr_str, isStr_str, isInt_int, text, valid.nodeKey, if_neg (by simp), if_neg]
    rintro ⟨asked, other⟩
    exact expects.elim asked other
  have sortedNames : (written.map Prod.fst).Pairwise (· < ·) := by
    rw [stored_names filled.stored]
    exact List.pairwise_map.mpr (SortedDict.ofList request.columns.items).sorted
  obtain ⟨opened, run, agreeing⟩ := @openColumns_stored φ runtime written disk draws.generation _ filled.stored
    (fun column member => valid.names _ (List.mem_map_of_mem (mem_sortedColumns.mp member))) filled.placed
  have some' : ∃ entry entries, (written.map fun column =>
      (Key.str column.1, (sortedDict (columnMetadata column.1 column.2) : PyValue φ))) = entry :: entries := by
    cases published : written with
    | nil =>
        have none := stored_names filled.stored
        rw [published, List.map_nil] at none
        have empty : request.columns.items = [] := List.eq_nil_iff_forall_not_mem.mpr fun column member => by
          have listed := List.mem_map_of_mem (f := Prod.fst) (mem_sortedColumns.mpr member)
          rw [← none] at listed
          cases listed
        exact absurd empty valid.columns
    | cons column written => exact ⟨_, _, rfl⟩
  obtain ⟨entry, entries, listed⟩ := some'
  have found : item (sortedEntries (readFields draws.generation request.nodeKey draws.createdNs written snapshot))
      "identity" = snapshot.getD .none := by
    cases snapshot with
    | some value => exact stored (List.mem_append_right _ (List.mem_singleton.mpr rfl))
    | none =>
        refine item_missing ?_
        change "identity" ∉ ["format", "version", "generation", "node_key", "created_ns", "columns"]
        decide
  obtain ⟨restored, identity, related⟩ := openIdentity_made valid filled.printed identified
  refine ⟨⟨draws.generation, request.nodeKey, restored, opened⟩, ?_, rfl, rfl, related, agreeing⟩
  rw [metadata_entries sortedNames, listed] at columns
  rw [listed] at run
  rw [openGeneration, manifest]
  simp only [bind, Except.bind, key, found, identity, columns]
  change (entry :: entries).mapM (openColumn runtime draws.generation disk) = _ at run
  simp only [run]

end Gambit.Publication
