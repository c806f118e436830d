import Gambit.FactorCache.RoundTrip
import Gambit.Publication.Soundness

/-!
# What is staged opens as what was published

The staging directory ends up with every column in its file and with the
manifest of the columns.  A generation with these files opens, under the key and
the identity it was published with, and its columns read their values back.
-/

set_option autoImplicit false

namespace Gambit.Publication

open PathTrees MappedColumn PythonJson FactorIdentity FactorStore LoggedActions Triples

variable {φ : Type} {runtime : Runtime φ} {faults : Faults Exn} {draws : Draws} {request : Request runtime}

/-- The columns written are of the columns published. -/
def Stored (checksums : Checksums) : List (String × FloatArray) → List (String × Column) → Prop :=
  List.Forall₂ fun column written => written.1 = column.1 ∧
    ∃ values, column.2 = .vector values ∧ Created checksums values formatVersionV3 written.2

/-- The file of a column. -/
def InFile (path : List String) (column : Column) (disk : Disk) : Prop :=
  ∃ sized, disk.node path = some (.leaf (.binary ⟨column.mapping, sized⟩))

/-- The files of the columns are in a directory. -/
def Placed (place : List String) (written : List (String × Column)) (disk : Disk) : Prop :=
  ∀ column ∈ written, InFile (place ++ [columnFile column.1]) column.2 disk

/-- The file of a value as a line of JSON. -/
def InJson (runtime : Runtime φ) (path : List String) (value : PyValue φ) (disk : Disk) : Prop :=
  ∃ text, dumpsAscii runtime.floats value = some text ∧
    disk.node path = some (.leaf (.text (text ++ ['\n'])))

/-- A directory with the files of a publication. -/
structure Filled (draws : Draws) (request : Request runtime) (place : List String) (written : List (String × Column))
    (snapshot : Option (PyValue φ)) (disk : Disk) : Prop where
  stored : Stored runtime.checksums request.sortedColumns written
  printed : request.snapshot = .ok snapshot
  manifest : InJson runtime (place ++ ["manifest.json"])
    (dict (manifestFields draws.generation request.nodeKey draws.createdNs written snapshot)) disk
  placed : Placed place written disk

/-! ## Writing -/

variable {parent : List String} {name : String} {values : List UInt64} {disk other : Disk}

theorem write_does (content : File) :
    Does (fun _ => True) (Publication.call faults (.write parent name content))
      (fun _ world => world.state.node (parent ++ [name]) = some (.leaf content)) fun _ _ => True := by
  refine (Does.perform (A := fun _ => True) (C := fun _ => True) (B := fun disk =>
    disk.node (parent ++ [name]) = some (.leaf content)) ?_ fun _ _ => trivial).post fun _ _ now => now
  intro disk after _ run
  rw [write_ok run]
  exact if_pos rfl

/-- A flush changes nothing. -/
theorem flush_does {P : Disk → Prop} {call : Call} (flush : ∀ disk after, call.apply disk = .ok after → after = disk) :
    Does (fun world => P world.state) (Publication.call faults call) (fun _ world => P world.state) fun _ _ => True := by
  refine (Does.perform (A := P) (B := P) (C := fun _ => True) ?_ fun _ _ => trivial).post fun _ _ now => now
  intro disk after before run
  rw [flush disk after run]
  exact before

theorem flushFile_ok {after : Disk} (run : (Call.flushFile parent name).apply disk = .ok after) : after = disk := by
  cases run
  rfl

theorem writeFile_does (content : List Char) :
    Does (fun _ => True) (writeFile faults parent name content)
      (fun _ world => world.state.node (parent ++ [name]) = some (.leaf (.text content))) fun _ _ => True :=
  Does.any.bind fun _ => (write_does (.text content)).bind fun _ =>
    flush_does (P := fun disk => disk.node (parent ++ [name]) = some (.leaf (.text content))) fun _ _ => flushFile_ok

theorem createColumn_does :
    Does (fun _ => True) (createColumn runtime faults parent name values)
      (fun column world => Created runtime.checksums values formatVersionV3 column ∧
        InFile (parent ++ [name]) column world.state) fun _ _ => True := by
  unfold createColumn
  split
  · exact Does.raise fun _ _ => trivial
  · rename_i column accepted
    have created : Created runtime.checksums values formatVersionV3 column :=
      (ends_of_triple (createImpl_spec (by decide)) rfl).of_ok accepted
    split
    · rename_i sized
      refine Does.any.bind fun _ => Does.bind (Q := fun _ world => InFile (parent ++ [name]) column world.state) ?_
        fun _ => Does.pure fun world now => ⟨created, now⟩
      refine Does.rescue (E := fun _ _ => True) ?_ fun error => Does.any.bind fun _ => Does.raise fun _ _ => trivial
      refine (write_does (.binary ⟨column.mapping, sized⟩)).bind fun _ => ?_
      exact (flush_does (P := fun disk => disk.node (parent ++ [name]) =
        some (.leaf (.binary ⟨column.mapping, sized⟩))) fun _ _ => flushFile_ok).post fun _ _ now => ⟨sized, now⟩
    · exact Does.raise fun _ _ => trivial

theorem columnFile_injective {name other : String} (same : columnFile name = columnFile other) : name = other := by
  have chars := congrArg String.toList same
  rw [columnFile, columnFile, String.toList_append, String.toList_append] at chars
  exact String.toList_inj.mp (List.append_cancel_right chars)

theorem columnFile_ne_manifest (name : String) : columnFile name ≠ "manifest.json" := by
  intro same
  have chars := congrArg String.toList same
  rw [columnFile, String.toList_append] at chars
  have split : "manifest.json".toList = "manifest.".toList ++ "json".toList := rfl
  rw [split] at chars
  exact absurd (List.append_inj' chars rfl).2 (by decide)

/-- A call that stays with the files of these columns. -/
def OnColumns (place : List String) (names : List String) (call : Call) : Prop :=
  ∀ path, call.Touches path → ∃ name ∈ names, place ++ [columnFile name] <+: path

theorem onColumns_onFile {place names : List String} (member : name ∈ names) :
    OnFile (OnColumns place names) place (columnFile name) where
  create := fun _ same => ⟨name, member, same ▸ List.prefix_refl _⟩
  write := fun _ _ same => ⟨name, member, same ▸ List.prefix_refl _⟩
  flushFile := fun _ none => none.elim
  unlink := fun _ under => ⟨name, member, under⟩

theorem node_apart {place names : List String} {call : Call} (onColumns : OnColumns place names call)
    (apart : ∀ other ∈ names, columnFile other ≠ name) (disk : Disk) :
    (call.effect disk).node (place ++ [name]) = disk.node (place ++ [name]) := by
  refine node_effect fun touches => ?_
  obtain ⟨other, member, under⟩ := onColumns _ touches
  have same := List.append_cancel_left (under.eq_of_length (by simp))
  exact apart other member (List.cons.inj same).1

/-- The loop puts every column in its file. -/
theorem publishColumns_does {staging : List String} {verifyWritten : Bool} (columns : List (String × FloatArray))
    (distinct : (columns.map Prod.fst).Nodup) : ∀ expectedRows,
    Does (fun _ => True) (publishColumns runtime faults staging verifyWritten expectedRows columns)
      (fun written world => Stored runtime.checksums columns written ∧ Placed staging written world.state)
      fun _ _ => True := by
  induction columns with
  | nil =>
      intro expectedRows
      exact Does.pure fun world _ => ⟨.nil, fun column none => (List.not_mem_nil none).elim⟩
  | cons column columns ih =>
      intro expectedRows
      obtain ⟨name, values⟩ := column
      obtain ⟨fresh, others⟩ := List.nodup_cons.mp distinct
      cases values with
      | other => exact Does.raise fun _ _ => trivial
      | vector values =>
          rw [publishColumns]
          refine Does.ite (fun _ => Does.raise fun _ _ => trivial) fun _ => createColumn_does.bind fun column => ?_
          have still : Logs Call.effect (fun _ => False) (verifyIf runtime faults verifyWritten
            (staging ++ [columnFile name]) values) := verifyIf_logs
          -- what has been placed stays while the rest is written
          have logs : Logs Call.effect (OnColumns staging (columns.map Prod.fst))
              (publishColumns runtime faults staging verifyWritten (some values.length) columns) :=
            publishColumns_logs columns (fun column member => onColumns_onFile (List.mem_map_of_mem member)) _
          have stays := logs.keeps (J := fun disk => Created runtime.checksums values formatVersionV3 column ∧
            InFile (staging ++ [columnFile name]) column disk) fun call onColumns disk now => by
              obtain ⟨created, sized, now⟩ := now
              refine ⟨created, sized, (node_apart onColumns ?_ disk).trans now⟩
              intro other member same
              rw [columnFile_injective same] at member
              exact fresh member
          have kept := still.keeps (J := fun disk => Created runtime.checksums values formatVersionV3 column ∧
            InFile (staging ++ [columnFile name]) column disk) fun _ none => none.elim
          refine (kept.post fun _ _ now => now).bind fun _ => ?_
          refine Does.bind (((ih others _).and stays).weaken (fun _ now => ⟨trivial, now⟩) (fun _ _ now => now)
            fun _ _ _ => trivial) fun written => Does.pure ?_
          rintro world ⟨⟨stored, placed⟩, created, inFile⟩
          refine ⟨.cons ⟨rfl, values, rfl, created⟩ stored, ?_⟩
          intro column member
          rcases List.mem_cons.mp member with rfl | inside
          · exact inFile
          · exact placed column inside

theorem sortedColumns_distinct (request : Request runtime) : (request.sortedColumns.map Prod.fst).Nodup :=
  List.pairwise_map.mpr ((SortedDict.ofList request.columns.items).sorted.imp fun less => less.ne)

theorem writeJson_does {value : PyValue φ} :
    Does (fun _ => True) (writeJson faults runtime parent name value)
      (fun _ world => InJson runtime (parent ++ [name]) value world.state) fun _ _ => True := by
  unfold writeJson
  split
  · rename_i text printed
    exact (writeFile_does _).post fun _ _ now => ⟨text, printed, now⟩
  · exact Does.raise fun _ _ => trivial

/-- Writing another file of the directory leaves the columns. -/
theorem Placed.write {place : List String} {written : List (String × Column)} {value : PyValue φ} :
    Does (fun world => Placed place written world.state)
      (writeJson faults runtime place "manifest.json" value)
      (fun _ world => Placed place written world.state) fun _ world => Placed place written world.state := by
  have onFile : OnFile (fun call => ∀ path, call.Touches path → place ++ ["manifest.json"] <+: path) place
      "manifest.json" := {
    create := fun _ same => same ▸ List.prefix_refl _
    write := fun _ _ same => same ▸ List.prefix_refl _
    flushFile := fun _ none => none.elim
    unlink := fun _ under => under }
  refine (writeJson_logs onFile).keeps fun call only disk placed column member => ?_
  obtain ⟨sized, there⟩ := placed column member
  refine ⟨sized, (node_effect fun touches => ?_).trans there⟩
  have same := List.append_cancel_left ((only _ touches).eq_of_length (by simp))
  exact columnFile_ne_manifest column.1 (List.cons.inj same).1.symm

/-- What `stage` leaves in the staging directory. -/
theorem stage_does : Does (fun _ => True) (stage runtime faults draws request)
    (fun _ world => ∃ written snapshot,
      Filled draws request ["generations", stagingName draws.generation] written snapshot world.state)
    fun _ _ => True := by
  refine (publishColumns_does _ (sortedColumns_distinct request) none).bind fun written => ?_
  refine Does.bind (Q := fun snapshot world => (Stored runtime.checksums request.sortedColumns written ∧
    Placed ["generations", stagingName draws.generation] written world.state) ∧ request.snapshot = .ok snapshot)
    (Does.of (fun world now snapshot taken => ⟨now, taken⟩) fun _ _ _ _ => trivial) fun snapshot => ?_
  intro world now
  obtain ⟨⟨stored, placed⟩, printed⟩ := now
  refine (Does.bind ((writeJson_does.and Placed.write).post fun _ _ now => now) fun _ => ?_) world ⟨trivial, placed⟩
  refine (flush_does (P := fun disk => InJson runtime (["generations", stagingName draws.generation] ++
    ["manifest.json"]) _ disk ∧ Placed ["generations", stagingName draws.generation] written disk)
    fun _ _ => flushDirectory_ok).post fun _ world now => ?_
  exact ⟨written, snapshot, stored, printed, now.1, now.2⟩

end Gambit.Publication
