import Gambit.FactorStore.CollectionCrashes
import Gambit.Publication.Publish

/-!
# Pointers name complete generations

A store is sound when CURRENT and every node pointer that is there name a
generation that opening accepts.  Only three renames of a publication touch what
this depends on; everything else it does is scratch work.
-/

set_option autoImplicit false

namespace Gambit.Publication

open PathTrees MappedColumn PythonJson FactorIdentity FactorStore LoggedActions PowerLoss

variable {φ : Type} {runtime : Runtime φ} {faults : Faults Exn} {draws : Draws}

/-- A reader opens a complete generation or is told that there is none. -/
structure Sound (runtime : Runtime φ) (disk : Disk) : Prop where
  current : disk.node ["CURRENT"] ≠ none → ∃ generation opened, readCurrent disk = .ok generation ∧
    openGeneration runtime generation none false disk = .ok opened
  nodes : ∀ nodeKey, isNodeKey nodeKey = true → disk.node ["nodes", nodeKey] ≠ none →
    ∃ generation opened, readNodePointer nodeKey true disk = .ok (some generation) ∧
      openGeneration runtime generation (some nodeKey) true disk = .ok opened

/-- What soundness depends on. -/
def Protected (path : List String) : Prop :=
  path = ["CURRENT"] ∨ (∃ nodeKey, isNodeKey nodeKey = true ∧ path = ["nodes", nodeKey]) ∨
    ∃ generation, isGeneration generation = true ∧ generationPath generation <+: path

def Scratch (call : Call) : Prop := ∀ path, call.Touches path → ¬ Protected path

def Kept (base disk : Disk) : Prop := ∀ path, Protected path → disk.node path = base.node path

variable {base disk after : Disk} {call : Call} {path parent : List String} {generation nodeKey name : String}

/-! ## Reading -/

theorem readCurrent_isGeneration (read : readCurrent disk = .ok generation) : isGeneration generation = true := by
  unfold readCurrent at read
  split at read
  · split at read
    · cases read
      assumption
    · cases read
  · cases read

theorem readNodePointer_isGeneration {missingOk : Bool}
    (read : readNodePointer nodeKey missingOk disk = .ok (some generation)) : isGeneration generation = true := by
  unfold readNodePointer at read
  split at read
  · cases read
  · split at read
    · split at read
      · cases read
        assumption
      · cases read
    · split at read <;> cases read
    · cases read

/-- What opens is there. -/
theorem openGeneration_there {expected : Option String} {requireIdentity : Bool} {opened : Opened φ}
    (run : openGeneration runtime generation expected requireIdentity disk = .ok opened) :
    disk.node (generationPath generation) ≠ none := by
  intro missing
  have bare : ¬ disk.IsBranch (generationPath generation) := by
    rintro ⟨label, standing⟩
    rw [missing] at standing
    cases standing
  have below : disk.node (manifestPath generation) = none :=
    disk.node_below_none bare (List.cons_ne_nil "manifest.json" [])
  unfold openGeneration readManifest readJson readText at run
  rw [below] at run
  cases run

/-! ## Names -/

theorem dotted_not_hex {length : Nat} (start rest : String) {tail : List Char} (dotted : start.toList = '.' :: tail) :
    isHex length (start ++ rest) = false := by
  rw [Bool.eq_false_iff]
  intro hex
  have plain := isHex_undotted start hex dotted
  rw [startsWith, String.toList_append, List.isPrefixOf_iff_prefix.mpr (List.prefix_append _ _)] at plain
  cases plain

theorem stagingName_not_generation (generation : String) : isGeneration (stagingName generation) = false :=
  dotted_not_hex ".staging-" generation rfl

theorem nodeStaging_not_nodeKey (nodeKey generation : String) : isNodeKey (nodeStaging nodeKey generation) = false := by
  unfold nodeStaging
  rw [String.append_assoc, String.append_assoc]
  exact dotted_not_hex "." _ rfl

theorem pointerStaging_ne_current (generation : String) : pointerStaging generation ≠ "CURRENT" := by
  intro same
  have chars := congrArg String.toList same
  rw [pointerStaging, String.toList_append] at chars
  cases chars

/-- Outside the three places nothing is protected. -/
theorem not_protected_elsewhere {rest : List String} (noCurrent : name ≠ "CURRENT") (noNode : name ≠ "nodes")
    (noGeneration : name ≠ "generations") : ¬ Protected (name :: rest) := by
  rintro (same | ⟨nodeKey, _, same⟩ | ⟨generation, _, rest, same⟩)
  · exact noCurrent (List.cons.inj same).1
  · exact noNode (List.cons.inj same).1
  · exact noGeneration (List.cons.inj same).1.symm

theorem not_protected_generations : ¬ Protected ["generations"] := by
  rintro (same | ⟨nodeKey, _, same⟩ | ⟨generation, _, rest, same⟩)
  · exact absurd (List.cons.inj same).1 (by decide)
  · exact absurd (List.cons.inj same).1 (by decide)
  · cases same

theorem not_protected_generation {rest : List String} (noGeneration : isGeneration name = false) :
    ¬ Protected ("generations" :: name :: rest) := by
  rintro (same | ⟨nodeKey, _, same⟩ | ⟨generation, hex, rest, same⟩)
  · exact absurd (List.cons.inj same).1 (by decide)
  · exact absurd (List.cons.inj same).1 (by decide)
  · have here : generation = name := (List.cons.inj (List.cons.inj same).2).1
    rw [here, noGeneration] at hex
    cases hex

theorem not_protected_nodes : ¬ Protected ["nodes"] := by
  rintro (same | ⟨nodeKey, _, same⟩ | ⟨generation, _, rest, same⟩)
  · exact absurd (List.cons.inj same).1 (by decide)
  · cases same
  · exact absurd (List.cons.inj same).1 (by decide)

theorem not_protected_node {rest : List String} (noKey : isNodeKey name = false) :
    ¬ Protected ("nodes" :: name :: rest) := by
  rintro (same | ⟨nodeKey, hex, same⟩ | ⟨generation, _, rest, same⟩)
  · exact absurd (List.cons.inj same).1 (by decide)
  · have here : name = nodeKey := (List.cons.inj (List.cons.inj same).2).1
    rw [here, hex] at noKey
    cases noKey
  · exact absurd (List.cons.inj same).1 (by decide)

/-! ## Scratch work -/

/-- The generations that are there are as they were. -/
def SameGenerations (base disk : Disk) : Prop :=
  ∀ generation, isGeneration generation = true → base.node (generationPath generation) ≠ none →
    ∀ path, generationPath generation <+: path → disk.node path = base.node path

theorem Sound.current_same (sound : Sound runtime base) (generations : SameGenerations base disk)
    (same : disk.node ["CURRENT"] = base.node ["CURRENT"]) (present : disk.node ["CURRENT"] ≠ none) :
    ∃ generation opened, readCurrent disk = .ok generation ∧
      openGeneration runtime generation none false disk = .ok opened := by
  rw [same] at present
  obtain ⟨generation, opened, read, opens⟩ := sound.current present
  refine ⟨generation, opened, (readCurrent_congr same).trans read, ?_⟩
  rw [← opens]
  exact openGeneration_congr (generations generation (readCurrent_isGeneration read) (openGeneration_there opens))
    none false

theorem Sound.node_same (sound : Sound runtime base) (generations : SameGenerations base disk)
    (hex : isNodeKey nodeKey = true) (same : disk.node ["nodes", nodeKey] = base.node ["nodes", nodeKey])
    (present : disk.node ["nodes", nodeKey] ≠ none) :
    ∃ generation opened, readNodePointer nodeKey true disk = .ok (some generation) ∧
      openGeneration runtime generation (some nodeKey) true disk = .ok opened := by
  rw [same] at present
  obtain ⟨generation, opened, read, opens⟩ := sound.nodes nodeKey hex present
  refine ⟨generation, opened, (readNodePointer_congr same true).trans read, ?_⟩
  rw [← opens]
  exact openGeneration_congr (generations generation (readNodePointer_isGeneration read) (openGeneration_there opens))
    (some nodeKey) true

theorem Kept.generations (kept : Kept base disk) : SameGenerations base disk :=
  fun generation hex _ path under => kept path (.inr (.inr ⟨generation, hex, under⟩))

theorem Sound.kept (sound : Sound runtime base) (kept : Kept base disk) : Sound runtime disk where
  current := sound.current_same kept.generations (kept ["CURRENT"] (.inl rfl))
  nodes := fun nodeKey hex => sound.node_same kept.generations hex (kept _ (.inr (.inl ⟨nodeKey, hex, rfl⟩)))

theorem Kept.refl (disk : Disk) : Kept disk disk := fun _ _ => rfl

theorem Kept.effect (kept : Kept base disk) (scratch : Scratch call) : Kept base (call.effect disk) :=
  fun path guarded => (node_effect fun touches => scratch path touches guarded).trans (kept path guarded)

theorem Kept.torn (kept : Kept base disk) (scratch : Scratch call) (torn : Torn call disk after) : Kept base after :=
  fun path guarded => (torn.node fun touches => scratch path touches guarded).trans (kept path guarded)

/-- A property of what is protected. -/
def Guarded (J : Disk → Prop) : Prop := ∀ base disk, Kept base disk → J base → J disk

/-- Wherever the process dies, `J` holds of what it leaves. -/
abbrev SafeFrom (J : Disk → Prop) (start : Disk) (world : World Call Disk) : Prop :=
  Safe Call.effect Torn J start world

variable {α β : Type} {action : Act α} {start : Disk} {J : Disk → Prop}

theorem apply_effect (call : Call) (disk after : Disk) (run : call.apply disk = .ok after) :
    after = call.effect disk := (effect_of_apply run).symm

/-- Scratch work is safe. -/
theorem scratch_safe (guarded : Guarded J) (logs : Logs Call.effect Scratch action) :
    Does (SafeFrom J start) action (fun _ => SafeFrom J start) fun _ => SafeFrom J start := by
  intro world safe
  have later : SafeFrom J start (action world).2 :=
    logs.safe (I := Kept world.state) (fun disk kept => guarded _ _ kept safe.now)
      (fun call scratch disk kept => kept.effect scratch) (fun call scratch disk after kept => kept.torn scratch)
      safe fun path _ => rfl
  rcases run : action world with ⟨error | value, after⟩
  · rw [run] at later
    exact later
  · rw [run] at later
    exact later

/-- Scratch work keeps what is protected. -/
theorem scratch_keeps (logs : Logs Call.effect Scratch action) :
    Does (fun world => Kept base world.state) action (fun _ world => Kept base world.state)
      fun _ world => Kept base world.state :=
  logs.keeps fun _ scratch _ kept => kept.effect scratch

theorem call_logs {kind : Call → Prop} (allowed : kind call) : Logs Call.effect kind (Publication.call faults call) :=
  Logs.perform (apply_effect call) allowed

/-! ## What is scratch work -/

/-- Nothing from here on is protected. -/
def Clear (path : List String) : Prop := ∀ below, ¬ Protected (path ++ below)

theorem scratch_of_exact (clear : Clear path) (only : ∀ other, call.Touches other → other = path) : Scratch call := by
  intro other touches
  rw [only other touches]
  have here := clear []
  rwa [List.append_nil] at here

theorem scratch_of_under (clear : Clear path) (only : ∀ other, call.Touches other → path <+: other) : Scratch call := by
  intro other touches
  obtain ⟨below, rfl⟩ := only other touches
  exact clear below

theorem scratch_create (clear : Clear (parent ++ [name])) : Scratch (.create parent name) :=
  scratch_of_exact clear fun _ same => same

theorem scratch_write {content : File} (clear : Clear (parent ++ [name])) : Scratch (.write parent name content) :=
  scratch_of_exact clear fun _ same => same

theorem scratch_unlink (clear : Clear (parent ++ [name])) : Scratch (.unlink parent name) :=
  scratch_of_under clear fun _ under => under

theorem scratch_removeTree (clear : Clear (parent ++ [name])) : Scratch (.removeTree parent name) :=
  scratch_of_under clear fun _ under => under

theorem scratch_rename {source target : String} (clearSource : Clear (parent ++ [source]))
    (clearTarget : Clear (parent ++ [target])) : Scratch (.rename parent source target) := by
  rintro path (⟨below, rfl⟩ | ⟨below, rfl⟩)
  · exact clearSource below
  · exact clearTarget below

theorem scratch_flushFile : Scratch (.flushFile parent name) := fun _ none => none.elim

theorem scratch_flushDirectory : Scratch (.flushDirectory path) := fun _ none => none.elim

theorem clear_elsewhere {rest : List String} (noCurrent : name ≠ "CURRENT") (noNode : name ≠ "nodes")
    (noGeneration : name ≠ "generations") : Clear (name :: rest) := fun _ =>
  not_protected_elsewhere noCurrent noNode noGeneration

theorem clear_staging {rest : List String} (generation : String) :
    Clear ("generations" :: stagingName generation :: rest) := fun _ =>
  not_protected_generation (stagingName_not_generation generation)

theorem clear_nodeStaging (nodeKey generation : String) : Clear ["nodes", nodeStaging nodeKey generation] := fun _ =>
  not_protected_node (nodeStaging_not_nodeKey nodeKey generation)

theorem clear_pointerStaging (generation : String) : Clear [pointerStaging generation] := by
  refine clear_elsewhere (pointerStaging_ne_current generation) ?_ ?_ <;>
  · intro same
    have chars := congrArg String.toList same
    rw [pointerStaging, String.toList_append] at chars
    cases chars

theorem clear_access {rest : List String} : Clear ("access" :: rest) :=
  clear_elsewhere (by decide) (by decide) (by decide)

theorem clear_leases {rest : List String} : Clear ("leases" :: rest) :=
  clear_elsewhere (by decide) (by decide) (by decide)

/-- The calls on one file are of a kind. -/
structure OnFile (kind : Call → Prop) (parent : List String) (name : String) : Prop where
  create : kind (.create parent name)
  write : ∀ content, kind (.write parent name content)
  flushFile : kind (.flushFile parent name)
  unlink : kind (.unlink parent name)

theorem onFile_scratch (clear : Clear (parent ++ [name])) : OnFile Scratch parent name :=
  ⟨scratch_create clear, fun _ => scratch_write clear, scratch_flushFile, scratch_unlink clear⟩

theorem writeFile_logs {kind : Call → Prop} {content : List Char} (onFile : OnFile kind parent name) :
    Logs Call.effect kind (writeFile faults parent name content) :=
  (call_logs onFile.create).bind fun _ => (call_logs (onFile.write _)).bind fun _ => call_logs onFile.flushFile

theorem flushDirectory_scratch (path : List String) :
    Logs Call.effect Scratch (Publication.call faults (.flushDirectory path)) := call_logs scratch_flushDirectory

theorem alreadyThere_scratch (error : Exn) : Logs Call.effect Scratch (alreadyThere faults parent name error) := by
  unfold alreadyThere
  refine Logs.ite ((Logs.observe _).bind fun there => ?_) (Logs.of _)
  exact Logs.ite (Logs.pure _) (Logs.of _)

theorem ensureDirectory_scratch (clear : ¬ Protected (parent ++ [name])) :
    Logs Call.effect Scratch (ensureDirectory faults parent name) := by
  refine (call_logs ?_).rescue fun error => alreadyThere_scratch error
  rintro path rfl
  exact clear

theorem ensureBelow_scratch {place : String} (clear : Clear [place]) :
    Logs Call.effect Scratch (ensureBelow faults place name) := by
  have above : ¬ Protected ([] ++ [place]) := by
    have here := clear []
    rwa [List.append_nil] at here
  refine (call_logs ?_).rescue fun error => Logs.ite ?_ (alreadyThere_scratch error)
  · rintro path rfl
    exact clear [name]
  · exact (ensureDirectory_scratch above).bind fun _ => ensureDirectory_scratch (clear [name])

theorem unlinkIfThere_scratch (clear : Clear (parent ++ [name])) :
    Logs Call.effect Scratch (unlinkIfThere faults parent name) := by
  exact (call_logs (scratch_unlink clear)).rescue fun error => Logs.ite (Logs.pure _) (Logs.of _)

theorem removeTreeIfThere_scratch (clear : Clear (parent ++ [name])) :
    Logs Call.effect Scratch (removeTreeIfThere faults parent name) := by
  exact (call_logs (scratch_removeTree clear)).rescue fun error => Logs.ite (Logs.pure _) (Logs.of _)

theorem takeLock_logs {kind : Call → Prop} (create : kind (.create [] name)) :
    Logs Call.effect kind (takeLock faults name) := by
  refine (Logs.observe _).bind fun node => ?_
  cases node with
  | none => exact call_logs create
  | some node =>
      cases node with
      | leaf content => exact Logs.pure _
      | branch label => exact Logs.of _

theorem storeLock_scratch : Logs Call.effect Scratch (takeLock faults ".lock") :=
  takeLock_logs (scratch_create (clear_elsewhere (by decide) (by decide) (by decide)))

theorem writeJson_logs {kind : Call → Prop} {value : PyValue φ} (onFile : OnFile kind parent name) :
    Logs Call.effect kind (writeJson faults runtime parent name value) := by
  unfold writeJson
  split
  · exact writeFile_logs onFile
  · exact Logs.of _

theorem recordNodeAccess_scratch (intervalNs : ℚ) :
    Logs Call.effect Scratch (recordNodeAccess runtime faults draws nodeKey generation intervalNs) := by
  refine Logs.rescue ?_ fun error => Logs.ite (Logs.pure _) (Logs.of _)
  have place : ¬ Protected ["access"] := not_protected_elsewhere (by decide) (by decide) (by decide)
  refine (ensureDirectory_scratch place).bind fun _ => (Logs.observe _).bind fun previous => ?_
  refine Logs.ite (Logs.pure _) (Logs.bind ?_ fun _ => unlinkIfThere_scratch clear_access)
  refine Logs.rescue ?_ fun error => (unlinkIfThere_scratch clear_access).bind fun _ => Logs.of _
  exact (writeJson_logs (onFile_scratch clear_access)).bind fun _ =>
    (call_logs (scratch_rename clear_access clear_access)).bind fun _ => flushDirectory_scratch _

theorem openAndLease_scratch {expected : Option String} {requireIdentity : Bool} :
    Logs Call.effect Scratch (openAndLease runtime faults draws generation expected requireIdentity) := by
  refine (Logs.observe _).bind fun opened => (ensureBelow_scratch clear_leases).bind fun _ => ?_
  refine (writeJson_logs (onFile_scratch clear_leases)).bind fun _ => (flushDirectory_scratch _).bind fun _ => Logs.pure _

theorem close_scratch (lease : Lease φ) : Logs Call.effect Scratch (lease.close faults) :=
  unlinkIfThere_scratch clear_leases

theorem reuse_scratch : Logs Call.effect Scratch (reuse runtime faults draws nodeKey generation) := by
  refine storeLock_scratch.bind fun _ => openAndLease_scratch.bind fun lease => ?_
  exact (recordNodeAccess_scratch _).bind fun _ => (close_scratch lease).bind fun _ => Logs.pure _

theorem openCurrentGeneration_scratch : Logs Call.effect Scratch (openCurrentGeneration runtime faults draws) :=
  storeLock_scratch.bind fun _ => (Logs.observe _).bind fun _ => openAndLease_scratch

theorem openGenerationByNodeKey_scratch (intervalNs : Option ℚ) :
    Logs Call.effect Scratch (openGenerationByNodeKey runtime faults draws nodeKey intervalNs) := by
  cases intervalNs with
  | none => exact Logs.of _
  | some intervalNs =>
      refine Logs.ite (Logs.of _) (storeLock_scratch.bind fun _ => (Logs.observe _).bind fun _ => ?_)
      exact openAndLease_scratch.bind fun _ => (recordNodeAccess_scratch _).bind fun _ => Logs.pure _

theorem createColumn_logs {kind : Call → Prop} {values : List UInt64} (onFile : OnFile kind parent name) :
    Logs Call.effect kind (createColumn runtime faults parent name values) := by
  unfold createColumn
  split
  · exact Logs.of _
  · split
    · refine Logs.bind ?_ fun _ => Logs.bind ?_ fun _ => Logs.pure _
      · exact (call_logs onFile.create).rescue fun _ => Logs.of _
      · refine Logs.rescue ?_ fun error => Logs.bind ?_ fun _ => Logs.of _
        · exact (call_logs (onFile.write _)).bind fun _ => call_logs onFile.flushFile
        · exact (call_logs onFile.unlink).rescue fun _ => Logs.pure _
    · exact Logs.of _

theorem verifyIf_logs {kind : Call → Prop} {verifyWritten : Bool} {values : List UInt64} :
    Logs Call.effect kind (verifyIf runtime faults verifyWritten path values) :=
  Logs.ite (Logs.observe _) (Logs.pure _)

theorem publishColumns_logs {kind : Call → Prop} {staging : List String} {verifyWritten : Bool}
    (columns : List (String × FloatArray)) (onFiles : ∀ column ∈ columns, OnFile kind staging (columnFile column.1)) :
    ∀ expectedRows,
      Logs Call.effect kind (publishColumns runtime faults staging verifyWritten expectedRows columns) := by
  induction columns with
  | nil => exact fun _ => Logs.pure _
  | cons column columns ih =>
      intro expectedRows
      have here := onFiles column List.mem_cons_self
      have rest := ih fun column member => onFiles column (List.mem_cons_of_mem _ member)
      obtain ⟨name, values⟩ := column
      cases values with
      | other => exact Logs.of _
      | vector values =>
          rw [publishColumns]
          refine Logs.ite (Logs.of _) ((createColumn_logs here).bind fun column => ?_)
          exact verifyIf_logs.bind fun _ => (rest _).bind fun columns => Logs.pure _

theorem stage_scratch {request : Request runtime} : Logs Call.effect Scratch (stage runtime faults draws request) := by
  refine (publishColumns_logs _ ?_ _).bind fun columns => (Logs.of _).bind fun snapshot => ?_
  · exact fun column _ => onFile_scratch (clear_staging _)
  · exact (writeJson_logs (onFile_scratch (clear_staging _))).bind fun _ => flushDirectory_scratch _

theorem checkReplacement_scratch {request : Request runtime} :
    Logs Call.effect Scratch (checkReplacement runtime faults request) := by
  unfold checkReplacement
  split
  · exact Logs.pure _
  · exact Logs.ite (Logs.of _) ((Logs.observe _).bind fun indexed => Logs.ite (Logs.of _) (Logs.pure _))

end Gambit.Publication
