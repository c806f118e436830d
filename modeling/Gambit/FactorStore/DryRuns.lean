import Gambit.FactorStore.Collection
import Gambit.FactorStore.Frames
import Gambit.Lib.SideBySide

/-!
# A dry collection and the collection it stands for

The two are run side by side.  The real one has removed things, but none that is
looked at later, so both decide alike; where leases are links this can fail.
-/

set_option autoImplicit false

namespace Gambit.FactorStore

open Raising SideBySide

/-- The dry run left the world as it was when the runs stopped. -/
abbrev DryWorld (start : World) : World → World → Prop := fun world _ => world = start

/-- A dry run from `start`, and a real one that has found the same. -/
inductive Alongside (start : World) : Collecting → Collecting → Prop where
  | intro (world : World) (report : CollectReport) (generations keys : List String) :
      Alongside start ⟨start, report, generations, keys⟩
        ⟨world, { report with dryRun := false }, generations, keys⟩

variable {start : World} {dry real : Collecting} {remaining rest : List String} {name : String}
  {environment : Environment}

/-! ## Node pointers -/

/-- Only staged pointers that have been passed are gone. -/
structure NodesAhead (start : World) (remaining : List String) (dry real : Collecting) : Prop where
  alongside : Alongside start dry real
  distinct : remaining.Nodup
  others : real.world.store = { start.store with nodes := real.world.store.nodes }
  pointers : ∀ name, name ∈ remaining ∨ startsWith "." name = false →
    real.world.store.pointer name = start.store.pointer name

theorem NodesAhead.generation (ahead : NodesAhead start remaining dry real) (name : String) :
    real.world.store.generation name = start.store.generation name := by
  rw [ahead.others]
  rfl

theorem collectNode_agree (ahead : NodesAhead start (name :: rest) dry real) :
    Agree (NodesAhead start rest) (DryWorld start) (collectNode true dry name)
      (collectNode false real name) := by
  have here := ahead.pointers name (.inl List.mem_cons_self)
  have generations := ahead.generation
  obtain ⟨⟨world, report, indexed, keys⟩, distinct, others, pointers⟩ := ahead
  obtain ⟨fresh, distinct⟩ := List.nodup_cons.mp distinct
  have later : ∀ name, name ∈ rest ∨ startsWith "." name = false →
      world.store.pointer name = start.store.pointer name := fun name which =>
    pointers name (which.imp_left (List.mem_cons_of_mem _))
  unfold collectNode
  simp only at here generations ⊢
  by_cases hidden : startsWith "." name = true
  · rw [if_pos hidden, if_pos hidden, here]
    cases entry : start.store.pointer name with
    | none => exact ⟨⟨_, _, _, _⟩, distinct, others, later⟩
    | some found =>
        cases found with
        | link | other => exact ⟨⟨_, _, _, _⟩, distinct, others, later⟩
        | file stat text =>
            rw [entry] at here
            have unlinked : (Operation.unlinkNode name).apply world.store = _ := unlinkNode_ok here
            simp only [unlessDry, perform_ok unlinked, if_true, Bool.false_eq_true, if_false]
            refine ⟨⟨_, _, _, _⟩, distinct, ?_, fun other which => ?_⟩
            · change ({ world.store with nodes := world.store.nodes.erase name } : Store) = _
              rw [others]
            · change ({ world.store with nodes := world.store.nodes.erase name } : Store).pointer
                other = _
              rw [pointer_erase, if_neg, later other which]
              rintro rfl
              rcases which with inside | visible
              · exact fresh inside
              · rw [hidden] at visible
                cases visible
  · rw [if_neg hidden, if_neg hidden]
    by_cases valid : isNodeKey name = true
    · rw [if_neg (not_not.mpr valid), if_neg (not_not.mpr valid), requireNodePointer_congr here]
      refine (Agree.raiseIn (E := DryWorld start) _ rfl).bind ?_
      rintro generation _ ⟨rfl, _⟩
      rw [generations]
      split
      · exact ⟨⟨_, _, _, _⟩, distinct, others, later⟩
      · exact ⟨rfl, rfl⟩
    · rw [if_pos valid, if_pos valid]
      exact ⟨rfl, rfl⟩

/-! ## Leases -/

/-- No lease is a link to another. -/
def Store.LeasesAreFiles (store : Store) : Prop :=
  ∀ generation blocks files, store.leases.get? generation = some (.directory blocks files) →
    ∀ name generation' name', files.get? name ≠ some (.link generation' name')

/-- What the collection of one generation leaves for those to come. -/
structure Undisturbed (start : Store) (generations leases : List String) (store : Store) : Prop where
  pointerStaging : store.pointerStaging = start.pointerStaging
  metadata : ∀ kind, store.metadata kind = start.metadata kind
  generations : ∀ name ∈ generations, store.generation name = start.generation name
  leases : ∀ name ∈ leases, store.leases.get? name = start.leases.get? name

/-- The surviving leases are the ones counted and those to come. -/
structure LeasesAhead (start : World) (generation : String) (later : List String) (blocks : Nat)
    (files : OrderedDict String LeaseFile) (remaining : List String)
    (dry real : Collecting × Nat) : Prop where
  alongside : Alongside start dry.1 real.1
  count : real.2 = dry.2
  distinct : remaining.Nodup
  undisturbed : Undisturbed start.store (generation :: later) later real.1.world.store
  standing : ∃ standing, real.1.world.store.leases.get? generation = some (.directory blocks standing) ∧
    (∀ name ∈ remaining, standing.get? name = files.get? name) ∧
    ∀ name ∈ standing.keys, name ∈ remaining ∨ 0 < real.2

variable {generation : String} {later : List String} {blocks : Nat}
  {files standing : OrderedDict String LeaseFile} {staleLeaseSeconds : ℚ}

theorem readLease_congr {store store' : Store} (depth : Nat)
    (here : store.leases.get? generation = some (.directory blocks files))
    (there : store'.leases.get? generation = some (.directory blocks standing))
    (same : standing.get? name = files.get? name)
    (regular : ∀ generation' name', files.get? name ≠ some (.link generation' name')) :
    store'.readLease generation name depth = store.readLease generation name depth := by
  cases depth with
  | zero => rfl
  | succ depth =>
      unfold Store.readLease
      rw [here, there]
      simp only [same]
      cases found : files.get? name with
      | none => rfl
      | some file =>
          cases file with
          | file => rfl
          | link generation' name' => exact absurd found (regular generation' name')

theorem collectLease_agree {dry real : Collecting × Nat} (fresh : generation ∉ later)
    (here : start.store.leases.get? generation = some (.directory blocks files))
    (regular : ∀ name generation' name', files.get? name ≠ some (.link generation' name'))
    (ahead : LeasesAhead start generation later blocks files (name :: rest) dry real) :
    Agree (LeasesAhead start generation later blocks files rest) (DryWorld start)
      (collectLease environment true staleLeaseSeconds generation dry name)
      (collectLease environment false staleLeaseSeconds generation real name) := by
  obtain ⟨dry, counted⟩ := dry
  obtain ⟨real, counted'⟩ := real
  obtain ⟨⟨world, report, indexed, keys⟩, count, distinct, undisturbed, standing, there, same,
    covered⟩ := ahead
  simp only at count undisturbed there covered
  subst count
  obtain ⟨gone, distinct⟩ := List.nodup_cons.mp distinct
  have document := readLease_congr maximumLinks here there (same name List.mem_cons_self)
    (regular name)
  unfold collectLease
  simp only [document]
  refine (Agree.raiseIn (E := DryWorld start) _ rfl).bind ?_
  rintro removable _ ⟨rfl, _⟩
  cases removable with
  | true =>
      have unlinked : (Operation.unlinkLease generation name).apply world.store = _ :=
        unlinkLease_ok there
      simp only [unlessDry, perform_ok unlinked, if_true, Bool.false_eq_true, if_false]
      refine ⟨⟨_, _, _, _⟩, rfl, distinct, ?_, standing.erase name, OrderedDict.get?_set_self ..,
        fun other member => ?_, fun other member => ?_⟩
      · refine ⟨undisturbed.pointerStaging, undisturbed.metadata, undisturbed.generations, ?_⟩
        intro other member
        refine (OrderedDict.get?_set ..).trans ?_
        have apart : other ≠ generation := by
          rintro rfl
          exact fresh member
        rw [if_neg apart]
        exact undisturbed.leases other member
      · have apart : other ≠ name := by
          rintro rfl
          exact gone member
        rw [OrderedDict.get?_erase_of_ne _ apart]
        exact same other (List.mem_cons_of_mem _ member)
      · rw [OrderedDict.keys_erase, List.mem_filter, decide_eq_true_eq] at member
        exact (covered other member.1).imp_left fun inside =>
          (List.mem_cons.mp inside).resolve_left member.2
  | false =>
      simp only [Bool.false_eq_true, if_false]
      refine ⟨⟨_, _, _, _⟩, rfl, distinct, undisturbed, standing, there, ?_, ?_⟩
      · exact fun other member => same other (List.mem_cons_of_mem _ member)
      · exact fun other _ => .inr (Nat.succ_pos _)

/-- After the leases of a generation; with none left its lease directory is empty. -/
structure LeasesDone (start : World) (generation : String) (later : List String)
    (dry real : Collecting × Bool) : Prop where
  alongside : Alongside start dry.1 real.1
  hasLeases : real.2 = dry.2
  undisturbed : Undisturbed start.store (generation :: later) later real.1.world.store
  empty : real.2 = false → ∀ blocks files,
    real.1.world.store.leases.get? generation = some (.directory blocks files) → files.keys = []

theorem collectLeases_agree (fresh : generation ∉ later) (regular : start.store.LeasesAreFiles)
    (alongside : Alongside start dry real)
    (undisturbed : Undisturbed start.store (generation :: later) (generation :: later) real.world.store) :
    Agree (LeasesDone start generation later) (DryWorld start)
      (collectLeases environment true staleLeaseSeconds generation dry)
      (collectLeases environment false staleLeaseSeconds generation real) := by
  have leases := undisturbed.leases generation List.mem_cons_self
  have frame : Undisturbed start.store (generation :: later) later real.world.store :=
    ⟨undisturbed.pointerStaging, undisturbed.metadata, undisturbed.generations,
      fun name member => undisturbed.leases name (List.mem_cons_of_mem _ member)⟩
  have unchanged : dry.world = start := by
    cases alongside
    rfl
  unfold collectLeases
  rw [unchanged, leases]
  cases found : start.store.leases.get? generation with
  | none =>
      refine ⟨alongside, rfl, frame, fun _ blocks files there => ?_⟩
      rw [leases, found] at there
      cases there
  | some directory =>
      cases directory with
      | link => exact ⟨alongside, rfl, frame, nofun⟩
      | directory blocks files =>
          have ahead : LeasesAhead start generation later blocks files files.keys (dry, 0) (real, 0) :=
            ⟨alongside, rfl, files.distinct, frame, files, leases.trans found, fun _ _ => rfl,
              fun _ member => .inl member⟩
          have loop := Agree.foldlM (P := LeasesAhead start generation later blocks files)
            (E := DryWorld start) (f := collectLease environment true staleLeaseSeconds generation)
            (g := collectLease environment false staleLeaseSeconds generation)
            (fun name rest dry real ahead => collectLease_agree fresh found
              (regular generation blocks files found) ahead) ahead
          refine loop.bind ?_
          rintro ⟨dry, counted⟩ ⟨real, counted'⟩ ⟨alongside, count, _, undisturbed, standing, there, _,
            covered⟩
          simp only at alongside count undisturbed there covered
          subst count
          refine ⟨alongside, rfl, undisturbed, fun none blocks' files' there' => ?_⟩
          rw [there] at there'
          cases there'
          refine List.eq_nil_iff_forall_not_mem.mpr fun name member => ?_
          rcases covered name member with inside | counted
          · exact List.not_mem_nil inside
          · simp [counted] at none

/-! ## Generations -/

structure GenerationsAhead (start : World) (remaining : List String) (dry real : Collecting) :
    Prop where
  alongside : Alongside start dry real
  distinct : remaining.Nodup
  undisturbed : Undisturbed start.store remaining remaining real.world.store

theorem removeGenerationAndLeases_ok {contents : GenerationDirectory} {world : World}
    (present : world.store.generation generation = some (.directory contents))
    (empty : ∀ blocks files, world.store.leases.get? generation = some (.directory blocks files) →
      files.keys = []) :
    ∃ world', removeGenerationAndLeases generation world = .ok world' ∧
      world'.store.pointerStaging = world.store.pointerStaging ∧
      (∀ kind, world'.store.metadata kind = world.store.metadata kind) ∧
      (∀ other, other ≠ generation → world'.store.generation other = world.store.generation other) ∧
      ∀ other, other ≠ generation → world'.store.leases.get? other = world.store.leases.get? other := by
  have removed : (Operation.removeGeneration generation).apply world.store = _ :=
    removeGeneration_ok present
  have elsewhere : ∀ other, other ≠ generation →
      (world.store.eraseGeneration generation).generation other = world.store.generation other := by
    intro other apart
    rw [generation_erase, if_neg apart]
  unfold removeGenerationAndLeases
  rw [perform_ok removed]
  simp only [bind, Except.bind]
  cases found : world.store.leases.get? generation with
  | none =>
      rw [show (world.store.eraseGeneration generation).leases.get? generation = none from found]
      exact ⟨_, rfl, rfl, metadata_eraseGeneration, elsewhere, fun _ _ => rfl⟩
  | some directory =>
      cases directory with
      | link =>
          rw [show (world.store.eraseGeneration generation).leases.get? generation = some .link from
            found]
          exact ⟨_, rfl, rfl, metadata_eraseGeneration, elsewhere, fun _ _ => rfl⟩
      | directory blocks files =>
          rw [show (world.store.eraseGeneration generation).leases.get? generation =
            some (.directory blocks files) from found]
          have gone : (Operation.removeLeaseDirectory generation).apply
              (world.store.eraseGeneration generation) = _ :=
            removeLeaseDirectory_ok found (empty blocks files found)
          refine ⟨_, perform_ok gone, rfl, fun kind => by cases kind <;> rfl, elsewhere, ?_⟩
          exact fun other apart => OrderedDict.get?_erase_of_ne _ apart

theorem Undisturbed.removed {store : Store} {generations leases : List String}
    (undisturbed : Undisturbed start.store generations leases store) (after : Store)
    (pointerStaging : after.pointerStaging = store.pointerStaging)
    (metadata : ∀ kind, after.metadata kind = store.metadata kind)
    (elsewhere : ∀ other, other ≠ generation → after.generation other = store.generation other)
    (leasesElsewhere : ∀ other, other ≠ generation →
      after.leases.get? other = store.leases.get? other)
    {later : List String} (fresh : generation ∉ later) (inGenerations : later ⊆ generations)
    (inLeases : later ⊆ leases) : Undisturbed start.store later later after where
  pointerStaging := pointerStaging.trans undisturbed.pointerStaging
  metadata kind := (metadata kind).trans (undisturbed.metadata kind)
  generations name member :=
    (elsewhere name fun same => fresh (same ▸ member)).trans
      (undisturbed.generations name (inGenerations member))
  leases name member :=
    (leasesElsewhere name fun same => fresh (same ▸ member)).trans
      (undisturbed.leases name (inLeases member))

theorem Undisturbed.passed {store : Store} {generations leases : List String}
    (undisturbed : Undisturbed start.store generations leases store)
    (inGenerations : later ⊆ generations) (inLeases : later ⊆ leases) :
    Undisturbed start.store later later store where
  pointerStaging := undisturbed.pointerStaging
  metadata := undisturbed.metadata
  generations name member := undisturbed.generations name (inGenerations member)
  leases name member := undisturbed.leases name (inLeases member)

theorem collectGeneration_agree {current : String} (regular : start.store.LeasesAreFiles)
    (ahead : GenerationsAhead start (generation :: rest) dry real) :
    Agree (GenerationsAhead start rest) (DryWorld start)
      (collectGeneration environment true staleLeaseSeconds current dry generation)
      (collectGeneration environment false staleLeaseSeconds current real generation) := by
  obtain ⟨alongside, distinct, undisturbed⟩ := ahead
  obtain ⟨fresh, distinct⟩ := List.nodup_cons.mp distinct
  have here := undisturbed.generations generation List.mem_cons_self
  have passed : Undisturbed start.store rest rest real.world.store :=
    undisturbed.passed (List.subset_cons_self ..) (List.subset_cons_self ..)
  have leases : Agree (LeasesDone start generation rest) (DryWorld start)
      (collectLeases environment true staleLeaseSeconds generation dry)
      (collectLeases environment false staleLeaseSeconds generation real) :=
    collectLeases_agree fresh regular alongside undisturbed
  obtain ⟨world, report, indexed, keys⟩ := alongside
  unfold collectGeneration
  simp only at here passed ⊢
  by_cases staging : startsWith ".staging-" generation = true
  · rw [if_pos staging, if_pos staging, here]
    cases found : start.store.generation generation with
    | none => exact ⟨⟨_, _, _, _⟩, distinct, passed⟩
    | some entry =>
        cases entry with
        | link | file => exact ⟨⟨_, _, _, _⟩, distinct, passed⟩
        | directory contents =>
            have removed : (Operation.removeGeneration generation).apply world.store = _ :=
              removeGeneration_ok (here.trans found)
            simp only [unlessDry, perform_ok removed, if_true, Bool.false_eq_true, if_false]
            have gone : Undisturbed start.store rest rest (world.store.eraseGeneration generation) :=
              undisturbed.removed (world.store.eraseGeneration generation) rfl
                metadata_eraseGeneration (fun other apart => by rw [generation_erase, if_neg apart])
                (fun _ _ => rfl) fresh (List.subset_cons_self ..) (List.subset_cons_self ..)
            exact ⟨⟨_, _, _, _⟩, distinct, gone⟩
  · rw [if_neg staging, if_neg staging]
    by_cases kept : generation = current ∨ generation ∈ indexed ∨ ¬ isGeneration generation
    · rw [if_pos kept, if_pos kept]
      exact ⟨⟨_, _, _, _⟩, distinct, passed⟩
    · rw [if_neg kept, if_neg kept]
      refine leases.bind ?_
      rintro ⟨dry, hasLeases⟩ ⟨real, hasLeases'⟩ ⟨alongside, same, undisturbed, empty⟩
      obtain ⟨world, report, indexed, keys⟩ := alongside
      simp only at same undisturbed empty
      subst same
      have here := undisturbed.generations generation List.mem_cons_self
      have passed : Undisturbed start.store rest rest world.store :=
        undisturbed.passed (List.subset_cons_self ..) (List.Subset.refl _)
      simp only [here]
      cases hasLeases' with
      | true => exact ⟨⟨_, _, _, _⟩, distinct, passed⟩
      | false =>
          cases found : start.store.generation generation with
          | none => exact ⟨⟨_, _, _, _⟩, distinct, passed⟩
          | some entry =>
              cases entry with
              | link | file => exact ⟨⟨_, _, _, _⟩, distinct, passed⟩
              | directory contents =>
                  obtain ⟨world', removed, pointerStaging, metadata, elsewhere, leasesElsewhere⟩ :=
                    removeGenerationAndLeases_ok (here.trans found) (empty rfl)
                  simp only [unlessDry, removed, if_true, Bool.false_eq_true, if_false]
                  exact ⟨⟨_, _, _, _⟩, distinct, undisturbed.removed _ pointerStaging metadata
                    elsewhere leasesElsewhere fresh (List.subset_cons_self ..) (List.Subset.refl _)⟩

/-! ## Staged pointers and metadata -/

structure PointersAhead (start : World) (remaining : List String) (dry real : Collecting) : Prop where
  alongside : Alongside start dry real
  distinct : remaining.Nodup
  pointerStaging : ∀ name ∈ remaining,
    real.world.store.pointerStaging.get? name = start.store.pointerStaging.get? name
  metadata : ∀ kind, real.world.store.metadata kind = start.store.metadata kind

theorem collectPointer_agree (ahead : PointersAhead start (name :: rest) dry real) :
    Agree (PointersAhead start rest) (DryWorld start) (collectPointer true dry name)
      (collectPointer false real name) := by
  obtain ⟨⟨world, report, indexed, keys⟩, distinct, pointerStaging, metadata⟩ := ahead
  obtain ⟨fresh, distinct⟩ := List.nodup_cons.mp distinct
  have here := pointerStaging name List.mem_cons_self
  have later : ∀ name ∈ rest, world.store.pointerStaging.get? name =
      start.store.pointerStaging.get? name := fun name member =>
    pointerStaging name (List.mem_cons_of_mem _ member)
  unfold collectPointer
  simp only at here ⊢
  rw [here]
  cases found : start.store.pointerStaging.get? name with
  | none => exact ⟨⟨_, _, _, _⟩, distinct, later, metadata⟩
  | some entry =>
      cases entry with
      | link | other => exact ⟨⟨_, _, _, _⟩, distinct, later, metadata⟩
      | file stat content =>
          have unlinked : (Operation.unlinkPointer name).apply world.store = _ :=
            unlinkPointer_ok (here.trans found)
          simp only [unlessDry, perform_ok unlinked, if_true, Bool.false_eq_true, if_false]
          refine ⟨⟨_, _, _, _⟩, distinct, fun other member => ?_, fun kind => ?_⟩
          · refine (OrderedDict.get?_erase_of_ne _ ?_).trans (later other member)
            rintro rfl
            exact fresh member
          · rw [← metadata kind]
            cases kind <;> rfl

variable {cutoffNs : Int} {kind : MetadataKind} {kinds : List MetadataKind} {place : MetadataDirectory}

structure KindsAhead (start : World) (kinds : List MetadataKind) (dry real : Collecting) : Prop where
  alongside : Alongside start dry real
  distinct : kinds.Nodup
  metadata : ∀ kind ∈ kinds, real.world.store.metadata kind = start.store.metadata kind

structure FilesAhead (start : World) (kinds : List MetadataKind) (kind : MetadataKind)
    (place : MetadataDirectory) (remaining : List String) (dry real : Collecting) : Prop where
  ahead : KindsAhead start kinds dry real
  distinct : remaining.Nodup
  files : ∃ now, real.world.store.metadata kind = some now ∧
    ∀ name ∈ remaining, now.files.get? name = place.files.get? name

theorem collectMetadataFile_agree (fresh : kind ∉ kinds) (there : start.store.metadata kind = some place)
    (ahead : FilesAhead start kinds kind place (name :: rest) dry real) :
    Agree (FilesAhead start kinds kind place rest) (DryWorld start)
      (collectMetadataFile true cutoffNs kind dry name)
      (collectMetadataFile false cutoffNs kind real name) := by
  obtain ⟨⟨⟨world, report, indexed, keys⟩, distinctKinds, metadata⟩, distinct, now, found, files⟩ := ahead
  obtain ⟨passed, distinct⟩ := List.nodup_cons.mp distinct
  simp only at metadata found
  have later : ∀ name ∈ rest, now.files.get? name = place.files.get? name := fun name member =>
    files name (List.mem_cons_of_mem _ member)
  unfold collectMetadataFile
  simp only [there, found, Option.bind_some, files name List.mem_cons_self]
  cases metadataKey name with
  | none => exact ⟨⟨⟨_, _, _, _⟩, distinctKinds, metadata⟩, distinct, now, found, later⟩
  | some key =>
      simp only
      by_cases indexedKey : key ∈ keys
      · rw [if_pos indexedKey, if_pos indexedKey]
        exact ⟨⟨⟨_, _, _, _⟩, distinctKinds, metadata⟩, distinct, now, found, later⟩
      · rw [if_neg indexedKey, if_neg indexedKey]
        cases place.files.get? name with
        | none => exact ⟨⟨⟨_, _, _, _⟩, distinctKinds, metadata⟩, distinct, now, found, later⟩
        | some entry =>
            cases entry with
            | link | other =>
                exact ⟨⟨⟨_, _, _, _⟩, distinctKinds, metadata⟩, distinct, now, found, later⟩
            | file stat content =>
                simp only
                by_cases old : stat.mtimeNs ≤ cutoffNs
                · rw [if_pos old, if_pos old]
                  have unlinked : (Operation.unlinkMetadata kind name).apply world.store =
                    .ok (world.store.unlinkMetadata kind name) := rfl
                  simp only [unlessDry, perform_ok unlinked, if_true, Bool.false_eq_true, if_false]
                  refine ⟨⟨⟨_, _, _, _⟩, distinctKinds, fun other member => ?_⟩, distinct,
                    now.erase name, ?_, fun other member => ?_⟩
                  · refine (metadata_unlink_of_ne ?_).trans (metadata other member)
                    rintro rfl
                    exact fresh member
                  · refine (metadata_unlink kind name).trans ?_
                    rw [found]
                    rfl
                  · refine (OrderedDict.get?_erase_of_ne _ ?_).trans (later other member)
                    rintro rfl
                    exact passed member
                · rw [if_neg old, if_neg old]
                  exact ⟨⟨⟨_, _, _, _⟩, distinctKinds, metadata⟩, distinct, now, found, later⟩

theorem collectMetadata_agree (ahead : KindsAhead start (kind :: kinds) dry real) :
    Agree (KindsAhead start kinds) (DryWorld start) (collectMetadata true cutoffNs dry kind)
      (collectMetadata false cutoffNs real kind) := by
  obtain ⟨alongside, distinct, metadata⟩ := ahead
  obtain ⟨fresh, distinct⟩ := List.nodup_cons.mp distinct
  have here := metadata kind List.mem_cons_self
  have later : KindsAhead start kinds dry real := ⟨alongside, distinct, fun kind member =>
    metadata kind (List.mem_cons_of_mem _ member)⟩
  have unchanged : dry.world = start := by
    cases alongside
    rfl
  unfold collectMetadata
  rw [unchanged, here]
  cases found : start.store.metadata kind with
  | none => exact later
  | some place =>
      simp only
      by_cases linked : place.isLink = true
      · rw [if_pos linked, if_pos linked]
        exact ⟨rfl, rfl⟩
      · rw [if_neg linked, if_neg linked]
        have files : FilesAhead start kinds kind place place.files.keys dry real :=
          ⟨later, place.files.distinct, place, here.trans found, fun _ _ => rfl⟩
        have loop := Agree.foldlM (P := FilesAhead start kinds kind place) (E := DryWorld start)
          (f := collectMetadataFile true cutoffNs kind) (g := collectMetadataFile false cutoffNs kind)
          (fun name rest dry real ahead => collectMetadataFile_agree fresh found ahead) files
        exact loop.mono fun _ _ done => done.ahead

/-! ## The collection -/

/-- A step that returns and leaves the store. -/
def Flushes (step : Step StoreExn World) : Prop :=
  ∀ world, ∃ world', step world = .ok world' ∧ world'.store = world.store

theorem Flushes.bind {first second : Step StoreExn World} (one : Flushes first)
    (two : Flushes second) : Flushes fun world => first world >>= second := by
  intro world
  obtain ⟨middle, run, same⟩ := one world
  obtain ⟨world', run', same'⟩ := two middle
  exact ⟨world', by simp only [run]; exact run', same'.trans same⟩

theorem Flushes.fsync (directory : Flushed) : Flushes (perform (.fsync directory)) := fun world =>
  ⟨_, perform_fsync directory world, rfl⟩

theorem Flushes.fsyncIf (changed : Bool) (directory : Flushed) :
    Flushes (fsyncIf changed directory) := by
  intro world
  unfold FactorStore.fsyncIf
  cases changed with
  | true => exact Flushes.fsync directory world
  | false => exact ⟨world, rfl, rfl⟩

theorem Flushes.foldlM {α : Type} {step : World → α → Collected World} {xs : List α}
    (each : ∀ x ∈ xs, Flushes fun world => step world x) : Flushes fun world => xs.foldlM step world :=
  fun world => foldlM_total (P := fun now : World => now.store = world.store)
    (fun x member now same => by
      obtain ⟨next, run, kept⟩ := each x member now
      exact ⟨next, run, kept.trans same⟩) world rfl

theorem flushCollected_ok (report : CollectReport) : Flushes (flushCollected report) := by
  unfold flushCollected
  refine (Flushes.fsync _).bind ((Flushes.fsyncIf _ _).bind ((Flushes.fsyncIf _ _).bind ?_))
  exact Flushes.foldlM fun kind _ => Flushes.fsyncIf _ _

theorem collectNodes_agree (report : CollectReport) :
    Agree (NodesAhead start []) (DryWorld start) (collectNodes true ⟨start, report, [], []⟩)
      (collectNodes false ⟨start, { report with dryRun := false }, [], []⟩) := by
  have ahead : ∀ remaining, remaining.Nodup → NodesAhead start remaining ⟨start, report, [], []⟩
      ⟨start, { report with dryRun := false }, [], []⟩ := fun remaining distinct =>
    ⟨⟨_, _, _, _⟩, distinct, rfl, fun _ _ => rfl⟩
  unfold collectNodes
  simp only
  cases start.store.nodes with
  | link => exact ⟨rfl, rfl⟩
  | missing => exact ahead [] List.nodup_nil
  | directory blocks pointers =>
      exact Agree.foldlM (P := NodesAhead start) (E := DryWorld start) (f := collectNode true)
        (g := collectNode false) (fun name rest dry real ahead => collectNode_agree ahead)
        (ahead _ pointers.distinct)

theorem collectGenerations_agree {current : String} (regular : start.store.LeasesAreFiles)
    (ahead : NodesAhead start [] dry real) :
    Agree (GenerationsAhead start []) (DryWorld start)
      (collectGenerations environment true staleLeaseSeconds current dry)
      (collectGenerations environment false staleLeaseSeconds current real) := by
  obtain ⟨alongside, _, others, _⟩ := ahead
  have unchanged : dry.world = start := by
    cases alongside
    rfl
  have same : real.world.store.generations = start.store.generations := by
    rw [others]
  unfold collectGenerations
  rw [unchanged, same]
  cases start.store.generations with
  | none => exact ⟨rfl, rfl⟩
  | some entries =>
      have undisturbed : Undisturbed start.store entries.keys entries.keys real.world.store := by
        rw [others]
        exact ⟨rfl, fun kind => by cases kind <;> rfl, fun _ _ => rfl, fun _ _ => rfl⟩
      exact Agree.foldlM (P := GenerationsAhead start) (E := DryWorld start)
        (f := collectGeneration environment true staleLeaseSeconds current)
        (g := collectGeneration environment false staleLeaseSeconds current)
        (fun generation rest dry real ahead => collectGeneration_agree regular ahead)
        ⟨alongside, entries.distinct, undisturbed⟩

theorem collectPointers_agree (ahead : GenerationsAhead start [] dry real) :
    Agree (PointersAhead start []) (DryWorld start)
      (dry.world.store.pointerStaging.keys.foldlM (collectPointer true) dry)
      (real.world.store.pointerStaging.keys.foldlM (collectPointer false) real) := by
  obtain ⟨alongside, _, undisturbed⟩ := ahead
  have unchanged : dry.world = start := by
    cases alongside
    rfl
  rw [unchanged, undisturbed.pointerStaging]
  refine Agree.foldlM (P := PointersAhead start) (E := DryWorld start) (f := collectPointer true)
    (g := collectPointer false) (fun name rest dry real ahead => collectPointer_agree ahead) ?_
  exact ⟨alongside, start.store.pointerStaging.distinct,
    fun name _ => by rw [undisturbed.pointerStaging], undisturbed.metadata⟩

/-- What the two runs return. -/
def Foreseen (start : World) (dry real : CollectReport × World) : Prop :=
  dry.2 = start ∧ real.1 = { dry.1 with dryRun := false }

theorem collectLocked_agree (staleLeaseSeconds metadataRetentionSeconds : ℚ)
    (regular : start.store.LeasesAreFiles) :
    Agree (Foreseen start) (DryWorld start)
      (collectLocked environment true staleLeaseSeconds metadataRetentionSeconds start)
      (collectLocked environment false staleLeaseSeconds metadataRetentionSeconds start) := by
  unfold collectLocked
  refine (Agree.raiseIn (E := DryWorld start) _ rfl).bind ?_
  rintro current _ ⟨rfl, _⟩
  refine (collectNodes_agree ⟨[], [], [], [], [], [], true⟩).bind fun dry real ahead => ?_
  refine (collectGenerations_agree regular ahead).bind fun dry real ahead => ?_
  refine (collectPointers_agree ahead).bind fun dry real ahead => ?_
  obtain ⟨alongside, _, _, metadata⟩ := ahead
  have unchanged : dry.world = start := by
    cases alongside
    rfl
  refine (Agree.raiseIn (E := DryWorld start) _ unchanged).bind ?_
  rintro retentionNs _ ⟨rfl, _⟩
  have loop := Agree.foldlM (P := KindsAhead start) (E := DryWorld start)
    (f := collectMetadata true (environment.nowNs - retentionNs))
    (g := collectMetadata false (environment.nowNs - retentionNs))
    (fun kind kinds dry real ahead => collectMetadata_agree ahead)
    (⟨alongside, by decide, fun kind _ => metadata kind⟩ :
      KindsAhead start [.access, .admission] dry real)
  refine loop.bind fun dry real ahead => ?_
  obtain ⟨⟨world, report, indexed, keys⟩, _, _⟩ := ahead
  obtain ⟨world', flushed, _⟩ := flushCollected_ok { report with dryRun := false } world
  simp only [unlessDry, flushed, if_true, Bool.false_eq_true, if_false]
  exact ⟨rfl, rfl⟩

end Gambit.FactorStore
