import Gambit.FactorStore.EvictionCrashes
import Gambit.Publication.Publications

/-!
# The life of a store

Publishers, readers, collections and evictions take turns on a store, and any of them
may die at any of its file-system calls.  At every moment the pointers name complete
generations, and a generation does not change while a pointer names it.
-/

set_option autoImplicit false

namespace Gambit.Publication

open PathTrees FactorIdentity FactorStore LoggedActions PowerLoss Relation

variable {φ : Type} {runtime : Runtime φ} {base disk left start : Disk} {store : Store} {generation : String}
  {environment : Environment} {limit : Option ℚ} {operation : Operation} {action : Call}

/-! ## Collections on the disk -/

/-- The call that an operation is; a lease directory is empty when it is removed. -/
def diskCall : Operation → Call
  | .unlinkPointer name => .unlink [] name
  | .unlinkNode name => .unlink ["nodes"] name
  | .removeGeneration name => .removeTree ["generations"] name
  | .unlinkLease generation name => .unlink ["leases", generation] name
  | .removeLeaseDirectory generation => .removeTree ["leases"] generation
  | .unlinkMetadata kind name => .unlink [kind.directoryName] name
  | .fsync .root => .flushDirectory []
  | .fsync .nodes => .flushDirectory ["nodes"]
  | .fsync .generations => .flushDirectory ["generations"]
  | .fsync (.metadata kind) => .flushDirectory [kind.directoryName]

/-- Whoever scans this disk reads the pointers of this store. -/
structure Shows (disk : Disk) (store : Store) : Prop where
  current : ∀ generation, store.currentGeneration = .ok generation ↔ readCurrent disk = .ok generation
  nodes : ∀ nodeKey generation, store.requireNodePointer nodeKey = .ok generation ↔
    readNodePointer nodeKey true disk = .ok (some generation)
  pointerStaging : ∀ name, store.pointerStaging.contains name = true → startsWith ".CURRENT-" name = true

/-- A pointer names the generation. -/
def Named (disk : Disk) (generation : String) : Prop :=
  readCurrent disk = .ok generation ∨
    ∃ nodeKey, isNodeKey nodeKey = true ∧ readNodePointer nodeKey true disk = .ok (some generation)

theorem Named.isGeneration (named : Named disk generation) : FactorStore.isGeneration generation = true := by
  rcases named with current | ⟨nodeKey, _, indexed⟩
  · exact readCurrent_isGeneration current
  · exact readNodePointer_isGeneration indexed

/-- The pointers and the generations they name are as they were. -/
structure Spared (base disk : Disk) : Prop where
  current : disk.node ["CURRENT"] = base.node ["CURRENT"]
  nodes : ∀ nodeKey, isNodeKey nodeKey = true → disk.node ["nodes", nodeKey] = base.node ["nodes", nodeKey]
  generations : ∀ generation, Named base generation →
    ∀ path, generationPath generation <+: path → disk.node path = base.node path

structure Spares (base : Disk) (call : Call) : Prop where
  current : ¬ call.Touches ["CURRENT"]
  nodes : ∀ nodeKey, isNodeKey nodeKey = true → ¬ call.Touches ["nodes", nodeKey]
  generations : ∀ generation, Named base generation → ∀ path, generationPath generation <+: path → ¬ call.Touches path

theorem Spared.refl (base : Disk) : Spared base base := ⟨rfl, fun _ _ => rfl, fun _ _ _ _ => rfl⟩

theorem Spared.effect (spared : Spared base disk) (spares : Spares base action) : Spared base (action.effect disk) where
  current := (node_effect spares.current).trans spared.current
  nodes nodeKey hex := (node_effect (spares.nodes nodeKey hex)).trans (spared.nodes nodeKey hex)
  generations generation named path under :=
    (node_effect (spares.generations generation named path under)).trans (spared.generations generation named path under)

theorem Spared.torn (spared : Spared base disk) (spares : Spares base action) (torn : Torn action disk left) :
    Spared base left where
  current := (torn.node spares.current).trans spared.current
  nodes nodeKey hex := (torn.node (spares.nodes nodeKey hex)).trans (spared.nodes nodeKey hex)
  generations generation named path under :=
    (torn.node (spares.generations generation named path under)).trans (spared.generations generation named path under)

/-! ## Which calls spare them -/

/-- Calls in another place. -/
theorem spares_elsewhere {place : String} (noCurrent : place ≠ "CURRENT") (noNode : place ≠ "nodes")
    (noGeneration : place ≠ "generations") (only : ∀ path, action.Touches path → [place] <+: path) :
    Spares base action where
  current touches := by
    obtain ⟨rest, same⟩ := only _ touches
    exact noCurrent (List.cons.inj same).1
  nodes nodeKey _ touches := by
    obtain ⟨rest, same⟩ := only _ touches
    exact noNode (List.cons.inj same).1
  generations := by
    rintro generation _ _ ⟨below, rfl⟩ touches
    obtain ⟨rest, same⟩ := only _ touches
    exact noGeneration (List.cons.inj same).1

theorem spares_flush (path : List String) : Spares base (.flushDirectory path) :=
  ⟨fun none => none.elim, fun _ _ none => none.elim, fun _ _ _ _ none => none.elim⟩

theorem prefix_of_two {first second : String} {path : List String} (under : [first, second] <+: path) :
    [first] <+: path := (List.prefix_append [first] [second]).trans under

theorem spares_metadata (kind : MetadataKind) (name : String) : Spares base (diskCall (.unlinkMetadata kind name)) := by
  cases kind with
  | access => exact spares_elsewhere (by decide) (by decide) (by decide) fun path under => prefix_of_two under
  | admission => exact spares_elsewhere (by decide) (by decide) (by decide) fun path under => prefix_of_two under

/-- A generation that a pointer names is one that a collection keeps. -/
theorem Shows.kept (shows : Shows disk store) (named : Named disk generation) :
    FactorStore.Kept environment limit store.locked generation where
  named := named.isGeneration
  reason := by
    rcases named with current | ⟨nodeKey, _, indexed⟩
    · exact .inl ((shows.current generation).mpr current)
    · exact .inr (.inl ⟨nodeKey, (shows.nodes nodeKey generation).mpr indexed⟩)

theorem Shows.spares (shows : Shows disk store) (harmless : Harmless environment limit store.locked operation) :
    Spares disk (diskCall operation) := by
  obtain ⟨dotted, unkept, staged⟩ := harmless
  cases operation with
  | unlinkPointer name =>
      have starts := shows.pointerStaging name (staged name rfl)
      refine @spares_elsewhere disk _ name ?_ ?_ ?_ fun path under => under
      · rintro rfl
        exact absurd starts (by decide)
      · rintro rfl
        exact absurd starts (by decide)
      · rintro rfl
        exact absurd starts (by decide)
  | unlinkNode name =>
      refine ⟨?_, ?_, ?_⟩
      · rintro ⟨rest, same⟩
        exact absurd (List.cons.inj same).1 (by decide)
      · rintro nodeKey hex ⟨rest, same⟩
        have here : name = nodeKey := (List.cons.inj (List.cons.inj same).2).1
        have visible := isHex_undotted "." hex rfl
        rw [← here, dotted name rfl] at visible
        cases visible
      · rintro generation _ _ ⟨below, rfl⟩ ⟨rest, same⟩
        exact absurd (List.cons.inj same).1 (by decide)
  | removeGeneration name =>
      refine ⟨?_, ?_, ?_⟩
      · rintro ⟨rest, same⟩
        exact absurd (List.cons.inj same).1 (by decide)
      · rintro nodeKey _ ⟨rest, same⟩
        exact absurd (List.cons.inj same).1 (by decide)
      · rintro generation named _ ⟨below, rfl⟩ ⟨rest, same⟩
        have here : name = generation := (List.cons.inj (List.cons.inj same).2).1
        exact unkept name rfl (here ▸ shows.kept named)
  | unlinkLease place name =>
      exact spares_elsewhere (by decide) (by decide) (by decide)
        fun path under => (List.prefix_append ["leases"] [place, name]).trans under
  | removeLeaseDirectory place =>
      exact spares_elsewhere (by decide) (by decide) (by decide) fun path under => prefix_of_two under
  | unlinkMetadata kind name => exact spares_metadata kind name
  | fsync directory => cases directory <;> exact spares_flush _

/-- Wherever a collection is interrupted. -/
theorem collection_spares {arguments : CollectArguments} (shows : Shows disk store)
    (killed : Killed Call.effect Torn
      ((worldOf (collectGarbage environment arguments store)).performed.map diskCall) disk left) :
    Spared disk left := by
  have harmless : ∀ operation ∈ (worldOf (collectGarbage environment arguments store)).performed,
      Harmless environment arguments.staleLeaseSeconds store.locked operation := by
    rcases collectGarbage_progress environment arguments store with nothing | progress
    · intro operation member
      rw [nothing] at member
      exact absurd member List.not_mem_nil
    · exact progress.harmless
  have spares : ∀ action ∈ (worldOf (collectGarbage environment arguments store)).performed.map diskCall,
      Spares disk action := by
    intro action member
    obtain ⟨operation, performed, rfl⟩ := List.mem_map.mp member
    exact shows.spares (harmless operation performed)
  exact killed.keeps (Spared.refl disk) (fun action member _ spared => spared.effect (spares action member))
    fun action member _ _ spared torn => spared.torn (spares action member) torn

/-! ## Evictions on the disk -/

/-- The pointers that are left are as they were, and so are the generations they name. -/
structure Thinned (base disk : Disk) : Prop where
  current : disk.node ["CURRENT"] = base.node ["CURRENT"]
  nodes : ∀ nodeKey, isNodeKey nodeKey = true →
    disk.node ["nodes", nodeKey] = base.node ["nodes", nodeKey] ∨ disk.node ["nodes", nodeKey] = none
  generations : ∀ generation, Named disk generation →
    ∀ path, generationPath generation <+: path → disk.node path = base.node path

theorem pointer_leaf {nodeKey : String} (indexed : readNodePointer nodeKey true disk = .ok (some generation)) :
    isNodeKey nodeKey = true ∧ ∃ content, disk.node ["nodes", nodeKey] = some (.leaf content) := by
  unfold readNodePointer at indexed
  split at indexed
  · cases indexed
  · rename_i hex
    refine ⟨not_not.mp hex, ?_⟩
    unfold readPointer readText at indexed
    cases found : disk.node ["nodes", nodeKey] with
    | none =>
        rw [found] at indexed
        cases indexed
    | some node =>
        cases node with
        | leaf content => exact ⟨content, rfl⟩
        | branch label =>
            rw [found] at indexed
            cases indexed

theorem named_of_left (current : disk.node ["CURRENT"] = base.node ["CURRENT"])
    (nodes : ∀ nodeKey, isNodeKey nodeKey = true →
      disk.node ["nodes", nodeKey] = base.node ["nodes", nodeKey] ∨ disk.node ["nodes", nodeKey] = none)
    (named : Named disk generation) : Named base generation := by
  rcases named with read | ⟨nodeKey, hex, indexed⟩
  · exact .inl ((readCurrent_congr current).symm.trans read)
  · rcases nodes nodeKey hex with same | gone
    · exact .inr ⟨nodeKey, hex, (readNodePointer_congr same true).symm.trans indexed⟩
    · obtain ⟨-, content, there⟩ := pointer_leaf indexed
      rw [gone] at there
      cases there

theorem Thinned.refl (base : Disk) : Thinned base base := ⟨rfl, fun _ _ => .inl rfl, fun _ _ _ _ => rfl⟩

theorem Thinned.trans (first : Thinned base disk) (second : Thinned disk left) : Thinned base left where
  current := second.current.trans first.current
  nodes nodeKey hex := by
    rcases second.nodes nodeKey hex with same | gone
    · rw [same]
      exact first.nodes nodeKey hex
    · exact .inr gone
  generations generation named path under :=
    (second.generations generation named path under).trans
      (first.generations generation (named_of_left second.current second.nodes named) path under)

theorem Spared.thinned (spared : Spared base disk) : Thinned base disk where
  current := spared.current
  nodes nodeKey hex := .inl (spared.nodes nodeKey hex)
  generations generation named := spared.generations generation
    (named_of_left spared.current (fun nodeKey hex => .inl (spared.nodes nodeKey hex)) named)

theorem Sound.thinned (sound : Sound runtime base) (thinned : Thinned base disk) : Sound runtime disk where
  current := by
    intro present
    rw [thinned.current] at present
    obtain ⟨generation, opened, read, opens⟩ := sound.current present
    have named : readCurrent disk = .ok generation := (readCurrent_congr thinned.current).trans read
    refine ⟨generation, opened, named, ?_⟩
    rw [← opens]
    exact openGeneration_congr (thinned.generations generation (.inl named)) none false
  nodes := by
    intro nodeKey hex present
    have same := (thinned.nodes nodeKey hex).resolve_right present
    rw [same] at present
    obtain ⟨generation, opened, read, opens⟩ := sound.nodes nodeKey hex present
    have named : readNodePointer nodeKey true disk = .ok (some generation) := (readNodePointer_congr same true).trans read
    refine ⟨generation, opened, named, ?_⟩
    rw [← opens]
    exact openGeneration_congr (thinned.generations generation (.inr ⟨nodeKey, hex, named⟩)) (some nodeKey) true

theorem unlink_untorn {parent : List String} {name : String} (torn : Torn (.unlink parent name) disk left) :
    left = disk := by
  cases torn
  rfl

theorem unlink_gone {parent : List String} {name : String}
    (file : disk.node (parent ++ [name]) = none ∨ ∃ content, disk.node (parent ++ [name]) = some (.leaf content)) :
    ((Call.unlink parent name).effect disk).node (parent ++ [name]) = none := by
  rcases file with missing | ⟨content, there⟩
  · have run : (Call.unlink parent name).apply disk = .error .fileNotFound := by
      simp only [Call.apply, missing]
    rw [effect_of_error run]
    exact missing
  · have run : (Call.unlink parent name).apply disk = .ok (disk.delete parent name) := by
      simp only [Call.apply, there]
    rw [effect_of_apply run]
    exact if_pos (List.prefix_refl _)

/-- Without its pointer, a node that only it named is named no more. -/
theorem Thinned.unindexed {entry : NodeEntry} {evicted : List NodeEntry} (thinned : Thinned base disk)
    (shows : Shows base store) (removable : Removable store.locked evicted) (member : entry ∈ evicted) :
    Thinned disk ((diskCall (.unlinkNode entry.nodeKey)).effect disk) ∧
      ¬ Named ((diskCall (.unlinkNode entry.nodeKey)).effect disk) entry.generation := by
  have indexed := (shows.nodes entry.nodeKey entry.generation).mp (removable.pointed entry member)
  obtain ⟨hex, content, there⟩ := pointer_leaf indexed
  have gone : ((diskCall (.unlinkNode entry.nodeKey)).effect disk).node ["nodes", entry.nodeKey] = none := by
    refine @unlink_gone disk ["nodes"] entry.nodeKey ?_
    rcases thinned.nodes entry.nodeKey hex with same | missing
    · exact .inr ⟨content, same.trans there⟩
    · exact .inl missing
  have apart {first second : String} {rest : List String} (other : ["nodes", entry.nodeKey] ≠ [first, second]) :
      ((diskCall (.unlinkNode entry.nodeKey)).effect disk).node (first :: second :: rest) =
        disk.node (first :: second :: rest) := by
    refine node_effect ?_
    rintro ⟨below, same⟩
    obtain ⟨one, two⟩ := List.cons.inj same
    exact other (by rw [one, (List.cons.inj two).1])
  have step : Thinned disk ((diskCall (.unlinkNode entry.nodeKey)).effect disk) := by
    refine ⟨node_effect ?_, ?_, ?_⟩
    · rintro ⟨below, same⟩
      exact absurd (List.cons.inj same).1 (by decide)
    · intro nodeKey _
      by_cases here : nodeKey = entry.nodeKey
      · rw [here]
        exact .inr gone
      · exact .inl (apart fun same => here (List.cons.inj (List.cons.inj same).2).1.symm)
    · rintro generation _ _ ⟨below, rfl⟩
      exact apart fun same => absurd (List.cons.inj same).1 (by decide)
  refine ⟨step, ?_⟩
  have whole := thinned.trans step
  rintro (read | ⟨nodeKey, isKey, found⟩)
  · refine (removable.free entry member).1 ((shows.current entry.generation).mpr ?_)
    exact (readCurrent_congr whole.current).symm.trans read
  · obtain ⟨-, content, stands⟩ := pointer_leaf found
    rcases whole.nodes nodeKey isKey with same | missing
    · have own := removable.own entry member nodeKey ((shows.nodes nodeKey entry.generation).mpr
        ((readNodePointer_congr same true).symm.trans found))
      rw [own, gone] at stands
      cases stands
    · rw [missing] at stands
      cases stands

/-- Removing a generation that nothing names, in whole or in part. -/
theorem Thinned.removed (unnamed : ¬ Named disk generation)
    (same : ∀ path, ¬ generationPath generation <+: path → left.node path = disk.node path) : Thinned disk left := by
  have current : left.node ["CURRENT"] = disk.node ["CURRENT"] := same _ (current_not_under generation)
  have nodes : ∀ nodeKey, isNodeKey nodeKey = true → left.node ["nodes", nodeKey] = disk.node ["nodes", nodeKey] ∨
      left.node ["nodes", nodeKey] = none := fun nodeKey _ => .inl (same _ (node_not_under generation nodeKey))
  refine ⟨current, nodes, ?_⟩
  rintro other named _ ⟨below, rfl⟩
  refine same _ ?_
  rintro ⟨rest, equal⟩
  have here : generation = other := (List.cons.inj (List.cons.inj equal).2).1
  exact unnamed (here ▸ named_of_left current nodes named)

theorem Housekeeping.spares (minor : Housekeeping operation) : Spares base (diskCall operation) := by
  cases minor with
  | leases place => exact spares_elsewhere (by decide) (by decide) (by decide) fun path under => prefix_of_two under
  | metadata kind name => exact spares_metadata kind name

theorem Spares.thins (spares : ∀ base, Spares base action) (disk : Disk) : Thinned disk (action.effect disk) :=
  ((Spared.refl disk).effect (spares disk)).thinned

theorem Spares.thins_torn (spares : ∀ base, Spares base action) (torn : Torn action disk left) : Thinned disk left :=
  ((Spared.refl disk).torn (spares disk) torn).thinned

/-- The pointer goes before the generation, so no pointer is left to nothing. -/
theorem Removals.thins {evicted : List NodeEntry} {log : List Operation} (removals : Removals evicted log)
    (shows : Shows base store) (removable : Removable store.locked evicted) (thinned : Thinned base disk)
    (killed : Killed Call.effect Torn (log.map diskCall) disk left) : Thinned base left := by
  induction removals generalizing disk with
  | nil =>
      cases killed
      exact thinned
  | @cons entry rest housekeeping log minor _ ih =>
      rw [List.map_cons, List.map_cons, List.map_append] at killed
      obtain ⟨step, unnamed⟩ := thinned.unindexed shows removable List.mem_cons_self
      have whole : ∀ action ∈ housekeeping.map diskCall, ∀ disk, Thinned base disk → Thinned base (action.effect disk) := by
        intro action member disk now
        obtain ⟨operation, inside, rfl⟩ := List.mem_map.mp member
        exact now.trans (Spares.thins (fun _ => Housekeeping.spares (minor operation inside)) disk)
      cases killed with
      | before => exact thinned
      | during torn =>
          rw [unlink_untorn torn]
          exact thinned
      | after killed =>
          cases killed with
          | before => exact thinned.trans step
          | during torn =>
              exact (thinned.trans step).trans (Thinned.removed unnamed fun path outside => torn.node outside)
          | after killed =>
              have removed := (thinned.trans step).trans (Thinned.removed unnamed fun path outside =>
                @node_effect (diskCall (.removeGeneration entry.generation)) _ path outside)
              rcases killed.cases_append with early | late
              · refine early.keeps removed whole fun action member disk left now torn => ?_
                obtain ⟨operation, inside, rfl⟩ := List.mem_map.mp member
                exact now.trans (Spares.thins_torn (fun _ => Housekeeping.spares (minor operation inside)) torn)
              · exact ih removable.tail (replay_keeps removed whole) late

/-- Wherever an eviction is interrupted. -/
theorem eviction_thins {arguments : EvictArguments} (shows : Shows disk store)
    (killed : Killed Call.effect Torn
      ((worldOf (evictFactorNodes environment arguments store)).performed.map diskCall) disk left) :
    Thinned disk left := by
  obtain ⟨evicted, removals, flush, log, shape, removable, flushes⟩ :=
    evictFactorNodes_shape environment arguments store
  rw [log, List.map_append] at killed
  rcases killed.cases_append with early | late
  · exact Removals.thins shape shows removable (Thinned.refl disk) early
  · have spares : ∀ action ∈ flush.map diskCall, ∀ base, Spares base action := by
      intro action member base
      obtain ⟨operation, inside, rfl⟩ := List.mem_map.mp member
      obtain ⟨directory, rfl⟩ := flushes operation inside
      cases directory <;> exact spares_flush _
    have reached : Thinned disk (replay Call.effect (removals.map diskCall) disk) :=
      Removals.thins shape shows removable (Thinned.refl disk) (.replayed _ _)
    exact late.keeps reached (fun action member disk now => now.trans (Spares.thins (spares action member) disk))
      fun action member disk left now torn => now.trans (Spares.thins_torn (spares action member) torn)

/-! ## Turns -/

/-- The turn of one party, up to any point of it. -/
inductive Turn (runtime : Runtime φ) (disk left : Disk) : Prop where
  | publish (faults : Faults Exn) {draws : Draws} (hex : isGeneration draws.generation = true)
      (request : Request runtime)
      (killed : Killed Call.effect Torn (publishGeneration runtime faults draws request ⟨disk, [], 0⟩).2.log disk left)
  | publishNode (faults : Faults Exn) {draws : Draws} (hex : isGeneration draws.generation = true)
      {identity : FactorNodeIdentity φ} (made : ∃ arguments, create runtime.floats arguments = .ok identity)
      (columns : OrderedDict String FloatArray)
      (killed : Killed Call.effect Torn
        (publishFactorNode runtime faults draws identity made columns ⟨disk, [], 0⟩).2.log disk left)
  | openCurrent (faults : Faults Exn) (draws : Draws)
      (killed : Killed Call.effect Torn (openCurrentGeneration runtime faults draws ⟨disk, [], 0⟩).2.log disk left)
  | openNode (faults : Faults Exn) (draws : Draws) (nodeKey : String) (intervalNs : Option ℚ)
      (killed : Killed Call.effect Torn
        (openGenerationByNodeKey runtime faults draws nodeKey intervalNs ⟨disk, [], 0⟩).2.log disk left)
  | close (faults : Faults Exn) (lease : Lease φ)
      (killed : Killed Call.effect Torn (lease.close faults ⟨disk, [], 0⟩).2.log disk left)
  | collect (environment : Environment) (arguments : CollectArguments) {store : Store} (shows : Shows disk store)
      (killed : Killed Call.effect Torn
        ((worldOf (collectGarbage environment arguments store)).performed.map diskCall) disk left)
  | evict (environment : Environment) (arguments : EvictArguments) {store : Store} (shows : Shows disk store)
      (killed : Killed Call.effect Torn
        ((worldOf (evictFactorNodes environment arguments store)).performed.map diskCall) disk left)

theorem scratch_killed {α : Type} {action : Act α} (logs : Logs Call.effect Scratch action)
    (killed : Killed Call.effect Torn (action ⟨disk, [], 0⟩).2.log disk left) : Kept disk left := by
  obtain ⟨added, log, kinds, -⟩ := logs ⟨disk, [], 0⟩
  rw [log, List.nil_append] at killed
  exact killed.keeps (Kept.refl disk) (fun call member _ kept => kept.effect (kinds call member))
    fun call member _ _ kept torn => kept.torn (kinds call member) torn

/-- What is published as a node is published, or nothing is done. -/
theorem publishFactorNode_cases (faults : Faults Exn) (draws : Draws) {identity : FactorNodeIdentity φ}
    (made : ∃ arguments, create runtime.floats arguments = .ok identity) (columns : OrderedDict String FloatArray) :
    (∃ request, publishFactorNode runtime faults draws identity made columns =
      publishGeneration runtime faults draws request) ∨
      ∃ error, publishFactorNode runtime faults draws identity made columns = Action.raise error := by
  unfold publishFactorNode
  simp only
  split
  · exact .inr ⟨_, rfl⟩
  · split
    · exact .inr ⟨_, rfl⟩
    · exact .inl ⟨_, rfl⟩

theorem named_there (sound : Sound runtime disk) (named : Named disk generation) :
    disk.node (generationPath generation) ≠ none := by
  rcases named with current | ⟨nodeKey, hex, indexed⟩
  · have present : disk.node ["CURRENT"] ≠ none := by
      intro missing
      unfold readCurrent readPointer readText at current
      rw [missing] at current
      cases current
    obtain ⟨found, opened, read, opens⟩ := sound.current present
    rw [current] at read
    cases read
    exact openGeneration_there opens
  · obtain ⟨-, content, there⟩ := pointer_leaf indexed
    obtain ⟨found, opened, read, opens⟩ := sound.nodes nodeKey hex (there ▸ Option.some_ne_none _)
    rw [indexed] at read
    cases read
    exact openGeneration_there opens

/-- Every turn leaves a sound store, and a generation that is named before and after as it was. -/
theorem Turn.keeps (turn : Turn runtime disk left) (sound : Sound runtime disk) :
    Sound runtime left ∧ ∀ generation, Named disk generation → Named left generation →
      ∀ path, generationPath generation <+: path → left.node path = disk.node path := by
  have kept (same : Kept disk left) : Sound runtime left ∧ ∀ generation, Named disk generation →
      Named left generation → ∀ path, generationPath generation <+: path → left.node path = disk.node path :=
    ⟨sound.kept same, fun generation named _ path under =>
      same path (.inr (.inr ⟨generation, named.isGeneration, under⟩))⟩
  have advanced {made nodeKey : String} (onward : Advanced runtime made nodeKey disk left) :
      Sound runtime left ∧ ∀ generation, Named disk generation → Named left generation →
        ∀ path, generationPath generation <+: path → left.node path = disk.node path :=
    ⟨onward.sound, fun generation named _ =>
      onward.generations generation named.isGeneration (named_there sound named)⟩
  cases turn with
  | publish faults hex request killed => exact advanced (publication_killed hex sound killed)
  | publishNode faults hex made columns killed =>
      rename_i draws identity
      rcases publishFactorNode_cases faults draws made columns with ⟨request, same⟩ | ⟨error, same⟩
      · rw [same] at killed
        exact advanced (publication_killed hex sound killed)
      · rw [same] at killed
        exact kept (scratch_killed (Logs.of _) killed)
  | openCurrent faults draws killed => exact kept (scratch_killed openCurrentGeneration_scratch killed)
  | openNode faults draws nodeKey intervalNs killed =>
      exact kept (scratch_killed (openGenerationByNodeKey_scratch intervalNs) killed)
  | close faults lease killed => exact kept (scratch_killed (close_scratch lease) killed)
  | collect environment arguments shows killed =>
      have spared := collection_spares shows killed
      exact ⟨sound.thinned spared.thinned, fun generation named _ => spared.generations generation named⟩
  | evict environment arguments shows killed =>
      have thinned := eviction_thins shows killed
      exact ⟨sound.thinned thinned, fun generation _ named => thinned.generations generation named⟩

/-! ## Runs -/

/-- Publishers, readers, collections and evictions in any order, each stopped anywhere: at every moment
a reader finds complete generations, and what pointers have named throughout opens as it did. -/
theorem stores_stay_sound (run : ReflTransGen (Turn runtime) start disk) (sound : Sound runtime start) :
    Sound runtime disk ∧ ∀ generation,
      ReflTransGen (fun before after => Turn runtime before after ∧ Named before generation ∧ Named after generation)
        start disk →
        ∀ expected requireIdentity, openGeneration runtime generation expected requireIdentity disk =
          openGeneration runtime generation expected requireIdentity start := by
  constructor
  · induction run with
    | refl => exact sound
    | tail _ turn ih => exact (turn.keeps ih).1
  · intro generation named expected requireIdentity
    have whole : Sound runtime disk ∧
        ∀ path, generationPath generation <+: path → disk.node path = start.node path := by
      clear run
      induction named with
      | refl => exact ⟨sound, fun _ _ => rfl⟩
      | tail _ turn ih =>
          obtain ⟨onward, before, after⟩ := turn
          obtain ⟨later, same⟩ := onward.keeps ih.1
          exact ⟨later, fun path under => (same generation before after path under).trans (ih.2 path under)⟩
    exact openGeneration_congr whole.2 expected requireIdentity

/-- A store of which nothing is there yet. -/
def bareStore : Store where
  made := false
  writerLock := false
  storeLock := false
  current := none
  pointerStaging := .empty
  nodes := .missing
  generations := none
  leases := .empty
  access := none
  admission := none
  otherBlocks := 0

theorem bareStore_shown : Shows emptyStore bareStore where
  current generation := by
    have missing : bareStore.currentGeneration ≠ .ok generation := by
      intro found
      cases found
    have unread : readCurrent emptyStore ≠ .ok generation := by
      intro found
      cases found
    exact ⟨fun found => absurd found missing, fun found => absurd found unread⟩
  nodes nodeKey generation := by
    have missing : bareStore.requireNodePointer nodeKey ≠ .ok generation := by
      intro found
      unfold Store.requireNodePointer at found
      split at found
      · cases found
      · cases found
    have unread : readNodePointer nodeKey true emptyStore ≠ .ok (some generation) := by
      intro found
      unfold readNodePointer at found
      split at found
      · cases found
      · cases found
    exact ⟨fun found => absurd found missing, fun found => absurd found unread⟩
  pointerStaging name there := by
    cases there

/-- A collection of nothing, and a publication that returns. -/
theorem stores_stay_sound_first : ∃ disk, (readCurrent disk).toBool = true ∧ Sound plainRuntime disk ∧ ∀ generation,
    ReflTransGen (fun before after => Turn plainRuntime before after ∧ Named before generation ∧ Named after generation)
        emptyStore disk →
      ∀ expected requireIdentity, openGeneration plainRuntime generation expected requireIdentity disk =
        openGeneration plainRuntime generation expected requireIdentity emptyStore := by
  have collected : Turn plainRuntime emptyStore emptyStore :=
    .collect machine ⟨some 0, some 0, false⟩ bareStore_shown (.before _ _)
  have published : Turn plainRuntime emptyStore (replay Call.effect
      (publishGeneration plainRuntime noFaults firstDraws priceRequest ⟨emptyStore, [], 0⟩).2.log emptyStore) :=
    .publish noFaults (by decide) priceRequest (.replayed _ _)
  have run := (ReflTransGen.single collected).tail published
  exact ⟨_, by decide +kernel, stores_stay_sound run emptyStore_sound⟩

end Gambit.Publication
