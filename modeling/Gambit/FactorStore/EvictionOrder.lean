import Gambit.FactorStore.Eviction
import Gambit.FactorStore.Frames
import Gambit.Lib.ShortestPrefix
import Mathlib.Data.String.Basic

/-!
# Which nodes are evicted

The loop of `evict_factor_nodes` takes the shortest sufficient prefix of the
unprotected nodes, in the order of their last access.
-/

set_option autoImplicit false

namespace Gambit.FactorStore

open Raising ShortestPrefix

variable {environment : Environment} {arguments : EvictArguments} {store : Store} {current : String}
  {entry : NodeEntry} {entries rest : List NodeEntry} {nodeKey : String}

/-! ## The scan -/

/-- What an entry says of the store it was scanned from. -/
structure Scanned (store : Store) (current : String) (entry : NodeEntry) : Prop where
  pointer : ∃ stat, store.pointer entry.nodeKey = some (.file stat (some entry.generation))
  directory : ∃ contents, store.generation entry.generation = some (.directory contents)
  manifest : ∃ contents stat manifest, store.readManifest entry.generation =
    .ok (contents, stat, manifest) ∧ manifest.nodeKey = .value entry.nodeKey
  isProtected : entry.isProtected = (entry.generation = current || store.leased entry.generation)

theorem requireNodePointer_ok {generation : String}
    (run : store.requireNodePointer nodeKey = .ok generation) :
    ∃ stat, store.pointer nodeKey = some (.file stat (some generation)) := by
  unfold Store.requireNodePointer at run
  obtain ⟨-, run⟩ := refuse_ok.mp run
  split at run
  · cases run
  · cases run
  · rename_i stat text found
    split at run
    · cases run
      exact ⟨stat, found⟩
    · cases run
  · cases run

theorem readManifest_ok {generation : String} {contents : GenerationDirectory} {stat : Stat}
    {manifest : Manifest} (run : store.readManifest generation = .ok (contents, stat, manifest)) :
    store.generation generation = some (.directory contents) := by
  unfold Store.readManifest at run
  split at run
  · cases run
  · rename_i contents' found
    split at run
    · cases run
    · cases run
      exact found
    · cases run
    · cases run
  · cases run

theorem scanNode_ok {found : Option NodeEntry}
    (run : scanNode environment current store nodeKey = .ok found) :
    ∀ entry, found = some entry → entry.nodeKey = nodeKey ∧ Scanned store current entry := by
  unfold scanNode at run
  rcases permit_ok.mp run with ⟨-, rfl⟩ | ⟨-, run⟩
  · nofun
  obtain ⟨-, run⟩ := refuse_ok.mp run
  obtain ⟨generation, pointer, run⟩ := bind_ok.mp run
  obtain ⟨⟨contents, stat, manifest⟩, read, run⟩ := bind_ok.mp run
  obtain ⟨agrees, run⟩ := refuse_ok.mp run
  obtain ⟨storedBytes, -, run⟩ := bind_ok.mp run
  obtain ⟨fallbackNs, -, run⟩ := bind_ok.mp run
  cases run
  rintro entry ⟨⟩
  obtain ⟨-, sameKey⟩ := not_or.mp agrees
  exact ⟨rfl, requireNodePointer_ok pointer, ⟨contents, readManifest_ok read⟩,
    ⟨contents, stat, manifest, read, not_not.mp sameKey⟩, rfl⟩

/-- The entries in the order of the directory, a key at most once. -/
theorem scanNodes_ok (run : scanNodes environment current store = .ok entries) :
    (entries.map NodeEntry.nodeKey).Nodup ∧ ∀ entry ∈ entries, Scanned store current entry := by
  unfold scanNodes at run
  split at run
  · cases run
  · cases run
    exact ⟨List.nodup_nil, fun _ none => absurd none List.not_mem_nil⟩
  · rename_i blocks pointers _
    have scanned := foldlM_ok (P := fun done entries =>
      (entries.map NodeEntry.nodeKey).Sublist done ∧ ∀ entry ∈ entries, Scanned store current entry)
      (fun done nodeKey entries entries' _ now step => by
        obtain ⟨sub, all⟩ := now
        obtain ⟨found, here, step⟩ := bind_ok.mp step
        cases step
        cases found with
        | none => exact ⟨by simpa using sub.trans (List.sublist_append_left _ _), by simpa using all⟩
        | some entry =>
            obtain ⟨rfl, scanned⟩ := scanNode_ok here entry rfl
            refine ⟨by simpa using sub.append (List.Sublist.refl [entry.nodeKey]), ?_⟩
            intro other member
            rcases List.mem_append.mp member with earlier | last
            · exact all other earlier
            · rw [Option.toList_some, List.mem_singleton] at last
              rw [last]
              exact scanned)
      ⟨List.Sublist.refl _, fun _ none => absurd none List.not_mem_nil⟩ run
    exact ⟨pointers.distinct.sublist scanned.1, scanned.2⟩

/-- A generation is that of one node. -/
theorem Scanned.same_key {other : NodeEntry} (scanned : Scanned store current entry)
    (scannedOther : Scanned store current other) (same : entry.generation = other.generation) :
    entry.nodeKey = other.nodeKey := by
  obtain ⟨contents, stat, manifest, read, key⟩ := scanned.manifest
  obtain ⟨contents', stat', manifest', read', key'⟩ := scannedOther.manifest
  rw [same, read'] at read
  cases read
  rw [key'] at key
  injection key with same
  exact same.symm

/-! ## The order -/

theorem sortedEntries_perm (entries : List NodeEntry) : (sortedEntries entries).Perm entries :=
  List.perm_insertionSort _ entries

theorem notAfter_total (a b : NodeEntry) : a.notAfter b = true ∨ b.notAfter a = true := by
  unfold NodeEntry.notAfter
  simp only [Bool.or_eq_true, Bool.and_eq_true, decide_eq_true_eq]
  rcases lt_trichotomy a.lastAccessNs b.lastAccessNs with earlier | same | later
  · exact .inl (.inl earlier)
  · rcases le_total a.nodeKey b.nodeKey with first | second
    · exact .inl (.inr ⟨same, first⟩)
    · exact .inr (.inr ⟨same.symm, second⟩)
  · exact .inr (.inl later)

theorem notAfter_trans {a b c : NodeEntry} (first : a.notAfter b = true)
    (second : b.notAfter c = true) : a.notAfter c = true := by
  unfold NodeEntry.notAfter at first second ⊢
  simp only [Bool.or_eq_true, Bool.and_eq_true, decide_eq_true_eq] at first second ⊢
  rcases first with before | ⟨same, first⟩
  · rcases second with later | ⟨same, _⟩
    · exact .inl (before.trans later)
    · exact .inl (same ▸ before)
  · rcases second with later | ⟨same', second⟩
    · exact .inl (same ▸ later)
    · exact .inr ⟨same.trans same', first.trans second⟩

theorem sortedEntries_sorted (entries : List NodeEntry) :
    (sortedEntries entries).Pairwise fun a b => a.notAfter b = true := by
  have total : Std.Total fun a b : NodeEntry => a.notAfter b = true := ⟨notAfter_total⟩
  have trans : IsTrans NodeEntry fun a b => a.notAfter b = true :=
    ⟨fun _ _ _ first second => notAfter_trans first second⟩
  exact List.pairwise_insertionSort _ entries

/-! ## The loop -/

/-- The nodes neither current nor leased, in the order of eviction. -/
def evictable (entries : List NodeEntry) : List NodeEntry :=
  (sortedEntries entries).filter fun entry => !entry.isProtected

/-- The nodes evicted and the protected ones passed. -/
def evictionPlan (arguments : EvictArguments) (quotaTriggered : Bool) :
    List NodeEntry → Totals → List NodeEntry × List NodeEntry
  | [], _ => ([], [])
  | entry :: rest, totals =>
      if ¬ arguments.overLimit quotaTriggered totals then ([], [])
      else if entry.isProtected then
        let (evicted, passed) := evictionPlan arguments quotaTriggered rest totals
        (evicted, entry :: passed)
      else
        let (evicted, passed) := evictionPlan arguments quotaTriggered rest (totals.without entry)
        (entry :: evicted, passed)

variable {quotaTriggered : Bool} {totals : Totals}

theorem evictionPlan_greedy (entries : List NodeEntry) (totals : Totals) :
    (evictionPlan arguments quotaTriggered entries totals).1 =
      greedy (arguments.overLimit quotaTriggered) Totals.without
        (entries.filter fun entry => !entry.isProtected) totals := by
  induction entries generalizing totals with
  | nil => rfl
  | cons entry rest ih =>
      unfold evictionPlan
      cases exceeded : arguments.overLimit quotaTriggered totals with
      | false =>
          rw [greedy_of_within exceeded]
          simp
      | true =>
          cases kept : entry.isProtected with
          | true =>
              rw [List.filter_cons_of_neg (by simp [kept])]
              simpa using ih totals
          | false =>
              rw [List.filter_cons_of_pos (by simp [kept]), greedy_cons _ exceeded]
              simpa using ih (totals.without entry)

/-- What the eviction of a node needs to find, and finds as it was scanned. -/
structure Evictable (store : Store) (entry : NodeEntry) : Prop where
  pointer : ∃ pointer, store.pointer entry.nodeKey = some pointer
  directory : ∃ contents, store.generation entry.generation = some (.directory contents)

/-- What the eviction of a node leaves. -/
structure Evicted (entry : NodeEntry) (before after : Store) : Prop where
  pointer : ∀ nodeKey, after.pointer nodeKey =
    if nodeKey = entry.nodeKey then none else before.pointer nodeKey
  generation : ∀ generation, after.generation generation =
    if generation = entry.generation then none else before.generation generation

theorem evictMetadata_ok (nodeKey : String) (world : World) :
    ∃ world', evictMetadata nodeKey world = .ok world' ∧
      world'.store.pointer = world.store.pointer ∧ world'.store.generation = world.store.generation := by
  refine foldlM_total (P := fun now : World => now.store.pointer = world.store.pointer ∧
    now.store.generation = world.store.generation) (fun kind _ now same => ?_) world ⟨rfl, rfl⟩
  split
  · refine ⟨_, rfl, ?_, ?_⟩
    · exact (pointer_unlinkMetadata kind).trans same.1
    · exact (generation_unlinkMetadata kind).trans same.2
  · exact ⟨now, rfl, same⟩

theorem removeEmptyLeaseDirectory_ok (generation : String) (world : World) :
    ∃ world', removeEmptyLeaseDirectory generation world = .ok world' ∧
      world'.store.pointer = world.store.pointer ∧ world'.store.generation = world.store.generation := by
  unfold removeEmptyLeaseDirectory
  split
  · rename_i blocks files found
    by_cases empty : files.keys = []
    · rw [if_pos empty]
      have removed : (Operation.removeLeaseDirectory generation).apply world.store = _ :=
        removeLeaseDirectory_ok found empty
      exact ⟨_, perform_ok removed, rfl, rfl⟩
    · rw [if_neg empty]
      exact ⟨world, rfl, rfl, rfl⟩
  · exact ⟨world, rfl, rfl, rfl⟩

theorem evictNode_ok {world : World} (present : Evictable world.store entry) :
    ∃ world', evictNode entry world = .ok world' ∧ Evicted entry world.store world'.store := by
  obtain ⟨⟨pointer, indexed⟩, contents, stored⟩ := present
  have unlinked : (Operation.unlinkNode entry.nodeKey).apply world.store = _ := unlinkNode_ok indexed
  let unindexed : Store := { world.store with nodes := world.store.nodes.erase entry.nodeKey }
  have removed : (Operation.removeGeneration entry.generation).apply unindexed = _ :=
    removeGeneration_ok stored
  obtain ⟨released, noLeases, pointers, generations⟩ := removeEmptyLeaseDirectory_ok entry.generation
    ⟨unindexed.eraseGeneration entry.generation,
      world.performed ++ [.unlinkNode entry.nodeKey] ++ [.removeGeneration entry.generation]⟩
  obtain ⟨world', noMetadata, pointers', generations'⟩ := evictMetadata_ok entry.nodeKey released
  refine ⟨world', ?_, fun nodeKey => ?_, fun generation => ?_⟩
  · unfold evictNode
    rw [perform_ok unlinked]
    simp only [bind, Except.bind]
    rw [perform_ok removed]
    simp only [noLeases]
    exact noMetadata
  · rw [pointers', pointers]
    exact pointer_erase
  · rw [generations', generations]
    exact generation_erase

/-- The entries of a loop, that do not get into each other's way. -/
structure Independent (entries : List NodeEntry) : Prop where
  keys : (entries.map NodeEntry.nodeKey).Nodup
  generations : (entries.map NodeEntry.generation).Nodup

theorem Independent.cons (independent : Independent (entry :: rest)) :
    Independent rest ∧ ∀ other ∈ rest, other.nodeKey ≠ entry.nodeKey ∧
      other.generation ≠ entry.generation := by
  obtain ⟨freshKey, keys⟩ := List.nodup_cons.mp independent.keys
  obtain ⟨freshGeneration, generations⟩ := List.nodup_cons.mp independent.generations
  refine ⟨⟨keys, generations⟩, fun other member => ⟨fun same => ?_, fun same => ?_⟩⟩
  · exact freshKey (same ▸ List.mem_map_of_mem member)
  · exact freshGeneration (same ▸ List.mem_map_of_mem member)

theorem Evicted.evictable {before after : Store} {other : NodeEntry}
    (evicted : Evicted entry before after)
    (apart : other.nodeKey ≠ entry.nodeKey ∧ other.generation ≠ entry.generation)
    (present : Evictable before other) : Evictable after other where
  pointer := by
    rw [evicted.pointer, if_neg apart.1]
    exact present.pointer
  directory := by
    rw [evicted.generation, if_neg apart.2]
    exact present.directory

/-- After a run of evictions; a dry run leaves the store as it is. -/
structure EvictedAll (dryRun : Bool) (evicted : List NodeEntry) (before after : World) : Prop where
  dry : dryRun = true → after = before
  pointer : dryRun = false → ∀ nodeKey, after.store.pointer nodeKey =
    if nodeKey ∈ evicted.map NodeEntry.nodeKey then none else before.store.pointer nodeKey
  generation : dryRun = false → ∀ generation, after.store.generation generation =
    if generation ∈ evicted.map NodeEntry.generation then none else before.store.generation generation

theorem EvictedAll.nil (dryRun : Bool) (world : World) : EvictedAll dryRun [] world world where
  dry _ := rfl
  pointer _ nodeKey := by simp
  generation _ generation := by simp

theorem EvictedAll.cons {dryRun : Bool} {evicted : List NodeEntry} {before middle after : World}
    (dry : dryRun = true → middle = before)
    (real : dryRun = false → Evicted entry before.store middle.store)
    (all : EvictedAll dryRun evicted middle after) :
    EvictedAll dryRun (entry :: evicted) before after where
  dry isDry := (all.dry isDry).trans (dry isDry)
  pointer isReal nodeKey := by
    rw [all.pointer isReal, (real isReal).pointer, List.map_cons]
    by_cases here : nodeKey = entry.nodeKey <;> simp [here]
  generation isReal generation := by
    rw [all.generation isReal, (real isReal).generation, List.map_cons]
    by_cases here : generation = entry.generation <;> simp [here]

theorem evictEntries_ok (independent : Independent entries) (world : World)
    (present : arguments.dryRun = false → ∀ entry ∈ entries, Evictable world.store entry)
    (evictedKeys removed passedKeys : List String) (totals : Totals) :
    ∃ world', evictEntries arguments quotaTriggered entries
        ⟨world, evictedKeys, removed, passedKeys, totals⟩ = .ok ⟨world',
          evictedKeys ++
            (evictionPlan arguments quotaTriggered entries totals).1.map NodeEntry.nodeKey,
          removed ++
            (evictionPlan arguments quotaTriggered entries totals).1.map NodeEntry.generation,
          passedKeys ++
            (evictionPlan arguments quotaTriggered entries totals).2.map NodeEntry.nodeKey,
          (evictionPlan arguments quotaTriggered entries totals).1.foldl Totals.without totals⟩ ∧
      EvictedAll arguments.dryRun (evictionPlan arguments quotaTriggered entries totals).1 world
        world' := by
  induction entries generalizing world evictedKeys removed passedKeys totals with
  | nil => exact ⟨world, by simp [evictEntries, evictionPlan], EvictedAll.nil _ _⟩
  | cons entry rest ih =>
      obtain ⟨independent, apart⟩ := independent.cons
      unfold evictEntries evictionPlan
      by_cases exceeded : ¬ arguments.overLimit quotaTriggered totals
      · rw [if_pos exceeded, if_pos exceeded]
        exact ⟨world, by simp, EvictedAll.nil _ _⟩
      · rw [if_neg exceeded, if_neg exceeded]
        cases kept : entry.isProtected with
        | true =>
            obtain ⟨world', run, all⟩ := ih independent world
              (fun real other member => present real other (List.mem_cons_of_mem _ member))
              evictedKeys removed (passedKeys ++ [entry.nodeKey]) totals
            exact ⟨world', by simpa using run, all⟩
        | false =>
            have step : ∃ middle, unlessDry arguments.dryRun (evictNode entry) world = .ok middle ∧
                (arguments.dryRun = true → middle = world) ∧
                (arguments.dryRun = false → Evicted entry world.store middle.store) := by
              cases isDry : arguments.dryRun with
              | true => exact ⟨world, rfl, fun _ => rfl, nofun⟩
              | false =>
                  obtain ⟨middle, run, evicted⟩ :=
                    evictNode_ok (present isDry entry List.mem_cons_self)
                  exact ⟨middle, run, nofun, fun _ => evicted⟩
            obtain ⟨middle, first, dry, real⟩ := step
            have still : arguments.dryRun = false → ∀ other ∈ rest, Evictable middle.store other :=
              fun isReal other member => (real isReal).evictable (apart other member)
                (present isReal other (List.mem_cons_of_mem _ member))
            obtain ⟨world', run, all⟩ := ih independent middle still
              (evictedKeys ++ [entry.nodeKey]) (removed ++ [entry.generation]) passedKeys
              (totals.without entry)
            refine ⟨world', ?_, EvictedAll.cons dry real all⟩
            simp only [first, bind, Except.bind]
            simpa using run

end Gambit.FactorStore
