import Gambit.FactorStore.CollectionCrashes
import Gambit.FactorStore.EvictionPlans

/-!
# Evictions that are interrupted

`evict_factor_nodes` unlinks the pointer of a node before it removes the
generation, so a process that dies leaves no pointer to nothing.  It flushes
only at the end: a loss of power before that can bring back the pointers of the
evicted nodes, and of no others.
-/

set_option autoImplicit false

namespace Gambit.FactorStore

open Raising PowerLoss

variable {environment : Environment} {arguments : EvictArguments} {start store store' stopped : Store}
  {world world' : World} {current generation nodeKey : String} {entry : NodeEntry}
  {entries evicted rest : List NodeEntry} {log : List Operation}

/-! ## The calls of an eviction -/

/-- What is removed with a node besides its pointer and its generation. -/
inductive Housekeeping : Operation → Prop where
  | leases (generation : String) : Housekeeping (.removeLeaseDirectory generation)
  | metadata (kind : MetadataKind) (name : String) : Housekeeping (.unlinkMetadata kind name)

/-- The calls that evict some nodes, one node after the other. -/
inductive Removals : List NodeEntry → List Operation → Prop where
  | nil : Removals [] []
  | cons {entry : NodeEntry} {rest : List NodeEntry} {housekeeping log : List Operation}
      (minor : ∀ operation ∈ housekeeping, Housekeeping operation) (onward : Removals rest log) :
      Removals (entry :: rest) (.unlinkNode entry.nodeKey :: .removeGeneration entry.generation ::
        (housekeeping ++ log))

theorem Removals.append {first second : List NodeEntry} {log' : List Operation}
    (removals : Removals first log) (later : Removals second log') :
    Removals (first ++ second) (log ++ log') := by
  induction removals with
  | nil => exact later
  | cons minor _ ih =>
      rw [List.cons_append, List.cons_append, List.cons_append, List.append_assoc]
      exact .cons minor ih

theorem perform_log {operation : Operation} (done : perform operation world = .ok world') :
    world'.performed = world.performed ++ [operation] := by
  rw [perform_effect done]

theorem removeEmptyLeaseDirectory_log (done : removeEmptyLeaseDirectory generation world = .ok world') :
    ∃ housekeeping, world'.performed = world.performed ++ housekeeping ∧
      ∀ operation ∈ housekeeping, Housekeeping operation := by
  unfold removeEmptyLeaseDirectory at done
  split at done
  · split at done
    · refine ⟨_, perform_log done, fun operation member => ?_⟩
      rw [List.mem_singleton.mp member]
      exact .leases generation
    · cases done
      exact ⟨[], (List.append_nil _).symm, by simp⟩
  · cases done
    exact ⟨[], (List.append_nil _).symm, by simp⟩

theorem evictMetadata_log (done : evictMetadata nodeKey world = .ok world') :
    ∃ housekeeping, world'.performed = world.performed ++ housekeeping ∧
      ∀ operation ∈ housekeeping, Housekeeping operation := by
  unfold evictMetadata at done
  refine foldlM_ok (P := fun _ (now : World) => ∃ housekeeping,
    now.performed = world.performed ++ housekeeping ∧ ∀ operation ∈ housekeeping, Housekeeping operation)
    (fun _ kind now next _ so step => ?_) ⟨[], (List.append_nil _).symm, by simp⟩ done
  obtain ⟨housekeeping, same, minor⟩ := so
  split at step
  · refine ⟨housekeeping ++ [.unlinkMetadata kind (nodeKey ++ ".json")], ?_, ?_⟩
    · rw [perform_log step, same, List.append_assoc]
    · intro operation member
      rcases List.mem_append.mp member with earlier | last
      · exact minor operation earlier
      · rw [List.mem_singleton.mp last]
        exact .metadata kind _
  · cases step
    exact ⟨housekeeping, same, minor⟩

theorem evictNode_log (done : evictNode entry world = .ok world') :
    ∃ log, world'.performed = world.performed ++ log ∧ Removals [entry] log := by
  unfold evictNode at done
  obtain ⟨unindexed, unlinked, done⟩ := bind_ok.mp done
  obtain ⟨removed, gone, done⟩ := bind_ok.mp done
  obtain ⟨released, leases, done⟩ := bind_ok.mp done
  obtain ⟨first, afterLeases, minor⟩ := removeEmptyLeaseDirectory_log leases
  obtain ⟨second, afterMetadata, minor'⟩ := evictMetadata_log done
  refine ⟨_, ?_, @Removals.cons entry [] (first ++ second) [] ?_ .nil⟩
  · rw [afterMetadata, afterLeases, perform_log gone, perform_log unlinked]
    simp
  · intro operation member
    exact (List.mem_append.mp member).elim (minor operation) (minor' operation)

theorem evictEntries_log {quotaTriggered : Bool} {state state' : Evicting} (real : arguments.dryRun = false)
    (done : evictEntries arguments quotaTriggered entries state = .ok state') :
    ∃ log, state'.world.performed = state.world.performed ++ log ∧
      Removals (evictionPlan arguments quotaTriggered entries state.totals).1 log := by
  induction entries generalizing state with
  | nil =>
      cases done
      exact ⟨[], (List.append_nil _).symm, .nil⟩
  | cons entry rest ih =>
      unfold evictEntries at done
      unfold evictionPlan
      split at done
      · rename_i within
        cases done
        rw [if_pos within]
        exact ⟨[], (List.append_nil _).symm, .nil⟩
      · rename_i exceeded
        rw [if_neg exceeded]
        split at done
        · rename_i kept
          rw [if_pos kept]
          obtain ⟨log, here, removals⟩ := ih done
          exact ⟨log, here, removals⟩
        · rename_i free
          rw [if_neg free]
          obtain ⟨middle, first, done⟩ := bind_ok.mp done
          rw [unlessDry, real] at first
          obtain ⟨log, here, removals⟩ := evictNode_log first
          obtain ⟨later, after, onward⟩ := ih done
          refine ⟨log ++ later, ?_, removals.append onward⟩
          rw [after, here, List.append_assoc]

theorem flushEvicted_log (done : flushEvicted world = .ok world') :
    ∃ later, world'.performed = world.performed ++ .fsync .nodes :: later ∧
      ∀ operation ∈ later, ∃ directory, operation = .fsync directory := by
  unfold flushEvicted at done
  obtain ⟨first, nodes, done⟩ := bind_ok.mp done
  obtain ⟨second, generations, done⟩ := bind_ok.mp done
  have loop := foldlM_ok (P := fun _ (now : World) => ∃ later,
    now.performed = second.performed ++ later ∧
      ∀ operation ∈ later, ∃ directory, operation = .fsync directory)
    (fun _ kind now next _ so step => by
      obtain ⟨later, same, flushes⟩ := so
      split at step
      · split at step
        · cases step
          exact ⟨later, same, flushes⟩
        · refine ⟨later ++ [.fsync (.metadata kind)], ?_, fun operation member => ?_⟩
          · rw [perform_log step, same, List.append_assoc]
          · rcases List.mem_append.mp member with earlier | last
            · exact flushes operation earlier
            · exact ⟨_, List.mem_singleton.mp last⟩
      · cases step
        exact ⟨later, same, flushes⟩) ⟨[], (List.append_nil _).symm, by simp⟩ done
  obtain ⟨later, same, flushes⟩ := loop
  refine ⟨.fsync .generations :: later, ?_, fun operation member => ?_⟩
  · rw [same, perform_log generations, perform_log nodes]
    simp
  · rcases List.mem_cons.mp member with first | last
    · exact ⟨_, first⟩
    · exact flushes operation last

/-- What a call that returned has found and done. -/
structure Performed (environment : Environment) (arguments : EvictArguments) (store : Store)
    (report : EvictReport) (log : List Operation) : Prop where
  plan : ∃ current entries, store.currentGeneration = .ok current ∧
    scanNodes environment current store = .ok entries ∧
    report = plannedReport arguments (totalsBefore environment store entries) entries ∧
    (arguments.dryRun = true → log = []) ∧
    (arguments.dryRun = false → ∃ removals flush, log = removals ++ flush ∧
      Removals (plannedNodes arguments (totalsBefore environment store entries) entries) removals ∧
      (flush = [] ∧ plannedNodes arguments (totalsBefore environment store entries) entries = [] ∨
        ∃ later, flush = .fsync .nodes :: later ∧
          ∀ operation ∈ later, ∃ directory, operation = .fsync directory))

theorem evictFactorNodes_performed {report : EvictReport} {after : World}
    (done : evictFactorNodes environment arguments store = .ok (report, after)) :
    Performed environment arguments store report after.performed := by
  unfold evictFactorNodes at done
  obtain ⟨_, -, done⟩ := bind_ok.mp done
  have run := done
  unfold evictLocked at done
  obtain ⟨current, pointed, done⟩ := bind_ok.mp done
  obtain ⟨entries, scanned, done⟩ := bind_ok.mp done
  obtain ⟨state, emptied, done⟩ := bind_ok.mp done
  have found : store.currentGeneration = .ok current := raiseIn_ok.mp pointed
  have listed : scanNodes environment current store = .ok entries := raiseIn_ok.mp scanned
  obtain ⟨after', planned, all⟩ := evictLocked_ok arguments (raiseIn_ok.mp pointed) (raiseIn_ok.mp scanned)
  rw [run] at planned
  obtain ⟨rfl, rfl⟩ := Prod.mk.inj (Except.ok.inj planned)
  refine ⟨current, entries, found, listed, rfl, fun dry => ?_, fun real => ?_⟩
  · rw [all.dry dry]
  · obtain ⟨removals, same, shape⟩ := evictEntries_log real emptied
    simp only at done same shape
    split at done
    · rename_i none
      obtain ⟨reported, rfl⟩ := Prod.mk.inj (Except.ok.inj done)
      have keys := congrArg EvictReport.evictedNodeKeys reported
      refine ⟨removals, [], ?_, shape, .inl ⟨rfl, ?_⟩⟩
      · rw [same, List.append_nil, List.nil_append]
      · exact List.map_eq_nil_iff.mp (keys.symm.trans none)
    · obtain ⟨world, flushed, done⟩ := bind_ok.mp done
      cases (Prod.mk.inj (Except.ok.inj done)).2
      rw [unlessDry, real] at flushed
      obtain ⟨later, last, flushes⟩ := flushEvicted_log flushed
      refine ⟨removals, .fsync .nodes :: later, ?_, shape, .inr ⟨later, rfl, flushes⟩⟩
      rw [last, same, List.nil_append]

/-! ## Pointers and their generations -/

theorem scanNode_pointed (listed : scanNode environment current store nodeKey = .ok (some entry)) :
    store.requireNodePointer entry.nodeKey = .ok entry.generation := by
  unfold scanNode at listed
  rcases permit_ok.mp listed with ⟨-, none⟩ | ⟨-, listed⟩
  · cases none
  obtain ⟨-, listed⟩ := refuse_ok.mp listed
  obtain ⟨generation, pointed, listed⟩ := bind_ok.mp listed
  obtain ⟨_, -, listed⟩ := bind_ok.mp listed
  obtain ⟨-, listed⟩ := refuse_ok.mp listed
  obtain ⟨_, -, listed⟩ := bind_ok.mp listed
  obtain ⟨_, -, listed⟩ := bind_ok.mp listed
  cases listed
  exact pointed

theorem scanNode_visible {found : Option NodeEntry}
    (listed : scanNode environment current store nodeKey = .ok found) (visible : startsWith "." nodeKey = false) :
    ∃ entry, found = some entry := by
  unfold scanNode at listed
  rw [if_neg (by simp [visible])] at listed
  obtain ⟨-, listed⟩ := refuse_ok.mp listed
  obtain ⟨_, -, listed⟩ := bind_ok.mp listed
  obtain ⟨_, -, listed⟩ := bind_ok.mp listed
  obtain ⟨-, listed⟩ := refuse_ok.mp listed
  obtain ⟨_, -, listed⟩ := bind_ok.mp listed
  obtain ⟨_, -, listed⟩ := bind_ok.mp listed
  cases listed
  exact ⟨_, rfl⟩

/-- The entries of a scan are the pointers that resolve. -/
theorem scanNodes_lists (scanned : scanNodes environment current store = .ok entries) :
    store.requireNodePointer nodeKey = .ok generation ↔
      ∃ entry ∈ entries, entry.nodeKey = nodeKey ∧ entry.generation = generation := by
  unfold scanNodes at scanned
  split at scanned
  · cases scanned
  · rename_i missing
    cases scanned
    refine ⟨fun pointed => ?_, by simp⟩
    obtain ⟨stat, found⟩ := requireNodePointer_ok pointed
    rw [Store.pointer, missing] at found
    cases found
  · rename_i blocks pointers index
    have listed := foldlM_ok (P := fun done (entries : List NodeEntry) =>
      (∀ entry ∈ entries, store.requireNodePointer entry.nodeKey = .ok entry.generation) ∧
        ∀ nodeKey ∈ done, startsWith "." nodeKey = false → ∃ entry ∈ entries, entry.nodeKey = nodeKey)
      (fun done nodeKey entries entries' _ now step => by
        obtain ⟨pointed, all⟩ := now
        obtain ⟨found, here, step⟩ := bind_ok.mp step
        cases step
        refine ⟨fun entry member => ?_, fun key member visible => ?_⟩
        · rcases List.mem_append.mp member with earlier | last
          · exact pointed entry earlier
          · rw [Option.mem_toList] at last
            cases last
            exact scanNode_pointed here
        · rcases List.mem_append.mp member with earlier | last
          · obtain ⟨entry, inside, same⟩ := all key earlier visible
            exact ⟨entry, List.mem_append_left _ inside, same⟩
          · rw [List.mem_singleton.mp last] at visible ⊢
            obtain ⟨entry, rfl⟩ := scanNode_visible here visible
            exact ⟨entry, by simp, (scanNode_ok here entry rfl).1⟩)
      ⟨by simp, by simp⟩ scanned
    constructor
    · intro pointed
      obtain ⟨stat, found⟩ := requireNodePointer_ok pointed
      rw [Store.pointer, index] at found
      have hex := pointed
      unfold Store.requireNodePointer at hex
      have visible := isHex_undotted "." (not_not.mp (refuse_ok.mp hex).1) rfl
      obtain ⟨entry, member, rfl⟩ := listed.2 nodeKey (OrderedDict.mem_keys_of_get? found) visible
      have same := listed.1 entry member
      rw [pointed] at same
      exact ⟨entry, member, rfl, (Except.ok.inj same).symm⟩
    · rintro ⟨entry, member, rfl, rfl⟩
      exact listed.1 entry member

/-- The pointer of a node names a generation that is not as it was. -/
def Dangles (before after : Store) (nodeKey : String) : Prop :=
  ∃ generation, after.requireNodePointer nodeKey = .ok generation ∧
    after.generation generation ≠ before.generation generation

/-- Nodes whose generations are named by their own pointers only, and held by nobody. -/
structure Removable (start : Store) (evicted : List NodeEntry) : Prop where
  free : ∀ entry ∈ evicted, start.currentGeneration ≠ .ok entry.generation ∧
    start.leased entry.generation = false
  pointed : ∀ entry ∈ evicted, start.requireNodePointer entry.nodeKey = .ok entry.generation
  own : ∀ entry ∈ evicted, ∀ nodeKey, start.requireNodePointer nodeKey = .ok entry.generation →
    nodeKey = entry.nodeKey
  present : ∀ entry ∈ evicted, start.generation entry.generation ≠ none
  distinct : (evicted.map NodeEntry.nodeKey).Nodup

theorem Removable.tail (removable : Removable start (entry :: rest)) : Removable start rest where
  free other member := removable.free other (List.mem_cons_of_mem _ member)
  pointed other member := removable.pointed other (List.mem_cons_of_mem _ member)
  own other member := removable.own other (List.mem_cons_of_mem _ member)
  present other member := removable.present other (List.mem_cons_of_mem _ member)
  distinct := (List.nodup_cons.mp removable.distinct).2

theorem plannedNodes_removable (pointed : store.currentGeneration = .ok current)
    (scanned : scanNodes environment current store = .ok entries) (before : Totals) :
    Removable store (plannedNodes arguments before entries) := by
  have sub : (plannedNodes arguments before entries).Sublist
      ((sortedEntries entries).filter fun entry => !entry.isProtected) :=
    (plannedNodes_shortest arguments before entries).isPrefix.sublist
  have each : ∀ entry ∈ plannedNodes arguments before entries, entry ∈ entries ∧ entry.isProtected = false := by
    intro entry member
    obtain ⟨inside, free⟩ := List.mem_filter.mp (sub.subset member)
    exact ⟨(sortedEntries_perm entries).mem_iff.mp inside, by simpa using free⟩
  obtain ⟨-, known⟩ := scanNodes_ok scanned
  refine ⟨fun entry member => ?_, fun entry member => ?_, fun entry member nodeKey named => ?_,
    fun entry member => ?_, ?_⟩
  · have free := (known entry (each entry member).1).isProtected
    rw [(each entry member).2, eq_comm, Bool.or_eq_false_iff, decide_eq_false_iff_not] at free
    refine ⟨fun isCurrent => free.1 ?_, free.2⟩
    rw [pointed] at isCurrent
    exact (Except.ok.inj isCurrent).symm
  · exact (scanNodes_lists scanned).mpr ⟨entry, (each entry member).1, rfl, rfl⟩
  · obtain ⟨other, inside, rfl, same⟩ := (scanNodes_lists scanned).mp named
    exact (known other inside).same_key (known entry (each entry member).1) same
  · obtain ⟨contents, present⟩ := (known entry (each entry member).1).directory
    rw [present]
    exact Option.some_ne_none _
  · exact (scanned_independent scanned).keys.sublist
      ((sub.trans List.filter_sublist).map NodeEntry.nodeKey)

/-! ## Death of the process -/

/-- No pointer has been made, and those left name what they named. -/
structure Standing (start now : Store) : Prop where
  pointer : ∀ nodeKey, now.pointer nodeKey = start.pointer nodeKey ∨ now.pointer nodeKey = none
  sound : ∀ nodeKey, ¬ Dangles start now nodeKey

theorem pointed_of_left (left : store.pointer nodeKey = start.pointer nodeKey ∨ store.pointer nodeKey = none)
    (pointed : store.requireNodePointer nodeKey = .ok generation) :
    start.requireNodePointer nodeKey = .ok generation := by
  rcases left with same | gone
  · rw [← requireNodePointer_congr same]
    exact pointed
  · obtain ⟨stat, found⟩ := requireNodePointer_ok pointed
    rw [gone] at found
    cases found

theorem Standing.unlinked (standing : Standing start store) (nodeKey : String) :
    Standing start ((Operation.unlinkNode nodeKey).effect store) := by
  have left : ∀ key, ((Operation.unlinkNode nodeKey).effect store).pointer key =
      if key = nodeKey then none else store.pointer key := fun key => pointer_erase
  refine ⟨fun key => ?_, ?_⟩
  · rw [left key]
    by_cases here : key = nodeKey
    · exact .inr (if_pos here)
    · rw [if_neg here]
      exact standing.pointer key
  · rintro key ⟨generation, pointed, changed⟩
    refine standing.sound key ⟨generation, ?_, changed⟩
    by_cases here : key = nodeKey
    · obtain ⟨stat, found⟩ := requireNodePointer_ok pointed
      rw [left key, if_pos here] at found
      cases found
    · rw [← requireNodePointer_congr ((left key).trans (if_neg here))]
      exact pointed

/-- A generation changes that no pointer names. -/
theorem Standing.changed (standing : Standing start store)
    (unnamed : ∀ nodeKey, store.requireNodePointer nodeKey ≠ .ok generation)
    (pointers : store'.pointer = store.pointer)
    (elsewhere : ∀ other, other ≠ generation → store'.generation other = store.generation other) :
    Standing start store' := by
  refine ⟨fun nodeKey => ?_, ?_⟩
  · rw [pointers]
    exact standing.pointer nodeKey
  · rintro nodeKey ⟨other, pointed, changed⟩
    rw [requireNodePointer_congr (congrFun pointers nodeKey)] at pointed
    have apart : other ≠ generation := by
      rintro rfl
      exact unnamed nodeKey pointed
    rw [elsewhere other apart] at changed
    exact standing.sound nodeKey ⟨other, pointed, changed⟩

theorem Standing.same (standing : Standing start store) (pointers : store'.pointer = store.pointer)
    (generations : store'.generation = store.generation) : Standing start store' := by
  refine ⟨fun nodeKey => ?_, ?_⟩
  · rw [pointers]
    exact standing.pointer nodeKey
  · rintro nodeKey ⟨other, pointed, changed⟩
    rw [requireNodePointer_congr (congrFun pointers nodeKey)] at pointed
    rw [generations] at changed
    exact standing.sound nodeKey ⟨other, pointed, changed⟩

/-- Nothing but a tree removal can be there in part. -/
theorem Torn.eq {operation : Operation} (torn : Torn operation store store')
    (apart : ∀ name, operation ≠ .removeGeneration name) : store' = store := by
  cases torn with
  | nothing => rfl
  | cutShort _ name _ => exact absurd rfl (apart name)

theorem Housekeeping.same {operation : Operation} (minor : Housekeeping operation) (store : Store) :
    (operation.effect store).pointer = store.pointer ∧
      (operation.effect store).generation = store.generation := by
  cases minor with
  | leases generation => exact ⟨rfl, rfl⟩
  | metadata kind name => exact ⟨pointer_unlinkMetadata kind, generation_unlinkMetadata kind⟩

theorem Housekeeping.torn {operation : Operation} (minor : Housekeeping operation)
    (torn : Torn operation store store') : store' = store := by
  apply torn.eq
  cases minor <;> simp

theorem Removals.killed (removals : Removals evicted log) (removable : Removable start evicted)
    (standing : Standing start store) (killed : Killed Operation.effect Torn log store stopped) :
    Standing start stopped := by
  induction removals generalizing store with
  | nil =>
      cases killed
      exact standing
  | @cons entry rest housekeeping log minor _ ih =>
      cases killed with
      | before => exact standing
      | during torn =>
          rw [torn.eq (by simp)]
          exact standing
      | after killed =>
          have unindexed := standing.unlinked entry.nodeKey
          have unnamed : ∀ nodeKey, ((Operation.unlinkNode entry.nodeKey).effect store).requireNodePointer
              nodeKey ≠ .ok entry.generation := by
            intro nodeKey pointed
            have own := removable.own entry List.mem_cons_self nodeKey
              (pointed_of_left (unindexed.pointer nodeKey) pointed)
            obtain ⟨stat, found⟩ := requireNodePointer_ok pointed
            have gone : ((Operation.unlinkNode entry.nodeKey).effect store).pointer nodeKey = none :=
              pointer_erase.trans (if_pos own)
            rw [gone] at found
            cases found
          cases killed with
          | before => exact unindexed
          | during torn =>
              refine unindexed.changed unnamed torn.pointer fun other apart => torn.generation ?_
              rintro ⟨⟩
              exact apart rfl
          | after killed =>
              have removed : Standing start ((Operation.removeGeneration entry.generation).effect
                  ((Operation.unlinkNode entry.nodeKey).effect store)) := by
                refine unindexed.changed unnamed rfl fun other apart => generation_effect ?_
                rintro ⟨⟩
                exact apart rfl
              have whole : ∀ operation ∈ housekeeping, ∀ store, Standing start store →
                  Standing start (operation.effect store) := fun operation member store now =>
                now.same ((minor operation member).same store).1 ((minor operation member).same store).2
              rcases killed.cases_append with early | late
              · refine early.keeps removed whole fun operation member store store' now torn => ?_
                rw [(minor operation member).torn torn]
                exact now
              · exact ih removable.tail (replay_keeps removed whole) late

/-! ## Loss of power -/

theorem Removals.mem (removals : Removals evicted log) {operation : Operation} (member : operation ∈ log) :
    (∃ entry ∈ evicted, operation = .unlinkNode entry.nodeKey ∨
      operation = .removeGeneration entry.generation) ∨ Housekeeping operation := by
  induction removals with
  | nil => cases member
  | @cons entry rest housekeeping log minor _ ih =>
      rcases List.mem_cons.mp member with rfl | member
      · exact .inl ⟨entry, List.mem_cons_self, .inl rfl⟩
      rcases List.mem_cons.mp member with rfl | member
      · exact .inl ⟨entry, List.mem_cons_self, .inr rfl⟩
      rcases List.mem_append.mp member with inside | later
      · exact .inr (minor operation inside)
      · refine (ih later).imp_left ?_
        rintro ⟨other, there, same⟩
        exact ⟨other, List.mem_cons_of_mem _ there, same⟩

/-- Before the calls for a node come those for the nodes before it. -/
theorem Removals.split (removals : Removals evicted log) (member : entry ∈ evicted)
    (distinct : (evicted.map NodeEntry.nodeKey).Nodup) :
    ∃ earlier first later, Removals earlier first ∧
      log = first ++ .unlinkNode entry.nodeKey :: .removeGeneration entry.generation :: later ∧
      ∀ other ∈ earlier, other.nodeKey ≠ entry.nodeKey := by
  induction removals with
  | nil => cases member
  | @cons head rest housekeeping log minor onward ih =>
      obtain ⟨fresh, distinct⟩ := List.nodup_cons.mp distinct
      rcases List.mem_cons.mp member with rfl | inside
      · exact ⟨[], [], _, .nil, rfl, by simp⟩
      · obtain ⟨earlier, first, later, before, rfl, apart⟩ := ih inside distinct
        refine ⟨head :: earlier, _, later, .cons minor before, by simp, fun other there => ?_⟩
        rcases List.mem_cons.mp there with rfl | there
        · intro same
          exact fresh (same ▸ List.mem_map_of_mem inside)
        · exact apart other there

/-- Before a flush the pointer of an evicted node can come back without its generation. -/
theorem Removals.dangles (removals : Removals evicted log) (removable : Removable start evicted)
    (member : entry ∈ evicted) :
    ∃ done stopped, done <+: log ∧
      Crashed Operation.effect Torn MakesDurable done start stopped ∧ Dangles start stopped entry.nodeKey := by
  obtain ⟨earlier, first, later, before, rfl, apart⟩ := removals.split member removable.distinct
  let middle := replay Operation.effect first start
  have pointer : middle.pointer entry.nodeKey = start.pointer entry.nodeKey := by
    refine replay_keeps (P := fun now : Store => now.pointer entry.nodeKey = start.pointer entry.nodeKey) rfl
      fun operation inside now same => (pointer_effect ?_).trans same
    rcases before.mem inside with ⟨other, there, rfl | rfl⟩ | minor
    · intro same
      exact apart other there (Operation.unlinkNode.inj same)
    · simp
    · cases minor <;> simp
  refine ⟨first ++ [.unlinkNode entry.nodeKey, .removeGeneration entry.generation],
    (Operation.removeGeneration entry.generation).effect middle, ⟨later, by simp⟩, ?_, entry.generation, ?_, ?_⟩
  · refine Crashed.after_replay (.part (fun last inside => ?_) (.nothing _ _) (.whole (.done _)))
    rw [List.mem_singleton.mp inside]
    rintro ⟨directory, same, -⟩
    cases same
  · have same : ((Operation.removeGeneration entry.generation).effect middle).pointer entry.nodeKey =
        start.pointer entry.nodeKey := pointer
    rw [requireNodePointer_congr same]
    exact removable.pointed entry member
  · rw [show ((Operation.removeGeneration entry.generation).effect middle).generation entry.generation =
      none from generation_erase.trans (if_pos rfl)]
    exact (removable.present entry member).symm

/-- What is left of the pointers, and of the generations that are not evicted. -/
theorem Removals.interrupted (removals : Removals evicted log) {flush : List Operation}
    (flushes : ∀ operation ∈ flush, ∃ directory, operation = .fsync directory)
    (interrupted : Interrupted (log ++ flush) start stopped) :
    stopped.current = start.current ∧
      (∀ nodeKey, stopped.pointer nodeKey = start.pointer nodeKey ∨ stopped.pointer nodeKey = none) ∧
      ∀ generation, (∀ entry ∈ evicted, entry.generation ≠ generation) →
        stopped.generation generation = start.generation generation := by
  refine ⟨?_, fun nodeKey => ?_, fun generation apart => ?_⟩
  · exact interrupted.keeps (P := fun now => now.current = start.current) rfl
      (fun operation _ now same => (current_effect operation now).trans same)
      fun operation _ now next same torn => torn.current.trans same
  · refine interrupted.keeps (P := fun now => now.pointer nodeKey = start.pointer nodeKey ∨
      now.pointer nodeKey = none) (.inl rfl) (fun operation _ now left => ?_)
      fun operation _ now next left torn => ?_
    · by_cases here : operation = .unlinkNode nodeKey
      · subst here
        exact .inr (pointer_erase.trans (if_pos rfl))
      · rw [pointer_effect here]
        exact left
    · rw [torn.pointer]
      exact left
  · have elsewhere : ∀ operation ∈ log ++ flush, operation ≠ .removeGeneration generation := by
      rintro operation member rfl
      rcases List.mem_append.mp member with earlier | last
      · rcases removals.mem earlier with ⟨entry, there, same | same⟩ | minor
        · cases same
        · exact apart entry there (Operation.removeGeneration.inj same).symm
        · cases minor
      · obtain ⟨directory, same⟩ := flushes _ last
        cases same
    exact interrupted.keeps (P := fun now => now.generation generation = start.generation generation) rfl
      (fun operation member now same => (generation_effect (elsewhere operation member)).trans same)
      fun operation member now next same torn => (torn.generation (elsewhere operation member)).trans same

/-- Once the index has been flushed, the pointers of the evicted nodes do not come back. -/
theorem Removals.durable (removals : Removals evicted log) {later : List Operation}
    (distinct : (evicted.map NodeEntry.nodeKey).Nodup) (member : entry ∈ evicted)
    (crashed : Crashed Operation.effect Torn MakesDurable (log ++ .fsync .nodes :: later) start stopped) :
    stopped.pointer entry.nodeKey = none := by
  obtain ⟨_, first, rest, -, rfl, -⟩ := removals.split member distinct
  rw [List.append_assoc, List.cons_append] at crashed
  refine crashed.flushed (P := fun now => now.pointer entry.nodeKey = none)
    ⟨.fsync .nodes, by simp, .nodes, rfl, rfl⟩ (fun now => pointer_erase.trans (if_pos rfl))
    (fun operation _ now gone => ?_) fun operation _ now next gone torn => ?_
  · by_cases here : operation = .unlinkNode entry.nodeKey
    · subst here
      exact pointer_erase.trans (if_pos rfl)
    · rw [pointer_effect here]
      exact gone
  · rw [torn.pointer]
    exact gone

/-! ## Evictions -/

/-- What a call does: it evicts some nodes, then flushes. -/
theorem Performed.removals {report : EvictReport} {log : List Operation}
    (performed : Performed environment arguments store report log) :
    ∃ evicted removals flush, log = removals ++ flush ∧ Removals evicted removals ∧
      Removable store.locked evicted ∧
      (∀ nodeKey, nodeKey ∈ evicted.map NodeEntry.nodeKey ↔
        arguments.dryRun = false ∧ nodeKey ∈ report.evictedNodeKeys) ∧
      (∀ operation ∈ flush, ∃ directory, operation = .fsync directory) ∧
      (evicted = [] ∨ ∃ later, flush = .fsync .nodes :: later) := by
  obtain ⟨current, entries, pointed, scanned, rfl, dry, real⟩ := performed.plan
  cases isDry : arguments.dryRun with
  | true =>
      rw [dry isDry]
      exact ⟨[], [], [], rfl, .nil, ⟨by simp, by simp, by simp, by simp, List.nodup_nil⟩, by simp, by simp,
        .inl rfl⟩
  | false =>
      obtain ⟨removals, flush, rfl, shape, flushed⟩ := real isDry
      have removable : Removable store.locked (plannedNodes arguments
          (totalsBefore environment store entries) entries) :=
        @plannedNodes_removable environment arguments store.locked current entries pointed scanned _
      refine ⟨_, removals, flush, rfl, shape, removable, fun nodeKey => by simp [plannedReport, plannedNodes],
        ?_, ?_⟩
      · rcases flushed with ⟨rfl, -⟩ | ⟨later, rfl, each⟩
        · simp
        · intro operation member
          rcases List.mem_cons.mp member with first | last
          · exact ⟨_, first⟩
          · exact each operation last
      · rcases flushed with ⟨-, none⟩ | ⟨later, same, -⟩
        · exact .inl none
        · exact .inr ⟨later, same⟩

theorem Removable.kept (removable : Removable start evicted)
    (held : start.currentGeneration = .ok generation ∨ start.leased generation = true) :
    ∀ entry ∈ evicted, entry.generation ≠ generation := by
  rintro entry member rfl
  obtain ⟨free, unleased⟩ := removable.free entry member
  rcases held with isCurrent | leased
  · exact free isCurrent
  · rw [unleased] at leased
    cases leased

/-- The calls of an eviction, however it ends. -/
theorem evictFactorNodes_shape (environment : Environment) (arguments : EvictArguments) (store : Store) :
    ∃ evicted removals flush, (worldOf (evictFactorNodes environment arguments store)).performed = removals ++ flush ∧
      Removals evicted removals ∧ Removable store.locked evicted ∧
      ∀ operation ∈ flush, ∃ directory, operation = .fsync directory := by
  cases run : evictFactorNodes environment arguments store with
  | error raised =>
      refine ⟨[], [], [], ?_, .nil, ⟨by simp, by simp, by simp, by simp, List.nodup_nil⟩, by simp⟩
      simp only [worldOf]
      rcases evictFactorNodes_error run with unchanged | unchanged <;> rw [unchanged] <;> rfl
  | ok outcome =>
      obtain ⟨report, after⟩ := outcome
      obtain ⟨evicted, removals, flush, log, shape, removable, -, flushes, -⟩ :=
        (evictFactorNodes_performed run).removals
      simp only [worldOf]
      exact ⟨evicted, removals, flush, log, shape, removable, flushes⟩

/-- An eviction whose process dies leaves no pointer to a missing generation. -/
theorem evictions_killed (environment : Environment) (arguments : EvictArguments) (store : Store) :
    let world := worldOf (evictFactorNodes environment arguments store)
    ∀ stopped, Killed Operation.effect Torn world.performed store.locked stopped →
      stopped.current = store.current ∧
      (∀ nodeKey, stopped.pointer nodeKey = store.pointer nodeKey ∨ stopped.pointer nodeKey = none) ∧
      (∀ nodeKey, ¬ Dangles store stopped nodeKey) ∧
      ∀ generation, store.currentGeneration = .ok generation ∨ store.leased generation = true →
        stopped.generation generation = store.generation generation := by
  intro world stopped killed
  have same : Standing store.locked store.locked :=
    ⟨fun _ => .inl rfl, fun _ dangles => by obtain ⟨_, _, changed⟩ := dangles; exact changed rfl⟩
  obtain ⟨evicted, removals, flush, log, shape, removable, flushes⟩ := evictFactorNodes_shape environment arguments store
  rw [log] at killed
  obtain ⟨current, pointer, generation⟩ := shape.interrupted flushes (.inl killed)
  refine ⟨current, pointer, ?_, fun name held => generation name (removable.kept held)⟩
  rcases killed.cases_append with early | late
  · exact (shape.killed removable same early).sound
  · refine (late.keeps (shape.killed removable same (.replayed removals store.locked))
      (fun operation member now standing => ?_) fun operation member now next standing torn => ?_).sound
    · obtain ⟨directory, rfl⟩ := flushes operation member
      exact standing
    · obtain ⟨directory, rfl⟩ := flushes operation member
      rw [torn.eq (by simp)]
      exact standing

/-- A loss of power can leave a pointer to a missing generation for each node that is evicted and
for no other, and for none once the eviction has returned. -/
theorem evictions_lose_power {report : EvictReport} {after : World}
    (done : evictFactorNodes environment arguments store = .ok (report, after)) :
    (∀ stopped, Crashed Operation.effect Torn MakesDurable after.performed store.locked stopped →
      ∀ nodeKey, ¬ Dangles store stopped nodeKey) ∧
    (∀ nodeKey, (∃ log stopped, log <+: after.performed ∧
        Crashed Operation.effect Torn MakesDurable log store.locked stopped ∧ Dangles store stopped nodeKey) ↔
      arguments.dryRun = false ∧ nodeKey ∈ report.evictedNodeKeys) ∧
    ∀ log stopped, log <+: after.performed →
      Crashed Operation.effect Torn MakesDurable log store.locked stopped → stopped.current = store.current ∧
      ∀ generation, store.currentGeneration = .ok generation ∨ store.leased generation = true →
        stopped.generation generation = store.generation generation := by
  obtain ⟨evicted, removals, flush, performed, shape, removable, keys, flushes, flushed⟩ :=
    (evictFactorNodes_performed done).removals
  rw [performed]
  have frame : ∀ log stopped, log <+: removals ++ flush →
      Crashed Operation.effect Torn MakesDurable log store.locked stopped → _ := fun log stopped earlier crashed =>
    shape.interrupted flushes (.inr ⟨log, earlier, crashed⟩)
  have onlyEvicted : ∀ log stopped nodeKey, log <+: removals ++ flush →
      Crashed Operation.effect Torn MakesDurable log store.locked stopped → Dangles store stopped nodeKey →
      nodeKey ∈ evicted.map NodeEntry.nodeKey := by
    intro log stopped nodeKey earlier crashed dangles
    obtain ⟨generation, pointed, changed⟩ := dangles
    obtain ⟨-, pointer, others⟩ := frame log stopped earlier crashed
    by_contra notEvicted
    refine changed (others generation ?_)
    rintro entry member rfl
    have own := removable.own entry member nodeKey (pointed_of_left (pointer nodeKey) pointed)
    exact notEvicted (own ▸ List.mem_map_of_mem member)
  refine ⟨fun stopped crashed nodeKey dangles => ?_, fun nodeKey => ⟨?_, fun isEvicted => ?_⟩,
    fun log stopped earlier crashed => ?_⟩
  · have member := onlyEvicted _ stopped nodeKey (List.prefix_refl _) crashed dangles
    obtain ⟨entry, inside, rfl⟩ := List.mem_map.mp member
    rcases flushed with rfl | ⟨later, rfl⟩
    · cases inside
    · obtain ⟨generation, pointed, -⟩ := dangles
      obtain ⟨stat, found⟩ := requireNodePointer_ok pointed
      rw [shape.durable removable.distinct inside crashed] at found
      cases found
  · rintro ⟨log, stopped, earlier, crashed, dangles⟩
    exact (keys nodeKey).mp (onlyEvicted log stopped nodeKey earlier crashed dangles)
  · obtain ⟨entry, inside, rfl⟩ := List.mem_map.mp ((keys nodeKey).mpr isEvicted)
    obtain ⟨log, stopped, earlier, crashed, dangles⟩ := shape.dangles removable inside
    exact ⟨log, stopped, earlier.trans (List.prefix_append _ _), crashed, dangles⟩
  · obtain ⟨current, -, others⟩ := frame log stopped earlier crashed
    exact ⟨current, fun generation held => others generation (removable.kept held)⟩

/-- The loss of power between the removal of a generation and the flush of the index. -/
theorem evictions_lose_power_oneNode :
    ∃ log stopped, Crashed Operation.effect Torn MakesDurable log (sparseStore 700).locked stopped ∧
      Dangles (sparseStore 700) stopped (keyOf 'a') := by
  have run : ∃ report after, evictFactorNodes machine noBytes (sparseStore 700) = .ok (report, after) ∧
      keyOf 'a' ∈ report.evictedNodeKeys := by
    refine ⟨_, _, rfl, ?_⟩
    decide +kernel
  obtain ⟨report, after, done, isEvicted⟩ := run
  obtain ⟨log, stopped, -, crashed, dangles⟩ :=
    ((evictions_lose_power done).2.1 (keyOf 'a')).mpr ⟨rfl, isEvicted⟩
  exact ⟨log, stopped, crashed, dangles⟩

end Gambit.FactorStore
