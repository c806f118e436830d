import Gambit.FactorStore.DryRuns
import Gambit.FactorStore.EvictionOrder

/-!
# What an eviction does

The report of `evict_factor_nodes` follows from the scan alone, so a dry run
gives the same one; a real run removes what the report lists.
-/

set_option autoImplicit false

namespace Gambit.FactorStore

open Raising SideBySide ShortestPrefix

variable {environment : Environment} {arguments : EvictArguments} {store : Store} {world : World}
  {current : String} {entries : List NodeEntry}

/-- Every active limit holds once these nodes are gone. -/
def WithinLimits (arguments : EvictArguments) (before : Totals) (evicted : List NodeEntry) : Prop :=
  arguments.overLimit (arguments.quotaTriggered before) (evicted.foldl Totals.without before) = false

/-- The report that follows from the entries of a scan. -/
def plannedReport (arguments : EvictArguments) (before : Totals) (entries : List NodeEntry) : EvictReport :=
  let quotaTriggered := arguments.quotaTriggered before
  let plan := evictionPlan arguments quotaTriggered (sortedEntries entries) before
  let after := plan.1.foldl Totals.without before
  ⟨plan.1.map NodeEntry.nodeKey, plan.1.map NodeEntry.generation, plan.2.map NodeEntry.nodeKey, before,
    after, quotaTriggered, !arguments.overLimit quotaTriggered after, arguments.dryRun⟩

/-- The nodes of the plan. -/
def plannedNodes (arguments : EvictArguments) (before : Totals) (entries : List NodeEntry) : List NodeEntry :=
  (evictionPlan arguments (arguments.quotaTriggered before) (sortedEntries entries) before).1

theorem plannedNodes_shortest (arguments : EvictArguments) (before : Totals) (entries : List NodeEntry) :
    Shortest (WithinLimits arguments before) (evictable entries) (plannedNodes arguments before entries) := by
  rw [plannedNodes, evictionPlan_greedy]
  exact greedy_shortest (evictable entries) before

theorem flushEvicted_ok : Flushes flushEvicted := by
  unfold flushEvicted
  refine (Flushes.fsync _).bind ((Flushes.fsync _).bind ?_)
  refine Flushes.foldlM fun kind _ world => ?_
  dsimp only
  split
  · split
    · exact ⟨world, rfl, rfl⟩
    · exact Flushes.fsync (.metadata kind) world
  · exact ⟨world, rfl, rfl⟩

/-- The entries of a scan stand for different nodes and generations, all of them there. -/
theorem scanned_independent (scanned : scanNodes environment current store = .ok entries) :
    Independent (sortedEntries entries) := by
  obtain ⟨keys, each⟩ := scanNodes_ok scanned
  have perm := sortedEntries_perm entries
  have generations : (entries.map NodeEntry.generation).Nodup := by
    refine List.Nodup.map_on (fun first member second member' same => ?_) (List.Nodup.of_map _ keys)
    exact List.inj_on_of_nodup_map keys member member' ((each first member).same_key (each second member') same)
  exact ⟨(perm.map _).nodup_iff.mpr keys, (perm.map _).nodup_iff.mpr generations⟩

theorem scanned_evictable (scanned : scanNodes environment current store = .ok entries) :
    ∀ entry ∈ sortedEntries entries, Evictable store entry := by
  intro entry member
  have here := (scanNodes_ok scanned).2 entry ((sortedEntries_perm entries).mem_iff.mp member)
  obtain ⟨stat, pointer⟩ := here.pointer
  exact ⟨⟨_, pointer⟩, here.directory⟩

theorem evictLocked_ok (arguments : EvictArguments) (pointed : world.store.currentGeneration = .ok current)
    (scanned : scanNodes environment current world.store = .ok entries) :
    ∃ world', evictLocked environment arguments world =
        .ok (plannedReport arguments (totalsBefore environment world.store entries) entries, world') ∧
      EvictedAll arguments.dryRun
        (plannedNodes arguments (totalsBefore environment world.store entries) entries) world world' := by
  let before := totalsBefore environment world.store entries
  obtain ⟨emptied, run, all⟩ := @evictEntries_ok arguments (sortedEntries entries)
    (arguments.quotaTriggered before) (scanned_independent scanned) world
    (fun _ => scanned_evictable scanned) [] [] [] before
  have flushed : ∃ world', (if (plannedReport arguments before entries).evictedNodeKeys = [] then .ok emptied
      else unlessDry arguments.dryRun flushEvicted emptied) = Except.ok world' ∧
        world'.store = emptied.store ∧ (arguments.dryRun = true → world' = emptied) := by
    by_cases none : (plannedReport arguments before entries).evictedNodeKeys = []
    · exact ⟨emptied, if_pos none, rfl, fun _ => rfl⟩
    · rw [if_neg none]
      cases arguments.dryRun with
      | true => exact ⟨emptied, rfl, rfl, fun _ => rfl⟩
      | false =>
          obtain ⟨world', run, same⟩ := flushEvicted_ok emptied
          exact ⟨world', run, same, nofun⟩
  obtain ⟨world', flush, same, dry⟩ := flushed
  refine ⟨world', ?_, ?_, ?_, ?_⟩
  · simp only [List.nil_append] at run
    refine bind_ok.mpr ⟨current, raiseIn_ok.mpr pointed, bind_ok.mpr ⟨entries, raiseIn_ok.mpr scanned, ?_⟩⟩
    refine bind_ok.mpr ⟨_, run, ?_⟩
    dsimp only
    split
    · rename_i none
      have same : emptied = world' := Except.ok.inj ((if_pos none).symm.trans flush)
      rw [same]
      rfl
    · rename_i some
      exact bind_ok.mpr ⟨world', (if_neg some).symm.trans flush, rfl⟩
  · exact fun isDry => (dry isDry).trans (all.dry isDry)
  · intro real nodeKey
    rw [same]
    exact all.pointer real nodeKey
  · intro real generation
    rw [same]
    exact all.generation real generation

/-- An eviction that raises has removed nothing. -/
theorem evictLocked_error {raised : Raised StoreExn World}
    (run : evictLocked environment arguments world = .error raised) : raised.state = world := by
  cases pointed : world.store.currentGeneration with
  | error error =>
      simp only [evictLocked, pointed, raiseIn, bind, Except.bind] at run
      cases run
      rfl
  | ok current =>
      cases scanned : scanNodes environment current world.store with
      | error error =>
          simp only [evictLocked, pointed, scanned, raiseIn, bind, Except.bind] at run
          cases run
          rfl
      | ok entries =>
          obtain ⟨world', done, -⟩ := evictLocked_ok arguments pointed scanned
          rw [done] at run
          cases run

/-- The locks are no part of what an eviction looks at. -/
theorem scanNodes_locked : scanNodes environment current store.locked = scanNodes environment current store :=
  rfl

theorem totalsBefore_locked :
    totalsBefore environment store.locked entries = totalsBefore environment store entries := rfl

theorem evictFactorNodes_ok (accepted : arguments.check = .ok ()) (pointed : store.currentGeneration = .ok current)
    (scanned : scanNodes environment current store = .ok entries) :
    ∃ after, evictFactorNodes environment arguments store =
        .ok (plannedReport arguments (totalsBefore environment store entries) entries, after) ∧
      EvictedAll arguments.dryRun (plannedNodes arguments (totalsBefore environment store entries) entries)
        ⟨store.locked, []⟩ after := by
  have here : (⟨store.locked, []⟩ : World).store.currentGeneration = .ok current := pointed
  obtain ⟨after, run, all⟩ := evictLocked_ok arguments here scanned
  exact ⟨after, bind_ok.mpr ⟨(), raiseIn_ok.mpr accepted, run⟩, all⟩

theorem evictFactorNodes_error {raised : Raised StoreExn World}
    (run : evictFactorNodes environment arguments store = .error raised) :
    raised.state = ⟨store, []⟩ ∨ raised.state = ⟨store.locked, []⟩ := by
  rw [evictFactorNodes, bind_error] at run
  rcases run with refused | ⟨_, -, raises⟩
  · obtain ⟨_, -, rfl⟩ := raiseIn_error.mp refused
    exact .inl rfl
  · exact .inr (evictLocked_error raises)

/-! ## The quota -/

/-- What `enforce_factor_cache_quota` calls `evict_factor_nodes` with. -/
def QuotaArguments.evictArguments (quota : QuotaArguments) (targetBytes triggerBytes : Int) : EvictArguments where
  maxBytes := 2 ^ 63 - 1
  maxNodes := none
  maxCacheAllocatedBytes := some targetBytes
  minimumFreeBytes := quota.reserveFreeBytes
  triggerCacheAllocatedBytes := some triggerBytes
  dryRun := quota.dryRun

theorem quotaCheck_ok {quota : QuotaArguments} {low high : ℚ} (accepted : quota.check = .ok (low, high)) :
    0 ≤ quota.maxCacheBytes ∧ 0 ≤ quota.reserveFreeBytes ∧ 0 ≤ low ∧ low < high := by
  unfold QuotaArguments.check at accepted
  obtain ⟨size, accepted⟩ := refuse_ok.mp accepted
  obtain ⟨reserve, accepted⟩ := refuse_ok.mp accepted
  split at accepted
  · split at accepted
    · rename_i ordered
      cases accepted
      exact ⟨not_lt.mp size, not_lt.mp reserve, ordered.1, ordered.2.1⟩
    · cases accepted
  · cases accepted

/-- The target is not above the trigger, however the products are rounded. -/
theorem watermarkBytes_mono {rounding : Rounding} {maxCacheBytes targetBytes triggerBytes : Int} {low high : ℚ}
    (nonneg : 0 ≤ maxCacheBytes) (lowNonneg : 0 ≤ low) (ordered : low < high)
    (target : rounding.watermarkBytes maxCacheBytes low = .ok targetBytes)
    (trigger : rounding.watermarkBytes maxCacheBytes high = .ok triggerBytes) :
    0 ≤ targetBytes ∧ targetBytes ≤ triggerBytes := by
  unfold Rounding.watermarkBytes at target trigger
  obtain ⟨-, target⟩ := refuse_ok.mp target
  obtain ⟨-, trigger⟩ := refuse_ok.mp trigger
  cases target
  cases trigger
  have size : 0 ≤ rounding.round maxCacheBytes := by
    rw [← rounding.round_zero]
    exact rounding.monotone (by exact_mod_cast nonneg)
  constructor
  · apply Int.floor_nonneg.mpr
    rw [← rounding.round_zero]
    exact rounding.monotone (mul_nonneg size lowNonneg)
  · exact Int.floor_le_floor (rounding.monotone (mul_le_mul_of_nonneg_left ordered.le size))

theorem evictArguments_check {quota : QuotaArguments} {targetBytes triggerBytes : Int}
    (reserve : 0 ≤ quota.reserveFreeBytes) (target : 0 ≤ targetBytes) (ordered : targetBytes ≤ triggerBytes) :
    (quota.evictArguments targetBytes triggerBytes).check = .ok () := by
  have targetKept : ¬ targetBytes < 0 := not_lt.mpr target
  have triggerKept : ¬ triggerBytes < 0 := not_lt.mpr (target.trans ordered)
  simp [EvictArguments.check, QuotaArguments.evictArguments, targetKept, triggerKept, not_lt.mpr reserve,
    not_lt.mpr ordered]

/-- Above the trigger the target is one of the limits. -/
theorem target_of_within {quota : QuotaArguments} {targetBytes triggerBytes : Int} {before : Totals}
    {evicted : List NodeEntry} (above : triggerBytes < before.cacheAllocatedBytes)
    (within : WithinLimits (quota.evictArguments targetBytes triggerBytes) before evicted) :
    (evicted.foldl Totals.without before).cacheAllocatedBytes ≤ targetBytes := by
  have triggered : (quota.evictArguments targetBytes triggerBytes).quotaTriggered before = true := by
    simp [EvictArguments.quotaTriggered, QuotaArguments.evictArguments, above]
  rw [WithinLimits, triggered] at within
  simp only [EvictArguments.overLimit, QuotaArguments.evictArguments, Bool.true_and, Bool.or_eq_false_iff,
    Option.any_some, decide_eq_false_iff_not, not_lt] at within
  exact within.2.1

/-- Without the trigger only the number of stored bytes could be too large. -/
theorem within_of_belowTrigger {quota : QuotaArguments} {targetBytes triggerBytes : Int} {before : Totals}
    (below : before.cacheAllocatedBytes ≤ triggerBytes) (free : quota.reserveFreeBytes ≤ before.filesystemFreeBytes)
    (stored : before.bytes ≤ 2 ^ 63 - 1) :
    WithinLimits (quota.evictArguments targetBytes triggerBytes) before [] := by
  have untriggered : (quota.evictArguments targetBytes triggerBytes).quotaTriggered before = false := by
    simp only [EvictArguments.quotaTriggered, QuotaArguments.evictArguments, Bool.or_eq_false_iff,
      decide_eq_false_iff_not, not_lt]
    exact ⟨below, decide_eq_false (not_lt.mpr free)⟩
  rw [WithinLimits, untriggered]
  simp only [EvictArguments.overLimit, QuotaArguments.evictArguments, List.foldl_nil, Option.any_none,
    Bool.or_false, Bool.false_and]
  exact decide_eq_false (not_lt.mpr stored)

/-! ## The evicted nodes -/

/-- What a call reports and leaves, with these nodes evicted. -/
structure Evicts (arguments : EvictArguments) (before : Totals) (evicted : List NodeEntry) (store : Store)
    (report : EvictReport) (after : World) : Prop where
  nodes : report.evictedNodeKeys = evicted.map NodeEntry.nodeKey
  generations : report.removedGenerations = evicted.map NodeEntry.generation
  totals : report.before = before ∧ report.after = evicted.foldl Totals.without before
  satisfied : report.limitsSatisfied = true ↔ WithinLimits arguments before evicted
  store : EvictedAll arguments.dryRun evicted ⟨store.locked, []⟩ after

theorem evictFactorNodes_evicts (accepted : arguments.check = .ok ())
    (pointed : store.currentGeneration = .ok current)
    (scanned : scanNodes environment current store = .ok entries) :
    ∃ report after evicted, evictFactorNodes environment arguments store = .ok (report, after) ∧
      Evicts arguments (totalsBefore environment store entries) evicted store report after ∧
      Shortest (WithinLimits arguments (totalsBefore environment store entries)) (evictable entries) evicted := by
  obtain ⟨after, run, all⟩ := evictFactorNodes_ok accepted pointed scanned
  refine ⟨_, after, _, run, ⟨rfl, rfl, ⟨rfl, rfl⟩, ?_, all⟩, plannedNodes_shortest _ _ _⟩
  simp only [plannedReport, WithinLimits, Bool.not_eq_true']

/-- Where the limits hold nothing is evicted; where they do not hold afterwards, everything. -/
theorem shortest_ends {before : Totals} {evicted : List NodeEntry}
    (shortest : Shortest (WithinLimits arguments before) (evictable entries) evicted) :
    (WithinLimits arguments before [] → evicted = []) ∧
      (¬ WithinLimits arguments before evicted → evicted = evictable entries) := by
  constructor
  · intro within
    exact List.prefix_nil.mp (shortest.least [] List.nil_prefix within)
  · intro exceeded
    rcases shortest.sufficient with within | ⟨all, -⟩
    · exact absurd within exceeded
    · exact all

/-- `evict_factor_nodes` evicts the shortest sufficient prefix of the evictable nodes, and
`enforce_factor_cache_quota` gets from above the high limit to the low one. -/
theorem evictions_areShortest (environment : Environment) (rounding : Rounding) (arguments : EvictArguments)
    (quota : QuotaArguments) (store : Store) :
    (∀ raised, evictFactorNodes environment arguments store = .error raised →
      raised.state.performed = [] ∧ (raised.state.store = store ∨ raised.state.store = store.locked)) ∧
    (∀ current entries, arguments.check = .ok () → store.currentGeneration = .ok current →
      scanNodes environment current store = .ok entries →
      ∃ report after evicted, evictFactorNodes environment arguments store = .ok (report, after) ∧
        Evicts arguments (totalsBefore environment store entries) evicted store report after ∧
        Shortest (WithinLimits arguments (totalsBefore environment store entries)) (evictable entries) evicted ∧
        (WithinLimits arguments (totalsBefore environment store entries) [] → evicted = []) ∧
        (report.limitsSatisfied = false → evicted = evictable entries)) ∧
    ∀ current entries low high targetBytes triggerBytes, quota.check = .ok (low, high) →
      rounding.watermarkBytes quota.maxCacheBytes low = .ok targetBytes →
      rounding.watermarkBytes quota.maxCacheBytes high = .ok triggerBytes →
      store.currentGeneration = .ok current → scanNodes environment current store = .ok entries →
      ∃ report after evicted, enforceFactorCacheQuota environment rounding quota store = .ok (report, after) ∧
        Evicts (quota.evictArguments targetBytes triggerBytes) (totalsBefore environment store entries) evicted
          store report.evicted after ∧
        (triggerBytes < store.allocatedBytes →
          report.evicted.after.cacheAllocatedBytes ≤ targetBytes ∨ evicted = evictable entries) ∧
        (store.allocatedBytes ≤ triggerBytes → quota.reserveFreeBytes ≤ environment.freeBytes →
          (totalsBefore environment store entries).bytes ≤ 2 ^ 63 - 1 → evicted = []) := by
  refine ⟨?_, ?_, ?_⟩
  · intro raised run
    rcases evictFactorNodes_error run with same | same
    · rw [same]
      exact ⟨rfl, .inl rfl⟩
    · rw [same]
      exact ⟨rfl, .inr rfl⟩
  · intro current entries accepted pointed scanned
    obtain ⟨report, after, evicted, run, evicts, shortest⟩ := evictFactorNodes_evicts accepted pointed scanned
    obtain ⟨none, all⟩ := shortest_ends shortest
    refine ⟨report, after, evicted, run, evicts, shortest, none, fun exceeded => all fun within => ?_⟩
    rw [evicts.satisfied.mpr within] at exceeded
    cases exceeded
  · intro current entries low high targetBytes triggerBytes accepted target trigger pointed scanned
    obtain ⟨size, reserve, lowNonneg, ordered⟩ := quotaCheck_ok accepted
    obtain ⟨targetNonneg, below⟩ := watermarkBytes_mono size lowNonneg ordered target trigger
    obtain ⟨report, after, evicted, run, evicts, shortest⟩ :=
      evictFactorNodes_evicts (evictArguments_check reserve targetNonneg below) pointed scanned
    obtain ⟨none, all⟩ := shortest_ends shortest
    refine ⟨⟨report, triggerBytes, targetBytes⟩, after, evicted, ?_, evicts, ?_, ?_⟩
    · refine bind_ok.mpr ⟨_, raiseIn_ok.mpr accepted, bind_ok.mpr ⟨_, raiseIn_ok.mpr target,
        bind_ok.mpr ⟨_, raiseIn_ok.mpr trigger, bind_ok.mpr ⟨_, run, rfl⟩⟩⟩⟩
    · intro above
      by_cases within : WithinLimits (quota.evictArguments targetBytes triggerBytes)
          (totalsBefore environment store entries) evicted
      · left
        rw [evicts.totals.2]
        exact target_of_within above within
      · exact .inr (all within)
    · intro within free stored
      exact none (within_of_belowTrigger within free stored)

/-! ## One node -/

def machine : Environment where
  hostname := "worker"
  localProcessIsDead pid := .ok (pid = 7)
  nowNs := 10 ^ 18
  scanNs _ := 10 ^ 18
  seconds ns := .ok (ns / 10 ^ 9)
  nanoseconds seconds := .ok ⌊seconds * 10 ^ 9⌋
  freeBytes := 10 ^ 9

def keyOf (digit : Char) : String := String.ofList (List.replicate 64 digit)

def generationName (digit : Char) : String := String.ofList (List.replicate 32 digit)

/-- A current generation and a node, whose only column has `size` bytes and no block. -/
def sparseStore (size : Nat) : Store where
  made := true
  writerLock := true
  storeLock := true
  current := some (generationName 'c')
  pointerStaging := .empty
  nodes := .directory 8 (OrderedDict.ofList [(keyOf 'a', .file ⟨33, 8, 0⟩ (some (generationName 'a')))])
  generations := some (OrderedDict.ofList [
    (generationName 'c', .directory ⟨8, .empty⟩),
    (generationName 'a', .directory ⟨8, OrderedDict.ofList [
      ("manifest.json", .file ⟨300, 8, 0⟩ (.object ⟨.value (generationName 'a'), .value (keyOf 'a'), .value 5⟩)),
      ("values.bin", .file ⟨size, 0, 0⟩ .undecodable)]⟩)])
  leases := .empty
  access := none
  admission := none
  otherBlocks := 8

def sparseNode (size : Nat) : NodeEntry where
  lastAccessNs := 5
  nodeKey := keyOf 'a'
  generation := generationName 'a'
  storedBytes := 300 + size
  allocatedBytes := 24 * 512
  isProtected := false

def noBytes : EvictArguments := ⟨0, none, none, 0, none, false⟩

def exactly : Rounding := ⟨id, fun _ => false, monotone_id, rfl⟩

def megabyte : QuotaArguments := ⟨10 ^ 6, 0, some (9 / 10), some (8 / 10), false⟩

theorem evictions_areShortest_noBytes :
    ∃ report after evicted, evictFactorNodes machine noBytes (sparseStore 700) = .ok (report, after) ∧
      Evicts noBytes (totalsBefore machine (sparseStore 700) [sparseNode 700]) evicted (sparseStore 700)
        report after ∧
      Shortest (WithinLimits noBytes (totalsBefore machine (sparseStore 700) [sparseNode 700]))
        (evictable [sparseNode 700]) evicted ∧
      (WithinLimits noBytes (totalsBefore machine (sparseStore 700) [sparseNode 700]) [] → evicted = []) ∧
      (report.limitsSatisfied = false → evicted = evictable [sparseNode 700]) :=
  (evictions_areShortest machine exactly noBytes megabyte (sparseStore 700)).2.1 (generationName 'c')
    [sparseNode 700] (by decide +kernel) (by decide +kernel) (by decide +kernel)

/-- A quota that holds: the limit of 2^63 − 1 stored bytes counts all the same. -/
theorem withinQuota_evicts :
    (sparseStore (2 ^ 63)).allocatedBytes ≤ 900000 ∧ megabyte.reserveFreeBytes ≤ machine.freeBytes ∧
      exactly.watermarkBytes megabyte.maxCacheBytes (9 / 10) = .ok 900000 ∧
      ((enforceFactorCacheQuota machine exactly megabyte (sparseStore (2 ^ 63))).toOption.map
        fun result => result.1.evicted.evictedNodeKeys) = some [keyOf 'a'] := by
  decide +kernel

end Gambit.FactorStore
