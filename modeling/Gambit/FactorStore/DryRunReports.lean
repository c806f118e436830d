import Gambit.FactorStore.EvictionPlans

/-!
# Dry runs predict real runs

Both calls, dry and real, from one store and one clock.
-/

set_option autoImplicit false

namespace Gambit.FactorStore

open Raising SideBySide

variable {environment : Environment} {store : Store}

/-- Nothing but the locks has been touched. -/
def OnlyLocked (store : Store) (world : World) : Prop :=
  world.performed = [] ∧ (world.store = store ∨ world.store = store.locked)

theorem OnlyLocked.locked (store : Store) : OnlyLocked store ⟨store.locked, []⟩ := ⟨rfl, .inr rfl⟩

/-- The dry run left the store alone. -/
abbrev DryLeft (store : Store) : World → World → Prop := fun dry _ => OnlyLocked store dry

/-- `collect_garbage`, dry and real. -/
def PredictedCollection (store : Store) (dry real : CollectReport × World) : Prop :=
  OnlyLocked store dry.2 ∧ real.1 = { dry.1 with dryRun := false }

/-- `evict_factor_nodes`, dry and real. -/
def PredictedEviction (store : Store) (dry real : EvictReport × World) : Prop :=
  OnlyLocked store dry.2 ∧ real.1 = { dry.1 with dryRun := false }

/-- Another relation between the states of two runs that raise. -/
theorem agree_weaken {τ τ' σ σ' ε : Type} {R : τ → τ' → Prop} {E E' : σ → σ' → Prop}
    {m : Except (Raised ε σ) τ} {m' : Except (Raised ε σ') τ'} (agree : Agree R E m m')
    (weaker : ∀ s s', E s s' → E' s s') : Agree R E' m m' := by
  cases m with
  | ok t =>
      cases m' with
      | ok t' => exact agree
      | error r' => exact agree
  | error r =>
      cases m' with
      | ok t' => exact agree
      | error r' => exact ⟨agree.1, weaker _ _ agree.2⟩

theorem collectGarbage_agree (arguments : CollectArguments) (regular : store.LeasesAreFiles) :
    Agree (PredictedCollection store) (DryLeft store)
      (collectGarbage environment { arguments with dryRun := true } store)
      (collectGarbage environment { arguments with dryRun := false } store) := by
  have untouched : DryLeft store ⟨store, []⟩ ⟨store, []⟩ := ⟨rfl, .inl rfl⟩
  unfold collectGarbage
  refine (Agree.raiseIn _ untouched).bind ?_
  rintro staleLeaseSeconds _ ⟨rfl, -⟩
  refine (Agree.raiseIn _ untouched).bind ?_
  rintro metadataRetentionSeconds _ ⟨rfl, -⟩
  have regular' : (⟨store.locked, []⟩ : World).store.LeasesAreFiles := regular
  have agree := @collectLocked_agree _ environment staleLeaseSeconds metadataRetentionSeconds regular'
  have left : ∀ dry real, DryWorld ⟨store.locked, []⟩ dry real → DryLeft store dry real := by
    rintro dry real rfl
    exact OnlyLocked.locked store
  refine (agree_weaken agree left).mono ?_
  rintro ⟨dryReport, dryWorld⟩ ⟨realReport, realWorld⟩ ⟨same, reports⟩
  exact ⟨same ▸ OnlyLocked.locked store, reports⟩

/-- The plan does not depend on whether the run is dry. -/
theorem evictionPlan_dryRun (arguments : EvictArguments) (quotaTriggered dryRun : Bool) (entries : List NodeEntry)
    (totals : Totals) : evictionPlan { arguments with dryRun := dryRun } quotaTriggered entries totals =
      evictionPlan arguments quotaTriggered entries totals := by
  induction entries generalizing totals with
  | nil => rfl
  | cons entry rest ih =>
      unfold evictionPlan
      rw [ih, ih]
      rfl

theorem plannedReport_dryRun (arguments : EvictArguments) (before : Totals) (entries : List NodeEntry)
    (dryRun : Bool) : plannedReport { arguments with dryRun := dryRun } before entries =
      { plannedReport arguments before entries with dryRun := dryRun } := by
  simp only [plannedReport, evictionPlan_dryRun]
  rfl

theorem evictFactorNodes_agree (arguments : EvictArguments) :
    Agree (PredictedEviction store) (DryLeft store)
      (evictFactorNodes environment { arguments with dryRun := true } store)
      (evictFactorNodes environment { arguments with dryRun := false } store) := by
  have untouched : DryLeft store ⟨store, []⟩ ⟨store, []⟩ := ⟨rfl, .inl rfl⟩
  unfold evictFactorNodes
  refine (Agree.raiseIn arguments.check untouched).bind ?_
  rintro _ _ -
  cases pointed : (⟨store.locked, []⟩ : World).store.currentGeneration with
  | error error =>
      simp only [evictLocked, pointed, raiseIn, bind, Except.bind]
      exact ⟨rfl, OnlyLocked.locked store⟩
  | ok current =>
      cases scanned : scanNodes environment current (⟨store.locked, []⟩ : World).store with
      | error error =>
          simp only [evictLocked, pointed, scanned, raiseIn, bind, Except.bind]
          exact ⟨rfl, OnlyLocked.locked store⟩
      | ok entries =>
          obtain ⟨dryWorld, dry, left⟩ := evictLocked_ok { arguments with dryRun := true } pointed scanned
          obtain ⟨realWorld, real, -⟩ := evictLocked_ok { arguments with dryRun := false } pointed scanned
          rw [dry, real]
          have same : dryWorld = ⟨store.locked, []⟩ := left.dry rfl
          refine ⟨same ▸ OnlyLocked.locked store, ?_⟩
          simp only [plannedReport_dryRun]

/-- Dry runs report what the real run removes, and touch nothing but the locks. -/
theorem dryRuns_predict (environment : Environment) (store : Store) :
    (∀ arguments : CollectArguments, store.LeasesAreFiles →
      Agree (PredictedCollection store) (DryLeft store)
        (collectGarbage environment { arguments with dryRun := true } store)
        (collectGarbage environment { arguments with dryRun := false } store)) ∧
    ∀ arguments : EvictArguments,
      Agree (PredictedEviction store) (DryLeft store)
        (evictFactorNodes environment { arguments with dryRun := true } store)
        (evictFactorNodes environment { arguments with dryRun := false } store) :=
  ⟨fun arguments regular => collectGarbage_agree arguments regular, evictFactorNodes_agree⟩

/-! ## Linked leases -/

def lease : LeaseFile := .file 8 (.object ⟨.ok 0, .value "worker", .ok 7⟩)

/-- A generation that nothing names, with these leases. -/
def leasedStore (locks : Bool) (files : OrderedDict String LeaseFile) : Store where
  made := true
  writerLock := locks
  storeLock := locks
  current := some (generationName 'c')
  pointerStaging := .empty
  nodes := .missing
  generations := some (OrderedDict.ofList [
    (generationName 'c', .directory ⟨8, .empty⟩),
    (generationName 'a', .directory ⟨8, .empty⟩)])
  leases := OrderedDict.ofList [(generationName 'a', .directory 8 files)]
  access := none
  admission := none
  otherBlocks := 8

def linkedLeases : OrderedDict String LeaseFile :=
  OrderedDict.ofList [("1.json", lease), ("2.json", .link (generationName 'a') "1.json")]

def anHour (dryRun : Bool) : CollectArguments := ⟨some 3600, some 3600, dryRun⟩

def removedGenerations (result : Collected (CollectReport × World)) : Option (List String) :=
  result.toOption.map fun result => result.1.removedGenerations

/-- The real run removes the lease that the next one is a link to, and keeps the generation; and a dry
run makes the lock files. -/
theorem dryRun_mispredicts :
    removedGenerations (collectGarbage machine (anHour true) (leasedStore true linkedLeases)) =
        some [generationName 'a'] ∧
      removedGenerations (collectGarbage machine (anHour false) (leasedStore true linkedLeases)) = some [] ∧
      ((collectGarbage machine (anHour true) (leasedStore false .empty)).toOption.map
        fun result => result.2.store) = some (leasedStore true .empty) ∧
      leasedStore true .empty ≠ leasedStore false .empty := by
  decide +kernel

/-- Leases that are files: the two runs agree. -/
theorem dryRuns_predict_oneLease :
    Agree (PredictedCollection (leasedStore true (OrderedDict.ofList [("1.json", lease)])))
      (DryLeft (leasedStore true (OrderedDict.ofList [("1.json", lease)])))
      (collectGarbage machine (anHour true) (leasedStore true (OrderedDict.ofList [("1.json", lease)])))
      (collectGarbage machine (anHour false) (leasedStore true (OrderedDict.ofList [("1.json", lease)]))) := by
  refine (dryRuns_predict machine _).1 (anHour true) ?_
  intro generation blocks files found name generation' name' linked
  simp only [leasedStore, OrderedDict.ofList, List.foldl_cons, List.foldl_nil, OrderedDict.get?_set,
    OrderedDict.get?_empty] at found
  split at found
  · cases found
    simp only [OrderedDict.get?_set, OrderedDict.get?_empty, lease] at linked
    split at linked <;> cases linked
  · cases found

end Gambit.FactorStore
