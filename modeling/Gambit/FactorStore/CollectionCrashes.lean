import Gambit.FactorStore.Interruptions

/-!
# Collections that are interrupted

Wherever `collect_garbage` stops, and whatever of its calls is lost with the
power, CURRENT, the node pointers and the generations they name are as they
were, and so are the generations that somebody may be reading.
-/

set_option autoImplicit false

namespace Gambit.FactorStore

open Raising PowerLoss

variable {environment : Environment} {limit : Option ℚ} {start store : Store} {world : World}
  {generation name : String} {operation : Operation}

/-! ## What must stay -/

/-- The lease is old, and its process was one of this host and is dead. -/
structure Abandoned (environment : Environment) (limit : Option ℚ)
    (document : Except StoreExn (Document LeaseMetadata)) : Prop where
  read : ∃ metadata createdNs ageSeconds pid staleLeaseSeconds,
    document = .ok (.object metadata) ∧ metadata.createdNs = .ok createdNs ∧
    environment.seconds (environment.nowNs - createdNs) = .ok ageSeconds ∧
    limit = some staleLeaseSeconds ∧ staleLeaseSeconds ≤ ageSeconds ∧
    metadata.host = .value environment.hostname ∧ metadata.pid = .ok pid ∧
    environment.localProcessIsDead pid = .ok true

theorem leaseStatus_object (metadata : LeaseMetadata) :
    leaseStatus environment (.ok (.object metadata)) =
      metadata.createdNs >>= fun createdNs =>
        environment.seconds (environment.nowNs - createdNs) >>= fun ageSeconds =>
          match metadata.host with
          | .missing => .error .keyError
          | .foreign => .ok (ageSeconds, false)
          | .value host =>
              if host = environment.hostname then
                metadata.pid >>= fun pid => environment.localProcessIsDead pid >>= fun localDead =>
                  .ok (ageSeconds, localDead)
              else .ok (ageSeconds, false) := rfl

theorem leaseRemovable_abandoned {staleLeaseSeconds : ℚ}
    {document : Except StoreExn (Document LeaseMetadata)}
    (removable : leaseRemovable environment staleLeaseSeconds document = .ok true) :
    Abandoned environment (some staleLeaseSeconds) document := by
  unfold leaseRemovable at removable
  split at removable
  · rename_i ageSeconds localDead status
    obtain ⟨old, dead⟩ := Bool.and_eq_true_iff.mp (Except.ok.inj removable)
    subst dead
    cases document with
    | error error => cases status
    | ok read =>
        cases read with
        | undecodable | notAnObject => cases status
        | object metadata =>
            rw [leaseStatus_object] at status
            obtain ⟨createdNs, created, status⟩ := bind_ok.mp status
            obtain ⟨age, elapsed, status⟩ := bind_ok.mp status
            cases host : metadata.host with
            | missing | foreign =>
                rw [host] at status
                cases status
            | value hostname =>
                simp only [host] at status
                split at status
                · rename_i here
                  obtain ⟨pid, known, status⟩ := bind_ok.mp status
                  obtain ⟨isDead, asked, status⟩ := bind_ok.mp status
                  cases status
                  exact ⟨metadata, createdNs, ageSeconds, pid, staleLeaseSeconds, rfl, created, elapsed,
                    rfl, of_decide_eq_true old, host.trans (congrArg _ here), known, asked⟩
                · cases status
  · split at removable <;> cases removable

def Store.leaseFile (store : Store) (generation name : String) : Option LeaseFile :=
  match store.leases.get? generation with
  | some (.directory _ files) => files.get? name
  | _ => none

/-- A generation that is current, indexed, or leased by what may be alive. -/
structure Kept (environment : Environment) (limit : Option ℚ) (start : Store) (generation : String) :
    Prop where
  named : isGeneration generation = true
  reason : start.currentGeneration = .ok generation ∨
    (∃ nodeKey, start.requireNodePointer nodeKey = .ok generation) ∨
    start.leases.get? generation = some .link ∨
    ∃ name, start.leaseFile generation name ≠ none ∧
      ¬ Abandoned environment limit (start.readLease generation name maximumLinks)

/-- A call that takes nothing of this away. -/
def Harmless (environment : Environment) (limit : Option ℚ) (start : Store) (operation : Operation) :
    Prop :=
  (∀ name, operation = .unlinkNode name → startsWith "." name = true) ∧
    (∀ generation, operation = .removeGeneration generation → ¬ Kept environment limit start generation) ∧
    ∀ name, operation = .unlinkPointer name → start.pointerStaging.contains name = true

/-! ## Leases -/

theorem readLease_leaseFile (depth : Nat) : store.readLease generation name (depth + 1) =
    match store.leaseFile generation name with
    | some (.file _ content) => .ok content
    | some (.link generation name) => store.readLease generation name depth
    | none => .error .osError := by
  rw [Store.readLease]
  unfold Store.leaseFile
  cases store.leases.get? generation with
  | none => rfl
  | some directory =>
      cases directory with
      | link => rfl
      | directory blocks files =>
          cases found : files.get? name with
          | none => simp only [found]
          | some file => cases file <;> simp only [found]

/-- A lease reads as before, or it cannot be read. -/
theorem readLease_shrunk (shrunk : ∀ generation name, store.leaseFile generation name =
      start.leaseFile generation name ∨ store.leaseFile generation name = none) (depth : Nat) :
    ∀ generation name, store.readLease generation name depth =
      start.readLease generation name depth ∨
        store.readLease generation name depth = .error .osError := by
  induction depth with
  | zero => exact fun _ _ => .inl rfl
  | succ depth ih =>
      intro generation name
      rw [readLease_leaseFile, readLease_leaseFile]
      rcases shrunk generation name with same | gone
      · rw [same]
        cases start.leaseFile generation name with
        | none => exact .inl rfl
        | some file =>
            cases file with
            | file => exact .inl rfl
            | link generation' name' => exact ih generation' name'
      · rw [gone]
        exact .inr rfl

theorem leaseFile_effect (generation name : String)
    (done : operation.apply store = .ok (operation.effect store)) :
    (operation.effect store).leaseFile generation name = store.leaseFile generation name ∨
      (operation.effect store).leaseFile generation name = none ∧
        operation = .unlinkLease generation name := by
  cases operation with
  | unlinkLease place lease =>
      simp only [Operation.effect]
      cases found : store.leases.get? place with
      | none => exact .inl rfl
      | some directory =>
          cases directory with
          | link => exact .inl rfl
          | directory blocks files =>
              unfold Store.leaseFile
              simp only [OrderedDict.get?_set]
              by_cases here : generation = place
              · subst here
                rw [if_pos rfl, found]
                simp only [OrderedDict.get?_erase]
                by_cases same : name = lease
                · exact .inr ⟨if_pos same, by rw [same]⟩
                · exact .inl (if_neg same)
              · rw [if_neg here]
                exact .inl rfl
  | removeLeaseDirectory place =>
      left
      simp only [Operation.apply, Store.removeLeaseDirectory] at done
      split at done
      · rename_i blocks files found
        split at done
        · rename_i empty
          unfold Store.leaseFile
          simp only [Operation.effect, OrderedDict.get?_erase]
          by_cases here : generation = place
          · subst here
            rw [if_pos rfl, found]
            refine ((OrderedDict.get?_eq_none_iff _ _).mpr ?_).symm
            rw [empty]
            exact List.not_mem_nil
          · rw [if_neg here]
        · cases done
      · cases done
  | unlinkMetadata kind file => exact .inl (by cases kind <;> rfl)
  | _ => exact .inl rfl

theorem linked_effect (done : operation.apply store = .ok (operation.effect store))
    (link : store.leases.get? generation = some .link) :
    (operation.effect store).leases.get? generation = some .link := by
  cases operation with
  | unlinkLease place lease =>
      simp only [Operation.effect]
      split
      · rename_i blocks files found
        refine (OrderedDict.get?_set ..).trans ?_
        rw [if_neg]
        · exact link
        · rintro rfl
          rw [link] at found
          cases found
      · exact link
  | removeLeaseDirectory place =>
      simp only [Operation.apply, Store.removeLeaseDirectory] at done
      split at done
      · rename_i blocks files found
        refine (OrderedDict.get?_erase_of_ne _ ?_).trans link
        rintro rfl
        rw [link] at found
        cases found
      · cases done
  | unlinkMetadata kind file => cases kind <;> exact link
  | _ => exact link

theorem contains_effect (there : (operation.effect store).pointerStaging.contains name = true) :
    store.pointerStaging.contains name = true := by
  cases operation with
  | unlinkPointer gone =>
      simp only [Operation.effect, OrderedDict.contains, OrderedDict.get?_erase] at there
      split at there
      · cases there
      · exact there
  | unlinkLease generation lease =>
      simp only [Operation.effect] at there
      split at there
      · exact there
      · exact there
  | unlinkMetadata kind file => cases kind <;> exact there
  | _ => exact there

/-! ## One call -/

/-- A collection under way: nothing that must stay has been touched. -/
structure Progress (environment : Environment) (limit : Option ℚ) (start : Store) (world : World) :
    Prop where
  replayed : world.store = replay Operation.effect world.performed start
  harmless : ∀ operation ∈ world.performed, Harmless environment limit start operation
  pointers : ∀ name, startsWith "." name = false → world.store.pointer name = start.pointer name
  staged : ∀ name, world.store.pointerStaging.contains name = true → start.pointerStaging.contains name = true
  linked : ∀ generation, start.leases.get? generation = some .link →
    world.store.leases.get? generation = some .link
  leaseFiles : ∀ generation name, world.store.leaseFile generation name = start.leaseFile generation name ∨
    world.store.leaseFile generation name = none ∧
      Abandoned environment limit (start.readLease generation name maximumLinks)

abbrev Safe (environment : Environment) (limit : Option ℚ) (start : Store)
    (raised : Raised StoreExn World) : Prop := Progress environment limit start raised.state

theorem Progress.begin (environment : Environment) (limit : Option ℚ) (start : Store) :
    Progress environment limit start ⟨start, []⟩ where
  replayed := rfl
  harmless _ member := absurd member List.not_mem_nil
  pointers _ _ := rfl
  staged _ there := there
  linked _ link := link
  leaseFiles _ _ := .inl rfl

theorem Progress.document (progress : Progress environment limit start world) (generation name : String) :
    world.store.readLease generation name maximumLinks = start.readLease generation name maximumLinks ∨
      world.store.readLease generation name maximumLinks = .error .osError :=
  readLease_shrunk (fun generation name => (progress.leaseFiles generation name).imp_right And.left) _ _ _

theorem Progress.perform (progress : Progress environment limit start world)
    (harmless : Harmless environment limit start operation)
    (lease : ∀ generation name, operation = .unlinkLease generation name →
      Abandoned environment limit (start.readLease generation name maximumLinks)) :
    Yields (Progress environment limit start) (Safe environment limit start) (perform operation world) := by
  cases run : FactorStore.perform operation world with
  | error raised =>
      change Progress environment limit start raised.state
      rw [perform_raised run]
      exact progress
  | ok after =>
      cases perform_effect run
      have applied : operation.apply world.store = .ok (operation.effect world.store) := by
        unfold FactorStore.perform at run
        split at run
        · rename_i store done
          rw [effect_of_apply done]
          exact done
        · cases run
      refine ⟨?_, ?_, ?_, ?_, ?_, ?_⟩
      · rw [replay_append, ← progress.replayed]
        rfl
      · intro other member
        rcases List.mem_append.mp member with earlier | last
        · exact progress.harmless other earlier
        · rw [List.mem_singleton.mp last]
          exact harmless
      · intro name visible
        refine (pointer_effect ?_).trans (progress.pointers name visible)
        rintro rfl
        rw [harmless.1 name rfl] at visible
        cases visible
      · exact fun name there => progress.staged name (contains_effect there)
      · exact fun generation link => linked_effect applied (progress.linked generation link)
      · intro generation name
        rcases leaseFile_effect generation name applied with same | gone
        · rw [same]
          exact progress.leaseFiles generation name
        · exact .inr ⟨gone.1, lease generation name gone.2⟩

theorem Progress.unlessDry (dryRun : Bool)
    (progress : Progress environment limit start world)
    (harmless : Harmless environment limit start operation)
    (lease : ∀ generation name, operation = .unlinkLease generation name →
      Abandoned environment limit (start.readLease generation name maximumLinks)) :
    Yields (Progress environment limit start) (Safe environment limit start)
      (unlessDry dryRun (FactorStore.perform operation) world) := by
  cases dryRun with
  | true => exact progress
  | false => exact progress.perform harmless lease

/-- The calls that touch neither pointers, generations nor leases. -/
theorem Harmless.of_apart (noNode : ∀ name, operation ≠ .unlinkNode name)
    (noGeneration : ∀ name, operation ≠ .removeGeneration name)
    (noPointer : ∀ name, operation ≠ .unlinkPointer name) : Harmless environment limit start operation :=
  ⟨fun name same => absurd same (noNode name), fun name same => absurd same (noGeneration name),
    fun name same => absurd same (noPointer name)⟩

/-! ## Node pointers -/

theorem isHex_undotted {length : Nat} {rest : List Char} (text : String) (hex : isHex length name = true)
    (dotted : text.toList = '.' :: rest) : startsWith text name = false := by
  obtain ⟨-, digits⟩ := of_decide_eq_true hex
  rw [startsWith, dotted]
  cases chars : name.toList with
  | nil => rfl
  | cons first others =>
      rw [List.isPrefixOf_cons_cons, Bool.and_eq_false_iff]
      left
      rw [beq_eq_false_iff_ne]
      rintro rfl
      rw [chars, List.all_cons, Bool.and_eq_true] at digits
      exact absurd digits.1 (by decide)

/-- The pointers have been read, and their generations noted. -/
structure Indexed (environment : Environment) (limit : Option ℚ) (start : Store) (state : Collecting) :
    Prop where
  progress : Progress environment limit start state.world
  noted : ∀ nodeKey generation, start.requireNodePointer nodeKey = .ok generation →
    generation ∈ state.indexedGenerations

variable {dryRun : Bool} {state : Collecting}

theorem collectNode_yields {done : List String}
    (progress : Progress environment limit start state.world)
    (noted : ∀ nodeKey ∈ done, ∀ generation, start.requireNodePointer nodeKey = .ok generation →
      generation ∈ state.indexedGenerations) :
    Yields (fun state => Progress environment limit start state.world ∧
      ∀ nodeKey ∈ done ++ [name], ∀ generation, start.requireNodePointer nodeKey = .ok generation →
        generation ∈ state.indexedGenerations) (Safe environment limit start)
      (collectNode dryRun state name) := by
  unfold collectNode
  simp only
  split
  · rename_i dotted
    have noPointer : ∀ nodeKey ∈ done ++ [name], ∀ generation,
        start.requireNodePointer nodeKey = .ok generation → generation ∈ state.indexedGenerations := by
      intro nodeKey member generation pointed
      rcases List.mem_append.mp member with earlier | last
      · exact noted nodeKey earlier generation pointed
      · rw [List.mem_singleton.mp last, Store.requireNodePointer] at pointed
        obtain ⟨hex, -⟩ := refuse_ok.mp pointed
        have visible := isHex_undotted "." (not_not.mp hex) rfl
        rw [visible] at dotted
        cases dotted
    split
    · refine (progress.unlessDry dryRun ⟨?_, by simp, by simp⟩ (by simp)).bind fun world after => ?_
      · intro other same
        cases same
        exact dotted
      · exact ⟨after, noPointer⟩
    · exact ⟨progress, noPointer⟩
  · rename_i visible
    rw [Bool.not_eq_true] at visible
    split
    · exact progress
    · have same := requireNodePointer_congr (progress.pointers name visible)
      rw [same]
      cases pointed : start.requireNodePointer name with
      | error error => exact progress
      | ok generation =>
          simp only [raiseIn, bind, Except.bind]
          split
          · refine ⟨progress, fun nodeKey member other pointed' => ?_⟩
            rcases List.mem_append.mp member with earlier | last
            · exact List.mem_append_left _ (noted nodeKey earlier other pointed')
            · rw [List.mem_singleton.mp last, pointed] at pointed'
              cases pointed'
              exact List.mem_append_right _ List.mem_cons_self
          · exact progress

theorem collectNodes_yields (report : CollectReport) :
    Yields (Indexed environment limit start) (Safe environment limit start)
      (collectNodes dryRun ⟨⟨start, []⟩, report, [], []⟩) := by
  have here := Progress.begin environment limit start
  unfold collectNodes
  simp only
  cases index : start.nodes with
  | link => exact here
  | missing =>
      refine ⟨here, fun nodeKey generation pointed => ?_⟩
      obtain ⟨stat, found⟩ := requireNodePointer_ok pointed
      rw [Store.pointer, index] at found
      cases found
  | directory blocks pointers =>
      refine (Yields.foldlM_done (P := fun done (state : Collecting) =>
        Progress environment limit start state.world ∧ ∀ nodeKey ∈ done, ∀ generation,
          start.requireNodePointer nodeKey = .ok generation → generation ∈ state.indexedGenerations)
        (fun done name state _ now => collectNode_yields now.1 now.2)
        ⟨here, fun _ none => absurd none List.not_mem_nil⟩).mono ?_
      rintro state ⟨progress, noted⟩
      refine ⟨progress, fun nodeKey generation pointed => noted nodeKey ?_ generation pointed⟩
      obtain ⟨stat, found⟩ := requireNodePointer_ok pointed
      rw [Store.pointer, index] at found
      exact OrderedDict.mem_keys_of_get? found

/-! ## Leases -/

variable {staleLeaseSeconds : ℚ}

/-- The generations noted so far stay noted. -/
abbrev Onward (environment : Environment) (limit : Option ℚ) (start : Store) (before after : Collecting) :
    Prop :=
  Progress environment limit start after.world ∧ after.indexedGenerations = before.indexedGenerations

theorem collectLease_yields {counted : Nat} (generation name : String)
    (progress : Progress environment (some staleLeaseSeconds) start state.world) :
    Yields (fun after => Onward environment (some staleLeaseSeconds) start state after.1 ∧
        counted ≤ after.2 ∧ (Abandoned environment (some staleLeaseSeconds)
          (start.readLease generation name maximumLinks) ∨ 0 < after.2))
      (Safe environment (some staleLeaseSeconds) start)
      (collectLease environment dryRun staleLeaseSeconds generation (state, counted) name) := by
  unfold collectLease
  simp only
  cases removable : leaseRemovable environment staleLeaseSeconds
      (state.world.store.readLease generation name maximumLinks) with
  | error error => exact progress
  | ok removable' =>
      simp only [raiseIn, bind, Except.bind]
      cases removable' with
      | false => exact ⟨⟨progress, rfl⟩, Nat.le_succ _, .inr (Nat.succ_pos _)⟩
      | true =>
          have abandoned : Abandoned environment (some staleLeaseSeconds)
              (start.readLease generation name maximumLinks) := by
            have now := leaseRemovable_abandoned removable
            rcases progress.document generation name with same | unreadable
            · rw [same] at now
              exact now
            · obtain ⟨_, _, _, _, _, read, _⟩ := now.read
              rw [unreadable] at read
              cases read
          refine (progress.unlessDry dryRun (.of_apart (by simp) (by simp) (by simp)) ?_).bind fun world after => ?_
          · intro place lease same
            cases same
            exact abandoned
          · exact ⟨⟨after, rfl⟩, Nat.le_refl _, .inl abandoned⟩

/-- With no lease left, those that were there have been abandoned. -/
theorem collectLeases_yields (progress : Progress environment (some staleLeaseSeconds) start state.world) :
    Yields (fun after => Onward environment (some staleLeaseSeconds) start state after.1 ∧
        (after.2 = false → start.leases.get? generation ≠ some .link ∧
          ∀ name, start.leaseFile generation name ≠ none →
            Abandoned environment (some staleLeaseSeconds)
              (start.readLease generation name maximumLinks)))
      (Safe environment (some staleLeaseSeconds) start)
      (collectLeases environment dryRun staleLeaseSeconds generation state) := by
  have unlinked : ∀ {found}, state.world.store.leases.get? generation = found → found ≠ some .link →
      start.leases.get? generation ≠ some .link := by
    intro found here apart link
    rw [progress.linked generation link] at here
    exact apart here.symm
  have left : ∀ name, start.leaseFile generation name ≠ none →
      Abandoned environment (some staleLeaseSeconds) (start.readLease generation name maximumLinks) ∨
        state.world.store.leaseFile generation name ≠ none := by
    intro name there
    rcases progress.leaseFiles generation name with same | gone
    · exact .inr (same ▸ there)
    · exact .inl gone.2
  unfold collectLeases
  split
  · exact ⟨⟨progress, rfl⟩, by simp⟩
  · rename_i blocks files found
    have loop : Yields (fun after : Collecting × Nat =>
          Onward environment (some staleLeaseSeconds) start state after.1 ∧
            ∀ name ∈ files.keys, Abandoned environment (some staleLeaseSeconds)
              (start.readLease generation name maximumLinks) ∨ 0 < after.2)
        (Safe environment (some staleLeaseSeconds) start)
        (files.keys.foldlM (collectLease environment dryRun staleLeaseSeconds generation) (state, 0)) :=
      Yields.foldlM_done (P := fun done (after : Collecting × Nat) =>
        Onward environment (some staleLeaseSeconds) start state after.1 ∧
          ∀ name ∈ done, Abandoned environment (some staleLeaseSeconds)
            (start.readLease generation name maximumLinks) ∨ 0 < after.2)
      (fun done name after _ now => by
        obtain ⟨middle, counted⟩ := after
        obtain ⟨⟨onward, kept⟩, each⟩ := now
        refine (collectLease_yields generation name onward).mono fun next passed => ?_
        obtain ⟨⟨further, kept'⟩, more, here⟩ := passed
        refine ⟨⟨further, kept'.trans kept⟩, fun other member => ?_⟩
        rcases List.mem_append.mp member with earlier | last
        · exact (each other earlier).imp_right fun positive => positive.trans_le more
        · rw [List.mem_singleton.mp last]
          exact here)
      ⟨⟨progress, rfl⟩, fun _ none => absurd none List.not_mem_nil⟩
    refine loop.bind fun after passed => ⟨passed.1, fun none => ⟨unlinked found (by simp), ?_⟩⟩
    intro name there
    rcases left name there with abandoned | standing
    · exact abandoned
    · refine (passed.2 name ?_).resolve_right (of_decide_eq_false none)
      rw [Store.leaseFile, found] at standing
      obtain ⟨file, present⟩ := Option.ne_none_iff_exists'.mp standing
      exact OrderedDict.mem_keys_of_get? present
  · rename_i found
    refine ⟨⟨progress, rfl⟩, fun _ => ⟨unlinked found (by simp), fun name there => ?_⟩⟩
    refine (left name there).resolve_right fun standing => ?_
    rw [Store.leaseFile, found] at standing
    exact standing rfl

/-! ## Generations -/

theorem removeGenerationAndLeases_yields (progress : Progress environment limit start world)
    (unkept : ¬ Kept environment limit start generation) :
    Yields (Progress environment limit start) (Safe environment limit start)
      (removeGenerationAndLeases generation world) := by
  unfold removeGenerationAndLeases
  refine (progress.perform ⟨by simp, ?_, by simp⟩ (by simp)).bind fun middle after => ?_
  · intro other same
    cases same
    exact unkept
  · split
    · exact after.perform (.of_apart (by simp) (by simp) (by simp)) (by simp)
    · exact after

theorem collectGeneration_yields {current : String} (pointed : start.currentGeneration = .ok current)
    (indexed : Indexed environment (some staleLeaseSeconds) start state) :
    Yields (Indexed environment (some staleLeaseSeconds) start)
      (Safe environment (some staleLeaseSeconds) start)
      (collectGeneration environment dryRun staleLeaseSeconds current state generation) := by
  have ⟨progress, noted⟩ := indexed
  unfold collectGeneration
  simp only
  split
  · rename_i staging
    split
    · refine (progress.unlessDry dryRun ⟨by simp, fun other same kept => ?_, by simp⟩ (by simp)).bind
        fun world after => ⟨after, noted⟩
      cases same
      have visible := isHex_undotted ".staging-" kept.named rfl
      rw [visible] at staging
      cases staging
    · exact indexed
  · split
    · exact indexed
    · rename_i passed
      refine (collectLeases_yields progress).bind fun after outcome => ?_
      obtain ⟨⟨onward, kept⟩, abandoned⟩ := outcome
      have still : Indexed environment (some staleLeaseSeconds) start after.1 :=
        ⟨onward, fun nodeKey other found => kept ▸ noted nodeKey other found⟩
      obtain ⟨after, hasLeases⟩ := after
      simp only at still abandoned ⊢
      split
      · obtain ⟨unlinked, each⟩ := abandoned rfl
        have unkept : ¬ Kept environment (some staleLeaseSeconds) start generation := by
          rintro ⟨-, isCurrent | ⟨nodeKey, found⟩ | link | ⟨name, there, stands⟩⟩
          · rw [pointed] at isCurrent
            cases isCurrent
            exact passed (.inl rfl)
          · exact passed (.inr (.inl (noted nodeKey generation found)))
          · exact unlinked link
          · exact stands (each name there)
        have removal : Yields (Progress environment (some staleLeaseSeconds) start)
            (Safe environment (some staleLeaseSeconds) start)
            (unlessDry dryRun (removeGenerationAndLeases generation) after.world) := by
          cases dryRun with
          | true => exact still.progress
          | false => exact removeGenerationAndLeases_yields still.progress unkept
        exact removal.bind fun world done => ⟨done, still.noted⟩
      · exact still

/-! ## The rest -/

theorem collectPointer_yields (progress : Progress environment limit start state.world) :
    Yields (fun after => Progress environment limit start after.world) (Safe environment limit start)
      (collectPointer dryRun state name) := by
  unfold collectPointer
  split
  · rename_i found
    refine (progress.unlessDry dryRun ⟨by simp, by simp, fun other same => ?_⟩ (by simp)).bind fun _ after => after
    cases same
    refine progress.staged _ ?_
    rw [OrderedDict.contains, found]
    rfl
  · exact progress

theorem collectMetadata_yields {cutoffNs : Int} {kind : MetadataKind}
    (progress : Progress environment limit start state.world) :
    Yields (fun after => Progress environment limit start after.world) (Safe environment limit start)
      (collectMetadata dryRun cutoffNs state kind) := by
  unfold collectMetadata
  split
  · exact progress
  · split
    · exact progress
    · refine Yields.foldlM (P := fun state : Collecting => Progress environment limit start state.world)
        (fun name _ state now => ?_) progress
      unfold collectMetadataFile
      split
      · exact now
      · split
        · exact now
        · split
          · split
            · exact (now.unlessDry dryRun (.of_apart (by simp) (by simp) (by simp)) (by simp)).bind
                fun _ after => after
            · exact now
          · exact now

theorem fsync_yields {directory : Flushed} (progress : Progress environment limit start world) :
    Yields (Progress environment limit start) (Safe environment limit start)
      (perform (.fsync directory) world) :=
  progress.perform (.of_apart (by simp) (by simp) (by simp)) (by simp)

theorem flushCollected_yields {report : CollectReport} (progress : Progress environment limit start world) :
    Yields (Progress environment limit start) (Safe environment limit start)
      (flushCollected report world) := by
  have fsyncIf_yields : ∀ {world : World} (changed : Bool) (directory : Flushed),
      Progress environment limit start world → Yields (Progress environment limit start)
        (Safe environment limit start) (fsyncIf changed directory world) := by
    intro world changed directory now
    unfold fsyncIf
    split
    · exact fsync_yields now
    · exact now
  unfold flushCollected
  refine (fsync_yields progress).bind fun _ now => (fsyncIf_yields _ _ now).bind fun _ now =>
    (fsyncIf_yields _ _ now).bind fun _ now => ?_
  exact Yields.foldlM (fun kind _ world now => fsyncIf_yields _ _ now) now

/-! ## The collection -/

theorem collectLocked_yields (environment : Environment) (dryRun : Bool) (start : Store)
    (staleLeaseSeconds metadataRetentionSeconds : ℚ) :
    Yields (fun outcome : CollectReport × World =>
        Progress environment (some staleLeaseSeconds) start outcome.2)
      (Safe environment (some staleLeaseSeconds) start)
      (collectLocked environment dryRun staleLeaseSeconds metadataRetentionSeconds ⟨start, []⟩) := by
  have here := Progress.begin environment (some staleLeaseSeconds) start
  unfold collectLocked
  cases pointed : start.currentGeneration with
  | error error => exact here
  | ok current =>
      simp only [raiseIn, bind, Except.bind]
      refine (collectNodes_yields _).bind fun state indexed => ?_
      have generations : Yields (Indexed environment (some staleLeaseSeconds) start)
          (Safe environment (some staleLeaseSeconds) start)
          (collectGenerations environment dryRun staleLeaseSeconds current state) := by
        unfold collectGenerations
        split
        · exact indexed.progress
        · exact Yields.foldlM (fun generation _ state now => collectGeneration_yields pointed now) indexed
      refine generations.bind fun state indexed => ?_
      refine (Yields.foldlM (P := fun state : Collecting =>
        Progress environment (some staleLeaseSeconds) start state.world)
        (fun name _ state now => collectPointer_yields now) indexed.progress).bind fun state progress => ?_
      cases environment.nanoseconds metadataRetentionSeconds with
      | error error => exact progress
      | ok retentionNs =>
          refine (Yields.foldlM (P := fun state : Collecting =>
            Progress environment (some staleLeaseSeconds) start state.world)
            (fun kind _ state now => collectMetadata_yields now) progress).bind fun state progress => ?_
          cases dryRun with
          | true => exact progress
          | false => exact (flushCollected_yields progress).bind fun world now => now

theorem readLease_locked (depth : Nat) : ∀ generation name,
    store.locked.readLease generation name depth = store.readLease generation name depth := by
  induction depth with
  | zero => exact fun _ _ => rfl
  | succ depth ih =>
      intro generation name
      rw [readLease_leaseFile, readLease_leaseFile]
      have same : store.locked.leaseFile generation name = store.leaseFile generation name := rfl
      rw [same]
      cases store.leaseFile generation name with
      | none => rfl
      | some file =>
          cases file with
          | file => rfl
          | link generation' name' => exact ih generation' name'

theorem Kept.locked (kept : Kept environment limit store generation) :
    Kept environment limit store.locked generation where
  named := kept.named
  reason := by
    rcases kept.reason with current | indexed | linked | ⟨name, there, stands⟩
    · exact .inl current
    · exact .inr (.inl indexed)
    · exact .inr (.inr (.inl linked))
    · exact .inr (.inr (.inr ⟨name, there, by rw [readLease_locked]; exact stands⟩))

theorem collectGarbage_progress (environment : Environment) (arguments : CollectArguments) (store : Store) :
    worldOf (collectGarbage environment arguments store) = ⟨store, []⟩ ∨
      Progress environment arguments.staleLeaseSeconds store.locked
        (worldOf (collectGarbage environment arguments store)) := by
  unfold collectGarbage
  cases stale : finiteSeconds arguments.staleLeaseSeconds "stale_lease_seconds" with
  | error error => exact .inl rfl
  | ok staleLeaseSeconds =>
      have finite : arguments.staleLeaseSeconds = some staleLeaseSeconds := by
        unfold finiteSeconds at stale
        split at stale
        · rename_i seconds given
          exact given.trans (congrArg some (Except.ok.inj (refuse_ok.mp stale).2))
        · cases stale
      cases finiteSeconds arguments.metadataRetentionSeconds "metadata_retention_seconds" with
      | error error => exact .inl rfl
      | ok metadataRetentionSeconds =>
          right
          rw [finite]
          have locked := collectLocked_yields environment arguments.dryRun store.locked staleLeaseSeconds
            metadataRetentionSeconds
          simp only [raiseIn, bind, Except.bind]
          cases run : collectLocked environment arguments.dryRun staleLeaseSeconds metadataRetentionSeconds
              ⟨store.locked, []⟩ with
          | ok outcome =>
              rw [run] at locked
              exact locked
          | error raised =>
              rw [run] at locked
              exact locked

/-- Nothing current, indexed or leased is lost, wherever a collection is interrupted. -/
theorem collections_interrupted (environment : Environment) (arguments : CollectArguments) (store : Store) :
    let world := worldOf (collectGarbage environment arguments store)
    (world = ⟨store, []⟩ ∨ world.store = replay Operation.effect world.performed store.locked) ∧
      ∀ stopped, Interrupted world.performed store.locked stopped →
        stopped.current = store.current ∧
        (∀ nodeKey, isNodeKey nodeKey = true → stopped.pointer nodeKey = store.pointer nodeKey) ∧
        ∀ generation, Kept environment arguments.staleLeaseSeconds store generation →
          stopped.generation generation = store.generation generation := by
  intro world
  have harmless : ∀ operation ∈ world.performed,
      Harmless environment arguments.staleLeaseSeconds store.locked operation := by
    rcases collectGarbage_progress environment arguments store with nothing | progress
    · intro operation member
      simp only [world, nothing] at member
      exact absurd member List.not_mem_nil
    · exact progress.harmless
  refine ⟨(collectGarbage_progress environment arguments store).imp_right Progress.replayed, ?_⟩
  intro stopped interrupted
  refine ⟨?_, fun nodeKey hex => ?_, fun generation kept => ?_⟩
  · exact interrupted.keeps (P := fun now => now.current = store.current) rfl
      (fun operation _ now same => (current_effect operation now).trans same)
      fun operation _ now next same torn => torn.current.trans same
  · have visible := isHex_undotted "." hex rfl
    refine interrupted.keeps (P := fun now => now.pointer nodeKey = store.pointer nodeKey) rfl
      (fun operation member now same => (pointer_effect ?_).trans same)
      fun operation _ now next same torn => (congrFun torn.pointer nodeKey).trans same
    rintro rfl
    rw [(harmless _ member).1 nodeKey rfl] at visible
    cases visible
  · have apart : ∀ operation ∈ world.performed, operation ≠ .removeGeneration generation := by
      rintro operation member rfl
      exact (harmless _ member).2.1 generation rfl kept.locked
    exact interrupted.keeps (P := fun now => now.generation generation = store.generation generation) rfl
      (fun operation member now same => (generation_effect (apart operation member)).trans same)
      fun operation member now next same torn => (torn.generation (apart operation member)).trans same

end Gambit.FactorStore
