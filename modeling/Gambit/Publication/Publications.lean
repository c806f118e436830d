import Gambit.Publication.Commits

/-!
# Publications, returned or interrupted

What `publish_generation` leaves wherever it stops, and what is read after it has
returned.
-/

set_option autoImplicit false

namespace Gambit.Publication

open PathTrees MappedColumn FactorIdentity FactorStore LoggedActions PowerLoss Triples

variable {φ : Type} {runtime : Runtime φ} {faults : Faults Exn} {draws : Draws} {request : Request runtime}
  {start disk left : Disk} {generation nodeKey : String}

theorem kept_guarded : Guarded (Kept start) := fun _ _ kept before path guarded =>
  (kept path guarded).trans (before path guarded)

theorem Kept.opens (kept : Kept start disk) (hex : isGeneration generation = true) (expected : Option String)
    (requireIdentity : Bool) : openGeneration runtime generation expected requireIdentity disk =
      openGeneration runtime generation expected requireIdentity start :=
  openGeneration_congr (fun path under => kept path (.inr (.inr ⟨generation, hex, under⟩))) expected requireIdentity

theorem Kept.current (kept : Kept start disk) : readCurrent disk = readCurrent start :=
  readCurrent_congr (kept ["CURRENT"] (.inl rfl))

theorem Kept.pointer (kept : Kept start disk) (isKey : isNodeKey nodeKey = true) (missingOk : Bool) :
    readNodePointer nodeKey missingOk disk = readNodePointer nodeKey missingOk start :=
  readNodePointer_congr (kept ["nodes", nodeKey] (.inr (.inl ⟨nodeKey, isKey, rfl⟩))) missingOk

/-! ## Leases -/

/-- What a lease holds is what is in the generation. -/
theorem openAndLease_does {expected : Option String} {requireIdentity : Bool} (hex : isGeneration generation = true) :
    Does (fun world => Kept start world.state)
      (openAndLease runtime faults draws generation expected requireIdentity)
      (fun lease _ => openGeneration runtime generation expected requireIdentity start = .ok lease.opened)
      fun _ _ => True := by
  refine Does.bind (Q := fun opened _ => openGeneration runtime generation expected requireIdentity start =
    .ok opened) (E := fun _ _ => True) ?_ fun opened => ?_
  · exact (Does.observe (A := Kept start) (B := fun opened _ =>
      openGeneration runtime generation expected requireIdentity start = .ok opened)
      fun disk kept opened run => (kept.opens hex expected requireIdentity).symm.trans run).post fun _ _ now => now
  · refine Does.given fun opens => ?_
    exact Does.any.bind fun _ => Does.any.bind fun _ => Does.any.bind fun _ => Does.pure fun _ _ => opens

theorem observe_does {α : Type} {look : Disk → Except Exn α} (same : ∀ disk, Kept start disk → look disk = look start) :
    Does (fun world => Kept start world.state) (observe faults look : Act α)
      (fun value world => Kept start world.state ∧ look start = .ok value) fun _ world => Kept start world.state :=
  Does.observe (A := Kept start) (B := fun value disk => Kept start disk ∧ look start = .ok value)
    fun disk kept _ run => ⟨kept, (same disk kept).symm.trans run⟩

theorem storeLock_keeps : Does (fun world => Kept start world.state) (takeLock faults ".lock")
    (fun _ world => Kept start world.state) fun _ _ => True :=
  (scratch_keeps storeLock_scratch).post fun _ _ kept => kept

/-! ## Returning -/

/-- How a publication returns: with the generation that its node has already, or with a new one. -/
inductive Outcome (draws : Draws) (request : Request runtime) (start : Disk) : String → Disk → Prop where
  | reused {generation : String} {opened : Opened φ} {disk : Disk} (identified : request.identity.isSome = true)
      (notReplaced : request.replaceGeneration = none)
      (indexed : readNodePointer request.nodeKey true start = .ok (some generation))
      (opens : openGeneration runtime generation (some request.nodeKey) true start = .ok opened)
      (kept : Kept start disk) : Outcome draws request start generation disk
  | built {disk : Disk} (published : Published draws request disk) : Outcome draws request start draws.generation disk

/-- The generation that is there opens, and nothing that is protected changes. -/
theorem reuse_does (hex : isGeneration generation = true) :
    Does (fun world => SafeFrom (AdvancedBy draws request start) start world ∧ Kept start world.state)
      (reuse runtime faults draws nodeKey generation)
      (fun returned world => SafeFrom (AdvancedBy draws request start) start world ∧ returned = generation ∧
        Kept start world.state ∧
        ∃ opened, openGeneration runtime generation (some nodeKey) true start = .ok opened)
      fun _ world => SafeFrom (AdvancedBy draws request start) start world := by
  have scratch : Does (fun world => SafeFrom (AdvancedBy draws request start) start world ∧ Kept start world.state)
      (reuse runtime faults draws nodeKey generation)
      (fun _ world => SafeFrom (AdvancedBy draws request start) start world ∧ Kept start world.state)
      fun _ world => SafeFrom (AdvancedBy draws request start) start world :=
    scratch_does advanced_guarded kept_guarded reuse_scratch
  have opens : Does (fun world => Kept start world.state) (reuse runtime faults draws nodeKey generation)
      (fun returned _ => returned = generation ∧
        ∃ opened, openGeneration runtime generation (some nodeKey) true start = .ok opened) fun _ _ => True := by
    refine storeLock_keeps.bind fun _ => (openAndLease_does hex).bind fun lease => ?_
    refine Does.given fun found => ?_
    exact Does.any.bind fun _ => Does.any.bind fun _ => Does.pure fun _ _ => ⟨rfl, lease.opened, found⟩
  exact (scratch.and opens).weaken (fun _ now => ⟨now, now.2⟩)
    (fun _ _ now => ⟨now.1.1, now.2.1, now.1.2, now.2.2⟩) fun _ _ now => now.1

theorem publishGeneration_does (hex : isGeneration draws.generation = true) :
    Does (fun world => SafeFrom (AdvancedBy draws request start) start world ∧ Kept start world.state)
      (publishGeneration runtime faults draws request)
      (fun generation world => SafeFrom (AdvancedBy draws request start) start world ∧
        Valid request ∧ Outcome draws request start generation world.state)
      fun _ world => SafeFrom (AdvancedBy draws request start) start world := by
  have advances : Guarded (AdvancedBy draws request start) := advanced_guarded
  by_cases checked : checkRequest runtime request = .ok ()
  · have valid := valid_of_check checked
    unfold publishGeneration
    rw [checked]
    refine Does.bind (Does.of (fun _ now _ _ => now) fun _ now _ _ => now.1) fun _ => ?_
    refine (scratch_does advances kept_guarded (takeLock_logs (scratch_create
      (clear_elsewhere (by decide) (by decide) (by decide))))).bind fun _ => ?_
    refine (scratch_does advances kept_guarded checkReplacement_scratch).bind fun _ => ?_
    have indexes : Does (fun world => SafeFrom (AdvancedBy draws request start) start world ∧ Kept start world.state)
        (indexedGeneration runtime faults request)
        (fun indexed world => (SafeFrom (AdvancedBy draws request start) start world ∧ Kept start world.state) ∧
          ∀ generation ∈ indexed, request.identity.isSome = true ∧
            readNodePointer request.nodeKey true start = .ok (some generation))
        fun _ world => SafeFrom (AdvancedBy draws request start) start world := by
      have logs : Logs Call.effect Scratch (indexedGeneration runtime faults request) :=
        Logs.ite (Logs.observe _) (Logs.pure _)
      have looks : Does (fun world => Kept start world.state) (indexedGeneration runtime faults request)
          (fun indexed _ => ∀ generation ∈ indexed, request.identity.isSome = true ∧
            readNodePointer request.nodeKey true start = .ok (some generation)) fun _ _ => True := by
        refine Does.ite (fun identified => ?_) fun _ => Does.pure fun _ _ _ none => absurd none (by simp)
        refine (observe_does fun disk kept => kept.pointer valid.nodeKey true).post ?_
        rintro indexed world ⟨-, read⟩ generation ⟨rfl⟩
        exact ⟨identified, read⟩
      exact ((scratch_does advances kept_guarded logs).and looks).weaken (fun _ now => ⟨now, now.2⟩)
        (fun _ _ now => now) fun _ _ now => now.1
    refine indexes.bind fun indexed => ?_
    have builds : Does (fun world => SafeFrom (AdvancedBy draws request start) start world)
        (buildGeneration runtime faults draws request)
        (fun generation world => SafeFrom (AdvancedBy draws request start) start world ∧
          Valid request ∧ Outcome draws request start generation world.state)
        fun _ world => SafeFrom (AdvancedBy draws request start) start world := by
      refine (buildGeneration_does hex valid).weaken (fun _ now => now) ?_ fun _ _ now => now
      rintro _ world ⟨safe, rfl, published⟩
      exact ⟨safe, valid, .built published⟩
    cases indexed with
    | none => exact builds.weaken (fun _ now => now.1.1) (fun _ _ now => now) fun _ _ now => now
    | some generation =>
        cases replaced : request.replaceGeneration with
        | some _ => exact builds.weaken (fun _ now => now.1.1) (fun _ _ now => now) fun _ _ now => now
        | none =>
            intro world now
            obtain ⟨before, found⟩ := now
            obtain ⟨identified, read⟩ := found generation rfl
            refine (Does.weaken (reuse_does (readNodePointer_isGeneration read)) (fun _ now => now) ?_
              fun _ _ now => now) world before
            rintro _ after ⟨safe, rfl, kept, opened, opens⟩
            exact ⟨safe, valid, .reused identified replaced read opens kept⟩
  · intro world now
    unfold publishGeneration
    cases refused : checkRequest runtime request with
    | ok value => exact absurd refused checked
    | error error => exact now.1

/-! ## Every crash point -/

theorem safeFrom_start {J : Disk → Prop} (holds : J start) : SafeFrom J start ⟨start, [], 0⟩ where
  replayed := rfl
  killed := by
    intro left killed
    cases killed
    exact holds

theorem publication_ends (faults : Faults Exn) (request : Request runtime) (hex : isGeneration draws.generation = true)
    (sound : Sound runtime start) :
    Ends (fun generation world => SafeFrom (AdvancedBy draws request start) start world ∧ Valid request ∧
        Outcome draws request start generation world.state)
      (fun _ world => SafeFrom (AdvancedBy draws request start) start world)
      (publishGeneration runtime faults draws request ⟨start, [], 0⟩) :=
  publishGeneration_does hex ⟨start, [], 0⟩ ⟨safeFrom_start (advanced_refl sound), Kept.refl start⟩

theorem publication_killed {faults : Faults Exn} {draws : Draws} {request : Request runtime}
    (hex : isGeneration draws.generation = true) (sound : Sound runtime start)
    (killed : Killed Call.effect Torn (publishGeneration runtime faults draws request ⟨start, [], 0⟩).2.log start left) :
    Advanced runtime draws.generation request.nodeKey start left := by
  have ends := publication_ends faults request hex sound
  rcases run : publishGeneration runtime faults draws request ⟨start, [], 0⟩ with ⟨error | generation, after⟩
  · rw [run] at ends killed
    exact ends.killed left killed
  · rw [run] at ends killed
    exact ends.1.killed left killed

/-! ## A small publication -/

def emptyStore : Disk := Tree.bare ()

def plainRuntime : Runtime Int := ⟨wholeFloats, fun float number => float = number, String.ofList, checksums⟩

def firstDraws : Draws where
  generation := "00112233445566778899aabbccddeeff"
  createdNs := 1
  accessStaging := "a0"
  accessNs := 2
  lease := "b0"
  leaseNs := 3
  pid := 1
  hostname := "host"

/-- One column of two values, without an identity. -/
def priceRequest : Request plainRuntime where
  nodeKey := String.ofList (List.replicate 64 'a')
  columns := OrderedDict.empty.set "price" (.vector [0x3ff0000000000000, 0])
  identity := none
  made := by
    rintro made ⟨⟩
  replaceGeneration := none
  verifyWritten := false

theorem emptyStore_sound : Sound runtime emptyStore where
  current present := absurd rfl present
  nodes _ _ present := absurd rfl present

/-- Wherever a publication stops, CURRENT and the pointers of the nodes name complete generations:
those that they named before, or the new one.  No generation that was there is changed. -/
theorem publications_interrupted (faults : Faults Exn) (request : Request runtime)
    (hex : isGeneration draws.generation = true) (sound : Sound runtime start) :
    let after := (publishGeneration runtime faults draws request ⟨start, [], 0⟩).2
    after.state = replay Call.effect after.log start ∧
      ∀ left, Killed Call.effect Torn after.log start left →
        Advanced runtime draws.generation request.nodeKey start left := by
  refine ⟨?_, fun left killed => publication_killed hex sound killed⟩
  have ends := publication_ends faults request hex sound
  rcases run : publishGeneration runtime faults draws request ⟨start, [], 0⟩ with ⟨error | generation, after⟩
  · rw [run] at ends
    exact ends.replayed
  · rw [run] at ends
    exact ends.1.replayed

theorem publications_interrupted_first :
    let after := (publishGeneration plainRuntime noFaults firstDraws priceRequest ⟨emptyStore, [], 0⟩).2
    after.state = replay Call.effect after.log emptyStore ∧
      ∀ left, Killed Call.effect Torn after.log emptyStore left →
        Advanced plainRuntime firstDraws.generation priceRequest.nodeKey emptyStore left :=
  publications_interrupted noFaults priceRequest (by decide) emptyStore_sound

/-! ## Reading what was published -/

theorem openCurrentGeneration_does (named : readCurrent disk = .ok generation) :
    Does (fun world => Kept disk world.state) (openCurrentGeneration runtime faults draws)
      (fun lease _ => openGeneration runtime generation none false disk = .ok lease.opened) fun _ _ => True := by
  refine storeLock_keeps.bind fun _ => Does.bind ((observe_does fun _ kept => kept.current).post fun _ _ now => now) fun found => ?_
  intro world now
  obtain ⟨kept, read⟩ := now
  rw [named] at read
  cases read
  exact openAndLease_does (readCurrent_isGeneration named) world kept

theorem requireNodePointer_of (named : readNodePointer nodeKey true disk = .ok (some generation)) :
    requireNodePointer nodeKey disk = .ok generation := by
  have strict : readNodePointer nodeKey false disk = .ok (some generation) := by
    unfold readNodePointer at named ⊢
    split at named
    · cases named
    · rename_i isKey
      rw [if_neg isKey]
      split at named
      · exact named
      · cases named
      · cases named
  unfold requireNodePointer
  rw [strict]
  rfl

theorem requireNodePointer_kept (kept : Kept start disk) (isKey : isNodeKey nodeKey = true) :
    requireNodePointer nodeKey disk = requireNodePointer nodeKey start := by
  unfold requireNodePointer
  rw [kept.pointer isKey]

theorem openGenerationByNodeKey_does (isKey : isNodeKey nodeKey = true)
    (named : readNodePointer nodeKey true disk = .ok (some generation)) (intervalNs : Option ℚ) :
    Does (fun world => Kept disk world.state) (openGenerationByNodeKey runtime faults draws nodeKey intervalNs)
      (fun lease _ => openGeneration runtime generation (some nodeKey) true disk = .ok lease.opened)
      fun _ _ => True := by
  cases intervalNs with
  | none => exact Does.raise fun _ _ => trivial
  | some intervalNs =>
      refine Does.ite (fun _ => Does.raise fun _ _ => trivial) fun _ => storeLock_keeps.bind fun _ => ?_
      refine Does.bind ((observe_does fun _ kept => requireNodePointer_kept kept isKey).post fun _ _ now => now)
        fun found => ?_
      by_cases same : found = generation
      · subst same
        refine Does.bind ((openAndLease_does (readNodePointer_isGeneration named)).weaken (fun _ now => now.1)
          (fun _ _ now => now) fun _ _ now => now) fun lease => ?_
        exact Does.given fun opens => Does.any.bind fun _ => Does.pure fun _ _ => opens
      · intro world now
        rw [requireNodePointer_of named] at now
        exact absurd (Except.ok.inj now.2).symm same

/-- Whoever opens the generation gets what was published. -/
structure ReadAs (request : Request runtime) (generation : String) (disk : Disk) : Prop where
  current : ∃ opened, readCurrent disk = .ok generation ∧
    openGeneration runtime generation none false disk = .ok opened ∧ Faithful request generation opened
  node : request.identity.isSome = true → ∃ opened, requireNodePointer request.nodeKey disk = .ok generation ∧
    openGeneration runtime generation (some request.nodeKey) true disk = .ok opened ∧
    Faithful request generation opened
  currentLease : ∀ faults draws log clock, Ends (fun lease _ => Faithful request generation lease.opened)
    (fun _ _ => True) (openCurrentGeneration runtime faults draws ⟨disk, log, clock⟩)
  nodeLease : request.identity.isSome = true → ∀ faults draws intervalNs log clock,
    Ends (fun lease _ => Faithful request generation lease.opened) (fun _ _ => True)
      (openGenerationByNodeKey runtime faults draws request.nodeKey intervalNs ⟨disk, log, clock⟩)

theorem Published.readAs (published : Published draws request disk) (valid : Valid request) :
    ReadAs request draws.generation disk where
  current := by
    obtain ⟨opened, run, faithful⟩ := published.inPlace.opens valid
    exact ⟨opened, published.current, run, faithful⟩
  node := by
    intro identified
    obtain ⟨opened, run, faithful⟩ := published.inPlace.opens_identified valid identified
    exact ⟨opened, requireNodePointer_of (published.node identified), run, faithful⟩
  currentLease := by
    intro faults draws' log clock
    obtain ⟨opened, run, faithful⟩ := published.inPlace.opens valid
    refine ((openCurrentGeneration_does published.current).post fun lease _ found => ?_) ⟨disk, log, clock⟩ (Kept.refl disk)
    rw [run] at found
    cases found
    exact faithful
  nodeLease := by
    intro identified faults draws' intervalNs log clock
    obtain ⟨opened, run, faithful⟩ := published.inPlace.opens_identified valid identified
    refine ((openGenerationByNodeKey_does valid.nodeKey (published.node identified) intervalNs).post
      fun lease _ found => ?_) ⟨disk, log, clock⟩ (Kept.refl disk)
    rw [run] at found
    cases found
    exact faithful

/-- A publication that returns has published what it was called with, or found its node indexed. -/
theorem publications_read_back (faults : Faults Exn) (request : Request runtime)
    (hex : isGeneration draws.generation = true) (sound : Sound runtime start) :
    Does (fun world => world = ⟨start, [], 0⟩) (publishGeneration runtime faults draws request)
      (fun generation after => generation = draws.generation ∧ ReadAs request generation after.state ∨
        request.identity.isSome = true ∧ request.replaceGeneration = none ∧
          readNodePointer request.nodeKey true start = .ok (some generation) ∧
          (∃ opened, openGeneration runtime generation (some request.nodeKey) true start = .ok opened) ∧
          Kept start after.state)
      fun _ _ => True := by
  rintro _ rfl
  have ends := publication_ends faults request hex sound
  rcases run : publishGeneration runtime faults draws request ⟨start, [], 0⟩ with ⟨error | generation, after⟩
  · trivial
  · rw [run] at ends
    obtain ⟨-, valid, outcome⟩ := ends
    cases outcome with
    | reused identified notReplaced indexed opens kept =>
        exact .inr ⟨identified, notReplaced, indexed, ⟨_, opens⟩, kept⟩
    | built published => exact .inl ⟨rfl, published.readAs valid⟩

theorem publications_read_back_first :
    (publishGeneration plainRuntime noFaults firstDraws priceRequest ⟨emptyStore, [], 0⟩).1.toBool = true ∧
      Does (fun world => world = ⟨emptyStore, [], 0⟩) (publishGeneration plainRuntime noFaults firstDraws priceRequest)
        (fun generation after => generation = firstDraws.generation ∧ ReadAs priceRequest generation after.state ∨
          priceRequest.identity.isSome = true ∧ priceRequest.replaceGeneration = none ∧
            readNodePointer priceRequest.nodeKey true emptyStore = .ok (some generation) ∧
            (∃ opened, openGeneration plainRuntime generation (some priceRequest.nodeKey) true emptyStore = .ok opened) ∧
            Kept emptyStore after.state)
        fun _ _ => True :=
  ⟨by decide +kernel, publications_read_back noFaults priceRequest (by decide) emptyStore_sound⟩

/-! ## Publishing again -/

/-- A node that is indexed is not published again. -/
theorem publishGeneration_indexed (identified : request.identity.isSome = true)
    (notReplaced : request.replaceGeneration = none)
    (indexed : readNodePointer request.nodeKey true start = .ok (some generation)) :
    Does (fun world => Kept start world.state) (publishGeneration runtime faults draws request)
      (fun again world => again = generation ∧ Kept start world.state) fun _ world => Kept start world.state := by
  have isKey : isNodeKey request.nodeKey = true := by
    by_contra other
    unfold readNodePointer at indexed
    rw [if_pos other] at indexed
    cases indexed
  have locked : Logs Call.effect Scratch (takeLock faults ".writer.lock") :=
    takeLock_logs (scratch_create (clear_elsewhere (by decide) (by decide) (by decide)))
  refine Does.bind (Does.of (fun _ now _ _ => now) fun _ now _ _ => now) fun _ => ?_
  refine (scratch_keeps locked).bind fun _ => (scratch_keeps checkReplacement_scratch).bind fun _ => ?_
  unfold indexedGeneration
  rw [if_pos identified]
  refine (observe_does fun _ kept => kept.pointer isKey true).bind fun found => ?_
  by_cases same : some generation = found
  · subst same
    rw [notReplaced]
    have returns : Does (fun _ => True) (reuse runtime faults draws request.nodeKey generation)
        (fun again _ => again = generation) fun _ _ => True :=
      Does.any.bind fun _ => Does.any.bind fun _ => Does.any.bind fun _ => Does.any.bind fun _ => Does.pure fun _ _ => rfl
    exact (returns.and (scratch_keeps reuse_scratch)).weaken (fun _ now => ⟨trivial, now.1⟩) (fun _ _ now => now)
      fun _ _ now => now.2
  · intro world now
    rw [indexed] at now
    exact absurd (Except.ok.inj now.2) same

/-- After a node has been published, publishing it again gives the same generation, and changes
nothing that is protected even where it raises. -/
theorem republications_keep (faults : Faults Exn) (request : Request runtime)
    (hex : isGeneration draws.generation = true) (sound : Sound runtime start)
    (identified : request.identity.isSome = true) :
    Does (fun world => world = ⟨start, [], 0⟩) (publishGeneration runtime faults draws request)
      (fun generation after => ∀ (others : Faults Exn) (othersDraws : Draws) (again : Request runtime),
        again.nodeKey = request.nodeKey → again.identity.isSome = true → again.replaceGeneration = none →
          Ends (fun returned later => returned = generation ∧ Kept after.state later.state)
            (fun _ later => Kept after.state later.state)
            (publishGeneration runtime others othersDraws again ⟨after.state, [], 0⟩))
      fun _ _ => True := by
  rintro _ rfl
  have ends := publication_ends faults request hex sound
  rcases run : publishGeneration runtime faults draws request ⟨start, [], 0⟩ with ⟨error | generation, after⟩
  · trivial
  · rw [run] at ends
    obtain ⟨-, valid, outcome⟩ := ends
    have indexed : readNodePointer request.nodeKey true after.state = .ok (some generation) := by
      cases outcome with
      | reused _ _ indexed _ kept => exact (kept.pointer valid.nodeKey true).trans indexed
      | built published => exact published.node identified
    intro others othersDraws again sameKey againIdentified notReplaced
    rw [← sameKey] at indexed
    exact publishGeneration_indexed againIdentified notReplaced indexed _ (Kept.refl _)

/-- A digest that is the same for all texts. -/
def keyedRuntime : Runtime Int := { plainRuntime with hexdigest := fun _ => String.ofList (List.replicate 64 'b') }

/-- The column of an identity. -/
def zscoreRequest : Option (Request keyedRuntime) :=
  match made : create wholeFloats (zscore window) with
  | .ok identity => some {
      nodeKey := identity.nodeKey keyedRuntime.hexdigest
      columns := OrderedDict.empty.set "zscore" (.vector [0x3ff0000000000000])
      identity := some identity
      made := by
        rintro _ ⟨rfl⟩
        exact ⟨_, made⟩
      replaceGeneration := none
      verifyWritten := true }
  | .error _ => none

theorem republications_keep_zscore : ∃ request, zscoreRequest = some request ∧
    (publishGeneration keyedRuntime noFaults firstDraws request ⟨emptyStore, [], 0⟩).1.toBool = true ∧
    Does (fun world => world = ⟨emptyStore, [], 0⟩) (publishGeneration keyedRuntime noFaults firstDraws request)
      (fun generation after => ∀ (others : Faults Exn) (othersDraws : Draws) (again : Request keyedRuntime),
        again.nodeKey = request.nodeKey → again.identity.isSome = true → again.replaceGeneration = none →
          Ends (fun returned later => returned = generation ∧ Kept after.state later.state)
            (fun _ later => Kept after.state later.state)
            (publishGeneration keyedRuntime others othersDraws again ⟨after.state, [], 0⟩))
      fun _ _ => True := by
  have runs : (zscoreRequest.any fun request => request.identity.isSome &&
      (publishGeneration keyedRuntime noFaults firstDraws request ⟨emptyStore, [], 0⟩).1.toBool) = true := by
    decide +kernel
  obtain ⟨request, found, both⟩ := (Option.any_eq_true _ _).mp runs
  obtain ⟨identified, returns⟩ := Bool.and_eq_true_iff.mp both
  exact ⟨request, found, returns, republications_keep noFaults request (by decide) emptyStore_sound identified⟩

end Gambit.Publication
