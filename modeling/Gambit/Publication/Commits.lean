import Gambit.Publication.RoundTrip

/-!
# Publication at every crash point

A publication puts its generation in place before any pointer names it.  Wherever
the process dies, the pointers name what they named before or the new generation,
and what they name is complete.
-/

set_option autoImplicit false

namespace Gambit.Publication

open PathTrees MappedColumn PythonJson FactorIdentity FactorStore LoggedActions PowerLoss

variable {φ : Type} {runtime : Runtime φ} {faults : Faults Exn} {draws : Draws} {request : Request runtime}
  {start disk after : Disk} {generation nodeKey : String}

/-- A sound store in which a publication has come some way from `start`. -/
structure Advanced (runtime : Runtime φ) (generation nodeKey : String) (start disk : Disk) : Prop where
  sound : Sound runtime disk
  generations : SameGenerations start disk
  current : disk.node ["CURRENT"] = start.node ["CURRENT"] ∨ readCurrent disk = .ok generation
  nodes : ∀ key, isNodeKey key = true → disk.node ["nodes", key] = start.node ["nodes", key] ∨
    key = nodeKey ∧ readNodePointer key true disk = .ok (some generation)

theorem advanced_guarded : Guarded (Advanced runtime generation nodeKey start) := by
  intro base disk kept advanced
  refine ⟨advanced.sound.kept kept, ?_, ?_, ?_⟩
  · intro other hex there path under
    rw [kept path (.inr (.inr ⟨other, hex, under⟩))]
    exact advanced.generations other hex there path under
  · have same := kept ["CURRENT"] (.inl rfl)
    rw [same, readCurrent_congr same]
    exact advanced.current
  · intro key hex
    have same := kept ["nodes", key] (.inr (.inl ⟨key, hex, rfl⟩))
    rw [same, readNodePointer_congr same]
    exact advanced.nodes key hex

theorem advanced_refl (sound : Sound runtime start) : Advanced runtime generation nodeKey start start :=
  ⟨sound, fun _ _ _ _ _ => rfl, .inl rfl, fun _ _ => .inl rfl⟩

/-! ## Renaming -/

variable {parent : List String} {source target : String} {content : File}

theorem rename_untorn (torn : Torn (.rename parent source target) disk after) : after = disk := by
  cases torn
  rfl

/-- A file is renamed in one step, onto what is no directory. -/
theorem renameFile_ok (there : disk.node (parent ++ [source]) = some (.leaf content)) (apart : source ≠ target)
    (run : (Call.rename parent source target).apply disk = .ok after) :
    after.node (parent ++ [target]) = some (.leaf content) ∧
      ∀ path, ¬ parent ++ [source] <+: path → path ≠ parent ++ [target] → after.node path = disk.node path := by
  simp only [Call.apply, there, if_neg apart] at run
  obtain ⟨placed, overwritten, rfl⟩ := Option.map_eq_some_iff.mp (orRaise_ok.mp run)
  have node := (Tree.overwrite?_some overwritten).2
  constructor
  · rw [Tree.node_delete, node]
    · exact if_pos rfl
    intro under
    have same := List.append_cancel_left (under.eq_of_length (by simp))
    exact apart (List.cons.inj same).1
  · intro path notSource notTarget
    rw [Tree.node_delete notSource, node]
    exact if_neg notTarget

/-- A directory is renamed only to where nothing is. -/
theorem renameDirectory_ok (there : disk.IsBranch (parent ++ [source])) (apart : source ≠ target)
    (run : (Call.rename parent source target).apply disk = .ok after) :
    disk.node (parent ++ [target]) = none ∧
      (∀ below, after.node (parent ++ [target] ++ below) = disk.node (parent ++ [source] ++ below)) ∧
      ∀ path, ¬ parent ++ [source] <+: path → ¬ parent ++ [target] <+: path → after.node path = disk.node path := by
  obtain ⟨label, there⟩ := there
  simp only [Call.apply, there, if_neg apart] at run
  have moved := orRaise_ok.mp run
  exact ⟨(Tree.move?_some moved).1.2.1, Tree.node_move_under moved,
    fun path notSource notTarget => Tree.node_move_outside moved notSource notTarget⟩

/-- A rename that is safe, and what it establishes. -/
theorem rename_does {J P Q : Disk → Prop}
    (whole : ∀ disk after, J disk → P disk → (Call.rename parent source target).apply disk = .ok after →
      J after ∧ Q after) :
    Does (fun world => SafeFrom J start world ∧ P world.state) (call faults (.rename parent source target))
      (fun _ world => SafeFrom J start world ∧ Q world.state) fun _ world => SafeFrom J start world := by
  intro world before
  obtain ⟨safe, ready⟩ := before
  have now := safe.now
  have effect : J ((Call.rename parent source target).effect world.state) := by
    cases run : (Call.rename parent source target).apply world.state with
    | ok after =>
        rw [effect_of_apply run]
        exact (whole _ _ now ready run).1
    | error error =>
        rw [effect_of_error run]
        exact now
  have kept : SafeFrom J start (call faults (.rename parent source target) world).2 :=
    safe.perform (apply_effect _) effect fun left torn => by
      rw [rename_untorn torn]
      exact now
  have done : Does (fun world => J world.state ∧ P world.state) (call faults (.rename parent source target))
      (fun _ world => Q world.state) fun _ _ => True :=
    Does.perform (A := fun disk => J disk ∧ P disk) (B := Q) (C := fun _ => True)
      (fun disk after both run => (whole disk after both.1 both.2 run).2) fun _ _ => trivial
  have ends := done world ⟨now, ready⟩
  rcases run : call faults (.rename parent source target) world with ⟨error | value, after⟩
  · rw [run] at kept
    exact kept
  · rw [run] at kept ends
    exact ⟨kept, ends⟩

/-! ## The generation -/

theorem Filled.congr {place : List String} {written : List (String × Column)} {snapshot : Option (PyValue φ)}
    (filled : Filled draws request place written snapshot disk) {other : List String}
    (same : ∀ below, after.node (other ++ below) = disk.node (place ++ below)) :
    Filled draws request other written snapshot after where
  stored := filled.stored
  printed := filled.printed
  manifest := by
    obtain ⟨text, printed, file⟩ := filled.manifest
    exact ⟨text, printed, (same _).trans file⟩
  placed := by
    intro column member
    obtain ⟨sized, file⟩ := filled.placed column member
    exact ⟨sized, (same _).trans file⟩

theorem Filled.isBranch {place : List String} {written : List (String × Column)} {snapshot : Option (PyValue φ)}
    (filled : Filled draws request place written snapshot disk) : disk.IsBranch place := by
  obtain ⟨text, printed, file⟩ := filled.manifest
  refine disk.branch_of_below (List.cons_ne_nil "manifest.json" []) ?_
  rw [file]
  exact Option.some_ne_none _

theorem stagingName_ne (generation : String) : stagingName generation ≠ generation := by
  intro same
  have chars := congrArg (fun name => name.toList.length) same
  simp only [stagingName, String.toList_append, List.length_append] at chars
  have : ".staging-".toList.length = 9 := rfl
  omega

/-- Putting a staged generation in its place changes no generation that is there. -/
theorem Advanced.rename (advanced : Advanced runtime generation nodeKey start disk)
    (staged : disk.IsBranch ["generations", stagingName generation])
    (run : (Call.rename ["generations"] (stagingName generation) generation).apply disk = .ok after) :
    Advanced runtime generation nodeKey start after := by
  obtain ⟨free, _, same⟩ := renameDirectory_ok staged (stagingName_ne generation) run
  have free' : disk.node (generationPath generation) = none := free
  -- what is protected and not of this generation is as it was
  have others : ∀ path, Protected path → ¬ generationPath generation <+: path → after.node path = disk.node path := by
    intro path guarded apart
    refine same path ?_ apart
    rintro ⟨below, rfl⟩
    exact clear_staging generation below guarded
  have named : ∀ other, disk.node (generationPath other) ≠ none → ∀ path, generationPath other <+: path →
      ¬ generationPath generation <+: path := by
    rintro other there path ⟨below, rfl⟩ under
    have equal := (List.prefix_of_prefix_length_le under (List.prefix_append _ _) (by simp [generationPath])).eq_of_length
      (by simp [generationPath])
    rw [← equal] at there
    exact there free'
  have current := others ["CURRENT"] (.inl rfl) (by
    rintro ⟨below, other⟩
    exact absurd (List.cons.inj other).1 (by decide))
  have nodes : ∀ key, isNodeKey key = true → after.node ["nodes", key] = disk.node ["nodes", key] := fun key hex =>
    others _ (.inr (.inl ⟨key, hex, rfl⟩)) (by
      rintro ⟨below, other⟩
      exact absurd (List.cons.inj other).1 (by decide))
  have stay : SameGenerations disk after := fun other hex there path under =>
    others path (.inr (.inr ⟨other, hex, under⟩)) (named other there path under)
  refine ⟨⟨advanced.sound.current_same stay current, fun key hex => advanced.sound.node_same stay hex (nodes key hex)⟩,
    ?_, ?_, ?_⟩
  · intro other hex there path under
    have before := advanced.generations other hex there
    have present : disk.node (generationPath other) ≠ none := by
      rw [before _ (List.prefix_refl _)]
      exact there
    exact (stay other hex present path under).trans (before path under)
  · rw [current, readCurrent_congr current]
    exact advanced.current
  · intro key hex
    rw [nodes key hex, readNodePointer_congr (nodes key hex)]
    exact advanced.nodes key hex

/-! ## Statements of a publication -/

variable {α : Type} {action : Act α} {J P Q : Disk → Prop} {place : List String} {written : List (String × Column)}
  {snapshot : Option (PyValue φ)}

theorem Guarded.and (one : Guarded P) (two : Guarded Q) : Guarded fun disk => P disk ∧ Q disk :=
  fun base disk kept now => ⟨one base disk kept now.1, two base disk kept now.2⟩

/-- Scratch work is safe, and what is protected stays. -/
theorem scratch_does (guarded : Guarded J) (protects : Guarded P) (logs : Logs Call.effect Scratch action) :
    Does (fun world => SafeFrom J start world ∧ P world.state) action
      (fun _ world => SafeFrom J start world ∧ P world.state) fun _ world => SafeFrom J start world := by
  have stays : Does (fun world => P world.state) action (fun _ world => P world.state) fun _ world => P world.state := by
    intro world now
    have keeps : Does (fun later => Kept world.state later.state) action
        (fun _ later => Kept world.state later.state) fun _ later => Kept world.state later.state := scratch_keeps logs
    have ends : Does (fun later => Kept world.state later.state) action (fun _ later => P later.state)
        fun _ later => P later.state :=
      keeps.weaken (fun _ same => same) (fun _ _ kept => protects _ _ kept now) fun _ _ kept => protects _ _ kept now
    exact ends world (Kept.refl world.state)
  exact ((scratch_safe guarded logs).and stays).weaken (fun _ now => now) (fun _ _ now => now) fun _ _ now => now.1

/-- A pointer's text is in its staging file. -/
def InStaging (path : List String) (generation : String) (disk : Disk) : Prop :=
  disk.node path = some (.leaf (.text (generation.toList ++ ['\n'])))

theorem isHex_solid {length : Nat} {name : String} (hex : isHex length name = true) :
    ∀ c ∈ name.toList, isWhitespace c = false := by
  intro c member
  obtain ⟨-, digits⟩ := of_decide_eq_true hex
  have digit := List.all_eq_true.mp digits c member
  have each : ∀ c ∈ "0123456789abcdef".toList, isWhitespace c = false := by
    simp [isWhitespace]
  exact each c (of_decide_eq_true digit)

/-- The text of a pointer is its generation. -/
theorem strip_pointer (hex : isGeneration generation = true) :
    String.ofList (strip (generation.toList ++ ['\n'])) = generation := by
  have solid := isHex_solid hex
  have nonempty : generation.toList ≠ [] := by
    intro empty
    obtain ⟨length, -⟩ := of_decide_eq_true hex
    rw [empty] at length
    cases length
  obtain ⟨first, rest, chars⟩ := List.exists_cons_of_ne_nil nonempty
  have left : (generation.toList ++ ['\n']).dropWhile isWhitespace = generation.toList ++ ['\n'] := by
    rw [chars, List.cons_append, List.dropWhile_cons_of_neg]
    rw [solid first (chars ▸ List.mem_cons_self)]
    exact Bool.false_ne_true
  have right : generation.toList.reverse.dropWhile isWhitespace = generation.toList.reverse := by
    refine List.dropWhile_eq_self_iff.mpr fun some => ?_
    rw [solid _ (List.mem_reverse.mp (List.getElem_mem some))]
    exact Bool.false_ne_true
  have newline : isWhitespace '\n' = true := by decide
  rw [strip, left, List.reverse_append, List.reverse_singleton, List.singleton_append,
    List.dropWhile_cons_of_pos newline, right, List.reverse_reverse, String.ofList_toList]

theorem readPointer_staged {path : List String} (hex : isGeneration generation = true)
    (there : disk.node path = some (.leaf (.text (generation.toList ++ ['\n'])))) :
    readPointer path disk = .ok generation := by
  unfold readPointer readText
  rw [there]
  exact congrArg _ (strip_pointer hex)

/-! ## CURRENT -/

/-- The new generation stands in its place. -/
def InPlace (draws : Draws) (request : Request runtime) (disk : Disk) : Prop :=
  ∃ written snapshot, Filled draws request (generationPath draws.generation) written snapshot disk

theorem inPlace_congr (same : ∀ below, after.node (generationPath draws.generation ++ below) =
    disk.node (generationPath draws.generation ++ below)) (now : InPlace draws request disk) :
    InPlace draws request after := by
  obtain ⟨written, snapshot, filled⟩ := now
  exact ⟨written, snapshot, filled.congr same⟩

theorem inPlace_guarded (hex : isGeneration draws.generation = true) : Guarded (InPlace draws request) :=
  fun _ _ kept now => inPlace_congr
    (fun _ => kept _ (.inr (.inr ⟨draws.generation, hex, List.prefix_append _ _⟩))) now

theorem InPlace.opens (now : InPlace draws request disk) (valid : Valid request) :
    ∃ opened, openGeneration runtime draws.generation none false disk = .ok opened ∧
      Faithful request draws.generation opened := by
  obtain ⟨written, snapshot, filled⟩ := now
  exact filled.opens valid (.inl rfl) fun asked => absurd asked Bool.false_ne_true

theorem InPlace.opens_identified (now : InPlace draws request disk) (valid : Valid request)
    (identified : request.identity.isSome = true) :
    ∃ opened, openGeneration runtime draws.generation (some request.nodeKey) true disk = .ok opened ∧
      Faithful request draws.generation opened := by
  obtain ⟨written, snapshot, filled⟩ := now
  exact filled.opens valid (.inr rfl) fun _ => identified

/-- A pointer now names the generation, and what else is protected is as it was. -/
structure Repointed (path : List String) (generation : String) (disk after : Disk) : Prop where
  named : InStaging path generation after
  same : ∀ other, Protected other → other ≠ path → after.node other = disk.node other

/-- The pointer is written beside its place, and put there at once. -/
theorem replacePointer_does {staging name : String} (guarded : Guarded J) (protects : Guarded P) (later : Guarded Q)
    (clear : Clear (parent ++ [staging])) (apart : staging ≠ name)
    (whole : ∀ disk after, J disk → P disk → Repointed (parent ++ [name]) generation disk after → J after ∧ Q after) :
    Does (fun world => SafeFrom J start world ∧ P world.state) (replacePointer faults parent staging name generation)
      (fun _ world => SafeFrom J start world ∧ Q world.state) fun _ world => SafeFrom J start world := by
  have logs : Logs Call.effect Scratch (writeFile faults parent staging (generation.toList ++ ['\n'])) :=
    writeFile_logs (onFile_scratch clear)
  have written : Does (fun world => SafeFrom J start world ∧ P world.state)
      (writeFile faults parent staging (generation.toList ++ ['\n']))
      (fun _ world => SafeFrom J start world ∧ P world.state ∧ InStaging (parent ++ [staging]) generation world.state)
      fun _ world => SafeFrom J start world :=
    ((scratch_does guarded protects logs).and (writeFile_does _)).weaken (fun _ now => ⟨now, trivial⟩)
      (fun _ _ now => ⟨now.1.1, now.1.2, now.2⟩) fun _ _ now => now.1
  refine written.bind fun _ => ?_
  refine (rename_does (P := fun disk => P disk ∧ InStaging (parent ++ [staging]) generation disk) (Q := Q)
    fun disk after safe now run => ?_).bind fun _ => scratch_does guarded later (flushDirectory_scratch parent)
  obtain ⟨holds, staged⟩ := now
  obtain ⟨named, same⟩ := renameFile_ok staged apart run
  refine whole disk after safe holds ⟨named, fun other guarded differs => same other ?_ differs⟩
  rintro ⟨below, rfl⟩
  exact clear below guarded

theorem Repointed.generation_same {path : List String} {other : String} (repointed : Repointed path generation disk after)
    (hex : isGeneration other = true) (pointer : ¬ generationPath other <+: path) :
    ∀ below, generationPath other <+: below → after.node below = disk.node below := by
  intro below under
  refine repointed.same below (.inr (.inr ⟨other, hex, under⟩)) ?_
  rintro rfl
  exact pointer under

theorem current_not_under (other : String) : ¬ generationPath other <+: ["CURRENT"] := by
  rintro ⟨below, same⟩
  exact absurd (List.cons.inj same).1 (by decide)

theorem node_not_under (other key : String) : ¬ generationPath other <+: ["nodes", key] := by
  rintro ⟨below, same⟩
  exact absurd (List.cons.inj same).1 (by decide)

/-- CURRENT is replaced once the generation is in its place. -/
theorem Advanced.repointCurrent (advanced : Advanced runtime generation nodeKey start disk)
    (hex : isGeneration generation = true) (repointed : Repointed ["CURRENT"] generation disk after)
    (opens : ∃ opened, openGeneration runtime generation none false disk = .ok opened) :
    Advanced runtime generation nodeKey start after ∧ readCurrent after = .ok generation := by
  have named : readCurrent after = .ok generation := by
    unfold readCurrent
    rw [readPointer_staged hex repointed.named]
    exact if_pos hex
  have generations := fun other hex => repointed.generation_same hex (current_not_under other)
  have nodes : ∀ key, isNodeKey key = true → after.node ["nodes", key] = disk.node ["nodes", key] := fun key hex =>
    repointed.same _ (.inr (.inl ⟨key, hex, rfl⟩)) fun same => absurd (List.cons.inj same).1 (by decide)
  have stay : SameGenerations disk after := fun other isGen _ => generations other isGen
  refine ⟨⟨⟨fun _ => ?_, fun key isKey => advanced.sound.node_same stay isKey (nodes key isKey)⟩, ?_, .inr named, ?_⟩,
    named⟩
  · obtain ⟨opened, run⟩ := opens
    exact ⟨generation, opened, named, (openGeneration_congr (generations generation hex) none false).trans run⟩
  · exact fun other isGen there path under =>
      (generations other isGen path under).trans (advanced.generations other isGen there path under)
  · intro key isKey
    rw [nodes key isKey, readNodePointer_congr (nodes key isKey)]
    exact advanced.nodes key isKey

/-- So is the pointer of the node. -/
theorem Advanced.repointNode (advanced : Advanced runtime generation nodeKey start disk)
    (hex : isGeneration generation = true) (isKey : isNodeKey nodeKey = true)
    (repointed : Repointed ["nodes", nodeKey] generation disk after)
    (opens : ∃ opened, openGeneration runtime generation (some nodeKey) true disk = .ok opened) :
    Advanced runtime generation nodeKey start after ∧ readNodePointer nodeKey true after = .ok (some generation) := by
  have named : readNodePointer nodeKey true after = .ok (some generation) := by
    unfold readNodePointer
    rw [if_neg (not_not.mpr isKey), readPointer_staged hex repointed.named]
    exact if_pos hex
  have generations := fun other hex => repointed.generation_same hex (node_not_under other nodeKey)
  have current : after.node ["CURRENT"] = disk.node ["CURRENT"] :=
    repointed.same _ (.inl rfl) fun same => absurd (List.cons.inj same).1 (by decide)
  have nodes : ∀ key, isNodeKey key = true → key ≠ nodeKey → after.node ["nodes", key] = disk.node ["nodes", key] :=
    fun key hex other => repointed.same _ (.inr (.inl ⟨key, hex, rfl⟩)) fun same =>
      other (List.cons.inj (List.cons.inj same).2).1
  have stay : SameGenerations disk after := fun other isGen _ => generations other isGen
  refine ⟨⟨⟨advanced.sound.current_same stay current, ?_⟩, ?_, ?_, ?_⟩, named⟩
  · intro key hexKey present
    by_cases here : key = nodeKey
    · subst here
      obtain ⟨opened, run⟩ := opens
      exact ⟨generation, opened, named, (openGeneration_congr (generations generation hex) (some key) true).trans run⟩
    · exact advanced.sound.node_same stay hexKey (nodes key hexKey here) present
  · exact fun other isGen there path under =>
      (generations other isGen path under).trans (advanced.generations other isGen there path under)
  · rw [current, readCurrent_congr current]
    exact advanced.current
  · intro key hexKey
    by_cases here : key = nodeKey
    · subst here
      exact .inr ⟨rfl, named⟩
    · rw [nodes key hexKey here, readNodePointer_congr (nodes key hexKey here)]
      exact advanced.nodes key hexKey

theorem Repointed.inPlace {path : List String} (repointed : Repointed path generation disk after)
    (hex : isGeneration draws.generation = true) (pointer : ¬ generationPath draws.generation <+: path)
    (now : InPlace draws request disk) : InPlace draws request after :=
  inPlace_congr (fun _ => repointed.generation_same hex pointer _ (List.prefix_append _ _)) now

/-! ## The publication -/

/-- What a publication leaves that returns. -/
structure Published (draws : Draws) (request : Request runtime) (disk : Disk) : Prop where
  inPlace : InPlace draws request disk
  current : readCurrent disk = .ok draws.generation
  node : request.identity.isSome = true →
    readNodePointer request.nodeKey true disk = .ok (some draws.generation)

abbrev AdvancedBy (draws : Draws) (request : Request runtime) (start : Disk) : Disk → Prop :=
  Advanced runtime draws.generation request.nodeKey start

abbrev Staged (draws : Draws) (request : Request runtime) (disk : Disk) : Prop :=
  ∃ written snapshot, Filled draws request ["generations", stagingName draws.generation] written snapshot disk

theorem published_guarded (hex : isGeneration draws.generation = true) (isKey : isNodeKey request.nodeKey = true) :
    Guarded (Published draws request) := by
  intro base disk kept published
  refine ⟨inPlace_guarded hex base disk kept published.inPlace, ?_, ?_⟩
  · exact (readCurrent_congr (kept ["CURRENT"] (.inl rfl))).trans published.current
  · intro identified
    exact (readNodePointer_congr (kept ["nodes", request.nodeKey] (.inr (.inl ⟨_, isKey, rfl⟩))) true).trans
      (published.node identified)

theorem stage_safely : Does (SafeFrom (AdvancedBy draws request start) start) (stage runtime faults draws request)
    (fun _ world => SafeFrom (AdvancedBy draws request start) start world ∧ Staged draws request world.state)
    fun _ world => SafeFrom (AdvancedBy draws request start) start world :=
  ((scratch_safe advanced_guarded stage_scratch).and stage_does).weaken (fun _ now => ⟨now, trivial⟩)
    (fun _ _ now => now) fun _ _ now => now.1

/-- Taking the lock leaves the staging directory. -/
theorem lock_safely : Does (fun world => SafeFrom (AdvancedBy draws request start) start world ∧
      Staged draws request world.state) (takeLock faults ".lock")
    (fun _ world => SafeFrom (AdvancedBy draws request start) start world ∧ Staged draws request world.state)
    fun _ world => SafeFrom (AdvancedBy draws request start) start world := by
  have logs : Logs Call.effect (fun call => call = .create [] ".lock") (takeLock faults ".lock") := takeLock_logs rfl
  have stays := logs.keeps (J := Staged draws request) fun call only disk now => by
    obtain ⟨written, snapshot, filled⟩ := now
    refine ⟨written, snapshot, filled.congr fun below => node_effect ?_⟩
    rw [only]
    intro touches
    exact absurd (List.cons.inj touches).1 (by decide)
  exact ((scratch_safe advanced_guarded storeLock_scratch).and stays).weaken (fun _ now => now) (fun _ _ now => now)
    fun _ _ now => now.1

theorem commit_does (hex : isGeneration draws.generation = true) (valid : Valid request) :
    Does (fun world => SafeFrom (AdvancedBy draws request start) start world ∧ Staged draws request world.state)
      (commit runtime faults draws request)
      (fun _ world => SafeFrom (AdvancedBy draws request start) start world ∧ Published draws request world.state)
      fun _ world => SafeFrom (AdvancedBy draws request start) start world := by
  have inPlace : Guarded (InPlace draws request) := inPlace_guarded hex
  have current : Guarded fun disk => InPlace draws request disk ∧ readCurrent disk = .ok draws.generation :=
    inPlace.and fun base disk kept named => (readCurrent_congr (kept ["CURRENT"] (.inl rfl))).trans named
  have published : Guarded (Published draws request) := published_guarded hex valid.nodeKey
  refine lock_safely.bind fun _ => ?_
  refine Does.bind (rename_does (Q := InPlace draws request) fun disk after advanced staged run => ?_) fun _ => ?_
  · obtain ⟨written, snapshot, filled⟩ := staged
    obtain ⟨-, moved, -⟩ := renameDirectory_ok filled.isBranch (stagingName_ne draws.generation) run
    exact ⟨advanced.rename filled.isBranch run, written, snapshot, filled.congr moved⟩
  refine (scratch_does advanced_guarded inPlace (flushDirectory_scratch _)).bind fun _ => ?_
  refine Does.bind (replacePointer_does advanced_guarded inPlace current (clear_pointerStaging _)
    (pointerStaging_ne_current _) fun disk after advanced now repointed => ?_) fun _ => ?_
  · obtain ⟨opened, run, -⟩ := now.opens valid
    obtain ⟨safe, named⟩ := advanced.repointCurrent hex repointed ⟨opened, run⟩
    exact ⟨safe, repointed.inPlace hex (current_not_under _) now, named⟩
  refine Does.ite (fun identified => ?_) fun anonymous => Does.pure fun world now => ⟨now.1, now.2.1, now.2.2, ?_⟩
  · refine (scratch_does advanced_guarded current (ensureDirectory_scratch not_protected_nodes)).bind fun _ => ?_
    refine Does.bind (replacePointer_does advanced_guarded current published (clear_nodeStaging _ _) ?_
      fun disk after advanced now repointed => ?_) fun _ =>
        scratch_does advanced_guarded published (recordNodeAccess_scratch 0)
    · intro same
      have other := nodeStaging_not_nodeKey request.nodeKey draws.generation
      rw [same, valid.nodeKey] at other
      cases other
    · obtain ⟨now, named⟩ := now
      obtain ⟨opened, run, -⟩ := now.opens_identified valid identified
      obtain ⟨safe, indexed⟩ := advanced.repointNode hex valid.nodeKey repointed ⟨opened, run⟩
      have still : after.node ["CURRENT"] = disk.node ["CURRENT"] :=
        repointed.same _ (.inl rfl) fun same => absurd (List.cons.inj same).1 (by decide)
      exact ⟨safe, repointed.inPlace hex (node_not_under _ _) now, (readCurrent_congr still).trans named,
        fun _ => indexed⟩
  · intro identified
    exact absurd identified anonymous

theorem buildGeneration_does (hex : isGeneration draws.generation = true) (valid : Valid request) :
    Does (SafeFrom (AdvancedBy draws request start) start) (buildGeneration runtime faults draws request)
      (fun generation world => SafeFrom (AdvancedBy draws request start) start world ∧
        generation = draws.generation ∧ Published draws request world.state)
      fun _ world => SafeFrom (AdvancedBy draws request start) start world := by
  have advances : Guarded (AdvancedBy draws request start) := advanced_guarded
  refine (scratch_safe advances (ensureDirectory_scratch not_protected_generations)).bind fun _ => ?_
  refine (scratch_safe advances (call_logs ?_)).bind fun _ => ?_
  · rintro path rfl
    exact @clear_staging [] draws.generation []
  refine Does.bind (Does.rescue (stage_safely.bind fun _ => commit_does hex valid) fun error => ?_)
    fun _ => Does.pure fun world now => ⟨now.1, rfl, now.2⟩
  refine (scratch_safe advances (removeTreeIfThere_scratch (clear_staging _))).bind fun _ => ?_
  exact (scratch_safe advances (unlinkIfThere_scratch (clear_pointerStaging _))).bind fun _ => Does.raise fun _ now => now

end Gambit.Publication
