import Mathlib
import Gambit.Iterations.Buckets
import Gambit.Iterations.DenseLists

/-!
# Sparse iterations behave as a list of lists

Programs are observed alike as long as no bucket is extended from another view of
itself: such a call does not come back.
-/

set_option autoImplicit false

namespace Gambit.Iterations

open PythonLists

variable {α : Type} {world after : World α} {dense : Dense α}

section Represents

theorem Represents.length (represents : Represents world dense) :
    dense.lists.length = world.container.size := by
  rw [represents.lists, List.length_map, List.length_range]

theorem Represents.stored (represents : Represents world dense) {bucket : Nat}
    (inside : bucket < world.container.size) : dense.stored bucket = world.container.stored bucket := by
  rw [Dense.stored, represents.lists, List.getD_eq_getElem?_getD, List.getElem?_map,
    List.getElem?_range inside]
  rfl

/-- Replacing one list on both sides. -/
theorem Represents.put (represents : Represents world dense) {container : SparseIterations α}
    {bucket : Nat} {values : List α} (held : Holds world.container bucket values container) :
    Represents { world with container := container }
      { dense with lists := dense.lists.set bucket values } where
  notEmpty := held.sound
  lists := by
    apply List.ext_getElem?
    intro k
    rw [List.getElem?_set, represents.lists, List.length_map, List.length_range, held.size,
      List.getElem?_map, List.getElem?_map]
    rcases Nat.lt_or_ge k world.container.size with inside | outside
    · rw [List.getElem?_range inside]
      by_cases same : bucket = k
      · rw [if_pos same, if_pos (same ▸ inside), ← same, Option.map_some, held.here]
      · rw [if_neg same, Option.map_some, Option.map_some, held.others k fun e => same e.symm]
    · rw [List.getElem?_eq_none (by simpa using outside)]
      split
      · rw [if_neg (by omega)]
        rfl
      · rfl
  views := represents.views
  inside bucket member := held.size ▸ represents.inside bucket member

theorem Represents.view (represents : Represents world dense) {buckets : List Nat}
    (inside : ∀ bucket ∈ buckets, bucket < world.container.size) :
    Represents { world with views := world.views ++ buckets }
      { dense with views := dense.views ++ buckets } where
  notEmpty := represents.notEmpty
  lists := represents.lists
  views := congrArg (· ++ buckets) represents.views
  inside bucket member := (List.mem_append.mp member).elim (represents.inside bucket) (inside bucket)

theorem represents_new (size : Nat) : Represents (.new size : World α) (.new size) where
  notEmpty := nofun
  lists := by
    change List.replicate size [] = (List.range size).map fun _ => []
    simp
  views := rfl
  inside := nofun

end Represents

/-! ## Methods of buckets -/

section Methods

theorem changed_changes {self : SparseIterations α} {bucket : Nat} (sound : self.Sound)
    (inside : bucket < self.size) (change : List α → Except ListError (List α)) :
    Changes (do
      Bucket.replaceBy bucket change
      return Observation.done) self bucket
      (changed (self.stored bucket) (change (self.stored bucket))) := by
  cases outcome : change (self.stored bucket) with
  | ok values => exact (Bucket.replaceBy_ok sound inside change outcome).andReturn fun _ => Observation.done
  | error error => exact (Bucket.replaceBy_error sound inside change outcome).raises fun _ => Observation.done

/-- What a reading call comes back with, put into an observation. -/
theorem observed_changes {β : Type} {self : SparseIterations α} {bucket : Nat} (sound : self.Sound)
    {read : Call α β} {result : Except ListError β} (run : read self = some (result, self))
    (observe : β → Observation α) :
    Changes (do return observe (← read)) self bucket (result.map observe, self.stored bucket) := by
  cases result with
  | ok value => exact .reads sound (bind_ok run)
  | error error => exact .reads sound (bind_raised run)

/-- A source is read alike on both sides. -/
theorem Represents.read (represents : Represents world dense) (source : Source α) :
    (source.read world.views = none ∧ source.contents dense = none) ∨
      ∃ read values, source.read world.views = some read ∧ source.contents dense = some values ∧
        read world.container = some (.ok values, world.container) := by
  cases source with
  | list values => exact .inr ⟨_, values, rfl, rfl, rfl⟩
  | view other =>
      rw [Source.read, Source.contents, ← represents.views]
      cases found : world.views[other]? with
      | none => exact .inl ⟨rfl, rfl⟩
      | some bucket =>
          have inside := represents.inside bucket (List.mem_of_getElem? found)
          refine .inr ⟨_, dense.stored bucket, rfl, rfl, ?_⟩
          rw [represents.stored inside]
          exact Bucket.values_run inside

/-- An extension from a view comes back unless the bucket is another view's and holds values. -/
theorem extendView_settles (represents : Represents world dense) {view other bucket source : Nat}
    (atView : world.views[view]? = some bucket) (atOther : world.views[other]? = some source)
    (apart : dense.Apart (.bucket view (.extend (.view other)))) :
    Settles (Bucket.extendView bucket (other = view) source) world.container bucket
      (.ok (), world.container.stored bucket ++ dense.stored source) := by
  have inside := represents.inside bucket (List.mem_of_getElem? atView)
  rw [represents.stored (represents.inside source (List.mem_of_getElem? atOther))]
  unfold Bucket.extendView
  by_cases itself : other = view
  · subst itself
    rw [atView] at atOther
    cases atOther
    rw [decide_eq_true rfl]
    obtain ⟨after, run, held⟩ := Bucket.extendValues_changes represents.notEmpty inside
      (world.container.stored bucket)
    exact ⟨0, after, fun fuel _ => (bind_ok (Bucket.values_run inside)).trans run, held⟩
  · rw [decide_eq_false itself]
    by_cases same : source = bucket
    · -- the bucket itself, empty
      subst same
      rw [represents.views] at atView atOther
      have empty := (apart source atView atOther).resolve_left itself
      rw [represents.stored inside] at empty
      refine ⟨1, world.container, fun fuel enough => ?_, ?_, by simp⟩
      · obtain ⟨fuel, rfl⟩ := Nat.exists_eq_add_of_le' enough
        change Bucket.extendLive source source (fuel + 1) 0 world.container = _
        rw [Bucket.extendLive, get_bind, empty]
        rfl
      · have unchanged : Holds world.container source _ world.container := .refl represents.notEmpty
        rw [empty] at unchanged ⊢
        exact unchanged
    · obtain ⟨after, run, held⟩ :=
        Bucket.extendLive_run represents.notEmpty inside same (Nat.zero_le _)
      exact ⟨_, after, fun fuel enough => run fuel enough, held, by simp⟩

variable [BEq α]

theorem call_settles (represents : Represents world dense) {view bucket : Nat}
    (atView : world.views[view]? = some bucket) (operation : BucketOperation α)
    (apart : dense.Apart (.bucket view operation)) :
    Settles (operation.call world.views view bucket) world.container bucket
      (operation.onList dense (dense.stored bucket)) := by
  have inside := represents.inside bucket (List.mem_of_getElem? atView)
  have sound : world.container.Sound := represents.notEmpty
  have values := Bucket.values_run inside
  rw [represents.stored inside]
  cases operation with
  | len => exact (Changes.reads sound (bind_ok (bind_ok values))).settles
  | iterate => exact (Changes.reads sound (bind_ok values)).settles
  | getItem index =>
      exact (observed_changes sound (Bucket.getItem_run inside index) Observation.value).settles
  | getSlice slice => exact (observed_changes sound (bind_ok values) Observation.values).settles
  | equals other =>
      rcases represents.read other with ⟨none, none'⟩ | ⟨read, others, some_, contents, run⟩
      · simp only [BucketOperation.onList, none']
        exact ⟨0, _, fun _ _ => by simp only [BucketOperation.call, none]; rfl, .refl sound, nofun⟩
      · simp only [BucketOperation.onList, contents]
        exact ⟨0, _, fun _ _ => by
          simp only [BucketOperation.call, some_]
          exact (bind_ok values).trans (bind_ok run), .refl sound, nofun⟩
  | append value =>
      exact ((Bucket.append_changes sound inside value).andReturn fun _ => Observation.done).settles
  | insert index value => exact (changed_changes sound inside _).settles
  | extend source =>
      cases source with
      | list others =>
          exact ((Bucket.extendValues_changes sound inside others).andReturn
            fun _ => Observation.done).settles
      | view other =>
          simp only [BucketOperation.onList, Source.contents, ← represents.views]
          cases found : world.views[other]? with
          | none =>
              exact ⟨0, _, fun _ _ => by simp only [BucketOperation.call, found]; rfl, .refl sound, nofun⟩
          | some source =>
              obtain ⟨enough, after, run, held⟩ :=
                (extendView_settles represents atView found apart).andReturn fun _ => Observation.done
              exact ⟨enough, after, fun fuel reached => by
                simp only [BucketOperation.call, found]
                exact run fuel reached, held⟩
  | setItem index value => exact (changed_changes sound inside _).settles
  | setSlice slice replacement =>
      rcases represents.read replacement with ⟨none, none'⟩ | ⟨read, others, some_, contents, run⟩
      · simp only [BucketOperation.onList, none']
        exact ⟨0, _, fun _ _ => by simp only [BucketOperation.call, none]; rfl, .refl sound, nofun⟩
      · obtain ⟨after, more, held⟩ := changed_changes sound inside fun values =>
          PythonLists.setSlice values slice others
        simp only [BucketOperation.onList, contents]
        exact ⟨0, after, fun _ _ => by
          simp only [BucketOperation.call, some_]
          exact (bind_ok run).trans more, held⟩
  | delItem index => exact (changed_changes sound inside _).settles
  | delSlice slice => exact (changed_changes sound inside _).settles
  | pop index =>
      simp only [BucketOperation.onList]
      cases popped : PythonLists.pop (world.container.stored bucket) index with
      | ok result => exact ((Bucket.pop_ok sound inside popped).andReturn Observation.value).settles
      | error error => exact ((Bucket.pop_error sound inside popped).raises Observation.value).settles
  | clear => exact (Bucket.clear_settles sound inside).andReturn fun _ => Observation.done
  | reverse => exact ((Bucket.reverse_changes sound inside).andReturn fun _ => Observation.done).settles

end Methods

/-! ## The container itself -/

section Container

theorem index_eq (self : SparseIterations α) (index : Int) :
    self.index index = position self.size index := by
  unfold SparseIterations.index position
  simp only [ite_not]

/-- Every position of a slice is an index of the container. -/
theorem getSlice_eq (self : SparseIterations α) (slice : Slice) : (do
    let (start, stop, step) ← slice.indices self.size
    (range start stop step).mapM self.index) = slice.positions self.size := by
  unfold Slice.positions
  cases indices : slice.indices self.size with
  | error error => rfl
  | ok parts =>
      obtain ⟨start, stop, step⟩ := parts
      have found : ∀ positions : List Int, (∀ p ∈ positions, 0 ≤ p ∧ p < self.size) →
          positions.mapM self.index = .ok (positions.map Int.toNat) := by
        intro positions inside
        induction positions with
        | nil => rfl
        | cons p rest ih =>
            obtain ⟨notNegative, below⟩ := inside p List.mem_cons_self
            obtain ⟨k, rfl⟩ := Int.eq_ofNat_of_zero_le notNegative
            rw [List.mapM_cons, index_of_lt (by omega), ih fun q member =>
              inside q (List.mem_cons_of_mem _ member)]
            rfl
      exact found _ fun p member => Slice.mem_positions indices member

/-- Iterating yields every bucket, and ends. -/
theorem iterate_eq (self : SparseIterations α) {fuel i : Nat} (inside : i ≤ self.size)
    (enough : self.size < fuel + i) : self.iterate fuel i = some (List.range' i (self.size - i)) := by
  induction fuel generalizing i with
  | zero => omega
  | succ fuel ih =>
      unfold SparseIterations.iterate
      rcases Nat.lt_or_ge i self.size with more | last
      · have onward := ih (i := i + 1) more (by omega)
        rw [Nat.cast_add, Nat.cast_one] at onward
        rw [index_of_lt more]
        simp only [onward, Option.map_some]
        rw [← List.range'_succ]
        congr 2
        omega
      · have outside : self.index i = .error .indexError := by
          rw [index_eq, position]
          rw [if_neg (by omega)]
        rw [outside, show self.size - i = 0 by omega]
        rfl

theorem Represents.populatedCount (represents : Represents world dense) :
    world.container.populatedCount = dense.lists.countP fun values => !values.isEmpty := by
  rw [represents.lists, List.countP_map, List.countP_eq_length_filter]
  have keys : world.container.buckets.keys.Perm ((List.range world.container.size).filter
      ((fun values => !values.isEmpty) ∘ world.container.stored)) := by
    have distinct : world.container.buckets.keys.Nodup := world.container.buckets.distinct
    rw [List.perm_ext_iff_of_nodup distinct (List.nodup_range.filter _)]
    intro bucket
    rw [← OrderedDict.contains_iff, OrderedDict.contains, List.mem_filter, List.mem_range,
      Function.comp_apply, SparseIterations.stored]
    cases found : world.container.buckets.get? bucket with
    | none => simp
    | some values =>
        obtain ⟨filled, inside⟩ := represents.notEmpty bucket values found
        simp [filled, inside]
  exact (List.length_map _).symm.trans keys.length_eq

/-- New views of buckets in range. -/
theorem Represents.viewed (represents : Represents world dense) {result : Except ListError (List Nat)}
    (inside : ∀ buckets, result = .ok buckets → ∀ bucket ∈ buckets, bucket < world.container.size) :
    (world.viewed result).1 = (dense.viewed result).1 ∧
      Represents (world.viewed result).2 (dense.viewed result).2 ∧
      ∀ error, (dense.viewed result).1 = .error error → (world.viewed result).2.container = world.container := by
  cases result with
  | ok buckets => exact ⟨rfl, represents.view (inside buckets rfl), fun _ _ => rfl⟩
  | error error => exact ⟨rfl, represents, fun _ _ => rfl⟩

end Container

/-! ## One operation -/

section Step

variable [BEq α]

/-- With enough steps an operation comes back, and is observed alike. -/
def Alike (world : World α) (dense : Dense α) (operation : Operation α) : Prop :=
  ∃ enough after, (∀ fuel, enough ≤ fuel →
      world.perform fuel operation = some ((dense.step operation).1, after)) ∧
    Represents after (dense.step operation).2 ∧
    ∀ error, (dense.step operation).1 = .error error → after.container = world.container

/-- Operations that make new views. -/
theorem Represents.alike_viewed (represents : Represents world dense) {operation : Operation α}
    {result : Except ListError (List Nat)} (enough : Nat)
    (performed : ∀ fuel, enough ≤ fuel → world.perform fuel operation = some (world.viewed result))
    (stepped : dense.step operation = dense.viewed result)
    (inside : ∀ buckets, result = .ok buckets → ∀ bucket ∈ buckets, bucket < world.container.size) :
    Alike world dense operation := by
  obtain ⟨same, after, kept⟩ := represents.viewed inside
  rw [Alike, stepped]
  exact ⟨enough, _, fun fuel reached => by rw [performed fuel reached, ← same], after, kept⟩

theorem Represents.step (represents : Represents world dense) (operation : Operation α)
    (apart : dense.Apart operation) : Alike world dense operation := by
  cases operation with
  | len =>
      exact ⟨0, world, fun _ _ => by rw [Dense.step, represents.length]; rfl, represents, by simp⟩
  | populatedCount =>
      exact ⟨0, world, fun _ _ => by rw [Dense.step, ← represents.populatedCount]; rfl, represents, by simp⟩
  | getItem index =>
      refine represents.alike_viewed 0 (fun _ _ => rfl)
        (by rw [Dense.step, represents.length, index_eq]) fun buckets result bucket member => ?_
      rw [index_eq] at result
      cases counted : position world.container.size index with
      | error error =>
          rw [counted] at result
          cases result
      | ok k =>
          rw [counted] at result
          cases result
          rw [List.mem_singleton.mp member]
          exact position_lt counted
  | getSlice slice =>
      refine represents.alike_viewed 0 (fun _ _ => rfl)
        (by rw [Dense.step, represents.length, getSlice_eq]) fun buckets result bucket member => ?_
      rw [getSlice_eq] at result
      exact Slice.position_lt result member
  | iterate =>
      have whole : ∀ fuel, world.container.size + 1 ≤ fuel → world.perform fuel .iterate =
          some (world.viewed (.ok (List.range world.container.size))) := by
        intro fuel enough
        have yielded := iterate_eq world.container (Nat.zero_le _) enough
        rw [Nat.cast_zero] at yielded
        rw [World.perform, yielded, List.range_eq_range']
        rfl
      refine represents.alike_viewed _ whole (by rw [Dense.step, represents.length]) ?_
      intro buckets result bucket member
      cases result
      exact List.mem_range.mp member
  | readAt index =>
      refine ⟨0, world, fun _ _ => ?_, represents, fun _ _ => rfl⟩
      rw [World.perform, Dense.step, represents.length, SparseIterations.readAt, index_eq]
      cases counted : position world.container.size index with
      | error error => rfl
      | ok k => simp only [Except.map, bind, Except.bind, represents.stored (position_lt counted)]
  | appendAt index value =>
      simp only [Alike, Dense.step, represents.length]
      cases counted : position world.container.size index with
      | error error =>
          refine ⟨0, world, fun _ _ => ?_, represents, fun _ _ => rfl⟩
          simp only [World.perform, SparseIterations.appendAt, index_eq, counted, bind, Except.bind]
      | ok k =>
          have inside := position_lt counted
          obtain ⟨container, appended, held⟩ := appendAt_holds represents.notEmpty inside value
          rw [← represents.stored inside] at held
          have same : world.container.appendAt index value = .ok container := by
            rw [← appended, SparseIterations.appendAt, SparseIterations.appendAt, index_of_lt inside,
              index_eq, counted]
          refine ⟨0, { world with container := container }, fun _ _ => ?_, represents.put held, by simp⟩
          simp only [World.perform, same]
  | bucket view operation =>
      cases found : world.views[view]? with
      | none =>
          have absent : dense.views[view]? = none := represents.views ▸ found
          simp only [Alike, Dense.step, absent]
          refine ⟨0, world, fun _ _ => ?_, represents, by simp⟩
          simp only [World.perform, found]
      | some bucket =>
          have present : dense.views[view]? = some bucket := represents.views ▸ found
          simp only [Alike, Dense.step, present]
          obtain ⟨enough, container, run, held, kept⟩ := call_settles represents found operation apart
          refine ⟨enough, { world with container := container }, fun fuel reached => ?_, ?_, kept⟩
          · simp only [World.perform, found, run fuel reached]
            rfl
          · exact represents.put held

/-- An extension of a bucket that holds values, from another view of it, does not come back. -/
theorem Represents.diverges (represents : Represents world dense) {operation : Operation α}
    (notApart : ¬ dense.Apart operation) (fuel : Nat) : world.perform fuel operation = none := by
  unfold Dense.Apart at notApart
  split at notApart
  · rename_i view other
    push Not at notApart
    obtain ⟨bucket, atView, atOther, another, filled⟩ := notApart
    rw [← represents.views] at atView atOther
    have inside := represents.inside bucket (List.mem_of_getElem? atView)
    rw [represents.stored inside] at filled
    have loops : Bucket.extendView bucket (other = view) bucket fuel world.container = none := by
      rw [Bucket.extendView, decide_eq_false another]
      exact Bucket.extendLive_diverges represents.notEmpty inside (List.length_pos_iff.mpr filled)
    simp only [World.perform, atView, BucketOperation.call, atOther, bind_diverges loops]
    rfl
  · exact absurd trivial notApart

/-! ## Runs -/

theorem Represents.run_iff (represents : Represents world dense) (operations : List (Operation α)) :
    BehavesAsLists world dense operations ↔ dense.ApartThroughout operations := by
  induction operations generalizing world dense with
  | nil => exact ⟨fun _ => trivial, fun _ => ⟨0, fun _ _ => ⟨[], rfl, trivial⟩⟩⟩
  | cons operation rest ih =>
      constructor
      · rintro ⟨enough, behaves⟩
        have apart : dense.Apart operation := by
          by_contra notApart
          obtain ⟨trace, run, -⟩ := behaves enough le_rfl
          rw [World.run, represents.diverges notApart] at run
          cases run
        obtain ⟨steps, after, performed, represents', -⟩ := represents.step operation apart
        refine ⟨apart, (ih represents').mp ⟨max enough steps, fun fuel reached => ?_⟩⟩
        obtain ⟨trace, run, agrees⟩ := behaves fuel (le_of_max_le_left reached)
        rw [World.run, performed fuel (le_of_max_le_right reached)] at run
        obtain ⟨_, first, run⟩ := Option.bind_eq_some_iff.mp run
        cases first
        obtain ⟨later, restRun, traceEq⟩ := Option.bind_eq_some_iff.mp run
        cases traceEq
        exact ⟨later, restRun, agrees.2.2.2⟩
      · rintro ⟨apart, throughout⟩
        obtain ⟨steps, after, performed, represents', kept⟩ := represents.step operation apart
        obtain ⟨enough, behaves⟩ := (ih represents').mpr throughout
        refine ⟨max enough steps, fun fuel reached => ?_⟩
        obtain ⟨later, run, agrees⟩ := behaves fuel (le_of_max_le_left reached)
        refine ⟨(_, after) :: later, ?_, rfl, represents', kept, agrees⟩
        rw [World.run, performed fuel (le_of_max_le_right reached)]
        simp only [bind, Option.bind, run]

/-- A program on the container behaves as on a list of lists exactly if it extends no bucket that
holds values from another view of itself. -/
theorem sparseIterations_behaveAsLists_iff (size : Nat) (operations : List (Operation α)) :
    BehavesAsLists (.new size) (.new size) operations ↔
      (Dense.new size).ApartThroughout operations :=
  (represents_new size).run_iff operations

/-- `s[0].append(7); s[0].extend(s[0])`, the two views apart. -/
def extendFromItself : List (Operation Nat) :=
  [.appendAt 0 7, .getItem 0, .getItem 0, .bucket 0 (.extend (.view 1))]

/-- The lists hold twice the value; the container never comes back. -/
theorem extendFromItself_diverges :
    (∀ fuel, (World.new 1).run fuel extendFromItself = none) ∧
      ¬ BehavesAsLists (.new 1) (.new 1) extendFromItself := by
  have diverges : ∀ fuel, (World.new 1).run fuel extendFromItself = none := by
    intro fuel
    have filled : Holds (.new 1) 0 [7] ⟨1, OrderedDict.empty.set 0 [7]⟩ :=
      set_holds nofun Nat.one_pos (by decide)
    have loops : Bucket.extendView 0 (decide (1 = 0)) 0 fuel ⟨1, OrderedDict.empty.set 0 [7]⟩ = none :=
      Bucket.extendLive_diverges filled.sound Nat.one_pos (by rw [filled.here]; decide)
    have last : World.perform fuel ⟨⟨1, OrderedDict.empty.set 0 [7]⟩, [0, 0]⟩
        (.bucket 0 (.extend (.view 1))) = none := by
      change Option.map _ ((Bucket.extendView 0 (decide (1 = 0)) 0 fuel >>= _) _) = none
      rw [bind_diverges loops]
      rfl
    change (((World.run fuel ⟨⟨1, OrderedDict.empty.set 0 [7]⟩, [0, 0]⟩
      [.bucket 0 (.extend (.view 1))]).bind _).bind _).bind _ = none
    rw [World.run, last]
    rfl
  refine ⟨diverges, ?_⟩
  rintro ⟨enough, behaves⟩
  obtain ⟨trace, run, -⟩ := behaves enough le_rfl
  rw [diverges enough] at run
  cases run

end Step

end Gambit.Iterations
