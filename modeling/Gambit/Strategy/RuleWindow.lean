import Gambit.Strategy.RuleSchedule

/-!
# Which rules the schedule holds

Blanking sets the values outside the dates to one null value, so a bucket holds
the rules whose signal has a trigger value there, with the null value in the
place of what was blanked.
-/

set_option autoImplicit false

namespace Gambit

open Raising

/-! ## Blanked arrays -/

namespace SignalArray

/-- What a blanked value becomes; NaN is no integer. -/
def null : SignalArray → Option Element
  | .booleans _ => some (.boolean false)
  | .integers _ => none
  | .floats _ => some (.floating .nan)
  | .strings itemsize _ => some (.text (nanText itemsize))

theorem getElem?_blank {α : Type} (start stop : Nat) (null : α) (values : List α) (i : Nat) :
    (blank start stop null values)[i]? =
      values[i]?.map fun value => if start ≤ i ∧ i < stop then null else value := by
  rw [blank, List.getElem?_mapIdx]

theorem length_blank {α : Type} (start stop : Nat) (null : α) (values : List α) :
    (blank start stop null values).length = values.length :=
  List.length_mapIdx

/-- An array is another with one value in some places. -/
structure Blanks (places : Nat → Prop) (before after : SignalArray) : Prop where
  length : after.length = before.length
  null : after.null = before.null
  inside : ∀ i, i < before.length → places i → after.element i = before.null
  outside : ∀ i, ¬ places i → after.element i = before.element i

theorem Blanks.refl (array : SignalArray) {places : Nat → Prop} (none : ∀ i, ¬ places i) :
    Blanks places array array :=
  ⟨rfl, rfl, fun i _ here => (none i here).elim, fun _ _ => rfl⟩

theorem Blanks.trans {first second : Nat → Prop} {a b c : SignalArray} (ab : Blanks first a b)
    (bc : Blanks second b c) : Blanks (fun i => first i ∨ second i) a c where
  length := bc.length.trans ab.length
  null := bc.null.trans ab.null
  inside := by
    intro i bound here
    by_cases later : second i
    · rw [bc.inside i (by rwa [ab.length]) later, ab.null]
    · rw [bc.outside i later, ab.inside i bound (here.resolve_right later)]
  outside := by
    intro i nowhere
    obtain ⟨notFirst, notSecond⟩ := not_or.mp nowhere
    rw [bc.outside i notSecond, ab.outside i notFirst]

theorem blank_places {α : Type} (start stop : Nat) (null : α) (values : List α)
    (kind : α → Element) :
    (∀ i, i < values.length → start ≤ i ∧ i < stop →
      (blank start stop null values)[i]?.map kind = some (kind null)) ∧
    ∀ i, ¬ (start ≤ i ∧ i < stop) →
      (blank start stop null values)[i]?.map kind = values[i]?.map kind := by
  refine ⟨fun i bound here => ?_, fun i elsewhere => ?_⟩
  · rw [getElem?_blank, List.getElem?_eq_getElem bound, Option.map_some, if_pos here]
    rfl
  · rw [getElem?_blank]
    simp only [if_neg elsewhere, Option.map_id']

theorem blanked_yields (start stop : Nat) (array : SignalArray) :
    Yields (fun after => array.null.isSome ∧ Blanks (fun i => start ≤ i ∧ i < stop) array after)
      (fun _ => array.null = none) (array.blanked start stop) := by
  cases array with
  | integers values => rfl
  | booleans values =>
      have places := blank_places start stop false values .boolean
      exact ⟨rfl, length_blank .., rfl, places.1, places.2⟩
  | floats values =>
      have places := blank_places start stop .nan values .floating
      exact ⟨rfl, length_blank .., rfl, places.1, places.2⟩
  | strings itemsize values =>
      have places := blank_places start stop (nanText itemsize) values .text
      exact ⟨rfl, length_blank .., rfl, places.1, places.2⟩

/-- Blanking at a date that may be omitted. -/
theorem blankedAt_yields (date : Option Timestamp) (start stop : Timestamp → Nat)
    (array : SignalArray) :
    Yields (fun after => (date = none ∨ array.null.isSome) ∧
        Blanks (fun i => ∃ bound, date = some bound ∧ start bound ≤ i ∧ i < stop bound) array after)
      (fun _ => date ≠ none ∧ array.null = none)
      (array.blankedAt date start stop) := by
  cases date with
  | none => exact ⟨.inl rfl, .refl array fun i here => nomatch here⟩
  | some bound =>
      apply (blanked_yields (start bound) (stop bound) array).weaken
      · intro after held
        obtain ⟨nullable, blanks⟩ := held
        refine ⟨.inr nullable, blanks.length, blanks.null, ?_, ?_⟩
        · intro i inside here
          obtain ⟨other, same, place⟩ := here
          cases same
          exact blanks.inside i inside place
        · intro i nowhere
          exact blanks.outside i fun place => nowhere ⟨bound, rfl, place⟩
      · exact fun _ none => ⟨nofun, none⟩

end SignalArray

theorem lt_searchsorted {timestamps : List Timestamp} (increasing : timestamps.Pairwise (· < ·))
    {i : Nat} {timestamp bound : Timestamp} (at_i : timestamps[i]? = some timestamp) :
    i < searchsorted timestamps bound ↔ timestamp < bound := by
  induction timestamps generalizing i with
  | nil => cases at_i
  | cons head rest ih =>
      obtain ⟨first, sorted⟩ := List.pairwise_cons.mp increasing
      unfold searchsorted at ih ⊢
      by_cases below : head < bound
      · rw [List.takeWhile_cons_of_pos (by simpa using below), List.length_cons]
        cases i with
        | zero =>
            cases at_i
            exact ⟨fun _ => below, fun _ => Nat.succ_pos _⟩
        | succ i =>
            rw [Nat.succ_lt_succ_iff]
            exact ih sorted at_i
      · rw [List.takeWhile_cons_of_neg (by simpa using below)]
        refine ⟨fun impossible => absurd impossible (Nat.not_lt_zero i), fun less => ?_⟩
        cases i with
        | zero =>
            cases at_i
            exact (below less).elim
        | succ i =>
            have later := first timestamp (List.mem_of_getElem? at_i)
            exact (below (later.trans less)).elim

variable {W T : Type} {isin : Element → List T → Bool}

namespace RuleSetup

variable {self : RuleSetup W T} {startDate endDate : Option Timestamp}

/-- A heartbeat before the start date or not before the end date. -/
def outside (setup : RuleSetup W T) (startDate endDate : Option Timestamp) (i : Nat) : Bool :=
  setup.timestamps[i]?.any fun timestamp =>
    startDate.any (timestamp < ·) || endDate.any (· ≤ timestamp)

theorem outside_iff (startDate endDate : Option Timestamp) {i : Nat}
    (inside : i < self.timestamps.length) :
    (∃ start, startDate = some start ∧ 0 ≤ i ∧ i < searchsorted self.timestamps start) ∨
      (∃ finish, endDate = some finish ∧ searchsorted self.timestamps finish ≤ i ∧
        i < self.timestamps.length) ↔ self.outside startDate endDate i = true := by
  have increasing : self.timestamps.Pairwise (· < ·) := self.setup.timestamps.increasing
  have present : self.timestamps[i]? = some self.timestamps[i] := List.getElem?_eq_getElem inside
  simp only [outside, present, Option.any_some, Bool.or_eq_true, Option.any_eq_true,
    decide_eq_true_eq]
  apply or_congr
  · apply exists_congr
    intro start
    rw [lt_searchsorted increasing present]
    simp
  · apply exists_congr
    intro finish
    rw [← Nat.not_lt, lt_searchsorted increasing present]
    simp [inside]

/-- The values can be blanked, if there is a date to blank at. -/
def Blankable (startDate endDate : Option Timestamp) (sigValues : SignalArray) : Prop :=
  startDate = none ∧ endDate = none ∨ sigValues.null.isSome

theorem windowed_yields {sigValues : SignalArray}
    (whole : sigValues.length = self.timestamps.length) :
    Yields (fun after => Blankable startDate endDate sigValues ∧
        after.length = self.timestamps.length ∧
        ∀ i, i < self.timestamps.length → after.element i =
          if self.outside startDate endDate i then sigValues.null else sigValues.element i)
      (fun _ => ¬ Blankable startDate endDate sigValues)
      (self.windowed sigValues startDate endDate) := by
  unfold windowed
  have refused {date : Option Timestamp} (some' : date ≠ none) (which : date = startDate ∨
      date = endDate) (none : sigValues.null = none) :
      ¬ Blankable startDate endDate sigValues := by
    rintro (⟨noStart, noEnd⟩ | nullable)
    · rcases which with rfl | rfl
      · exact some' noStart
      · exact some' noEnd
    · rw [none] at nullable
      cases nullable
  have first := sigValues.blankedAt_yields startDate (fun _ => 0) (searchsorted self.timestamps)
  apply (first.weaken (fun _ held => held) fun _ failed =>
    refused failed.1 (.inl rfl) failed.2).bind
  intro middle held
  obtain ⟨startNullable, before⟩ := held
  have second := middle.blankedAt_yields endDate (searchsorted self.timestamps)
    (fun _ => middle.length)
  apply second.weaken
  · intro after held
    obtain ⟨endNullable, later⟩ := held
    have blanks := before.trans later
    rw [before.null] at endNullable
    refine ⟨?_, blanks.length.trans whole, fun i inside => ?_⟩
    · rcases startNullable with none | nullable
      · exact endNullable.imp (fun none' => ⟨none, none'⟩) id
      · exact .inr nullable
    · have places := self.outside_iff startDate endDate inside
      rw [before.length, whole] at blanks
      split
      · rename_i out
        exact blanks.inside i (by rwa [whole]) (places.mpr out)
      · rename_i within
        exact blanks.outside i fun here => within (places.mp here)
  · intro raised failed
    rw [before.null] at failed
    exact refused failed.1 (.inr rfl) failed.2

/-! ## Buckets -/

theorem getLast?_filter_range {n : Nat} {p : Nat → Bool} {i : Nat}
    (member : i ∈ (List.range n).filter p) (last : i + 1 = n) :
    ((List.range n).filter p).getLast? = some (n - 1) := by
  subst last
  have holds := (List.mem_filter.mp member).2
  rw [List.range_succ, List.filter_append, List.filter_singleton, holds, cond_true,
    List.getLast?_concat, Nat.add_sub_cancel]

theorem mem_triggered {sigValues : SignalArray} {sigTrueValues : List T} {i : Nat} :
    i ∈ self.triggered isin sigValues sigTrueValues ↔ i < sigValues.length ∧
      (sigValues.element i).any (isin · sigTrueValues) ∧
      ¬ (i + 1 = sigValues.length ∧ 0 < self.tradeLag) := by
  unfold triggered
  dsimp only
  generalize found : (List.range sigValues.length).filter (fun i =>
    (sigValues.element i).any (isin · sigTrueValues)) = indices
  have member : i ∈ indices ↔ i < sigValues.length ∧
      (sigValues.element i).any (isin · sigTrueValues) := by
    rw [← found, List.mem_filter, List.mem_range]
  split
  · rename_i dropped
    have distinct : indices.Nodup := found ▸ List.nodup_range.filter _
    obtain ⟨front, ends⟩ := List.getLast?_eq_some_iff.mp dropped.1
    rw [ends] at distinct member ⊢
    have apart := List.nodup_append.mp distinct
    rw [List.dropLast_concat]
    rw [List.mem_append, List.mem_singleton] at member
    constructor
    · intro inside
      obtain ⟨bound, trigger⟩ := member.mp (.inl inside)
      refine ⟨bound, trigger, fun last => apart.2.2 i inside (sigValues.length - 1)
        (List.mem_singleton_self _) ?_⟩
      omega
    · rintro ⟨bound, trigger, notLast⟩
      rcases member.mpr ⟨bound, trigger⟩ with inside | last
      · exact inside
      · exact (notLast ⟨by omega, dropped.2⟩).elim
  · rename_i kept
    rw [member]
    constructor
    · rintro ⟨bound, trigger⟩
      refine ⟨bound, trigger, fun last => kept ⟨?_, last.2⟩⟩
      rw [← found] at member ⊢
      exact getLast?_filter_range (member.mpr ⟨bound, trigger⟩) last.1
    · exact fun ⟨bound, trigger, _⟩ => ⟨bound, trigger⟩

theorem triggered_nodup {sigValues : SignalArray} {sigTrueValues : List T} :
    (self.triggered isin sigValues sigTrueValues).Nodup := by
  unfold triggered
  dsimp only
  split
  · exact (List.nodup_range.filter _).sublist (List.dropLast_sublist _)
  · exact List.nodup_range.filter _

end RuleSetup

theorem SparseIterations.appendAll {S : Type} {indices : List Nat} (value : S)
    (distinct : indices.Nodup) {iterations : SparseIterations S}
    (bounded : ∀ i ∈ indices, i < iterations.size) :
    ∃ after, indices.foldlM (fun iterations index => iterations.appendAt index value) iterations =
        .ok after ∧ after.size = iterations.size ∧
      ∀ i, after.bucket i = iterations.bucket i ++ if i ∈ indices then [value] else [] := by
  induction indices generalizing iterations with
  | nil => exact ⟨iterations, rfl, rfl, fun i => by simp⟩
  | cons index rest ih =>
      obtain ⟨fresh, distinctRest⟩ := List.nodup_cons.mp distinct
      have appended : iterations.appendAt index value = .ok { iterations with
          buckets := iterations.buckets.set index (iterations.bucket index ++ [value]) } :=
        if_pos (bounded index (List.mem_cons_self ..))
      obtain ⟨after, run, size, buckets⟩ := @ih distinctRest
        { iterations with
          buckets := iterations.buckets.set index (iterations.bucket index ++ [value]) }
        fun i member => bounded i (List.mem_cons_of_mem _ member)
      refine ⟨after, ?_, size, fun i => ?_⟩
      · rw [List.foldlM_cons, appended]
        exact run
      · rw [buckets i, SparseIterations.bucket, OrderedDict.get?_set]
        by_cases here : i = index
        · subst here
          simp [fresh]
        · simp [here, SparseIterations.bucket]

theorem Signal.length_of_validated {length : Nat} (signal : Signal length) {group : String}
    (covered : group ∈ signal.cgroups) : (signal.values group).length = length := by
  have accepted := signal.validated group covered
  unfold validateStageValues at accepted
  obtain ⟨_, accepted⟩ := refuse_ok.mp accepted
  exact not_not.mp (refuse_ok.mp accepted).1

namespace RuleSetup

variable {self : RuleSetup W T} {startDate endDate : Option Timestamp}

/-- The schedule has the rule for the group at a heartbeat. -/
def scheduled (isin : Element → List T → Bool) (setup : RuleSetup W T)
    (startDate endDate : Option Timestamp) (name group : String) (i : Nat) : Bool :=
  (setup.rules.get? name).any fun rule =>
    decide (group ∈ rule.signal.cgroups ∧ i < setup.timestamps.length ∧
      ¬ (i + 1 = setup.timestamps.length ∧ 0 < setup.tradeLag)) &&
    (if setup.outside startDate endDate i then (rule.signal.values group).null
      else (rule.signal.values group).element i).any (isin · rule.sigTrueValues)

/-- The rule and the group of an element of a bucket. -/
def key (entry : ScheduledRule W) : String × String := (entry.ruleName, entry.rule.contractGroup)

theorem scheduleRule_yields {name group : String}
    {rule : RegisteredRule W T self.setup.timestamps.timestamps.length}
    (found : self.rules.get? name = some rule) {iterations : SparseIterations (ScheduledRule W)}
    (size : iterations.size = self.timestamps.length) :
    Yields (fun after => after.size = self.timestamps.length ∧
        (group ∈ rule.signal.cgroups →
          Blankable startDate endDate (rule.signal.values group)) ∧
        ∀ i, (after.bucket i).map key = (iterations.bucket i).map key ++
          if self.scheduled isin startDate endDate name group i then [(name, group)] else [])
      (fun _ => group ∈ rule.signal.cgroups ∧
        ¬ Blankable startDate endDate (rule.signal.values group))
      (self.scheduleRule isin name rule startDate endDate iterations group) := by
  unfold scheduleRule
  by_cases covered : group ∈ rule.signal.cgroups
  swap
  · rw [if_pos covered]
    refine ⟨size, fun inside => (covered inside).elim, fun i => ?_⟩
    have absent : self.scheduled isin startDate endDate name group i = false := by
      simp [scheduled, found, covered]
    simp [absent]
  · rw [if_neg (not_not.mpr covered)]
    have whole := rule.signal.length_of_validated covered
    apply ((windowed_yields whole).weaken (fun _ held => held) fun _ failed =>
      ⟨covered, failed⟩).bind
    intro sigValues held
    obtain ⟨blankable, length, elements⟩ := held
    have distinct : (self.triggered isin sigValues rule.sigTrueValues).Nodup := triggered_nodup
    have bounded : ∀ i ∈ self.triggered isin sigValues rule.sigTrueValues,
        i < iterations.size := by
      intro i member
      rw [size, ← length]
      exact (mem_triggered.mp member).1
    obtain ⟨after, run, size', buckets⟩ := SparseIterations.appendAll
      (ScheduledRule.mk name ⟨rule.ruleFunction sigValues, group, rule.positionFilter⟩) distinct
      bounded
    rw [run]
    refine ⟨size'.trans size, fun _ => blankable, fun i => ?_⟩
    rw [buckets i, List.map_append]
    congr 1
    have same : i ∈ self.triggered isin sigValues rule.sigTrueValues ↔
        self.scheduled isin startDate endDate name group i = true := by
      rw [mem_triggered, length]
      simp only [scheduled, found, Option.any_some, Bool.and_eq_true, decide_eq_true_eq]
      constructor
      · rintro ⟨inside, trigger, notLast⟩
        rw [elements i inside] at trigger
        exact ⟨⟨covered, inside, notLast⟩, trigger⟩
      · rintro ⟨⟨_, inside, notLast⟩, trigger⟩
        rw [elements i inside]
        exact ⟨inside, trigger, notLast⟩
    by_cases here : i ∈ self.triggered isin sigValues rule.sigTrueValues
    · rw [if_pos here, if_pos (same.mp here)]
      rfl
    · rw [if_neg here, if_neg (mt same.mpr here)]
      rfl

/-- The rules of a heartbeat in the order of the schedule. -/
def scheduledAt (isin : Element → List T → Bool) (setup : RuleSetup W T)
    (startDate endDate : Option Timestamp) (names groups : List String) (i : Nat) :
    List (String × String) :=
  names.flatMap fun name =>
    (groups.filter fun group => setup.scheduled isin startDate endDate name group i).map
      fun group => (name, group)

/-- Every signal to be blanked can be. -/
def AllBlankable (setup : RuleSetup W T) (startDate endDate : Option Timestamp)
    (names groups : List String) : Prop :=
  ∀ name ∈ names, ∀ rule, setup.rules.get? name = some rule → ∀ group ∈ groups,
    group ∈ rule.signal.cgroups → Blankable startDate endDate (rule.signal.values group)

theorem scheduleGroups_yields {name : String} {groups : List String}
    {rule : RegisteredRule W T self.setup.timestamps.timestamps.length}
    (found : self.rules.get? name = some rule) {iterations : SparseIterations (ScheduledRule W)}
    (size : iterations.size = self.timestamps.length) :
    Yields (fun after => after.size = self.timestamps.length ∧
        (∀ group ∈ groups, group ∈ rule.signal.cgroups →
          Blankable startDate endDate (rule.signal.values group)) ∧
        ∀ i, (after.bucket i).map key = (iterations.bucket i).map key ++
          (groups.filter fun group => self.scheduled isin startDate endDate name group i).map
            fun group => (name, group))
      (fun _ => ∃ group ∈ groups, group ∈ rule.signal.cgroups ∧
        ¬ Blankable startDate endDate (rule.signal.values group))
      (groups.foldlM (self.scheduleRule isin name rule startDate endDate) iterations) := by
  apply Yields.foldlM_done (P := fun done after => after.size = self.timestamps.length ∧
      (∀ group ∈ done, group ∈ rule.signal.cgroups →
        Blankable startDate endDate (rule.signal.values group)) ∧
      ∀ i, (SparseIterations.bucket after i).map key = (iterations.bucket i).map key ++
        (done.filter fun group => self.scheduled isin startDate endDate name group i).map
          fun group => (name, group))
  · intro done group before inside held
    obtain ⟨size', blankable, buckets⟩ := held
    apply (scheduleRule_yields found size').weaken
    · intro after step
      obtain ⟨size'', blankable', buckets'⟩ := step
      refine ⟨size'', fun other member => ?_, fun i => ?_⟩
      · rcases List.mem_append.mp member with old | single
        · exact blankable other old
        · rw [List.mem_singleton.mp single]
          exact blankable'
      · rw [buckets' i, buckets i, List.append_assoc, List.filter_append, List.map_append]
        congr 2
        rw [List.filter_singleton]
        split
        · rename_i here
          rw [here]
          rfl
        · rename_i absent
          rw [Bool.eq_false_of_not_eq_true absent]
          rfl
    · intro _ failed
      have listed : group ∈ groups := inside.subset (by simp)
      exact ⟨group, listed, failed⟩
  · exact ⟨size, fun _ member => (List.not_mem_nil member).elim, fun i => by simp⟩

/-- The schedule is made unless a signal cannot be blanked, and holds the rules
in the order of the names and then of the groups. -/
theorem generate_yields {names groups : List String}
    (ordered : Strategy.validateDateRange startDate endDate = .ok ())
    (known : ∀ name ∈ names, name ∈ self.rules.keys) :
    Yields (fun iterations => self.AllBlankable startDate endDate names groups ∧
        ∀ i, (iterations.bucket i).map key =
          self.scheduledAt isin startDate endDate names groups i)
      (fun _ => ¬ self.AllBlankable startDate endDate names groups)
      (self.generateOrderIterations isin names groups startDate endDate) := by
  unfold generateOrderIterations
  rw [ordered]
  change Yields _ _ (names.foldlM _ (SparseIterations.new self.timestamps.length))
  apply Yields.mono (Yields.foldlM_done (P := fun done iterations =>
      SparseIterations.size iterations = self.timestamps.length ∧
      self.AllBlankable startDate endDate done groups ∧
      ∀ i, (SparseIterations.bucket iterations i).map key =
        self.scheduledAt isin startDate endDate done groups i) ?_ ?_) fun _ held => held.2
  · intro done name before inside held
    obtain ⟨size, blankable, buckets⟩ := held
    have listed : name ∈ names := inside.subset (by simp)
    obtain ⟨rule, found⟩ := Option.isSome_iff_exists.mp
      ((OrderedDict.contains_iff _ _).mpr (known name listed))
    simp only [found]
    apply (scheduleGroups_yields found size).weaken
    · intro after step
      obtain ⟨size', blankable', buckets'⟩ := step
      refine ⟨size', fun other member rule' found' => ?_, fun i => ?_⟩
      · rcases List.mem_append.mp member with old | single
        · exact blankable other old rule' found'
        · rw [List.mem_singleton.mp single, found] at found'
          cases found'
          exact blankable'
      · rw [buckets' i, buckets i, scheduledAt, scheduledAt, List.flatMap_append,
          List.flatMap_singleton]
    · rintro _ ⟨group, member, covered, failed⟩ all
      exact failed (all name listed rule found group member covered)
  · exact ⟨rfl, fun _ member => (List.not_mem_nil member).elim, fun i => rfl⟩

end RuleSetup

end Gambit
