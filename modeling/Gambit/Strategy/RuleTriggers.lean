import Gambit.Strategy.Completion
import Gambit.Strategy.RuleWindow

/-!
# Rules fire on their triggers

The loop comes to the rules of the buckets of the heartbeats inside the dates,
the end date included.  The blanked value is all that the schedule knows of the
heartbeat at the end date.
-/

set_option autoImplicit false

namespace Gambit

open Raising

variable {W T : Type} {isin : Element → List T → Bool}

/-! ## What a loop comes to -/

def ScheduledRule.call (i : Nat) (entry : ScheduledRule W) : RuleCall :=
  ⟨i, entry.ruleName, entry.rule.contractGroup⟩

/-- The heartbeats at which the loop of `run_rules` stops to run an iteration. -/
def visited (startDate endDate : Option Timestamp) : List (Timestamp × Nat) → List Nat
  | [] => []
  | (timestamp, i) :: heartbeats =>
      if startDate.any (timestamp < ·) then visited startDate endDate heartbeats
      else if endDate.any (· < timestamp) then []
      else i :: visited startDate endDate heartbeats

namespace Strategy

variable {strategy : Strategy W} {iterations : SparseIterations (ScheduledRule W)}
  {startDate endDate : Option Timestamp}

theorem reachRules_eq (i : Nat) (entries : List (ScheduledRule W)) (run : Run W)
    (calls : List RuleCall) :
    entries.foldlM (strategy.reachRule i) (run, calls) =
      (fun after => (after, calls ++ entries.map (ScheduledRule.call i))) <$>
        (entries.map ScheduledRule.rule).foldlM (strategy.runRule i) run := by
  induction entries generalizing run calls with
  | nil =>
      rw [List.map_nil, List.map_nil, List.append_nil]
      rfl
  | cons entry rest ih =>
      rw [List.foldlM_cons, List.map_cons, List.map_cons, List.foldlM_cons, reachRule]
      cases strategy.runRule i run entry.rule with
      | error raised => rfl
      | ok after =>
          change rest.foldlM (strategy.reachRule i)
            (after, calls ++ [ScheduledRule.call i entry]) = _
          rw [ih after (calls ++ [ScheduledRule.call i entry]), List.append_assoc]
          rfl

theorem reachIteration_eq {i : Nat}
    (entries : strategy.ordersIter i = (iterations.bucket i).map ScheduledRule.rule)
    (run : Run W) (calls : List RuleCall) :
    strategy.reachIteration iterations i (run, calls) =
      (fun after => (after, calls ++ (iterations.bucket i).map (ScheduledRule.call i))) <$>
        strategy.runIteration i run := by
  unfold reachIteration runIteration
  rw [entries]
  cases strategy.simMarket i run with
  | error raised => rfl
  | ok after => exact reachRules_eq i _ after calls

theorem reachHeartbeats_eq
    (entries : ∀ i, strategy.ordersIter i = (iterations.bucket i).map ScheduledRule.rule)
    (heartbeats : List (Timestamp × Nat)) (run : Run W) (calls : List RuleCall) :
    strategy.reachHeartbeats iterations startDate endDate heartbeats (run, calls) =
      (fun after => (after, calls ++ (visited startDate endDate heartbeats).flatMap fun i =>
        (iterations.bucket i).map (ScheduledRule.call i))) <$>
        strategy.runHeartbeats startDate endDate heartbeats run := by
  induction heartbeats generalizing run calls with
  | nil =>
      rw [visited, List.flatMap_nil, List.append_nil]
      rfl
  | cons heartbeat rest ih =>
      obtain ⟨timestamp, i⟩ := heartbeat
      rw [reachHeartbeats, runHeartbeats, visited]
      split
      · exact ih run calls
      split
      · rw [List.flatMap_nil, List.append_nil]
        rfl
      rw [reachIteration_eq (entries i)]
      cases strategy.runIteration i run with
      | error raised => rfl
      | ok after =>
          change strategy.reachHeartbeats iterations startDate endDate rest
            (after, calls ++ (iterations.bucket i).map (ScheduledRule.call i)) = _
          rw [ih after, List.append_assoc]
          rfl

end Strategy

/-- The loop visits the heartbeats from the start date up to the end date. -/
theorem visited_eq {startDate endDate : Option Timestamp} {timestamps : List Timestamp}
    (increasing : timestamps.Pairwise (· < ·)) (n : Nat) :
    visited startDate endDate (timestamps.zipIdx n) =
      ((timestamps.zipIdx n).filter fun heartbeat =>
        startDate.all (· ≤ heartbeat.1) && endDate.all (heartbeat.1 ≤ ·)).map Prod.snd := by
  induction timestamps generalizing n with
  | nil => rfl
  | cons timestamp rest ih =>
      obtain ⟨first, sorted⟩ := List.pairwise_cons.mp increasing
      rw [List.zipIdx_cons, visited, List.filter_cons]
      split
      · rename_i early
        have skipped : startDate.all (· ≤ timestamp) = false := by
          cases startDate with
          | none => cases early
          | some start => simpa using early
        rw [skipped, Bool.false_and, if_neg (by simp)]
        exact ih sorted (n + 1)
      · rename_i notEarly
        have begun : startDate.all (· ≤ timestamp) = true := by
          cases startDate with
          | none => rfl
          | some start => simpa using notEarly
        split
        · rename_i late
          have ended : endDate.all (timestamp ≤ ·) = false := by
            cases endDate with
            | none => cases late
            | some finish => simpa using late
          rw [ended, Bool.and_false, if_neg (by simp)]
          symm
          rw [List.map_eq_nil_iff, List.filter_eq_nil_iff]
          intro heartbeat member
          have later := first heartbeat.1 (List.fst_mem_of_mem_zipIdx member)
          cases endDate with
          | none => cases late
          | some finish =>
              have past : finish < timestamp := by simpa using late
              simp [past.trans later]
        · rename_i notLate
          have running : endDate.all (timestamp ≤ ·) = true := by
            cases endDate with
            | none => rfl
            | some finish => simpa using notLate
          rw [begun, running, Bool.and_true, if_pos rfl, List.map_cons]
          exact congrArg (n :: ·) (ih sorted (n + 1))

theorem flatMap_filter {α β : Type} {l : List α} {p : α → Bool} {f g : α → List β}
    (same : ∀ a ∈ l, p a → f a = g a) (none : ∀ a ∈ l, ¬ p a → g a = []) :
    (l.filter p).flatMap f = l.flatMap g := by
  induction l with
  | nil => rfl
  | cons a rest ih =>
      have later := ih (fun b member => same b (List.mem_cons_of_mem _ member))
        fun b member => none b (List.mem_cons_of_mem _ member)
      rw [List.filter_cons, List.flatMap_cons, ← later]
      split
      · rename_i held
        rw [List.flatMap_cons, same a (List.mem_cons_self ..) held]
      · rename_i absent
        rw [none a (List.mem_cons_self ..) absent, List.nil_append]

namespace RuleSetup

variable {self : RuleSetup W T} {startDate endDate : Option Timestamp}

/-! ## What a run comes to -/

/-- The rules the loop of `run_rules` comes to, and the run after them. -/
def reach (isin : Element → List T → Bool) (self : RuleSetup W T)
    (ruleNames contractGroups : Option (List String)) (startDate endDate : Option Timestamp)
    (run : Run W) : Except (Raised Exn (Run W)) (Strategy.Traced W) := do
  let iterations ← raiseIn run (self.schedule isin ruleNames contractGroups startDate endDate)
  (self.strategy iterations).reachHeartbeats iterations startDate endDate
    self.timestamps.zipIdx (run, [])

/-- The last step of the run is a callback that failed. -/
def CallbackRaised (setup : RuleSetup W T) (raised : Raised Exn (Run W)) : Prop :=
  ∃ iterations before p q, raised.state.points = before ++ [p, q] ∧
    (setup.strategy iterations).CallbackFails p q

/-- The rule triggers for the group at a heartbeat of the window. -/
def fires (isin : Element → List T → Bool) (setup : RuleSetup W T)
    (startDate endDate : Option Timestamp) (name group : String) (i : Nat) : Bool :=
  (setup.rules.get? name).any fun rule =>
    decide (group ∈ rule.signal.cgroups ∧ ¬ (i + 1 = setup.timestamps.length ∧ 0 < setup.tradeLag)) &&
      setup.timestamps[i]?.any (fun timestamp =>
        startDate.all (· ≤ timestamp) && endDate.all (timestamp < ·)) &&
      ((rule.signal.values group).element i).any (isin · rule.sigTrueValues)

/-- The calls of a heartbeat are in the order of the rules and then of the groups. -/
def dueAt (isin : Element → List T → Bool) (setup : RuleSetup W T)
    (startDate endDate : Option Timestamp) (names groups : List String) (i : Nat) :
    List RuleCall :=
  names.flatMap fun name =>
    (groups.filter fun group => setup.fires isin startDate endDate name group i).map
      fun group => ⟨i, name, group⟩

def due (isin : Element → List T → Bool) (setup : RuleSetup W T)
    (startDate endDate : Option Timestamp) (names groups : List String) : List RuleCall :=
  (List.range setup.timestamps.length).flatMap (setup.dueAt isin startDate endDate names groups)

/-- No rule triggers on the value that the blanked signal has at the end date. -/
def EndSilent (isin : Element → List T → Bool) (setup : RuleSetup W T)
    (endDate : Option Timestamp) (names groups : List String) : Prop :=
  ∀ name ∈ names, ∀ rule, setup.rules.get? name = some rule → ∀ group ∈ groups,
    group ∈ rule.signal.cgroups → ∀ finish i, endDate = some finish →
      setup.timestamps[i]? = some finish → ¬ (i + 1 = setup.timestamps.length ∧ 0 < setup.tradeLag) →
        ¬ (rule.signal.values group).null.any (isin · rule.sigTrueValues)

/-! ## The schedule at the heartbeats of the loop -/

/-- The dates of the loop, both included. -/
def withinDates (setup : RuleSetup W T) (startDate endDate : Option Timestamp) (i : Nat) : Bool :=
  setup.timestamps[i]?.any fun timestamp =>
    startDate.all (· ≤ timestamp) && endDate.all (timestamp ≤ ·)

theorem visited_range :
    visited startDate endDate self.timestamps.zipIdx =
      (List.range self.timestamps.length).filter (self.withinDates startDate endDate) := by
  have places : List.range self.timestamps.length = self.timestamps.zipIdx.map Prod.snd := by
    rw [List.zipIdx_map_snd, List.range_eq_range']
  have increasing : self.timestamps.Pairwise (· < ·) := self.setup.timestamps.increasing
  rw [visited_eq increasing, places, List.filter_map]
  congr 1
  apply List.filter_congr
  intro heartbeat member
  have at_i : self.timestamps[heartbeat.2]? = some heartbeat.1 :=
    List.mem_zipIdx_iff_getElem?.mp member
  simp [withinDates, at_i]

/-- Between the dates the schedule has the triggers of the signal. -/
theorem scheduled_inside {name group : String} {i : Nat} {timestamp : Timestamp}
    (at_i : self.timestamps[i]? = some timestamp) (begun : startDate.all (· ≤ timestamp))
    (running : endDate.all (timestamp < ·)) :
    self.scheduled isin startDate endDate name group i =
      self.fires isin startDate endDate name group i := by
  have bound : i < self.timestamps.length := (List.getElem?_eq_some_iff.mp at_i).1
  have inside : self.outside startDate endDate i = false := by
    rw [outside, at_i, Option.any_some, Bool.or_eq_false_iff]
    constructor
    · cases startDate with
      | none => rfl
      | some start => simpa using begun
    · cases endDate with
      | none => rfl
      | some finish => simpa using running
  unfold scheduled fires
  rw [inside, at_i, Option.any_some, begun, running]
  simp [bound]

/-- At the end date the schedule has the triggers of the null value. -/
theorem scheduled_at_end {name group : String} {i : Nat} {finish : Timestamp}
    {rule : RegisteredRule W T self.setup.timestamps.timestamps.length}
    (found : self.rules.get? name = some rule) (at_i : self.timestamps[i]? = some finish) :
    self.scheduled isin startDate (some finish) name group i ↔ group ∈ rule.signal.cgroups ∧
      ¬ (i + 1 = self.timestamps.length ∧ 0 < self.tradeLag) ∧
      (rule.signal.values group).null.any (isin · rule.sigTrueValues) := by
  have bound : i < self.timestamps.length := (List.getElem?_eq_some_iff.mp at_i).1
  have blank : self.outside startDate (some finish) i = true := by
    simp [outside, at_i]
  simp only [scheduled, found, Option.any_some, blank, if_true, Bool.and_eq_true,
    decide_eq_true_eq]
  constructor
  · rintro ⟨⟨covered, _, notLast⟩, trigger⟩
    exact ⟨covered, notLast, trigger⟩
  · rintro ⟨covered, notLast, trigger⟩
    exact ⟨⟨covered, bound, notLast⟩, trigger⟩

theorem not_fires_outside {name group : String} {i : Nat} {timestamp : Timestamp}
    (at_i : self.timestamps[i]? = some timestamp)
    (out : ¬ (startDate.all (· ≤ timestamp) ∧ endDate.all (timestamp < ·))) :
    self.fires isin startDate endDate name group i = false := by
  unfold fires
  rw [at_i, Option.any_some]
  have window : (startDate.all (· ≤ timestamp) && endDate.all (timestamp < ·)) = false := by
    rw [Bool.and_eq_false_iff]
    rw [not_and_or, Bool.not_eq_true, Bool.not_eq_true] at out
    exact out
  rw [window]
  cases self.rules.get? name <;> simp

/-- The rules of the buckets that the loop comes to. -/
def reached (isin : Element → List T → Bool) (setup : RuleSetup W T)
    (startDate endDate : Option Timestamp) (names groups : List String) : List RuleCall :=
  (visited startDate endDate setup.timestamps.zipIdx).flatMap fun i =>
    (setup.scheduledAt isin startDate endDate names groups i).map fun entry =>
      ⟨i, entry.1, entry.2⟩

theorem mem_reached {names groups : List String} {i : Nat} {name group : String} :
    ⟨i, name, group⟩ ∈ self.reached isin startDate endDate names groups ↔
      i < self.timestamps.length ∧ self.withinDates startDate endDate i ∧ name ∈ names ∧
        group ∈ groups ∧ self.scheduled isin startDate endDate name group i := by
  simp only [reached, visited_range, scheduledAt, List.mem_flatMap, List.mem_filter,
    List.mem_range, List.mem_map]
  constructor
  · rintro ⟨_, ⟨bound, within⟩, entry, ⟨_, named, _, ⟨grouped, held⟩, rfl⟩, same⟩
    cases same
    exact ⟨bound, within, named, grouped, held⟩
  · rintro ⟨bound, within, named, grouped, held⟩
    exact ⟨i, ⟨bound, within⟩, (name, group), ⟨name, named, group, ⟨grouped, held⟩, rfl⟩, rfl⟩

theorem mem_due {names groups : List String} {i : Nat} {name group : String} :
    ⟨i, name, group⟩ ∈ self.due isin startDate endDate names groups ↔
      i < self.timestamps.length ∧ name ∈ names ∧ group ∈ groups ∧
        self.fires isin startDate endDate name group i := by
  simp only [due, dueAt, List.mem_flatMap, List.mem_filter, List.mem_range, List.mem_map]
  constructor
  · rintro ⟨_, bound, _, named, _, ⟨grouped, held⟩, same⟩
    cases same
    exact ⟨bound, named, grouped, held⟩
  · rintro ⟨bound, named, grouped, held⟩
    exact ⟨i, bound, name, named, group, ⟨grouped, held⟩, rfl⟩

/-- The end date is all that separates the loop from the window. -/
theorem reached_eq_due_iff (startDate endDate : Option Timestamp) {names groups : List String}
    (ordered : Strategy.validateDateRange startDate endDate = .ok ())
    (known : ∀ name ∈ names, name ∈ self.rules.keys) :
    self.reached isin startDate endDate names groups =
        self.due isin startDate endDate names groups ↔
      self.EndSilent isin endDate names groups := by
  constructor
  · intro same name named rule found group grouped covered finish i ends at_i notLast trigger
    subst ends
    have bound : i < self.timestamps.length := (List.getElem?_eq_some_iff.mp at_i).1
    have within : self.withinDates startDate (some finish) i = true := by
      rw [withinDates, at_i, Option.any_some, Bool.and_eq_true]
      refine ⟨?_, by simp⟩
      cases startDate with
      | none => rfl
      | some start =>
          have notAfter : ¬ finish < start := by
            intro after
            rw [Strategy.validateDateRange, if_pos after] at ordered
            cases ordered
          simpa using notAfter
    have held : self.scheduled isin startDate (some finish) name group i :=
      (scheduled_at_end found at_i).mpr ⟨covered, notLast, trigger⟩
    have member := mem_reached.mpr ⟨bound, within, named, grouped, held⟩
    rw [same] at member
    have fired := (mem_due.mp member).2.2.2
    rw [not_fires_outside at_i (by simp)] at fired
    cases fired
  · intro silent
    unfold reached due
    rw [visited_range]
    apply flatMap_filter
    · intro i member within
      have bound := List.mem_range.mp member
      have at_i : self.timestamps[i]? = some self.timestamps[i] := List.getElem?_eq_getElem bound
      rw [withinDates, at_i, Option.any_some, Bool.and_eq_true] at within
      unfold scheduledAt dueAt
      rw [List.map_flatMap]
      apply List.flatMap_congr
      intro name named
      rw [List.map_map]
      congr 1
      apply List.filter_congr
      intro group grouped
      by_cases running : endDate.all (self.timestamps[i] < ·)
      · exact scheduled_inside at_i within.1 running
      · rw [not_fires_outside at_i fun window => running window.2]
        obtain ⟨rule, found⟩ := Option.isSome_iff_exists.mp
          ((OrderedDict.contains_iff _ _).mpr (known name named))
        cases endDate with
        | none => exact (running rfl).elim
        | some finish =>
            have ends : finish = self.timestamps[i] := by
              have late : self.timestamps[i] ≤ finish := by simpa using within.2
              have reaches : finish ≤ self.timestamps[i] := by simpa using running
              exact le_antisymm reaches late
            subst ends
            apply Bool.eq_false_of_not_eq_true
            intro held
            obtain ⟨covered, notLast, trigger⟩ := (scheduled_at_end found at_i).mp held
            exact silent name named rule found group grouped covered _ i rfl at_i notLast trigger
    · intro i member within
      have bound := List.mem_range.mp member
      have at_i : self.timestamps[i]? = some self.timestamps[i] := List.getElem?_eq_getElem bound
      rw [withinDates, at_i, Option.any_some] at within
      apply List.flatMap_eq_nil_iff.mpr
      intro name _
      rw [List.map_eq_nil_iff, List.filter_eq_nil_iff]
      intro group _ fired
      rw [not_fires_outside at_i] at fired
      · cases fired
      · rintro ⟨begun, running⟩
        apply within
        rw [begun, Bool.true_and]
        cases endDate with
        | none => rfl
        | some finish =>
            have before : self.timestamps[i] < finish := by simpa using running
            simpa using before.le

/-! ## Runs -/

/-- The start of a run. -/
def begin (world : W) (heap : Heap) : Run W := ⟨.new world heap, [Strategy.start world heap]⟩

theorem schedule_eq {ruleNames contractGroups : Option (List String)} {names groups : List String}
    (named : validatedStageNames ruleNames self.rules.keys = .ok names)
    (grouped : validatedStageGroups contractGroups self.setup.contractGroups = .ok groups)
    (ordered : Strategy.validateDateRange startDate endDate = .ok ()) :
    self.schedule isin ruleNames contractGroups startDate endDate =
      self.generateOrderIterations isin names groups startDate endDate := by
  unfold schedule
  rw [named, grouped, ordered]
  rfl

theorem validatedStageNames_subset {ruleNames : Option (List String)} {registered names : List String}
    (accepted : validatedStageNames ruleNames registered = .ok names) :
    ∀ name ∈ names, name ∈ registered := by
  unfold validatedStageNames at accepted
  cases ruleNames with
  | none =>
      cases accepted
      exact fun _ member => member
  | some requested =>
      obtain ⟨known, accepted⟩ := refuse_ok.mp accepted
      cases accepted
      intro name member
      by_contra unknown
      apply known
      rw [List.any_eq_true]
      exact ⟨name, List.mem_eraseDups.mp member, by simpa using unknown⟩

theorem validatedStageGroups_subset {contractGroups : Option (List String)}
    {configured groups : List String}
    (accepted : validatedStageGroups contractGroups configured = .ok groups) :
    ∀ group ∈ groups, group ∈ configured := by
  unfold validatedStageGroups at accepted
  cases contractGroups with
  | none =>
      cases accepted
      exact fun _ member => member
  | some requested =>
      obtain ⟨_, accepted⟩ := refuse_ok.mp accepted
      obtain ⟨known, accepted⟩ := refuse_ok.mp accepted
      cases accepted
      intro group member
      by_contra unknown
      apply known
      rw [List.any_eq_true]
      exact ⟨group, member, by simpa using unknown⟩

/-- The loop comes to the rules of the schedule. -/
theorem calls_of_buckets {names groups : List String}
    {iterations : SparseIterations (ScheduledRule W)}
    (buckets : ∀ i, (iterations.bucket i).map key =
      self.scheduledAt isin startDate endDate names groups i) :
    ((visited startDate endDate self.timestamps.zipIdx).flatMap fun i =>
        (iterations.bucket i).map (ScheduledRule.call i)) =
      self.reached isin startDate endDate names groups := by
  apply List.flatMap_congr
  intro i _
  rw [← buckets i, List.map_map]
  rfl

theorem run_yields {names groups : List String} {iterations : SparseIterations (ScheduledRule W)}
    (buckets : ∀ i, (iterations.bucket i).map key =
      self.scheduledAt isin startDate endDate names groups i)
    (configured : ∀ group ∈ groups, group ∈ self.setup.contractGroups)
    (ordered : Strategy.validateDateRange startDate endDate = .ok ()) (world : W) (heap : Heap) :
    Yields (fun _ => ∃ loop, (self.strategy iterations).reachHeartbeats iterations startDate endDate
          self.timestamps.zipIdx (begin world heap, []) =
            .ok (loop, self.reached isin startDate endDate names groups))
      self.CallbackRaised
      ((self.strategy iterations).runRules startDate endDate (begin world heap)) := by
  have known (i : Nat) (rule : Rule W) (member : rule ∈ (self.strategy iterations).ordersIter i) :
      rule.contractGroup ∈ self.setup.contractGroups := by
    obtain ⟨entry, listed, rfl⟩ := List.mem_map.mp member
    have scheduled : key entry ∈ self.scheduledAt isin startDate endDate names groups i :=
      buckets i ▸ List.mem_map_of_mem listed
    obtain ⟨name, _, inside⟩ := List.mem_flatMap.mp scheduled
    obtain ⟨group, inside, same⟩ := List.mem_map.mp inside
    have own : entry.rule.contractGroup = group := (congrArg Prod.snd same).symm
    rw [own]
    exact configured group (List.mem_filter.mp inside).1
  have begins : Strategy.Stands (self.strategy iterations) (Strategy.start world heap) 0 .idle
      (begin world heap) := Traces.Trace.nil (Strategy.start world heap)
  have stops (raised : Raised Exn (Run W)) (stopped : Strategy.Stopped (self.strategy iterations)
      (Strategy.start world heap) raised) : self.CallbackRaised raised := by
    obtain ⟨before, p, q, ends, fails⟩ := stopped.at_callback known
    exact ⟨iterations, before, p, q, ends, fails⟩
  have came (loop : Run W) (ran : (self.strategy iterations).runHeartbeats startDate endDate
      self.timestamps.zipIdx (begin world heap) = .ok loop) :
      (self.strategy iterations).reachHeartbeats iterations startDate endDate
        self.timestamps.zipIdx (begin world heap, []) =
          .ok (loop, self.reached isin startDate endDate names groups) := by
    rw [Strategy.reachHeartbeats_eq fun _ => rfl, ran, List.nil_append,
      self.calls_of_buckets buckets]
    rfl
  unfold Strategy.runRules
  rw [ordered]
  have ran := @Strategy.heartbeatsAndCalc_stands W _ _ startDate endDate _ begins
  change Yields _ _ (Except.bind ((self.strategy iterations).runHeartbeats startDate endDate
    self.timestamps.zipIdx (begin world heap)) _) at ran ⊢
  cases looped : (self.strategy iterations).runHeartbeats startDate endDate
      self.timestamps.zipIdx (begin world heap) with
  | error raised =>
      rw [looped] at ran
      exact stops raised ran
  | ok loop =>
      rw [looped] at ran
      exact ran.weaken (fun _ _ => ⟨loop, came loop looped⟩) stops

theorem validated_booleans {values : List Bool} {length : Nat} (whole : values.length = length) :
    validateStageValues (.array (.booleans values)) length = .ok (SignalArray.booleans values) := by
  subst whole
  simp [validateStageValues, NdArray.ndim, NdArray.len, SignalArray.length]

/-- A signal of booleans for the stock and a rule without orders. -/
def onBooleans (values : List Bool) (whole : values.length = 4) (triggers : List Element) :
    RuleSetup Unit Element where
  setup := sampleSetup
  priceFunction := fun _ _ _ => .ok (.real 11)
  tradeLag := 1
  marketSims := []
  riskPolicies := []
  runFinalCalc := true
  rules := OrderedDict.empty.set "exit" {
    ruleFunction := fun _ world heap _ _ _ _ => ([], ⟨world, heap, .ok (.sequence [])⟩)
    signal := {
      cgroups := ["IBM"]
      values := fun _ => .booleans values
      validated := fun _ _ => validated_booleans whole }
    sigTrueValues := triggers
    positionFilter := none }

/-- Membership where the values have the type of the triggers. -/
def amongTriggers (element : Element) (triggers : List Element) : Bool := triggers.contains element

end RuleSetup

end Gambit
