import Mathlib
import Gambit.Strategy.Conservation
import Gambit.Strategy.Portfolio
import Gambit.Strategy.RuleTriggers

/-!
# Strategies in a portfolio and alone

The turns that a strategy has over the merged timestamps are the heartbeats of
its own loop, in the same order.
-/

set_option autoImplicit false

namespace Gambit

open Raising Interleaving

/-! ## The merged timestamps -/

theorem mem_union1d {a b : List Timestamp} {timestamp : Timestamp} :
    timestamp ∈ union1d a b ↔ timestamp ∈ a ∨ timestamp ∈ b := by
  rw [union1d, mem_npUnique, List.mem_append]

theorem mem_foldl_union1d {grids : List (List Timestamp)} {first : List Timestamp}
    {timestamp : Timestamp} :
    timestamp ∈ grids.foldl union1d first ↔
      timestamp ∈ first ∨ ∃ grid ∈ grids, timestamp ∈ grid := by
  induction grids generalizing first with
  | nil => simp
  | cons grid rest ih =>
      rw [List.foldl_cons, ih, mem_union1d]
      simp [or_assoc]

theorem foldl_union1d_sorted {grids : List (List Timestamp)} {first : List Timestamp}
    (sorted : first.Pairwise (· < ·)) : (grids.foldl union1d first).Pairwise (· < ·) := by
  induction grids generalizing first with
  | nil => exact sorted
  | cons grid rest ih => exact ih (npUnique_sorted _)

/-- The dates of a range. -/
def InRange (startDate endDate : Option Timestamp) (timestamp : Timestamp) : Bool :=
  startDate.all (· ≤ timestamp) && endDate.all (timestamp ≤ ·)

theorem mem_withinRange {startDate endDate : Option Timestamp} {timestamps : List Timestamp}
    {timestamp : Timestamp} :
    timestamp ∈ withinRange startDate endDate timestamps ↔
      timestamp ∈ timestamps ∧ InRange startDate endDate timestamp := by
  rw [withinRange, List.mem_filter, List.mem_filter, and_assoc, InRange, Bool.and_eq_true]

/-- The index of a timestamp of a grid. -/
def indexOf (timestamps : List Timestamp) (timestamp : Timestamp) : Option Nat :=
  if timestamps[searchsorted timestamps timestamp]? = some timestamp then
    some (searchsorted timestamps timestamp)
  else none

theorem indexOf_eq_none {timestamps : List Timestamp} {timestamp : Timestamp}
    (absent : timestamp ∉ timestamps) : indexOf timestamps timestamp = none :=
  if_neg fun present => absent (List.mem_of_getElem? present)

theorem indexOf_getElem? {timestamps : List Timestamp} {timestamp : Timestamp} {i : Nat}
    (increasing : timestamps.Pairwise (· < ·)) (at_i : timestamps[i]? = some timestamp) :
    indexOf timestamps timestamp = some i := by
  have found := searchsorted_getElem? increasing at_i
  rw [indexOf, found, if_pos at_i]

/-- Over timestamps that hold the heartbeats of a grid in a range, and none
else of the grid, the indices are the heartbeats the loop of the grid visits. -/
theorem indices_visited {startDate endDate : Option Timestamp}
    {timestamps allTimestamps : List Timestamp} (increasing : timestamps.Pairwise (· < ·))
    (sorted : allTimestamps.Pairwise (· < ·))
    (merged : ∀ timestamp ∈ timestamps,
      timestamp ∈ allTimestamps ↔ InRange startDate endDate timestamp) :
    allTimestamps.filterMap (indexOf timestamps) =
      visited startDate endDate timestamps.zipIdx := by
  have shared : allTimestamps.filter (· ∈ timestamps) =
      timestamps.filter (InRange startDate endDate) := by
    apply (sorted.filter _).eq_of_mem_iff (increasing.filter _)
    intro timestamp
    rw [List.mem_filter, List.mem_filter]
    constructor
    · rintro ⟨listed, inside⟩
      have inside := of_decide_eq_true inside
      exact ⟨inside, (merged timestamp inside).mp listed⟩
    · rintro ⟨inside, within⟩
      exact ⟨(merged timestamp inside).mpr within, decide_eq_true inside⟩
  calc
    allTimestamps.filterMap (indexOf timestamps) =
        (allTimestamps.filter (· ∈ timestamps)).filterMap (indexOf timestamps) := by
      rw [List.filterMap_filter]
      apply List.filterMap_congr
      intro timestamp _
      by_cases inside : timestamp ∈ timestamps
      · simp [inside]
      · simp [inside, indexOf_eq_none inside]
    _ = (timestamps.filter (InRange startDate endDate)).filterMap (indexOf timestamps) := by
      rw [shared]
    _ = ((timestamps.zipIdx.filter fun heartbeat =>
          InRange startDate endDate heartbeat.1).map Prod.fst).filterMap (indexOf timestamps) := by
      have firsts : timestamps = timestamps.zipIdx.map Prod.fst := (List.zipIdx_map_fst 0 _).symm
      conv_lhs => rw [firsts, List.filter_map]
      rw [← firsts]
      rfl
    _ = visited startDate endDate timestamps.zipIdx := by
      rw [visited_eq increasing, List.filterMap_map, ← List.filterMap_eq_map]
      apply List.filterMap_congr
      intro heartbeat member
      exact indexOf_getElem? increasing
        (List.mem_zipIdx_iff_getElem?.mp (List.mem_filter.mp member).1)

/-! ## Turns -/

theorem Strategy.runHeartbeats_visited {W : Type} (strategy : Strategy W)
    (startDate endDate : Option Timestamp) (heartbeats : List (Timestamp × Nat)) (run : Run W) :
    strategy.runHeartbeats startDate endDate heartbeats run =
      (visited startDate endDate heartbeats).foldlM (fun run i => strategy.runIteration i run)
        run := by
  induction heartbeats generalizing run with
  | nil => rfl
  | cons heartbeat rest ih =>
      obtain ⟨timestamp, i⟩ := heartbeat
      rw [Strategy.runHeartbeats, visited]
      split
      · exact ih run
      split
      · rfl
      rw [List.foldlM_cons]
      congr 1
      funext after
      exact ih after

/-! ## A strategy alone -/

/-- The loop of a strategy over some heartbeats. -/
def RuleSetup.iterate {W T : Type} (setup : RuleSetup W T)
    (ordersIter : SparseIterations (ScheduledRule W)) (heartbeats : List Nat) :
    Step Exn (Run W) := fun run =>
  heartbeats.foldlM (fun run i => (setup.strategy ordersIter).runIteration i run) run

/-- `account.calc` at the end; the rules have no part in it. -/
def RuleSetup.calcToEnd {W T : Type} (setup : RuleSetup W T) (endDate : Option Timestamp) :
    Step Exn (Run W) :=
  (setup.strategy (.new 0)).calcToEnd endDate

/-- A strategy alone generates its schedule, runs the heartbeats of the range
and calculates at the end if it is to. -/
theorem RuleSetup.runRules_ok {W T : Type} {isin : Element → List T → Bool}
    {setup : RuleSetup W T} {startDate endDate : Option Timestamp}
    (ordered : Strategy.validateDateRange startDate endDate = .ok ()) {run after : Run W} :
    setup.runRules isin none none startDate endDate run = .ok after ↔
      ∃ ordersIter middle, setup.generateOrderIterations isin setup.rules.keys
          setup.setup.contractGroups startDate endDate = .ok ordersIter ∧
        setup.iterate ordersIter (visited startDate endDate setup.timestamps.zipIdx) run =
          .ok middle ∧
        (if setup.runFinalCalc then setup.calcToEnd endDate middle else .ok middle) = .ok after := by
  have scheduled : setup.schedule isin none none startDate endDate =
      setup.generateOrderIterations isin setup.rules.keys setup.setup.contractGroups startDate
        endDate := RuleSetup.schedule_eq rfl rfl ordered
  unfold RuleSetup.runRules
  rw [scheduled, bind_ok]
  apply exists_congr
  intro ordersIter
  rw [raiseIn_ok, exists_and_left]
  apply and_congr_right
  intro _
  unfold Strategy.runRules
  rw [ordered]
  change Except.bind ((setup.strategy ordersIter).runHeartbeats startDate endDate
    setup.timestamps.zipIdx run) _ = _ ↔ _
  rw [Strategy.runHeartbeats_visited]
  refine bind_ok.trans (exists_congr fun middle => and_congr_right fun _ => ?_)
  have final : (setup.strategy ordersIter).runFinalCalc = setup.runFinalCalc := rfl
  rw [final]
  cases setup.runFinalCalc with
  | false => rfl
  | true =>
      have same : setup.calcToEnd endDate = (setup.strategy ordersIter).calcToEnd endDate := rfl
      rw [if_pos rfl, same, Strategy.calcToEnd]
      cases (setup.strategy ordersIter).finalTimestamp endDate <;> rfl

variable {W : String → Type} {A T : Type} {isin : Element → List T → Bool}

namespace Portfolio

variable {self : Portfolio W A T} {startDate endDate : Option Timestamp} {names : List String}
  {allTimestamps : List Timestamp}

theorem setup_increasing (self : Portfolio W A T) (name : String) :
    (self.setup name).timestamps.Pairwise (· < ·) :=
  (self.setup name).setup.timestamps.increasing

theorem allTimestamps_ok (found : self.allTimestamps names startDate endDate = .ok allTimestamps) :
    allTimestamps.Pairwise (· < ·) ∧ ∀ name ∈ names, ∀ timestamp ∈ (self.setup name).timestamps,
      timestamp ∈ allTimestamps ↔ InRange startDate endDate timestamp := by
  unfold Portfolio.allTimestamps at found
  cases names with
  | nil => cases found
  | cons first rest =>
      cases found
      have sorted : ((rest.map fun name => (self.setup name).timestamps).foldl union1d
          (self.setup first).timestamps).Pairwise (· < ·) :=
        foldl_union1d_sorted (self.setup_increasing first)
      refine ⟨(sorted.filter _).filter _, fun name member timestamp inside => ?_⟩
      rw [mem_withinRange, and_iff_right_iff_imp]
      intro _
      apply mem_foldl_union1d.mpr
      rcases List.mem_cons.mp member with rfl | later
      · exact .inl inside
      · exact .inr ⟨_, List.mem_map_of_mem later, inside⟩

theorem allTimestamps_total (nonempty : names ≠ []) :
    ∃ allTimestamps, self.allTimestamps names startDate endDate = .ok allTimestamps := by
  cases names with
  | nil => exact (nonempty rfl).elim
  | cons first rest => exact ⟨_, rfl⟩

/-- What a strategy generates for itself. -/
def generateOwn (isin : Element → List T → Bool) (portfolio : Portfolio W A T)
    (startDate endDate : Option Timestamp) (name : String) :
    Except Exn (SparseIterations (ScheduledRule (W name))) :=
  (portfolio.setup name).generateOrderIterations isin (portfolio.setup name).rules.keys
    (portfolio.setup name).setup.contractGroups startDate endDate

/-- The names with the indices of the merged timestamps. -/
def indexed (portfolio : Portfolio W A T) (allTimestamps : List Timestamp) (names : List String) :
    List (String × List Nat) :=
  names.map fun name => (name, allTimestamps.map (searchsorted (portfolio.setup name).timestamps))

theorem generate_yields (nonempty : names ≠ []) (distinct : names.Nodup)
    (ordered : validateDateRange startDate endDate = .ok ()) :
    Yields (fun out => self.allTimestamps names startDate endDate = .ok out.1 ∧
        out.2.1 = self.indexed out.1 names ∧
        ∀ name ∈ names, self.generateOwn isin startDate endDate name = .ok (out.2.2 name))
      (fun error => ∃ name ∈ names, self.generateOwn isin startDate endDate name = .error error)
      (self.generateOrderIterations isin names startDate endDate) := by
  obtain ⟨allTimestamps, found⟩ := self.allTimestamps_total nonempty
  unfold generateOrderIterations
  apply Yields.bind_of_ok ordered
  apply Yields.bind_of_ok found
  apply Yields.bind (P := fun state : List (String × List Nat) × OrdersIters W => state.1 = self.indexed allTimestamps names ∧
    ∀ name ∈ names, self.generateOwn isin startDate endDate name = .ok (state.2 name))
  · apply Yields.foldlM_done (P := fun done (state : List (String × List Nat) × OrdersIters W) =>
      state.1 = self.indexed allTimestamps done ∧
      ∀ name ∈ done, self.generateOwn isin startDate endDate name = .ok (state.2 name))
    · intro done name before inside held
      obtain ⟨iterations, generated⟩ := held
      have fresh : name ∉ done := by
        have parts := distinct.sublist inside.sublist
        intro old
        exact (List.nodup_append.mp parts).2.2 name old name (List.mem_singleton_self _) rfl
      dsimp only
      change Yields _ _ (Except.bind (self.generateOwn isin startDate endDate name) _)
      cases own : self.generateOwn isin startDate endDate name with
      | error error => exact ⟨name, inside.subset (by simp), own⟩
      | ok ordersIter =>
          refine ⟨?_, fun other member => ?_⟩
          · rw [iterations, indexed, indexed, List.map_append]
            rfl
          · dsimp only
            rcases List.mem_append.mp member with old | single
            · have apart : other ≠ name := fun same => fresh (same ▸ old)
              rw [Function.update_of_ne apart]
              exact generated other old
            · cases List.mem_singleton.mp single
              rw [Function.update_self]
              exact own
    · exact ⟨rfl, fun _ member => (List.not_mem_nil member).elim⟩
  · rintro ⟨iterations, ordersIters⟩ ⟨indices, generated⟩
    exact ⟨found, indices, generated⟩

/-- The turn a strategy has at a timestamp. -/
def due (portfolio : Portfolio W A T) (timestamp : Timestamp) (name : String) : Option Nat :=
  indexOf (portfolio.setup name).timestamps timestamp

/-- A turn of the loop. -/
def turn (portfolio : Portfolio W A T) (ordersIters : OrdersIters W) (runs : Runs W)
    (turn : String × Nat) : Except (Raised Exn (Runs W)) (Runs W) :=
  only turn.1 (((portfolio.setup turn.1).strategy (ordersIters turn.1)).runIteration turn.2) runs

/-- The turns of the loop of `run_rules`. -/
def turns (portfolio : Portfolio W A T) (names : List String) (allTimestamps : List Timestamp) :
    List (String × Nat) :=
  allTimestamps.flatMap fun timestamp =>
    names.filterMap fun name => (portfolio.due timestamp name).map (name, ·)

theorem loop_turns (ordersIters : OrdersIters W) (names : List String)
    (allTimestamps : List Timestamp) (runs : Runs W) :
    allTimestamps.zipIdx.foldlM (fun runs heartbeat =>
        (self.indexed allTimestamps names).foldlM
          (self.runOne ordersIters heartbeat.1 heartbeat.2) runs) runs =
      (self.turns names allTimestamps).foldlM (self.turn ordersIters) runs := by
  have each : ∀ heartbeat ∈ allTimestamps.zipIdx, ∀ runs,
      (self.indexed allTimestamps names).foldlM
          (self.runOne ordersIters heartbeat.1 heartbeat.2) runs =
        (names.filterMap fun name => (self.due heartbeat.1 name).map (name, ·)).foldlM
          (self.turn ordersIters) runs := by
    intro heartbeat member runs
    have at_i : allTimestamps[heartbeat.2]? = some heartbeat.1 :=
      List.mem_zipIdx_iff_getElem?.mp member
    rw [indexed, List.foldlM_map, List.foldlM_filterMap]
    congr 1
    funext runs name
    dsimp only [runOne, due, indexOf]
    rw [List.getElem?_map, at_i, Option.map_some]
    dsimp only
    by_cases here : (self.setup name).timestamps[searchsorted (self.setup name).timestamps
        heartbeat.1]? = some heartbeat.1
    · have inside := (List.getElem?_eq_some_iff.mp here).1
      rw [if_pos ⟨Nat.ne_of_lt inside, here⟩, if_pos here]
      rfl
    · rw [if_neg fun both => here both.2, if_neg here]
      rfl
  rw [foldlM_rounds _ each, turns]
  congr 1
  conv_rhs => rw [← List.zipIdx_map_fst 0 allTimestamps, List.flatMap_map]

/-- The turns of a strategy are the heartbeats its own loop visits. -/
theorem own_turns {name : String} (distinct : names.Nodup) (member : name ∈ names)
    (found : self.allTimestamps names startDate endDate = .ok allTimestamps) :
    own name (self.turns names allTimestamps) =
      visited startDate endDate (self.setup name).timestamps.zipIdx := by
  obtain ⟨sorted, merged⟩ := allTimestamps_ok found
  rw [turns, own_rounds name distinct member]
  exact indices_visited (self.setup_increasing name) sorted (merged name member)

theorem own_turns_absent {name : String} (absent : name ∉ names) :
    own name (self.turns names allTimestamps) = [] := by
  apply own_absent
  intro turn listed same
  obtain ⟨timestamp, _, inside⟩ := List.mem_flatMap.mp listed
  obtain ⟨other, member, made⟩ := List.mem_filterMap.mp inside
  obtain ⟨idx, _, rfl⟩ := Option.map_eq_some_iff.mp made
  exact absent (same ▸ member)

theorem loop_ok (distinct : names.Nodup)
    (found : self.allTimestamps names startDate endDate = .ok allTimestamps)
    (ordersIters : OrdersIters W) (runs after : Runs W) :
    allTimestamps.zipIdx.foldlM (fun runs heartbeat =>
        (self.indexed allTimestamps names).foldlM
          (self.runOne ordersIters heartbeat.1 heartbeat.2) runs) runs = .ok after ↔
      (∀ name ∈ names, (self.setup name).iterate (ordersIters name)
        (visited startDate endDate (self.setup name).timestamps.zipIdx) (runs name) =
          .ok (after name)) ∧
        ∀ name ∉ names, after name = runs name := by
  rw [loop_turns]
  refine (interleaved_ok (fun name idx =>
    ((self.setup name).strategy (ordersIters name)).runIteration idx) _ runs after).trans ?_
  constructor
  · intro each
    refine ⟨fun name member => ?_, fun name absent => ?_⟩
    · rw [← own_turns distinct member found]
      exact each name
    · have stays := each name
      rw [own_turns_absent absent] at stays
      exact (Except.ok.inj stays).symm
  · rintro ⟨selected, others⟩ name
    by_cases member : name ∈ names
    · rw [own_turns distinct member found]
      exact selected name member
    · rw [own_turns_absent member, others name member]
      rfl

theorem closing_ok (distinct : names.Nodup) (ordersIters : OrdersIters W) (runs after : Runs W) :
    names.foldlM (fun runs name => only name
        (((self.setup name).strategy (ordersIters name)).calcToEnd endDate) runs) runs = .ok after ↔
      (∀ name ∈ names, (self.setup name).calcToEnd endDate (runs name) = .ok (after name)) ∧
        ∀ name ∉ names, after name = runs name := by
  have turns : names.foldlM (fun runs name => only name
        (((self.setup name).strategy (ordersIters name)).calcToEnd endDate) runs) runs =
      (names.filterMap fun name => (some ()).map (name, ·)).foldlM (fun runs turn => only turn.1
        (((self.setup turn.1).strategy (ordersIters turn.1)).calcToEnd endDate) runs) runs := by
    rw [List.foldlM_filterMap]
    rfl
  rw [turns]
  refine (interleaved_ok (fun name _ =>
    ((self.setup name).strategy (ordersIters name)).calcToEnd endDate) _ runs after).trans ?_
  simp only [own_round _ distinct]
  constructor
  · intro each
    refine ⟨fun name member => ?_, fun name absent => ?_⟩
    · have closed := each name
      rw [if_pos member, Option.toList_some, List.foldlM_cons] at closed
      obtain ⟨state, returned, same⟩ := bind_ok.mp closed
      cases same
      exact returned
    · have stays := each name
      rw [if_neg absent] at stays
      exact (Except.ok.inj stays).symm
  · rintro ⟨closed, others⟩ name
    by_cases member : name ∈ names
    · rw [if_pos member, Option.toList_some, List.foldlM_cons]
      exact bind_ok.mpr ⟨_, closed name member, rfl⟩
    · rw [if_neg member, others name member]
      rfl

theorem nodup_eraseDups {α : Type} [DecidableEq α] (l : List α) : l.eraseDups.Nodup := by
  match l with
  | [] => exact List.nodup_nil
  | a :: rest =>
      rw [List.eraseDups_cons, List.nodup_cons, List.mem_eraseDups, List.mem_filter]
      exact ⟨by simp, nodup_eraseDups _⟩
termination_by l.length
decreasing_by exact Nat.lt_succ_of_le (List.length_filter_le _ _)

theorem selectedStrategies_ok {strategyNames : Option (List String)}
    (selected : self.selectedStrategies strategyNames = .ok names) :
    names ≠ [] ∧ names.Nodup := by
  unfold selectedStrategies at selected
  generalize strategyNames.getD self.names = requested at selected
  obtain ⟨nonempty, selected⟩ := refuse_ok.mp selected
  obtain ⟨_, same⟩ := refuse_ok.mp selected
  cases same
  refine ⟨?_, nodup_eraseDups requested⟩
  intro none
  obtain ⟨first, member⟩ := List.exists_mem_of_ne_nil _ nonempty
  have kept := List.mem_eraseDups.mpr member
  rw [none] at kept
  cases kept

/-- A portfolio returns when the stage graphs hold and every strategy returns
from its own loop and from the calculation at the end. -/
theorem runRules_ok {strategyNames : Option (List String)} {runs after : Runs W}
    (selected : self.selectedStrategies strategyNames = .ok names)
    (ordered : Strategy.validateDateRange startDate endDate = .ok ()) :
    self.runRules isin strategyNames startDate endDate runs = .ok after ↔
      (∀ name ∈ names, ∃ order, (self.strategies name).stages.validateStageGraph = .ok order) ∧
        (∀ name ∈ names, ∃ ordersIter middle,
          self.generateOwn isin startDate endDate name = .ok ordersIter ∧
          (self.setup name).iterate ordersIter
            (visited startDate endDate (self.setup name).timestamps.zipIdx) (runs name) =
              .ok middle ∧
          (self.setup name).calcToEnd endDate middle = .ok (after name)) ∧
        ∀ name ∉ names, after name = runs name := by
  obtain ⟨nonempty, distinct⟩ := selectedStrategies_ok selected
  have checked : validateDateRange startDate endDate = .ok () := by
    rw [validateDateRange, ordered]
    rfl
  have generated : Yields _ _ (self.generateOrderIterations isin names startDate endDate) :=
    self.generate_yields nonempty distinct checked
  unfold runRules
  rw [selected, checked]
  change Except.bind (names.forM _) _ = _ ↔ _
  refine bind_ok.trans ?_
  have graphs : (names.forM fun name => do
      let _ ← raiseIn runs
        ((self.strategies name).stages.validateStageGraph.mapError StageError.exn)
      .ok ()) = .ok () ↔
      ∀ name ∈ names, ∃ order, (self.strategies name).stages.validateStageGraph = .ok order := by
    rw [forM_ok]
    apply forall₂_congr
    intro name _
    cases (self.strategies name).stages.validateStageGraph with
    | ok order => exact ⟨fun _ => ⟨order, rfl⟩, fun _ => rfl⟩
    | error error => simp [raiseIn, Except.mapError, bind, Except.bind]
  constructor
  · rintro ⟨_, accepted, ran⟩
    obtain ⟨⟨all, iterations, ordersIters⟩, made, ran⟩ := bind_ok.mp ran
    obtain ⟨found, indices, own⟩ := generated.of_ok (raiseIn_ok.mp made)
    dsimp only at found indices own ran
    subst indices
    obtain ⟨middle, looped, closed⟩ := bind_ok.mp ran
    obtain ⟨iterated, untouched⟩ := (loop_ok distinct found ordersIters runs middle).mp looped
    obtain ⟨closed, untouched'⟩ := (closing_ok distinct ordersIters middle after).mp closed
    refine ⟨graphs.mp accepted, fun name member => ⟨ordersIters name, middle name, own name member,
      iterated name member, closed name member⟩, fun name absent => ?_⟩
    rw [untouched' name absent, untouched name absent]
  · rintro ⟨accepted, each, others⟩
    refine ⟨(), graphs.mpr accepted, ?_⟩
    cases made : self.generateOrderIterations isin names startDate endDate with
    | error error =>
        obtain ⟨name, member, stuck⟩ := generated.of_error made
        obtain ⟨_, _, own, _⟩ := each name member
        rw [stuck] at own
        cases own
    | ok out =>
        obtain ⟨all, iterations, ordersIters⟩ := out
        obtain ⟨found, indices, own⟩ := generated.of_ok made
        dsimp only at found indices own
        subst indices
        have between : ∀ name, ∃ middle : Run (W name),
            (name ∈ names → (self.setup name).iterate (ordersIters name)
                (visited startDate endDate (self.setup name).timestamps.zipIdx) (runs name) =
                  .ok middle ∧
              (self.setup name).calcToEnd endDate middle = .ok (after name)) ∧
            (name ∉ names → middle = runs name) := by
          intro name
          by_cases member : name ∈ names
          · obtain ⟨ordersIter, middle, generates, iterated, closed⟩ := each name member
            rw [own name member] at generates
            cases generates
            exact ⟨middle, fun _ => ⟨iterated, closed⟩, fun absent => (absent member).elim⟩
          · exact ⟨runs name, fun inside => (member inside).elim, fun _ => rfl⟩
        choose middle ran untouched using between
        refine bind_ok.mpr ⟨_, rfl, bind_ok.mpr ⟨middle, ?_, ?_⟩⟩
        · apply (loop_ok distinct found ordersIters runs middle).mpr
          exact ⟨fun name member => (ran name member).1, untouched⟩
        · apply (closing_ok distinct ordersIters middle after).mpr
          refine ⟨fun name member => (ran name member).2, fun name absent => ?_⟩
          rw [others name absent, untouched name absent]

end Portfolio

/-! ## Orders, decisions, trades and positions -/

/-- Runs that differ in what the account has calculated at most. -/
structure SameTrading {W : Type} (before after : Engine W) : Prop where
  world : after.world = before.world
  heap : after.heap = before.heap
  orders : after.orders = before.orders
  currentOrders : after.currentOrders = before.currentOrders
  orderDecisions : after.orderDecisions = before.orderDecisions
  trades : after.account.trades = before.account.trades
  positions : ∀ timestamp symbol,
    after.account.symbolPosition timestamp symbol = before.account.symbolPosition timestamp symbol
  groups : ∀ group, after.account.symbolPnlsByContractGroup.listAt group =
    before.account.symbolPnlsByContractGroup.listAt group

theorem SameTrading.refl {W : Type} (engine : Engine W) : SameTrading engine engine :=
  ⟨rfl, rfl, rfl, rfl, rfl, rfl, fun _ _ => rfl, fun _ => rfl⟩

theorem Account.Revalued.symbolPosition {before after : Account}
    (revalued : Account.Revalued before after) (timestamp : Timestamp) (symbol : String) :
    after.symbolPosition timestamp symbol = before.symbolPosition timestamp symbol := by
  unfold Account.symbolPosition
  cases found : after.symbolPnls.get? symbol with
  | some ledger' =>
      obtain ⟨ledger, stored, same⟩ := revalued.ledgers symbol ledger' found
      rw [stored]
      change ledger'.position timestamp = ledger.position timestamp
      rw [ContractPnl.position, ContractPnl.position, same.tradePnl]
  | none =>
      have absent := (OrderedDict.get?_eq_none_iff _ _).mp found
      rw [revalued.keys] at absent
      rw [(OrderedDict.get?_eq_none_iff _ _).mpr absent]

theorem calcToEnd_sameTrading {W T : Type} {setup : RuleSetup W T} {endDate : Option Timestamp}
    {run after : Run W} (ran : setup.calcToEnd endDate run = .ok after) :
    SameTrading run.state after.state := by
  unfold RuleSetup.calcToEnd Strategy.calcToEnd at ran
  split at ran
  · obtain ⟨⟨finished, _⟩, acted, same⟩ := bind_ok.mp ran
    cases same
    have calculated := (Recorded.act_ok acted).1
    unfold Strategy.finalCalc at calculated
    split at calculated
    · rename_i account valued
      have revalued := (Account.calcPnl_revalued run.state.account _ _ _ (.refl _)).1 _ valued
      have state := congrArg Prod.fst (Except.ok.inj calculated)
      dsimp only at state
      rw [← state]
      exact ⟨rfl, rfl, rfl, rfl, rfl, revalued.trades, revalued.symbolPosition, revalued.groups⟩
    · cases calculated
  · cases ran
    exact .refl run.state

namespace RuleSetup

variable {W T : Type} {isin : Element → List T → Bool} {setup : RuleSetup W T}
  {startDate endDate : Option Timestamp} {run : Run W}

/-- The loop of a strategy returned from, up to the calculation at the end. -/
def Closes (isin : Element → List T → Bool) (setup : RuleSetup W T)
    (startDate endDate : Option Timestamp) (run closed : Run W) : Prop :=
  ∃ ordersIter middle, setup.generateOrderIterations isin setup.rules.keys
      setup.setup.contractGroups startDate endDate = .ok ordersIter ∧
    setup.iterate ordersIter (visited startDate endDate setup.timestamps.zipIdx) run = .ok middle ∧
    setup.calcToEnd endDate middle = .ok closed

theorem alone_of_closes (ordered : Strategy.validateDateRange startDate endDate = .ok ())
    {closed : Run W} (closes : setup.Closes isin startDate endDate run closed) :
    ∃ alone, setup.runRules isin none none startDate endDate run = .ok alone ∧
      SameTrading alone.state closed.state ∧
      (setup.runFinalCalc = true → closed = alone) ∧
      (setup.runFinalCalc = false → setup.calcToEnd endDate alone = .ok closed) := by
  obtain ⟨ordersIter, middle, generated, iterated, calculated⟩ := closes
  have returns (alone : Run W) (last : (if setup.runFinalCalc then setup.calcToEnd endDate middle
      else .ok middle) = .ok alone) :
      setup.runRules isin none none startDate endDate run = .ok alone :=
    (runRules_ok ordered).mpr ⟨ordersIter, middle, generated, iterated, last⟩
  cases final : setup.runFinalCalc with
  | false =>
      rw [final] at returns
      exact ⟨middle, returns middle rfl, calcToEnd_sameTrading calculated, nofun,
        fun _ => calculated⟩
  | true =>
      rw [final] at returns
      exact ⟨closed, returns closed calculated, .refl _, fun _ => rfl, nofun⟩

theorem closes_of_alone (ordered : Strategy.validateDateRange startDate endDate = .ok ())
    {alone : Run W} (ran : setup.runRules isin none none startDate endDate run = .ok alone)
    (valued : setup.runFinalCalc = false → ∃ closed, setup.calcToEnd endDate alone = .ok closed) :
    ∃ closed, setup.Closes isin startDate endDate run closed := by
  obtain ⟨ordersIter, middle, generated, iterated, last⟩ := (runRules_ok ordered).mp ran
  cases final : setup.runFinalCalc with
  | false =>
      rw [final] at last
      cases last
      obtain ⟨closed, calculated⟩ := valued final
      exact ⟨closed, ordersIter, alone, generated, iterated, calculated⟩
  | true =>
      rw [final] at last
      exact ⟨alone, ordersIter, middle, generated, iterated, last⟩

end RuleSetup

/-- A portfolio returns when its stage graphs hold and every strategy returns
alone and can be valued at the end.  It leaves every strategy with the orders,
the decisions, the trades and the positions of a run alone. -/
theorem portfolio_runs_alone {W : String → Type} {A T : Type} (isin : Element → List T → Bool)
    (portfolio : Portfolio W A T) (strategyNames : Option (List String))
    (startDate endDate : Option Timestamp) (runs : Runs W) {names : List String}
    (selected : portfolio.selectedStrategies strategyNames = .ok names)
    (ordered : Strategy.validateDateRange startDate endDate = .ok ()) :
    ((∃ after, portfolio.runRules isin strategyNames startDate endDate runs = .ok after) ↔
      ∀ name ∈ names,
        (∃ order, (portfolio.strategies name).stages.validateStageGraph = .ok order) ∧
        ∃ alone, (portfolio.setup name).runRules isin none none startDate endDate (runs name) =
            .ok alone ∧
          ((portfolio.setup name).runFinalCalc = false →
            ∃ closed, (portfolio.setup name).calcToEnd endDate alone = .ok closed)) ∧
    ∀ after, portfolio.runRules isin strategyNames startDate endDate runs = .ok after →
      (∀ name ∈ names, ∃ alone,
        (portfolio.setup name).runRules isin none none startDate endDate (runs name) = .ok alone ∧
          SameTrading alone.state (after name).state ∧
          ((portfolio.setup name).runFinalCalc = true → after name = alone)) ∧
      ∀ name ∉ names, after name = runs name := by
  have whole {after : Runs W} :
      portfolio.runRules isin strategyNames startDate endDate runs = .ok after ↔
        (∀ name ∈ names, ∃ order,
          (portfolio.strategies name).stages.validateStageGraph = .ok order) ∧
        (∀ name ∈ names, (portfolio.setup name).Closes isin startDate endDate (runs name)
          (after name)) ∧
        ∀ name ∉ names, after name = runs name := Portfolio.runRules_ok selected ordered
  constructor
  · constructor
    · rintro ⟨after, ran⟩ name member
      obtain ⟨graphs, each, _⟩ := whole.mp ran
      obtain ⟨alone, returned, _, _, valued⟩ := RuleSetup.alone_of_closes ordered (each name member)
      exact ⟨graphs name member, alone, returned, fun final => ⟨after name, valued final⟩⟩
    · intro each
      have closes : ∀ name, ∃ closed, (name ∈ names →
          (portfolio.setup name).Closes isin startDate endDate (runs name) closed) ∧
          (name ∉ names → closed = runs name) := by
        intro name
        by_cases member : name ∈ names
        · obtain ⟨_, alone, returned, valued⟩ := each name member
          obtain ⟨closed, closes⟩ := RuleSetup.closes_of_alone ordered returned valued
          exact ⟨closed, fun _ => closes, fun absent => (absent member).elim⟩
        · exact ⟨runs name, fun inside => (member inside).elim, fun _ => rfl⟩
      choose after closed untouched using closes
      exact ⟨after, whole.mpr ⟨fun name member => (each name member).1, closed, untouched⟩⟩
  · intro after ran
    obtain ⟨_, each, others⟩ := whole.mp ran
    refine ⟨fun name member => ?_, others⟩
    obtain ⟨alone, returned, same, closed, _⟩ :=
      RuleSetup.alone_of_closes ordered (each name member)
    exact ⟨alone, returned, same, closed⟩

/-! ## Two strategies -/

/-- A rule at every heartbeat, with the orders it returns. -/
def everyHeartbeat (setup : AccountSetup) (orders : Nat → List OrderId) :
    PortfolioStrategy Unit (List Int) Element where
  stages := ⟨setup.contractGroups, setup.groupsNonempty, setup.groupsUnique, setup.timestamps,
    .empty, OrderedDict.empty.set "open" ⟨[], [], setup.contractGroups,
      fun group => if group ∈ setup.contractGroups then
        some fun world _ _ _ => (world, .ok (.array [])) else none, fun group => by simp⟩,
    [("enter", "open")], 0⟩
  setup := {
    setup := setup
    priceFunction := fun _ _ _ => .ok (.real 11)
    tradeLag := 0
    marketSims := [fun world heap orders i => ⟨world, (fillFour heap orders i).1,
      .ok (.sequence ((fillFour heap orders i).2.map some))⟩]
    riskPolicies := []
    runFinalCalc := false
    rules := OrderedDict.empty.set "enter" {
      ruleFunction := fun _ world heap _ _ i _ =>
        ([], ⟨world, heap, .ok (.sequence ((orders i).map some))⟩)
      signal := {
        cgroups := ["IBM"]
        values := fun _ => .booleans (List.replicate setup.timestamps.timestamps.length true)
        validated := fun _ _ => RuleSetup.validated_booleans List.length_replicate }
      sigTrueValues := [.boolean true]
      positionFilter := none } }
  sameRules := rfl
  sameGroups := rfl
  sameTimestamps := rfl

/-- One strategy trades at four hours and the other has two of its own. -/
def twoStrategies : Portfolio (fun _ => Unit) (List Int) Element where
  names := ["hourly", "sparse"]
  distinct := by decide
  strategies := fun name =>
    if name = "hourly" then everyHeartbeat sampleSetup fun i => if i = 0 then [0] else []
    else everyHeartbeat { sampleSetup with
      timestamps := ⟨[sampleTime 1, sampleTime 5], by decide, by decide⟩ } fun _ => []

theorem portfolio_runs_alone_two_strategies :
    ∃ after, twoStrategies.runRules RuleSetup.amongTriggers none (some (sampleTime 0)) none
        (fun _ => RuleSetup.begin () sampleHeap) = .ok after ∧
      ∃ alone, (twoStrategies.setup "hourly").runRules RuleSetup.amongTriggers none none
          (some (sampleTime 0)) none (RuleSetup.begin () sampleHeap) = .ok alone ∧
        SameTrading alone.state (after "hourly").state := by
  have returns : (twoStrategies.runRules RuleSetup.amongTriggers none (some (sampleTime 0)) none
      fun _ => RuleSetup.begin () sampleHeap).isOk = true := by decide +kernel
  cases ran : twoStrategies.runRules RuleSetup.amongTriggers none (some (sampleTime 0)) none
      fun _ => RuleSetup.begin () sampleHeap with
  | error raised =>
      rw [ran] at returns
      cases returns
  | ok after =>
      obtain ⟨_, each⟩ := portfolio_runs_alone RuleSetup.amongTriggers twoStrategies none
        (some (sampleTime 0)) none (fun _ => RuleSetup.begin () sampleHeap)
        (show twoStrategies.selectedStrategies none = .ok ["hourly", "sparse"] by decide +kernel) rfl
      obtain ⟨alone, returned, same, _⟩ := (each after ran).1 "hourly" (List.mem_cons_self ..)
      exact ⟨after, rfl, alone, returned, same⟩

end Gambit
