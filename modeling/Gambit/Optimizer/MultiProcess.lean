import Gambit.Lib.Machines
import Gambit.Lib.OrderedDict

/-!
# The multi-process optimizer

`Optimizer._run_multi_process` beside the workers of its executor, which finish
tasks at any time and in any order.  A future is the number of its task.
-/

set_option autoImplicit false

namespace Gambit.Optimizer

open Machines

section Code

variable {σ ρ : Type}

abbrev Future := Nat

/-- How a task ends. -/
inductive Outcome (ρ : Type) where
  /-- A cost and other costs. -/
  | costs (costs : ρ)
  /-- An `Exception`, or a result that is no pair. -/
  | failed
  /-- A `BaseException` that is no `Exception`. -/
  | interrupted
deriving DecidableEq

/-- A task of the executor. -/
structure Task (σ ρ : Type) where
  suggestion : σ
  result : Option (Outcome ρ)
deriving DecidableEq

structure Experiment (σ ρ : Type) where
  suggestion : σ
  costs : ρ
deriving DecidableEq

inductive Raised (σ : Type) where
  | optimizerWorkerError (suggestion : σ)
  | interrupt
deriving DecidableEq

inductive Control (σ : Type) where
  /-- `while pending or not exhausted` -/
  | outer
  /-- `while not exhausted and len(pending) < self.max_pending_tasks` -/
  | inner
  /-- `concurrent.futures.wait` -/
  | waiting
  /-- `for future in completed` -/
  | draining (completed : List Future)
  | returned
  | raised (exn : Raised σ)
deriving DecidableEq

structure State (σ ρ : Type) where
  control : Control σ
  /-- What the generator still yields. -/
  suggestions : List (Option σ)
  exhausted : Bool
  pending : OrderedDict Future σ
  tasks : List (Task σ ρ)
  experiments : List (Experiment σ ρ)
  /-- Suggestions whose failure was logged. -/
  errors : List σ

def State.start (suggestions : List (Option σ)) : State σ ρ :=
  ⟨.outer, suggestions, false, .empty, [], [], []⟩

def State.ended (state : State σ ρ) : Bool :=
  match state.control with
  | .returned | .raised _ => true
  | _ => false

/-- `executor.submit` -/
def State.submit (state : State σ ρ) (suggestion : σ) : State σ ρ :=
  { state with
    tasks := state.tasks ++ [⟨suggestion, none⟩]
    pending := state.pending.set state.tasks.length suggestion }

def State.finished (state : State σ ρ) (future : Future) : Bool :=
  match state.tasks[future]? with
  | some task => task.result.isSome
  | none => false

/-- The tasks that no worker has finished. -/
def State.inFlight (state : State σ ρ) : List Future :=
  (List.range state.tasks.length).filter fun future => !state.finished future

/-- The body of `for future in completed`. -/
def State.settle (raiseOnError : Bool) (state : State σ ρ) (future : Future) (suggestion : σ)
    (rest : List Future) : Outcome ρ → State σ ρ
  | .costs costs =>
      { state with
        pending := state.pending.erase future
        experiments := state.experiments ++ [⟨suggestion, costs⟩]
        control := .draining rest }
  | .failed =>
      if raiseOnError then
        { state with
          pending := state.pending.erase future
          control := .raised (.optimizerWorkerError suggestion) }
      else
        { state with
          pending := state.pending.erase future
          errors := state.errors ++ [suggestion]
          control := .draining rest }
  | .interrupted =>
      { state with pending := state.pending.erase future, control := .raised .interrupt }

inductive Action (ρ : Type) where
  /-- A worker finishes a task. -/
  | finish (future : Future) (outcome : Outcome ρ)
  /-- `wait` returns these futures, in the order of the set. -/
  | wake (completed : List Future)
  | proceed

/-- A step of the optimizer other than the return of `wait`. -/
def State.proceed (maxPendingTasks : Nat) (raiseOnError : Bool) (state : State σ ρ) :
    Option (State σ ρ) :=
  match state.control with
  | .outer =>
      if state.pending.items = [] ∧ state.exhausted = true then some { state with control := .returned }
      else some { state with control := .inner }
  | .inner =>
      if state.exhausted = false ∧ state.pending.items.length < maxPendingTasks then
        match state.suggestions with
        | [] => some { state with exhausted := true, control := .waiting }
        | none :: rest => some { state with suggestions := rest }
        | some suggestion :: rest => some ({ state with suggestions := rest }.submit suggestion)
      else some { state with control := .waiting }
  | .waiting => if state.pending.items = [] then some { state with control := .outer } else none
  | .draining [] => some { state with control := .outer }
  | .draining (future :: rest) => do
      let suggestion ← state.pending.get? future
      let task ← state.tasks[future]?
      let outcome ← task.result
      some (state.settle raiseOnError future suggestion rest outcome)
  | .returned | .raised _ => none

def State.step (maxPendingTasks : Nat) (raiseOnError : Bool) (state : State σ ρ) :
    Action ρ → Option (State σ ρ)
  | .finish future outcome =>
      match state.tasks[future]? with
      | some ⟨suggestion, none⟩ =>
          if state.ended then none
          else some { state with tasks := state.tasks.set future ⟨suggestion, some outcome⟩ }
      | _ => none
  | .wake completed =>
      match state.control with
      | .waiting =>
          if completed ≠ [] ∧ completed.Nodup ∧
              ∀ future ∈ completed, state.pending.contains future ∧ state.finished future then
            some { state with control := .draining completed }
          else none
      | _ => none
  | .proceed => state.proceed maxPendingTasks raiseOnError

/-! ## What is promised -/

def Task.experiment : Task σ ρ → Option (Experiment σ ρ)
  | ⟨suggestion, some (.costs costs)⟩ => some ⟨suggestion, costs⟩
  | _ => none

def Task.error : Task σ ρ → Option σ
  | ⟨suggestion, some .failed⟩ => some suggestion
  | _ => none

/-- Every suggestion is one task, in order; every task has ended, and is one experiment or one
logged error. -/
structure Accounted (suggestions : List (Option σ)) (state : State σ ρ) : Prop where
  submitted : state.tasks.map Task.suggestion = suggestions.filterMap id
  ended : ∀ task ∈ state.tasks, (∃ costs, task.result = some (.costs costs)) ∨ task.result = some .failed
  experiments : state.experiments.Perm (state.tasks.filterMap Task.experiment)
  errors : state.errors.Perm (state.tasks.filterMap Task.error)

/-! ## The invariant -/

/-- The futures that are no longer pending, and what they left. -/
def State.Settled (state : State σ ρ) : Prop :=
  ∃ settled : List Future, (settled ++ state.pending.keys).Perm (List.range state.tasks.length) ∧
    state.experiments = settled.filterMap (fun future => state.tasks[future]?.bind Task.experiment) ∧
    state.errors = settled.filterMap fun future => state.tasks[future]?.bind Task.error

/-- What holds at each place of the code. -/
def State.At (state : State σ ρ) : Control σ → Prop
  | .outer | .inner => state.Settled
  | .waiting => state.Settled ∧ (state.pending.items = [] → state.exhausted = true)
  | .draining completed => state.Settled ∧ completed.Nodup ∧
      ∀ future ∈ completed, future ∈ state.pending.keys
  | .returned => state.Settled ∧ state.pending.items = [] ∧ state.exhausted = true
  | .raised _ => ∃ task ∈ state.tasks, task.result = some .interrupted

structure Tables (maxPendingTasks : Nat) (suggestions : List (Option σ)) (state : State σ ρ) :
    Prop where
  submitted : state.tasks.map Task.suggestion ++ state.suggestions.filterMap id =
    suggestions.filterMap id
  exhausted : state.exhausted = true → state.suggestions = []
  pendingTask : ∀ future suggestion, state.pending.get? future = some suggestion →
    ∃ result, state.tasks[future]? = some ⟨suggestion, result⟩
  unfinished : ∀ future suggestion, state.tasks[future]? = some ⟨suggestion, none⟩ →
    future ∈ state.pending.keys
  bounded : state.pending.items.length ≤ maxPendingTasks

structure Inv (maxPendingTasks : Nat) (suggestions : List (Option σ)) (state : State σ ρ) : Prop
    extends Tables maxPendingTasks suggestions state where
  here : state.At state.control

end Code

section Invariant

variable {σ ρ : Type} {maxPendingTasks : Nat} {suggestions : List (Option σ)} {state next : State σ ρ}

theorem inv_start : Inv maxPendingTasks suggestions (.start suggestions : State σ ρ) where
  submitted := rfl
  exhausted := nofun
  pendingTask := nofun
  unfinished := nofun
  bounded := Nat.zero_le _
  here := ⟨[], List.Perm.refl _, rfl, rfl⟩

/-- The place in the code and the flag do not touch the tables. -/
theorem Inv.move (inv : Inv maxPendingTasks suggestions state) {control : Control σ}
    (here : state.At control) : Inv maxPendingTasks suggestions { state with control := control } where
  submitted := inv.submitted
  exhausted := inv.exhausted
  pendingTask := inv.pendingTask
  unfinished := inv.unfinished
  bounded := inv.bounded
  here := here

/-! ## Submission -/

theorem Inv.pending_lt (inv : Inv maxPendingTasks suggestions state) {future : Future}
    (pending : future ∈ state.pending.keys) : future < state.tasks.length := by
  obtain ⟨suggestion, found⟩ := Option.isSome_iff_exists.mp
    ((OrderedDict.contains_iff state.pending future).mpr pending)
  obtain ⟨result, task⟩ := inv.pendingTask future suggestion found
  exact (List.getElem?_eq_some_iff.mp task).1

/-- A submission adds one running task. -/
theorem running_submit {future : Future} {suggestion other : σ}
    (running : (state.submit suggestion).tasks[future]? = some ⟨other, none⟩) :
    state.tasks[future]? = some ⟨other, none⟩ ∨ future = state.tasks.length := by
  change (state.tasks ++ [⟨suggestion, none⟩])[future]? = _ at running
  rcases Nat.lt_or_ge future state.tasks.length with inside | outside
  · rw [List.getElem?_append_left inside] at running
    exact .inl running
  · have last := (List.getElem?_eq_some_iff.mp running).1
    rw [List.length_append, List.length_singleton] at last
    exact .inr (Nat.le_antisymm (Nat.le_of_lt_succ last) outside)

theorem Inv.submit (inv : Inv maxPendingTasks suggestions state) {suggestion : σ}
    {rest : List (Option σ)} (inner : state.control = .inner)
    (room : state.pending.items.length < maxPendingTasks)
    (yields : state.suggestions = some suggestion :: rest) :
    Inv maxPendingTasks suggestions ({ state with suggestions := rest }.submit suggestion) := by
  have fresh : state.tasks.length ∉ state.pending.keys := fun pending =>
    (inv.pending_lt pending).false
  have keys : (state.pending.set state.tasks.length suggestion).keys =
      state.pending.keys ++ [state.tasks.length] := by
    rw [OrderedDict.keys_set, if_neg fresh]
  have settled := inv.here
  rw [inner] at settled
  obtain ⟨settled, futures, experiments, errors⟩ := settled
  have old : ∀ future ∈ settled, (state.tasks ++ [⟨suggestion, none⟩])[future]? = state.tasks[future]? := by
    intro future member
    have inside := List.mem_range.mp (futures.subset (List.mem_append_left _ member))
    exact List.getElem?_append_left inside
  refine ⟨⟨?_, ?_, ?_, ?_, ?_⟩, ?_⟩
  · rw [← inv.submitted, yields]
    simp [State.submit]
  · intro exhausted
    have ended := inv.exhausted exhausted
    rw [yields] at ended
    cases ended
  · intro future other found
    rw [State.submit, OrderedDict.get?_set] at found
    split at found
    · rename_i same
      cases found
      exact ⟨none, by rw [same]; exact List.getElem?_concat_length⟩
    · obtain ⟨result, task⟩ := inv.pendingTask future other found
      have inside := (List.getElem?_eq_some_iff.mp task).1
      exact ⟨result, (List.getElem?_append_left inside).trans task⟩
  · intro future other task
    change future ∈ (state.pending.set state.tasks.length suggestion).keys
    rw [keys, List.mem_append, List.mem_singleton]
    exact (running_submit task).imp_left (inv.unfinished future other)
  · change (state.pending.set state.tasks.length suggestion).items.length ≤ _
    rw [OrderedDict.items_set_of_not_mem fresh, List.length_append]
    exact room
  · change State.At _ state.control
    rw [inner]
    refine ⟨settled, ?_, ?_, ?_⟩
    · change (settled ++ (state.pending.set state.tasks.length suggestion).keys).Perm
        (List.range (state.tasks ++ [Task.mk suggestion none]).length)
      rw [keys, ← List.append_assoc, List.length_append, List.length_singleton, List.range_succ]
      exact futures.append_right _
    · refine experiments.trans (List.filterMap_congr fun future member => ?_)
      exact congrArg (·.bind Task.experiment) (old future member).symm
    · refine errors.trans (List.filterMap_congr fun future member => ?_)
      exact congrArg (·.bind Task.error) (old future member).symm

/-! ## Workers -/

/-- A finished future stays as it is, and so do those no longer pending. -/
theorem Inv.finish (inv : Inv maxPendingTasks suggestions state) {future : Future} {suggestion : σ}
    {outcome : Outcome ρ} (running : state.tasks[future]? = some ⟨suggestion, none⟩) :
    Inv maxPendingTasks suggestions
      { state with tasks := state.tasks.set future ⟨suggestion, some outcome⟩ } := by
  have pending := inv.unfinished future suggestion running
  have inside := (List.getElem?_eq_some_iff.mp running).1
  have other : ∀ k, k ≠ future →
      (state.tasks.set future ⟨suggestion, some outcome⟩)[k]? = state.tasks[k]? := by
    intro k different
    exact List.getElem?_set_ne different.symm
  have settled : state.Settled → State.Settled
      { state with tasks := state.tasks.set future ⟨suggestion, some outcome⟩ } := by
    rintro ⟨settled, futures, experiments, errors⟩
    have apart : ∀ k ∈ settled, k ≠ future := by
      rintro k member rfl
      have distinct := futures.nodup_iff.mpr List.nodup_range
      exact (List.nodup_append.mp distinct).2.2 k member k pending rfl
    refine ⟨settled, ?_, ?_, ?_⟩
    · simpa using futures
    · refine experiments.trans (List.filterMap_congr fun k member => ?_)
      exact congrArg (·.bind Task.experiment) (other k (apart k member)).symm
    · refine errors.trans (List.filterMap_congr fun k member => ?_)
      exact congrArg (·.bind Task.error) (other k (apart k member)).symm
  refine ⟨⟨?_, inv.exhausted, ?_, ?_, inv.bounded⟩, ?_⟩
  · rw [← inv.submitted]
    congr 1
    apply List.ext_getElem?
    intro k
    rw [List.getElem?_map, List.getElem?_map]
    by_cases same : k = future
    · subst same
      rw [running, List.getElem?_set_self inside]
      rfl
    · rw [other k same]
  · intro k value found
    obtain ⟨result, task⟩ := inv.pendingTask k value found
    by_cases same : k = future
    · subst same
      rw [running] at task
      cases task
      exact ⟨_, List.getElem?_set_self inside⟩
    · exact ⟨result, (other k same).trans task⟩
  · intro k value task
    by_cases same : k = future
    · exact same ▸ pending
    · exact inv.unfinished k value ((other k same).symm.trans task)
  · have here := inv.here
    cases place : state.control with
    | outer | inner =>
        rw [place] at here
        exact settled here
    | waiting =>
        rw [place] at here
        exact ⟨settled here.1, here.2⟩
    | draining completed =>
        rw [place] at here
        exact ⟨settled here.1, here.2⟩
    | returned =>
        rw [place] at here
        exact ⟨settled here.1, here.2⟩
    | raised exn =>
        rw [place] at here
        obtain ⟨task, member, interrupted⟩ := here
        obtain ⟨k, found⟩ := List.mem_iff_getElem?.mp member
        have different : k ≠ future := by
          rintro rfl
          rw [running] at found
          cases found
          cases interrupted
        exact ⟨task, List.mem_iff_getElem?.mpr ⟨k, (other k different).trans found⟩, interrupted⟩

/-! ## Results -/

section Results

variable {future : Future} {suggestion : σ} {rest : List Future} {outcome : Outcome ρ}

theorem Tables.erase (tables : Tables maxPendingTasks suggestions state)
    (task : state.tasks[future]? = some ⟨suggestion, some outcome⟩) :
    Tables maxPendingTasks suggestions { state with pending := state.pending.erase future } where
  submitted := tables.submitted
  exhausted := tables.exhausted
  pendingTask k value found := by
    rw [OrderedDict.get?_erase] at found
    split at found
    · cases found
    · exact tables.pendingTask k value found
  unfinished k value running := by
    change k ∈ (state.pending.erase future).keys
    rw [OrderedDict.keys_erase, List.mem_filter]
    refine ⟨tables.unfinished k value running, ?_⟩
    rw [decide_eq_true_eq]
    rintro rfl
    rw [task] at running
    cases running
  bounded := (List.length_filter_le _ _).trans tables.bounded

/-- A popped future joins the settled ones. -/
theorem State.Settled.pop (settled : state.Settled) (pending : future ∈ state.pending.keys)
    (task : state.tasks[future]? = some ⟨suggestion, some outcome⟩) :
    State.Settled { state with
      pending := state.pending.erase future
      experiments := state.experiments ++ (Task.experiment ⟨suggestion, some outcome⟩).toList
      errors := state.errors ++ (Task.error ⟨suggestion, some outcome⟩).toList } := by
  obtain ⟨settled, futures, experiments, errors⟩ := settled
  have popped : ([future] ++ (state.pending.erase future).keys).Perm state.pending.keys := by
    have erased : (state.pending.erase future).keys = state.pending.keys.erase future := by
      have distinct : state.pending.keys.Nodup := state.pending.distinct
      rw [OrderedDict.keys_erase, distinct.erase_eq_filter]
      exact List.filter_congr fun k _ => by by_cases same : k = future <;> simp [same]
    rw [erased]
    exact (List.perm_cons_erase pending).symm
  refine ⟨settled ++ [future], ?_, ?_, ?_⟩
  · rw [List.append_assoc]
    exact (popped.append_left settled).trans futures
  · rw [List.filterMap_append, ← experiments, List.filterMap_cons, task]
    cases outcome <;> rfl
  · rw [List.filterMap_append, ← errors, List.filterMap_cons, task]
    cases outcome <;> rfl

theorem Inv.settle (inv : Inv maxPendingTasks suggestions state)
    (draining : state.control = .draining (future :: rest))
    (task : state.tasks[future]? = some ⟨suggestion, some outcome⟩) :
    Inv maxPendingTasks suggestions (state.settle false future suggestion rest outcome) := by
  have here := inv.here
  rw [draining] at here
  obtain ⟨settled, distinct, pending⟩ := here
  obtain ⟨fresh, distinct⟩ := List.nodup_cons.mp distinct
  have popped := settled.pop (pending future List.mem_cons_self) task
  have tables := inv.toTables.erase task
  have others : ∀ k ∈ rest, k ∈ (state.pending.erase future).keys := by
    intro k member
    rw [OrderedDict.keys_erase, List.mem_filter, decide_eq_true_eq]
    exact ⟨pending k (List.mem_cons_of_mem _ member), fun same => fresh (same ▸ member)⟩
  cases outcome with
  | costs costs =>
      have noError : (⟨suggestion, some (.costs costs)⟩ : Task σ ρ).error = none := rfl
      rw [noError, Option.toList_none, List.append_nil] at popped
      exact ⟨⟨tables.submitted, tables.exhausted, tables.pendingTask, tables.unfinished,
        tables.bounded⟩, popped, distinct, others⟩
  | failed =>
      have noExperiment : (⟨suggestion, some .failed⟩ : Task σ ρ).experiment = none := rfl
      rw [noExperiment, Option.toList_none, List.append_nil] at popped
      exact ⟨⟨tables.submitted, tables.exhausted, tables.pendingTask, tables.unfinished,
        tables.bounded⟩, popped, distinct, others⟩
  | interrupted =>
      exact ⟨⟨tables.submitted, tables.exhausted, tables.pendingTask, tables.unfinished,
        tables.bounded⟩, _, List.mem_of_getElem? task, rfl⟩

end Results

/-! ## Steps -/

theorem Inv.proceed (inv : Inv maxPendingTasks suggestions state)
    (positive : 1 ≤ maxPendingTasks) (onward : state.proceed maxPendingTasks false = some next) :
    Inv maxPendingTasks suggestions next := by
  have here := inv.here
  unfold State.proceed at onward
  cases place : state.control with
  | outer =>
      simp only [place] at onward here
      split at onward
      · rename_i done
        cases onward
        exact inv.move ⟨here, done⟩
      · cases onward
        exact inv.move here
  | inner =>
      simp only [place] at onward here
      split at onward
      · rename_i room
        split at onward
        · rename_i stops
          cases onward
          exact ⟨⟨inv.submitted, fun _ => stops, inv.pendingTask, inv.unfinished, inv.bounded⟩,
            here, fun _ => rfl⟩
        · rename_i rest yields
          cases onward
          refine ⟨⟨?_, ?_, inv.pendingTask, inv.unfinished, inv.bounded⟩, ?_⟩
          · rw [← inv.submitted, yields]
            rfl
          · intro exhausted
            have ended := inv.exhausted exhausted
            rw [yields] at ended
            cases ended
          · exact here
        · rename_i suggestion rest yields
          cases onward
          have submitted := inv.submit place room.2 yields
          simp only [place] at submitted
          exact submitted
      · rename_i full
        cases onward
        refine inv.move ⟨here, fun empty => ?_⟩
        by_contra more
        exact full ⟨by simpa using more, by rw [empty]; exact positive⟩
  | waiting =>
      simp only [place] at onward here
      split at onward
      · cases onward
        exact inv.move here.1
      · cases onward
  | draining completed =>
      cases completed with
      | nil =>
          simp only [place] at onward here
          cases onward
          exact inv.move here.1
      | cons future rest =>
          simp only [place] at onward
          obtain ⟨suggestion, found, onward⟩ := Option.bind_eq_some_iff.mp onward
          obtain ⟨task, submitted, onward⟩ := Option.bind_eq_some_iff.mp onward
          obtain ⟨outcome, finished, settled⟩ := Option.bind_eq_some_iff.mp onward
          cases settled
          obtain ⟨result, same⟩ := inv.pendingTask future suggestion found
          rw [submitted] at same
          cases same
          cases finished
          exact inv.settle place submitted
  | returned | raised =>
      simp only [place] at onward
      cases onward

theorem Inv.step {action : Action ρ} (positive : 1 ≤ maxPendingTasks)
    (inv : Inv maxPendingTasks suggestions state)
    (onward : state.step maxPendingTasks false action = some next) :
    Inv maxPendingTasks suggestions next := by
  cases action with
  | finish future outcome =>
      simp only [State.step] at onward
      split at onward
      · rename_i suggestion running
        split at onward
        · cases onward
        · cases onward
          exact inv.finish running
      · cases onward
  | wake completed =>
      simp only [State.step] at onward
      split at onward
      · rename_i waiting
        split at onward
        · rename_i valid
          cases onward
          have here := inv.here
          rw [waiting] at here
          refine inv.move ⟨here.1, valid.2.1, fun future member => ?_⟩
          exact (OrderedDict.contains_iff _ _).mp (valid.2.2 future member).1
        · cases onward
      · cases onward
  | proceed => exact inv.proceed positive onward

/-! ## Runs -/

theorem mem_inFlight {future : Future} :
    future ∈ state.inFlight ↔ ∃ suggestion, state.tasks[future]? = some ⟨suggestion, none⟩ := by
  rw [State.inFlight, List.mem_filter, List.mem_range, State.finished]
  cases found : state.tasks[future]? with
  | none => simp [List.getElem?_eq_none_iff.mp found]
  | some task =>
      obtain ⟨suggestion, result⟩ := task
      have inside := (List.getElem?_eq_some_iff.mp found).1
      cases result <;> simp [inside]

theorem nodup_inFlight : state.inFlight.Nodup := List.nodup_range.filter _

theorem Inv.inFlight_le (inv : Inv maxPendingTasks suggestions state) :
    state.inFlight.length ≤ maxPendingTasks := by
  have pending : state.inFlight ⊆ state.pending.keys := by
    intro future running
    obtain ⟨suggestion, task⟩ := mem_inFlight.mp running
    exact inv.unfinished future suggestion task
  calc state.inFlight.length ≤ state.pending.keys.length := (nodup_inFlight.subperm pending).length_le
    _ = state.pending.items.length := List.length_map _
    _ ≤ maxPendingTasks := inv.bounded

/-- What still has to happen. -/
def State.measure (state : State σ ρ) : Nat :=
  14 * state.suggestions.length + 8 * (!state.exhausted).toNat + state.inFlight.length +
    match state.control with
    | .outer => 6 * state.pending.items.length +
        3 * (!(state.pending.items.isEmpty && state.exhausted)).toNat + 1
    | .inner => 6 * state.pending.items.length + 3
    | .waiting => 6 * state.pending.items.length + 2
    | .draining completed => 6 * (state.pending.items.length - completed.length) + 5 + completed.length
    | .returned | .raised _ => 0

theorem length_inFlight_submit {suggestion : σ} :
    (state.submit suggestion).inFlight.length ≤ state.inFlight.length + 1 := by
  have members : (state.submit suggestion).inFlight ⊆ state.tasks.length :: state.inFlight := by
    intro future running
    obtain ⟨other, task⟩ := mem_inFlight.mp running
    rcases running_submit task with old | last
    · exact List.mem_cons_of_mem _ (mem_inFlight.mpr ⟨other, old⟩)
    · exact List.mem_cons.mpr (.inl last)
  exact (nodup_inFlight.subperm members).length_le

theorem length_inFlight_finish {future : Future} {suggestion : σ} (outcome : Outcome ρ)
    (running : state.tasks[future]? = some ⟨suggestion, none⟩) :
    (State.inFlight { state with
      tasks := state.tasks.set future ⟨suggestion, some outcome⟩ }).length <
      state.inFlight.length := by
  have inside := (List.getElem?_eq_some_iff.mp running).1
  have member : future ∈ state.inFlight := mem_inFlight.mpr ⟨suggestion, running⟩
  have members : State.inFlight { state with
      tasks := state.tasks.set future ⟨suggestion, some outcome⟩ } ⊆ state.inFlight.erase future := by
    intro k still
    obtain ⟨other, task⟩ := mem_inFlight.mp still
    have different : k ≠ future := by
      rintro rfl
      simp only [List.getElem?_set_self inside] at task
      cases task
    simp only [List.getElem?_set_ne different.symm] at task
    exact (List.mem_erase_of_ne different).mpr (mem_inFlight.mpr ⟨other, task⟩)
  have bound := (nodup_inFlight.subperm members).length_le
  have positive := List.length_pos_of_mem member
  rw [List.length_erase_of_mem member] at bound
  omega

theorem length_erase {pending : OrderedDict Future σ} {future : Future}
    (member : future ∈ pending.keys) :
    (pending.erase future).items.length < pending.items.length := by
  obtain ⟨item, listed, rfl⟩ := List.mem_map.mp member
  exact List.length_filter_lt_length_iff_exists.mpr ⟨item, listed, by simp⟩

theorem Inv.settle_measure_lt (inv : Inv maxPendingTasks suggestions state) {future : Future}
    {suggestion : σ} {rest : List Future} {outcome : Outcome ρ}
    (draining : state.control = .draining (future :: rest)) :
    (state.settle false future suggestion rest outcome).measure < state.measure := by
  have here := inv.here
  rw [draining] at here
  have fewer := length_erase (here.2.2 future List.mem_cons_self)
  cases outcome with
  | costs | failed =>
      simp only [State.settle, State.measure, draining, State.inFlight, State.finished, List.length_cons,
        Bool.false_eq_true, if_false]
      omega
  | interrupted =>
      simp only [State.settle, State.measure, draining, State.inFlight, State.finished]
      omega

theorem Inv.proceed_measure_lt (inv : Inv maxPendingTasks suggestions state)
    (onward : state.proceed maxPendingTasks false = some next) : next.measure < state.measure := by
  have here := inv.here
  unfold State.proceed at onward
  cases place : state.control with
  | outer =>
      simp only [place] at onward
      split at onward
      · rename_i done
        cases onward
        simp only [State.measure, place, State.inFlight, State.finished]
        omega
      · rename_i more
        cases onward
        have unfinished : (state.pending.items.isEmpty && state.exhausted) = false := by
          rw [Bool.eq_false_iff]
          simpa using more
        simp only [State.measure, place, State.inFlight, State.finished, unfinished, Bool.not_false,
          Bool.toNat_true]
        omega
  | inner =>
      simp only [place] at onward
      split at onward
      · rename_i room
        split at onward
        · cases onward
          simp only [State.measure, place, State.inFlight, State.finished, room.1, Bool.not_false,
            Bool.not_true, Bool.toNat_true, Bool.toNat_false]
          omega
        · rename_i rest yields
          cases onward
          simp only [State.measure, place, State.inFlight, State.finished, yields, List.length_cons]
          omega
        · rename_i suggestion rest yields
          cases onward
          have running : ({ state with suggestions := rest, control := .inner }.submit
              suggestion).inFlight.length ≤ state.inFlight.length + 1 := length_inFlight_submit
          have absent : state.tasks.length ∉ state.pending.keys := fun pending =>
            (inv.pending_lt pending).false
          have longer : ({ state with suggestions := rest, control := .inner }.submit
              suggestion).pending.items.length = state.pending.items.length + 1 := by
            rw [State.submit, OrderedDict.items_set_of_not_mem absent, List.length_append]
            rfl
          simp only [State.measure, place, yields, List.length_cons]
          simp only [State.submit] at running longer ⊢
          omega
      · cases onward
        simp only [State.measure, place, State.inFlight, State.finished]
        omega
  | waiting =>
      simp only [place] at onward here
      split at onward
      · rename_i empty
        cases onward
        simp only [State.measure, place, State.inFlight, State.finished, empty, here.2 empty]
        simp
      · cases onward
  | draining completed =>
      cases completed with
      | nil =>
          simp only [place] at onward
          cases onward
          have flag := Bool.toNat_le (!(state.pending.items.isEmpty && state.exhausted))
          simp only [State.measure, place, State.inFlight, State.finished, List.length_nil]
          omega
      | cons future rest =>
          simp only [place] at onward
          obtain ⟨suggestion, found, onward⟩ := Option.bind_eq_some_iff.mp onward
          obtain ⟨task, submitted, onward⟩ := Option.bind_eq_some_iff.mp onward
          obtain ⟨outcome, finished, settled⟩ := Option.bind_eq_some_iff.mp onward
          cases settled
          exact inv.settle_measure_lt place
  | returned | raised =>
      simp only [place] at onward
      cases onward

theorem Inv.measure_lt {action : Action ρ} (inv : Inv maxPendingTasks suggestions state)
    (onward : state.step maxPendingTasks false action = some next) :
    next.measure < state.measure := by
  cases action with
  | finish future outcome =>
      simp only [State.step] at onward
      split at onward
      · rename_i suggestion running
        split at onward
        · cases onward
        · cases onward
          have fewer := length_inFlight_finish outcome running
          simp only [State.measure] at fewer ⊢
          omega
      · cases onward
  | wake completed =>
      simp only [State.step] at onward
      split at onward
      · rename_i waiting
        split at onward
        · rename_i valid
          cases onward
          obtain ⟨some_, distinct, finished⟩ := valid
          have inside : completed ⊆ state.pending.keys := fun future member =>
            (OrderedDict.contains_iff _ _).mp (finished future member).1
          have bound := (distinct.subperm inside).length_le
          have length : state.pending.keys.length = state.pending.items.length := List.length_map _
          have positive := List.length_pos_iff.mpr some_
          simp only [State.measure, waiting, State.inFlight, State.finished]
          omega
        · cases onward
      · cases onward
  | proceed => exact inv.proceed_measure_lt onward

/-! ## The whole run -/

theorem filterMap_range {α : Type} (f : Task σ ρ → Option α) (tasks : List (Task σ ρ)) :
    (List.range tasks.length).filterMap (fun future => tasks[future]?.bind f) = tasks.filterMap f := by
  induction tasks using List.reverseRecOn with
  | nil => rfl
  | append_singleton tasks task ih =>
      have old : ∀ future ∈ List.range tasks.length,
          (tasks ++ [task])[future]?.bind f = tasks[future]?.bind f := by
        intro future inside
        rw [List.getElem?_append_left (List.mem_range.mp inside)]
      rw [List.length_append, List.length_singleton, List.range_succ, List.filterMap_append,
        List.filterMap_append, List.filterMap_congr old, ih]
      congr 1
      rw [List.filterMap_cons, List.getElem?_concat_length]
      rfl

/-- A run that has not ended goes on: with a step of its own or with one of a worker. -/
theorem Inv.progress (inv : Inv maxPendingTasks suggestions state) (running : state.ended = false) :
    ∃ action next, state.step maxPendingTasks false action = some next := by
  have worker : ∀ (future : Future) (suggestion : σ), state.tasks[future]? = some ⟨suggestion, none⟩ →
      ∃ action next, state.step maxPendingTasks false action = some next := by
    intro future suggestion task
    exact ⟨.finish future .failed,
      { state with tasks := state.tasks.set future (Task.mk suggestion (some .failed)) },
      by simp [State.step, task, running]⟩
  cases place : state.control with
  | outer =>
      refine ⟨.proceed, ?_⟩
      simp only [State.step, State.proceed, place]
      split <;> exact ⟨_, rfl⟩
  | inner =>
      refine ⟨.proceed, ?_⟩
      simp only [State.step, State.proceed, place]
      split
      · split <;> exact ⟨_, rfl⟩
      · exact ⟨_, rfl⟩
  | waiting =>
      cases pending : state.pending.items with
      | nil => exact ⟨.proceed, _, by simp only [State.step, State.proceed, place, pending]; rfl⟩
      | cons item rest =>
          have found : state.pending.get? item.1 = some item.2 :=
            (OrderedDict.get?_eq_some_iff _ _ _).mpr (pending ▸ List.mem_cons_self)
          obtain ⟨result, task⟩ := inv.pendingTask item.1 item.2 found
          cases result with
          | none => exact worker item.1 item.2 task
          | some outcome =>
              refine ⟨.wake [item.1], { state with control := .draining [item.1] }, ?_⟩
              simp [State.step, place, OrderedDict.contains, found, State.finished, task]
  | draining completed =>
      cases completed with
      | nil => exact ⟨.proceed, _, by simp only [State.step, State.proceed, place]; rfl⟩
      | cons future rest =>
          have here := inv.here
          rw [place] at here
          obtain ⟨suggestion, found⟩ := Option.isSome_iff_exists.mp
            ((OrderedDict.contains_iff _ _).mpr (here.2.2 future List.mem_cons_self))
          obtain ⟨result, task⟩ := inv.pendingTask future suggestion found
          cases result with
          | none => exact worker future suggestion task
          | some outcome =>
              refine ⟨.proceed, state.settle false future suggestion rest outcome, ?_⟩
              simp [State.step, State.proceed, place, found, task]
  | returned | raised => simp [State.ended, place] at running

/-- A run that returned has accounted for everything. -/
theorem Inv.accounted (inv : Inv maxPendingTasks suggestions state)
    (ordinary : ∀ task ∈ state.tasks, task.result ≠ some .interrupted) (ended : state.ended = true) :
    state.control = .returned ∧ Accounted suggestions state := by
  have here := inv.here
  cases place : state.control with
  | outer | inner | waiting | draining => simp [State.ended, place] at ended
  | raised exn =>
      rw [place] at here
      obtain ⟨task, member, interrupted⟩ := here
      exact absurd interrupted (ordinary task member)
  | returned =>
      rw [place] at here
      obtain ⟨⟨settled, futures, experiments, errors⟩, empty, exhausted⟩ := here
      have noKeys : state.pending.keys = [] := by rw [OrderedDict.keys, empty, List.map_nil]
      rw [noKeys, List.append_nil] at futures
      refine ⟨rfl, ?_, ?_, ?_, ?_⟩
      · have submitted := inv.submitted
        rwa [inv.exhausted exhausted, List.filterMap_nil, List.append_nil] at submitted
      · intro task member
        obtain ⟨suggestion, result⟩ := task
        obtain ⟨future, found⟩ := List.mem_iff_getElem?.mp member
        cases result with
        | none =>
            have pending := inv.unfinished future suggestion found
            rw [noKeys] at pending
            cases pending
        | some outcome =>
            cases outcome with
            | costs costs => exact .inl ⟨costs, rfl⟩
            | failed => exact .inr rfl
            | interrupted => exact absurd rfl (ordinary _ member)
      · rw [experiments, ← filterMap_range]
        exact futures.filterMap _
      · rw [errors, ← filterMap_range]
        exact futures.filterMap _

/-- Runs are finite and go on until they end; a run whose tasks all end, or fail with an
`Exception`, returns and has accounted for every suggestion. -/
theorem runMultiProcess_accounts {σ ρ : Type} (suggestions : List (Option σ)) (maxPendingTasks : Nat)
    (positive : 1 ≤ maxPendingTasks) :
    (∀ actions (state : State σ ρ),
      exec (State.step maxPendingTasks false) (.start suggestions) actions = some state →
        actions.length ≤ 14 * suggestions.length + 12) ∧
    ∀ state : State σ ρ, Reaches (State.step maxPendingTasks false) (.start suggestions) state →
      state.inFlight.length ≤ maxPendingTasks ∧
      (state.ended = false → ∃ action next, state.step maxPendingTasks false action = some next) ∧
      ((∀ task ∈ state.tasks, task.result ≠ some .interrupted) → state.ended = true →
        state.control = .returned ∧ Accounted suggestions state) := by
  have preserved : ∀ (r : State σ ρ) action r', Inv maxPendingTasks suggestions r →
      r.step maxPendingTasks false action = some r' → Inv maxPendingTasks suggestions r' :=
    fun _ _ _ inv onward => inv.step positive onward
  constructor
  · intro actions state run
    have bound := length_of_exec run inv_start preserved fun _ _ _ inv onward => inv.measure_lt onward
    have start : (State.start suggestions : State σ ρ).measure = 14 * suggestions.length + 12 := rfl
    omega
  · intro state reached
    have inv := reached.invariant inv_start preserved
    exact ⟨inv.inFlight_le, inv.progress, inv.accounted⟩

theorem runMultiProcess_accounts_twoAtATime :
    (∀ actions (state : State Nat Nat),
      exec (State.step 2 false) (.start [some 10, none, some 20]) actions = some state →
        actions.length ≤ 54) ∧
    ∀ state : State Nat Nat, Reaches (State.step 2 false) (.start [some 10, none, some 20]) state →
      state.inFlight.length ≤ 2 ∧
      (state.ended = false → ∃ action next, state.step 2 false action = some next) ∧
      ((∀ task ∈ state.tasks, task.result ≠ some .interrupted) → state.ended = true →
        state.control = .returned ∧ Accounted [some 10, none, some 20] state) :=
  runMultiProcess_accounts [some 10, none, some 20] 2 (by decide)

/-- The cost function leaves the interpreter in the first worker: the run ends by raising, and neither
suggestion has left an experiment or a logged error. -/
theorem runMultiProcess_interrupted :
    ∃ state : State Nat Nat,
      Reaches (State.step 2 false) (.start [some 10, some 20]) state ∧
      state.control = .raised .interrupt ∧ state.ended = true ∧
      state.experiments = [] ∧ state.errors = [] ∧ ¬ Accounted [some 10, some 20] state := by
  obtain ⟨state, run⟩ : ∃ state : State Nat Nat, exec (State.step 2 false)
      (.start [some 10, some 20]) [.proceed, .proceed, .proceed, .proceed, .finish 0 .interrupted,
        .wake [0], .proceed] = some state := ⟨_, rfl⟩
  have reached := reaches_of_exec run
  cases run
  refine ⟨_, reached, rfl, rfl, rfl, rfl, fun accounted => ?_⟩
  rcases accounted.ended ⟨10, some .interrupted⟩ (by decide) with ⟨costs, same⟩ | same
  · cases same
  · cases same

end Invariant

end Gambit.Optimizer
