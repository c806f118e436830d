import Gambit.Lib.PowerLoss
import Gambit.Lib.Triples

/-!
# Actions that keep a log

An action changes a state by operations and logs the ones that succeed.  Before
any of its statements something may be raised.  What an action logs says what it
did to the state, whichever way it ends.
-/

set_option autoImplicit false

namespace LoggedActions

open PowerLoss Triples

variable {ε Op σ α β : Type}

structure World (Op σ : Type) where
  state : σ
  log : List Op
  /-- The number of statements reached so far. -/
  clock : Nat

/-- What is raised before each statement, if anything is. -/
abbrev Faults (ε : Type) := Nat → Option ε

def noFaults : Faults ε := fun _ => none

def Action (ε Op σ α : Type) := World Op σ → Except ε α × World Op σ

namespace Action

def bind (action : Action ε Op σ α) (rest : α → Action ε Op σ β) : Action ε Op σ β := fun world =>
  match action world with
  | (.ok value, after) => rest value after
  | (.error error, after) => (.error error, after)

instance : Monad (Action ε Op σ) where
  pure value := fun world => (.ok value, world)
  bind := bind

/-- A computation on local values. -/
def of (value : Except ε α) : Action ε Op σ α := fun world => (value, world)

def raise (error : ε) : Action ε Op σ α := of (.error error)

/-- `try: ...` / `except ...` -/
def rescue (action : Action ε Op σ α) (handler : ε → Action ε Op σ α) : Action ε Op σ α := fun world =>
  match action world with
  | (.ok value, after) => (.ok value, after)
  | (.error error, after) => handler error after

end Action

/-- A statement that only looks. -/
def observe (faults : Faults ε) (look : σ → Except ε α) : Action ε Op σ α := fun world =>
  (match faults world.clock with
    | some error => .error error
    | none => look world.state, { world with clock := world.clock + 1 })

/-- A statement that performs an operation. -/
def perform (faults : Faults ε) (apply : Op → σ → Except ε σ) (op : Op) : Action ε Op σ Unit := fun world =>
  match faults world.clock with
  | some error => (.error error, { world with clock := world.clock + 1 })
  | none =>
      match apply op world.state with
      | .ok state => (.ok (), ⟨state, world.log ++ [op], world.clock + 1⟩)
      | .error error => (.error error, { world with clock := world.clock + 1 })

/-! ## Runs -/

variable {action : Action ε Op σ α} {rest : α → Action ε Op σ β} {world after : World Op σ}

theorem bind_of_ok {value : α} (run : action world = (.ok value, after)) :
    (action >>= rest) world = rest value after := by
  change Action.bind action rest world = _
  unfold Action.bind
  rw [run]

theorem bind_of_error {error : ε} (run : action world = (.error error, after)) :
    (action >>= rest) world = (.error error, after) := by
  change Action.bind action rest world = _
  unfold Action.bind
  rw [run]

theorem rescue_of_ok {handler : ε → Action ε Op σ α} {value : α} (run : action world = (.ok value, after)) :
    action.rescue handler world = (.ok value, after) := by
  unfold Action.rescue
  rw [run]

theorem rescue_of_error {handler : ε → Action ε Op σ α} {error : ε}
    (run : action world = (.error error, after)) : action.rescue handler world = handler error after := by
  unfold Action.rescue
  rw [run]

/-! ## Contracts -/

/-- From `P` an action returns in `Q` or raises in `E`. -/
def Does (P : World Op σ → Prop) (action : Action ε Op σ α) (Q : α → World Op σ → Prop)
    (E : ε → World Op σ → Prop) : Prop :=
  ∀ world, P world → Ends Q E (action world)

variable {P P' : World Op σ → Prop} {Q Q' : α → World Op σ → Prop} {R : β → World Op σ → Prop}
  {E E' : ε → World Op σ → Prop}

theorem Does.pure {value : α} (holds : ∀ world, P world → Q value world) :
    Does P (Pure.pure value : Action ε Op σ α) Q E := fun world before => holds world before

theorem Does.of {value : Except ε α} (returns : ∀ world, P world → ∀ a, value = .ok a → Q a world)
    (raises : ∀ world, P world → ∀ e, value = .error e → E e world) : Does P (Action.of value) Q E := by
  intro world before
  cases value with
  | ok a => exact returns world before a rfl
  | error e => exact raises world before e rfl

theorem Does.raise {error : ε} (holds : ∀ world, P world → E error world) :
    Does P (Action.raise error : Action ε Op σ α) Q E := fun world before => holds world before

theorem Does.any : Does P action (fun _ _ => True) fun _ _ => True := by
  intro world _
  rcases action world with ⟨error | value, after⟩
  · trivial
  · trivial

theorem Does.perform {apply : Op → σ → Except ε σ} {op : Op} {faults : Faults ε} {A B C : σ → Prop}
    (returns : ∀ s s', A s → apply op s = .ok s' → B s') (raises : ∀ s, A s → C s) :
    Does (fun world => A world.state) (perform faults apply op) (fun _ world => B world.state)
      fun _ world => C world.state := by
  intro world before
  unfold LoggedActions.perform
  cases faults world.clock with
  | some error => exact raises _ before
  | none =>
      cases run : apply op world.state with
      | error error => exact raises _ before
      | ok state => exact returns _ _ before run

theorem Does.observe {look : σ → Except ε α} {faults : Faults ε} {A : σ → Prop} {B : α → σ → Prop}
    (returns : ∀ s, A s → ∀ value, look s = .ok value → B value s) :
    Does (fun world => A world.state) (observe faults look : Action ε Op σ α)
      (fun value world => B value world.state) fun _ world => A world.state := by
  intro world before
  unfold LoggedActions.observe
  cases faults world.clock with
  | some error => exact before
  | none =>
      cases run : look world.state with
      | error error => exact before
      | ok value => exact returns _ before value run

theorem Does.bind (first : Does P action Q E) (second : ∀ value, Does (Q value) (rest value) R E) :
    Does P (action >>= rest) R E := by
  intro world before
  have ends := first world before
  rcases run : action world with ⟨error | value, middle⟩
  · rw [bind_of_error run]
    exact ends.of_error run
  · rw [bind_of_ok run]
    exact second value middle (ends.of_ok run)

theorem Does.rescue {handler : ε → Action ε Op σ α} (first : Does P action Q E)
    (second : ∀ error, Does (E error) (handler error) Q E') : Does P (action.rescue handler) Q E' := by
  intro world before
  have ends := first world before
  rcases run : action world with ⟨error | value, middle⟩
  · rw [rescue_of_error run]
    exact second error middle (ends.of_error run)
  · rw [rescue_of_ok run]
    exact ends.of_ok run

theorem Does.weaken (does : Does P action Q E) (stronger : ∀ world, P' world → P world)
    (weaker : ∀ value world, Q value world → Q' value world)
    (weakerRaise : ∀ error world, E error world → E' error world) : Does P' action Q' E' := by
  intro world before
  have ends := does world (stronger world before)
  rcases run : action world with ⟨error | value, middle⟩
  · exact weakerRaise error middle (ends.of_error run)
  · exact weaker value middle (ends.of_ok run)

theorem Does.post (does : Does P action Q E) (weaker : ∀ value world, Q value world → Q' value world) :
    Does P action Q' fun _ _ => True :=
  does.weaken (fun _ before => before) weaker fun _ _ _ => trivial

theorem Does.and (one : Does P action Q E) (two : Does P' action Q' E') :
    Does (fun world => P world ∧ P' world) action (fun value world => Q value world ∧ Q' value world)
      fun error world => E error world ∧ E' error world := by
  intro world before
  have first := one world before.1
  have second := two world before.2
  rcases run : action world with ⟨error | value, after⟩
  · exact ⟨first.of_error run, second.of_error run⟩
  · exact ⟨first.of_ok run, second.of_ok run⟩

/-- A precondition on no state is a hypothesis. -/
theorem Does.given {p : Prop} (does : p → Does (fun _ => True) action Q E) : Does (fun _ => p) action Q E :=
  fun world holds => does holds world trivial

theorem Does.ite {c : Prop} [Decidable c] {other : Action ε Op σ α} (yes : c → Does P action Q E)
    (no : ¬ c → Does P other Q E) : Does P (if c then action else other) Q E := by
  split
  · exact yes ‹_›
  · exact no ‹_›

/-! ## What is logged -/

/-- The action did to the state what it logged, and logged only operations of this kind. -/
def Logs (effect : Op → σ → σ) (kind : Op → Prop) (action : Action ε Op σ α) : Prop :=
  ∀ world, ∃ added, (action world).2.log = world.log ++ added ∧ (∀ op ∈ added, kind op) ∧
    (action world).2.state = replay effect added world.state

variable {effect : Op → σ → σ} {kind : Op → Prop} {faults : Faults ε}

theorem Logs.still (still : ∀ world, (action world).2.log = world.log ∧ (action world).2.state = world.state) :
    Logs effect kind action := fun world =>
  ⟨[], by rw [(still world).1, List.append_nil], fun _ none => (List.not_mem_nil none).elim, (still world).2⟩

theorem Logs.pure (value : α) : Logs effect kind (Pure.pure value : Action ε Op σ α) :=
  .still fun _ => ⟨rfl, rfl⟩

theorem Logs.of (value : Except ε α) : Logs effect kind (Action.of value : Action ε Op σ α) :=
  .still fun _ => ⟨rfl, rfl⟩

theorem Logs.observe (look : σ → Except ε α) : Logs effect kind (observe faults look) :=
  .still fun _ => ⟨rfl, rfl⟩

theorem Logs.perform {apply : Op → σ → Except ε σ} {op : Op}
    (agrees : ∀ s s', apply op s = .ok s' → s' = effect op s) (allowed : kind op) :
    Logs effect kind (perform faults apply op) := by
  intro world
  unfold LoggedActions.perform
  cases faults world.clock with
  | some error => exact ⟨[], by simp, by simp, rfl⟩
  | none =>
      cases run : apply op world.state with
      | error error => exact ⟨[], by simp, by simp, rfl⟩
      | ok state => exact ⟨[op], rfl, by simpa using allowed, agrees _ _ run⟩

theorem Logs.then {first second : World Op σ} {added : List Op} (log : second.log = first.log ++ added)
    (kinds : ∀ op ∈ added, kind op) (state : second.state = replay effect added first.state)
    (later : ∃ more, after.log = second.log ++ more ∧ (∀ op ∈ more, kind op) ∧
      after.state = replay effect more second.state) :
    ∃ more, after.log = first.log ++ more ∧ (∀ op ∈ more, kind op) ∧
      after.state = replay effect more first.state := by
  obtain ⟨more, logged, allowed, reached⟩ := later
  refine ⟨added ++ more, by rw [logged, log, List.append_assoc], ?_, by rw [reached, state, replay_append]⟩
  intro op member
  rcases List.mem_append.mp member with here | there
  · exact kinds op here
  · exact allowed op there

theorem Logs.bind (first : Logs effect kind action) (second : ∀ value, Logs effect kind (rest value)) :
    Logs effect kind (action >>= rest) := by
  intro world
  obtain ⟨added, log, kinds, state⟩ := first world
  rcases run : action world with ⟨error | value, middle⟩
  · rw [run] at log state
    rw [bind_of_error run]
    exact ⟨added, log, kinds, state⟩
  · rw [run] at log state
    rw [bind_of_ok run]
    exact Logs.then log kinds state (second value middle)

theorem Logs.rescue {handler : ε → Action ε Op σ α} (first : Logs effect kind action)
    (second : ∀ error, Logs effect kind (handler error)) : Logs effect kind (action.rescue handler) := by
  intro world
  obtain ⟨added, log, kinds, state⟩ := first world
  rcases run : action world with ⟨error | value, middle⟩
  · rw [run] at log state
    rw [rescue_of_error run]
    exact Logs.then log kinds state (second error middle)
  · rw [run] at log state
    rw [rescue_of_ok run]
    exact ⟨added, log, kinds, state⟩

theorem Logs.ite {c : Prop} [Decidable c] {other : Action ε Op σ α} (yes : Logs effect kind action)
    (no : Logs effect kind other) : Logs effect kind (if c then action else other) := by
  split
  · exact yes
  · exact no

/-- What no such operation changes is as it was. -/
theorem Logs.keeps {J : σ → Prop} (logs : Logs effect kind action)
    (whole : ∀ op, kind op → ∀ s, J s → J (effect op s)) :
    Does (fun world => J world.state) action (fun _ world => J world.state) fun _ world => J world.state := by
  intro world before
  obtain ⟨added, _, kinds, state⟩ := logs world
  have kept : J (action world).2.state := by
    rw [state]
    exact replay_keeps before fun op member => whole op (kinds op member)
  rcases run : action world with ⟨error | value, after⟩
  · rw [run] at kept
    exact kept
  · rw [run] at kept
    exact kept

/-! ## Safety -/

/-- Wherever the process dies in what has been logged, `J` holds of what it leaves. -/
structure Safe (effect : Op → σ → σ) (torn : Op → σ → σ → Prop) (J : σ → Prop) (start : σ) (world : World Op σ) :
    Prop where
  replayed : world.state = replay effect world.log start
  killed : ∀ left, Killed effect torn world.log start left → J left

variable {torn : Op → σ → σ → Prop} {J I : σ → Prop} {start : σ}

theorem Safe.now (safe : Safe effect torn J start world) : J world.state := by
  rw [safe.replayed]
  exact safe.killed _ (.replayed _ _)

theorem Safe.append (safe : Safe effect torn J start world) {added : List Op} {clock : Nat}
    (later : ∀ left, Killed effect torn added world.state left → J left) :
    Safe effect torn J start ⟨replay effect added world.state, world.log ++ added, clock⟩ where
  replayed := by rw [replay_append, ← safe.replayed]
  killed := by
    intro left killed
    rcases killed.cases_append with before | after
    · exact safe.killed left before
    · rw [← safe.replayed] at after
      exact later left after

/-- Operations that keep an invariant which is enough. -/
theorem Logs.safe (logs : Logs effect kind action) (enough : ∀ s, I s → J s)
    (whole : ∀ op, kind op → ∀ s, I s → I (effect op s))
    (part : ∀ op, kind op → ∀ s t, I s → torn op s t → I t)
    (safe : Safe effect torn J start world) (here : I world.state) :
    Safe effect torn J start (action world).2 := by
  obtain ⟨added, log, kinds, state⟩ := logs world
  have appended : Safe effect torn J start
      ⟨replay effect added world.state, world.log ++ added, (action world).2.clock⟩ := by
    refine safe.append fun left killed => enough left ?_
    exact killed.keeps here (fun op member => whole op (kinds op member))
      fun op member => part op (kinds op member)
  rw [← state, ← log] at appended
  exact appended

/-- One operation after which `J` holds, whole or in part. -/
theorem Safe.perform {apply : Op → σ → Except ε σ} {op : Op}
    (agrees : ∀ s s', apply op s = .ok s' → s' = effect op s) (safe : Safe effect torn J start world)
    (whole : J (effect op world.state)) (part : ∀ left, torn op world.state left → J left) :
    Safe effect torn J start (perform faults apply op world).2 := by
  unfold LoggedActions.perform
  cases faults world.clock with
  | some error => exact ⟨safe.replayed, safe.killed⟩
  | none =>
      cases run : apply op world.state with
      | error error => exact ⟨safe.replayed, safe.killed⟩
      | ok state =>
          have done : ∀ left, Killed effect torn [op] world.state left → J left := by
            intro left killed
            cases killed with
            | before => exact safe.now
            | during torn => exact part left torn
            | after onward =>
                cases onward
                exact whole
          rw [agrees _ _ run]
          exact safe.append done

end LoggedActions
