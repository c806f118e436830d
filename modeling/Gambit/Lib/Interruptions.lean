import Gambit.Lib.Raising

/-!
# Programs that may be stopped

A program is made of statements, each atomic.  Before any of them the world may
raise an exception, which handlers see, or end the process, which they do not.
A contract says what holds on return and what holds wherever the program stops.
-/

set_option autoImplicit false

namespace Interruptions

open Raising

inductive Halt (ε : Type) where
  | raised (error : ε)
  | died
deriving DecidableEq

/-- What the world does before each statement. -/
abbrev Fate (ε : Type) := Nat → Option (Halt ε)

/-- The state, and the number of statements reached so far. -/
structure Run (σ : Type) where
  state : σ
  clock : Nat

abbrev Program (ε σ α : Type) := Run σ → Except (Raised (Halt ε) (Run σ)) α

variable {ε σ α β : Type}

def undisturbed : Fate ε := fun _ => none

/-- One statement, which changes the state or raises and leaves it. -/
def perform (fate : Fate ε) (statement : σ → Except ε σ) : Program ε σ (Run σ) := fun run =>
  match fate run.clock with
  | some halt => .error ⟨halt, ⟨run.state, run.clock + 1⟩⟩
  | none =>
      match statement run.state with
      | .ok state => .ok ⟨state, run.clock + 1⟩
      | .error error => .error ⟨.raised error, ⟨run.state, run.clock + 1⟩⟩

/-- A computation on local values. -/
def compute (value : Except ε α) : Program ε σ α := fun run =>
  raiseIn run (value.mapError .raised)

/-- Statements one after the other. -/
def inOrder (fate : Fate ε) (statements : List (σ → Except ε σ)) : Program ε σ (Run σ) := fun run =>
  statements.foldlM (fun run statement => perform fate statement run) run

/-- `try: body` / `except BaseException: handler; raise`. -/
def guarded (body : Program ε σ (Run σ)) (handler : Program ε σ (Run σ)) : Program ε σ (Run σ) :=
  fun run =>
    match body run with
    | .ok after => .ok after
    | .error ⟨.died, left⟩ => .error ⟨.died, left⟩
    | .error ⟨.raised error, left⟩ => do
        let cleaned ← handler left
        .error ⟨.raised error, cleaned⟩

/-- From `P` the program returns in `Q` or stops in `E`. -/
def Contract (view : α → σ) (P Q E : σ → Prop) (program : Run σ → Except (Raised (Halt ε) (Run σ)) α) :
    Prop :=
  ∀ run, P run.state → Yields (fun after => Q (view after)) (fun stop => E stop.state.state)
    (program run)

abbrev Ensures (P Q E : σ → Prop) (program : Program ε σ (Run σ)) : Prop :=
  Contract Run.state P Q E program

variable {fate : Fate ε} {P Q R E F : σ → Prop} {first second body handler : Program ε σ (Run σ)}

theorem perform_ensures {statement : σ → Except ε σ} (stopped : ∀ s, P s → E s)
    (moves : ∀ s s', P s → statement s = .ok s' → Q s') :
    Ensures P Q E (perform fate statement) := by
  intro run held
  unfold perform
  cases fate run.clock with
  | some halt => exact stopped _ held
  | none =>
      cases done : statement run.state with
      | ok state => exact moves _ _ held done
      | error error => exact stopped _ held

theorem Ensures.bind (one : Ensures P Q E first) (two : Ensures Q R E second) :
    Ensures P R E fun run => first run >>= second := fun run held =>
  (one run held).bind fun after now => two after now

theorem Ensures.weaken (ensures : Ensures P Q E first) {P' Q' E' : σ → Prop}
    (stronger : ∀ s, P' s → P s) (weaker : ∀ s, Q s → Q' s) (weakerStop : ∀ s, E s → E' s) :
    Ensures P' Q' E' first := fun run held =>
  (ensures run (stronger _ held)).weaken (fun _ now => weaker _ now) fun _ now => weakerStop _ now

theorem inOrder_ensures {statements : List (σ → Except ε σ)} (stopped : ∀ s, P s → E s)
    (moves : ∀ statement ∈ statements, ∀ s s', P s → statement s = .ok s' → P s') :
    Ensures P P E (inOrder fate statements) := by
  intro run held
  unfold inOrder
  exact Yields.foldlM (P := fun after : Run σ => P after.state)
    (fun statement member now held =>
      perform_ensures stopped (moves statement member) now held) held

theorem Ensures.nil (done : ∀ s, P s → Q s) :
    Ensures P Q E (inOrder fate ([] : List (σ → Except ε σ))) := fun _ held => done _ held

theorem Ensures.cons {statement : σ → Except ε σ} {rest : List (σ → Except ε σ)}
    (one : Ensures P Q E (perform fate statement)) (others : Ensures Q R E (inOrder fate rest)) :
    Ensures P R E (inOrder fate (statement :: rest)) := by
  intro run held
  unfold inOrder
  rw [List.foldlM_cons]
  exact (one run held).bind fun after now => others after now

theorem inOrder_append (front back : List (σ → Except ε σ)) (run : Run σ) :
    inOrder fate (front ++ back) run = inOrder fate front run >>= inOrder fate back := by
  unfold inOrder
  rw [List.foldlM_append]

theorem guarded_ensures (one : Ensures P Q E body) (two : Ensures E F F handler)
    (dead : ∀ s, E s → F s) : Ensures P Q F (guarded body handler) := by
  intro run held
  have result := one run held
  unfold guarded
  cases done : body run with
  | ok after =>
      rw [done] at result
      exact result
  | error stop =>
      rw [done] at result
      obtain ⟨halt, left⟩ := stop
      cases halt with
      | died => exact dead _ result
      | raised error =>
          exact (two left result).bind fun cleaned now => now

/-! ## Without a disturbance -/

/-- A statement that returns from `P` is not stopped. -/
theorem perform_total {statement : σ → Except ε σ}
    (returns : ∀ s, P s → ∃ s', statement s = .ok s' ∧ Q s') :
    Ensures P Q E (perform undisturbed statement) := by
  intro run held
  obtain ⟨state, done, now⟩ := returns run.state held
  unfold perform undisturbed
  simp only [done]
  exact now

end Interruptions
