import Mathlib.Logic.Relation

/-!
# Runs of a machine

A machine takes an action in a state or refuses it.  What every action
preserves holds in every state a run reaches; a preorder that every action
follows relates the ends of every run.
-/

set_option autoImplicit false

namespace Machines

variable {σ α : Type} {step : σ → α → Option σ}

/-- Some action leads from one state to the other. -/
def Moves (step : σ → α → Option σ) (s t : σ) : Prop := ∃ action, step s action = some t

/-- A run leads from one state to the other. -/
def Reaches (step : σ → α → Option σ) : σ → σ → Prop := Relation.ReflTransGen (Moves step)

def exec (step : σ → α → Option σ) (s : σ) (actions : List α) : Option σ := actions.foldlM step s

variable {s t u : σ} {action : α} {actions : List α}

theorem Reaches.refl : Reaches step s s := Relation.ReflTransGen.refl

theorem Reaches.trans (first : Reaches step s t) (second : Reaches step t u) : Reaches step s u :=
  Relation.ReflTransGen.trans first second

theorem Reaches.tail (run : Reaches step s t) (onward : step t action = some u) :
    Reaches step s u :=
  Relation.ReflTransGen.tail run ⟨action, onward⟩

theorem reaches_of_exec (run : exec step s actions = some t) : Reaches step s t := by
  induction actions generalizing s with
  | nil =>
      cases run
      exact .refl
  | cons action rest ih =>
      unfold exec at run
      rw [List.foldlM_cons] at run
      obtain ⟨between, first, others⟩ := Option.bind_eq_some_iff.mp run
      exact .trans (.tail .refl first) (ih others)

/-- What holds at the start and every action preserves holds at the end. -/
theorem Reaches.invariant {P : σ → Prop} (run : Reaches step s t) (initial : P s)
    (preserved : ∀ r action r', P r → step r action = some r' → P r') : P t := by
  induction run with
  | refl => exact initial
  | tail _ move ih =>
      obtain ⟨action, onward⟩ := move
      exact preserved _ action _ ih onward

/-- The relation of the ends of a run: what the invariant gives for one action,
a preorder gives for the run. -/
theorem Reaches.relates {P : σ → Prop} {R : σ → σ → Prop} (run : Reaches step s t) (initial : P s)
    (preserved : ∀ r action r', P r → step r action = some r' → P r')
    (related : ∀ r action r', P r → step r action = some r' → R r r')
    (reflexive : ∀ r, R r r) (transitive : ∀ a b c, R a b → R b c → R a c) : R s t := by
  induction run with
  | refl => exact reflexive s
  | tail before move ih =>
      obtain ⟨action, onward⟩ := move
      have held := Reaches.invariant before initial preserved
      exact transitive _ _ _ ih (related _ action _ held onward)

/-- A measure that every action lowers bounds the length of runs. -/
theorem length_of_exec {P : σ → Prop} {measure : σ → Nat} (run : exec step s actions = some t)
    (initial : P s) (preserved : ∀ r action r', P r → step r action = some r' → P r')
    (lowers : ∀ r action r', P r → step r action = some r' → measure r' < measure r) :
    actions.length + measure t ≤ measure s := by
  induction actions generalizing s with
  | nil =>
      cases run
      simp
  | cons action rest ih =>
      unfold exec at run
      rw [List.foldlM_cons] at run
      obtain ⟨between, first, others⟩ := Option.bind_eq_some_iff.mp run
      have shorter := ih others (preserved s action between initial first)
      have lower := lowers s action between initial first
      rw [List.length_cons]
      omega

end Machines
