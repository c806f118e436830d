import Mathlib.Data.List.Chain
import Mathlib.Logic.Relation
import Gambit.Lib.Raising

/-!
# Recorded runs

A run keeps its state and the points it passed through.  Where consecutive
points are steps of a transition relation, the rules of that relation apply to
every point: an invariant of the steps holds at all of them, and what happens
between two of them is a path.
-/

set_option autoImplicit false

open Raising

structure Recorded (σ π : Type) where
  state : σ
  points : List π

namespace Recorded

variable {ε σ π α : Type}

/-- One action: a return and a raise both leave a point behind. -/
def act (returned : σ → α → π) (failed : σ → π) (result : Except (Raised ε σ) (σ × α))
    (self : Recorded σ π) : Except (Raised ε (Recorded σ π)) (Recorded σ π × α) :=
  match result with
  | .ok (state, a) => .ok (⟨state, self.points ++ [returned state a]⟩, a)
  | .error raised =>
      .error ⟨raised.error, ⟨raised.state, self.points ++ [failed raised.state]⟩⟩

variable {returned : σ → α → π} {failed : σ → π} {result : Except (Raised ε σ) (σ × α)}
  {self : Recorded σ π}

theorem act_ok {after : Recorded σ π × α} (run : self.act returned failed result = .ok after) :
    result = .ok (after.1.state, after.2) ∧
      after.1.points = self.points ++ [returned after.1.state after.2] := by
  unfold act at run
  cases result with
  | ok returnedPair =>
      cases run
      exact ⟨rfl, rfl⟩
  | error raised => cases run

theorem act_error {raised : Raised ε (Recorded σ π)}
    (run : self.act returned failed result = .error raised) :
    result = .error ⟨raised.error, raised.state.state⟩ ∧
      raised.state.points = self.points ++ [failed raised.state.state] := by
  unfold act at run
  cases result with
  | ok returnedPair => cases run
  | error inner =>
      cases run
      exact ⟨rfl, rfl⟩

end Recorded

namespace Traces

variable {π : Type} {step : π → π → Prop} {start last next : π} {points : List π}

/-- A path from `start` to `last`. -/
structure Trace (step : π → π → Prop) (start last : π) (points : List π) : Prop where
  chain : points.IsChain step
  head : points.head? = some start
  final : points.getLast? = some last

theorem Trace.nil (start : π) : Trace step start start [start] :=
  ⟨.singleton _, rfl, rfl⟩

theorem Trace.snoc (trace : Trace step start last points) (onward : step last next) :
    Trace step start next (points ++ [next]) where
  chain := by
    refine trace.chain.append (.singleton _) ?_
    intro p member q single
    rw [trace.final] at member
    cases member
    cases single
    exact onward
  head := by rw [List.head?_append, trace.head, Option.some_or]
  final := List.getLast?_concat ..

theorem Trace.step_at (trace : Trace step start last points) {k : Nat} {p q : π}
    (at_k : points[k]? = some p) (at_next : points[k + 1]? = some q) : step p q := by
  obtain ⟨inside, rfl⟩ := List.getElem?_eq_some_iff.mp at_k
  obtain ⟨insideNext, rfl⟩ := List.getElem?_eq_some_iff.mp at_next
  exact List.isChain_iff_getElem.mp trace.chain k insideNext

/-- What the start has and every step from a point of the run preserves, every
point has. -/
theorem Trace.invariant_of_mem (trace : Trace step start last points) {P : π → Prop}
    (initial : P start) (preserved : ∀ p ∈ points, ∀ q, P p → step p q → P q) {k : Nat} {p : π}
    (at_k : points[k]? = some p) : P p := by
  induction k generalizing p with
  | zero =>
      have first := trace.head
      rw [List.head?_eq_getElem?, at_k] at first
      cases first
      exact initial
  | succ k ih =>
      obtain ⟨inside, _⟩ := List.getElem?_eq_some_iff.mp at_k
      have present : points[k]? = some points[k] := List.getElem?_eq_getElem (by omega)
      exact preserved _ (List.getElem_mem _) _ (ih present) (trace.step_at present at_k)

theorem Trace.invariant (trace : Trace step start last points) {P : π → Prop} (initial : P start)
    (preserved : ∀ p q, P p → step p q → P q) {k : Nat} {p : π} (at_k : points[k]? = some p) :
    P p :=
  trace.invariant_of_mem initial (fun p _ q => preserved p q) at_k

/-- Between two points runs a path, whose steps satisfy what all steps between
them satisfy. -/
theorem Trace.between (trace : Trace step start last points) {R : π → π → Prop} {a : Nat} {p : π}
    (at_a : points[a]? = some p) :
    ∀ {b : Nat} {q : π}, a ≤ b → points[b]? = some q →
      (∀ c r s, a ≤ c → c < b → points[c]? = some r → points[c + 1]? = some s → R r s) →
      Relation.ReflTransGen (fun r s => step r s ∧ R r s) p q := by
  intro b q le at_b along
  induction b, le using Nat.le_induction generalizing q with
  | base =>
      rw [at_a] at at_b
      cases at_b
      exact .refl
  | succ b le ih =>
      obtain ⟨inside, _⟩ := List.getElem?_eq_some_iff.mp at_b
      have present : points[b]? = some points[b] := List.getElem?_eq_getElem (by omega)
      refine .tail (ih present fun c r s first second => along c r s first (by omega)) ?_
      exact ⟨trace.step_at present at_b, along b _ _ le (by omega) present at_b⟩

end Traces
