import Gambit.Lib.Raising

/-!
# Two runs side by side

Runs that return values in a relation or raise the same exception, as a dry run
and the run it stands for.  A loop is related through an invariant on the
elements still to come.
-/

set_option autoImplicit false

namespace SideBySide

open Raising

variable {ε σ σ' τ τ' υ υ' α : Type}

def Agree (R : τ → τ' → Prop) (E : σ → σ' → Prop) :
    Except (Raised ε σ) τ → Except (Raised ε σ') τ' → Prop
  | .ok t, .ok t' => R t t'
  | .error r, .error r' => r.error = r'.error ∧ E r.state r'.state
  | _, _ => False

variable {R : τ → τ' → Prop} {E : σ → σ' → Prop} {S : υ → υ' → Prop}
  {m : Except (Raised ε σ) τ} {m' : Except (Raised ε σ') τ'}

theorem Agree.bind {f : τ → Except (Raised ε σ) υ} {g : τ' → Except (Raised ε σ') υ'}
    (first : Agree R E m m') (second : ∀ t t', R t t' → Agree S E (f t) (g t')) :
    Agree S E (m >>= f) (m' >>= g) := by
  cases m with
  | ok t =>
      cases m' with
      | ok t' => exact second t t' first
      | error r' => exact first.elim
  | error r =>
      cases m' with
      | ok t' => exact first.elim
      | error r' => exact first

theorem Agree.mono {R' : τ → τ' → Prop} (agree : Agree R E m m')
    (weaker : ∀ t t', R t t' → R' t t') : Agree R' E m m' := by
  cases m with
  | ok t =>
      cases m' with
      | ok t' => exact weaker t t' agree
      | error r' => exact agree
  | error r =>
      cases m' with
      | ok t' => exact agree
      | error r' => exact agree

/-- The same check on both sides. -/
theorem Agree.raiseIn {state : σ} {state' : σ'} (value : Except ε α) (here : E state state') :
    Agree (fun a a' => a = a' ∧ value = .ok a) E (raiseIn state value) (raiseIn state' value) := by
  cases value with
  | ok a => exact ⟨rfl, rfl⟩
  | error e => exact ⟨rfl, here⟩

theorem Agree.foldlM {xs : List α} {P : List α → τ → τ' → Prop}
    {f : τ → α → Except (Raised ε σ) τ} {g : τ' → α → Except (Raised ε σ') τ'}
    (each : ∀ x rest t t', P (x :: rest) t t' → Agree (P rest) E (f t x) (g t' x)) {t : τ} {t' : τ'}
    (start : P xs t t') : Agree (P []) E (xs.foldlM f t) (xs.foldlM g t') := by
  induction xs generalizing t t' with
  | nil => exact start
  | cons x xs ih =>
      rw [List.foldlM_cons, List.foldlM_cons]
      exact (each x xs t t' start).bind fun _ _ now => ih now

end SideBySide
