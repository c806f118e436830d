import Mathlib.Tactic

/-!
# Python values and exceptions at the boundaries

The exceptions the engine raises or lets through, and the scalars user code
may hand in where a number is expected.  Message texts are the source's
literal parts; interpolated values are left out.
-/

set_option autoImplicit false

namespace Gambit

inductive Exn where
  | typeError (message : String)
  | valueError (message : String)
  | keyError
  | assertionError
  /-- Native code read or wrote outside its block, or did not return. -/
  | undefinedBehaviour
  /-- Raised by user code; an interrupt is a `BaseException` that is no `Exception`. -/
  | raised (name : String) (interrupt : Bool)
  /-- `BacktestCallbackError`, with the exception it was raised from. -/
  | callbackError (message : String) (cause : Exn)
deriving DecidableEq, Repr

def Exn.isInterrupt : Exn → Bool
  | .raised _ interrupt => interrupt
  | _ => false

/-- A Python object in the place of a real number. -/
inductive Scalar where
  | real (value : ℚ)
  | nan
  | infinite
  /-- A bool, or a value that is no number. -/
  | foreign
deriving DecidableEq, Repr

def wholeQuantity (value : ℚ) (fieldName : String) : Except Exn Int :=
  if value ≠ 0 ∧ value.den = 1 then .ok value.num
  else .error (.valueError (fieldName ++ " must be finite and nonzero, in whole shares or contracts"))

def finiteReal (value : Scalar) (fieldName : String) : Except Exn ℚ :=
  match value with
  | .real value => .ok value
  | _ => .error (.valueError (fieldName ++ " must be a finite real number"))

theorem wholeQuantity_ok {value : ℚ} {fieldName : String} {qty : Int}
    (accepted : wholeQuantity value fieldName = .ok qty) : value = qty ∧ qty ≠ 0 := by
  unfold wholeQuantity at accepted
  split at accepted
  · rename_i whole
    have numEq : value.num = qty := Except.ok.inj accepted
    have valueEq : value = qty := by
      rw [← numEq]
      exact (Rat.den_eq_one_iff value).mp whole.2 |>.symm
    refine ⟨valueEq, ?_⟩
    intro zero
    exact whole.1 (by rw [valueEq, zero]; rfl)
  · cases accepted

theorem wholeQuantity_intCast {qty : Int} (nonzero : qty ≠ 0) (fieldName : String) :
    wholeQuantity (qty : ℚ) fieldName = .ok qty := by
  simp [wholeQuantity, nonzero]

end Gambit
