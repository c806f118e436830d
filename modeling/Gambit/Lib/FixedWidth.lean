import Mathlib.Data.Rat.Floor
import Mathlib.Tactic

/-!
# Fixed-width signed arithmetic

Signed 64-bit operations over the integers.  A result outside the type is
undefined, so an operation is a computation that may fail; what stays between
two values of the type never does.  A rounded-up share computed in two parts
never leaves the range of the amount it is taken of.
-/

set_option autoImplicit false

namespace FixedWidth

def int64Min : Int := -9223372036854775808
def int64Max : Int := 9223372036854775807
def uint64Max : Nat := 18446744073709551615

def Fits (x : Int) : Prop := int64Min ≤ x ∧ x ≤ int64Max

instance (x : Int) : Decidable (Fits x) := inferInstanceAs (Decidable (_ ∧ _))

variable {ε : Type}

/-- The value of a signed operation; an overflow is undefined. -/
def signed (undefined : ε) (x : Int) : Except ε Int :=
  if Fits x then .ok x else .error undefined

/-- An element of a vector; outside its bounds the access is undefined. -/
def element {α : Type} (undefined : ε) (xs : List α) (index : Nat) : Except ε α :=
  match xs[index]? with
  | some x => .ok x
  | none => .error undefined

theorem signed_of_fits {undefined : ε} {x : Int} (fits : Fits x) :
    signed undefined x = .ok x :=
  if_pos fits

theorem signed_ok {undefined : ε} {x y : Int} (run : signed undefined x = .ok y) :
    y = x ∧ Fits x := by
  unfold signed at run
  by_cases fits : Fits x
  · rw [if_pos fits] at run
    cases run
    exact ⟨rfl, fits⟩
  · rw [if_neg fits] at run
    cases run

theorem element_of_some {α : Type} {undefined : ε} {xs : List α} {index : Nat} {x : α}
    (present : xs[index]? = some x) : element undefined xs index = .ok x := by
  rw [element, present]

theorem element_ok {α : Type} {undefined : ε} {xs : List α} {index : Nat} {x : α}
    (run : element undefined xs index = .ok x) : xs[index]? = some x := by
  unfold element at run
  split at run
  · next present =>
      cases run
      exact present
  · cases run

theorem Fits.between {low high x : Int} (fitsLow : Fits low) (fitsHigh : Fits high)
    (above : low ≤ x) (below : x ≤ high) : Fits x :=
  ⟨fitsLow.1.trans above, below.trans fitsHigh.2⟩

theorem fits_zero : Fits 0 := by decide

theorem Fits.of_nonneg {high x : Int} (fits : Fits high) (above : 0 ≤ x) (below : x ≤ high) :
    Fits x :=
  fits_zero.between fits above below

/-- Every nonnegative value of the type has its opposite. -/
theorem Fits.neg {x : Int} (fits : Fits x) (nonneg : 0 ≤ x) : Fits (-x) := by
  have below := fits.2
  unfold int64Max at below
  unfold Fits int64Min int64Max
  omega

theorem Fits.of_abs_le {high x : Int} (fits : Fits high) (bound : |x| ≤ high) : Fits x := by
  obtain ⟨above, below⟩ := abs_le.mp bound
  have nonneg : 0 ≤ high := (abs_nonneg x).trans bound
  exact (fits.neg nonneg).between fits above below

section RoundedShare

variable {amount rate unit : Int}

theorem add_pred_div_eq_ceil (amount : Int) {unit : Int} (positive : 0 < unit) :
    (amount + (unit - 1)) / unit = ⌈(amount : ℚ) / unit⌉ := by
  have positiveQ : (0 : ℚ) < unit := by exact_mod_cast positive
  symm
  rw [Int.ceil_eq_iff]
  have low := Int.emod_add_mul_ediv (amount + (unit - 1)) unit
  have rest := Int.emod_nonneg (amount + (unit - 1)) positive.ne'
  have small := Int.emod_lt_of_pos (amount + (unit - 1)) positive
  generalize (amount + (unit - 1)) / unit = share at low ⊢
  generalize (amount + (unit - 1)) % unit = remainder at low rest small
  have exceeds : unit * share < amount + unit := by omega
  have covers : amount ≤ unit * share := by omega
  constructor
  · rw [lt_div_iff₀ positiveQ]
    have cast : (unit : ℚ) * share < amount + unit := by exact_mod_cast exceeds
    linarith
  · rw [div_le_iff₀ positiveQ]
    have cast : (amount : ℚ) ≤ unit * share := by exact_mod_cast covers
    linarith

/-- Taking the share of the whole units and of the rest apart changes nothing:
the product of amount and rate need not be formed. -/
theorem split_share_eq_ceil (amount rate : Int) {unit : Int} (positive : 0 < unit) :
    (amount / unit) * rate + ((amount % unit) * rate + (unit - 1)) / unit =
      ⌈(amount * rate : ℚ) / unit⌉ := by
  have whole : amount * rate + (unit - 1) =
      ((amount % unit) * rate + (unit - 1)) + ((amount / unit) * rate) * unit := by
    have parts := Int.emod_add_mul_ediv amount unit
    calc amount * rate + (unit - 1)
        = (amount % unit + unit * (amount / unit)) * rate + (unit - 1) := by rw [parts]
      _ = ((amount % unit) * rate + (unit - 1)) + ((amount / unit) * rate) * unit := by ring
  have joined := add_pred_div_eq_ceil (amount * rate) positive
  rw [whole, Int.add_mul_ediv_right _ _ positive.ne'] at joined
  rw [add_comm, joined]
  push_cast
  rfl

theorem ceil_share_nonneg (amountNonneg : 0 ≤ amount) (rateNonneg : 0 ≤ rate)
    (positive : 0 < unit) : 0 ≤ ⌈(amount * rate : ℚ) / unit⌉ := by
  have amountQ : (0 : ℚ) ≤ amount := by exact_mod_cast amountNonneg
  have rateQ : (0 : ℚ) ≤ rate := by exact_mod_cast rateNonneg
  have positiveQ : (0 : ℚ) < unit := by exact_mod_cast positive
  positivity

/-- A share at a rate of at most one is at most the amount. -/
theorem ceil_share_le (amountNonneg : 0 ≤ amount) (atMostOne : rate ≤ unit)
    (positive : 0 < unit) : ⌈(amount * rate : ℚ) / unit⌉ ≤ amount := by
  have positiveQ : (0 : ℚ) < unit := by exact_mod_cast positive
  rw [Int.ceil_le, div_le_iff₀ positiveQ]
  exact_mod_cast mul_le_mul_of_nonneg_left atMostOne amountNonneg

end RoundedShare

end FixedWidth
