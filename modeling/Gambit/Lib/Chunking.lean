import Mathlib.Data.UInt
import Mathlib.Tactic

/-!
# Ranges cut into chunks

A range of `total` bytes is cut into chunks of `size` bytes, the last one
shorter.  Every position is in exactly the chunk its quotient names, and no
chunk leaves the range.  Wrapping 64-bit offsets compute the same numbers as
long as the results fit.
-/

set_option autoImplicit false

namespace Chunking

section Offsets

variable {x y : UInt64}

theorem toNat_add_of_fits (fits : x.toNat + y.toNat < 2 ^ 64) :
    (x + y).toNat = x.toNat + y.toNat := by
  rw [UInt64.toNat_add, Nat.mod_eq_of_lt fits]

theorem toNat_mul_of_fits (fits : x.toNat * y.toNat < 2 ^ 64) :
    (x * y).toNat = x.toNat * y.toNat := by
  rw [UInt64.toNat_mul, Nat.mod_eq_of_lt fits]

theorem toNat_sub_of_le (le : y.toNat ≤ x.toNat) : (x - y).toNat = x.toNat - y.toNat :=
  UInt64.toNat_sub_of_le x y (UInt64.le_iff_toNat_le.mpr le)

theorem toNat_min (x y : UInt64) : (min x y).toNat = min x.toNat y.toNat := by
  change (if x ≤ y then x else y).toNat = _
  by_cases ordered : x ≤ y
  · rw [if_pos ordered, Nat.min_eq_left (UInt64.le_iff_toNat_le.mp ordered)]
  · have reversed : y.toNat ≤ x.toNat := by
      rw [UInt64.le_iff_toNat_le] at ordered
      omega
    rw [if_neg ordered, Nat.min_eq_right reversed]

theorem toNat_max (x y : UInt64) : (max x y).toNat = max x.toNat y.toNat := by
  change (if x ≤ y then y else x).toNat = _
  by_cases ordered : x ≤ y
  · rw [if_pos ordered, Nat.max_eq_right (UInt64.le_iff_toNat_le.mp ordered)]
  · have reversed : y.toNat ≤ x.toNat := by
      rw [UInt64.le_iff_toNat_le] at ordered
      omega
    rw [if_neg ordered, Nat.max_eq_left reversed]

theorem toNat_pos (nonzero : x ≠ 0) : 0 < x.toNat := by
  apply Nat.pos_of_ne_zero
  intro zero
  exact nonzero (UInt64.toNat_inj.mp zero)

end Offsets

section Chunks

variable {total size limit k i : Nat}

/-- The number of chunks. -/
def count (total size : Nat) : Nat := if total = 0 then 0 else 1 + (total - 1) / size

/-- The length of a chunk. -/
def lengthOf (total size k : Nat) : Nat := min size (total - k * size)

theorem count_zero (size : Nat) : count 0 size = 0 := if_pos rfl

theorem count_of_pos (positive : 0 < total) : count total size = 1 + (total - 1) / size :=
  if_neg positive.ne'

theorem start_lt (chunk : k < count total size) : k * size < total := by
  unfold count at chunk
  split at chunk
  · omega
  · have reached : k * size ≤ (total - 1) / size * size := Nat.mul_le_mul_right size (by omega)
    have below := Nat.div_mul_le_self (total - 1) size
    omega

theorem end_le (chunk : k < count total size) : k * size + lengthOf total size k ≤ total := by
  have start := start_lt chunk
  unfold lengthOf
  omega

theorem chunk_lt (inside : i < total) : i / size < count total size := by
  rw [count_of_pos (by omega)]
  have monotone : i / size ≤ (total - 1) / size := Nat.div_le_div_right (by omega)
  omega

theorem chunk_start_le (i size : Nat) : i / size * size ≤ i := Nat.div_mul_le_self i size

theorem lt_chunk_end (positive : 0 < size) (inside : i < total) :
    i < i / size * size + lengthOf total size (i / size) := by
  have below := Nat.div_mul_le_self i size
  have above := Nat.lt_div_mul_add (a := i) positive
  unfold lengthOf
  omega

/-- Rounding up in one division. -/
theorem roundedUp_eq_count (positive : 0 < size) (nonempty : 0 < total) :
    (total + size - 1) / size = count total size := by
  have shifted : total + size - 1 = total - 1 + size := by omega
  rw [count_of_pos nonempty, shifted, Nat.add_div_right _ positive]
  omega

/-- Chunks large enough for the limit. -/
theorem count_le (positive : 0 < limit) (large : 1 + (total - 1) / limit ≤ size) :
    count total size ≤ limit := by
  unfold count
  split
  · omega
  · have spread : total - 1 < limit * size := by
      have above := Nat.lt_div_mul_add (a := total - 1) positive
      have scaled : ((total - 1) / limit + 1) * limit ≤ size * limit :=
        Nat.mul_le_mul_right limit (by omega)
      rw [Nat.add_mul, Nat.one_mul] at scaled
      rw [Nat.mul_comm limit size]
      omega
    have few : (total - 1) / size < limit := Nat.div_lt_of_lt_mul (by rwa [Nat.mul_comm])
    omega

end Chunks

end Chunking
