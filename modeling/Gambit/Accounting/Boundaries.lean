import Gambit.PqTypes
import Mathlib.Data.List.Sort
import Mathlib.Data.List.TakeWhile
import Mathlib.Data.List.Dedup

/-!
# Timestamp grids and price values

The validation contracts of boundaries.py at the account's edge.
-/

set_option autoImplicit false

namespace Gambit

/-- What `validate_timestamp_grid` lets through. -/
structure Grid where
  timestamps : List Timestamp
  nonempty : timestamps ≠ []
  increasing : timestamps.Pairwise (· < ·)

/-- `np.searchsorted(timestamps, timestamp)`, side "left". -/
def searchsorted (timestamps : List Timestamp) (timestamp : Timestamp) : Nat :=
  (timestamps.takeWhile (· < timestamp)).length

/-- `np.searchsorted(timestamps, timestamp, side="right")`. -/
def searchsortedRight (timestamps : List Timestamp) (timestamp : Timestamp) : Nat :=
  (timestamps.takeWhile (· ≤ timestamp)).length

/-- `np.unique`. -/
def npUnique (timestamps : List Timestamp) : List Timestamp :=
  (timestamps.insertionSort (· ≤ ·)).dedup

def timestampIndex (grid : Grid) (timestamp : Timestamp) : Except Exn Nat :=
  let index := searchsorted grid.timestamps timestamp
  if grid.timestamps[index]? = some timestamp then .ok index
  else .error (.valueError "timestamp is not present in the account timestamp grid")

/-- `validate_price_value` with `allow_missing`: NaN is a missing price. -/
def validatePriceValue (value : Scalar) : Except Exn (Option ℚ) :=
  match value with
  | .real price => .ok (some price)
  | .nan => .ok none
  | .infinite => .error (.valueError "account price callback returned a non-finite price")
  | .foreign => .error (.typeError "account price callback returned a non-real scalar price")

theorem timestampIndex_ok {grid : Grid} {timestamp : Timestamp} {index : Nat}
    (found : timestampIndex grid timestamp = .ok index) :
    grid.timestamps[index]? = some timestamp := by
  simp only [timestampIndex] at found
  split at found
  · rename_i present
    cases found
    exact present
  · cases found

theorem timestampIndex_mem {grid : Grid} {timestamp : Timestamp} {index : Nat}
    (found : timestampIndex grid timestamp = .ok index) : timestamp ∈ grid.timestamps :=
  List.mem_of_getElem? (timestampIndex_ok found)

theorem searchsorted_getElem? {timestamps : List Timestamp} (increasing : timestamps.Pairwise (· < ·))
    {index : Nat} {timestamp : Timestamp} (at_index : timestamps[index]? = some timestamp) :
    searchsorted timestamps timestamp = index := by
  induction timestamps generalizing index with
  | nil => simp at at_index
  | cons head rest ih =>
      obtain ⟨first, sortedRest⟩ := List.pairwise_cons.mp increasing
      cases index with
      | zero =>
          simp only [List.getElem?_cons_zero, Option.some.injEq] at at_index
          subst head
          simp [searchsorted]
      | succ index =>
          simp only [List.getElem?_cons_succ] at at_index
          have less := first timestamp (List.mem_of_getElem? at_index)
          have := ih sortedRest at_index
          simp only [searchsorted] at this ⊢
          rw [List.takeWhile_cons_of_pos (by simpa using less), List.length_cons, this]

theorem timestampIndex_of_getElem? {grid : Grid} {timestamp : Timestamp} {index : Nat}
    (at_index : grid.timestamps[index]? = some timestamp) :
    timestampIndex grid timestamp = .ok index := by
  have indexEq := searchsorted_getElem? grid.increasing at_index
  simp only [timestampIndex, indexEq, at_index, if_true]

theorem timestampIndex_of_mem {grid : Grid} {timestamp : Timestamp}
    (member : timestamp ∈ grid.timestamps) :
    ∃ index, timestampIndex grid timestamp = .ok index := by
  obtain ⟨index, at_index⟩ := List.mem_iff_getElem?.mp member
  exact ⟨index, timestampIndex_of_getElem? at_index⟩

theorem npUnique_sorted (timestamps : List Timestamp) : (npUnique timestamps).Pairwise (· < ·) := by
  have sorted : (timestamps.insertionSort (· ≤ ·)).Pairwise (· ≤ ·) :=
    List.pairwise_insertionSort (· ≤ ·) timestamps
  have sortedUnique := sorted.sublist (List.dedup_sublist _)
  have distinct := List.nodup_dedup (timestamps.insertionSort (· ≤ ·))
  exact (sortedUnique.and distinct).imp fun both => lt_of_le_of_ne both.1 both.2

theorem mem_npUnique {timestamps : List Timestamp} {timestamp : Timestamp} :
    timestamp ∈ npUnique timestamps ↔ timestamp ∈ timestamps := by
  rw [npUnique, List.mem_dedup, List.mem_insertionSort]

end Gambit
