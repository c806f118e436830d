import Mathlib

/-!
# Sorted lists with repetitions

A half-open or closed range of a nondecreasing list is a segment of it, and the
last element of a segment is its greatest.
-/

set_option autoImplicit false

namespace SortedLists

variable {α : Type}

/-- What a downward closed test takes from the front is all it accepts. -/
theorem takeWhile_eq_filter {p : α → Bool} {xs : List α}
    (closed : xs.Pairwise fun a b => p b = true → p a = true) : xs.takeWhile p = xs.filter p := by
  induction xs with
  | nil => rfl
  | cons x xs ih =>
      obtain ⟨first, rest⟩ := List.pairwise_cons.mp closed
      by_cases holds : p x = true
      · rw [List.takeWhile_cons_of_pos holds, List.filter_cons_of_pos holds, ih rest]
      · rw [List.takeWhile_cons_of_neg holds, List.filter_cons_of_neg holds]
        refine (List.filter_eq_nil_iff.mpr fun y member later => ?_).symm
        exact holds (first y member later)

/-- The last of the elements taken from the front, by its index. -/
theorem getElem?_takeWhile_last {p : α → Bool} {xs : List α} (some_taken : xs.takeWhile p ≠ []) :
    xs[(xs.takeWhile p).length - 1]? = (xs.takeWhile p).getLast? := by
  have positive := List.length_pos_iff.mpr some_taken
  obtain ⟨rest, split⟩ := List.takeWhile_prefix p (l := xs)
  have same := congrArg (fun ys : List α => ys[(xs.takeWhile p).length - 1]?) split
  rw [← same, List.getElem?_append_left (by omega), List.getLast?_eq_getElem?]

section Order

variable [LinearOrder α] {xs : List α}

theorem getLast?_eq_some_iff_greatest (sorted : xs.Pairwise (· ≤ ·)) {x : α} :
    xs.getLast? = some x ↔ x ∈ xs ∧ ∀ y ∈ xs, y ≤ x := by
  constructor
  · intro last
    obtain ⟨before, rfl⟩ := List.getLast?_eq_some_iff.mp last
    refine ⟨by simp, fun y member => ?_⟩
    rcases List.mem_append.mp member with earlier | same
    · exact (List.pairwise_append.mp sorted).2.2 y earlier x (by simp)
    · exact (List.mem_singleton.mp same).le
  · rintro ⟨member, greatest⟩
    cases last : xs.getLast? with
    | none =>
        rw [List.getLast?_eq_none_iff.mp last] at member
        cases member
    | some y =>
        obtain ⟨before, rfl⟩ := List.getLast?_eq_some_iff.mp last
        have below : x ≤ y := by
          rcases List.mem_append.mp member with earlier | same
          · exact (List.pairwise_append.mp sorted).2.2 x earlier y (by simp)
          · exact (List.mem_singleton.mp same).le
        rw [le_antisymm below (greatest y (by simp))]

/-- The elements up to `hi` are those before `lo` and those from `lo` to `hi`. -/
theorem filter_le_split (sorted : xs.Pairwise (· ≤ ·)) {lo hi : α} (le : lo ≤ hi) :
    xs.filter (fun x => decide (x ≤ hi)) =
      xs.filter (fun x => decide (x < lo)) ++ xs.filter fun x => decide (lo ≤ x ∧ x ≤ hi) := by
  induction xs with
  | nil => rfl
  | cons x xs ih =>
      obtain ⟨first, rest⟩ := List.pairwise_cons.mp sorted
      by_cases below : x < lo
      · have inside : x ≤ hi := below.le.trans le
        rw [List.filter_cons_of_pos (by simpa using inside),
          List.filter_cons_of_pos (by simpa using below),
          List.filter_cons_of_neg (by simp [not_le.mpr below]), ih rest, List.cons_append]
      · have none_below : (x :: xs).filter (fun y => decide (y < lo)) = [] :=
          List.filter_eq_nil_iff.mpr fun y member => by
            rcases List.mem_cons.mp member with rfl | later
            · simpa using below
            · simpa using (not_lt.mp below).trans (first y later)
        rw [none_below, List.nil_append]
        refine List.filter_congr fun y member => ?_
        have reached : lo ≤ y := by
          rcases List.mem_cons.mp member with rfl | later
          · exact not_lt.mp below
          · exact (not_lt.mp below).trans (first y later)
        simp [reached]

/-- Two binary searches and a step back find the last element from `lo` to `hi`. -/
theorem last_between (sorted : xs.Pairwise (· ≤ ·)) {lo hi : α} (le : lo ≤ hi) :
    (if (xs.takeWhile fun x => decide (x < lo)).length < (xs.takeWhile fun x => decide (x ≤ hi)).length
      then xs[(xs.takeWhile fun x => decide (x ≤ hi)).length - 1]? else none) =
      (xs.filter fun x => decide (lo ≤ x ∧ x ≤ hi)).getLast? := by
  have below : xs.takeWhile (fun x => decide (x < lo)) = xs.filter fun x => decide (x < lo) :=
    takeWhile_eq_filter (sorted.imp fun ab b => by simp only [decide_eq_true_eq] at b ⊢; exact ab.trans_lt b)
  have upTo : xs.takeWhile (fun x => decide (x ≤ hi)) = xs.filter fun x => decide (x ≤ hi) :=
    takeWhile_eq_filter (sorted.imp fun ab b => by simp only [decide_eq_true_eq] at b ⊢; exact ab.trans b)
  have split := filter_le_split sorted le
  by_cases empty : xs.filter (fun x => decide (lo ≤ x ∧ x ≤ hi)) = []
  · rw [empty, List.append_nil] at split
    rw [below, upTo, split, if_neg (lt_irrefl _), empty]
    rfl
  · have nonempty : xs.takeWhile (fun x => decide (x ≤ hi)) ≠ [] := by
      rw [upTo, split]
      exact List.append_ne_nil_of_right_ne_nil _ empty
    have positive := List.length_pos_iff.mpr empty
    have last := List.getLast?_eq_some_getLast empty
    rw [getElem?_takeWhile_last nonempty, below, upTo, split, List.length_append,
      if_pos (by omega), List.getLast?_append, last, Option.some_or]

end Order

end SortedLists
