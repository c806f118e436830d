import Mathlib.Tactic
import Mathlib.Data.List.Sort

/-!
# Lists in the order of a key

A list whose keys do not decrease is the concatenation, over its keys in
increasing order, of the elements with that key.
-/

set_option autoImplicit false

namespace KeyedLists

variable {α κ : Type} [LinearOrder κ]

def Chronological (key : α → κ) (xs : List α) : Prop := xs.Pairwise fun a b => key a ≤ key b

theorem chronological_append {key : α → κ} {xs ys : List α} :
    Chronological key (xs ++ ys) ↔
      Chronological key xs ∧ Chronological key ys ∧ ∀ x ∈ xs, ∀ y ∈ ys, key x ≤ key y :=
  List.pairwise_append

theorem Chronological.filter {key : α → κ} {xs : List α} (h : Chronological key xs)
    (p : α → Bool) : Chronological key (xs.filter p) :=
  List.Pairwise.filter p h

theorem chronological_insertionSort (key : α → κ) (xs : List α) :
    Chronological key (xs.insertionSort fun a b => key a ≤ key b) := by
  have total : Std.Total fun a b : α => key a ≤ key b := ⟨fun a b => le_total (key a) (key b)⟩
  have trans : IsTrans α fun a b : α => key a ≤ key b := ⟨fun _ _ _ => le_trans⟩
  exact List.pairwise_insertionSort _ xs

/-- Where keys are distinct a key stands for one element. -/
theorem filter_key_eq {α κ : Type} [DecidableEq κ] {key : α → κ} {xs : List α} {x : α}
    (distinct : (xs.map key).Nodup) (member : x ∈ xs) :
    (xs.filter fun y => key y = key x) = [x] := by
  induction xs with
  | nil => cases member
  | cons y xs ih =>
      rw [List.map_cons, List.nodup_cons] at distinct
      rcases List.mem_cons.mp member with rfl | later
      · have none : (xs.filter fun y => key y = key x) = [] :=
          List.filter_eq_nil_iff.mpr fun y listed => by
            have differs : key y ≠ key x := fun same =>
              distinct.1 (same ▸ List.mem_map_of_mem listed)
            simpa using differs
        rw [List.filter_cons_of_pos (by simp), none]
      · have differs : key y ≠ key x := fun same =>
          distinct.1 (same ▸ List.mem_map_of_mem later)
        rw [List.filter_cons_of_neg (by simpa using differs), ih distinct.2 later]

theorem filter_ne_append {key : α → κ} {xs : List α} (sorted : Chronological key xs) {k : κ}
    (least : ∀ x ∈ xs, k ≤ key x) :
    (xs.filter fun x => key x = k) ++ (xs.filter fun x => key x ≠ k) = xs := by
  induction xs with
  | nil => rfl
  | cons x xs ih =>
      obtain ⟨first, sortedRest⟩ := List.pairwise_cons.mp sorted
      by_cases same : key x = k
      · rw [List.filter_cons_of_pos (by simpa using same), List.filter_cons_of_neg (by simpa using same),
          List.cons_append, ih sortedRest fun y member => least y (List.mem_cons_of_mem _ member)]
      · have after : ∀ y ∈ x :: xs, key y ≠ k := by
          have less : k < key x := lt_of_le_of_ne (least x (List.mem_cons_self ..)) (Ne.symm same)
          intro y member
          rcases List.mem_cons.mp member with rfl | later
          · exact same
          · exact (less.trans_le (first y later)).ne'
        rw [List.filter_eq_nil_iff.mpr fun y member => by simpa using after y member,
          List.filter_eq_self.mpr fun y member => by simpa using after y member, List.nil_append]

/-- Collecting by increasing keys gives the list back. -/
theorem flatMap_filter_keys {key : α → κ} {keys : List κ} (increasing : keys.Pairwise (· < ·)) :
    ∀ {xs : List α}, Chronological key xs → (∀ x ∈ xs, key x ∈ keys) →
      (keys.flatMap fun k => xs.filter fun x => key x = k) = xs := by
  induction keys with
  | nil =>
      intro xs _ covered
      cases xs with
      | nil => rfl
      | cons x xs => cases covered x (List.mem_cons_self ..)
  | cons k keys ih =>
      intro xs sorted covered
      obtain ⟨first, increasingRest⟩ := List.pairwise_cons.mp increasing
      have least : ∀ x ∈ xs, k ≤ key x := fun x member => by
        rcases List.mem_cons.mp (covered x member) with same | later
        · exact same.ge
        · exact (first _ later).le
      have tail := ih increasingRest (sorted.filter fun x => key x ≠ k) fun x member => by
        obtain ⟨listed, differs⟩ := List.mem_filter.mp member
        exact (List.mem_cons.mp (covered x listed)).resolve_left (by simpa using differs)
      have sameGroups : (keys.flatMap fun k' => xs.filter fun x => key x = k') =
          keys.flatMap fun k' => (xs.filter fun x => key x ≠ k).filter fun x => key x = k' := by
        refine congrArg List.flatten (List.map_congr_left fun k' member => ?_)
        rw [List.filter_filter]
        refine List.filter_congr fun x _ => ?_
        have less := first k' member
        by_cases same : key x = k'
        · simp [same, less.ne']
        · simp [same]
      rw [List.flatMap_cons, sameGroups, tail]
      exact filter_ne_append sorted least

end KeyedLists
