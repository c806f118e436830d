import Mathlib.Data.List.Basic

/-!
# Lists as tables

Reading an entry of a list after one entry has been replaced, changed in place
or appended: the changed entry, or one that was there before.
-/

set_option autoImplicit false

namespace Tables

variable {α : Type} {xs : List α} {i j : Nat} {x y : α}

theorem set_some (read : (xs.set i x)[j]? = some y) : i = j ∧ y = x ∨ i ≠ j ∧ xs[j]? = some y := by
  by_cases same : i = j
  · subst same
    have within : i < (xs.set i x).length := (List.getElem?_eq_some_iff.mp read).1
    rw [List.length_set] at within
    rw [List.getElem?_set_self within] at read
    cases read
    exact Or.inl ⟨rfl, rfl⟩
  · rw [List.getElem?_set_ne same] at read
    exact Or.inr ⟨same, read⟩

theorem read_set_self (present : xs[i]? = some y) : (xs.set i x)[i]? = some x :=
  List.getElem?_set_self (List.getElem?_eq_some_iff.mp present).1

theorem modify_eq_set {f : α → α} (present : xs[i]? = some x) :
    xs.modify i f = xs.set i (f x) := by
  obtain ⟨inside, _⟩ := List.getElem?_eq_some_iff.mp present
  apply List.ext_getElem?
  intro j
  by_cases same : i = j
  · subst same
    rw [List.getElem?_modify_eq, List.getElem?_set_self inside, present]
    rfl
  · rw [List.getElem?_modify_ne f xs same, List.getElem?_set_ne same]

theorem append_some (read : (xs ++ [x])[j]? = some y) :
    j = xs.length ∧ y = x ∨ xs[j]? = some y := by
  obtain ⟨inside, value⟩ := List.getElem?_eq_some_iff.mp read
  rw [List.length_append, List.length_singleton] at inside
  rcases Nat.lt_succ_iff_lt_or_eq.mp inside with before | last
  · rw [List.getElem?_append_left before] at read
    exact Or.inr read
  · subst last
    rw [List.getElem?_concat_length] at read
    cases read
    exact Or.inl ⟨rfl, rfl⟩

theorem read_append (present : xs[i]? = some y) : (xs ++ [x])[i]? = some y := by
  rw [List.getElem?_append_left (List.getElem?_eq_some_iff.mp present).1, present]

/-- In a list numbered by its keys, the small keys are the first entries. -/
theorem filter_key_lt_eq_take {key : α → Nat}
    (numbered : ∀ (k : Nat) x, xs[k]? = some x → key x = k) (n : Nat) :
    (xs.filter fun x => key x < n) = xs.take n := by
  have early : ∀ x ∈ xs.take n, decide (key x < n) = true := by
    intro x member
    obtain ⟨k, read⟩ := List.mem_iff_getElem?.mp member
    obtain ⟨inside, _⟩ := List.getElem?_eq_some_iff.mp read
    rw [List.length_take] at inside
    rw [List.getElem?_take_of_lt (by omega)] at read
    rw [numbered k x read]
    exact decide_eq_true (by omega)
  have late : ∀ x ∈ xs.drop n, ¬ decide (key x < n) = true := by
    intro x member
    obtain ⟨k, read⟩ := List.mem_iff_getElem?.mp member
    rw [List.getElem?_drop] at read
    rw [numbered (n + k) x read, decide_eq_true_eq]
    omega
  have split : xs.filter (fun x => decide (key x < n)) =
      (xs.take n ++ xs.drop n).filter (fun x => decide (key x < n)) := by
    rw [List.take_append_drop]
  rw [split, List.filter_append, List.filter_eq_self.mpr early, List.filter_eq_nil_iff.mpr late,
    List.append_nil]

end Tables
