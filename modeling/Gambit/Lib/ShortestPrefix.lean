import Mathlib.Tactic

/-!
# The shortest sufficient prefix

Elements are removed in order for as long as a bound is exceeded.
-/

set_option autoImplicit false

namespace ShortestPrefix

variable {α σ : Type}

/-- `ys` is the shortest prefix of `xs` that is enough, or all of `xs` where none is. -/
structure Shortest (enough : List α → Prop) (xs ys : List α) : Prop where
  isPrefix : ys <+: xs
  least : ∀ zs, zs <+: xs → enough zs → ys <+: zs
  sufficient : enough ys ∨ ys = xs ∧ ∀ zs, zs <+: xs → ¬ enough zs

/-- What is removed, an element at a time. -/
def greedy (exceeds : σ → Bool) (remove : σ → α → σ) : List α → σ → List α
  | [], _ => []
  | x :: rest, s => if exceeds s then x :: greedy exceeds remove rest (remove s x) else []

variable {exceeds : σ → Bool} {remove : σ → α → σ} {xs : List α} {s : σ}

theorem greedy_of_within (within : exceeds s = false) : greedy exceeds remove xs s = [] := by
  cases xs with
  | nil => rfl
  | cons x rest => simp [greedy, within]

theorem greedy_cons (x : α) (exceeded : exceeds s = true) :
    greedy exceeds remove (x :: xs) s = x :: greedy exceeds remove xs (remove s x) := by
  simp [greedy, exceeded]

theorem greedy_prefix (xs : List α) (s : σ) : greedy exceeds remove xs s <+: xs := by
  induction xs generalizing s with
  | nil => exact List.prefix_rfl
  | cons x rest ih =>
      cases exceeded : exceeds s with
      | false =>
          rw [greedy_of_within exceeded]
          exact List.nil_prefix
      | true =>
          rw [greedy_cons x exceeded]
          exact List.cons_prefix_cons.mpr ⟨rfl, ih _⟩

theorem greedy_least (s : σ) (zs : List α) (here : zs <+: xs)
    (within : exceeds (zs.foldl remove s) = false) : greedy exceeds remove xs s <+: zs := by
  induction xs generalizing s zs with
  | nil =>
      rw [List.prefix_nil.mp here]
      exact List.prefix_rfl
  | cons x rest ih =>
      cases exceeded : exceeds s with
      | false =>
          rw [greedy_of_within exceeded]
          exact List.nil_prefix
      | true =>
          rw [greedy_cons x exceeded]
          cases zs with
          | nil =>
              rw [List.foldl_nil, exceeded] at within
              cases within
          | cons z zs =>
              obtain ⟨rfl, inside⟩ := List.cons_prefix_cons.mp here
              exact List.cons_prefix_cons.mpr ⟨rfl, ih (remove s z) zs inside within⟩

/-- It ends within the bound or runs out of elements. -/
theorem greedy_ends (exceeds : σ → Bool) (remove : σ → α → σ) (xs : List α) (s : σ) :
    exceeds ((greedy exceeds remove xs s).foldl remove s) = false ∨ greedy exceeds remove xs s = xs := by
  induction xs generalizing s with
  | nil => exact .inr rfl
  | cons x rest ih =>
      cases exceeded : exceeds s with
      | false =>
          rw [greedy_of_within exceeded]
          exact .inl exceeded
      | true =>
          rw [greedy_cons x exceeded]
          rcases ih (remove s x) with within | all
          · exact .inl within
          · exact .inr (by rw [all])

theorem greedy_shortest (xs : List α) (s : σ) :
    Shortest (fun zs => exceeds (zs.foldl remove s) = false) xs (greedy exceeds remove xs s) where
  isPrefix := greedy_prefix xs s
  least := greedy_least s
  sufficient := by
    cases exceeded : exceeds ((greedy exceeds remove xs s).foldl remove s) with
    | false => exact .inl rfl
    | true =>
        right
        have all : greedy exceeds remove xs s = xs := by
          rcases greedy_ends exceeds remove xs s with within | all
          · rw [exceeded] at within
            cases within
          · exact all
        refine ⟨all, fun zs here within => ?_⟩
        -- a sufficient prefix would contain all of `xs`, which is not sufficient
        have whole : zs = xs := by
          have contains := greedy_least s zs here within
          rw [all] at contains
          exact here.eq_of_length_le contains.length_le
        rw [all, ← whole, within] at exceeded
        cases exceeded

end ShortestPrefix
