import Gambit.Lib.Raising

/-!
# Interleaved components

Components with states of their own run in turns.  A turn changes one of them,
so an interleaving returns what every component alone returns on its own turns.
-/

set_option autoImplicit false

namespace Interleaving

open Raising

variable {ι A ε : Type} [DecidableEq ι] {S : ι → Type}

/-- A turn of one component. -/
def only (k : ι) (step : Step ε (S k)) : Step ε (∀ k, S k) := fun states =>
  match step (states k) with
  | .ok state => .ok (Function.update states k state)
  | .error raised => .error ⟨raised.error, Function.update states k raised.state⟩

/-- The turns of one component. -/
def own (k : ι) (turns : List (ι × A)) : List A :=
  (turns.filter fun turn => turn.1 = k).map Prod.snd

theorem own_cons_self (k : ι) (a : A) (turns : List (ι × A)) :
    own k ((k, a) :: turns) = a :: own k turns := by
  simp [own]

theorem own_cons_other {j k : ι} (other : j ≠ k) (a : A) (turns : List (ι × A)) :
    own k ((j, a) :: turns) = own k turns := by
  simp [own, other]

/-- An interleaving returns when every component does, with what they return. -/
theorem interleaved_ok (step : ∀ k, A → Step ε (S k)) (turns : List (ι × A))
    (states after : ∀ k, S k) :
    turns.foldlM (fun states turn => only turn.1 (step turn.1 turn.2) states) states = .ok after ↔
      ∀ k, (own k turns).foldlM (fun state a => step k a state) (states k) = .ok (after k) := by
  induction turns generalizing states with
  | nil =>
      constructor
      · intro returned k
        cases returned
        rfl
      · intro each
        have same : states = after := funext fun k => Except.ok.inj (each k)
        rw [same]
        rfl
  | cons turn rest ih =>
      obtain ⟨j, a⟩ := turn
      rw [List.foldlM_cons, only]
      cases taken : step j a (states j) with
      | error raised =>
          constructor
          · intro returned
            cases returned
          · intro each
            have stopped := each j
            rw [own_cons_self, List.foldlM_cons, taken] at stopped
            cases stopped
      | ok state =>
          refine (ih (Function.update states j state)).trans ?_
          apply forall_congr'
          intro k
          by_cases here : j = k
          · subst here
            rw [Function.update_self, own_cons_self, List.foldlM_cons, taken]
            rfl
          · rw [Function.update_of_ne (Ne.symm here), own_cons_other here]

/-- A loop whose rounds are turns takes the turns of all rounds. -/
theorem foldlM_rounds {α β σ : Type} {l : List α} {round : σ → α → Except ε σ}
    {turn : σ → β → Except ε σ} (turns : α → List β)
    (each : ∀ a ∈ l, ∀ s, round s a = (turns a).foldlM turn s) (s : σ) :
    l.foldlM round s = (l.flatMap turns).foldlM turn s := by
  induction l generalizing s with
  | nil => rfl
  | cons a rest ih =>
      rw [List.foldlM_cons, List.flatMap_cons, List.foldlM_append, each a (List.mem_cons_self ..)]
      congr 1
      funext middle
      exact ih (fun b member => each b (List.mem_cons_of_mem _ member)) middle

/-- In a round every component has at most one turn. -/
theorem own_round (k : ι) {components : List ι} (distinct : components.Nodup)
    (due : ι → Option A) :
    own k (components.filterMap fun j => (due j).map (j, ·)) =
      if k ∈ components then (due k).toList else [] := by
  induction components with
  | nil => rfl
  | cons j rest ih =>
      obtain ⟨fresh, distinctRest⟩ := List.nodup_cons.mp distinct
      rw [List.filterMap_cons]
      by_cases here : j = k
      · subst here
        rw [if_pos (List.mem_cons_self ..)]
        cases due j with
        | none =>
            rw [Option.map_none]
            exact (ih distinctRest).trans (if_neg fresh)
        | some a =>
            rw [Option.map_some]
            dsimp only
            rw [own_cons_self, ih distinctRest, if_neg fresh]
            rfl
      · have same : k ∈ j :: rest ↔ k ∈ rest := by
          rw [List.mem_cons, or_iff_right (Ne.symm here)]
        simp only [same]
        cases due j with
        | none =>
            rw [Option.map_none]
            exact ih distinctRest
        | some a =>
            rw [Option.map_some]
            dsimp only
            rw [own_cons_other here, ih distinctRest]

theorem own_rounds {T : Type} (k : ι) {components : List ι} (distinct : components.Nodup)
    (member : k ∈ components) (due : T → ι → Option A) (times : List T) :
    own k (times.flatMap fun time => components.filterMap fun j => (due time j).map (j, ·)) =
      times.filterMap fun time => due time k := by
  induction times with
  | nil => rfl
  | cons time rest ih =>
      have round := own_round k distinct (due time)
      rw [if_pos member] at round
      rw [List.flatMap_cons, List.filterMap_cons]
      unfold own at ih round ⊢
      rw [List.filter_append, List.map_append, round, ih]
      cases due time k <;> rfl

theorem own_absent {k : ι} {turns : List (ι × A)} (absent : ∀ turn ∈ turns, turn.1 ≠ k) :
    own k turns = [] := by
  rw [own, List.map_eq_nil_iff, List.filter_eq_nil_iff]
  intro turn member here
  exact absent turn member (of_decide_eq_true here)

end Interleaving
