import Mathlib.Tactic

/-!
# Imperative steps that may raise

A step takes a state and either returns the next state or raises, and a raise
carries the state it left behind: nothing is undone unless a handler undoes
it.  `Keeps` is a partial-correctness triple over both exits, with the rules
for sequencing, loops and handlers.
-/

set_option autoImplicit false

structure Raised (ε σ : Type) where
  error : ε
  state : σ
deriving DecidableEq

namespace Raising

variable {ε σ τ α β : Type}

abbrev Step (ε σ : Type) := σ → Except (Raised ε σ) σ

/-- A check that raises in the state it is made in. -/
def raiseIn (state : σ) : Except ε α → Except (Raised ε σ) α
  | .ok a => .ok a
  | .error e => .error ⟨e, state⟩

/-- `P` before gives `P` after, whether the step returns or raises. -/
def Keeps (P : σ → Prop) (m : Step ε σ) : Prop :=
  ∀ s, P s → (∀ s', m s = .ok s' → P s') ∧ (∀ r, m s = .error r → P r.state)

/-- The same for a step that carries more than the state. -/
def KeepsOn (view : τ → σ) (P : σ → Prop) (m : τ → Except (Raised ε σ) τ) : Prop :=
  ∀ s, P (view s) → (∀ s', m s = .ok s' → P (view s')) ∧ (∀ r, m s = .error r → P r.state)

theorem raiseIn_ok {state : σ} {m : Except ε α} {a : α} :
    raiseIn state m = .ok a ↔ m = .ok a := by
  cases m <;> simp [raiseIn]

theorem raiseIn_error {state : σ} {m : Except ε α} {r : Raised ε σ} :
    raiseIn state m = .error r ↔ ∃ e, m = .error e ∧ r = ⟨e, state⟩ := by
  cases m with
  | ok a => simp [raiseIn]
  | error e =>
      simp only [raiseIn, Except.error.injEq, exists_eq_left']
      exact eq_comm

theorem bind_ok {m : Except ε α} {f : α → Except ε β} {b : β} :
    (m >>= f) = .ok b ↔ ∃ a, m = .ok a ∧ f a = .ok b := by
  cases m <;> simp [bind, Except.bind]

theorem bind_error {m : Except ε α} {f : α → Except ε β} {e : ε} :
    (m >>= f) = .error e ↔ m = .error e ∨ ∃ a, m = .ok a ∧ f a = .error e := by
  cases m <;> simp [bind, Except.bind]

/-- A check that refuses. -/
theorem refuse_ok {p : Prop} [Decidable p] {e : ε} {m : Except ε β} {b : β} :
    (if p then .error e else m) = .ok b ↔ ¬ p ∧ m = .ok b := by
  by_cases refused : p
  · simp [refused]
  · simp [refused]

/-- A branch that accepts at once. -/
theorem permit_ok {p : Prop} [Decidable p] {a : β} {m : Except ε β} {b : β} :
    (if p then .ok a else m) = .ok b ↔ p ∧ a = b ∨ ¬ p ∧ m = .ok b := by
  by_cases permitted : p
  · simp [permitted]
  · simp [permitted]

/-- `m` returns what `P` describes or raises what `E` describes. -/
def Yields (P : α → Prop) (E : ε → Prop) : Except ε α → Prop
  | .ok a => P a
  | .error e => E e

theorem Yields.of_ok {P : α → Prop} {E : ε → Prop} {m : Except ε α} {a : α}
    (yields : Yields P E m) (run : m = .ok a) : P a := by
  rw [run] at yields
  exact yields

theorem Yields.of_error {P : α → Prop} {E : ε → Prop} {m : Except ε α} {e : ε}
    (yields : Yields P E m) (run : m = .error e) : E e := by
  rw [run] at yields
  exact yields

theorem Yields.bind {P : α → Prop} {Q : β → Prop} {E : ε → Prop} {m : Except ε α}
    {f : α → Except ε β} (first : Yields P E m) (second : ∀ a, P a → Yields Q E (f a)) :
    Yields Q E (m >>= f) := by
  cases m with
  | ok a => exact second a first
  | error e => exact first

theorem Yields.bind_of_ok {Q : β → Prop} {E : ε → Prop} {m : Except ε α} {f : α → Except ε β}
    {a : α} (run : m = .ok a) (rest : Yields Q E (f a)) : Yields Q E (m >>= f) := by
  rw [run]
  exact rest

theorem Yields.mono {P Q : α → Prop} {E : ε → Prop} {m : Except ε α} (yields : Yields P E m)
    (weaker : ∀ a, P a → Q a) : Yields Q E m := by
  cases m with
  | ok a => exact weaker a yields
  | error e => exact yields

theorem Yields.weaken {P Q : α → Prop} {E F : ε → Prop} {m : Except ε α} (yields : Yields P E m)
    (weaker : ∀ a, P a → Q a) (weakerError : ∀ e, E e → F e) : Yields Q F m := by
  cases m with
  | ok a => exact weaker a yields
  | error e => exact weakerError e yields

theorem Yields.raiseIn {P : α → Prop} {E : ε → Prop} {m : Except ε α} (state : σ)
    (yields : Yields P E m) :
    Yields P (fun raised => E raised.error) (Raising.raiseIn state m) := by
  cases m with
  | ok a => exact yields
  | error e => exact yields

theorem Yields.foldlM {P : σ → Prop} {E : ε → Prop} {f : σ → α → Except ε σ} {xs : List α}
    (each : ∀ x ∈ xs, ∀ s, P s → Yields P E (f s x)) {s : σ} (start : P s) :
    Yields P E (xs.foldlM f s) := by
  induction xs generalizing s with
  | nil => exact start
  | cons x xs ih =>
      rw [List.foldlM_cons]
      exact (each x (List.mem_cons_self ..) s start).bind fun middle now =>
        ih (fun y member => each y (List.mem_cons_of_mem _ member)) now

/-- A loop whose rounds each establish a fact about their element that later
rounds keep. -/
theorem Yields.foldlM_each {P : σ → Prop} {Q : α → σ → Prop} {R : σ → σ → Prop} {E : ε → Prop}
    {f : σ → α → Except ε σ} {xs : List α} (reflexive : ∀ s, R s s)
    (transitive : ∀ s t u, R s t → R t u → R s u) (keeps : ∀ x s t, R s t → Q x s → Q x t)
    (each : ∀ x ∈ xs, ∀ s, P s → Yields (fun t => P t ∧ Q x t ∧ R s t) E (f s x)) {s : σ}
    (start : P s) : Yields (fun t => P t ∧ (∀ x ∈ xs, Q x t) ∧ R s t) E (xs.foldlM f s) := by
  induction xs generalizing s with
  | nil => exact ⟨start, fun x member => (List.not_mem_nil member).elim, reflexive s⟩
  | cons x xs ih =>
      rw [List.foldlM_cons]
      apply (each x (List.mem_cons_self ..) s start).bind
      intro middle first
      obtain ⟨now, done, passed⟩ := first
      apply (ih (fun y member => each y (List.mem_cons_of_mem _ member)) now).mono
      intro t rest
      obtain ⟨last, later, onward⟩ := rest
      refine ⟨last, ?_, transitive _ _ _ passed onward⟩
      intro y member
      rcases List.mem_cons.mp member with rfl | inside
      · exact keeps y _ _ onward done
      · exact later y inside

/-- The loop rule for both exits, with an invariant that speaks of the elements done. -/
theorem Yields.foldlM_done {P : List α → σ → Prop} {E : ε → Prop} {f : σ → α → Except ε σ}
    {xs : List α} (each : ∀ done x s, done ++ [x] <+: xs → P done s →
      Yields (P (done ++ [x])) E (f s x)) {s : σ} (start : P [] s) :
    Yields (P xs) E (xs.foldlM f s) := by
  have along : ∀ (rest done : List α) (s : σ), done ++ rest = xs → P done s →
      Yields (P xs) E (rest.foldlM f s) := by
    intro rest
    induction rest with
    | nil =>
        intro done s whole now
        rw [List.append_nil] at whole
        exact whole ▸ now
    | cons x rest ih =>
        intro done s whole now
        rw [List.foldlM_cons]
        have split : (done ++ [x]) ++ rest = xs := by
          rw [List.append_assoc, List.singleton_append, whole]
        exact (each done x s ⟨rest, split⟩ now).bind fun middle next =>
          ih (done ++ [x]) middle split next
  exact along xs [] s rfl start

theorem Keeps.bind {P : σ → Prop} {m n : Step ε σ} (first : Keeps P m) (second : Keeps P n) :
    Keeps P fun s => m s >>= n := by
  intro s hs
  refine ⟨fun s' run => ?_, fun r run => ?_⟩
  · obtain ⟨middle, head, tail⟩ := bind_ok.mp run
    exact (second middle ((first s hs).1 middle head)).1 s' tail
  · rcases bind_error.mp run with head | ⟨middle, head, tail⟩
    · exact (first s hs).2 r head
    · exact (second middle ((first s hs).1 middle head)).2 r tail

theorem KeepsOn.foldlM {view : τ → σ} {P : σ → Prop} {f : τ → α → Except (Raised ε σ) τ}
    {xs : List α} (each : ∀ x ∈ xs, KeepsOn view P fun s => f s x) :
    KeepsOn view P fun s => xs.foldlM f s := by
  induction xs with
  | nil =>
      intro s hs
      refine ⟨fun s' run => ?_, fun r run => ?_⟩
      · cases run
        exact hs
      · cases run
  | cons x xs ih =>
      intro s hs
      have tail := ih fun y member => each y (List.mem_cons_of_mem _ member)
      have head := each x (List.mem_cons_self ..) s hs
      refine ⟨fun s' run => ?_, fun r run => ?_⟩
      · simp only [List.foldlM_cons, bind_ok] at run
        obtain ⟨middle, first, rest⟩ := run
        exact (tail middle (head.1 middle first)).1 s' rest
      · simp only [List.foldlM_cons, bind_error] at run
        rcases run with first | ⟨middle, first, rest⟩
        · exact head.2 r first
        · exact (tail middle (head.1 middle first)).2 r rest

theorem Keeps.foldlM {P : σ → Prop} {f : σ → α → Except (Raised ε σ) σ} {xs : List α}
    (each : ∀ x ∈ xs, Keeps P fun s => f s x) : Keeps P fun s => xs.foldlM f s :=
  KeepsOn.foldlM each

/-- A loop whose body returns on every element returns. -/
theorem foldlM_total {P : σ → Prop} {f : σ → α → Except ε σ} {xs : List α}
    (each : ∀ x ∈ xs, ∀ s, P s → ∃ s', f s x = .ok s' ∧ P s') (s : σ) (hs : P s) :
    ∃ s', xs.foldlM f s = .ok s' ∧ P s' := by
  induction xs generalizing s with
  | nil => exact ⟨s, rfl, hs⟩
  | cons x xs ih =>
      obtain ⟨middle, first, keeps⟩ := each x (List.mem_cons_self ..) s hs
      obtain ⟨final, rest, done⟩ :=
        ih (fun y member => each y (List.mem_cons_of_mem _ member)) middle keeps
      exact ⟨final, by rw [List.foldlM_cons, first]; exact rest, done⟩

/-- The loop rule, with an invariant that speaks of the elements done. -/
theorem foldlM_ok {P : List α → σ → Prop} {f : σ → α → Except ε σ} {xs : List α}
    (each : ∀ done x s s', done ++ [x] <+: xs → P done s → f s x = .ok s' → P (done ++ [x]) s')
    {s s' : σ} (start : P [] s) (run : xs.foldlM f s = .ok s') : P xs s' := by
  have along : ∀ (rest done : List α) (s : σ), done ++ rest = xs → P done s →
      rest.foldlM f s = .ok s' → P xs s' := by
    intro rest
    induction rest with
    | nil =>
        intro done s whole now run
        cases run
        rw [List.append_nil] at whole
        exact whole ▸ now
    | cons x rest ih =>
        intro done s whole now run
        simp only [List.foldlM_cons, bind_ok] at run
        obtain ⟨middle, first, run⟩ := run
        have split : (done ++ [x]) ++ rest = xs := by
          rw [List.append_assoc, List.singleton_append, whole]
        exact ih (done ++ [x]) middle split (each done x s middle ⟨rest, split⟩ now first) run
  exact along xs [] s rfl start run

/-- A loop raises in the first round that raises. -/
theorem foldlM_error {f : σ → α → Except ε σ} {xs : List α} {s : σ} {e : ε}
    (run : xs.foldlM f s = .error e) :
    ∃ k x s', xs[k]? = some x ∧ (xs.take k).foldlM f s = .ok s' ∧ f s' x = .error e := by
  induction xs generalizing s with
  | nil => cases run
  | cons x xs ih =>
      rw [List.foldlM_cons] at run
      rcases bind_error.mp run with failed | ⟨middle, first, rest⟩
      · exact ⟨0, x, s, rfl, rfl, failed⟩
      · obtain ⟨k, y, s', at_k, before, failed⟩ := ih rest
        refine ⟨k + 1, y, s', at_k, ?_, failed⟩
        rw [List.take_succ_cons, List.foldlM_cons, first]
        exact before

/-- A loop whose rounds are rounds of another, seen through `view`. -/
theorem foldlM_view {ε' : Type} (view : τ → σ) {f : τ → α → Except ε' τ}
    {g : σ → α → Except ε σ} (each : ∀ x t t', f t x = .ok t' → g (view t) x = .ok (view t'))
    {xs : List α} {t t' : τ} (run : xs.foldlM f t = .ok t') :
    xs.foldlM g (view t) = .ok (view t') := by
  induction xs generalizing t with
  | nil =>
      cases run
      rfl
  | cons x xs ih =>
      rw [List.foldlM_cons] at run ⊢
      obtain ⟨middle, first, rest⟩ := bind_ok.mp run
      rw [each x t middle first]
      exact ih rest

theorem mapM_ok_of_each {f : α → Except ε β} {g : α → β} {xs : List α}
    (each : ∀ x ∈ xs, f x = .ok (g x)) : xs.mapM f = .ok (xs.map g) := by
  induction xs with
  | nil => rfl
  | cons x xs ih =>
      rw [List.mapM_cons, each x (List.mem_cons_self ..),
        ih fun y member => each y (List.mem_cons_of_mem _ member)]
      rfl

theorem forM_ok {f : α → Except ε PUnit} {xs : List α} :
    xs.forM f = .ok () ↔ ∀ x ∈ xs, f x = .ok () := by
  induction xs with
  | nil => simp [pure, Except.pure]
  | cons x xs ih =>
      have unroll : (x :: xs).forM f = f x >>= fun _ => xs.forM f := rfl
      rw [unroll, bind_ok, List.forall_mem_cons, ← ih]
      exact ⟨fun ⟨_, first, rest⟩ => ⟨first, rest⟩, fun ⟨first, rest⟩ => ⟨(), first, rest⟩⟩

end Raising
