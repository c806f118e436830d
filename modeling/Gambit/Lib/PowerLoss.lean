import Mathlib.Tactic

/-!
# What is left when a program stops

A program has performed the operations of a log, each with an effect on the
disk, and some of them flush others.  A process that dies leaves a prefix in
whole, the operation it was at perhaps in part.  A loss of power leaves each
operation in whole, or, where nothing later has flushed it, in part.
-/

set_option autoImplicit false

namespace PowerLoss

variable {Op σ : Type} (effect : Op → σ → σ) (torn : Op → σ → σ → Prop)

/-- What a process leaves that dies while it performs a log. -/
inductive Killed : List Op → σ → σ → Prop where
  | before (log : List Op) (s : σ) : Killed log s s
  | during {op : Op} {rest : List Op} {s t : σ} (part : torn op s t) : Killed (op :: rest) s t
  | after {op : Op} {rest : List Op} {s t : σ} (onward : Killed rest (effect op s) t) :
      Killed (op :: rest) s t

/-- What a loss of power leaves after the operations of a log; `torn` says what part of
an operation there can be, none of it included. -/
inductive Crashed (flushes : Op → Op → Prop) : List Op → σ → σ → Prop where
  | done (s : σ) : Crashed flushes [] s s
  | whole {op : Op} {rest : List Op} {s t : σ} (onward : Crashed flushes rest (effect op s) t) :
      Crashed flushes (op :: rest) s t
  | part {op : Op} {rest : List Op} {s middle t : σ}
      (unflushed : ∀ later ∈ rest, ¬ flushes later op) (part : torn op s middle)
      (onward : Crashed flushes rest middle t) : Crashed flushes (op :: rest) s t

/-- The disk after the whole log. -/
def replay (log : List Op) (s : σ) : σ := log.foldl (fun s op => effect op s) s

variable {effect torn} {flushes : Op → Op → Prop} {log first second : List Op} {s t : σ}

theorem replay_append : replay effect (first ++ second) s = replay effect second (replay effect first s) :=
  List.foldl_append

/-! ## Death of the process -/

theorem Killed.cases_append (killed : Killed effect torn (first ++ second) s t) :
    Killed effect torn first s t ∨ Killed effect torn second (replay effect first s) t := by
  induction first generalizing s with
  | nil => exact .inr killed
  | cons op first ih =>
      cases killed with
      | before => exact .inl (.before _ _)
      | during part => exact .inl (.during part)
      | after onward => exact (ih onward).imp_left .after

theorem Killed.replayed (log : List Op) (s : σ) : Killed effect torn log s (replay effect log s) := by
  induction log generalizing s with
  | nil => exact .before [] s
  | cons op log ih => exact .after (ih _)

/-- A property that no operation of the log breaks, in whole or in part. -/
theorem Killed.keeps {P : σ → Prop} (killed : Killed effect torn log s t) (start : P s)
    (whole : ∀ op ∈ log, ∀ s, P s → P (effect op s))
    (part : ∀ op ∈ log, ∀ s t, P s → torn op s t → P t) : P t := by
  induction killed with
  | before => exact start
  | during torn => exact part _ List.mem_cons_self _ _ start torn
  | after _ ih =>
      exact ih (whole _ List.mem_cons_self _ start)
        (fun op member => whole op (List.mem_cons_of_mem _ member))
        (fun op member => part op (List.mem_cons_of_mem _ member))

theorem replay_keeps {P : σ → Prop} (start : P s) (whole : ∀ op ∈ log, ∀ s, P s → P (effect op s)) :
    P (replay effect log s) := by
  induction log generalizing s with
  | nil => exact start
  | cons op log ih =>
      exact ih (whole op List.mem_cons_self s start)
        fun op member => whole op (List.mem_cons_of_mem _ member)

/-! ## Loss of power -/

theorem Crashed.keeps {P : σ → Prop} (crashed : Crashed effect torn flushes log s t) (start : P s)
    (whole : ∀ op ∈ log, ∀ s, P s → P (effect op s))
    (part : ∀ op ∈ log, ∀ s t, P s → torn op s t → P t) : P t := by
  induction crashed with
  | done => exact start
  | whole _ ih =>
      exact ih (whole _ List.mem_cons_self _ start)
        (fun op member => whole op (List.mem_cons_of_mem _ member))
        (fun op member => part op (List.mem_cons_of_mem _ member))
  | part _ torn _ ih =>
      exact ih (part _ List.mem_cons_self _ _ start torn)
        (fun op member => whole op (List.mem_cons_of_mem _ member))
        (fun op member => part op (List.mem_cons_of_mem _ member))

/-- Nothing of the first operations has been lost. -/
theorem Crashed.after_replay (crashed : Crashed effect torn flushes second (replay effect first s) t) :
    Crashed effect torn flushes (first ++ second) s t := by
  induction first generalizing s with
  | nil => exact crashed
  | cons op first ih => exact .whole (ih crashed)

/-- What an operation establishes and no later one breaks is there if it was flushed. -/
theorem Crashed.flushed {P : σ → Prop} {op : Op} {rest : List Op}
    (crashed : Crashed effect torn flushes (first ++ op :: rest) s t)
    (flush : ∃ later ∈ rest, flushes later op) (establishes : ∀ s, P (effect op s))
    (whole : ∀ op ∈ rest, ∀ s, P s → P (effect op s))
    (part : ∀ op ∈ rest, ∀ s t, P s → torn op s t → P t) : P t := by
  induction first generalizing s with
  | nil =>
      obtain ⟨later, member, flush⟩ := flush
      cases crashed with
      | whole onward => exact onward.keeps (establishes _) whole part
      | part unflushed => exact absurd flush (unflushed later member)
  | cons op first ih =>
      cases crashed with
      | whole onward => exact ih onward
      | part _ _ onward => exact ih onward

end PowerLoss
