import Std.Do
import Std.Tactic.Do

/-!
# Runs of actions that may throw

An action over a state returns a value or throws; both leave a state.  A triple
about the action is a statement about its run from every state that meets the
precondition.
-/

set_option autoImplicit false

namespace Triples

open Std.Do

variable {ε σ α : Type} {Q : α → σ → Prop} {E : ε → σ → Prop}

/-- A run ends in a value as `Q` describes or in an error as `E` describes. -/
def Ends (Q : α → σ → Prop) (E : ε → σ → Prop) : Except ε α × σ → Prop
  | (.ok value, after) => Q value after
  | (.error error, after) => E error after

theorem Ends.of_ok {outcome : Except ε α × σ} (ends : Ends Q E outcome) {value : α} {after : σ}
    (run : outcome = (.ok value, after)) : Q value after := by
  rw [run] at ends
  exact ends

theorem Ends.of_error {outcome : Except ε α × σ} (ends : Ends Q E outcome) {error : ε}
    {after : σ} (run : outcome = (.error error, after)) : E error after := by
  rw [run] at ends
  exact ends

theorem ends_of_triple {action : ExceptT ε (StateM σ) α} {P : σ → Prop}
    (triple : ⦃fun s => ⌜P s⌝⦄ action
      ⦃post⟨fun value s => ⌜Q value s⌝, fun error s => ⌜E error s⌝⟩⦄)
    {s : σ} (before : P s) : Ends Q E (action.run.run s) := by
  apply @StateM.of_wp_run_eq _ _ (action.run.run s) s action.run rfl
  have outcome := triple s before
  simp only [WP.wp, PredTrans.apply_pushExcept] at outcome
  intro _
  refine (wp action.run).mono _
    (PostCond.noThrow fun result after => ⌜Ends Q E (result, after)⌝) ?_ s outcome
  refine ⟨fun result => ?_, ExceptConds.entails.refl _⟩
  cases result with
  | ok value => exact fun _ held => held
  | error error => exact fun _ held => held

end Triples
