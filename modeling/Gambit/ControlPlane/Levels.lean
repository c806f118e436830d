import Mathlib.Tactic

/-!
# The levels of the control plane

What a limit, a budget or an override of control_plane.py speaks of.
-/

set_option autoImplicit false

namespace Gambit

inductive ControlLevel where
  | portfolio | strategy | group | instrument
deriving DecidableEq, Repr

end Gambit
