import Mathlib.Tactic

/-!
# The front of a queue

Volume served to a queue first uses up what stands ahead of us and then fills
us.  After any volume, what is ahead and what is filled depend on the total
alone, however it was split.
-/

set_option autoImplicit false

namespace QueueFront

structure Front where
  ahead : Int
  filled : Int

namespace Front

/-- Where `size` lots stand that joined behind `joined`, after `volume`. -/
def after (joined size volume : Int) : Front where
  ahead := max 0 (joined - volume)
  filled := min size (max 0 (volume - joined))

/-- One trade: the part that passes what is ahead fills what is left. -/
def serve (size : Int) (front : Front) (traded : Int) : Front where
  ahead := front.ahead - min front.ahead traded
  filled := front.filled + min (size - front.filled) (traded - min front.ahead traded)

section

variable {joined size volume traded : Int}

theorem after_zero (joinedNonneg : 0 ≤ joined) (sizeNonneg : 0 ≤ size) :
    after joined size 0 = ⟨joined, 0⟩ := by
  simp only [after, mk.injEq]
  omega

theorem serve_after (tradedNonneg : 0 ≤ traded) :
    (after joined size volume).serve size traded = after joined size (volume + traded) := by
  simp only [after, serve, mk.injEq]
  omega

/-- Once we are filled, further volume changes nothing. -/
theorem after_add_of_filled (sizePos : 0 < size) (tradedNonneg : 0 ≤ traded)
    (full : (after joined size volume).filled = size) :
    after joined size (volume + traded) = after joined size volume := by
  simp only [after] at full
  simp only [after, mk.injEq]
  omega

end

end Front

end QueueFront
