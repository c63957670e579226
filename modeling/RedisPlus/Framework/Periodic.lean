import Mathlib.Algebra.Order.Group.Defs
import Mathlib.Data.List.Chain

/-!
# Work that is due after a period

Something is to be done every `p`, by a loop that now and then reads a clock: at a reading `t` it is done
if the last time is `p` ago or more (`due`). `fires` are the times at which it is done: two consecutive ones
are `p` apart or more, and less than `p + D` if no two readings are further apart than `D` (`fires_spaced`).
-/

namespace Framework.Periodic

variable {τ : Type} [AddCommGroup τ] [LinearOrder τ]

/-- At least a period has passed since `last`. -/
def due (p last t : τ) : Bool := decide (p ≤ t - last)

/-- The readings at which the timer fires. -/
def fires (p : τ) : τ → List τ → List τ
  | _, [] => []
  | last, t :: ts => if due p last t then t :: fires p t ts else fires p last ts

/-- Two consecutive times are a period apart, and not much more if the clock is read often: `now` is the
reading before, when it was not due. -/
theorem fires_spaced [IsOrderedAddMonoid τ] {p D : τ} (hp : 0 < p) : ∀ (last now : τ) (ts : List τ),
    now - last < p → (now :: ts).IsChain (fun a b => b - a ≤ D) →
    (last :: fires p last ts).IsChain fun a b => p ≤ b - a ∧ b - a < p + D
  | _, _, [], _, _ => .singleton _
  | last, now, t :: ts, hnow, hts => by
    rw [List.isChain_cons_cons] at hts
    rw [fires]
    split
    · rename_i h
      refine .cons_cons ⟨by simpa [due] using h, ?_⟩ (fires_spaced hp t t ts (by rwa [sub_self]) hts.2)
      calc t - last = (now - last) + (t - now) := (sub_add_sub_cancel' now last t).symm
        _ < p + D := add_lt_add_of_lt_of_le hnow hts.1
    · rename_i h
      exact fires_spaced hp last t ts (by simpa [due] using h) hts.2

end Framework.Periodic
