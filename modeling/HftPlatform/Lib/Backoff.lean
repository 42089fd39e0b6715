import Mathlib.Algebra.Group.Nat.Defs
import Mathlib.Data.Int.Notation
import Mathlib.Order.MinMax
import Mathlib.Order.Nat

/-!
# Exponential backoff

A delay doubles with each failure. The exponent is clamped, and the delay is capped, so that a
product which saturates at the cap or above never shows.

## Main results

* `backoff_saturating`: saturating arithmetic computes the exact delay.
* `backoff_mono`, `backoff_le_cap`, `le_backoff`: the delays grow, up to the cap.
-/

namespace Lib

/-- The delay after `n` failures: `base` times `2 ^ n`, where the exponent stays below `top`, but at
most the cap. -/
def backoff (base top cap n : ℕ) : ℕ := min (base * 2 ^ min n top) cap

variable {base top cap n m : ℕ}

/-- The cap bounds the delay. -/
theorem backoff_le_cap : backoff base top cap n ≤ cap := Nat.min_le_right _ _

/-- A product that saturates at the cap or above is capped in the same way. -/
theorem backoff_saturating (hcap : cap ≤ m) :
    min (min (base * 2 ^ min n top) m) cap = backoff base top cap n := by
  rw [backoff, min_assoc, min_eq_right hcap]

/-- The delay grows with the attempts. -/
theorem backoff_mono (h : n ≤ m) : backoff base top cap n ≤ backoff base top cap m := by
  have hexp : min n top ≤ min m top := by omega
  have hpow : 2 ^ min n top ≤ 2 ^ min m top := Nat.pow_le_pow_right (by omega) hexp
  exact min_le_min_right cap (Nat.mul_le_mul_left base hpow)

/-- The delay is not below the base, unless the cap is. -/
theorem le_backoff : min base cap ≤ backoff base top cap n := by
  have hbase : base ≤ base * 2 ^ min n top :=
    Nat.le_mul_of_pos_right base (Nat.two_pow_pos _)
  exact min_le_min_right cap hbase

end Lib
