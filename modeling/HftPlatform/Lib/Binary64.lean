import Mathlib.Algebra.Order.Field.Rat
import Mathlib.Data.Nat.Log
import Mathlib.Data.Rat.Floor
import Mathlib.Tactic.Linarith

/-!
# Double-precision values, up to a rounding

A `Binary64` is a NaN, an infinity of either sign, or a finite value. Comparisons follow
IEEE 754 exactly (every comparison with a NaN is false, `max` returns the operand that is
not a NaN). Arithmetic computes the exact rational result and hands it to a `Rounding`,
so one development covers both readings of a program that computes with doubles:

* `Rounding.exact` keeps every result, which is exact arithmetic with the special values;
* `Rounding.nearestEven` rounds to 53 significant bits, ties to even, with gradual
  underflow and overflow to an infinity, which is the arithmetic of the hardware.

A finite value is any rational, so a statement about all of `Binary64` covers the
representable ones. The sign of a zero is not kept.

## Main results

* `Rounding.round_le_zero`: the sign rule that holds under every rounding.
-/

namespace Lib

/-- A double: a NaN, an infinity (`inf true` is the negative one), or a finite value. -/
inductive Binary64
  | nan
  | inf (neg : Bool)
  | fin (q : ℚ)
  deriving DecidableEq, Repr

namespace Binary64

/-- The literal `0.0`. -/
def zero : Binary64 := fin 0

/-- IEEE `<`: false as soon as one side is a NaN. -/
def lt : Binary64 → Binary64 → Bool
  | fin a, fin b => a < b
  | fin _, inf s => !s
  | inf s, fin _ => s
  | inf s, inf t => s && !t
  | nan, _ => false
  | _, nan => false

/-- IEEE `<=`: false as soon as one side is a NaN. -/
def le : Binary64 → Binary64 → Bool
  | fin a, fin b => a ≤ b
  | fin _, inf s => !s
  | inf s, fin _ => s
  | inf s, inf t => s || !t
  | nan, _ => false
  | _, nan => false

/-- IEEE `>`. -/
def gt (x y : Binary64) : Bool := lt y x

/-- Negation flips the sign and keeps a NaN. -/
def neg : Binary64 → Binary64
  | nan => nan
  | inf s => inf (!s)
  | fin q => fin (-q)

@[simp] theorem neg_neg_self (x : Binary64) : x.neg.neg = x := by
  cases x <;> simp [neg]

/-- The larger operand; a NaN operand is ignored. -/
def max (x y : Binary64) : Binary64 :=
  match x, y with
  | nan, y => y
  | x, nan => x
  | x, y => if lt x y then y else x

/-- The number that a finite value is; zero for the others. -/
def toRat : Binary64 → ℚ
  | fin q => q
  | _ => 0

/-- A value that is zero, positive, or `+∞`. -/
def Nonneg (x : Binary64) : Prop := le zero x = true

instance (x : Binary64) : Decidable (Nonneg x) := inferInstanceAs (Decidable (_ = _))

@[simp] theorem nonneg_fin {q : ℚ} : Nonneg (fin q) ↔ 0 ≤ q := by simp [Nonneg, le, zero]

@[simp] theorem nonneg_inf {s : Bool} : Nonneg (inf s) ↔ s = false := by simp [Nonneg, le, zero]

@[simp] theorem not_nonneg_nan : ¬ Nonneg nan := by simp [Nonneg, le, zero]

/-- Strictly positive values are nonnegative. -/
theorem nonneg_of_zero_lt {x : Binary64} (h : lt zero x = true) : Nonneg x := by
  cases x with
  | nan => simp [lt, zero] at h
  | inf s => simpa [lt, zero] using h
  | fin q =>
      simp only [lt, zero, decide_eq_true_eq] at h
      exact nonneg_fin.mpr h.le

/-- The negative of a nonnegative value compares `<= 0.0`. -/
theorem neg_le_zero {x : Binary64} (h : Nonneg x) : le x.neg zero = true := by
  cases x with
  | nan => simp at h
  | inf s =>
      rw [nonneg_inf] at h
      simp [h, neg, le, zero]
  | fin q =>
      rw [nonneg_fin] at h
      simpa [neg, le, zero] using h

end Binary64

open Binary64

/-- A way to deliver the exact rational result of an operation as a double. The sign is
kept, and the two signs are treated alike. -/
structure Rounding where
  round : ℚ → Binary64
  round_nonneg : ∀ q, 0 ≤ q → Nonneg (round q)
  round_neg : ∀ q, round (-q) = (round q).neg

namespace Rounding

variable (R : Rounding)

/-- A decimal literal of the program text. -/
def lit (q : ℚ) : Binary64 := R.round q

/-- Addition, with the invalid `∞ - ∞`. -/
def add : Binary64 → Binary64 → Binary64
  | fin a, fin b => R.round (a + b)
  | inf s, inf t => if s = t then inf s else nan
  | inf s, fin _ => inf s
  | fin _, inf s => inf s
  | nan, _ => nan
  | _, nan => nan

/-- Subtraction is addition of the negated operand. -/
def sub (x y : Binary64) : Binary64 := R.add x y.neg

/-- Multiplication, with the invalid `0 * ∞`. -/
def mul : Binary64 → Binary64 → Binary64
  | fin a, fin b => R.round (a * b)
  | inf s, inf t => inf (s != t)
  | inf s, fin q => if q = 0 then nan else inf (s != decide (q < 0))
  | fin q, inf s => if q = 0 then nan else inf (s != decide (q < 0))
  | nan, _ => nan
  | _, nan => nan

/-- Division, with the invalid `0 / 0` and `∞ / ∞`. -/
def div : Binary64 → Binary64 → Binary64
  | fin a, fin b =>
      if b = 0 then (if a = 0 then nan else inf (decide (a < 0))) else R.round (a / b)
  | inf _, inf _ => nan
  | inf s, fin q => inf (s != decide (q < 0))
  | fin _, inf _ => fin 0
  | nan, _ => nan
  | _, nan => nan

/-- A rounding delivers a value `<= 0.0` for a rational that is not positive. -/
theorem round_le_zero {q : ℚ} (hq : q ≤ 0) : le (R.round q) zero = true := by
  have h : R.round q = (R.round (-q)).neg := by rw [← R.round_neg, neg_neg]
  rw [h]
  exact neg_le_zero (R.round_nonneg _ (by linarith))

/-- Exact arithmetic: every rational result is delivered as it is. -/
def exact : Rounding where
  round := fin
  round_nonneg _ h := nonneg_fin.mpr h
  round_neg _ := rfl

/-- The rounding keeps the value. -/
def Represents (x : Binary64) : Prop := ∀ q, x = fin q → R.round q = x

/-! ### Round to nearest, ties to even -/

/-- The exponent `⌊log_b q⌋` of a positive rational. -/
def exponent (b : ℕ) (q : ℚ) : ℤ :=
  let e : ℤ := (Nat.log b q.num.natAbs : ℤ) - Nat.log b q.den
  if q < (b : ℚ) ^ e then e - 1 else e

/-- The integer nearest to `q`, the even one of two equally near. -/
def halfEven (q : ℚ) : ℤ :=
  let f := ⌊q⌋
  if q - f < 1 / 2 then f
  else if 1 / 2 < q - f then f + 1
  else if f % 2 = 0 then f else f + 1

/-- Rounding of a magnitude: 53 significant bits, no exponent below `-1074`, and `+∞` from
`2 ^ 1024` on. -/
def nearestEvenMag (q : ℚ) : Binary64 :=
  let e := Max.max (exponent 2 q - 52) (-1074)
  let v : ℚ := (halfEven (q / (2 : ℚ) ^ e)).natAbs * (2 : ℚ) ^ e
  if (2 : ℚ) ^ 1024 ≤ v then inf false else fin v

/-- A rounded magnitude is nonnegative. -/
theorem nearestEvenMag_nonneg (q : ℚ) : Nonneg (nearestEvenMag q) := by
  simp only [nearestEvenMag]
  split
  · simp
  · exact nonneg_fin.mpr (mul_nonneg (Nat.cast_nonneg _) (zpow_nonneg (by norm_num) _))

/-- The magnitude of zero rounds to zero. -/
theorem nearestEvenMag_zero : nearestEvenMag 0 = fin 0 := by
  simp [nearestEvenMag, halfEven]

/-- The arithmetic of the hardware: round to nearest, ties to even. -/
def nearestEven : Rounding where
  round q := if q < 0 then (nearestEvenMag (-q)).neg else nearestEvenMag q
  round_nonneg q hq := by
    rw [if_neg hq.not_gt]
    exact nearestEvenMag_nonneg q
  round_neg q := by
    rcases lt_trichotomy q 0 with h | rfl | h
    · rw [if_neg (by linarith), if_pos h]
      cases nearestEvenMag (-q) <;> simp [neg]
    · simp [nearestEvenMag_zero, neg]
    · rw [if_pos (by linarith), if_neg h.not_gt, neg_neg]

/-- One third is delivered as the double nearest to it. -/
example : nearestEven.round (1 / 3) = fin (6004799503160661 / 2 ^ 54) := by decide +kernel

end Rounding

end Lib
