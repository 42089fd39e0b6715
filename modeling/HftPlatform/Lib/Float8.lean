import HftPlatform.Lib.Numeric

/-!
# The database's double-precision operators

An expression over `float8` operands computes as IEEE 754 does, except that a result that
overflows, a product or quotient that underflows, and a division by zero are errors of the
statement. An expression that mixes a `NUMERIC` column and a `float8` parameter is of this
kind: the column's value is taken as a double first.

## Main results

* `add_exact`, `mul_exact`, `div_exact`: in exact arithmetic none of these errors occurs.
-/

namespace Lib

namespace Float8

open Binary64

variable (R : Rounding)

/-- The operand or result is an infinity. -/
def isInf : Binary64 → Bool
  | inf _ => true
  | _ => false

/-- `float8 + float8`. -/
def add (x y : Binary64) : Except PgError Binary64 :=
  if isInf (R.add x y) && !isInf x && !isInf y then .error .floatOutOfRange
  else .ok (R.add x y)

/-- `float8 * float8`. -/
def mul (x y : Binary64) : Except PgError Binary64 :=
  if isInf (R.mul x y) && !isInf x && !isInf y then .error .floatOutOfRange
  else if R.mul x y = zero ∧ x ≠ zero ∧ y ≠ zero then .error .floatOutOfRange
  else .ok (R.mul x y)

/-- `float8 / float8`. -/
def div (x y : Binary64) : Except PgError Binary64 :=
  if y = zero ∧ x ≠ nan then .error .divisionByZero
  else if isInf (R.div x y) && !isInf x then .error .floatOutOfRange
  else if R.div x y = zero ∧ x ≠ zero ∧ isInf y = false then .error .floatOutOfRange
  else .ok (R.div x y)

/-! ### Exact arithmetic -/

/-- Exact sums never overflow. -/
theorem add_exact (x y : Binary64) : add Rounding.exact x y = .ok (Rounding.exact.add x y) := by
  rw [add, if_neg]
  cases x <;> cases y <;> simp [Rounding.add, Rounding.exact, isInf]

/-- Exact products neither overflow nor underflow. -/
theorem mul_exact (x y : Binary64) : mul Rounding.exact x y = .ok (Rounding.exact.mul x y) := by
  have hrange : ¬ (isInf (Rounding.exact.mul x y) && !isInf x && !isInf y) = true := by
    cases x <;> cases y <;> simp [Rounding.mul, Rounding.exact, isInf]
  have hzero : ¬ (Rounding.exact.mul x y = zero ∧ x ≠ zero ∧ y ≠ zero) := by
    rintro ⟨hprod, hx, hy⟩
    cases x <;> cases y <;> simp_all [Rounding.mul, Rounding.exact, zero]
  rw [mul, if_neg hrange, if_neg hzero]

/-- Exact quotients by anything but zero are what they are. -/
theorem div_exact (x : Binary64) {y : Binary64} (hy : y ≠ zero) :
    div Rounding.exact x y = .ok (Rounding.exact.div x y) := by
  have hrange : ¬ (isInf (Rounding.exact.div x y) && !isInf x) = true := by
    cases x <;> cases y <;> simp_all [Rounding.div, Rounding.exact, isInf, zero]
  have hzero : ¬ (Rounding.exact.div x y = zero ∧ x ≠ zero ∧ isInf y = false) := by
    rintro ⟨hquot, hx, hfin⟩
    cases x <;> cases y <;> simp_all [Rounding.div, Rounding.exact, zero, isInf]
  rw [div, if_neg (fun h => hy h.1), if_neg hrange, if_neg hzero]

end Float8

end Lib
