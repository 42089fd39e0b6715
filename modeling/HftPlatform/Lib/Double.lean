import Mathlib.Data.Rat.Cast.Defs

/-!
# Programs over double-precision numbers

The operations that a program applies to its `f64` values, as a class. A function of the program
is written once, over any instance, and a statement about it says of which ones it holds: of
every reading of the arithmetic, or of exact arithmetic.

## Main definitions

* `Double`: the operations.
* `Double.sum`: the sum of a list, from left to right.
-/

namespace Lib

/-- The operations of double-precision arithmetic. -/
class Double (F : Type) extends Add F, Sub F, Mul F, Div F, Neg F where
  /-- A literal, or an integer that is converted. -/
  lit : ℚ → F
  nan : F
  infinity : F
  abs : F → F
  sqrt : F → F
  /-- The power with a whole exponent. -/
  pow : F → ℕ → F
  lt : F → F → Bool
  le : F → F → Bool
  /-- The larger operand; a NaN operand is ignored. -/
  max : F → F → F
  /-- The smaller operand; a NaN operand is ignored. -/
  min : F → F → F
  isFinite : F → Bool

namespace Double

variable {F : Type} [Double F]

/-- The sum of a list, from left to right. -/
def sum (xs : List F) : F := xs.foldl (· + ·) (lit 0)

end Double

end Lib
