import HftPlatform.Lib.Binary64
import Mathlib.Algebra.Order.Monoid.WithTop
import Mathlib.Data.Int.ConditionallyCompleteOrder
import Mathlib.Tactic.NormNum

/-!
# Fixed-point columns

A `NUMERIC(p, s)` column of a SQL database holds an integer number of units of `10⁻ˢ`
with fewer than `p` digits, or `NaN`. The database orders `NaN` above every number and
lets it absorb every sum, so the value type is `WithTop ℤ`, with `⊤` for `NaN` and the
addition of `WithTop`.

A double bound to such a column is first printed, with a number of significant digits that the
database fixes, and then rounded to scale, ties away from zero; a value with too many digits, or
an infinity, is refused. Exact arithmetic prints all digits.

## Main results

* `halfAway_neg`, `halfAway_nonneg`: rounding to scale treats the two signs alike.
* `halfAway_two_fifths`: a split whose parts, each rounded to scale, add up to the whole.
* `ofFloat8_neg`: a column stores the negative of a value as the negative of what it stores
  for the value, and refuses both or neither.
* `ofFloat8_nonneg`: a nonnegative value is stored as a nonnegative number.
-/

namespace Lib

open Binary64

/-- What a statement of the database fails with. -/
inductive PgError
  | numericFieldOverflow
  | floatOutOfRange
  | divisionByZero
  | invalidByteSequence
  | uniqueViolation (constraint : String)
  deriving DecidableEq, Repr

/-- A value of a fixed-point column, in units of its scale; `⊤` is `NaN`. -/
abbrev Numeric := WithTop ℤ

namespace Numeric

/-- The integer nearest to `q`, ties away from zero. -/
def halfAway (q : ℚ) : ℤ :=
  if 0 ≤ q then ⌊q + 1 / 2⌋ else -⌊-q + 1 / 2⌋

/-- Rounding to scale is odd. -/
theorem halfAway_neg (q : ℚ) : halfAway (-q) = -halfAway q := by
  rcases lt_trichotomy q 0 with h | rfl | h
  · rw [halfAway, halfAway, if_pos (by linarith), if_neg h.not_ge, neg_neg]
  · norm_num [halfAway]
  · rw [halfAway, halfAway, if_neg (by linarith), if_pos h.le, neg_neg]

/-- Rounding to scale keeps nonnegative values nonnegative. -/
theorem halfAway_nonneg {q : ℚ} (hq : 0 ≤ q) : 0 ≤ halfAway q := by
  rw [halfAway, if_pos hq]
  exact Int.floor_nonneg.mpr (by linarith)

/-- Rounding to scale keeps integers. -/
theorem halfAway_intCast (n : ℤ) : halfAway (n : ℚ) = n := by
  rw [halfAway]
  split
  · exact Int.floor_eq_iff.mpr ⟨by linarith, by linarith⟩
  · rw [neg_eq_iff_eq_neg]
    exact Int.floor_eq_iff.mpr ⟨by push_cast; linarith, by push_cast; linarith⟩

/-- Rounding to scale keeps the order. -/
theorem halfAway_mono {x y : ℚ} (hxy : x ≤ y) : halfAway x ≤ halfAway y := by
  have hpos : ∀ {a b : ℚ}, 0 ≤ a → a ≤ b → halfAway a ≤ halfAway b := fun ha hab => by
    rw [halfAway, halfAway, if_pos ha, if_pos (ha.trans hab)]
    exact Int.floor_le_floor (by linarith)
  rcases le_total 0 x with hx | hx
  · exact hpos hx hxy
  rcases le_total 0 y with hy | hy
  · have hneg : 0 ≤ halfAway (-x) := halfAway_nonneg (by linarith)
    rw [halfAway_neg] at hneg
    exact (by omega : halfAway x ≤ 0).trans (halfAway_nonneg hy)
  · have hneg : halfAway (-y) ≤ halfAway (-x) := hpos (by linarith) (by linarith)
    rw [halfAway_neg, halfAway_neg] at hneg
    omega

/-- A whole number of units split into two fifths and three fifths: neither part is halfway
between two units, and the rounded parts add up to the whole. -/
theorem halfAway_two_fifths {n : ℤ} (hn : 0 ≤ n) :
    halfAway (2 * n / 5) + halfAway (3 * n / 5) = n := by
  have hq : (0 : ℚ) ≤ n := by exact_mod_cast hn
  have htwo : (2 * n / 5 + 1 / 2 : ℚ) = ((4 * n + 5 : ℤ) : ℚ) / ((10 : ℕ) : ℚ) := by
    push_cast
    ring
  have hthree : (3 * n / 5 + 1 / 2 : ℚ) = ((6 * n + 5 : ℤ) : ℚ) / ((10 : ℕ) : ℚ) := by
    push_cast
    ring
  rw [halfAway, halfAway, if_pos (by positivity), if_pos (by positivity), htwo, hthree,
    Rat.floor_intCast_div_natCast, Rat.floor_intCast_div_natCast]
  omega

/-- The precision check of a column of `p` digits. -/
def checked (p : ℕ) (u : ℤ) : Except PgError Numeric :=
  if |u| < 10 ^ p then .ok u else .error .numericFieldOverflow

/-- A number passes the precision check exactly when it has fewer than `p` digits. -/
theorem checked_eq_ok_iff {p : ℕ} {u : ℤ} {x : Numeric} :
    checked p u = .ok x ↔ |u| < 10 ^ p ∧ x = u := by
  rw [checked]
  split
  · rename_i h
    rw [Except.ok.injEq]
    exact ⟨fun hx => ⟨h, hx.symm⟩, fun hx => hx.2.symm⟩
  · rename_i h
    exact ⟨fun hx => by simp at hx, fun hx => absurd hx.1 h⟩

/-- A magnitude printed with `d` significant decimal digits. -/
def significantMag (d : ℕ) (q : ℚ) : ℚ :=
  let e := Rounding.exponent 10 q - (d - 1)
  (Rounding.halfEven (q / (10 : ℚ) ^ e)).natAbs * (10 : ℚ) ^ e

/-- A number printed with `d` significant decimal digits. -/
def significant (d : ℕ) (q : ℚ) : ℚ :=
  if 0 ≤ q then significantMag d q else -significantMag d (-q)

/-- Printing with finitely many digits is odd. -/
theorem significant_neg (d : ℕ) (q : ℚ) : significant d (-q) = -significant d q := by
  rcases lt_trichotomy q 0 with h | rfl | h
  · rw [significant, significant, if_pos (by linarith), if_neg h.not_ge, neg_neg]
  · simp [significant, significantMag, Rounding.halfEven]
  · rw [significant, significant, if_neg (by linarith), if_pos h.le, neg_neg]

/-- Printing with finitely many digits keeps nonnegative numbers nonnegative. -/
theorem significant_nonneg {d : ℕ} {q : ℚ} (hq : 0 ≤ q) : 0 ≤ significant d q := by
  rw [significant, if_pos hq]
  exact mul_nonneg (Nat.cast_nonneg _) (zpow_nonneg (by norm_num) _)

/-- A number printed with `d` significant decimal digits, or with all its digits. -/
def printed (d : Option ℕ) (q : ℚ) : ℚ :=
  match d with
  | some d => significant d q
  | none => q

/-- Printing is odd. -/
theorem printed_neg (d : Option ℕ) (q : ℚ) : printed d (-q) = -printed d q := by
  cases d with
  | none => rfl
  | some d => exact significant_neg d q

/-- Printing keeps nonnegative numbers nonnegative. -/
theorem printed_nonneg {d : Option ℕ} {q : ℚ} (hq : 0 ≤ q) : 0 ≤ printed d q := by
  cases d with
  | none => exact hq
  | some d => exact significant_nonneg hq

/-- A double assigned to a column of `p` digits and scale `s`, by way of `d` printed digits. -/
def ofFloat8 (d : Option ℕ) (p s : ℕ) : Binary64 → Except PgError Numeric
  | nan => .ok ⊤
  | inf _ => .error .numericFieldOverflow
  | fin q => checked p (halfAway (printed d q * 10 ^ s))

/-- The double nearest to 123456789.123456789 loses its digits from the sixteenth on. -/
example : ofFloat8 (some 15) 20 8 (.fin (8285044871162741 / 2 ^ 26)) =
    .ok ((12345678912345700 : ℤ) : Numeric) := by decide +kernel

/-- A decimal number assigned to a column of `p` digits and scale `s`. -/
def ofDecimal (p s : ℕ) (q : ℚ) : Except PgError Numeric := checked p (halfAway (q * 10 ^ s))

/-- A column value of scale `s` taken as a double. -/
def toFloat8 (R : Rounding) (s : ℕ) (x : Numeric) : Binary64 :=
  match x with
  | ⊤ => nan
  | (u : ℤ) => R.round (u / 10 ^ s)

/-- The sum of two column values, checked again by the column it is assigned to. -/
def add (p : ℕ) (x y : Numeric) : Except PgError Numeric :=
  match x + y with
  | ⊤ => .ok ⊤
  | (u : ℤ) => checked p u

/-- The negative of a column value; `NaN` is its own. -/
def neg (x : Numeric) : Numeric := x.map (- ·)

@[simp] theorem neg_coe (u : ℤ) : neg (u : Numeric) = ((-u : ℤ) : Numeric) := rfl

/-- Zero is stored as zero. -/
theorem ofFloat8_zero {d : Option ℕ} {p s : ℕ} : ofFloat8 d p s .zero = .ok 0 := by
  have hzero : printed d 0 = 0 := by
    cases d <;> simp [printed, significant, significantMag, Rounding.halfEven]
  refine checked_eq_ok_iff.mpr ?_
  rw [hzero]
  norm_num [halfAway]

/-- The negative of a stored double is what the column stores for the negative double. -/
theorem ofFloat8_neg {d : Option ℕ} {p s : ℕ} {x : Binary64} {y : Numeric}
    (h : ofFloat8 d p s x = .ok y) : ofFloat8 d p s x.neg = .ok (neg y) := by
  cases x with
  | nan =>
      obtain rfl : y = ⊤ := by simpa [ofFloat8] using h.symm
      rfl
  | inf t => simp [ofFloat8] at h
  | fin q =>
      obtain ⟨hlt, rfl⟩ := checked_eq_ok_iff.mp h
      refine checked_eq_ok_iff.mpr ⟨?_, ?_⟩
      · rwa [printed_neg, neg_mul, halfAway_neg, abs_neg]
      · rw [printed_neg, neg_mul, halfAway_neg, neg_coe]

/-- What a column stores for a nonnegative double is a nonnegative number. -/
theorem ofFloat8_nonneg {d : Option ℕ} {p s : ℕ} {x : Binary64} {y : Numeric} (hx : Nonneg x)
    (h : ofFloat8 d p s x = .ok y) : ∃ u : ℤ, 0 ≤ u ∧ y = u := by
  cases x with
  | nan => simp at hx
  | inf t => simp [ofFloat8] at h
  | fin q =>
      obtain ⟨-, rfl⟩ := checked_eq_ok_iff.mp h
      rw [nonneg_fin] at hx
      have hs : (0 : ℚ) ≤ printed d q := printed_nonneg hx
      exact ⟨_, halfAway_nonneg (by positivity), rfl⟩

/-- The value is `NaN` or has fewer than `p` digits. -/
def Fits (p : ℕ) (x : Numeric) : Prop := ∀ u : ℤ, x = u → |u| < 10 ^ p

/-- A column accepts a sum exactly when it fits, and then stores the sum. -/
theorem add_eq_ok_iff {p : ℕ} {x y z : Numeric} :
    add p x y = .ok z ↔ Fits p (x + y) ∧ z = x + y := by
  rw [add]
  generalize x + y = w
  cases w using WithTop.recTopCoe with
  | top => simp [Fits, eq_comm]
  | coe u =>
      refine checked_eq_ok_iff.trans (and_congr_left fun _ => ?_)
      simp [Fits]

end Numeric

end Lib
