import HftPlatform.Lib.Double
import Mathlib.Algebra.BigOperators.Group.List.Basic
import Mathlib.Algebra.Order.Field.Basic
import Mathlib.Algebra.Order.Field.Rat
import Mathlib.Data.Nat.Sqrt
import Mathlib.Data.Rat.Cast.CharZero
import Mathlib.Tactic.Linarith
import Mathlib.Tactic.Positivity

/-!
# Exact arithmetic with the special values

An `Extended` number over an ordered field is a NaN, an infinity of either sign, or a number of
the field. Operations on numbers are those of the field; the special values arise and propagate
as in IEEE 754. The sign of a zero is not kept. Square roots are those of the field, and a field
without them may carry an approximation, on which nothing depends but its sign.

## Main results

* `Extended.instAddCommMonoid`: sums depend on neither order nor grouping, special values included.
* `Extended.sum_eq`: the program's sum of a list is that of the monoid.
* `Extended.sum_of_nan_or_inf`, `Extended.sum_of_neg_inf`: the sums with special values.
* `Extended.neg_add_eq`, `Extended.mul_neg_eq`, `Extended.neg_div_eq`: a negation can be taken out
  of a sum, a product or a quotient, special values included.
* `Extended.NotNegative.mul`, `Extended.NotNegative.pow`: products and powers of values that are
  not negative are not negative, special values included.
-/

namespace Lib

/-- A NaN, an infinity (`inf true` is the negative one), or a number. -/
inductive Extended (K : Type)
  | nan
  | inf (neg : Bool)
  | fin (x : K)
  deriving DecidableEq, Repr

/-- A field with square roots, or with approximations of the right sign. -/
class SquareRoot (K : Type) [Zero K] [LT K] where
  sqrt : K → K
  sqrt_zero : sqrt 0 = 0
  sqrt_pos : ∀ x, 0 < x → 0 < sqrt x

/-- A rational square root, rounded down to the denominator of its argument. -/
instance : SquareRoot ℚ where
  sqrt q := if 0 < q then Nat.sqrt (q.num.natAbs * q.den) / q.den else 0
  sqrt_zero := if_neg (lt_irrefl 0)
  sqrt_pos q hq := by
    have hnum : q.num.natAbs ≠ 0 := Int.natAbs_ne_zero.mpr (Rat.num_pos.mpr hq).ne'
    have hroot : 0 < Nat.sqrt (q.num.natAbs * q.den) :=
      Nat.sqrt_pos.mpr (Nat.mul_pos (Nat.pos_of_ne_zero hnum) q.den_pos)
    have hden : (0 : ℚ) < q.den := by exact_mod_cast q.den_pos
    rw [if_pos hq]
    positivity

namespace Extended

section Operations

variable {K : Type} [Field K] [LinearOrder K] [SquareRoot K]

/-- Addition, with the invalid `∞ - ∞`. -/
def add : Extended K → Extended K → Extended K
  | fin a, fin b => fin (a + b)
  | inf s, inf t => if s = t then inf s else nan
  | inf s, fin _ => inf s
  | fin _, inf s => inf s
  | nan, _ => nan
  | _, nan => nan

/-- Negation keeps a NaN. -/
def neg : Extended K → Extended K
  | nan => nan
  | inf s => inf (!s)
  | fin a => fin (-a)

/-- Multiplication, with the invalid `0 * ∞`. -/
def mul : Extended K → Extended K → Extended K
  | fin a, fin b => fin (a * b)
  | inf s, inf t => inf (s != t)
  | inf s, fin a => if a = 0 then nan else inf (s != decide (a < 0))
  | fin a, inf s => if a = 0 then nan else inf (s != decide (a < 0))
  | nan, _ => nan
  | _, nan => nan

/-- Division, with the invalid `0 / 0` and `∞ / ∞`. -/
def div : Extended K → Extended K → Extended K
  | fin a, fin b =>
      if b = 0 then (if a = 0 then nan else inf (decide (a < 0))) else fin (a / b)
  | inf _, inf _ => nan
  | inf s, fin a => inf (s != decide (a < 0))
  | fin _, inf _ => fin 0
  | nan, _ => nan
  | _, nan => nan

/-- `<`, false as soon as one side is a NaN. -/
def lt : Extended K → Extended K → Bool
  | fin a, fin b => a < b
  | fin _, inf s => !s
  | inf s, fin _ => s
  | inf s, inf t => s && !t
  | nan, _ => false
  | _, nan => false

/-- `<=`, false as soon as one side is a NaN. -/
def le : Extended K → Extended K → Bool
  | fin a, fin b => a ≤ b
  | fin _, inf s => !s
  | inf s, fin _ => s
  | inf s, inf t => s || !t
  | nan, _ => false
  | _, nan => false

/-- Addition, with infinities and NaN. -/
instance : Add (Extended K) := ⟨add⟩

/-- Numbers with the special values as a model of the arithmetic. -/
instance : Double (Extended K) where
  sub x y := add x (neg y)
  mul := mul
  div := div
  neg := neg
  lit q := fin q
  nan := nan
  infinity := inf false
  abs
    | nan => nan
    | inf _ => inf false
    | fin a => fin |a|
  sqrt
    | nan => nan
    | inf s => if s then nan else inf false
    | fin a => if a < 0 then nan else fin (SquareRoot.sqrt a)
  pow x n :=
    if n = 0 then fin 1
    else match x with
      | nan => nan
      | inf s => inf (s && decide (n % 2 = 1))
      | fin a => fin (a ^ n)
  lt := lt
  le := le
  max x y :=
    match x, y with
    | nan, y => y
    | x, nan => x
    | x, y => if lt x y then y else x
  min x y :=
    match x, y with
    | nan, y => y
    | x, nan => x
    | x, y => if lt y x then y else x
  isFinite
    | fin _ => true
    | _ => false

end Operations

/-! ### Sums -/

section Sums

variable {K : Type} [Field K]

/-- Numbers are added as they are. -/
@[simp] theorem fin_add_fin (a b : K) : (fin a + fin b : Extended K) = fin (a + b) := rfl

/-- Zero is a number. -/
instance : Zero (Extended K) := ⟨fin 0⟩

/-- Zero as a number. -/
theorem zero_eq : (0 : Extended K) = fin 0 := rfl

/-- A NaN wherever it stands, or two infinities of different signs, make a sum a NaN; else an
infinity absorbs all numbers. -/
theorem add_assoc' (x y z : Extended K) : x + y + z = x + (y + z) := by
  show add (add x y) z = add x (add y z)
  rcases x with _ | (_ | _) | a <;> rcases y with _ | (_ | _) | b <;>
    rcases z with _ | (_ | _) | c <;> simp [add, add_assoc]

/-- Addition does not depend on the order of two values. -/
theorem add_comm' (x y : Extended K) : x + y = y + x := by
  show add x y = add y x
  rcases x with _ | (_ | _) | a <;> rcases y with _ | (_ | _) | b <;> simp [add, add_comm]

/-- Zero adds nothing. -/
theorem zero_add' (x : Extended K) : 0 + x = x := by
  show add (fin 0) x = x
  cases x <;> simp [add]

/-- **Sums depend on neither order nor grouping.** -/
instance instAddCommMonoid : AddCommMonoid (Extended K) where
  add_assoc := add_assoc'
  zero_add := zero_add'
  add_zero x := (add_comm' x 0).trans (zero_add' x)
  add_comm := add_comm'
  nsmul := nsmulRec

/-- Nothing that is added to a NaN or to a positive infinity makes it a number or a negative
infinity. -/
theorem add_of_nan_or_inf {x : Extended K} (h : x = nan ∨ x = inf false) (y : Extended K) :
    x + y = nan ∨ x + y = inf false := by
  rcases h with rfl | rfl
  · exact Or.inl rfl
  · cases y with
    | nan => exact Or.inl rfl
    | inf s => cases s <;> [exact Or.inr rfl; exact Or.inl rfl]
    | fin a => exact Or.inr rfl

/-- **A sum with a NaN or a positive infinity** is one of these. -/
theorem sum_of_nan_or_inf {xs : List (Extended K)} (h : ∃ x ∈ xs, x = nan ∨ x = inf false) :
    xs.sum = nan ∨ xs.sum = inf false := by
  induction xs with
  | nil => simp at h
  | cons x xs ih =>
      rw [List.sum_cons]
      obtain ⟨y, hy, hspecial⟩ := h
      rcases List.mem_cons.mp hy with rfl | hy
      · exact add_of_nan_or_inf hspecial _
      · rw [add_comm]
        exact add_of_nan_or_inf (ih ⟨y, hy, hspecial⟩) x

/-- A sum without a NaN or a positive infinity is a number or a negative infinity. -/
theorem sum_cases_of_forall {xs : List (Extended K)} (h : ∀ x ∈ xs, x ≠ nan ∧ x ≠ inf false) :
    (∃ a, xs.sum = fin a) ∨ xs.sum = inf true := by
  induction xs with
  | nil => exact Or.inl ⟨0, rfl⟩
  | cons x xs ih =>
      rw [List.sum_cons]
      obtain ⟨hx, hxs⟩ := List.forall_mem_cons.mp h
      rcases x with _ | (_ | _) | a
      · exact absurd rfl hx.1
      · exact absurd rfl hx.2
      · rcases ih hxs with ⟨b, hb⟩ | hb <;> rw [hb] <;> exact Or.inr rfl
      · rcases ih hxs with ⟨b, hb⟩ | hb
        · exact Or.inl ⟨a + b, by rw [hb, fin_add_fin]⟩
        · rw [hb]
          exact Or.inr rfl

/-- **A sum with a negative infinity**, and with neither a NaN nor a positive one, is negative
infinity. -/
theorem sum_of_neg_inf {xs : List (Extended K)} (h : ∀ x ∈ xs, x ≠ nan ∧ x ≠ inf false)
    (hinf : inf true ∈ xs) : xs.sum = inf true := by
  induction xs with
  | nil => simp at hinf
  | cons x xs ih =>
      rw [List.sum_cons]
      obtain ⟨hx, hxs⟩ := List.forall_mem_cons.mp h
      rcases List.mem_cons.mp hinf with rfl | hmem
      · rcases sum_cases_of_forall hxs with ⟨b, hb⟩ | hb <;> rw [hb] <;> rfl
      · rw [ih hxs hmem]
        rcases x with _ | (_ | _) | a
        · exact absurd rfl hx.1
        · exact absurd rfl hx.2
        · rfl
        · rfl

/-- A sum of numbers is a number. -/
@[simp] theorem sum_map_fin (xs : List K) : (xs.map fin).sum = (fin xs.sum : Extended K) := by
  induction xs with
  | nil => rfl
  | cons x xs ih => rw [List.map_cons, List.sum_cons, ih, fin_add_fin, List.sum_cons]

end Sums

section Exact

variable {K : Type} [Field K] [LinearOrder K] [SquareRoot K]

/-- The sum of a list, from left to right, is that of the monoid. -/
theorem sum_eq (xs : List (Extended K)) : Double.sum xs = xs.sum := by
  have hzero : (Double.lit 0 : Extended K) = 0 := congrArg fin Rat.cast_zero
  rw [Double.sum, hzero, List.sum_eq_foldl]

/-- Numbers are subtracted as they are. -/
@[simp] theorem sub_fin (a b : K) : (fin a - fin b : Extended K) = fin (a - b) :=
  congrArg fin (sub_eq_add_neg a b).symm

/-- Numbers are multiplied as they are. -/
@[simp] theorem mul_fin (a b : K) : (fin a * fin b : Extended K) = fin (a * b) := rfl

/-- Numbers are negated as they are. -/
@[simp] theorem neg_fin (a : K) : (-fin a : Extended K) = fin (-a) := rfl

/-- NaN stays NaN. -/
@[simp] theorem nan_mul (x : Extended K) : (nan * x : Extended K) = nan := by
  cases x <;> rfl

/-- NaN is not finite. -/
@[simp] theorem isFinite_nan : Double.isFinite (nan : Extended K) = false := rfl

/-- A quotient by a number that is not zero. -/
theorem div_fin (a : K) {b : K} (hb : b ≠ 0) : (fin a / fin b : Extended K) = fin (a / b) :=
  if_neg hb

/-- A literal is a number. -/
@[simp] theorem lit_fin (q : ℚ) : (Double.lit q : Extended K) = fin (q : K) := rfl

/-- The absolute value of a number. -/
@[simp] theorem abs_fin (a : K) : Double.abs (fin a : Extended K) = fin |a| := rfl

/-- Numbers are compared as they are. -/
@[simp] theorem lt_fin (a b : K) : Double.lt (fin a : Extended K) (fin b) = decide (a < b) := rfl

/-- The same for `≤`. -/
@[simp] theorem le_fin (a b : K) : Double.le (fin a : Extended K) (fin b) = decide (a ≤ b) := rfl

/-- A number is finite. -/
@[simp] theorem isFinite_fin (a : K) : Double.isFinite (fin a : Extended K) = true := rfl

/-- The finite values are the numbers. -/
theorem isFinite_iff {x : Extended K} : Double.isFinite x = true ↔ ∃ a, x = fin a := by
  cases x with
  | nan => simp [Double.isFinite]
  | inf s => simp [Double.isFinite]
  | fin a => simp

/-- The larger of two numbers. -/
@[simp] theorem max_fin (a b : K) : Double.max (fin a : Extended K) (fin b) = fin (max a b) := by
  show (if decide (a < b) then fin b else fin a) = _
  rcases lt_or_ge a b with h | h
  · simp [h, h.le]
  · simp [h, h.not_gt]

/-- The smaller of two numbers. -/
@[simp] theorem min_fin (a b : K) : Double.min (fin a : Extended K) (fin b) = fin (min a b) := by
  show (if decide (b < a) then fin b else fin a) = _
  rcases lt_or_ge b a with h | h
  · simp [h, h.le]
  · simp [h, h.not_gt]

/-- The root of a number that is not negative. -/
theorem sqrt_fin {a : K} (ha : 0 ≤ a) :
    Double.sqrt (fin a : Extended K) = fin (SquareRoot.sqrt a) :=
  if_neg ha.not_gt

end Exact

/-! ### Negation -/

section Negation

variable {K : Type} [Field K] [LinearOrder K] [SquareRoot K]

/-- Negation distributes over sums, special values included. -/
theorem neg_add_eq (x y : Extended K) : -(x + y) = -x + -y := by
  cases x with
  | nan => rfl
  | inf s =>
      cases y with
      | nan | fin b => rfl
      | inf t => cases s <;> cases t <;> rfl
  | fin a =>
      cases y with
      | nan | inf t => rfl
      | fin b => exact congrArg fin (neg_add a b)

/-- Negation distributes over differences. -/
theorem neg_sub_neg_eq (x y : Extended K) : -x - -y = -(x - y) :=
  (neg_add_eq x (neg y)).symm

/-- The sum of the negations of a list. -/
theorem sum_map_neg (xs : List (Extended K)) : Double.sum (xs.map (-·)) = -Double.sum xs := by
  rw [sum_eq, sum_eq]
  induction xs with
  | nil => exact congrArg fin neg_zero.symm
  | cons x xs ih => rw [List.map_cons, List.sum_cons, List.sum_cons, ih, neg_add_eq]

/-- A negated value is as finite as the value. -/
@[simp] theorem isFinite_neg (x : Extended K) : Double.isFinite (-x) = Double.isFinite x := by
  cases x <;> rfl

/-- Zero has no sign. -/
@[simp] theorem neg_lit_zero : (-Double.lit 0 : Extended K) = Double.lit 0 := by
  simp

/-- Multiplication does not depend on the order of two values. -/
theorem mul_comm' (x y : Extended K) : x * y = y * x := by
  cases x with
  | nan => cases y <;> rfl
  | inf s =>
      cases y with
      | nan | fin b => rfl
      | inf t => exact congrArg inf (Bool.xor_comm s t)
  | fin a =>
      cases y with
      | nan | inf t => rfl
      | fin b => exact congrArg fin (mul_comm a b)

/-- A negated value has the same absolute value. -/
@[simp] theorem abs_neg_eq (x : Extended K) : Double.abs (-x) = Double.abs x := by
  cases x with
  | nan | inf s => rfl
  | fin a => exact congrArg fin (abs_neg a)

variable [IsStrictOrderedRing K]

omit [SquareRoot K] in
/-- A number that is not zero changes its sign. -/
theorem decide_neg_lt {a : K} (h : a ≠ 0) : decide (-a < 0) = !decide (a < 0) := by
  rcases lt_or_gt_of_ne h with h | h <;> simp [h, h.le]

/-- A product with a negated factor. -/
theorem mul_neg_eq (x y : Extended K) : x * -y = -(x * y) := by
  cases x with
  | nan => rfl
  | inf s =>
      cases y with
      | nan => rfl
      | inf t => cases s <;> cases t <;> rfl
      | fin b =>
          show (if -b = 0 then nan else inf (s != decide (-b < 0))) =
            neg (if b = 0 then nan else inf (s != decide (b < 0)))
          by_cases h : b = 0
          · rw [if_pos h, if_pos (neg_eq_zero.mpr h), neg]
          · rw [if_neg h, if_neg (neg_ne_zero.mpr h), neg, decide_neg_lt h]
            cases s <;> cases decide (b < 0) <;> rfl
  | fin a =>
      cases y with
      | nan => rfl
      | inf t =>
          show (if a = 0 then nan else inf ((!t) != decide (a < 0))) =
            neg (if a = 0 then nan else inf (t != decide (a < 0)))
          split
          · rfl
          · cases t <;> cases decide (a < 0) <;> rfl
      | fin b => exact congrArg fin (mul_neg a b)

/-- A value times one. -/
theorem mul_lit_one (x : Extended K) : x * Double.lit 1 = x := by
  cases x with
  | nan => rfl
  | inf s =>
      show (if ((1 : ℚ) : K) = 0 then nan else inf (s != decide (((1 : ℚ) : K) < 0))) = _
      rw [Rat.cast_one, if_neg one_ne_zero, decide_eq_false zero_le_one.not_gt, Bool.bne_false]
  | fin a =>
      show fin (a * ((1 : ℚ) : K)) = _
      rw [Rat.cast_one, mul_one]

/-- Products with numbers, one after the other. -/
theorem mul_fin_assoc (x : Extended K) (a b : K) : x * fin a * fin b = x * (fin a * fin b) := by
  cases x with
  | nan => rfl
  | inf s =>
      show (if a = 0 then nan else inf (s != decide (a < 0))) * fin b =
        if a * b = 0 then nan else inf (s != decide (a * b < 0))
      by_cases ha : a = 0
      · rw [if_pos ha, ha, zero_mul, if_pos rfl]
        rfl
      rw [if_neg ha]
      show (if b = 0 then nan else inf ((s != decide (a < 0)) != decide (b < 0))) = _
      by_cases hb : b = 0
      · rw [if_pos hb, hb, mul_zero, if_pos rfl]
      rw [if_neg hb, if_neg (mul_ne_zero ha hb), Bool.bne_assoc]
      refine congrArg (fun t => inf (s != t)) ?_
      rcases lt_or_gt_of_ne ha with ha | ha <;> rcases lt_or_gt_of_ne hb with hb | hb
      · simp only [ha, hb, (mul_pos_of_neg_of_neg ha hb).not_gt, decide_true, decide_false,
          bne_self_eq_false]
      · simp only [ha, hb.not_gt, mul_neg_of_neg_of_pos ha hb, decide_true, decide_false,
          Bool.bne_false]
      · simp only [ha.not_gt, hb, mul_neg_of_pos_of_neg ha hb, decide_true, decide_false,
          Bool.false_bne]
      · simp only [ha.not_gt, hb.not_gt, (mul_pos ha hb).not_gt, decide_false, bne_self_eq_false]
  | fin c => exact congrArg fin (mul_assoc c a b)

/-- Negation passes through products. -/
instance : HasDistribNeg (Extended K) where
  neg_neg x := by
    cases x with
    | nan => rfl
    | inf s => exact congrArg inf (Bool.not_not s)
    | fin a => exact congrArg fin (neg_neg a)
  neg_mul x y := by rw [mul_comm' (-x), mul_neg_eq, mul_comm' x]
  mul_neg := mul_neg_eq

/-- A quotient with a negated dividend. -/
theorem neg_div_eq (x y : Extended K) : -x / y = -(x / y) := by
  cases x with
  | nan => rfl
  | inf s =>
      cases y with
      | nan | inf t => rfl
      | fin b =>
          show (inf ((!s) != decide (b < 0)) : Extended K) = neg (inf (s != decide (b < 0)))
          cases s <;> cases decide (b < 0) <;> rfl
  | fin a =>
      cases y with
      | nan => rfl
      | inf t => exact congrArg fin neg_zero.symm
      | fin b =>
          show (if b = 0 then (if -a = 0 then nan else inf (decide (-a < 0))) else fin (-a / b)) =
            neg (if b = 0 then (if a = 0 then nan else inf (decide (a < 0))) else fin (a / b))
          by_cases hb : b = 0
          · rw [if_pos hb, if_pos hb]
            by_cases ha : a = 0
            · rw [if_pos ha, if_pos (neg_eq_zero.mpr ha), neg]
            · rw [if_neg ha, if_neg (neg_ne_zero.mpr ha), neg, decide_neg_lt ha]
          · rw [if_neg hb, if_neg hb, neg, neg_div]

end Negation

/-! ### Signs -/

section Signs

variable {K : Type} [Field K] [LinearOrder K] [SquareRoot K]

/-- No negative number, and no negative infinity. -/
def NotNegative (x : Extended K) : Prop := Double.lt x (fin 0) = false

/-- A number is not negative. -/
@[simp] theorem notNegative_fin {a : K} : NotNegative (fin a) ↔ 0 ≤ a := by
  simp [NotNegative]

/-- NaN is not negative either. -/
@[simp] theorem notNegative_nan : NotNegative (nan : Extended K) := rfl

/-- Of the infinities, one is negative. -/
@[simp] theorem notNegative_inf {s : Bool} : NotNegative (inf s : Extended K) ↔ s = false :=
  Iff.rfl

/-- A product with a positive infinity. -/
theorem NotNegative.mul_inf {b : K} (hb : 0 ≤ b) :
    NotNegative (fin b * inf false) ∧ NotNegative (inf false * fin b) := by
  have hboth : (fin b * inf false : Extended K) = inf false * fin b := rfl
  rw [hboth, and_self]
  show NotNegative (if b = 0 then nan else inf (false != decide (b < 0)))
  split
  · exact notNegative_nan
  · simpa using hb

/-- The larger of a value and zero is not negative. -/
theorem notNegative_max (x : Extended K) : NotNegative (Double.max x (fin 0)) := by
  cases x with
  | nan => exact notNegative_fin.mpr le_rfl
  | inf s => cases s <;> exact (by simp [NotNegative, Double.max, Double.lt, lt])
  | fin a => rw [max_fin, notNegative_fin]; exact le_max_right a 0

/-- What is at least zero is not negative. -/
theorem notNegative_of_le {x : Extended K} (h : Double.le (fin 0) x = true) : NotNegative x := by
  cases x with
  | nan => exact notNegative_nan
  | inf s => cases s <;> simp_all [Double.le, le]
  | fin a => simpa using h

variable [IsStrictOrderedRing K]

/-- A product of two that are not negative is not negative. -/
theorem NotNegative.mul {x y : Extended K} (hx : NotNegative x) (hy : NotNegative y) :
    NotNegative (x * y) := by
  cases x with
  | nan => exact notNegative_nan
  | inf s =>
      obtain rfl := notNegative_inf.mp hx
      cases y with
      | nan => exact notNegative_nan
      | inf t =>
          obtain rfl := notNegative_inf.mp hy
          exact notNegative_inf.mpr rfl
      | fin b => exact (NotNegative.mul_inf (notNegative_fin.mp hy)).2
  | fin a =>
      cases y with
      | nan => exact notNegative_nan
      | inf t =>
          obtain rfl := notNegative_inf.mp hy
          exact (NotNegative.mul_inf (notNegative_fin.mp hx)).1
      | fin b =>
          rw [mul_fin, notNegative_fin]
          exact mul_nonneg (notNegative_fin.mp hx) (notNegative_fin.mp hy)

/-- A power of one that is not negative is not negative. -/
theorem NotNegative.pow {x : Extended K} (hx : NotNegative x) (n : ℕ) :
    NotNegative (Double.pow x n) := by
  cases n with
  | zero => exact notNegative_fin.mpr zero_le_one
  | succ n =>
      cases x with
      | nan => exact notNegative_nan
      | inf s =>
          obtain rfl := notNegative_inf.mp hx
          exact notNegative_inf.mpr rfl
      | fin a => exact notNegative_fin.mpr (pow_nonneg (notNegative_fin.mp hx) _)

end Signs

end Extended

end Lib
