import HftPlatform.Lib.Binary64
import Mathlib.Algebra.Order.Floor.Ring
import Mathlib.Tactic.FieldSimp
import Mathlib.Tactic.Positivity
import Mathlib.Tactic.Ring

/-!
# What rounding to nearest does

Bounds on `Rounding.nearestEven`, from its integer part up: a result stays between whole numbers
that 53 bits hold, a magnitude is not halved, and so the difference of two different doubles does
not vanish.

## Main results

* `round_between`, `div_between`: a result lies between two whole numbers when the exact one does.
* `isDouble_round`, `IsDouble.gap`: results are of the form that doubles have, and two of them are
  either equal or far enough apart.
* `round_le_round`: of two magnitudes, the larger one is not rounded to less.
* `div_sub_mul_neg`: the relative loss of a double against a larger one is negative.
-/

namespace Lib

namespace Rounding

open Binary64

/-! ### The nearest integer -/

variable {x : ℚ} {k : ℤ}

/-- Rounding is not below the floor. -/
theorem floor_le_halfEven (x : ℚ) : ⌊x⌋ ≤ halfEven x := by
  simp only [halfEven]
  split_ifs <;> omega

/-- Rounding does not pass a whole number downwards. -/
theorem le_halfEven (h : (k : ℚ) ≤ x) : k ≤ halfEven x :=
  (Int.le_floor.mpr h).trans (floor_le_halfEven x)

/-- Nor upwards. -/
theorem halfEven_le (h : x ≤ k) : halfEven x ≤ k := by
  have hfloor : ⌊x⌋ ≤ k := Int.floor_le_iff.mpr (h.trans_lt (lt_add_one _))
  rcases hfloor.eq_or_lt with heq | hlt
  · have hx : x = k := le_antisymm h (heq ▸ Int.floor_le x)
    rw [halfEven, hx, Int.floor_intCast, sub_self]
    exact (if_pos (by norm_num)).le
  · simp only [halfEven]
    split_ifs <;> omega

/-- Rounding is monotone. -/
theorem halfEven_mono {x y : ℚ} (h : x ≤ y) : halfEven x ≤ halfEven y := by
  rcases (Int.floor_mono h).lt_or_eq with hlt | heq
  · have hx : halfEven x ≤ ⌊x⌋ + 1 := by
      simp only [halfEven]
      split_ifs <;> omega
    exact hx.trans ((Int.add_one_le_of_lt hlt).trans (floor_le_halfEven y))
  · -- the fractional parts decide
    simp only [halfEven, heq]
    have hfraction : x - ⌊y⌋ ≤ y - ⌊y⌋ := sub_le_sub_right h _
    split_ifs <;> first | omega | linarith

/-- A magnitude from one on is not halved. -/
theorem half_le_halfEven (h : 1 ≤ x) : x / 2 ≤ halfEven x := by
  have hone : (1 : ℚ) ≤ ⌊x⌋ := by exact_mod_cast Int.le_floor.mpr (by exact_mod_cast h)
  have hfloor : (⌊x⌋ : ℚ) ≤ halfEven x := by exact_mod_cast floor_le_halfEven x
  have hlt := Int.lt_floor_add_one x
  linarith

/-! ### The exponent -/

section Exponent

variable {q : ℚ}

/-- The quotient of the powers below numerator and denominator. -/
theorem exponent_bounds (hq : 0 < q) :
    (2 : ℚ) ^ ((Nat.log 2 q.num.natAbs : ℤ) - Nat.log 2 q.den - 1) ≤ q ∧
      q < (2 : ℚ) ^ ((Nat.log 2 q.num.natAbs : ℤ) - Nat.log 2 q.den + 1) := by
  have hnum : 0 < q.num := Rat.num_pos.mpr hq
  have hden : (0 : ℚ) < q.den := by exact_mod_cast q.den_pos
  have hvalue : q = q.num.natAbs / q.den := by
    conv_lhs => rw [← Rat.num_div_den q]
    rw [Nat.cast_natAbs, abs_of_pos hnum]
  have hnumLe : (2 : ℚ) ^ (Nat.log 2 q.num.natAbs : ℤ) ≤ q.num.natAbs := by
    exact_mod_cast Nat.pow_log_le_self 2 (by omega)
  have hnumLt : (q.num.natAbs : ℚ) < 2 ^ ((Nat.log 2 q.num.natAbs : ℤ) + 1) := by
    exact_mod_cast Nat.lt_pow_succ_log_self (by norm_num) _
  have hdenLe : (2 : ℚ) ^ (Nat.log 2 q.den : ℤ) ≤ q.den := by
    exact_mod_cast Nat.pow_log_le_self 2 q.den_nz
  have hdenLt : (q.den : ℚ) < 2 ^ ((Nat.log 2 q.den : ℤ) + 1) := by
    exact_mod_cast Nat.lt_pow_succ_log_self (by norm_num) _
  have hpos : ∀ n : ℤ, (0 : ℚ) < 2 ^ n := fun n => zpow_pos (by norm_num) n
  constructor
  · conv_rhs => rw [hvalue]
    rw [le_div_iff₀ hden]
    calc (2 : ℚ) ^ ((Nat.log 2 q.num.natAbs : ℤ) - Nat.log 2 q.den - 1) * q.den
        ≤ 2 ^ ((Nat.log 2 q.num.natAbs : ℤ) - Nat.log 2 q.den - 1) *
            2 ^ ((Nat.log 2 q.den : ℤ) + 1) := mul_le_mul_of_nonneg_left hdenLt.le (hpos _).le
      _ = 2 ^ (Nat.log 2 q.num.natAbs : ℤ) := by
          rw [← zpow_add₀ (by norm_num)]
          congr 1
          omega
      _ ≤ q.num.natAbs := hnumLe
  · conv_lhs => rw [hvalue]
    rw [div_lt_iff₀ hden]
    calc (q.num.natAbs : ℚ) < 2 ^ ((Nat.log 2 q.num.natAbs : ℤ) + 1) := hnumLt
      _ = 2 ^ ((Nat.log 2 q.num.natAbs : ℤ) - Nat.log 2 q.den + 1) *
            2 ^ (Nat.log 2 q.den : ℤ) := by
          rw [← zpow_add₀ (by norm_num)]
          congr 1
          omega
      _ ≤ 2 ^ ((Nat.log 2 q.num.natAbs : ℤ) - Nat.log 2 q.den + 1) * q.den :=
          mul_le_mul_of_nonneg_left hdenLe (hpos _).le

/-- The exponent is that of a power below the number. -/
theorem zpow_exponent_le (hq : 0 < q) : (2 : ℚ) ^ exponent 2 q ≤ q := by
  rw [exponent]
  split
  · exact (exponent_bounds hq).1
  · rename_i h
    exact not_lt.mp (by exact_mod_cast h)

/-- The next power is above it. -/
theorem lt_zpow_exponent (hq : 0 < q) : q < (2 : ℚ) ^ (exponent 2 q + 1) := by
  rw [exponent]
  split
  · rename_i h
    rw [sub_add_cancel]
    exact_mod_cast h
  · exact (exponent_bounds hq).2

end Exponent

/-! ### Magnitudes -/

/-- The exponent of the last place of a magnitude. -/
def lastPlace (q : ℚ) : ℤ := Max.max (exponent 2 q - 52) (-1074)

variable {q v : ℚ}

/-- A number is rounded to its last place, unless that overflows. -/
theorem nearestEvenMag_eq (q : ℚ) : nearestEvenMag q =
    if (2 : ℚ) ^ 1024 ≤ (halfEven (q / 2 ^ lastPlace q)).natAbs * 2 ^ lastPlace q then inf false
    else fin ((halfEven (q / 2 ^ lastPlace q)).natAbs * 2 ^ lastPlace q) := rfl

/-- A last place is positive. -/
theorem zpow_lastPlace_pos (q : ℚ) : (0 : ℚ) < 2 ^ lastPlace q := zpow_pos (by norm_num) _

/-- A magnitude has at most 53 bits before its last place. -/
theorem div_lastPlace_le (hq : 0 ≤ q) : q / 2 ^ lastPlace q ≤ (2 ^ 53 : ℤ) := by
  rcases hq.eq_or_lt with rfl | hq
  · rw [zero_div]
    norm_num
  · rw [div_le_iff₀ (zpow_lastPlace_pos q)]
    calc q ≤ (2 : ℚ) ^ (exponent 2 q + 1) := (lt_zpow_exponent hq).le
      _ ≤ 2 ^ (53 + lastPlace q) :=
          zpow_le_zpow_right₀ (by norm_num) (by rw [lastPlace]; omega)
      _ = (2 ^ 53 : ℤ) * 2 ^ lastPlace q := by
          rw [zpow_add₀ (by norm_num)]
          norm_num

/-- A magnitude that is not below the smallest double reaches its last place. -/
theorem one_le_div_lastPlace (hq : (2 : ℚ) ^ (-1074 : ℤ) ≤ q) : 1 ≤ q / 2 ^ lastPlace q := by
  have hpos : 0 < q := (zpow_pos (by norm_num) _).trans_le hq
  rw [le_div_iff₀ (zpow_lastPlace_pos q), one_mul, lastPlace]
  rcases le_total (exponent 2 q - 52) (-1074) with h | h
  · rwa [max_eq_right h]
  · rw [max_eq_left h]
    exact (zpow_le_zpow_right₀ (by norm_num) (by omega)).trans (zpow_exponent_le hpos)

/-- The form of a double: at most 53 bits, and no place below the last one. -/
def IsDouble (q : ℚ) : Prop :=
  ∃ (n : ℕ) (e : ℤ), n ≤ 2 ^ 53 ∧ -1074 ≤ e ∧ |q| = n * 2 ^ e

/-- What was rounded is a double. -/
theorem isDouble_nearestEvenMag (hq : 0 ≤ q) (h : nearestEvenMag q = fin v) : IsDouble v := by
  rw [nearestEvenMag_eq] at h
  split at h
  · cases h
  · obtain rfl := fin.inj h
    have hnonneg : 0 ≤ halfEven (q / 2 ^ lastPlace q) :=
      le_halfEven (by rw [Int.cast_zero]; exact div_nonneg hq (zpow_lastPlace_pos q).le)
    have hle := halfEven_le (div_lastPlace_le hq)
    refine ⟨_, lastPlace q, by omega, le_max_right _ _, abs_of_nonneg ?_⟩
    exact mul_nonneg (Nat.cast_nonneg _) (zpow_lastPlace_pos q).le

/-- A negated double is a double. -/
theorem IsDouble.neg (h : IsDouble q) : IsDouble (-q) := by
  rwa [IsDouble, abs_neg]

/-- **Results have the form of a double.** -/
theorem isDouble_round (h : nearestEven.round q = fin v) : IsDouble v := by
  change (if q < 0 then (nearestEvenMag (-q)).neg else nearestEvenMag q) = fin v at h
  split at h
  · rename_i hq
    have hmag : nearestEvenMag (-q) = fin (-v) := by
      rw [← neg_neg_self (nearestEvenMag (-q)), h]
      rfl
    have hdouble := isDouble_nearestEvenMag (by linarith) hmag
    simpa using hdouble.neg
  · rename_i hq
    exact isDouble_nearestEvenMag (not_lt.mp hq) h

/-- A magnitude that is not below the smallest double is not halved. -/
theorem half_le_nearestEvenMag (hq : (2 : ℚ) ^ (-1074 : ℤ) ≤ q) :
    nearestEvenMag q = inf false ∨ ∃ v, nearestEvenMag q = fin v ∧ q / 2 ≤ v := by
  rw [nearestEvenMag_eq]
  split
  · exact Or.inl rfl
  · refine Or.inr ⟨_, rfl, ?_⟩
    have hone := one_le_div_lastPlace hq
    have hhalf := half_le_halfEven hone
    have hcast :
        (halfEven (q / 2 ^ lastPlace q) : ℚ) = (halfEven (q / 2 ^ lastPlace q)).natAbs := by
      have hnonneg : 0 ≤ halfEven (q / 2 ^ lastPlace q) :=
        le_halfEven (by rw [Int.cast_zero]; linarith)
      rw [Nat.cast_natAbs, abs_of_nonneg hnonneg]
    calc q / 2 = q / 2 ^ lastPlace q / 2 * 2 ^ lastPlace q := by
          field_simp
      _ ≤ (halfEven (q / 2 ^ lastPlace q)).natAbs * 2 ^ lastPlace q := by
          rw [← hcast]
          exact mul_le_mul_of_nonneg_right hhalf (zpow_lastPlace_pos q).le

/-! ### Order -/

/-- The last place grows with the number. -/
theorem lastPlace_mono {r : ℚ} (hq : 0 < q) (h : q ≤ r) : lastPlace q ≤ lastPlace r := by
  have hpow : (2 : ℚ) ^ exponent 2 q < 2 ^ (exponent 2 r + 1) :=
    (zpow_exponent_le hq).trans_lt (h.trans_lt (lt_zpow_exponent (hq.trans_le h)))
  have hexponent := (zpow_lt_zpow_iff_right₀ (by norm_num)).mp hpow
  rw [lastPlace, lastPlace]
  omega

/-- The value that a magnitude is rounded to, if it is not too large. -/
def roundedMag (q : ℚ) : ℚ := (halfEven (q / 2 ^ lastPlace q)).natAbs * 2 ^ lastPlace q

/-- Rounding to the last place, without overflow. -/
theorem roundedMag_eq (hq : 0 ≤ q) :
    roundedMag q = halfEven (q / 2 ^ lastPlace q) * 2 ^ lastPlace q := by
  have hnonneg : 0 ≤ halfEven (q / 2 ^ lastPlace q) :=
    le_halfEven (by rw [Int.cast_zero]; exact div_nonneg hq (zpow_lastPlace_pos q).le)
  rw [roundedMag, Nat.cast_natAbs, abs_of_nonneg hnonneg]

/-- At one last place the nearest whole numbers are compared; over two, there is a power of two in
between that both values respect. -/
theorem roundedMag_mono {r : ℚ} (hq : 0 ≤ q) (h : q ≤ r) : roundedMag q ≤ roundedMag r := by
  have hr : 0 ≤ r := hq.trans h
  rcases hq.eq_or_lt with rfl | hpos
  · have hzero : roundedMag 0 = 0 := by simp [roundedMag, halfEven]
    rw [hzero]
    exact mul_nonneg (Nat.cast_nonneg _) (zpow_lastPlace_pos r).le
  rw [roundedMag_eq hq, roundedMag_eq hr]
  rcases (lastPlace_mono hpos h).lt_or_eq with hlt | heq
  · have hupper : halfEven (q / 2 ^ lastPlace q) ≤ (2 ^ 53 : ℤ) := halfEven_le (div_lastPlace_le hq)
    have hplace : lastPlace r = exponent 2 r - 52 := by
      simp only [lastPlace] at hlt ⊢
      omega
    have hlower : (2 ^ 52 : ℤ) ≤ halfEven (r / 2 ^ lastPlace r) := by
      refine le_halfEven ?_
      rw [le_div_iff₀ (zpow_lastPlace_pos r)]
      calc ((2 ^ 52 : ℤ) : ℚ) * 2 ^ lastPlace r = 2 ^ (52 + lastPlace r) := by
            rw [zpow_add₀ (by norm_num)]
            norm_num
        _ = 2 ^ exponent 2 r := by rw [hplace]; congr 1; omega
        _ ≤ r := zpow_exponent_le (hpos.trans_le h)
    calc (halfEven (q / 2 ^ lastPlace q) : ℚ) * 2 ^ lastPlace q
        ≤ (2 ^ 53 : ℤ) * 2 ^ lastPlace q :=
          mul_le_mul_of_nonneg_right (by exact_mod_cast hupper) (zpow_lastPlace_pos q).le
      _ = 2 ^ (53 + lastPlace q) := by
          rw [zpow_add₀ (by norm_num)]
          norm_num
      _ ≤ 2 ^ (52 + lastPlace r) := zpow_le_zpow_right₀ (by norm_num) (by omega)
      _ = (2 ^ 52 : ℤ) * 2 ^ lastPlace r := by
          rw [zpow_add₀ (by norm_num)]
          norm_num
      _ ≤ halfEven (r / 2 ^ lastPlace r) * 2 ^ lastPlace r :=
          mul_le_mul_of_nonneg_right (by exact_mod_cast hlower) (zpow_lastPlace_pos r).le
  · rw [heq]
    refine mul_le_mul_of_nonneg_right ?_ (zpow_lastPlace_pos r).le
    exact_mod_cast halfEven_mono (div_le_div_of_nonneg_right h (zpow_lastPlace_pos r).le)

/-- **Rounding keeps the order of magnitudes.** -/
theorem round_le_round {r : ℚ} (hq : 0 ≤ q) (h : q ≤ r) :
    le (nearestEven.round q) (nearestEven.round r) = true := by
  have hround : ∀ p : ℚ, 0 ≤ p → nearestEven.round p =
      if (2 : ℚ) ^ 1024 ≤ roundedMag p then inf false else fin (roundedMag p) :=
    fun p hp => if_neg (not_lt.mpr hp)
  have hmono := roundedMag_mono hq h
  rw [hround q hq, hround r (hq.trans h)]
  split_ifs with hbig hbig' hbig'
  · rfl
  · exact absurd (hbig.trans hmono) hbig'
  · rfl
  · exact decide_eq_true hmono

/-- A magnitude below one that is not rounded to infinity is not either. -/
theorem round_of_le {r : ℚ} (hq : 0 ≤ q) (h : q ≤ r) (hr : nearestEven.round r = fin v) :
    ∃ u, nearestEven.round q = fin u ∧ 0 ≤ u ∧ u ≤ v := by
  have hle := round_le_round hq h
  have hnonneg := nearestEven.round_nonneg q hq
  rw [hr] at hle
  cases hround : nearestEven.round q with
  | nan => rw [hround] at hle; cases hle
  | inf s =>
      rw [hround] at hle hnonneg
      cases s with
      | false => cases hle
      | true => cases hnonneg
  | fin u =>
      rw [hround] at hle hnonneg
      exact ⟨u, rfl, nonneg_fin.mp hnonneg, of_decide_eq_true hle⟩

/-! ### Whole numbers -/

/-- Below `2 ^ 53` the last place is not above the units. -/
theorem lastPlace_nonpos (hq : 0 < q) (h : q < 2 ^ 53) : lastPlace q ≤ 0 := by
  have hexponent : exponent 2 q < 53 := by
    have hlt : (2 : ℚ) ^ exponent 2 q < 2 ^ (53 : ℤ) :=
      (zpow_exponent_le hq).trans_lt (by exact_mod_cast h)
    exact (zpow_lt_zpow_iff_right₀ (by norm_num)).mp hlt
  rw [lastPlace]
  omega

/-- **A magnitude between two whole numbers** that 53 bits hold stays between them. -/
theorem nearestEvenMag_between {m M : ℕ} (hm : (m : ℚ) ≤ q) (hM : q ≤ M) (hbound : M ≤ 2 ^ 53) :
    ∃ v, nearestEvenMag q = fin v ∧ (m : ℚ) ≤ v ∧ v ≤ M := by
  have hMcast : (M : ℚ) ≤ 2 ^ 53 := by exact_mod_cast hbound
  have hq : 0 ≤ q := m.cast_nonneg.trans hm
  rcases hq.eq_or_lt with rfl | hq
  · exact ⟨0, nearestEvenMag_zero, hm, hM⟩
  rcases (hM.trans hMcast).eq_or_lt with rfl | hlt
  · exact ⟨2 ^ 53, by decide +kernel, hm, hM⟩
  -- the last place divides both whole numbers
  obtain ⟨n, hn⟩ := Int.eq_ofNat_of_zero_le (neg_nonneg.mpr (lastPlace_nonpos hq hlt))
  have hunit : (2 : ℚ) ^ lastPlace q = (2 ^ n)⁻¹ := by
    rw [← zpow_natCast, ← zpow_neg]
    congr 1
    omega
  have hpow : (0 : ℚ) < 2 ^ n := by positivity
  have hlower : ((m * 2 ^ n : ℕ) : ℤ) ≤ halfEven (q / 2 ^ lastPlace q) := by
    refine le_halfEven ?_
    rw [hunit, div_inv_eq_mul]
    push_cast
    exact mul_le_mul_of_nonneg_right hm hpow.le
  have hupper : halfEven (q / 2 ^ lastPlace q) ≤ ((M * 2 ^ n : ℕ) : ℤ) := by
    refine halfEven_le ?_
    rw [hunit, div_inv_eq_mul]
    push_cast
    exact mul_le_mul_of_nonneg_right hM hpow.le
  generalize hk : (halfEven (q / 2 ^ lastPlace q)).natAbs = k
  have hkm : m * 2 ^ n ≤ k := by omega
  have hkM : k ≤ M * 2 ^ n := by omega
  have hvm : (m : ℚ) ≤ k * 2 ^ lastPlace q := by
    rw [hunit, ← div_eq_mul_inv, le_div_iff₀ hpow]
    exact_mod_cast hkm
  have hvM : k * (2 : ℚ) ^ lastPlace q ≤ M := by
    rw [hunit, ← div_eq_mul_inv, div_le_iff₀ hpow]
    exact_mod_cast hkM
  refine ⟨k * 2 ^ lastPlace q, ?_, hvm, hvM⟩
  rw [nearestEvenMag_eq, hk, if_neg]
  exact not_le.mpr ((hvM.trans hMcast).trans_lt (pow_lt_pow_right₀ (by norm_num) (by norm_num)))

/-- **A result between two whole numbers** that 53 bits hold stays between them. -/
theorem round_between {m M : ℕ} (hm : (m : ℚ) ≤ q) (hM : q ≤ M) (hbound : M ≤ 2 ^ 53) :
    ∃ v, nearestEven.round q = fin v ∧ (m : ℚ) ≤ v ∧ v ≤ M := by
  have hq : ¬q < 0 := not_lt.mpr (m.cast_nonneg.trans hm)
  have hround : nearestEven.round q = nearestEvenMag q := if_neg hq
  rw [hround]
  exact nearestEvenMag_between hm hM hbound

/-- A whole number that 53 bits hold is delivered as it is. -/
theorem lit_natCast {n : ℕ} (h : n ≤ 2 ^ 53) : nearestEven.lit n = fin n := by
  obtain ⟨v, hv, hle, hge⟩ := round_between (q := n) le_rfl le_rfl h
  rw [lit, hv, le_antisymm hge hle]

/-- **A quotient of whole numbers** that 53 bits hold stays between whole bounds of the exact
one. -/
theorem div_between {a b m M : ℕ} (hb : 0 < b) (hm : m * b ≤ a) (hM : a ≤ M * b)
    (ha : a ≤ 2 ^ 53) (hb' : b ≤ 2 ^ 53) (hbound : M ≤ 2 ^ 53) :
    ∃ v, nearestEven.div (nearestEven.lit a) (nearestEven.lit b) = fin v ∧ (m : ℚ) ≤ v ∧ v ≤ M := by
  have hpos : (0 : ℚ) < b := by exact_mod_cast hb
  rw [lit_natCast ha, lit_natCast hb', div, if_neg hpos.ne']
  refine round_between ?_ ?_ hbound
  · rw [le_div_iff₀ hpos]
    exact_mod_cast hm
  · rw [div_le_iff₀ hpos]
    exact_mod_cast hM

/-! ### Differences -/

/-- A number that is a multiple of a higher place is one of a lower place. -/
theorem exists_multiple (n : ℕ) {e f : ℤ} (h : f ≤ e) : ∃ k : ℕ, (n : ℚ) * 2 ^ e = k * 2 ^ f := by
  obtain ⟨d, hd⟩ := Int.eq_ofNat_of_zero_le (sub_nonneg.mpr h)
  refine ⟨n * 2 ^ d, ?_⟩
  have he : e = d + f := by omega
  rw [he, zpow_add₀ (by norm_num), zpow_natCast]
  push_cast
  ring

/-- Two multiples of a place differ by that place. -/
theorem place_le_sub {m n : ℕ} {u : ℚ} (hu : 0 < u) (h : m * u < n * u) : u ≤ n * u - m * u := by
  have hlt : (m : ℚ) < n := lt_of_mul_lt_mul_right h hu.le
  have hle : (m : ℚ) + 1 ≤ n := by exact_mod_cast hlt
  nlinarith

/-- **Two doubles are equal or far enough apart**, measured by the smallest double and by the larger
of the two. -/
theorem IsDouble.gap {a b : ℚ} (ha : IsDouble a) (hb : IsDouble b) (hpos : 0 < b) (h : a < b) :
    (2 : ℚ) ^ (-1074 : ℤ) ≤ b - a ∧ b ≤ 2 ^ 54 * (b - a) := by
  obtain ⟨m, f, hm, hf, ha⟩ := ha
  obtain ⟨n, e, hn, he, hb⟩ := hb
  rw [abs_of_pos hpos] at hb
  have hplace : ∀ {g : ℤ}, -1074 ≤ g → (2 : ℚ) ^ (-1074 : ℤ) ≤ 2 ^ g := fun hg =>
    zpow_le_zpow_right₀ (by norm_num) hg
  have hunit : ∀ g : ℤ, (0 : ℚ) < 2 ^ g := fun g => zpow_pos (by norm_num) g
  have hmcast : (m : ℚ) ≤ 2 ^ 53 := by exact_mod_cast hm
  have hncast : (n : ℚ) ≤ 2 ^ 53 := by exact_mod_cast hn
  rcases le_or_gt a 0 with hneg | ha'
  · have hstep : (2 : ℚ) ^ e ≤ n * 2 ^ e - (0 : ℕ) * 2 ^ e :=
      place_le_sub (hunit e) (by rw [← hb]; simpa using hpos)
    rw [← hb] at hstep
    push_cast at hstep
    exact ⟨(hplace he).trans (by linarith), by linarith⟩
  rw [abs_of_pos ha'] at ha
  rcases le_total e f with hef | hfe
  · -- the places of the larger one divide the smaller one
    obtain ⟨k, hk⟩ := exists_multiple m hef
    have hstep : (2 : ℚ) ^ e ≤ b - a := by
      rw [hb, ha, hk]
      exact place_le_sub (hunit e) (by rw [← hk, ← ha, ← hb]; exact h)
    have hbound : b ≤ 2 ^ 53 * 2 ^ e := by
      rw [hb]
      exact mul_le_mul_of_nonneg_right hncast (hunit e).le
    exact ⟨(hplace he).trans hstep, by linarith⟩
  · obtain ⟨k, hk⟩ := exists_multiple n hfe
    have hstep : (2 : ℚ) ^ f ≤ b - a := by
      rw [hb, ha, hk]
      exact place_le_sub (hunit f) (by rw [← hk, ← ha, ← hb]; exact h)
    have hbound : a ≤ 2 ^ 53 * 2 ^ f := by
      rw [ha]
      exact mul_le_mul_of_nonneg_right hmcast (hunit f).le
    exact ⟨(hplace hf).trans hstep, by linarith⟩

/-- A magnitude that is not below the smallest double is infinite or positive, and not halved. -/
theorem round_neg_of_le {q : ℚ} (hq : (2 : ℚ) ^ (-1074 : ℤ) ≤ q) :
    nearestEven.round (-q) = inf true ∨ ∃ v, nearestEven.round (-q) = fin (-v) ∧ q / 2 ≤ v := by
  have hpos : 0 < q := (zpow_pos (by norm_num) _).trans_le hq
  have hround : nearestEven.round (-q) = (nearestEvenMag q).neg := by
    rw [nearestEven.round_neg]
    exact congrArg neg (if_neg hpos.le.not_gt)
  rw [hround]
  rcases half_le_nearestEvenMag hq with h | ⟨v, h, hv⟩
  · exact Or.inl (by rw [h]; rfl)
  · exact Or.inr ⟨v, by rw [h]; rfl, hv⟩

/-- **The relative loss of a double against a larger one is negative**, in percent as well. -/
theorem div_sub_mul_neg {a b : ℚ} (ha : IsDouble a) (hb : IsDouble b) (hpos : 0 < b) (h : a < b) :
    lt (nearestEven.mul (nearestEven.div (nearestEven.sub (fin a) (fin b)) (fin b))
      (nearestEven.lit 100)) zero = true := by
  obtain ⟨hsmallest, hrelative⟩ := ha.gap hb hpos h
  have hlit : nearestEven.lit 100 = fin 100 := by
    exact_mod_cast lit_natCast (n := 100) (by norm_num)
  have hsub : nearestEven.sub (fin a) (fin b) = nearestEven.round (-(b - a)) := by
    rw [neg_sub, sub_eq_add_neg]
    rfl
  have htiny : (2 : ℚ) ^ (-1074 : ℤ) ≤ 1 / 2 ^ 56 := by
    rw [one_div, ← zpow_natCast, ← zpow_neg]
    exact zpow_le_zpow_right₀ (by norm_num) (by norm_num)
  rw [hlit, hsub]
  rcases round_neg_of_le hsmallest with hinf | ⟨d, hd, hdle⟩
  · rw [hinf]
    norm_num [div, mul, hpos.le, lt, zero]
  have hratio : 1 / 2 ^ 55 ≤ d / b := by
    rw [le_div_iff₀ hpos]
    linarith
  have hdiv : nearestEven.div (fin (-d)) (fin b) = nearestEven.round (-(d / b)) := by
    rw [← neg_div]
    exact if_neg hpos.ne'
  rw [hd, hdiv]
  rcases round_neg_of_le (q := d / b) (htiny.trans (by linarith)) with hinf | ⟨w, hw, hwle⟩
  · rw [hinf]
    norm_num [mul, lt, zero]
  have hmul : nearestEven.mul (fin (-w)) (fin 100) = nearestEven.round (-(w * 100)) := by
    rw [← neg_mul]
    rfl
  rw [hw, hmul]
  rcases round_neg_of_le (q := w * 100) (htiny.trans (by linarith)) with hinf | ⟨u, hu, hule⟩
  · rw [hinf]
    rfl
  · rw [hu]
    simp only [lt, zero, decide_eq_true_eq]
    linarith

end Rounding

end Lib
