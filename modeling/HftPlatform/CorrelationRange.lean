import HftPlatform.FactorPairs
import HftPlatform.Lib.Correlation
import HftPlatform.SignalSymmetry
import Mathlib.Data.Sign.Basic

/-!
# The range and the sign of a correlation

`pearson_correlation` and `detect_factor_correlation_sign` of
`services/strategy_engine/signal_engine/src/zscore_model.rs`, on series of real numbers: they are
aligned at their ends, and a correlation is between `-1` and `1`, does not depend on the order of
the series or on where they are centred, and tells the sign outside a small zone around zero.

## Main results

* `abs_pearson_le_one`, `pearson_add_left`: the range, and the invariance under shifts.
* `detectFactorCorrelationSign_fin`: the sign is that of the correlation.
* `correlation_range_sign`: all of it, for the functions of the program.
-/

namespace HftPlatform.ZscoreModel

open Lib Extended

section Field

variable {K : Type} [Field K] [LinearOrder K] [SquareRoot K] [IsStrictOrderedRing K]

/-- **The correlation of two series** is between `-1` and `1`. -/
theorem abs_pearson_le_one (hroot : ∀ x : K, 0 < x → SquareRoot.sqrt x * SquareRoot.sqrt x = x)
    (xs ys : List K) : |pearson xs ys| ≤ 1 := by
  rw [pearson]
  split
  · simp
  · refine abs_correlation_le_one hroot smallest_pos.le ?_
    rw [List.length_drop, List.length_drop]
    omega

/-- Adding a constant to a series does not change the correlation. -/
theorem pearson_add_left (xs ys : List K) (c : K) :
    pearson (xs.map (· + c)) ys = pearson xs ys := by
  simp only [pearson, List.length_map, ← List.map_drop, correlation_add_left]

theorem pearson_add_right (xs ys : List K) (c : K) :
    pearson xs (ys.map (· + c)) = pearson xs ys := by
  rw [pearson_comm, pearson_add_left, pearson_comm]

omit [Field K] [LinearOrder K] [SquareRoot K] [IsStrictOrderedRing K] in
/-- Series that are cut to the shorter length have it. -/
theorem length_cut (xs ys : List K) :
    (xs.drop (xs.length - min xs.length ys.length)).length = min xs.length ys.length ∧
      (ys.drop (ys.length - min xs.length ys.length)).length = min xs.length ys.length := by
  rw [List.length_drop, List.length_drop]
  omega

omit [IsStrictOrderedRing K] in
/-- The correlation is that of the cut series. -/
theorem pearson_cut (xs ys : List K) :
    pearson (xs.drop (xs.length - min xs.length ys.length))
      (ys.drop (ys.length - min xs.length ys.length)) = pearson xs ys := by
  rw [pearson, pearson, (length_cut xs ys).1, (length_cut xs ys).2]
  simp only [min_self, Nat.sub_self, List.drop_zero]

omit [IsStrictOrderedRing K] in
/-- Series of numbers are cut to the shorter length, and nothing else is dropped. -/
theorem sanitizeAlignedPair_fin (xs ys : List K) :
    sanitizeAlignedPair (xs.map fin) (ys.map fin) =
      ((xs.drop (xs.length - min xs.length ys.length)).map fin,
        ((ys.drop (ys.length - min xs.length ys.length)).map fin : List (Extended K))) := by
  obtain ⟨hxs, hys⟩ := length_cut xs ys
  have hfinite : ∀ zs : List K, ∀ x ∈ zs.map (fin : K → Extended K), Double.isFinite x = true := by
    simp
  rw [← sanitizeAlignedPair_of_finite (by simp only [List.length_map, hxs, hys])
    (hfinite _) (hfinite _)]
  simp only [sanitizeAlignedPair, List.length_map, ← List.map_drop, hxs, hys, min_self,
    Nat.sub_self, List.drop_zero]

/-- **The sign of two series** is that of their correlation, outside a small zone around zero. -/
theorem detectFactorCorrelationSign_fin (xs ys : List K) :
    detectFactorCorrelationSign (xs.map fin) (ys.map (fin : K → Extended K)) =
      if |pearson xs ys| ≤ smallest then 0 else (SignType.sign (pearson xs ys) : ℤ) := by
  rw [detectFactorCorrelationSign, sanitizeAlignedPair_fin]
  dsimp only
  rw [pearsonCorrelation_eq, pearson_cut, abs_fin, epsilon_eq, le_fin, lit_fin, Rat.cast_zero,
    lt_fin]
  simp only [decide_eq_true_eq]
  split
  · rfl
  · rename_i hlarge
    split
    · rename_i hpos
      rw [sign_pos hpos]
      rfl
    · rename_i hpos
      have hneg : pearson xs ys < 0 := by
        refine lt_of_le_of_ne (not_lt.mp hpos) fun hzero => hlarge ?_
        rw [hzero, abs_zero]
        exact smallest_pos.le
      rw [sign_neg hneg]
      rfl

end Field

/-- **Range and sign of a correlation.** For any two series of real numbers, of any lengths, the
correlation that the program computes is a number between `-1` and `1`; it is the same with the
series exchanged, and with a constant added to either of them; and the sign that the program detects
is its sign, except that it is zero when the absolute value is at most `1e-12`. -/
theorem correlation_range_sign (a b : List ℝ) : ∃ r : ℝ,
    pearsonCorrelation (a.map fin) (b.map fin) = (fin r : Extended ℝ) ∧ -1 ≤ r ∧ r ≤ 1 ∧
      pearsonCorrelation (b.map fin) (a.map fin) = (fin r : Extended ℝ) ∧
      (∀ c, pearsonCorrelation ((a.map (· + c)).map fin) (b.map fin) = (fin r : Extended ℝ)) ∧
      (∀ c, pearsonCorrelation (a.map fin) ((b.map (· + c)).map fin) = (fin r : Extended ℝ)) ∧
      detectFactorCorrelationSign (a.map fin) (b.map (fin : ℝ → Extended ℝ)) =
        if |r| ≤ 1 / 10 ^ 12 then 0 else (SignType.sign r : ℤ) := by
  have hroot : ∀ x : ℝ, 0 < x → SquareRoot.sqrt x * SquareRoot.sqrt x = x :=
    fun x hx => Real.mul_self_sqrt hx.le
  obtain ⟨hlower, hupper⟩ := abs_le.mp (abs_pearson_le_one hroot a b)
  refine ⟨pearson a b, pearsonCorrelation_eq a b, hlower, hupper, ?_, fun c => ?_, fun c => ?_,
    detectFactorCorrelationSign_fin a b⟩
  · rw [pearsonCorrelation_eq, pearson_comm]
  · rw [pearsonCorrelation_eq, pearson_add_left]
  · rw [pearsonCorrelation_eq, pearson_add_right]

end HftPlatform.ZscoreModel
