import HftPlatform.Lib.Statistics
import Mathlib.Algebra.BigOperators.Fin
import Mathlib.Algebra.Order.BigOperators.Ring.Finset
import Mathlib.Analysis.Real.Sqrt

/-!
# The range of a correlation

Where the square roots of the field are exact, as those of the real numbers are, the correlation of
two lists of one length is between `-1` and `1`. It does not depend on where the lists are centred.

## Main results

* `abs_correlation_le_one`: the range, by the inequality of Cauchy and Schwarz.
* `correlation_add_left`, `correlation_add_right`: adding a constant to a list changes nothing.
-/

namespace Lib

/-- The square root of the reals. -/
noncomputable instance : SquareRoot ℝ where
  sqrt := Real.sqrt
  sqrt_zero := Real.sqrt_zero
  sqrt_pos _ h := Real.sqrt_pos.mpr h

section Correlation

variable {K : Type} [Field K]

/-! ### Shifts -/

/-- The mean is shifted with its values. -/
theorem mean_add [CharZero K] {xs : List K} (h : xs ≠ []) (c : K) :
    mean (xs.map (· + c)) = mean xs + c := by
  have hlength : (xs.length : K) ≠ 0 := by simpa using h
  rw [mean, mean, List.length_map, List.sum_map_add, List.map_id', List.map_const',
    List.sum_replicate, nsmul_eq_mul, add_div, mul_div_cancel_left₀ c hlength]

/-- The deviations from the mean do not change. -/
theorem deviations_add [CharZero K] (xs : List K) (c : K) :
    (xs.map (· + c)).map (· - mean (xs.map (· + c))) = xs.map (· - mean xs) := by
  cases xs with
  | nil => rfl
  | cons x xs =>
      rw [mean_add (List.cons_ne_nil x xs), List.map_map]
      refine List.map_congr_left fun y _ => ?_
      simp only [Function.comp_apply]
      rw [add_sub_add_right_eq_sub]

variable [LinearOrder K] [SquareRoot K]

/-- A correlation is not changed by a shift of its first series. -/
theorem correlation_add_left [CharZero K] (ε : K) (xs ys : List K) (c : K) :
    correlation ε (xs.map (· + c)) ys = correlation ε xs ys := by
  rw [correlation, correlation, scatter, codeviation, deviations_add, ← scatter, ← codeviation]

/-- Nor by a shift of the second one. -/
theorem correlation_add_right [CharZero K] (ε : K) (xs ys : List K) (c : K) :
    correlation ε xs (ys.map (· + c)) = correlation ε xs ys := by
  rw [correlation_comm, correlation_add_left, correlation_comm]

/-! ### The range -/

variable [IsStrictOrderedRing K]

omit [SquareRoot K] in
/-- The inequality of Cauchy and Schwarz, for pairs of numbers. -/
theorem sq_sum_mul_le (pairs : List (K × K)) :
    (pairs.map fun p => p.1 * p.2).sum ^ 2 ≤
      (pairs.map fun p => p.1 * p.1).sum * (pairs.map fun p => p.2 * p.2).sum := by
  simp only [← Fin.sum_univ_fun_getElem, ← sq]
  exact Finset.sum_mul_sq_le_sq_mul_sq Finset.univ (fun i : Fin pairs.length => pairs[i.1].1)
    fun i => pairs[i.1].2

omit [SquareRoot K] in
/-- What two lists of one length deviate by together is bounded by their scatters. -/
theorem codeviation_sq_le {xs ys : List K} (h : xs.length = ys.length) :
    codeviation xs ys ^ 2 ≤ scatter xs * scatter ys := by
  rw [codeviation, scatter, scatter]
  have hlength : (xs.map (· - mean xs)).length = (ys.map (· - mean ys)).length := by
    rw [List.length_map, List.length_map, h]
  generalize xs.map (· - mean xs) = ds at hlength ⊢
  generalize ys.map (· - mean ys) = es at hlength ⊢
  have hproducts : List.zipWith (· * ·) ds es = (ds.zip es).map fun p => p.1 * p.2 := by
    rw [List.zip, List.map_zipWith]
  have hds : (ds.map fun d => d * d) = (ds.zip es).map fun p => p.1 * p.1 := by
    conv_lhs => rw [← List.map_fst_zip hlength.le, List.map_map]
    rfl
  have hes : (es.map fun e => e * e) = (ds.zip es).map fun p => p.2 * p.2 := by
    conv_lhs => rw [← List.map_snd_zip hlength.ge, List.map_map]
    rfl
  rw [hproducts, hds, hes]
  exact sq_sum_mul_le _

/-- **A correlation is between `-1` and `1`.** -/
theorem abs_correlation_le_one (hroot : ∀ x : K, 0 < x → SquareRoot.sqrt x * SquareRoot.sqrt x = x)
    {ε : K} (hε : 0 ≤ ε) {xs ys : List K} (h : xs.length = ys.length) :
    |correlation ε xs ys| ≤ 1 := by
  rw [correlation]
  split
  · simp
  · rename_i hvary
    obtain ⟨hxs, hys⟩ := not_or.mp hvary
    have hpos : 0 < scatter xs * scatter ys :=
      mul_pos (hε.trans_lt (not_le.mp hxs)) (hε.trans_lt (not_le.mp hys))
    have hsqrt := SquareRoot.sqrt_pos _ hpos
    rw [abs_div, abs_of_pos hsqrt, div_le_one hsqrt]
    refine abs_le_of_sq_le_sq ?_ hsqrt.le
    rw [sq (SquareRoot.sqrt _), hroot _ hpos]
    exact codeviation_sq_le h

end Correlation

end Lib
