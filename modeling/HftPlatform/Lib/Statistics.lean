import HftPlatform.Lib.Extended
import Mathlib.Algebra.BigOperators.Ring.List

/-!
# Means, deviations and correlations

Of lists of numbers of an ordered field. A correlation counts as zero where one of the two lists
hardly varies.

## Main results

* `variance_nonneg`: a variance is not negative.
* `sum_shares`: the shares of a total add up to one.
* `correlation_neg`: negating one of two lists negates their correlation.
* `abs_sum_mul_le`: a weighted sum of bounded numbers is bounded by the weight of all.
* `countP_of_pairwise`: the place of a value in a ranking.
-/

namespace Lib

section Statistics

variable {K : Type} [Field K] [LinearOrder K]

/-- The mean of a list. -/
def mean (xs : List K) : K := xs.sum / xs.length

/-- The variance of a list. -/
def variance (xs : List K) : K := (xs.map fun x => (x - mean xs) * (x - mean xs)).sum / xs.length

/-- The standard deviation of a list. -/
def deviation [SquareRoot K] (xs : List K) : K := SquareRoot.sqrt (variance xs)

/-- The sum of the products of the deviations of two lists from their means. -/
def codeviation (xs ys : List K) : K :=
  (List.zipWith (· * ·) (xs.map (· - mean xs)) (ys.map (· - mean ys))).sum

/-- The sum of the squared deviations of a list from its mean. -/
def scatter (xs : List K) : K := ((xs.map (· - mean xs)).map fun d => d * d).sum

/-- The correlation of two lists, zero where one of them hardly varies. -/
def correlation [SquareRoot K] (ε : K) (xs ys : List K) : K :=
  if scatter xs ≤ ε ∨ scatter ys ≤ ε then 0
  else codeviation xs ys / SquareRoot.sqrt (scatter xs * scatter ys)

/-- A single number does not deviate. -/
theorem deviation_singleton [SquareRoot K] (x : K) : deviation [x] = 0 := by
  simp [deviation, variance, mean, SquareRoot.sqrt_zero]

omit [LinearOrder K] in
/-- The shares of a total add up to one. -/
theorem sum_shares {weights : List K} (h : weights.sum ≠ 0) :
    (weights.map (· / weights.sum)).sum = 1 := by
  simp only [div_eq_mul_inv, List.sum_map_mul_right, List.map_id']
  exact mul_inv_cancel₀ h

/-! ### Negation -/

omit [LinearOrder K] in
/-- The mean of the negations. -/
theorem mean_neg (xs : List K) : mean (xs.map (-·)) = -mean xs := by
  rw [mean, mean, ← List.sum_neg, List.length_map, neg_div]

omit [LinearOrder K] in
/-- The deviations of the negations from their mean. -/
theorem deviations_neg (xs : List K) :
    (xs.map (-·)).map (· - mean (xs.map (-·))) = (xs.map (· - mean xs)).map (-·) := by
  rw [mean_neg, List.map_map, List.map_map]
  refine List.map_congr_left fun x _ => ?_
  simp only [Function.comp_apply]
  rw [neg_sub_neg, neg_sub]

omit [LinearOrder K] in
/-- The squares of the negations. -/
theorem squares_neg (ds : List K) : (ds.map (-·)).map (fun d => d * d) = ds.map fun d => d * d := by
  rw [List.map_map]
  exact List.map_congr_left fun d _ => neg_mul_neg d d

omit [LinearOrder K] in
/-- Negated numbers scatter as much. -/
theorem scatter_neg (xs : List K) : scatter (xs.map (-·)) = scatter xs := by
  rw [scatter, deviations_neg, squares_neg, scatter]

/-- Negated numbers deviate as much. -/
theorem deviation_neg [SquareRoot K] (xs : List K) :
    deviation (xs.map (-·)) = deviation xs := by
  have hvariance : ∀ zs : List K, variance zs = scatter zs / zs.length := fun zs => by
    rw [variance, scatter, List.map_map]
    rfl
  rw [deviation, hvariance, scatter_neg, List.length_map, ← hvariance, deviation]

omit [LinearOrder K] in
theorem codeviation_comm (xs ys : List K) : codeviation xs ys = codeviation ys xs := by
  rw [codeviation, codeviation, List.zipWith_comm_of_comm mul_comm]

omit [LinearOrder K] in
/-- Negating one of two lists negates what they deviate by together. -/
theorem codeviation_neg (xs ys : List K) : codeviation xs (ys.map (-·)) = -codeviation xs ys := by
  rw [codeviation, deviations_neg, List.zipWith_map_right, codeviation, List.sum_neg,
    List.map_zipWith]
  simp only [mul_neg]

theorem correlation_comm [SquareRoot K] (ε : K) (xs ys : List K) :
    correlation ε xs ys = correlation ε ys xs := by
  simp only [correlation, codeviation_comm xs ys, mul_comm (scatter xs), or_comm]

/-- **Negating one of two lists** negates their correlation. -/
theorem correlation_neg [SquareRoot K] (ε : K) (xs ys : List K) :
    correlation ε xs (ys.map (-·)) = -correlation ε xs ys := by
  rw [correlation, correlation, scatter_neg, codeviation_neg, neg_div]
  split
  · exact neg_zero.symm
  · rfl

variable [IsStrictOrderedRing K]

/-- A variance is not negative. -/
theorem variance_nonneg (xs : List K) : 0 ≤ variance xs := by
  refine div_nonneg (List.sum_nonneg fun y hy => ?_) (Nat.cast_nonneg _)
  obtain ⟨x, -, rfl⟩ := List.mem_map.mp hy
  exact mul_self_nonneg _

/-- **A weighted sum of bounded numbers** is bounded by the weight of all. -/
theorem abs_sum_mul_le {ι : Type} {rows : List ι} {weight value : ι → K} {bound : K}
    (hweight : ∀ i ∈ rows, 0 ≤ weight i) (hvalue : ∀ i ∈ rows, |value i| ≤ bound) :
    |(rows.map fun i => weight i * value i).sum| ≤ (rows.map weight).sum * bound := by
  induction rows with
  | nil => simp
  | cons i rows ih =>
      rw [List.forall_mem_cons] at hweight hvalue
      have hfirst : |weight i * value i| ≤ weight i * bound := by
        rw [abs_mul, abs_of_nonneg hweight.1]
        exact mul_le_mul_of_nonneg_left hvalue.1 hweight.1
      rw [List.map_cons, List.sum_cons, List.map_cons, List.sum_cons, add_mul]
      exact (abs_add_le _ _).trans (add_le_add hfirst (ih hweight.2 hvalue.2))

/-- A deviation is not negative. -/
theorem deviation_nonneg [SquareRoot K] (xs : List K) : 0 ≤ deviation xs := by
  rcases (variance_nonneg xs).eq_or_lt with h | h
  · rw [deviation, ← h, SquareRoot.sqrt_zero]
  · exact (SquareRoot.sqrt_pos _ h).le

end Statistics

/-! ### Ranks -/

/-- **The place of a value** in a descending list that has it once is the number of larger ones. -/
theorem countP_of_pairwise {α : Type} [LinearOrder α] {xs : List α} (h : xs.Pairwise (· ≥ ·))
    {place : ℕ} {x : α} (hplace : xs[place]? = some x) (hone : xs.count x ≤ 1) :
    xs.countP (x < ·) = place := by
  induction xs generalizing place with
  | nil => simp at hplace
  | cons y ys ih =>
      obtain ⟨hy, hys⟩ := List.pairwise_cons.mp h
      cases place with
      | zero =>
          obtain rfl : y = x := by simpa using hplace
          rw [List.countP_eq_zero]
          intro z hz
          rcases List.mem_cons.mp hz with rfl | hz
          · simp
          · simpa using hy z hz
      | succ place =>
          rw [List.getElem?_cons_succ] at hplace
          have hmem : x ∈ ys := List.mem_of_getElem? hplace
          have hlt : x < y := by
            refine lt_of_le_of_ne (hy x hmem) ?_
            rintro rfl
            have hpos := List.count_pos_iff.mpr hmem
            rw [List.count_cons_self] at hone
            omega
          rw [List.countP_cons_of_pos (by simpa using hlt),
            ih hys hplace ((List.count_le_count_cons).trans hone)]

end Lib
