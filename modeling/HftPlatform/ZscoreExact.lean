import HftPlatform.Lib.Statistics
import HftPlatform.ZscoreModel

/-!
# The z-score model in exact arithmetic

What the functions of the model compute over extended numbers. Series are sanitized before
anything is computed from them, so that every statistic is one of numbers.

## Main results

* `calculateMean_eq`, `calculateStd_eq`, `pearsonCorrelation_eq`: the statistics of numbers.
* `prepareFactor_correlation`: the correlation of a prepared factor is a number.
-/

namespace HftPlatform.ZscoreModel

open Lib Extended

/-- The numbers of a series. -/
def numbers {K : Type} (values : List (Extended K)) : List K :=
  values.filterMap fun
    | fin x => some x
    | _ => none

/-- The numbers of a series of numbers. -/
@[simp] theorem numbers_map_fin {K : Type} (xs : List K) : numbers (xs.map fin) = xs := by
  simp [numbers, List.filterMap_map]

/-- A number of a series is one of its values. -/
theorem mem_numbers {K : Type} {values : List (Extended K)} {x : K} :
    x ∈ numbers values ↔ fin x ∈ values := by
  rw [numbers, List.mem_filterMap]
  constructor
  · rintro ⟨value, hvalue, hx⟩
    cases value with
    | nan | inf s => cases hx
    | fin y => cases hx; exact hvalue
  · exact fun hx => ⟨fin x, hx, rfl⟩

variable {K : Type} [Field K] [LinearOrder K] [SquareRoot K]

/-- **A sanitized series** is that of its numbers. -/
theorem sanitizeSeries_eq (values : List (Extended K)) :
    sanitizeSeries values = (numbers values).map fin := by
  induction values with
  | nil => rfl
  | cons x xs ih =>
      rw [sanitizeSeries] at ih ⊢
      cases x with
      | nan | inf s => simpa [numbers, Double.isFinite] using ih
      | fin a => simpa [numbers, Double.isFinite] using ih

/-- A series of finite values is one of numbers. -/
theorem map_fin_numbers {values : List (Extended K)}
    (h : ∀ value ∈ values, Double.isFinite value = true) : (numbers values).map fin = values := by
  rw [← sanitizeSeries_eq]
  exact List.filter_eq_self.mpr h

/-- An aligned pair of series is one of numbers, of one length. -/
theorem exists_sanitizeAlignedPair (seriesA seriesB : List (Extended K)) :
    ∃ xs ys : List K, xs.length = ys.length ∧
      sanitizeAlignedPair seriesA seriesB = (xs.map fin, ys.map fin) := by
  rw [sanitizeAlignedPair]
  generalize (seriesA.drop _).zip (seriesB.drop _) = pairs
  induction pairs with
  | nil => exact ⟨[], [], rfl, rfl⟩
  | cons p pairs ih =>
      obtain ⟨xs, ys, hlen, hpairs⟩ := ih
      obtain ⟨x, y⟩ := p
      by_cases hboth : (Double.isFinite x && Double.isFinite y) = true
      · obtain ⟨hx, hy⟩ := Bool.and_eq_true_iff.mp hboth
        obtain ⟨a, rfl⟩ := isFinite_iff.mp hx
        obtain ⟨b, rfl⟩ := isFinite_iff.mp hy
        refine ⟨a :: xs, b :: ys, by simp [hlen], ?_⟩
        rw [List.filter_cons_of_pos (by simp), List.unzip_cons, hpairs]
        rfl
      · exact ⟨xs, ys, hlen, by rw [List.filter_cons_of_neg (by simpa using hboth), hpairs]⟩

variable [IsStrictOrderedRing K]

/-- **The mean** of a series is that of its numbers. -/
theorem calculateMean_eq (values : List (Extended K)) :
    calculateMean values =
      if numbers values = [] then none else some (fin (mean (numbers values))) := by
  rw [calculateMean, sanitizeSeries_eq]
  by_cases h : numbers values = []
  · simp [h]
  · have hlen : ((numbers values).length : K) ≠ 0 := by
      simpa using h
    simp only [List.map_eq_nil_iff, h, if_false, List.length_map, lit_fin, Rat.cast_natCast, sum_eq,
      sum_map_fin, div_fin _ hlen, mean]

/-- The variance that the program computes for numbers. -/
theorem variance_fin {xs : List K} (h : xs ≠ []) :
    Double.sum ((xs.map fin).map fun value : Extended K =>
        (value - fin (mean xs)) * (value - fin (mean xs))) / Double.lit (xs.map fin).length =
      fin (variance xs) := by
  have hlen : (xs.length : K) ≠ 0 := by
    simpa using h
  have hsquares : (xs.map fin).map (fun value : Extended K =>
      (value - fin (mean xs)) * (value - fin (mean xs))) =
        (xs.map fun x => (x - mean xs) * (x - mean xs)).map fin := by
    simp
  rw [hsquares, sum_eq, sum_map_fin, lit_fin, List.length_map, Rat.cast_natCast, div_fin _ hlen,
    variance]

/-- **The standard deviation** of a series is that of its numbers. -/
theorem calculateStd_eq (values : List (Extended K)) :
    calculateStd values =
      if numbers values = [] then none else some (fin (deviation (numbers values))) := by
  rw [calculateStd, sanitizeSeries_eq]
  by_cases h : numbers values = []
  · simp [h]
  simp only [List.map_eq_nil_iff, h, if_false]
  split
  · rename_i hone
    rw [List.length_map] at hone
    obtain ⟨x, hx⟩ := List.length_eq_one_iff.mp hone
    simp [hx, deviation_singleton]
  · simp only [calculateMean_eq, numbers_map_fin, h, if_false, Option.bind_eq_bind,
      Option.bind_some, Option.pure_def]
    rw [variance_fin h, lit_fin, Rat.cast_zero, max_fin, max_eq_left (variance_nonneg _),
      sqrt_fin (variance_nonneg _), deviation]

/-- The constant `EPSILON`, as a number. -/
def smallest : K := 1 / 10 ^ 12

omit [SquareRoot K] in
/-- The threshold is positive. -/
theorem smallest_pos : (0 : K) < smallest := by
  rw [smallest]
  positivity

/-- The threshold as a number. -/
@[simp] theorem epsilon_eq : (epsilon : Extended K) = fin smallest := by
  rw [epsilon, lit_fin, smallest]
  norm_num

/-- The z-score of numbers. -/
theorem calculateZscore_eq (value mean std : K) :
    calculateZscore (fin value) (fin mean) (fin std) =
      fin (if |std| ≤ smallest then 0 else (value - mean) / std) := by
  rw [calculateZscore]
  simp only [isFinite_fin, Bool.not_true, Bool.or_self, Bool.false_eq_true, if_false, abs_fin,
    epsilon_eq, le_fin, decide_eq_true_eq, sub_fin]
  by_cases hstd : |std| ≤ smallest
  · rw [if_pos hstd, if_pos hstd, lit_fin, Rat.cast_zero]
  · rw [if_neg hstd, if_neg hstd]
    refine div_fin _ fun h => hstd ?_
    rw [h, abs_zero]
    exact smallest_pos.le

/-- The correlation of the ends of two series of numbers. -/
def pearson (xs ys : List K) : K :=
  let len := min xs.length ys.length
  if len < 2 then 0
  else correlation smallest (xs.drop (xs.length - len)) (ys.drop (ys.length - len))

/-- **The correlation** of two series of numbers is a number. -/
theorem pearsonCorrelation_eq (xs ys : List K) :
    pearsonCorrelation (xs.map fin) (ys.map fin) = (fin (pearson xs ys) : Extended K) := by
  rw [pearsonCorrelation, pearson]
  simp only [List.length_map]
  split
  · simp
  rename_i hlen
  simp only [← List.map_drop]
  have hxs : xs.drop (xs.length - min xs.length ys.length) ≠ [] := by
    rw [Ne, List.drop_eq_nil_iff]
    omega
  have hys : ys.drop (ys.length - min xs.length ys.length) ≠ [] := by
    rw [Ne, List.drop_eq_nil_iff]
    omega
  generalize xs.drop _ = as at hxs ⊢
  generalize ys.drop _ = bs at hys ⊢
  have hdev : ∀ zs : List K, (zs.map fin).map (fun z : Extended K => z - fin (mean zs)) =
      (zs.map (· - mean zs)).map fin := fun zs => by simp
  have hsquares : ∀ zs : List K, (zs.map fin).map (fun d : Extended K => d * d) =
      (zs.map fun d => d * d).map fin := fun zs => by simp
  have hproducts : ∀ us vs : List K, List.zipWith (· * ·) (us.map fin) (vs.map fin) =
      ((List.zipWith (· * ·) us vs).map fin : List (Extended K)) := fun us vs => by
    simp [List.zipWith_map, List.map_zipWith]
  simp only [calculateMean_eq, numbers_map_fin, hxs, hys, if_false, hdev, hproducts, hsquares,
    sum_eq, sum_map_fin, epsilon_eq, le_fin, Bool.or_eq_true, decide_eq_true_eq, lit_fin,
    Rat.cast_zero, mul_fin]
  change (if scatter as ≤ smallest ∨ scatter bs ≤ smallest then fin 0
    else fin (codeviation as bs) / Double.sqrt (fin (scatter as * scatter bs))) = _
  rw [correlation]
  by_cases hvary : scatter as ≤ smallest ∨ scatter bs ≤ smallest
  · rw [if_pos hvary, if_pos hvary]
  · rw [if_neg hvary, if_neg hvary]
    rw [not_or, not_le, not_le] at hvary
    have hproduct : 0 < scatter as * scatter bs :=
      mul_pos (smallest_pos.trans hvary.1) (smallest_pos.trans hvary.2)
    rw [sqrt_fin hproduct.le, div_fin _ (SquareRoot.sqrt_pos _ hproduct).ne']

/-- **The correlation of a prepared factor** is a number. -/
theorem prepareFactor_correlation (cfg : SignalBuildConfig (Extended K)) (i : ℕ)
    (factor : FactorInput (Extended K)) :
    ∃ c : K, (prepareFactor cfg i factor).correlation = fin c := by
  rcases (prepareFactor_spec cfg i factor).correlation with h | ⟨seriesA, seriesB, h⟩
  · exact ⟨0, h.trans (congrArg fin Rat.cast_zero)⟩
  · obtain ⟨xs, ys, -, hpair⟩ := exists_sanitizeAlignedPair seriesA seriesB
    exact ⟨_, by rw [h, hpair, pearsonCorrelation_eq]⟩

end HftPlatform.ZscoreModel
