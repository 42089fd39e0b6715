import HftPlatform.SignalParts
import Mathlib.Algebra.Order.Group.MinMax

/-!
# The signs of a signal

Without hints, what the model makes of a factor is fixed up to signs. Negated returns negate the
correlation of every factor, and with it the signal. A factor that is negated on its own changes
the sign of its correlation and of its z-score, and its contribution stays.

## Main results

* `prepareFactor_negateReturns`, `prepareFactor_negateFactor`: what becomes of a factor.
* `buildZscoreSignal_negateReturns`: negated returns negate the signal.
* `buildZscoreSignal_negateFactor`: a negated factor leaves the signal as it is.
-/

namespace HftPlatform.ZscoreModel

open Lib Extended

/-! ### Negated data -/

section Data

variable {F : Type} [Double F]

/-- The factor with every return negated. -/
def FactorInput.negateReturns (factor : FactorInput F) : FactorInput F :=
  { factor with returnSeries := factor.returnSeries.map (-·) }

/-- The factor with its series and its current value negated. -/
def FactorInput.negateFactor (factor : FactorInput F) : FactorInput F :=
  { factor with
    series := factor.series.map (-·)
    currentValue := factor.currentValue.map (-·) }

/-- What is prepared from negated returns. -/
def PreparedFactor.negateReturns (row : PreparedFactor F) : PreparedFactor F :=
  { row with
    factor := row.factor.negateReturns
    correlation := -row.correlation
    sign := -row.sign
    contribution := -row.contribution }

/-- What is prepared from a negated factor. -/
def PreparedFactor.negateFactor (row : PreparedFactor F) : PreparedFactor F :=
  { row with
    factor := row.factor.negateFactor
    correlation := -row.correlation
    sign := -row.sign
    zscore := -row.zscore }

/-- What becomes of a contribution when the returns change their sign. -/
def FactorContribution.negateReturns (c : FactorContribution F) : FactorContribution F :=
  { c with correlation := -c.correlation, sign := -c.sign, contribution := -c.contribution }

/-- What becomes of a contribution when its factor changes its sign. -/
def FactorContribution.negateFactor (c : FactorContribution F) : FactorContribution F :=
  { c with correlation := -c.correlation, sign := -c.sign, zscore := -c.zscore }

/-- The result with the signs of negated returns: weights and ranks are kept. -/
def SignalResult.negateReturns (result : SignalResult F) : SignalResult F :=
  { result with
    signal := -result.signal
    predictedReturn := -result.predictedReturn
    meanReturn := -result.meanReturn
    contributions := result.contributions.map (·.negateReturns) }

omit [Double F] in
/-- A map of the last values is taken from the mapped list. -/
theorem tail_map (f : F → F) (values : List F) (n : ℕ) :
    tail (values.map f) n = (tail values n).map f := by
  rw [tail, tail, List.length_map]
  split
  · rfl
  split
  · rfl
  · exact List.map_drop.symm

/-- A change that keeps what is finite can be made after the alignment. -/
theorem sanitizeAlignedPair_map {f g : F → F} (hf : ∀ x, Double.isFinite (f x) = Double.isFinite x)
    (hg : ∀ x, Double.isFinite (g x) = Double.isFinite x) (seriesA seriesB : List F) :
    sanitizeAlignedPair (seriesA.map f) (seriesB.map g) =
      ((sanitizeAlignedPair seriesA seriesB).1.map f,
        (sanitizeAlignedPair seriesA seriesB).2.map g) := by
  simp only [sanitizeAlignedPair, List.length_map, ← List.map_drop]
  generalize seriesA.drop _ = as
  generalize seriesB.drop _ = bs
  have hpairs : (as.map f).zip (bs.map g) = (as.zip bs).map (Prod.map f g) := by
    rw [List.zip_map]
  rw [hpairs, List.filter_map, List.unzip_eq_map, List.unzip_eq_map]
  simp only [List.map_map, Function.comp_def, Prod.map_fst, Prod.map_snd, hf, hg]

end Data

/-! ### Statistics of negated series -/

section Series

variable {K : Type} [Field K] [LinearOrder K] [SquareRoot K]

/-- The finite values of a negated series are the negated ones. -/
theorem sanitizeSeries_neg (values : List (Extended K)) :
    sanitizeSeries (values.map (-·)) = (sanitizeSeries values).map (-·) := by
  rw [sanitizeSeries, List.filter_map]
  simp only [Function.comp_def, isFinite_neg, sanitizeSeries]

/-- So are its numbers. -/
theorem numbers_neg (values : List (Extended K)) :
    numbers (values.map (-·)) = (numbers values).map (-·) := by
  have h := sanitizeSeries_neg values
  have hfin : ((numbers values).map fin).map (-·) =
      (((numbers values).map (-·)).map fin : List (Extended K)) := by
    simp
  rw [sanitizeSeries_eq, sanitizeSeries_eq, hfin] at h
  exact List.map_injective_iff.mpr (fun _ _ heq => Extended.fin.inj heq) h

variable [IsStrictOrderedRing K]

/-- A negated series has the negated mean. -/
theorem calculateMean_neg (values : List (Extended K)) :
    calculateMean (values.map (-·)) = (calculateMean values).map (-·) := by
  rw [calculateMean_eq, calculateMean_eq, numbers_neg, mean_neg]
  by_cases h : numbers values = [] <;> simp [h]

/-- A negated series has the same deviation. -/
theorem calculateStd_neg (values : List (Extended K)) :
    calculateStd (values.map (-·)) = calculateStd values := by
  rw [calculateStd_eq, calculateStd_eq, numbers_neg, deviation_neg]
  simp

/-- A negated value of a negated series has the negated score. -/
theorem calculateZscore_neg (value mean std : Extended K) :
    calculateZscore (-value) (-mean) std = -calculateZscore value mean std := by
  simp only [calculateZscore, isFinite_neg, neg_sub_neg_eq, neg_div_eq]
  split
  · exact neg_lit_zero.symm
  split
  · exact neg_lit_zero.symm
  · rfl

omit [IsStrictOrderedRing K] in
/-- The correlation does not depend on the order of the two series. -/
theorem pearson_comm (xs ys : List K) : pearson xs ys = pearson ys xs := by
  simp only [pearson, min_comm xs.length ys.length, correlation_comm smallest (xs.drop _)]

omit [IsStrictOrderedRing K] in
/-- The correlation with a negated series is the negated one. -/
theorem pearson_neg (xs ys : List K) : pearson xs (ys.map (-·)) = -pearson xs ys := by
  simp only [pearson, List.length_map, ← List.map_drop, correlation_neg]
  split
  · exact neg_zero.symm
  · rfl

/-- A change of two aligned series that negates their correlation. -/
structure Flips (f g : Extended K → Extended K) : Prop where
  finite_left : ∀ x, Double.isFinite (f x) = Double.isFinite x
  finite_right : ∀ x, Double.isFinite (g x) = Double.isFinite x
  correlation : ∀ seriesA seriesB,
    pearsonCorrelation ((sanitizeAlignedPair seriesA seriesB).1.map f)
        ((sanitizeAlignedPair seriesA seriesB).2.map g) =
      -pearsonCorrelation (sanitizeAlignedPair seriesA seriesB).1
        (sanitizeAlignedPair seriesA seriesB).2

omit [IsStrictOrderedRing K] in
/-- A series of numbers is negated number by number. -/
theorem map_neg_map_fin (xs : List K) :
    (xs.map fin).map (-·) = ((xs.map (-·)).map fin : List (Extended K)) := by
  simp

/-- Negating the second series negates the correlation. -/
theorem flips_right : Flips (K := K) id (-·) where
  finite_left _ := rfl
  finite_right := isFinite_neg
  correlation seriesA seriesB := by
    obtain ⟨xs, ys, -, hpair⟩ := exists_sanitizeAlignedPair seriesA seriesB
    rw [hpair]
    dsimp only
    rw [List.map_id, map_neg_map_fin, pearsonCorrelation_eq, pearsonCorrelation_eq, pearson_neg,
      neg_fin]

/-- Negating the first series negates the correlation. -/
theorem flips_left : Flips (K := K) (-·) id where
  finite_left := isFinite_neg
  finite_right _ := rfl
  correlation seriesA seriesB := by
    obtain ⟨xs, ys, -, hpair⟩ := exists_sanitizeAlignedPair seriesA seriesB
    rw [hpair]
    dsimp only
    rw [List.map_id, map_neg_map_fin, pearsonCorrelation_eq, pearsonCorrelation_eq, pearson_comm,
      pearson_neg, pearson_comm, neg_fin]

/-- **A negated correlation** has the opposite sign: the dead zone around zero is symmetric. -/
theorem Flips.detectFactorCorrelationSign {f g : Extended K → Extended K} (h : Flips f g)
    (seriesA seriesB : List (Extended K)) :
    detectFactorCorrelationSign (seriesA.map f) (seriesB.map g) =
      -detectFactorCorrelationSign seriesA seriesB := by
  have hcorr : ∃ c : K, pearsonCorrelation (sanitizeAlignedPair seriesA seriesB).1
      (sanitizeAlignedPair seriesA seriesB).2 = fin c := by
    obtain ⟨xs, ys, -, hpair⟩ := exists_sanitizeAlignedPair seriesA seriesB
    rw [hpair]
    exact ⟨_, pearsonCorrelation_eq xs ys⟩
  obtain ⟨c, hc⟩ := hcorr
  simp only [ZscoreModel.detectFactorCorrelationSign,
    sanitizeAlignedPair_map h.finite_left h.finite_right, h.correlation, hc, neg_fin, abs_fin,
    abs_neg, epsilon_eq, le_fin, lit_fin, Rat.cast_zero, lt_fin, decide_eq_true_eq]
  by_cases hsmall : |c| ≤ smallest
  · rw [if_pos hsmall, if_pos hsmall, neg_zero]
  · have hne : c ≠ 0 := by
      rintro rfl
      exact hsmall (abs_zero.trans_le smallest_pos.le)
    rw [if_neg hsmall, if_neg hsmall]
    rcases lt_or_gt_of_ne hne with hneg | hpos
    · rw [if_pos (neg_pos.mpr hneg), if_neg hneg.not_gt, neg_neg]
    · rw [if_neg (neg_neg_of_pos hpos).not_gt, if_pos hpos]

/-- A clamp around zero is odd. -/
theorem clamp_neg (z : K) {w : Extended K} (hw : Double.le (Double.lit 0) w = true) :
    clamp (-fin z) (-w) w = -clamp (fin z) (-w) w := by
  cases w with
  | nan => simp [Double.le, le] at hw
  | inf s =>
      cases s with
      | false => rfl
      | true => simp [Double.le, le] at hw
  | fin w =>
      have hw' : (0 : K) ≤ w := by simpa using hw
      simp only [clamp, neg_fin, max_fin, min_fin]
      rw [← max_neg_neg, ← min_neg_neg, neg_neg, max_min_distrib_right,
        max_eq_left ((neg_nonpos.mpr hw').trans hw')]

end Series

/-! ### Negated factors -/

section Factors

variable {K : Type} [Field K] [LinearOrder K] [IsStrictOrderedRing K] [SquareRoot K]
  {config : SignalBuildConfig (Extended K)}

/-- **A factor with negated returns** keeps its z-score. -/
theorem prepareFactor_negateReturns (i : ℕ) {factor : FactorInput (Extended K)}
    (hhint : factor.directionHint = none) :
    prepareFactor config i factor.negateReturns =
      (prepareFactor config i factor).negateReturns := by
  have hpair := sanitizeAlignedPair_map (flips_right (K := K)).finite_left flips_right.finite_right
  have hcorr := (flips_right (K := K)).correlation
  have hsign := (flips_right (K := K)).detectFactorCorrelationSign
  simp only [List.map_id] at hpair hcorr hsign
  simp only [prepareFactor, FactorInput.negateReturns, sanitizeSeries_neg, List.length_map,
    tail_map, hpair, hcorr, hsign, hhint, Option.getD_none, abs_neg_eq,
    apply_ite PreparedFactor.negateReturns]
  -- Every way to reject the factor, and to let it pass, depends on what is the same.
  simp only [rejectedFactor, PreparedFactor.negateReturns, FactorInput.negateReturns, hhint,
    neg_lit_zero, neg_zero]

omit [IsStrictOrderedRing K] in
/-- The current value of a negated factor. -/
theorem currentValue_neg (currentValue : Option (Extended K)) (values : List (Extended K)) :
    ((currentValue.map (-·)) <|> (values.map (-·)).getLast?).getD Double.nan =
      -(currentValue <|> values.getLast?).getD Double.nan := by
  cases currentValue with
  | some value => rfl
  | none =>
      show ((values.map (-·)).getLast?).getD Double.nan = -(values.getLast?).getD Double.nan
      rw [List.getLast?_map]
      cases values.getLast? <;> rfl

/-- The clamped z-score of a negated factor. -/
theorem zscore_neg (hw : Double.le (Double.lit 0) config.winsorizeZscoreAt = true)
    (value : Extended K) (segment : List (Extended K)) :
    clamp (calculateZscore (-value) ((calculateMean (segment.map (-·))).getD (Double.lit 0))
        ((calculateStd (segment.map (-·))).getD (Double.lit 0)))
        (-config.winsorizeZscoreAt) config.winsorizeZscoreAt =
      -clamp (calculateZscore value ((calculateMean segment).getD (Double.lit 0))
        ((calculateStd segment).getD (Double.lit 0)))
        (-config.winsorizeZscoreAt) config.winsorizeZscoreAt := by
  have hmean : (calculateMean (segment.map (-·))).getD (Double.lit 0) =
      -(calculateMean segment).getD (Double.lit 0) := by
    rw [calculateMean_neg]
    cases calculateMean segment with
    | none => exact neg_lit_zero.symm
    | some mean => rfl
  obtain ⟨z, hz⟩ := exists_calculateZscore value segment
  rw [hmean, calculateStd_neg, calculateZscore_neg, hz, clamp_neg z hw]

/-- **A negated factor** has the opposite correlation and the opposite z-score. -/
theorem prepareFactor_negateFactor (hw : Double.le (Double.lit 0) config.winsorizeZscoreAt = true)
    (i : ℕ) {factor : FactorInput (Extended K)} (hhint : factor.directionHint = none) :
    prepareFactor config i factor.negateFactor = (prepareFactor config i factor).negateFactor := by
  have hpair := sanitizeAlignedPair_map (flips_left (K := K)).finite_left flips_left.finite_right
  have hcorr := (flips_left (K := K)).correlation
  have hsign := (flips_left (K := K)).detectFactorCorrelationSign
  simp only [List.map_id] at hpair hcorr hsign
  simp only [prepareFactor, FactorInput.negateFactor, sanitizeSeries_neg, List.length_map,
    tail_map, hpair, hcorr, hsign, hhint, Option.getD_none, abs_neg_eq, currentValue_neg,
    isFinite_neg, zscore_neg hw, apply_ite PreparedFactor.negateFactor]
  simp only [rejectedFactor, PreparedFactor.negateFactor, FactorInput.negateFactor, hhint,
    neg_lit_zero, neg_zero]

/-! ### Negated rows -/

omit [IsStrictOrderedRing K] in
/-- A negated sign is the negated number. -/
theorem lit_neg_sign (s : ℤ) :
    (Double.lit ((-s : ℤ) : ℚ) : Extended K) = -Double.lit (s : ℚ) := by
  simp

/-- A factor keeps its weight when the returns change their sign. -/
theorem weigh_negateReturns (place : ℕ) (row : PreparedFactor (Extended K)) :
    weigh config place row.negateReturns = (weigh config place row).negateReturns := by
  simp only [weigh, PreparedFactor.negateReturns, FactorInput.negateReturns, abs_neg_eq,
    lit_neg_sign, neg_mul]

/-- A factor keeps its weight when its values change their sign. -/
theorem weigh_negateFactor (place : ℕ) (row : PreparedFactor (Extended K)) :
    weigh config place row.negateFactor = (weigh config place row).negateFactor := by
  simp only [weigh, PreparedFactor.negateFactor, FactorInput.negateFactor, abs_neg_eq,
    lit_neg_sign, neg_mul_neg]

/-- The ranking does not see negated returns. -/
theorem transparent_negateReturns : Transparent config PreparedFactor.negateReturns where
  passed _ := rfl
  abs_correlation row := abs_neg_eq row.correlation
  weighed := weigh_negateReturns

/-- The factor at an index, negated. -/
def negateAt (j : ℕ) (row : PreparedFactor (Extended K)) : PreparedFactor (Extended K) :=
  if row.factorIndex = j then row.negateFactor else row

/-- The ranking does not see that one factor is negated. -/
theorem transparent_negateAt (j : ℕ) : Transparent config (negateAt j) where
  passed row := by
    rw [negateAt]
    split <;> rfl
  abs_correlation row := by
    rw [negateAt]
    split
    · exact abs_neg_eq row.correlation
    · rfl
  weighed place row := by
    show weigh config place (if row.factorIndex = j then row.negateFactor else row) =
      if row.factorIndex = j then (weigh config place row).negateFactor else weigh config place row
    split
    · exact weigh_negateFactor place row
    · rfl

/-! ### Negated returns -/

section Returns

variable {factors : List (FactorInput (Extended K))} {show4 : Extended K → String}

/-- The prepared factors and their ranking when the returns change their sign. -/
theorem rankedFactors_negateReturns (config : SignalBuildConfig (Extended K))
    (hhint : ∀ factor ∈ factors, factor.directionHint = none) :
    (factors.map (·.negateReturns)).mapIdx (prepareFactor config) =
        (factors.mapIdx (prepareFactor config)).map (·.negateReturns) ∧
      rankedFactors config (factors.map (·.negateReturns)) =
        (rankedFactors config factors).map (·.negateReturns) := by
  have hprepared : (factors.map (·.negateReturns)).mapIdx (prepareFactor config) =
      (factors.mapIdx (prepareFactor config)).map (·.negateReturns) := by
    refine List.ext_getElem (by simp) fun i hi _ => ?_
    rw [List.getElem_mapIdx, List.getElem_map, List.getElem_map, List.getElem_mapIdx]
    exact prepareFactor_negateReturns i (hhint _ (List.getElem_mem _))
  refine ⟨hprepared, ?_⟩
  rw [rankedFactors, hprepared]
  exact transparent_negateReturns.rank_map

/-- The weighted sum changes its sign with the returns. -/
theorem weightedSignal_negateReturns (ranked : List (PreparedFactor (Extended K))) :
    weightedSignal (ranked.map (·.negateReturns)) = -weightedSignal ranked := by
  rw [weightedSignal, weightedSignal,
    normalizedDenominator_map (f := (·.negateReturns)) fun _ => rfl, ← sum_map_neg, List.map_map,
    List.map_map]
  refine congrArg Double.sum (List.map_congr_left fun row _ => ?_)
  exact mul_neg _ _

omit [IsStrictOrderedRing K] in
/-- The reference returns are the negated ones. -/
theorem referenceReturns_negateReturns (ranked : List (PreparedFactor (Extended K))) :
    referenceReturns config (ranked.map (·.negateReturns)) =
      (referenceReturns config ranked).map (-·) := by
  rw [referenceReturns, referenceReturns, List.head?_map]
  cases ranked.head? with
  | none => rfl
  | some row =>
      simp only [Option.map_some, PreparedFactor.negateReturns, FactorInput.negateReturns,
        sanitizeSeries_neg, tail_map]

/-- The contributions when the returns change their sign. -/
theorem contributions_negateReturns (hhint : ∀ factor ∈ factors, factor.directionHint = none) :
    (buildZscoreSignal show4 (factors.map (·.negateReturns)) config).contributions =
      (buildZscoreSignal show4 factors config).contributions.map (·.negateReturns) := by
  obtain ⟨hprepared, hranked⟩ := rankedFactors_negateReturns config hhint
  rw [contributions_eq, contributions_eq, hprepared, hranked,
    normalizedDenominator_map (f := (·.negateReturns)) fun _ => rfl, List.map_map, List.map_map,
    ← hranked, rankedFactors, hprepared, rankedFactors]
  refine List.map_congr_left fun row hrow => ?_
  refine transparent_negateReturns.contributionOf_map (fun _ => rfl) (nodup_prepared factors)
    hrow (fun place => ?_) ?_
  · simp only [rankedContribution, PreparedFactor.negateReturns, FactorContribution.negateReturns,
      mul_neg]
    rfl
  · simp only [rejectedContribution, PreparedFactor.negateReturns,
      FactorContribution.negateReturns, neg_lit_zero]
    rfl

/-- **Negated returns negate the signal**: the result has the opposite signs, and keeps its
weights and its ranks. -/
theorem buildZscoreSignal_negateReturns
    (hhint : ∀ factor ∈ factors, factor.directionHint = none) (hmean : config.meanReturn = none) :
    buildZscoreSignal show4 (factors.map (·.negateReturns)) config =
      (buildZscoreSignal show4 factors config).negateReturns := by
  by_cases h : factors = []
  · subst h
    simp [buildZscoreSignal, SignalResult.negateReturns]
  have h' : factors.map (·.negateReturns) ≠ [] := by simpa using h
  obtain ⟨hprepared, hranked⟩ := rankedFactors_negateReturns config hhint
  have hframe := frame_eq show4 (List.length_map _)
    (by rw [hranked, List.length_map])
    (by rw [hranked, totalWeight_map (f := (·.negateReturns)) fun _ => rfl])
  simp only [Prod.mk.injEq] at hframe
  obtain ⟨hsuppressed, hreasons, hregime, hvolatility, hused, htotal⟩ := hframe
  have hsignal : (buildZscoreSignal show4 (factors.map (·.negateReturns)) config).signal =
      -(buildZscoreSignal show4 factors config).signal := by
    rw [signal_eq, hsuppressed, signal_eq, hranked, weightedSignal_negateReturns]
    split
    · exact neg_lit_zero.symm
    · rfl
  have hmeanReturn : (buildZscoreSignal show4 (factors.map (·.negateReturns)) config).meanReturn =
      -(buildZscoreSignal show4 factors config).meanReturn := by
    rw [meanReturn_eq h', meanReturn_eq h, hranked, referenceReturns_negateReturns, hmean,
      calculateMean_neg]
    cases calculateMean (referenceReturns config (rankedFactors config factors)) with
    | none => exact neg_lit_zero.symm
    | some mean => rfl
  have hstdReturn : (buildZscoreSignal show4 (factors.map (·.negateReturns)) config).stdReturn =
      (buildZscoreSignal show4 factors config).stdReturn := by
    rw [stdReturn_eq h', stdReturn_eq h, hranked, referenceReturns_negateReturns, calculateStd_neg]
  have hpredicted :
      (buildZscoreSignal show4 (factors.map (·.negateReturns)) config).predictedReturn =
        -(buildZscoreSignal show4 factors config).predictedReturn := by
    rw [predictedReturn_eq h', predictedReturn_eq h, hsignal, hmeanReturn, hstdReturn, mul_neg,
      neg_add_eq]
  exact SignalResult.ext hsignal hpredicted hmeanReturn hstdReturn hsuppressed hreasons hregime
    hvolatility hused htotal (contributions_negateReturns hhint)

end Returns

/-! ### A negated factor -/

section Factor

variable {factors : List (FactorInput (Extended K))} {show4 : Extended K → String}

/-- The prepared factors and their ranking when one factor changes its sign. -/
theorem rankedFactors_modify (hw : Double.le (Double.lit 0) config.winsorizeZscoreAt = true)
    (hhint : ∀ factor ∈ factors, factor.directionHint = none) (j : ℕ) :
    (factors.modify j (·.negateFactor)).mapIdx (prepareFactor config) =
        (factors.mapIdx (prepareFactor config)).map (negateAt j) ∧
      rankedFactors config (factors.modify j (·.negateFactor)) =
        (rankedFactors config factors).map (negateAt j) := by
  have hprepared : (factors.modify j (·.negateFactor)).mapIdx (prepareFactor config) =
      (factors.mapIdx (prepareFactor config)).map (negateAt j) := by
    refine List.ext_getElem (by simp) fun i hi _ => ?_
    rw [List.getElem_mapIdx, List.getElem_modify, List.getElem_map, List.getElem_mapIdx, negateAt,
      (prepareFactor_spec config i _).factorIndex]
    by_cases hij : i = j
    · rw [if_pos hij, if_pos hij.symm]
      exact prepareFactor_negateFactor hw i (hhint _ (List.getElem_mem _))
    · rw [if_neg hij, if_neg (Ne.symm hij)]
  refine ⟨hprepared, ?_⟩
  rw [rankedFactors, hprepared]
  exact (transparent_negateAt j).rank_map

omit [IsStrictOrderedRing K] in
/-- A value that negating a factor keeps is kept by negating it at an index. -/
theorem negateAt_of_eq {α : Type} {v : PreparedFactor (Extended K) → α}
    (h : ∀ row, v row.negateFactor = v row) (j : ℕ) (row : PreparedFactor (Extended K)) :
    v (negateAt j row) = v row := by
  rw [negateAt]
  split
  · exact h row
  · rfl

omit [IsStrictOrderedRing K] in
/-- A contribution that follows a negated factor follows it at an index. -/
theorem contribution_negateAt {c : PreparedFactor (Extended K) → FactorContribution (Extended K)}
    (h : ∀ row, c row.negateFactor = (c row).negateFactor) (j : ℕ)
    (row : PreparedFactor (Extended K)) :
    c (negateAt j row) = if row.factorIndex = j then (c row).negateFactor else c row := by
  rw [negateAt]
  split
  · exact h row
  · rfl

/-- The contributions when one factor changes its sign. -/
theorem contributions_negateFactor
    (hw : Double.le (Double.lit 0) config.winsorizeZscoreAt = true)
    (hhint : ∀ factor ∈ factors, factor.directionHint = none) (j : ℕ) :
    (buildZscoreSignal show4 (factors.modify j (·.negateFactor)) config).contributions =
      (buildZscoreSignal show4 factors config).contributions.modify j (·.negateFactor) := by
  obtain ⟨hprepared, hranked⟩ := rankedFactors_modify hw hhint j
  rw [contributions_eq, contributions_eq, hprepared, hranked,
    normalizedDenominator_map (negateAt_of_eq (fun _ => rfl) j), ← hranked, rankedFactors,
    hprepared, rankedFactors]
  refine List.ext_getElem (by simp) fun i hi _ => ?_
  have hi' : i < (factors.mapIdx (prepareFactor config)).length := by simpa using hi
  have hindex : ((factors.mapIdx (prepareFactor config)).get ⟨i, hi'⟩).factorIndex = i := by
    rw [List.get_eq_getElem, List.getElem_mapIdx]
    exact (prepareFactor_spec config i _).factorIndex
  rw [List.getElem_map, List.getElem_map, List.getElem_modify, List.getElem_map]
  refine ((transparent_negateAt j).contributionOf_map
    (negateAt_of_eq (v := (·.factorIndex)) (fun _ => rfl) j) (nodup_prepared factors)
    (List.getElem_mem hi') (g := fun c => if i = j then c.negateFactor else c)
    (fun place => ?_) ?_).trans ?_
  · rw [contribution_negateAt (c := rankedContribution _ place) (fun _ => rfl)]
    exact if_congr (Eq.congr_left hindex) rfl rfl
  · rw [contribution_negateAt (c := rejectedContribution) (fun _ => rfl)]
    exact if_congr (Eq.congr_left hindex) rfl rfl
  · exact if_congr eq_comm rfl rfl

/-- **A negated factor leaves the signal as it is**: only its own correlation, sign and z-score are
negated in the result. -/
theorem buildZscoreSignal_negateFactor
    (hw : Double.le (Double.lit 0) config.winsorizeZscoreAt = true)
    (hhint : ∀ factor ∈ factors, factor.directionHint = none) (j : ℕ) :
    buildZscoreSignal show4 (factors.modify j (·.negateFactor)) config =
      let result := buildZscoreSignal show4 factors config
      { result with contributions := result.contributions.modify j (·.negateFactor) } := by
  by_cases h : factors = []
  · subst h
    simp [buildZscoreSignal]
  have h' : factors.modify j (·.negateFactor) ≠ [] := by simpa using h
  obtain ⟨-, hranked⟩ := rankedFactors_modify hw hhint j
  have hframe := frame_eq show4 (List.length_modify _ _ _)
    (by rw [hranked, List.length_map])
    (by rw [hranked, totalWeight_map (negateAt_of_eq (fun _ => rfl) j)])
  simp only [Prod.mk.injEq] at hframe
  obtain ⟨hsuppressed, hreasons, hregime, hvolatility, hused, htotal⟩ := hframe
  have hreturns : referenceReturns config
      (rankedFactors config (factors.modify j (·.negateFactor))) =
        referenceReturns config (rankedFactors config factors) := by
    rw [hranked]
    exact referenceReturns_map (negateAt_of_eq (v := (·.factor.returnSeries)) (fun _ => rfl) j)
      (negateAt_of_eq (v := (·.factor.rollingWindow)) (fun _ => rfl) j) _
  have hsignal : (buildZscoreSignal show4 (factors.modify j (·.negateFactor)) config).signal =
      (buildZscoreSignal show4 factors config).signal := by
    rw [signal_eq, hsuppressed, signal_eq, hranked,
      weightedSignal_map (negateAt_of_eq (fun _ => rfl) j) (negateAt_of_eq (fun _ => rfl) j)]
  have hmeanReturn :
      (buildZscoreSignal show4 (factors.modify j (·.negateFactor)) config).meanReturn =
        (buildZscoreSignal show4 factors config).meanReturn := by
    rw [meanReturn_eq h', meanReturn_eq h, hreturns]
  have hstdReturn :
      (buildZscoreSignal show4 (factors.modify j (·.negateFactor)) config).stdReturn =
        (buildZscoreSignal show4 factors config).stdReturn := by
    rw [stdReturn_eq h', stdReturn_eq h, hreturns]
  have hpredicted :
      (buildZscoreSignal show4 (factors.modify j (·.negateFactor)) config).predictedReturn =
        (buildZscoreSignal show4 factors config).predictedReturn := by
    rw [predictedReturn_eq h', predictedReturn_eq h, hsignal, hmeanReturn, hstdReturn]
  exact SignalResult.ext hsignal hpredicted hmeanReturn hstdReturn hsuppressed hreasons hregime
    hvolatility hused htotal (contributions_negateFactor hw hhint j)

end Factor

/-! ### The sign symmetries -/

/-- **The sign symmetries of the model**, without hints and without a given mean: negated returns
negate the signal and its prediction, and one negated factor changes neither. -/
theorem sign_symmetries (show4 : Extended K → String) (factors : List (FactorInput (Extended K)))
    (config : SignalBuildConfig (Extended K))
    (hhint : ∀ factor ∈ factors, factor.directionHint = none) (hmean : config.meanReturn = none)
    (hw : Double.le (Double.lit 0) config.winsorizeZscoreAt = true) :
    let result := buildZscoreSignal show4 factors config
    buildZscoreSignal show4 (factors.map (·.negateReturns)) config = result.negateReturns ∧
      ∀ j, buildZscoreSignal show4 (factors.modify j (·.negateFactor)) config =
        { result with contributions := result.contributions.modify j (·.negateFactor) } :=
  ⟨buildZscoreSignal_negateReturns hhint hmean, buildZscoreSignal_negateFactor hw hhint⟩

end Factors

/-- The symmetries of a signal that is not zero. -/
theorem sign_symmetries_rising :
    let factors := [{ steadyFactor with series := [fin 1, fin 2], directionHint := none }]
    let result := buildZscoreSignal (fun _ => "") factors openConfig
    result.signal = fin 1 ∧ result.predictedReturn = fin (5 / 2) ∧
      buildZscoreSignal (fun _ => "") (factors.map (·.negateReturns)) openConfig =
        result.negateReturns ∧
      ∀ j, buildZscoreSignal (fun _ => "") (factors.modify j (·.negateFactor)) openConfig =
        { result with contributions := result.contributions.modify j (·.negateFactor) } :=
  ⟨by decide +kernel, by decide +kernel, sign_symmetries _
    [{ steadyFactor with series := [fin 1, fin 2], directionHint := none }] openConfig
    (by simp) rfl (by decide +kernel)⟩

end HftPlatform.ZscoreModel
