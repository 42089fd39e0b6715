import HftPlatform.SignalParts

/-!
# The bound of a signal

The weights are shares of their total, in every mode, and the z-scores are clamped, so that no
signal is larger than the clamp, and no prediction is further from the mean return than so many
standard deviations.

## Main results

* `exists_contribution`: a contribution is a number within the clamp.
* `exists_weightedSignal`: so is the weighted signal.
* `abs_signal_le`: the bound of the result.
-/

namespace HftPlatform.ZscoreModel

open Lib Extended

section Bound

variable {K : Type} [Field K] [LinearOrder K] [IsStrictOrderedRing K] [SquareRoot K]

/-- A clamped number is within the clamp. -/
theorem exists_clamp (z : K) {w : K} (hw : 0 ≤ w) :
    ∃ x : K, |x| ≤ w ∧ clamp (fin z) (-fin w) (fin w : Extended K) = fin x := by
  refine ⟨min (max z (-w)) w, abs_le.mpr ⟨?_, min_le_right _ _⟩, ?_⟩
  · exact le_min (le_max_right _ _) ((neg_nonpos.mpr hw).trans hw)
  · rw [clamp, neg_fin, max_fin, min_fin]

omit [IsStrictOrderedRing K] in
/-- A detected sign is one of three. -/
theorem detectFactorCorrelationSign_mem (seriesA seriesB : List (Extended K)) :
    detectFactorCorrelationSign seriesA seriesB = -1 ∨
      detectFactorCorrelationSign seriesA seriesB = 0 ∨
        detectFactorCorrelationSign seriesA seriesB = 1 := by
  simp only [detectFactorCorrelationSign]
  split
  · exact Or.inr (Or.inl rfl)
  split
  · exact Or.inr (Or.inr rfl)
  · exact Or.inl rfl

variable {config : SignalBuildConfig (Extended K)} {w : K}

/-- **The contribution of a factor that passes** is a number within the clamp. -/
theorem exists_contribution (hw : 0 ≤ w) (hclamp : config.winsorizeZscoreAt = fin w) (i : ℕ)
    {factor : FactorInput (Extended K)}
    (hhint : ∀ s ∈ factor.directionHint, s = -1 ∨ s = 0 ∨ s = 1)
    (hpassed : (prepareFactor config i factor).passed = true) :
    ∃ x : K, |x| ≤ w ∧ Double.lit (prepareFactor config i factor).sign *
      (prepareFactor config i factor).zscore = fin x := by
  have hsign : (prepareFactor config i factor).sign = -1 ∨
      (prepareFactor config i factor).sign = 0 ∨ (prepareFactor config i factor).sign = 1 := by
    rcases prepareFactor_sign config i factor with h | ⟨seriesA, seriesB, h⟩
    · exact Or.inr (Or.inl h)
    · rw [h]
      cases hgiven : factor.directionHint with
      | none => exact detectFactorCorrelationSign_mem seriesA seriesB
      | some s => exact hhint s hgiven
  obtain ⟨currentValue, segment, hzscore⟩ := prepareFactor_zscore i factor hpassed
  obtain ⟨z, hz⟩ := exists_calculateZscore currentValue segment
  obtain ⟨x, hx, hclamped⟩ := exists_clamp z hw
  rw [hzscore, hz, hclamp, hclamped]
  rcases hsign with h | h | h
  · exact ⟨-x, (abs_neg x).trans_le hx, by rw [h]; simp⟩
  · exact ⟨0, abs_zero.trans_le hw, by rw [h]; simp⟩
  · exact ⟨x, hx, by rw [h]; simp⟩

variable {factors : List (FactorInput (Extended K))}

/-- **A ranked factor** has a weight that is not negative and a contribution within the clamp. -/
theorem exists_ranked (hw : 0 ≤ w) (hclamp : config.winsorizeZscoreAt = fin w)
    (hdecay : Double.le (Double.lit 0) config.rankDecay = true)
    (hhint : ∀ factor ∈ factors, ∀ s ∈ factor.directionHint, s = -1 ∨ s = 0 ∨ s = 1) :
    ∀ row ∈ rankedFactors config factors, ∃ weight value : K, 0 ≤ weight ∧ |value| ≤ w ∧
      row.rawWeight = fin weight ∧ row.contribution = fin value := by
  intro row hrow
  obtain ⟨place, hplace⟩ := List.mem_iff_getElem?.mp hrow
  rw [rankedFactors, getElem?_rank, Option.map_eq_some_iff] at hplace
  obtain ⟨prepared, hprepared, rfl⟩ := hplace
  obtain ⟨hmem, hpassed⟩ := mem_sorted.mp (List.mem_of_getElem? hprepared)
  obtain ⟨i, hi, rfl⟩ := List.mem_mapIdx.mp hmem
  obtain ⟨c, hc⟩ := prepareFactor_correlation config i factors[i]
  obtain ⟨weight, hweight, hraw⟩ := exists_rawWeight hdecay hc place
  obtain ⟨value, hvalue, hcontribution⟩ := exists_contribution hw hclamp i
    (hhint _ (List.getElem_mem hi)) hpassed
  exact ⟨weight, value, hweight, hvalue, hraw, hcontribution⟩

/-- **The weighted signal** of a ranking that weighs something is a number within the clamp. -/
theorem exists_weightedSignal {ranked : List (PreparedFactor (Extended K))}
    (h : ∀ row ∈ ranked, ∃ weight value : K, 0 ≤ weight ∧ |value| ≤ w ∧
      row.rawWeight = fin weight ∧ row.contribution = fin value)
    (hvalid : modelInvalid ranked = false) :
    ∃ s : K, |s| ≤ w ∧ weightedSignal ranked = fin s := by
  choose! weight value hweight hvalue hraw hcontribution using h
  have htotal : totalWeight ranked = fin (ranked.map weight).sum := by
    rw [totalWeight, List.map_congr_left hraw, sum_eq, ← sum_map_fin, List.map_map]
    rfl
  have hpos : smallest < (ranked.map weight).sum := by
    rw [modelInvalid, htotal, epsilon_eq, le_fin] at hvalid
    simpa using (Bool.or_eq_false_iff.mp hvalid).2
  have hne : (ranked.map weight).sum ≠ 0 := (smallest_pos.trans hpos).ne'
  have hdenominator : normalizedDenominator ranked = fin (ranked.map weight).sum := by
    rw [normalizedDenominator, htotal, epsilon_eq, lt_fin, if_pos (decide_eq_true hpos)]
  have hshares : (ranked.map fun row => weight row / (ranked.map weight).sum).sum = 1 := by
    have h := sum_shares hne
    rwa [List.map_map] at h
  refine ⟨(ranked.map fun row => weight row / (ranked.map weight).sum * value row).sum, ?_, ?_⟩
  · calc |(ranked.map fun row => weight row / (ranked.map weight).sum * value row).sum|
        ≤ (ranked.map fun row => weight row / (ranked.map weight).sum).sum * w :=
          abs_sum_mul_le (fun row hrow => div_nonneg (hweight row hrow)
            (smallest_pos.trans hpos).le) hvalue
      _ = w := by rw [hshares, one_mul]
  · have hrows : ranked.map (fun row => row.rawWeight / fin (ranked.map weight).sum *
        row.contribution) = (ranked.map fun row =>
          weight row / (ranked.map weight).sum * value row).map fin := by
      rw [List.map_map]
      refine List.map_congr_left fun row hrow => ?_
      rw [hraw row hrow, hcontribution row hrow, div_fin _ hne, mul_fin, Function.comp_apply]
    rw [weightedSignal, hdenominator, hrows, sum_eq, sum_map_fin]

/-- The mean of the returns is a number. -/
theorem exists_meanReturn (meanReturn : Option (Extended K))
    (returns : List (Extended K)) (hmean : ∀ m ∈ meanReturn, Double.isFinite m = true) :
    ∃ m : K, (meanReturn <|> calculateMean returns).getD (Double.lit 0) = fin m := by
  cases meanReturn with
  | some m => exact isFinite_iff.mp (hmean m rfl)
  | none =>
      show ∃ m : K, (calculateMean returns).getD (Double.lit 0) = fin m
      rw [calculateMean_eq]
      split
      · exact ⟨_, rfl⟩
      · exact ⟨_, rfl⟩

/-- **The prediction** is the mean of the returns and so many standard deviations. -/
theorem exists_predictedReturn (show4 : Extended K → String)
    (factors : List (FactorInput (Extended K)))
    (hmean : ∀ m ∈ config.meanReturn, Double.isFinite m = true)
    (hstd : ∀ s ∈ config.stdReturn, Double.isFinite s = true) :
    let result := buildZscoreSignal show4 factors config
    ∃ m d : K, 0 ≤ d ∧ result.meanReturn = fin m ∧ result.stdReturn = fin d ∧
      result.predictedReturn = fin m + fin d * result.signal := by
  intro result
  by_cases h : factors = []
  · subst h
    refine ⟨0, 0, le_rfl, congrArg fin Rat.cast_zero, congrArg fin Rat.cast_zero, ?_⟩
    simp [result, buildZscoreSignal]
  · obtain ⟨m, hm⟩ := exists_meanReturn config.meanReturn
      (referenceReturns config (rankedFactors config factors)) hmean
    obtain ⟨d, hd, hstdReturn⟩ := exists_stdReturn config.stdReturn
      (referenceReturns config (rankedFactors config factors)) hstd
    have hm' : result.meanReturn = fin m := (meanReturn_eq h).trans hm
    have hd' : result.stdReturn = fin d := (stdReturn_eq h).trans hstdReturn
    exact ⟨m, d, hd, hm', hd', by rw [← hm', ← hd']; exact predictedReturn_eq h⟩

/-- **The bound of a signal**: it is within the clamp of the z-scores, and what it predicts is
within so many standard deviations of the mean return. -/
theorem abs_signal_le (show4 : Extended K → String) (factors : List (FactorInput (Extended K)))
    (config : SignalBuildConfig (Extended K)) (w : K) (hw : 0 ≤ w)
    (hclamp : config.winsorizeZscoreAt = fin w)
    (hdecay : Double.le (Double.lit 0) config.rankDecay = true)
    (hhint : ∀ factor ∈ factors, ∀ s ∈ factor.directionHint, s = -1 ∨ s = 0 ∨ s = 1)
    (hmean : ∀ m ∈ config.meanReturn, Double.isFinite m = true)
    (hstd : ∀ s ∈ config.stdReturn, Double.isFinite s = true) :
    let result := buildZscoreSignal show4 factors config
    Double.le (Double.abs result.signal) (fin w) = true ∧
      Double.le (Double.abs (result.predictedReturn - result.meanReturn))
        (fin w * result.stdReturn) = true := by
  intro result
  have hsignal : ∃ s : K, |s| ≤ w ∧ result.signal = fin s := by
    rw [signal_eq]
    split
    · exact ⟨0, abs_zero.trans_le hw, congrArg fin Rat.cast_zero⟩
    · rename_i hsuppressed
      rw [suppressed_eq, Bool.not_eq_true, Bool.or_eq_false_iff] at hsuppressed
      exact exists_weightedSignal (exists_ranked hw hclamp hdecay hhint) hsuppressed.2
  obtain ⟨s, hs, hsignal⟩ := hsignal
  obtain ⟨m, d, hd, hm, hstdReturn, hpredicted⟩ :=
    exists_predictedReturn show4 factors hmean hstd
  rw [hpredicted, hm, hstdReturn, hsignal]
  refine ⟨decide_eq_true hs, ?_⟩
  rw [mul_fin, fin_add_fin, sub_fin, add_sub_cancel_left, abs_fin, mul_fin, le_fin,
    decide_eq_true_eq, abs_mul, abs_of_nonneg hd, mul_comm]
  exact mul_le_mul_of_nonneg_right hs hd

end Bound

/-- The bound is reached where the z-score of a rising factor is clamped. -/
theorem abs_signal_le_rising :
    let factors := [{ steadyFactor with series := [fin 1, fin 2] }]
    let config := { openConfig with winsorizeZscoreAt := fin (1 / 2) }
    let result := buildZscoreSignal (fun _ => "") factors config
    result.signal = fin (1 / 2) ∧ Double.le (Double.abs result.signal) (fin (1 / 2)) = true ∧
      Double.le (Double.abs (result.predictedReturn - result.meanReturn))
        (fin (1 / 2) * result.stdReturn) = true :=
  ⟨by decide +kernel, abs_signal_le _ [{ steadyFactor with series := [fin 1, fin 2] }]
    { openConfig with winsorizeZscoreAt := fin (1 / 2) } (1 / 2) (by norm_num) rfl
    (by decide +kernel) (by rintro factor h s hs; simp_all [steadyFactor])
    (by rintro m ⟨⟩) (by rintro s ⟨⟩; rfl)⟩

end HftPlatform.ZscoreModel
