import HftPlatform.SignalResult

/-!
# The parts of a signal

What the result of the model reads of the ranking, and which changes to the prepared factors the
ranking does not see.

## Main results

* `suppressed_eq`, `signal_eq`, `predictedReturn_eq`: the result in terms of the ranking.
* `Transparent.rank_map`, `Transparent.contributionOf_map`: a change of the rows that keeps what
  the ranking goes by can be made before the ranking or after it.
* `prepareFactor_zscore`, `prepareFactor_sign`: where the two factors of a contribution come from.
-/

namespace HftPlatform.ZscoreModel

open Lib Extended

section Parts

variable {F : Type} [Double F]

/-! ### The result in terms of the ranking -/

attribute [ext] SignalResult

/-- The ranking of the factors. -/
def rankedFactors (config : SignalBuildConfig F) (factors : List (FactorInput F)) :
    List (PreparedFactor F) :=
  rank config (factors.mapIdx (prepareFactor config))

/-- The total of the raw weights. -/
def totalWeight (ranked : List (PreparedFactor F)) : F :=
  Double.sum (ranked.map (·.rawWeight))

/-- What the raw weights are divided by. -/
def normalizedDenominator (ranked : List (PreparedFactor F)) : F :=
  if Double.lt epsilon (totalWeight ranked) then totalWeight ranked else Double.lit 1

/-- The sum of the contributions. -/
def weightedSignal (ranked : List (PreparedFactor F)) : F :=
  Double.sum (ranked.map fun row =>
    row.rawWeight / normalizedDenominator ranked * row.contribution)

/-- No signal comes from a ranking that is empty or weighs nothing. -/
def modelInvalid (ranked : List (PreparedFactor F)) : Bool :=
  ranked = [] || Double.le (totalWeight ranked) epsilon

variable {show4 : F → String} {factors : List (FactorInput F)} {config : SignalBuildConfig F}

/-- No factors, no ranking. -/
theorem rankedFactors_nil : rankedFactors config [] = [] := by
  simp [rankedFactors, rank]

/-- A signal is suppressed by a gate or by the model. -/
theorem suppressed_eq : (buildZscoreSignal show4 factors config).suppressed =
    (!(evaluateRegimeFilter config.regimeFilter).passed ||
      !(evaluateVolatilityFilter show4 config.volatilityFilter).passed ||
        modelInvalid (rankedFactors config factors)) := by
  by_cases h : factors = []
  · rw [h, rankedFactors_nil]
    simp [buildZscoreSignal, modelInvalid]
  · rw [buildZscoreSignal, if_neg h]
    rfl

/-- The signal is the weighted sum, or zero if it is suppressed. -/
theorem signal_eq : (buildZscoreSignal show4 factors config).signal =
    if (buildZscoreSignal show4 factors config).suppressed then Double.lit 0
    else weightedSignal (rankedFactors config factors) := by
  by_cases h : factors = []
  · rw [h]
    rfl
  · rw [buildZscoreSignal, if_neg h]
    rfl

/-- There is a contribution for each factor, with its place in the ranking. -/
theorem contributions_eq : (buildZscoreSignal show4 factors config).contributions =
    (factors.mapIdx (prepareFactor config)).map (contributionOf (rankedFactors config factors)
      (normalizedDenominator (rankedFactors config factors))) := by
  by_cases h : factors = []
  · rw [h]
    rfl
  · rw [buildZscoreSignal, if_neg h]
    rfl

/-- The mean is the one that is given, or that of the reference returns. -/
theorem meanReturn_eq (h : factors ≠ []) : (buildZscoreSignal show4 factors config).meanReturn =
    (config.meanReturn <|> calculateMean
      (referenceReturns config (rankedFactors config factors))).getD (Double.lit 0) := by
  rw [buildZscoreSignal, if_neg h]
  rfl

/-- The deviation is the one that is given, or that of the reference returns. -/
theorem stdReturn_eq (h : factors ≠ []) : (buildZscoreSignal show4 factors config).stdReturn =
    Double.max ((config.stdReturn <|> calculateStd
      (referenceReturns config (rankedFactors config factors))).getD (Double.lit 0))
        (Double.lit 0) := by
  rw [buildZscoreSignal, if_neg h]
  rfl

/-- The prediction is the mean, and as many deviations as the signal. -/
theorem predictedReturn_eq (h : factors ≠ []) :
    (buildZscoreSignal show4 factors config).predictedReturn =
      (buildZscoreSignal show4 factors config).meanReturn +
        (buildZscoreSignal show4 factors config).stdReturn *
          (buildZscoreSignal show4 factors config).signal := by
  rw [buildZscoreSignal, if_neg h]

/-- **The frame of a result**: what it says about the filters and about the weights depends only on
how many factors are ranked and what they weigh together. -/
theorem frame_eq (show4 : F → String) {factors' : List (FactorInput F)}
    (hlength : factors'.length = factors.length)
    (hranked : (rankedFactors config factors').length = (rankedFactors config factors).length)
    (htotal : totalWeight (rankedFactors config factors') =
      totalWeight (rankedFactors config factors)) :
    let result := buildZscoreSignal show4 factors config
    let result' := buildZscoreSignal show4 factors' config
    (result'.suppressed, result'.suppressionReasons, result'.regimePassed,
        result'.volatilityPassed, result'.factorsUsed, result'.totalFactors) =
      (result.suppressed, result.suppressionReasons, result.regimePassed,
        result.volatilityPassed, result.factorsUsed, result.totalFactors) := by
  by_cases h : factors = []
  · have h' : factors' = [] := List.length_eq_zero_iff.mp (by rw [hlength, h, List.length_nil])
    rw [h, h']
  have h' : factors' ≠ [] := fun heq => h (List.length_eq_zero_iff.mp (by rw [← hlength, heq]; rfl))
  have hempty : rankedFactors config factors' = [] ↔ rankedFactors config factors = [] := by
    rw [← List.length_eq_zero_iff, hranked, List.length_eq_zero_iff]
  rw [rankedFactors, rankedFactors] at *
  rw [totalWeight, totalWeight] at htotal
  rw [buildZscoreSignal, if_neg h, buildZscoreSignal, if_neg h']
  simp only [htotal, hempty, hranked, hlength, ne_eq]

/-! ### Changes that the ranking does not see -/

/-- A change of the rows that keeps what the ranking goes by. -/
structure Transparent (config : SignalBuildConfig F) (f : PreparedFactor F → PreparedFactor F) :
    Prop where
  passed : ∀ row, (f row).passed = row.passed
  abs_correlation : ∀ row, Double.abs (f row).correlation = Double.abs row.correlation
  weighed : ∀ place row, weigh config place (f row) = f (weigh config place row)

variable {f : PreparedFactor F → PreparedFactor F} {prepared : List (PreparedFactor F)}
  {row : PreparedFactor F} {denominator : F}

/-- The change keeps the order of the ranking. -/
theorem Transparent.sorted_map (h : Transparent config f) :
    sorted (prepared.map f) = (sorted prepared).map f := by
  have hfilter : (prepared.map f).filter (·.passed) = (prepared.filter (·.passed)).map f := by
    rw [List.filter_map]
    exact congrArg (List.map f) (List.filter_congr fun row _ => h.passed row)
  rw [sorted, hfilter]
  refine (List.map_mergeSort fun a _ b _ => ?_).symm
  rw [ranksBefore, ranksBefore, h.abs_correlation, h.abs_correlation]

/-- **The change can be made after the ranking.** -/
theorem Transparent.rank_map (h : Transparent config f) :
    rank config (prepared.map f) = (rank config prepared).map f := by
  refine List.ext_getElem? fun place => ?_
  rw [getElem?_rank, h.sorted_map, List.getElem?_map, List.getElem?_map, getElem?_rank,
    Option.map_map, Option.map_map]
  exact congrArg (Option.map · _) (funext (h.weighed place))

/-- **The change can be made after the joining**, as a change `g` of the contribution. -/
theorem Transparent.contributionOf_map (h : Transparent config f)
    (hindex : ∀ row, (f row).factorIndex = row.factorIndex)
    (hnodup : (prepared.map (·.factorIndex)).Nodup) (hrow : row ∈ prepared)
    {g : FactorContribution F → FactorContribution F}
    (hranked : ∀ place, rankedContribution denominator place (f (weigh config place row)) =
      g (rankedContribution denominator place (weigh config place row)))
    (hrejected : rejectedContribution (f row) = g (rejectedContribution row)) :
    contributionOf (rank config (prepared.map f)) denominator (f row) =
      g (contributionOf (rank config prepared) denominator row) := by
  have hnodup' : ((prepared.map f).map (·.factorIndex)).Nodup := by
    rw [List.map_map]
    exact (List.map_congr_left fun row _ => hindex row) ▸ hnodup
  cases hpassed : row.passed with
  | false =>
      rw [contributionOf_of_not_passed hnodup hrow hpassed,
        contributionOf_of_not_passed hnodup' (List.mem_map_of_mem hrow)
          ((h.passed row).trans hpassed), hrejected]
  | true =>
      obtain ⟨place, hplace⟩ := List.mem_iff_getElem?.mp (mem_sorted.mpr ⟨hrow, hpassed⟩)
      have hplace' : (sorted (prepared.map f))[place]? = some (f row) := by
        rw [h.sorted_map, List.getElem?_map, hplace, Option.map_some]
      rw [contributionOf_of_sorted hnodup hplace, contributionOf_of_sorted hnodup' hplace',
        h.weighed, hranked]

omit [Double F] in
/-- A change of the rows that keeps a value of each. -/
theorem map_map_of_eq {α : Type} {v : PreparedFactor F → α} (h : ∀ row, v (f row) = v row)
    (ranked : List (PreparedFactor F)) : (ranked.map f).map v = ranked.map v := by
  rw [List.map_map]
  exact List.map_congr_left fun row _ => h row

/-- A change that keeps the weights keeps their total. -/
theorem totalWeight_map (hweight : ∀ row, (f row).rawWeight = row.rawWeight)
    (ranked : List (PreparedFactor F)) : totalWeight (ranked.map f) = totalWeight ranked :=
  congrArg Double.sum (map_map_of_eq hweight ranked)

/-- The denominator depends on the weights only. -/
theorem normalizedDenominator_map (hweight : ∀ row, (f row).rawWeight = row.rawWeight)
    (ranked : List (PreparedFactor F)) :
    normalizedDenominator (ranked.map f) = normalizedDenominator ranked := by
  rw [normalizedDenominator, totalWeight_map hweight, normalizedDenominator]

/-- A change that keeps the weights and the contributions keeps their sum. -/
theorem weightedSignal_map (hweight : ∀ row, (f row).rawWeight = row.rawWeight)
    (hcontribution : ∀ row, (f row).contribution = row.contribution)
    (ranked : List (PreparedFactor F)) :
    weightedSignal (ranked.map f) = weightedSignal ranked := by
  rw [weightedSignal, normalizedDenominator_map hweight]
  refine congrArg Double.sum (map_map_of_eq (fun row => ?_) ranked)
  rw [hweight, hcontribution]

/-- A change that keeps the returns and their window keeps what the statistics are of. -/
theorem referenceReturns_map (hreturns : ∀ row, (f row).factor.returnSeries =
      row.factor.returnSeries)
    (hwindow : ∀ row, (f row).factor.rollingWindow = row.factor.rollingWindow)
    (ranked : List (PreparedFactor F)) :
    referenceReturns config (ranked.map f) = referenceReturns config ranked := by
  rw [referenceReturns, referenceReturns, List.head?_map]
  cases ranked.head? with
  | none => rfl
  | some row => simp only [Option.map_some, hreturns, hwindow]

/-! ### The factors of a contribution -/

/-- **The z-score of a factor that passes** is clamped. -/
theorem prepareFactor_zscore (i : ℕ) (factor : FactorInput F)
    (h : (prepareFactor config i factor).passed = true) :
    ∃ (currentValue : F) (segment : List F),
      (prepareFactor config i factor).zscore =
        clamp (calculateZscore currentValue ((calculateMean segment).getD (Double.lit 0))
          ((calculateStd segment).getD (Double.lit 0)))
            (-config.winsorizeZscoreAt) config.winsorizeZscoreAt := by
  revert h
  refine prepareFactor_cases config i factor ?_ ?_ ?_
  · exact fun _ h => Bool.noConfusion h
  · exact fun _ _ _ h => Bool.noConfusion h
  · exact fun _ _ currentValue segment _ => ⟨currentValue, segment, rfl⟩

/-- **The sign of a factor** is its hint, or else that of a correlation, or none was found. -/
theorem prepareFactor_sign (config : SignalBuildConfig F) (i : ℕ) (factor : FactorInput F) :
    (prepareFactor config i factor).sign = 0 ∨ ∃ seriesA seriesB : List F,
      (prepareFactor config i factor).sign =
        factor.directionHint.getD (detectFactorCorrelationSign seriesA seriesB) := by
  refine prepareFactor_cases config i factor ?_ ?_ ?_
  · exact fun _ => Or.inl rfl
  · exact fun _ _ _ => Or.inr ⟨_, _, rfl⟩
  · exact fun _ _ _ _ => Or.inr ⟨_, _, rfl⟩

end Parts

/-- A z-score is a number. -/
theorem exists_calculateZscore {K : Type} [Field K] [LinearOrder K] [IsStrictOrderedRing K]
    [SquareRoot K] (value : Extended K) (segment : List (Extended K)) :
    ∃ z : K, calculateZscore value ((calculateMean segment).getD (Double.lit 0))
      ((calculateStd segment).getD (Double.lit 0)) = fin z := by
  have hmean : ∃ m : K, (calculateMean segment).getD (Double.lit 0) = fin m := by
    rw [calculateMean_eq]
    split
    · exact ⟨_, rfl⟩
    · exact ⟨_, rfl⟩
  have hstd : ∃ s : K, (calculateStd segment).getD (Double.lit 0) = fin s := by
    rw [calculateStd_eq]
    split
    · exact ⟨_, rfl⟩
    · exact ⟨_, rfl⟩
  obtain ⟨m, hm⟩ := hmean
  obtain ⟨s, hs⟩ := hstd
  rw [hm, hs]
  cases value with
  | nan | inf t => exact ⟨0, congrArg fin Rat.cast_zero⟩
  | fin x => exact ⟨_, calculateZscore_eq x m s⟩

end HftPlatform.ZscoreModel
