import HftPlatform.ZscoreExact
import HftPlatform.ZscoreSignal

/-!
# What the two signal models make of a factor and of a filter

The model of the dashboard and that of the signal engine, on the same inputs. The engine has no
absent fields, so its inputs are those of the dashboard with the defaults filled in. Where the
dashboard could throw, inputs of numbers do not let it.

## Main results

* `prepareFactor_eq`: both prepare the same row from a factor.
* `evaluateRegimeFilter_eq`, `evaluateVolatilityFilter_eq`: the gates agree.
-/

namespace HftPlatform.Dashboard

open Lib Extended

/-! ### The inputs of the engine -/

section Inputs

variable {F : Type} [Double F]

/-- A factor with its defaults. A negative window is too short, as is a window of zero. -/
def FactorInput.toEngine (factor : FactorInput F) : ZscoreModel.FactorInput F where
  name := factor.name
  series := factor.series
  returnSeries := factor.returnSeries
  weight := factor.weight.getD (Double.lit 1)
  rollingWindow := factor.rollingWindow.map Int.toNat
  currentValue := factor.currentValue
  directionHint := factor.directionHint
  enabled := factor.enabled.getD true

/-- A filter that is not enabled is disabled. -/
def RegimeFilterConfig.toEngine (config : RegimeFilterConfig) :
    ZscoreModel.RegimeFilterConfig where
  enabled := config.enabled.getD false
  currentRegime := config.currentRegime
  allowedRegimes := config.allowedRegimes.getD []

/-- A filter that is not enabled is disabled. -/
def VolatilityFilterConfig.toEngine (config : VolatilityFilterConfig F) :
    ZscoreModel.VolatilityFilterConfig F where
  enabled := config.enabled.getD false
  historicalVolatilitySeries := config.historicalVolatilitySeries.getD []
  currentVolatility := config.currentVolatility
  minZscore := config.minZScore
  maxZscore := config.maxZScore

/-- A configuration with its defaults. -/
def SignalBuildConfig.toEngine (config : SignalBuildConfig F) :
    ZscoreModel.SignalBuildConfig F where
  rollingWindow := (config.rollingWindow.getD (defaultConfig (F := F)).rollingWindow).toNat
  minHistory := (config.minHistory.getD (defaultConfig (F := F)).minHistory).toNat
  minAbsCorrelation := config.minAbsCorrelation.getD defaultConfig.minAbsCorrelation
  rankDecay := config.rankDecay.getD defaultConfig.rankDecay
  weightMode := config.weightMode.getD (defaultConfig (F := F)).weightMode
  winsorizeZscoreAt := config.winsorizeZScoreAt.getD defaultConfig.winsorizeZScoreAt
  meanReturn := config.meanReturn
  stdReturn := config.stdReturn
  regimeFilter := config.regimeFilter.map RegimeFilterConfig.toEngine
  volatilityFilter := config.volatilityFilter.map VolatilityFilterConfig.toEngine

/-- The row that the dashboard has for a row of the engine. -/
def ofEngine (factor : FactorInput F) (row : ZscoreModel.PreparedFactor F) : PreparedFactor F :=
  { row with factor := factor }

end Inputs

/-! ### Inputs of numbers -/

section Numbers

variable {K : Type}

/-- The series, the returns and the current value of a factor are numbers. Its weight may be any
value. -/
structure FactorInput.Finite (factor : FactorInput (Extended K)) : Prop where
  series : ∃ xs : List K, factor.series = xs.map fin
  returnSeries : ∃ xs : List K, factor.returnSeries = xs.map fin
  currentValue : ∃ x : Option K, factor.currentValue = x.map fin

/-- A filter of numbers. -/
def VolatilityFilterConfig.ofNumbers (config : VolatilityFilterConfig K) :
    VolatilityFilterConfig (Extended K) :=
  { config with
    historicalVolatilitySeries := config.historicalVolatilitySeries.map (·.map fin)
    currentVolatility := config.currentVolatility.map fin
    minZScore := config.minZScore.map fin
    maxZScore := config.maxZScore.map fin }

/-- A configuration of numbers. -/
def SignalBuildConfig.ofNumbers (config : SignalBuildConfig K) :
    SignalBuildConfig (Extended K) :=
  { config with
    minAbsCorrelation := config.minAbsCorrelation.map fin
    rankDecay := config.rankDecay.map fin
    winsorizeZScoreAt := config.winsorizeZScoreAt.map fin
    meanReturn := config.meanReturn.map fin
    stdReturn := config.stdReturn.map fin
    volatilityFilter := config.volatilityFilter.map VolatilityFilterConfig.ofNumbers }

end Numbers

/-! ### Statistics -/

section Statistics

variable {F : Type}

/-- The end of a series, for a window that is a natural number. -/
theorem tail_natCast (values : List F) (n : ℕ) :
    tail values (n : ℤ) = ZscoreModel.tail values n := by
  simp only [tail, ZscoreModel.tail, Nat.cast_nonpos, Nat.cast_le, Int.toNat_natCast]

/-- The end of a series: no window is shorter than zero. -/
theorem tail_eq (values : List F) (n : ℤ) : tail values n = ZscoreModel.tail values n.toNat := by
  rcases le_or_gt 0 n with h | h
  · obtain ⟨m, rfl⟩ := Int.eq_ofNat_of_zero_le h
    exact tail_natCast values m
  · rw [tail, if_pos h.le, ZscoreModel.tail, if_pos (Int.toNat_of_nonpos h.le)]

variable [Double F]

/-- A mean that the engine has is not thrown by the dashboard. -/
theorem calculateMean_of_eq_some {values : List F} {mean : F}
    (h : ZscoreModel.calculateMean values = some mean) : calculateMean values = .ok mean := by
  simp only [ZscoreModel.calculateMean] at h
  split at h
  · cases h
  rename_i hne
  have hlen : (sanitizeSeries values).length ≠ 0 := fun hlen =>
    hne (List.length_eq_zero_iff.mp hlen)
  rw [calculateMean, if_neg hlen]
  exact congrArg Except.ok (Option.some.inj h)

/-- A z-score of finite values. -/
theorem calculateZScore_of_isFinite {value mean std : F} (hvalue : Double.isFinite value = true)
    (hmean : Double.isFinite mean = true) (hstd : Double.isFinite std = true) :
    calculateZScore value mean std = .ok (ZscoreModel.calculateZscore value mean std) := by
  simp only [calculateZScore, ZscoreModel.calculateZscore, hvalue, hmean, hstd, Bool.not_true,
    Bool.or_self, Bool.false_eq_true, if_false, epsilon, ZscoreModel.epsilon]
  exact (apply_ite Except.ok _ _ _).symm

variable {K : Type} [Field K] [LinearOrder K] [SquareRoot K]

/-- `Math.max` of numbers. -/
@[simp] theorem mathMax_fin (a b : K) : mathMax (fin a) (fin b) = (fin (max a b) : Extended K) := by
  simp [mathMax]

/-- `Math.min` of numbers. -/
@[simp] theorem mathMin_fin (a b : K) : mathMin (fin a) (fin b) = (fin (min a b) : Extended K) := by
  simp [mathMin]

/-- A value that is clamped between numbers. -/
theorem clamp_fin (value lower upper : K) : clamp (fin value) (fin lower) (fin upper) =
    ZscoreModel.clamp (fin value : Extended K) (fin lower) (fin upper) := by
  rw [clamp, ZscoreModel.clamp, mathMax_fin, mathMin_fin, max_fin, min_fin, max_comm, min_comm]

@[simp] theorem finiteNumber_map_fin (value : Option K) :
    finiteNumber (value.map fin) = (value.map fin : Option (Extended K)) := by
  cases value <;> rfl

omit [Field K] [LinearOrder K] [SquareRoot K] in
/-- A number, or else another one. -/
theorem orElse_map_fin (x y : Option K) :
    (x.map fin <|> y.map fin : Option (Extended K)) = (x <|> y).map fin := by
  cases x <;> rfl

theorem sanitizeSeries_map_fin (xs : List K) :
    ZscoreModel.sanitizeSeries (xs.map fin) = (xs.map fin : List (Extended K)) := by
  rw [ZscoreModel.sanitizeSeries_eq, ZscoreModel.numbers_map_fin]

variable [IsStrictOrderedRing K] {xs ys : List K}

/-- The mean of numbers. -/
theorem calculateMean_fin (h : xs ≠ []) :
    calculateMean (xs.map fin) = .ok (fin (mean xs) : Extended K) :=
  calculateMean_of_eq_some (by
    rw [ZscoreModel.calculateMean_eq, ZscoreModel.numbers_map_fin, if_neg h])

/-- The standard deviation of numbers. -/
theorem calculateStd_fin (h : xs ≠ []) :
    calculateStd (xs.map fin) = .ok (fin (deviation xs) : Extended K) := by
  have hsanitized : sanitizeSeries (xs.map fin) = (xs.map fin : List (Extended K)) :=
    sanitizeSeries_map_fin xs
  rw [calculateStd, hsanitized]
  dsimp only
  rw [if_neg (by simpa using h)]
  split
  · rename_i hone
    rw [List.length_map] at hone
    obtain ⟨x, rfl⟩ := List.length_eq_one_iff.mp hone
    rw [deviation_singleton, lit_fin, Rat.cast_zero]
  · rw [calculateMean_fin h]
    show Except.ok (Double.sqrt (mathMax (Double.sum ((xs.map fin).map fun value : Extended K =>
        (value - fin (mean xs)) * (value - fin (mean xs))) / Double.lit (xs.map fin).length)
      (Double.lit 0))) = _
    rw [ZscoreModel.variance_fin h, lit_fin, Rat.cast_zero, mathMax_fin,
      max_eq_left (variance_nonneg _), sqrt_fin (variance_nonneg _), deviation]

/-- **The correlation** of numbers: the dashboard throws nothing and finds that of the engine. -/
theorem pearsonCorrelation_fin (xs ys : List K) :
    pearsonCorrelation (xs.map fin) (ys.map fin) =
      .ok (ZscoreModel.pearsonCorrelation (xs.map fin) (ys.map fin) : Extended K) := by
  simp only [pearsonCorrelation, ZscoreModel.pearsonCorrelation]
  split
  · rfl
  rename_i hlen
  rw [List.length_map, List.length_map] at hlen ⊢
  have hxs : xs.drop (xs.length - min xs.length ys.length) ≠ [] := by
    rw [Ne, List.drop_eq_nil_iff]
    omega
  have hys : ys.drop (ys.length - min xs.length ys.length) ≠ [] := by
    rw [Ne, List.drop_eq_nil_iff]
    omega
  simp only [← List.map_drop, calculateMean_fin hxs, calculateMean_fin hys,
    ZscoreModel.calculateMean_eq, ZscoreModel.numbers_map_fin, if_neg hxs, if_neg hys]
  rfl

/-- The direction of a correlation of numbers. -/
theorem detectFactorCorrelationSign_fin (xs ys : List K) :
    detectFactorCorrelationSign (xs.map fin) (ys.map fin) =
      .ok (ZscoreModel.detectFactorCorrelationSign (xs.map fin : List (Extended K))
        (ys.map fin)) := by
  obtain ⟨as, bs, -, hpair⟩ :=
    ZscoreModel.exists_sanitizeAlignedPair (xs.map fin : List (Extended K)) (ys.map fin)
  have hpair' : sanitizeAlignedPair (xs.map fin : List (Extended K)) (ys.map fin) =
      (as.map fin, bs.map fin) := hpair
  simp only [detectFactorCorrelationSign, ZscoreModel.detectFactorCorrelationSign, hpair, hpair',
    pearsonCorrelation_fin]
  rfl

end Statistics

/-! ### Factors -/

/-- A default that is filled in twice. -/
theorem getD_orElse_some {α : Type} (value : Option α) (default : α) :
    (value <|> some default).getD default = value.getD default := by
  cases value <;> rfl

/-- The window of a factor: no window is shorter than two. -/
theorem window_eq (own given : Option ℤ) (default : ℤ) :
    max 2 ((own <|> given <|> some default).getD default) =
      ((max ((own.map Int.toNat).getD (given.getD default).toNat) 2 : ℕ) : ℤ) := by
  cases own with
  | none =>
      show max 2 ((given <|> some default).getD default) = _
      rw [getD_orElse_some]
      show _ = ((max (given.getD default).toNat 2 : ℕ) : ℤ)
      omega
  | some w =>
      show max 2 w = ((max w.toNat 2 : ℕ) : ℤ)
      omega

section Factors

variable {K : Type} [Field K] [LinearOrder K] [SquareRoot K] [IsStrictOrderedRing K]

omit [Field K] [LinearOrder K] [SquareRoot K] [IsStrictOrderedRing K] in
/-- The end of a series of numbers. -/
theorem tail_map_fin (xs : List K) (n : ℕ) :
    ZscoreModel.tail (xs.map fin) n = (ZscoreModel.tail xs n).map fin := by
  simp only [ZscoreModel.tail, List.length_map, List.map_drop, apply_ite (List.map fin),
    List.map_nil]

omit [Field K] [LinearOrder K] [SquareRoot K] [IsStrictOrderedRing K] in
/-- The end of a series that has one. -/
theorem tail_ne_nil {xs : List K} {n : ℕ} (hxs : xs ≠ []) (hn : n ≠ 0) :
    ZscoreModel.tail xs n ≠ [] := by
  have hlen : 0 < xs.length := List.length_pos_iff.mpr hxs
  rw [ZscoreModel.tail, if_neg hn]
  split
  · exact hxs
  · rw [Ne, List.drop_eq_nil_iff]
    omega

/-- The statistics of a window of numbers. -/
theorem calculateRollingStats_fin {xs : List K} {window : ℕ} (h : ZscoreModel.tail xs window ≠ []) :
    calculateRollingStats (xs.map fin : List (Extended K)) window =
      .ok (fin (mean (ZscoreModel.tail xs window)),
        fin (deviation (ZscoreModel.tail xs window))) := by
  rw [calculateRollingStats, tail_natCast, tail_map_fin, calculateMean_fin h, calculateStd_fin h]
  rfl

omit [IsStrictOrderedRing K] in
/-- The bound of the z-scores is a number. -/
theorem exists_bound (config : SignalBuildConfig K) :
    ∃ bound : K, config.ofNumbers.winsorizeZScoreAt.getD defaultConfig.winsorizeZScoreAt =
      fin bound := by
  rw [SignalBuildConfig.ofNumbers]
  cases config.winsorizeZScoreAt with
  | none => exact ⟨_, rfl⟩
  | some bound => exact ⟨bound, rfl⟩

/-- **Both prepare the same row**, and the dashboard throws nothing. -/
theorem prepareFactor_eq (config : SignalBuildConfig K) (i : ℕ) {factor : FactorInput (Extended K)}
    (hfinite : factor.Finite) :
    prepareFactor (spreadConfig config.ofNumbers) i factor =
      .ok (ofEngine factor
        (ZscoreModel.prepareFactor config.ofNumbers.toEngine i factor.toEngine)) := by
  obtain ⟨name, _, _, weight, rollingWindow, _, directionHint, enabled⟩ := factor
  obtain ⟨⟨series, rfl⟩, ⟨returnSeries, rfl⟩, currentValue, rfl⟩ := hfinite
  have hseries : sanitizeSeries (series.map fin : List (Extended K)) = series.map fin :=
    sanitizeSeries_map_fin _
  have hreturns : sanitizeSeries (returnSeries.map fin : List (Extended K)) =
      returnSeries.map fin := sanitizeSeries_map_fin _
  obtain ⟨bound, hbound⟩ := exists_bound config
  simp only [SignalBuildConfig.ofNumbers] at hbound
  simp only [prepareFactor, ZscoreModel.prepareFactor, spreadConfig, FactorInput.toEngine,
    SignalBuildConfig.ofNumbers, SignalBuildConfig.toEngine, hseries, hreturns,
    sanitizeSeries_map_fin, getD_orElse_some, window_eq, List.length_map, hbound]
  generalize hwindow : max ((rollingWindow.map Int.toNat).getD _) 2 = window
  have htwo : 2 ≤ window := hwindow ▸ le_max_right _ _
  simp only [← Nat.cast_min, tail_natCast, tail_map_fin, Nat.cast_lt_ofNat]
  have hdisabled : (!enabled.getD true) = true ↔ enabled = some false := by
    rcases enabled with _ | _ | _ <;> decide
  by_cases henabled : enabled = some false
  · rw [if_pos henabled, if_pos (hdisabled.mpr henabled)]
    rfl
  rw [if_neg henabled, if_neg (mt hdisabled.mp henabled)]
  by_cases hfactor : (series.length : ℤ) <
      config.minHistory.getD (defaultConfig (F := Extended K)).minHistory
  · rw [if_pos hfactor, if_pos (Int.lt_toNat.mpr hfactor)]
    rfl
  rw [if_neg hfactor, if_neg (mt Int.lt_toNat.mp hfactor)]
  by_cases hreturn : (returnSeries.length : ℤ) <
      config.minHistory.getD (defaultConfig (F := Extended K)).minHistory
  · rw [if_pos hreturn, if_pos (Int.lt_toNat.mpr hreturn)]
    rfl
  rw [if_neg hreturn, if_neg (mt Int.lt_toNat.mp hreturn)]
  by_cases hlen : min (min series.length returnSeries.length) window < 2
  · rw [if_pos hlen, if_pos hlen]
    rfl
  rw [if_neg hlen, if_neg hlen]
  generalize min (min series.length returnSeries.length) window = len
  obtain ⟨xs, ys, -, hpair⟩ := ZscoreModel.exists_sanitizeAlignedPair
    ((ZscoreModel.tail series len).map fin : List (Extended K))
    ((ZscoreModel.tail returnSeries len).map fin)
  have hpair' : sanitizeAlignedPair ((ZscoreModel.tail series len).map fin :
      List (Extended K)) ((ZscoreModel.tail returnSeries len).map fin) =
        (xs.map fin, ys.map fin) := hpair
  rw [hpair, hpair']
  dsimp only
  by_cases hpairs : (xs.map fin : List (Extended K)).length < 2
  · rw [if_pos hpairs, if_pos hpairs]
    rfl
  have hsign : ((directionHint.map Except.ok).getD
      (detectFactorCorrelationSign (xs.map fin : List (Extended K)) (ys.map fin)) :
        Except String ℤ) = .ok (directionHint.getD
          (ZscoreModel.detectFactorCorrelationSign (xs.map fin : List (Extended K))
            (ys.map fin))) := by
    rw [detectFactorCorrelationSign_fin]
    cases directionHint <;> rfl
  rw [if_neg hpairs, if_neg hpairs, pearsonCorrelation_fin, hsign]
  generalize ZscoreModel.pearsonCorrelation (xs.map fin : List (Extended K)) (ys.map fin) =
    correlation
  generalize directionHint.getD (ZscoreModel.detectFactorCorrelationSign
    (xs.map fin : List (Extended K)) (ys.map fin)) = sign
  simp only [bind, Except.bind]
  by_cases hlow : Double.lt (Double.abs correlation)
      ((config.minAbsCorrelation.map fin).getD defaultConfig.minAbsCorrelation) = true
  · rw [if_pos hlow, if_pos hlow]
    rfl
  rw [if_neg hlow, if_neg hlow, finiteNumber_map_fin, List.getLast?_map]
  rw [orElse_map_fin, finiteNumber_map_fin]
  cases currentValue <|> series.getLast? with
  | none => rfl
  | some value =>
      have hne : series ≠ [] := by
        intro hnil
        rw [hnil] at hlen
        exact hlen (by simp)
      have htail : ZscoreModel.tail series window ≠ [] := tail_ne_nil hne (by omega)
      simp only [Option.map_some, Option.getD_some, isFinite_fin, Bool.not_true,
        Bool.false_eq_true, if_false, calculateRollingStats_fin htail,
        ZscoreModel.calculateMean_eq, ZscoreModel.calculateStd_eq, ZscoreModel.numbers_map_fin,
        if_neg htail]
      rw [calculateZScore_of_isFinite (isFinite_fin _) (isFinite_fin _) (isFinite_fin _),
        ZscoreModel.calculateZscore_eq]
      dsimp only
      rw [neg_fin, clamp_fin]
      rfl

end Factors

/-! ### Filters -/

/-- A text of ASCII characters. -/
def IsAscii (s : String) : Prop := ∀ c ∈ s.toList, c.toNat < 128

/-- Both know the same white space among the ASCII characters. -/
theorem isWhitespace_ascii {c : Char} (h : c.toNat < 128) :
    isWhitespace c = Lib.isWhitespace c := by
  simp only [isWhitespace, Lib.isWhitespace]
  rw [Bool.eq_iff_iff]
  simp only [Bool.or_eq_true, Bool.and_eq_true, decide_eq_true_eq]
  omega

/-- What is dropped from a list depends on its elements only. -/
theorem dropWhile_congr {α : Type} {p q : α → Bool} {xs : List α} (h : ∀ x ∈ xs, p x = q x) :
    xs.dropWhile p = xs.dropWhile q := by
  induction xs with
  | nil => rfl
  | cons x xs ih =>
      have hrest := ih fun y hy => h y (List.mem_cons_of_mem x hy)
      rw [List.dropWhile_cons, List.dropWhile_cons, h x List.mem_cons_self, hrest]

/-- **Both trim an ASCII text alike.** -/
theorem trim_ascii {s : String} (h : IsAscii s) : trim s = Lib.trim s := by
  have hfront : s.toList.dropWhile isWhitespace = s.toList.dropWhile Lib.isWhitespace :=
    dropWhile_congr fun c hc => isWhitespace_ascii (h c hc)
  have hback : (s.toList.dropWhile Lib.isWhitespace).reverse.dropWhile isWhitespace =
      (s.toList.dropWhile Lib.isWhitespace).reverse.dropWhile Lib.isWhitespace :=
    dropWhile_congr fun c hc => isWhitespace_ascii
      (h c ((List.dropWhile_sublist _).subset (List.mem_reverse.mp hc)))
  rw [trim, Lib.trim, hfront, hback]

/-- **The regime gates agree**, for an ASCII label. -/
theorem evaluateRegimeFilter_eq (config : Option RegimeFilterConfig)
    (hascii : ∀ c ∈ config, ∀ label ∈ c.currentRegime, IsAscii label) :
    let gate := ZscoreModel.evaluateRegimeFilter (config.map RegimeFilterConfig.toEngine)
    evaluateRegimeFilter config = ⟨gate.passed, gate.reason⟩ := by
  cases config with
  | none => rfl
  | some c =>
      simp only [evaluateRegimeFilter, ZscoreModel.evaluateRegimeFilter, Option.map_some,
        RegimeFilterConfig.toEngine, List.length_eq_zero_iff]
      by_cases henabled : (!c.enabled.getD false) = true
      · rw [if_pos henabled, if_pos henabled]
      rw [if_neg henabled, if_neg henabled]
      cases hcurrent : c.currentRegime with
      | none => rfl
      | some label =>
          simp only [Option.map_some, Option.getD_some, trim_ascii (hascii c rfl label hcurrent)]
          generalize Lib.trim label = current
          by_cases hempty : current = ""
          · rw [if_pos hempty, if_pos hempty]
          rw [if_neg hempty, if_neg hempty]
          by_cases hallowed : c.allowedRegimes.getD [] = []
          · rw [if_pos hallowed, if_pos hallowed]
          have hany : (c.allowedRegimes.getD []).contains current =
              (c.allowedRegimes.getD []).any (· == current) := by
            simp only [List.contains_eq_any_beq, BEq.comm]
          rw [if_neg hallowed, if_neg hallowed, hany]
          cases (c.allowedRegimes.getD []).any (· == current) <;> rfl

section Volatility

variable {K : Type} [Field K] [LinearOrder K] [SquareRoot K] [IsStrictOrderedRing K]

/-- **The volatility gates agree**, and the dashboard throws nothing. -/
theorem evaluateVolatilityFilter_eq (format : Extended K → String)
    (config : Option (VolatilityFilterConfig K)) :
    let gate := ZscoreModel.evaluateVolatilityFilter format
      ((config.map VolatilityFilterConfig.ofNumbers).map VolatilityFilterConfig.toEngine)
    ∃ zscore, evaluateVolatilityFilter format (config.map VolatilityFilterConfig.ofNumbers) =
      .ok ⟨gate.passed, zscore, gate.reason⟩ := by
  cases config with
  | none => exact ⟨_, rfl⟩
  | some c =>
      have hhistory : ∃ xs : List K, (c.historicalVolatilitySeries.map (·.map fin)).getD [] =
          (xs.map fin : List (Extended K)) := by
        cases c.historicalVolatilitySeries with
        | none => exact ⟨[], rfl⟩
        | some xs => exact ⟨xs, rfl⟩
      obtain ⟨xs, hxs⟩ := hhistory
      have hsanitized : sanitizeSeries (xs.map fin : List (Extended K)) = xs.map fin :=
        sanitizeSeries_map_fin xs
      simp only [evaluateVolatilityFilter, ZscoreModel.evaluateVolatilityFilter, Option.map_some,
        VolatilityFilterConfig.toEngine, VolatilityFilterConfig.ofNumbers, hxs, hsanitized,
        sanitizeSeries_map_fin, finiteNumber_map_fin, List.getLast?_map]
      by_cases henabled : (!c.enabled.getD false) = true
      · rw [if_pos henabled, if_pos henabled]
        exact ⟨_, rfl⟩
      rw [if_neg henabled, if_neg henabled]
      by_cases hlen : (xs.map fin : List (Extended K)).length < 2
      · rw [if_pos hlen, if_pos hlen]
        exact ⟨_, rfl⟩
      rw [if_neg hlen, if_neg hlen]
      rw [orElse_map_fin, finiteNumber_map_fin]
      cases c.currentVolatility <|> xs.getLast? with
      | none => exact ⟨_, rfl⟩
      | some value =>
          have hne : xs ≠ [] := by
            intro hnil
            rw [hnil] at hlen
            exact hlen (by simp)
          simp only [Option.map_some, Option.getD_some, isFinite_fin, Bool.not_true,
            Bool.false_eq_true, if_false, calculateMean_fin hne, calculateStd_fin hne,
            ZscoreModel.calculateMean_eq, ZscoreModel.calculateStd_eq, ZscoreModel.numbers_map_fin,
            if_neg hne, bind, Except.bind]
          rw [calculateZScore_of_isFinite (isFinite_fin _) (isFinite_fin _) (isFinite_fin _)]
          generalize ZscoreModel.calculateZscore (fin value : Extended K) (fin (mean xs))
            (fin (deviation xs)) = zscore
          refine ⟨zscore, ?_⟩
          dsimp only
          split <;> rfl

end Volatility

end HftPlatform.Dashboard
