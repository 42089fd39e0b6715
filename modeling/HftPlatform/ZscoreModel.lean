import HftPlatform.Lib.Extended
import HftPlatform.Lib.Table
import HftPlatform.Lib.Text
import Mathlib.Data.List.Sort

/-!
# The z-score model of the signal engine

`services/strategy_engine/signal_engine/src/zscore_model.rs`, over any arithmetic. Every factor
is prepared on its own; those that pass are ranked by their correlation with the returns, get a
weight, and are summed up; what was ranked is then joined again to the factors in their order.

## Main definitions

* `ZscoreModel.prepareFactor`: what becomes of one factor, or why it is rejected.
* `ZscoreModel.buildZscoreSignal`: the signal.
-/

namespace HftPlatform.ZscoreModel

open Lib

/-! ### Data -/

/-- A factor with its history, as it is given. -/
structure FactorInput (F : Type) where
  name : String
  series : List F
  returnSeries : List F
  weight : F
  rollingWindow : Option ℕ
  currentValue : Option F
  directionHint : Option ℤ
  enabled : Bool

/-- The gate of the market regime. -/
structure RegimeFilterConfig where
  enabled : Bool
  currentRegime : Option String
  allowedRegimes : List String

/-- The gate of the volatility, by its z-score. -/
structure VolatilityFilterConfig (F : Type) where
  enabled : Bool
  historicalVolatilitySeries : List F
  currentVolatility : Option F
  minZscore : Option F
  maxZscore : Option F

/-- How the factors are weighed against each other. -/
inductive WeightMode
  | equal
  | manual
  | correlation
  | rankedCorrelation
  deriving DecidableEq, Repr

/-- The configuration of a signal. -/
structure SignalBuildConfig (F : Type) where
  rollingWindow : ℕ
  minHistory : ℕ
  minAbsCorrelation : F
  rankDecay : F
  weightMode : WeightMode
  winsorizeZscoreAt : F
  meanReturn : Option F
  stdReturn : Option F
  regimeFilter : Option RegimeFilterConfig
  volatilityFilter : Option (VolatilityFilterConfig F)

/-- What a factor adds to the signal, with all that it was computed from. -/
structure FactorContribution (F : Type) where
  name : String
  correlation : F
  sign : ℤ
  zscore : F
  rank : Option ℕ
  rawWeight : F
  normalizedWeight : F
  contribution : F
  passed : Bool
  rejectReason : Option String
  deriving DecidableEq, Repr

/-- The signal, its factors, and the reasons for which it is suppressed. -/
structure SignalResult (F : Type) where
  signal : F
  predictedReturn : F
  meanReturn : F
  stdReturn : F
  suppressed : Bool
  suppressionReasons : List String
  regimePassed : Bool
  volatilityPassed : Bool
  factorsUsed : ℕ
  totalFactors : ℕ
  contributions : List (FactorContribution F)
  deriving DecidableEq, Repr

/-- A factor after its own checks, before its weight is known. -/
structure PreparedFactor (F : Type) where
  factorIndex : ℕ
  factor : FactorInput F
  passed : Bool
  rejectReason : Option String
  correlation : F
  sign : ℤ
  zscore : F
  rawWeight : F
  contribution : F

/-- A gate is passed, or the reasons why not. -/
structure GateResult where
  passed : Bool
  reason : Option String

section Model

variable {F : Type} [Double F]

/-! ### Series -/

/-- The constant `EPSILON`. -/
def epsilon : F := Double.lit (1 / 10 ^ 12)

/-- The values that are finite. -/
def sanitizeSeries (values : List F) : List F := values.filter Double.isFinite

/-- The last values of two series, side by side, where both are finite. -/
def sanitizeAlignedPair (seriesA seriesB : List F) : List F × List F :=
  let len := min seriesA.length seriesB.length
  let pairs := (seriesA.drop (seriesA.length - len)).zip (seriesB.drop (seriesB.length - len))
  (pairs.filter fun p => Double.isFinite p.1 && Double.isFinite p.2).unzip

/-- The last `n` values. -/
def tail (values : List F) (n : ℕ) : List F :=
  if n = 0 then []
  else if values.length ≤ n then values
  else values.drop (values.length - n)

/-- A value within bounds. -/
def clamp (value lower upper : F) : F := Double.min (Double.max value lower) upper

/-- The mean; an empty list has none. -/
def calculateMean (values : List F) : Option F :=
  let data := sanitizeSeries values
  if data = [] then none
  else some (Double.sum data / Double.lit data.length)

/-- The deviation of the finite values: an empty list has none, and a single value has zero. -/
def calculateStd (values : List F) : Option F :=
  let data := sanitizeSeries values
  if data = [] then none
  else if data.length = 1 then some (Double.lit 0)
  else do
    let mean ← calculateMean data
    let squares := data.map fun value => (value - mean) * (value - mean)
    let variance := Double.sum squares / Double.lit data.length
    return Double.sqrt (Double.max variance (Double.lit 0))

/-- How many deviations a value is from the mean; zero if the deviation is negligible. -/
def calculateZscore (value mean std : F) : F :=
  if !Double.isFinite value || !Double.isFinite mean || !Double.isFinite std then Double.lit 0
  else if Double.le (Double.abs std) epsilon then Double.lit 0
  else (value - mean) / std

/-- The correlation of two series, aligned at their ends. -/
def pearsonCorrelation (seriesA seriesB : List F) : F :=
  let len := min seriesA.length seriesB.length
  if len < 2 then Double.lit 0
  else
    let a := seriesA.drop (seriesA.length - len)
    let b := seriesB.drop (seriesB.length - len)
    match calculateMean a, calculateMean b with
    | some meanA, some meanB =>
        let das := a.map (· - meanA)
        let dbs := b.map (· - meanB)
        let covariance := Double.sum (List.zipWith (· * ·) das dbs)
        let varA := Double.sum (das.map fun d => d * d)
        let varB := Double.sum (dbs.map fun d => d * d)
        if Double.le varA epsilon || Double.le varB epsilon then Double.lit 0
        else covariance / Double.sqrt (varA * varB)
    | _, _ => Double.lit 0

/-- The sign of the correlation of two series, zero if that is negligible. -/
def detectFactorCorrelationSign (factorSeries returnSeries : List F) : ℤ :=
  let aligned := sanitizeAlignedPair factorSeries returnSeries
  let correlation := pearsonCorrelation aligned.1 aligned.2
  if Double.le (Double.abs correlation) epsilon then 0
  else if Double.lt (Double.lit 0) correlation then 1
  else -1

/-! ### Filters -/

/-- The gate of the regime. -/
def evaluateRegimeFilter (config : Option RegimeFilterConfig) : GateResult :=
  match config with
  | none => ⟨true, none⟩
  | some cfg =>
      if !cfg.enabled then ⟨true, none⟩
      else match cfg.currentRegime.map trim with
        | none => ⟨false, some "regime_filter_missing_current"⟩
        | some current =>
            if current = "" then ⟨false, some "regime_filter_missing_current"⟩
            else if cfg.allowedRegimes = [] then ⟨false, some "regime_filter_empty_allowed_set"⟩
            else if !cfg.allowedRegimes.any (· == current) then
              ⟨false, some ("regime_not_allowed:" ++ current)⟩
            else ⟨true, none⟩

/-- `show4` is the number format with four decimals. -/
def evaluateVolatilityFilter (show4 : F → String) (config : Option (VolatilityFilterConfig F)) :
    GateResult :=
  match config with
  | none => ⟨true, none⟩
  | some cfg =>
      if !cfg.enabled then ⟨true, none⟩
      else
        let history := sanitizeSeries cfg.historicalVolatilitySeries
        if history.length < 2 then ⟨false, some "vol_filter_insufficient_history"⟩
        else
          let currentVol := (cfg.currentVolatility <|> history.getLast?).getD Double.nan
          if !Double.isFinite currentVol then ⟨false, some "vol_filter_missing_current"⟩
          else
            let mean := (calculateMean history).getD (Double.lit 0)
            let std := (calculateStd history).getD (Double.lit 0)
            let zscore := calculateZscore currentVol mean std
            let minZ := cfg.minZscore.getD (-Double.infinity)
            let maxZ := cfg.maxZscore.getD Double.infinity
            if Double.lt zscore minZ || Double.lt maxZ zscore then
              ⟨false, some ("vol_z_out_of_range:" ++ show4 zscore)⟩
            else ⟨true, none⟩

/-! ### Factors -/

/-- A factor that did not pass, for a reason. -/
def rejectedFactor (factorIndex : ℕ) (factor : FactorInput F) (reason : String) (correlation : F)
    (sign : ℤ) (zscore : F) : PreparedFactor F where
  factorIndex := factorIndex
  factor := factor
  passed := false
  rejectReason := some reason
  correlation := correlation
  sign := sign
  zscore := zscore
  rawWeight := Double.lit 0
  contribution := Double.lit 0

/-- A factor with its score, its correlation and its sign, or the reason for its rejection. -/
def prepareFactor (cfg : SignalBuildConfig F) (factorIndex : ℕ) (factor : FactorInput F) :
    PreparedFactor F :=
  let factorSeries := sanitizeSeries factor.series
  let returnSeries := sanitizeSeries factor.returnSeries
  let rollingWindow := max (factor.rollingWindow.getD cfg.rollingWindow) 2
  let reject reason := rejectedFactor factorIndex factor reason (Double.lit 0) 0 (Double.lit 0)
  if !factor.enabled then reject "factor_disabled"
  else if factorSeries.length < cfg.minHistory then reject "insufficient_factor_history"
  else if returnSeries.length < cfg.minHistory then reject "insufficient_return_history"
  else
    let alignedLen := min (min factorSeries.length returnSeries.length) rollingWindow
    if alignedLen < 2 then reject "insufficient_overlap"
    else
      let aligned :=
        sanitizeAlignedPair (tail factorSeries alignedLen) (tail returnSeries alignedLen)
      if aligned.1.length < 2 then reject "insufficient_finite_overlap"
      else
        let correlation := pearsonCorrelation aligned.1 aligned.2
        let sign := factor.directionHint.getD (detectFactorCorrelationSign aligned.1 aligned.2)
        if Double.lt (Double.abs correlation) cfg.minAbsCorrelation then
          rejectedFactor factorIndex factor "low_predictive_correlation" correlation sign
            (Double.lit 0)
        else
          let currentValue := (factor.currentValue <|> factorSeries.getLast?).getD Double.nan
          if !Double.isFinite currentValue then
            rejectedFactor factorIndex factor "missing_current_factor_value" correlation sign
              (Double.lit 0)
          else
            let segment := tail factorSeries rollingWindow
            let mean := (calculateMean segment).getD (Double.lit 0)
            let std := (calculateStd segment).getD (Double.lit 0)
            let rawZscore := calculateZscore currentValue mean std
            { factorIndex, factor
              passed := true
              rejectReason := none
              correlation, sign
              zscore := clamp rawZscore (-cfg.winsorizeZscoreAt) cfg.winsorizeZscoreAt
              rawWeight := Double.lit 0
              contribution := Double.lit 0 }

/-! ### The signal -/

/-- The order of the ranking: the larger absolute correlation comes first. -/
def ranksBefore (a b : PreparedFactor F) : Bool :=
  !Double.lt (Double.abs a.correlation) (Double.abs b.correlation)

/-- The raw weight and the contribution of the factor at a place of the ranking. -/
def weigh (config : SignalBuildConfig F) (index : ℕ) (row : PreparedFactor F) : PreparedFactor F :=
  let absCorr := Double.abs row.correlation
  let manualWeight := Double.max row.factor.weight (Double.lit 0)
  let rankWeight := Double.pow config.rankDecay index
  let rawWeight := match config.weightMode with
    | .equal => Double.lit 1
    | .manual => manualWeight
    | .correlation => manualWeight * absCorr
    | .rankedCorrelation => manualWeight * absCorr * rankWeight
  { row with
    rawWeight := if Double.isFinite rawWeight then rawWeight else Double.lit 0
    contribution := Double.lit row.sign * row.zscore }

/-- The factors that pass, ranked and weighed. -/
def rank (config : SignalBuildConfig F) (prepared : List (PreparedFactor F)) :
    List (PreparedFactor F) :=
  ((prepared.filter (·.passed)).mergeSort ranksBefore).mapIdx (weigh config)

/-- A factor joined with its place in the ranking, if it has one. -/
def contributionOf (ranked : List (PreparedFactor F)) (denominator : F) (row : PreparedFactor F) :
    FactorContribution F :=
  let rankLookup := (ranked.zipIdx.map fun p => (p.1.factorIndex, p.2 + 1)).reverse
  let rowLookup := (ranked.map fun r => (r.factorIndex, r)).reverse
  match (lookup Prod.fst row.factorIndex rowLookup).map Prod.snd with
  | some rankedRow =>
      let normalizedWeight := rankedRow.rawWeight / denominator
      { name := rankedRow.factor.name
        correlation := rankedRow.correlation
        sign := rankedRow.sign
        zscore := rankedRow.zscore
        rank := (lookup Prod.fst rankedRow.factorIndex rankLookup).map Prod.snd
        rawWeight := rankedRow.rawWeight
        normalizedWeight
        contribution := normalizedWeight * rankedRow.contribution
        passed := true
        rejectReason := none }
  | none =>
      { name := row.factor.name
        correlation := row.correlation
        sign := row.sign
        zscore := row.zscore
        rank := none
        rawWeight := Double.lit 0
        normalizedWeight := Double.lit 0
        contribution := Double.lit 0
        passed := false
        rejectReason := some (row.rejectReason.getD "filtered_out") }

/-- The returns that the statistics of a result are computed from: those of the first rank. -/
def referenceReturns (config : SignalBuildConfig F) (ranked : List (PreparedFactor F)) : List F :=
  match ranked.head? with
  | some row => tail (sanitizeSeries row.factor.returnSeries)
      (max config.minHistory (row.factor.rollingWindow.getD config.rollingWindow))
  | none => []

/-- The signal of some factors under a configuration. -/
def buildZscoreSignal (show4 : F → String) (factors : List (FactorInput F))
    (config : SignalBuildConfig F) : SignalResult F :=
  if factors = [] then
    { signal := Double.lit 0
      predictedReturn := Double.lit 0
      meanReturn := Double.lit 0
      stdReturn := Double.lit 0
      suppressed := true
      suppressionReasons := ["no_factors"]
      regimePassed := true
      volatilityPassed := true
      factorsUsed := 0
      totalFactors := 0
      contributions := [] }
  else
    let regimeGate := evaluateRegimeFilter config.regimeFilter
    let volGate := evaluateVolatilityFilter show4 config.volatilityFilter
    let prepared := factors.mapIdx (prepareFactor config)
    let ranked := rank config prepared
    let totalWeight := Double.sum (ranked.map (·.rawWeight))
    let suppressionReasons :=
      (if regimeGate.passed then [] else regimeGate.reason.toList) ++
      (if volGate.passed then [] else volGate.reason.toList) ++
      (if ranked ≠ [] && Double.le totalWeight epsilon then ["all_factor_weights_zero"] else []) ++
      (if ranked = [] then ["no_valid_factors_after_filters"] else [])
    let denominator := if Double.lt epsilon totalWeight then totalWeight else Double.lit 1
    let weightedSignal :=
      Double.sum (ranked.map fun row => row.rawWeight / denominator * row.contribution)
    let returns := referenceReturns config ranked
    let meanReturn := (config.meanReturn <|> calculateMean returns).getD (Double.lit 0)
    let stdReturn := Double.max
      ((config.stdReturn <|> calculateStd returns).getD (Double.lit 0)) (Double.lit 0)
    let modelInvalid := ranked = [] || Double.le totalWeight epsilon
    let suppressed := !regimeGate.passed || !volGate.passed || modelInvalid
    let signal := if suppressed then Double.lit 0 else weightedSignal
    { signal
      predictedReturn := meanReturn + stdReturn * signal
      meanReturn
      stdReturn
      suppressed
      suppressionReasons
      regimePassed := regimeGate.passed
      volatilityPassed := volGate.passed
      factorsUsed := ranked.length
      totalFactors := factors.length
      contributions := prepared.map (contributionOf ranked denominator) }

/-! ### What a prepared factor says -/

/-- What is prepared from the `i`-th factor, in any arithmetic. -/
structure Prepared (i : ℕ) (factor : FactorInput F) (row : PreparedFactor F) : Prop where
  factorIndex : row.factorIndex = i
  factor : row.factor = factor
  /-- A factor is rejected for a reason. -/
  rejectReason : row.rejectReason.isSome = !row.passed
  /-- A correlation is that of an aligned pair of series, or none was computed. -/
  correlation : row.correlation = Double.lit 0 ∨ ∃ seriesA seriesB, row.correlation =
    pearsonCorrelation (sanitizeAlignedPair seriesA seriesB).1
      (sanitizeAlignedPair seriesA seriesB).2

/-- A factor that is rejected before its correlation is computed. -/
theorem Prepared.reject (i : ℕ) (factor : FactorInput F) (reason : String) :
    Prepared i factor
      (rejectedFactor i factor reason (Double.lit 0) 0 (Double.lit 0)) :=
  ⟨rfl, rfl, rfl, Or.inl rfl⟩

/-- A factor that is rejected after its correlation is computed. -/
theorem Prepared.rejectCorrelated (i : ℕ) (factor : FactorInput F) (reason : String)
    (seriesA seriesB : List F) (sign : ℤ) (zscore : F) :
    Prepared i factor (rejectedFactor i factor reason
      (pearsonCorrelation (sanitizeAlignedPair seriesA seriesB).1
        (sanitizeAlignedPair seriesA seriesB).2) sign zscore) :=
  ⟨rfl, rfl, rfl, Or.inr ⟨seriesA, seriesB, rfl⟩⟩

/-- A factor that passes. -/
theorem Prepared.pass (i : ℕ) (factor : FactorInput F) (seriesA seriesB : List F) (sign : ℤ)
    (zscore rawWeight contribution : F) :
    Prepared i factor ⟨i, factor, true, none,
      pearsonCorrelation (sanitizeAlignedPair seriesA seriesB).1
        (sanitizeAlignedPair seriesA seriesB).2, sign, zscore, rawWeight, contribution⟩ :=
  ⟨rfl, rfl, rfl, Or.inr ⟨seriesA, seriesB, rfl⟩⟩

/-- **The ways to prepare a factor**: rejected before its correlation is computed, rejected
afterwards, or passed with a clamped z-score. -/
@[elab_as_elim]
theorem prepareFactor_cases {motive : PreparedFactor F → Prop} (cfg : SignalBuildConfig F) (i : ℕ)
    (factor : FactorInput F)
    (rejected : ∀ reason,
      motive (rejectedFactor i factor reason (Double.lit 0) 0 (Double.lit 0)))
    (correlated : ∀ reason seriesA seriesB,
      let aligned := sanitizeAlignedPair seriesA seriesB
      motive (rejectedFactor i factor reason (pearsonCorrelation aligned.1 aligned.2)
        (factor.directionHint.getD (detectFactorCorrelationSign aligned.1 aligned.2))
        (Double.lit 0)))
    (passed : ∀ seriesA seriesB currentValue segment,
      let aligned := sanitizeAlignedPair seriesA seriesB
      let rawZscore := calculateZscore currentValue ((calculateMean segment).getD (Double.lit 0))
        ((calculateStd segment).getD (Double.lit 0))
      motive ⟨i, factor, true, none, pearsonCorrelation aligned.1 aligned.2,
        factor.directionHint.getD (detectFactorCorrelationSign aligned.1 aligned.2),
        clamp rawZscore (-cfg.winsorizeZscoreAt) cfg.winsorizeZscoreAt, Double.lit 0,
        Double.lit 0⟩) :
    motive (prepareFactor cfg i factor) := by
  simp only [prepareFactor]
  split
  · exact rejected _
  split
  · exact rejected _
  split
  · exact rejected _
  split
  · exact rejected _
  split
  · exact rejected _
  split
  · exact correlated _ _ _
  split
  · exact correlated _ _ _
  · exact passed _ _ _ _

/-- **What `prepare_factor` returns.** -/
theorem prepareFactor_spec (cfg : SignalBuildConfig F) (i : ℕ) (factor : FactorInput F) :
    Prepared i factor (prepareFactor cfg i factor) := by
  refine prepareFactor_cases cfg i factor ?_ ?_ ?_
  · exact Prepared.reject i factor
  · exact fun reason seriesA seriesB =>
      Prepared.rejectCorrelated i factor reason seriesA seriesB _ _
  · exact fun seriesA seriesB _ _ => Prepared.pass i factor seriesA seriesB _ _ _ _

end Model

end HftPlatform.ZscoreModel
