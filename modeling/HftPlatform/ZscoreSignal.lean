import HftPlatform.ZscoreModel

/-!
# The z-score model of the dashboard

`apps/web_dashboard/src/lib/alpha/zscoreSignal.ts`: the model of the signal engine once more, with
optional fields and defaults, with functions that throw, and with the order of the sums and of the
checks that this file has. The records of a result and the weight modes are those of the engine.

## Main definitions

* `Dashboard.prepareFactor`: what becomes of one factor.
* `Dashboard.buildZScoreSignal`: the signal, or the error that is thrown.
-/

namespace HftPlatform.Dashboard

open Lib
open ZscoreModel (WeightMode FactorContribution SignalResult)

/-! ### Data -/

/-- A rolling window is a whole number here; a direction hint is `-1` or `1`. -/
structure FactorInput (F : Type) where
  name : String
  series : List F
  returnSeries : List F
  weight : Option F
  rollingWindow : Option ℤ
  currentValue : Option F
  directionHint : Option ℤ
  enabled : Option Bool

/-- The gate of the market regime. -/
structure RegimeFilterConfig where
  enabled : Option Bool
  currentRegime : Option String
  allowedRegimes : Option (List String)

/-- The gate of the volatility, by its z-score. -/
structure VolatilityFilterConfig (F : Type) where
  enabled : Option Bool
  historicalVolatilitySeries : Option (List F)
  currentVolatility : Option F
  minZScore : Option F
  maxZScore : Option F

/-- The configuration of a signal; what is absent has a default. -/
structure SignalBuildConfig (F : Type) where
  rollingWindow : Option ℤ
  minHistory : Option ℤ
  minAbsCorrelation : Option F
  rankDecay : Option F
  weightMode : Option WeightMode
  winsorizeZScoreAt : Option F
  meanReturn : Option F
  stdReturn : Option F
  regimeFilter : Option RegimeFilterConfig
  volatilityFilter : Option (VolatilityFilterConfig F)

/-- The fields of `DEFAULT_CONFIG`. -/
structure DefaultConfig (F : Type) where
  rollingWindow : ℤ
  minHistory : ℤ
  minAbsCorrelation : F
  rankDecay : F
  weightMode : WeightMode
  winsorizeZScoreAt : F

/-- A factor after its own checks, before its weight is known. -/
structure PreparedFactor (F : Type) where
  factorIndex : ℕ
  factor : FactorInput F
  passed : Bool
  rejectReason : Option String
  correlation : F
  sign : ℤ
  zscore : F
  rawWeight : F
  contribution : F

/-- The answer of the regime gate. -/
structure RegimeGate where
  passed : Bool
  reason : Option String

/-- The answer of the volatility gate, with the score that it looked at. -/
structure VolatilityGate (F : Type) where
  passed : Bool
  zscore : F
  reason : Option String

section Model

variable {F : Type} [Double F]

/-- The constant `DEFAULT_CONFIG`. -/
def defaultConfig : DefaultConfig F where
  rollingWindow := 120
  minHistory := 30
  minAbsCorrelation := Double.lit (3 / 100)
  rankDecay := Double.lit (85 / 100)
  weightMode := .equal
  winsorizeZScoreAt := Double.lit 4

/-- The constant `EPSILON`. -/
def epsilon : F := Double.lit (1 / 10 ^ 12)

/-! ### Numbers -/

/-- `Math.max` of two values: a NaN operand is the result. -/
def mathMax (x y : F) : F :=
  if !Double.le x x then x else if !Double.le y y then y else Double.max x y

/-- `Math.min` of two values: a NaN operand is the result. -/
def mathMin (x y : F) : F :=
  if !Double.le x x then x else if !Double.le y y then y else Double.min x y

/-- The value that `isFiniteNumber` lets through. -/
def finiteNumber (value : Option F) : Option F := value.filter Double.isFinite

/-! ### Series -/

/-- The values that are finite. -/
def sanitizeSeries (values : List F) : List F := values.filter fun value => Double.isFinite value

/-- The pairs of two series, aligned at their ends, in which both values are finite. -/
def sanitizeAlignedPair (seriesA seriesB : List F) : List F × List F :=
  let len := min seriesA.length seriesB.length
  let aOffset := seriesA.length - len
  let bOffset := seriesB.length - len
  let pairs := (seriesA.drop aOffset).zip (seriesB.drop bOffset)
  (pairs.filter fun p => Double.isFinite p.1 && Double.isFinite p.2).unzip

/-- The last `n` values; there are none for a count that is not positive. -/
def tail (values : List F) (n : ℤ) : List F :=
  if n ≤ 0 then []
  else if (values.length : ℤ) ≤ n then values
  else values.drop (values.length - n.toNat)

/-- A value within bounds. -/
def clamp (value lower upper : F) : F := mathMin upper (mathMax lower value)

/-- The mean; an empty list throws. -/
def calculateMean (values : List F) : Except String F :=
  let sanitized := sanitizeSeries values
  if sanitized.length = 0 then .error "calculateMean requires at least one finite number."
  else .ok (Double.sum sanitized / Double.lit sanitized.length)

/-- The deviation of the finite values; an empty list throws. -/
def calculateStd (values : List F) : Except String F :=
  let sanitized := sanitizeSeries values
  if sanitized.length = 0 then .error "calculateStd requires at least one finite number."
  else if sanitized.length = 1 then .ok (Double.lit 0)
  else do
    let mean ← calculateMean sanitized
    let squares := sanitized.map fun value => (value - mean) * (value - mean)
    let variance := Double.sum squares / Double.lit sanitized.length
    return Double.sqrt (mathMax variance (Double.lit 0))

/-- How many deviations a value is from the mean; values that are not finite throw. -/
def calculateZScore (value mean std : F) : Except String F :=
  if !Double.isFinite value || !Double.isFinite mean || !Double.isFinite std then
    .error "calculateZScore requires finite value, mean, and std."
  else if Double.le (Double.abs std) epsilon then .ok (Double.lit 0)
  else .ok ((value - mean) / std)

/-- The correlation of two series, aligned at their ends. -/
def pearsonCorrelation (seriesA seriesB : List F) : Except String F :=
  let len := min seriesA.length seriesB.length
  if len < 2 then .ok (Double.lit 0)
  else do
    let a := seriesA.drop (seriesA.length - len)
    let b := seriesB.drop (seriesB.length - len)
    let meanA ← calculateMean a
    let meanB ← calculateMean b
    let das := a.map (· - meanA)
    let dbs := b.map (· - meanB)
    let covariance := Double.sum (List.zipWith (· * ·) das dbs)
    let varA := Double.sum (das.map fun d => d * d)
    let varB := Double.sum (dbs.map fun d => d * d)
    return if Double.le varA epsilon || Double.le varB epsilon then Double.lit 0
      else covariance / Double.sqrt (varA * varB)

/-- The mean and the deviation of the last values of a series. -/
def calculateRollingStats (series : List F) (window : ℤ) : Except String (F × F) := do
  let segment := tail series window
  return (← calculateMean segment, ← calculateStd segment)

/-- The sign of the correlation of two series, zero if that is negligible. -/
def detectFactorCorrelationSign (factorSeries returnSeries : List F) : Except String ℤ := do
  let aligned := sanitizeAlignedPair factorSeries returnSeries
  let correlation ← pearsonCorrelation aligned.1 aligned.2
  return if Double.le (Double.abs correlation) epsilon then 0
    else if Double.lt (Double.lit 0) correlation then 1
    else -1

/-! ### Filters -/

/-- The white space and line ends that `String.prototype.trim` removes. -/
def isWhitespace (c : Char) : Bool :=
  let n := c.toNat
  (0x9 ≤ n && n ≤ 0xD) || n = 0x20 || n = 0xA0 || n = 0x1680 || (0x2000 ≤ n && n ≤ 0x200A) ||
    n = 0x2028 || n = 0x2029 || n = 0x202F || n = 0x205F || n = 0x3000 || n = 0xFEFF

/-- `String.prototype.trim`. -/
def trim (s : String) : String :=
  String.ofList (((s.toList.dropWhile isWhitespace).reverse.dropWhile isWhitespace).reverse)

/-- The gate of the regime. -/
def evaluateRegimeFilter (config : Option RegimeFilterConfig) : RegimeGate :=
  match config with
  | none => ⟨true, none⟩
  | some config =>
      if !config.enabled.getD false then ⟨true, none⟩
      else
        let current := (config.currentRegime.map trim).getD ""
        let allowed := config.allowedRegimes.getD []
        if current = "" then ⟨false, some "regime_filter_missing_current"⟩
        else if allowed.length = 0 then ⟨false, some "regime_filter_empty_allowed_set"⟩
        else if !allowed.contains current then ⟨false, some ("regime_not_allowed:" ++ current)⟩
        else ⟨true, none⟩

/-- `toFixed4` is `toFixed(4)`. -/
def evaluateVolatilityFilter (toFixed4 : F → String) (config : Option (VolatilityFilterConfig F)) :
    Except String (VolatilityGate F) :=
  match config with
  | none => .ok ⟨true, Double.lit 0, none⟩
  | some config =>
      if !config.enabled.getD false then .ok ⟨true, Double.lit 0, none⟩
      else
        let history := sanitizeSeries (config.historicalVolatilitySeries.getD [])
        if history.length < 2 then
          .ok ⟨false, Double.lit 0, some "vol_filter_insufficient_history"⟩
        else
          match finiteNumber (finiteNumber config.currentVolatility <|> history.getLast?) with
          | none => .ok ⟨false, Double.lit 0, some "vol_filter_missing_current"⟩
          | some currentVol => do
              let mean ← calculateMean history
              let std ← calculateStd history
              let zscore ← calculateZScore currentVol mean std
              let minZ := (finiteNumber config.minZScore).getD (-Double.infinity)
              let maxZ := (finiteNumber config.maxZScore).getD Double.infinity
              return if Double.lt zscore minZ || Double.lt maxZ zscore then
                  ⟨false, zscore, some ("vol_z_out_of_range:" ++ toFixed4 zscore)⟩
                else ⟨true, zscore, none⟩

/-! ### Factors -/

/-- `{ ...DEFAULT_CONFIG, ...config }`: an absent field gets its default. -/
def spreadConfig (config : SignalBuildConfig F) : SignalBuildConfig F :=
  { config with
    rollingWindow := config.rollingWindow <|> some (defaultConfig (F := F)).rollingWindow
    minHistory := config.minHistory <|> some (defaultConfig (F := F)).minHistory
    minAbsCorrelation := config.minAbsCorrelation <|> some defaultConfig.minAbsCorrelation
    rankDecay := config.rankDecay <|> some defaultConfig.rankDecay
    weightMode := config.weightMode <|> some (defaultConfig (F := F)).weightMode
    winsorizeZScoreAt := config.winsorizeZScoreAt <|> some defaultConfig.winsorizeZScoreAt }

/-- The row that the callback returns for the factor at an index. -/
def prepareFactor (cfg : SignalBuildConfig F) (factorIndex : ℕ) (factor : FactorInput F) :
    Except String (PreparedFactor F) :=
  let defaults : DefaultConfig F := defaultConfig
  let factorSeries := sanitizeSeries factor.series
  let returnSeries := sanitizeSeries factor.returnSeries
  let rollingWindow := max 2
    ((factor.rollingWindow <|> cfg.rollingWindow).getD defaults.rollingWindow)
  let reject (reason : String) (correlation : F) (sign : ℤ) : PreparedFactor F :=
    { factorIndex, factor
      passed := false
      rejectReason := some reason
      correlation, sign
      zscore := Double.lit 0
      rawWeight := Double.lit 0
      contribution := Double.lit 0 }
  if factor.enabled = some false then .ok (reject "factor_disabled" (Double.lit 0) 0)
  else if (factorSeries.length : ℤ) < cfg.minHistory.getD defaults.minHistory then
    .ok (reject "insufficient_factor_history" (Double.lit 0) 0)
  else if (returnSeries.length : ℤ) < cfg.minHistory.getD defaults.minHistory then
    .ok (reject "insufficient_return_history" (Double.lit 0) 0)
  else
    let alignedLength : ℤ := min (min (factorSeries.length : ℤ) returnSeries.length) rollingWindow
    if alignedLength < 2 then .ok (reject "insufficient_overlap" (Double.lit 0) 0)
    else
      let aligned :=
        sanitizeAlignedPair (tail factorSeries alignedLength) (tail returnSeries alignedLength)
      if aligned.1.length < 2 then
        .ok (reject "insufficient_finite_overlap" (Double.lit 0) 0)
      else do
        let correlation ← pearsonCorrelation aligned.1 aligned.2
        let sign ← (factor.directionHint.map .ok).getD
          (detectFactorCorrelationSign aligned.1 aligned.2)
        if Double.lt (Double.abs correlation)
            (cfg.minAbsCorrelation.getD defaults.minAbsCorrelation) then
          return reject "low_predictive_correlation" correlation sign
        else
          match finiteNumber (finiteNumber factor.currentValue <|> factorSeries.getLast?) with
          | none => return reject "missing_current_factor_value" correlation sign
          | some currentValue =>
              let stats ← calculateRollingStats factorSeries rollingWindow
              let rawZScore ← calculateZScore currentValue stats.1 stats.2
              let bound := cfg.winsorizeZScoreAt.getD defaults.winsorizeZScoreAt
              return { factorIndex, factor
                       passed := true
                       rejectReason := none
                       correlation, sign
                       zscore := clamp rawZScore (-bound) bound
                       rawWeight := Double.lit 0
                       contribution := Double.lit 0 }

/-! ### The signal -/

/-- The comparator of the ranking does not put the second row first: the sort takes a NaN for a
zero. -/
def ranksBefore (a b : PreparedFactor F) : Bool :=
  !Double.lt (Double.lit 0) (Double.abs b.correlation - Double.abs a.correlation)

/-- The raw weight, not yet checked, and the contribution of the row at a place of the ranking. -/
def weigh (cfg : SignalBuildConfig F) (index : ℕ) (row : PreparedFactor F) : PreparedFactor F :=
  let absCorr := Double.abs row.correlation
  let manualWeight := mathMax (Double.lit 0) (row.factor.weight.getD (Double.lit 1))
  let rankWeight := Double.pow (cfg.rankDecay.getD defaultConfig.rankDecay) index
  { row with
    rawWeight := match cfg.weightMode.getD (defaultConfig (F := F)).weightMode with
      | .equal => Double.lit 1
      | .manual => manualWeight
      | .correlation => manualWeight * absCorr
      | .rankedCorrelation => manualWeight * absCorr * rankWeight
    contribution := Double.lit row.sign * row.zscore }

/-- The rows that pass, ranked by their correlations, after the first loop over the ranking. -/
def rank (cfg : SignalBuildConfig F) (prepared : List (PreparedFactor F)) :
    List (PreparedFactor F) :=
  ((prepared.filter (·.passed)).mergeSort ranksBefore).mapIdx (weigh cfg)

/-- The second loop over the ranking: a raw weight that is not finite becomes zero. -/
def sanitizeWeight (row : PreparedFactor F) : PreparedFactor F :=
  { row with rawWeight := if Double.isFinite row.rawWeight then row.rawWeight else Double.lit 0 }

/-- A row joined with its place in the ranking, if it has one. -/
def contributionOf (ranked : List (PreparedFactor F)) (denominator : F) (row : PreparedFactor F) :
    FactorContribution F :=
  let contributionLookup := (ranked.map fun r => (r.factorIndex, r)).reverse
  let rankLookup := (ranked.zipIdx.map fun p => (p.1.factorIndex, p.2 + 1)).reverse
  match (lookup Prod.fst row.factorIndex contributionLookup).map Prod.snd with
  | none =>
      { name := row.factor.name
        correlation := row.correlation
        sign := row.sign
        zscore := row.zscore
        rank := none
        rawWeight := Double.lit 0
        normalizedWeight := Double.lit 0
        contribution := Double.lit 0
        passed := false
        rejectReason := some (row.rejectReason.getD "filtered_out") }
  | some rankedRow =>
      let normalizedWeight := rankedRow.rawWeight / denominator
      { name := row.factor.name
        correlation := rankedRow.correlation
        sign := rankedRow.sign
        zscore := rankedRow.zscore
        rank := (lookup Prod.fst row.factorIndex rankLookup).map Prod.snd
        rawWeight := rankedRow.rawWeight
        normalizedWeight
        contribution := normalizedWeight * rankedRow.contribution
        passed := true
        rejectReason := none }

/-- The returns that the statistics of a result are computed from: those of the first rank. -/
def referenceReturns (cfg : SignalBuildConfig F) (ranked : List (PreparedFactor F)) : List F :=
  let defaults : DefaultConfig F := defaultConfig
  match ranked.head? with
  | some row => tail (sanitizeSeries row.factor.returnSeries)
      (max (cfg.minHistory.getD defaults.minHistory)
        ((row.factor.rollingWindow <|> cfg.rollingWindow).getD defaults.rollingWindow))
  | none => []

/-- The mean of the result: as configured, or that of the returns. -/
def meanReturn (cfg : SignalBuildConfig F) (returns : List F) : Except String F :=
  match finiteNumber cfg.meanReturn with
  | some mean => .ok mean
  | none => if 0 < returns.length then calculateMean returns else .ok (Double.lit 0)

/-- The standard deviation of the result: as configured, or that of the returns. -/
def stdReturn (cfg : SignalBuildConfig F) (returns : List F) : Except String F :=
  match finiteNumber cfg.stdReturn with
  | some std => .ok (mathMax (Double.lit 0) std)
  | none => if 1 < returns.length then calculateStd returns else .ok (Double.lit 0)

/-- The signal of some factors under a configuration, or what it throws. -/
def buildZScoreSignal (toFixed4 : F → String) (factors : List (FactorInput F))
    (config : SignalBuildConfig F) : Except String (SignalResult F) :=
  if factors.length = 0 then
    .ok { signal := Double.lit 0
          predictedReturn := Double.lit 0
          meanReturn := Double.lit 0
          stdReturn := Double.lit 0
          suppressed := true
          suppressionReasons := ["no_factors"]
          regimePassed := true
          volatilityPassed := true
          factorsUsed := 0
          totalFactors := 0
          contributions := [] }
  else do
    let cfg := spreadConfig config
    let regimeGate := evaluateRegimeFilter cfg.regimeFilter
    let volGate ← evaluateVolatilityFilter toFixed4 cfg.volatilityFilter
    let prepared ← factors.zipIdx.mapM fun p => prepareFactor cfg p.2 p.1
    let weighed := rank cfg prepared
    let totalWeight := Double.sum (weighed.map (·.rawWeight))
    let suppressionReasons :=
      (if !regimeGate.passed then (regimeGate.reason.filter (· ≠ "")).toList else []) ++
      (if !volGate.passed then (volGate.reason.filter (· ≠ "")).toList else []) ++
      (if 0 < weighed.length && Double.le totalWeight epsilon then
        ["all_factor_weights_zero"] else []) ++
      (if weighed.length = 0 then ["no_valid_factors_after_filters"] else [])
    let ranked := weighed.map sanitizeWeight
    let safeTotalWeight := Double.sum (ranked.map (·.rawWeight))
    let denominator := if Double.lt epsilon safeTotalWeight then safeTotalWeight else Double.lit 1
    let weightedSignal :=
      Double.sum (ranked.map fun row => row.rawWeight / denominator * row.contribution)
    let returns := referenceReturns cfg ranked
    let mean ← meanReturn cfg returns
    let std ← stdReturn cfg returns
    let gatedOut := !regimeGate.passed || !volGate.passed
    let modelInvalid := ranked.length = 0 || Double.le safeTotalWeight epsilon
    let suppressed := gatedOut || modelInvalid
    let signal := if suppressed then Double.lit 0 else weightedSignal
    return { signal
             predictedReturn := mean + std * signal
             meanReturn := mean
             stdReturn := std
             suppressed
             suppressionReasons
             regimePassed := regimeGate.passed
             volatilityPassed := volGate.passed
             factorsUsed := ranked.length
             totalFactors := factors.length
             contributions := prepared.map (contributionOf ranked denominator) }

end Model

end HftPlatform.Dashboard
