import HftPlatform.Lib.History
import HftPlatform.ZscoreModel

/-!
# The signal engine

`services/strategy_engine/signal_engine/src/main.rs`: what the main loop does with a decoded
feature state. A feature with a usable price and at least one factor is accepted; the return since
the last accepted one is pushed with the factors of that one, and the model is run on the
histories.

## Main definitions

* `SignalEngine.SymbolState.record`: the histories after an accepted feature.
* `SignalEngine.onFeature`: a turn of the loop, up to the signal that it persists and publishes.
* `SignalEngine.run`: the histories after a sequence of features.
-/

namespace HftPlatform.SignalEngine

open Lib
open Std (TreeMap)
open ZscoreModel (FactorInput RegimeFilterConfig VolatilityFilterConfig SignalBuildConfig
  SignalResult buildZscoreSignal)

/-! ### Data -/

/-- The fields of a `FeatureState` that the engine computes with. -/
structure FeatureState (F : Type) where
  symbol : String
  emaFast : F
  emaSlow : F
  rsi : F
  macdHist : F
  vwap : F
  adx : F
  atr : F
  regime : ℕ
  volZscore : F
  oiChangePct : F

/-- The configuration of the signal engine. -/
structure RuntimeConfig (F : Type) where
  signalThreshold : F
  historyCapacity : ℕ
  modelConfig : SignalBuildConfig F
  regimeFilterEnabled : Bool
  allowedRegimes : List String
  volFilterEnabled : Bool
  volMinZscore : F
  volMaxZscore : F

/-- The state of a symbol. The engine keeps the values themselves in the histories of the factors
and of the returns (`α = F`). -/
structure SymbolState (F α : Type) where
  lastVwap : Option F := none
  pendingFactors : Option (TreeMap String F) := none
  factorHistories : TreeMap String (List α) := {}
  returnHistory : List α := []
  volatilityHistory : List F := []

/-- A signal record, without its identifiers and its time. -/
structure SignalRecord (F : Type) where
  sideCode : ℤ
  sideLabel : String
  confidence : F

/-- `VecDeque::push_back`, then `pop_front` as long as there are more than `maxLen` values. -/
def pushCapped {α : Type} (queue : List α) (value : α) (maxLen : ℕ) : List α :=
  (queue ++ [value]).drop ((queue ++ [value]).length - maxLen)

section Engine

variable {F : Type} [Double F]

/-- The constant `EPSILON`. -/
def epsilon : F := Double.lit (1 / 10 ^ 12)

/-! ### Features -/

/-- The volatility of a feature, if it is usable. -/
def currentVolatility (feature : FeatureState F) : Option F :=
  let value := Double.abs (feature.atr / feature.vwap)
  if Double.isFinite feature.atr && Double.isFinite feature.vwap &&
      Double.lt epsilon (Double.abs feature.vwap) && Double.isFinite value then some value
  else if Double.isFinite feature.volZscore then some (Double.abs feature.volZscore)
  else none

/-- The factors of a feature, by name. -/
def extractFactorSnapshot (feature : FeatureState F) : TreeMap String F :=
  let factors : TreeMap String F := {}
  let factors :=
    if Double.lt epsilon (Double.abs feature.emaSlow) && Double.isFinite feature.emaFast &&
        Double.isFinite feature.emaSlow then
      factors.insert "ema_spread"
        ((feature.emaFast - feature.emaSlow) / Double.abs feature.emaSlow)
    else factors
  let factors :=
    if Double.isFinite feature.macdHist then factors.insert "macd_hist" feature.macdHist
    else factors
  let factors :=
    if Double.isFinite feature.rsi then
      factors.insert "rsi_centered" ((feature.rsi - Double.lit 50) / Double.lit 50)
    else factors
  let factors :=
    if Double.isFinite feature.oiChangePct then
      factors.insert "oi_change_pct" feature.oiChangePct
    else factors
  let factors :=
    if Double.isFinite feature.adx then
      factors.insert "adx_centered" ((feature.adx - Double.lit 25) / Double.lit 25)
    else factors
  if Double.isFinite feature.volZscore then factors.insert "vol_zscore" feature.volZscore
  else factors

/-- The two checks that a feature passes before it reaches the state of its symbol. -/
def accepted (feature : FeatureState F) : Bool :=
  Double.isFinite feature.vwap && !Double.le (Double.abs feature.vwap) epsilon &&
    !(extractFactorSnapshot feature).isEmpty

/-- The name of a regime. -/
def regimeLabel (regime : ℕ) : String :=
  match regime with
  | 1 => "TREND_UP"
  | 2 => "TREND_DOWN"
  | 3 => "RANGE"
  | 4 => "VOL_COMPRESSION"
  | 5 => "VOL_EXPANSION"
  | 6 => "PANIC"
  | 7 => "ILLIQUID"
  | 8 => "HIGH_SPREAD_NO_TRADE"
  | _ => "UNKNOWN"

/-! ### Histories -/

section Histories

variable {α : Type}

/-- The loop over the factors of the last accepted feature. -/
def pushFactors (capacity : ℕ) (mark : F → α) (factors : TreeMap String F)
    (histories : TreeMap String (List α)) : TreeMap String (List α) :=
  factors.foldl (fun histories name value =>
    histories.insert name (pushCapped (histories[name]?.getD []) (mark value) capacity)) histories

/-- The volatility of an accepted feature is pushed, if it has one. -/
def SymbolState.pushVolatility (cfg : RuntimeConfig F) (feature : FeatureState F)
    (state : SymbolState F α) : SymbolState F α :=
  match currentVolatility feature with
  | some vol =>
      { state with
        volatilityHistory := pushCapped state.volatilityHistory vol cfg.historyCapacity }
  | none => state

/-- The return since the last accepted feature is pushed, with the factors of that one. What is
pushed is `mark`ed: the engine marks nothing (`mark = id`). -/
def SymbolState.pushReturn (cfg : RuntimeConfig F) (mark : F → α) (feature : FeatureState F)
    (state : SymbolState F α) : SymbolState F α :=
  match state.lastVwap, state.pendingFactors with
  | some prevVwap, some prevFactors =>
      let realizedReturn := (feature.vwap - prevVwap) / prevVwap
      if Double.lt epsilon (Double.abs prevVwap) && Double.isFinite realizedReturn then
        { state with
          returnHistory :=
            pushCapped state.returnHistory (mark realizedReturn) cfg.historyCapacity
          factorHistories :=
            pushFactors cfg.historyCapacity mark prevFactors state.factorHistories }
      else state
  | _, _ => state

/-- The state of a symbol after an accepted feature. -/
def SymbolState.record (cfg : RuntimeConfig F) (mark : F → α) (feature : FeatureState F)
    (currentFactors : TreeMap String F) (state : SymbolState F α) : SymbolState F α :=
  { (state.pushVolatility cfg feature).pushReturn cfg mark feature with
    lastVwap := some feature.vwap
    pendingFactors := some currentFactors }

/-- The states of all symbols after a feature; a symbol that was never seen has the default
state. -/
def absorb (cfg : RuntimeConfig F) (mark : F → α) (states : String → SymbolState F α)
    (feature : FeatureState F) : String → SymbolState F α :=
  if accepted feature then
    Function.update states feature.symbol
      ((states feature.symbol).record cfg mark feature (extractFactorSnapshot feature))
  else states

/-- The states after the features that were received, each with its number as a mark. -/
def run (cfg : RuntimeConfig F) (mark : ℕ → F → α) (features : List (FeatureState F)) :
    String → SymbolState F α :=
  features.zipIdx.foldl (fun states p => absorb cfg (mark p.2) states p.1) fun _ => {}

end Histories

/-! ### Signals -/

/-- The weight of a factor, by name. -/
def defaultFactorWeight (name : String) : F :=
  Double.lit (match name with
    | "ema_spread" => 12 / 10
    | "macd_hist" => 11 / 10
    | "rsi_centered" => 1
    | "adx_centered" => 9 / 10
    | "oi_change_pct" => 8 / 10
    | "vol_zscore" => 7 / 10
    | _ => 1)

/-- The factors with their histories, as the model takes them. -/
def buildFactorInputs (state : SymbolState F F) (currentFactors : TreeMap String F)
    (cfg : RuntimeConfig F) : List (FactorInput F) :=
  if state.returnHistory.length < cfg.modelConfig.minHistory then []
  else state.factorHistories.toList.filterMap fun (name, history) =>
    match currentFactors[name]? with
    | none => none
    | some current =>
        if history.length < cfg.modelConfig.minHistory then none
        else some
          { name
            series := history
            returnSeries := state.returnHistory
            weight := defaultFactorWeight name
            rollingWindow := some cfg.modelConfig.rollingWindow
            currentValue := some current
            directionHint := none
            enabled := true }

/-- The record of a result, with its direction. -/
def buildSignalRecord (result : SignalResult F) (threshold : F) : SignalRecord F :=
  let side : ℤ × String :=
    if result.suppressed || Double.lt (Double.abs result.signal) threshold then (0, "NEUTRAL")
    else if Double.lt (Double.lit 0) result.signal then (1, "LONG")
    else (-1, "SHORT")
  { sideCode := side.1
    sideLabel := side.2
    confidence := Double.min (Double.abs result.signal) (Double.lit 1) }

/-- The signal that is persisted and published for an accepted feature, if any. -/
def signalOf (show4 : F → String) (cfg : RuntimeConfig F) (feature : FeatureState F)
    (state : SymbolState F F) : Option (SignalResult F × SignalRecord F) :=
  let inputs := buildFactorInputs state (extractFactorSnapshot feature) cfg
  if inputs = [] then none
  else
    let modelCfg : SignalBuildConfig F :=
      { cfg.modelConfig with
        regimeFilter := some
          { enabled := cfg.regimeFilterEnabled
            currentRegime := some (regimeLabel feature.regime)
            allowedRegimes := cfg.allowedRegimes }
        volatilityFilter := some
          { enabled := cfg.volFilterEnabled
            historicalVolatilitySeries := state.volatilityHistory
            currentVolatility := currentVolatility feature
            minZscore := some cfg.volMinZscore
            maxZscore := some cfg.volMaxZscore } }
    let result := buildZscoreSignal show4 inputs modelCfg
    some (result, buildSignalRecord result cfg.signalThreshold)

/-- A turn of the main loop. -/
def onFeature (show4 : F → String) (cfg : RuntimeConfig F) (states : String → SymbolState F F)
    (feature : FeatureState F) :
    (String → SymbolState F F) × Option (SignalResult F × SignalRecord F) :=
  let states' := absorb cfg id states feature
  (states', if accepted feature then signalOf show4 cfg feature (states' feature.symbol) else none)

end Engine

end HftPlatform.SignalEngine
