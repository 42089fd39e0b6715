import HftPlatform.FeatureEngine
import HftPlatform.FeatureWire
import HftPlatform.SignalEngine

/-!
# From candles to signals

The feature vectors that the feature engine publishes are what the signal engine reads. A vector
names a market regime, and the signal engine trades in some regimes only; but the regime of every
vector is the constant `0`, which stands for none of them.

## Main results

* `regime_run`: every vector that is published has the regime `0`.
* `suppressed_signals`: every record that the signal engine emits for such vectors is suppressed.
* `not_canTrade`: so there is no trade.
-/

namespace HftPlatform.FeaturePipeline

open Lib Mq
open FeatureEngine (Candle Config Engine handleMessage consumer)
open SignalEngine (FeatureState RuntimeConfig SignalRecord onFeature signalOf)
open ZscoreModel (FactorInput RegimeFilterConfig SignalBuildConfig SignalResult buildZscoreSignal
  evaluateRegimeFilter)

section Pipeline

variable {F : Type} [Double F]

/-- The configuration of the signal engine, of which only the threshold is set. -/
def fromEnv (signalThreshold : F) : RuntimeConfig F where
  signalThreshold := signalThreshold
  historyCapacity := max (max 120 30) 120 * 4
  modelConfig :=
    { rollingWindow := 120
      minHistory := 30
      minAbsCorrelation := Double.lit (3 / 100)
      rankDecay := Double.lit (85 / 100)
      weightMode := .equal
      winsorizeZscoreAt := Double.lit 4
      meanReturn := none
      stdReturn := none
      regimeFilter := none
      volatilityFilter := none }
  regimeFilterEnabled := true
  allowedRegimes := ["TREND_UP", "TREND_DOWN", "RANGE", "VOL_COMPRESSION", "VOL_EXPANSION"]
  volFilterEnabled := true
  volMinZscore := Double.lit (-25 / 10)
  volMaxZscore := Double.lit (25 / 10)

/-- What the signal engine computes with. -/
def received (m : Md.FeatureState F) : SignalEngine.FeatureState F where
  symbol := m.symbol
  emaFast := m.emaFast
  emaSlow := m.emaSlow
  rsi := m.rsi
  macdHist := m.macdHist
  vwap := m.vwap
  adx := m.adx
  atr := m.atr
  regime := m.regime
  volZscore := m.volZscore
  oiChangePct := m.oiChangePct

/-- What the signal engine emits for the feature vectors of a run of the feature engine. -/
def signals (decode : List UInt8 → Option (Candle F)) (show4 : F → String) (threshold : F)
    (broker : Broker) (position : String × ℤ → ℤ) (polls : List (Poll FeatureEngine.Call)) :
    List (Option (SignalResult F × SignalRecord F)) :=
  let engine := (consumer.run (handleMessage decode {}) broker
    { handler := {}, position } polls).1.handler
  (Machine.run (onFeature show4 (fromEnv threshold)) (fun _ => {})
    (engine.published.map fun fv => received (Md.publish fv))).2

end Pipeline

section Suppressed

variable {F : Type} [Double F] {decode : List UInt8 → Option (Candle F)} {cfg : Config}

/-- A call publishes no regime. -/
theorem regime_handleMessage {s : Engine F} (h : ∀ fv ∈ s.published, fv.regime = 0)
    (ctx : MessageCtx) (call : FeatureEngine.Call) :
    ∀ fv ∈ (handleMessage decode cfg ctx call s).2.published, fv.regime = 0 := by
  rcases FeatureEngine.handleMessage_cases decode cfg ctx call s with
    ⟨-, hskip⟩ | ⟨candle, -, htaken⟩
  · rw [hskip]
    exact h
  · generalize handleMessage decode cfg ctx call s = r at htaken
    cases htaken with
    | throttled _ => exact h
    | panicked _ _ => exact h
    | failed state e _ _ _ => exact h
    | published state _ _ _ =>
        intro fv hfv
        rcases List.mem_append.mp hfv with hfv | hfv
        · exact h fv hfv
        · obtain rfl := List.mem_singleton.mp hfv
          rfl

/-- **No regime is ever published.** -/
theorem regime_run (decode : List UInt8 → Option (Candle F)) (cfg : Config) (broker : Broker)
    (position : String × ℤ → ℤ) (polls : List (Poll FeatureEngine.Call)) :
    ∀ fv ∈ (consumer.run (handleMessage decode cfg) broker
      { handler := {}, position } polls).1.handler.published, fv.regime = 0 :=
  KafkaConsumer.run_induction (P := fun _ (s : Engine F) => ∀ fv ∈ s.published, fv.regime = 0)
    (fun _ ctx call _ h => regime_handleMessage h ctx call) (by simp) polls

end Suppressed

/-- The gate of the signal engine, with the regimes that it trades in. -/
def defaultRegimeFilter (regime : ℕ) : RegimeFilterConfig where
  enabled := true
  currentRegime := some (SignalEngine.regimeLabel regime)
  allowedRegimes := ["TREND_UP", "TREND_DOWN", "RANGE", "VOL_COMPRESSION", "VOL_EXPANSION"]

/-- The gate does not let the regime `0` pass. -/
theorem evaluateRegimeFilter_zero :
    (evaluateRegimeFilter (some (defaultRegimeFilter 0))).passed = false ∧
      (evaluateRegimeFilter (some (defaultRegimeFilter 0))).reason =
        some "regime_not_allowed:UNKNOWN" := by
  decide +kernel

section Suppressed

variable {F : Type} [Double F]

/-- A record that says to do nothing, because of the regime. -/
structure SuppressedByRegime (result : SignalResult F) (record : SignalRecord F) : Prop where
  suppressed : result.suppressed = true
  reason : "regime_not_allowed:UNKNOWN" ∈ result.suppressionReasons
  sideCode : record.sideCode = 0
  sideLabel : record.sideLabel = "NEUTRAL"

/-- A regime that the gate does not let pass suppresses the signal. -/
theorem buildZscoreSignal_of_regime (show4 : F → String) {factors : List (FactorInput F)}
    {config : SignalBuildConfig F} {reason : String} (hfactors : factors ≠ [])
    (hpassed : (evaluateRegimeFilter config.regimeFilter).passed = false)
    (hreason : (evaluateRegimeFilter config.regimeFilter).reason = some reason) :
    (buildZscoreSignal show4 factors config).suppressed = true ∧
      reason ∈ (buildZscoreSignal show4 factors config).suppressionReasons := by
  rw [buildZscoreSignal, if_neg hfactors]
  dsimp only
  rw [hpassed, hreason]
  simp

/-- How a signal comes about. -/
theorem signalOf_cases {show4 : F → String} {cfg : RuntimeConfig F} {feature : FeatureState F}
    {state : SignalEngine.SymbolState F F} {result : SignalResult F} {record : SignalRecord F}
    (h : signalOf show4 cfg feature state = some (result, record)) :
    ∃ factors config, factors ≠ [] ∧ result = buildZscoreSignal show4 factors config ∧
      record = SignalEngine.buildSignalRecord result cfg.signalThreshold ∧
      config.regimeFilter = some
        { enabled := cfg.regimeFilterEnabled
          currentRegime := some (SignalEngine.regimeLabel feature.regime)
          allowedRegimes := cfg.allowedRegimes } := by
  rw [signalOf] at h
  dsimp only at h
  split at h
  · simp at h
  · rename_i hfactors
    obtain ⟨rfl, rfl⟩ := Prod.mk.inj (Option.some.inj h)
    exact ⟨_, _, hfactors, rfl, rfl, rfl⟩

/-- **A feature without a regime** yields no signal, or a suppressed one. -/
theorem suppressed_of_signalOf {show4 : F → String} {threshold : F} {feature : FeatureState F}
    {state : SignalEngine.SymbolState F F} {result : SignalResult F} {record : SignalRecord F}
    (hregime : feature.regime = 0)
    (h : signalOf show4 (fromEnv threshold) feature state = some (result, record)) :
    SuppressedByRegime result record := by
  obtain ⟨factors, config, hfactors, hresult, hrecord, hfilter⟩ := signalOf_cases h
  rw [hregime] at hfilter
  have hgate : config.regimeFilter = some (defaultRegimeFilter 0) := hfilter
  obtain ⟨hpassed, hreason⟩ := evaluateRegimeFilter_zero
  rw [← hgate] at hpassed hreason
  obtain ⟨hsuppressed, hmem⟩ := buildZscoreSignal_of_regime show4 hfactors hpassed
    hreason
  rw [← hresult] at hsuppressed hmem
  refine ⟨hsuppressed, hmem, ?_, ?_⟩
  · rw [hrecord, SignalEngine.buildSignalRecord, hsuppressed]
    rfl
  · rw [hrecord, SignalEngine.buildSignalRecord, hsuppressed]
    rfl

/-- A run over features without a regime emits suppressed records only. -/
theorem suppressed_of_run (show4 : F → String) (threshold : F) {features : List (FeatureState F)}
    (hregime : ∀ feature ∈ features, feature.regime = 0) :
    ∀ result record, some (result, record) ∈
      (Machine.run (onFeature show4 (fromEnv threshold)) (fun _ => {}) features).2 →
        SuppressedByRegime result record := by
  induction features using List.reverseRecOn with
  | nil => simp
  | append_singleton features feature ih =>
      intro result record hmem
      rw [Machine.run_concat] at hmem
      rcases List.mem_append.mp hmem with hmem | hmem
      · exact ih (fun f hf => hregime f (List.mem_append_left _ hf)) result record hmem
      · have hlast := List.mem_singleton.mp hmem
        rw [onFeature] at hlast
        dsimp only at hlast
        split at hlast
        · exact suppressed_of_signalOf (hregime feature (by simp)) hlast.symm
        · simp at hlast

end Suppressed

section Trade

variable {F : Type} [Double F]

/-- Whatever the candles, the calls of the handler and the threshold: every record that the signal
engine emits for what the feature engine publishes is suppressed because of its regime. -/
theorem suppressed_signals (decode : List UInt8 → Option (Candle F)) (show4 : F → String)
    (threshold : F) (broker : Broker) (position : String × ℤ → ℤ)
    (polls : List (Poll FeatureEngine.Call)) :
    ∀ result record, some (result, record) ∈ signals decode show4 threshold broker position polls →
      SuppressedByRegime result record := by
  refine suppressed_of_run show4 threshold fun feature hfeature => ?_
  obtain ⟨fv, hfv, rfl⟩ := List.mem_map.mp hfeature
  exact regime_run decode {} broker position polls fv hfv

/-- Some closed candles of the symbol let the signal engine emit a record with a side. -/
def CanTrade (show4 : F → String) (symbol : String) (threshold : F) : Prop :=
  ∃ decode broker position polls result record,
    (∀ payload candle, decode payload = some candle → candle.symbol = symbol ∧ candle.isClosed) ∧
      some (result, record) ∈ signals decode show4 threshold broker position polls ∧
      result.suppressed = false ∧ record.sideCode ≠ 0

end Trade

/-- **No candle history trades**, with the default configurations of both services: of no symbol,
with no threshold. -/
theorem not_canTrade {F : Type} [Double F] (show4 : F → String) (symbol : String) (threshold : F) :
    ¬ CanTrade show4 symbol threshold := by
  rintro ⟨decode, broker, position, polls, result, record, -, hmem, -, hside⟩
  exact hside (suppressed_signals decode show4 threshold broker position polls result record
    hmem).sideCode

/-- With the default threshold, for a symbol. -/
theorem not_canTrade_btcusdt :
    ¬ CanTrade (F := Extended ℚ) (fun _ => "") "BTCUSDT" (.fin (2 / 10)) := by
  rintro ⟨decode, broker, position, polls, result, record, -, hmem, hsuppressed, -⟩
  have h := suppressed_signals decode _ _ broker position polls result record hmem
  rw [h.suppressed] at hsuppressed
  cases hsuppressed

/-! ### Records are emitted -/

/-- A partition with so many candles. -/
def candles (n : ℕ) : Broker where
  log source :=
    if source = ("TOPIC_CANDLES_1M", 0) then
      (List.range n).map fun (k : ℕ) => { FeatureEngine.candleMessage [] with offset := k }
    else []
  source_eq source ctx hmem := by
    split at hmem
    · rename_i hsource
      obtain ⟨k, -, rfl⟩ := List.mem_map.mp hmem
      exact hsource.symm
    · simp at hmem
  increasing source := by
    split
    · exact List.pairwise_map.mpr (List.pairwise_lt_range.imp fun h => Int.ofNat_lt.mpr h)
    · exact List.Pairwise.nil

/-- The thirty-first candle is the first one with a record. -/
example : (signals (fun _ => some (FeatureEngine.flatCandle 100 0)) (fun _ => "") (.fin (2 / 10))
    (candles 31) (fun _ => 0)
    (List.replicate 31 (FeatureEngine.deliver fun _ => .ok ()))).map Option.isSome =
      List.replicate 30 false ++ [true] := by
  decide +kernel

end HftPlatform.FeaturePipeline
