import HftPlatform.Lib.Double
import Mathlib.Data.Nat.Bitwise

/-!
# Indicators

`services/feature_engine/src/indicators` and `state/symbol_state.rs`: the incremental indicators of
a symbol, and the feature vector that a closed candle yields. The counters are `u32`s, which wrap
in a release build. A constructor with a period that it does not admit panics.

## Main definitions

* `SymbolState.update`: a closed candle is taken, and its feature vector returned.
* `SymbolState.after`: the state after a list of candles.

## Main results

* `SymbolState.count_foldl`: the number of candles taken can be read off a state, up to wrapping.
-/

namespace HftPlatform.FeatureEngine

open Lib

/-- `n += 1` on a `u32`. -/
def increment (n : ℕ) : ℕ := (n + 1) % 2 ^ 32

section Indicators

variable {F : Type} [Double F]

/-! ### Exponential moving average -/

/-- The state of an exponential average. -/
structure EmaState (F : Type) where
  alpha : F
  value : F
  count : ℕ
  period : ℕ

/-- An average over some bars; zero bars are refused. -/
def EmaState.new (period : ℕ) : Option (EmaState F) :=
  if 1 ≤ period then
    some
      { alpha := Double.lit 2 / (Double.lit period + Double.lit 1)
        value := Double.lit 0
        count := 0
        period := period }
  else none

/-- As many bars were seen as the average is over. -/
def EmaState.ready (s : EmaState F) : Bool := s.period ≤ s.count

/-- The state after a price; its value is the current average, ready or not. -/
def EmaState.updateRaw (s : EmaState F) (price : F) : EmaState F :=
  { s with
    value :=
      if s.count = 0 then price else s.alpha * price + (Double.lit 1 - s.alpha) * s.value
    count := increment s.count }

/-! ### Relative strength -/

/-- The state of the relative strength. -/
structure RsiState (F : Type) where
  period : ℕ
  prevClose : Option F
  avgGain : F
  avgLoss : F
  deltas : ℕ
  warmupGains : List F
  warmupLosses : List F

/-- The strength over some bars; fewer than two are refused. -/
def RsiState.new (period : ℕ) : Option (RsiState F) :=
  if 2 ≤ period then
    some
      { period := period
        prevClose := none
        avgGain := Double.lit 0
        avgLoss := Double.lit 0
        deltas := 0
        warmupGains := []
        warmupLosses := [] }
  else none

/-- `x == 0.0` -/
def isZero (x : F) : Bool := Double.le x (Double.lit 0) && Double.le (Double.lit 0) x

/-- The strength that the averages of gains and losses stand for. -/
def RsiState.rsi (s : RsiState F) : F :=
  if isZero s.avgLoss then Double.lit 100
  else Double.lit 100 - Double.lit 100 / (Double.lit 1 + s.avgGain / s.avgLoss)

/-- As many changes were seen as the averages are over. -/
def RsiState.ready (s : RsiState F) : Bool := s.period ≤ s.deltas

/-- A change of the close is averaged: collected while the window fills, then smoothed. -/
def RsiState.record (s : RsiState F) (gain loss : F) : RsiState F × Option F :=
  let s := { s with deltas := increment s.deltas }
  if s.deltas < s.period then
    ({ s with
        warmupGains := s.warmupGains ++ [gain]
        warmupLosses := s.warmupLosses ++ [loss] },
      none)
  else
    let s :=
      if s.deltas = s.period then
        let n : F := Double.lit s.warmupGains.length
        { s with
          avgGain := (Double.sum s.warmupGains + gain) / (n + Double.lit 1)
          avgLoss := (Double.sum s.warmupLosses + loss) / (n + Double.lit 1)
          warmupGains := []
          warmupLosses := [] }
      else
        let p : F := Double.lit s.period
        { s with
          avgGain := (s.avgGain * (p - Double.lit 1) + gain) / p
          avgLoss := (s.avgLoss * (p - Double.lit 1) + loss) / p }
    (s, some s.rsi)

/-- The state after a close, and the strength when there is one. -/
def RsiState.update (s : RsiState F) (close : F) : RsiState F × Option F :=
  match s.prevClose with
  | none => ({ s with prevClose := some close }, none)
  | some prev =>
      let delta := close - prev
      let gain := if Double.lt (Double.lit 0) delta then delta else Double.lit 0
      let loss := if Double.lt delta (Double.lit 0) then -delta else Double.lit 0
      { s with prevClose := some close }.record gain loss

/-! ### Convergence and divergence of averages -/

/-- Two averages of the closes, and one of their difference. -/
structure MacdState (F : Type) where
  fast : EmaState F
  slow : EmaState F
  signal : EmaState F

/-- The difference, its average, and what is between them. -/
structure MacdValues (F : Type) where
  macd : F
  signal : F
  hist : F

/-- The three averages; any of them may be refused. -/
def MacdState.new (fastPeriod slowPeriod signalPeriod : ℕ) : Option (MacdState F) := do
  return ⟨← EmaState.new fastPeriod, ← EmaState.new slowPeriod, ← EmaState.new signalPeriod⟩

/-- The signal average is fed once the slow one is ready, and the values are returned once the
signal average was ready before. -/
def MacdState.update (s : MacdState F) (close : F) : MacdState F × Option (MacdValues F) :=
  let fast := s.fast.updateRaw close
  let slow := s.slow.updateRaw close
  if s.slow.ready then
    let macd := fast.value - slow.value
    let signal := s.signal.updateRaw macd
    (⟨fast, slow, signal⟩,
      if s.signal.ready then some ⟨macd, signal.value, macd - signal.value⟩ else none)
  else (⟨fast, slow, s.signal⟩, none)

/-- The slow average and that of the difference are ready. -/
def MacdState.ready (s : MacdState F) : Bool := s.slow.ready && s.signal.ready

/-! ### Volume-weighted average price -/

/-- The state of the volume-weighted price of a day. -/
structure VwapState (F : Type) where
  cumulativePv : F
  cumulativeVol : F
  sessionDay : ℕ
  barsInSession : ℕ

/-- No bar was seen yet. -/
def VwapState.new : VwapState F := ⟨Double.lit 0, Double.lit 0, 0, 0⟩

/-- The volume-weighted price; zero without volume. -/
def VwapState.vwap (s : VwapState F) : F :=
  if isZero s.cumulativeVol then Double.lit 0 else s.cumulativePv / s.cumulativeVol

/-- The day of a time in milliseconds, as a `u32`. -/
def dayOf (openTimeMs : ℤ) : ℕ := (openTimeMs.tdiv 86400000 % 2 ^ 32).toNat

/-- A bar is added to the session, or starts the one of a new day. -/
def VwapState.update (s : VwapState F) (high low close volume : F) (openTimeMs : ℤ) :
    VwapState F :=
  let s := if dayOf openTimeMs = s.sessionDay then s
    else ⟨Double.lit 0, Double.lit 0, dayOf openTimeMs, 0⟩
  let typical := (high + low + close) / Double.lit 3
  { s with
    cumulativePv := s.cumulativePv + typical * volume
    cumulativeVol := s.cumulativeVol + volume
    barsInSession := increment s.barsInSession }

/-- A bar was seen in the session. -/
def VwapState.ready (s : VwapState F) : Bool := 0 < s.barsInSession

end Indicators

/-! ### The state of a symbol -/

/-- A candle as it is consumed. -/
structure Candle (F : Type) where
  symbol : String
  openTime : ℤ
  closeTime : ℤ
  high : F
  low : F
  close : F
  volume : F
  isClosed : Bool := false

/-- The features of a symbol after a bar. -/
structure FeatureVector (F : Type) where
  symbol : String
  ts : ℤ
  emaFast : F
  emaSlow : F
  rsi : F
  macd : F
  macdSignal : F
  macdHist : F
  vwap : F
  adx : F
  atr : F
  regime : ℕ
  volZscore : F
  oiChangePct : F
  quality : ℕ
  deriving DecidableEq

/-- The indicators of a symbol. -/
structure SymbolState (F : Type) where
  symbol : String
  emaFast : EmaState F
  emaSlow : EmaState F
  rsi : RsiState F
  macd : MacdState F
  vwap : VwapState F

/-- The periods of the indicators. -/
structure Periods where
  emaFast : ℕ := 12
  emaSlow : ℕ := 26
  rsi : ℕ := 14
  macdSignal : ℕ := 9

/-- The constructors admit the periods. -/
structure Periods.Valid (p : Periods) : Prop where
  emaFast : 1 ≤ p.emaFast
  emaSlow : 1 ≤ p.emaSlow
  rsi : 2 ≤ p.rsi
  macdSignal : 1 ≤ p.macdSignal

namespace SymbolState

variable {F : Type} [Double F]

/-- The indicators before the first bar, if their periods are admitted. -/
def new (symbol : String) (p : Periods) : Option (SymbolState F) := do
  return {
    symbol
    emaFast := ← EmaState.new p.emaFast
    emaSlow := ← EmaState.new p.emaSlow
    rsi := ← RsiState.new p.rsi
    macd := ← MacdState.new p.emaFast p.emaSlow p.macdSignal
    vwap := VwapState.new }

/-- The bit of a quality flag. -/
def flag (ready : Bool) (bit : ℕ) : ℕ := if ready then 1 <<< bit else 0

/-- The state after a closed candle, and the feature vector of the candle. -/
def update (s : SymbolState F) (candle : Candle F) : SymbolState F × FeatureVector F :=
  let emaFast := s.emaFast.updateRaw candle.close
  let emaSlow := s.emaSlow.updateRaw candle.close
  let rsi := s.rsi.update candle.close
  let macd := s.macd.update candle.close
  let values := macd.2.getD ⟨Double.lit 0, Double.lit 0, Double.lit 0⟩
  let vwap := s.vwap.update candle.high candle.low candle.close candle.volume candle.openTime
  ({ s with emaFast, emaSlow, rsi := rsi.1, macd := macd.1, vwap },
    { symbol := s.symbol
      ts := candle.closeTime
      emaFast := emaFast.value
      emaSlow := emaSlow.value
      rsi := rsi.2.getD (Double.lit 50)
      macd := values.macd
      macdSignal := values.signal
      macdHist := values.hist
      vwap := vwap.vwap
      adx := Double.lit 0
      atr := Double.lit 0
      regime := 0
      volZscore := Double.lit 0
      oiChangePct := Double.lit 0
      quality := flag emaFast.ready 0 ||| flag emaSlow.ready 1 ||| flag rsi.1.ready 2 |||
        flag macd.1.ready 3 ||| flag vwap.ready 4 })

/-- The state after the given closed candles. -/
def foldl (s : SymbolState F) (candles : List (Candle F)) : SymbolState F :=
  candles.foldl (fun s candle => (s.update candle).1) s

/-- What is held of a symbol after its closed candles: nothing before the first of them. -/
def after (p : Periods) (symbol : String) : List (Candle F) → Option (SymbolState F)
  | [] => none
  | candles => (new symbol p).map (foldl · candles)

/-- The indicators are made exactly for the periods that are admitted. -/
theorem isSome_new_iff (symbol : String) (p : Periods) :
    (new symbol p : Option (SymbolState F)).isSome ↔ p.Valid := by
  constructor
  · intro h
    by_contra hvalid
    have hperiods : ¬ (1 ≤ p.emaFast ∧ 1 ≤ p.emaSlow ∧ 2 ≤ p.rsi ∧ 1 ≤ p.macdSignal) :=
      fun ⟨h₁, h₂, h₃, h₄⟩ => hvalid ⟨h₁, h₂, h₃, h₄⟩
    by_cases h₁ : 1 ≤ p.emaFast <;> by_cases h₂ : 1 ≤ p.emaSlow <;> by_cases h₃ : 2 ≤ p.rsi <;>
      by_cases h₄ : 1 ≤ p.macdSignal <;>
      simp [new, MacdState.new, EmaState.new, RsiState.new, h₁, h₂, h₃, h₄] at h hperiods
  · rintro ⟨h₁, h₂, h₃, h₄⟩
    simp [new, MacdState.new, EmaState.new, RsiState.new, h₁, h₂, h₃, h₄]

/-- One candle more is taken into the state after the others, or into a new one. -/
theorem after_concat (p : Periods) (symbol : String) (candles : List (Candle F))
    (candle : Candle F) : after p symbol (candles ++ [candle]) =
      ((after p symbol candles <|> new symbol p).map fun s : SymbolState F =>
        (s.update candle).1) := by
  cases candles with
  | nil => simp [after, foldl]
  | cons c cs =>
      cases hnew : (new symbol p : Option (SymbolState F)) with
      | none => simp [after, hnew]
      | some s => simp [after, hnew, foldl]

/-- **The number of candles taken**, up to wrapping, is a counter of the state. -/
theorem count_foldl (s : SymbolState F) (candles : List (Candle F)) :
    (s.foldl candles).emaFast.count % 2 ^ 32 =
      (s.emaFast.count + candles.length) % 2 ^ 32 := by
  induction candles generalizing s with
  | nil => rfl
  | cons candle candles ih =>
      have hstep : (s.update candle).1.emaFast.count = increment s.emaFast.count := rfl
      rw [foldl, List.foldl_cons, ← foldl, ih, hstep, increment, List.length_cons]
      omega

/-- Less than `2 ^ 32` candles: their number can be read off the state. -/
theorem length_eq_of_after {p : Periods} {symbol : String} {l l' : List (Candle F)}
    (hvalid : p.Valid) (hl : l.length < 2 ^ 32) (hl' : l'.length < 2 ^ 32)
    (h : after p symbol l = after p symbol l') : l.length = l'.length := by
  obtain ⟨s, hs⟩ := Option.isSome_iff_exists.mp ((isSome_new_iff (F := F) symbol p).mpr hvalid)
  cases l with
  | nil =>
      cases l' with
      | nil => rfl
      | cons c cs => simp [after, hs] at h
  | cons c cs =>
      cases l' with
      | nil => simp [after, hs] at h
      | cons c' cs' =>
          have hfold : s.foldl (c :: cs) = s.foldl (c' :: cs') := by simpa [after, hs] using h
          have hcount := count_foldl s (c :: cs)
          rw [hfold, count_foldl] at hcount
          omega

end SymbolState

end HftPlatform.FeatureEngine
