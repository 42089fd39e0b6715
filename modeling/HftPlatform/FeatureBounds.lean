import HftPlatform.BatchIndicators
import HftPlatform.FeatureWire

/-!
# Bounds of the features

What `SymbolState::update` returns in exact arithmetic, for candles that make sense: the averages
lie between the prices that they are averages of, and the vector passes the checks of
`libs/python/hft_features/hft_features/validation.py`. Nothing here depends on the counters, which
wrap.

## Main definitions

* `validate`: the checks of the consumer.
* `Bounds`: where the features of a vector lie.

## Main results

* `validate_eq_ok_iff`: what the checks ask for.
* `SymbolState.update_bounds`: every vector is within its bounds, and passes the checks.
-/

namespace HftPlatform

/-! ### The checks of the consumer -/

namespace HftFeatures

open Lib

/-- The vector of `hft_features.types`. -/
structure FeatureVector (F : Type) where
  symbol : String
  ts : ℤ
  emaFast : F
  emaSlow : F
  rsi : F
  macd : F
  macdSignal : F
  macdHist : F
  vwap : F

/-- `FeatureVector.from_proto` -/
def FeatureVector.fromProto {F : Type} (msg : Md.FeatureState F) : FeatureVector F where
  symbol := msg.symbol
  ts := msg.ts
  emaFast := msg.emaFast
  emaSlow := msg.emaSlow
  rsi := msg.rsi
  macd := msg.macd
  macdSignal := msg.macdSignal
  macdHist := msg.macdHist
  vwap := msg.vwap

/-- The names of `FEATURE_FIELDS`, with the values that a vector has for them. -/
def FeatureVector.fields {F : Type} (fv : FeatureVector F) : List (String × F) :=
  [("ema_fast", fv.emaFast), ("ema_slow", fv.emaSlow), ("rsi", fv.rsi), ("macd", fv.macd),
    ("macd_signal", fv.macdSignal), ("macd_hist", fv.macdHist), ("vwap", fv.vwap)]

structure FeatureValidationError where
  symbol : String
  ts : ℤ
  reason : String

variable {F : Type} [Double F]

/-- `math.isnan` -/
def isnan (x : F) : Bool := !Double.le x x

/-- `math.isinf` -/
def isinf (x : F) : Bool := !Double.isFinite x && !isnan x

/-- What is wrong with a field, if anything. -/
def fieldReason (field : String × F) : Option String :=
  if isnan field.2 then some ("field '" ++ field.1 ++ "' is NaN")
  else if isinf field.2 then some ("field '" ++ field.1 ++ "' is Inf")
  else none

/-- What is wrong with a vector, if anything: the first check that fails. The number of decimals
and the value give a formatted number. -/
def reason (fixed : ℕ → F → String) (fv : FeatureVector F) : Option String :=
  match fv.fields.findSome? fieldReason with
  | some text => some text
  | none =>
      if !(Double.le (Double.lit 0) fv.rsi && Double.le fv.rsi (Double.lit 100)) then
        some ("RSI=" ++ fixed 4 fv.rsi ++ " out of range [0.0, 100.0]")
      else if Double.le fv.vwap (Double.lit 0) then
        some ("VWAP=" ++ fixed 6 fv.vwap ++ " must be > 0")
      else if Double.le fv.emaFast (Double.lit 0) then
        some ("ema_fast=" ++ fixed 6 fv.emaFast ++ " must be > 0")
      else if Double.le fv.emaSlow (Double.lit 0) then
        some ("ema_slow=" ++ fixed 6 fv.emaSlow ++ " must be > 0")
      else if fv.ts ≤ 0 then some "ts must be a positive unix millisecond timestamp"
      else none

def validate (fixed : ℕ → F → String) (fv : FeatureVector F) :
    Except FeatureValidationError Unit :=
  match reason fixed fv with
  | some text => .error ⟨fv.symbol, fv.ts, text⟩
  | none => .ok ()

/-- **What the checks ask for**: no field is wrong, and the others are in their ranges. -/
theorem validate_eq_ok_iff {fixed : ℕ → F → String} {fv : FeatureVector F} :
    validate fixed fv = .ok () ↔ (∀ field ∈ fv.fields, fieldReason field = none) ∧
      Double.le (Double.lit 0) fv.rsi = true ∧ Double.le fv.rsi (Double.lit 100) = true ∧
      Double.le fv.vwap (Double.lit 0) = false ∧ Double.le fv.emaFast (Double.lit 0) = false ∧
      Double.le fv.emaSlow (Double.lit 0) = false ∧ 0 < fv.ts := by
  have hok : validate fixed fv = .ok () ↔ reason fixed fv = none := by
    rw [validate]
    split <;> simp_all
  rw [hok, reason, ← List.findSome?_eq_none_iff]
  cases fv.fields.findSome? fieldReason with
  | some text => simp
  | none => simp [ite_eq_iff, and_assoc]

end HftFeatures

namespace FeatureEngine

open Lib Extended

variable {K : Type} [Field K] [LinearOrder K] [IsStrictOrderedRing K] [SquareRoot K]

/-! ### The indicators -/

/-- A state whose value, once a price was taken, keeps to the bounds of the prices. -/
structure EmaState.Bounded (s : EmaState (Extended K)) (prices : List K) : Prop where
  alpha : ∃ a, s.alpha = fin a ∧ 0 ≤ a ∧ a ≤ 1
  count : prices = [] → s.count = 0
  value : prices ≠ [] → ∃ v, s.value = fin v ∧ Spanned prices prices v

theorem EmaState.bounded_new {period : ℕ} {s : EmaState (Extended K)}
    (h : EmaState.new period = some s) : s.Bounded [] := by
  have hperiod : 1 ≤ period := by
    by_contra hzero
    rw [EmaState.new, if_neg hzero] at h
    cases h
  have hpos : (0 : K) < period + 1 := by positivity
  have hle : (2 : K) ≤ period + 1 := by
    have : (1 : K) ≤ period := by exact_mod_cast hperiod
    linarith
  have hnew := EmaState.averages_new h
  exact ⟨⟨_, hnew.alpha, by rw [alphaOf]; positivity, (div_le_one hpos).mpr hle⟩,
    fun _ => hnew.count, fun h => absurd rfl h⟩

/-- A new price starts the average, or is mixed into it. -/
theorem EmaState.Bounded.updateRaw {s : EmaState (Extended K)} {prices : List K}
    (h : s.Bounded prices) (price : K) :
    (s.updateRaw (fin price)).Bounded (prices ++ [price]) := by
  obtain ⟨a, ha, ha0, ha1⟩ := h.alpha
  refine ⟨⟨a, ha, ha0, ha1⟩, by simp, fun _ => ?_⟩
  have hprice : Spanned (prices ++ [price]) (prices ++ [price]) price :=
    fun lo hi hlo hhi => ⟨hlo price (by simp), hhi price (by simp)⟩
  show ∃ v, (if s.count = 0 then _ else _) = fin v ∧ _
  by_cases hcount : s.count = 0
  · exact ⟨price, if_pos hcount, hprice⟩
  · obtain ⟨v, hv, hspan⟩ := h.value (mt h.count hcount)
    refine ⟨a * price + (1 - a) * v, ?_, fun lo hi hlo hhi => ?_⟩
    · rw [if_neg hcount, ha, hv]
      simp
    · exact mix_mem ha0 ha1 (hprice lo hi hlo hhi) (hspan lo hi
        (fun x hx => hlo x (List.mem_append_left _ hx))
        (fun x hx => hhi x (List.mem_append_left _ hx)))

/-- A state whose changes and averages are numbers that are not negative. -/
structure RsiState.Sound (s : RsiState (Extended K)) : Prop where
  period : 2 ≤ s.period
  prevClose : ∀ x ∈ s.prevClose, ∃ c, x = fin c
  avgGain : ∃ g, 0 ≤ g ∧ s.avgGain = fin g
  avgLoss : ∃ l, 0 ≤ l ∧ s.avgLoss = fin l
  warmupGains : ∃ gs : List K, (∀ g ∈ gs, 0 ≤ g) ∧ s.warmupGains = gs.map fin
  warmupLosses : ∃ ls : List K, (∀ l ∈ ls, 0 ≤ l) ∧ s.warmupLosses = ls.map fin

omit [IsStrictOrderedRing K] in
theorem RsiState.sound_new {period : ℕ} {s : RsiState (Extended K)}
    (h : RsiState.new period = some s) : s.Sound := by
  rw [RsiState.new] at h
  split at h
  · rename_i hperiod
    obtain rfl := Option.some.inj h
    have hzero : (Double.lit 0 : Extended K) = fin 0 := congrArg fin Rat.cast_zero
    exact ⟨hperiod, by simp, ⟨0, le_rfl, hzero⟩, ⟨0, le_rfl, hzero⟩, ⟨[], by simp, rfl⟩,
      ⟨[], by simp, rfl⟩⟩
  · cases h

/-- The mean of what was collected and one more value, over a count of the same kind. -/
theorem exists_mean {values : List K} {value : K} (n : ℕ) (h : ∀ x ∈ values, 0 ≤ x)
    (hvalue : 0 ≤ value) :
    ∃ g, 0 ≤ g ∧ (Double.sum (values.map fin) + fin value) / (Double.lit n + Double.lit 1) =
      (fin g : Extended K) := by
  have hpos : (n : K) + 1 ≠ 0 := by positivity
  have hsum : 0 ≤ values.sum := List.sum_nonneg h
  refine ⟨(values.sum + value) / (n + 1), by positivity, ?_⟩
  rw [sum_eq, sum_map_fin, fin_add_fin, lit_fin, lit_fin, fin_add_fin, Rat.cast_natCast,
    Rat.cast_one, div_fin _ hpos]

/-- An average into which one more value is smoothed. -/
theorem exists_smoothed {average value : K} {period : ℕ} (hperiod : 2 ≤ period)
    (haverage : 0 ≤ average) (hvalue : 0 ≤ value) :
    ∃ g, 0 ≤ g ∧ (fin average * (Double.lit period - Double.lit 1) + fin value) /
      Double.lit period = (fin g : Extended K) := by
  have hpos : (period : K) ≠ 0 := by positivity
  have hrest : (0 : K) ≤ period - 1 := by
    have : (2 : K) ≤ period := by exact_mod_cast hperiod
    linarith
  refine ⟨(average * (period - 1) + value) / period, by positivity, ?_⟩
  rw [lit_fin, lit_fin, sub_fin, mul_fin, fin_add_fin, Rat.cast_natCast, Rat.cast_one,
    div_fin _ hpos]

omit [IsStrictOrderedRing K] [SquareRoot K] in
theorem nonneg_concat {values : List K} {value : K} (h : ∀ x ∈ values, 0 ≤ x) (hvalue : 0 ≤ value) :
    ∀ x ∈ values ++ [value], 0 ≤ x := by
  intro x hx
  rcases List.mem_append.mp hx with hx | hx
  · exact h x hx
  · exact (List.mem_singleton.mp hx) ▸ hvalue

/-- A change is recorded. -/
theorem RsiState.Sound.record {s : RsiState (Extended K)} (h : s.Sound) {gain loss : K}
    (hgain : 0 ≤ gain) (hloss : 0 ≤ loss) : (s.record (fin gain) (fin loss)).1.Sound := by
  obtain ⟨gs, hgs, hgs'⟩ := h.warmupGains
  obtain ⟨ls, hls, hls'⟩ := h.warmupLosses
  obtain ⟨g, hg, hg'⟩ := h.avgGain
  obtain ⟨l, hl, hl'⟩ := h.avgLoss
  unfold RsiState.record
  dsimp only
  split
  · exact ⟨h.period, h.prevClose, h.avgGain, h.avgLoss,
      ⟨gs ++ [gain], nonneg_concat hgs hgain, by simp [hgs']⟩,
      ⟨ls ++ [loss], nonneg_concat hls hloss, by simp [hls']⟩⟩
  split
  · refine ⟨h.period, h.prevClose, ?_, ?_, ⟨[], by simp, rfl⟩, ⟨[], by simp, rfl⟩⟩
    · dsimp only
      exact hgs' ▸ exists_mean _ hgs hgain
    · dsimp only
      exact hls' ▸ exists_mean _ hls hloss
  · refine ⟨h.period, h.prevClose, ?_, ?_, h.warmupGains, h.warmupLosses⟩
    · dsimp only
      exact hg' ▸ exists_smoothed h.period hg hgain
    · dsimp only
      exact hl' ▸ exists_smoothed h.period hl hloss

omit [SquareRoot K] in
/-- A strength is a percentage. -/
theorem strength_mem {gain loss : K} (hgain : 0 ≤ gain) (hloss : 0 ≤ loss) :
    0 ≤ strength gain loss ∧ strength gain loss ≤ 100 := by
  rw [strength]
  split
  · constructor <;> norm_num
  · have hratio : 0 ≤ gain / loss := div_nonneg hgain hloss
    have hpos : (0 : K) < 1 + gain / loss := by positivity
    have hle : 100 / (1 + gain / loss) ≤ 100 := div_le_self (by norm_num) (by linarith)
    have hnonneg : 0 ≤ 100 / (1 + gain / loss) := by positivity
    constructor <;> linarith

/-- A close is taken, and what is returned is a percentage. -/
theorem RsiState.Sound.update {s : RsiState (Extended K)} (h : s.Sound) (close : K) :
    (s.update (fin close)).1.Sound ∧
      ∀ x ∈ (s.update (fin close)).2, ∃ r, x = fin r ∧ 0 ≤ r ∧ r ≤ 100 := by
  cases hprev : s.prevClose with
  | none =>
      have hupdate : s.update (fin close) = ({ s with prevClose := some (fin close) }, none) := by
        rw [RsiState.update, hprev]
      rw [hupdate]
      exact ⟨⟨h.period, by simp, h.avgGain, h.avgLoss, h.warmupGains, h.warmupLosses⟩, by simp⟩
  | some x =>
      obtain ⟨prev, rfl⟩ := h.prevClose x hprev
      rw [RsiState.update_of_prev hprev]
      have htaken : RsiState.Sound { s with prevClose := some (fin close) } :=
        ⟨h.period, by simp, h.avgGain, h.avgLoss, h.warmupGains, h.warmupLosses⟩
      have hafter := htaken.record (le_max_right (close - prev) 0) (le_max_right (prev - close) 0)
      refine ⟨hafter, fun x hx => ?_⟩
      rw [RsiState.record_snd] at hx
      split at hx
      · cases hx
      · obtain ⟨g, hg, hg'⟩ := hafter.avgGain
        obtain ⟨l, hl, hl'⟩ := hafter.avgLoss
        obtain rfl : _ = x := Option.some.inj hx
        exact ⟨strength g l, RsiState.rsi_eq hg' hl' hg hl, strength_mem hg hl⟩

/-- A state whose averages keep to bounds. -/
structure MacdState.Bounded (s : MacdState (Extended K)) (closes : List K) : Prop where
  fast : s.fast.Bounded closes
  slow : s.slow.Bounded closes
  signal : ∃ series, s.signal.Bounded series

/-- A close is taken, and what is returned is made of numbers. -/
theorem MacdState.Bounded.update {s : MacdState (Extended K)} {closes : List K}
    (h : s.Bounded closes) (close : K) :
    (s.update (fin close)).1.Bounded (closes ++ [close]) ∧
      ∀ v ∈ (s.update (fin close)).2, ∃ m g d,
        v.macd = fin m ∧ v.signal = fin g ∧ v.hist = fin d := by
  obtain ⟨series, hseries⟩ := h.signal
  have hfast := h.fast.updateRaw close
  have hslow := h.slow.updateRaw close
  obtain ⟨x, hx, -⟩ := hfast.value (by simp)
  obtain ⟨y, hy, -⟩ := hslow.value (by simp)
  unfold MacdState.update
  dsimp only
  rw [hx, hy, sub_fin]
  have hsignal := hseries.updateRaw (x - y)
  obtain ⟨z, hz, -⟩ := hsignal.value (by simp)
  split
  · refine ⟨⟨hfast, hslow, _, hsignal⟩, fun v hv => ?_⟩
    dsimp only at hv
    split at hv
    · obtain rfl : _ = v := Option.some.inj hv
      exact ⟨x - y, z, x - y - z, rfl, hz, by simp [hz]⟩
    · cases hv
  · exact ⟨⟨hfast, hslow, series, hseries⟩, by simp⟩

/-! ### The vector -/

/-- A candle that makes sense. -/
structure Candle.Sensible (candle : Candle K) : Prop where
  low_pos : 0 < candle.low
  low_le : candle.low ≤ candle.close
  close_le : candle.close ≤ candle.high
  volume_pos : 0 < candle.volume
  closeTime_pos : 0 < candle.closeTime
  dayFits : DayFits candle.openTime

/-- A number between the least of some numbers and the greatest of others. -/
def Within (x : Extended K) (lows highs : List K) : Prop :=
  ∃ v, x = fin v ∧ lows.minimum ≤ (v : WithTop K) ∧ (v : WithBot K) ≤ highs.maximum

/-- Where the features of the last of the candles lie. -/
structure Bounds (fv : FeatureVector (Extended K)) (candles : List (Candle K)) : Prop where
  emaFast : Within fv.emaFast (candles.map (·.close)) (candles.map (·.close))
  emaSlow : Within fv.emaSlow (candles.map (·.close)) (candles.map (·.close))
  rsi : ∃ r, fv.rsi = fin r ∧ 0 ≤ r ∧ r ≤ 100
  vwap : Within fv.vwap ((session candles).map (·.low)) ((session candles).map (·.high))

omit [IsStrictOrderedRing K] [SquareRoot K] in
/-- A number within positive numbers is positive. -/
theorem Within.pos {x : Extended K} {lows highs : List K} (h : Within x lows highs)
    (hlows : ∀ y ∈ lows, 0 < y) : ∃ v, x = fin v ∧ 0 < v := by
  obtain ⟨v, hv, hlow, -⟩ := h
  exact ⟨v, hv, lt_of_minimum_le hlow hlows⟩

omit [SquareRoot K] in
/-- The typical price of a candle lies between its ends. -/
theorem Candle.Sensible.typical_mem {candle : Candle K} (h : candle.Sensible) :
    candle.low ≤ typical candle ∧ typical candle ≤ candle.high := by
  have hlow := h.low_le
  have hhigh := h.close_le
  rw [typical, le_div_iff₀ (by norm_num), div_le_iff₀ (by norm_num)]
  constructor <;> linarith

/-- The average price of a session of sensible candles keeps to their ends. -/
theorem within_vwap {candles : List (Candle K)} (hne : candles ≠ [])
    (h : ∀ c ∈ candles, c.Sensible) :
    Within (VwapState.after (candles.map Candle.ofNumbers)).vwap
      ((session candles).map (·.low)) ((session candles).map (·.high)) := by
  have hsub : ∀ c ∈ session candles, c.Sensible := fun c hc => h c (lastRun_suffix.subset hc)
  have hsession : session candles ≠ [] := by
    obtain ⟨init, last, rfl⟩ := (List.eq_nil_or_concat' candles).resolve_left hne
    rw [session_concat]
    simp
  obtain ⟨hpv, hvol⟩ := (VwapState.after_sums candles fun c hc => (h c hc).dayFits).1
  have hpos : 0 < ((session candles).map (·.volume)).sum :=
    List.sum_pos _ (by simpa using fun c hc => (hsub c hc).volume_pos) (by simpa using hsession)
  have hspan : Spanned ((session candles).map (·.low)) ((session candles).map (·.high))
      (weightedMean typical (·.volume) (session candles)) := by
    intro lo hi hlo hhi
    refine weightedMean_mem hsession (fun c hc => (hsub c hc).volume_pos) fun c hc => ?_
    obtain ⟨hlow, hhigh⟩ := (hsub c hc).typical_mem
    exact ⟨(hlo _ (List.mem_map_of_mem hc)).trans hlow,
      hhigh.trans (hhi _ (List.mem_map_of_mem hc))⟩
  refine ⟨weightedMean typical (·.volume) (session candles), ?_,
    hspan.between (by simpa using hsession) (by simpa using hsession)⟩
  rw [VwapState.vwap, isZero, hvol, hpv, lit_fin, le_fin, le_fin, Rat.cast_zero, weightedMean,
    if_neg (by simp [hpos.not_ge]), div_fin _ hpos.ne']

namespace SymbolState

/-- A state whose indicators keep to the bounds of the candles. -/
structure Bounded (s : SymbolState (Extended K)) (candles : List (Candle K)) : Prop where
  emaFast : s.emaFast.Bounded (candles.map (·.close))
  emaSlow : s.emaSlow.Bounded (candles.map (·.close))
  rsi : s.rsi.Sound
  macd : s.macd.Bounded (candles.map (·.close))
  vwap : s.vwap = VwapState.after (candles.map Candle.ofNumbers)

theorem bounded_new {p : Periods} {symbol : String} {s : SymbolState (Extended K)}
    (h : new symbol p = some s) : s.Bounded [] := by
  obtain ⟨hfast, hslow, hrsi, hmacd, hvwap⟩ := exists_of_new h
  obtain ⟨fast, hfast', hmacd⟩ := Option.bind_eq_some_iff.mp hmacd
  obtain ⟨slow, hslow', hmacd⟩ := Option.bind_eq_some_iff.mp hmacd
  obtain ⟨signal, hsignal, hmacd⟩ := Option.bind_eq_some_iff.mp hmacd
  have heq : s.macd = ⟨fast, slow, signal⟩ := (Option.some.inj hmacd).symm
  refine ⟨EmaState.bounded_new hfast, EmaState.bounded_new hslow, RsiState.sound_new hrsi, ?_,
    hvwap⟩
  rw [heq]
  exact ⟨EmaState.bounded_new hfast', EmaState.bounded_new hslow', [], EmaState.bounded_new hsignal⟩

/-- A candle is taken. -/
theorem Bounded.update {s : SymbolState (Extended K)} {candles : List (Candle K)}
    (h : s.Bounded candles) (candle : Candle K) :
    (s.update candle.ofNumbers).1.Bounded (candles ++ [candle]) := by
  have hcloses : (candles ++ [candle]).map (·.close) = candles.map (·.close) ++ [candle.close] := by
    simp
  refine ⟨?_, ?_, (h.rsi.update candle.close).1, ?_, ?_⟩
  · exact hcloses ▸ h.emaFast.updateRaw candle.close
  · exact hcloses ▸ h.emaSlow.updateRaw candle.close
  · exact hcloses ▸ (h.macd.update candle.close).1
  · rw [List.map_append, List.map_singleton, VwapState.after_concat, ← h.vwap]
    rfl

/-- **The bounds of a run.** -/
theorem bounded_foldl {p : Periods} {symbol : String} {s : SymbolState (Extended K)}
    (h : new symbol p = some s) (candles : List (Candle K)) :
    (s.foldl (candles.map Candle.ofNumbers)).Bounded candles := by
  induction candles using List.reverseRecOn with
  | nil => exact bounded_new h
  | append_singleton candles candle ih =>
      rw [List.map_append, List.map_singleton, foldl_concat]
      exact ih.update candle

/-- The features that are not bounded are numbers. -/
theorem Bounded.macd_fin {s : SymbolState (Extended K)} {candles : List (Candle K)}
    (h : s.Bounded candles) (candle : Candle K) :
    ∃ m g d, (s.update candle.ofNumbers).2.macd = fin m ∧
      (s.update candle.ofNumbers).2.macdSignal = fin g ∧
      (s.update candle.ofNumbers).2.macdHist = fin d := by
  have hvalues := (h.macd.update candle.close).2
  show ∃ m g d, ((s.macd.update (fin candle.close)).2.getD _).macd = fin m ∧
    ((s.macd.update (fin candle.close)).2.getD _).signal = fin g ∧
    ((s.macd.update (fin candle.close)).2.getD _).hist = fin d
  cases hupdate : (s.macd.update (fin candle.close)).2 with
  | none => exact ⟨_, _, _, rfl, rfl, rfl⟩
  | some v => exact hvalues v hupdate

/-- The vector of a candle is within its bounds. -/
theorem Bounded.bounds {s : SymbolState (Extended K)} {history : List (Candle K)}
    (h : s.Bounded history) {candle : Candle K}
    (hsensible : ∀ c ∈ history ++ [candle], c.Sensible) :
    Bounds (s.update candle.ofNumbers).2 (history ++ [candle]) := by
  have hnext := h.update candle
  have hne : (history ++ [candle]).map (·.close) ≠ [] := by simp
  obtain ⟨x, hx, hxspan⟩ := hnext.emaFast.value hne
  obtain ⟨y, hy, hyspan⟩ := hnext.emaSlow.value hne
  refine ⟨⟨x, hx, hxspan.between hne hne⟩, ⟨y, hy, hyspan.between hne hne⟩, ?_, ?_⟩
  · show ∃ r, (s.rsi.update (fin candle.close)).2.getD (Double.lit 50) = fin r ∧ _
    have hrsi := (h.rsi.update candle.close).2
    cases hupdate : (s.rsi.update (fin candle.close)).2 with
    | none => exact ⟨50, by simp, by norm_num, by norm_num⟩
    | some x => exact hrsi x hupdate
  · have hvwap := within_vwap (by simp) hsensible
    rwa [← hnext.vwap] at hvwap

end SymbolState

omit [IsStrictOrderedRing K] in
/-- A finite field has nothing wrong. -/
theorem fieldReason_fin (name : String) (x : K) :
    HftFeatures.fieldReason (name, (fin x : Extended K)) = none := by
  simp [HftFeatures.fieldReason, HftFeatures.isnan, HftFeatures.isinf]

/-- **Every vector is within its bounds, and passes the checks** of the consumer. -/
theorem SymbolState.update_bounds (fixed : ℕ → Extended K → String) {p : Periods} {symbol : String}
    {s : SymbolState (Extended K)} (h : new symbol p = some s) (history : List (Candle K))
    (candle : Candle K) (hsensible : ∀ c ∈ history ++ [candle], c.Sensible) :
    Bounds ((s.foldl (history.map Candle.ofNumbers)).update candle.ofNumbers).2
        (history ++ [candle]) ∧
      HftFeatures.validate fixed (.fromProto (Md.publish
        ((s.foldl (history.map Candle.ofNumbers)).update candle.ofNumbers).2)) = .ok () := by
  have hbounded := bounded_foldl h history
  have hbounds := hbounded.bounds hsensible
  refine ⟨hbounds, ?_⟩
  have hcloses : ∀ x ∈ (history ++ [candle]).map (·.close), 0 < x := by
    intro x hx
    obtain ⟨c, hc, rfl⟩ := List.mem_map.mp hx
    exact (hsensible c hc).low_pos.trans_le (hsensible c hc).low_le
  have hlows : ∀ x ∈ (session (history ++ [candle])).map (·.low), 0 < x := by
    intro x hx
    obtain ⟨c, hc, rfl⟩ := List.mem_map.mp hx
    exact (hsensible c (lastRun_suffix.subset hc)).low_pos
  obtain ⟨fast, hfast, hfast'⟩ := hbounds.emaFast.pos hcloses
  obtain ⟨slow, hslow, hslow'⟩ := hbounds.emaSlow.pos hcloses
  obtain ⟨vwap, hvwap, hvwap'⟩ := hbounds.vwap.pos hlows
  obtain ⟨rsi, hrsi, hrsi0, hrsi100⟩ := hbounds.rsi
  obtain ⟨m, g, d, hm, hg, hd⟩ := hbounded.macd_fin candle
  have hts : 0 < candle.closeTime := (hsensible candle (by simp)).closeTime_pos
  rw [HftFeatures.validate_eq_ok_iff]
  simp only [HftFeatures.FeatureVector.fields, HftFeatures.FeatureVector.fromProto, Md.publish,
    hfast, hslow, hvwap, hrsi, hm, hg, hd, lit_fin, le_fin, decide_eq_true_eq,
    decide_eq_false_iff_not, not_le, Rat.cast_zero, Rat.cast_ofNat]
  refine ⟨?_, hrsi0, hrsi100, hvwap', hfast', hslow', hts⟩
  simp [fieldReason_fin]

/-- The vector of the second bar, with the default periods. -/
theorem SymbolState.update_bounds_second_bar : ∃ s : SymbolState (Extended ℚ),
    new "BTCUSDT" {} = some s ∧
      HftFeatures.validate (fun _ _ => "") (.fromProto (Md.publish
        ((s.foldl ([barAround 10 0].map Candle.ofNumbers)).update
          (barAround 12 60000).ofNumbers).2)) = .ok () := by
  refine ⟨_, rfl, (update_bounds (fun _ _ => "") (p := {}) rfl [barAround 10 0]
    (barAround 12 60000) ?_).2⟩
  have hsensible : ∀ price openTime, 2 < price → 0 ≤ openTime → openTime < dayMs →
      (barAround price openTime).Sensible := by
    intro price openTime hprice hnonneg hlt
    rw [dayMs] at hlt
    refine ⟨?_, ?_, ?_, one_pos, ?_, hnonneg, ?_⟩ <;> simp only [barAround, dayMs] <;> linarith
  intro c hc
  rcases List.mem_append.mp hc with hc | hc
  · exact List.mem_singleton.mp hc ▸ hsensible 10 0 (by norm_num) (by norm_num)
      (by norm_num [dayMs])
  · exact List.mem_singleton.mp hc ▸ hsensible 12 60000 (by norm_num) (by norm_num)
      (by norm_num [dayMs])

end FeatureEngine

end HftPlatform
