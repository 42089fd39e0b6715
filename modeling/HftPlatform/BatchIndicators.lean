import HftPlatform.Lib.History
import HftPlatform.SessionVwap

/-!
# Indicators of whole series

The indicators of `services/feature_engine/src/indicators` are updated close by close. In exact
arithmetic they are functions of all the closes so far, as long as no `u32` counter wraps.

## Main definitions

* `batchRsi`, `macdSeries`: the relative strength, and the series that the signal average is of,
  computed from the list of the closes.
* `SymbolState.MatchesBatch`: what a bar yields is what the list of the closes yields.

## Main results

* `EmaState.Averages.updateRaw`, `RsiState.Averages.update`, `MacdState.Averages.update`: each
  indicator keeps to its definition on lists.
* `matchesBatch_iff`: every bar of a sequence matches if and only if there are at most `2 ^ 32`.
-/

namespace HftPlatform.FeatureEngine

open Lib Extended

variable {K : Type} [Field K] [LinearOrder K]

/-! ### Exponential averages -/

/-- The weight of a new price. -/
def alphaOf (period : ℕ) : K := 2 / (period + 1)

/-- A state holds the average of the given prices, as long as their number fits a `u32`. -/
structure EmaState.Averages (s : EmaState (Extended K)) (period : ℕ) (prices : List K) : Prop where
  alpha : s.alpha = fin (alphaOf period)
  period_eq : s.period = period
  count : s.count = prices.length % 2 ^ 32
  value : prices ≠ [] → prices.length ≤ 2 ^ 32 →
    s.value = fin (exponential (alphaOf period) prices)

section Exponential

variable [IsStrictOrderedRing K] [SquareRoot K]

/-- A new average has averaged nothing. -/
theorem EmaState.averages_new {period : ℕ} {s : EmaState (Extended K)}
    (h : EmaState.new period = some s) : s.Averages period [] := by
  rw [EmaState.new] at h
  split at h
  · obtain rfl := Option.some.inj h
    have hpos : (period : K) + 1 ≠ 0 := by positivity
    refine ⟨?_, rfl, rfl, fun h => absurd rfl h⟩
    show (fin _ / (fin _ + fin _) : Extended K) = _
    rw [fin_add_fin, Rat.cast_natCast, Rat.cast_one, div_fin _ hpos, Rat.cast_ofNat, alphaOf]
  · cases h

omit [IsStrictOrderedRing K] in
/-- **A new price.** -/
theorem EmaState.Averages.updateRaw {s : EmaState (Extended K)} {period : ℕ} {prices : List K}
    (h : s.Averages period prices) (price : K) :
    (s.updateRaw (fin price)).Averages period (prices ++ [price]) where
  alpha := h.alpha
  period_eq := h.period_eq
  count := by
    show increment s.count = _
    rw [h.count, increment, List.length_append, List.length_singleton]
    omega
  value := by
    intro _ hle
    rw [List.length_append, List.length_singleton] at hle
    have hcount : s.count = prices.length := h.count.trans (Nat.mod_eq_of_lt (by omega))
    show (if s.count = 0 then _ else _) = _
    by_cases hprices : prices = []
    · subst hprices
      rw [if_pos (by simpa using hcount), List.nil_append, exponential_singleton]
    · rw [if_neg (hcount ▸ mt List.length_eq_zero_iff.mp hprices), h.alpha,
        h.value hprices (by omega), exponential_concat _ _ hprices]
      simp

end Exponential

/-! ### Relative strength -/

/-- The gains between consecutive closes. -/
def gains (closes : List K) : List K := (consecutive closes).map fun p => max (p.2 - p.1) 0

/-- The losses between consecutive closes. -/
def losses (closes : List K) : List K := (consecutive closes).map fun p => max (p.1 - p.2) 0

/-- The relative strength of an average gain and an average loss. -/
def strength (gain loss : K) : K := if loss = 0 then 100 else 100 - 100 / (1 + gain / loss)

/-- The relative strength of a list of closes. -/
def batchRsi (period : ℕ) (closes : List K) : Option K :=
  if closes.length < period + 1 then none
  else some (strength (wilder period (gains closes)) (wilder period (losses closes)))

/-- Gains are not negative. -/
theorem gains_nonneg (closes : List K) : ∀ x ∈ gains closes, 0 ≤ x := by
  simp only [gains, List.mem_map]
  rintro x ⟨p, -, rfl⟩
  exact le_max_right _ _

/-- Losses are not negative. -/
theorem losses_nonneg (closes : List K) : ∀ x ∈ losses closes, 0 ≤ x := by
  simp only [losses, List.mem_map]
  rintro x ⟨p, -, rfl⟩
  exact le_max_right _ _

/-- There is a gain for every bar after the first. -/
@[simp] theorem length_gains (closes : List K) : (gains closes).length = closes.length - 1 := by
  simp [gains, consecutive]

/-- And a loss. -/
@[simp] theorem length_losses (closes : List K) : (losses closes).length = closes.length - 1 := by
  simp [losses, consecutive]

/-- The gain of one bar more. -/
theorem gains_concat {closes : List K} {prev : K} (h : closes.getLast? = some prev) (close : K) :
    gains (closes ++ [close]) = gains closes ++ [max (close - prev) 0] := by
  simp [gains, consecutive_append_singleton, h]

/-- The loss of one bar more. -/
theorem losses_concat {closes : List K} {prev : K} (h : closes.getLast? = some prev) (close : K) :
    losses (closes ++ [close]) = losses closes ++ [max (prev - close) 0] := by
  simp [losses, consecutive_append_singleton, h]

/-- A state holds the averages of the given closes, whose number fits a `u32`. -/
structure RsiState.Averages (s : RsiState (Extended K)) (period : ℕ) (closes : List K) : Prop where
  period_eq : s.period = period
  prevClose : s.prevClose = closes.getLast?.map fin
  deltas : s.deltas = closes.length - 1
  warmup : closes.length ≤ period →
    s.warmupGains = (gains closes).map fin ∧ s.warmupLosses = (losses closes).map fin
  averages : period < closes.length →
    s.avgGain = fin (wilder period (gains closes)) ∧ s.avgLoss = fin (wilder period (losses closes))

variable [SquareRoot K]

/-- A new strength has averaged nothing. -/
theorem RsiState.averages_new {period : ℕ} {s : RsiState (Extended K)}
    (h : RsiState.new period = some s) : s.Averages period [] := by
  rw [RsiState.new] at h
  split at h
  · obtain rfl := Option.some.inj h
    exact ⟨rfl, rfl, rfl, fun _ => ⟨rfl, rfl⟩, fun h => absurd h (Nat.not_lt_zero _)⟩
  · cases h

variable [IsStrictOrderedRing K]

/-- The strength of a state whose averages are not negative. -/
theorem RsiState.rsi_eq {s : RsiState (Extended K)} {gain loss : K} (hgain : s.avgGain = fin gain)
    (hloss : s.avgLoss = fin loss) (hgain' : 0 ≤ gain) (hloss' : 0 ≤ loss) :
    s.rsi = fin (strength gain loss) := by
  rw [RsiState.rsi, hgain, hloss, isZero, strength]
  simp only [lit_fin, le_fin, Rat.cast_zero, Rat.cast_ofNat, Rat.cast_one]
  by_cases h : loss = 0
  · rw [if_pos (by simp [h]), if_pos h]
  · have hpos : 0 < loss := lt_of_le_of_ne hloss' (Ne.symm h)
    have hsum : 1 + gain / loss ≠ 0 := by positivity
    rw [if_neg (by simp [hpos.not_ge]), if_neg h, div_fin _ h, fin_add_fin, div_fin _ hsum, sub_fin]

/-- The change of a close, split into a gain and a loss. -/
theorem gain_loss_eq (close prev : K) :
    (if Double.lt (Double.lit 0) (fin close - fin prev : Extended K) then fin close - fin prev
      else Double.lit 0) = fin (max (close - prev) 0) ∧
    (if Double.lt (fin close - fin prev : Extended K) (Double.lit 0) then -(fin close - fin prev)
      else Double.lit 0) = fin (max (prev - close) 0) := by
  simp only [sub_fin, lit_fin, lt_fin, neg_fin, Rat.cast_zero, decide_eq_true_eq, neg_sub]
  constructor
  · split
    · rename_i h
      rw [max_eq_left h.le]
    · rename_i h
      rw [max_eq_right (not_lt.mp h)]
  · split
    · rename_i h
      rw [max_eq_left (by linarith)]
    · rename_i h
      rw [max_eq_right (by linarith)]

/-- The strength that a state returns, once the window was full. -/
theorem RsiState.Averages.some_rsi {s : RsiState (Extended K)} {period : ℕ} {closes : List K}
    (h : s.Averages period closes) (hperiod : 1 ≤ period) (hlt : period < closes.length) :
    some s.rsi = (batchRsi period closes).map fin := by
  obtain ⟨hgain, hloss⟩ := h.averages hlt
  rw [batchRsi, if_neg (by omega), Option.map_some, RsiState.rsi_eq hgain hloss
    (wilder_nonneg hperiod (gains_nonneg closes)) (wilder_nonneg hperiod (losses_nonneg closes))]

/-- The mean that the full window yields. -/
theorem warmup_mean {values : List K} {value : K} {period : ℕ}
    (h : values.length + 1 = period) :
    (Double.sum (values.map fin) + fin value) /
        (Double.lit ((values.map (fin : K → Extended K)).length) + Double.lit 1) =
      fin (wilder period (values ++ [value])) := by
  have hpos : (values.length : K) + 1 ≠ 0 := by positivity
  rw [wilder_of_length (by simpa using h), mean, sum_eq, sum_map_fin, fin_add_fin, List.length_map,
    lit_fin, lit_fin, fin_add_fin, Rat.cast_natCast, Rat.cast_one, div_fin _ hpos]
  simp

/-- The average that a later value yields. -/
theorem smoothed_mean {values : List K} {value : K} {period : ℕ} (hperiod : 1 ≤ period)
    (h : period ≤ values.length) :
    (fin (wilder period values) * (Double.lit period - Double.lit 1) + fin value) /
        Double.lit period = (fin (wilder period (values ++ [value])) : Extended K) := by
  have hpos : (period : K) ≠ 0 := by positivity
  rw [wilder_concat _ h, lit_fin, lit_fin, sub_fin, mul_fin, fin_add_fin, Rat.cast_natCast,
    Rat.cast_one, div_fin _ hpos]

/-- The changes of a close are recorded. -/
theorem RsiState.update_of_prev {s : RsiState (Extended K)} {prev : K}
    (h : s.prevClose = some (fin prev)) (close : K) : s.update (fin close) =
      { s with prevClose := some (fin close) }.record (fin (max (close - prev) 0))
        (fin (max (prev - close) 0)) := by
  obtain ⟨hgain, hloss⟩ := gain_loss_eq close prev
  rw [RsiState.update, h]
  dsimp only
  rw [hgain, hloss]

omit [IsStrictOrderedRing K] in
/-- What is returned is the strength of the next state, if anything is. -/
theorem RsiState.record_snd (s : RsiState (Extended K)) (gain loss : Extended K) :
    (s.record gain loss).2 =
      if increment s.deltas < s.period then none else some (s.record gain loss).1.rsi := by
  unfold RsiState.record
  dsimp only
  split <;> rfl

/-- The averages after a recorded change. -/
theorem RsiState.Averages.record {s : RsiState (Extended K)} {period : ℕ} {closes : List K}
    {prev : K} (h : s.Averages period closes) (hperiod : 1 ≤ period)
    (hlast : closes.getLast? = some prev) (hdeltas : increment s.deltas = closes.length)
    (close : K) :
    ({ s with prevClose := some (fin close) }.record (fin (max (close - prev) 0))
      (fin (max (prev - close) 0))).1.Averages period (closes ++ [close]) := by
  have hlen : 0 < closes.length := List.length_pos_iff.mpr (by rintro rfl; cases hlast)
  have hgains := gains_concat hlast close
  have hlosses := losses_concat hlast close
  have hnext : (closes ++ [close]).length = closes.length + 1 := by simp
  unfold RsiState.record
  dsimp only
  rw [hdeltas, h.period_eq]
  rcases lt_trichotomy closes.length period with hlt | heq | hgt
  · -- The window still fills.
    obtain ⟨hg, hl⟩ := h.warmup hlt.le
    rw [if_pos hlt]
    exact ⟨rfl, by simp, by simp, fun _ => by simp [hg, hl, hgains, hlosses], fun _ => by omega⟩
  · -- The window is full: its means are taken.
    obtain ⟨hg, hl⟩ := h.warmup heq.le
    have hfull : closes.length - 1 + 1 = period := by omega
    rw [if_neg heq.not_lt, if_pos heq]
    refine ⟨rfl, by simp, by simp, fun _ => by omega, fun _ => ⟨?_, ?_⟩⟩
    · dsimp only
      rw [hg, hgains, warmup_mean ((length_gains closes).symm ▸ hfull)]
    · dsimp only
      have hsame : s.warmupGains.length = ((losses closes).map (fin : K → Extended K)).length := by
        simp [hg]
      rw [hl, hsame, hlosses, warmup_mean ((length_losses closes).symm ▸ hfull)]
  · -- The change is smoothed in.
    obtain ⟨hg, hl⟩ := h.averages hgt
    rw [if_neg hgt.not_gt, if_neg hgt.ne']
    refine ⟨rfl, by simp, by simp, fun _ => by omega, fun _ => ⟨?_, ?_⟩⟩
    · dsimp only
      rw [hg, hgains, smoothed_mean hperiod (by rw [length_gains]; omega)]
    · dsimp only
      rw [hl, hlosses, smoothed_mean hperiod (by rw [length_losses]; omega)]

/-- **A new close**, while the number of closes fits: the state keeps to the list, and what is
returned is the strength of the list. -/
theorem RsiState.Averages.update {s : RsiState (Extended K)} {period : ℕ} {closes : List K}
    (h : s.Averages period closes) (hperiod : 1 ≤ period) (hfits : closes.length < 2 ^ 32)
    (close : K) :
    (s.update (fin close)).1.Averages period (closes ++ [close]) ∧
      (s.update (fin close)).2 = (batchRsi period (closes ++ [close])).map fin := by
  have hnext : (closes ++ [close]).length = closes.length + 1 := by simp
  cases hlast : closes.getLast? with
  | none =>
      obtain rfl := List.getLast?_eq_none_iff.mp hlast
      have hprev : s.prevClose = none := h.prevClose
      have hupdate : s.update (fin close) = ({ s with prevClose := some (fin close) }, none) := by
        rw [RsiState.update, hprev]
      rw [hupdate]
      refine ⟨⟨h.period_eq, rfl, h.deltas, fun _ => h.warmup (Nat.zero_le _), ?_⟩, ?_⟩
      · intro hlt
        exact absurd hperiod (Nat.not_le.mpr hlt)
      · have hshort : ([] ++ [close]).length < period + 1 := Nat.lt_succ_of_le hperiod
        rw [batchRsi, if_pos hshort, Option.map_none]
  | some prev =>
      have hlen : 0 < closes.length := List.length_pos_iff.mpr (by rintro rfl; cases hlast)
      have hprev : s.prevClose = some (fin prev) := by
        rw [h.prevClose, hlast, Option.map_some]
      have hdeltas : increment s.deltas = closes.length := by
        rw [increment, h.deltas, Nat.sub_add_cancel hlen, Nat.mod_eq_of_lt hfits]
      have hafter := h.record hperiod hlast hdeltas close
      rw [RsiState.update_of_prev hprev]
      refine ⟨hafter, ?_⟩
      rw [RsiState.record_snd]
      by_cases hlt : closes.length < period
      · rw [if_pos (by rw [hdeltas, h.period_eq]; exact hlt), batchRsi, if_pos (by omega),
          Option.map_none]
      · rw [if_neg (by rw [hdeltas, h.period_eq]; exact hlt)]
        exact hafter.some_rsi hperiod (by omega)

/-! ### Convergence and divergence of averages -/

/-- The difference of the two averages of the closes. -/
def macdLine (p : Periods) (closes : List K) : K :=
  exponential (alphaOf p.emaFast) closes - exponential (alphaOf p.emaSlow) closes

/-- The differences of each bar since the one after the slow average became ready. -/
def macdSeries (p : Periods) (closes : List K) : List K :=
  (List.range' (p.emaSlow + 1) (closes.length - p.emaSlow)).map fun i => macdLine p (closes.take i)

omit [LinearOrder K] [SquareRoot K] [IsStrictOrderedRing K] in
/-- The series begins when the slow average is ready. -/
@[simp] theorem length_macdSeries (p : Periods) (closes : List K) :
    (macdSeries p closes).length = closes.length - p.emaSlow := by
  simp [macdSeries]

omit [LinearOrder K] [SquareRoot K] [IsStrictOrderedRing K] in
/-- The series with one bar more. -/
theorem macdSeries_concat (p : Periods) (closes : List K) (close : K) :
    macdSeries p (closes ++ [close]) = macdSeries p closes ++
      if p.emaSlow ≤ closes.length then [macdLine p (closes ++ [close])] else [] := by
  have hnext : (closes ++ [close]).length = closes.length + 1 := by simp
  have hearlier : ∀ k ≤ closes.length - p.emaSlow,
      (List.range' (p.emaSlow + 1) k).map (fun i => macdLine p ((closes ++ [close]).take i)) =
        (List.range' (p.emaSlow + 1) k).map fun i => macdLine p (closes.take i) := by
    intro k hk
    refine List.map_congr_left fun i hi => ?_
    rw [List.mem_range'_1] at hi
    rw [List.take_append_of_le_length (by omega)]
  rw [macdSeries, macdSeries, hnext]
  split
  · rename_i hready
    have hlast : (closes ++ [close]).take (p.emaSlow + 1 + (closes.length - p.emaSlow)) =
        closes ++ [close] := List.take_of_length_le (by omega)
    rw [Nat.succ_sub hready, List.range'_concat, List.map_append, hearlier _ le_rfl, one_mul,
      List.map_singleton, hlast]
  · rename_i hready
    have hnone : closes.length + 1 - p.emaSlow = 0 ∧ closes.length - p.emaSlow = 0 := by omega
    rw [hnone.1, hnone.2]
    rfl

/-- A state holds the averages of the given closes. -/
structure MacdState.Averages (s : MacdState (Extended K)) (p : Periods) (closes : List K) : Prop
    where
  fast : s.fast.Averages p.emaFast closes
  slow : s.slow.Averages p.emaSlow closes
  signal : s.signal.Averages p.macdSignal (macdSeries p closes)

/-- A new convergence has averaged nothing. -/
theorem MacdState.averages_new {p : Periods} {s : MacdState (Extended K)}
    (h : MacdState.new p.emaFast p.emaSlow p.macdSignal = some s) : s.Averages p [] := by
  obtain ⟨fast, hfast, h⟩ := Option.bind_eq_some_iff.mp h
  obtain ⟨slow, hslow, h⟩ := Option.bind_eq_some_iff.mp h
  obtain ⟨signal, hsignal, h⟩ := Option.bind_eq_some_iff.mp h
  obtain rfl := Option.some.inj h
  refine ⟨EmaState.averages_new hfast, EmaState.averages_new hslow, ?_⟩
  have hnil : macdSeries p ([] : List K) = [] := by simp [macdSeries]
  rw [hnil]
  exact EmaState.averages_new hsignal

omit [IsStrictOrderedRing K] in
/-- **A new close**, while the number of closes fits. -/
theorem MacdState.Averages.update {s : MacdState (Extended K)} {p : Periods} {closes : List K}
    (h : s.Averages p closes) (hfits : closes.length < 2 ^ 32) (close : K) :
    (s.update (fin close)).1.Averages p (closes ++ [close]) ∧
      ∀ v ∈ (s.update (fin close)).2, v.macd = fin (macdLine p (closes ++ [close])) ∧
        v.signal = fin (exponential (alphaOf p.macdSignal) (macdSeries p (closes ++ [close]))) ∧
        v.hist = v.macd - v.signal := by
  have hnext : (closes ++ [close]).length = closes.length + 1 := by simp
  have hne : closes ++ [close] ≠ [] := by simp
  have hfast := h.fast.updateRaw close
  have hslow := h.slow.updateRaw close
  have hready : s.slow.ready = true ↔ p.emaSlow ≤ closes.length := by
    rw [EmaState.ready, h.slow.count, h.slow.period_eq, Nat.mod_eq_of_lt hfits, decide_eq_true_iff]
  have hmacd : (s.fast.updateRaw (fin close)).value - (s.slow.updateRaw (fin close)).value =
      fin (macdLine p (closes ++ [close])) := by
    rw [hfast.value hne (by omega), hslow.value hne (by omega), sub_fin, macdLine]
  have hseries := macdSeries_concat p closes close
  unfold MacdState.update
  dsimp only
  split
  · rename_i h'
    rw [if_pos (hready.mp h')] at hseries
    have hsignal := h.signal.updateRaw (macdLine p (closes ++ [close]))
    rw [← hseries] at hsignal
    rw [hmacd]
    refine ⟨⟨hfast, hslow, hsignal⟩, ?_⟩
    intro v hv
    dsimp only at hv
    split at hv
    · obtain rfl : _ = v := by simpa using hv
      have hvalue := hsignal.value (by rw [hseries]; simp) (by rw [length_macdSeries]; omega)
      exact ⟨rfl, hvalue, rfl⟩
    · cases hv
  · rename_i h'
    rw [if_neg (mt hready.mpr h'), List.append_nil] at hseries
    refine ⟨⟨hfast, hslow, hseries ▸ h.signal⟩, ?_⟩
    intro v hv
    cases hv

/-! ### The state of a symbol -/

namespace SymbolState

/-- A state holds the averages of the given closes. -/
structure Averages (s : SymbolState (Extended K)) (p : Periods) (closes : List K) : Prop where
  emaFast : s.emaFast.Averages p.emaFast closes
  emaSlow : s.emaSlow.Averages p.emaSlow closes
  rsi : s.rsi.Averages p.rsi closes
  macd : s.macd.Averages p closes

/-- The two averages that are kept twice. -/
structure Twins {F : Type} (s : SymbolState F) : Prop where
  fast : s.macd.fast = s.emaFast
  slow : s.macd.slow = s.emaSlow

/-- What a bar yields is what the closes up to it yield. -/
structure MatchesBatch (s : SymbolState (Extended K)) (p : Periods) (history : List (Candle K))
    (candle : Candle K) : Prop where
  emaFast : (s.update candle.ofNumbers).1.emaFast.value =
    fin (exponential (alphaOf p.emaFast) ((history ++ [candle]).map (·.close)))
  emaSlow : (s.update candle.ofNumbers).1.emaSlow.value =
    fin (exponential (alphaOf p.emaSlow) ((history ++ [candle]).map (·.close)))
  rsi : (s.rsi.update (fin candle.close)).2 =
    (batchRsi p.rsi ((history ++ [candle]).map (·.close))).map fin
  twins : (s.update candle.ofNumbers).1.Twins
  macd : ∀ v ∈ (s.macd.update (fin candle.close)).2,
    v.macd = (s.update candle.ofNumbers).2.emaFast - (s.update candle.ofNumbers).2.emaSlow ∧
    v.signal = fin (exponential (alphaOf p.macdSignal)
      (macdSeries p ((history ++ [candle]).map (·.close)))) ∧
    v.hist = v.macd - v.signal

/-- The parts of a new state. -/
theorem exists_of_new {F : Type} [Double F] {p : Periods} {symbol : String} {s : SymbolState F}
    (h : new symbol p = some s) : EmaState.new p.emaFast = some s.emaFast ∧
      EmaState.new p.emaSlow = some s.emaSlow ∧ RsiState.new p.rsi = some s.rsi ∧
      MacdState.new p.emaFast p.emaSlow p.macdSignal = some s.macd ∧ s.vwap = VwapState.new := by
  obtain ⟨fast, hfast, h⟩ := Option.bind_eq_some_iff.mp h
  obtain ⟨slow, hslow, h⟩ := Option.bind_eq_some_iff.mp h
  obtain ⟨rsi, hrsi, h⟩ := Option.bind_eq_some_iff.mp h
  obtain ⟨macd, hmacd, h⟩ := Option.bind_eq_some_iff.mp h
  obtain rfl := Option.some.inj h
  exact ⟨hfast, hslow, hrsi, hmacd, rfl⟩

/-- The state after one candle more. -/
theorem foldl_concat {F : Type} [Double F] (s : SymbolState F) (candles : List (Candle F))
    (candle : Candle F) : s.foldl (candles ++ [candle]) = ((s.foldl candles).update candle).1 := by
  rw [foldl, List.foldl_concat, foldl]

/-- The twins start alike, and take the same closes. -/
theorem twins_foldl {F : Type} [Double F] {p : Periods} {symbol : String} {s : SymbolState F}
    (h : new symbol p = some s) (candles : List (Candle F)) : (s.foldl candles).Twins := by
  induction candles using List.reverseRecOn with
  | nil =>
      obtain ⟨hfast, hslow, -, hmacd, -⟩ := exists_of_new h
      obtain ⟨fast, hfast', hmacd⟩ := Option.bind_eq_some_iff.mp hmacd
      obtain ⟨slow, hslow', hmacd⟩ := Option.bind_eq_some_iff.mp hmacd
      obtain ⟨signal, -, hmacd⟩ := Option.bind_eq_some_iff.mp hmacd
      obtain rfl : fast = s.emaFast := Option.some.inj (hfast'.symm.trans hfast)
      obtain rfl : slow = s.emaSlow := Option.some.inj (hslow'.symm.trans hslow)
      have heq : s.macd = ⟨s.emaFast, s.emaSlow, signal⟩ := (Option.some.inj hmacd).symm
      exact ⟨congrArg MacdState.fast heq, congrArg MacdState.slow heq⟩
  | append_singleton candles candle ih =>
      have hboth : ∀ (m : MacdState F) (x : F), (m.update x).1.fast = m.fast.updateRaw x ∧
          (m.update x).1.slow = m.slow.updateRaw x := by
        intro m x
        unfold MacdState.update
        dsimp only
        split <;> exact ⟨rfl, rfl⟩
      rw [foldl_concat]
      obtain ⟨hf, hs⟩ := hboth (s.foldl candles).macd candle.close
      exact ⟨hf.trans (by rw [ih.fast]; rfl), hs.trans (by rw [ih.slow]; rfl)⟩

/-- **The averages of a run**, as long as the number of candles fits. -/
theorem averages_foldl {p : Periods} {symbol : String} {s : SymbolState (Extended K)}
    (h : new symbol p = some s) (candles : List (Candle K)) (hfits : candles.length ≤ 2 ^ 32) :
    (s.foldl (candles.map Candle.ofNumbers)).Averages p (candles.map (·.close)) := by
  obtain ⟨hfast, hslow, hrsi, hmacd, -⟩ := exists_of_new h
  have hperiod : 2 ≤ p.rsi := ((isSome_new_iff symbol p).mp (Option.isSome_of_eq_some h)).rsi
  induction candles using List.reverseRecOn with
  | nil => exact ⟨EmaState.averages_new hfast, EmaState.averages_new hslow,
      RsiState.averages_new hrsi, MacdState.averages_new hmacd⟩
  | append_singleton candles candle ih =>
      rw [List.length_append, List.length_singleton] at hfits
      have hbefore := ih (by omega)
      have hlen : (candles.map (·.close)).length < 2 ^ 32 := by
        rw [List.length_map]
        omega
      rw [List.map_append, List.map_singleton, foldl_concat, List.map_append, List.map_singleton]
      exact ⟨hbefore.emaFast.updateRaw _, hbefore.emaSlow.updateRaw _,
        (hbefore.rsi.update (by omega) hlen _).1, (hbefore.macd.update hlen _).1⟩

/-- A bar matches, as long as the number of candles fits. -/
theorem matchesBatch_of_le {p : Periods} {symbol : String} {s : SymbolState (Extended K)}
    (h : new symbol p = some s) (history : List (Candle K)) (candle : Candle K)
    (hfits : history.length < 2 ^ 32) :
    (s.foldl (history.map Candle.ofNumbers)).MatchesBatch p history candle := by
  have hperiod : 2 ≤ p.rsi := ((isSome_new_iff symbol p).mp (Option.isSome_of_eq_some h)).rsi
  have hbefore := averages_foldl h history hfits.le
  have hlen : (history.map (·.close)).length < 2 ^ 32 := by
    rw [List.length_map]
    exact hfits
  have hcloses : (history ++ [candle]).map (·.close) = history.map (·.close) ++ [candle.close] := by
    simp
  have hne : (history ++ [candle]).map (·.close) ≠ [] := by simp
  have hle : ((history ++ [candle]).map (·.close)).length ≤ 2 ^ 32 := by simpa using hfits
  have hfast := (hbefore.emaFast.updateRaw candle.close)
  have hslow := (hbefore.emaSlow.updateRaw candle.close)
  rw [← hcloses] at hfast hslow
  have htwins := twins_foldl h ((history ++ [candle]).map Candle.ofNumbers)
  rw [List.map_append, List.map_singleton, foldl_concat] at htwins
  refine ⟨hfast.value hne hle, hslow.value hne hle, ?_, htwins, ?_⟩
  · rw [hcloses]
    exact (hbefore.rsi.update (by omega) hlen _).2
  · intro v hv
    obtain ⟨hmacd, hsignal, hhist⟩ := (hbefore.macd.update hlen candle.close).2 v hv
    rw [← hcloses] at hmacd hsignal
    refine ⟨?_, hsignal, hhist⟩
    rw [hmacd, macdLine, ← sub_fin]
    exact congrArg₂ (· - ·) (hfast.value hne hle).symm (hslow.value hne hle).symm

/-- The counter of the changes wraps at the candle after `2 ^ 32`, and nothing is returned. -/
theorem not_matchesBatch {p : Periods} {symbol : String} {s : SymbolState (Extended K)}
    (h : new symbol p = some s) (hp : p.rsi < 2 ^ 32) (history : List (Candle K))
    (candle : Candle K) (hlen : history.length = 2 ^ 32) :
    ¬ (s.foldl (history.map Candle.ofNumbers)).MatchesBatch p history candle := by
  intro hmatches
  have hperiod : 2 ≤ p.rsi := ((isSome_new_iff symbol p).mp (Option.isSome_of_eq_some h)).rsi
  have hbefore := (averages_foldl h history hlen.le).rsi
  have hlen' : (history.map (·.close)).length = 2 ^ 32 := by
    rw [List.length_map, hlen]
  obtain ⟨prev, hlast⟩ : ∃ prev, (history.map (·.close)).getLast? = some prev := by
    rw [← Option.isSome_iff_exists, List.getLast?_isSome]
    exact List.length_pos_iff.mp (by omega)
  have hprev := hbefore.prevClose
  rw [hlast, Option.map_some] at hprev
  have hrsi := hmatches.rsi
  rw [RsiState.update_of_prev hprev, RsiState.record_snd, if_pos, batchRsi, if_neg] at hrsi
  · cases hrsi
  · simp [hlen]
    omega
  · show increment (s.foldl (history.map Candle.ofNumbers)).rsi.deltas < _
    have hdeltas := hbefore.deltas
    rw [hlen'] at hdeltas
    rw [hdeltas, hbefore.period_eq, increment]
    omega

/-- **Every bar of a sequence matches its batch definitions** if and only if there are at most
`2 ^ 32` bars. -/
theorem matchesBatch_iff {p : Periods} {symbol : String} {s : SymbolState (Extended K)}
    (h : new symbol p = some s) (hp : p.rsi < 2 ^ 32) (candles : List (Candle K)) :
    (∀ history candle, history ++ [candle] <+: candles →
      (s.foldl (history.map Candle.ofNumbers)).MatchesBatch p history candle) ↔
      candles.length ≤ 2 ^ 32 := by
  constructor
  · intro hall
    by_contra hlong
    have hlt : 2 ^ 32 < candles.length := by omega
    have hprefix : candles.take (2 ^ 32) ++ [candles[2 ^ 32]] <+: candles := by
      rw [← List.take_succ_eq_append_getElem hlt]
      exact List.take_prefix _ _
    exact not_matchesBatch h hp _ _ (List.length_take_of_le hlt.le) (hall _ _ hprefix)
  · intro hle history candle hprefix
    have hlen := hprefix.length_le
    rw [List.length_append, List.length_singleton] at hlen
    exact matchesBatch_of_le h history candle (by omega)

/-- Seven bars, on which the close rises and falls. -/
def wavingBars : List (Candle ℚ) :=
  [barAround 10 0, barAround 12 60000, barAround 11 120000, barAround 14 180000,
    barAround 13 240000, barAround 15 300000, barAround 12 360000]

/-- With short periods these bars match, and both the strength and the convergence are returned on
the last one. -/
theorem matchesBatch_short_periods : ∃ s : SymbolState (Extended ℚ),
    new "BTCUSDT" ⟨2, 3, 2, 2⟩ = some s ∧
      ((s.foldl (wavingBars.dropLast.map Candle.ofNumbers)).rsi.update (fin 12)).2.isSome = true ∧
      ((s.foldl (wavingBars.dropLast.map Candle.ofNumbers)).macd.update (fin 12)).2.isSome = true ∧
      ∀ history candle, history ++ [candle] <+: wavingBars →
        (s.foldl (history.map Candle.ofNumbers)).MatchesBatch ⟨2, 3, 2, 2⟩ history candle :=
  ⟨_, rfl, by decide +kernel, by decide +kernel,
    (matchesBatch_iff rfl (by decide) _).mpr (by decide)⟩

/-- A sequence of equal bars that is one longer than a `u32` counts. -/
theorem not_matchesBatch_flat : ∃ s : SymbolState (Extended ℚ), new "BTCUSDT" {} = some s ∧
    ¬ ∀ history candle, history ++ [candle] <+: List.replicate (2 ^ 32 + 1) (barAround 10 0) →
      (s.foldl (history.map Candle.ofNumbers)).MatchesBatch {} history candle := by
  refine ⟨_, rfl, fun hall => ?_⟩
  have hprefix : List.replicate (2 ^ 32) (barAround 10 0) ++ [barAround 10 0] <+:
      List.replicate (2 ^ 32 + 1) (barAround 10 0) := by
    rw [← List.replicate_succ']
  exact not_matchesBatch rfl (by decide) _ _ List.length_replicate (hall _ _ hprefix)

end SymbolState

end HftPlatform.FeatureEngine
