import HftPlatform.Indicators
import HftPlatform.Lib.Series

/-!
# The average price of a session

`services/feature_engine/src/indicators/vwap.rs` keeps two sums for the day of the last bar. In
exact arithmetic they are those of the bars since the day last changed.

## Main definitions

* `session`: the bars since the day last changed.
* `VwapState.after`: the state after a list of bars.

## Main results

* `VwapState.after_sums`: the sums of a state are those of the session.
* `vwap_session`: the average that is returned for a bar is that of its session.
-/

namespace HftPlatform.FeatureEngine

open Lib Extended

/-- A candle of numbers. -/
def Candle.ofNumbers {K : Type} (candle : Candle K) : Candle (Extended K) :=
  { candle with
    high := fin candle.high
    low := fin candle.low
    close := fin candle.close
    volume := fin candle.volume }

/-- The length of a day in milliseconds. -/
def dayMs : ℤ := 86400000

/-- The day of a time, counted from the epoch. -/
def utcDay (openTime : ℤ) : ℤ := openTime / dayMs

/-- The times whose day fits a `u32`. -/
def DayFits (openTime : ℤ) : Prop := 0 ≤ openTime ∧ openTime < dayMs * 2 ^ 32

theorem dayOf_eq {openTime : ℤ} (h : DayFits openTime) :
    (dayOf openTime : ℤ) = utcDay openTime := by
  obtain ⟨hnonneg, hlt⟩ := h
  have hday : openTime.tdiv 86400000 = openTime / 86400000 := Int.tdiv_eq_ediv_of_nonneg hnonneg
  rw [dayMs] at hlt
  rw [dayOf, utcDay, dayMs, hday]
  omega

/-- Days that fit are told apart by their truncations. -/
theorem dayOf_eq_iff {time time' : ℤ} (h : DayFits time) (h' : DayFits time') :
    dayOf time = dayOf time' ↔ utcDay time = utcDay time' := by
  rw [← dayOf_eq h, ← dayOf_eq h', Int.natCast_inj]

section Session

variable {K : Type}

/-- The bars since the day last changed: the longest end of the list within the day of its last
bar. -/
def session (bars : List (Candle K)) : List (Candle K) :=
  lastRun (fun bar => utcDay bar.openTime) bars

/-- A bar belongs to the session of the bar before it, if its day is that one's. -/
theorem session_concat (bars : List (Candle K)) (bar : Candle K) : session (bars ++ [bar]) =
    (if some (utcDay bar.openTime) = bars.getLast?.map (utcDay ·.openTime) then session bars
      else []) ++ [bar] :=
  lastRun_concat bar

/-- The state after the given bars. -/
def VwapState.after {F : Type} [Double F] (bars : List (Candle F)) : VwapState F :=
  bars.foldl (fun s bar => s.update bar.high bar.low bar.close bar.volume bar.openTime)
    VwapState.new

theorem VwapState.after_concat {F : Type} [Double F] (bars : List (Candle F)) (bar : Candle F) :
    after (bars ++ [bar]) =
      (after bars).update bar.high bar.low bar.close bar.volume bar.openTime := by
  rw [after, List.foldl_concat, after]

variable [Field K] [LinearOrder K]

/-- The typical price of a bar. -/
def typical (bar : Candle K) : K := (bar.high + bar.low + bar.close) / 3

/-- The average of the typical prices of a session, weighted with the volumes, and zero where no
volume was traded. -/
def sessionVwap (bars : List (Candle K)) : K :=
  if ((session bars).map (·.volume)).sum = 0 then 0
  else weightedMean typical (·.volume) (session bars)

variable [SquareRoot K]

/-- A state keeps the sums of a list of bars. -/
structure VwapState.Sums (s : VwapState (Extended K)) (bars : List (Candle K)) : Prop where
  cumulativePv : s.cumulativePv = fin (bars.map fun bar => typical bar * bar.volume).sum
  cumulativeVol : s.cumulativeVol = fin (bars.map (·.volume)).sum

theorem VwapState.sums_nil (day count : ℕ) :
    (⟨Double.lit 0, Double.lit 0, day, count⟩ : VwapState (Extended K)).Sums [] := by
  constructor <;> simp

variable [IsStrictOrderedRing K]

/-- The sums after a bar: those before it, unless its day is another one, and the bar's own. -/
theorem VwapState.Sums.update {s : VwapState (Extended K)} {bars : List (Candle K)}
    (h : s.Sums bars) (bar : Candle K) :
    (s.update (fin bar.high) (fin bar.low) (fin bar.close) (fin bar.volume) bar.openTime).Sums
      ((if dayOf bar.openTime = s.sessionDay then bars else []) ++ [bar]) := by
  have htypical : (fin bar.high + fin bar.low + fin bar.close) / Double.lit 3 =
      (fin (typical bar) : Extended K) := by
    rw [fin_add_fin, fin_add_fin, lit_fin, div_fin _ (by norm_num), typical]
    norm_num
  unfold VwapState.update
  rw [htypical]
  split
  · exact ⟨by simp [h.cumulativePv], by simp [h.cumulativeVol]⟩
  · exact ⟨by simp, by simp⟩

/-- **The sums of a state** are those of the session. -/
theorem VwapState.after_sums (bars : List (Candle K)) (h : ∀ bar ∈ bars, DayFits bar.openTime) :
    (after (bars.map Candle.ofNumbers)).Sums (session bars) ∧
      ∀ bar ∈ bars.getLast?,
        (after (bars.map Candle.ofNumbers)).sessionDay = dayOf bar.openTime := by
  induction bars using List.reverseRecOn with
  | nil => exact ⟨sums_nil 0 0, by simp⟩
  | append_singleton bars bar ih =>
      obtain ⟨hsums, hday⟩ := ih fun b hb => h b (List.mem_append_left _ hb)
      have hfits : DayFits bar.openTime := h bar (by simp)
      rw [List.map_append, List.map_singleton, after_concat]
      constructor
      · have hsession : session (bars ++ [bar]) =
            (if dayOf bar.openTime = (after (bars.map Candle.ofNumbers)).sessionDay
              then session bars else []) ++ [bar] := by
          rw [session_concat]
          cases hlast : bars.getLast? with
          | none =>
              -- No bar was taken yet, and there is no session to keep.
              rw [List.getLast?_eq_none_iff.mp hlast]
              simp [session, lastRun]
          | some last =>
              have hlastFits : DayFits last.openTime :=
                h last (List.mem_append_left _ (List.mem_of_getLast? hlast))
              simp only [Option.map_some, Option.some.injEq, hday last hlast,
                dayOf_eq_iff hfits hlastFits]
        rw [hsession]
        exact hsums.update bar
      · intro b hb
        obtain rfl : bar = b := by simpa using hb
        unfold VwapState.update Candle.ofNumbers
        dsimp only
        split
        · rename_i heq
          exact heq.symm
        · rfl

/-- **The average price** that is returned for the last of the bars is that of its session. -/
theorem vwap_session (bars : List (Candle K)) (h : ∀ bar ∈ bars, DayFits bar.openTime) :
    (VwapState.after (bars.map Candle.ofNumbers)).vwap = fin (sessionVwap bars) := by
  have hsums := (VwapState.after_sums bars h).1
  rw [VwapState.vwap, hsums.cumulativeVol, hsums.cumulativePv, sessionVwap, isZero, lit_fin, le_fin,
    le_fin, Rat.cast_zero]
  by_cases hzero : ((session bars).map (·.volume)).sum = 0
  · rw [if_pos (by simp [hzero]), if_pos hzero]
  · have hne : ¬ (((session bars).map (·.volume)).sum ≤ 0 ∧
        0 ≤ ((session bars).map (·.volume)).sum) :=
      fun h => hzero (le_antisymm h.1 h.2)
    rw [if_neg (by simpa using hne), if_neg hzero, div_fin _ hzero, weightedMean]

/-- A bar of a unit of volume around a price. -/
def barAround (price : ℚ) (openTime : ℤ) : Candle ℚ where
  symbol := "BTCUSDT"
  openTime := openTime
  closeTime := openTime + 59999
  high := price + 2
  low := price - 2
  close := price
  volume := 1

/-- The bars of a day do not enter the average of the next one. -/
theorem vwap_session_new_day :
    (VwapState.after ([barAround 10 0, barAround 16 dayMs, barAround 20 (dayMs + 60000)].map
      Candle.ofNumbers)).vwap = (fin 18 : Extended ℚ) :=
  (vwap_session [barAround 10 0, barAround 16 dayMs, barAround 20 (dayMs + 60000)]
    (by simp [barAround, DayFits, dayMs])).trans (by decide +kernel)

end Session

end HftPlatform.FeatureEngine
