import HftPlatform.BatchIndicators
import Mathlib.Data.Nat.Count

/-!
# The quality bit of the convergence of averages

`MacdState::update` looks whether the signal average is ready before it feeds it, and
`SymbolState::update` asks for the quality bit after it was fed. The two answers differ on the bar
that makes the signal average ready, and where a counter wraps.

## Main definitions

* `Misflagged`: the bars on which the two answers differ, told from the periods and the number of
  the bars before.

## Main results

* `macd_flag_iff`: the bit tells the truth on the bars that are not misflagged.
* `misflagged_iff_of_lt`: until the counters wrap, that is one bar.
-/

namespace HftPlatform.FeatureEngine

open Lib Extended

section Counters

variable {F : Type}

/-- The number of bars among the first `n` that feed the signal average: those that find the
counter of the slow average, which wraps, at its period. -/
def fedBars (slowPeriod n : ℕ) : ℕ := Nat.count (fun k => slowPeriod ≤ k % 2 ^ 32) n

/-- A bar is fed to the average of the difference when the slow average is ready. -/
theorem fedBars_succ (slowPeriod n : ℕ) : fedBars slowPeriod (n + 1) =
    fedBars slowPeriod n + if slowPeriod ≤ n % 2 ^ 32 then 1 else 0 :=
  Nat.count_succ _ n

/-- The counters of a state after `n` bars. -/
structure MacdState.Counts (s : MacdState F) (slowPeriod signalPeriod n : ℕ) : Prop where
  slowPeriod_eq : s.slow.period = slowPeriod
  signalPeriod_eq : s.signal.period = signalPeriod
  slow : s.slow.count = n % 2 ^ 32
  signal : s.signal.count = fedBars slowPeriod n % 2 ^ 32

variable {s : MacdState F} {slowPeriod signalPeriod n : ℕ}

/-- When the slow average is ready. -/
theorem MacdState.Counts.slow_ready (h : s.Counts slowPeriod signalPeriod n) :
    s.slow.ready = true ↔ slowPeriod ≤ n % 2 ^ 32 := by
  rw [EmaState.ready, h.slow, h.slowPeriod_eq, decide_eq_true_iff]

/-- When the average of the difference is ready. -/
theorem MacdState.Counts.signal_ready (h : s.Counts slowPeriod signalPeriod n) :
    s.signal.ready = true ↔ signalPeriod ≤ fedBars slowPeriod n % 2 ^ 32 := by
  rw [EmaState.ready, h.signal, h.signalPeriod_eq, decide_eq_true_iff]

/-- When both are. -/
theorem MacdState.Counts.ready (h : s.Counts slowPeriod signalPeriod n) : s.ready = true ↔
    slowPeriod ≤ n % 2 ^ 32 ∧ signalPeriod ≤ fedBars slowPeriod n % 2 ^ 32 := by
  rw [MacdState.ready, Bool.and_eq_true, h.slow_ready, h.signal_ready]

variable [Double F]

/-- Both counters are known after a bar. -/
theorem MacdState.Counts.update (h : s.Counts slowPeriod signalPeriod n) (close : F) :
    (s.update close).1.Counts slowPeriod signalPeriod (n + 1) := by
  have hslow : increment s.slow.count = (n + 1) % 2 ^ 32 := by
    rw [increment, h.slow, Nat.mod_add_mod]
  unfold MacdState.update
  dsimp only
  split
  · rename_i hready
    refine ⟨h.slowPeriod_eq, h.signalPeriod_eq, hslow, ?_⟩
    show increment s.signal.count = _
    rw [increment, h.signal, fedBars_succ, if_pos (h.slow_ready.mp hready), Nat.mod_add_mod]
  · rename_i hready
    refine ⟨h.slowPeriod_eq, h.signalPeriod_eq, hslow, ?_⟩
    show s.signal.count = _
    rw [h.signal, fedBars_succ, if_neg (mt h.slow_ready.mpr hready), add_zero]

/-- Values are returned where the state was ready before. -/
theorem MacdState.isSome_update (s : MacdState F) (close : F) :
    (s.update close).2.isSome = s.ready := by
  unfold MacdState.update MacdState.ready
  dsimp only
  cases s.slow.ready <;> cases s.signal.ready <;> rfl

/-- The two answers differ on the bar after `n` bars: the signal average becomes ready on it, or
(after the counter of the slow average wrapped) the slow one does while the signal average is; or
one of the two wraps. -/
def Misflagged (slowPeriod signalPeriod n : ℕ) : Prop :=
  let slow := n % 2 ^ 32
  let signal := fedBars slowPeriod n % 2 ^ 32
  slowPeriod ≤ slow ∧ slow + 1 < 2 ^ 32 ∧ signal + 1 = signalPeriod ∨
    slow + 1 = slowPeriod ∧ signalPeriod ≤ signal ∨
    slowPeriod ≤ slow ∧ signalPeriod ≤ signal ∧ (slow + 1 = 2 ^ 32 ∨ signal + 1 = 2 ^ 32)

/-- **What is ready after a bar was ready before it**, unless the bar is misflagged. -/
theorem MacdState.Counts.ready_update_iff (h : s.Counts slowPeriod signalPeriod n)
    (hslow : 1 ≤ slowPeriod ∧ slowPeriod < 2 ^ 32)
    (hsignal : 1 ≤ signalPeriod ∧ signalPeriod < 2 ^ 32) (close : F) :
    ((s.update close).1.ready = true ↔ s.ready = true) ↔
      ¬ Misflagged slowPeriod signalPeriod n := by
  rw [(h.update close).ready, h.ready, fedBars_succ, Misflagged]
  by_cases hready : slowPeriod ≤ n % 2 ^ 32
  · rw [if_pos hready]
    omega
  · rw [if_neg hready, add_zero]
    omega

/-- Until the counters wrap, one bar is misflagged: that of the number of both periods. -/
theorem misflagged_iff_of_lt (hslow : 1 ≤ slowPeriod) (hsignal : 1 ≤ signalPeriod)
    (hn : n + 1 < 2 ^ 32) :
    Misflagged slowPeriod signalPeriod n ↔ n + 1 = slowPeriod + signalPeriod := by
  have hfed : ∀ m ≤ n, fedBars slowPeriod m = m - slowPeriod := by
    intro m hm
    induction m with
    | zero => simp [fedBars]
    | succ m ih =>
        have hmod : m % 2 ^ 32 = m := Nat.mod_eq_of_lt (by omega)
        rw [fedBars_succ, ih (by omega), hmod]
        split <;> omega
  rw [Misflagged, hfed n le_rfl, Nat.mod_eq_of_lt (by omega), Nat.mod_eq_of_lt (by omega)]
  omega

end Counters

section Quality

variable {F : Type} [Double F]

/-- The bit of a flag. -/
theorem testBit_flag (ready : Bool) (bit i : ℕ) :
    (SymbolState.flag ready bit).testBit i = (ready && decide (i = bit)) := by
  cases ready with
  | false => simp [SymbolState.flag]
  | true =>
      rw [SymbolState.flag, if_pos rfl, Nat.one_shiftLeft, Nat.testBit_two_pow, Bool.true_and]
      simp [eq_comm]

/-- The fourth quality bit says that the convergence of averages is ready after the candle. -/
theorem testBit_quality (s : SymbolState F) (candle : Candle F) :
    (s.update candle).2.quality.testBit 3 = (s.update candle).1.macd.ready := by
  unfold SymbolState.update
  simp [Nat.testBit_or, testBit_flag]

/-- The counters after a run. -/
theorem counts_foldl {p : Periods} {symbol : String} {s : SymbolState F}
    (h : SymbolState.new symbol p = some s) (history : List (Candle F)) :
    (s.foldl history).macd.Counts p.emaSlow p.macdSignal history.length := by
  induction history using List.reverseRecOn with
  | nil =>
      obtain ⟨-, -, -, hmacd, -⟩ := SymbolState.exists_of_new h
      obtain ⟨fast, -, hmacd⟩ := Option.bind_eq_some_iff.mp hmacd
      obtain ⟨slow, hslow, hmacd⟩ := Option.bind_eq_some_iff.mp hmacd
      obtain ⟨signal, hsignal, hmacd⟩ := Option.bind_eq_some_iff.mp hmacd
      have hnew : ∀ {period : ℕ} {e : EmaState F}, EmaState.new period = some e →
          e.period = period ∧ e.count = 0 := by
        intro period e he
        rw [EmaState.new] at he
        split at he
        · obtain rfl := Option.some.inj he
          exact ⟨rfl, rfl⟩
        · cases he
      have heq : s.macd = ⟨fast, slow, signal⟩ := (Option.some.inj hmacd).symm
      rw [SymbolState.foldl, List.foldl_nil, heq]
      exact ⟨(hnew hslow).1, (hnew hsignal).1, (hnew hslow).2, (hnew hsignal).2⟩
  | append_singleton history candle ih =>
      rw [SymbolState.foldl_concat, List.length_append, List.length_singleton]
      exact ih.update candle.close

/-- **The bit tells the truth** exactly on the bars that are not misflagged. -/
theorem macd_flag_iff {p : Periods} {symbol : String} {s : SymbolState F}
    (h : SymbolState.new symbol p = some s) (hslow : p.emaSlow < 2 ^ 32)
    (hsignal : p.macdSignal < 2 ^ 32) (history : List (Candle F)) (candle : Candle F) :
    (((s.foldl history).update candle).2.quality.testBit 3 = true ↔
      ((s.foldl history).macd.update candle.close).2.isSome = true) ↔
      ¬ Misflagged p.emaSlow p.macdSignal history.length := by
  have hvalid := (SymbolState.isSome_new_iff symbol p).mp (Option.isSome_of_eq_some h)
  rw [testBit_quality, MacdState.isSome_update]
  exact (counts_foldl h history).ready_update_iff ⟨hvalid.emaSlow, hslow⟩
    ⟨hvalid.macdSignal, hsignal⟩ candle.close

/-- Five bars, on which the close rises. -/
def risingBars : List (Candle (Extended ℚ)) :=
  (List.range 5).map fun i : ℕ => (barAround (10 + i) (60000 * i)).ofNumbers

/-- With periods of three and of two bars, the bit is set on the sixth bar, and a value is
returned. -/
theorem macd_flag_sixth_bar : ∃ s : SymbolState (Extended ℚ),
    SymbolState.new "BTCUSDT" ⟨2, 3, 2, 2⟩ = some s ∧
      ((s.foldl risingBars).macd.update (fin 16)).2.isSome = true ∧
      (((s.foldl risingBars).update (barAround 16 300000).ofNumbers).2.quality.testBit 3 = true ↔
        ((s.foldl risingBars).macd.update (fin 16)).2.isSome = true) :=
  ⟨_, rfl, by decide +kernel, (macd_flag_iff (p := ⟨2, 3, 2, 2⟩) rfl (by decide) (by decide)
    risingBars (barAround 16 300000).ofNumbers).mpr
      (mt (misflagged_iff_of_lt (by decide) (by decide) (by decide)).mp (by decide))⟩

/-- With the default periods, the bit is set on bar 35, where nothing is returned and the vector
carries zeros. -/
theorem macd_flag_bar_35 : ∃ s : SymbolState (Extended ℚ),
    SymbolState.new "BTCUSDT" {} = some s ∧
      ∃ history : List (Candle (Extended ℚ)),
        history = List.replicate 34 (barAround 10 0).ofNumbers ∧
        ((s.foldl history).update (barAround 12 60000).ofNumbers).2.quality.testBit 3 = true ∧
        ((s.foldl history).macd.update (fin 12)).2 = none ∧
        ((s.foldl history).update (barAround 12 60000).ofNumbers).2.macd = fin 0 := by
  refine ⟨_, rfl, _, rfl, ?_, ?_, ?_⟩ <;> decide +kernel

end Quality

end HftPlatform.FeatureEngine
