import HftPlatform.Lib.NearestEven
import Mathlib.Data.List.Induction

/-!
# The performance of the P&L page

`buildPerformance` of `apps/web_dashboard/src/app/pnl/page.tsx`: the trades are added up by day, the
days in order give an equity curve that starts at zero, and the drawdown of a day is the loss from
the highest equity so far, in percent of it. A highest equity of zero has no percentages; its
drawdown counts as zero.

The arithmetic is that of the hardware. What the page takes from the browser is a parameter.

## Main results

* `Curve.day_spec`: what a day adds to the curve.
* `maxDrawdownPct_spec`: the worst drawdown is negative exactly when the equity falls below an
  earlier positive equity, and zero otherwise.
-/

namespace HftPlatform.Dashboard.Pnl

open Lib Binary64

/-! ### The page -/

/-- What is read of a trade: its time and what it earned. -/
structure Trade where
  tradeTime : String
  realizedPnl : Option String

/-- A point of a curve. -/
structure SeriesPoint where
  label : String
  value : Binary64
  deriving DecidableEq

/-- What a day earned. -/
structure DailyPoint where
  date : String
  pnl : Binary64
  deriving DecidableEq

/-- The figures that are shown. -/
structure PerformanceMetrics where
  totalPnl : Binary64
  sharpeRatio : Binary64
  maxDrawdownPct : Binary64
  avgDailyPnl : Binary64

/-- The figures and the curves. -/
structure Performance where
  metrics : PerformanceMetrics
  equityCurve : List SeriesPoint
  drawdownCurve : List SeriesPoint
  dailyPnl : List DailyPoint

/-- What the page takes from the browser. -/
structure Browser where
  /-- `new Date(s).toISOString()`, unless the date is invalid. -/
  toISOString : String → Option String
  /-- `Number.parseFloat(s)`. -/
  parseFloat : String → Binary64
  localeCompare : String → String → Ordering
  sqrt : Binary64 → Binary64
  /-- The square of a number. -/
  square : Binary64 → Binary64

section Page

variable (fp : Rounding) (b : Browser)

/-- `Math.max` of two values: a NaN operand is the result. -/
def mathMax (x y : Binary64) : Binary64 :=
  if x = .nan ∨ y = .nan then .nan else x.max y

/-- `Math.min` of two values: a NaN operand is the result. -/
def mathMin (x y : Binary64) : Binary64 :=
  if x = .nan ∨ y = .nan then .nan else if y.lt x then y else x

/-- The day of a time, as a text. -/
def toDayKey (iso : String) : Option String :=
  (b.toISOString iso).map fun s => String.ofList (s.toList.take 10)

/-- The P&L of a trade; what is missing or not a number counts as zero. -/
def tradePnl (trade : Trade) : Binary64 :=
  let pnl := b.parseFloat (trade.realizedPnl.getD "0")
  if pnl = .nan then .zero else pnl

/-- `Map.prototype.set`: a key keeps its place. -/
def setDay (pnlByDay : List (String × Binary64)) (day : String) (pnl : Binary64) :
    List (String × Binary64) :=
  if (pnlByDay.lookup day).isSome then
    pnlByDay.map fun e => if e.1 = day then (day, pnl) else e
  else pnlByDay ++ [(day, pnl)]

/-- The loop over the trades. -/
def addTrade (pnlByDay : List (String × Binary64)) (trade : Trade) :
    Option (List (String × Binary64)) := do
  let day ← toDayKey b trade.tradeTime
  return setDay pnlByDay day (fp.add ((pnlByDay.lookup day).getD .zero) (tradePnl b trade))

/-- What the loop over the days has built. -/
structure Curve where
  equity : Binary64 := .zero
  peak : Binary64 := .zero
  equityCurve : List SeriesPoint := []
  drawdownCurve : List SeriesPoint := []

/-- The loss from the peak, in percent of it; zero when there is no peak. -/
def ddPct (equity peak : Binary64) : Binary64 :=
  if peak.gt .zero then fp.mul (fp.div (fp.sub equity peak) peak) (fp.lit 100) else .zero

/-- The body of the loop over the days. -/
def Curve.day (c : Curve) (d : DailyPoint) : Curve :=
  let equity := fp.add c.equity d.pnl
  let peak := mathMax c.peak equity
  { equity, peak
    equityCurve := c.equityCurve ++ [⟨d.date, equity⟩]
    drawdownCurve := c.drawdownCurve ++ [⟨d.date, ddPct fp equity peak⟩] }

/-- The worst of the drawdowns. -/
def worst (drawdownCurve : List SeriesPoint) : Binary64 :=
  drawdownCurve.foldl (fun min p => mathMin min p.value) .zero

/-- The daily returns on a synthetic equity. -/
def dailyReturns (dailyPnl : List DailyPoint) (equityCurve : List SeriesPoint) : List Binary64 :=
  let baseEquity := fp.lit 10000
  let equities := baseEquity :: equityCurve.map fun p => fp.add baseEquity p.value
  List.zipWith (fun d prevEquity => fp.div d.pnl (mathMax prevEquity (fp.lit 1))) dailyPnl equities

/-- The mean of the returns over their deviation, for a year of days. -/
def sharpeRatio (returns : List Binary64) : Binary64 :=
  let mean :=
    if returns.length > 0 then fp.div (returns.foldl fp.add .zero) (fp.lit returns.length)
    else .zero
  let variance :=
    if returns.length > 1 then
      fp.div (returns.foldl (fun acc r => fp.add acc (b.square (fp.sub r mean))) .zero)
        (fp.lit (returns.length - 1))
    else .zero
  let std := b.sqrt variance
  if std.gt .zero then fp.mul (fp.div mean std) (b.sqrt (fp.lit 365)) else .zero

/-- The performance, unless a trade has an invalid date. -/
def buildPerformance (trades : List Trade) : Option Performance := do
  let pnlByDay ← trades.foldlM (addTrade fp b) []
  let dailyPnl :=
    (pnlByDay.mergeSort fun x y => b.localeCompare x.1 y.1 ≠ .gt).map fun e => ⟨e.1, e.2⟩
  let curve := dailyPnl.foldl (Curve.day fp) {}
  return {
    metrics := {
      totalPnl := curve.equity
      sharpeRatio := sharpeRatio fp b (dailyReturns fp dailyPnl curve.equityCurve)
      maxDrawdownPct := worst curve.drawdownCurve
      avgDailyPnl :=
        if dailyPnl.length > 0 then fp.div curve.equity (fp.lit dailyPnl.length) else .zero }
    equityCurve := curve.equityCurve
    drawdownCurve := curve.drawdownCurve
    dailyPnl }

end Page

/-! ### The equity -/

/-- Some equity is below an earlier one that was positive. -/
def FallsFromGain (es : List ℚ) : Prop :=
  ∃ (i j : ℕ) (a e : ℚ), i < j ∧ es[i]? = some a ∧ es[j]? = some e ∧ 0 < a ∧ e < a

/-- The highest equity so far, at least that of the start. -/
def highest (es : List ℚ) : ℚ := es.foldl Max.max 0

variable {es : List ℚ} {a e p : ℚ} {c : Curve} {d : DailyPoint}

/-- The highest of some equities and one more. -/
theorem highest_concat (es : List ℚ) (e : ℚ) : highest (es ++ [e]) = Max.max (highest es) e := by
  simp [highest]

/-- The highest is not negative, as the curve starts at zero. -/
theorem highest_nonneg (es : List ℚ) : 0 ≤ highest es := by
  induction es using List.reverseRecOn with
  | nil => exact le_rfl
  | append_singleton es e ih =>
      rw [highest_concat]
      exact ih.trans (le_max_left _ _)

/-- No equity is above the highest. -/
theorem le_highest (h : a ∈ es) : a ≤ highest es := by
  induction es using List.reverseRecOn with
  | nil => cases h
  | append_singleton es e ih =>
      rw [highest_concat]
      rcases List.mem_append.mp h with h | h
      · exact (ih h).trans (le_max_left _ _)
      · rw [List.mem_singleton.mp h]
        exact le_max_right _ _

/-- A highest equity that is positive was reached. -/
theorem highest_mem (h : 0 < highest es) : highest es ∈ es := by
  induction es using List.reverseRecOn with
  | nil => exact absurd h (lt_irrefl _)
  | append_singleton es e ih =>
      rw [highest_concat] at h ⊢
      rcases le_total (highest es) e with hle | hle
      · rw [max_eq_right hle]
        exact List.mem_append_right _ (List.mem_singleton_self e)
      · rw [max_eq_left hle] at h ⊢
        exact List.mem_append_left _ (ih h)

/-- A new equity falls from a gain when it is below a positive highest one. -/
theorem fallsFromGain_concat (es : List ℚ) (e : ℚ) :
    FallsFromGain (es ++ [e]) ↔ FallsFromGain es ∨ 0 < highest es ∧ e < highest es := by
  constructor
  · rintro ⟨i, j, a, e', hij, hi, hj, hpos, hlt⟩
    rcases Nat.lt_or_ge j es.length with hlen | hlen
    · rw [List.getElem?_append_left (by omega)] at hi
      rw [List.getElem?_append_left hlen] at hj
      exact Or.inl ⟨i, j, a, e', hij, hi, hj, hpos, hlt⟩
    · have hj' : j = es.length := by
        have := (List.getElem?_eq_some_iff.mp hj).1
        rw [List.length_append, List.length_singleton] at this
        omega
      subst hj'
      rw [List.getElem?_concat_length] at hj
      rw [List.getElem?_append_left hij] at hi
      obtain rfl := Option.some.inj hj
      have hle := le_highest (List.mem_of_getElem? hi)
      exact Or.inr ⟨hpos.trans_le hle, hlt.trans_le hle⟩
  · rintro (⟨i, j, a, e', hij, hi, hj, hpos, hlt⟩ | ⟨hpos, hlt⟩)
    · have hlen := (List.getElem?_eq_some_iff.mp hj).1
      refine ⟨i, j, a, e', hij, ?_, ?_, hpos, hlt⟩
      · rw [List.getElem?_append_left (by omega), hi]
      · rw [List.getElem?_append_left hlen, hj]
    · obtain ⟨i, hi, hget⟩ := List.mem_iff_getElem.mp (highest_mem hpos)
      refine ⟨i, es.length, highest es, e, hi, ?_, List.getElem?_concat_length, hpos, hlt⟩
      rw [List.getElem?_append_left hi, List.getElem?_eq_getElem hi, hget]

/-! ### The loop -/

/-- The curve after days whose equities are the given numbers. -/
structure Curve.Spec (c : Curve) (es : List ℚ) : Prop where
  equity : ∃ a, c.equity = .fin a
  peak : c.peak = .fin (highest es)
  double : Rounding.IsDouble (highest es)
  falls : FallsFromGain es → (worst c.drawdownCurve).lt .zero = true
  zero : ¬FallsFromGain es → worst c.drawdownCurve = .zero

/-- The larger of two doubles is a double. -/
theorem isDouble_max (ha : Rounding.IsDouble a) (he : Rounding.IsDouble e) :
    Rounding.IsDouble (Max.max a e) := by
  rcases le_total a e with h | h
  · rwa [max_eq_right h]
  · rwa [max_eq_left h]

/-- The larger of two numbers. -/
theorem mathMax_fin (a e : ℚ) : mathMax (.fin a) (.fin e) = .fin (Max.max a e) := by
  rcases lt_or_ge a e with h | h
  · simp [mathMax, Binary64.max, lt, h, h.le]
  · simp [mathMax, Binary64.max, lt, h, h.not_gt]

/-- A sum that is a number is a rounded one. -/
theorem isDouble_add {y : Binary64} (h : Rounding.nearestEven.add (.fin a) y = .fin e) :
    Rounding.IsDouble e := by
  cases y with
  | nan => cases h
  | inf s => cases h
  | fin q => exact Rounding.isDouble_round h

/-- At the peak there is no loss. -/
theorem ddPct_self (hpos : 0 < p) : ddPct .nearestEven (.fin p) (.fin p) = .zero := by
  have hzero : Rounding.nearestEven.round 0 = .fin 0 := Rounding.nearestEvenMag_zero
  have hlit : Rounding.nearestEven.lit 100 = .fin 100 := by
    exact_mod_cast Rounding.lit_natCast (n := 100) (by norm_num)
  simp [ddPct, Rounding.sub, Rounding.add, neg, Rounding.div, Rounding.mul, hzero, hlit, hpos.ne',
    zero]

/-- **The drawdown of a day** is negative below a positive peak, and zero otherwise. -/
theorem ddPct_cases (hp : Rounding.IsDouble p) (he : Rounding.IsDouble e) (hpos : 0 ≤ p)
    (h : e ≤ p) :
    (0 < p ∧ e < p → (ddPct .nearestEven (.fin e) (.fin p)).lt .zero = true) ∧
      (¬(0 < p ∧ e < p) → ddPct .nearestEven (.fin e) (.fin p) = .zero) := by
  rcases hpos.eq_or_lt with rfl | hpos
  · simp [ddPct, gt, lt, Binary64.zero]
  rcases h.eq_or_lt with rfl | hlt
  · exact ⟨fun hlt => absurd hlt.2 (lt_irrefl _), fun _ => ddPct_self hpos⟩
  · refine ⟨fun _ => ?_, fun hnot => absurd ⟨hpos, hlt⟩ hnot⟩
    rw [ddPct, if_pos (by simpa [gt, lt, Binary64.zero] using hpos)]
    exact Rounding.div_sub_mul_neg he hp hpos hlt

/-- The worst drawdown of a curve and one point more. -/
theorem worst_concat (l : List SeriesPoint) (point : SeriesPoint) :
    worst (l ++ [point]) = mathMin (worst l) point.value := by
  simp [worst]

/-- What is below zero. -/
theorem lt_zero_iff {x : Binary64} : x.lt .zero = true ↔ x = .inf true ∨ ∃ q < 0, x = .fin q := by
  cases x <;> simp [lt, zero]

/-- A drawdown: a negative value, or zero. -/
def Drawdown (x : Binary64) : Prop := x = .inf true ∨ ∃ q ≤ 0, x = .fin q

/-- What is below zero is a drawdown. -/
theorem Drawdown.of_lt {x : Binary64} (h : x.lt .zero = true) : Drawdown x :=
  (lt_zero_iff.mp h).imp_right fun ⟨q, hq, hx⟩ => ⟨q, hq.le, hx⟩

/-- Zero is one. -/
theorem Drawdown.zero : Drawdown .zero := Or.inr ⟨0, le_rfl, rfl⟩

/-- The worse of two drawdowns is negative exactly when one of them is. -/
theorem lt_mathMin {x v : Binary64} (hx : Drawdown x) (hv : Drawdown v) :
    (mathMin x v).lt .zero = true ↔ x.lt .zero = true ∨ v.lt .zero = true := by
  rcases hx with rfl | ⟨q, hq, rfl⟩ <;> rcases hv with rfl | ⟨r, hr, rfl⟩
  · simp [mathMin, lt, Binary64.zero]
  · simp [mathMin, lt, Binary64.zero]
  · simp [mathMin, lt, Binary64.zero]
  · rcases lt_or_ge r q with h | h
    · have hneg : r < 0 := h.trans_le hq
      simp [mathMin, lt, Binary64.zero, h, hneg]
    · have himp : r < 0 → q < 0 := fun hr => h.trans_lt hr
      simpa [mathMin, lt, Binary64.zero, h.not_gt] using himp

/-- The smaller of zero and itself. -/
theorem mathMin_zero : mathMin .zero .zero = .zero := by decide +kernel

/-- The worst point of a curve is a drawdown. -/
theorem Curve.Spec.drawdown (h : c.Spec es) : Drawdown (worst c.drawdownCurve) := by
  by_cases hfalls : FallsFromGain es
  · exact .of_lt (h.falls hfalls)
  · rw [h.zero hfalls]
    exact .zero

/-- **What a day adds to the curve.** -/
theorem Curve.day_spec (h : c.Spec es) (hday : (c.day .nearestEven d).equity = .fin e) :
    (c.day .nearestEven d).Spec (es ++ [e]) := by
  obtain ⟨a, ha⟩ := h.equity
  have hadd : Rounding.nearestEven.add c.equity d.pnl = .fin e := hday
  have he : Rounding.IsDouble e := isDouble_add (ha ▸ hadd)
  have hpeak : mathMax c.peak (.fin e) = .fin (highest (es ++ [e])) := by
    rw [h.peak, mathMax_fin, highest_concat]
  have hdouble : Rounding.IsDouble (highest (es ++ [e])) := by
    rw [highest_concat]
    exact isDouble_max h.double he
  have hle : e ≤ highest (es ++ [e]) :=
    le_highest (List.mem_append_right es (List.mem_singleton_self e))
  obtain ⟨hloss, hnone⟩ := ddPct_cases hdouble he (highest_nonneg _) hle
  have hfalls : 0 < highest (es ++ [e]) ∧ e < highest (es ++ [e]) ↔
      0 < highest es ∧ e < highest es := by
    rw [highest_concat, lt_max_iff, lt_max_iff, or_iff_left (lt_irrefl e)]
    refine and_congr_left fun hlt => ⟨fun hpos => ?_, Or.inl⟩
    exact hpos.elim id fun hpos => hpos.trans hlt
  have hworst : worst (c.day .nearestEven d).drawdownCurve =
      mathMin (worst c.drawdownCurve)
        (ddPct .nearestEven (.fin e) (.fin (highest (es ++ [e])))) := by
    simp only [Curve.day, hadd, hpeak, worst_concat]
  refine ⟨⟨e, hday⟩, by simp only [Curve.day, hadd, hpeak], hdouble, ?_, ?_⟩
  · intro hnew
    rw [fallsFromGain_concat, ← hfalls] at hnew
    rw [hworst, lt_mathMin h.drawdown]
    · exact hnew.imp h.falls hloss
    · by_cases hday : 0 < highest (es ++ [e]) ∧ e < highest (es ++ [e])
      · exact .of_lt (hloss hday)
      · rw [hnone hday]
        exact .zero
  · intro hnew
    rw [fallsFromGain_concat, ← hfalls, not_or] at hnew
    rw [hworst, h.zero hnew.1, hnone hnew.2, mathMin_zero]

/-- The curve after any days, as long as the equity is a number. -/
theorem Curve.spec_of_days (days : List DailyPoint)
    (h : ((days.foldl (Curve.day .nearestEven) {}).equityCurve.map fun p => p.value) =
      es.map .fin) : (days.foldl (Curve.day .nearestEven) {}).Spec es := by
  induction days using List.reverseRecOn generalizing es with
  | nil =>
      obtain rfl : es = [] := by simpa using h.symm
      have hnone : ¬FallsFromGain [] := by rintro ⟨i, j, a, e, -, hi, -⟩; simp at hi
      exact ⟨⟨0, rfl⟩, rfl, ⟨0, 0, by norm_num, by norm_num, by simp [highest]⟩,
        fun hfalls => absurd hfalls hnone, fun _ => rfl⟩
  | append_singleton days d ih =>
      rw [List.foldl_concat] at h ⊢
      have hcurve : ∀ c : Curve, ((c.day .nearestEven d).equityCurve.map fun p => p.value) =
          (c.equityCurve.map fun p => p.value) ++ [(c.day .nearestEven d).equity] := fun c => by
        simp [Curve.day]
      rw [hcurve] at h
      obtain ⟨es, last, rfl, hes, hlast⟩ := List.map_eq_append_iff.mp h.symm
      obtain ⟨e, rfl, he⟩ := List.map_eq_singleton_iff.mp hlast
      exact Curve.day_spec (ih hes.symm) he.symm

/-- A browser that reads a gain, a loss, and an infinite gain. -/
def plainBrowser : Browser where
  toISOString := some
  parseFloat s :=
    if s = "200" then .fin 200
    else if s = "-100" then .fin (-100)
    else if s = "Infinity" then .inf false
    else .nan
  localeCompare := compare
  sqrt x := x
  square x := Rounding.nearestEven.mul x x

/-- A trade at the beginning of a day. -/
def tradeOf (day pnl : String) : Trade := ⟨day ++ "T00:00:00.000Z", some pnl⟩

/-- A first day that loses 100 has no drawdown, though the equity is below that of the start. And
after an infinite gain, on a curve that does not fall, the drawdown is not a number. -/
theorem drawdown_hidden :
    (∃ perf,
      buildPerformance .nearestEven plainBrowser [tradeOf "2024-01-01" "-100"] = some perf ∧
      (perf.equityCurve.map fun p => p.value) = [.fin (-100)] ∧
      perf.metrics.maxDrawdownPct = .zero) ∧
    ∃ perf,
      buildPerformance .nearestEven plainBrowser [tradeOf "2024-01-01" "Infinity"] = some perf ∧
      (perf.equityCurve.map fun p => p.value) = [.inf false] ∧
      perf.metrics.maxDrawdownPct = .nan := by
  have hloss : [tradeOf "2024-01-01" "-100"].foldlM (addTrade .nearestEven plainBrowser) [] =
      some [("2024-01-01", .fin (-100))] := by decide +kernel
  have hgain : [tradeOf "2024-01-01" "Infinity"].foldlM (addTrade .nearestEven plainBrowser) [] =
      some [("2024-01-01", .inf false)] := by decide +kernel
  simp only [buildPerformance, hloss, hgain, Option.bind_eq_bind, Option.bind_some,
    Option.pure_def, List.mergeSort_singleton]
  exact ⟨⟨_, rfl, by decide +kernel, by decide +kernel⟩, _, rfl, by decide +kernel,
    by decide +kernel⟩

/-- **The worst drawdown.** As long as the equity is a number: it is negative when the equity after
some day is below the equity after an earlier day that was positive, and zero otherwise, as when the
equity never falls below its highest value. -/
theorem maxDrawdownPct_spec {b : Browser} {trades : List Trade} {perf : Performance}
    (hperf : buildPerformance .nearestEven b trades = some perf)
    (hes : (perf.equityCurve.map fun p => p.value) = es.map .fin) :
    (FallsFromGain es → perf.metrics.maxDrawdownPct.lt .zero = true) ∧
      (¬FallsFromGain es → perf.metrics.maxDrawdownPct = .zero) := by
  rw [buildPerformance] at hperf
  cases hdays : trades.foldlM (addTrade .nearestEven b) [] with
  | none => simp [hdays] at hperf
  | some pnlByDay =>
      rw [hdays] at hperf
      obtain rfl := Option.some.inj hperf
      have hspec := Curve.spec_of_days _ hes
      exact ⟨hspec.falls, hspec.zero⟩

/-- A gain of 200 and a loss of 100 the day after. -/
theorem maxDrawdownPct_gain_loss :
    ∃ perf, buildPerformance .nearestEven plainBrowser
        [tradeOf "2024-01-01" "200", tradeOf "2024-01-02" "-100"] = some perf ∧
      perf.metrics.maxDrawdownPct.lt .zero = true := by
  have hdays : [tradeOf "2024-01-01" "200", tradeOf "2024-01-02" "-100"].foldlM
      (addTrade .nearestEven plainBrowser) [] =
        some [("2024-01-01", .fin 200), ("2024-01-02", .fin (-100))] := by decide +kernel
  have hsorted : [("2024-01-01", Binary64.fin 200), ("2024-01-02", .fin (-100))].mergeSort
      (fun x y => plainBrowser.localeCompare x.1 y.1 ≠ .gt) =
        [("2024-01-01", .fin 200), ("2024-01-02", .fin (-100))] :=
    List.mergeSort_of_pairwise (by decide +kernel)
  have hperf : ∃ perf, buildPerformance .nearestEven plainBrowser
      [tradeOf "2024-01-01" "200", tradeOf "2024-01-02" "-100"] = some perf ∧
        (perf.equityCurve.map fun p => p.value) = [200, 100].map .fin := by
    simp only [buildPerformance, hdays, hsorted, Option.bind_eq_bind, Option.bind_some,
      Option.pure_def]
    exact ⟨_, rfl, by decide +kernel⟩
  obtain ⟨perf, hperf, hes⟩ := hperf
  refine ⟨perf, hperf, (maxDrawdownPct_spec hperf hes).1 ?_⟩
  exact ⟨0, 1, 200, 100, by norm_num, rfl, rfl, by norm_num, by norm_num⟩

end HftPlatform.Dashboard.Pnl
