import HftPlatform.CandleSink
import HftPlatform.Lib.MergeTree

/-!
# The materialized views of the candles

`db/clickhouse/init.sql` aggregates the 1-minute candles to bars of 15 minutes, an hour, four hours
and a day. A materialized view sees one inserted block at a time: it groups the candles of the block
by bar and inserts a row for each group. The target tables are `AggregatingMergeTree`s whose columns
are all plain, so that a merge keeps one of the rows of a bar and does not aggregate them again.
Days and hours are those of UTC.

## Main results

* `invisible_iff_rows`: the batches make no difference to a table exactly when each batch that has
  a candle of a bar gives the whole row of the bar.
* `invisible_iff`: for 1-minute candles, exactly when the candles of a bar all lie in one batch.
* `allInvisible_iff`: they make no difference to any of the tables exactly when the candles of a
  symbol and a day all lie in one batch.
-/

namespace HftPlatform.CandleViews

open Lib CandleSink

/-! ### The aggregate functions -/

section Aggregates

variable {α : Type}

/-- The first of the values, unless a later one is better: the loop of `min`, `max`, `argMin` and
`argMax`. -/
def best (better : α → α → Bool) : List α → Option α
  | [] => none
  | x :: xs => some (xs.foldl (fun b y => if better y b then y else b) x)

/-- The value at the candle with the least time. -/
def argMin (value : CandleRow → Binary64) (time : CandleRow → ℤ) (group : List CandleRow) :
    Binary64 :=
  ((best (fun c b => time c < time b) group).map value).getD .zero

/-- The value at the candle with the greatest time. -/
def argMax (value : CandleRow → Binary64) (time : CandleRow → ℤ) (group : List CandleRow) :
    Binary64 :=
  ((best (fun c b => time b < time c) group).map value).getD .zero

/-- The largest value of a group. -/
def max (value : CandleRow → Binary64) (group : List CandleRow) : Binary64 :=
  (best (fun x b => b.lt x) (group.map value)).getD .zero

/-- The smallest value of a group. -/
def min (value : CandleRow → Binary64) (group : List CandleRow) : Binary64 :=
  (best (fun x b => x.lt b) (group.map value)).getD .zero

/-- The last time of a group. -/
def maxTime (time : CandleRow → ℤ) (group : List CandleRow) : ℤ :=
  (best (fun t b => b < t) (group.map time)).getD 0

/-- The sum over a group. -/
def sum (fp : Rounding) (value : CandleRow → Binary64) (group : List CandleRow) : Binary64 :=
  (group.map value).foldl fp.add .zero

/-- The sum of a `UInt64` column. -/
def sumUInt64 (value : CandleRow → ℕ) (group : List CandleRow) : ℕ :=
  (group.map value).sum % 2 ^ 64

end Aggregates

/-! ### The views -/

/-- `toStartOfInterval` with an interval of the given milliseconds. -/
def toStartOfInterval (ms t : ℤ) : ℤ := t / ms * ms

/-- The hour of a time. -/
def toStartOfHour (t : ℤ) : ℤ := toStartOfInterval (60 * 60 * 1000) t

/-- The day of a time. -/
def toStartOfDay (t : ℤ) : ℤ := toStartOfInterval (24 * 60 * 60 * 1000) t

/-- The views over the candles. -/
inductive View
  | candles15m
  | candles1h
  | candles4h
  | candles1d
  deriving DecidableEq, Repr

/-- The `open_time` that a view computes. -/
def View.openTime : View → ℤ → ℤ
  | .candles15m => toStartOfInterval (15 * 60 * 1000)
  | .candles1h => toStartOfHour
  | .candles4h => toStartOfInterval (4 * 60 * 60 * 1000)
  | .candles1d => toStartOfDay

/-- What `open_time` names inside the aggregate functions of a view: the column of the candle, or
the alias of the same name, which ClickHouse prefers unless `prefer_column_name_to_alias` is set. -/
inductive Naming
  | column
  | alias
  deriving DecidableEq, Repr

/-- A row of a view. -/
structure AggregatedRow where
  openTime : ℤ
  symbol : String
  «open» : Binary64
  high : Binary64
  low : Binary64
  close : Binary64
  volume : Binary64
  closeTime : ℤ
  quoteAssetVolume : Binary64
  numberOfTrades : ℕ
  takerBuyBaseAssetVolume : Binary64
  takerBuyQuoteAssetVolume : Binary64
  deriving DecidableEq, Repr

/-- The sorting key of a target table. -/
def AggregatedRow.key (r : AggregatedRow) : String × ℤ := (r.symbol, r.openTime)

/-- The group of a candle. -/
def View.bar (v : View) (c : CandleRow) : String × ℤ := (c.symbol, v.openTime c.openTime)

section Views

variable (fp : Rounding) (naming : Naming) (v : View)

/-- The time that the aggregate functions compare. -/
def View.time (c : CandleRow) : ℤ :=
  match naming with
  | .column => c.openTime
  | .alias => v.openTime c.openTime

/-- The row of a group. -/
def View.row (bar : String × ℤ) (group : List CandleRow) : AggregatedRow where
  openTime := bar.2
  symbol := bar.1
  «open» := argMin CandleRow.open (v.time naming) group
  high := max CandleRow.high group
  low := min CandleRow.low group
  close := argMax CandleRow.close (v.time naming) group
  volume := sum fp CandleRow.volume group
  closeTime := maxTime CandleRow.closeTime group
  quoteAssetVolume := sum fp CandleRow.quoteAssetVolume group
  numberOfTrades := sumUInt64 CandleRow.numberOfTrades group
  takerBuyBaseAssetVolume := sum fp CandleRow.takerBuyBaseAssetVolume group
  takerBuyQuoteAssetVolume := sum fp CandleRow.takerBuyQuoteAssetVolume group

/-- The candles of a bar. -/
def View.group (bar : String × ℤ) (candles : List CandleRow) : List CandleRow :=
  candles.filter fun c => v.bar c = bar

/-- The rows that the view inserts for a block of candles. -/
def View.select (block : List CandleRow) : List AggregatedRow :=
  (block.map v.bar).dedup.map fun bar => v.row fp naming bar (v.group bar block)

/-- **The batches make no difference** to a table: whatever rows its merges keep, they are the rows
for all candles in one batch. -/
def Invisible (batches : List (List CandleRow)) : Prop :=
  ∀ merged, Collapsed AggregatedRow.key (batches.flatMap (v.select fp naming)) merged →
    ∀ r, r ∈ merged ↔ r ∈ v.select fp naming batches.flatten

/-- No two batches have candles of the same bar. -/
def View.Unsplit (batches : List (List CandleRow)) : Prop :=
  batches.Pairwise fun b b' => ∀ c ∈ b, ∀ c' ∈ b', v.bar c ≠ v.bar c'

end Views

/-- 1-minute candles: they are distinct, and of two candles of a symbol the one that opens later
closes later. -/
structure MinuteCandles (candles : List CandleRow) : Prop where
  distinct : (candles.map fun c => (c.symbol, c.openTime)).Nodup
  closeTime : ∀ c ∈ candles, ∀ c' ∈ candles, c.symbol = c'.symbol → c.openTime < c'.openTime →
    c.closeTime < c'.closeTime

variable {fp : Rounding} {naming : Naming} {v : View} {batches : List (List CandleRow)}

/-! ### Rows of a block -/

/-- The candles of a bar. -/
theorem mem_group {bar : String × ℤ} {candles : List CandleRow} {c : CandleRow} :
    c ∈ v.group bar candles ↔ c ∈ candles ∧ v.bar c = bar := by simp [View.group]

/-- The group of two parts. -/
theorem group_append (bar : String × ℤ) (xs ys : List CandleRow) :
    v.group bar (xs ++ ys) = v.group bar xs ++ v.group bar ys := List.filter_append ..

/-- A bar without candles has an empty group. -/
theorem group_eq_nil {bar : String × ℤ} {candles : List CandleRow}
    (h : ∀ c ∈ candles, v.bar c ≠ bar) : v.group bar candles = [] := by
  simpa [View.group, List.filter_eq_nil_iff] using h

/-- A row has the key of its bar. -/
@[simp] theorem key_row (bar : String × ℤ) (group : List CandleRow) :
    (v.row fp naming bar group).key = bar := rfl

/-- A view inserts the row of each bar that has a candle in the block. -/
theorem mem_select {block : List CandleRow} {r : AggregatedRow} :
    r ∈ v.select fp naming block ↔
      ∃ c ∈ block, v.row fp naming (v.bar c) (v.group (v.bar c) block) = r := by
  simp [View.select]

/-- A view inserts one row for each bar. -/
theorem nodup_select (block : List CandleRow) :
    ((v.select fp naming block).map AggregatedRow.key).Nodup := by
  have hkeys : (v.select fp naming block).map AggregatedRow.key = (block.map v.bar).dedup := by
    rw [View.select, List.map_map]
    exact List.map_id _
  rw [hkeys]
  exact List.nodup_dedup _

/-- **The batches make no difference** exactly when each batch that has a candle of a bar gives the
whole row of the bar. -/
theorem invisible_iff_rows : Invisible fp naming v batches ↔ ∀ b ∈ batches, ∀ c ∈ b,
    v.row fp naming (v.bar c) (v.group (v.bar c) b) =
      v.row fp naming (v.bar c) (v.group (v.bar c) batches.flatten) := by
  rw [Invisible, Collapsed.eq_table_iff (nodup_select _)]
  simp only [List.mem_flatMap, mem_select]
  constructor
  · intro h b hb c hc
    obtain ⟨c', hc', hrow⟩ := (h _).mp ⟨b, hb, c, hc, rfl⟩
    have hbar : v.bar c' = v.bar c := congrArg AggregatedRow.key hrow
    rw [← hrow, hbar]
  · intro h r
    constructor
    · rintro ⟨b, hb, c, hc, rfl⟩
      exact ⟨c, List.mem_flatten.mpr ⟨b, hb, hc⟩, (h b hb c hc).symm⟩
    · rintro ⟨c, hc, rfl⟩
      obtain ⟨b, hb, hcb⟩ := List.mem_flatten.mp hc
      exact ⟨b, hb, c, hcb, h b hb c hcb⟩

/-! ### Bars within one batch -/

/-- The loop of `max` computes the maximum. -/
theorem best_lt (times : List ℤ) : best (fun t b => b < t) times = times.max? := by
  cases times with
  | nil => rfl
  | cons t ts =>
      rw [best, List.max?_cons']
      congr 2
      funext b y
      simp only [decide_eq_true_eq]
      split <;> omega

/-- The `close_time` of a row is that of one of its candles. -/
theorem maxTime_mem (time : CandleRow → ℤ) {group : List CandleRow} (hne : group ≠ []) :
    ∃ c ∈ group, time c = maxTime time group := by
  obtain ⟨m, hm⟩ : ∃ m, (group.map time).max? = some m :=
    Option.isSome_iff_exists.mp (List.isSome_max?_of_ne_nil (by simpa using hne))
  rw [maxTime, best_lt, hm, Option.getD_some]
  exact List.mem_map.mp (List.max?_eq_some_iff.mp hm).1

/-- A batch that has a candle of a bar has all of them, when no other batch has one. -/
theorem group_flatten (h : v.Unsplit batches) {b : List CandleRow} {c : CandleRow}
    (hb : b ∈ batches) (hc : c ∈ b) :
    v.group (v.bar c) batches.flatten = v.group (v.bar c) b := by
  induction batches with
  | nil => cases hb
  | cons b₀ rest ih =>
      obtain ⟨hfirst, hrest⟩ := List.pairwise_cons.mp h
      rw [List.flatten_cons, group_append]
      rcases List.mem_cons.mp hb with rfl | hb
      · have hnone : v.group (v.bar c) rest.flatten = [] := by
          refine group_eq_nil fun c' hc' => ?_
          obtain ⟨b', hb', hcb'⟩ := List.mem_flatten.mp hc'
          exact (hfirst b' hb' c hc c' hcb').symm
        rw [hnone, List.append_nil]
      · have hnone : v.group (v.bar c) b₀ = [] :=
          group_eq_nil fun c' hc' => hfirst b hb c' hc' c hc
        rw [hnone, List.nil_append, ih hrest hb]

/-- **For 1-minute candles** the batches make no difference exactly when the candles of a bar all
lie in one batch. -/
theorem invisible_iff (hcandles : MinuteCandles batches.flatten) :
    Invisible fp naming v batches ↔ v.Unsplit batches := by
  rw [invisible_iff_rows]
  constructor
  · intro hrows
    have hdisjoint := hcandles.distinct
    rw [List.map_flatten, List.nodup_flatten] at hdisjoint
    refine (List.pairwise_map.mp hdisjoint.2).imp_of_mem ?_
    intro b b' hb hb' hdis c hc c' hc' hbar
    -- Both batches have the whole row, so both have the candle of the bar that closes last.
    have hlast : ∀ b₁ ∈ batches, ∀ c₁ ∈ b₁, v.bar c₁ = v.bar c → ∃ x ∈ b₁, v.bar x = v.bar c ∧
        x.closeTime = maxTime CandleRow.closeTime (v.group (v.bar c) batches.flatten) := by
      intro b₁ hb₁ c₁ hc₁ hbar₁
      have hclose := congrArg AggregatedRow.closeTime (hrows b₁ hb₁ c₁ hc₁)
      rw [hbar₁] at hclose
      have hne : v.group (v.bar c) b₁ ≠ [] := List.ne_nil_of_mem (mem_group.mpr ⟨hc₁, hbar₁⟩)
      obtain ⟨x, hx, htime⟩ := maxTime_mem CandleRow.closeTime hne
      obtain ⟨hxb, hxbar⟩ := mem_group.mp hx
      exact ⟨x, hxb, hxbar, htime.trans hclose⟩
    obtain ⟨x, hx, hxbar, hxtime⟩ := hlast b hb c hc rfl
    obtain ⟨y, hy, hybar, hytime⟩ := hlast b' hb' c' hc' hbar.symm
    have hxmem := List.mem_flatten.mpr ⟨b, hb, hx⟩
    have hymem := List.mem_flatten.mpr ⟨b', hb', hy⟩
    have hsymbol : x.symbol = y.symbol := congrArg Prod.fst (hxbar.trans hybar.symm)
    have hopen : x.openTime = y.openTime := by
      rcases lt_trichotomy x.openTime y.openTime with hlt | heq | hgt
      · have := hcandles.closeTime x hxmem y hymem hsymbol hlt
        omega
      · exact heq
      · have := hcandles.closeTime y hymem x hxmem hsymbol.symm hgt
        omega
    refine hdis (List.mem_map_of_mem hx) ?_
    rw [hsymbol, hopen]
    exact List.mem_map_of_mem (f := fun c : CandleRow => (c.symbol, c.openTime)) hy
  · intro h b hb c hc
    rw [group_flatten h hb hc]

/-! ### All tables -/

/-- Candles of one bar of a view are of one day. -/
theorem day_of_bar {c c' : CandleRow} (h : v.bar c = v.bar c') :
    View.candles1d.bar c = View.candles1d.bar c' := by
  obtain ⟨hsymbol, htime⟩ := Prod.mk.inj h
  refine Prod.ext hsymbol ?_
  cases v <;>
    simp only [View.openTime, toStartOfInterval, toStartOfHour, toStartOfDay] at htime <;>
    simp only [View.bar, View.openTime, toStartOfDay, toStartOfInterval] <;> omega

/-- **The batches make no difference to any table** exactly when the candles of a symbol and a day
all lie in one batch. -/
theorem allInvisible_iff (fp : Rounding) (naming : Naming) (batches : List (List CandleRow))
    (hcandles : MinuteCandles batches.flatten) :
    (∀ v, Invisible fp naming v batches) ↔ View.candles1d.Unsplit batches := by
  simp only [invisible_iff hcandles]
  refine ⟨fun h => h .candles1d, fun h v => ?_⟩
  exact h.imp fun hbars c hc c' hc' hbar => hbars c hc c' hc' (day_of_bar hbar)

/-- The candle of BTCUSDT that opens at a minute, with a volume of one. -/
def minuteCandle (minute : ℤ) : CandleRow :=
  ⟨"BTCUSDT", "1m", minute * 60000, .fin 1, .fin 1, .fin 1, .fin 1, .fin 1, minute * 60000 + 59999,
    .fin 1, 1, .fin 1, .fin 1, "binance", "futures", minute * 60000 + 60000⟩

/-- Two days in a batch each. -/
theorem allInvisible_days :
    MinuteCandles
      [[minuteCandle 0, minuteCandle 1], [minuteCandle 1440, minuteCandle 1455]].flatten ∧
    ∀ v, Invisible Rounding.nearestEven .column v
      [[minuteCandle 0, minuteCandle 1], [minuteCandle 1440, minuteCandle 1455]] := by
  have hcandles : MinuteCandles
      [[minuteCandle 0, minuteCandle 1], [minuteCandle 1440, minuteCandle 1455]].flatten :=
    ⟨by decide +kernel, by decide +kernel⟩
  refine ⟨hcandles, (allInvisible_iff _ _ _ hcandles).mpr ?_⟩
  rw [View.Unsplit]
  decide +kernel

/-- The first two minutes of a day in two batches: a merge may keep the row of one of them. -/
theorem twoBatches_visible : MinuteCandles [[minuteCandle 0], [minuteCandle 1]].flatten ∧
    ¬ ∀ v, Invisible Rounding.nearestEven .column v [[minuteCandle 0], [minuteCandle 1]] := by
  refine ⟨⟨by decide +kernel, by decide +kernel⟩, fun h => ?_⟩
  have hrow := invisible_iff_rows.mp (h .candles15m) _ List.mem_cons_self _ List.mem_cons_self
  exact absurd hrow (by decide +kernel)

end HftPlatform.CandleViews
