import HftPlatform.Lib.Binary64
import HftPlatform.Lib.MergeTree

/-!
# The futures context

`publish_open_interest`, `publish_mark_price` and `publish_liquidation` of
`services/marketdata_ingestor/src/main.rs` each insert a row into `futures_context_1m` with the
field of their event and zeros in the others. The table is a `ReplacingMergeTree(ts)` with the
sorting key `(symbol, ts)`: rows of one key have one version, and of these the last inserted one
is kept. It is to coalesce the events of one time stamp into a single row. Every insert runs in a
task of its own; the events stand here in the order of the inserts.

## Main results

* `coalesced_iff`: the kept rows contain what was published exactly when for each symbol and time
  stamp the last event carries it alone.
-/

namespace HftPlatform.FuturesContext

open Lib

/-- A row of `futures_context`. -/
structure FuturesContextRow where
  symbol : String
  ts : ℤ
  openInterest : Binary64
  fundingRate : Binary64
  liqBuyVol : Binary64
  liqSellVol : Binary64
  deriving DecidableEq, Repr

/-- An open interest of the exchange. -/
structure RawOpenInterest where
  symbol : String
  openInterest : Binary64
  exchangeEventTimeMs : ℤ
  deriving DecidableEq, Repr

/-- A mark price of the exchange. -/
structure RawMarkPrice where
  symbol : String
  fundingRate : Binary64
  exchangeEventTimeMs : ℤ
  deriving DecidableEq, Repr

/-- Side 1 is Buy and -1 is Sell. -/
structure RawLiquidation where
  symbol : String
  side : ℤ
  executedQty : Binary64
  exchangeEventTimeMs : ℤ
  deriving DecidableEq, Repr

/-- What the exchange says of a contract. -/
inductive Event
  | openInterest (tick : RawOpenInterest)
  | markPrice (tick : RawMarkPrice)
  | liquidation (tick : RawLiquidation)
  deriving DecidableEq, Repr

/-! ### The inserted rows -/

/-- The row of an open interest, padded with zeros. -/
def publishOpenInterest (tick : RawOpenInterest) : FuturesContextRow where
  symbol := tick.symbol
  ts := tick.exchangeEventTimeMs
  openInterest := tick.openInterest
  fundingRate := .zero
  liqBuyVol := .zero
  liqSellVol := .zero

/-- The row of a mark price, padded with zeros. -/
def publishMarkPrice (tick : RawMarkPrice) : FuturesContextRow where
  symbol := tick.symbol
  ts := tick.exchangeEventTimeMs
  openInterest := .zero
  fundingRate := tick.fundingRate
  liqBuyVol := .zero
  liqSellVol := .zero

/-- The row of a liquidation, padded with zeros. -/
def publishLiquidation (tick : RawLiquidation) : FuturesContextRow where
  symbol := tick.symbol
  ts := tick.exchangeEventTimeMs
  openInterest := .zero
  fundingRate := .zero
  liqBuyVol := if tick.side = 1 then tick.executedQty else .zero
  liqSellVol := if tick.side = -1 then tick.executedQty else .zero

/-- The row that an event inserts. -/
def Event.row : Event → FuturesContextRow
  | .openInterest tick => publishOpenInterest tick
  | .markPrice tick => publishMarkPrice tick
  | .liquidation tick => publishLiquidation tick

/-- The sorting key of the table. -/
def FuturesContextRow.key (r : FuturesContextRow) : String × ℤ := (r.symbol, r.ts)

/-- The symbol and the time stamp of an event. -/
def Event.key (e : Event) : String × ℤ := e.row.key

/-! ### What was published -/

/-- The events of a symbol and a timestamp. -/
def eventsAt (key : String × ℤ) (events : List Event) : List Event :=
  events.filter fun e => e.key = key

/-- The open interests among some events. -/
def openInterests (events : List Event) : List Binary64 := events.filterMap fun
  | .openInterest tick => some tick.openInterest
  | _ => none

/-- The funding rates among some events. -/
def fundingRates (events : List Event) : List Binary64 := events.filterMap fun
  | .markPrice tick => some tick.fundingRate
  | _ => none

/-- The volumes that were liquidated on a side. -/
def liqVols (side : ℤ) (events : List Event) : List Binary64 := events.filterMap fun
  | .liquidation tick => if tick.side = side then some tick.executedQty else none
  | _ => none

/-- The sum of values, which is zero when there is none. -/
def total (fp : Rounding) : List Binary64 → Binary64
  | [] => .zero
  | x :: xs => xs.foldl fp.add x

/-- One of the published values, or zero when none was published. -/
def Published (values : List Binary64) (x : Binary64) : Prop :=
  x ∈ values ∨ values = [] ∧ x = .zero

/-- The row contains what the events have published. -/
structure Contains (fp : Rounding) (events : List Event) (r : FuturesContextRow) : Prop where
  openInterest : Published (openInterests events) r.openInterest
  fundingRate : Published (fundingRates events) r.fundingRate
  liqBuyVol : r.liqBuyVol = total fp (liqVols 1 events)
  liqSellVol : r.liqSellVol = total fp (liqVols (-1) events)

/-- **The rows coalesce without loss**: each kept row contains what was published for its symbol at
its time stamp. -/
def Coalesced (fp : Rounding) (events : List Event) : Prop :=
  ∀ merged, Replaced FuturesContextRow.key (events.map Event.row) merged →
    ∀ r ∈ merged, Contains fp (eventsAt r.key events) r

/-- No value was published, or a zero was. -/
def Zeroed (values : List Binary64) : Prop := values = [] ∨ .zero ∈ values

/-- The volume that an event adds to a side. -/
def Event.liqVol (side : ℤ) : Event → Binary64
  | .liquidation tick => if tick.side = side then tick.executedQty else .zero
  | _ => .zero

/-- What the events have published is what the last of them carries: the fields of other kinds were
left out or zero, and the liquidated volumes are its own. -/
structure Alone (fp : Rounding) (events : List Event) (last : Event) : Prop where
  openInterest : (∀ tick, last ≠ .openInterest tick) → Zeroed (openInterests events)
  fundingRate : (∀ tick, last ≠ .markPrice tick) → Zeroed (fundingRates events)
  liqBuyVol : total fp (liqVols 1 events) = last.liqVol 1
  liqSellVol : total fp (liqVols (-1) events) = last.liqVol (-1)

variable {fp : Rounding} {events : List Event} {e : Event}

/-- Zero counts as published exactly when nothing was published, or a zero was. -/
theorem published_zero_iff {values : List Binary64} : Published values .zero ↔ Zeroed values := by
  rw [Published, Zeroed, and_iff_left rfl, or_comm]

/-- The row of an event contains what was published exactly when the event carries it alone. -/
theorem contains_row_iff (he : e ∈ events) : Contains fp events e.row ↔ Alone fp events e := by
  have hopen : Published (openInterests events) e.row.openInterest ↔
      ((∀ tick, e ≠ .openInterest tick) → Zeroed (openInterests events)) := by
    cases e with
    | openInterest tick =>
        have hmem : tick.openInterest ∈ openInterests events :=
          List.mem_filterMap.mpr ⟨_, he, rfl⟩
        exact iff_of_true (Or.inl hmem) fun hother => absurd rfl (hother tick)
    | markPrice tick =>
        exact ⟨fun h _ => published_zero_iff.mp h, fun h => published_zero_iff.mpr (h nofun)⟩
    | liquidation tick =>
        exact ⟨fun h _ => published_zero_iff.mp h, fun h => published_zero_iff.mpr (h nofun)⟩
  have hfunding : Published (fundingRates events) e.row.fundingRate ↔
      ((∀ tick, e ≠ .markPrice tick) → Zeroed (fundingRates events)) := by
    cases e with
    | markPrice tick =>
        have hmem : tick.fundingRate ∈ fundingRates events :=
          List.mem_filterMap.mpr ⟨_, he, rfl⟩
        exact iff_of_true (Or.inl hmem) fun hother => absurd rfl (hother tick)
    | openInterest tick =>
        exact ⟨fun h _ => published_zero_iff.mp h, fun h => published_zero_iff.mpr (h nofun)⟩
    | liquidation tick =>
        exact ⟨fun h _ => published_zero_iff.mp h, fun h => published_zero_iff.mpr (h nofun)⟩
  have hbuy : e.row.liqBuyVol = e.liqVol 1 := by cases e <;> rfl
  have hsell : e.row.liqSellVol = e.liqVol (-1) := by cases e <;> rfl
  constructor
  · intro h
    exact ⟨hopen.mp h.openInterest, hfunding.mp h.fundingRate, h.liqBuyVol.symm.trans hbuy,
      h.liqSellVol.symm.trans hsell⟩
  · intro h
    exact ⟨hopen.mpr h.openInterest, hfunding.mpr h.fundingRate, hbuy.trans h.liqBuyVol.symm,
      hsell.trans h.liqSellVol.symm⟩

/-- **The rows coalesce without loss** exactly when for each symbol and time stamp the event that
is inserted last carries alone what was published there. -/
theorem coalesced_iff (fp : Rounding) (events : List Event) : Coalesced fp events ↔
    ∀ pre e post, events = pre ++ e :: post → (∀ e' ∈ post, e'.key ≠ e.key) →
      Alone fp (eventsAt e.key events) e := by
  have hmem : ∀ e ∈ events, e ∈ eventsAt e.key events := fun e he => by simpa [eventsAt] using he
  have hlast : ∀ r, lookup FuturesContextRow.key r.key (events.map Event.row).reverse = some r ↔
      ∃ e, lookup Event.key r.key events.reverse = some e ∧ e.row = r := by
    intro r
    have hkey : ∀ e : Event, e.row.key = e.key := fun _ => rfl
    rw [← List.map_reverse, lookup_map hkey, Option.map_eq_some_iff]
  rw [Coalesced, forall_replaced_iff]
  simp only [hlast]
  constructor
  · intro h pre e post hevents hpost
    refine (contains_row_iff (hmem e (by simp [hevents]))).mp (h e.row ⟨e, ?_, rfl⟩)
    exact lookup_reverse_eq_some_iff.mpr ⟨rfl, pre, post, hevents, hpost⟩
  · rintro h r ⟨e, he, rfl⟩
    obtain ⟨-, pre, post, hevents, hpost⟩ := lookup_reverse_eq_some_iff.mp he
    exact (contains_row_iff (hmem e (by simp [hevents]))).mpr (h pre e post hevents hpost)

/-- An open interest and a funding rate of one time stamp: the kept row has an open interest of
zero. -/
theorem openInterest_lost : ¬ Coalesced Rounding.nearestEven
    [.openInterest ⟨"BTCUSDT", .fin 81000, 0⟩, .markPrice ⟨"BTCUSDT", .fin (1 / 2 ^ 13), 0⟩] := by
  intro h
  have hkept := forall_replaced_iff.mp h (publishMarkPrice ⟨"BTCUSDT", .fin (1 / 2 ^ 13), 0⟩)
    (by decide +kernel)
  exact absurd hkept.openInterest (by
    rw [Published]
    decide +kernel)

end HftPlatform.FuturesContext
