import HftPlatform.OrderState
import HftPlatform.Positions

/-!
# The tables as records of the events

`order_events` has one row for each report that the writer commits. Every other table is a view
that the statements of the same transaction maintain: `orders` shows the last event of each order,
`trades` the fills without their repetitions, `order_training_events` every event once more, and
`positions` the sums. No statement deletes a row.

## Main results

* `consistent_run`: in every state of a run from empty tables the tables agree with the events, and
  every unique key holds.
* `grows_run`: a run only appends to the logs, keeps every order and position, and changes an order
  in the columns that reports set.
* `held_run`: a position is the signed sum of the filled quantities of the training events.
-/

namespace HftPlatform

open Lib DbWriter

/-- The event records a fill of a positive quantity. -/
def OrderEventRow.isFill (ev : OrderEventRow) : Bool :=
  isFillLike ev.raw && ev.raw.lastFilledQty.gt .zero

/-- The key under which the fill of the event is stored in `trades`. -/
def OrderEventRow.fillKey (ev : OrderEventRow) : String × ℤ := (ev.raw.fillId, ev.eventTime)

/-- The last event of an order. -/
def Db.lastEvent (db : Db) (id : Uuid) : Option OrderEventRow :=
  lookup OrderEventRow.clientOrderId id db.orderEvents.reverse

/-- The order has the columns of the report that the event records. -/
structure OrderRow.Shows (rt : Runtime) (row : OrderRow) (ev : OrderEventRow) : Prop where
  exchangeOrderId : row.exchangeOrderId = nullIfEmpty ev.raw.exchangeOrderId
  status : row.status = mapStatus ev.raw.status
  filledQty : numeric20 rt ev.raw.cumulativeFilledQty = .ok row.filledQty
  avgPrice : numeric20NullIfZero rt ev.raw.avgPrice = .ok row.avgPrice

/-- What an event has in common with its training event. -/
def OrderEventRow.facts (ev : OrderEventRow) :
    Uuid × DbOrderStatus × Option Numeric × Option Numeric × ℤ :=
  (ev.clientOrderId, mapStatus ev.raw.status, ev.filledQty, ev.price, ev.eventTime)

/-- What a training event has in common with its event. -/
def TrainingEventRow.facts (ev : TrainingEventRow) :
    Uuid × DbOrderStatus × Option Numeric × Option Numeric × ℤ :=
  (ev.clientOrderId, ev.orderStatus, ev.filledQty, ev.fillPrice, ev.eventTime)

/-- Some event of the order records a fill at that time. -/
def Db.FilledAt (db : Db) (id : Uuid) (time : ℤ) : Prop :=
  ∃ ev ∈ db.orderEvents, ev.isFill = true ∧ ev.clientOrderId = id ∧ ev.eventTime = time

/-- The tables agree with the events. -/
structure Db.Consistent (rt : Runtime) (db : Db) : Prop where
  /-- `client_order_id`, `uq_positions_account_symbol_side` and the two keys of `trades`. -/
  orders_unique : (db.orders.map OrderRow.clientOrderId).Nodup
  positions_unique : (db.positions.map PositionRow.key).Nodup
  fills_unique : (db.trades.map TradeRow.fillKey).Nodup
  trades_unique : (db.trades.map TradeRow.idKey).Nodup
  /-- The orders are those of the events, and each shows the last one. -/
  order_of_event : ∀ ev ∈ db.orderEvents, ∃ row, db.order ev.clientOrderId = some row
  shows : ∀ id row, db.order id = some row → ∃ ev, db.lastEvent id = some ev ∧ row.Shows rt ev
  /-- Each event has one training event. -/
  training : db.orderTrainingEvents.map TrainingEventRow.facts =
    db.orderEvents.map OrderEventRow.facts
  /-- The trades are the fills among the events. -/
  event_of_trade : ∀ t ∈ db.trades, ∃ ev ∈ db.orderEvents, ev.isFill = true ∧
    ev.clientOrderId = t.clientOrderId ∧ ev.fillKey = t.fillKey ∧
      numeric20 rt ev.raw.lastFilledQty = .ok t.qty
  trade_of_event : ∀ ev ∈ db.orderEvents, ev.isFill = true →
    ev.fillKey ∈ db.trades.map TradeRow.fillKey
  /-- An exit is tagged where a fill is recorded. -/
  filled_of_exit : ∀ x ∈ db.orderExitTagSnapshots, db.FilledAt x.clientOrderId x.eventTime

variable {rt : Runtime} {c : Call} {db db' : Db}

/-! ### The rows a call binds -/

/-- The columns of the bound event. -/
theorem orderEventRow_spec {ev : OrderEventRow} (h : orderEventRow rt c = .ok ev) :
    rt.parseUuid c.order.clientOrderId = some ev.clientOrderId ∧ ev.raw = c.report ∧
      numeric20NullIfZero rt c.report.lastFilledQty = .ok ev.filledQty ∧
      numeric20NullIfZero rt c.report.lastFilledPrice = .ok ev.price ∧
      ev.eventTime = tsFromNs c.report.eventTimeNs := by
  simp only [orderEventRow, bind_eq_ok_iff, pure_eq_ok_iff, sql_eq_ok_iff] at h
  obtain ⟨u, hu, -, -, q, hq, p, hp, -, -, -, -, rfl⟩ := h
  exact ⟨parseUuid_eq_ok_iff.mp hu, rfl, hq, hp, rfl⟩

/-- The columns of the bound training event. -/
theorem trainingEventRow_spec {ev : TrainingEventRow} (h : trainingEventRow rt c = .ok ev) :
    rt.parseUuid c.order.clientOrderId = some ev.clientOrderId ∧
      ev.accountId = c.order.accountId ∧ ev.symbol = c.order.symbol ∧
      ev.side = mapSide c.order.side ∧ ev.orderStatus = mapStatus c.report.status ∧
      numeric20NullIfZero rt c.report.lastFilledQty = .ok ev.filledQty ∧
      numeric20NullIfZero rt c.report.lastFilledPrice = .ok ev.fillPrice ∧
      ev.eventTime = tsFromNs c.report.eventTimeNs := by
  simp only [trainingEventRow, bind_eq_ok_iff, pure_eq_ok_iff, sql_eq_ok_iff] at h
  obtain ⟨u, hu, a, ha, s, hs, -, -, -, -, -, -, -, -, -, -, -, -, q, hq, p, hp, rfl⟩ := h
  exact ⟨parseUuid_eq_ok_iff.mp hu, (pgText_eq_ok_iff.mp ha).2, (pgText_eq_ok_iff.mp hs).2, rfl,
    rfl, hq, hp, rfl⟩

/-- The columns of the bound exit snapshots. -/
theorem exitRows_spec {xs : List ExitTagRow} (h : exitRows rt c = .ok xs) :
    ∀ x ∈ xs, rt.parseUuid c.order.clientOrderId = some x.clientOrderId ∧
      x.eventTime = tsFromNs c.report.eventTimeNs := by
  rw [exitRows] at h
  cases htrigger : callTrigger rt c with
  | none =>
      obtain rfl : [] = xs := by simpa [htrigger] using h
      simp
  | some trigger =>
      cases hrow : exitTagRow rt c trigger with
      | error e => simp [htrigger, hrow, Except.map] at h
      | ok x =>
          obtain rfl : [x] = xs := by simpa [htrigger, hrow, Except.map] using h
          simp only [exitTagRow, bind_eq_ok_iff, pure_eq_ok_iff, sql_eq_ok_iff] at hrow
          obtain ⟨u, hu, -, -, -, -, -, -, -, -, rfl⟩ := hrow
          simpa using parseUuid_eq_ok_iff.mp hu

/-- The average price of the proposed order. -/
theorem avgPrice_of_orderRow {row : OrderRow} (h : orderRow rt c = .ok row) :
    numeric20NullIfZero rt c.report.avgPrice = .ok row.avgPrice := by
  simp only [orderRow, bind_eq_ok_iff, pure_eq_ok_iff, sql_eq_ok_iff] at h
  obtain ⟨-, -, -, -, -, -, -, -, -, -, -, -, -, -, -, -, -, -, -, -, ap, hap, rfl⟩ := h
  exact hap

/-- The bound event and the bound training event of a call agree. -/
theorem facts_eq {ev : OrderEventRow} {tr : TrainingEventRow} (hev : orderEventRow rt c = .ok ev)
    (htr : trainingEventRow rt c = .ok tr) : tr.facts = ev.facts := by
  obtain ⟨hid, hraw, hq, hp, ht⟩ := orderEventRow_spec hev
  obtain ⟨hid', -, -, -, hstatus, hq', hp', ht'⟩ := trainingEventRow_spec htr
  rw [hid, Option.some.injEq] at hid'
  rw [hq, Except.ok.injEq] at hq'
  rw [hp, Except.ok.injEq] at hp'
  rw [TrainingEventRow.facts, OrderEventRow.facts, hid', hq', hp', ht', ht, hstatus, hraw]

/-- The bound event and the bound trade of a call agree. -/
theorem fillKey_eq {ev : OrderEventRow} {t : TradeRow} (hev : orderEventRow rt c = .ok ev)
    (ht : tradeRow rt c = .ok t) : ev.clientOrderId = t.clientOrderId ∧ ev.fillKey = t.fillKey ∧
      numeric20 rt ev.raw.lastFilledQty = .ok t.qty := by
  obtain ⟨hid, hraw, -, -, htime⟩ := orderEventRow_spec hev
  obtain ⟨hid', -, -, -, hqty, hfill, htime', -⟩ := tradeRow_spec ht
  rw [hid, Option.some.injEq] at hid'
  refine ⟨hid', ?_, by rw [hraw, hqty]⟩
  rw [OrderEventRow.fillKey, TradeRow.fillKey, hraw, hfill, htime, htime']

/-! ### One committed call -/

/-- The last events after an event is appended. -/
theorem lastEvent_append {ev : OrderEventRow} (h : db'.orderEvents = db.orderEvents ++ [ev])
    (id : Uuid) :
    db'.lastEvent id = if ev.clientOrderId = id then some ev else db.lastEvent id := by
  rw [Db.lastEvent, h, List.reverse_append, List.reverse_singleton, List.singleton_append,
    lookup_cons, Db.lastEvent]

/-- A committed call leaves its order showing its event. -/
theorem DbWriter.BaseEffect.shows {ev : OrderEventRow} (h : BaseEffect rt c db db')
    (hev : orderEventRow rt c = .ok ev) :
    ∃ row, db'.order ev.clientOrderId = some row ∧ row.Shows rt ev := by
  obtain ⟨hid, hraw, -⟩ := orderEventRow_spec hev
  obtain ⟨row, hrow, horders⟩ := h.orders
  obtain ⟨hid', hex, hstatus, hfilled⟩ := orderRow_spec hrow
  have havg := avgPrice_of_orderRow hrow
  rw [hid, Option.some.injEq] at hid'
  rw [hid', Db.order]
  obtain ⟨row', hrow', ⟨-, rfl⟩ | ⟨old, -, hm⟩⟩ :=
    lookup_upsert_self (by rintro old _ ⟨⟩; rfl) horders
  · exact ⟨row', hrow', by rwa [hraw], by rwa [hraw], by rwa [hraw], by rwa [hraw]⟩
  · obtain rfl : mergeOrder row old = row' := Except.ok.inj hm
    exact ⟨_, hrow', by rwa [hraw], by rwa [hraw], by rwa [hraw], by rwa [hraw]⟩

/-- What a committed call does to `trades`. -/
theorem trades_of_ok (h : persistExecution rt c db = .ok db') :
    c.isFill = false ∧ db'.trades = db.trades ∨
      c.isFill = true ∧ ∃ t, tradeRow rt c = .ok t ∧
        (db'.trades = db.trades ∧ t.fillKey ∈ db.trades.map TradeRow.fillKey ∨
          db'.trades = db.trades ++ [t] ∧ t.fillKey ∉ db.trades.map TradeRow.fillKey ∧
            t.idKey ∉ db.trades.map TradeRow.idKey) := by
  obtain ⟨-, ⟨hfill, heffect⟩ | ⟨hfill, heffect⟩⟩ := persistExecution_ok_iff.mp h
  · obtain ⟨t, ht, htrades⟩ := heffect.trades
    exact Or.inr ⟨hfill, t, ht, insertOrIgnore_cases htrades⟩
  · exact Or.inl ⟨hfill, heffect.trades⟩

/-- What a committed call appends to the exit snapshots. -/
theorem exits_of_ok (h : persistExecution rt c db = .ok db') :
    ∃ xs, db'.orderExitTagSnapshots = db.orderExitTagSnapshots ++ xs ∧
      ∀ x ∈ xs, c.isFill = true ∧ rt.parseUuid c.order.clientOrderId = some x.clientOrderId ∧
        x.eventTime = tsFromNs c.report.eventTimeNs := by
  obtain ⟨-, ⟨hfill, heffect⟩ | ⟨hfill, heffect⟩⟩ := persistExecution_ok_iff.mp h
  · obtain ⟨xs, hxs, hexits⟩ := heffect.exits
    exact ⟨xs, hexits, fun x hx => ⟨hfill, exitRows_spec hxs x hx⟩⟩
  · exact ⟨[], by rw [heffect.exits, List.append_nil], by simp⟩

/-- Merging keeps the key of a position. -/
theorem key_of_mergePosition {p old m : PositionRow} (h : mergePosition p old = .ok m) :
    m.key = old.key := by
  obtain ⟨q, -, rfl⟩ := mergePosition_ok_iff.mp h
  rfl

/-- A committed call keeps the keys of the positions, in their order, and keeps them unique. -/
theorem positions_of_ok (h : persistExecution rt c db = .ok db') :
    db.positions.map PositionRow.key <+: db'.positions.map PositionRow.key ∧
      ((db.positions.map PositionRow.key).Nodup → (db'.positions.map PositionRow.key).Nodup) := by
  obtain ⟨-, ⟨-, heffect⟩ | ⟨-, heffect⟩⟩ := persistExecution_ok_iff.mp h
  · obtain ⟨p, -, hpositions⟩ := heffect.positions
    exact ⟨keys_prefix_upsert (fun _ _ => key_of_mergePosition) hpositions,
      nodup_upsert (fun _ _ => key_of_mergePosition) hpositions⟩
  · rw [heffect.positions]
    exact ⟨List.prefix_rfl, id⟩

/-- A committed call keeps the keys of the orders, in their order, and keeps them unique. -/
theorem DbWriter.BaseEffect.order_keys (h : BaseEffect rt c db db') :
    db.orders.map OrderRow.clientOrderId <+: db'.orders.map OrderRow.clientOrderId ∧
      ((db.orders.map OrderRow.clientOrderId).Nodup →
        (db'.orders.map OrderRow.clientOrderId).Nodup) := by
  obtain ⟨row, -, horders⟩ := h.orders
  exact ⟨keys_prefix_upsert (by rintro old _ ⟨⟩; rfl) horders,
    nodup_upsert (by rintro old _ ⟨⟩; rfl) horders⟩

/-- A fill that is recorded stays recorded. -/
theorem Db.FilledAt.append {ev : OrderEventRow} {id : Uuid} {time : ℤ} (h : db.FilledAt id time)
    (hevents : db'.orderEvents = db.orderEvents ++ [ev]) : db'.FilledAt id time := by
  obtain ⟨ev', hmem, hev'⟩ := h
  exact ⟨ev', by rw [hevents]; exact List.mem_append_left _ hmem, hev'⟩

/-- The event that a committed call appends. -/
theorem event_of_ok (h : persistExecution rt c db = .ok db') :
    ∃ ev, orderEventRow rt c = .ok ev ∧ db'.orderEvents = db.orderEvents ++ [ev] ∧
      rt.parseUuid c.order.clientOrderId = some ev.clientOrderId ∧ ev.isFill = c.isFill ∧
        ev.eventTime = tsFromNs c.report.eventTimeNs := by
  obtain ⟨ev, hev, hevents⟩ := (persistExecution_ok_iff.mp h).1.orderEvents
  obtain ⟨hid, hraw, -, -, htime⟩ := orderEventRow_spec hev
  exact ⟨ev, hev, hevents, hid, by rw [OrderEventRow.isFill, hraw, Call.isFill], htime⟩

/-- A committed call keeps what identifies a trade unique. -/
theorem trades_nodup_of_ok (h : persistExecution rt c db = .ok db') :
    ((db.trades.map TradeRow.fillKey).Nodup → (db'.trades.map TradeRow.fillKey).Nodup) ∧
      ((db.trades.map TradeRow.idKey).Nodup → (db'.trades.map TradeRow.idKey).Nodup) := by
  obtain ⟨-, heq⟩ | ⟨-, t, -, ⟨heq, -⟩ | ⟨heq, hfill, hid⟩⟩ := trades_of_ok h
  · rw [heq]
    exact ⟨id, id⟩
  · rw [heq]
    exact ⟨id, id⟩
  · rw [heq, List.map_append, List.map_append, List.map_singleton, List.map_singleton,
      ← List.concat_eq_append, ← List.concat_eq_append]
    exact ⟨List.Nodup.concat hfill, List.Nodup.concat hid⟩

/-- **Orders** after a committed call: they are those of the events, and each shows the last one. -/
theorem Db.Consistent.orders_step (h : db.Consistent rt)
    (hok : persistExecution rt c db = .ok db') :
    (∀ ev ∈ db'.orderEvents, ∃ row, db'.order ev.clientOrderId = some row) ∧
      ∀ id row, db'.order id = some row → ∃ ev, db'.lastEvent id = some ev ∧ row.Shows rt ev := by
  have hbase := (persistExecution_ok_iff.mp hok).1
  obtain ⟨ev, hev, hevents, hid, -⟩ := event_of_ok hok
  obtain ⟨row, hrow, hshows⟩ := hbase.shows hev
  have hother : ∀ id, id ≠ ev.clientOrderId → db'.order id = db.order id := fun id hne =>
    hbase.order_of_ne fun heq => hne (Option.some.inj (heq.symm.trans hid))
  refine ⟨fun ev' hev' => ?_, fun id row' hrow' => ?_⟩
  · by_cases hne : ev'.clientOrderId = ev.clientOrderId
    · exact ⟨row, hne ▸ hrow⟩
    · rw [hevents, List.mem_append, List.mem_singleton] at hev'
      rcases hev' with hold | rfl
      · rw [hother _ hne]
        exact h.order_of_event ev' hold
      · exact absurd rfl hne
  · rw [lastEvent_append hevents]
    by_cases hne : ev.clientOrderId = id
    · subst hne
      obtain rfl : row = row' := Option.some.inj (hrow.symm.trans hrow')
      exact ⟨ev, if_pos rfl, hshows⟩
    · rw [if_neg hne]
      rw [hother id (Ne.symm hne)] at hrow'
      exact h.shows id row' hrow'

/-- **Training events** after a committed call: there is one for each event. -/
theorem Db.Consistent.training_step (h : db.Consistent rt)
    (hok : persistExecution rt c db = .ok db') :
    db'.orderTrainingEvents.map TrainingEventRow.facts =
      db'.orderEvents.map OrderEventRow.facts := by
  obtain ⟨ev, hev, hevents, -⟩ := event_of_ok hok
  obtain ⟨tr, htr, htraining⟩ := (persistExecution_ok_iff.mp hok).1.orderTrainingEvents
  rw [htraining, hevents, List.map_append, List.map_append, h.training, List.map_singleton,
    List.map_singleton, facts_eq hev htr]

/-- **Trades** after a committed call: each is a fill among the events. -/
theorem Db.Consistent.event_of_trade_step (h : db.Consistent rt)
    (hok : persistExecution rt c db = .ok db') :
    ∀ t ∈ db'.trades, ∃ ev ∈ db'.orderEvents, ev.isFill = true ∧
      ev.clientOrderId = t.clientOrderId ∧ ev.fillKey = t.fillKey ∧
        numeric20 rt ev.raw.lastFilledQty = .ok t.qty := by
  obtain ⟨ev, hev, hevents, -, hisFill, -⟩ := event_of_ok hok
  have hold : ∀ t ∈ db.trades, ∃ ev' ∈ db'.orderEvents, ev'.isFill = true ∧
      ev'.clientOrderId = t.clientOrderId ∧ ev'.fillKey = t.fillKey ∧
        numeric20 rt ev'.raw.lastFilledQty = .ok t.qty := fun t ht => by
    obtain ⟨ev', hev', hfacts⟩ := h.event_of_trade t ht
    exact ⟨ev', by rw [hevents]; exact List.mem_append_left _ hev', hfacts⟩
  obtain ⟨-, heq⟩ | ⟨hfill, t, ht, ⟨heq, -⟩ | ⟨heq, -⟩⟩ := trades_of_ok hok
  · rwa [heq]
  · rwa [heq]
  · intro t' ht'
    rw [heq, List.mem_append, List.mem_singleton] at ht'
    rcases ht' with ht' | rfl
    · exact hold t' ht'
    · exact ⟨ev, by simp [hevents], hisFill.trans hfill, fillKey_eq hev ht⟩

/-- Each fill among the events is a trade after a committed call, too. -/
theorem Db.Consistent.trade_of_event_step (h : db.Consistent rt)
    (hok : persistExecution rt c db = .ok db') :
    ∀ ev ∈ db'.orderEvents, ev.isFill = true → ev.fillKey ∈ db'.trades.map TradeRow.fillKey := by
  obtain ⟨ev, hev, hevents, -, hisFill, -⟩ := event_of_ok hok
  intro ev' hev' hfill'
  rw [hevents, List.mem_append, List.mem_singleton] at hev'
  obtain ⟨hfill, heq⟩ | ⟨-, t, ht, hcases⟩ := trades_of_ok hok
  · rcases hev' with hold | rfl
    · rw [heq]
      exact h.trade_of_event ev' hold hfill'
    · rw [hisFill, hfill] at hfill'
      cases hfill'
  · obtain ⟨-, hkey, -⟩ := fillKey_eq hev ht
    have hsub : ∀ k ∈ db.trades.map TradeRow.fillKey, k ∈ db'.trades.map TradeRow.fillKey := by
      rcases hcases with ⟨heq, -⟩ | ⟨heq, -⟩ <;> rw [heq] <;> grind
    rcases hev' with hold | rfl
    · exact hsub _ (h.trade_of_event ev' hold hfill')
    · rw [hkey]
      rcases hcases with ⟨-, hstored⟩ | ⟨heq, -⟩
      · exact hsub _ hstored
      · rw [heq]
        simp

/-- **Exit snapshots** after a committed call: each is of a recorded fill. -/
theorem Db.Consistent.exits_step (h : db.Consistent rt)
    (hok : persistExecution rt c db = .ok db') :
    ∀ x ∈ db'.orderExitTagSnapshots, db'.FilledAt x.clientOrderId x.eventTime := by
  obtain ⟨ev, -, hevents, hid, hisFill, htime⟩ := event_of_ok hok
  obtain ⟨xs, heq, hxs⟩ := exits_of_ok hok
  intro x hx
  rw [heq, List.mem_append] at hx
  rcases hx with hx | hx
  · exact (h.filled_of_exit x hx).append hevents
  · obtain ⟨hfill, hid', htime'⟩ := hxs x hx
    rw [hid, Option.some.injEq] at hid'
    exact ⟨ev, by simp [hevents], hisFill.trans hfill, hid', by rw [htime, htime']⟩

/-- **A committed call keeps the tables in agreement with the events.** -/
theorem Db.Consistent.step (h : db.Consistent rt) (hok : persistExecution rt c db = .ok db') :
    db'.Consistent rt where
  orders_unique := (persistExecution_ok_iff.mp hok).1.order_keys.2 h.orders_unique
  positions_unique := (positions_of_ok hok).2 h.positions_unique
  fills_unique := (trades_nodup_of_ok hok).1 h.fills_unique
  trades_unique := (trades_nodup_of_ok hok).2 h.trades_unique
  order_of_event := (h.orders_step hok).1
  shows := (h.orders_step hok).2
  training := h.training_step hok
  event_of_trade := h.event_of_trade_step hok
  trade_of_event := h.trade_of_event_step hok
  filled_of_exit := h.exits_step hok

/-- The empty tables agree with the events. -/
theorem consistent_empty : ({} : Db).Consistent rt := by
  constructor <;> simp [Db.order]

/-- **In every state of a run** from empty tables, whatever calls fail, the tables agree with the
events. -/
theorem consistent_run (rt : Runtime) (inputs : List (Call × Bool)) :
    AlwaysOnRun (persistExecution rt) {} inputs fun db => db.Consistent rt :=
  (alwaysOnRun_iff consistent_empty).mpr fun _ _ _ _ _ hok h => h.step hok

/-! ### What stays -/

/-- The later row is the same order: it differs in the columns that reports set, and a take-profit
price or tags once set are replaced by others only. -/
structure OrderRow.Continues (row row' : OrderRow) : Prop where
  identity : row' = { row with
    exchangeOrderId := row'.exchangeOrderId, takeProfitPrice := row'.takeProfitPrice,
    coinTags := row'.coinTags, status := row'.status, filledQty := row'.filledQty,
    avgPrice := row'.avgPrice, updatedAt := row'.updatedAt }
  takeProfitPrice : row.takeProfitPrice.isSome = true → row'.takeProfitPrice.isSome = true
  coinTags : row.coinTags ≠ [] → row'.coinTags ≠ []

theorem OrderRow.Continues.refl (row : OrderRow) : row.Continues row := ⟨rfl, id, id⟩

theorem OrderRow.Continues.trans {r₁ r₂ r₃ : OrderRow} (h : r₁.Continues r₂)
    (h' : r₂.Continues r₃) : r₁.Continues r₃ where
  identity := by rw [h'.identity, h.identity]
  takeProfitPrice hset := h'.takeProfitPrice (h.takeProfitPrice hset)
  coinTags hset := h'.coinTags (h.coinTags hset)

/-- The update of an order continues it. -/
theorem continues_mergeOrder (excluded old : OrderRow) :
    old.Continues (mergeOrder excluded old) where
  identity := rfl
  takeProfitPrice hset := by
    cases h : excluded.takeProfitPrice <;> simp [mergeOrder, h, hset]
  coinTags hset := by
    by_cases h : excluded.coinTags.length > 0
    · simpa [mergeOrder, h] using List.ne_nil_of_length_pos h
    · simpa [mergeOrder, h] using hset

/-- The later tables contain the earlier ones. -/
structure Db.Grows (db db' : Db) : Prop where
  orders : ∀ id, RowKept id OrderRow.Continues db db'
  order_keys : db.orders.map OrderRow.clientOrderId <+: db'.orders.map OrderRow.clientOrderId
  orderEvents : db.orderEvents <+: db'.orderEvents
  orderTrainingEvents : db.orderTrainingEvents <+: db'.orderTrainingEvents
  trades : db.trades <+: db'.trades
  position_keys : db.positions.map PositionRow.key <+: db'.positions.map PositionRow.key
  exits : db.orderExitTagSnapshots <+: db'.orderExitTagSnapshots

theorem Db.Grows.refl (db : Db) : db.Grows db where
  orders _ row hrow := ⟨row, hrow, .refl row⟩
  order_keys := List.prefix_rfl
  orderEvents := List.prefix_rfl
  orderTrainingEvents := List.prefix_rfl
  trades := List.prefix_rfl
  position_keys := List.prefix_rfl
  exits := List.prefix_rfl

theorem Db.Grows.trans {db₁ db₂ db₃ : Db} (h : db₁.Grows db₂) (h' : db₂.Grows db₃) :
    db₁.Grows db₃ where
  orders id row hrow := by
    obtain ⟨row', hrow', hcont⟩ := h.orders id row hrow
    obtain ⟨row'', hrow'', hcont'⟩ := h'.orders id row' hrow'
    exact ⟨row'', hrow'', hcont.trans hcont'⟩
  order_keys := h.order_keys.trans h'.order_keys
  orderEvents := h.orderEvents.trans h'.orderEvents
  orderTrainingEvents := h.orderTrainingEvents.trans h'.orderTrainingEvents
  trades := h.trades.trans h'.trades
  position_keys := h.position_keys.trans h'.position_keys
  exits := h.exits.trans h'.exits

/-- A committed call continues every stored order. -/
theorem DbWriter.BaseEffect.continues (h : BaseEffect rt c db db') (id : Uuid) :
    RowKept id OrderRow.Continues db db' := by
  intro old hold
  obtain ⟨row, hrow, horders⟩ := h.orders
  by_cases hid : id = row.clientOrderId
  · subst hid
    obtain ⟨row', hrow', ⟨hnone, -⟩ | ⟨old', hold', hm⟩⟩ :=
      lookup_upsert_self (by rintro old _ ⟨⟩; rfl) horders
    · rw [Db.order, hnone] at hold
      cases hold
    · obtain rfl : old = old' := Option.some.inj (hold.symm.trans hold')
      obtain rfl : mergeOrder row old = row' := Except.ok.inj hm
      exact ⟨_, hrow', continues_mergeOrder row old⟩
  · refine ⟨old, ?_, .refl old⟩
    rw [Db.order, lookup_upsert_of_ne hid (by rintro old _ ⟨⟩; rfl) horders]
    exact hold

/-- A committed call only adds to the tables. -/
theorem grows_of_ok (h : persistExecution rt c db = .ok db') : db.Grows db' := by
  have hbase := (persistExecution_ok_iff.mp h).1
  obtain ⟨ev, -, hevents⟩ := hbase.orderEvents
  obtain ⟨tr, -, htraining⟩ := hbase.orderTrainingEvents
  obtain ⟨xs, hexits, -⟩ := exits_of_ok h
  constructor
  case orders => exact hbase.continues
  case order_keys => exact hbase.order_keys.1
  case orderEvents => exact ⟨[ev], hevents.symm⟩
  case orderTrainingEvents => exact ⟨[tr], htraining.symm⟩
  case trades =>
    obtain ⟨-, heq⟩ | ⟨-, t, -, ⟨heq, -⟩ | ⟨heq, -⟩⟩ := trades_of_ok h
    · exact ⟨[], by rw [heq, List.append_nil]⟩
    · exact ⟨[], by rw [heq, List.append_nil]⟩
    · exact ⟨[t], heq.symm⟩
  case position_keys => exact (positions_of_ok h).1
  case exits => exact ⟨xs, hexits.symm⟩

/-- **Along every run** the tables only grow, and every order stays the order it is. -/
theorem grows_run (rt : Runtime) (db₀ : Db) (inputs : List (Call × Bool)) :
    AlongRun (persistExecution rt) db₀ inputs Db.Grows :=
  (alongRun_iff Db.Grows.refl fun _ _ _ => Db.Grows.trans).mpr
    fun _ _ _ _ _ hok => grows_of_ok hok

/-! ### Positions from training events -/

/-- The signed quantity that a training event says was filled, in units of the column. -/
def TrainingEventRow.signedUnits (ev : TrainingEventRow) : ℤ :=
  if ev.orderStatus = .partiallyFilled ∨ ev.orderStatus = .filled then
    match ev.side with
    | .buy => max 0 ((ev.filledQty.getD 0).untopD 0)
    | .sell => -max 0 ((ev.filledQty.getD 0).untopD 0)
  else 0

/-- The sum of the filled quantities of the training events of an account in a symbol. -/
def Db.trained (db : Db) (accountId symbol : String) : ℤ :=
  ((db.orderTrainingEvents.filter fun ev => ev.accountId = accountId ∧ ev.symbol = symbol).map
    TrainingEventRow.signedUnits).sum

/-- The nullable column of a filled quantity gives its positive units back. -/
theorem fillUnits_of_nullIfZero {x : Binary64} {n : Option Numeric}
    (h : numeric20NullIfZero rt x = .ok n) : max 0 ((n.getD 0).untopD 0) = fillUnits rt x := by
  rw [numeric20NullIfZero] at h
  split at h
  · rename_i hx
    obtain rfl : none = n := by simpa using h
    rw [hx, fillUnits, if_neg (by decide)]
    rfl
  · simp only [bind_eq_ok_iff, pure_eq_ok_iff] at h
    obtain ⟨m, hm, rfl⟩ := h
    rw [Option.getD_some]
    by_cases hpos : x.gt .zero = true
    · rw [eq_fillUnits hpos hm, WithTop.untopD_coe]
      exact max_eq_right (fillUnits_nonneg rt x)
    · rw [fillUnits, if_neg hpos]
      refine max_eq_left ?_
      cases x with
      | nan =>
          obtain rfl : ⊤ = m := by simpa [numeric20, Numeric.ofFloat8] using hm
          simp
      | inf b => simp [numeric20, Numeric.ofFloat8] at hm
      | fin q =>
          have hq : q ≤ 0 := by simpa [Binary64.gt, Binary64.lt, Binary64.zero] using hpos
          have hneg : Binary64.Nonneg (Binary64.fin q).neg := Binary64.nonneg_fin.mpr (by linarith)
          obtain ⟨u, hu, heq⟩ := Numeric.ofFloat8_nonneg hneg (Numeric.ofFloat8_neg hm)
          cases m using WithTop.recTopCoe with
          | top => simp
          | coe v =>
              rw [Numeric.neg_coe, WithTop.coe_inj] at heq
              rw [WithTop.untopD_coe]
              omega

/-- The label of a status says whether a report with it is a fill. -/
theorem mapStatus_fill_iff (report : ExecutionReport) :
    mapStatus report.status = .partiallyFilled ∨ mapStatus report.status = .filled ↔
      isFillLike report = true := by
  rw [isFillLike, Bool.or_eq_true, decide_eq_true_eq, decide_eq_true_eq]
  rw [mapStatus]
  grind

/-- For BUY and SELL the training event of a call says by how much the call moves its position. -/
theorem signedUnits_eq {tr : TrainingEventRow}
    (hside : c.order.side = OrderSide.buy.code ∨ c.order.side = OrderSide.sell.code)
    (h : trainingEventRow rt c = .ok tr) : tr.signedUnits = reportUnits rt c.order c.report := by
  obtain ⟨-, -, -, hlabel, hstatus, hqty, -⟩ := trainingEventRow_spec h
  rw [TrainingEventRow.signedUnits, reportUnits, hstatus, fillUnits_of_nullIfZero hqty]
  simp only [mapStatus_fill_iff]
  refine if_congr Iff.rfl ?_ rfl
  rcases hside with hside | hside
  · rw [hlabel, hside, direction, if_pos hside, one_mul]
    rfl
  · rw [hlabel, hside, direction, if_neg (by rw [hside]; decide), neg_one_mul]
    rfl

/-- A committed call moves its position by what its training event says. -/
theorem trained_step (hside : c.order.side = OrderSide.buy.code ∨
      c.order.side = OrderSide.sell.code) (h : persistExecution rt c db = .ok db')
    (a s : String) (hheld : db.held a s = (db.trained a s : ℤ)) :
    db'.held a s = (db'.trained a s : ℤ) := by
  obtain ⟨tr, htr, htraining⟩ := (persistExecution_ok_iff.mp h).1.orderTrainingEvents
  obtain ⟨-, haccount, hsymbol, -⟩ := trainingEventRow_spec htr
  have hsum : db'.trained a s = db.trained a s +
      if (a, s) = (c.order.accountId, c.order.symbol) then reportUnits rt c.order c.report
      else 0 := by
    rw [Db.trained, htraining, List.filter_append, List.map_append, List.sum_append, ← Db.trained,
      ← signedUnits_eq hside htr]
    congr 1
    by_cases hkey : (a, s) = (c.order.accountId, c.order.symbol)
    · obtain ⟨rfl, rfl⟩ := Prod.mk.inj hkey
      simp [haccount, hsymbol]
    · have hout : ¬ (tr.accountId = a ∧ tr.symbol = s) := by
        rintro ⟨rfl, rfl⟩
        exact hkey (by rw [haccount, hsymbol])
      simp [hkey, hout]
  rw [held_persist h, hheld, moves_eq, hsum, WithTop.coe_add]

/-- **A position is the signed sum of the fills in the training events**, in every state of a run
from empty tables by orders that are BUY or SELL, whatever calls fail and however often a fill is
delivered. -/
theorem held_run (rt : Runtime) (inputs : List (Call × Bool))
    (hside : ∀ i ∈ inputs,
      i.1.order.side = OrderSide.buy.code ∨ i.1.order.side = OrderSide.sell.code) :
    AlwaysOnRun (persistExecution rt) {} inputs fun db =>
      ∀ accountId symbol, db.held accountId symbol = (db.trained accountId symbol : ℤ) := by
  refine (alwaysOnRun_iff fun a s => rfl).mpr fun pre c post db' hinputs hok hheld a s => ?_
  exact trained_step (hside (c, false) (by simp [hinputs])) hok a s (hheld a s)

/-- The fills of `ledgerRun`, each delivered twice. -/
theorem held_run_redelivered :
    (run (persistExecution Runtime.reference) {} (ledgerRun ++ ledgerRun)).held
        "paper-main" "BTCUSDT" =
      ((run (persistExecution Runtime.reference) {} (ledgerRun ++ ledgerRun)).trained
        "paper-main" "BTCUSDT" : ℤ) :=
  held_run Runtime.reference (ledgerRun ++ ledgerRun) (by decide +kernel) (ledgerRun ++ ledgerRun)
    [] (List.append_nil _).symm "paper-main" "BTCUSDT"

end HftPlatform
