import HftPlatform.DbWriter

/-!
# What a call of the writer does

The inversion of `DbWriter.persistExecution`: every later result about the tables starts
from these lemmas and never unfolds a statement again.

## Main results

* `orderRow_spec`, `tradeRow_spec`, `positionRow_spec`: the columns a bound row carries.
* `persistExecution_ok_iff`: a committed call, table by table.
* `persistExecution_isOk_iff`: a call commits exactly when it is `Accepted`, that is when
  its values fit their columns, its trade does not clash, and the position stays in range.
* `bindable_at`: whether the values fit does not depend on the time of the transaction.
-/

namespace HftPlatform

open Lib

/-- A sequence of fallible steps succeeds when each step does. -/
theorem bind_eq_ok_iff {ε α β : Type} {x : Except ε α} {f : α → Except ε β} {b : β} :
    (x >>= f) = .ok b ↔ ∃ a, x = .ok a ∧ f a = .ok b := by
  cases x <;> simp [bind, Except.bind]

/-- Returning a value succeeds with it. -/
theorem pure_eq_ok_iff {ε α : Type} {a b : α} : (pure a : Except ε α) = .ok b ↔ a = b := by
  simp [pure, Except.pure]

/-- Adding the context of a statement does not change when it succeeds. -/
@[simp] theorem sql_eq_ok_iff {α : Type} {context : String} {x : Except PgError α} {a : α} :
    DbWriter.sql context x = .ok a ↔ x = .ok a := by
  cases x <;> simp [DbWriter.sql, Except.mapError]

/-- A text is bound as it is. -/
theorem pgText_eq_ok_iff {s t : String} :
    pgText s = .ok t ↔ s.toList.contains '\x00' = false ∧ t = s := by
  rw [pgText]
  cases s.toList.contains '\x00' <;> simp [eq_comm]

/-- A nullable text is bound as it is. -/
theorem eq_of_pgTextOpt {s t : Option String} (h : pgTextOpt s = .ok t) : t = s := by
  cases s with
  | none =>
      simp only [pgTextOpt, Option.mapM_none, pure_eq_ok_iff] at h
      exact h.symm
  | some s =>
      simp only [pgTextOpt, Option.mapM_some, Functor.map, Except.map] at h
      split at h
      · simp at h
      · rename_i u hu
        obtain ⟨-, rfl⟩ := pgText_eq_ok_iff.mp hu
        simpa using h.symm

/-- The writer's UUIDs are those of the runtime. -/
theorem parseUuid_eq_ok_iff {rt : Runtime} {s : String} {u : Uuid} :
    parseUuid rt s = .ok u ↔ rt.parseUuid s = some u := by
  rw [parseUuid]
  cases rt.parseUuid s <;> simp

namespace DbWriter

variable {rt : Runtime} {c : Call} {db db' : Db}

/-! ### The bound rows -/

/-- The columns of the proposed order row that later reports overwrite, and its key. -/
theorem orderRow_spec {row : OrderRow} (h : orderRow rt c = .ok row) :
    rt.parseUuid c.order.clientOrderId = some row.clientOrderId ∧
      row.exchangeOrderId = nullIfEmpty c.report.exchangeOrderId ∧
      row.status = mapStatus c.report.status ∧
      numeric20 rt c.report.cumulativeFilledQty = .ok row.filledQty := by
  simp only [orderRow, bind_eq_ok_iff, pure_eq_ok_iff, sql_eq_ok_iff] at h
  obtain ⟨u, hu, ex, hex, -, -, -, -, -, -, -, -, -, -, -, -, -, -, fq, hfq, -, -, rfl⟩ := h
  exact ⟨parseUuid_eq_ok_iff.mp hu, eq_of_pgTextOpt hex, rfl, hfq⟩

/-- The columns of the bound trade row. -/
theorem tradeRow_spec {t : TradeRow} (h : tradeRow rt c = .ok t) :
    rt.parseUuid c.order.clientOrderId = some t.clientOrderId ∧
      t.accountId = c.order.accountId ∧ t.symbol = c.order.symbol ∧
      t.side = mapSide c.order.side ∧ numeric20 rt c.report.lastFilledQty = .ok t.qty ∧
      t.fillId = c.report.fillId ∧ t.tradeTime = tsFromNs c.report.eventTimeNs ∧
      t.tradeId = deterministicTradeId rt c.report := by
  simp only [tradeRow, bind_eq_ok_iff, pure_eq_ok_iff, sql_eq_ok_iff] at h
  obtain ⟨u, hu, a, ha, s, hs, q, hq, -, -, -, -, -, -, -, -, f, hf, rfl⟩ := h
  exact ⟨parseUuid_eq_ok_iff.mp hu, (pgText_eq_ok_iff.mp ha).2, (pgText_eq_ok_iff.mp hs).2, rfl,
    hq, (pgText_eq_ok_iff.mp hf).2, rfl, rfl⟩

/-- The columns of the proposed position row. -/
theorem positionRow_spec {p : PositionRow} (h : positionRow rt c = .ok p) :
    p.key = (c.order.accountId, c.order.symbol, .both) ∧ numeric20 rt c.qtyDelta = .ok p.qty ∧
      numeric20NullIfZero rt c.report.avgPrice = .ok p.entryPrice ∧ p.snapshotTime = c.now := by
  simp only [positionRow, bind_eq_ok_iff, pure_eq_ok_iff, sql_eq_ok_iff] at h
  obtain ⟨a, ha, s, hs, q, hq, e, he, rfl⟩ := h
  obtain ⟨-, rfl⟩ := pgText_eq_ok_iff.mp ha
  obtain ⟨-, rfl⟩ := pgText_eq_ok_iff.mp hs
  exact ⟨rfl, hq, he, rfl⟩

/-! ### A committed call -/

/-- The exit snapshots a fill appends: one when it has a trigger, none otherwise. -/
def exitRows (rt : Runtime) (c : Call) : Except WriteError (List ExitTagRow) :=
  match callTrigger rt c with
  | some trigger => (exitTagRow rt c trigger).map ([·])
  | none => .ok []

/-- The insert into `trades` on the rows of the table. -/
def insertTrade (t : TradeRow) (trades : List TradeRow) : Except PgError (List TradeRow) :=
  insertOrIgnore TradeRow.fillKey
    (insertUnique TradeRow.idKey (.uniqueViolation "uq_trades_id_symbol")) t trades

/-- The three statements every call issues. -/
structure BaseEffect (rt : Runtime) (c : Call) (db db' : Db) : Prop where
  orders : ∃ row, orderRow rt c = .ok row ∧
    upsert OrderRow.clientOrderId row (fun old => (.ok (mergeOrder row old) : Except WriteError _))
      db.orders = .ok db'.orders
  orderEvents : ∃ ev, orderEventRow rt c = .ok ev ∧ db'.orderEvents = db.orderEvents ++ [ev]
  orderTrainingEvents : ∃ ev, trainingEventRow rt c = .ok ev ∧
    db'.orderTrainingEvents = db.orderTrainingEvents ++ [ev]

/-- The three statements of the fill branch. -/
structure FillEffect (rt : Runtime) (c : Call) (db db' : Db) : Prop where
  trades : ∃ t, tradeRow rt c = .ok t ∧ insertTrade t db.trades = .ok db'.trades
  positions : ∃ p, positionRow rt c = .ok p ∧
    upsert PositionRow.key p (mergePosition p) db.positions = .ok db'.positions
  exits : ∃ xs, exitRows rt c = .ok xs ∧
    db'.orderExitTagSnapshots = db.orderExitTagSnapshots ++ xs

/-- The tables of the fill branch are as they were. -/
structure NoFillEffect (db db' : Db) : Prop where
  trades : db'.trades = db.trades
  positions : db'.positions = db.positions
  exits : db'.orderExitTagSnapshots = db.orderExitTagSnapshots

theorem upsertOrder_ok_iff : upsertOrder rt c db = .ok db' ↔ ∃ row orders,
    orderRow rt c = .ok row ∧
    upsert OrderRow.clientOrderId row (fun old => (.ok (mergeOrder row old) : Except WriteError _))
      db.orders = .ok orders ∧ { db with orders } = db' := by
  simp only [upsertOrder, bind_eq_ok_iff, pure_eq_ok_iff, exists_and_left]

theorem insertFillIdempotent_ok_iff : insertFillIdempotent rt c db = .ok db' ↔ ∃ t trades,
    tradeRow rt c = .ok t ∧ insertTrade t db.trades = .ok trades ∧ { db with trades } = db' := by
  simp only [insertFillIdempotent, insertTrade, bind_eq_ok_iff, pure_eq_ok_iff, sql_eq_ok_iff,
    exists_and_left]

theorem updatePosition_ok_iff : updatePosition rt c db = .ok db' ↔ ∃ p positions,
    positionRow rt c = .ok p ∧
    upsert PositionRow.key p (mergePosition p) db.positions = .ok positions ∧
    { db with positions } = db' := by
  simp only [updatePosition, bind_eq_ok_iff, pure_eq_ok_iff, sql_eq_ok_iff, exists_and_left]

/-- The last statement of the fill branch appends the exit rows of the call. -/
theorem insertExitTag_ok_iff :
    (match callTrigger rt c with
      | some trigger => insertExitTagSnapshot rt c trigger db
      | none => (.ok db : Except WriteError Db)) = .ok db' ↔
    ∃ xs, exitRows rt c = .ok xs ∧
      { db with orderExitTagSnapshots := db.orderExitTagSnapshots ++ xs } = db' := by
  rw [exitRows]
  cases callTrigger rt c with
  | none => simp
  | some trigger =>
      simp only [insertExitTagSnapshot, bind_eq_ok_iff, pure_eq_ok_iff]
      cases exitTagRow rt c trigger <;> simp [Except.map]

/-- **A committed call, table by table.** -/
theorem persistExecution_ok_iff :
    persistExecution rt c db = .ok db' ↔ BaseEffect rt c db db' ∧
      (c.isFill = true ∧ FillEffect rt c db db' ∨ c.isFill = false ∧ NoFillEffect db db') := by
  simp only [persistExecution, appendOrderEvent, appendTrainingEvent, bind_eq_ok_iff,
    pure_eq_ok_iff, upsertOrder_ok_iff]
  constructor
  · rintro ⟨-, ⟨row, orders, hrow, horders, rfl⟩, -, ⟨ev, hev, rfl⟩, -, ⟨tr, htr, rfl⟩, h⟩
    split at h
    · rename_i hfill
      simp only [bind_eq_ok_iff, insertFillIdempotent_ok_iff, updatePosition_ok_iff] at h
      obtain ⟨-, ⟨t, trades, ht, htrades, rfl⟩, -, ⟨p, positions, hp, hpositions, rfl⟩, h⟩ := h
      obtain ⟨xs, hxs, rfl⟩ := insertExitTag_ok_iff.mp h
      exact ⟨⟨⟨row, hrow, horders⟩, ⟨ev, hev, rfl⟩, ⟨tr, htr, rfl⟩⟩,
        Or.inl ⟨hfill, ⟨t, ht, htrades⟩, ⟨p, hp, hpositions⟩, ⟨xs, hxs, rfl⟩⟩⟩
    · rename_i hfill
      rw [pure_eq_ok_iff] at h
      subst h
      exact ⟨⟨⟨row, hrow, horders⟩, ⟨ev, hev, rfl⟩, ⟨tr, htr, rfl⟩⟩,
        Or.inr ⟨by simpa using hfill, rfl, rfl, rfl⟩⟩
  · rintro ⟨⟨⟨row, hrow, horders⟩, ⟨ev, hev, hevents⟩, ⟨tr, htr, htrain⟩⟩, h⟩
    refine ⟨_, ⟨row, _, hrow, horders, rfl⟩, _, ⟨ev, hev, rfl⟩, _, ⟨tr, htr, rfl⟩, ?_⟩
    rcases h with ⟨hfill, ⟨t, ht, htrades⟩, ⟨p, hp, hpositions⟩, ⟨xs, hxs, hexits⟩⟩ |
      ⟨hfill, htrades, hpositions, hexits⟩
    · rw [if_pos hfill]
      simp only [bind_eq_ok_iff, insertFillIdempotent_ok_iff, updatePosition_ok_iff]
      refine ⟨_, ⟨t, _, ht, htrades, rfl⟩, _, ⟨p, _, hp, hpositions, rfl⟩, ?_⟩
      refine insertExitTag_ok_iff.mpr ⟨xs, hxs, ?_⟩
      rw [← hevents, ← htrain, ← hexits]
    · rw [if_neg (by simp [hfill]), pure_eq_ok_iff, ← hevents, ← htrain, ← htrades,
        ← hpositions, ← hexits]

/-! ### When a call commits -/

/-- Every value the call binds fits its column: the id is a UUID, every number fits
`NUMERIC(20, 8)`, no text contains a NUL character. -/
structure Bindable (rt : Runtime) (c : Call) : Prop where
  order : ∃ row, orderRow rt c = .ok row
  event : ∃ ev, orderEventRow rt c = .ok ev
  training : ∃ ev, trainingEventRow rt c = .ok ev
  trade : c.isFill = true → ∃ t, tradeRow rt c = .ok t
  position : c.isFill = true → ∃ p, positionRow rt c = .ok p
  exits : c.isFill = true → ∃ xs, exitRows rt c = .ok xs

/-- The values of the call fit their columns and, for a fill, its trade is already stored
or clashes with none, and the position it moves stays in range. -/
structure Accepted (rt : Runtime) (c : Call) (db : Db) : Prop where
  bindable : Bindable rt c
  trade : c.isFill = true → ∀ t, tradeRow rt c = .ok t →
    conflicts TradeRow.fillKey t db.trades = true ∨ conflicts TradeRow.idKey t db.trades = false
  position : c.isFill = true → ∀ p old, positionRow rt c = .ok p →
    db.position c.order.accountId c.order.symbol = some old →
      ∃ q, Numeric.add 20 old.qty p.qty = .ok q

/-- The upsert of `orders` never fails once its row is bound. -/
theorem upsertOrder_total (row : OrderRow) (orders : List OrderRow) : ∃ orders',
    upsert OrderRow.clientOrderId row (fun old => (.ok (mergeOrder row old) : Except WriteError _))
      orders = .ok orders' :=
  upsert_isOk_iff.mpr fun _ _ => ⟨_, rfl⟩

/-- A position is merged exactly when the sum of the quantities stays in range. -/
theorem mergePosition_ok_iff {p old m : PositionRow} :
    mergePosition p old = .ok m ↔ ∃ q, Numeric.add 20 old.qty p.qty = .ok q ∧
      m = { old with
        qty := q
        entryPrice := nullIfZero p.entryPrice <|> old.entryPrice
        snapshotTime := p.snapshotTime } := by
  simp only [mergePosition, bind_eq_ok_iff, pure_eq_ok_iff]
  exact exists_congr fun q => and_congr_right fun _ => eq_comm

/-- A trade is inserted, or ignored, unless only its exchange trade id clashes. -/
theorem insertTrade_isOk_iff {t : TradeRow} {trades : List TradeRow} :
    (∃ trades', insertTrade t trades = .ok trades') ↔
      conflicts TradeRow.fillKey t trades = true ∨ conflicts TradeRow.idKey t trades = false := by
  rw [insertTrade, insertOrIgnore, insertUnique]
  cases conflicts TradeRow.fillKey t trades <;> cases conflicts TradeRow.idKey t trades <;> simp

/-- The upsert of `positions` succeeds exactly when the stored position stays in range. -/
theorem upsertPosition_isOk_iff {p : PositionRow} (hp : positionRow rt c = .ok p) :
    (∃ positions, upsert PositionRow.key p (mergePosition p) db.positions = .ok positions) ↔
      ∀ old, db.position c.order.accountId c.order.symbol = some old →
        ∃ q, Numeric.add 20 old.qty p.qty = .ok q := by
  rw [upsert_isOk_iff, (positionRow_spec hp).1]
  simp only [mergePosition_ok_iff, Db.position]
  refine forall₂_congr fun old _ => ⟨?_, ?_⟩
  · rintro ⟨m, q, hq, -⟩
    exact ⟨q, hq⟩
  · rintro ⟨q, hq⟩
    exact ⟨_, q, hq, rfl⟩

/-- **A call commits exactly when it is accepted.** -/
theorem persistExecution_isOk_iff :
    (∃ db', persistExecution rt c db = .ok db') ↔ Accepted rt c db := by
  simp only [persistExecution_ok_iff]
  constructor
  · rintro ⟨db', ⟨⟨row, hrow, -⟩, ⟨ev, hev, -⟩, ⟨tr, htr, -⟩⟩, h⟩
    rcases h with ⟨hfill, ⟨t, ht, htrades⟩, ⟨p, hp, hpositions⟩, ⟨xs, hxs, -⟩⟩ | ⟨hfill, -⟩
    · refine ⟨⟨⟨row, hrow⟩, ⟨ev, hev⟩, ⟨tr, htr⟩, fun _ => ⟨t, ht⟩, fun _ => ⟨p, hp⟩,
        fun _ => ⟨xs, hxs⟩⟩, fun _ t' ht' => ?_, fun _ p' old hp' hold => ?_⟩
      · obtain rfl : t = t' := Except.ok.inj (ht.symm.trans ht')
        exact insertTrade_isOk_iff.mp ⟨_, htrades⟩
      · obtain rfl : p = p' := Except.ok.inj (hp.symm.trans hp')
        exact (upsertPosition_isOk_iff hp).mp ⟨_, hpositions⟩ old hold
    · refine ⟨⟨⟨row, hrow⟩, ⟨ev, hev⟩, ⟨tr, htr⟩, ?_, ?_, ?_⟩, ?_, ?_⟩ <;>
        exact fun hfill' => absurd hfill' (by simp [hfill])
  · rintro ⟨⟨⟨row, hrow⟩, ⟨ev, hev⟩, ⟨tr, htr⟩, htrade, hposition, hexits⟩, hclash, hrange⟩
    obtain ⟨orders, horders⟩ := upsertOrder_total row db.orders
    cases hfill : c.isFill with
    | false =>
        exact ⟨{ db with orders := orders, orderEvents := _, orderTrainingEvents := _ },
          ⟨⟨row, hrow, horders⟩, ⟨ev, hev, rfl⟩, ⟨tr, htr, rfl⟩⟩, Or.inr ⟨rfl, rfl, rfl, rfl⟩⟩
    | true =>
        obtain ⟨t, ht⟩ := htrade hfill
        obtain ⟨p, hp⟩ := hposition hfill
        obtain ⟨xs, hxs⟩ := hexits hfill
        obtain ⟨trades, htrades⟩ := insertTrade_isOk_iff.mpr (hclash hfill t ht)
        obtain ⟨positions, hpositions⟩ :=
          (upsertPosition_isOk_iff hp).mpr fun old hold => hrange hfill p old hp hold
        exact ⟨⟨orders, _, _, trades, positions, _⟩,
          ⟨⟨row, hrow, horders⟩, ⟨ev, hev, rfl⟩, ⟨tr, htr, rfl⟩⟩,
          Or.inl ⟨rfl, ⟨t, ht, htrades⟩, ⟨p, hp, hpositions⟩, ⟨xs, hxs, rfl⟩⟩⟩

/-! ### The time of the transaction -/

/-- The order row of a later delivery differs in its two time stamps. -/
theorem orderRow_at {row : OrderRow} (t : ℤ) (h : orderRow rt c = .ok row) :
    orderRow rt { c with now := t } = .ok { row with createdAt := t, updatedAt := t } := by
  simp only [orderRow, callMeta, bind_eq_ok_iff, pure_eq_ok_iff, sql_eq_ok_iff] at h ⊢
  obtain ⟨u, hu, ex, hex, a, ha, s, hs, q, hq, p, hp, sp, hsp, tp, htp, tags, htags, fq, hfq,
    ap, hap, rfl⟩ := h
  exact ⟨u, hu, ex, hex, a, ha, s, hs, q, hq, p, hp, sp, hsp, tp, htp, tags, htags, fq, hfq,
    ap, hap, rfl⟩

/-- The position row of a later delivery differs in its time stamp. -/
theorem positionRow_at {p : PositionRow} (t : ℤ) (h : positionRow rt c = .ok p) :
    positionRow rt { c with now := t } = .ok { p with snapshotTime := t } := by
  simp only [positionRow, Call.qtyDelta, bind_eq_ok_iff, pure_eq_ok_iff, sql_eq_ok_iff] at h ⊢
  obtain ⟨a, ha, s, hs, q, hq, e, he, rfl⟩ := h
  exact ⟨a, ha, s, hs, q, hq, e, he, rfl⟩

/-- Whether the values of a call fit their columns does not depend on its time. -/
theorem bindable_at (t : ℤ) (h : Bindable rt c) : Bindable rt { c with now := t } where
  order := h.order.elim fun _ hrow => ⟨_, orderRow_at t hrow⟩
  event := h.event
  training := h.training
  trade := h.trade
  position hfill := (h.position hfill).elim fun _ hp => ⟨_, positionRow_at t hp⟩
  exits := h.exits

end DbWriter

end HftPlatform
