import HftPlatform.Lib.Float8
import HftPlatform.WriterSpec

/-!
# The order executor and its repositories

`services/execution_router/order_executor/src/main.rs` and the statements of
`libs/rust/hft_store/src/repos` that it issues. They are a second implementation of the
writer, over tables with the columns and unique keys that these statements name; prices and
quantities are `NUMERIC(20, 8)`, as in the migrations. Its `positions` are keyed by account
and symbol, its `trades` by fill id.

## Main results

* `fillEffect_of_ok`: what a committed fill does to `trades` and `positions`.
* `persistReport_isOk_iff`: a report commits exactly when it is `Accepted`.
-/

namespace HftPlatform.OrderExecutor

open Lib

/-- A row of `orders`. -/
structure OrderRow where
  clientOrderId : Uuid
  accountId : String
  symbol : String
  side : String
  type : String
  qty : Numeric
  price : Numeric
  status : String
  exchangeOrderId : String
  strategyVersion : String
  ackAt : Option ℤ
  doneAt : Option ℤ
  updatedAt : ℤ
  deriving DecidableEq, Repr

/-- A row of `order_events`. -/
structure OrderEventRow where
  clientOrderId : Uuid
  eventType : String
  payload : ExecutionReport
  eventTime : ℤ
  deriving DecidableEq, Repr

/-- A row of `trades`. -/
structure TradeRow where
  tradeId : ℕ
  clientOrderId : Uuid
  symbol : String
  accountId : String
  price : Numeric
  qty : Numeric
  fee : Numeric
  feeAsset : String
  isMaker : Bool
  tradeTime : ℤ
  fillId : String
  deriving DecidableEq, Repr

/-- A row of `positions`. -/
structure PositionRow where
  accountId : String
  symbol : String
  qty : Numeric
  avgPrice : Option Numeric
  realizedPnl : Numeric := 0
  updatedAt : ℤ
  deriving DecidableEq, Repr

/-- The conflict key of `positions`. -/
def PositionRow.key (p : PositionRow) : String × String := (p.accountId, p.symbol)

/-- The tables of the order executor. -/
structure Db where
  orders : List OrderRow := []
  orderEvents : List OrderEventRow := []
  trades : List TradeRow := []
  positions : List PositionRow := []
  deriving DecidableEq, Repr

/-- The position of an account in a symbol. -/
def Db.position (db : Db) (accountId symbol : String) : Option PositionRow :=
  lookup PositionRow.key (accountId, symbol) db.positions

/-- What one call of `persist_report` reads besides the report: a fresh id for reports whose
order id is no UUID, the clock of the service, and the `now()` of its transaction. -/
structure Delivery where
  freshUuid : Uuid
  clock : ℤ
  now : ℤ

section Statements

variable (rt : Runtime)

/-- A decimal of the report, or zero where the double has none. -/
def decimal20 (x : Binary64) : Except PgError Numeric :=
  Numeric.ofDecimal 20 8 ((rt.decimalFromF64 x).getD 0)

/-- The time stamps that `upsert_order` derives from the status. -/
def ackAndDone (clock : ℤ) (status : ℤ) : Option ℤ × Option ℤ :=
  if status = ExecutionStatus.new.code ∨ status = ExecutionStatus.partiallyFilled.code then
    (some clock, none)
  else if status = ExecutionStatus.filled.code ∨ status = ExecutionStatus.canceled.code ∨
      status = ExecutionStatus.rejected.code ∨ status = ExecutionStatus.expired.code then
    (none, some clock)
  else (none, none)

def orderRow (clientOrderId : Uuid) (d : Delivery) (report : ExecutionReport) :
    Except PgError OrderRow := do
  let stamps := ackAndDone d.clock report.status
  return {
    clientOrderId
    accountId := ← pgText report.accountId
    symbol := ← pgText report.symbol
    side := if report.side = 1 then "BUY" else "SELL"
    type := "MARKET"
    qty := ← decimal20 rt report.cumulativeFilledQty
    price := ← decimal20 rt report.avgPrice
    status := toString report.status
    exchangeOrderId := ← pgText report.exchangeOrderId
    strategyVersion := ← pgText report.strategyId
    ackAt := stamps.1
    doneAt := stamps.2
    updatedAt := d.now }

/-- The `DO UPDATE SET` of the upsert of `orders`. -/
def mergeOrder (excluded old : OrderRow) : OrderRow :=
  { old with
    status := excluded.status
    exchangeOrderId := excluded.exchangeOrderId
    ackAt := old.ackAt <|> excluded.ackAt
    doneAt := old.doneAt <|> excluded.doneAt
    updatedAt := excluded.updatedAt }

def upsertOrder (clientOrderId : Uuid) (d : Delivery) (report : ExecutionReport) (db : Db) :
    Except PgError Db := do
  let row ← orderRow rt clientOrderId d report
  let orders ← upsert OrderRow.clientOrderId row (fun old => .ok (mergeOrder row old)) db.orders
  return { db with orders }

def orderEventRow (clientOrderId : Uuid) (eventType : String) (report : ExecutionReport) :
    Except PgError OrderEventRow := do
  let _ ← (reportStrings report).mapM pgText
  return {
    clientOrderId, eventType, payload := report, eventTime := tsFromNs report.eventTimeNs }

def insertOrderEvent (clientOrderId : Uuid) (eventType : String) (report : ExecutionReport)
    (db : Db) : Except PgError Db := do
  let row ← orderEventRow clientOrderId eventType report
  return { db with orderEvents := db.orderEvents ++ [row] }

/-- The digits of the exchange order id read as an `i64`, zero when there are none or too
many. -/
def exchangeTradeId (exchangeOrderId : String) : ℕ :=
  let n := (exchangeOrderId.toList.filter Char.isDigit).foldl (fun n c => 10 * n + (c.toNat - 48)) 0
  if n < 2 ^ 63 then n else 0

def tradeRow (clientOrderId : Uuid) (report : ExecutionReport) : Except PgError TradeRow := do
  return {
    tradeId := exchangeTradeId report.exchangeOrderId
    clientOrderId
    symbol := ← pgText report.symbol
    accountId := ← pgText report.accountId
    price := ← decimal20 rt report.lastFilledPrice
    qty := ← decimal20 rt report.lastFilledQty
    fee := ← decimal20 rt report.commission
    feeAsset := ← pgText report.commissionAsset
    isMaker := false
    tradeTime := tsFromNs report.eventTimeNs
    fillId := ← pgText report.fillId }

/-- `INSERT … ON CONFLICT (fill_id) DO NOTHING` on the rows of the table. -/
def insertTradeRow (t : TradeRow) (trades : List TradeRow) : List TradeRow :=
  if conflicts TradeRow.fillId t trades then trades else trades ++ [t]

def insertTrade (clientOrderId : Uuid) (report : ExecutionReport) (db : Db) :
    Except PgError Db := do
  let row ← tradeRow rt clientOrderId report
  return { db with trades := insertTradeRow row db.trades }

/-- The signed quantity by which a report moves the position. -/
def qtyDelta (report : ExecutionReport) : Binary64 :=
  rt.fp.mul report.lastFilledQty (if report.side = 1 then rt.fp.lit 1 else rt.fp.lit (-1))

def positionRow (d : Delivery) (report : ExecutionReport) : Except PgError PositionRow := do
  return {
    accountId := ← pgText report.accountId
    symbol := ← pgText report.symbol
    qty := ← numeric20 rt (qtyDelta rt report)
    avgPrice := some (← numeric20 rt report.lastFilledPrice)
    updatedAt := d.now }

/-- `positions.qty + $3`, in double precision. -/
def qtySum (report : ExecutionReport) (qty : Numeric) : Except PgError Binary64 :=
  Float8.add rt.fp (qty.toFloat8 rt.fp 8) (qtyDelta rt report)

/-- `positions.qty * positions.avg_price + $3 * $4`, in double precision. -/
def weightedSum (report : ExecutionReport) (qty : Numeric) (avgPrice : Option Numeric) :
    Except PgError (Option Binary64) := do
  let fill ← Float8.mul rt.fp (qtyDelta rt report) report.lastFilledPrice
  avgPrice.mapM fun a => do
    let held ← Float8.mul rt.fp (qty.toFloat8 rt.fp 8) (a.toFloat8 rt.fp 8)
    Float8.add rt.fp held fill

/-- The new `qty` and `avg_price` of a stored position. -/
def positionAfter (report : ExecutionReport) (qty : Numeric) (avgPrice : Option Numeric) :
    Except PgError (Numeric × Option Numeric) := do
  let sum ← qtySum rt report qty
  let newQty ← numeric20 rt sum
  let weighted ← weightedSum rt report qty avgPrice
  let newAvg ← if sum = .zero then .ok none else
    weighted.mapM fun w => do numeric20 rt (← Float8.div rt.fp w sum)
  return (newQty, newAvg)

/-- The `DO UPDATE SET` of the upsert of `positions`. -/
def mergePosition (d : Delivery) (report : ExecutionReport) (old : PositionRow) :
    Except PgError PositionRow := do
  let new ← positionAfter rt report old.qty old.avgPrice
  return { old with qty := new.1, avgPrice := new.2, updatedAt := d.now }

def updatePosition (d : Delivery) (report : ExecutionReport) (db : Db) : Except PgError Db := do
  let row ← positionRow rt d report
  let positions ← upsert PositionRow.key row (mergePosition rt d report) db.positions
  return { db with positions }

/-- The id under which a report's rows are stored. -/
def reportUuid (d : Delivery) (report : ExecutionReport) : Uuid :=
  (rt.parseUuid report.clientOrderId).getD d.freshUuid

/-- One transaction of the order executor; an error anywhere rolls all of it back. -/
def persistReport (d : Delivery) (report : ExecutionReport) (db : Db) : Except PgError Db := do
  let db ← upsertOrder rt (reportUuid rt d report) d report db
  let db ← insertOrderEvent (reportUuid rt d report) "EXECUTION_REPORT" report db
  if isFillLike report then
    let db ← insertTrade rt (reportUuid rt d report) report db
    updatePosition rt d report db
  else return db

end Statements

/-! ### What a committed report does -/

variable {rt : Runtime} {d d' : Delivery} {report : ExecutionReport} {db db' : Db}

/-- The columns of the proposed position. -/
theorem positionRow_spec {p : PositionRow} (h : positionRow rt d report = .ok p) :
    p.key = (report.accountId, report.symbol) ∧ numeric20 rt (qtyDelta rt report) = .ok p.qty ∧
      (∃ a, numeric20 rt report.lastFilledPrice = .ok a ∧ p.avgPrice = some a) ∧
      p.updatedAt = d.now := by
  simp only [positionRow, bind_eq_ok_iff, pure_eq_ok_iff] at h
  obtain ⟨a, ha, s, hs, q, hq, e, he, rfl⟩ := h
  obtain ⟨-, rfl⟩ := pgText_eq_ok_iff.mp ha
  obtain ⟨-, rfl⟩ := pgText_eq_ok_iff.mp hs
  exact ⟨rfl, hq, ⟨e, he, rfl⟩, rfl⟩

/-- A position is merged exactly when its new values fit their columns. -/
theorem mergePosition_ok_iff {old m : PositionRow} :
    mergePosition rt d report old = .ok m ↔
      ∃ new, positionAfter rt report old.qty old.avgPrice = .ok new ∧
        m = { old with qty := new.1, avgPrice := new.2, updatedAt := d.now } := by
  simp only [mergePosition, bind_eq_ok_iff, pure_eq_ok_iff]
  exact exists_congr fun new => and_congr_right fun _ => eq_comm

/-- Merging keeps the key of the position. -/
theorem key_of_mergePosition {old m : PositionRow} (h : mergePosition rt d report old = .ok m) :
    m.key = old.key := by
  obtain ⟨new, -, rfl⟩ := mergePosition_ok_iff.mp h
  rfl

/-- The statements of a fill, on the tables that record fills. -/
structure FillEffect (rt : Runtime) (d : Delivery) (report : ExecutionReport) (db db' : Db) :
    Prop where
  trades : ∃ t, tradeRow rt (reportUuid rt d report) report = .ok t ∧
    db'.trades = insertTradeRow t db.trades
  positions : ∃ p, positionRow rt d report = .ok p ∧
    upsert PositionRow.key p (mergePosition rt d report) db.positions = .ok db'.positions

/-- The values of the report fit their columns and, for a fill, so do the new values of the
position it moves. -/
structure Accepted (rt : Runtime) (d : Delivery) (report : ExecutionReport) (db : Db) :
    Prop where
  order : ∃ row, orderRow rt (reportUuid rt d report) d report = .ok row
  event : ∃ ev, orderEventRow (reportUuid rt d report) "EXECUTION_REPORT" report = .ok ev
  trade : isFillLike report = true →
    ∃ t, tradeRow rt (reportUuid rt d report) report = .ok t
  position : isFillLike report = true → ∃ p, positionRow rt d report = .ok p
  range : isFillLike report = true → ∀ old, db.position report.accountId report.symbol = some old →
    ∃ new, positionAfter rt report old.qty old.avgPrice = .ok new

/-- A committed fill, on the tables that record fills. -/
theorem fillEffect_of_ok (hfill : isFillLike report = true)
    (h : persistReport rt d report db = .ok db') : FillEffect rt d report db db' := by
  simp only [persistReport, hfill, if_true, upsertOrder, insertOrderEvent, insertTrade,
    updatePosition, bind_eq_ok_iff, pure_eq_ok_iff] at h
  obtain ⟨-, ⟨row, -, orders, -, rfl⟩, -, ⟨ev, -, rfl⟩, -, ⟨t, ht, rfl⟩, p, hp, positions,
    hpositions, rfl⟩ := h
  exact ⟨⟨t, ht, rfl⟩, ⟨p, hp, hpositions⟩⟩

/-- The upsert of `positions` succeeds exactly when the new values of the stored position fit
their columns. -/
theorem upsertPosition_isOk_iff {p : PositionRow} (hp : positionRow rt d report = .ok p) :
    (∃ positions, upsert PositionRow.key p (mergePosition rt d report) db.positions =
        .ok positions) ↔
      ∀ old, db.position report.accountId report.symbol = some old →
        ∃ new, positionAfter rt report old.qty old.avgPrice = .ok new := by
  rw [upsert_isOk_iff, (positionRow_spec hp).1]
  simp only [mergePosition_ok_iff, Db.position]
  refine forall₂_congr fun old _ => ⟨?_, ?_⟩
  · rintro ⟨m, new, hnew, -⟩
    exact ⟨new, hnew⟩
  · rintro ⟨new, hnew⟩
    exact ⟨_, new, hnew, rfl⟩

/-- **A report commits exactly when it is accepted.** -/
theorem persistReport_isOk_iff :
    (∃ db', persistReport rt d report db = .ok db') ↔ Accepted rt d report db := by
  simp only [persistReport, upsertOrder, insertOrderEvent, bind_eq_ok_iff, pure_eq_ok_iff]
  constructor
  · rintro ⟨db', -, ⟨row, hrow, orders, -, rfl⟩, -, ⟨ev, hev, rfl⟩, h⟩
    cases hfill : isFillLike report with
    | false => exact ⟨⟨row, hrow⟩, ⟨ev, hev⟩, by simp [hfill], by simp [hfill], by simp [hfill]⟩
    | true =>
        rw [if_pos hfill] at h
        simp only [insertTrade, updatePosition, bind_eq_ok_iff, pure_eq_ok_iff] at h
        obtain ⟨-, ⟨t, ht, rfl⟩, p, hp, positions, hpositions, rfl⟩ := h
        exact ⟨⟨row, hrow⟩, ⟨ev, hev⟩, fun _ => ⟨t, ht⟩, fun _ => ⟨p, hp⟩,
          fun _ => (upsertPosition_isOk_iff hp).mp ⟨_, hpositions⟩⟩
  · rintro ⟨⟨row, hrow⟩, ⟨ev, hev⟩, htrade, hposition, hrange⟩
    obtain ⟨orders, horders⟩ : ∃ orders, upsert OrderRow.clientOrderId row
        (fun old => (.ok (mergeOrder row old) : Except PgError _)) db.orders = .ok orders :=
      upsert_isOk_iff.mpr fun _ _ => ⟨_, rfl⟩
    cases hfill : isFillLike report with
    | false =>
        exact ⟨_, _, ⟨row, hrow, orders, horders, rfl⟩, _, ⟨ev, hev, rfl⟩, rfl⟩
    | true =>
        obtain ⟨t, ht⟩ := htrade hfill
        obtain ⟨p, hp⟩ := hposition hfill
        obtain ⟨positions, hpositions⟩ :=
          (upsertPosition_isOk_iff hp).mpr fun old hold => hrange hfill old hold
        refine ⟨⟨orders, db.orderEvents ++ [ev], insertTradeRow t db.trades, positions⟩, _,
          ⟨row, hrow, orders, horders, rfl⟩, _, ⟨ev, hev, rfl⟩, ?_⟩
        simp only [if_true, insertTrade, updatePosition, bind_eq_ok_iff, pure_eq_ok_iff]
        exact ⟨_, ⟨t, ht, rfl⟩, p, hp, positions, hpositions, rfl⟩

/-- Whether a report is accepted does not depend on the delivery. -/
theorem accepted_at (d' : Delivery) (h : Accepted rt d report db) : Accepted rt d' report db := by
  obtain ⟨⟨row, hrow⟩, ⟨ev, hev⟩, htrade, hposition, hrange⟩ := h
  refine ⟨?_, ?_, fun hfill => ?_, fun hfill => ?_, hrange⟩
  · simp only [orderRow, bind_eq_ok_iff, pure_eq_ok_iff] at hrow ⊢
    obtain ⟨a, ha, s, hs, q, hq, p, hp, e, he, v, hv, -⟩ := hrow
    exact ⟨_, a, ha, s, hs, q, hq, p, hp, e, he, v, hv, rfl⟩
  · simp only [orderEventRow, bind_eq_ok_iff, pure_eq_ok_iff] at hev ⊢
    obtain ⟨x, hx, -⟩ := hev
    exact ⟨_, x, hx, rfl⟩
  · obtain ⟨t, ht⟩ := htrade hfill
    simp only [tradeRow, bind_eq_ok_iff, pure_eq_ok_iff] at ht ⊢
    obtain ⟨s, hs, a, ha, p, hp, q, hq, f, hf, fa, hfa, i, hi, -⟩ := ht
    exact ⟨_, s, hs, a, ha, p, hp, q, hq, f, hf, fa, hfa, i, hi, rfl⟩
  · obtain ⟨p, hp⟩ := hposition hfill
    simp only [positionRow, bind_eq_ok_iff, pure_eq_ok_iff] at hp ⊢
    obtain ⟨a, ha, s, hs, q, hq, e, he, -⟩ := hp
    exact ⟨_, a, ha, s, hs, q, hq, e, he, rfl⟩

end HftPlatform.OrderExecutor
