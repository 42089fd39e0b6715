import HftPlatform.Schema
import HftPlatform.Lib.Txn

/-!
# The router's database writer

`services/execution_router/src/store/writer.rs`. A call of `persist_execution` opens one
transaction and issues, in order, the upsert of `orders`, the inserts into `order_events`
and `order_training_events` and, for a fill, the insert into `trades`, the upsert of
`positions` and the insert into `order_exit_tag_snapshots`. Each statement here first binds
its row, which fails when a value does not fit its column, and then adds it to its table.
-/

namespace HftPlatform

open Lib

/-- What a call of the writer fails with: an id that is no UUID, or a statement's error
under the context the writer gives it. -/
inductive WriteError
  | invalidUuid (value : String)
  | statement (context : String) (e : PgError)
  deriving DecidableEq, Repr

/-! ### Mapping wire codes to column labels -/

/-- The side under its name in the database. -/
def mapSide (side : ℤ) : DbOrderSide :=
  if side = OrderSide.sell.code then .sell else .buy

/-- The type under its name in the database. -/
def mapOrderType (t : ℤ) : DbOrderType :=
  if t = OrderType.limit.code then .limit
  else if t = OrderType.stopMarket.code then .stopMarket
  else if t = OrderType.stopLimit.code then .stopLimit
  else .market

/-- The time in force under its name in the database. -/
def mapTif (tif : ℤ) : DbTimeInForce :=
  if tif = TimeInForce.ioc.code then .ioc
  else if tif = TimeInForce.fok.code then .fok
  else if tif = TimeInForce.gtx.code then .gtx
  else .gtc

/-- The status that an order has after a report. -/
def mapStatus (status : ℤ) : DbOrderStatus :=
  if status = ExecutionStatus.partiallyFilled.code then .partiallyFilled
  else if status = ExecutionStatus.filled.code then .filled
  else if status = ExecutionStatus.rejected.code then .rejected
  else if status = ExecutionStatus.canceled.code then .canceled
  else if status = ExecutionStatus.expired.code then .expired
  else .new

/-- The event that a report is recorded as. -/
def mapEventType (status : ℤ) : DbOrderEventType :=
  if status = ExecutionStatus.partiallyFilled.code then .partiallyFilled
  else if status = ExecutionStatus.filled.code then .filled
  else if status = ExecutionStatus.rejected.code then .rejected
  else if status = ExecutionStatus.canceled.code then .canceled
  else if status = ExecutionStatus.expired.code then .expired
  else .acknowledged

/-! ### Binding values to columns -/

/-- A `TEXT` value; the database stores no NUL character. -/
def pgText (s : String) : Except PgError String :=
  if s.toList.contains '\x00' then .error .invalidByteSequence else .ok s

/-- `NULLIF(s, '')`. -/
def nullIfEmpty (s : String) : Option String := if s = "" then none else some s

/-- A nullable `TEXT` value. -/
def pgTextOpt (s : Option String) : Except PgError (Option String) := s.mapM pgText

/-- A `NUMERIC(20, 8)` value. -/
def numeric20 (rt : Runtime) (x : Binary64) : Except PgError Numeric :=
  Numeric.ofFloat8 rt.castDigits 20 8 x

/-- `NULLIF(x, 0)` in a `NUMERIC(20, 8)` column. -/
def numeric20NullIfZero (rt : Runtime) (x : Binary64) : Except PgError (Option Numeric) :=
  if x = .zero then .ok none else return some (← numeric20 rt x)

/-- The strings of a report, which its JSON text contains. -/
def reportStrings (r : ExecutionReport) : List String :=
  [r.accountId, r.symbol, r.clientOrderId, r.exchangeOrderId, r.commissionAsset, r.rejectReason,
    r.traceId, r.fillId, r.strategyId, r.signalId]

/-- Nanoseconds to the microseconds of a `TIMESTAMPTZ`, counted from 2000-01-01 and
truncated toward zero. -/
def tsFromNs (ns : ℤ) : ℤ := Int.tdiv (ns - 946684800000000000) 1000

section Writer

variable (rt : Runtime)

/-- The id in a text; other texts fail the call. -/
def parseUuid (value : String) : Except WriteError Uuid :=
  match rt.parseUuid value with
  | some u => .ok u
  | none => .error (.invalidUuid value)

/-- The id in a text, if it is one. -/
def parseOptionalUuid (value : String) : Option Uuid :=
  if value = "" then none else rt.parseUuid value

/-- A hash of what a report says of its fill. The fill id is not in it. -/
def deterministicTradeId (r : ExecutionReport) : ℕ :=
  rt.hashFill r.clientOrderId r.symbol r.eventTimeNs r.lastFilledQty r.lastFilledPrice % 2 ^ 63

/-- What a reason says as JSON; nothing for other texts. -/
def parseDecisionMeta (reason : String) : DecisionMeta :=
  if trim reason = "" then {} else (rt.decisionMeta reason).getD {}

/-- The reason as it is stored: as JSON, or as the text that it is. -/
def decisionMetaJson (reason : String) : DecisionMetaJson :=
  if trim reason = "" then .empty
  else match rt.parseJson reason with
    | some value => .parsed value
    | none => .rawDecisionReason reason

/-- A `decision_meta` value bound as `jsonb`. -/
def pgDecisionMeta : DecisionMetaJson → Except PgError DecisionMetaJson
  | .empty => .ok .empty
  | .parsed value =>
      if rt.jsonbAccepts value then .ok (.parsed value) else .error .invalidByteSequence
  | .rawDecisionReason reason => return .rawDecisionReason (← pgText reason)

end Writer

/-- The exit that the reason names, under either of its two names. -/
def normalizeExitKind (m : DecisionMeta) : Option ExitTrigger := do
  let raw := toAsciiUppercase (trim (← m.exitKind))
  if raw = "STOP_LOSS" ∨ raw = "SL" then some .stopLoss
  else if raw = "TAKE_PROFIT" ∨ raw = "TP" then some .takeProfit
  else none

/-- The exit of a report: the one that is named, or the one whose price an order that reduces
reached. -/
def detectExitTrigger (order : OrderCommand) (report : ExecutionReport) (m : DecisionMeta) :
    Option ExitTrigger :=
  match normalizeExitKind m with
  | some explicit => some explicit
  | none =>
      if !order.reduceOnly then none
      else do
        let tp ← m.takeProfitPrice
        let sl ← if order.stopPrice.gt .zero then some order.stopPrice else none
        let px := report.lastFilledPrice
        if order.side = OrderSide.sell.code then
          if tp.le px then some .takeProfit
          else if px.le sl then some .stopLoss
          else none
        else
          if px.le tp then some .takeProfit
          else if sl.le px then some .stopLoss
          else none

/-- The tags of the reason. -/
def coinTagsJson (m : DecisionMeta) : List String := m.coinTags.getD []

/-- The label of a training event, and its reason. -/
def outcomeFromExit (report : ExecutionReport) (exitKind : Option ExitTrigger) :
    OutcomeLabel × Option String :=
  match exitKind with
  | some .takeProfit => (.win, some "take_profit_hit")
  | some .stopLoss => (.loss, some "stop_loss_hit")
  | none =>
      if report.status = ExecutionStatus.rejected.code then (.unknown, some "order_rejected")
      else if report.status = ExecutionStatus.canceled.code then (.unknown, some "order_canceled")
      else (.unknown, none)

/-- The arguments of one call of `persist_execution`, and the `now()` of its transaction. -/
structure Call where
  order : OrderCommand
  report : ExecutionReport
  executionMode : String
  exchange : String
  now : ℤ
  deriving DecidableEq, Repr

/-- A call as the router makes it in PAPER mode. -/
def Call.paper (now : ℤ) (order : OrderCommand) (report : ExecutionReport) : Call :=
  { order, report, executionMode := "PAPER", exchange := "BINANCE", now }

/-- The call takes the fill branch of `persist_execution`. -/
def Call.isFill (c : Call) : Bool := isFillLike c.report && c.report.lastFilledQty.gt .zero

/-- The signed quantity by which a fill moves the position. -/
def Call.qtyDelta (c : Call) : Binary64 :=
  if c.order.side = OrderSide.buy.code then c.report.lastFilledQty else c.report.lastFilledQty.neg

namespace DbWriter

variable (rt : Runtime) (c : Call)

/-- The decision metadata of the call's order. -/
def callMeta : DecisionMeta := parseDecisionMeta rt c.order.decisionReason

/-- The exit trigger of the call. -/
def callTrigger : Option ExitTrigger := detectExitTrigger c.order c.report (callMeta rt c)

/-! ### The rows the statements bind -/

/-- The context of a statement's error. -/
def sql {α : Type} (context : String) (x : Except PgError α) : Except WriteError α :=
  x.mapError (.statement context)

/-- The row that is proposed for the order of a call. -/
def orderRow : Except WriteError OrderRow := do
  let clientOrderId ← parseUuid rt c.order.clientOrderId
  sql "upsert orders failed" do
    return {
      clientOrderId
      exchangeOrderId := ← pgTextOpt (nullIfEmpty c.report.exchangeOrderId)
      accountId := ← pgText c.order.accountId
      symbol := ← pgText c.order.symbol
      side := mapSide c.order.side
      type := mapOrderType c.order.type
      tif := mapTif c.order.tif
      qty := ← numeric20 rt c.order.qty
      price := ← numeric20NullIfZero rt c.order.price
      stopPrice := ← numeric20NullIfZero rt c.order.stopPrice
      takeProfitPrice := ← numeric20NullIfZero rt ((callMeta rt c).takeProfitPrice.getD .zero)
      coinTags := ← (coinTagsJson (callMeta rt c)).mapM pgText
      status := mapStatus c.report.status
      filledQty := ← numeric20 rt c.report.cumulativeFilledQty
      avgPrice := ← numeric20NullIfZero rt c.report.avgPrice
      reduceOnly := c.order.reduceOnly
      traceId := parseOptionalUuid rt c.order.traceId
      createdAt := c.now
      updatedAt := c.now }

/-- The event of a call. -/
def orderEventRow : Except WriteError OrderEventRow := do
  let clientOrderId ← parseUuid rt c.order.clientOrderId
  sql "append order_events failed" do
    let _ ← (reportStrings c.report).mapM pgText
    return {
      clientOrderId
      eventType := mapEventType c.report.status
      filledQty := ← numeric20NullIfZero rt c.report.lastFilledQty
      price := ← numeric20NullIfZero rt c.report.lastFilledPrice
      commission := ← numeric20NullIfZero rt c.report.commission
      commissionAsset := ← pgTextOpt (nullIfEmpty c.report.commissionAsset)
      eventTime := tsFromNs c.report.eventTimeNs
      raw := c.report }

/-- The training event of a call. -/
def trainingEventRow : Except WriteError TrainingEventRow := do
  let clientOrderId ← parseUuid rt c.order.clientOrderId
  let outcome := outcomeFromExit c.report (callTrigger rt c)
  sql "insert order_training_events failed" do
    return {
      clientOrderId
      accountId := ← pgText c.order.accountId
      symbol := ← pgText c.order.symbol
      side := mapSide c.order.side
      orderStatus := mapStatus c.report.status
      executionMode := ← pgText (toAsciiUppercase c.executionMode)
      exchange := ← pgText (toAsciiUppercase c.exchange)
      strategyId := ← pgTextOpt (nullIfEmpty c.order.strategyId)
      signalId := ← pgTextOpt (nullIfEmpty c.order.signalId)
      exitKind := callTrigger rt c
      outcomeLabel := outcome.1
      outcomeReason := outcome.2
      coinTags := ← (coinTagsJson (callMeta rt c)).mapM pgText
      decisionMeta := ← pgDecisionMeta rt (decisionMetaJson rt c.order.decisionReason)
      filledQty := ← numeric20NullIfZero rt c.report.lastFilledQty
      fillPrice := ← numeric20NullIfZero rt c.report.lastFilledPrice
      traceId := parseOptionalUuid rt c.order.traceId
      eventTime := tsFromNs c.report.eventTimeNs }

/-- The trade of a call that is a fill. -/
def tradeRow : Except WriteError TradeRow := do
  let clientOrderId ← parseUuid rt c.order.clientOrderId
  sql "insert fills(trades) failed" do
    return {
      tradeId := deterministicTradeId rt c.report
      clientOrderId
      accountId := ← pgText c.order.accountId
      symbol := ← pgText c.order.symbol
      side := mapSide c.order.side
      qty := ← numeric20 rt c.report.lastFilledQty
      price := ← numeric20 rt c.report.lastFilledPrice
      quoteQty := ← numeric20 rt (rt.fp.mul c.report.lastFilledQty c.report.lastFilledPrice)
      commission := ← numeric20 rt c.report.commission
      commissionAsset := ← pgTextOpt (nullIfEmpty c.report.commissionAsset)
      tradeTime := tsFromNs c.report.eventTimeNs
      fillId := ← pgText c.report.fillId }

/-- The row that is proposed for the position of a fill. -/
def positionRow : Except WriteError PositionRow :=
  sql "update positions failed" do
    return {
      accountId := ← pgText c.order.accountId
      symbol := ← pgText c.order.symbol
      side := .both
      qty := ← numeric20 rt c.qtyDelta
      entryPrice := ← numeric20NullIfZero rt c.report.avgPrice
      snapshotTime := c.now }

/-- The snapshot of a fill that completes an exit. -/
def exitTagRow (trigger : ExitTrigger) : Except WriteError ExitTagRow := do
  let clientOrderId ← parseUuid rt c.order.clientOrderId
  sql "insert order_exit_tag_snapshots failed" do
    return {
      clientOrderId
      accountId := ← pgText c.order.accountId
      symbol := ← pgText c.order.symbol
      exitTrigger := trigger
      exitPrice := ← numeric20 rt c.report.lastFilledPrice
      coinTags := ← (coinTagsJson (callMeta rt c)).mapM pgText
      traceId := parseOptionalUuid rt c.order.traceId
      eventTime := tsFromNs c.report.eventTimeNs }

/-! ### The statements -/

/-- The `DO UPDATE SET` of the upsert of `orders`; `excluded` is the row proposed. -/
def mergeOrder (excluded old : OrderRow) : OrderRow :=
  { old with
    exchangeOrderId := excluded.exchangeOrderId
    takeProfitPrice := excluded.takeProfitPrice <|> old.takeProfitPrice
    coinTags := if excluded.coinTags.length > 0 then excluded.coinTags else old.coinTags
    status := excluded.status
    filledQty := excluded.filledQty
    avgPrice := excluded.avgPrice
    updatedAt := excluded.updatedAt }

/-- The order is inserted, or merged into the row that is there. -/
def upsertOrder (db : Db) : Except WriteError Db := do
  let row ← orderRow rt c
  let orders ← upsert OrderRow.clientOrderId row (fun old => .ok (mergeOrder row old)) db.orders
  return { db with orders }

/-- The event is appended. -/
def appendOrderEvent (db : Db) : Except WriteError Db := do
  let row ← orderEventRow rt c
  return { db with orderEvents := db.orderEvents ++ [row] }

/-- The training event is appended. -/
def appendTrainingEvent (db : Db) : Except WriteError Db := do
  let row ← trainingEventRow rt c
  return { db with orderTrainingEvents := db.orderTrainingEvents ++ [row] }

/-- `ON CONFLICT (fill_id, trade_time) DO NOTHING`; the other unique key of `trades` has no
conflict clause. -/
def insertFillIdempotent (db : Db) : Except WriteError Db := do
  let row ← tradeRow rt c
  let trades ← sql "insert fills(trades) failed" <|
    insertOrIgnore TradeRow.fillKey
      (insertUnique TradeRow.idKey (.uniqueViolation "uq_trades_id_symbol")) row db.trades
  return { db with trades }

/-- `NULLIF(x, 0)` of a stored price. -/
def nullIfZero (x : Option Numeric) : Option Numeric := if x = some 0 then none else x

/-- The `DO UPDATE SET` of the upsert of `positions`; `excluded` is the row proposed. -/
def mergePosition (excluded old : PositionRow) : Except PgError PositionRow := do
  return { old with
    qty := ← Numeric.add 20 old.qty excluded.qty
    entryPrice := nullIfZero excluded.entryPrice <|> old.entryPrice
    snapshotTime := excluded.snapshotTime }

/-- The position is inserted, or merged into the row that is there. -/
def updatePosition (db : Db) : Except WriteError Db := do
  let row ← positionRow rt c
  let positions ← sql "update positions failed" <|
    upsert PositionRow.key row (mergePosition row) db.positions
  return { db with positions }

/-- The snapshot is appended. -/
def insertExitTagSnapshot (trigger : ExitTrigger) (db : Db) : Except WriteError Db := do
  let row ← exitTagRow rt c trigger
  return { db with orderExitTagSnapshots := db.orderExitTagSnapshots ++ [row] }

/-- One transaction of the writer; an error anywhere rolls all of it back. -/
def persistExecution (db : Db) : Except WriteError Db := do
  let db ← upsertOrder rt c db
  let db ← appendOrderEvent rt c db
  let db ← appendTrainingEvent rt c db
  if c.isFill then
    let db ← insertFillIdempotent rt c db
    let db ← updatePosition rt c db
    match callTrigger rt c with
    | some trigger => insertExitTagSnapshot rt c trigger db
    | none => return db
  else return db

end DbWriter

end HftPlatform
