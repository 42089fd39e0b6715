import HftPlatform.ExecutionReports
import HftPlatform.Lib.Table

/-!
# The OMS tables

`db/postgres`, after all migrations: the tables that the router's writer touches, one
structure a row, with the columns its statements bind. Every price and quantity is a
`NUMERIC(20, 8)`, that is a `Numeric` in units of `10⁻⁸`. Serial ids are left out: no
statement of the writer reads one except to link a child row to its order, for which the
child's `clientOrderId` stands.

Enumerated columns are inductive types with the labels of the migration.
-/

namespace HftPlatform

open Lib

/-- `order_side`. -/
inductive DbOrderSide
  | buy
  | sell
  deriving DecidableEq, Repr

/-- `order_type`. -/
inductive DbOrderType
  | market
  | limit
  | stopMarket
  | stopLimit
  | takeProfit
  | takeProfitMarket
  | trailingStopMarket
  deriving DecidableEq, Repr

/-- `time_in_force`. -/
inductive DbTimeInForce
  | gtc
  | ioc
  | fok
  | gtx
  deriving DecidableEq, Repr

/-- `order_status`. -/
inductive DbOrderStatus
  | new
  | partiallyFilled
  | filled
  | canceled
  | rejected
  | expired
  deriving DecidableEq, Repr

/-- `order_event_type`. -/
inductive DbOrderEventType
  | acknowledged
  | partiallyFilled
  | filled
  | canceled
  | rejected
  | expired
  deriving DecidableEq, Repr

/-- `position_side`. -/
inductive DbPositionSide
  | long
  | short
  | both
  deriving DecidableEq, Repr

/-- The trigger of an exit snapshot. -/
inductive ExitTrigger
  | stopLoss
  | takeProfit
  deriving DecidableEq, Repr

/-- The label of a training event. -/
inductive OutcomeLabel
  | win
  | loss
  | unknown
  deriving DecidableEq, Repr

/-- A row of `orders`. -/
structure OrderRow where
  clientOrderId : Uuid
  exchangeOrderId : Option String
  accountId : String
  symbol : String
  side : DbOrderSide
  type : DbOrderType
  tif : DbTimeInForce
  qty : Numeric
  price : Option Numeric
  stopPrice : Option Numeric
  takeProfitPrice : Option Numeric
  coinTags : List String
  status : DbOrderStatus
  filledQty : Numeric
  avgPrice : Option Numeric
  reduceOnly : Bool
  traceId : Option Uuid
  strategyVersion : Option String := none
  createdAt : ℤ
  updatedAt : ℤ
  deriving DecidableEq, Repr

/-- A row of `order_events`. -/
structure OrderEventRow where
  clientOrderId : Uuid
  eventType : DbOrderEventType
  filledQty : Option Numeric
  price : Option Numeric
  commission : Option Numeric
  commissionAsset : Option String
  eventTime : ℤ
  raw : ExecutionReport
  deriving DecidableEq, Repr

/-- The `decision_meta` column: nothing, the decoded reason, or the reason as it was. -/
inductive DecisionMetaJson
  | empty
  | parsed (value : String)
  | rawDecisionReason (reason : String)
  deriving DecidableEq, Repr

/-- A row of `order_training_events`. -/
structure TrainingEventRow where
  clientOrderId : Uuid
  accountId : String
  symbol : String
  side : DbOrderSide
  orderStatus : DbOrderStatus
  executionMode : String
  exchange : String
  strategyId : Option String
  signalId : Option String
  exitKind : Option ExitTrigger
  outcomeLabel : OutcomeLabel
  outcomeReason : Option String
  coinTags : List String
  decisionMeta : DecisionMetaJson
  filledQty : Option Numeric
  fillPrice : Option Numeric
  traceId : Option Uuid
  eventTime : ℤ
  deriving DecidableEq, Repr

/-- A row of `trades`. -/
structure TradeRow where
  tradeId : ℕ
  clientOrderId : Uuid
  accountId : String
  symbol : String
  side : DbOrderSide
  qty : Numeric
  price : Numeric
  quoteQty : Numeric
  commission : Numeric
  commissionAsset : Option String
  realizedPnl : Option Numeric := none
  isMaker : Bool := false
  tradeTime : ℤ
  fillId : String
  deriving DecidableEq, Repr

/-- The key of `uq_trades_fill_id`. -/
def TradeRow.fillKey (t : TradeRow) : String × ℤ := (t.fillId, t.tradeTime)

/-- The key of `uq_trades_id_symbol`. -/
def TradeRow.idKey (t : TradeRow) : ℕ × String × ℤ := (t.tradeId, t.symbol, t.tradeTime)

/-- A row of `positions`. -/
structure PositionRow where
  accountId : String
  symbol : String
  side : DbPositionSide
  qty : Numeric
  entryPrice : Option Numeric
  unrealizedPnl : Numeric := 0
  realizedPnl : Numeric := 0
  leverage : ℕ := 1
  marginType : String := "isolated"
  snapshotTime : ℤ
  deriving DecidableEq, Repr

/-- The key of `uq_positions_account_symbol_side`. -/
def PositionRow.key (p : PositionRow) : String × String × DbPositionSide :=
  (p.accountId, p.symbol, p.side)

/-- A row of `order_exit_tag_snapshots`. -/
structure ExitTagRow where
  clientOrderId : Uuid
  accountId : String
  symbol : String
  exitTrigger : ExitTrigger
  exitPrice : Numeric
  coinTags : List String
  traceId : Option Uuid
  eventTime : ℤ
  deriving DecidableEq, Repr

/-- The database of the OMS. -/
structure Db where
  orders : List OrderRow := []
  orderEvents : List OrderEventRow := []
  orderTrainingEvents : List TrainingEventRow := []
  trades : List TradeRow := []
  positions : List PositionRow := []
  orderExitTagSnapshots : List ExitTagRow := []
  deriving DecidableEq, Repr

/-- The order stored under an id. -/
def Db.order (db : Db) (id : Uuid) : Option OrderRow := lookup OrderRow.clientOrderId id db.orders

/-- The one-way position of an account in a symbol. -/
def Db.position (db : Db) (accountId symbol : String) : Option PositionRow :=
  lookup PositionRow.key (accountId, symbol, .both) db.positions

end HftPlatform
