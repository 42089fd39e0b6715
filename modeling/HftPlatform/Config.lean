import HftPlatform.Proto
import HftPlatform.Lib.Table

/-!
# What the services read from the environment

`Config::from_env` of the strategy engine, the risk guard, the execution router, the paper trader
and the order executor, on an environment that maps each variable to its value if it is set. All
services of a deployment read the same environment. Fields that no modelled function reads are
left out: addresses of brokers, databases and health servers, group ids, and the pace of the
strategy engine.

## Main results

* `Router.Config.fromEnv_spec`: a router that starts consumes a topic with a name.
* `Router.topicOrderCommands_eq`: the strategy engine and the router resolve their topic of
  order commands from the same variables.
-/

namespace HftPlatform

open Lib

/-- The environment of the processes. -/
abbrev Environment := String → Option String

/-! ### The strategy engine -/

/-- `services/strategy_engine/src/config.rs` -/
structure StrategyEngine.Config where
  kafkaTopicOrderCommands : String
  accountId : String
  symbol : String
  side : ℤ
  qty : Binary64
  price : Binary64
  stopPrice : Binary64

/-- The configuration of the strategy engine. -/
def StrategyEngine.Config.fromEnv (rt : Runtime) (env : Environment) : StrategyEngine.Config where
  kafkaTopicOrderCommands :=
    (env "KAFKA_TOPIC_ORDER_COMMANDS" <|> env "KAFKA_TOPIC_ORDERS_APPROVED").getD
      "TOPIC_ORDERS_APPROVED"
  accountId := (env "MANUAL_ACCOUNT_ID").getD "paper-main"
  symbol := (env "MANUAL_SYMBOL").getD "BTCUSDT"
  side :=
    if eqIgnoreAsciiCase ((env "MANUAL_SIDE").getD "BUY") "SELL" then OrderSide.sell.code
    else OrderSide.buy.code
  qty := ((env "MANUAL_QTY").bind rt.parseF64).getD (rt.fp.lit (1 / 100))
  price := ((env "MANUAL_PRICE").bind rt.parseF64).getD (rt.fp.lit 62000)
  stopPrice := ((env "MANUAL_STOP_PRICE").bind rt.parseF64).getD .zero

/-! ### The risk guard -/

/-- A map from symbols to limits; of two entries of a symbol the later one counts. -/
abbrev SymbolLimits := List (String × Binary64)

/-- The limit of a symbol. -/
def SymbolLimits.get (limits : SymbolLimits) (symbol : String) : Option Binary64 :=
  (lookup Prod.fst symbol limits.reverse).map Prod.snd

/-- `services/execution_router/risk_guard/src/config.rs` -/
structure RiskGuard.Config where
  kafkaTopicOrders : String
  kafkaTopicOrdersApproved : String
  kafkaTopicExecutionReports : String
  maxNotionalPerOrder : Binary64
  maxLeverage : Binary64
  notionalLimits : SymbolLimits

/-- One `SYMBOL=LIMIT` pair. -/
def parseLimitPair (rt : Runtime) (pair : String) : Option (String × Binary64) := do
  let sym := String.ofList (pair.toList.takeWhile (· ≠ '='))
  let val := String.ofList ((pair.toList.dropWhile (· ≠ '=')).drop 1)
  return (rt.toUppercase (trim sym), ← rt.parseF64 (trim val))

/-- A comma-separated list of pairs; entries that are none are skipped. -/
def parseLimitMap (rt : Runtime) (s : String) : SymbolLimits :=
  (((s.toList.splitOn ',').map String.ofList).filter fun p => p.toList.contains '=').filterMap
    (parseLimitPair rt)

/-- The topic the risk guard consumes. -/
def RiskGuard.topicOrders (env : Environment) : String :=
  (env "KAFKA_TOPIC_ORDERS").getD "TOPIC_ORDERS"

/-- The configuration of the risk guard, if its numbers can be read. -/
def RiskGuard.Config.fromEnv (rt : Runtime) (env : Environment) : Option RiskGuard.Config := do
  return {
    kafkaTopicOrders := RiskGuard.topicOrders env
    kafkaTopicOrdersApproved := (env "KAFKA_TOPIC_ORDERS_APPROVED").getD "TOPIC_ORDERS_APPROVED"
    kafkaTopicExecutionReports :=
      (env "KAFKA_TOPIC_EXECUTION_REPORTS").getD "TOPIC_EXECUTION_REPORTS"
    maxNotionalPerOrder := ← rt.parseF64 ((env "LIMIT_NOTIONAL_PER_ORDER").getD "5000")
    maxLeverage := ← rt.parseF64 ((env "LIMIT_LEVERAGE").getD "5.0")
    notionalLimits := parseLimitMap rt ((env "LIMIT_NOTIONAL_PER_SYMBOL_MAP").getD "") }

/-! ### The execution router -/

/-- `services/execution_router/src/config.rs` -/
structure Router.Config where
  kafkaTopicOrderCommands : String
  kafkaTopicExecutionReports : String
  executionMode : String
  exchange : String
  binanceBaseUrl : String
  binanceApiKey : String
  binanceApiSecret : String

/-- A secret: the variable itself, else the content of the file that a second variable names,
else nothing. It fails when that file cannot be read. -/
def readSecret (env : Environment) (readFile : String → Option String) (envKey fileKey : String) :
    Except String String :=
  let direct := trim ((env envKey).getD "")
  if direct ≠ "" then .ok direct
  else match env fileKey with
    | none => .ok ""
    | some path =>
        match readFile path with
        | some content => .ok (trim content)
        | none => .error "read secret file failed"

/-- The topic the router consumes. -/
def Router.topicOrderCommands (env : Environment) : String :=
  (env "KAFKA_TOPIC_ORDER_COMMANDS" <|> env "KAFKA_TOPIC_ORDERS_APPROVED").getD
    "TOPIC_ORDERS_APPROVED"

/-- The topic the router publishes its reports to. -/
def Router.topicExecutionReports (env : Environment) : String :=
  (env "KAFKA_TOPIC_EXECUTION_REPORTS" <|> env "KAFKA_TOPIC_FILLS").getD "TOPIC_FILLS"

/-- The configuration of the router, or why there is none. -/
def Router.Config.fromEnv (env : Environment) (readFile : String → Option String) :
    Except String Router.Config := do
  let binanceApiKey ← readSecret env readFile "BINANCE_API_KEY" "BINANCE_API_KEY_FILE"
  let binanceApiSecret ← readSecret env readFile "BINANCE_API_SECRET" "BINANCE_API_SECRET_FILE"
  if Router.topicOrderCommands env = "" then
    .error "KAFKA_TOPIC_ORDER_COMMANDS/KAFKA_TOPIC_ORDERS_APPROVED is empty"
  else if Router.topicExecutionReports env = "" then
    .error "KAFKA_TOPIC_EXECUTION_REPORTS/KAFKA_TOPIC_FILLS is empty"
  else return {
    kafkaTopicOrderCommands := Router.topicOrderCommands env
    kafkaTopicExecutionReports := Router.topicExecutionReports env
    executionMode := (env "EXECUTION_MODE").getD "PAPER"
    exchange := (env "EXCHANGE").getD "BINANCE"
    binanceBaseUrl := (env "BINANCE_BASE_URL").getD "https://fapi.binance.com"
    binanceApiKey
    binanceApiSecret }

/-- A router that starts consumes the resolved topic, and that topic has a name. -/
theorem Router.Config.fromEnv_spec {env : Environment} {readFile : String → Option String}
    {cfg : Router.Config} (h : Router.Config.fromEnv env readFile = .ok cfg) :
    cfg.kafkaTopicOrderCommands = Router.topicOrderCommands env ∧
      Router.topicOrderCommands env ≠ "" := by
  simp only [Router.Config.fromEnv, bind, Except.bind] at h
  split at h
  · simp at h
  · split at h
    · simp at h
    · split at h
      · simp at h
      · rename_i htopic
        split at h
        · simp at h
        · obtain rfl := Except.ok.inj h
          exact ⟨rfl, htopic⟩

/-- The strategy engine publishes to the topic that the router consumes. -/
theorem Router.topicOrderCommands_eq (rt : Runtime) (env : Environment) :
    (StrategyEngine.Config.fromEnv rt env).kafkaTopicOrderCommands =
      Router.topicOrderCommands env := rfl

/-! ### The paper trader and the order executor -/

/-- `services/execution_router/paper_trader/src/config.rs` -/
structure PaperTrader.Config where
  kafkaTopicOrdersApproved : String
  kafkaTopicFills : String

/-- The configuration of the paper trader. -/
def PaperTrader.Config.fromEnv (env : Environment) : PaperTrader.Config where
  kafkaTopicOrdersApproved := (env "KAFKA_TOPIC_ORDERS_APPROVED").getD "TOPIC_ORDERS_APPROVED"
  kafkaTopicFills := (env "KAFKA_TOPIC_FILLS").getD "TOPIC_FILLS"

/-- `services/execution_router/order_executor/src/config.rs` -/
structure OrderExecutor.Config where
  kafkaTopicFills : String

/-- The configuration of the order executor. -/
def OrderExecutor.Config.fromEnv (env : Environment) : OrderExecutor.Config where
  kafkaTopicFills := (env "KAFKA_TOPIC_FILLS").getD "TOPIC_FILLS"

end HftPlatform
