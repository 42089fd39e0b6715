import HftPlatform.Config

/-!
# Orders of the strategy engine

`services/strategy_engine/src/producers/order_commands.rs` and `planner/idempotency.rs`: the
order that each turn of the strategy engine publishes, and the planner that gives it its client
order id.

## Main results

* `IdempotencyPlanner.clientOrderId_again`: a decision keeps the id it was given first.
* `clientOrderId_of_buildManualOrder`: a new decision is given the fresh id.
-/

namespace HftPlatform.StrategyEngine

open Lib

/-- The ids given so far, by the key of the decision. -/
abbrev IdempotencyPlanner := List (String × String)

variable (rt : Runtime)

/-- The id of a decision, and the planner that remembers it; `fresh` is used when the decision
is new. -/
def IdempotencyPlanner.clientOrderId (seen : IdempotencyPlanner) (traceId symbol : String)
    (side : ℤ) (fresh : Uuid) : String × IdempotencyPlanner :=
  let key := traceId ++ ":" ++ symbol ++ ":" ++ toString side
  match lookup Prod.fst key seen with
  | some existing => (existing.2, seen)
  | none => (rt.showUuid fresh, seen ++ [(key, rt.showUuid fresh)])

/-- The order of one turn, and the planner after it. -/
def buildManualOrder (cfg : Config) (planner : IdempotencyPlanner) (traceId : String)
    (fresh : Uuid) (nowNs : ℤ) : OrderCommand × IdempotencyPlanner :=
  let (clientOrderId, planner) := planner.clientOrderId rt traceId cfg.symbol cfg.side fresh
  ({  accountId := cfg.accountId
      symbol := cfg.symbol
      clientOrderId
      side := cfg.side
      type := OrderType.limit.code
      tif := TimeInForce.gtc.code
      qty := cfg.qty
      price := cfg.price
      reduceOnly := false
      stopPrice := cfg.stopPrice
      decisionReason :=
        if cfg.stopPrice.gt .zero then "manual-test tp/sl=0/" ++ rt.showF64Fixed2 cfg.stopPrice
        else "manual-test"
      traceId
      decisionTimeNs := nowNs
      schemaVersion := 1
      action := OrderAction.create.code
      strategyId := "manual-test"
      signalId := "" }, planner)

variable {rt}

/-- Asked again about a decision, the planner repeats its id and remembers nothing new. -/
theorem IdempotencyPlanner.clientOrderId_again (seen : IdempotencyPlanner)
    (traceId symbol : String) (side : ℤ) (fresh fresh' : Uuid) :
    (seen.clientOrderId rt traceId symbol side fresh).2.clientOrderId rt traceId symbol side
        fresh' = seen.clientOrderId rt traceId symbol side fresh := by
  simp only [clientOrderId]
  cases h : lookup Prod.fst (traceId ++ ":" ++ symbol ++ ":" ++ toString side) seen with
  | some existing => simp only [h]
  | none =>
      have hnew : ∀ id, lookup Prod.fst (traceId ++ ":" ++ symbol ++ ":" ++ toString side)
          (seen ++ [(traceId ++ ":" ++ symbol ++ ":" ++ toString side, id)]) =
            some (traceId ++ ":" ++ symbol ++ ":" ++ toString side, id) := by
        intro id
        rw [lookup] at h ⊢
        rw [List.find?_append, h]
        simp
      simp only [hnew]

/-- The first order of the strategy engine carries the fresh id. -/
theorem clientOrderId_of_buildManualOrder (cfg : Config) (traceId : String) (fresh : Uuid)
    (nowNs : ℤ) :
    (buildManualOrder rt cfg [] traceId fresh nowNs).1.clientOrderId = rt.showUuid fresh := rfl

end HftPlatform.StrategyEngine
