import HftPlatform.Schema

/-!
# Commands that the gateway builds

`services/api_gateway/src/routes/orders.rs` and `positions.rs`: the handlers that turn a
request of the dashboard into an order command for a stored order or position. A handler
answers with the command that it submits, or with the status code of its failure. An order is read
from the tables, where the ids of the exchange are texts since migration 010, into an `OrderRow` of
`hft_store` in which they are integers.

## Main results

* `handleCancelOrder_eq_ok_iff`: for which stored orders a cancel is built.
-/

namespace HftPlatform

open Lib

/-! ### Rows as the gateway reads them -/

/-- A row of the table can be read as an `OrderRow` of `hft_store`: there is no id of the exchange,
which would have to be an integer, and no number is `NaN`. -/
def OrderRow.readable (row : OrderRow) : Bool :=
  row.exchangeOrderId.isNone && row.qty ≠ ⊤ && row.price ≠ some ⊤ && row.stopPrice ≠ some ⊤ &&
    row.takeProfitPrice ≠ some ⊤ && row.filledQty ≠ ⊤ && row.avgPrice ≠ some ⊤

/-- `get_order_by_id` of `libs/rust/hft_store/src/repos/orders_repo.rs`: an error when the database
does not answer, or when the row of the order cannot be read. -/
def getOrderById (answers : Bool) (db : Db) (orderId : Uuid) : Except Unit (Option OrderRow) :=
  if answers then
    match db.order orderId with
    | none => .ok none
    | some row => if row.readable then .ok (some row) else .error ()
  else .error ()

/-- What is found is a readable row of the table. -/
theorem getOrderById_eq_ok_iff {answers : Bool} {db : Db} {orderId : Uuid} {row : OrderRow} :
    getOrderById answers db orderId = .ok (some row) ↔
      answers = true ∧ db.order orderId = some row ∧ row.readable = true := by
  rw [getOrderById]
  cases answers with
  | false => simp
  | true =>
      cases db.order orderId with
      | none => simp
      | some row' =>
          by_cases hreadable : row'.readable = true
          · simp only [if_true, if_pos hreadable, Except.ok.injEq, Option.some.injEq, true_and]
            exact ⟨fun h => ⟨h, h ▸ hreadable⟩, And.left⟩
          · simp only [if_true, if_neg hreadable, reduceCtorEq, Option.some.injEq, true_and,
              false_iff]
            rintro ⟨rfl, h⟩
            exact hreadable h

namespace Gateway

/-! ### The handlers -/

/-- The failures that the handlers answer with. -/
inductive StatusCode
  | badRequest
  | notFound
  | internalServerError
  deriving DecidableEq, Repr

/-- What a request reads besides the database: fresh ids and the clock. -/
structure Request where
  clientOrderId : Uuid
  traceId : Uuid
  nowNs : ℤ

variable (rt : Runtime) (request : Request)

/-- The cancel of a stored order. A mocked gateway answers without submitting a command. -/
def handleCancelOrder (mock answers : Bool) (db : Db) (id : Uuid) :
    Except StatusCode (Option OrderCommand) :=
  if mock then .ok none
  else match getOrderById answers db id with
    | .error _ => .error .internalServerError
    | .ok none => .error .notFound
    | .ok (some order) =>
        if order.status = .filled ∨ order.status = .canceled ∨ order.status = .rejected then
          .error .badRequest
        else .ok <| some {
          accountId := order.accountId
          symbol := order.symbol
          clientOrderId := rt.showUuid order.clientOrderId
          side := 0
          type := 0
          tif := 0
          qty := .zero
          price := .zero
          reduceOnly := false
          stopPrice := .zero
          decisionReason := "Manual cancel via dashboard"
          traceId := rt.showUuid request.traceId
          decisionTimeNs := request.nowNs
          schemaVersion := 1
          action := OrderAction.cancel.code
          strategyId := order.strategyVersion.getD ""
          signalId := "" }

/-- The market close of a stored position. A quantity that is `NaN` is not read back. -/
def handleClosePosition (fetched : Except Unit (Option PositionRow)) :
    Except StatusCode OrderCommand :=
  match fetched with
  | .error _ => .error .internalServerError
  | .ok none => .error .notFound
  | .ok (some pos) =>
      match pos.qty with
      | ⊤ => .error .internalServerError
      | (units : ℤ) => .ok {
          accountId := pos.accountId
          symbol := pos.symbol
          clientOrderId := rt.showUuid request.clientOrderId
          side := if pos.side = .long then OrderSide.sell.code else OrderSide.buy.code
          type := OrderType.market.code
          tif := TimeInForce.ioc.code
          qty := (rt.decimalToF64 (units / 10 ^ 8)).getD .zero
          price := .zero
          reduceOnly := true
          stopPrice := .zero
          decisionReason := "Manual Market Close via Dashboard"
          traceId := rt.showUuid request.traceId
          decisionTimeNs := request.nowNs
          schemaVersion := 1
          action := OrderAction.create.code
          strategyId := "manual-dashboard"
          signalId := "" }

/-- **When a cancel is built** for an id: the database answers, its row has no id of the exchange
and no `NaN`, and the order has not ended. -/
theorem handleCancelOrder_eq_ok_iff {mock answers : Bool} {db : Db} {id : Uuid} :
    (∃ cmd, handleCancelOrder rt request mock answers db id = .ok (some cmd)) ↔
      mock = false ∧ answers = true ∧ ∃ order, db.order id = some order ∧ order.readable = true ∧
        order.status ≠ .filled ∧ order.status ≠ .canceled ∧ order.status ≠ .rejected := by
  rw [handleCancelOrder]
  cases mock with
  | true => simp
  | false =>
      cases hfetched : getOrderById answers db id with
      | error e =>
          simp only [Bool.false_eq_true, if_false, reduceCtorEq, exists_false, true_and, false_iff]
          rintro ⟨hanswers, order, horder, hreadable, -⟩
          rw [getOrderById_eq_ok_iff.mpr ⟨hanswers, horder, hreadable⟩] at hfetched
          cases hfetched
      | ok found =>
          cases found with
          | none =>
              simp only [Bool.false_eq_true, if_false, reduceCtorEq, exists_false, true_and,
                false_iff]
              rintro ⟨hanswers, order, horder, hreadable, -⟩
              rw [getOrderById_eq_ok_iff.mpr ⟨hanswers, horder, hreadable⟩] at hfetched
              cases hfetched
          | some order =>
              obtain ⟨hanswers, horder, hreadable⟩ := getOrderById_eq_ok_iff.mp hfetched
              simp only [Bool.false_eq_true, if_false, true_and, horder, Option.some.injEq,
                exists_eq_left', hreadable, hanswers]
              split
              · rename_i hended
                simp only [reduceCtorEq, exists_false, false_iff]
                grind
              · rename_i hopen
                simp only [Except.ok.injEq, Option.some.injEq, exists_eq', true_iff]
                grind

/-- A cancel carries the id that it was asked for, in the form in which ids are printed. -/
theorem clientOrderId_of_cancel {mock answers : Bool} {db : Db} {id : Uuid} {cmd : OrderCommand}
    (h : handleCancelOrder rt request mock answers db id = .ok (some cmd)) :
    cmd.clientOrderId = rt.showUuid id ∧ cmd.action = OrderAction.cancel.code := by
  rw [handleCancelOrder] at h
  split at h
  · simp at h
  · split at h
    · simp at h
    · simp at h
    · rename_i order hfetched
      obtain ⟨-, horder, -⟩ := getOrderById_eq_ok_iff.mp hfetched
      split at h
      · simp at h
      · obtain rfl := Option.some.inj (Except.ok.inj h)
        exact ⟨congrArg rt.showUuid (key_of_lookup horder), rfl⟩

end Gateway

end HftPlatform
