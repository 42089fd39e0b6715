import HftPlatform.Proto

/-!
# The reports the router builds

`services/execution_router/src/producers/execution_reports.rs`. Each call of `now_ns` is a
reading of the clock, so the builders take the readings they make: `buildReports` makes
one per report it builds, in order.

## Main results

* `mem_buildReports`: a simulated trace consists of rejections, acknowledgements and fills
  of the order, and nothing else.
* `buildReports_of_reject`: a quantity that is not positive yields one rejection.
* `BuiltFor.cases_exchangeOrderId`, `not_simulated_toString`: every report but the exchange's
  acknowledgement carries a simulated exchange order id.
-/

namespace HftPlatform

open Lib

/-- The exchange order ids the simulation makes up. -/
def simulated (exchangeOrderId : String) : Bool := startsWith exchangeOrderId "sim-"

/-- What all reports of an order have in common. -/
def baseReport (now : ℤ) (order : OrderCommand) : ExecutionReport where
  accountId := order.accountId
  symbol := order.symbol
  clientOrderId := order.clientOrderId
  exchangeOrderId := "sim-" ++ order.clientOrderId
  status := ExecutionStatus.new.code
  side := order.side
  lastFilledQty := .zero
  lastFilledPrice := .zero
  cumulativeFilledQty := .zero
  avgPrice := .zero
  commission := .zero
  commissionAsset := "USDT"
  rejectReason := ""
  eventTimeNs := now
  recvTimeNs := now
  traceId := order.traceId
  fillId := ""
  fillSeq := 0
  schemaVersion := 1
  strategyId := order.strategyId
  signalId := order.signalId

/-- `transact_time * 1_000_000` on `i64`, wrapping as the release build does. -/
def msToNs (ms : ℤ) : ℤ := Int.bmod (ms * 1000000) (2 ^ 64)

/-- The report of what the exchange acknowledged. -/
def buildExchangeAck (now : ℤ) (order : OrderCommand) (ack : BinanceOrderAck) :
    ExecutionReport :=
  { baseReport now order with
    status := ExecutionStatus.new.code
    exchangeOrderId := toString ack.orderId
    eventTimeNs := msToNs ack.transactTime
    recvTimeNs := now
    fillId := "ack-" ++ toString ack.orderId }

/-- The report of a rejection. -/
def buildReject (now : ℤ) (order : OrderCommand) (reason : String) : ExecutionReport :=
  { baseReport now order with
    status := ExecutionStatus.rejected.code
    rejectReason := reason }

/-- The report of a cancel. -/
def buildCancel (now : ℤ) (order : OrderCommand) : ExecutionReport :=
  { baseReport now order with status := ExecutionStatus.canceled.code }

section Simulation

variable (fp : Rounding)

/-- The simulated fill price: the order's own, or a fixed one for MARKET-like commands. -/
def choosePrice (order : OrderCommand) : Binary64 :=
  if order.price.gt .zero then order.price
  else if order.side = OrderSide.buy.code then fp.lit 62000
  else fp.lit 62000

/-- The acknowledgement that opens a simulated trace. -/
def buildAck (now : ℤ) (order : OrderCommand) : ExecutionReport :=
  { baseReport now order with
    status := ExecutionStatus.new.code
    fillId := "ack-" ++ order.clientOrderId }

/-- One leg of a simulated trace: `last` filled now, `cumulative` filled in total. -/
def buildFill (now : ℤ) (order : OrderCommand) (status : ExecutionStatus)
    (last cumulative : Binary64) (leg : String) (seq : ℤ) : ExecutionReport :=
  { baseReport now order with
    status := status.code
    lastFilledQty := last
    lastFilledPrice := choosePrice fp order
    cumulativeFilledQty := cumulative
    avgPrice := choosePrice fp order
    commission := fp.mul (fp.mul last (choosePrice fp order)) (fp.lit (1 / 10000))
    fillId := order.clientOrderId ++ leg
    fillSeq := seq }

/-- The quantity of the partial leg. -/
def partialQty (order : OrderCommand) : Binary64 :=
  (fp.mul order.qty (fp.lit (2 / 5))).max (fp.lit (1 / 10000))

/-- The reports of a simulated order. -/
def buildReports (now : ℕ → ℤ) (order : OrderCommand) : List ExecutionReport :=
  if order.qty.le .zero then
    [buildReject (now 0) order "qty must be > 0"]
  else if (partialQty fp order).lt order.qty then
    [buildAck (now 0) order,
      buildFill fp (now 1) order .partiallyFilled (partialQty fp order) (partialQty fp order)
        "-p1" 1,
      buildFill fp (now 2) order .filled (fp.sub order.qty (partialQty fp order)) order.qty
        "-p2" 2]
  else
    [buildAck (now 0) order, buildFill fp (now 1) order .filled order.qty order.qty "-f1" 1]

end Simulation

/-- The report is one that the writer takes for a fill. -/
def isFillLike (report : ExecutionReport) : Bool :=
  report.status = ExecutionStatus.partiallyFilled.code ||
    report.status = ExecutionStatus.filled.code

/-! ### What the builders produce -/

section Built

variable {fp : Rounding} {now : ℕ → ℤ} {order : OrderCommand} {report : ExecutionReport}

/-- The reports that the router can build for an order. -/
inductive BuiltFor (fp : Rounding) (order : OrderCommand) : ExecutionReport → Prop
  | simulated (now : ℕ → ℤ) {report : ExecutionReport} (h : report ∈ buildReports fp now order) :
      BuiltFor fp order report
  | exchangeAck (now : ℤ) (ack : BinanceOrderAck) :
      BuiltFor fp order (buildExchangeAck now order ack)
  | reject (now : ℤ) (reason : String) : BuiltFor fp order (buildReject now order reason)
  | cancel (now : ℤ) : BuiltFor fp order (buildCancel now order)

/-- A quantity that is not positive yields one rejection. -/
theorem buildReports_of_reject (h : order.qty.le .zero = true) :
    buildReports fp now order = [buildReject (now 0) order "qty must be > 0"] := by
  simp [buildReports, h]

/-- A simulated trace has a report. -/
theorem buildReports_ne_nil : buildReports fp now order ≠ [] := by
  rw [buildReports]
  split
  · simp
  · split <;> simp

/-- A simulated trace consists of rejections, acknowledgements and fills of the order. -/
theorem mem_buildReports (h : report ∈ buildReports fp now order) :
    (∃ t reason, report = buildReject t order reason) ∨ (∃ t, report = buildAck t order) ∨
      ∃ t status last cumulative leg seq,
        report = buildFill fp t order status last cumulative leg seq := by
  rw [buildReports] at h
  split at h
  · rw [List.mem_singleton] at h
    exact Or.inl ⟨_, _, h⟩
  · split at h
    · simp only [List.mem_cons, List.not_mem_nil, or_false] at h
      rcases h with h | h | h
      · exact Or.inr (Or.inl ⟨_, h⟩)
      · exact Or.inr (Or.inr ⟨_, _, _, _, _, _, h⟩)
      · exact Or.inr (Or.inr ⟨_, _, _, _, _, _, h⟩)
    · simp only [List.mem_cons, List.not_mem_nil, or_false] at h
      rcases h with h | h
      · exact Or.inr (Or.inl ⟨_, h⟩)
      · exact Or.inr (Or.inr ⟨_, _, _, _, _, _, h⟩)

/-- The decimal form of an exchange's order id is not a simulated id. -/
theorem not_simulated_toString (n : ℤ) : simulated (toString n) = false := by
  rw [Bool.eq_false_iff]
  intro h
  obtain ⟨rest, hrest⟩ := List.isPrefixOf_iff_prefix.mp h
  cases n with
  | ofNat m =>
      have hs : 's' ∈ Nat.toDigits 10 m := by
        have : (toString (Int.ofNat m)).toList = Nat.toDigits 10 m := by
          simp [Int.toString_eq_repr, Int.repr]
        rw [← this, ← hrest]
        simp
      exact absurd (Nat.isDigit_of_mem_toDigits (by decide) (by decide) hs) (by decide)
  | negSucc m =>
      simp [Int.toString_eq_repr, Int.repr] at hrest

/-- Every built report but the exchange's acknowledgement carries the simulated id of its
order. -/
theorem BuiltFor.cases_exchangeOrderId (h : BuiltFor fp order report) :
    (∃ now ack, report = buildExchangeAck now order ack) ∨
      report.exchangeOrderId = "sim-" ++ order.clientOrderId := by
  cases h with
  | simulated now h =>
      right
      rcases mem_buildReports h with ⟨t, reason, rfl⟩ | ⟨t, rfl⟩ | ⟨t, _, _, _, _, _, rfl⟩ <;> rfl
  | exchangeAck now ack => exact Or.inl ⟨now, ack, rfl⟩
  | reject now reason => exact Or.inr rfl
  | cancel now => exact Or.inr rfl

end Built

end HftPlatform
