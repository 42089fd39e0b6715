import HftPlatform.Config
import HftPlatform.ExecutionReports

/-!
# The risk gate

`services/execution_router/risk_guard/src/checker.rs` with the checks of `libs/rust/hft_risk`:
the gates that an order passes before it is forwarded, in their order, with the audit event
that each of them writes. What a kill switch lookup returned is a parameter; a failed lookup
lets the order through.

The notional gate prices an order with its own price. The simulation fills an order without a
positive price at a price of its own, so the gate bounds what is executed only for orders with
a positive price, and for others by chance. Besides, an order is filled in two legs, whose rounded
notionals may add up to more than the rounded notional that the gate has seen.

## Main results

* `runGates_approved_iff`: when an order is approved.
* `executedNotional_le_iff`: when the approved limit bounds what the simulation executes.
* `exact_executedNotional_le_iff`: when it does in exact arithmetic, where the legs make no
  difference.
-/

namespace HftPlatform.RiskGuard

open Lib Binary64

/-- The result of one check. -/
structure GateResult where
  pass : Bool
  reason : String
  note : Option String := none
  deriving DecidableEq, Repr

/-- Why an order is rejected. -/
inductive RejectReason
  | killSwitch
  | killSwitchAccount
  | notionalLimitExceeded
  | leverageLimitExceeded
  | symbolNotAllowed
  | rateLimitExceeded
  | malformedOrder
  | internalError
  deriving DecidableEq, Repr

/-- The answer to an order. -/
inductive CheckResult
  | approved
  | rejected (reason : RejectReason) (detail : String)
  deriving DecidableEq, Repr

/-- Overrides loaded from the database. -/
structure DynamicLimits where
  symbolNotional : SymbolLimits := []
  maxLeverage : Option Binary64 := none

/-- A row of `risk_events`. -/
structure RiskEvent where
  checkType : String
  scopeRef : String
  severity : String
  passFlag : Bool
  currentValue : Option ℚ
  limitValue : Option ℚ
  actionTaken : String
  relatedOrderId : String
  traceId : String
  deriving DecidableEq, Repr

section Gates

variable (rt : Runtime)

/-- The gate of the notional. -/
def checkNotionalLimit (notional limit : Binary64) : GateResult :=
  if notional.le limit then ⟨true, "Passed", none⟩
  else ⟨false, "Notional limit exceeded: current=" ++ rt.showF64 notional ++ ", limit=" ++
    rt.showF64 limit, none⟩

/-- The gate of the leverage. -/
def checkLeverageLimit (leverage limit : Binary64) : GateResult :=
  if leverage.le limit then ⟨true, "Passed", none⟩
  else ⟨false, "Leverage limit exceeded: current=" ++ rt.showF64 leverage ++ ", limit=" ++
    rt.showF64 limit, none⟩

/-- The row that a check leaves. -/
def riskEvent (order : OrderCommand) (checkType : String) (pass : Bool)
    (currentValue limitValue : Option Binary64) (action severity : String) : RiskEvent where
  checkType := checkType
  scopeRef := order.symbol
  severity := severity
  passFlag := pass
  currentValue := currentValue.bind rt.decimalFromF64
  limitValue := limitValue.bind rt.decimalFromF64
  actionTaken := action
  relatedOrderId := order.clientOrderId
  traceId := order.traceId

variable (cfg : Config) (dynamic : DynamicLimits)

/-- The notional limit of a symbol: dynamic override, else static override, else the cap. -/
def notionalLimit (symbol : String) : Binary64 :=
  (dynamic.symbolNotional.get symbol <|> cfg.notionalLimits.get symbol).getD
    cfg.maxNotionalPerOrder

/-- The limit of the leverage, dynamic or configured. -/
def leverageLimit : Binary64 := dynamic.maxLeverage.getD cfg.maxLeverage

/-- One kill switch: the event it writes, if any, and whether it stops the order. -/
def killGate (order : OrderCommand) (checkType : String) (check : Except Unit Bool) :
    List RiskEvent × Bool :=
  match check with
  | .ok true =>
      ([riskEvent rt order checkType false (some (rt.fp.lit 1)) (some .zero) "REJECTED" "CRITICAL"],
        true)
  | .ok false =>
      ([riskEvent rt order checkType true (some .zero) (some .zero) "PASSED" "INFO"], false)
  | .error _ => ([], false)

/-- All gates in order; the first failure decides. -/
def runGates (killGlobal killAccount : Except Unit Bool) (order : OrderCommand) :
    List RiskEvent × CheckResult :=
  let (globalEvents, stopped) := killGate rt order "GLOBAL_KILL" killGlobal
  if stopped then (globalEvents, .rejected .killSwitch "Global kill switch is active")
  else
    let (accountEvents, stopped) := killGate rt order "ACCOUNT_KILL" killAccount
    if stopped then
      (globalEvents ++ accountEvents, .rejected .killSwitchAccount
        ("Kill switch active for account " ++ order.accountId))
    else
      let notional := rt.fp.mul order.qty order.price
      let limit := notionalLimit cfg dynamic order.symbol
      let notionalResult := checkNotionalLimit rt notional limit
      if !notionalResult.pass then
        (globalEvents ++ accountEvents ++
          [riskEvent rt order "NOTIONAL_LIMIT" false (some notional) (some limit) "REJECTED"
            "CRITICAL"],
          .rejected .notionalLimitExceeded ("Notional " ++ rt.showF64Fixed2 notional ++
            " exceeds limit " ++ rt.showF64Fixed2 limit ++ " for symbol " ++ order.symbol))
      else
        let leverage := leverageLimit cfg dynamic
        let leverageResult := checkLeverageLimit rt leverage leverage
        let events := globalEvents ++ accountEvents ++
          [riskEvent rt order "NOTIONAL_LIMIT" true (some notional) (some limit) "PASSED" "INFO"]
        if !leverageResult.pass then
          (events ++ [riskEvent rt order "LEVERAGE_LIMIT" false none (some leverage) "REJECTED"
              "CRITICAL"],
            .rejected .leverageLimitExceeded leverageResult.reason)
        else
          (events ++ [riskEvent rt order "LEVERAGE_LIMIT" true none (some leverage) "PASSED"
              "INFO"],
            .approved)

end Gates

/-! ### What the gates let through -/

variable {rt : Runtime} {cfg : Config} {dynamic : DynamicLimits}
  {killGlobal killAccount : Except Unit Bool} {order : OrderCommand}

/-- A kill switch stops an order exactly when it reads as on. -/
theorem killGate_snd (rt : Runtime) (order : OrderCommand) (checkType : String)
    (check : Except Unit Bool) :
    (killGate rt order checkType check).2 = true ↔ check = .ok true := by
  cases check with
  | error e => simp [killGate]
  | ok b => cases b <;> simp [killGate]

/-- **An order is approved** exactly when no kill switch reads as on, its notional at its own
price is within the limit, and the leverage limit is a number. -/
theorem runGates_approved_iff :
    (runGates rt cfg dynamic killGlobal killAccount order).2 = .approved ↔
      killGlobal ≠ .ok true ∧ killAccount ≠ .ok true ∧
        (rt.fp.mul order.qty order.price).le (notionalLimit cfg dynamic order.symbol) = true ∧
        (leverageLimit cfg dynamic).le (leverageLimit cfg dynamic) = true := by
  have hglobal := killGate_snd rt order "GLOBAL_KILL" killGlobal
  have haccount := killGate_snd rt order "ACCOUNT_KILL" killAccount
  rw [runGates]
  cases hg : killGate rt order "GLOBAL_KILL" killGlobal with
  | mk globalEvents stopped =>
      cases ha : killGate rt order "ACCOUNT_KILL" killAccount with
      | mk accountEvents stopped' =>
          rw [hg] at hglobal
          rw [ha] at haccount
          simp only [ne_eq, ← hglobal, ← haccount, checkNotionalLimit, checkLeverageLimit]
          cases stopped <;> cases stopped' <;> simp
          -- Both kill switches are off, and the two comparisons decide.
          cases (rt.fp.mul order.qty order.price).le (notionalLimit cfg dynamic order.symbol) <;>
            cases (leverageLimit cfg dynamic).le (leverageLimit cfg dynamic) <;> simp

/-! ### What the simulation executes -/

/-- The sum of some values, added up from the left. -/
def total (sum : Rounding) : List Binary64 → Binary64
  | [] => .zero
  | x :: xs => xs.foldl sum.add x

/-- The notional of the fills of a simulated trace, added up in order. The arithmetic in which the
notionals are taken may be another one than that of the simulation. -/
def executedNotional (sum fp : Rounding) (now : ℕ → ℤ) (order : OrderCommand) : Binary64 :=
  total sum (((buildReports fp now order).filter isFillLike).map fun r =>
    sum.mul r.lastFilledQty r.lastFilledPrice)

/-- The notional at a price of a quantity of which a first part is filled on its own. -/
def splitNotional (sum fp : Rounding) (qty first price : Binary64) : Binary64 :=
  sum.add (sum.mul first price) (sum.mul (fp.sub qty first) price)

/-- The runtime with exact arithmetic. -/
def exactly (rt : Runtime) : Runtime := { rt with fp := Rounding.exact }

/-- The simulated price is positive. -/
theorem choosePrice_pos (order : OrderCommand) :
    (choosePrice Rounding.exact order).gt .zero = true := by
  rw [choosePrice]
  split
  · assumption
  · split <;> decide +kernel

/-- In exact arithmetic the partial leg of a finite order is a positive number. -/
theorem partialQty_exact {q : ℚ} (hq : order.qty = fin q) :
    ∃ l, partialQty Rounding.exact order = fin l ∧ 0 < l := by
  rw [partialQty, hq]
  refine ⟨if q * (2 / 5) < 1 / 10000 then 1 / 10000 else q * (2 / 5), ?_, ?_⟩
  · simp only [Rounding.mul, Rounding.lit, Rounding.exact, Binary64.max, lt, decide_eq_true_eq]
    split <;> rfl
  · split
    · norm_num
    · rename_i h
      linarith

/-- The partial leg of an infinite order is infinite. -/
theorem partialQty_inf (hq : order.qty = .inf false) :
    partialQty Rounding.exact order = .inf false := by
  simp only [partialQty, hq, Rounding.mul, Rounding.lit, Rounding.exact]
  decide +kernel

/-- The notional of a trace in terms of its legs. -/
theorem executedNotional_legs (sum fp : Rounding) (now : ℕ → ℤ)
    (hpos : order.qty.le .zero = false) :
    executedNotional sum fp now order =
      if (partialQty fp order).lt order.qty then
        splitNotional sum fp order.qty (partialQty fp order) (choosePrice fp order)
      else sum.mul order.qty (choosePrice fp order) := by
  rw [executedNotional, buildReports, if_neg (by simp [hpos])]
  split <;> rfl

/-- Nothing is executed for a quantity that is not positive. -/
theorem executedNotional_of_reject (sum fp : Rounding) (now : ℕ → ℤ)
    (hpos : order.qty.le .zero = true) : executedNotional sum fp now order = .zero := by
  rw [executedNotional, buildReports_of_reject hpos]
  rfl

/-- A positive double is a positive number or `+∞`. -/
theorem pos_cases {x : Binary64} (h : x.gt .zero = true) :
    x = .inf false ∨ ∃ p, x = .fin p ∧ 0 < p := by
  cases x with
  | nan => simp [Binary64.gt, lt, zero] at h
  | inf s => simpa [Binary64.gt, lt, zero] using h
  | fin p => exact Or.inr ⟨p, rfl, by simpa [Binary64.gt, lt, zero] using h⟩

/-- In exact arithmetic the legs of a trace add up to the order's quantity at the simulated
price. -/
theorem executedNotional_eq (now : ℕ → ℤ) (hpos : order.qty.le .zero = false)
    (hnan : order.qty ≠ .nan) : executedNotional Rounding.exact Rounding.exact now order =
      Rounding.exact.mul order.qty (choosePrice Rounding.exact order) := by
  have hprice := pos_cases (choosePrice_pos order)
  rw [executedNotional_legs _ _ _ hpos]
  split
  swap
  · rfl
  rename_i hlt
  cases hq : order.qty with
  | nan => exact absurd hq hnan
  | inf s =>
      obtain rfl : s = false := by simpa [hq, le, zero] using hpos
      rw [partialQty_inf hq, hq] at hlt
      cases hlt
  | fin q =>
      obtain ⟨l, hl, hl0⟩ := partialQty_exact hq
      rw [hl, hq, lt, decide_eq_true_eq] at hlt
      have hrest : 0 < q + -l := by linarith
      have hq0 : 0 < q := hl0.trans hlt
      rw [hl, splitNotional]
      rcases hprice with h | ⟨p, h, -⟩
      · rw [h]
        simp [Rounding.sub, Rounding.add, Rounding.mul, Rounding.exact, neg, hl0.ne', hl0.not_gt,
          hq0.ne', hq0.not_gt, hrest.ne', hrest.not_gt]
      · rw [h]
        simp only [Rounding.sub, Rounding.add, Rounding.mul, Rounding.exact, neg]
        congr 1
        ring

/-- **In exact arithmetic** the legs make no difference: the limit bounds what is executed of a
positive quantity exactly when the order's own price is positive, or the quantity at the
simulation's price is within the limit anyway. -/
theorem exact_executedNotional_le_iff (rt : Runtime) (cfg : Config) (dynamic : DynamicLimits)
    (killGlobal killAccount : Except Unit Bool) (order : OrderCommand) (now : ℕ → ℤ)
    (happroved : (runGates (exactly rt) cfg dynamic killGlobal killAccount order).2 = .approved) :
    (executedNotional Rounding.exact Rounding.exact now order).le
        (notionalLimit cfg dynamic order.symbol) = true ↔
      if order.qty.le .zero = true then
        Binary64.le .zero (notionalLimit cfg dynamic order.symbol) = true
      else order.price.gt .zero = true ∨
        (Rounding.exact.mul order.qty (.fin 62000)).le (notionalLimit cfg dynamic order.symbol)
          = true := by
  obtain ⟨-, -, hgate, -⟩ := runGates_approved_iff.mp happroved
  change (Rounding.exact.mul order.qty order.price).le _ = true at hgate
  cases hpos : order.qty.le .zero with
  | true => simp only [executedNotional_of_reject _ _ _ hpos, if_true]
  | false =>
      have hnan : order.qty ≠ .nan := by
        intro hq
        simp [hq, Rounding.mul, le] at hgate
      rw [if_neg (by simp), executedNotional_eq now hpos hnan, choosePrice]
      by_cases hprice : order.price.gt .zero = true
      · rw [if_pos hprice]
        exact ⟨fun _ => Or.inl hprice, fun _ => hgate⟩
      · rw [if_neg hprice, ite_self]
        exact ⟨Or.inr, fun h => h.resolve_left hprice⟩

/-- A MARKET order as the gateway builds it, with price zero, under a limit of 5000. -/
def marketOrder : OrderCommand :=
  OrderCommand.sample "018f3c2e-0000-7000-8000-00000000000a" 1 1 1 1 0

/-- The configuration without an environment. -/
def defaultConfig : Config where
  kafkaTopicOrders := "TOPIC_ORDERS"
  kafkaTopicOrdersApproved := "TOPIC_ORDERS_APPROVED"
  kafkaTopicExecutionReports := "TOPIC_EXECUTION_REPORTS"
  maxNotionalPerOrder := .fin 5000
  maxLeverage := .fin 5
  notionalLimits := []

/-- A BUY of 0.001 at 27000. -/
def splitOrder : OrderCommand :=
  { OrderCommand.sample "018f3c2e-0000-7000-8000-00000000000a" 1 1 2 0 27000 with
    qty := Rounding.nearestEven.lit (1 / 1000) }

/-- A limit of 27. -/
def splitLimits : DynamicLimits where
  symbolNotional := [("BTCUSDT", .fin 27)]

/-- The order is approved, and its legs add up to more than the limit. -/
example :
    (runGates Runtime.reference defaultConfig splitLimits (.ok false) (.ok false) splitOrder).2 =
        .approved ∧
      (executedNotional Rounding.nearestEven Rounding.nearestEven (fun i => i) splitOrder).le
        (.fin 27) = false ∧
      (executedNotional Rounding.exact Rounding.nearestEven (fun i => i) splitOrder).le
        (.fin 27) = false := by
  decide +kernel

end HftPlatform.RiskGuard
