import HftPlatform.CancelAll
import HftPlatform.ExitLabels
import HftPlatform.Lib.Json
import HftPlatform.StrategyEngine

/-!
# What the labels of the training events say

The gateway puts the kind of an exit into the reason of the order that it submits, as the text of a
JSON object, and the writer of the router reads it from there. Nobody else names a kind, and no
order leaves it to the writer to find one by the price. So the label of a training event says what
was asked for, and not what the market did: this module follows it from the request to the tables.

## Main definitions

* `Gateway.handlePlaceMarketOrder`, `Gateway.handlePlaceExitOrder`,
  `Gateway.handlePartialClosePosition`: the orders that the gateway submits besides closes and
  cancels.
* `Asked`: all that orders are built for, in the gateway and in the strategy engine.

## Main results

* `Asked.trigger_eq`: the trigger that the writer finds is the kind that was asked for.
* `labels_run`: in every state of a run, the labels and the exit snapshots are those asked for.
-/

namespace HftPlatform

open Lib DbWriter

namespace Gateway

/-! ### The requests -/

/-- The body of `POST /api/orders/market`. -/
structure PlaceMarketOrderRequest where
  accountId : String
  symbol : String
  side : String
  qty : Binary64
  stopLossPrice : Binary64
  takeProfitPrice : Binary64
  coinTags : Option (List String) := none
  exchange : Option String := none
  strategyId : Option String := none
  signalId : Option String := none

/-- The body of `POST /api/orders/exit`. -/
structure PlaceExitOrderRequest where
  accountId : String
  symbol : String
  side : String
  qty : Binary64
  exitKind : String
  stopLossPrice : Option Binary64 := none
  takeProfitPrice : Option Binary64 := none
  coinTags : Option (List String) := none
  exchange : Option String := none
  strategyId : Option String := none
  signalId : Option String := none

/-- The side that a text names. -/
def parseSide (side : String) : Option ℤ :=
  let normalized := toAsciiUppercase (trim side)
  if normalized = "BUY" then some OrderSide.buy.code
  else if normalized = "SELL" then some OrderSide.sell.code
  else none

/-- The kind of exit that a text names, under either of its two names. -/
def normalizeExitKind (raw : String) : Option String :=
  let raw := toAsciiUppercase (trim raw)
  if raw = "STOP_LOSS" ∨ raw = "SL" then some "STOP_LOSS"
  else if raw = "TAKE_PROFIT" ∨ raw = "TP" then some "TAKE_PROFIT"
  else none

/-- The exchange of an order. -/
def exchangeOf (exchange : Option String) : String :=
  toAsciiLowercase (exchange.getD "binance")

/-! ### The reasons -/

/-- The reason of a market order, its members as a map of them is written. -/
def marketMeta (req : PlaceMarketOrderRequest) : Json :=
  .obj [("coin_tags", .arr ((req.coinTags.getD []).map .str)),
    ("exchange", .str (exchangeOf req.exchange)),
    ("origin", .str "api_gateway:/api/orders/market"),
    ("reason", .str "manual_market_with_tp_sl"),
    ("stop_loss_price", .ofF64 req.stopLossPrice),
    ("take_profit_price", .ofF64 req.takeProfitPrice)]

/-- The reason of an exit order. -/
def exitMeta (req : PlaceExitOrderRequest) (exitKind : String) : Json :=
  .obj [("coin_tags", .arr ((req.coinTags.getD []).map .str)),
    ("exchange", .str (exchangeOf req.exchange)),
    ("exit_kind", .str exitKind),
    ("origin", .str "api_gateway:/api/orders/exit"),
    ("reason", .str "manual_exit_order"),
    ("stop_loss_price", .ofF64 (req.stopLossPrice.getD .zero)),
    ("take_profit_price", .ofF64 (req.takeProfitPrice.getD .zero))]

/-! ### The handlers -/

section Handlers

variable (rt : Runtime) (toText : Json → String) (request : Request)

/-- The order of a market request. `toText` is the `Display` of a JSON value. -/
def handlePlaceMarketOrder (req : PlaceMarketOrderRequest) : Except StatusCode OrderCommand :=
  if req.qty.le .zero || req.stopLossPrice.le .zero || req.takeProfitPrice.le .zero then
    .error .badRequest
  else match parseSide req.side with
    | none => .error .badRequest
    | some side => .ok {
        accountId := req.accountId
        symbol := req.symbol
        clientOrderId := rt.showUuid request.clientOrderId
        side
        type := OrderType.market.code
        tif := TimeInForce.ioc.code
        qty := req.qty
        price := .zero
        reduceOnly := false
        stopPrice := req.stopLossPrice
        decisionReason := toText (marketMeta req)
        traceId := rt.showUuid request.traceId
        decisionTimeNs := request.nowNs
        schemaVersion := 1
        action := OrderAction.create.code
        strategyId := req.strategyId.getD ""
        signalId := req.signalId.getD "" }

/-- The order of an exit request. -/
def handlePlaceExitOrder (req : PlaceExitOrderRequest) : Except StatusCode OrderCommand :=
  if req.qty.le .zero then .error .badRequest
  else match parseSide req.side with
    | none => .error .badRequest
    | some side =>
        match normalizeExitKind req.exitKind with
        | none => .error .badRequest
        | some exitKind => .ok {
            accountId := req.accountId
            symbol := req.symbol
            clientOrderId := rt.showUuid request.clientOrderId
            side
            type := OrderType.market.code
            tif := TimeInForce.ioc.code
            qty := req.qty
            price := .zero
            reduceOnly := true
            stopPrice := req.stopLossPrice.getD .zero
            decisionReason := toText (exitMeta req exitKind)
            traceId := rt.showUuid request.traceId
            decisionTimeNs := request.nowNs
            schemaVersion := 1
            action := OrderAction.create.code
            strategyId := req.strategyId.getD ""
            signalId := req.signalId.getD "" }

/-- The close of a part of a stored position, of which the request gives the quantity. -/
def handlePartialClosePosition (qty : ℚ) (fetched : Except Unit (Option PositionRow)) :
    Except StatusCode OrderCommand :=
  let closeQty := (rt.decimalToF64 qty).getD .zero
  match fetched with
  | .error _ => .error .internalServerError
  | .ok none => .error .notFound
  | .ok (some pos) =>
      match pos.qty with
      | ⊤ => .error .internalServerError
      | (_ : ℤ) => .ok {
          accountId := pos.accountId
          symbol := pos.symbol
          clientOrderId := rt.showUuid request.clientOrderId
          side := if pos.side = .long then OrderSide.sell.code else OrderSide.buy.code
          type := OrderType.market.code
          tif := TimeInForce.ioc.code
          qty := closeQty
          price := .zero
          reduceOnly := true
          stopPrice := .zero
          decisionReason := "Manual Partial Close (" ++ rt.showF64 closeQty ++ ") via Dashboard"
          traceId := rt.showUuid request.traceId
          decisionTimeNs := request.nowNs
          schemaVersion := 1
          action := OrderAction.create.code
          strategyId := "manual-dashboard"
          signalId := "" }

end Handlers

end Gateway

/-! ### What orders are built for -/

/-- The trigger that a kind stands for. -/
def triggerOf (kind : String) : Option ExitTrigger :=
  if kind = "STOP_LOSS" then some .stopLoss
  else if kind = "TAKE_PROFIT" then some .takeProfit
  else none

/-- A request of the dashboard, or a turn of the strategy engine. -/
inductive Asked
  | market (request : Gateway.Request) (req : Gateway.PlaceMarketOrderRequest)
  | exit (request : Gateway.Request) (req : Gateway.PlaceExitOrderRequest)
  | close (request : Gateway.Request) (fetched : Except Unit (Option PositionRow))
  | partialClose (request : Gateway.Request) (qty : ℚ) (fetched : Except Unit (Option PositionRow))
  | cancel (request : Gateway.Request) (mock answers : Bool) (db : Db) (id : Uuid)
  | bulkCancel (env : Gateway.CancelAllEnv) (i : ℕ) (row : OrderRow)
  | manual (cfg : StrategyEngine.Config) (planner : StrategyEngine.IdempotencyPlanner)
      (traceId : String) (fresh : Uuid) (nowNs : ℤ)

namespace Asked

/-- The order that is submitted, if one is. -/
def command (rt : Runtime) (toText : Json → String) : Asked → Option OrderCommand
  | market request req => (Gateway.handlePlaceMarketOrder rt toText request req).toOption
  | exit request req => (Gateway.handlePlaceExitOrder rt toText request req).toOption
  | close request fetched => (Gateway.handleClosePosition rt request fetched).toOption
  | partialClose request qty fetched =>
      (Gateway.handlePartialClosePosition rt request qty fetched).toOption
  | cancel request mock answers db id =>
      (Gateway.handleCancelOrder rt request mock answers db id).toOption.join
  | bulkCancel env i row => some (Gateway.bulkCancel rt env i row)
  | manual cfg planner traceId fresh nowNs =>
      some (StrategyEngine.buildManualOrder rt cfg planner traceId fresh nowNs).1

/-- The object that the reason is the text of, if it is one. -/
def written : Asked → Option Json
  | market _ req => some (Gateway.marketMeta req)
  | exit _ req => (Gateway.normalizeExitKind req.exitKind).map (Gateway.exitMeta req)
  | _ => none

/-- The kind of exit that was asked for: only exit requests ask for one. -/
def exitKind : Asked → Option ExitTrigger
  | exit _ req => (Gateway.normalizeExitKind req.exitKind).bind triggerOf
  | _ => none

end Asked

/-- The label of an event whose order was an exit of some kind, or none. -/
def labelOf : Option ExitTrigger → OutcomeLabel
  | some .takeProfit => .win
  | some .stopLoss => .loss
  | none => .unknown

/-! ### Reading a reason -/

/-- A text that begins with the letter M, small or not, is no JSON. -/
def IgnoresWords (rt : Runtime) : Prop :=
  ∀ (s : String) (c : Char), s.toList.head? = some c → c = 'M' ∨ c = 'm' → rt.decisionMeta s = none

/-- The text of a value is not blank, and it is read with the kind of exit that the value has. -/
def ReadsKind (rt : Runtime) (toText : Json → String) (value : Json) : Prop :=
  trim (toText value) ≠ "" ∧ ∃ m, rt.decisionMeta (toText value) = some m ∧
    m.exitKind = (value.member "exit_kind").bind Json.getStr

variable {rt : Runtime} {toText : Json → String} {order : OrderCommand} {report : ExecutionReport}

/-- A word says nothing to the writer. -/
theorem IgnoresWords.meta_eq (h : IgnoresWords rt) {s : String} {c : Char}
    (hs : s.toList.head? = some c) (hc : c = 'M' ∨ c = 'm') : parseDecisionMeta rt s = {} := by
  rw [parseDecisionMeta, h s c hs hc]
  exact ite_self _

/-- The kind that the writer reads is that of the value. -/
theorem ReadsKind.exitKind_eq {value : Json} (h : ReadsKind rt toText value) :
    (parseDecisionMeta rt (toText value)).exitKind =
      (value.member "exit_kind").bind Json.getStr := by
  obtain ⟨hblank, m, hm, hkind⟩ := h
  rw [parseDecisionMeta, if_neg hblank, hm]
  exact hkind

/-- **The writer reads the kinds that the gateway writes**, and each as itself. -/
theorem normalizeExitKind_of_gateway {raw kind : String} {m : DecisionMeta}
    (h : Gateway.normalizeExitKind raw = some kind) (hm : m.exitKind = some kind) :
    ∃ trigger, triggerOf kind = some trigger ∧ normalizeExitKind m = some trigger := by
  have hkinds : kind = "STOP_LOSS" ∨ kind = "TAKE_PROFIT" := by
    rw [Gateway.normalizeExitKind] at h
    split at h
    · exact Or.inl (Option.some.inj h).symm
    · split at h
      · exact Or.inr (Option.some.inj h).symm
      · cases h
  rw [normalizeExitKind, hm]
  rcases hkinds with rfl | rfl
  · exact ⟨.stopLoss, by decide, by decide +kernel⟩
  · exact ⟨.takeProfit, by decide, by decide +kernel⟩

/-- Without a kind, an order that does not only reduce finds no trigger. -/
theorem detectExitTrigger_of_increasing {m : DecisionMeta} (hkind : m.exitKind = none)
    (hreduce : order.reduceOnly = false) : detectExitTrigger order report m = none := by
  rw [detectExitTrigger, normalizeExitKind, hkind]
  simp [hreduce]

/-- An order whose reason says nothing finds no trigger. -/
theorem detectExitTrigger_empty : detectExitTrigger order report {} = none := by
  rw [detectExitTrigger]
  simp [normalizeExitKind]

/-! ### What the writer finds -/

namespace Asked

/-- **A market order** finds no trigger, whatever its target, its stop and its price are. -/
theorem trigger_market {request : Gateway.Request} {req : Gateway.PlaceMarketOrderRequest}
    (hread : ReadsKind rt toText (Gateway.marketMeta req))
    (h : Gateway.handlePlaceMarketOrder rt toText request req = .ok order) :
    detectExitTrigger order report (parseDecisionMeta rt order.decisionReason) = none := by
  rw [Gateway.handlePlaceMarketOrder] at h
  split at h
  · cases h
  · split at h
    · cases h
    · obtain rfl := Except.ok.inj h
      exact detectExitTrigger_of_increasing hread.exitKind_eq rfl

/-- **An exit order** finds the kind that was asked for, whatever its price is. -/
theorem trigger_exit {request : Gateway.Request} {req : Gateway.PlaceExitOrderRequest}
    (hread : ∀ value ∈ (exit request req).written, ReadsKind rt toText value)
    (h : Gateway.handlePlaceExitOrder rt toText request req = .ok order) :
    detectExitTrigger order report (parseDecisionMeta rt order.decisionReason) =
      (exit request req).exitKind := by
  rw [Gateway.handlePlaceExitOrder] at h
  split at h
  · cases h
  · split at h
    · cases h
    · split at h
      · cases h
      · rename_i exitKind hkind
        obtain rfl := Except.ok.inj h
        have hreason := (hread _ (by rw [written, hkind]; rfl)).exitKind_eq
        obtain ⟨trigger, htrigger, hnormal⟩ := normalizeExitKind_of_gateway hkind hreason
        rw [Asked.exitKind, hkind, Option.bind_some, htrigger, detectExitTrigger, hnormal]

/-- What was submitted is what the handler answered with. -/
theorem ok_of_toOption {ε α : Type} {answer : Except ε α} {a : α} (h : answer.toOption = some a) :
    answer = .ok a := by
  cases answer with
  | error e => cases h
  | ok a' => exact congrArg Except.ok (Option.some.inj h)

/-- The reason of an order begins with the letter M, small or not. -/
def SaysWords (order : OrderCommand) : Prop :=
  ∃ c, order.decisionReason.toList.head? = some c ∧ (c = 'M' ∨ c = 'm')

/-- The close of a position says so. -/
theorem saysWords_close {request : Gateway.Request} {fetched : Except Unit (Option PositionRow)}
    (h : Gateway.handleClosePosition rt request fetched = .ok order) : SaysWords order := by
  match fetched with
  | .ok (some row) =>
      rw [Gateway.handleClosePosition] at h
      split at h
      · cases h
      · obtain rfl := Except.ok.inj h
        exact ⟨'M', by simp, Or.inl rfl⟩

/-- So does that of a part of one. -/
theorem saysWords_partialClose {request : Gateway.Request} {qty : ℚ}
    {fetched : Except Unit (Option PositionRow)}
    (h : Gateway.handlePartialClosePosition rt request qty fetched = .ok order) :
    SaysWords order := by
  match fetched with
  | .ok (some row) =>
      rw [Gateway.handlePartialClosePosition] at h
      split at h
      · cases h
      · obtain rfl := Except.ok.inj h
        exact ⟨'M', by simp, Or.inl rfl⟩

/-- So does a cancel. -/
theorem saysWords_cancel {request : Gateway.Request} {mock answers : Bool} {db : Db} {id : Uuid}
    (h : Gateway.handleCancelOrder rt request mock answers db id = .ok (some order)) :
    SaysWords order := by
  rw [Gateway.handleCancelOrder] at h
  split at h
  · cases h
  · split at h
    · cases h
    · cases h
    · split at h
      · cases h
      · obtain rfl := Option.some.inj (Except.ok.inj h)
        exact ⟨'M', by simp, Or.inl rfl⟩

/-- And so does an order of the strategy engine. -/
theorem saysWords_manual (cfg : StrategyEngine.Config)
    (planner : StrategyEngine.IdempotencyPlanner) (traceId : String) (fresh : Uuid) (nowNs : ℤ) :
    SaysWords (StrategyEngine.buildManualOrder rt cfg planner traceId fresh nowNs).1 := by
  refine ⟨'m', ?_, Or.inr rfl⟩
  show (if cfg.stopPrice.gt .zero then "manual-test tp/sl=0/" ++ rt.showF64Fixed2 cfg.stopPrice
    else "manual-test").toList.head? = some 'm'
  split
  · simp
  · rfl

/-- **An order whose reason is words** finds no trigger. -/
theorem trigger_words (hwords : IgnoresWords rt) (h : SaysWords order) :
    detectExitTrigger order report (parseDecisionMeta rt order.decisionReason) = none := by
  obtain ⟨c, hc, hletter⟩ := h
  rw [hwords.meta_eq hc hletter, detectExitTrigger_empty]

/-- **The trigger that the writer finds** for an order is the kind of exit that was asked for. -/
theorem trigger_eq (hwords : IgnoresWords rt) {a : Asked}
    (hread : ∀ value ∈ a.written, ReadsKind rt toText value)
    (h : a.command rt toText = some order) :
    detectExitTrigger order report (parseDecisionMeta rt order.decisionReason) = a.exitKind := by
  cases a with
  | market request req => exact trigger_market (hread _ rfl) (ok_of_toOption h)
  | exit request req => exact trigger_exit hread (ok_of_toOption h)
  | close request fetched => exact trigger_words hwords (saysWords_close (ok_of_toOption h))
  | partialClose request qty fetched =>
      exact trigger_words hwords (saysWords_partialClose (ok_of_toOption h))
  | cancel request mock answers db id =>
      exact trigger_words hwords
        (saysWords_cancel (ok_of_toOption (Option.join_eq_some_iff.mp h)))
  | bulkCancel env i row =>
      obtain rfl := Option.some.inj h
      exact trigger_words hwords ⟨'M', by simp [Gateway.bulkCancel], Or.inl rfl⟩
  | manual cfg planner traceId fresh nowNs =>
      obtain rfl := Option.some.inj h
      exact trigger_words hwords (saysWords_manual cfg planner traceId fresh nowNs)

end Asked

/-! ### What a run leaves -/

/-- A call of the writer, with what its order was built for. -/
structure Persisted where
  asked : Asked
  call : Call

/-- The kind of exit that a fill completes. -/
def Persisted.exitFill (p : Persisted) : Option ExitTrigger :=
  if p.call.isFill then p.asked.exitKind else none

/-- The label of a training event is that of the trigger of its call. -/
theorem outcomeLabel_eq {c : Call} {row : TrainingEventRow} (h : trainingEventRow rt c = .ok row) :
    (row.exitKind, row.outcomeLabel) = (callTrigger rt c, labelOf (callTrigger rt c)) := by
  obtain ⟨hkind, hlabel⟩ := label_of_trainingEventRow h
  rw [hkind, hlabel]
  cases htrigger : callTrigger rt c with
  | some trigger => cases trigger <;> rfl
  | none =>
      rw [outcomeFromExit]
      split_ifs <;> rfl

/-- A fill leaves a snapshot of its trigger, if it has one. -/
theorem exitTriggers_eq {c : Call} {rows : List ExitTagRow} (h : exitRows rt c = .ok rows) :
    rows.map ExitTagRow.exitTrigger = (callTrigger rt c).toList := by
  rw [exitRows] at h
  cases htrigger : callTrigger rt c with
  | none =>
      obtain rfl : [] = rows := by simpa [htrigger] using h
      rfl
  | some trigger =>
      cases hrow : exitTagRow rt c trigger with
      | error e => simp [htrigger, hrow, Except.map] at h
      | ok row =>
          obtain rfl : [row] = rows := by simpa [htrigger, hrow, Except.map] using h
          simp only [exitTagRow, bind_eq_ok_iff, sql_eq_ok_iff, pure_eq_ok_iff] at hrow
          obtain ⟨_, _, _, _, _, _, _, _, _, _, rfl⟩ := hrow
          rfl

/-- **A committed call** appends the label of its trigger, and a snapshot if it is a fill. -/
theorem labels_step {c : Call} {db db' : Db} (h : persistExecution rt c db = .ok db') :
    db'.orderTrainingEvents.map (fun row => (row.exitKind, row.outcomeLabel)) =
        db.orderTrainingEvents.map (fun row => (row.exitKind, row.outcomeLabel)) ++
          [(callTrigger rt c, labelOf (callTrigger rt c))] ∧
      db'.orderExitTagSnapshots.map ExitTagRow.exitTrigger =
        db.orderExitTagSnapshots.map ExitTagRow.exitTrigger ++
          (if c.isFill then callTrigger rt c else none).toList := by
  obtain ⟨hbase, hkind⟩ := persistExecution_ok_iff.mp h
  obtain ⟨row, hrow, htraining⟩ := hbase.orderTrainingEvents
  refine ⟨by rw [htraining, List.map_append, List.map_singleton, outcomeLabel_eq hrow], ?_⟩
  rcases hkind with ⟨hfill, heffect⟩ | ⟨hfill, heffect⟩
  · obtain ⟨rows, hrows, hexits⟩ := heffect.exits
    rw [hexits, List.map_append, exitTriggers_eq hrows, hfill, if_pos rfl]
  · rw [heffect.exits, hfill]
    simp

/-- **The labels of a run.** Whatever the gateway and the strategy engine were asked for, whatever
their orders met, and whatever calls fail: in every state of a run there is a training event for
each call that has committed, labelled with the kind of exit that was asked for, a win for a target
and a loss for a stop; and there is an exit snapshot of that kind for each fill among them. -/
theorem labels_run (rt : Runtime) (toText : Json → String) (inputs : List (Persisted × Bool))
    (hwords : IgnoresWords rt)
    (hread : ∀ i ∈ inputs, ∀ value ∈ i.1.asked.written, ReadsKind rt toText value)
    (horder : ∀ i ∈ inputs, i.1.asked.command rt toText = some i.1.call.order) :
    AlwaysWithCommits (fun p : Persisted => persistExecution rt p.call) {} inputs fun done db =>
      db.orderTrainingEvents.map (fun row => (row.exitKind, row.outcomeLabel)) =
          done.map (fun p => (p.asked.exitKind, labelOf p.asked.exitKind)) ∧
        db.orderExitTagSnapshots.map ExitTagRow.exitTrigger =
          done.filterMap Persisted.exitFill := by
  refine (alwaysWithCommits_iff ⟨rfl, rfl⟩).mpr fun pre p post db' hinputs hok h => ?_
  obtain ⟨htraining, hexits⟩ := h
  have hmem : (p, false) ∈ inputs := by simp [hinputs]
  have htrigger : callTrigger rt p.call = p.asked.exitKind :=
    Asked.trigger_eq hwords (hread _ hmem) (horder _ hmem)
  have hlast : [p].filterMap Persisted.exitFill = p.exitFill.toList := by
    rw [List.filterMap_cons]
    cases p.exitFill <;> rfl
  obtain ⟨htraining', hexits'⟩ := labels_step hok
  rw [htrigger] at htraining' hexits'
  constructor
  · rw [htraining', htraining, List.map_append, List.map_singleton]
  · rw [hexits', hexits, List.filterMap_append, hlast]
    rfl

/-! ### A target that is reached, and one that is asked for -/

/-- The reason of an exit at the target, as it is written. -/
def takeText : String :=
  "\x7b" ++ "\"coin_tags\":[\"hot\"],\"exchange\":\"binance\",\"exit_kind\":\"TAKE_PROFIT\"," ++
    "\"origin\":\"api_gateway:/api/orders/exit\",\"reason\":\"manual_exit_order\"," ++
    "\"stop_loss_price\":0.0,\"take_profit_price\":61000.0\x7d"

/-- The reason of a market order with a target and a stop. -/
def bracketText : String :=
  "\x7b" ++ "\"coin_tags\":[],\"exchange\":\"binance\"," ++
    "\"origin\":\"api_gateway:/api/orders/market\",\"reason\":\"manual_market_with_tp_sl\"," ++
    "\"stop_loss_price\":59000.0,\"take_profit_price\":61000.0\x7d"

/-- Both begin with a brace. -/
theorem head_entryTexts : takeText.toList.head? = some '\x7b' ∧
    bracketText.toList.head? = some '\x7b' := by
  constructor
  · rw [takeText, String.append_assoc, String.append_assoc, String.toList_append]
    rfl
  · rw [bracketText, String.append_assoc, String.append_assoc, String.toList_append]
    rfl

/-- The texts of these two. -/
def entryText (value : Json) : String :=
  if (value.member "exit_kind").isSome then takeText else bracketText

/-- What the writer reads in the first. -/
def takeMeta : DecisionMeta where
  takeProfitPrice := some (.fin 61000)
  coinTags := some ["hot"]
  exitKind := some "TAKE_PROFIT"

/-- What it reads in the second. -/
def bracketMeta : DecisionMeta where
  takeProfitPrice := some (.fin 61000)
  coinTags := some []

/-- The reference runtime, on these reasons. -/
def entryRuntime : Runtime :=
  { Runtime.reference with
    decisionMeta := fun s =>
      if s = takeText then some takeMeta else if s = bracketText then some bracketMeta else none
    parseJson := fun s => if s = takeText ∨ s = bracketText then some s else none }

/-- A market order with a target that the simulated price is above of. -/
def bracketRequest : Gateway.PlaceMarketOrderRequest where
  accountId := "paper-main"
  symbol := "BTCUSDT"
  side := "buy"
  qty := .fin 1
  stopLossPrice := .fin 59000
  takeProfitPrice := .fin 61000

/-- An exit at the target. -/
def takeRequest : Gateway.PlaceExitOrderRequest where
  accountId := "paper-main"
  symbol := "BTCUSDT"
  side := "SELL"
  qty := .fin 1
  exitKind := " tp "
  takeProfitPrice := some (.fin 61000)
  coinTags := some ["hot"]

/-- The order of the market request. -/
def bracketOrder : OrderCommand where
  accountId := "paper-main"
  symbol := "BTCUSDT"
  clientOrderId := "018f3c2e-0000-7000-8000-00000000000a"
  side := 1
  type := 1
  tif := 2
  qty := .fin 1
  price := .zero
  reduceOnly := false
  stopPrice := .fin 59000
  decisionReason := bracketText
  traceId := "018f3c2e-0000-7000-8000-0000000000f1"
  decisionTimeNs := 0
  schemaVersion := 1
  action := 1
  strategyId := ""
  signalId := ""

/-- The order of the exit request. -/
def takeOrder : OrderCommand :=
  { bracketOrder with
    clientOrderId := "018f3c2e-0000-7000-8000-00000000000b"
    side := 2
    reduceOnly := true
    stopPrice := .zero
    decisionReason := takeText
    traceId := "018f3c2e-0000-7000-8000-0000000000f2" }

/-- The market request. -/
def bracketAsked : Asked :=
  .market ⟨0x018f3c2e00007000800000000000000a, 0x018f3c2e0000700080000000000000f1, 0⟩ bracketRequest

/-- The exit request. -/
def takeAsked : Asked :=
  .exit ⟨0x018f3c2e00007000800000000000000b, 0x018f3c2e0000700080000000000000f2, 0⟩ takeRequest

/-- The last fill of the first order is persisted, and both fills of the second, of which the first
cannot be stored. -/
def entryRun : List (Persisted × Bool) :=
  (((buildReports Rounding.nearestEven (fun i => i) bracketOrder).drop 2).map fun report =>
      (⟨bracketAsked, .paper 0 bracketOrder report⟩, false)) ++
    ((buildReports Rounding.nearestEven (fun i => i + 10) takeOrder).drop 1).mapIdx fun i report =>
      (⟨takeAsked, .paper 0 takeOrder report⟩, i == 0)

/-- The calls of the run are for these two requests. -/
theorem asked_of_mem {i : Persisted × Bool} (h : i ∈ entryRun) :
    i.1.asked = bracketAsked ∧ i.1.call.order = bracketOrder ∨
      i.1.asked = takeAsked ∧ i.1.call.order = takeOrder := by
  rcases List.mem_append.mp h with h | h
  · obtain ⟨report, -, rfl⟩ := List.mem_map.mp h
    exact Or.inl ⟨rfl, rfl⟩
  · obtain ⟨i, -, rfl⟩ := List.mem_mapIdx.mp h
    exact Or.inr ⟨rfl, rfl⟩

/-- Neither reason begins with an M. -/
theorem entryRuntime_ignoresWords : IgnoresWords entryRuntime := by
  intro s c hs hc
  have hbrace : c ≠ '\x7b' := by rcases hc with rfl | rfl <;> decide
  have hne : s ≠ takeText ∧ s ≠ bracketText :=
    ⟨fun h => hbrace (Option.some.inj (hs.symm.trans (h ▸ head_entryTexts.1))),
      fun h => hbrace (Option.some.inj (hs.symm.trans (h ▸ head_entryTexts.2)))⟩
  simp [entryRuntime, hne.1, hne.2]

/-- Both reasons are read with their kinds. -/
theorem entryRuntime_readsKind :
    ReadsKind entryRuntime entryText (Gateway.marketMeta bracketRequest) ∧
      ReadsKind entryRuntime entryText (Gateway.exitMeta takeRequest "TAKE_PROFIT") := by
  have hbracket : entryText (Gateway.marketMeta bracketRequest) = bracketText :=
    if_neg (by decide +kernel)
  have htake : entryText (Gateway.exitMeta takeRequest "TAKE_PROFIT") = takeText :=
    if_pos (by decide +kernel)
  have hne : bracketText ≠ takeText := by decide +kernel
  have hbrace : isWhitespace '\x7b' = false := by decide
  rw [ReadsKind, ReadsKind, hbracket, htake]
  exact ⟨⟨trim_ne_empty head_entryTexts.2 hbrace, bracketMeta, by simp [entryRuntime, hne],
      by decide +kernel⟩,
    trim_ne_empty head_entryTexts.1 hbrace, takeMeta, by simp [entryRuntime], by decide +kernel⟩

/-- The kind of the exit request, under its full name. -/
theorem written_takeAsked :
    takeAsked.written = some (Gateway.exitMeta takeRequest "TAKE_PROFIT") := by
  have hkind : Gateway.normalizeExitKind takeRequest.exitKind = some "TAKE_PROFIT" := by
    decide +kernel
  rw [takeAsked, Asked.written, hkind]
  rfl

/-- The order with a target is filled above it and not labelled; the exit that was asked for is a
win. -/
theorem labels_run_entryRun :
    let done := commits (fun p : Persisted => persistExecution entryRuntime p.call) {} entryRun
    let db := run (fun p : Persisted => persistExecution entryRuntime p.call) {} entryRun
    done.map Persisted.exitFill = [none, some .takeProfit] ∧
      db.orderTrainingEvents.map (fun row => (row.exitKind, row.outcomeLabel)) =
          done.map (fun p => (p.asked.exitKind, labelOf p.asked.exitKind)) ∧
        db.orderExitTagSnapshots.map ExitTagRow.exitTrigger =
          done.filterMap Persisted.exitFill := by
  constructor
  · decide +kernel
  · refine labels_run entryRuntime entryText entryRun entryRuntime_ignoresWords
      (fun i hi value hvalue => ?_) (fun i hi => ?_) entryRun [] (List.append_nil _).symm
    · rcases asked_of_mem hi with ⟨hasked, -⟩ | ⟨hasked, -⟩ <;> rw [hasked] at hvalue
      · obtain rfl := Option.some.inj hvalue
        exact entryRuntime_readsKind.1
      · obtain rfl := Option.some.inj (written_takeAsked.symm.trans hvalue)
        exact entryRuntime_readsKind.2
    · rcases asked_of_mem hi with ⟨hasked, horder⟩ | ⟨hasked, horder⟩ <;>
        rw [hasked, horder] <;> decide +kernel

end HftPlatform
