import HftPlatform.CancelReplace
import HftPlatform.Emission
import HftPlatform.OrderState
import HftPlatform.Storable

/-!
# Orders at the exchange

In REAL mode the router sends an order first and looks at everything else afterwards: whatever
goes wrong with the exchange's answer is recorded as a rejection, and whether the order can be
stored at all is found out when its acknowledgement is.

## Main results

* `handleOrder_placed_eq`: a command that is sent on is recorded as acknowledged or as rejected.
* `noFalseRejection_iff`: when a recorded rejection means that the exchange did not accept.
* `sendsRecordable_iff`: when the router sends only what it can record.
-/

namespace HftPlatform.Router

open Lib DbWriter

section Exchange

variable (rt : Runtime) (cfg : Config) (env : Env) (order : OrderCommand) (w : World)

/-- The reply is an acknowledgement: a success status with a body that decodes. -/
def Acknowledges (reply : HttpReply) : Prop := ∃ status body ack,
  reply = .response status body ∧ 200 ≤ status ∧ status < 300 ∧ rt.parseOrderAck body = some ack

/-- The text of the reply that the record of a failed order quotes. -/
def quotedText : HttpReply → String
  | .sendError => ""
  | .noText => ""
  | .response status body =>
      if 200 ≤ status ∧ status < 300 then "" else rt.showStatus status ++ body

/-- The router sends the order to the exchange. -/
def Sends : Prop :=
  (handleOrder rt cfg env (buildBinanceClient cfg) order w).1.placed ≠ w.placed

/-- The router persists a REJECTED report. -/
def PersistsReject : Prop := ∃ new,
  (handleOrder rt cfg env (buildBinanceClient cfg) order w).1.committed = w.committed ++ new ∧
    ∃ report ∈ new, report.status = ExecutionStatus.rejected.code

/-- A REJECTED report that the router persists means that the exchange did not accept the order;
`accepts` is whether the exchange accepts what it is sent. -/
def NoFalseRejection (accepts : Bool) : Prop :=
  PersistsReject rt cfg env order w → ¬ (Sends rt cfg env order w ∧ accepts = true)

end Exchange

variable {rt : Runtime} {cfg : Config} {env : Env} {order : OrderCommand} {w : World}

/-- A reply that is taken for an acknowledgement is one. -/
theorem acknowledges_iff {reply : HttpReply} :
    Acknowledges rt reply ↔ ∃ ack, orderAck rt reply = .ok ack := by
  constructor
  · rintro ⟨status, body, ack, rfl, h200, h300, hack⟩
    exact ⟨ack, by simp [orderAck, h200, h300, hack]⟩
  · rintro ⟨ack, h⟩
    cases reply with
    | sendError => simp [orderAck] at h
    | noText => simp [orderAck] at h
    | response status body =>
        rw [orderAck] at h
        split at h
        · rename_i hstatus
          split at h
          · rename_i ack' hack
            exact ⟨status, body, ack', rfl, hstatus.1, hstatus.2, hack⟩
          · simp at h
        · simp at h

/-- The record of a failed order can be stored when the text it quotes can be. -/
theorem nulFree_error_iff {reply : HttpReply} {e : String} (h : orderAck rt reply = .error e) :
    NulFree e ↔ NulFree (quotedText rt reply) := by
  cases reply with
  | sendError | noText =>
      obtain rfl := Except.error.inj h
      exact iff_of_true (by decide) nulFree_empty
  | response status body =>
      rw [orderAck] at h
      rw [quotedText]
      split at h
      · split at h
        · simp at h
        · obtain rfl := Except.error.inj h
          rw [if_pos (by assumption)]
          exact iff_of_true (by decide) nulFree_empty
      · rename_i hstatus
        obtain rfl := Except.error.inj h
        rw [if_neg hstatus]
        simp only [nulFree_append]
        have h₁ : NulFree "Binance order error: status=" := by decide
        have h₂ : NulFree ", body=" := by decide
        simp [h₁, h₂]

/-- A router that sends orders on is not in PAPER mode. -/
theorem not_paper_of_placed (h : Placed cfg order) :
    eqIgnoreAsciiCase cfg.executionMode "PAPER" = false := by
  obtain ⟨-, hclient, -⟩ := h
  rw [buildBinanceClient] at hclient
  split at hclient
  · simp at hclient
  · rename_i hreal
    simp only [Bool.not_eq_true', Bool.not_eq_false, eqIgnoreAsciiCase, decide_eq_true_eq] at hreal
    rw [eqIgnoreAsciiCase, hreal]
    decide

/-- The world after the order is sent. -/
def sentWorld (rt : Runtime) (env : Env) (order : OrderCommand) (w : World) : World :=
  { w with placed := w.placed ++ [orderQuery rt env order] }

/-- **A command that is sent on** emits one report: the acknowledgement of the exchange's
answer, or a rejection. -/
theorem handleOrder_placed_eq (h : Placed cfg order) :
    handleOrder rt cfg env (buildBinanceClient cfg) order w =
      emitAll rt cfg env 0 order [match orderAck rt env.exchange with
        | .ok ack => buildExchangeAck (env.clock 0) order ack
        | .error e => buildReject (env.clock 0) order ("BINANCE_ERROR:" ++ e)]
        (sentWorld rt env order w) := by
  have hpaper := not_paper_of_placed h
  obtain ⟨hexchange, hclient, htype⟩ := h
  obtain ⟨client, hclient⟩ := Option.isSome_iff_exists.mp hclient
  rw [handleOrder, if_neg (by simp [hpaper])]
  simp only [if_pos hexchange, hclient, Option.isNone_some, Bool.false_eq_true, if_false, htype,
    ne_eq, not_true_eq_false]
  cases hack : orderAck rt env.exchange <;> simp only [placeOrder, hack, sentWorld]

/-- The router sends a command exactly when it is one that it sends on. -/
theorem sends_iff : Sends rt cfg env order w ↔ Placed cfg order := by
  rw [Sends]
  cases hpaper : eqIgnoreAsciiCase cfg.executionMode "PAPER" with
  | true =>
      have hnot : ¬ Placed cfg order := fun h => by
        simp [not_paper_of_placed h] at hpaper
      rw [handleOrder, if_pos hpaper]
      split <;> simp [emitAll_placed, hnot]
  | false =>
      rw [handleOrder_placed hpaper]
      split <;> simp_all

/-! ### What is recorded of an order that is sent on -/

/-- A rejection of the order is stored when the order and the reason can be. -/
theorem storable_reject_iff {now t : ℤ} {reason : String} :
    Storable rt (cfg.call order (buildReject now order reason) t) ↔
      OrderStorable rt cfg order ∧ NulFree reason := by
  rw [storable_call_iff ⟨rfl, rfl, rfl, rfl, rfl, rfl, rfl⟩]
  constructor
  · rintro ⟨horder, htexts, -, -⟩
    simp only [List.forall_mem_cons] at htexts
    exact ⟨horder, htexts.2.1⟩
  · rintro ⟨horder, hreason⟩
    have hid : NulFree order.clientOrderId := horder.texts _ (by simp)
    refine ⟨horder, ?_, by simp [buildReject, baseReport, fitsColumn_zero], fun hfill => ?_⟩
    · simp only [List.forall_mem_cons]
      exact ⟨nulFree_append.mpr ⟨by decide, hid⟩, hreason, nulFree_empty, by simp⟩
    · simp [Call.isFill, Config.call, isFillLike, buildReject, ExecutionStatus.code] at hfill

/-- An acknowledgement of the order is stored when the order can be. -/
theorem storable_exchangeAck_iff {now t : ℤ} {ack : BinanceOrderAck} :
    Storable rt (cfg.call order (buildExchangeAck now order ack) t) ↔
      OrderStorable rt cfg order := by
  rw [storable_call_iff ⟨rfl, rfl, rfl, rfl, rfl, rfl, rfl⟩]
  refine ⟨And.left, fun horder => ⟨horder, ?_, ?_, fun hfill => ?_⟩⟩
  · simp only [List.forall_mem_cons]
    exact ⟨nulFree_toString _, nulFree_empty,
      nulFree_append.mpr ⟨by decide, nulFree_toString _⟩, by simp⟩
  · simp [buildExchangeAck, baseReport, fitsColumn_zero]
  · simp [Call.isFill, Config.call, isFillLike, buildExchangeAck, ExecutionStatus.code] at hfill

/-- A report that the writer accepts is committed when the database can be reached. -/
theorem emit_committed_of_ok {report : ExecutionReport} {i : ℕ} {db : Db}
    (hdown : env.database i ≠ .down)
    (hok : persistExecution rt (cfg.call order report (env.txTime i)) w.db = .ok db) :
    (emit rt cfg env i order report w).1.committed = w.committed ++ [report] := by
  rw [emit, persist, hok]
  cases hlink : env.database i with
  | down => exact absurd hlink hdown
  | lost => rfl
  | up =>
      simp only
      rcases publishReport_fst env i report
        { w with db, committed := w.committed ++ [report] } with h | h <;> rw [h]

/-- One report that fills nothing is committed exactly when the database can be reached and its
values can be stored. -/
theorem emitAll_singleton_cases (rt : Runtime) (cfg : Config) (env : Env) (order : OrderCommand)
    (w : World) {report : ExecutionReport} (hfill : isFillLike report = false) :
    env.database 0 ≠ .down ∧ Bindable rt (cfg.call order report (env.txTime 0)) ∧
        (emitAll rt cfg env 0 order [report] w).1.committed = w.committed ++ [report] ∨
      ¬ (env.database 0 ≠ .down ∧ Bindable rt (cfg.call order report (env.txTime 0))) ∧
        (emitAll rt cfg env 0 order [report] w).1.committed = w.committed := by
  have hnofill : (cfg.call order report (env.txTime 0)).isFill = false := by
    simp [Call.isFill, Config.call, hfill]
  have hstep :
      (emitAll rt cfg env 0 order [report] w).1 = (emit rt cfg env 0 order report w).1 := by
    rw [emitAll]
    cases hemit : emit rt cfg env 0 order report w with
    | mk w' r => cases r <;> rfl
  rw [hstep]
  by_cases hdown : env.database 0 = .down
  · exact Or.inr ⟨by simp [hdown], by simp [emit, persist, hdown]⟩
  · by_cases hbind : Bindable rt (cfg.call order report (env.txTime 0))
    · refine Or.inl ⟨hdown, hbind, ?_⟩
      obtain ⟨db, hdb⟩ := persistExecution_isOk_iff.mpr (accepted_of_not_fill w.db hbind hnofill)
      exact emit_committed_of_ok hdown hdb
    · refine Or.inr ⟨fun h => hbind h.2, ?_⟩
      rcases emit_cases rt cfg env 0 order report w with ⟨e, he⟩ | ⟨db', published, hok, he⟩
      · rw [he]
      · exact absurd (persistExecution_isOk_iff.mp ⟨db', hok⟩).bindable hbind

/-- A sent order is recorded as rejected exactly when the reply is no acknowledgement, the
database can be reached, and the order and the text of the reply can be stored. -/
theorem persistsReject_iff (h : Placed cfg order) : PersistsReject rt cfg env order w ↔
    ¬ Acknowledges rt env.exchange ∧ env.database 0 ≠ .down ∧ OrderStorable rt cfg order ∧
      NulFree (quotedText rt env.exchange) := by
  rw [PersistsReject, handleOrder_placed_eq h, acknowledges_iff]
  cases hack : orderAck rt env.exchange with
  | ok ack =>
      refine iff_of_false ?_ fun h => h.1 ⟨ack, rfl⟩
      rintro ⟨new, hnew, report, hreport, hstatus⟩
      have hnofill : isFillLike (buildExchangeAck (env.clock 0) order ack) = false := rfl
      rcases emitAll_singleton_cases rt cfg env order (sentWorld rt env order w) hnofill with
        ⟨-, -, hc⟩ | ⟨-, hc⟩
      · obtain rfl : [buildExchangeAck (env.clock 0) order ack] = new :=
          List.append_cancel_left (hc.symm.trans hnew)
        rw [List.mem_singleton.mp hreport] at hstatus
        simp [buildExchangeAck, ExecutionStatus.code] at hstatus
      · obtain rfl : [] = new :=
          List.append_cancel_left ((List.append_nil _).trans (hc.symm.trans hnew))
        simp at hreport
  | error e =>
      have hnotack : ¬ ∃ ack, (.error e : Except String BinanceOrderAck) = .ok ack := by simp
      have hquoted : NulFree ("BINANCE_ERROR:" ++ e) ↔ NulFree (quotedText rt env.exchange) := by
        rw [nulFree_append, nulFree_error_iff hack]
        exact and_iff_right (by decide)
      have hstorable : Bindable rt (cfg.call order
          (buildReject (env.clock 0) order ("BINANCE_ERROR:" ++ e)) (env.txTime 0)) ↔
            OrderStorable rt cfg order ∧ NulFree (quotedText rt env.exchange) := by
        rw [bindable_iff, storable_reject_iff, hquoted]
      have hnofill : isFillLike (buildReject (env.clock 0) order ("BINANCE_ERROR:" ++ e)) = false :=
        rfl
      have hcases := emitAll_singleton_cases rt cfg env order (sentWorld rt env order w) hnofill
      rw [hstorable] at hcases
      rcases hcases with ⟨hup, hstored, hc⟩ | ⟨hnot, hc⟩
      · exact iff_of_true ⟨_, hc, _, List.mem_singleton.mpr rfl, rfl⟩ ⟨hnotack, hup, hstored⟩
      · refine iff_of_false ?_ fun h => hnot h.2
        rintro ⟨new, hnew, report, hreport, -⟩
        obtain rfl : [] = new :=
          List.append_cancel_left ((List.append_nil _).trans (hc.symm.trans hnew))
        simp at hreport

/-- **When a recorded rejection means that the exchange did not accept**: exactly when the order
is not sent, or the exchange does not accept it, or its reply is an acknowledgement, or the
rejection cannot be recorded. -/
theorem noFalseRejection_iff (rt : Runtime) (cfg : Config) (env : Env) (order : OrderCommand)
    (w : World) (accepts : Bool) : NoFalseRejection rt cfg env order w accepts ↔
      ¬ Placed cfg order ∨ accepts = false ∨ Acknowledges rt env.exchange ∨
        env.database 0 = .down ∨ ¬ OrderStorable rt cfg order ∨
          ¬ NulFree (quotedText rt env.exchange) := by
  rw [NoFalseRejection, sends_iff]
  by_cases hplaced : Placed cfg order
  · rw [persistsReject_iff hplaced]
    cases accepts <;> simp [hplaced]
    tauto
  · exact iff_of_true (fun _ h => hplaced h.1) (Or.inl hplaced)

/-- A MARKET order, sent to an exchange that answers as given. -/
def sentOrder : OrderCommand :=
  OrderCommand.sample "018f3c2e-0000-7000-8000-00000000000a" 1 1 1 1 60000

def answeredEnv (reply : HttpReply) : Env :=
  { Env.sample (fun _ => .up) fun _ => .up with exchange := reply }

/-- The body with which the exchange acknowledges an order. It names the order's id `orderId`,
where the decoder looks for `order_id`. -/
def exchangeBody : String :=
  "\x7b\"symbol\":\"BTCUSDT\",\"orderId\":7,\"clientOrderId\":\"x\",\"transactTime\":1\x7d"

/-- A run from an empty world that leaves one rejection and one query is a false rejection of an
order that the exchange accepts. -/
theorem not_noFalseRejection_of_eq {reply : HttpReply}
    (h : let w := (handleOrder rt cfg (answeredEnv reply) (buildBinanceClient cfg) order {}).1
      (w.committed.map ExecutionReport.status, w.placed.length) =
        ([ExecutionStatus.rejected.code], 1)) :
    ¬ NoFalseRejection rt cfg (answeredEnv reply) order {} true := by
  obtain ⟨hcommitted, hplaced⟩ := Prod.mk.inj h
  obtain ⟨report, hreport, hstatus⟩ := List.map_eq_singleton_iff.mp hcommitted
  refine fun hno => hno ⟨[report], hreport, report, List.mem_singleton.mpr rfl, hstatus⟩ ⟨?_, rfl⟩
  intro hnone
  rw [hnone] at hplaced
  simp at hplaced

/-- An accepted order is recorded as rejected when the reply is lost, and when it arrives. -/
theorem falselyRejected :
    ¬ NoFalseRejection Runtime.reference realConfig (answeredEnv .noText) sentOrder {} true ∧
      ¬ NoFalseRejection Runtime.reference realConfig (answeredEnv (.response 200 exchangeBody))
        sentOrder {} true :=
  ⟨not_noFalseRejection_of_eq (by decide +kernel), not_noFalseRejection_of_eq (by decide +kernel)⟩

/-! ### Sending what can be recorded -/

/-- The delivery carries the command and the loop's own checks let it through: it has an id, and
none that the dedup cache has seen recently. -/
structure Passes (s : State) (d : Delivery) (order : OrderCommand) : Prop where
  message : d.message = .command order
  id : order.clientOrderId ≠ ""
  fresh : (s.cache.seenRecentlyOrInsert (s.now + d.delay) order.clientOrderId).1 = false

/-- The database and the broker confirm every request. -/
structure Healthy (env : Env) : Prop where
  database : ∀ i, env.database i = .up
  broker : ∀ i, env.broker i = .up

/-- The acknowledgement of an order is committed to `orders` and published between two worlds. -/
structure AckRecorded (rt : Runtime) (now : ℤ) (order : OrderCommand) (ack : BinanceOrderAck)
    (w w' : World) : Prop where
  committed : w'.committed = w.committed ++ [buildExchangeAck now order ack]
  published : w'.published = w.published ++ [buildExchangeAck now order ack]
  row : ∃ u row, rt.parseUuid order.clientOrderId = some u ∧ w'.db.order u = some row ∧
    row.status = .new ∧ row.exchangeOrderId = some (toString ack.orderId)

/-- What one turn of the loop sends to the exchange has a UUID, and what the exchange
acknowledges is recorded when the database and the broker are healthy. -/
structure SendsRecordable (rt : Runtime) (cfg : Config) (s : State) (d : Delivery)
    (order : OrderCommand) : Prop where
  uuid : (step rt cfg s d).1.world.placed ≠ s.world.placed →
    ∃ u, rt.parseUuid order.clientOrderId = some u
  recorded : ∀ ack, (step rt cfg s d).1.world.placed ≠ s.world.placed →
    orderAck rt d.env.exchange = .ok ack → Healthy d.env →
      AckRecorded rt (d.env.clock 0) order ack s.world (step rt cfg s d).1.world

/-- A command that passes the checks of the loop is handled. -/
theorem Passes.step_world {s : State} {d : Delivery} (h : Passes s d order) :
    (step rt cfg s d).1.world =
      (handleOrder rt cfg d.env (buildBinanceClient cfg) order s.world).1 := by
  obtain ⟨hmessage, hid, hfresh⟩ := h
  rw [step, hmessage]
  simp only [if_neg hid]
  cases hseen : s.cache.seenRecentlyOrInsert (s.now + d.delay) order.clientOrderId with
  | mk seen cache =>
      rw [hseen] at hfresh
      obtain rfl : seen = false := hfresh
      rfl

/-- The order that a committed call stores: the report's status and exchange order id. -/
theorem order_of_persist {c : Call} {db db' : Db} (h : persistExecution rt c db = .ok db') :
    ∃ u row, rt.parseUuid c.order.clientOrderId = some u ∧ db'.order u = some row ∧
      row.status = mapStatus c.report.status ∧
        row.exchangeOrderId = nullIfEmpty c.report.exchangeOrderId := by
  have hbase := (persistExecution_ok_iff.mp h).1
  obtain ⟨sent, hsent, -⟩ := hbase.orders
  have hu := (orderRow_spec hsent).1
  obtain ⟨row, hrow, hcarries⟩ := hbase.carries hu
  exact ⟨sent.clientOrderId, row, hu, hrow, hcarries.status, hcarries.exchangeOrderId⟩

/-- Where the links are healthy, one report that the writer accepts is committed and published. -/
theorem emitAll_singleton_healthy {report : ExecutionReport} (henv : Healthy env) {db : Db}
    (hok : persistExecution rt (cfg.call order report (env.txTime 0)) w.db = .ok db) :
    (emitAll rt cfg env 0 order [report] w).1 =
      { w with
        db, committed := w.committed ++ [report], published := w.published ++ [report] } := by
  simp only [emitAll, emit, persist, publishReport, henv.database, henv.broker, hok]

/-- **When the router sends only what it can record**: exactly when the command is not one that
it sends on, or its id is a UUID and its other values can be stored. The other values count only
when the exchange acknowledges the order and the links are healthy. -/
theorem sendsRecordable_iff (rt : Runtime) (cfg : Config) (s : State) (d : Delivery)
    (order : OrderCommand) (hpass : Passes s d order) : SendsRecordable rt cfg s d order ↔
      (Placed cfg order → (∃ u, rt.parseUuid order.clientOrderId = some u) ∧
        (Acknowledges rt d.env.exchange → Healthy d.env → OrderStorable rt cfg order)) := by
  have hsends : (step rt cfg s d).1.world.placed ≠ s.world.placed ↔ Placed cfg order := by
    rw [hpass.step_world]
    exact sends_iff
  constructor
  · rintro ⟨huuid, hrecorded⟩ hplaced
    refine ⟨huuid (hsends.mpr hplaced), fun hack henv => ?_⟩
    obtain ⟨ack, hack⟩ := acknowledges_iff.mp hack
    have hcommitted := (hrecorded ack (hsends.mpr hplaced) hack henv).committed
    rw [hpass.step_world, handleOrder_placed_eq hplaced, hack] at hcommitted
    have hnofill : isFillLike (buildExchangeAck (d.env.clock 0) order ack) = false := rfl
    rcases emitAll_singleton_cases rt cfg d.env order (sentWorld rt d.env order s.world)
      hnofill with ⟨-, hbind, -⟩ | ⟨-, hnone⟩
    · exact storable_exchangeAck_iff.mp (bindable_iff.mp hbind)
    · exact absurd (hnone.symm.trans hcommitted) (by simp [sentWorld])
  · intro h
    refine ⟨fun hsent => (h (hsends.mp hsent)).1, fun ack hsent hack henv => ?_⟩
    have hplaced := hsends.mp hsent
    have hstorable := (h hplaced).2 (acknowledges_iff.mpr ⟨ack, hack⟩) henv
    have hbind : Bindable rt (cfg.call order (buildExchangeAck (d.env.clock 0) order ack)
        (d.env.txTime 0)) := bindable_iff.mpr (storable_exchangeAck_iff.mpr hstorable)
    obtain ⟨db, hdb⟩ :=
      persistExecution_isOk_iff.mpr (accepted_of_not_fill s.world.db hbind (by rfl))
    obtain ⟨u, row, hu, hrow, hstatus, hexchange⟩ := order_of_persist hdb
    rw [hpass.step_world, handleOrder_placed_eq hplaced, hack]
    rw [emitAll_singleton_healthy (w := sentWorld rt d.env order s.world) henv hdb]
    refine ⟨rfl, rfl, u, row, hu, hrow, hstatus, hexchange.trans ?_⟩
    rw [nullIfEmpty, if_neg]
    · rfl
    · exact toString_ne_empty _

/-- The body of an acknowledgement with the field names of the decoder. -/
def decodableBody : String :=
  "\x7b\"symbol\":\"BTCUSDT\",\"order_id\":7,\"clientOrderId\":\"x\",\"transactTime\":1\x7d"

/-- A runtime that decodes that body. -/
def ackRuntime : Runtime :=
  { Runtime.reference with
    parseOrderAck := fun body =>
      if body = decodableBody then some ⟨"BTCUSDT", 7, "x", 1⟩ else none }

/-- The delivery of a command, to which the exchange answers with that acknowledgement. -/
def acknowledgedDelivery (order : OrderCommand) : Delivery where
  delay := 0
  message := .command order
  env := answeredEnv (.response 200 decodableBody)

theorem sendsRecordable_iff_sentOrder :
    SendsRecordable ackRuntime realConfig (State.init {}) (acknowledgedDelivery sentOrder)
        sentOrder ↔
      (Placed realConfig sentOrder →
        (∃ u, ackRuntime.parseUuid sentOrder.clientOrderId = some u) ∧
          (Acknowledges ackRuntime (acknowledgedDelivery sentOrder).env.exchange →
            Healthy (acknowledgedDelivery sentOrder).env →
              OrderStorable ackRuntime realConfig sentOrder)) :=
  sendsRecordable_iff _ _ _ _ _ ⟨rfl, by decide, by decide +kernel⟩

/-- An order whose id is no UUID. -/
def namelessOrder : OrderCommand := { sentOrder with clientOrderId := "abc" }

/-- It passes the checks of the loop and is sent to the exchange, which acknowledges it. -/
theorem namelessOrder_sent :
    Passes (State.init {}) (acknowledgedDelivery namelessOrder) namelessOrder ∧
      ¬ SendsRecordable ackRuntime realConfig (State.init {}) (acknowledgedDelivery namelessOrder)
        namelessOrder := by
  refine ⟨⟨rfl, by decide, by decide +kernel⟩, fun h => ?_⟩
  obtain ⟨u, hu⟩ := h.uuid (by decide +kernel)
  simp [show ackRuntime.parseUuid namelessOrder.clientOrderId = none by decide +kernel] at hu

end HftPlatform.Router
