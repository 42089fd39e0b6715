import HftPlatform.Config
import HftPlatform.DedupCache
import HftPlatform.Lib.Machine
import HftPlatform.WriterSpec

/-!
# The execution router

`services/execution_router/src/main.rs`: `handle_order`, which turns an order command into
reports that it persists and publishes, and the main loop, which decodes messages, drops the
duplicates among them and hands the rest to `handle_order`.

The outside of the router is a `World` (the database, the topic of reports, the exchange) and,
for each delivery, an `Env` that says what becomes of its requests.

## Main results

* `emitAll_committed`: the reports a call commits are the first ones of those it emits.
* `message_of_handled`: what the loop hands over is what was delivered.
* `run_inStep`: along every run the dedup cache knows the commands that were handed over.
* `reaches_iff`: the loop hands a command to `handle_order` exactly when it has handed over no
  command of the same id within the time to live of the dedup cache.
-/

namespace HftPlatform.Router

open Lib

/-- What becomes of a request to the database or to the broker. -/
inductive Link
  /-- It takes effect and is confirmed. -/
  | up
  /-- It takes no effect and fails. -/
  | down
  /-- It takes effect, but the confirmation is lost and it fails. -/
  | lost
  deriving DecidableEq, Repr

/-- What becomes of a request to the exchange. -/
inductive HttpReply
  | sendError
  | noText
  | response (status : ℕ) (body : String)
  deriving DecidableEq, Repr

/-- What happens around one delivery: the readings of the clocks and the fate of the requests,
each indexed by the number of the reading or the request. -/
structure Env where
  clock : ℕ → ℤ
  timestamp : ℤ
  txTime : ℕ → ℤ
  database : ℕ → Link
  broker : ℕ → Link
  exchange : HttpReply

/-- A delivery around which the links to the database and the broker are as given. -/
def Env.sample (database broker : ℕ → Link) : Env where
  clock i := i
  timestamp := 0
  txTime i := i
  database := database
  broker := broker
  exchange := .sendError

/-- The database, the reports committed to it, the reports published, and the queries of the
orders sent to the exchange. -/
structure World where
  db : Db := {}
  committed : List ExecutionReport := []
  published : List ExecutionReport := []
  placed : List String := []
  deriving DecidableEq, Repr

/-- What `handle_order` fails with; a transaction without an error of its own was failed by
its link. -/
inductive HandleError
  | persist (e : Option WriteError)
  | publish
  deriving DecidableEq, Repr

/-- `libs/rust/hft_exchange/src/binance/rest.rs` -/
structure BinanceRestClient where
  apiKey : String
  apiSecret : String
  baseUrl : String

def buildBinanceClient (cfg : Config) : Option BinanceRestClient :=
  if !eqIgnoreAsciiCase cfg.executionMode "REAL" then none
  else if !eqIgnoreAsciiCase cfg.exchange "BINANCE" then none
  else if cfg.binanceApiKey = "" ∨ cfg.binanceApiSecret = "" then none
  else some ⟨cfg.binanceApiKey, cfg.binanceApiSecret, cfg.binanceBaseUrl⟩

/-- The configuration of a router in PAPER mode. -/
def Config.paper : Config where
  kafkaTopicOrderCommands := "TOPIC_ORDERS_APPROVED"
  kafkaTopicExecutionReports := "TOPIC_FILLS"
  executionMode := "PAPER"
  exchange := "BINANCE"
  binanceBaseUrl := "https://fapi.binance.com"
  binanceApiKey := ""
  binanceApiSecret := ""

/-- The call of the writer for a report of an order, in a transaction at time `now`. -/
def Config.call (cfg : Config) (order : OrderCommand) (report : ExecutionReport) (now : ℤ) : Call :=
  { order, report, executionMode := cfg.executionMode, exchange := cfg.exchange, now }

section HandleOrder

variable (rt : Runtime) (cfg : Config) (env : Env)

/-- The query of an order, before it is signed. -/
def orderQuery (cmd : OrderCommand) : String :=
  "symbol=" ++ cmd.symbol ++ "&side=" ++ (if cmd.side = 1 then "BUY" else "SELL") ++
    "&type=MARKET&quantity=" ++ rt.showF64 cmd.qty ++ "&timestamp=" ++ toString env.timestamp

/-- What `place_order` makes of the exchange's reply. -/
def orderAck : HttpReply → Except String BinanceOrderAck
  | .sendError => .error "Failed to send Binance order"
  | .noText => .error "Failed to get response text"
  | .response status body =>
      if 200 ≤ status ∧ status < 300 then
        match rt.parseOrderAck body with
        | some ack => .ok ack
        | none => .error "Failed to parse BinanceOrderAck"
      else .error ("Binance order error: status=" ++ rt.showStatus status ++ ", body=" ++ body)

def placeOrder (cmd : OrderCommand) (w : World) : World × Except String BinanceOrderAck :=
  ({ w with placed := w.placed ++ [orderQuery rt env cmd] }, orderAck rt env.exchange)

/-- The `i`-th transaction of the delivery. -/
def persist (i : ℕ) (order : OrderCommand) (report : ExecutionReport) (w : World) :
    World × Except HandleError Unit :=
  match env.database i,
    DbWriter.persistExecution rt (cfg.call order report (env.txTime i)) w.db with
  | .down, _ => (w, .error (.persist none))
  | _, .error e => (w, .error (.persist (some e)))
  | .up, .ok db => ({ w with db, committed := w.committed ++ [report] }, .ok ())
  | .lost, .ok db =>
      ({ w with db, committed := w.committed ++ [report] }, .error (.persist none))

/-- The `i`-th report published in the delivery. -/
def publishReport (i : ℕ) (report : ExecutionReport) (w : World) :
    World × Except HandleError Unit :=
  match env.broker i with
  | .up => ({ w with published := w.published ++ [report] }, .ok ())
  | .down => (w, .error .publish)
  | .lost => ({ w with published := w.published ++ [report] }, .error .publish)

/-- Persist the `i`-th report, then publish it. -/
def emit (i : ℕ) (order : OrderCommand) (report : ExecutionReport) (w : World) :
    World × Except HandleError Unit :=
  match persist rt cfg env i order report w with
  | (w, .error e) => (w, .error e)
  | (w, .ok ()) => publishReport env i report w

/-- Emit reports in order, from the `i`-th on, up to the first failure. -/
def emitAll (i : ℕ) (order : OrderCommand) :
    List ExecutionReport → World → World × Except HandleError Unit
  | [], w => (w, .ok ())
  | report :: reports, w =>
      match emit rt cfg env i order report w with
      | (w, .error e) => (w, .error e)
      | (w, .ok ()) => emitAll (i + 1) order reports w

def handleOrder (client : Option BinanceRestClient) (order : OrderCommand) (w : World) :
    World × Except HandleError Unit :=
  if eqIgnoreAsciiCase cfg.executionMode "PAPER" then
    if order.action = OrderAction.cancel.code then
      emitAll rt cfg env 0 order [buildCancel (env.clock 0) order] w
    else
      emitAll rt cfg env 0 order (buildReports rt.fp env.clock order) w
  else
    let reject (reason : String) := [buildReject (env.clock 0) order reason]
    let exchange := toAsciiUppercase (trim cfg.exchange)
    if exchange = "BINANCE" then
      if client.isNone then emitAll rt cfg env 0 order (reject "BINANCE_CLIENT_NOT_CONFIGURED") w
      else if order.type ≠ OrderType.market.code then
        emitAll rt cfg env 0 order (reject "REAL_BINANCE_ONLY_SUPPORTS_MARKET") w
      else match placeOrder rt env order w with
        | (w, .ok ack) => emitAll rt cfg env 0 order [buildExchangeAck (env.clock 0) order ack] w
        | (w, .error e) => emitAll rt cfg env 0 order (reject ("BINANCE_ERROR:" ++ e)) w
    else if exchange = "OKX" then emitAll rt cfg env 0 order (reject "OKX_NOT_IMPLEMENTED") w
    else emitAll rt cfg env 0 order (reject "UNSUPPORTED_EXCHANGE") w

end HandleOrder

/-! ### What a delivery leaves in the world -/

section Emit

variable {rt : Runtime} {cfg : Config} {env : Env} {order : OrderCommand} {i : ℕ}
  {report : ExecutionReport} {reports : List ExecutionReport} {w : World}

/-- A transaction either fails with no effect, or commits its report. -/
theorem persist_cases (rt : Runtime) (cfg : Config) (env : Env) (i : ℕ) (order : OrderCommand)
    (report : ExecutionReport) (w : World) :
    (∃ e, persist rt cfg env i order report w = (w, .error e)) ∨
      ∃ db r, DbWriter.persistExecution rt (cfg.call order report (env.txTime i)) w.db = .ok db ∧
        persist rt cfg env i order report w =
          ({ w with db, committed := w.committed ++ [report] }, r) := by
  rw [persist]
  split
  · exact Or.inl ⟨_, rfl⟩
  · exact Or.inl ⟨_, rfl⟩
  · exact Or.inr ⟨_, _, by assumption, rfl⟩
  · exact Or.inr ⟨_, _, by assumption, rfl⟩

/-- Publishing leaves everything but the topic of reports alone. -/
theorem publishReport_fst (env : Env) (i : ℕ) (report : ExecutionReport) (w : World) :
    (publishReport env i report w).1 = w ∨
      (publishReport env i report w).1 = { w with published := w.published ++ [report] } := by
  rw [publishReport]
  cases env.broker i with
  | up => exact Or.inr rfl
  | down => exact Or.inl rfl
  | lost => exact Or.inr rfl

/-- A report that is emitted was not committed, or is now, and was then perhaps published. -/
theorem emit_cases (rt : Runtime) (cfg : Config) (env : Env) (i : ℕ) (order : OrderCommand)
    (report : ExecutionReport) (w : World) :
    (∃ e, emit rt cfg env i order report w = (w, .error e)) ∨
      ∃ db published,
        DbWriter.persistExecution rt (cfg.call order report (env.txTime i)) w.db = .ok db ∧
        (emit rt cfg env i order report w).1 =
          { w with db, committed := w.committed ++ [report], published } := by
  rw [emit]
  rcases persist_cases rt cfg env i order report w with ⟨e, h⟩ | ⟨db, r, hok, h⟩
  · rw [h]
    exact Or.inl ⟨e, rfl⟩
  · rw [h]
    refine Or.inr ⟨db, ?_⟩
    cases r with
    | error e => exact ⟨_, hok, rfl⟩
    | ok u =>
        rcases publishReport_fst env i report _ with h' | h'
        · exact ⟨_, hok, h'⟩
        · exact ⟨_, hok, h'⟩

/-- **The induction rule of emitted reports**: what every committed report preserves of the
world, whatever is published, all of them together preserve. -/
theorem emitAll_induction {P : World → Prop}
    (h : ∀ report ∈ reports, ∀ i w db published, P w →
      DbWriter.persistExecution rt (cfg.call order report (env.txTime i)) w.db = .ok db →
        P { w with db, committed := w.committed ++ [report], published })
    (hw : P w) : P (emitAll rt cfg env i order reports w).1 := by
  induction reports generalizing i w with
  | nil => exact hw
  | cons report reports ih =>
      have hemit : P (emit rt cfg env i order report w).1 := by
        rcases emit_cases rt cfg env i order report w with ⟨e, he⟩ | ⟨db, published, hok, he⟩
        · rw [he]
          exact hw
        · rw [he]
          exact h report List.mem_cons_self i w db published hw hok
      rw [emitAll]
      cases hr : emit rt cfg env i order report w with
      | mk w' r =>
          rw [hr] at hemit
          cases r with
          | error e => exact hemit
          | ok u => exact ih (fun r hr => h r (List.mem_cons_of_mem _ hr)) hemit

/-- Emitting reports sends nothing to the exchange. -/
theorem emitAll_placed : (emitAll rt cfg env i order reports w).1.placed = w.placed :=
  emitAll_induction (P := fun w' => w'.placed = w.placed) (fun _ _ _ _ _ _ h _ => h) rfl

/-- What was committed stays committed. -/
theorem emitAll_prefix : w.committed <+: (emitAll rt cfg env i order reports w).1.committed :=
  emitAll_induction (P := fun w' => w.committed <+: w'.committed)
    (fun _ _ _ _ _ _ h _ => h.trans (List.prefix_append _ _)) (List.prefix_refl _)

/-- The committed reports are the first ones of those that are emitted, and the writer can
bind each of them. -/
theorem emitAll_committed (rt : Runtime) (cfg : Config) (env : Env) (i : ℕ)
    (order : OrderCommand) (reports : List ExecutionReport) (w : World) : ∃ k,
    (emitAll rt cfg env i order reports w).1.committed = w.committed ++ reports.take k ∧
      ∀ r ∈ reports.take k, ∃ now, DbWriter.Bindable rt (cfg.call order r now) := by
  induction reports generalizing i w with
  | nil => exact ⟨0, by simp [emitAll], by simp⟩
  | cons report reports ih =>
      rw [emitAll]
      rcases emit_cases rt cfg env i order report w with ⟨e, he⟩ | ⟨db, published, hok, he⟩
      · rw [he]
        exact ⟨0, by simp, by simp⟩
      · have hbind := (DbWriter.persistExecution_isOk_iff.mp ⟨db, hok⟩).bindable
        cases hr : emit rt cfg env i order report w with
        | mk w' r =>
            obtain rfl : w' = _ := (congrArg Prod.fst hr).symm.trans he
            cases r with
            | error e => exact ⟨1, by simp, by simpa using ⟨_, hbind⟩⟩
            | ok u =>
                obtain ⟨k, hk, hall⟩ := ih (i + 1)
                  { w with db, committed := w.committed ++ [report], published }
                refine ⟨k + 1, by simpa using hk, ?_⟩
                rintro r (hr | ⟨_, hr⟩)
                · exact ⟨_, hbind⟩
                · exact hall r hr

end Emit

/-! ### The main loop -/

/-- A received message, decoded. -/
inductive Message
  | recvError
  | noPayload
  | undecodable
  | command (order : OrderCommand)
  deriving DecidableEq, Repr

/-- A message that arrives `delay` nanoseconds after the one before it. -/
structure Delivery where
  delay : ℕ
  message : Message
  env : Env

/-- What the loop does with a message. -/
inductive Event
  | ignored
  | noClientOrderId
  | duplicate (order : OrderCommand)
  | handled (order : OrderCommand) (time : ℕ) (result : Except HandleError Unit)
  deriving DecidableEq

/-- The time, the dedup cache and the world. -/
structure State where
  now : ℕ
  cache : DedupCache
  world : World

/-- The time to live of the dedup cache, one hour. -/
def ttl : ℕ := 60 * 60 * 1000000000

/-- The router starts with an empty cache in the world it finds. -/
def State.init (w : World) : State where
  now := 0
  cache := DedupCache.new ttl
  world := w

variable (rt : Runtime) (cfg : Config)

/-- One turn of the loop. -/
def step (s : State) (d : Delivery) : State × Event :=
  let now := s.now + d.delay
  match d.message with
  | .recvError | .noPayload | .undecodable => ({ s with now }, .ignored)
  | .command order =>
      if order.clientOrderId = "" then ({ s with now }, .noClientOrderId)
      else match s.cache.seenRecentlyOrInsert now order.clientOrderId with
        | (true, cache) => ({ s with now, cache }, .duplicate order)
        | (false, cache) =>
            let r := handleOrder rt cfg d.env (buildBinanceClient cfg) order s.world
            ({ now, cache, world := r.1 }, .handled order now r.2)

/-- The state and the events after a list of deliveries. -/
def run (w : World) (deliveries : List Delivery) : State × List Event :=
  Machine.run (step rt cfg) (State.init w) deliveries

/-! ### Which commands reach `handle_order` -/

/-- The ids and times of the commands that were handed to `handle_order`. -/
def handledCalls (events : List Event) : List (String × ℕ) :=
  events.filterMap fun
    | .handled order time _ => some (order.clientOrderId, time)
    | _ => none

/-- The delivery of `order` reaches `handle_order` when it comes after `pre`. -/
def Reaches (w : World) (pre : List Delivery) (d : Delivery) (order : OrderCommand) : Prop :=
  ∃ time result, (step rt cfg (run rt cfg w pre).1 d).2 = .handled order time result

/-- More than the time to live has passed since any earlier command of the id was handed to
`handle_order`. -/
def Rested (w : World) (pre : List Delivery) (d : Delivery) (clientOrderId : String) : Prop :=
  ∀ t, (clientOrderId, t) ∈ handledCalls (run rt cfg w pre).2 →
    ttl < (run rt cfg w pre).1.now + d.delay - t

variable {rt cfg} {s : State} {d : Delivery} {w : World} {events : List Event}

/-- A handled command is the one that was delivered, and it has an id. -/
theorem message_of_handled {order : OrderCommand} {time : ℕ} {result : Except HandleError Unit}
    (h : (step rt cfg s d).2 = .handled order time result) :
    d.message = .command order ∧ order.clientOrderId ≠ "" := by
  rw [step] at h
  cases hd : d.message with
  | recvError | noPayload | undecodable => simp [hd] at h
  | command order' =>
      simp only [hd] at h
      split at h
      · simp at h
      · rename_i hid
        split at h
        · simp at h
        · obtain ⟨rfl, -, -⟩ := Event.handled.inj h
          exact ⟨rfl, hid⟩

theorem handledCalls_append (e : Event) :
    handledCalls (events ++ [e]) = handledCalls events ++ handledCalls [e] := by
  simp [handledCalls]

/-- The dedup cache is in step with the commands that were handed over. -/
structure InStep (s : State) (events : List Event) : Prop where
  ttl : s.cache.ttl = ttl
  knows : s.cache.Knows s.now (handledCalls events)

/-- One turn of the loop keeps them in step. -/
theorem InStep.step (h : InStep s events) (d : Delivery) :
    InStep (step rt cfg s d).1 (events ++ [(step rt cfg s d).2]) := by
  have hlater : s.cache.Knows (s.now + d.delay) (handledCalls events) :=
    h.knows.later (Nat.le_add_right _ _)
  rw [Router.step]
  cases d.message with
  | recvError | noPayload | undecodable =>
      exact ⟨h.ttl, by simpa [handledCalls_append, handledCalls] using hlater⟩
  | command order =>
      simp only
      split
      · exact ⟨h.ttl, by simpa [handledCalls_append, handledCalls] using hlater⟩
      · have hknows := hlater.call order.clientOrderId
        have httl := (s.cache.seenRecentlyOrInsert_ttl (s.now + d.delay)
          order.clientOrderId).trans h.ttl
        cases hseen : s.cache.seenRecentlyOrInsert (s.now + d.delay) order.clientOrderId with
        | mk seen cache =>
            rw [hseen] at hknows httl
            cases seen with
            | true => exact ⟨httl, by simpa [handledCalls_append, handledCalls] using hknows⟩
            | false => exact ⟨httl, by simpa [handledCalls_append, handledCalls] using hknows⟩

/-- Every run keeps the dedup cache in step with the commands that were handed over. -/
theorem run_inStep (rt : Runtime) (cfg : Config) (w : World) (pre : List Delivery) :
    InStep (run rt cfg w pre).1 (run rt cfg w pre).2 :=
  Machine.run_induction (P := fun _ events s => InStep s events)
    ⟨rfl, DedupCache.knows_new ttl⟩ (fun _ _ _ d h => h.step d) pre

/-- **The loop hands a command over** exactly when it has rested. -/
theorem reaches_iff {pre : List Delivery} {order : OrderCommand}
    (hd : d.message = .command order) (hid : order.clientOrderId ≠ "") :
    Reaches rt cfg w pre d order ↔ Rested rt cfg w pre d order.clientOrderId := by
  obtain ⟨httl, hknows⟩ := run_inStep rt cfg w pre
  have hseen := (hknows.later (Nat.le_add_right _ d.delay)).seen_iff order.clientOrderId
  rw [httl] at hseen
  have hrested : Rested rt cfg w pre d order.clientOrderId ↔
      ¬ Recent ttl ((run rt cfg w pre).1.now + d.delay) (handledCalls (run rt cfg w pre).2)
        order.clientOrderId := by
    simp only [Rested, Recent, not_exists, not_and, not_le]
  rw [hrested, ← hseen, Reaches, step, hd]
  simp only [if_neg hid]
  cases (run rt cfg w pre).1.cache.seenRecentlyOrInsert ((run rt cfg w pre).1.now + d.delay)
    order.clientOrderId with
  | mk seen cache => cases seen <;> simp

end HftPlatform.Router
