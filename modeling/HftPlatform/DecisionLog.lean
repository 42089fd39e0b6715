import HftPlatform.DbWriter
import HftPlatform.Lib.Attempt
import HftPlatform.Lib.Json
import HftPlatform.Lib.Machine
import HftPlatform.StrategyEngine

/-!
# The strategy engine and its decision log

`services/strategy_engine/src/main.rs` and `decision_log/writer.rs`. Each turn of the loop publishes
an order and then logs the decision in PostgreSQL; the first step that fails ends the process, and
the process may be started again. The heartbeats and the text logs are left out.

## Main results

* `turn_leaves`: what a turn leaves on the topic and in the database.
* `main_journaled`: what a process keeps.
* `journaled_run`: over any restarts, the decisions are those of published orders, and an order has
  none only where a process failed.
-/

namespace HftPlatform.StrategyEngine

open Lib

/-! ### What is logged -/

/-- The `signal_direction` type of the database. -/
inductive SignalDirection
  | long
  | short
  | neutral
  deriving DecidableEq

/-- The `decision_action` type of the database. -/
inductive DecisionAction
  | enter
  | exit
  | rejected
  | none
  deriving DecidableEq

/-- A row of `decision_logs`. -/
structure DecisionRow where
  traceId : Option Uuid
  accountId : String
  symbol : String
  direction : SignalDirection
  action : DecisionAction := .enter
  blockReason : Option String := none
  confidence : ℚ := 1
  modelVersion : String := "manual"
  featureVersion : String := "manual"
  strategyVersion : String := "strategy-p0"
  entryPrice : Option Numeric
  qty : Numeric
  tpPrice : Option Numeric := none
  slPrice : Option Numeric
  features : Json
  decidedAt : ℤ

/-- A row of `strat_logs`. -/
structure StratLogRow where
  strategyVersionId : String
  symbol : String
  logLevel : String := "INFO"
  eventCode : String
  message : String
  contextJson : Json := .obj []
  eventTime : ℤ

/-- The row that `write_enter` binds for an order, unless the database refuses a value. -/
def enterRow (rt : Runtime) (order : OrderCommand) (now : ℤ) : Except PgError DecisionRow := do
  return {
    traceId := rt.parseUuid order.traceId
    accountId := ← pgText order.accountId
    symbol := ← pgText order.symbol
    direction := if order.side = OrderSide.sell.code then .short else .long
    entryPrice := ← numeric20NullIfZero rt order.price
    qty := ← numeric20 rt order.qty
    slPrice := ← numeric20NullIfZero rt order.stopPrice
    features := .obj [("decision_reason", .str order.decisionReason), ("source", .str "manual"),
      ("tp_sl", .obj [
        ("sl", if order.stopPrice.gt .zero then .ofF64 order.stopPrice else .null),
        ("tp", .null)])]
    decidedAt := now }

def orderSent (order : OrderCommand) (now : ℤ) : StratLogRow where
  strategyVersionId := "strategy-p0"
  symbol := order.symbol
  eventCode := "ORDER_SENT"
  message := "Manual order sent: " ++ order.clientOrderId
  eventTime := now

/-! ### A process -/

/-- The switches of `config.rs` that the main loop reads. -/
structure Switches where
  emitOnce : Bool
  decisionLogEnabled : Bool

/-- A switch is on unless it is set to something else than `1` and `true`. -/
def switchOn (env : Environment) (name : String) : Bool :=
  match env name with
  | some v => v = "1" || eqIgnoreAsciiCase v "true"
  | none => true

def Switches.fromEnv (env : Environment) : Switches where
  emitOnce := switchOn env "EMIT_ONCE"
  decisionLogEnabled := switchOn env "DECISION_LOG_ENABLED"

/-- What a turn draws and meets: its ids and times, and how each write ends. -/
structure Turn where
  trace : Uuid
  fresh : Uuid
  nowNs : ℤ
  published : Attempt
  logged : Attempt
  loggedAt : ℤ
  stratLogged : Attempt
  stratLoggedAt : ℤ

/-- The topic of order commands and the two tables, in the order in which they were written. -/
structure Journal where
  topic : List OrderCommand := []
  decisions : List DecisionRow := []
  stratLogs : List StratLogRow := []

inductive Status
  | running
  | finished
  | failed
  deriving DecidableEq

section Process

variable (rt : Runtime) (cfg : Config) (sw : Switches)

/-- `write_enter` -/
def writeEnter (s : Journal) (order : OrderCommand) (t : Turn) : Journal × Bool :=
  match enterRow rt order t.loggedAt with
  | .error _ => (s, false)
  | .ok row => ({ s with decisions := s.decisions ++ t.logged.takes [row] }, t.logged = .done)

/-- A turn of the main loop. -/
def turn (planner : IdempotencyPlanner) (s : Journal) (t : Turn) :
    IdempotencyPlanner × Journal × Status :=
  let (order, planner) := buildManualOrder rt cfg planner (rt.showUuid t.trace) t.fresh t.nowNs
  let s := { s with topic := s.topic ++ t.published.takes [order] }
  let next : Status := if sw.emitOnce then .finished else .running
  if t.published ≠ .done then (planner, s, .failed)
  else if sw.decisionLogEnabled then
    match writeEnter rt s order t with
    | (s, false) => (planner, s, .failed)
    | (s, true) =>
        -- whether this log is written is not asked
        (planner, { s with
          stratLogs := s.stratLogs ++ t.stratLogged.takes [orderSent order t.stratLoggedAt] }, next)
  else (planner, s, next)

/-- The main loop, as far as its turns go. -/
def loop (planner : IdempotencyPlanner) (s : Journal) : List Turn → Journal × Status
  | [] => (s, .running)
  | t :: ts =>
      match turn rt cfg sw planner s t with
      | (planner, s, .running) => loop planner s ts
      | (_, s, status) => (s, status)

/-- A process: the planner begins empty. -/
def main (s : Journal) (turns : List Turn) : Journal × Status := loop rt cfg sw [] s turns

end Process

/-! ### What a turn leaves behind -/

/-- A turn that goes through leaves an order, with its decision if decisions are logged. One that
fails leaves less of it. -/
inductive Leaves (rt : Runtime) (sw : Switches) (s : Journal) : Journal × Status → Prop
  | nothing : Leaves rt sw s (s, .failed)
  | order (order : OrderCommand) :
      Leaves rt sw s ({ s with topic := s.topic ++ [order] }, .failed)
  | unlogged (order : OrderCommand) (status : Status) (hlog : sw.decisionLogEnabled = false)
      (hstatus : status = .running → sw.emitOnce = false) :
      Leaves rt sw s ({ s with topic := s.topic ++ [order] }, status)
  | logged (order : OrderCommand) (now : ℤ) (row : DecisionRow) (stratLogs : List StratLogRow)
      (status : Status) (hlog : sw.decisionLogEnabled = true)
      (hrow : enterRow rt order now = .ok row)
      (hstatus : status = .running → sw.emitOnce = false) :
      Leaves rt sw s
        (⟨s.topic ++ [order], s.decisions ++ [row], stratLogs⟩, status)

/-- **What a turn leaves behind.** -/
theorem turn_leaves (rt : Runtime) (cfg : Config) (sw : Switches) (planner : IdempotencyPlanner)
    (s : Journal) (t : Turn) : Leaves rt sw s (turn rt cfg sw planner s t).2 := by
  have hnext : (if sw.emitOnce then Status.finished else Status.running) = .running →
      sw.emitOnce = false := by
    cases sw.emitOnce <;> simp
  rw [turn]
  generalize buildManualOrder rt cfg planner (rt.showUuid t.trace) t.fresh t.nowNs = built
  obtain ⟨order, planner'⟩ := built
  dsimp only
  cases hpublished : t.published with
  | failed cause arrived =>
      cases arrived with
      | true => exact .order order
      | false =>
          rw [Attempt.append_takes_failed]
          exact .nothing
  | done =>
      rw [if_neg (by simp)]
      cases hlog : sw.decisionLogEnabled with
      | false => exact .unlogged order _ hlog hnext
      | true =>
          rw [if_pos rfl, writeEnter]
          cases hrow : enterRow rt order t.loggedAt with
          | error e => exact .order order
          | ok row =>
              cases hlogged : t.logged with
              | done => exact .logged order t.loggedAt row _ _ hlog hrow hnext
              | failed cause arrived =>
                  cases arrived with
                  | true => exact .logged order t.loggedAt row _ _ hlog hrow (by simp)
                  | false =>
                      change Leaves rt sw s (⟨s.topic ++ [order], s.decisions ++
                        (Attempt.failed cause false).takes [row], s.stratLogs⟩, .failed)
                      rw [Attempt.append_takes_failed]
                      exact .order order

/-! ### Processes that are started again -/

/-- What holds when processes have ended as the list says, or still run. -/
structure Journaled (rt : Runtime) (sw : Switches) (processes : List Status) (s : Journal) :
    Prop where
  logged : ∃ orders : List (OrderCommand × ℤ), (orders.map Prod.fst).Sublist s.topic ∧
    s.decisions.map Except.ok = orders.map fun p => enterRow rt p.1 p.2
  missing : sw.decisionLogEnabled = true →
    s.topic.length ≤ s.decisions.length + processes.count .failed
  off : sw.decisionLogEnabled = false → s.decisions = []
  once : sw.emitOnce = true → s.topic.length ≤ processes.length

variable {rt : Runtime} {sw : Switches} {processes : List Status} {s : Journal}

/-- A decision of another order extends the list. -/
theorem Journaled.extend (h : Journaled rt sw processes s) {order : OrderCommand} {now : ℤ}
    {row : DecisionRow} (hrow : enterRow rt order now = .ok row) :
    ∃ orders : List (OrderCommand × ℤ), (orders.map Prod.fst).Sublist (s.topic ++ [order]) ∧
      (s.decisions ++ [row]).map Except.ok = orders.map fun p => enterRow rt p.1 p.2 := by
  obtain ⟨orders, hsublist, hdecisions⟩ := h.logged
  refine ⟨orders ++ [(order, now)], ?_, ?_⟩
  · rw [List.map_append]
    exact hsublist.append (List.Sublist.refl _)
  · rw [List.map_append, List.map_append, hdecisions, List.map_singleton, List.map_singleton, hrow]

/-- A turn after which the process goes on keeps this. -/
theorem Journaled.running (h : Journaled rt sw processes s) {s' : Journal}
    (hleaves : Leaves rt sw s (s', .running)) : Journaled rt sw processes s' := by
  cases hleaves with
  | unlogged order _ hlog hstatus =>
      obtain ⟨orders, hsublist, hdecisions⟩ := h.logged
      constructor
      case logged => exact ⟨orders, hsublist.trans (List.sublist_append_left ..), hdecisions⟩
      case missing => exact fun hon => by rw [hlog] at hon; cases hon
      case off => exact h.off
      case once => exact fun honce => by rw [hstatus rfl] at honce; cases honce
  | logged order now row stratLogs _ hlog hrow hstatus =>
      constructor
      case logged => exact h.extend hrow
      case missing =>
        intro hon
        have hmissing := h.missing hon
        simp only [List.length_append, List.length_singleton]
        omega
      case off => exact fun hoff => by rw [hlog] at hoff; cases hoff
      case once => exact fun honce => by rw [hstatus rfl] at honce; cases honce

/-- The process that has ended is counted. -/
theorem Journaled.ended (h : Journaled rt sw processes s) {s' : Journal} {status : Status}
    (hleaves : Leaves rt sw s (s', status)) : Journaled rt sw (processes ++ [status]) s' := by
  obtain ⟨orders, hsublist, hdecisions⟩ := h.logged
  cases hleaves with
  | nothing =>
      constructor
      case logged => exact h.logged
      case missing =>
        intro hon
        have hmissing := h.missing hon
        rw [List.count_append]
        omega
      case off => exact h.off
      case once =>
        intro honce
        rw [List.length_append]
        exact (h.once honce).trans (Nat.le_add_right ..)
  | order order =>
      constructor
      case logged => exact ⟨orders, hsublist.trans (List.sublist_append_left ..), hdecisions⟩
      case missing =>
        intro hon
        have hmissing := h.missing hon
        rw [List.count_append, List.count_singleton_self, List.length_append, List.length_singleton,
          ← Nat.add_assoc]
        exact Nat.add_le_add_right hmissing 1
      case off => exact h.off
      case once =>
        intro honce
        rw [List.length_append, List.length_append]
        exact Nat.add_le_add_right (h.once honce) 1
  | unlogged order _ hlog hstatus =>
      constructor
      case logged => exact ⟨orders, hsublist.trans (List.sublist_append_left ..), hdecisions⟩
      case missing => exact fun hon => by rw [hlog] at hon; cases hon
      case off => exact h.off
      case once =>
        intro honce
        rw [List.length_append, List.length_append]
        exact Nat.add_le_add_right (h.once honce) 1
  | logged order now row stratLogs _ hlog hrow hstatus =>
      constructor
      case logged => exact h.extend hrow
      case missing =>
        intro hon
        have hmissing := h.missing hon
        simp only [List.length_append, List.length_singleton, List.count_append]
        omega
      case off => exact fun hoff => by rw [hlog] at hoff; cases hoff
      case once =>
        intro honce
        rw [List.length_append, List.length_append]
        exact Nat.add_le_add_right (h.once honce) 1

/-- **A process** keeps this, however far it gets. -/
theorem main_journaled (cfg : Config) (turns : List Turn) (h : Journaled rt sw processes s) :
    Journaled rt sw (processes ++ [(main rt cfg sw s turns).2]) (main rt cfg sw s turns).1 := by
  rw [main]
  generalize ([] : IdempotencyPlanner) = planner
  induction turns generalizing planner s with
  | nil =>
      constructor
      case logged => exact h.logged
      case missing =>
        intro hon
        have hmissing := h.missing hon
        rw [List.count_append, ← Nat.add_assoc]
        exact hmissing.trans (Nat.le_add_right ..)
      case off => exact h.off
      case once =>
        intro honce
        rw [List.length_append]
        exact (h.once honce).trans (Nat.le_add_right ..)
  | cons t turns ih =>
      have hleaves := turn_leaves rt cfg sw planner s t
      rw [loop]
      generalize turn rt cfg sw planner s t = r at hleaves ⊢
      obtain ⟨planner', s', status⟩ := r
      cases status with
      | running => exact ih (h.running hleaves) planner'
      | finished => exact h.ended hleaves
      | failed => exact h.ended hleaves

/-- **The decision log keeps up with the orders**, over any number of processes, each ended by its
own failures: every decision is of an order that was published, in this order, and at most as many
orders have none as processes have failed. A service that is to emit once publishes at most one
order each time it is started. -/
theorem journaled_run (rt : Runtime) (env : Environment) (starts : List (List Turn)) :
    let run := Machine.run (main rt (.fromEnv rt env) (.fromEnv env)) {} starts
    Journaled rt (.fromEnv env) run.2 run.1 := by
  have hempty : Journaled rt (.fromEnv env) [] {} := by
    constructor
    case logged => exact ⟨[], List.nil_sublist _, rfl⟩
    case missing => exact fun _ => Nat.le_refl 0
    case off => exact fun _ => rfl
    case once => exact fun _ => Nat.le_refl 0
  refine Machine.run_induction
    (P := fun _ processes s => Journaled rt (.fromEnv env) processes s) hempty ?_ starts
  intro pre processes s turns ih
  exact main_journaled (.fromEnv rt env) turns ih

end HftPlatform.StrategyEngine
