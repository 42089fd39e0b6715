import HftPlatform.Lib.Query
import HftPlatform.RiskGuard
import Mathlib.Data.List.Dedup
import Mathlib.Data.List.Induction

/-!
# The audit of rejections

The gates write what they check to `risk_events`
(`services/execution_router/risk_guard/src/audit.rs`).
The gateway lists and counts rejections from `risk_rejections`
(`libs/rust/hft_store/src/repos/risk_repo.rs`, `services/api_gateway/src/routes/risk.rs`), which
nothing writes any more.

## Main results

* `riskRejections_run`: a run of the risk guard leaves the rejections that are read as they are.
* `rejection_audited_iff`: when a rejection appears in what the gateway reads.
-/

namespace HftPlatform.RiskGuard

open Lib

/-! ### The tables -/

/-- The code of a reason, as it is stored. -/
def RejectReason.asStr : RejectReason → String
  | .killSwitch => "KILL_SWITCH"
  | .killSwitchAccount => "KILL_SWITCH_ACCOUNT"
  | .notionalLimitExceeded => "NOTIONAL_LIMIT_EXCEEDED"
  | .leverageLimitExceeded => "LEVERAGE_LIMIT_EXCEEDED"
  | .symbolNotAllowed => "SYMBOL_NOT_ALLOWED"
  | .rateLimitExceeded => "RATE_LIMIT_EXCEEDED"
  | .malformedOrder => "MALFORMED_ORDER"
  | .internalError => "INTERNAL_ERROR"

/-- A row of `risk_rejections`. -/
structure RiskRejectionRow where
  id : ℤ
  clientOrderId : String
  accountId : String
  symbol : String
  qty : ℚ
  price : ℚ
  notional : ℚ
  rejectReason : String
  rejectDetail : String
  traceId : Option String
  /-- In microseconds. -/
  rejectedAt : ℤ
  deriving DecidableEq

/-- The tables of the audit; an event has the time at which it was written. -/
structure AuditDb where
  riskEvents : List (ℤ × RiskEvent) := []
  riskRejections : List RiskRejectionRow := []

/-! ### What is written -/

/-- A check of an order: what the kill switches and the limits are, the time, and the events whose
insert the database takes. A failed insert is logged and changes nothing. -/
structure Check where
  order : OrderCommand
  killGlobal : Except Unit Bool
  killAccount : Except Unit Bool
  dynamic : DynamicLimits
  now : ℤ
  accepts : RiskEvent → Bool

section Writes

variable (rt : Runtime) (cfg : Config)

/-- The gates of a check, with the events that they log. -/
def Check.gates (c : Check) : List RiskEvent × CheckResult :=
  runGates rt cfg c.dynamic c.killGlobal c.killAccount c.order

/-- `log_risk_event_to_db`, for each event of a check. -/
def AuditDb.check (db : AuditDb) (c : Check) : AuditDb :=
  { db with
    riskEvents :=
      db.riskEvents ++ ((c.gates rt cfg).1.filter c.accepts).map fun e => (c.now, e) }

/-- The tables after some checks. -/
def AuditDb.run (db : AuditDb) (checks : List Check) : AuditDb := checks.foldl (·.check rt cfg) db

end Writes

/-! ### What is read -/

structure RejectionParams where
  symbol : Option String := none
  reason : Option String := none
  accountId : Option String := none
  limit : Option ℤ := none
  offset : Option ℤ := none

/-- A filter that is given must be met. -/
def meets (filter : Option String) (value : String) : Bool := filter.all (· == value)

/-- `GET /api/risk/rejections`. A negative limit or offset is an error of the statement. -/
def handleListRejections (params : RejectionParams) (db : AuditDb)
    (answer : List RiskRejectionRow) : Prop :=
  let limit := min (params.limit.getD 50) 200
  let offset := params.offset.getD 0
  0 ≤ limit ∧ 0 ≤ offset ∧
    Page
      (fun row => meets params.symbol row.symbol && meets params.reason row.rejectReason &&
        meets params.accountId row.accountId)
      (·.rejectedAt) limit.toNat offset.toNat db.riskRejections answer

structure RejectionSummary where
  rejectReason : String
  count : ℕ
  deriving DecidableEq

/-- The rejections of the last hours. -/
def AuditDb.recent (db : AuditDb) (hours now : ℤ) : List RiskRejectionRow :=
  db.riskRejections.filter fun row => now - hours * 3600000000 ≤ row.rejectedAt

/-- The counts by reason, the largest first. -/
def rejectionSummary (hours now : ℤ) (db : AuditDb) (answer : List RejectionSummary) : Prop :=
  let recent := db.recent hours now
  Arranged (fun _ => true) (fun s => (s.count : ℤ))
    ((recent.map (·.rejectReason)).dedup.map fun reason =>
      ⟨reason, recent.countP (·.rejectReason == reason)⟩)
    answer

/-- `GET /api/risk/status`, the part about rejections. -/
def handleStatus (now : ℤ) (db : AuditDb) (answer : List RejectionSummary) : Prop :=
  rejectionSummary 24 now db answer

/-- The rejection of an order appears in what the gateway reads: a page lists it with its reason,
and the summary counts that reason. -/
structure Audited (db : AuditDb) (now : ℤ) (order : OrderCommand) (reason : RejectReason) :
    Prop where
  listed : ∃ params answer, handleListRejections params db answer ∧
    ∃ row ∈ answer, row.clientOrderId = order.clientOrderId ∧ row.rejectReason = reason.asStr
  counted : ∃ answer, handleStatus now db answer ∧
    ∃ s ∈ answer, s.rejectReason = reason.asStr ∧ 0 < s.count

/-! ### What a check leaves -/

section Run

variable {rt : Runtime} {cfg : Config} {db : AuditDb} {c : Check}

/-- The event of a gate that stops an order. -/
structure StopEvent (order : OrderCommand) (e : RiskEvent) : Prop where
  relatedOrderId : e.relatedOrderId = order.clientOrderId
  passFlag : e.passFlag = false
  actionTaken : e.actionTaken = "REJECTED"

theorem killGate_stop {order : OrderCommand} {checkType : String} {check : Except Unit Bool}
    (h : (killGate rt order checkType check).2 = true) :
    ∃ e ∈ (killGate rt order checkType check).1, StopEvent order e := by
  obtain rfl := (killGate_snd rt order checkType check).mp h
  exact ⟨_, List.mem_singleton_self _, rfl, rfl, rfl⟩

/-- **A rejection is logged**, as an event that names the check. -/
theorem exists_stopEvent {reason : RejectReason} {detail : String}
    (h : (c.gates rt cfg).2 = .rejected reason detail) :
    ∃ e ∈ (c.gates rt cfg).1, StopEvent c.order e := by
  rw [Check.gates, runGates] at h ⊢
  by_cases hglobal : (killGate rt c.order "GLOBAL_KILL" c.killGlobal).2 = true
  · simp only [hglobal, if_true]
    exact killGate_stop hglobal
  by_cases haccount : (killGate rt c.order "ACCOUNT_KILL" c.killAccount).2 = true
  · obtain ⟨e, he, hstop⟩ := killGate_stop haccount
    simp only [hglobal, haccount, if_true]
    exact ⟨e, by simp [he], hstop⟩
  simp only [hglobal, haccount, if_false, Bool.false_eq_true] at h ⊢
  split_ifs at h ⊢ with hnotional hleverage
  · exact ⟨_, List.mem_append_right _ (List.mem_singleton_self _), rfl, rfl, rfl⟩
  · exact ⟨_, List.mem_append_right _ (List.mem_singleton_self _), rfl, rfl, rfl⟩

theorem run_concat (checks : List Check) :
    db.run rt cfg (checks ++ [c]) = (db.run rt cfg checks).check rt cfg c :=
  List.foldl_concat ..

/-- **The rejections that are read** stay as they are. -/
theorem riskRejections_run (checks : List Check) :
    (db.run rt cfg checks).riskRejections = db.riskRejections := by
  induction checks using List.reverseRecOn with
  | nil => rfl
  | append_singleton checks c ih =>
      rw [run_concat, ← ih]
      rfl

/-- The events that the database takes are stored. -/
theorem mem_riskEvents_run {checks : List Check} {e : RiskEvent} (hc : c ∈ checks)
    (he : e ∈ (c.gates rt cfg).1) (haccepts : c.accepts e = true) :
    (c.now, e) ∈ (db.run rt cfg checks).riskEvents := by
  induction checks using List.reverseRecOn with
  | nil => simp at hc
  | append_singleton checks c' ih =>
      rw [run_concat, AuditDb.check]
      rcases List.mem_append.mp hc with hc | hc
      · exact List.mem_append_left _ (ih hc)
      · obtain rfl := List.mem_singleton.mp hc
        exact List.mem_append_right _
          (List.mem_map.mpr ⟨e, List.mem_filter.mpr ⟨he, haccepts⟩, rfl⟩)

end Run

/-! ### What the gateway finds -/

/-- A row of the table is on some page of the list. -/
theorem listed_iff {db : AuditDb} {p : RiskRejectionRow → Prop} :
    (∃ params answer, handleListRejections params db answer ∧ ∃ row ∈ answer, p row) ↔
      ∃ row ∈ db.riskRejections, p row := by
  constructor
  · rintro ⟨params, answer, ⟨-, -, hpage⟩, row, hrow, hp⟩
    exact ⟨row, (hpage.mem hrow).1, hp⟩
  · rintro ⟨row, hrow, hp⟩
    obtain ⟨offset, answer, hpage, hmem⟩ :=
      Page.exists_mem (fun _ => true) RiskRejectionRow.rejectedAt (show 0 < 50 by omega) hrow rfl
    refine ⟨{ offset := some (offset : ℤ) }, answer, ⟨by simp, by simp, ?_⟩, row, hmem, hp⟩
    simpa [meets] using hpage

/-- A reason is counted if a row of the last hours has it. -/
theorem counted_iff {db : AuditDb} {now : ℤ} {code : String} :
    (∃ answer, handleStatus now db answer ∧ ∃ s ∈ answer, s.rejectReason = code ∧ 0 < s.count) ↔
      ∃ row ∈ db.recent 24 now, row.rejectReason = code := by
  constructor
  · rintro ⟨answer, harranged, s, hs, rfl, hcount⟩
    obtain ⟨hmem, -⟩ := harranged.mem_iff.mp hs
    obtain ⟨reason, hreason, rfl⟩ := List.mem_map.mp hmem
    obtain ⟨row, hrow, hcode⟩ := List.mem_map.mp (List.mem_dedup.mp hreason)
    exact ⟨row, hrow, hcode⟩
  · rintro ⟨row, hrow, rfl⟩
    obtain ⟨answer, harranged⟩ := Arranged.exists (fun _ => true)
      (fun s : RejectionSummary => (s.count : ℤ))
      (((db.recent 24 now).map (·.rejectReason)).dedup.map fun reason =>
        ⟨reason, (db.recent 24 now).countP (·.rejectReason == reason)⟩)
    have hmem : row.rejectReason ∈ ((db.recent 24 now).map (·.rejectReason)).dedup :=
      List.mem_dedup.mpr (List.mem_map_of_mem hrow)
    exact ⟨answer, harranged, _, harranged.mem_iff.mpr ⟨List.mem_map_of_mem hmem, rfl⟩, rfl,
      List.countP_pos_iff.mpr ⟨row, hrow, by simp⟩⟩

/-- **When a rejection is audited.** After any checks, one of which rejected an order: the
rejection was logged as an event, if the database took it; and it appears in what the gateway
reads exactly if, before all of the checks, the table of rejections held a row of that order with
that reason, and one of the last day with that reason. -/
theorem rejection_audited_iff (rt : Runtime) (cfg : Config) (db : AuditDb) (checks : List Check)
    (c : Check) (reason : RejectReason) (detail : String) (now : ℤ) (hc : c ∈ checks)
    (hrejected : (c.gates rt cfg).2 = .rejected reason detail) :
    (∃ e ∈ (c.gates rt cfg).1, StopEvent c.order e ∧
        (c.accepts e = true → (c.now, e) ∈ (db.run rt cfg checks).riskEvents)) ∧
      (Audited (db.run rt cfg checks) now c.order reason ↔
        (∃ row ∈ db.riskRejections,
            row.clientOrderId = c.order.clientOrderId ∧ row.rejectReason = reason.asStr) ∧
          ∃ row ∈ db.recent 24 now, row.rejectReason = reason.asStr) := by
  constructor
  · obtain ⟨e, he, hstop⟩ := exists_stopEvent hrejected
    exact ⟨e, he, hstop, mem_riskEvents_run hc he⟩
  · have hrecent : (db.run rt cfg checks).recent 24 now = db.recent 24 now := by
      rw [AuditDb.recent, riskRejections_run, AuditDb.recent]
    constructor
    · rintro ⟨hlisted, hcounted⟩
      rw [listed_iff, riskRejections_run] at hlisted
      rw [counted_iff, hrecent] at hcounted
      exact ⟨hlisted, hcounted⟩
    · rintro ⟨hlisted, hcounted⟩
      refine ⟨listed_iff.mpr ?_, counted_iff.mpr ?_⟩
      · rwa [riskRejections_run]
      · rwa [hrecent]

/-- An order that the global kill switch stops. -/
def stoppedCheck : Check where
  order := marketOrder
  killGlobal := .ok true
  killAccount := .ok false
  dynamic := {}
  now := 1700000000000000
  accepts _ := true

theorem rejection_audited_iff_stopped :
    Audited (AuditDb.run Runtime.reference defaultConfig {} [stoppedCheck]) 1700000001000000
        marketOrder .killSwitch ↔
      (∃ row ∈ ({} : AuditDb).riskRejections,
          row.clientOrderId = marketOrder.clientOrderId ∧ row.rejectReason = "KILL_SWITCH") ∧
        ∃ row ∈ ({} : AuditDb).recent 24 1700000001000000, row.rejectReason = "KILL_SWITCH" :=
  (rejection_audited_iff Runtime.reference defaultConfig {} [stoppedCheck] stoppedCheck .killSwitch
    "Global kill switch is active" 1700000001000000 (List.mem_singleton_self _) rfl).2

/-- The rejection is logged, and the gateway finds none. -/
theorem stopped_not_audited :
    (stoppedCheck.gates Runtime.reference defaultConfig).2 =
        .rejected .killSwitch "Global kill switch is active" ∧
      (AuditDb.run Runtime.reference defaultConfig {} [stoppedCheck]).riskEvents.length = 1 ∧
      ¬ Audited (AuditDb.run Runtime.reference defaultConfig {} [stoppedCheck]) 1700000001000000
        marketOrder .killSwitch := by
  refine ⟨rfl, rfl, fun h => ?_⟩
  obtain ⟨row, hrow, -⟩ := listed_iff.mp h.listed
  rw [riskRejections_run] at hrow
  cases hrow

end HftPlatform.RiskGuard
