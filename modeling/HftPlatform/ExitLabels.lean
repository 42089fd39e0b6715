import HftPlatform.WriterSpec

/-!
# The labels of the training events

`append_training_event` and `insert_exit_tag_snapshot` of
`services/execution_router/src/store/writer.rs`. Both are given the exit trigger of the call; the
snapshot is written for fills only, and the training event for every report. A report that is no
fill has a last price of zero, which the implicit triggers compare with the target and the stop of
the order as if it were a price.

## Main results

* `callTrigger_ne_none_iff`: when a call finds a trigger, by its order and the last price.
* `exits_zero_iff`: which orders find one at the price zero.
* `labelsEarned_iff`: when a call labels its training event exactly if it writes a snapshot.
-/

namespace HftPlatform

open Lib DbWriter

/-! ### What a call writes -/

/-- The event says how the order ended a position. -/
def TrainingEventRow.Labelled (row : TrainingEventRow) : Prop :=
  row.outcomeLabel = .win ∨ row.outcomeLabel = .loss ∨ row.exitKind ≠ none

/-- The training events that were added to a database. -/
def writtenTrainingEvents (db db' : Db) : List TrainingEventRow :=
  db'.orderTrainingEvents.drop db.orderTrainingEvents.length

/-- The exit snapshots that were added to a database. -/
def writtenSnapshots (db db' : Db) : List ExitTagRow :=
  db'.orderExitTagSnapshots.drop db.orderExitTagSnapshots.length

/-- The training events of a call are labelled for a fill only, and exactly when the call writes an
exit snapshot. -/
def LabelsEarned (c : Call) (db db' : Db) : Prop :=
  ∀ row ∈ writtenTrainingEvents db db',
    (row.Labelled → c.isFill = true) ∧ (row.Labelled ↔ writtenSnapshots db db' ≠ [])

/-! ### When there is a trigger -/

/-- A reduce-only order with a target and a stop, of which the price meets one. -/
def PriceExits (order : OrderCommand) (m : DecisionMeta) (px : Binary64) : Prop :=
  order.reduceOnly = true ∧ order.stopPrice.gt .zero = true ∧ ∃ tp, m.takeProfitPrice = some tp ∧
    if order.side = OrderSide.sell.code then tp.le px = true ∨ px.le order.stopPrice = true
    else px.le tp = true ∨ order.stopPrice.le px = true

/-- The order names a kind of exit, or the price is one. -/
def Exits (order : OrderCommand) (m : DecisionMeta) (px : Binary64) : Prop :=
  normalizeExitKind m ≠ none ∨ PriceExits order m px

variable {rt : Runtime} {c : Call} {db db' : Db} {order : OrderCommand} {report : ExecutionReport}
  {m : DecisionMeta}

theorem detectExitTrigger_ne_none_iff :
    detectExitTrigger order report m ≠ none ↔ Exits order m report.lastFilledPrice := by
  rw [detectExitTrigger, Exits]
  cases hkind : normalizeExitKind m with
  | some trigger => simp
  | none =>
      simp only [ne_eq, not_true_eq_false, false_or, PriceExits]
      cases hreduce : order.reduceOnly with
      | false => simp
      | true =>
          cases htp : m.takeProfitPrice with
          | none => simp
          | some tp =>
              by_cases hstop : order.stopPrice.gt .zero = true
              · by_cases hside : order.side = OrderSide.sell.code
                · by_cases htarget : tp.le report.lastFilledPrice = true <;>
                    simp [hstop, hside, htarget]
                · by_cases htarget : report.lastFilledPrice.le tp = true <;>
                    simp [hstop, hside, htarget]
              · simp [hstop]

/-- **When a call finds a trigger.** -/
theorem callTrigger_ne_none_iff :
    callTrigger rt c ≠ none ↔ Exits c.order (callMeta rt c) c.report.lastFilledPrice :=
  detectExitTrigger_ne_none_iff

/-- At the price zero the stop of every SELL is met, and the target of every other order unless it
is below zero. -/
theorem exits_zero_iff :
    Exits order m .zero ↔ normalizeExitKind m ≠ none ∨
      order.reduceOnly = true ∧ order.stopPrice.gt .zero = true ∧ ∃ tp,
        m.takeProfitPrice = some tp ∧
          (order.side = OrderSide.sell.code ∨ Binary64.zero.le tp = true) := by
  have hstop : order.stopPrice.gt .zero = true → Binary64.zero.le order.stopPrice = true ∧
      order.stopPrice.le .zero = false := by
    intro hpos
    refine ⟨Binary64.nonneg_of_zero_lt hpos, ?_⟩
    revert hpos
    cases order.stopPrice with
    | nan => exact fun _ => rfl
    | inf s => simp [Binary64.gt, Binary64.lt, Binary64.le, Binary64.zero]
    | fin q => simp [Binary64.gt, Binary64.lt, Binary64.le, Binary64.zero]
  rw [Exits, PriceExits]
  refine or_congr_right (and_congr_right fun _ => and_congr_right fun hpos =>
    exists_congr fun tp => and_congr_right fun _ => ?_)
  obtain ⟨hle, hnotle⟩ := hstop hpos
  split
  · rename_i hside
    simp [hside, hle]
  · rename_i hside
    simp [hside, hnotle]

/-- A report of the router that is no fill has a last price of zero. -/
theorem BuiltFor.lastFilledPrice_eq {fp : Rounding} (h : BuiltFor fp order report)
    (hfill : isFillLike report = false) : report.lastFilledPrice = .zero := by
  cases h with
  | simulated now h =>
      rw [buildReports] at h
      split at h
      · rw [List.mem_singleton.mp h]
        rfl
      · split at h <;> simp only [List.mem_cons, List.not_mem_nil, or_false] at h
        · rcases h with rfl | rfl | rfl
          · rfl
          · simp [isFillLike, buildFill] at hfill
          · simp [isFillLike, buildFill] at hfill
        · rcases h with rfl | rfl
          · rfl
          · simp [isFillLike, buildFill] at hfill
  | exchangeAck now ack => rfl
  | reject now reason => rfl
  | cancel now => rfl

/-- **A report of the router that is no fill** meets an exit whenever its order names a kind, and
whenever a reduce-only SELL has a target and a stop: its last price is zero. -/
theorem BuiltFor.exits_iff {fp : Rounding} (h : BuiltFor fp order report)
    (hfill : isFillLike report = false) : Exits order m report.lastFilledPrice ↔
      normalizeExitKind m ≠ none ∨ order.reduceOnly = true ∧ order.stopPrice.gt .zero = true ∧
        ∃ tp, m.takeProfitPrice = some tp ∧
          (order.side = OrderSide.sell.code ∨ Binary64.zero.le tp = true) := by
  rw [h.lastFilledPrice_eq hfill, exits_zero_iff]

/-! ### What a committed call leaves -/

/-- The label of the training event of a call. -/
theorem label_of_trainingEventRow {row : TrainingEventRow} (h : trainingEventRow rt c = .ok row) :
    row.exitKind = callTrigger rt c ∧
      row.outcomeLabel = (outcomeFromExit c.report (callTrigger rt c)).1 := by
  simp only [trainingEventRow, bind_eq_ok_iff, sql_eq_ok_iff, pure_eq_ok_iff] at h
  obtain ⟨_, _, _, _, _, _, _, _, _, _, _, _, _, _, _, _, _, _, _, _, _, _, rfl⟩ := h
  dsimp only
  exact ⟨rfl, rfl⟩

/-- The training event of a call is labelled exactly when the call finds a trigger. -/
theorem labelled_iff {row : TrainingEventRow} (h : trainingEventRow rt c = .ok row) :
    row.Labelled ↔ callTrigger rt c ≠ none := by
  obtain ⟨hkind, hlabel⟩ := label_of_trainingEventRow h
  rw [TrainingEventRow.Labelled, hkind, hlabel]
  cases callTrigger rt c with
  | none =>
      rw [outcomeFromExit]
      split <;> [skip; split] <;> simp
  | some trigger => simp

/-- A committed call writes one training event. -/
theorem writtenTrainingEvents_eq (h : persistExecution rt c db = .ok db') :
    ∃ row, trainingEventRow rt c = .ok row ∧ writtenTrainingEvents db db' = [row] := by
  obtain ⟨⟨-, -, row, hrow, hevents⟩, -⟩ := persistExecution_ok_iff.mp h
  exact ⟨row, hrow, by rw [writtenTrainingEvents, hevents, List.drop_left]⟩

/-- A committed call writes a snapshot for a fill with a trigger only. -/
theorem writtenSnapshots_ne_nil_iff (h : persistExecution rt c db = .ok db') :
    writtenSnapshots db db' ≠ [] ↔ c.isFill = true ∧ callTrigger rt c ≠ none := by
  rw [writtenSnapshots]
  obtain ⟨-, ⟨hfill, -, -, xs, hxs, hexits⟩ | ⟨hfill, -, -, hexits⟩⟩ :=
    persistExecution_ok_iff.mp h
  · rw [hexits, List.drop_left, hfill, eq_self, true_and]
    rw [exitRows] at hxs
    cases htrigger : callTrigger rt c with
    | none =>
        rw [htrigger] at hxs
        obtain rfl := Except.ok.inj hxs
        simp
    | some trigger =>
        rw [htrigger] at hxs
        cases hrow : exitTagRow rt c trigger with
        | error e => simp [hrow, Except.map] at hxs
        | ok row =>
            simp only [hrow, Except.map, Except.ok.injEq] at hxs
            simp [← hxs]
  · simp [hexits, hfill]

/-- **Exit labels.** A committed call labels its training event for a fill only, and exactly when
it writes a snapshot, if and only if its report is a fill of a positive quantity, or its order
neither names a kind of exit nor is met by the last price of the report. -/
theorem labelsEarned_iff (rt : Runtime) (c : Call) (db db' : Db)
    (h : persistExecution rt c db = .ok db') :
    LabelsEarned c db db' ↔
      c.isFill = true ∨ ¬ Exits c.order (callMeta rt c) c.report.lastFilledPrice := by
  obtain ⟨row, hrow, hwritten⟩ := writtenTrainingEvents_eq h
  rw [LabelsEarned, hwritten, List.forall_mem_singleton, labelled_iff hrow,
    writtenSnapshots_ne_nil_iff h, ← @callTrigger_ne_none_iff rt c]
  by_cases hfill : c.isFill = true
  · simp [hfill]
  · simp [hfill]

/-- A reduce-only SELL whose decision metadata name the kind of exit. -/
def exitOrder : OrderCommand :=
  { OrderCommand.sample "018f3c2e-0000-7000-8000-00000000000a" 1 2 1 1 0 with
    reduceOnly := true
    decisionReason := "\x7b\"exit_kind\":\"STOP_LOSS\"\x7d" }

/-- The reference runtime, on the metadata of that order. -/
def exitRuntime : Runtime :=
  { Runtime.reference with
    decisionMeta := fun s => if s = exitOrder.decisionReason then
      some { exitKind := some "STOP_LOSS" } else none
    parseJson := fun s => if s = exitOrder.decisionReason then some s else none }

/-- The last report of the order's simulated trace. -/
def exitFill : ExecutionReport :=
  buildFill Rounding.nearestEven 2 exitOrder .filled
    (Rounding.nearestEven.sub exitOrder.qty (partialQty Rounding.nearestEven exitOrder))
    exitOrder.qty "-p2" 2

/-- The fill of the order is labelled, and has a snapshot. -/
theorem labelsEarned_iff_exitFill : ∃ db',
    persistExecution exitRuntime (Call.paper 0 exitOrder exitFill) {} = .ok db' ∧
      LabelsEarned (Call.paper 0 exitOrder exitFill) {} db' := by
  have hok : (persistExecution exitRuntime (Call.paper 0 exitOrder exitFill) {}).isOk = true := by
    decide +kernel
  cases h : persistExecution exitRuntime (Call.paper 0 exitOrder exitFill) {} with
  | error e => simp [h, Except.isOk, Except.toBool] at hok
  | ok db' =>
      exact ⟨db', rfl, (labelsEarned_iff _ _ _ _ h).mpr (Or.inl (by decide +kernel))⟩

/-- The acknowledgement of the order is labelled a loss before anything has been filled. -/
theorem exitAck_labelled : buildAck 0 exitOrder ∈ buildReports Rounding.nearestEven (fun i => i)
      exitOrder ∧ ∃ db',
    persistExecution exitRuntime (Call.paper 0 exitOrder (buildAck 0 exitOrder)) {} = .ok db' ∧
      db'.orderTrainingEvents.map TrainingEventRow.outcomeLabel = [.loss] ∧
      db'.orderExitTagSnapshots = [] ∧
      ¬ LabelsEarned (Call.paper 0 exitOrder (buildAck 0 exitOrder)) {} db' := by
  refine ⟨by decide +kernel, ?_⟩
  have hrows : (persistExecution exitRuntime (Call.paper 0 exitOrder (buildAck 0 exitOrder))
      {}).toOption.map (fun db => (db.orderTrainingEvents.map TrainingEventRow.outcomeLabel,
        db.orderExitTagSnapshots)) = some ([.loss], []) := by decide +kernel
  cases h : persistExecution exitRuntime (Call.paper 0 exitOrder (buildAck 0 exitOrder)) {} with
  | error e => simp [h, Except.toOption] at hrows
  | ok db' =>
      simp only [h, Except.toOption, Option.map_some, Option.some.injEq, Prod.mk.injEq] at hrows
      refine ⟨db', rfl, hrows.1, hrows.2, fun hearned => ?_⟩
      obtain ⟨row, -, hwritten⟩ := writtenTrainingEvents_eq h
      have hlabel : row.outcomeLabel = .loss := by
        have hrow : db'.orderTrainingEvents = [row] := hwritten
        simpa [hrow] using hrows.1
      have hnotFill : (Call.paper 0 exitOrder (buildAck 0 exitOrder)).isFill = false := by
        decide +kernel
      have hfill := (hearned row (by simp [hwritten])).1 (Or.inr (Or.inl hlabel))
      rw [hnotFill] at hfill
      cases hfill

end HftPlatform
