import HftPlatform.Router

/-!
# Cancels and replaces in the executors

Three executors interpret an order command: the router in PAPER mode, the router in REAL mode,
and the paper trader. This module says which commands each of them turns into a fill or into
an order at the exchange. The action of the command counts in one branch of one of them.

## Main results

* `noPaperFill_iff`, `noPlacement_iff`, `not_noTraderFill`: one executor each.
* `never_neverTrades`: no command and no configuration satisfies all three.
-/

namespace HftPlatform

open Lib

/-! ### The paper trader -/

namespace PaperTrader

/-- The report of the simulated fill; `services/execution_router/paper_trader/src/main.rs`. -/
def fillReport (rt : Runtime) (uuid : Uuid) (nowNs : ℤ) (order : OrderCommand) :
    ExecutionReport where
  accountId := order.accountId
  symbol := order.symbol
  clientOrderId := order.clientOrderId
  exchangeOrderId := "paper-" ++ rt.showUuid uuid
  status := ExecutionStatus.filled.code
  side := order.side
  lastFilledQty := order.qty
  lastFilledPrice := order.price
  cumulativeFilledQty := order.qty
  avgPrice := order.price
  commission := rt.fp.mul (rt.fp.mul order.qty order.price) (rt.fp.lit (1 / 10000))
  commissionAsset := "USDT"
  rejectReason := ""
  eventTimeNs := nowNs
  recvTimeNs := nowNs
  traceId := order.traceId
  fillId := "paper-" ++ rt.showUuid uuid
  fillSeq := 1
  schemaVersion := 1
  strategyId := order.strategyId
  signalId := order.signalId

/-- One turn of the main loop for a decoded command, on the reports published so far. -/
def step (rt : Runtime) (broker : Router.Link) (uuid : Uuid) (nowNs : ℤ) (order : OrderCommand)
    (published : List ExecutionReport) : List ExecutionReport :=
  match broker with
  | .down => published
  | .up | .lost => published ++ [fillReport rt uuid nowNs order]

end PaperTrader

open Router

variable (rt : Runtime) (cfg : Router.Config) (order : OrderCommand)

/-- The router commits no fill report for the command. -/
def NoPaperFill : Prop := ∀ env w, ∃ new,
  (handleOrder rt cfg env (buildBinanceClient cfg) order w).1.committed = w.committed ++ new ∧
    ∀ report ∈ new, isFillLike report = false

/-- The router sends no order to the exchange for the command. -/
def NoPlacement : Prop := ∀ env w,
  (handleOrder rt cfg env (buildBinanceClient cfg) order w).1.placed = w.placed

/-- The paper trader publishes no FILLED report for the command. -/
def NoTraderFill : Prop := ∀ broker uuid nowNs published, ∃ new,
  PaperTrader.step rt broker uuid nowNs order published = published ++ new ∧
    ∀ report ∈ new, report.status ≠ ExecutionStatus.filled.code

/-- No executor turns the command into a fill or into an order at the exchange. -/
structure NeverTrades : Prop where
  paper : eqIgnoreAsciiCase cfg.executionMode "PAPER" = true → NoPaperFill rt cfg order
  real : eqIgnoreAsciiCase cfg.executionMode "PAPER" = false → NoPlacement rt cfg order
  trader : NoTraderFill rt order

/-- The simulated trace of the command begins with two reports that the writer can bind: an
acknowledgement and a fill. It has no second report when the quantity is not positive. -/
def Recordable : Prop := ∃ clock ack fill rest t₀ t₁,
  buildReports rt.fp clock order = ack :: fill :: rest ∧
    DbWriter.Bindable rt (cfg.call order ack t₀) ∧ DbWriter.Bindable rt (cfg.call order fill t₁)

/-- The command is sent on to the exchange. -/
def Placed : Prop :=
  toAsciiUppercase (trim cfg.exchange) = "BINANCE" ∧ (buildBinanceClient cfg).isSome = true ∧
    order.type = OrderType.market.code

instance : Decidable (Placed cfg order) := inferInstanceAs (Decidable (_ ∧ _ ∧ _))

variable {rt cfg order}

/-- The first report of a simulated trace is no fill, and the others are fills. -/
theorem buildReports_cons {fp : Rounding} {clock : ℕ → ℤ} {first : ExecutionReport}
    {rest : List ExecutionReport} (h : buildReports fp clock order = first :: rest) :
    isFillLike first = false ∧ ∀ r ∈ rest, isFillLike r = true := by
  rw [buildReports] at h
  split at h
  · obtain ⟨rfl, rfl⟩ := List.cons.inj h
    exact ⟨rfl, by simp⟩
  · split at h
    · obtain ⟨rfl, rfl⟩ := List.cons.inj h
      refine ⟨rfl, fun r hr => ?_⟩
      simp only [List.mem_cons, List.not_mem_nil, or_false] at hr
      rcases hr with rfl | rfl <;> rfl
    · obtain ⟨rfl, rfl⟩ := List.cons.inj h
      refine ⟨rfl, fun r hr => ?_⟩
      rw [List.mem_singleton.mp hr]
      rfl

/-- When a simulated trace is committed up to some fill, its first two reports are. -/
theorem exists_of_fill_mem_take {fp : Rounding} {clock : ℕ → ℤ} {k : ℕ} {r : ExecutionReport}
    (hr : r ∈ (buildReports fp clock order).take k) (hfill : isFillLike r = true) :
    ∃ ack fill rest, buildReports fp clock order = ack :: fill :: rest ∧
      ack ∈ (buildReports fp clock order).take k ∧
      fill ∈ (buildReports fp clock order).take k := by
  cases h : buildReports fp clock order with
  | nil => simp [h] at hr
  | cons ack tail =>
      have hack := (buildReports_cons h).1
      rw [h] at hr
      have hne : r ≠ ack := by
        rintro rfl
        simp [hfill] at hack
      match k, tail, hr with
      | 0, _, hr => simp at hr
      | k + 1, [], hr => exact absurd (by simpa using hr) hne
      | 1, fill :: rest, hr => exact absurd (by simpa using hr) hne
      | k + 2, fill :: rest, _ => exact ⟨ack, fill, rest, rfl, by simp, by simp⟩

/-- An environment in which every request succeeds. -/
def smoothEnv (clock : ℕ → ℤ) : Env where
  clock := clock
  timestamp := 0
  txTime _ := 0
  database _ := .up
  broker _ := .up
  exchange := .sendError

/-- Where every request succeeds, a report that the writer accepts is committed and the next
one is emitted. -/
theorem emitAll_cons_of_ok {clock : ℕ → ℤ} {i : ℕ} {report : ExecutionReport}
    {reports : List ExecutionReport} {w : World} {db : Db}
    (h : DbWriter.persistExecution rt (cfg.call order report 0) w.db = .ok db) :
    emitAll rt cfg (smoothEnv clock) i order (report :: reports) w =
      emitAll rt cfg (smoothEnv clock) (i + 1) order reports { w with
        db, committed := w.committed ++ [report], published := w.published ++ [report] } := by
  simp only [emitAll, emit, persist, publishReport, smoothEnv, h]

/-- A bindable call that is no fill is accepted by every database. -/
theorem accepted_of_not_fill {c : Call} (db : Db) (hb : DbWriter.Bindable rt c)
    (hfill : c.isFill = false) : DbWriter.Accepted rt c db :=
  ⟨hb, fun h => absurd h (by simp [hfill]), fun h => absurd h (by simp [hfill])⟩

/-- A bindable call is accepted by a database without trades and positions. -/
theorem accepted_of_empty {c : Call} {db : Db} (hb : DbWriter.Bindable rt c)
    (htrades : db.trades = []) (hpositions : db.positions = []) : DbWriter.Accepted rt c db :=
  ⟨hb, fun _ t _ => Or.inr (by simp [htrades, conflicts]),
    fun _ p old _ hold => by simp [Db.position, hpositions] at hold⟩

/-- In a smooth environment a recordable command has its first fill committed. -/
theorem fill_committed {clock : ℕ → ℤ} {ack fill : ExecutionReport} {rest : List ExecutionReport}
    (h : buildReports rt.fp clock order = ack :: fill :: rest)
    (hack : DbWriter.Bindable rt (cfg.call order ack 0))
    (hfill : DbWriter.Bindable rt (cfg.call order fill 0)) :
    fill ∈ (emitAll rt cfg (smoothEnv clock) 0 order (ack :: fill :: rest) {}).1.committed := by
  have hnofill : (cfg.call order ack 0).isFill = false := by
    simp [Call.isFill, Config.call, (buildReports_cons h).1]
  obtain ⟨db₁, h₁⟩ := DbWriter.persistExecution_isOk_iff.mpr
    (accepted_of_not_fill {} hack hnofill)
  obtain ⟨-, ⟨hisfill, -⟩ | ⟨-, heffect⟩⟩ := DbWriter.persistExecution_ok_iff.mp h₁
  · simp [hnofill] at hisfill
  · obtain ⟨db₂, h₂⟩ := DbWriter.persistExecution_isOk_iff.mpr
      (accepted_of_empty hfill heffect.trades heffect.positions)
    rw [emitAll_cons_of_ok h₁, emitAll_cons_of_ok h₂]
    exact emitAll_prefix.subset (by simp)

/-- **The router in PAPER mode** commits no fill for a command exactly when the command is a
cancel or its simulated trace cannot be recorded. -/
theorem noPaperFill_iff (hmode : eqIgnoreAsciiCase cfg.executionMode "PAPER" = true) :
    NoPaperFill rt cfg order ↔
      order.action = OrderAction.cancel.code ∨ ¬ Recordable rt cfg order := by
  constructor
  · intro h
    by_contra hcon
    rw [not_or, not_not] at hcon
    obtain ⟨hcancel, clock, ack, fill, rest, t₀, t₁, hreports, hack, hfill⟩ := hcon
    obtain ⟨new, hnew, hnone⟩ := h (smoothEnv clock) {}
    have hmem := fill_committed hreports (DbWriter.bindable_at 0 hack)
      (DbWriter.bindable_at 0 hfill)
    rw [handleOrder, if_pos hmode, if_neg hcancel, show (smoothEnv clock).clock = clock from rfl,
      hreports] at hnew
    rw [hnew] at hmem
    have hlike := (buildReports_cons hreports).2 fill (by simp)
    rw [hnone fill (by simpa using hmem)] at hlike
    simp at hlike
  · intro h env w
    rw [handleOrder, if_pos hmode]
    split
    · obtain ⟨k, hk, -⟩ :=
        emitAll_committed rt cfg env 0 order [buildCancel (env.clock 0) order] w
      refine ⟨_, hk, fun r hr => ?_⟩
      rw [List.mem_singleton.mp (List.mem_of_mem_take hr)]
      rfl
    · rename_i hcancel
      obtain ⟨k, hk, hall⟩ :=
        emitAll_committed rt cfg env 0 order (buildReports rt.fp env.clock order) w
      refine ⟨_, hk, fun r hr => ?_⟩
      by_contra hlike
      rw [Bool.not_eq_false] at hlike
      obtain ⟨ack, fill, rest, hreports, hack, hfill⟩ := exists_of_fill_mem_take hr hlike
      obtain ⟨t₀, hb₀⟩ := hall ack hack
      obtain ⟨t₁, hb₁⟩ := hall fill hfill
      exact (h.resolve_left hcancel) ⟨env.clock, ack, fill, rest, t₀, t₁, hreports, hb₀, hb₁⟩

/-- Outside PAPER mode exactly the commands that are sent on leave a query. -/
theorem handleOrder_placed (hmode : eqIgnoreAsciiCase cfg.executionMode "PAPER" = false)
    (env : Env) (w : World) :
    (handleOrder rt cfg env (buildBinanceClient cfg) order w).1.placed =
      if Placed cfg order then w.placed ++ [orderQuery rt env order] else w.placed := by
  rw [handleOrder, if_neg (by simp [hmode])]
  by_cases hexchange : toAsciiUppercase (trim cfg.exchange) = "BINANCE"
  · simp only [if_pos hexchange]
    cases hclient : buildBinanceClient cfg with
    | none => simp [emitAll_placed, Placed, hclient]
    | some client =>
        by_cases htype : order.type = OrderType.market.code
        · have hplaced : Placed cfg order := ⟨hexchange, by simp [hclient], htype⟩
          simp only [Option.isNone_some, Bool.false_eq_true, if_false, ne_eq, htype,
            not_true_eq_false, placeOrder, if_pos hplaced]
          cases orderAck rt env.exchange <;> exact emitAll_placed
        · have hplaced : ¬ Placed cfg order := fun h => htype h.2.2
          simp [emitAll_placed, htype, hplaced]
  · have hplaced : ¬ Placed cfg order := fun h => hexchange h.1
    simp only [if_neg hexchange, if_neg hplaced]
    split <;> exact emitAll_placed

/-- **The router in another mode** sends no order for a command exactly when the command is not
one that it sends on; the action does not count. -/
theorem noPlacement_iff (hmode : eqIgnoreAsciiCase cfg.executionMode "PAPER" = false) :
    NoPlacement rt cfg order ↔ ¬ Placed cfg order := by
  simp only [NoPlacement, handleOrder_placed hmode]
  constructor
  · intro h hplaced
    have := h (smoothEnv fun _ => 0) {}
    rw [if_pos hplaced] at this
    simp at this
  · intro h env w
    rw [if_neg h]

/-- **The paper trader** publishes a FILLED report for every command. -/
theorem not_noTraderFill : ¬ NoTraderFill rt order := by
  intro h
  obtain ⟨new, hnew, hnone⟩ := h .up 0 0 []
  obtain rfl : [PaperTrader.fillReport rt 0 0 order] = new := by simpa [PaperTrader.step] using hnew
  exact hnone _ (List.mem_singleton.mpr rfl) rfl

/-- **What the executors do with a command**, whatever its action. The router in PAPER mode
commits no fill for it exactly when it is a cancel or cannot be recorded; the router in another
mode sends no order exactly when it is not one that it sends on; and the three never all leave
a command alone, because the paper trader fills every command. -/
theorem never_neverTrades (rt : Runtime) (cfg : Router.Config) (order : OrderCommand) :
    ((eqIgnoreAsciiCase cfg.executionMode "PAPER" = true → NoPaperFill rt cfg order) ↔
        (eqIgnoreAsciiCase cfg.executionMode "PAPER" = true →
          order.action = OrderAction.cancel.code ∨ ¬ Recordable rt cfg order)) ∧
      ((eqIgnoreAsciiCase cfg.executionMode "PAPER" = false → NoPlacement rt cfg order) ↔
        (eqIgnoreAsciiCase cfg.executionMode "PAPER" = false → ¬ Placed cfg order)) ∧
      ¬ NeverTrades rt cfg order :=
  ⟨forall_congr' noPaperFill_iff, forall_congr' noPlacement_iff,
    fun h => not_noTraderFill h.trader⟩

/-- A replace and a cancel, each a MARKET command with a positive quantity. -/
def marketReplace : OrderCommand :=
  OrderCommand.sample "018f3c2e-0000-7000-8000-00000000000a" OrderAction.replace.code 1 1 1 60000

def marketCancel : OrderCommand := { marketReplace with action := OrderAction.cancel.code }

/-- A router that trades with the exchange. -/
def realConfig : Router.Config :=
  { Config.paper with
    executionMode := "REAL"
    binanceApiKey := "key"
    binanceApiSecret := "secret" }

/-- The replace is filled in PAPER mode, the cancel is placed at the exchange in REAL mode, and
the paper trader fills both. -/
theorem marketReplace_trades :
    ¬ NoPaperFill Runtime.reference Config.paper marketReplace ∧
      ¬ NoPlacement Runtime.reference realConfig marketCancel ∧
      ¬ NoTraderFill Runtime.reference marketReplace ∧
      ¬ NoTraderFill Runtime.reference marketCancel := by
  refine ⟨fun h => ?_, fun h => ?_, not_noTraderFill, not_noTraderFill⟩
  · obtain ⟨new, hnew, hnone⟩ := h (smoothEnv fun i => i) {}
    have hfill : (handleOrder Runtime.reference Config.paper (smoothEnv fun i => i)
        (buildBinanceClient Config.paper) marketReplace {}).1.committed.any isFillLike = true := by
      decide +kernel
    rw [hnew] at hfill
    obtain ⟨r, hr, hlike⟩ := List.any_eq_true.mp hfill
    rw [hnone r (by simpa using hr)] at hlike
    simp at hlike
  · have hplaced : (handleOrder Runtime.reference realConfig (smoothEnv fun i => i)
        (buildBinanceClient realConfig) marketCancel {}).1.placed ≠ [] := by decide +kernel
    exact hplaced (h _ {})

end HftPlatform
