import HftPlatform.Gateway
import HftPlatform.Lib.Query
import HftPlatform.Lib.Text
import Mathlib.Data.List.Forall2

/-!
# Cancelling all orders

`handle_cancel_all_orders` of `services/api_gateway/src/routes/orders.rs` over `list_orders` of
`libs/rust/hft_store/src/repos/orders_repo.rs`: the newest 1000 orders that match the filters are
loaded, and a cancel is submitted for those of them that are active.

Three things stand between an active order and its cancel. The status is compared as it is printed
for debugging, where PARTIALLY_FILLED has no underscore. The limit counts orders of any status. And
the ids of the exchange, which migration 010 made texts, are loaded as integers: one row that has
an id of the exchange fails the whole request.

## Main results

* `handleCancelAllOrders_spec`: what a request submits.
* `cancelAllComplete_iff`: when it cancels all active orders.
-/

namespace HftPlatform

open Lib

/-- The label of a status in the database. -/
def DbOrderStatus.label : DbOrderStatus → String
  | .new => "NEW"
  | .partiallyFilled => "PARTIALLY_FILLED"
  | .filled => "FILLED"
  | .canceled => "CANCELED"
  | .rejected => "REJECTED"
  | .expired => "EXPIRED"

/-- `Debug` -/
def DbOrderStatus.debug : DbOrderStatus → String
  | .new => "New"
  | .partiallyFilled => "PartiallyFilled"
  | .filled => "Filled"
  | .canceled => "Canceled"
  | .rejected => "Rejected"
  | .expired => "Expired"

/-- The rows of `orders`; the id of a client is unique. -/
structure OrdersTable where
  rows : List OrderRow
  unique : (rows.map OrderRow.clientOrderId).Nodup

/-- A filter that is not set accepts every value. -/
def accepts (filter value : Option String) : Bool :=
  match filter with
  | none => true
  | some s => value == some s

/-- The condition of `list_orders`. -/
def OrderRow.selected (symbol status strategyVersion : Option String) (row : OrderRow) : Bool :=
  accepts symbol (some row.symbol) && accepts status (some row.status.label) &&
    accepts strategyVersion row.strategyVersion

/-- The rows as the client reads them: an error when one of them cannot be read. -/
def readRows (page : List OrderRow) : Except Unit (List OrderRow) :=
  if page.all OrderRow.readable then .ok page else .error ()

/-- What `list_orders` may return, for a page of the newest rows. -/
def ListOrders (symbol status strategyVersion : Option String) (limit offset : ℕ)
    (table : OrdersTable) (fetched : Except Unit (List OrderRow)) : Prop :=
  ∃ page, Page (OrderRow.selected symbol status strategyVersion) OrderRow.createdAt limit offset
      table.rows page ∧
    fetched = readRows page

namespace Gateway

structure CancelAllParams where
  symbol : Option String
  strategyId : Option String

structure CancelAllResponse where
  status : String
  cancelledCount : ℕ
  symbolFilter : Option String
  strategyFilter : Option String
  deriving DecidableEq, Repr

/-- What a request reads besides the database: for every turn of its loop a fresh id, the clock and
whether the broker takes the message; and whether there is a producer at all. -/
structure CancelAllEnv where
  traceId : ℕ → Uuid
  nowNs : ℕ → ℤ
  producer : Bool
  sends : ℕ → Bool

/-- The broker takes every message. -/
def CancelAllEnv.Healthy (env : CancelAllEnv) : Prop :=
  env.producer = true ∧ ∀ i, env.sends i = true

section Handler

variable (rt : Runtime) (env : CancelAllEnv)

/-- `submit_order`: whether it succeeds, and what is published. Without a producer it succeeds. -/
def submitOrder (i : ℕ) (cmd : OrderCommand) : Bool × List OrderCommand :=
  if env.producer then
    if env.sends i then (true, [cmd]) else (false, [])
  else (true, [])

/-- The status of an order as the loop compares it. -/
def statusStr (status : DbOrderStatus) : String := toAsciiUppercase status.debug

def bulkCancel (i : ℕ) (order : OrderRow) : OrderCommand where
  accountId := order.accountId
  symbol := order.symbol
  clientOrderId := rt.showUuid order.clientOrderId
  side := 0
  type := 0
  tif := 0
  qty := .zero
  price := .zero
  reduceOnly := false
  stopPrice := .zero
  decisionReason := "Manual bulk cancel via dashboard"
  traceId := rt.showUuid (env.traceId i)
  decisionTimeNs := env.nowNs i
  schemaVersion := 1
  action := OrderAction.cancel.code
  strategyId := order.strategyVersion.getD ""
  signalId := ""

/-- The loop from its `i`-th turn on: how many cancels succeed, and what is published. -/
def cancelLoop : ℕ → List OrderRow → ℕ × List OrderCommand
  | _, [] => (0, [])
  | i, order :: orders =>
      if statusStr order.status = "NEW" ∨ statusStr order.status = "PARTIALLY_FILLED" then
        let submitted := submitOrder env i (bulkCancel rt env i order)
        let rest := cancelLoop (i + 1) orders
        (if submitted.1 then rest.1 + 1 else rest.1, submitted.2 ++ rest.2)
      else cancelLoop (i + 1) orders

/-- The answer, and the commands that are published. -/
def handleCancelAllOrders (params : CancelAllParams) (fetched : Except Unit (List OrderRow)) :
    Except StatusCode CancelAllResponse × List OrderCommand :=
  match fetched with
  | .ok orders =>
      let cancelled := cancelLoop rt env 0 orders
      (.ok ⟨"ok", cancelled.1, params.symbol, params.strategyId⟩, cancelled.2)
  | .error _ => (.error .internalServerError, [])

end Handler

/-! ### What a request is for -/

/-- The order can still be filled. -/
def active (row : OrderRow) : Bool := row.status = .new || row.status = .partiallyFilled

/-- The command cancels the order. -/
structure Cancels (rt : Runtime) (row : OrderRow) (cmd : OrderCommand) : Prop where
  action : cmd.action = OrderAction.cancel.code
  clientOrderId : cmd.clientOrderId = rt.showUuid row.clientOrderId
  accountId : cmd.accountId = row.accountId
  symbol : cmd.symbol = row.symbol

/-- The rows that match the filters of a request. -/
def CancelAllParams.matching (params : CancelAllParams) (table : OrdersTable) : List OrderRow :=
  table.rows.filter (OrderRow.selected params.symbol none params.strategyId)

/-- **A request cancels all active orders that match, and no other**: whatever the query returns,
the commands that are published are one cancel for each of them. -/
def CancelAllComplete (rt : Runtime) (params : CancelAllParams) (table : OrdersTable) : Prop :=
  ∀ env fetched, env.Healthy →
    ListOrders params.symbol none params.strategyId 1000 0 table fetched →
    ∃ rows, rows.Perm ((params.matching table).filter active) ∧
      List.Forall₂ (Cancels rt) rows (handleCancelAllOrders rt env params fetched).2

/-- Nothing stands between the active orders that match and their cancels. -/
structure Unobstructed (params : CancelAllParams) (table : OrdersTable) : Prop where
  /-- A matching row that may be among the newest 1000 can be read. -/
  readable : ∀ row ∈ params.matching table,
    (params.matching table).countP (fun other => row.createdAt < other.createdAt) < 1000 →
    row.readable = true
  /-- No matching order is partially filled. -/
  status : ∀ row ∈ params.matching table, row.status ≠ .partiallyFilled
  /-- A matching new order is among the newest 1000 that match. -/
  newest : ∀ row ∈ params.matching table, row.status = .new →
    (params.matching table).countP (fun other => row.createdAt ≤ other.createdAt) ≤ 1000

/-- A broker that takes every message. -/
def healthyEnv : CancelAllEnv := ⟨fun _ => 0, fun _ => 0, true, fun _ => true⟩

theorem healthyEnv_healthy : healthyEnv.Healthy := ⟨rfl, fun _ => rfl⟩

variable {rt : Runtime} {env : CancelAllEnv} {params : CancelAllParams} {table : OrdersTable}

/-- The comparison of the loop only finds new orders. -/
theorem statusStr_iff {status : DbOrderStatus} :
    (statusStr status = "NEW" ∨ statusStr status = "PARTIALLY_FILLED") ↔ status = .new := by
  cases status <;> decide +kernel

/-- **What the loop publishes**, with a healthy broker: one cancel for each new order. -/
theorem cancelLoop_spec (henv : env.Healthy) (i : ℕ) (orders : List OrderRow) :
    List.Forall₂ (Cancels rt) (orders.filter fun row => row.status = .new)
      (cancelLoop rt env i orders).2 := by
  induction orders generalizing i with
  | nil => exact List.Forall₂.nil
  | cons order orders ih =>
      rw [cancelLoop]
      by_cases hstatus : order.status = .new
      · rw [List.filter_cons_of_pos (by simpa using hstatus), if_pos (statusStr_iff.mpr hstatus),
          submitOrder, if_pos henv.1, if_pos (henv.2 i)]
        exact List.Forall₂.cons ⟨rfl, rfl, rfl, rfl⟩ (ih (i + 1))
      · rw [List.filter_cons_of_neg (by simpa using hstatus), if_neg (mt statusStr_iff.mp hstatus)]
        exact ih (i + 1)

/-- **What a request publishes**, with a healthy broker: one cancel for each new order on the page,
and nothing when a row of the page cannot be read. -/
theorem handleCancelAllOrders_spec (rt : Runtime) (params : CancelAllParams)
    (henv : env.Healthy) (page : List OrderRow) :
    ((∀ row ∈ page, row.readable = true) →
      List.Forall₂ (Cancels rt) (page.filter fun row => row.status = .new)
        (handleCancelAllOrders rt env params (readRows page)).2) ∧
    (¬ (∀ row ∈ page, row.readable = true) →
      (handleCancelAllOrders rt env params (readRows page)).2 = []) := by
  constructor
  · intro hreadable
    rw [readRows, if_pos (List.all_eq_true.mpr hreadable)]
    exact cancelLoop_spec henv 0 page
  · intro hreadable
    rw [readRows, if_neg (mt List.all_eq_true.mp hreadable)]
    rfl

theorem nodup_rows (table : OrdersTable) : table.rows.Nodup := table.unique.of_map

/-- The new orders of a page are active orders that match. -/
theorem filter_new_subperm {page : List OrderRow}
    (hpage : Page (OrderRow.selected params.symbol none params.strategyId) OrderRow.createdAt 1000 0
      table.rows page) :
    (page.filter fun row => row.status = .new).Subperm ((params.matching table).filter active) := by
  have hactive : ∀ row : OrderRow, decide (row.status = .new) = true → active row = true := by
    intro row h
    rw [active, Bool.or_eq_true]
    exact Or.inl h
  exact (hpage.subperm.filter _).trans (List.monotone_filter_right _ hactive).subperm

/-- A page that a complete request reads can be read, and its new orders are all active orders that
match, unless there are none. -/
theorem CancelAllComplete.page (h : CancelAllComplete rt params table)
    (hsome : ¬ ∀ row ∈ params.matching table, active row = false) {page : List OrderRow}
    (hpage : Page (OrderRow.selected params.symbol none params.strategyId) OrderRow.createdAt 1000 0
      table.rows page) :
    (∀ row ∈ page, row.readable = true) ∧
      (page.filter fun row => row.status = .new).Perm ((params.matching table).filter active) := by
  obtain ⟨rows, hrows, hcancels⟩ :=
    h healthyEnv _ healthyEnv_healthy ⟨page, hpage, rfl⟩
  obtain ⟨hread, hunread⟩ := handleCancelAllOrders_spec rt params healthyEnv_healthy page
  have hreadable : ∀ row ∈ page, row.readable = true := by
    by_contra hnot
    rw [hunread hnot, List.forall₂_nil_right_iff] at hcancels
    subst hcancels
    refine hsome fun row hrow => ?_
    have hnot : row ∉ (params.matching table).filter active := by
      rw [← hrows.mem_iff]
      exact List.not_mem_nil
    simpa [hrow] using hnot
  refine ⟨hreadable, (filter_new_subperm hpage).perm_of_length_le ?_⟩
  rw [← hrows.length_eq, hcancels.length_eq, (hread hreadable).length_eq]

/-- What a complete request finds, unless there is nothing to cancel. -/
theorem CancelAllComplete.unobstructed (h : CancelAllComplete rt params table)
    (hsome : ¬ ∀ row ∈ params.matching table, active row = false) : Unobstructed params table := by
  refine ⟨?_, ?_, ?_⟩
  · intro row hrow hcount
    obtain ⟨hmem, hselected⟩ := List.mem_filter.mp hrow
    obtain ⟨page, hpage, hrow⟩ := (Page.mem_some_iff hmem hselected).mpr hcount
    exact (h.page hsome hpage).1 row hrow
  · intro row hrow hstatus
    obtain ⟨page, hpage⟩ :=
      Page.exists (OrderRow.selected params.symbol none params.strategyId) OrderRow.createdAt
        1000 0 table.rows
    have hactive : row ∈ (params.matching table).filter active :=
      List.mem_filter.mpr ⟨hrow, by simp [active, hstatus]⟩
    have hnew := (List.mem_filter.mp ((h.page hsome hpage).2.mem_iff.mpr hactive)).2
    rw [hstatus] at hnew
    exact absurd hnew (by decide)
  · intro row hrow hstatus
    obtain ⟨hmem, hselected⟩ := List.mem_filter.mp hrow
    refine (Page.mem_every_iff (nodup_rows table) hmem hselected).mp fun page hpage => ?_
    have hactive : row ∈ (params.matching table).filter active :=
      List.mem_filter.mpr ⟨hrow, by simp [active, hstatus]⟩
    exact List.mem_of_mem_filter ((h.page hsome hpage).2.mem_iff.mpr hactive)

/-- Where there is nothing to cancel, nothing is published. -/
theorem cancelAllComplete_of_none (hnone : ∀ row ∈ params.matching table, active row = false) :
    CancelAllComplete rt params table := by
  rintro env fetched henv ⟨page, hpage, rfl⟩
  obtain ⟨hread, hunread⟩ := handleCancelAllOrders_spec rt params henv page
  have hempty : (params.matching table).filter active = [] :=
    List.filter_eq_nil_iff.mpr fun row hrow => by simp [hnone row hrow]
  have hnew : (page.filter fun row => row.status = .new) = [] := by
    have hsub := filter_new_subperm hpage
    rw [hempty] at hsub
    exact List.subperm_nil.mp hsub
  refine ⟨[], by rw [hempty], ?_⟩
  by_cases hall : ∀ row ∈ page, row.readable = true
  · rw [← hnew]
    exact hread hall
  · rw [hunread hall]
    exact List.Forall₂.nil

/-- Where nothing stands in the way, every page can be read and has all active orders that match, as
new orders. -/
theorem Unobstructed.complete (h : Unobstructed params table) :
    CancelAllComplete rt params table := by
  rintro env fetched henv ⟨page, hpage, rfl⟩
  have hall : ∀ row ∈ page, row.readable = true := by
    intro row hrow
    obtain ⟨hmem, hselected⟩ := hpage.mem hrow
    exact h.readable row (List.mem_filter.mpr ⟨hmem, hselected⟩)
      ((Page.mem_some_iff hmem hselected).mp ⟨page, hpage, hrow⟩)
  have hsubset : (params.matching table).filter active ⊆
      page.filter fun row => row.status = .new := by
    intro row hrow
    obtain ⟨hmatch, hactive⟩ := List.mem_filter.mp hrow
    obtain ⟨hmem, hselected⟩ := List.mem_filter.mp hmatch
    have hcases : row.status = .new ∨ row.status = .partiallyFilled := by
      simpa [active] using hactive
    have hnew : row.status = .new := hcases.resolve_right (h.status row hmatch)
    refine List.mem_filter.mpr ⟨?_, by simp [hnew]⟩
    exact (Page.mem_every_iff (nodup_rows table) hmem hselected).mpr (h.newest row hmatch hnew)
      page hpage
  have hnodup := ((nodup_rows table).filter
    (OrderRow.selected params.symbol none params.strategyId)).filter active
  exact ⟨_, (filter_new_subperm hpage).antisymm (List.subperm_of_subset hnodup hsubset),
    (handleCancelAllOrders_spec rt params henv page).1 hall⟩

/-- **When a request cancels all active orders**: when there are none to cancel, or nothing stands
between them and their cancels. -/
theorem cancelAllComplete_iff (rt : Runtime) (params : CancelAllParams) (table : OrdersTable) :
    CancelAllComplete rt params table ↔
      (∀ row ∈ params.matching table, active row = false) ∨ Unobstructed params table := by
  constructor
  · intro h
    by_cases hnone : ∀ row ∈ params.matching table, active row = false
    · exact Or.inl hnone
    · exact Or.inr (h.unobstructed hnone)
  · rintro (hnone | h)
    · exact cancelAllComplete_of_none hnone
    · exact h.complete

/-- An order for BTCUSDT. -/
def sampleOrder (status : DbOrderStatus) (exchangeOrderId : Option String) : OrderRow where
  clientOrderId := 1
  exchangeOrderId := exchangeOrderId
  accountId := "paper-main"
  symbol := "BTCUSDT"
  side := .buy
  type := .limit
  tif := .gtc
  qty := (100000000 : ℤ)
  price := none
  stopPrice := none
  takeProfitPrice := none
  coinTags := []
  status := status
  filledQty := (40000000 : ℤ)
  avgPrice := none
  reduceOnly := false
  traceId := none
  createdAt := 0
  updatedAt := 0

def singleOrder (status : DbOrderStatus) (exchangeOrderId : Option String) : OrdersTable where
  rows := [sampleOrder status exchangeOrderId]
  unique := List.nodup_singleton _

/-- A request for a table of one active order is not complete when it publishes nothing. -/
theorem not_complete_of_nothing {status : DbOrderStatus} {exchangeOrderId : Option String}
    (hactive : active (sampleOrder status exchangeOrderId) = true)
    (hnothing : (handleCancelAllOrders Runtime.reference healthyEnv ⟨none, none⟩
      (readRows [sampleOrder status exchangeOrderId])).2 = []) :
    ¬ CancelAllComplete Runtime.reference ⟨none, none⟩ (singleOrder status exchangeOrderId) := by
  intro h
  have hpage : Page (OrderRow.selected none none none) OrderRow.createdAt 1000 0
      (singleOrder status exchangeOrderId).rows [sampleOrder status exchangeOrderId] :=
    Page.first_iff.mpr ⟨_, ⟨List.Perm.refl _, List.pairwise_singleton _ _⟩, rfl⟩
  obtain ⟨rows, hrows, hcancels⟩ := h _ _ healthyEnv_healthy ⟨_, hpage, rfl⟩
  rw [hnothing, List.forall₂_nil_right_iff] at hcancels
  rw [hcancels, CancelAllParams.matching] at hrows
  have hempty := hrows.nil_eq
  simp [singleOrder, OrderRow.selected, accepts, hactive] at hempty

/-- An order that is partially filled is left alone; one that the exchange has given an id fails the
request. -/
theorem not_cancelAllComplete_single :
    ¬ CancelAllComplete Runtime.reference ⟨none, none⟩ (singleOrder .partiallyFilled none) ∧
      ¬ CancelAllComplete Runtime.reference ⟨none, none⟩ (singleOrder .new (some "42")) :=
  ⟨not_complete_of_nothing rfl (by decide +kernel), not_complete_of_nothing rfl (by decide +kernel)⟩

end Gateway

end HftPlatform
