import HftPlatform.Ledger

/-!
# The order row as a state machine

The upsert of `orders` overwrites the status, the filled quantity, the average price and
the exchange order id of the stored row with those of the report at hand, whatever is
stored. This module says what that makes of the row over whole runs.

## Main results

* `assigned_iff_of_builtFor`: which of the router's reports carry an exchange's order id.
* `rowKept_run_iff`: a preorder on order rows holds along a run exactly when every accepted
  call of the order respects it.
* `terminalStatus_kept_iff`: a terminal status stays for good exactly when every report
  accepted after it has the same status.
* `orderRow_agrees_iff`: the filled quantity never decreases, equals the traded quantity, and
  an exchange's order id stays, exactly when every accepted report continues the stored row.
-/

namespace HftPlatform

open Lib DbWriter

/-- No further fill or transition is expected of an order in this state. -/
def DbOrderStatus.terminal : DbOrderStatus → Bool
  | .filled | .canceled | .rejected | .expired => true
  | .new | .partiallyFilled => false

/-- An exchange order id that the exchange assigned. -/
def assigned (exchangeOrderId : Option String) : Bool := exchangeOrderId.any fun e => !simulated e

/-- Among the reports the router builds, exactly the exchange's acknowledgements carry an
assigned id. -/
theorem assigned_iff_of_builtFor {fp : Rounding} {order : OrderCommand}
    {report : ExecutionReport} (h : BuiltFor fp order report) :
    assigned (nullIfEmpty report.exchangeOrderId) = true ↔
      ∃ now ack, report = buildExchangeAck now order ack := by
  constructor
  · intro hassigned
    refine h.cases_exchangeOrderId.resolve_right fun hsim => ?_
    have hne : "sim-" ++ order.clientOrderId ≠ "" := by simp
    rw [hsim, nullIfEmpty, if_neg hne, assigned, Option.any_some, simulated] at hassigned
    simp at hassigned
  · rintro ⟨now, ack, rfl⟩
    have hne : toString ack.orderId ≠ "" := by
      cases ack.orderId with
      | ofNat m => exact Nat.repr_ne_empty
      | negSucc m => simp [Int.repr]
    have hid : nullIfEmpty (buildExchangeAck now order ack).exchangeOrderId =
        some (toString ack.orderId) := if_neg hne
    rw [hid, assigned, Option.any_some, not_simulated_toString]
    rfl

variable {rt : Runtime} {c : Call} {db db' : Db} {u : Uuid}

/-- The row holds the columns of the report. -/
structure Carries (rt : Runtime) (c : Call) (row : OrderRow) : Prop where
  exchangeOrderId : row.exchangeOrderId = nullIfEmpty c.report.exchangeOrderId
  status : row.status = mapStatus c.report.status
  filledQty : numeric20 rt c.report.cumulativeFilledQty = .ok row.filledQty

/-- A committed call leaves the columns of its report in the row of its order. -/
theorem DbWriter.BaseEffect.carries (h : BaseEffect rt c db db')
    (hu : rt.parseUuid c.order.clientOrderId = some u) :
    ∃ row, db'.order u = some row ∧ Carries rt c row := by
  obtain ⟨row, hrow, horders⟩ := h.orders
  obtain ⟨hid, hex, hstatus, hfilled⟩ := orderRow_spec hrow
  obtain rfl : row.clientOrderId = u := Option.some.inj (hid.symm.trans hu)
  obtain ⟨row', hrow', ⟨-, rfl⟩ | ⟨old, -, hm⟩⟩ :=
    lookup_upsert_self (by rintro old _ ⟨⟩; rfl) horders
  · exact ⟨row', hrow', hex, hstatus, hfilled⟩
  · obtain rfl : mergeOrder row old = row' := Except.ok.inj hm
    exact ⟨_, hrow', hex, hstatus, hfilled⟩

/-- A committed call leaves the rows of the other orders alone. -/
theorem DbWriter.BaseEffect.order_of_ne (h : BaseEffect rt c db db')
    (hu : rt.parseUuid c.order.clientOrderId ≠ some u) : db'.order u = db.order u := by
  obtain ⟨row, hrow, horders⟩ := h.orders
  refine lookup_upsert_of_ne ?_ (by rintro old _ ⟨⟩; rfl) horders
  rintro rfl
  exact hu (orderRow_spec hrow).1

/-! ### Relations along a run -/

/-- The row of the order, once stored, stays and is related by `Q` to what it was. -/
def RowKept (u : Uuid) (Q : OrderRow → OrderRow → Prop) (db db' : Db) : Prop :=
  ∀ row, db.order u = some row → ∃ row', db'.order u = some row' ∧ Q row row'

/-- `C` holds of every call of the run that the database accepts, in the state before it. -/
def CommitsMeet (rt : Runtime) (db₀ : Db) (inputs : List (Call × Bool))
    (C : Call → Db → Prop) : Prop :=
  ∀ pre c post, inputs = pre ++ (c, false) :: post →
    Accepted rt c (run (persistExecution rt) db₀ pre) → C c (run (persistExecution rt) db₀ pre)

/-- What every accepted call meets is what every committed transaction meets. -/
theorem commitsMeet_iff {db₀ : Db} {inputs : List (Call × Bool)} {C : Call → Db → Prop} :
    CommitsMeet rt db₀ inputs C ↔
      EachCommit (persistExecution rt) db₀ inputs fun _ c db _ => C c db := by
  constructor
  · intro h pre c post db' hinputs hok
    exact h pre c post hinputs (persistExecution_isOk_iff.mp ⟨db', hok⟩)
  · intro h pre c post hinputs hacc
    obtain ⟨db', hok⟩ := persistExecution_isOk_iff.mpr hacc
    exact h pre c post db' hinputs hok

section RowKept

variable {Q : OrderRow → OrderRow → Prop} {C : Call → OrderRow → Prop}

/-- Kept rows, seen through what is computed from them. -/
theorem RowKept.exists_of_map {α : Type} {f : OrderRow → α} {a b : α} (h : RowKept u Q db db')
    (ha : (db.order u).map f = some a) (hb : (db'.order u).map f = some b) :
    ∃ row row', f row = a ∧ f row' = b ∧ Q row row' := by
  obtain ⟨row, hrow, hfa⟩ := Option.map_eq_some_iff.mp ha
  obtain ⟨row', hrow', hQ⟩ := h row hrow
  rw [hrow', Option.map_some, Option.some.injEq] at hb
  exact ⟨row, row', hfa, hb, hQ⟩

/-- One committed call relates the stored row to its successor exactly when its report does. -/
theorem rowKept_step_iff (hrefl : ∀ row, Q row row)
    (hQ : ∀ c row row', Carries rt c row' → (Q row row' ↔ C c row))
    (h : persistExecution rt c db = .ok db') :
    RowKept u Q db db' ↔ (rt.parseUuid c.order.clientOrderId = some u →
      ∀ row, db.order u = some row → C c row) := by
  have hbase := (persistExecution_ok_iff.mp h).1
  by_cases hu : rt.parseUuid c.order.clientOrderId = some u
  · obtain ⟨row', hrow', hcarries⟩ := hbase.carries hu
    simp only [RowKept, hu, hrow', Option.some.injEq, exists_eq_left', forall_const]
    exact forall₂_congr fun row _ => hQ c row row' hcarries
  · simp only [RowKept, hbase.order_of_ne hu, hu, false_imp_iff, iff_true]
    exact fun row hrow => ⟨row, hrow, hrefl row⟩

/-- **The rule for the order row along a run.** -/
theorem rowKept_run_iff {db₀ : Db} {inputs : List (Call × Bool)} (hrefl : ∀ row, Q row row)
    (htrans : ∀ a b c, Q a b → Q b c → Q a c)
    (hQ : ∀ c row row', Carries rt c row' → (Q row row' ↔ C c row)) :
    AlongRun (persistExecution rt) db₀ inputs (RowKept u Q) ↔
      CommitsMeet rt db₀ inputs fun c db => rt.parseUuid c.order.clientOrderId = some u →
        ∀ row, db.order u = some row → C c row := by
  rw [alongRun_iff, commitsMeet_iff]
  · refine forall₄_congr fun pre c post db' => forall₂_congr fun _ hok => ?_
    exact rowKept_step_iff hrefl hQ hok
  · exact fun _ row hrow => ⟨row, hrow, hrefl row⟩
  · intro a b c hab hbc row hrow
    obtain ⟨row', hrow', h⟩ := hab row hrow
    obtain ⟨row'', hrow'', h'⟩ := hbc row' hrow'
    exact ⟨row'', hrow'', htrans _ _ _ h h'⟩

end RowKept

/-! ### Terminal statuses -/

/-- **When terminal statuses are absorbing.** Along a run a terminal status stays for good
exactly when every report that is accepted for the order from then on has that same status. -/
theorem terminalStatus_kept_iff (rt : Runtime) (u : Uuid) (db₀ : Db)
    (inputs : List (Call × Bool)) :
    AlongRun (persistExecution rt) db₀ inputs
        (RowKept u fun row row' => row.status.terminal = true → row'.status = row.status) ↔
      CommitsMeet rt db₀ inputs fun c db => rt.parseUuid c.order.clientOrderId = some u →
        ∀ row, db.order u = some row → row.status.terminal = true →
          mapStatus c.report.status = row.status := by
  refine rowKept_run_iff (fun _ _ => rfl) ?_ ?_
  · intro a b c hab hbc ha
    have hb : b.status = a.status := hab ha
    exact (hbc (by rwa [hb])).trans hb
  · intro c row row' hcarries
    rw [hcarries.status]

/-- An order that is filled, and then cancelled. -/
def lateCancelRun : List (Call × Bool) :=
  let order := OrderCommand.sample "018f3c2e-0000-7000-8000-00000000000a" 1 1 2 1 60000
  (buildReports Rounding.nearestEven (fun i => i) order ++ [buildCancel 3 order]).map fun r =>
    (Call.paper 0 order r, false)

/-- The late cancel turns the FILLED row into a CANCELED one. -/
theorem lateCancel_overwrites_filled :
    (∀ i ∈ lateCancelRun, i.1.order.clientOrderId = "018f3c2e-0000-7000-8000-00000000000a" ∧
        BuiltFor Runtime.reference.fp i.1.order i.1.report) ∧
      ¬ AlongRun (persistExecution Runtime.reference) {} lateCancelRun
        (RowKept 0x018f3c2e00007000800000000000000a fun row row' =>
          row.status.terminal = true → row'.status = row.status) := by
  refine ⟨?_, fun h => ?_⟩
  · intro i hi
    obtain ⟨r, hr, rfl⟩ := List.mem_map.mp hi
    refine ⟨rfl, ?_⟩
    rcases List.mem_append.mp hr with hr | hr
    · exact .simulated _ hr
    · rw [List.mem_singleton.mp hr]
      exact .cancel 3
  · have hstates : ([3, 4].map fun k => ((run (persistExecution Runtime.reference) {}
        (lateCancelRun.take k)).order 0x018f3c2e00007000800000000000000a).map OrderRow.status) =
          [some .filled, some .canceled] := by decide +kernel
    simp only [List.map_cons, List.map_nil, List.cons.injEq, and_true] at hstates
    obtain ⟨hbefore, hafter⟩ := hstates
    obtain ⟨row, row', hfilled, hcanceled, hkept⟩ :=
      (h.take (by decide : 3 ≤ 4)).exists_of_map hbefore hafter
    have hsame := hkept (by rw [hfilled]; rfl)
    rw [hfilled, hcanceled] at hsame
    exact absurd hsame (by decide)

/-! ### The filled quantity and the exchange order id -/

/-- What the row of the order says is filled; nothing when there is no row. -/
def filledQtyOf (u : Uuid) (db : Db) : Numeric := ((db.order u).map OrderRow.filledQty).getD 0

/-- What the trades of the order add up to. -/
def tradedQtyOf (u : Uuid) (db : Db) : Numeric :=
  ((db.trades.filter fun t => t.clientOrderId = u).map TradeRow.qty).sum

/-- What a call adds to the trades of its order. -/
def Call.tradedNow (rt : Runtime) (c : Call) : Except PgError Numeric :=
  if c.isFill then numeric20 rt c.report.lastFilledQty else .ok 0

/-- A committed call whose fill id is new adds its quantity to the trades of its order. -/
theorem tradedQtyOf_step (hu : rt.parseUuid c.order.clientOrderId = some u)
    (hfresh : c.isFill = true → ∀ x ∈ db.trades, x.fillId ≠ c.report.fillId)
    (h : persistExecution rt c db = .ok db') :
    ∃ q, c.tradedNow rt = .ok q ∧ tradedQtyOf u db' = tradedQtyOf u db + q := by
  obtain ⟨-, ⟨hfill, heffect⟩ | ⟨hfill, heffect⟩⟩ := persistExecution_ok_iff.mp h
  · obtain ⟨t, ht, htrades⟩ := heffect.trades
    obtain ⟨htu, -, -, -, htqty, htid, -⟩ := tradeRow_spec ht
    obtain rfl : t.clientOrderId = u := Option.some.inj (htu.symm.trans hu)
    refine ⟨t.qty, by rw [Call.tradedNow, if_pos hfill, htqty], ?_⟩
    rw [tradedQtyOf, insertTrade_of_fresh (by rw [htid]; exact hfresh hfill) htrades]
    simp [tradedQtyOf]
  · refine ⟨0, by simp [Call.tradedNow, hfill], ?_⟩
    rw [tradedQtyOf, heffect.trades, add_zero, tradedQtyOf]

/-- A committed call leaves the trades of the other orders alone. -/
theorem tradedQtyOf_step_of_ne (hu : rt.parseUuid c.order.clientOrderId ≠ some u)
    (hfresh : c.isFill = true → ∀ x ∈ db.trades, x.fillId ≠ c.report.fillId)
    (h : persistExecution rt c db = .ok db') : tradedQtyOf u db' = tradedQtyOf u db := by
  obtain ⟨-, ⟨hfill, heffect⟩ | ⟨-, heffect⟩⟩ := persistExecution_ok_iff.mp h
  · obtain ⟨t, ht, htrades⟩ := heffect.trades
    obtain ⟨htu, -, -, -, -, htid, -⟩ := tradeRow_spec ht
    have hne : t.clientOrderId ≠ u := by
      rintro rfl
      exact hu htu
    rw [tradedQtyOf, insertTrade_of_fresh (by rw [htid]; exact hfresh hfill) htrades]
    simp [tradedQtyOf, hne]
  · rw [tradedQtyOf, heffect.trades, tradedQtyOf]

/-- One committed call keeps the filled quantity equal to the traded one exactly when its
report continues the stored quantity. -/
theorem filledQtyOf_eq_step_iff (hbefore : filledQtyOf u db = tradedQtyOf u db)
    (hfresh : c.isFill = true → ∀ x ∈ db.trades, x.fillId ≠ c.report.fillId)
    (h : persistExecution rt c db = .ok db') :
    filledQtyOf u db' = tradedQtyOf u db' ↔
      (rt.parseUuid c.order.clientOrderId = some u → ∀ n q,
        numeric20 rt c.report.cumulativeFilledQty = .ok n → c.tradedNow rt = .ok q →
          n = filledQtyOf u db + q) := by
  have hbase := (persistExecution_ok_iff.mp h).1
  by_cases hu : rt.parseUuid c.order.clientOrderId = some u
  · obtain ⟨row, hrow, hcarries⟩ := hbase.carries hu
    obtain ⟨q, hq, htraded⟩ := tradedQtyOf_step hu hfresh h
    have hfilled : filledQtyOf u db' = row.filledQty := by rw [filledQtyOf, hrow]; rfl
    rw [hfilled, htraded, ← hbefore]
    constructor
    · rintro heq - n q' hn hq'
      obtain rfl : row.filledQty = n := Except.ok.inj (hcarries.filledQty.symm.trans hn)
      obtain rfl : q = q' := Except.ok.inj (hq.symm.trans hq')
      exact heq
    · exact fun hcont => hcont hu _ q hcarries.filledQty hq
  · have hfilled : filledQtyOf u db' = filledQtyOf u db := by
      rw [filledQtyOf, hbase.order_of_ne hu, filledQtyOf]
    rw [hfilled, tradedQtyOf_step_of_ne hu hfresh h]
    exact ⟨fun _ hu' => absurd hu' hu, fun _ => hbefore⟩

/-- Over a run: the filled quantity stays equal to the traded one exactly when every
accepted report of the order continues the stored quantity. -/
theorem filledQtyOf_eq_run_iff {db₀ : Db} {inputs : List (Call × Bool)}
    (hstart : filledQtyOf u db₀ = tradedQtyOf u db₀)
    (hfresh : ∀ x ∈ db₀.trades, x.fillId ∉ fillIds inputs) (hids : (fillIds inputs).Nodup) :
    AlwaysOnRun (persistExecution rt) db₀ inputs (fun db => filledQtyOf u db = tradedQtyOf u db) ↔
      CommitsMeet rt db₀ inputs fun c db => rt.parseUuid c.order.clientOrderId = some u → ∀ n q,
        numeric20 rt c.report.cumulativeFilledQty = .ok n → c.tradedNow rt = .ok q →
          n = filledQtyOf u db + q := by
  have hnew : ∀ pre c post, inputs = pre ++ (c, false) :: post → c.isFill = true →
      ∀ x ∈ (run (persistExecution rt) db₀ pre).trades, x.fillId ≠ c.report.fillId := by
    rintro pre c post rfl
    exact fresh_of_nodup hids hfresh
  rw [commitsMeet_iff]
  constructor
  · intro halways pre c post db' hinputs hok
    -- The two states around the call are both states of the run.
    have hbefore := halways pre _ hinputs
    have hafter := halways (pre ++ [(c, false)]) post (by simp [hinputs])
    rw [run_concat_of_ok hok] at hafter
    exact (filledQtyOf_eq_step_iff hbefore (hnew pre c post hinputs) hok).mp hafter
  · intro hmeet
    refine (alwaysOnRun_iff (I := fun db => filledQtyOf u db = tradedQtyOf u db) hstart).mpr ?_
    intro pre c post db' hinputs hok hbefore
    exact (filledQtyOf_eq_step_iff hbefore (hnew pre c post hinputs) hok).mpr
      (hmeet pre c post db' hinputs hok)

/-- Over a run: the filled quantity never decreases exactly when no accepted report of the
order carries a cumulative quantity below the stored one. -/
theorem filledQty_le_run_iff {db₀ : Db} {inputs : List (Call × Bool)} :
    AlongRun (persistExecution rt) db₀ inputs
        (RowKept u fun row row' => row.filledQty ≤ row'.filledQty) ↔
      CommitsMeet rt db₀ inputs fun c db => rt.parseUuid c.order.clientOrderId = some u →
        ∀ row, db.order u = some row →
          ∀ n, numeric20 rt c.report.cumulativeFilledQty = .ok n → row.filledQty ≤ n := by
  refine rowKept_run_iff (fun _ => le_rfl) (fun _ _ _ => le_trans) fun c row row' hcarries => ?_
  simp [hcarries.filledQty]

/-- Over a run: an assigned exchange order id stays one exactly when every report accepted
from then on carries an assigned id. -/
theorem assigned_run_iff {db₀ : Db} {inputs : List (Call × Bool)} :
    AlongRun (persistExecution rt) db₀ inputs (RowKept u fun row row' =>
        assigned row.exchangeOrderId = true → assigned row'.exchangeOrderId = true) ↔
      CommitsMeet rt db₀ inputs fun c db => rt.parseUuid c.order.clientOrderId = some u →
        ∀ row, db.order u = some row → assigned row.exchangeOrderId = true →
          assigned (nullIfEmpty c.report.exchangeOrderId) = true := by
  refine rowKept_run_iff (fun _ h => h) (fun _ _ _ hab hbc h => hbc (hab h)) ?_
  intro c row row' hcarries
  rw [hcarries.exchangeOrderId]

/-- Along a run from `db₀` the row of an order agrees with its fills. -/
structure OrderRowAgrees (rt : Runtime) (u : Uuid) (db₀ : Db) (inputs : List (Call × Bool)) :
    Prop where
  /-- The filled quantity never decreases. -/
  filledQty_le : AlongRun (persistExecution rt) db₀ inputs
    (RowKept u fun row row' => row.filledQty ≤ row'.filledQty)
  /-- When fill ids are distinct, the filled quantity is what the trades add up to. -/
  filledQty_eq : (fillIds inputs).Nodup → AlwaysOnRun (persistExecution rt) db₀ inputs
    fun db => filledQtyOf u db = tradedQtyOf u db
  /-- An exchange order id that the exchange assigned stays one. -/
  exchangeOrderId : AlongRun (persistExecution rt) db₀ inputs (RowKept u fun row row' =>
    assigned row.exchangeOrderId = true → assigned row'.exchangeOrderId = true)

/-- Every report that is accepted for the order continues the row stored at that moment. -/
structure ReportsContinue (rt : Runtime) (u : Uuid) (db₀ : Db) (inputs : List (Call × Bool)) :
    Prop where
  /-- Its cumulative quantity is not below the stored one. -/
  filledQty_le : CommitsMeet rt db₀ inputs fun c db =>
    rt.parseUuid c.order.clientOrderId = some u → ∀ row, db.order u = some row →
      ∀ n, numeric20 rt c.report.cumulativeFilledQty = .ok n → row.filledQty ≤ n
  /-- Its cumulative quantity exceeds the stored one by what the call trades. -/
  filledQty_eq : (fillIds inputs).Nodup → CommitsMeet rt db₀ inputs fun c db =>
    rt.parseUuid c.order.clientOrderId = some u → ∀ n q,
      numeric20 rt c.report.cumulativeFilledQty = .ok n → c.tradedNow rt = .ok q →
        n = filledQtyOf u db + q
  /-- It carries an assigned exchange order id once one is stored. -/
  exchangeOrderId : CommitsMeet rt db₀ inputs fun c db =>
    rt.parseUuid c.order.clientOrderId = some u → ∀ row, db.order u = some row →
      assigned row.exchangeOrderId = true →
        assigned (nullIfEmpty c.report.exchangeOrderId) = true

/-- **When the order row agrees with its fills.** Along a run it does exactly when every
accepted report of the order continues the stored row. -/
theorem orderRow_agrees_iff (rt : Runtime) (u : Uuid) (db₀ : Db) (inputs : List (Call × Bool))
    (hstart : filledQtyOf u db₀ = tradedQtyOf u db₀)
    (hfresh : ∀ x ∈ db₀.trades, x.fillId ∉ fillIds inputs) :
    OrderRowAgrees rt u db₀ inputs ↔ ReportsContinue rt u db₀ inputs := by
  constructor
  · rintro ⟨hle, heq, hex⟩
    exact ⟨filledQty_le_run_iff.mp hle,
      fun hids => (filledQtyOf_eq_run_iff hstart hfresh hids).mp (heq hids),
      assigned_run_iff.mp hex⟩
  · rintro ⟨hle, heq, hex⟩
    exact ⟨filledQty_le_run_iff.mpr hle,
      fun hids => (filledQtyOf_eq_run_iff hstart hfresh hids).mpr (heq hids),
      assigned_run_iff.mpr hex⟩

/-- An order that the exchange acknowledges, that is then filled in the simulation, and at
last cancelled. -/
def mixedRun : List (Call × Bool) :=
  let order := OrderCommand.sample "018f3c2e-0000-7000-8000-00000000000a" 1 1 1 1 60000
  let ack : BinanceOrderAck := ⟨"BTCUSDT", 77, order.clientOrderId, 1700000000000⟩
  (buildExchangeAck 0 order ack :: (buildReports Rounding.nearestEven (fun i => i) order ++
    [buildCancel 3 order])).map fun r => (Call.paper 0 order r, false)

/-- What the run leaves of the order after its first call, and after its last two: the filled
quantity of the row and whether its exchange order id is assigned, and the traded quantity. -/
theorem mixedRun_states : ([1, 4, 5].map fun k =>
    let db := run (persistExecution Runtime.reference) {} (mixedRun.take k)
    ((db.order 0x018f3c2e00007000800000000000000a).map fun row =>
        (row.filledQty, assigned row.exchangeOrderId),
      tradedQtyOf 0x018f3c2e00007000800000000000000a db)) =
    [(some (0, true), 0), (some (((100000000 : ℤ) : Numeric), false), ((100000000 : ℤ) : Numeric)),
      (some (0, false), ((100000000 : ℤ) : Numeric))] := by decide +kernel

/-- The rule applies to the run, whose calls are all accepted: its last two states have a
row that is filled, and one that is not. -/
theorem orderRow_agrees_mixedRun :
    (OrderRowAgrees Runtime.reference 0x018f3c2e00007000800000000000000a {} mixedRun ↔
        ReportsContinue Runtime.reference 0x018f3c2e00007000800000000000000a {} mixedRun) ∧
      ([4, 5].map fun k => filledQtyOf 0x018f3c2e00007000800000000000000a
        (run (persistExecution Runtime.reference) {} (mixedRun.take k))) =
          [((100000000 : ℤ) : Numeric), 0] := by
  refine ⟨orderRow_agrees_iff _ _ _ _ rfl (by simp), ?_⟩
  have hfilled := congrArg (List.map fun state => (state.1.map Prod.fst).getD 0) mixedRun_states
  simpa [filledQtyOf, Function.comp_def] using congrArg List.tail hfilled

/-- On that run the filled quantity falls back to zero, no longer equals the traded quantity,
and the exchange's id is replaced by a simulated one. -/
theorem mixedRun_disagrees :
    (∀ i ∈ mixedRun, i.1.order.clientOrderId = "018f3c2e-0000-7000-8000-00000000000a" ∧
        BuiltFor Runtime.reference.fp i.1.order i.1.report) ∧ (fillIds mixedRun).Nodup ∧
      ¬ AlongRun (persistExecution Runtime.reference) {} mixedRun
        (RowKept 0x018f3c2e00007000800000000000000a fun row row' =>
          row.filledQty ≤ row'.filledQty) ∧
      ¬ AlwaysOnRun (persistExecution Runtime.reference) {} mixedRun (fun db =>
        filledQtyOf 0x018f3c2e00007000800000000000000a db =
          tradedQtyOf 0x018f3c2e00007000800000000000000a db) ∧
      ¬ AlongRun (persistExecution Runtime.reference) {} mixedRun
        (RowKept 0x018f3c2e00007000800000000000000a fun row row' =>
          assigned row.exchangeOrderId = true → assigned row'.exchangeOrderId = true) := by
  have hstates := mixedRun_states
  simp only [List.map_cons, List.map_nil, List.cons.injEq, Prod.mk.injEq, and_true] at hstates
  obtain ⟨⟨hacked, -⟩, ⟨hfilled, -⟩, hcanceled, htraded⟩ := hstates
  refine ⟨?_, by decide +kernel, fun h => ?_, fun h => ?_, fun h => ?_⟩
  · intro i hi
    obtain ⟨r, hr, rfl⟩ := List.mem_map.mp hi
    refine ⟨rfl, ?_⟩
    rcases List.mem_cons.mp hr with rfl | hr
    · exact .exchangeAck 0 _
    · rcases List.mem_append.mp hr with hr | hr
      · exact .simulated _ hr
      · rw [List.mem_singleton.mp hr]
        exact .cancel 3
  · obtain ⟨row, row', hrow, hrow', hle⟩ :=
      (h.take (by decide : 4 ≤ 5)).exists_of_map hfilled hcanceled
    rw [(Prod.mk.inj hrow).1, (Prod.mk.inj hrow').1] at hle
    exact absurd hle (by decide)
  · have hagrees := h.take 5
    obtain ⟨row, hrow, hzero⟩ := Option.map_eq_some_iff.mp hcanceled
    rw [htraded, filledQtyOf, hrow, Option.map_some, Option.getD_some, (Prod.mk.inj hzero).1]
      at hagrees
    exact absurd hagrees (by decide)
  · obtain ⟨row, row', hrow, hrow', himp⟩ :=
      (h.take (by decide : 1 ≤ 5)).exists_of_map hacked hcanceled
    rw [(Prod.mk.inj hrow).2, (Prod.mk.inj hrow').2] at himp
    exact absurd (himp rfl) (by decide)

end HftPlatform
