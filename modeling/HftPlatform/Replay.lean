import HftPlatform.Ledger
import HftPlatform.Repos

/-!
# Redelivered fills

A fill that is delivered twice finds its trade stored, and the insert into `trades` is
skipped. The update of `positions` in the same transaction is not told, and adds the
quantity again. This module says, for each of the two writers, exactly which redeliveries
leave the tables as the first delivery left them.

## Main results

* `DbWriter.redelivery_iff`, `OrderExecutor.redelivery_iff`: the condition for one writer.
* `redelivery_unchanged_iff`: both.
-/

namespace HftPlatform

open Lib

namespace DbWriter

variable {rt : Runtime} {c : Call} {db db' : Db}

/-- One delivery of a call in a transaction at time `t`. -/
def deliver (rt : Runtime) (c : Call) (t : ℤ) (db : Db) : Db :=
  attempt (persistExecution rt { c with now := t }) false db

/-- The quantity held in the position that the call moves; nothing when there is none. -/
def heldQty (c : Call) (db : Db) : Numeric :=
  ((db.position c.order.accountId c.order.symbol).map PositionRow.qty).getD 0

/-- A delivery at `t₁` and another one at `t₂` leave `trades` and `positions` as the first one
alone does. -/
def Unchanged (rt : Runtime) (c : Call) (t₁ t₂ : ℤ) (db : Db) : Prop :=
  (deliver rt c t₂ (deliver rt c t₁ db)).trades = (deliver rt c t₁ db).trades ∧
    (deliver rt c t₂ (deliver rt c t₁ db)).positions = (deliver rt c t₁ db).positions

/-- The call is refused, or moves the position out of its range the second time, or the second
time happens at the time of the first and adds nothing. -/
def Harmless (rt : Runtime) (c : Call) (t₁ t₂ : ℤ) (db : Db) : Prop :=
  Accepted rt c db → ∀ δ, numeric20 rt c.qtyDelta = .ok δ → (heldQty c db + δ + δ).Fits 20 →
    heldQty c db + δ + δ = heldQty c db + δ ∧ t₂ = t₁

/-- Whether a call is accepted does not depend on its time. -/
theorem accepted_at (t : ℤ) (h : Accepted rt c db) : Accepted rt { c with now := t } db where
  bindable := bindable_at t h.bindable
  trade := h.trade
  position hfill p old hp hold := by
    have hrange := h.position hfill _ old (positionRow_at (c := { c with now := t }) c.now hp) hold
    exact hrange

/-- A call that is not accepted has no effect, whenever it is delivered. -/
theorem deliver_of_not_accepted (t : ℤ) (h : ¬ Accepted rt c db) : deliver rt c t db = db := by
  rcases attempt_cases (persistExecution rt { c with now := t }) false db with ⟨hs, -⟩ | ⟨-, hok⟩
  · exact hs
  · exact absurd (accepted_at c.now (persistExecution_isOk_iff.mp ⟨_, hok⟩)) h

/-- The first delivery of an accepted fill stores its trade and leaves a position that holds
the sum, at the time of the delivery, and whose price a second delivery would not change. -/
theorem position_of_deliver (hfill : c.isFill = true) (t : ℤ) (hacc : Accepted rt c db) :
    (∀ tr, tradeRow rt c = .ok tr →
        conflicts TradeRow.fillKey tr (deliver rt c t db).trades = true) ∧
      ∃ p r, positionRow rt c = .ok p ∧
        (deliver rt c t db).position c.order.accountId c.order.symbol = some r ∧
        r.qty = heldQty c db + p.qty ∧ r.snapshotTime = t ∧
        (nullIfZero p.entryPrice <|> r.entryPrice) = r.entryPrice := by
  obtain ⟨db', hok⟩ := persistExecution_isOk_iff.mpr (accepted_at t hacc)
  rw [deliver, attempt_of_ok hok]
  obtain ⟨-, ⟨-, heffect⟩ | ⟨hnofill, -⟩⟩ := persistExecution_ok_iff.mp hok
  · refine ⟨fun tr htr => ?_, ?_⟩
    · obtain ⟨tr', htr', htrades⟩ := heffect.trades
      obtain rfl : tr = tr' := Except.ok.inj (htr.symm.trans htr')
      exact conflicts_insertOrIgnore htrades
    · obtain ⟨p, hp, ⟨r, hr, hcases⟩, -⟩ := heffect.position
      have htime := (positionRow_spec hp).2.2.2
      refine ⟨_, r, positionRow_at (c := { c with now := t }) c.now hp, hr, ?_⟩
      rcases hcases with ⟨hnone, rfl⟩ | ⟨old, hold, hm⟩
      · refine ⟨by simp [heldQty, hnone], htime, ?_⟩
        cases hentry : r.entryPrice with
        | none => rfl
        | some e => simp only [nullIfZero]; split <;> simp
      · obtain ⟨q, hq, rfl⟩ := mergePosition_ok_iff.mp hm
        refine ⟨?_, htime, ?_⟩
        · simp [heldQty, hold, (Numeric.add_eq_ok_iff.mp hq).2]
        · cases nullIfZero p.entryPrice <;> simp
  · exact absurd (hfill.symm.trans hnofill) (by decide)

/-- A fill whose trade is stored is accepted exactly when its position stays in range. -/
theorem accepted_iff_fits {p : PositionRow} {r : PositionRow} (hb : Bindable rt c)
    (hfill : c.isFill = true) (hp : positionRow rt c = .ok p)
    (hstored : ∀ tr, tradeRow rt c = .ok tr → conflicts TradeRow.fillKey tr db.trades = true)
    (hr : db.position c.order.accountId c.order.symbol = some r) :
    Accepted rt c db ↔ (r.qty + p.qty).Fits 20 := by
  constructor
  · intro h
    obtain ⟨q, hq⟩ := h.position hfill p r hp hr
    exact (Numeric.add_eq_ok_iff.mp hq).1
  · intro hfits
    refine ⟨hb, fun _ tr htr => Or.inl (hstored tr htr), fun _ p' old hp' hold => ?_⟩
    obtain rfl : p = p' := Except.ok.inj (hp.symm.trans hp')
    obtain rfl : r = old := Option.some.inj (hr.symm.trans hold)
    exact ⟨_, Numeric.add_eq_ok_iff.mpr ⟨hfits, rfl⟩⟩

/-- A delivery that finds its trade stored leaves `trades` alone, and leaves `positions` alone
exactly when the sum is the stored quantity and the time is the stored time. -/
theorem unchanged_of_stored {p r : PositionRow} (hfill : c.isFill = true) (t : ℤ)
    (hacc : Accepted rt c db) (hp : positionRow rt c = .ok p)
    (hstored : ∀ tr, tradeRow rt c = .ok tr → conflicts TradeRow.fillKey tr db.trades = true)
    (hr : db.position c.order.accountId c.order.symbol = some r)
    (hprice : (nullIfZero p.entryPrice <|> r.entryPrice) = r.entryPrice) :
    (deliver rt c t db).trades = db.trades ∧
      ((deliver rt c t db).positions = db.positions ↔
        r.qty + p.qty = r.qty ∧ t = r.snapshotTime) := by
  obtain ⟨db', hok⟩ := persistExecution_isOk_iff.mpr (accepted_at t hacc)
  rw [deliver, attempt_of_ok hok]
  obtain ⟨-, ⟨-, heffect⟩ | ⟨hnofill, -⟩⟩ := persistExecution_ok_iff.mp hok
  · refine ⟨?_, ?_⟩
    · obtain ⟨tr, htr, htrades⟩ := heffect.trades
      rw [insertTrade, insertOrIgnore, if_pos (hstored tr htr)] at htrades
      exact (Except.ok.inj htrades).symm
    · obtain ⟨p', hp', hpositions⟩ := heffect.positions
      obtain rfl : { p with snapshotTime := t } = p' :=
        Except.ok.inj ((positionRow_at t hp).symm.trans hp')
      obtain ⟨q, hq⟩ := hacc.position hfill p r hp hr
      have hm := mergePosition_ok_iff (p := { p with snapshotTime := t }).mpr ⟨q, hq, rfl⟩
      have hkey : PositionRow.key { p with snapshotTime := t } =
          (c.order.accountId, c.order.symbol, .both) := (positionRow_spec hp).1
      rw [upsert_unchanged_iff ?_ (by rw [hkey]; exact hr) hm hpositions,
        (Numeric.add_eq_ok_iff.mp hq).2]
      · simp only [hprice]
        constructor
        · intro h
          exact ⟨congrArg PositionRow.qty h, congrArg PositionRow.snapshotTime h⟩
        · rintro ⟨hqty, htime⟩
          simp [hqty, htime]
      · intro old m hm
        obtain ⟨q, -, rfl⟩ := mergePosition_ok_iff.mp hm
        rfl
  · exact absurd (hfill.symm.trans hnofill) (by decide)

/-- **Redelivery to the router's writer.** -/
theorem redelivery_iff (hfill : c.isFill = true) (t₁ t₂ : ℤ) :
    Unchanged rt c t₁ t₂ db ↔ Harmless rt c t₁ t₂ db := by
  rw [Unchanged, Harmless]
  by_cases hacc : Accepted rt c db
  · obtain ⟨hstored, p, r, hp, hr, hqty, htime, hprice⟩ := position_of_deliver hfill t₁ hacc
    have hδ := (positionRow_spec hp).2.1
    have hsecond := accepted_iff_fits hacc.bindable hfill hp hstored hr
    rw [hqty] at hsecond
    by_cases hfits : (heldQty c db + p.qty + p.qty).Fits 20
    · obtain ⟨htrades, hpositions⟩ :=
        unchanged_of_stored hfill t₂ (hsecond.mpr hfits) hp hstored hr hprice
      rw [hpositions, hqty, htime]
      constructor
      · rintro ⟨-, hsame⟩ - δ hδ' -
        obtain rfl : p.qty = δ := Except.ok.inj (hδ.symm.trans hδ')
        exact hsame
      · exact fun h => ⟨htrades, h hacc _ hδ hfits⟩
    · rw [deliver_of_not_accepted t₂ (fun h => hfits (hsecond.mp h))]
      refine ⟨fun _ _ δ hδ' hfits' => ?_, fun _ => ⟨rfl, rfl⟩⟩
      obtain rfl : p.qty = δ := Except.ok.inj (hδ.symm.trans hδ')
      exact absurd hfits' hfits
  · rw [deliver_of_not_accepted t₁ hacc, deliver_of_not_accepted t₂ hacc]
    exact ⟨fun _ h => absurd h hacc, fun _ => ⟨rfl, rfl⟩⟩

end DbWriter

namespace OrderExecutor

variable {rt : Runtime} {d d' : Delivery} {report : ExecutionReport} {db db' : Db}

/-- One delivery of a report. -/
def deliver (rt : Runtime) (report : ExecutionReport) (d : Delivery) (db : Db) : Db :=
  attempt (persistReport rt d report) false db

/-- The quantity and price that the statement for `positions` computes for a report from the
position that is stored: those of a new row, or of the update. -/
def heldAfter (rt : Runtime) (report : ExecutionReport) (db : Db) :
    Except PgError (Numeric × Option Numeric) :=
  match db.position report.accountId report.symbol with
  | some old => positionAfter rt report old.qty old.avgPrice
  | none => do
      return (← numeric20 rt (qtyDelta rt report), some (← numeric20 rt report.lastFilledPrice))

/-- A delivery `d₁` and another one `d₂` leave `trades` and `positions` as the first one alone
does. -/
def Unchanged (rt : Runtime) (report : ExecutionReport) (d₁ d₂ : Delivery) (db : Db) : Prop :=
  (deliver rt report d₂ (deliver rt report d₁ db)).trades = (deliver rt report d₁ db).trades ∧
    (deliver rt report d₂ (deliver rt report d₁ db)).positions =
      (deliver rt report d₁ db).positions

/-- The report is refused, or moves the position out of its range the second time, or the
second time happens at the time of the first and is too small to change what is stored. -/
def Harmless (rt : Runtime) (report : ExecutionReport) (d₁ d₂ : Delivery) (db : Db) : Prop :=
  Accepted rt d₁ report db → ∀ held new, heldAfter rt report db = .ok held →
    positionAfter rt report held.1 held.2 = .ok new → new = held ∧ d₂.now = d₁.now

/-- A report that is not accepted has no effect, whenever it is delivered. -/
theorem deliver_of_not_accepted (d' : Delivery) (h : ¬ Accepted rt d report db) :
    deliver rt report d' db = db := by
  rcases attempt_cases (persistReport rt d' report) false db with ⟨hs, -⟩ | ⟨-, hok⟩
  · exact hs
  · exact absurd (accepted_at d (persistReport_isOk_iff.mp ⟨_, hok⟩)) h

/-- After an insert or an ignored conflict the key of the trade is taken. -/
theorem conflicts_insertTradeRow (t : TradeRow) (trades : List TradeRow) :
    conflicts TradeRow.fillId t (insertTradeRow t trades) = true := by
  rw [insertTradeRow]
  split
  · assumption
  · simp [conflicts]

/-- Trades conflict by their fill id alone, which the report determines. -/
theorem conflicts_of_report {t t' : TradeRow} {u u' : Uuid} {trades : List TradeRow}
    (ht : tradeRow rt u report = .ok t) (ht' : tradeRow rt u' report = .ok t') :
    conflicts TradeRow.fillId t' trades = conflicts TradeRow.fillId t trades := by
  have hid : ∀ {u t}, tradeRow rt u report = .ok t → t.fillId = report.fillId := by
    intro u t h
    simp only [tradeRow, bind_eq_ok_iff, pure_eq_ok_iff] at h
    obtain ⟨s, hs, a, ha, p, hp, q, hq, f, hf, fa, hfa, i, hi, rfl⟩ := h
    exact (pgText_eq_ok_iff.mp hi).2
  rw [conflicts, conflicts, hid ht, hid ht']

/-- The first delivery of an accepted fill stores its trade, and a position with the computed
quantity and price at the time of the delivery. -/
theorem position_of_deliver (hfill : isFillLike report = true) (hacc : Accepted rt d report db) :
    (∀ u t, tradeRow rt u report = .ok t →
        conflicts TradeRow.fillId t (deliver rt report d db).trades = true) ∧
      ∃ r, (deliver rt report d db).position report.accountId report.symbol = some r ∧
        heldAfter rt report db = .ok (r.qty, r.avgPrice) ∧ r.updatedAt = d.now := by
  obtain ⟨db', hok⟩ := persistReport_isOk_iff.mpr hacc
  rw [deliver, attempt_of_ok hok]
  have heffect := fillEffect_of_ok hfill hok
  refine ⟨fun u t ht => ?_, ?_⟩
  · obtain ⟨t', ht', htrades⟩ := heffect.trades
    rw [htrades, conflicts_of_report ht' ht]
    exact conflicts_insertTradeRow t' _
  · obtain ⟨p, hp, hpositions⟩ := heffect.positions
    obtain ⟨hkey, hq, ⟨a, ha, havg⟩, htime⟩ := positionRow_spec hp
    obtain ⟨r, hr, hcases⟩ := lookup_upsert_self (fun _ _ => key_of_mergePosition) hpositions
    rw [hkey] at hr hcases
    refine ⟨r, hr, ?_⟩
    rw [heldAfter, Db.position]
    rcases hcases with ⟨hnone, rfl⟩ | ⟨old, hold, hm⟩
    · rw [hnone]
      refine ⟨?_, htime⟩
      simp only [hq, ha, havg]
      rfl
    · obtain ⟨new, hnew, rfl⟩ := mergePosition_ok_iff.mp hm
      rw [hold]
      exact ⟨hnew, rfl⟩

/-- A delivery that finds its trade stored leaves `trades` alone, and leaves `positions` alone
exactly when the computed values are the stored ones and the time is the stored time. -/
theorem unchanged_of_stored {r : PositionRow} {new : Numeric × Option Numeric}
    (hfill : isFillLike report = true) (hacc : Accepted rt d report db)
    (hstored : ∀ u t, tradeRow rt u report = .ok t →
      conflicts TradeRow.fillId t db.trades = true)
    (hr : db.position report.accountId report.symbol = some r)
    (hnew : positionAfter rt report r.qty r.avgPrice = .ok new) :
    (deliver rt report d db).trades = db.trades ∧
      ((deliver rt report d db).positions = db.positions ↔
        new = (r.qty, r.avgPrice) ∧ d.now = r.updatedAt) := by
  obtain ⟨db', hok⟩ := persistReport_isOk_iff.mpr hacc
  rw [deliver, attempt_of_ok hok]
  have heffect := fillEffect_of_ok hfill hok
  refine ⟨?_, ?_⟩
  · obtain ⟨t, ht, htrades⟩ := heffect.trades
    rw [htrades, insertTradeRow, if_pos (hstored _ t ht)]
  · obtain ⟨p, hp, hpositions⟩ := heffect.positions
    have hm := mergePosition_ok_iff (d := d).mpr ⟨new, hnew, rfl⟩
    rw [upsert_unchanged_iff (fun _ _ => key_of_mergePosition)
      (by rw [(positionRow_spec hp).1]; exact hr) hm hpositions]
    constructor
    · intro h
      exact ⟨Prod.ext (congrArg PositionRow.qty h) (congrArg PositionRow.avgPrice h),
        congrArg PositionRow.updatedAt h⟩
    · rintro ⟨rfl, htime⟩
      simp [htime]

/-- **Redelivery to the order executor.** -/
theorem redelivery_iff (hfill : isFillLike report = true) (d₁ d₂ : Delivery) :
    Unchanged rt report d₁ d₂ db ↔ Harmless rt report d₁ d₂ db := by
  rw [Unchanged, Harmless]
  by_cases hacc : Accepted rt d₁ report db
  · obtain ⟨hstored, r, hr, hheld, htime⟩ := position_of_deliver hfill hacc
    by_cases hsecond : Accepted rt d₂ report (deliver rt report d₁ db)
    · obtain ⟨new, hnew⟩ := hsecond.range hfill r hr
      obtain ⟨htrades, hpositions⟩ := unchanged_of_stored hfill hsecond hstored hr hnew
      rw [hpositions, htime]
      constructor
      · rintro ⟨-, hsame⟩ - held new' hheld' hnew'
        obtain rfl : (r.qty, r.avgPrice) = held := Except.ok.inj (hheld.symm.trans hheld')
        obtain rfl : new = new' := Except.ok.inj (hnew.symm.trans hnew')
        exact hsame
      · exact fun h => ⟨htrades, h hacc _ _ hheld hnew⟩
    · rw [deliver_of_not_accepted d₂ hsecond]
      refine ⟨fun _ _ held new hheld' hnew => ?_, fun _ => ⟨rfl, rfl⟩⟩
      obtain rfl : (r.qty, r.avgPrice) = held := Except.ok.inj (hheld.symm.trans hheld')
      -- The second delivery is refused for its position, the one thing that has changed.
      have hback := accepted_at d₂ hacc
      refine absurd ⟨hback.order, hback.event, hback.trade, hback.position, ?_⟩ hsecond
      intro _ old hold
      obtain rfl : r = old := Option.some.inj (hr.symm.trans hold)
      exact ⟨new, hnew⟩
  · rw [deliver_of_not_accepted d₁ hacc, deliver_of_not_accepted d₂ hacc]
    exact ⟨fun _ h => absurd h hacc, fun _ => ⟨rfl, rfl⟩⟩

end OrderExecutor

/-- **When a redelivered fill is idempotent.** From every state of the tables of either writer,
two deliveries of a fill leave trades and positions as the first one does exactly when the
fill is refused, or refused the second time, or comes at the same time and adds nothing. -/
theorem redelivery_unchanged_iff (rt : Runtime) (c : Call) (hfill : c.isFill = true)
    (db : Db) (t₁ t₂ : ℤ) (xdb : OrderExecutor.Db) (d₁ d₂ : OrderExecutor.Delivery) :
    (DbWriter.Unchanged rt c t₁ t₂ db ↔ DbWriter.Harmless rt c t₁ t₂ db) ∧
      (OrderExecutor.Unchanged rt c.report d₁ d₂ xdb ↔
        OrderExecutor.Harmless rt c.report d₁ d₂ xdb) := by
  have hlike : isFillLike c.report = true := by
    rw [Call.isFill, Bool.and_eq_true] at hfill
    exact hfill.1
  exact ⟨DbWriter.redelivery_iff hfill t₁ t₂, OrderExecutor.redelivery_iff hlike d₁ d₂⟩

/-- The first fill of a simulated BUY of one unit. -/
def partialFill : Call :=
  let order := OrderCommand.sample "018f3c2e-0000-7000-8000-00000000000a" 1 1 1 1 60000
  Call.paper 0 order (buildFill Rounding.nearestEven 1700000000000000000 order .partiallyFilled
    (.fin (2 / 5)) (.fin (2 / 5)) "-p1" 1)

theorem redelivery_unchanged_iff_partialFill :
    (DbWriter.Unchanged Runtime.reference partialFill 1 2 {} ↔
        DbWriter.Harmless Runtime.reference partialFill 1 2 {}) ∧
      (OrderExecutor.Unchanged Runtime.reference partialFill.report ⟨0, 1, 1⟩ ⟨0, 2, 2⟩ {} ↔
        OrderExecutor.Harmless Runtime.reference partialFill.report ⟨0, 1, 1⟩ ⟨0, 2, 2⟩ {}) :=
  redelivery_unchanged_iff _ _ (by decide +kernel) _ _ _ _ _ _

/-- Delivered twice, the fill of 0.4 leaves a position of 0.8, with either writer. -/
theorem partialFill_counted_twice :
    partialFill.isFill = true ∧
      ¬ DbWriter.Unchanged Runtime.reference partialFill 1 2 {} ∧
      ¬ OrderExecutor.Unchanged Runtime.reference partialFill.report ⟨0, 1, 1⟩ ⟨0, 2, 2⟩ {} := by
  refine ⟨by decide +kernel, fun h => ?_, fun h => ?_⟩
  · have hqty := congrArg (List.map PositionRow.qty) h.2
    have honce : (DbWriter.deliver Runtime.reference partialFill 1 {}).positions.map
        PositionRow.qty = [((40000000 : ℤ) : Numeric)] := by decide +kernel
    have htwice : (DbWriter.deliver Runtime.reference partialFill 2
        (DbWriter.deliver Runtime.reference partialFill 1 {})).positions.map PositionRow.qty =
          [((80000000 : ℤ) : Numeric)] := by decide +kernel
    rw [honce, htwice] at hqty
    exact absurd hqty (by decide)
  · have hqty := congrArg (List.map OrderExecutor.PositionRow.qty) h.2
    have honce : (OrderExecutor.deliver Runtime.reference partialFill.report ⟨0, 1, 1⟩
        {}).positions.map OrderExecutor.PositionRow.qty = [((40000000 : ℤ) : Numeric)] := by
      decide +kernel
    have htwice : (OrderExecutor.deliver Runtime.reference partialFill.report ⟨0, 2, 2⟩
        (OrderExecutor.deliver Runtime.reference partialFill.report ⟨0, 1, 1⟩ {})).positions.map
          OrderExecutor.PositionRow.qty = [((80000000 : ℤ) : Numeric)] := by decide +kernel
    rw [honce, htwice] at hqty
    exact absurd hqty (by decide)

end HftPlatform
