import HftPlatform.WriterSpec

/-!
# The position ledger

The writer keeps the quantity of a position by adding each fill to it, and records each
fill as a row of `trades`. Both columns round to `NUMERIC(20, 8)` and encode the direction
differently: a signed delta here, a side label there. This module shows that they agree
over whole runs.

## Main results

* `signedQty_eq_qtyDelta`: for BUY and SELL the label of the trade and the sign of the
  delta denote the same number, rounding included.
* `position_of_upsert`: a committed fill adds its signed quantity to the position.
* `ledger_step`: a committed call whose fill id is new keeps every position equal to the
  signed sum of its trades.
* `mem_trades_run`, `fresh_of_nodup`: where the fill ids of the stored trades come from.
* `position_ledger`: so does every run from empty tables, whatever calls fail.
-/

namespace HftPlatform

open Lib DbWriter

/-- The quantity of a trade, positive for BUY and negative for SELL. -/
def TradeRow.signedQty (t : TradeRow) : Numeric :=
  match t.side with
  | .buy => t.qty
  | .sell => Numeric.neg t.qty

/-- The trades of an account in a symbol. -/
def Db.tradesOf (db : Db) (accountId symbol : String) : List TradeRow :=
  db.trades.filter fun t => t.accountId = accountId ∧ t.symbol = symbol

/-- The position of an account in a symbol is the signed sum of its trades; without a
position there are no trades. -/
def LedgerAgrees (db : Db) (accountId symbol : String) : Prop :=
  match db.position accountId symbol with
  | some p => p.qty = ((db.tradesOf accountId symbol).map TradeRow.signedQty).sum
  | none => db.tradesOf accountId symbol = []

/-- The fill ids of the fill reports of a run, in order. -/
def fillIds (inputs : List (Call × Bool)) : List String :=
  (inputs.filter fun i => i.1.isFill).map fun i => i.1.report.fillId

theorem fillIds_append (pre post : List (Call × Bool)) :
    fillIds (pre ++ post) = fillIds pre ++ fillIds post := by simp [fillIds]

variable {rt : Runtime} {c : Call} {db db' : Db}

/-- For BUY and SELL the trade and the position record the same signed quantity. -/
theorem signedQty_eq_qtyDelta {t : TradeRow} {p : PositionRow}
    (hside : c.order.side = OrderSide.buy.code ∨ c.order.side = OrderSide.sell.code)
    (ht : tradeRow rt c = .ok t) (hp : positionRow rt c = .ok p) : t.signedQty = p.qty := by
  obtain ⟨-, -, -, htside, htqty, -⟩ := tradeRow_spec ht
  obtain ⟨-, hpqty, -⟩ := positionRow_spec hp
  rcases hside with hside | hside
  · have hlabel : t.side = .buy := by rw [htside, hside]; rfl
    rw [Call.qtyDelta, if_pos hside] at hpqty
    rw [TradeRow.signedQty, hlabel]
    exact Except.ok.inj (htqty.symm.trans hpqty)
  · have hlabel : t.side = .sell := by rw [htside, hside]; rfl
    rw [Call.qtyDelta, if_neg (by rw [hside]; decide)] at hpqty
    rw [TradeRow.signedQty, hlabel]
    exact Except.ok.inj ((Numeric.ofFloat8_neg htqty).symm.trans hpqty)

/-- The upsert of a fill adds its quantity to the position it is for, which it opens if there
is none, and leaves every other position alone. -/
theorem position_of_upsert {p : PositionRow} (hp : positionRow rt c = .ok p)
    (h : upsert PositionRow.key p (mergePosition p) db.positions = .ok db'.positions) :
    (∃ p', db'.position c.order.accountId c.order.symbol = some p' ∧
      (db.position c.order.accountId c.order.symbol = none ∧ p' = p ∨
        ∃ old, db.position c.order.accountId c.order.symbol = some old ∧
          mergePosition p old = .ok p')) ∧
    ∀ a s, (a, s) ≠ (c.order.accountId, c.order.symbol) → db'.position a s = db.position a s := by
  have hkey := (positionRow_spec hp).1
  have hmerge : ∀ old m, mergePosition p old = .ok m → m.key = old.key := by
    intro old m hm
    obtain ⟨q, -, rfl⟩ := mergePosition_ok_iff.mp hm
    rfl
  refine ⟨?_, fun a s hne => ?_⟩
  · have := lookup_upsert_self hmerge h
    rwa [hkey] at this
  · refine lookup_upsert_of_ne ?_ hmerge h
    rw [hkey]
    intro heq
    exact hne (by simp_all)

/-- A committed fill does so. -/
theorem DbWriter.FillEffect.position (h : FillEffect rt c db db') :
    ∃ p, positionRow rt c = .ok p ∧
      (∃ p', db'.position c.order.accountId c.order.symbol = some p' ∧
        (db.position c.order.accountId c.order.symbol = none ∧ p' = p ∨
          ∃ old, db.position c.order.accountId c.order.symbol = some old ∧
            mergePosition p old = .ok p')) ∧
      ∀ a s, (a, s) ≠ (c.order.accountId, c.order.symbol) → db'.position a s = db.position a s := by
  obtain ⟨p, hp, hpositions⟩ := h.positions
  exact ⟨p, hp, position_of_upsert hp hpositions⟩

/-- Inserting a trade whose fill id is new appends it. -/
theorem insertTrade_of_fresh {t : TradeRow} {trades trades' : List TradeRow}
    (hfresh : ∀ x ∈ trades, x.fillId ≠ t.fillId) (h : insertTrade t trades = .ok trades') :
    trades' = trades ++ [t] := by
  have hnone : conflicts TradeRow.fillKey t trades = false := by
    rw [conflicts, List.any_eq_false]
    intro x hx
    have := hfresh x hx
    simp [TradeRow.fillKey, this]
  rw [insertTrade, insertOrIgnore, hnone] at h
  simp only [insertUnique, Bool.false_eq_true, if_false] at h
  split at h
  · simp at h
  · exact (Except.ok.inj h).symm

/-- A trade of the table after the insert was there before, or is the inserted one. -/
theorem mem_of_insertTrade {t x : TradeRow} {trades trades' : List TradeRow}
    (h : insertTrade t trades = .ok trades') (hx : x ∈ trades') : x ∈ trades ∨ x = t := by
  rw [insertTrade, insertOrIgnore, insertUnique] at h
  split at h
  · obtain rfl : trades = trades' := Except.ok.inj h
    exact Or.inl hx
  · split at h
    · simp at h
    · obtain rfl : trades ++ [t] = trades' := Except.ok.inj h
      simpa using hx

/-- **One committed call keeps the ledger**, provided its fill id, if it is a fill, is new. -/
theorem ledger_step (hledger : ∀ a s, LedgerAgrees db a s)
    (hside : c.order.side = OrderSide.buy.code ∨ c.order.side = OrderSide.sell.code)
    (hfresh : c.isFill = true → ∀ x ∈ db.trades, x.fillId ≠ c.report.fillId)
    (h : persistExecution rt c db = .ok db') : ∀ a s, LedgerAgrees db' a s := by
  obtain ⟨-, ⟨hfill, heffect⟩ | ⟨-, heffect⟩⟩ := persistExecution_ok_iff.mp h
  · obtain ⟨t, ht, htrades⟩ := heffect.trades
    obtain ⟨-, htacc, htsym, -, -, htid, -⟩ := tradeRow_spec ht
    obtain ⟨p, hp, ⟨p', hp', hcases⟩, hother⟩ := heffect.position
    have happend : db'.trades = db.trades ++ [t] :=
      insertTrade_of_fresh (by rw [htid]; exact hfresh hfill) htrades
    intro a s
    by_cases hkey : (a, s) = (c.order.accountId, c.order.symbol)
    · obtain ⟨rfl, rfl⟩ : a = c.order.accountId ∧ s = c.order.symbol := by simpa using hkey
      have hof : db'.tradesOf c.order.accountId c.order.symbol =
          db.tradesOf c.order.accountId c.order.symbol ++ [t] := by
        rw [Db.tradesOf, happend, List.filter_append]
        simp [Db.tradesOf, htacc, htsym]
      have hsum : ((db'.tradesOf c.order.accountId c.order.symbol).map TradeRow.signedQty).sum =
          ((db.tradesOf c.order.accountId c.order.symbol).map TradeRow.signedQty).sum + p.qty := by
        simp [hof, signedQty_eq_qtyDelta hside ht hp]
      have hbefore := hledger c.order.accountId c.order.symbol
      rw [LedgerAgrees, hp']
      rcases hcases with ⟨hnone, rfl⟩ | ⟨old, hold, hm⟩
      · rw [LedgerAgrees, hnone] at hbefore
        simp only at hbefore ⊢
        simp [hsum, hbefore]
      · obtain ⟨q, hq, rfl⟩ := mergePosition_ok_iff.mp hm
        rw [LedgerAgrees, hold] at hbefore
        simp only at hbefore ⊢
        rw [hsum, ← hbefore]
        exact (Numeric.add_eq_ok_iff.mp hq).2
    · have hof : db'.tradesOf a s = db.tradesOf a s := by
        rw [Db.tradesOf, happend, List.filter_append]
        have : ¬ (t.accountId = a ∧ t.symbol = s) := by
          rintro ⟨rfl, rfl⟩
          exact hkey (by rw [htacc, htsym])
        simp [Db.tradesOf, this]
      have hbefore := hledger a s
      rwa [LedgerAgrees, ← hother a s hkey, ← hof] at hbefore
  · intro a s
    have hbefore := hledger a s
    rwa [LedgerAgrees, Db.position, Db.tradesOf, ← heffect.trades, ← heffect.positions] at hbefore

/-- A trade stored in the course of a run carries the fill id of a call of the run. -/
theorem mem_trades_run (rt : Runtime) (db₀ : Db) (inputs : List (Call × Bool)) :
    ∀ x ∈ (run (persistExecution rt) db₀ inputs).trades,
      x ∈ db₀.trades ∨ x.fillId ∈ fillIds inputs := by
  refine run_induction
    (P := fun pre (db : Db) => ∀ x ∈ db.trades, x ∈ db₀.trades ∨ x.fillId ∈ fillIds pre)
    (fun x hx => Or.inl hx) ?_ ?_ inputs
  · intro pre i db ih x hx
    rw [fillIds_append, List.mem_append, ← or_assoc]
    exact Or.inl (ih x hx)
  · intro pre i db db' ih h x hx
    rw [fillIds_append, List.mem_append, ← or_assoc]
    obtain ⟨-, ⟨hfill, heffect⟩ | ⟨-, heffect⟩⟩ := persistExecution_ok_iff.mp h
    · obtain ⟨t, ht, htrades⟩ := heffect.trades
      obtain ⟨-, -, -, -, -, htid, -⟩ := tradeRow_spec ht
      rcases mem_of_insertTrade htrades hx with hx | rfl
      · exact Or.inl (ih x hx)
      · right
        simp [fillIds, hfill, htid]
    · rw [heffect.trades] at hx
      exact Or.inl (ih x hx)

/-- In a run with distinct fill ids, none of which is stored at the start, a fill is new
when its turn comes. -/
theorem fresh_of_nodup {db₀ : Db} {pre post : List (Call × Bool)} {fault : Bool}
    (hids : (fillIds (pre ++ (c, fault) :: post)).Nodup)
    (hstart : ∀ x ∈ db₀.trades, x.fillId ∉ fillIds (pre ++ (c, fault) :: post))
    (hfill : c.isFill = true) :
    ∀ x ∈ (run (persistExecution rt) db₀ pre).trades, x.fillId ≠ c.report.fillId := by
  have hmem : c.report.fillId ∈ fillIds ((c, fault) :: post) := by simp [fillIds, hfill]
  intro x hx heq
  rw [fillIds_append] at hids hstart
  rcases mem_trades_run rt db₀ pre x hx with hx | hx
  · exact hstart x hx (List.mem_append_right _ (by rwa [heq]))
  · exact (List.nodup_append.mp hids).2.2 _ hx _ hmem heq

/-- **The position ledger.** In every run from empty tables whose fill reports carry distinct
fill ids and whose orders are BUY or SELL, whatever calls fail, each position is the signed
sum of its trades. -/
theorem position_ledger (rt : Runtime) (db₀ : Db) (inputs : List (Call × Bool))
    (htrades : db₀.trades = []) (hpositions : db₀.positions = [])
    (hside : ∀ i ∈ inputs,
      i.1.order.side = OrderSide.buy.code ∨ i.1.order.side = OrderSide.sell.code)
    (hids : (fillIds inputs).Nodup) (accountId symbol : String) :
    LedgerAgrees (run (persistExecution rt) db₀ inputs) accountId symbol := by
  have hstart : ∀ a s, LedgerAgrees db₀ a s := by
    intro a s
    simp [LedgerAgrees, Db.position, Db.tradesOf, htrades, hpositions]
  have halways : AlwaysOnRun (persistExecution rt) db₀ inputs fun db =>
      ∀ a s, LedgerAgrees db a s := by
    refine (alwaysOnRun_iff hstart).mpr fun pre c post db' hinputs hok hledger => ?_
    subst hinputs
    refine ledger_step hledger (hside (c, false) (by simp)) (fun hfill => ?_) hok
    exact fresh_of_nodup hids (by simp [htrades]) hfill
  exact halways inputs [] (by simp) accountId symbol

/-- A BUY simulated in three reports, of which the last one fails to commit, and a SELL. -/
def ledgerRun : List (Call × Bool) :=
  let buy := OrderCommand.sample "018f3c2e-0000-7000-8000-00000000000a" 1 1 2 1 60000
  let sell := OrderCommand.sample "018f3c2e-0000-7000-8000-00000000000b" 1 2 2 (1 / 10000) 60000
  (buildReports Rounding.nearestEven (fun i => i) buy).map
      (fun r => (Call.paper 0 buy r, decide (r.status = ExecutionStatus.filled.code))) ++
    (buildReports Rounding.nearestEven (fun i => i + 10) sell).map
      (fun r => (Call.paper 1 sell r, false))

/-- The run leaves a position of 0.3999 from a bought 0.4 and a sold 0.0001. -/
theorem position_ledger_run :
    LedgerAgrees (run (persistExecution Runtime.reference) {} ledgerRun) "paper-main" "BTCUSDT" ∧
      ((run (persistExecution Runtime.reference) {} ledgerRun).position
        "paper-main" "BTCUSDT").map PositionRow.qty = some ((39990000 : ℤ) : Numeric) :=
  ⟨position_ledger _ _ _ rfl rfl (by decide +kernel) (by decide +kernel) _ _, by decide +kernel⟩

end HftPlatform
