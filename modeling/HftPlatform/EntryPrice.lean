import HftPlatform.Lib.CostBasis
import HftPlatform.Positions

/-!
# The entry price of the router's position

`update_position` adds a fill to the quantity of a position and overwrites its entry price with
the average price of the report, unless that is zero. The average price of a report is a number
about its order; nothing compares it with what the position held before. This module says when the
entry price is nevertheless the average cost of the position, which `Lib.CostBasis` defines.

## Main results

* `position_of_updatePosition`: the position that a committed call leaves.
* `alwaysAveraged_iff`: the entry price is the average cost all along a run exactly when each
  committed call reports a price that suits the position it finds.
* `suits_simulated_iff`: for a report whose average price is the price of its fill.
-/

namespace HftPlatform

open Lib DbWriter

/-- The units by which the fill of a call moves its position. -/
def Call.units (rt : Runtime) (c : Call) : ℤ :=
  direction c.order * fillUnits rt c.report.lastFilledQty

/-- The fill of a call: its move and its price, as the columns of its trade store them. -/
def Call.fill (rt : Runtime) (c : Call) : ℚ × ℚ :=
  (c.units rt, fillUnits rt c.report.lastFilledPrice)

/-- What an account holds in a symbol as the row tells it, in units of the columns. -/
def Db.costBasis (db : Db) (accountId symbol : String) : CostBasis ℚ where
  qty := ((db.held accountId symbol).untopD 0 : ℤ)
  price := ((((db.position accountId symbol).bind PositionRow.entryPrice).getD 0).untopD 0 : ℤ)

/-- The price that a call reports for a position: the average price of its report, or the price the
position has where that one is zero in units of the column. -/
def Call.reported (rt : Runtime) (c : Call) (b : CostBasis ℚ) : ℚ :=
  if fillUnits rt c.report.avgPrice = 0 then b.price else fillUnits rt c.report.avgPrice

/-- Whenever the position is not zero its entry price is the average cost of the calls. -/
def EntryAveraged (rt : Runtime) (accountId symbol : String) (calls : List Call) (db : Db) : Prop :=
  ∀ row, db.position accountId symbol = some row → row.qty ≠ 0 → ∃ e : ℤ,
    row.entryPrice = some (e : Numeric) ∧
      (e : ℚ) = (CostBasis.ofFills (calls.map (Call.fill rt))).price

/-- A call for the position of an account in a symbol, with positive quantity and prices. -/
structure Call.FillsPosition (c : Call) (accountId symbol : String) : Prop where
  account : c.order.accountId = accountId
  symbol : c.order.symbol = symbol
  qty : c.report.lastFilledQty.gt .zero = true
  price : c.report.lastFilledPrice.gt .zero = true
  avgPrice : c.report.avgPrice.gt .zero = true

variable {rt : Runtime} {c : Call} {db db' : Db} {a s : String}

theorem Call.fillsPosition_iff : c.FillsPosition a s ↔ c.order.accountId = a ∧ c.order.symbol = s ∧
    c.report.lastFilledQty.gt .zero = true ∧ c.report.lastFilledPrice.gt .zero = true ∧
      c.report.avgPrice.gt .zero = true :=
  ⟨fun h => ⟨h.account, h.symbol, h.qty, h.price, h.avgPrice⟩,
    fun ⟨haccount, hsymbol, hqty, hprice, havg⟩ => ⟨haccount, hsymbol, hqty, hprice, havg⟩⟩

/-! ### One call -/

/-- The position of the account in the symbol, if there is one, holds numbers. -/
def Db.NumbersAt (db : Db) (accountId symbol : String) : Prop :=
  ∀ row, db.position accountId symbol = some row → ∃ q e : ℤ,
    row.qty = q ∧ row.entryPrice = some (e : Numeric)

/-- What a position of numbers is, in units of the columns. -/
theorem costBasis_of_position {row : PositionRow} {q e : ℤ} (hrow : db.position a s = some row)
    (hq : row.qty = q) (he : row.entryPrice = some (e : Numeric)) : db.costBasis a s = ⟨q, e⟩ := by
  simp [Db.costBasis, Db.held, hrow, hq, he]

/-- Where there is no position, nothing is held. -/
theorem costBasis_of_none (hnone : db.position a s = none) : db.costBasis a s = ⟨0, 0⟩ := by
  simp [Db.costBasis, Db.held, hnone]

/-- The quantity and the entry price of the row that a call proposes. -/
theorem numbers_of_positionRow {p : PositionRow} (hc : c.FillsPosition a s)
    (hp : positionRow rt c = .ok p) : p.qty = (c.units rt : Numeric) ∧
      p.entryPrice = some (fillUnits rt c.report.avgPrice : Numeric) := by
  obtain ⟨-, -, hentry, -⟩ := positionRow_spec hp
  refine ⟨(qty_eq_stored hp).trans (stored_of_pos hc.qty), ?_⟩
  have hne : c.report.avgPrice ≠ .zero := by
    intro hzero
    have hpos := hc.avgPrice
    rw [hzero] at hpos
    exact absurd hpos (by decide)
  rw [numeric20NullIfZero, if_neg hne, bind_eq_ok_iff] at hentry
  obtain ⟨n, hn, hsome⟩ := hentry
  rw [← pure_eq_ok_iff.mp hsome, eq_fillUnits hc.avgPrice hn]

/-- The quantity and the entry price that merging leaves. -/
theorem numbers_of_mergePosition {p old row : PositionRow} {q e d x : ℤ}
    (hq : old.qty = q) (he : old.entryPrice = some (e : Numeric)) (hd : p.qty = d)
    (hx : p.entryPrice = some (x : Numeric)) (h : mergePosition p old = .ok row) :
    row.qty = ((q + d : ℤ) : Numeric) ∧
      row.entryPrice = some ((if x = 0 then e else x : ℤ) : Numeric) := by
  obtain ⟨q', hsum, rfl⟩ := mergePosition_ok_iff.mp h
  refine ⟨?_, ?_⟩
  · rw [(Numeric.add_eq_ok_iff.mp hsum).2, hq, hd, WithTop.coe_add]
  · rw [hx, he]
    by_cases hzero : x = 0
    · rw [if_pos hzero, hzero]
      rfl
    · rw [if_neg hzero, nullIfZero, if_neg (by simpa using hzero)]
      rfl

/-- **The position that a committed call leaves**: the fill is added to its quantity, and its entry
price is the one reported. -/
theorem position_of_updatePosition (hc : c.FillsPosition a s) (hnum : db.NumbersAt a s)
    (h : updatePosition rt c db = .ok db') : db'.NumbersAt a s ∧
      db'.costBasis a s =
        ⟨(db.costBasis a s).qty + (c.fill rt).1, c.reported rt (db.costBasis a s)⟩ := by
  obtain ⟨p, positions, hp, hpositions, rfl⟩ := updatePosition_ok_iff.mp h
  obtain ⟨hqty, hentry⟩ := numbers_of_positionRow hc hp
  have hupsert : upsert PositionRow.key p (mergePosition p) db.positions =
      .ok ({ db with positions } : Db).positions := hpositions
  obtain ⟨⟨row, hrow, hcases⟩, -⟩ := position_of_upsert hp hupsert
  rw [hc.account, hc.symbol] at hrow hcases
  have hnumbers : ∃ q e : ℤ, row.qty = q ∧ row.entryPrice = some (e : Numeric) ∧
      (q : ℚ) = (db.costBasis a s).qty + (c.fill rt).1 ∧
        (e : ℚ) = c.reported rt (db.costBasis a s) := by
    rcases hcases with ⟨hnone, rfl⟩ | ⟨old, hold, hm⟩
    · refine ⟨_, _, hqty, hentry, ?_, ?_⟩
      · rw [costBasis_of_none hnone, zero_add, Call.fill]
      · rw [costBasis_of_none hnone, Call.reported]
        split
        · rename_i hzero
          rw [hzero, Int.cast_zero]
        · rfl
    · obtain ⟨q, e, hq, he⟩ := hnum old hold
      obtain ⟨hq', he'⟩ := numbers_of_mergePosition hq he hqty hentry hm
      refine ⟨_, _, hq', he', ?_, ?_⟩
      · rw [costBasis_of_position hold hq he, Int.cast_add, Call.fill]
      · rw [costBasis_of_position hold hq he, Call.reported, Int.cast_ite]
  obtain ⟨q, e, hq, he, hqty', hentry'⟩ := hnumbers
  refine ⟨fun row' hrow' => ?_, ?_⟩
  · obtain rfl : row = row' := Option.some.inj (hrow.symm.trans hrow')
    exact ⟨q, e, hq, he⟩
  · rw [← hqty', ← hentry']
    exact costBasis_of_position hrow hq he

/-- For a position of numbers the entry price is the average cost just when the stored basis
says so. -/
theorem entryAveraged_iff {calls : List Call} (hnum : db.NumbersAt a s) :
    EntryAveraged rt a s calls db ↔ ((db.costBasis a s).qty ≠ 0 →
      (db.costBasis a s).price = (CostBasis.ofFills (calls.map (Call.fill rt))).price) := by
  cases hrow : db.position a s with
  | none => simp [EntryAveraged, hrow, costBasis_of_none hrow]
  | some row =>
      obtain ⟨q, e, hq, he⟩ := hnum row hrow
      simp [EntryAveraged, hrow, costBasis_of_position hrow hq he, hq, he]

/-! ### Runs of calls -/

section Runs

variable {db₀ : Db} {inputs : List (Call × Bool)}

/-- What the row tells and what the calls make of it hold the same quantity. -/
structure Tracks (rt : Runtime) (a s : String) (calls : List Call) (db : Db) : Prop where
  numbers : db.NumbersAt a s
  qty : (db.costBasis a s).qty = (CostBasis.ofFills (calls.map (Call.fill rt))).qty

theorem Tracks.start (hnone : db.position a s = none) : Tracks rt a s [] db where
  numbers row hrow := by simp [hnone] at hrow
  qty := by
    rw [costBasis_of_none hnone]
    rfl

/-- A committed call keeps track. -/
theorem Tracks.step {calls : List Call} (htracks : Tracks rt a s calls db)
    (hc : c.FillsPosition a s) (h : updatePosition rt c db = .ok db') :
    Tracks rt a s (calls ++ [c]) db' := by
  obtain ⟨hnum, hbasis⟩ := position_of_updatePosition hc htracks.numbers h
  refine ⟨hnum, ?_⟩
  rw [hbasis, htracks.qty, List.map_append, List.map_singleton, CostBasis.ofFills_concat]
  rfl

/-- A committed call keeps the entry price averaged just when the price it reports suits the
position it finds. -/
theorem entryAveraged_step {calls : List Call} (htracks : Tracks rt a s calls db)
    (haveraged : EntryAveraged rt a s calls db) (hc : c.FillsPosition a s)
    (h : updatePosition rt c db = .ok db') : EntryAveraged rt a s (calls ++ [c]) db' ↔
      (db.costBasis a s).Suits (c.fill rt).1 (c.fill rt).2 (c.reported rt (db.costBasis a s)) := by
  have hprice := (entryAveraged_iff htracks.numbers).mp haveraged
  obtain ⟨-, hbasis⟩ := position_of_updatePosition hc htracks.numbers h
  have hqty : (db.costBasis a s).qty + (c.fill rt).1 =
      ((CostBasis.ofFills (calls.map (Call.fill rt))).fill (c.fill rt).1 (c.fill rt).2).qty :=
    congrArg (· + (c.fill rt).1) htracks.qty
  rw [entryAveraged_iff (htracks.step hc h).numbers, hbasis, List.map_append, List.map_singleton,
    CostBasis.ofFills_concat, hqty, ← CostBasis.suits_iff]
  exact ⟨CostBasis.Suits.congr htracks.qty.symm fun hne => (hprice (htracks.qty ▸ hne)).symm,
    CostBasis.Suits.congr htracks.qty hprice⟩

/-- Every state of a run keeps track. -/
theorem alwaysTracks (hnone : db₀.position a s = none)
    (hinputs : ∀ i ∈ inputs, i.1.FillsPosition a s) :
    AlwaysWithCommits (updatePosition rt) db₀ inputs (Tracks rt a s) := by
  refine (alwaysWithCommits_iff (Tracks.start hnone)).mpr fun pre c post db' hin hok htracks => ?_
  exact htracks.step (hinputs (c, false) (by simp [hin])) hok

/-- **The entry price is the average cost in every state of a run** exactly when each committed
call reports a price that suits the position it finds. -/
theorem alwaysAveraged_iff (rt : Runtime) (a s : String) (db₀ : Db) (inputs : List (Call × Bool))
    (hnone : db₀.position a s = none) (hinputs : ∀ i ∈ inputs, i.1.FillsPosition a s) :
    AlwaysWithCommits (updatePosition rt) db₀ inputs (EntryAveraged rt a s) ↔
      EachCommit (updatePosition rt) db₀ inputs fun _ c db _ =>
        (db.costBasis a s).Suits (c.fill rt).1 (c.fill rt).2
          (c.reported rt (db.costBasis a s)) := by
  have htracks : AlwaysWithCommits (updatePosition rt) db₀ inputs (Tracks rt a s) :=
    alwaysTracks hnone hinputs
  have hstart : EntryAveraged rt a s [] db₀ := fun row hrow => by simp [hnone] at hrow
  constructor
  · intro h pre c post db' hin hok
    have hbefore := h pre _ hin
    exact (entryAveraged_step (htracks pre _ hin) hbefore (hinputs (c, false) (by simp [hin]))
      hok).mp ((alwaysWithCommits_iff hstart).mp h pre c post db' hin hok hbefore)
  · intro h
    refine (alwaysWithCommits_iff hstart).mpr fun pre c post db' hin hok haveraged => ?_
    exact (entryAveraged_step (htracks pre _ hin) haveraged
      (hinputs (c, false) (by simp [hin])) hok).mpr (h pre c post db' hin hok)

end Runs

/-- **A report whose average price is the price of its fill**, as the simulation builds it, suits
the position just when a fill that adds to the position, or reduces it, is at its entry price. -/
theorem suits_simulated_iff {b : CostBasis ℚ}
    (hprice : c.report.avgPrice = c.report.lastFilledPrice) (hqty : c.units rt ≠ 0)
    (hne : fillUnits rt c.report.lastFilledPrice ≠ 0) :
    b.Suits (c.fill rt).1 (c.fill rt).2 (c.reported rt b) ↔ (b.qty ≠ 0 →
      0 < b.qty * (c.fill rt).1 ∨ |(c.fill rt).1| < |b.qty| → (c.fill rt).2 = b.price) := by
  have hreported : c.reported rt b = (c.fill rt).2 := by rw [Call.reported, hprice, if_neg hne]; rfl
  have hunits : (c.fill rt).1 ≠ 0 := by simpa [Call.fill] using hqty
  rw [hreported, CostBasis.suits_self_iff hunits]

/-- The fills that the simulation reports for orders of one BTC over 2 ^ 14, each with its side
and its price. -/
def smallOrders (orders : List (OrderSide × ℚ)) : List (Call × Bool) :=
  orders.flatMap fun o =>
    let order := OrderCommand.sample "018f3c2e-0000-7000-8000-00000000000a" 1 o.1.code 2
      (1 / 2 ^ 14) o.2
    ((buildReports Rounding.nearestEven (fun i => i) order).filter isFillLike).map
      fun report => (Call.paper 0 order report, false)

/-- After a BUY at 100 and a BUY of the same quantity at 200 the entry price is 200. -/
theorem twoBuys_not_averaged : ¬ AlwaysWithCommits (updatePosition Runtime.reference) {}
    (smallOrders [(.buy, 100), (.buy, 200)])
    (EntryAveraged Runtime.reference "paper-main" "BTCUSDT") := by
  intro h
  have hlast := h (smallOrders [(.buy, 100), (.buy, 200)]) [] (List.append_nil _).symm
  have hrow : ((run (updatePosition Runtime.reference) {} (smallOrders [(.buy, 100), (.buy, 200)])
      ).position "paper-main" "BTCUSDT").map (fun row => (row.qty, row.entryPrice)) =
      some (((12208 : ℤ) : Numeric), some ((20000000000 : ℤ) : Numeric)) := by decide +kernel
  obtain ⟨row, hrow, hcols⟩ := Option.map_eq_some_iff.mp hrow
  obtain ⟨hqty, hentry⟩ := Prod.mk.inj hcols
  obtain ⟨e, he, havg⟩ := hlast row hrow (by rw [hqty]; decide)
  obtain rfl : (20000000000 : ℤ) = e := WithTop.coe_inj.mp (Option.some.inj (hentry.symm.trans he))
  exact absurd havg (by decide +kernel)

/-- A BUY at 100, the SELL of all of it at 150 and a further SELL at 120. -/
theorem alwaysAveraged_turn : AlwaysWithCommits (updatePosition Runtime.reference) {}
    (smallOrders [(.buy, 100), (.sell, 150), (.sell, 120)])
    (EntryAveraged Runtime.reference "paper-main" "BTCUSDT") := by
  have hcalls : ∀ i ∈ smallOrders [(.buy, 100), (.sell, 150), (.sell, 120)],
      i.1.FillsPosition "paper-main" "BTCUSDT" := by
    simp only [Call.fillsPosition_iff]
    decide +kernel
  refine (alwaysAveraged_iff _ _ _ _ _ rfl hcalls).mpr (EachCommit.of_take ?_)
  simp only [CostBasis.suits_iff]
  decide +kernel

end HftPlatform
