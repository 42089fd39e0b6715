import HftPlatform.Lib.CostBasis
import HftPlatform.Repos

/-!
# The average price of the order executor

The upsert of `repos/positions_repo.rs` computes the average price of a position by one expression,
`(qty * avg_price + $3 * $4) / NULLIF(qty + $3, 0)`, whether the fill opens the position, adds to
it, reduces it, closes it or turns it over. This module reads the statement with `NUMERIC` values
that keep all their digits, and says when what it stores is the average cost of the position, which
`Lib.CostBasis` defines.

## Main results

* `positionAfter_exact`: in exact arithmetic the statement of the executor stores what the exact
  one computes, rounded to the columns.
* `Exact.Tracks.step`: what a committed call leaves of a position that tracks its calls.
* `Exact.alwaysAverageCost_iff`: the stored price is the average cost all along a run exactly when
  no committed call meets a flat position, and each one adds to the position, closes it or is at
  its average price.
-/

namespace HftPlatform.OrderExecutor

open Lib Binary64

namespace Exact

/-- A row of `positions` whose `NUMERIC` columns keep all digits. -/
structure PositionRow where
  accountId : String
  symbol : String
  qty : Binary64
  avgPrice : Option Binary64
  realizedPnl : Binary64 := .zero
  updatedAt : ℤ
  deriving DecidableEq, Repr

/-- The conflict key of `positions`. -/
def PositionRow.key (p : PositionRow) : String × String := (p.accountId, p.symbol)

/-- The position of an account in a symbol. -/
def position (positions : List PositionRow) (accountId symbol : String) : Option PositionRow :=
  lookup PositionRow.key (accountId, symbol) positions

/-- A value assigned to a column, which holds numbers and `NaN`. -/
def column (x : Binary64) : Except PgError Binary64 :=
  if Float8.isInf x then .error .numericFieldOverflow else .ok x

/-- `NULLIF(x, y)`. -/
def nullIf (x y : Binary64) : Option Binary64 := if x = y then none else some x

/-- The signed quantity by which a report moves the position. -/
def qtyDelta (report : ExecutionReport) : Binary64 :=
  Rounding.exact.mul report.lastFilledQty (if report.side = 1 then .fin 1 else .fin (-1))

/-- `positions.qty + $3`. -/
def qtySum (report : ExecutionReport) (qty : Binary64) : Binary64 :=
  Rounding.exact.add qty (qtyDelta report)

/-- `positions.qty * positions.avg_price + $3 * $4`. -/
def weightedSum (report : ExecutionReport) (qty : Binary64) (avgPrice : Option Binary64) :
    Option Binary64 :=
  avgPrice.map fun a => Rounding.exact.add (Rounding.exact.mul qty a)
    (Rounding.exact.mul (qtyDelta report) report.lastFilledPrice)

/-- The quotient of the weighted sum by `NULLIF(positions.qty + $3, 0)`. -/
def avgPriceAfter (report : ExecutionReport) (qty : Binary64) (avgPrice : Option Binary64) :
    Option Binary64 :=
  Option.map₂ Rounding.exact.div (weightedSum report qty avgPrice)
    (nullIf (qtySum report qty) .zero)

def positionRow (d : Delivery) (report : ExecutionReport) : Except PgError PositionRow := do
  return {
    accountId := ← pgText report.accountId
    symbol := ← pgText report.symbol
    qty := ← column (qtyDelta report)
    avgPrice := some (← column report.lastFilledPrice)
    updatedAt := d.now }

/-- The `DO UPDATE SET` of the upsert of `positions`. -/
def mergePosition (d : Delivery) (report : ExecutionReport) (old : PositionRow) :
    Except PgError PositionRow := do
  let qty ← column (qtySum report old.qty)
  let avgPrice ← (avgPriceAfter report old.qty old.avgPrice).mapM column
  return { old with qty, avgPrice, updatedAt := d.now }

def updatePosition (c : Delivery × ExecutionReport) (positions : List PositionRow) :
    Except PgError (List PositionRow) := do
  let row ← positionRow c.1 c.2
  upsert PositionRow.key row (mergePosition c.1 c.2) positions

end Exact

/-- **In exact arithmetic** the statement of the executor stores what the exact one computes, with
the digits that the columns keep. -/
theorem positionAfter_exact {rt : Runtime} (hfp : rt.fp = Rounding.exact) (report : ExecutionReport)
    (qty : Numeric) (avgPrice : Option Numeric) :
    positionAfter rt report qty avgPrice = do
      let newQty ← numeric20 rt (Exact.qtySum report (qty.toFloat8 .exact 8))
      let newAvg ← (Exact.avgPriceAfter report (qty.toFloat8 .exact 8)
        (avgPrice.map (Numeric.toFloat8 .exact 8))).mapM (numeric20 rt)
      return (newQty, newAvg) := by
  have hdelta : qtyDelta rt report = Exact.qtyDelta report := by
    rw [qtyDelta, Exact.qtyDelta, hfp]
    rfl
  have hsum : qtySum rt report qty = pure (Exact.qtySum report (qty.toFloat8 .exact 8)) := by
    rw [qtySum, hfp, hdelta, Float8.add_exact, Exact.qtySum]
    rfl
  have hweighted : weightedSum rt report qty avgPrice = pure (Exact.weightedSum report
      (qty.toFloat8 .exact 8) (avgPrice.map (Numeric.toFloat8 .exact 8))) := by
    rw [weightedSum, hfp, hdelta, Float8.mul_exact]
    cases avgPrice with
    | none => rfl
    | some a =>
        simp only [Option.mapM_some, Float8.mul_exact, Float8.add_exact, Exact.weightedSum]
        rfl
  rw [positionAfter, hsum, hweighted, Exact.avgPriceAfter, Exact.nullIf]
  generalize Exact.weightedSum report _ _ = weighted
  generalize Exact.qtySum report _ = sum
  simp only [pure_bind]
  refine bind_congr fun newQty => ?_
  by_cases hzero : sum = .zero
  · rw [if_pos hzero, if_pos hzero, Option.map₂_none_right]
    rfl
  · rw [if_neg hzero, if_neg hzero, Option.map₂_coe_right]
    cases weighted with
    | none => rfl
    | some w =>
        simp only [Option.mapM_some, Option.map_some, hfp, Float8.div_exact w hzero]
        rfl

namespace Exact

/-- The fill of a call: its signed quantity and its price. -/
def fill (c : Delivery × ExecutionReport) : ℚ × ℚ :=
  ((qtyDelta c.2).toRat, c.2.lastFilledPrice.toRat)

/-- What the calls make of the position. -/
def basis (calls : List (Delivery × ExecutionReport)) : CostBasis ℚ :=
  CostBasis.ofFills (calls.map fill)

/-- Whenever the position is not zero it has an average price, which is the average cost of the
calls. -/
def AverageCost (accountId symbol : String) (calls : List (Delivery × ExecutionReport))
    (positions : List PositionRow) : Prop :=
  ∀ row ∈ position positions accountId symbol, row.qty ≠ .zero →
    row.avgPrice = some (.fin (basis calls).price)

/-- A report for the position of an account in a symbol, with a positive quantity and price. -/
structure FillsPosition (report : ExecutionReport) (accountId symbol : String) : Prop where
  account : report.accountId = accountId
  symbol : report.symbol = symbol
  qty : report.lastFilledQty.gt .zero = true
  price : report.lastFilledPrice.gt .zero = true

theorem fillsPosition_iff {report : ExecutionReport} {a s : String} : FillsPosition report a s ↔
    report.accountId = a ∧ report.symbol = s ∧ report.lastFilledQty.gt .zero = true ∧
      report.lastFilledPrice.gt .zero = true :=
  ⟨fun h => ⟨h.account, h.symbol, h.qty, h.price⟩,
    fun ⟨haccount, hsymbol, hqty, hprice⟩ => ⟨haccount, hsymbol, hqty, hprice⟩⟩

/-- The report meets a position that is not flat, and adds to it, closes it or is at its average
price. -/
structure Averageable (report : ExecutionReport) (row : PositionRow) : Prop where
  held : row.qty ≠ .zero
  price : row.qty.gt .zero = decide (report.side = 1) ∨ qtySum report row.qty = .zero ∨
    row.avgPrice = some report.lastFilledPrice

theorem averageable_def {report : ExecutionReport} {row : PositionRow} : Averageable report row ↔
    row.qty ≠ .zero ∧ (row.qty.gt .zero = decide (report.side = 1) ∨
      qtySum report row.qty = .zero ∨ row.avgPrice = some report.lastFilledPrice) :=
  ⟨fun h => ⟨h.held, h.price⟩, fun ⟨hheld, hprice⟩ => ⟨hheld, hprice⟩⟩

variable {c : Delivery × ExecutionReport} {positions positions' : List PositionRow} {a s : String}
  {d p q : ℚ} {e : Option ℚ}

/-! ### One call -/

/-- The report moves a position by `d` at the price `p`. -/
structure Moves (report : ExecutionReport) (d p : ℚ) : Prop where
  ne_zero : d ≠ 0
  sign : 0 < d ↔ report.side = 1
  delta : qtyDelta report = .fin d
  price : report.lastFilledPrice = .fin p

theorem Moves.fill (h : Moves c.2 d p) : fill c = (d, p) := by
  rw [Exact.fill, h.delta, h.price]
  rfl

theorem column_eq_ok_iff {x y : Binary64} : column x = .ok y ↔ Float8.isInf x = false ∧ y = x := by
  rw [column]
  cases Float8.isInf x <;> simp [eq_comm]

/-- What a report proposes to insert: numbers, since the columns refuse infinities. -/
theorem moves_of_positionRow {dl : Delivery} {report : ExecutionReport} {row : PositionRow}
    (hc : FillsPosition report a s) (h : positionRow dl report = .ok row) :
    ∃ d p, Moves report d p ∧ row.key = (a, s) ∧ row.qty = .fin d ∧
      row.avgPrice = some (.fin p) := by
  simp only [positionRow, bind_eq_ok_iff, pure_eq_ok_iff, column_eq_ok_iff] at h
  obtain ⟨x, hx, y, hy, z, ⟨hz, rfl⟩, w, ⟨hw, rfl⟩, rfl⟩ := h
  obtain ⟨-, rfl⟩ := pgText_eq_ok_iff.mp hx
  obtain ⟨-, rfl⟩ := pgText_eq_ok_iff.mp hy
  obtain ⟨p, hp⟩ : ∃ p, report.lastFilledPrice = .fin p := by
    have hpos := hc.price
    cases hprice : report.lastFilledPrice with
    | nan => simp [hprice, gt, lt, zero] at hpos
    | inf t => simp [hprice, Float8.isInf] at hw
    | fin p => exact ⟨p, rfl⟩
  obtain ⟨n, hn, hqty⟩ : ∃ n, 0 < n ∧ report.lastFilledQty = .fin n := by
    have hpos := hc.qty
    cases hqty : report.lastFilledQty with
    | nan => simp [hqty, gt, lt, zero] at hpos
    | inf t =>
        rw [qtyDelta, hqty] at hz
        split at hz <;> simp [Rounding.mul, Float8.isInf] at hz
    | fin n => exact ⟨n, by simpa [hqty, gt, lt, zero] using hpos, rfl⟩
  have hdelta : qtyDelta report = .fin (if report.side = 1 then n else -n) := by
    rw [qtyDelta, hqty]
    split <;> simp [Rounding.mul, Rounding.exact]
  refine ⟨_, p, ⟨?_, ?_, hdelta, hp⟩, by rw [← hc.account, ← hc.symbol]; rfl, hdelta, by rw [hp]⟩
  · split
    · exact hn.ne'
    · exact neg_ne_zero.mpr hn.ne'
  · split
    · rename_i hside
      exact iff_of_true hn hside
    · rename_i hside
      exact iff_of_false (by linarith) hside

/-- What merging a report into a position of numbers leaves. -/
theorem numbers_of_mergePosition {dl : Delivery} {report : ExecutionReport} {old m : PositionRow}
    (hm : Moves report d p) (hq : old.qty = .fin q) (he : old.avgPrice = e.map Binary64.fin)
    (h : mergePosition dl report old = .ok m) : m.key = old.key ∧ m.qty = .fin (q + d) ∧
      m.avgPrice = (if q + d = 0 then none else e.map fun x => (q * x + d * p) / (q + d)).map
        Binary64.fin := by
  simp only [mergePosition, bind_eq_ok_iff, pure_eq_ok_iff, column_eq_ok_iff] at h
  obtain ⟨x, ⟨-, rfl⟩, avg, havg, rfl⟩ := h
  have hsum : qtySum report old.qty = .fin (q + d) := by
    rw [qtySum, hq, hm.delta]
    rfl
  refine ⟨rfl, hsum, ?_⟩
  have hafter : avgPriceAfter report old.qty old.avgPrice =
      (if q + d = 0 then none else e.map fun x => (q * x + d * p) / (q + d)).map Binary64.fin := by
    rw [avgPriceAfter, hsum, weightedSum, hq, he, hm.delta, hm.price, nullIf]
    by_cases hzero : q + d = 0
    · rw [if_pos (by rw [hzero]; rfl), if_pos hzero, Option.map₂_none_right]
      rfl
    · rw [if_neg (by simpa [zero] using hzero), if_neg hzero, Option.map₂_coe_right]
      cases e with
      | none => rfl
      | some x => simp [Rounding.add, Rounding.mul, Rounding.div, Rounding.exact, hzero]
  rw [hafter] at havg
  generalize (if q + d = 0 then none else e.map fun x => (q * x + d * p) / (q + d)) = y at havg ⊢
  cases y with
  | none => exact (pure_eq_ok_iff.mp havg).symm
  | some y =>
      have hcol : column (.fin y) = .ok (.fin y) := column_eq_ok_iff.mpr ⟨rfl, rfl⟩
      rw [Option.map_some, Option.mapM_some, hcol] at havg
      exact (pure_eq_ok_iff.mp havg).symm

/-- The position that a committed call leaves: the proposed one, or the merge of the stored one. -/
theorem position_of_updatePosition (hc : FillsPosition c.2 a s)
    (h : updatePosition c positions = .ok positions') : ∃ d p, Moves c.2 d p ∧
      ∃ row, position positions' a s = some row ∧
        (position positions a s = none ∧ row.qty = .fin d ∧ row.avgPrice = some (.fin p) ∨
          ∃ old, position positions a s = some old ∧ mergePosition c.1 c.2 old = .ok row) := by
  simp only [updatePosition, bind_eq_ok_iff] at h
  obtain ⟨new, hnew, hupsert⟩ := h
  obtain ⟨d, p, hm, hkey, hqty, havg⟩ := moves_of_positionRow hc hnew
  have hmerge : ∀ old m, mergePosition c.1 c.2 old = .ok m → m.key = old.key := by
    intro old m hok
    simp only [mergePosition, bind_eq_ok_iff, pure_eq_ok_iff] at hok
    obtain ⟨-, -, -, -, rfl⟩ := hok
    rfl
  obtain ⟨row, hrow, hcases⟩ := lookup_upsert_self hmerge hupsert
  rw [hkey] at hrow hcases
  refine ⟨d, p, hm, row, hrow, ?_⟩
  rcases hcases with ⟨hnone, rfl⟩ | ⟨old, hold, hok⟩
  · exact Or.inl ⟨hnone, hqty, havg⟩
  · exact Or.inr ⟨old, hold, hok⟩

/-- For a position of numbers, the condition on a report is one on its move and its price. -/
theorem averageable_iff {report : ExecutionReport} {row : PositionRow} (hm : Moves report d p)
    (hq : row.qty = .fin q) (he : row.avgPrice = e.map Binary64.fin) :
    Averageable report row ↔ q ≠ 0 ∧ (0 < q * d ∨ q + d = 0 ∨ e = some p) := by
  have hheld : row.qty ≠ .zero ↔ q ≠ 0 := by simp [hq, zero]
  have hadds : q ≠ 0 → (row.qty.gt .zero = decide (report.side = 1) ↔ 0 < q * d) := by
    intro hne
    have hgt : row.qty.gt .zero = decide (0 < q) := by rw [hq]; rfl
    rw [hgt, decide_eq_decide, ← hm.sign, mul_pos_iff]
    rcases lt_or_gt_of_ne hne with hq | hq <;> rcases lt_or_gt_of_ne hm.ne_zero with hd | hd <;>
      simp [hq, hd, hq.not_gt, hd.not_gt]
  have hcloses : qtySum report row.qty = .zero ↔ q + d = 0 := by
    simp [qtySum, hq, hm.delta, zero, Rounding.add, Rounding.exact]
  have hprice : row.avgPrice = some report.lastFilledPrice ↔ e = some p := by
    rw [he, hm.price]
    cases e <;> simp
  constructor
  · rintro ⟨h₁, h₂⟩
    have hne := hheld.mp h₁
    exact ⟨hne, by rwa [hadds hne, hcloses, hprice] at h₂⟩
  · rintro ⟨hne, h⟩
    exact ⟨hheld.mpr hne, by rwa [hadds hne, hcloses, hprice]⟩

/-! ### Runs of calls -/

theorem basis_concat (calls : List (Delivery × ExecutionReport)) :
    basis (calls ++ [c]) = (basis calls).fill (fill c).1 (fill c).2 := by
  rw [basis, List.map_append, List.map_singleton, CostBasis.ofFills_concat, basis]

/-- The row holds what the calls make of the position, and has no price while it is flat. -/
def TracksRow (b : CostBasis ℚ) (row : PositionRow) : Prop :=
  row.qty = .fin b.qty ∧ ∃ e : Option ℚ, row.avgPrice = e.map Binary64.fin ∧ (b.qty = 0 → e = none)

/-- The position tracks the calls. -/
structure Tracks (a s : String) (calls : List (Delivery × ExecutionReport))
    (positions : List PositionRow) : Prop where
  absent : position positions a s = none → calls = []
  row : ∀ row ∈ position positions a s, TracksRow (basis calls) row

theorem Tracks.start (hnone : position positions a s = none) : Tracks a s [] positions where
  absent _ := rfl
  row row hrow := by simp [hnone] at hrow

/-- A committed call keeps track. -/
theorem Tracks.step {calls : List (Delivery × ExecutionReport)}
    (htracks : Tracks a s calls positions) (hc : FillsPosition c.2 a s)
    (h : updatePosition c positions = .ok positions') :
    Tracks a s (calls ++ [c]) positions' := by
  obtain ⟨d, p, hm, row, hrow, hcases⟩ := position_of_updatePosition hc h
  refine ⟨fun hnone => by simp [hrow] at hnone, fun row' hrow' => ?_⟩
  obtain rfl : row = row' := Option.some.inj (hrow.symm.trans hrow')
  rw [basis_concat, hm.fill]
  rcases hcases with ⟨hnone, hqty, havg⟩ | ⟨old, hold, hok⟩
  · obtain rfl := htracks.absent hnone
    have hd : ((basis []).fill d p).qty = d := zero_add d
    exact ⟨by rw [hqty, hd], some p, havg, fun hzero => absurd (hd.symm.trans hzero) hm.ne_zero⟩
  · obtain ⟨hq, e, he, -⟩ := htracks.row old hold
    obtain ⟨-, hqty, havg⟩ := numbers_of_mergePosition hm hq he hok
    exact ⟨hqty, _, havg, fun hzero => if_pos hzero⟩

/-- A committed call keeps the average price the average cost just when it can be averaged with
the position it finds. -/
theorem averageCost_step {calls : List (Delivery × ExecutionReport)}
    (htracks : Tracks a s calls positions) (haverage : AverageCost a s calls positions)
    (hc : FillsPosition c.2 a s) (h : updatePosition c positions = .ok positions') :
    AverageCost a s (calls ++ [c]) positions' ↔
      ∀ row ∈ position positions a s, Averageable c.2 row := by
  obtain ⟨d, p, hm, row, hrow, hcases⟩ := position_of_updatePosition hc h
  have hafter : AverageCost a s (calls ++ [c]) positions' ↔
      (row.qty ≠ .zero → row.avgPrice = some (.fin ((basis calls).fill d p).price)) := by
    rw [AverageCost, basis_concat, hm.fill, hrow]
    simp
  rw [hafter]
  rcases hcases with ⟨hnone, -, havg⟩ | ⟨old, hold, hok⟩
  · obtain rfl := htracks.absent hnone
    have hp : ((basis []).fill d p).price = p := by
      simp [basis, CostBasis.ofFills, CostBasis.fill]
    exact iff_of_true (fun _ => by rw [havg, hp]) (by simp [hnone])
  · obtain ⟨hq, e, he, hflat⟩ := htracks.row old hold
    obtain ⟨-, hqty, havg⟩ := numbers_of_mergePosition hm hq he hok
    have hbefore : (basis calls).qty ≠ 0 → e = some (basis calls).price := by
      intro hne
      have hsome := haverage old hold (by simpa [hq, zero] using hne)
      rw [he] at hsome
      obtain ⟨x, rfl, hx⟩ := Option.map_eq_some_iff.mp hsome
      exact congrArg some (Binary64.fin.inj hx)
    have hone : (∀ row ∈ position positions a s, Averageable c.2 row) ↔ Averageable c.2 old := by
      simp [hold]
    rw [hone, averageable_iff hm hq he, hqty, havg]
    generalize basis calls = b at *
    by_cases hzero : b.qty = 0
    · -- Nothing makes a price out of the missing one of a flat position.
      refine iff_of_false (fun hcontra => ?_) fun hne => hne.1 hzero
      have hnull := hcontra (by simpa [hzero, zero] using hm.ne_zero)
      simp [hflat hzero] at hnull
    · obtain rfl := hbefore hzero
      by_cases hclose : b.qty + d = 0
      · exact iff_of_true (fun hne => absurd (congrArg Binary64.fin hclose) hne)
          ⟨hzero, Or.inr (Or.inl hclose)⟩
      · have hblend := CostBasis.suits_blend_iff (b := b) (p := p) hzero hm.ne_zero hclose
        rw [CostBasis.suits_iff] at hblend
        have hopen : (b.fill d p).qty ≠ 0 := hclose
        rw [if_neg hclose, Option.map_some, Option.map_some, Option.some.injEq,
          Binary64.fin.injEq, Option.some.injEq, eq_comm (a := b.price)]
        simp only [hzero, hclose, zero, ne_eq, Binary64.fin.injEq, not_false_eq_true, true_and,
          false_or, forall_const, ← hblend, hopen]

section Runs

variable {positions₀ : List PositionRow} {inputs : List ((Delivery × ExecutionReport) × Bool)}

/-- Every state of a run tracks what has committed. -/
theorem alwaysTracks (hnone : position positions₀ a s = none)
    (hinputs : ∀ i ∈ inputs, FillsPosition i.1.2 a s) :
    AlwaysWithCommits updatePosition positions₀ inputs (Tracks a s) := by
  refine (alwaysWithCommits_iff (Tracks.start hnone)).mpr fun pre c post ps' hin hok htracks => ?_
  exact htracks.step (hinputs (c, false) (by simp [hin])) hok

/-- **The average price is the average cost in every state of a run** exactly when each committed
call can be averaged with the position it finds. -/
theorem alwaysAverageCost_iff (a s : String) (positions₀ : List PositionRow)
    (inputs : List ((Delivery × ExecutionReport) × Bool)) (hnone : position positions₀ a s = none)
    (hinputs : ∀ i ∈ inputs, FillsPosition i.1.2 a s) :
    AlwaysWithCommits updatePosition positions₀ inputs (AverageCost a s) ↔
      EachCommit updatePosition positions₀ inputs fun _ c positions _ =>
        ∀ row ∈ position positions a s, Averageable c.2 row := by
  have htracks : AlwaysWithCommits updatePosition positions₀ inputs (Tracks a s) :=
    alwaysTracks hnone hinputs
  have hstart : AverageCost a s [] positions₀ := fun row hrow => by simp [hnone] at hrow
  constructor
  · intro h pre c post ps' hin hok
    have hbefore := h pre _ hin
    exact (averageCost_step (htracks pre _ hin) hbefore (hinputs (c, false) (by simp [hin]))
      hok).mp ((alwaysWithCommits_iff hstart).mp h pre c post ps' hin hok hbefore)
  · intro h
    refine (alwaysWithCommits_iff hstart).mpr fun pre c post ps' hin hok haverage => ?_
    exact (averageCost_step (htracks pre _ hin) haverage (hinputs (c, false) (by simp [hin]))
      hok).mpr (h pre c post ps' hin hok)

end Runs

/-- Fills, each with its side, its quantity and its price. -/
def sampleFills (fills : List (OrderSide × ℚ × ℚ)) : List ((Delivery × ExecutionReport) × Bool) :=
  fills.map fun f =>
    let order := OrderCommand.sample "018f3c2e-0000-7000-8000-00000000000a" 1 f.1.code 1 f.2.1 f.2.2
    ((⟨0, 0, 0⟩,
      buildFill Rounding.exact 0 order .filled order.qty order.qty "-f1" 1), false)

/-- A SELL of one of two BTC, bought at 100, at 150 leaves the average price 50; a BUY after the
position was closed leaves none. -/
theorem reduce_and_reopen_not_averageCost :
    ¬ AlwaysWithCommits updatePosition [] (sampleFills [(.buy, 2, 100), (.sell, 1, 150)])
        (AverageCost "paper-main" "BTCUSDT") ∧
      ¬ AlwaysWithCommits updatePosition []
        (sampleFills [(.buy, 1, 100), (.sell, 1, 150), (.buy, 1, 120)])
        (AverageCost "paper-main" "BTCUSDT") := by
  constructor
  · intro h
    have hlast := h _ [] (List.append_nil _).symm
    simp only [AverageCost] at hlast
    revert hlast
    decide +kernel
  · intro h
    have hlast := h _ [] (List.append_nil _).symm
    simp only [AverageCost] at hlast
    revert hlast
    decide +kernel

/-- Two BUYs at 100 and 200, and the SELL of both at 170. -/
theorem alwaysAverageCost_closed :
    AlwaysWithCommits updatePosition []
      (sampleFills [(.buy, 1, 100), (.buy, 1, 200), (.sell, 2, 170)])
      (AverageCost "paper-main" "BTCUSDT") := by
  refine (alwaysAverageCost_iff _ _ _ _ rfl ?_).mpr (EachCommit.of_take ?_)
  · simp only [fillsPosition_iff]
    decide +kernel
  · simp only [averageable_def]
    decide +kernel

end Exact

end HftPlatform.OrderExecutor
