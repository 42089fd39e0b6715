import HftPlatform.OrderState
import HftPlatform.RealOrders
import HftPlatform.ReduceOnly

/-!
# A simulated order, end to end

The router fills a simulated order in one or two legs. The second leg takes what the first one
leaves, but the database rounds the two legs on their own. This module follows an order through
its reports, in exact arithmetic and without faults.

## Main results

* `legUnits_split`: the rounded legs of an order add up to its quantity.
* `Stage.ack`, `Stage.fill`: what one committed report adds to the tables.
* `paperOrder_filled`: what a simulated order leaves in the tables and on the topic of reports.
-/

namespace HftPlatform

open Lib DbWriter Router

/-- Exact arithmetic: no result is rounded, and the database reads all digits of a double. -/
structure ExactArithmetic (rt : Runtime) : Prop where
  fp : rt.fp = Rounding.exact
  castDigits : rt.castDigits = none

variable {rt : Runtime} {cfg : Router.Config} {order : OrderCommand}

/-! ### Exact quantities -/

/-- A column stores a finite double rounded to scale. -/
theorem numeric20_fin (h : ExactArithmetic rt) (q : ℚ) :
    numeric20 rt (.fin q) = Numeric.checked 20 (Numeric.halfAway (q * 10 ^ 8)) := by
  rw [numeric20, h.castDigits]
  rfl

/-- What is smaller than a number that fits, and not negative, fits. -/
theorem fitsColumn_of_le (h : ExactArithmetic rt) {x y : ℚ} (hx : 0 ≤ x) (hxy : x ≤ y)
    (hy : FitsColumn rt (.fin y)) : FitsColumn rt (.fin x) := by
  obtain ⟨n, hn⟩ := hy
  rw [numeric20_fin h] at hn
  obtain ⟨hlt, -⟩ := Numeric.checked_eq_ok_iff.mp hn
  refine ⟨_, (numeric20_fin h x).trans (Numeric.checked_eq_ok_iff.mpr ⟨?_, rfl⟩)⟩
  have hnonneg : 0 ≤ Numeric.halfAway (x * 10 ^ 8) := Numeric.halfAway_nonneg (by positivity)
  have hle : Numeric.halfAway (x * 10 ^ 8) ≤ Numeric.halfAway (y * 10 ^ 8) :=
    Numeric.halfAway_mono (by linarith)
  rw [abs_of_nonneg hnonneg]
  rw [abs_of_nonneg (hnonneg.trans hle)] at hlt
  exact hle.trans_lt hlt

/-- The simulated fill price is a positive number when the notional fits. -/
theorem choosePrice_fin (h : ExactArithmetic rt) {q : ℚ} (hq : 0 < q)
    (hfits : FitsColumn rt (rt.fp.mul (.fin q) (choosePrice rt.fp order))) :
    ∃ p : ℚ, 0 < p ∧ choosePrice rt.fp order = .fin p := by
  rw [choosePrice] at hfits ⊢
  split at hfits
  · rename_i hpos
    rw [if_pos hpos]
    cases hprice : order.price with
    | nan => simp [hprice, Binary64.gt, Binary64.lt, Binary64.zero] at hpos
    | inf s =>
        rw [hprice, Rounding.mul, if_neg hq.ne'] at hfits
        obtain ⟨n, hn⟩ := hfits
        simp [numeric20, Numeric.ofFloat8] at hn
    | fin p =>
        simp only [hprice, Binary64.gt, Binary64.lt, Binary64.zero, decide_eq_true_eq] at hpos
        exact ⟨p, hpos, rfl⟩
  · rename_i hpos
    rw [if_neg hpos]
    exact ⟨62000, by norm_num, by rw [h.fp]; simp [Rounding.lit, Rounding.exact]⟩

/-- The first leg is two fifths of the quantity, and no less than 0.0001. -/
theorem partialQty_exact (h : ExactArithmetic rt) {q : ℚ} (hqty : order.qty = .fin q) :
    partialQty rt.fp order = .fin (if q * (2 / 5) < 1 / 10000 then 1 / 10000 else q * (2 / 5)) := by
  rw [partialQty, hqty, h.fp]
  simp only [Rounding.mul, Rounding.lit, Rounding.exact, Binary64.max, Binary64.lt,
    decide_eq_true_eq]
  split <;> rfl

/-- The units of the two legs of a split order add up to its units: two fifths and three fifths
are rounded against each other, and the smallest first leg is a whole number of units. -/
theorem legUnits_split {n : ℤ} {x : ℚ} (hn : 0 < n)
    (hx : x = if (n / 10 ^ 8 : ℚ) * (2 / 5) < 1 / 10000 then 1 / 10000
      else (n / 10 ^ 8 : ℚ) * (2 / 5)) :
    Numeric.halfAway (x * 10 ^ 8) + Numeric.halfAway ((n / 10 ^ 8 - x) * 10 ^ 8) = n := by
  split at hx
  · have hfirst : x * 10 ^ 8 = ((10000 : ℤ) : ℚ) := by
      rw [hx]
      norm_num
    have hsecond : (n / 10 ^ 8 - x) * 10 ^ 8 = ((n - 10000 : ℤ) : ℚ) := by
      rw [hx]
      push_cast
      ring
    rw [hfirst, hsecond, Numeric.halfAway_intCast, Numeric.halfAway_intCast]
    omega
  · have hfirst : x * 10 ^ 8 = 2 * n / 5 := by
      rw [hx]
      ring
    have hsecond : (n / 10 ^ 8 - x) * 10 ^ 8 = 3 * n / 5 := by
      rw [hx]
      ring
    rw [hfirst, hsecond]
    exact Numeric.halfAway_two_fifths hn.le

/-- Each leg of a split order is at least one unit. -/
theorem leg_bounds {n : ℤ} (h : (if (n / 10 ^ 8 : ℚ) * (2 / 5) < 1 / 10000 then 1 / 10000
    else (n / 10 ^ 8 : ℚ) * (2 / 5)) < n / 10 ^ 8) :
    1 ≤ (if (n / 10 ^ 8 : ℚ) * (2 / 5) < 1 / 10000 then 1 / 10000
        else (n / 10 ^ 8 : ℚ) * (2 / 5)) * 10 ^ 8 ∧
      1 ≤ (n / 10 ^ 8 - if (n / 10 ^ 8 : ℚ) * (2 / 5) < 1 / 10000 then 1 / 10000
        else (n / 10 ^ 8 : ℚ) * (2 / 5)) * 10 ^ 8 := by
  split at h
  · rename_i hfloor
    rw [if_pos hfloor]
    have hn : (10000 : ℚ) < n := by linarith
    have hn' : (10001 : ℤ) ≤ n := by exact_mod_cast hn
    have hn'' : (10001 : ℚ) ≤ n := by exact_mod_cast hn'
    exact ⟨by norm_num, by linarith⟩
  · rename_i hfloor
    rw [if_neg hfloor]
    exact ⟨by linarith, by linarith⟩

/-- **The trace of a simulated order** of `n` units, in one leg or in two whose units add up. -/
theorem buildReports_exact (h : ExactArithmetic rt) (clock : ℕ → ℤ) {n : ℤ} (hn : 0 < n)
    (hqty : order.qty = .fin (n / 10 ^ 8)) :
    (∃ x : ℚ, 1 ≤ x * 10 ^ 8 ∧ 1 ≤ (n / 10 ^ 8 - x) * 10 ^ 8 ∧
        Numeric.halfAway (x * 10 ^ 8) + Numeric.halfAway ((n / 10 ^ 8 - x) * 10 ^ 8) = n ∧
        buildReports rt.fp clock order = [buildAck (clock 0) order,
          buildFill rt.fp (clock 1) order .partiallyFilled (.fin x) (.fin x) "-p1" 1,
          buildFill rt.fp (clock 2) order .filled (.fin (n / 10 ^ 8 - x)) order.qty "-p2" 2]) ∨
      buildReports rt.fp clock order = [buildAck (clock 0) order,
        buildFill rt.fp (clock 1) order .filled order.qty order.qty "-f1" 1] := by
  have hq : (0 : ℚ) < n / 10 ^ 8 := by
    have : (0 : ℚ) < n := by exact_mod_cast hn
    positivity
  have hpositive : order.qty.le .zero = false := by
    rw [hqty]
    simpa [Binary64.le, Binary64.zero] using hq
  have hpart := partialQty_exact h hqty
  rw [buildReports, if_neg (by simp [hpositive])]
  by_cases hlt : (partialQty rt.fp order).lt order.qty = true
  · rw [if_pos hlt]
    have hless : (if (n / 10 ^ 8 : ℚ) * (2 / 5) < 1 / 10000 then 1 / 10000
        else (n / 10 ^ 8 : ℚ) * (2 / 5)) < n / 10 ^ 8 := by
      rw [hpart, hqty] at hlt
      simpa only [Binary64.lt, decide_eq_true_eq] using hlt
    refine Or.inl ⟨_, (leg_bounds hless).1, (leg_bounds hless).2, legUnits_split hn rfl, ?_⟩
    · have hsub : rt.fp.sub order.qty (partialQty rt.fp order) = .fin (n / 10 ^ 8 -
          if (n / 10 ^ 8 : ℚ) * (2 / 5) < 1 / 10000 then 1 / 10000
          else (n / 10 ^ 8 : ℚ) * (2 / 5)) := by
        rw [hpart, hqty, h.fp, sub_eq_add_neg]
        rfl
      rw [hsub, hpart]
  · exact Or.inr (if_neg hlt)

/-! ### The tables in the course of the trace -/

/-- The tables after the reports `done` of the order `u`, which fill `m` units of it, when they
were `db₀` before. -/
structure Stage (rt : Runtime) (order : OrderCommand) (u : Uuid) (db₀ : Db)
    (done : List ExecutionReport) (m : ℤ) (db : Db) : Prop where
  held : db.held order.accountId order.symbol =
    db₀.held order.accountId order.symbol + ((direction order * m : ℤ) : Numeric)
  traded : tradedQtyOf u db = (m : Numeric)
  trades : ∀ t ∈ db.trades, t ∈ db₀.trades ∨
    ∃ r ∈ done, t.fillId = r.fillId ∧ t.tradeId = deterministicTradeId rt r

/-- The units that a report fills. -/
def filledUnits (rt : Runtime) (r : ExecutionReport) : ℤ :=
  if isFillLike r then fillUnits rt r.lastFilledQty else 0

variable {u : Uuid} {db₀ db db' : Db} {done : List ExecutionReport} {m : ℤ} {r : ExecutionReport}
  {t : ℤ}

/-- What a call adds to the trades of its order, in units of the column. -/
theorem tradedNow_eq {c : Call} {q : Numeric} (h : c.tradedNow rt = .ok q) :
    q = (filledUnits rt c.report : Numeric) := by
  rw [Call.tradedNow] at h
  rw [filledUnits]
  by_cases hlike : isFillLike c.report = true
  · rw [if_pos hlike, fillUnits]
    by_cases hpos : c.report.lastFilledQty.gt .zero = true
    · rw [if_pos (by simp [Call.isFill, hlike, hpos])] at h
      obtain ⟨v, -, rfl⟩ := Numeric.ofFloat8_nonneg (Binary64.nonneg_of_zero_lt hpos) h
      rw [if_pos hpos, h]
      rfl
    · rw [if_neg (by simp [Call.isFill, hpos])] at h
      rw [if_neg hpos]
      exact (Except.ok.inj h).symm
  · rw [if_neg (by simp [Call.isFill, hlike])] at h
    rw [if_neg hlike]
    exact (Except.ok.inj h).symm

/-- **One committed report** whose fill id is new goes to the next stage. -/
theorem Stage.step (h : Stage rt order u db₀ done m db)
    (hu : rt.parseUuid order.clientOrderId = some u)
    (hfresh : isFillLike r = true → ∀ x ∈ db.trades, x.fillId ≠ r.fillId)
    (hok : persistExecution rt (cfg.call order r t) db = .ok db') :
    Stage rt order u db₀ (done ++ [r]) (m + filledUnits rt r) db' := by
  have hnew : (cfg.call order r t).isFill = true → ∀ x ∈ db.trades, x.fillId ≠ r.fillId :=
    fun hfill => hfresh (Bool.and_eq_true_iff.mp hfill).1
  refine ⟨?_, ?_, fun x hx => ?_⟩
  · have hunits : reportUnits rt order r = direction order * filledUnits rt r := by
      rw [reportUnits, filledUnits]
      split <;> simp
    rw [held_persist hok, moves_eq, h.held, add_assoc, ← WithTop.coe_add, mul_add]
    rw [show (cfg.call order r t).order = order from rfl,
      show (cfg.call order r t).report = r from rfl, if_pos rfl, hunits]
  · obtain ⟨q, hq, htraded⟩ := tradedQtyOf_step hu hnew hok
    rw [htraded, h.traded, tradedNow_eq hq, ← WithTop.coe_add]
    rfl
  · have hold : x ∈ db.trades → x ∈ db₀.trades ∨
        ∃ r' ∈ done ++ [r], x.fillId = r'.fillId ∧ x.tradeId = deterministicTradeId rt r' := by
      intro hx
      rcases h.trades x hx with hx | ⟨r', hr', hkeys⟩
      · exact Or.inl hx
      · exact Or.inr ⟨r', List.mem_append_left _ hr', hkeys⟩
    obtain ⟨-, ⟨-, heffect⟩ | ⟨-, heffect⟩⟩ := persistExecution_ok_iff.mp hok
    · obtain ⟨tr, htr, htrades⟩ := heffect.trades
      obtain ⟨-, -, -, -, -, hid, -, htradeId⟩ := tradeRow_spec htr
      rcases mem_of_insertTrade htrades hx with hx | rfl
      · exact hold hx
      · exact Or.inr ⟨r, by simp, hid, htradeId⟩
    · rw [heffect.trades] at hx
      exact hold hx

/-- **A fill is accepted** at a stage when its values can be stored, its fill id and its trade id
are new, and the position stays in range. -/
theorem Stage.accepted (h : Stage rt order u db₀ done m db)
    (hfill : (cfg.call order r t).isFill = true) (hstorable : Storable rt (cfg.call order r t))
    (hnew : ∀ x ∈ db₀.trades, x.fillId ≠ r.fillId ∧ x.tradeId ≠ deterministicTradeId rt r)
    (hdone : ∀ r' ∈ done, r'.fillId ≠ r.fillId ∧
      deterministicTradeId rt r' ≠ deterministicTradeId rt r)
    (hrange : Numeric.Fits 20 (db₀.held order.accountId order.symbol +
      ((direction order * (m + filledUnits rt r) : ℤ) : Numeric))) :
    (∀ x ∈ db.trades, x.fillId ≠ r.fillId) ∧ Accepted rt (cfg.call order r t) db := by
  have hkeys : ∀ x ∈ db.trades, x.fillId ≠ r.fillId ∧ x.tradeId ≠ deterministicTradeId rt r := by
    intro x hx
    rcases h.trades x hx with hx | ⟨r', hr', hid, htradeId⟩
    · exact hnew x hx
    · rw [hid, htradeId]
      exact hdone r' hr'
  have hfresh : ∀ x ∈ db.trades, x.fillId ≠ (cfg.call order r t).report.fillId :=
    fun x hx => (hkeys x hx).1
  refine ⟨hfresh, (accepted_iff_of_fresh hfill hfresh).mpr ⟨hstorable, fun x hx hkey => ?_, ?_⟩⟩
  · exact (hkeys x hx).2 (congrArg Prod.fst hkey)
  · have hunits : filledUnits rt r = fillUnits rt r.lastFilledQty :=
      if_pos (Bool.and_eq_true_iff.mp hfill).1
    rw [hunits, mul_add, WithTop.coe_add, ← add_assoc] at hrange
    rw [stored_of_pos (Bool.and_eq_true_iff.mp hfill).2]
    rw [← h.held] at hrange
    exact hrange

/-! ### The reports that are stored -/

/-- The simulated acknowledgement is stored when the order can be. -/
theorem storable_ack (horder : OrderStorable rt cfg order) (now : ℤ) :
    Storable rt (cfg.call order (buildAck now order) t) := by
  have hid : NulFree order.clientOrderId := horder.texts _ (by simp)
  refine (storable_call_iff ⟨rfl, rfl, rfl, rfl, rfl, rfl, rfl⟩).mpr
    ⟨horder, ?_, by simp [buildAck, baseReport, fitsColumn_zero], fun hfill => ?_⟩
  · simp only [List.forall_mem_cons]
    exact ⟨nulFree_append.mpr ⟨by decide, hid⟩, nulFree_empty,
      nulFree_append.mpr ⟨by decide, hid⟩, by simp⟩
  · simp [Call.isFill, Config.call, isFillLike, buildAck, ExecutionStatus.code] at hfill

/-- A leg of the order is stored when the order and its notional can be. -/
theorem storable_fill (h : ExactArithmetic rt) (horder : OrderStorable rt cfg order) {q : ℚ}
    (hqty : order.qty = .fin q)
    (hnotional : FitsColumn rt (rt.fp.mul order.qty (choosePrice rt.fp order)))
    {x c : ℚ} (hx : 0 < x) (hxq : x ≤ q) (hc : 0 ≤ c) (hcq : c ≤ q) (now : ℤ)
    (status : ExecutionStatus) {leg : String} (hleg : NulFree leg) (seq : ℤ) :
    Storable rt
      (cfg.call order (buildFill rt.fp now order status (.fin x) (.fin c) leg seq) t) := by
  have hid : NulFree order.clientOrderId := horder.texts _ (by simp)
  have hq : 0 < q := hx.trans_le hxq
  have hqfits : FitsColumn rt (.fin q) := hqty ▸ horder.numbers _ (by simp)
  rw [hqty] at hnotional
  obtain ⟨p, hp, hprice⟩ := choosePrice_fin h hq hnotional
  have hpfits : FitsColumn rt (.fin p) := by
    have hlit : FitsColumn rt (.fin 62000) :=
      ⟨_, (numeric20_fin h 62000).trans (Numeric.checked_eq_ok_iff.mpr
        ⟨by norm_num [Numeric.halfAway], rfl⟩)⟩
    rw [← hprice, choosePrice]
    split
    · exact horder.numbers _ (by simp)
    · simpa [h.fp, Rounding.lit, Rounding.exact] using hlit
  have hmul : ∀ a b : ℚ, rt.fp.mul (.fin a) (.fin b) = .fin (a * b) := fun a b => by rw [h.fp]; rfl
  rw [hprice, hmul] at hnotional
  have hlast : FitsColumn rt (.fin (x * p)) :=
    fitsColumn_of_le h (by positivity) (mul_le_mul_of_nonneg_right hxq hp.le) hnotional
  have hcommission : FitsColumn rt (.fin (x * p * (1 / 10000))) := by
    have hpos : 0 < x * p := by positivity
    exact fitsColumn_of_le h (by positivity) (by linarith) hlast
  have hrate : rt.fp.lit (1 / 10000) = .fin (1 / 10000) := by rw [h.fp]; rfl
  refine (storable_call_iff ⟨rfl, rfl, rfl, rfl, rfl, rfl, rfl⟩).mpr ⟨horder, ?_, ?_, fun _ => ?_⟩
  · simp only [List.forall_mem_cons]
    exact ⟨nulFree_append.mpr ⟨by decide, hid⟩, nulFree_empty,
      nulFree_append.mpr ⟨hid, hleg⟩, by simp⟩
  · simp only [buildFill, hprice, hmul, hrate, List.forall_mem_cons]
    exact ⟨fitsColumn_of_le h hc hcq hqfits, hpfits, fitsColumn_of_le h hx.le hxq hqfits, hpfits,
      hcommission, by simp⟩
  · simp only [buildFill, hprice, hmul]
    exact hlast

/-- A quantity that fits is stored rounded to units. -/
theorem fillUnits_fin (h : ExactArithmetic rt) {x : ℚ} (hx : 0 < x)
    (hfits : FitsColumn rt (.fin x)) : fillUnits rt (.fin x) = Numeric.halfAway (x * 10 ^ 8) := by
  have hpos : (Binary64.fin x).gt .zero = true := by
    simpa [Binary64.gt, Binary64.lt, Binary64.zero] using hx
  obtain ⟨n, hn⟩ := hfits
  have hunits := numeric20_fin h x ▸ hn
  obtain ⟨-, rfl⟩ := Numeric.checked_eq_ok_iff.mp hunits
  rw [fillUnits, if_pos hpos, hn]
  rfl

/-- A leg that fits fills the units that its column stores. -/
theorem filledUnits_fill (h : ExactArithmetic rt) {x : ℚ} (hx : 0 < x)
    (hfits : FitsColumn rt (.fin x)) (now : ℤ) {status : ExecutionStatus}
    (hstatus : status = .partiallyFilled ∨ status = .filled) (cumulative : Binary64) (leg : String)
    (seq : ℤ) : filledUnits rt (buildFill rt.fp now order status (.fin x) cumulative leg seq) =
      Numeric.halfAway (x * 10 ^ 8) := by
  have hlike :
      isFillLike (buildFill rt.fp now order status (.fin x) cumulative leg seq) = true := by
    rcases hstatus with rfl | rfl <;> rfl
  rw [filledUnits, if_pos hlike]
  exact fillUnits_fin h hx hfits

/-! ### The whole order -/

/-- A CREATE of `n` units on one of the two sides, under the UUID `u`, for a router in PAPER
mode. -/
structure PaperCommand (rt : Runtime) (cfg : Router.Config) (order : OrderCommand) (u : Uuid)
    (n : ℤ) : Prop where
  paper : eqIgnoreAsciiCase cfg.executionMode "PAPER" = true
  action : order.action = OrderAction.create.code
  side : order.side = OrderSide.buy.code ∨ order.side = OrderSide.sell.code
  uuid : rt.parseUuid order.clientOrderId = some u
  qty : order.qty = .fin (n / 10 ^ 8)
  pos : 0 < n

/-- No row of the database belongs to the order. -/
structure Fresh (order : OrderCommand) (u : Uuid) (db : Db) : Prop where
  orders : db.order u = none
  trades : ∀ x ∈ db.trades, x.clientOrderId ≠ u ∧ ∀ leg, x.fillId ≠ order.clientOrderId ++ leg

/-- The notional of the order at the fill price and the position that results fit their columns,
as the position before does. -/
structure FitsTables (rt : Runtime) (order : OrderCommand) (n : ℤ) (db : Db) : Prop where
  notional : FitsColumn rt (rt.fp.mul order.qty (choosePrice rt.fp order))
  held : Numeric.Fits 20 (db.held order.accountId order.symbol)
  position : Numeric.Fits 20
    (db.held order.accountId order.symbol + ((direction order * n : ℤ) : Numeric))

/-- The links are healthy, the clock advances by a microsecond from one reading to the next, and
the hash of no fill of the order is that of a stored trade or of a fill at another time. -/
structure Faultless (rt : Runtime) (env : Env) (order : OrderCommand) (db : Db) : Prop where
  healthy : Healthy env
  clock : ∀ i, env.clock i + 1000 ≤ env.clock (i + 1)
  hash : ∀ r ∈ buildReports rt.fp env.clock order, isFillLike r = true →
    (∀ x ∈ db.trades, x.tradeId ≠ deterministicTradeId rt r) ∧
      ∀ r' ∈ buildReports rt.fp env.clock order, isFillLike r' = true →
        r'.eventTimeNs ≠ r.eventTimeNs → deterministicTradeId rt r' ≠ deterministicTradeId rt r

/-- The order rests FILLED with its whole quantity, its trades add up to it, the position has
moved by it, and the acknowledgement was published, then the fills in sequence, the last one
FILLED. -/
structure FilledExactly (order : OrderCommand) (u : Uuid) (n : ℤ) (w w' : World) : Prop where
  row : ∃ row, w'.db.order u = some row ∧ row.status = .filled ∧ row.filledQty = (n : Numeric)
  trades : tradedQtyOf u w'.db = (n : Numeric)
  position : w'.db.held order.accountId order.symbol =
    w.db.held order.accountId order.symbol + ((direction order * n : ℤ) : Numeric)
  published : ∃ ack fills last, w'.published = w.published ++ ack :: (fills ++ [last]) ∧
    ack.status = ExecutionStatus.new.code ∧
    (∀ r ∈ fills, r.status = ExecutionStatus.partiallyFilled.code) ∧
    last.status = ExecutionStatus.filled.code ∧
    ((fills ++ [last]).map ExecutionReport.fillSeq).Pairwise (· < ·)

variable {env : Env} {n : ℤ} {w : World} {i : ℕ} {reports : List ExecutionReport}

/-- Where the links are healthy, a report that the writer accepts is committed and published, and
the next one is emitted. -/
theorem emitAll_cons_healthy (henv : Healthy env)
    (hok : persistExecution rt (cfg.call order r (env.txTime i)) w.db = .ok db) :
    emitAll rt cfg env i order (r :: reports) w = emitAll rt cfg env (i + 1) order reports
      { w with db, committed := w.committed ++ [r], published := w.published ++ [r] } := by
  simp only [emitAll, emit, persist, publishReport, henv.database, henv.broker, hok]

/-- Between a position in range and another one, every position is in range. -/
theorem fits_between {held : Numeric} {d k n : ℤ} (h₀ : Numeric.Fits 20 held)
    (hn : Numeric.Fits 20 (held + ((d * n : ℤ) : Numeric))) (hd : d = 1 ∨ d = -1) (hk : 0 ≤ k)
    (hkn : k ≤ n) : Numeric.Fits 20 (held + ((d * k : ℤ) : Numeric)) := by
  cases held using WithTop.recTopCoe with
  | top => exact fun v hv => by simp at hv
  | coe b =>
      have hb := abs_lt.mp (h₀ b rfl)
      have hbn := abs_lt.mp (hn (b + d * n) (WithTop.coe_add _ _).symm)
      intro v hv
      obtain rfl : b + d * k = v := by
        rw [← WithTop.coe_add] at hv
        exact WithTop.coe_inj.mp hv
      rw [abs_lt]
      rcases hd with rfl | rfl
      · constructor <;> linarith
      · constructor <;> linarith

/-- Before its first report an order fills nothing. -/
theorem Stage.init (rt : Runtime) (h : Fresh order u db₀) : Stage rt order u db₀ [] 0 db₀ := by
  refine ⟨by simp, ?_, fun x hx => Or.inl hx⟩
  have hnone : db₀.trades.filter (fun x => x.clientOrderId = u) = [] :=
    List.filter_eq_nil_iff.mpr fun x hx => by simpa using (h.trades x hx).1
  rw [tradedQtyOf, hnone]
  rfl

/-- **The acknowledgement** of an order is accepted and fills nothing. -/
theorem Stage.ack (h : Stage rt order u db₀ done m db) (horder : OrderStorable rt cfg order)
    (now t : ℤ) : ∃ db', persistExecution rt (cfg.call order (buildAck now order) t) db = .ok db' ∧
      Stage rt order u db₀ done m db' := by
  obtain ⟨db', hok⟩ := persistExecution_isOk_iff.mpr
    (accepted_of_not_fill db (bindable_iff.mpr (storable_ack horder now)) (by rfl))
  obtain ⟨-, ⟨hfill, -⟩ | ⟨-, heffect⟩⟩ := persistExecution_ok_iff.mp hok
  · simp [Call.isFill, Config.call, isFillLike, buildAck, ExecutionStatus.code] at hfill
  · refine ⟨db', hok, ?_, ?_, ?_⟩
    · rw [Db.held, Db.position, heffect.positions]
      exact h.held
    · rw [tradedQtyOf, heffect.trades]
      exact h.traded
    · rw [heffect.trades]
      exact h.trades

/-- **A leg** of an order without faults is accepted and fills the units of its column. -/
theorem Stage.fill (h : Stage rt order u db₀ done m db) (hexact : ExactArithmetic rt)
    (hcmd : PaperCommand rt cfg order u n) (horder : OrderStorable rt cfg order)
    (hfresh : Fresh order u db₀) (hfits : FitsTables rt order n db₀) {x c : ℚ} (hx : 0 < x)
    (hxq : x ≤ n / 10 ^ 8) (hc : 0 ≤ c) (hcq : c ≤ n / 10 ^ 8) (now t : ℤ)
    {status : ExecutionStatus} (hstatus : status = .partiallyFilled ∨ status = .filled)
    {leg : String} (hleg : NulFree leg) (seq : ℤ)
    (hr : r = buildFill rt.fp now order status (.fin x) (.fin c) leg seq)
    (hhash : ∀ x ∈ db₀.trades, x.tradeId ≠ deterministicTradeId rt r)
    (hdone : ∀ r' ∈ done, r'.fillId ≠ r.fillId ∧
      deterministicTradeId rt r' ≠ deterministicTradeId rt r)
    (hm : 0 ≤ m) (hmn : m + Numeric.halfAway (x * 10 ^ 8) ≤ n) :
    ∃ db', persistExecution rt (cfg.call order r t) db = .ok db' ∧
      Stage rt order u db₀ (done ++ [r]) (m + Numeric.halfAway (x * 10 ^ 8)) db' := by
  have hstorable : Storable rt (cfg.call order r t) := hr ▸
    storable_fill hexact horder hcmd.qty hfits.notional hx hxq hc hcq now status hleg seq
  have hxfits : FitsColumn rt (.fin x) :=
    fitsColumn_of_le hexact hx.le hxq (hcmd.qty ▸ horder.numbers _ (by simp))
  have hunits : filledUnits rt r = Numeric.halfAway (x * 10 ^ 8) := hr ▸
    filledUnits_fill hexact hx hxfits now hstatus (.fin c) leg seq
  have hnonneg : 0 ≤ Numeric.halfAway (x * 10 ^ 8) := Numeric.halfAway_nonneg (by positivity)
  have hisfill : (cfg.call order r t).isFill = true := by
    rw [Call.isFill, Bool.and_eq_true, hr]
    refine ⟨?_, by simpa [Config.call, buildFill, Binary64.gt, Binary64.lt, Binary64.zero] using hx⟩
    rcases hstatus with rfl | rfl <;> rfl
  have hid : ∀ x ∈ db₀.trades, x.fillId ≠ r.fillId := fun x hx => hr ▸ (hfresh.trades x hx).2 leg
  have hrange := fits_between hfits.held hfits.position (direction_cases order)
    (Int.add_nonneg hm hnonneg) hmn
  obtain ⟨hnew, hacc⟩ := h.accepted hisfill hstorable (fun x hx => ⟨hid x hx, hhash x hx⟩) hdone
    (by rw [hunits]; exact hrange)
  obtain ⟨db', hok⟩ := persistExecution_isOk_iff.mpr hacc
  exact ⟨db', hok, hunits ▸ h.step hcmd.uuid (fun _ => hnew) hok⟩

/-- The last leg of an order leaves it FILLED with its whole quantity. -/
theorem row_of_filled (hexact : ExactArithmetic rt) (hcmd : PaperCommand rt cfg order u n)
    {now : ℤ} {last : Binary64} {leg : String} {seq : ℤ}
    (hok : persistExecution rt (cfg.call order
      (buildFill rt.fp now order .filled last (.fin (n / 10 ^ 8)) leg seq) t) db = .ok db') :
    ∃ row, db'.order u = some row ∧ row.status = .filled ∧ row.filledQty = (n : Numeric) := by
  obtain ⟨row, hrow, -, hstatus, hfilled⟩ := (persistExecution_ok_iff.mp hok).1.carries hcmd.uuid
  refine ⟨row, hrow, hstatus, ?_⟩
  have hqty : numeric20 rt (.fin (n / 10 ^ 8)) = .ok row.filledQty := hfilled
  rw [numeric20_fin hexact] at hqty
  obtain ⟨-, hvalue⟩ := Numeric.checked_eq_ok_iff.mp hqty
  rw [hvalue, div_mul_cancel₀ _ (by norm_num), Numeric.halfAway_intCast]

/-- An order that is filled in one leg. -/
theorem filledExactly_of_one_leg (hexact : ExactArithmetic rt)
    (hcmd : PaperCommand rt cfg order u n) (horder : OrderStorable rt cfg order)
    (hfresh : Fresh order u w.db) (hfits : FitsTables rt order n w.db)
    (henv : Faultless rt env order w.db) {ack fill : ExecutionReport}
    (hreports : buildReports rt.fp env.clock order = [ack, fill])
    (hack : ack = buildAck (env.clock 0) order)
    (hfill : fill = buildFill rt.fp (env.clock 1) order .filled (.fin (n / 10 ^ 8))
      (.fin (n / 10 ^ 8)) "-f1" 1) :
    (emitAll rt cfg env 0 order [ack, fill] w).2 = .ok () ∧
      FilledExactly order u n w (emitAll rt cfg env 0 order [ack, fill] w).1 := by
  have hq : (0 : ℚ) < n / 10 ^ 8 := by
    have : (0 : ℚ) < n := by exact_mod_cast hcmd.pos
    positivity
  have hunits : Numeric.halfAway (n / 10 ^ 8 * 10 ^ 8 : ℚ) = n := by
    rw [div_mul_cancel₀ _ (by norm_num), Numeric.halfAway_intCast]
  have hlike : isFillLike fill = true := by
    rw [hfill]
    rfl
  obtain ⟨db₁, hok₁, hstage₁⟩ :=
    (Stage.init rt hfresh).ack horder (env.clock 0) (env.txTime 0)
  obtain ⟨db₂, hok₂, hstage₂⟩ := hstage₁.fill hexact hcmd horder hfresh hfits hq le_rfl hq.le le_rfl
    (env.clock 1) (env.txTime 1) (Or.inr rfl) (by decide) 1 hfill
    (henv.hash fill (by simp [hreports]) hlike).1 (by simp) le_rfl (by omega)
  rw [← hack] at hok₁
  rw [hunits, zero_add] at hstage₂
  rw [emitAll_cons_healthy henv.healthy hok₁, emitAll_cons_healthy henv.healthy hok₂]
  refine ⟨rfl, row_of_filled hexact hcmd (hfill ▸ hok₂), hstage₂.traded, hstage₂.held,
    ack, [], fill, by simp [emitAll], by rw [hack]; rfl, by simp, by rw [hfill]; rfl, by simp⟩

/-- An order that is filled in two legs. -/
theorem filledExactly_of_two_legs (hexact : ExactArithmetic rt)
    (hcmd : PaperCommand rt cfg order u n) (horder : OrderStorable rt cfg order)
    (hfresh : Fresh order u w.db) (hfits : FitsTables rt order n w.db)
    (henv : Faultless rt env order w.db) {x : ℚ} (hx : 0 < x) (hxq : x < n / 10 ^ 8)
    (hsplit : Numeric.halfAway (x * 10 ^ 8) + Numeric.halfAway ((n / 10 ^ 8 - x) * 10 ^ 8) = n)
    {ack first last : ExecutionReport}
    (hreports : buildReports rt.fp env.clock order = [ack, first, last])
    (hack : ack = buildAck (env.clock 0) order)
    (hfirst : first =
      buildFill rt.fp (env.clock 1) order .partiallyFilled (.fin x) (.fin x) "-p1" 1)
    (hlast : last = buildFill rt.fp (env.clock 2) order .filled (.fin (n / 10 ^ 8 - x))
      (.fin (n / 10 ^ 8)) "-p2" 2) :
    (emitAll rt cfg env 0 order [ack, first, last] w).2 = .ok () ∧
      FilledExactly order u n w (emitAll rt cfg env 0 order [ack, first, last] w).1 := by
  have hunits₁ : 0 ≤ Numeric.halfAway (x * 10 ^ 8) := Numeric.halfAway_nonneg (by positivity)
  have hunits₂ : 0 ≤ Numeric.halfAway ((n / 10 ^ 8 - x) * 10 ^ 8) :=
    Numeric.halfAway_nonneg (mul_nonneg (by linarith) (by norm_num))
  have hlike₁ : isFillLike first = true := by
    rw [hfirst]
    rfl
  have hlike₂ : isFillLike last = true := by
    rw [hlast]
    rfl
  have hhash := henv.hash last (by simp [hreports]) hlike₂
  -- The two legs are stamped at different times and named by different suffixes.
  have hdistinct : ∀ r ∈ [first], r.fillId ≠ last.fillId ∧
      deterministicTradeId rt r ≠ deterministicTradeId rt last := by
    have hclock : env.clock 1 + 1000 ≤ env.clock 2 := henv.clock 1
    rw [List.forall_mem_singleton]
    refine ⟨?_, hhash.2 first (by simp [hreports]) hlike₁ ?_⟩
    · rw [hfirst, hlast]
      simp [buildFill]
    · rw [hfirst, hlast]
      simp only [buildFill, baseReport]
      omega
  obtain ⟨db₁, hok₁, hstage₁⟩ :=
    (Stage.init rt hfresh).ack horder (env.clock 0) (env.txTime 0)
  obtain ⟨db₂, hok₂, hstage₂⟩ := hstage₁.fill hexact hcmd horder hfresh hfits hx hxq.le hx.le hxq.le
    (env.clock 1) (env.txTime 1) (Or.inl rfl) (by decide) 1 hfirst
    (henv.hash first (by simp [hreports]) hlike₁).1 (by simp) le_rfl (by omega)
  obtain ⟨db₃, hok₃, hstage₃⟩ := hstage₂.fill hexact hcmd horder hfresh hfits (by linarith)
    (by linarith) (by linarith) le_rfl (env.clock 2) (env.txTime 2) (Or.inr rfl) (by decide) 2 hlast
    hhash.1 (by simpa using hdistinct) (by omega) (by omega)
  rw [← hack] at hok₁
  rw [zero_add, hsplit] at hstage₃
  rw [emitAll_cons_healthy henv.healthy hok₁, emitAll_cons_healthy henv.healthy hok₂,
    emitAll_cons_healthy henv.healthy hok₃]
  refine ⟨rfl, row_of_filled hexact hcmd (hlast ▸ hok₃), hstage₃.traded, hstage₃.held,
    ack, [first], last, by simp [emitAll], by rw [hack]; rfl, ?_, by rw [hlast]; rfl, ?_⟩
  · rw [List.forall_mem_singleton, hfirst]
    rfl
  · rw [hfirst, hlast]
    simp [buildFill]

/-- **A simulated order, end to end.** In exact arithmetic and without faults, a CREATE of any
positive number of units, whose values can be stored, is handled with success: its row ends FILLED
with its whole quantity, its trades add up to it, the position moves by it, and what is published
is the acknowledgement, then the fills in sequence, the last one FILLED. -/
theorem paperOrder_filled (rt : Runtime) (cfg : Router.Config) (env : Env)
    (client : Option BinanceRestClient) (order : OrderCommand) (w : World) (u : Uuid) (n : ℤ)
    (hexact : ExactArithmetic rt) (hcmd : PaperCommand rt cfg order u n)
    (horder : OrderStorable rt cfg order) (hfresh : Fresh order u w.db)
    (hfits : FitsTables rt order n w.db) (henv : Faultless rt env order w.db) :
    (handleOrder rt cfg env client order w).2 = .ok () ∧
      FilledExactly order u n w (handleOrder rt cfg env client order w).1 := by
  have hnocancel : order.action ≠ OrderAction.cancel.code := by
    rw [hcmd.action]
    decide
  rw [handleOrder, if_pos hcmd.paper, if_neg hnocancel]
  rcases buildReports_exact hexact env.clock hcmd.pos hcmd.qty with
    ⟨x, hx, hxq, hsplit, hreports⟩ | hreports
  · rw [hreports]
    exact filledExactly_of_two_legs hexact hcmd horder hfresh hfits henv (by linarith) (by linarith)
      hsplit hreports rfl rfl (by rw [hcmd.qty])
  · rw [hreports]
    exact filledExactly_of_one_leg hexact hcmd horder hfresh hfits henv hreports rfl
      (by rw [hcmd.qty])

/-- A runtime of exact arithmetic. -/
def exactRuntime : Runtime :=
  { Runtime.reference with
    fp := Rounding.exact
    castDigits := none }

/-- Healthy links, and a clock that advances by a microsecond. -/
def tickingEnv : Env := { Env.sample (fun _ => .up) fun _ => .up with clock := fun i => 1000 * i }

/-- A BUY of `n` units at the given price. -/
def paperBuy (n : ℤ) (price : ℚ) : OrderCommand :=
  OrderCommand.sample "018f3c2e-0000-7000-8000-00000000000a" 1 1 1 (n / 10 ^ 8) price

theorem fresh_empty (order : OrderCommand) (u : Uuid) : Fresh order u {} := ⟨rfl, by simp⟩

/-- On an empty database, an order fits when its notional and its quantity do. -/
theorem fitsTables_empty (h : FitsColumn rt (rt.fp.mul order.qty (choosePrice rt.fp order)))
    (hn : |direction order * n| < 10 ^ 20) : FitsTables rt order n {} := by
  refine ⟨h, fun v hv => ?_, fun v hv => ?_⟩
  · obtain rfl : (0 : ℤ) = v := WithTop.coe_inj.mp hv
    norm_num
  · have hempty : Db.held {} order.accountId order.symbol = ((0 : ℤ) : Numeric) := rfl
    rw [hempty, ← WithTop.coe_add, zero_add] at hv
    rwa [← WithTop.coe_inj.mp hv]

/-- Around a ticking environment, an order on an empty database is without faults when its legs
have different hashes. -/
theorem faultless_ticking (h : ∀ r ∈ buildReports rt.fp tickingEnv.clock order,
      isFillLike r = true → ∀ r' ∈ buildReports rt.fp tickingEnv.clock order,
        isFillLike r' = true → r'.eventTimeNs ≠ r.eventTimeNs →
          deterministicTradeId rt r' ≠ deterministicTradeId rt r) :
    Faultless rt tickingEnv order {} := by
  refine ⟨⟨fun _ => rfl, fun _ => rfl⟩, fun i => ?_, fun r hr hlike => ⟨by simp, h r hr hlike⟩⟩
  simp only [tickingEnv]
  push_cast
  omega

theorem paperOrder_filled_buy :
    (handleOrder exactRuntime Config.paper tickingEnv none (paperBuy 12345678 60000) {}).2 =
        .ok () ∧
      FilledExactly (paperBuy 12345678 60000) 0x018f3c2e00007000800000000000000a 12345678 {}
        (handleOrder exactRuntime Config.paper tickingEnv none (paperBuy 12345678 60000) {}).1 := by
  refine paperOrder_filled _ _ _ _ _ _ _ _ ⟨rfl, rfl⟩
    ⟨by decide, rfl, Or.inl rfl, by decide +kernel, rfl, by decide⟩
    ⟨⟨0x018f3c2e00007000800000000000000a, by decide +kernel⟩, by decide +kernel, by decide +kernel,
      by decide +kernel, ⟨_, rfl⟩⟩ (fresh_empty _ _)
    (fitsTables_empty (by decide +kernel) (by decide +kernel))
    (faultless_ticking (by decide +kernel))

/-- An order of one unit at a price of 10¹³ has a quantity, a notional and a position that fit,
and nothing of it is stored, because the price has too many digits. -/
theorem dearOrder_unfilled :
    ExactArithmetic exactRuntime ∧
      PaperCommand exactRuntime Config.paper (paperBuy 1 (10 ^ 13))
        0x018f3c2e00007000800000000000000a 1 ∧
      FitsColumn exactRuntime (paperBuy 1 (10 ^ 13)).qty ∧
      Fresh (paperBuy 1 (10 ^ 13)) 0x018f3c2e00007000800000000000000a {} ∧
      FitsTables exactRuntime (paperBuy 1 (10 ^ 13)) 1 {} ∧
      Faultless exactRuntime tickingEnv (paperBuy 1 (10 ^ 13)) {} ∧
      ¬ FilledExactly (paperBuy 1 (10 ^ 13)) 0x018f3c2e00007000800000000000000a 1 {}
        (handleOrder exactRuntime Config.paper tickingEnv none (paperBuy 1 (10 ^ 13)) {}).1 := by
  refine ⟨⟨rfl, rfl⟩, ⟨by decide, rfl, Or.inl rfl, by decide +kernel, by norm_num [paperBuy,
    OrderCommand.sample], by decide⟩, by decide +kernel, fresh_empty _ _,
    fitsTables_empty (by decide +kernel) (by decide +kernel),
    faultless_ticking (by decide +kernel), fun h => ?_⟩
  obtain ⟨row, hrow, -⟩ := h.row
  have hnone : (handleOrder exactRuntime Config.paper tickingEnv none (paperBuy 1 (10 ^ 13))
      {}).1.db.orders = [] := by decide +kernel
  rw [Db.order, hnone] at hrow
  simp at hrow

end HftPlatform
