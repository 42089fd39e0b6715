import HftPlatform.Repos
import HftPlatform.Router

/-!
# The readings of a side

A side crosses the wire as an `i32`. Five places turn it into a direction: the label of a trade,
the sign of the two updates of a position, the sign of a position snapshot, and the side that an
order is sent to the exchange with. Each tests for one of BUY and SELL and takes whatever is left
for the other one; three of them test for BUY, two for SELL.

## Main results

* `BuiltFor.side_eq`: an order and its reports have one side.
* `readAs_iff`: what each of the five places reads.
* `oneReading_iff`: they read one direction exactly when the side is BUY or SELL.
-/

namespace HftPlatform

open Lib Binary64

/-- `oms::Position` -/
structure Position where
  accountId : String
  symbol : String
  qty : Binary64
  avgPrice : Binary64
  realizedPnl : Binary64
  updatedAtMs : ℤ
  schemaVersion : ℕ
  deriving DecidableEq, Repr

def toPositionSnapshot (nowMs : ℤ) (report : ExecutionReport) : Position where
  accountId := report.accountId
  symbol := report.symbol
  qty :=
    if report.side = OrderSide.sell.code then report.lastFilledQty.neg else report.lastFilledQty
  avgPrice := report.avgPrice
  realizedPnl := .zero
  updatedAtMs := nowMs
  schemaVersion := 1

/-- The direction that a signed quantity denotes. -/
def signDirection (x : Binary64) : Option DbOrderSide :=
  if x.gt .zero then some .buy else if x.lt .zero then some .sell else none

/-- What the exchange calls a direction. -/
def DbOrderSide.label : DbOrderSide → String
  | .buy => "BUY"
  | .sell => "SELL"

/-- The order of a call and its report are read as one direction. None of the five places refuses
an order for its side; a trade is recorded unless another of its columns refuses its value. -/
structure ReadAs (rt : Runtime) (env : Router.Env) (nowMs : ℤ) (c : Call)
    (direction : DbOrderSide) : Prop where
  trade : ∀ t, DbWriter.tradeRow rt c = .ok t → t.side = direction
  writer : signDirection c.qtyDelta = some direction
  executor : signDirection (OrderExecutor.qtyDelta rt c.report) = some direction
  snapshot : signDirection (toPositionSnapshot nowMs c.report).qty = some direction
  sent : Router.orderQuery rt env c.order = "symbol=" ++ c.order.symbol ++ "&side=" ++
    direction.label ++ "&type=MARKET&quantity=" ++ rt.showF64 c.order.qty ++ "&timestamp=" ++
      toString env.timestamp

/-- The direction that is read where only BUY is looked for. -/
def sellUnlessBuy (side : ℤ) : DbOrderSide := if side = OrderSide.buy.code then .buy else .sell

/-- Looking for BUY and looking for SELL come to the same for these two sides only. -/
theorem mapSide_eq_sellUnlessBuy_iff {side : ℤ} : mapSide side = sellUnlessBuy side ↔
    side = OrderSide.buy.code ∨ side = OrderSide.sell.code := by
  rw [mapSide, sellUnlessBuy]
  rcases eq_or_ne side OrderSide.buy.code with rfl | hbuy
  · decide
  rcases eq_or_ne side OrderSide.sell.code with rfl | hsell
  · decide
  · rw [if_neg hsell, if_neg hbuy]
    exact iff_of_false (by decide) (by simp [hbuy, hsell])

/-! ### Signs -/

variable {rt : Runtime} {env : Router.Env} {nowMs : ℤ} {c : Call} {direction : DbOrderSide}
  {x : Binary64}

/-- A positive quantity denotes BUY, its negative SELL. -/
theorem signDirection_signed (hx : x.gt .zero = true) (p : Prop) [Decidable p] :
    signDirection (if p then x else x.neg) = some (if p then .buy else .sell) := by
  have hneg : x.neg.gt .zero = false ∧ x.neg.lt .zero = true := by
    cases x with
    | nan => simp [gt, lt, zero] at hx
    | inf s => simpa [gt, lt, neg, zero] using hx
    | fin q =>
        have hq : 0 < q := by simpa [gt, lt, zero] using hx
        simp [gt, lt, neg, zero, hq, hq.le]
  by_cases hp : p
  · rw [if_pos hp, if_pos hp, signDirection, if_pos hx]
  · rw [if_neg hp, if_neg hp, signDirection, hneg.1, hneg.2]
    rfl

/-- A product by `±1.0` is the quantity or its negative, when the rounding has both. -/
theorem mul_sign (hone : rt.fp.Represents (.fin 1)) (hx : rt.fp.Represents x) (p : Prop)
    [Decidable p] : rt.fp.mul x (if p then rt.fp.lit 1 else rt.fp.lit (-1)) =
      if p then x else x.neg := by
  have hlit : rt.fp.lit 1 = .fin 1 := hone 1 rfl
  have hneg : rt.fp.lit (-1) = .fin (-1) := by
    rw [Rounding.lit, rt.fp.round_neg, hone 1 rfl]
    rfl
  rw [hlit, hneg]
  cases x with
  | nan => split <;> rfl
  | inf s =>
      have hlt : ¬ (1 : ℚ) < 0 := by norm_num
      split <;> simp [Rounding.mul, neg, hlt]
  | fin q =>
      split
      · simpa [Rounding.mul] using hx q rfl
      · simpa [Rounding.mul, neg, rt.fp.round_neg] using congrArg neg (hx q rfl)

/-! ### The five places -/

/-- A report that the router builds has the side of its order. -/
theorem BuiltFor.side_eq {fp : Rounding} {order : OrderCommand} {report : ExecutionReport}
    (h : BuiltFor fp order report) : report.side = order.side := by
  cases h with
  | simulated now h =>
      rcases mem_buildReports h with ⟨t, reason, rfl⟩ | ⟨t, rfl⟩ | ⟨t, _, _, _, _, _, rfl⟩ <;> rfl
  | exchangeAck now ack => rfl
  | reject now reason => rfl
  | cancel now => rfl

/-- **What each place reads** of a side, for a positive quantity. -/
theorem readAs_iff (hside : c.report.side = c.order.side)
    (hqty : c.report.lastFilledQty.gt .zero = true) (hone : rt.fp.Represents (.fin 1))
    (hdouble : rt.fp.Represents c.report.lastFilledQty) : ReadAs rt env nowMs c direction ↔
      sellUnlessBuy c.order.side = direction ∧ mapSide c.order.side = direction := by
  have hwriter : signDirection c.qtyDelta = some (sellUnlessBuy c.order.side) :=
    signDirection_signed hqty _
  have hexecutor : signDirection (OrderExecutor.qtyDelta rt c.report) =
      some (sellUnlessBuy c.order.side) := by
    rw [OrderExecutor.qtyDelta, hside, mul_sign hone hdouble]
    exact signDirection_signed hqty _
  have hsnapshot : signDirection (toPositionSnapshot nowMs c.report).qty =
      some (mapSide c.order.side) := by
    have hneg := signDirection_signed hqty (¬ c.order.side = OrderSide.sell.code)
    rw [ite_not, ite_not] at hneg
    rw [mapSide, ← hneg, ← hside]
    rfl
  have hsent : Router.orderQuery rt env c.order = "symbol=" ++ c.order.symbol ++ "&side=" ++
      (sellUnlessBuy c.order.side).label ++ "&type=MARKET&quantity=" ++ rt.showF64 c.order.qty ++
        "&timestamp=" ++ toString env.timestamp := by
    rw [sellUnlessBuy, apply_ite DbOrderSide.label]
    rfl
  constructor
  · rintro ⟨-, h₂, -, h₄, -⟩
    exact ⟨Option.some.inj (hwriter.symm.trans h₂), Option.some.inj (hsnapshot.symm.trans h₄)⟩
  · rintro ⟨hbuy, hsell⟩
    refine ⟨fun t ht => ?_, by rw [hwriter, hbuy], by rw [hexecutor, hbuy],
      by rw [hsnapshot, hsell], by rw [hsent, hbuy]⟩
    rw [(DbWriter.tradeRow_spec ht).2.2.2.1, hsell]

/-- **The five places read one direction** exactly when the side is BUY or SELL. -/
theorem oneReading_iff (rt : Runtime) (env : Router.Env) (nowMs : ℤ) (c : Call)
    (hside : c.report.side = c.order.side) (hqty : c.report.lastFilledQty.gt .zero = true)
    (hone : rt.fp.Represents (.fin 1)) (hdouble : rt.fp.Represents c.report.lastFilledQty) :
    (∃ direction, ReadAs rt env nowMs c direction) ↔
      c.order.side = OrderSide.buy.code ∨ c.order.side = OrderSide.sell.code := by
  rw [← mapSide_eq_sellUnlessBuy_iff]
  constructor
  · rintro ⟨direction, h⟩
    obtain ⟨hbuy, hsell⟩ := (readAs_iff hside hqty hone hdouble).mp h
    rw [hsell, hbuy]
  · intro h
    exact ⟨_, (readAs_iff hside hqty hone hdouble).mpr ⟨rfl, h⟩⟩

/-- A filled order of one BTC with the given side. -/
def sampleFilled (side : ℤ) : Call :=
  let order := OrderCommand.sample "018f3c2e-0000-7000-8000-00000000000a" 1 side 1 1 60000
  .paper 0 order (buildFill Rounding.nearestEven 0 order .filled order.qty order.qty "-f1" 1)

/-- An order without a side is stored as a BUY whose fills lower the position. -/
theorem unspecified_not_oneReading : ¬ ∃ direction, ReadAs Runtime.reference
    (.sample (fun _ => .up) fun _ => .up) 0 (sampleFilled 0) direction := by
  rintro ⟨direction, h⟩
  have hwriter : signDirection (sampleFilled 0).qtyDelta = some .sell := by decide +kernel
  have hsnapshot :
      signDirection (toPositionSnapshot 0 (sampleFilled 0).report).qty = some .buy := by
    decide +kernel
  have hsell := Option.some.inj (hwriter.symm.trans h.writer)
  have hbuy := Option.some.inj (hsnapshot.symm.trans h.snapshot)
  exact absurd (hsell.trans hbuy.symm) (by decide)

/-- A SELL is read as one. -/
theorem sell_oneReading : ∃ direction, ReadAs Runtime.reference
    (.sample (fun _ => .up) fun _ => .up) 0 (sampleFilled 2) direction := by
  refine (oneReading_iff _ _ _ _ rfl (by decide +kernel) ?_ ?_).mpr (Or.inr rfl)
  · rintro q ⟨rfl⟩
    decide +kernel
  · rintro q ⟨rfl⟩
    decide +kernel

end HftPlatform
