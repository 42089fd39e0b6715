import HftPlatform.Positions
import Mathlib.Algebra.Order.BigOperators.Group.List

/-!
# Reduce-only commands

The gateway marks every order that exits or closes a position as reduce-only, and the writer
stores the mark and takes it for an exit. The simulation that fills the order does not read it:
it fills the whole quantity on the side of the order, whatever the account holds.

## Main results

* `held_of_filled`: a simulated order moves its position by the units of its legs.
* `reduceOnly_reduces_iff`: when a reduce-only order reduces.
-/

namespace HftPlatform

open Lib Router

/-- The quantities that the simulation fills. -/
def legs (fp : Rounding) (order : OrderCommand) : List Binary64 :=
  if order.qty.le .zero then []
  else if (partialQty fp order).lt order.qty then
    [partialQty fp order, fp.sub order.qty (partialQty fp order)]
  else [order.qty]

/-- The units that the writer stores for the legs of an order. -/
def legUnits (rt : Runtime) (order : OrderCommand) : ℤ :=
  ((legs rt.fp order).map (fillUnits rt)).sum

/-- The router is in PAPER mode, and the command is a CREATE that is marked reduce-only. -/
structure PaperExit (inv : Invocation) : Prop where
  paper : eqIgnoreAsciiCase inv.cfg.executionMode "PAPER" = true
  action : inv.order.action = OrderAction.create.code
  reduceOnly : inv.order.reduceOnly = true

/-- The absolute quantity does not grow and the sign does not change. -/
def Reduces (before after : Numeric) : Prop :=
  ∃ b a : ℤ, before = b ∧ after = a ∧ |a| ≤ |b| ∧ 0 ≤ b * a

/-- The order fills nothing, or it fills no more than the account holds, on the other side. -/
def CanReduce (rt : Runtime) (order : OrderCommand) (before : Numeric) : Prop :=
  legUnits rt order = 0 ∨ ∃ b : ℤ, before = b ∧ legUnits rt order ≤ |b| ∧
    if order.side = OrderSide.buy.code then b < 0 else 0 < b

variable {rt : Runtime} {order : OrderCommand}

theorem legUnits_nonneg (rt : Runtime) (order : OrderCommand) : 0 ≤ legUnits rt order :=
  List.sum_nonneg fun u hu => by
    obtain ⟨q, -, rfl⟩ := List.mem_map.mp hu
    exact fillUnits_nonneg rt q

theorem reduces_coe {b a : ℤ} : Reduces (b : Numeric) (a : Numeric) ↔ |a| ≤ |b| ∧ 0 ≤ b * a := by
  constructor
  · rintro ⟨b', a', hb, ha, h⟩
    rwa [WithTop.coe_inj.mp hb, WithTop.coe_inj.mp ha]
  · exact fun h => ⟨b, a, rfl, rfl, h⟩

/-- An acknowledgement moves nothing. -/
theorem reportUnits_buildAck (t : ℤ) : reportUnits rt order (buildAck t order) = 0 := rfl

/-- A leg moves the position by its units. -/
theorem reportUnits_buildFill (t : ℤ) {status : ExecutionStatus}
    (hstatus : status = .partiallyFilled ∨ status = .filled) (last cumulative : Binary64)
    (leg : String) (seq : ℤ) :
    reportUnits rt order (buildFill rt.fp t order status last cumulative leg seq) =
      direction order * fillUnits rt last := by
  rcases hstatus with rfl | rfl <;> rfl

/-- The reports of a simulated order move its position by the units of its legs. -/
theorem sum_reportUnits_buildReports (rt : Runtime) (order : OrderCommand) (clock : ℕ → ℤ) :
    ((buildReports rt.fp clock order).map (reportUnits rt order)).sum =
      direction order * legUnits rt order := by
  have hreject : ∀ t reason, reportUnits rt order (buildReject t order reason) = 0 := fun _ _ => rfl
  rw [buildReports, legUnits, legs]
  split
  · simp [hreject]
  · split
    · simp [reportUnits_buildAck, reportUnits_buildFill, mul_add]
    · simp [reportUnits_buildAck, reportUnits_buildFill]

/-- **A simulated order** all of whose reports are committed has moved its position by the units of
its legs. -/
theorem held_of_filled {inv : Invocation} {w w' : World} (hw' : w' ∈ inv.moments rt w)
    (hall : w'.committed = w.committed ++ buildReports rt.fp inv.env.clock inv.order) :
    w'.db.held inv.order.accountId inv.order.symbol =
      w.db.held inv.order.accountId inv.order.symbol +
        ((direction inv.order * legUnits rt inv.order : ℤ) : Numeric) := by
  obtain ⟨new, hnew, hheld⟩ := moved_moments hw'
  obtain rfl : new = buildReports rt.fp inv.env.clock inv.order :=
    List.append_cancel_left (hnew.symm.trans hall)
  rw [hheld, if_pos rfl, sum_reportUnits_buildReports]

/-- A move up by `e` units reduces `b` exactly when it is none, or `b` is negative and no
smaller than it. -/
theorem reduces_up_iff {b e : ℤ} (he : 0 ≤ e) :
    |b + e| ≤ |b| ∧ 0 ≤ b * (b + e) ↔ e = 0 ∨ e ≤ |b| ∧ b < 0 := by
  constructor
  · rintro ⟨habs, hsign⟩
    rcases he.eq_or_lt with rfl | hpos
    · exact Or.inl rfl
    · have hneg : b < 0 := by
        by_contra hb
        rw [abs_of_nonneg (by omega), abs_of_nonneg (by omega)] at habs
        omega
      have hle : b + e ≤ 0 := nonpos_of_mul_nonneg_right hsign hneg
      rw [abs_of_neg hneg]
      exact Or.inr ⟨by omega, hneg⟩
  · rintro (rfl | ⟨hle, hneg⟩)
    · rw [add_zero]
      exact ⟨le_rfl, mul_self_nonneg b⟩
    · rw [abs_of_neg hneg] at hle ⊢
      rw [abs_of_nonpos (by omega)]
      exact ⟨by omega, mul_nonneg_of_nonpos_of_nonpos hneg.le (by omega)⟩

/-- **When a reduce-only order reduces.** In every state that a run of commands reaches, a
reduce-only CREATE whose simulated reports are all persisted leaves the position no larger and
of the same sign if and only if it fills nothing, or fills no more than the account holds, on
the other side. -/
theorem reduceOnly_reduces_iff (rt : Runtime) (invocations : List Invocation) (inv : Invocation)
    (_ : PaperExit inv)
    (hall : (inv.perform rt (performAll rt {} invocations)).committed =
      (performAll rt {} invocations).committed ++ buildReports rt.fp inv.env.clock inv.order) :
    Reduces ((performAll rt {} invocations).db.held inv.order.accountId inv.order.symbol)
        ((inv.perform rt (performAll rt {} invocations)).db.held inv.order.accountId
          inv.order.symbol) ↔
      CanReduce rt inv.order
        ((performAll rt {} invocations).db.held inv.order.accountId inv.order.symbol) := by
  have hnumbered : Numbered (performAll rt {} invocations) :=
    Numbered.performAll (fun a s => ⟨0, rfl⟩) invocations
  obtain ⟨b, hb⟩ := hnumbered inv.order.accountId inv.order.symbol
  rw [held_of_filled (inv.perform_mem_moments _) hall, hb, ← WithTop.coe_add]
  have hup := reduces_up_iff (b := b) (legUnits_nonneg rt inv.order)
  have hdown := reduces_up_iff (b := -b) (legUnits_nonneg rt inv.order)
  rw [reduces_coe, direction]
  simp only [CanReduce, WithTop.coe_inj, exists_eq_left']
  by_cases hside : inv.order.side = OrderSide.buy.code
  · rw [if_pos hside, if_pos hside, one_mul]
    exact hup
  · rw [if_neg hside, if_neg hside]
    have habs : |b + -1 * legUnits rt inv.order| = |-b + legUnits rt inv.order| := by
      rw [← abs_neg]
      congr 1
      omega
    have hmul : b * (b + -1 * legUnits rt inv.order) =
        -b * (-b + legUnits rt inv.order) := by ring
    rw [habs, hmul, ← abs_neg b, hdown, abs_neg, neg_lt_zero]

/-- An exit of one unit, on the given side. -/
def exitInvocation (side : OrderSide) : Invocation where
  cfg := Config.paper
  client := none
  env := Env.sample (fun _ => .up) fun _ => .up
  order := { OrderCommand.sample "018f3c2e-0000-7000-8000-00000000000c" 1 side.code 1 1 60000 with
    reduceOnly := true }

theorem reduceOnly_reduces_iff_exit :
    Reduces ((performAll Runtime.reference {} []).db.held "paper-main" "BTCUSDT")
        (((exitInvocation .sell).perform Runtime.reference
          (performAll Runtime.reference {} [])).db.held "paper-main" "BTCUSDT") ↔
      CanReduce Runtime.reference (exitInvocation .sell).order
        ((performAll Runtime.reference {} []).db.held "paper-main" "BTCUSDT") :=
  reduceOnly_reduces_iff Runtime.reference [] (exitInvocation .sell) ⟨rfl, rfl, rfl⟩
    (by decide +kernel)

/-- Without a position, a reduce-only SELL of one unit opens a short one, with every report
persisted. -/
theorem exit_opens : PaperExit (exitInvocation .sell) ∧
    ((exitInvocation .sell).perform Runtime.reference {}).committed =
      buildReports Rounding.nearestEven (exitInvocation .sell).env.clock
        (exitInvocation .sell).order ∧
    ¬ Reduces (Db.held {} "paper-main" "BTCUSDT")
      (((exitInvocation .sell).perform Runtime.reference {}).db.held "paper-main" "BTCUSDT") := by
  have hafter :
      ((exitInvocation .sell).perform Runtime.reference {}).db.held "paper-main" "BTCUSDT" =
        ((-100000000 : ℤ) : Numeric) := by decide +kernel
  refine ⟨⟨rfl, rfl, rfl⟩, by decide +kernel, ?_⟩
  rw [hafter, show Db.held {} "paper-main" "BTCUSDT" = ((0 : ℤ) : Numeric) from rfl, reduces_coe]
  decide

end HftPlatform
