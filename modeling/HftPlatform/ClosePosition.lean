import HftPlatform.Gateway
import HftPlatform.Ledger
import HftPlatform.Router

/-!
# Closing a position

The writer keeps the direction of a position in the sign of its quantity, in a row of side
BOTH. The gateway reads the direction off the side column and takes the quantity for a
magnitude, so it closes every such position with a BUY of the signed quantity, which enlarges
a long position and is rejected for a short one.

## Main results

* `position_le_of_buy`: no call for a BUY decreases a position.
* `close_leaves_open`: the command that the gateway builds to close a position never does.
-/

namespace HftPlatform

open Lib DbWriter Router

variable {rt : Runtime}

/-- **A call for a BUY** decreases no position. -/
theorem position_le_of_buy {c : Call} {db db' : Db} (hbuy : c.order.side = OrderSide.buy.code)
    (h : persistExecution rt c db = .ok db') {a s : String} {row : PositionRow}
    (hrow : db.position a s = some row) :
    ∃ row', db'.position a s = some row' ∧ row.qty ≤ row'.qty := by
  obtain ⟨-, ⟨hfill, heffect⟩ | ⟨-, heffect⟩⟩ := persistExecution_ok_iff.mp h
  · obtain ⟨p, hp, ⟨p', hp', hcases⟩, hother⟩ := heffect.position
    by_cases hkey : (a, s) = (c.order.accountId, c.order.symbol)
    · obtain ⟨rfl, rfl⟩ := Prod.mk.inj hkey
      refine ⟨p', hp', ?_⟩
      rcases hcases with ⟨hnone, -⟩ | ⟨old, hold, hm⟩
      · simp [hrow] at hnone
      · obtain rfl : row = old := Option.some.inj (hrow.symm.trans hold)
        obtain ⟨q, hq, rfl⟩ := mergePosition_ok_iff.mp hm
        have hqty := (positionRow_spec hp).2.1
        rw [Call.qtyDelta, if_pos hbuy] at hqty
        rw [Call.isFill, Bool.and_eq_true] at hfill
        obtain ⟨u, hu, hpu⟩ := Numeric.ofFloat8_nonneg (Binary64.nonneg_of_zero_lt hfill.2) hqty
        rw [(Numeric.add_eq_ok_iff.mp hq).2, hpu]
        exact le_add_of_nonneg_right (by exact_mod_cast hu)
    · exact ⟨row, (hother a s hkey).trans hrow, le_rfl⟩
  · exact ⟨row, by rw [Db.position, heffect.positions]; exact hrow, le_rfl⟩

/-- A call that is no fill leaves every position alone. -/
theorem position_of_not_fill {c : Call} {db db' : Db} (hfill : c.isFill = false)
    (h : persistExecution rt c db = .ok db') (a s : String) :
    db'.position a s = db.position a s := by
  obtain ⟨-, ⟨hfill', -⟩ | ⟨-, heffect⟩⟩ := persistExecution_ok_iff.mp h
  · simp [hfill] at hfill'
  · rw [Db.position, heffect.positions, Db.position]

/-- The command that closes a one-way position is a BUY of its signed quantity. -/
theorem close_spec {request : Gateway.Request} {row : PositionRow} {cmd : OrderCommand}
    (hside : row.side = .both)
    (h : Gateway.handleClosePosition rt request (.ok (some row)) = .ok cmd) :
    ∃ u : ℤ, row.qty = u ∧ cmd.side = OrderSide.buy.code ∧
      cmd.action = OrderAction.create.code ∧
      cmd.qty = (rt.decimalToF64 (u / 10 ^ 8)).getD .zero := by
  rw [Gateway.handleClosePosition] at h
  split at h
  · simp at h
  · rename_i u hu
    obtain rfl := Except.ok.inj h
    exact ⟨u, hu, by simp [hside], rfl, rfl⟩

/-- **The gateway's close never closes.** Whatever the position, the environment and the state
of the world, the command that the gateway builds to close a one-way position that is not
empty leaves it not empty, provided that the conversion from decimals keeps the sign. -/
theorem close_leaves_open (rt : Runtime)
    (hsign : ∀ q : ℚ, q ≤ 0 → ((rt.decimalToF64 q).getD .zero).le .zero = true)
    (cfg : Router.Config) (env : Env) (w : World) (request : Gateway.Request)
    (accountId symbol : String) (row : PositionRow) (cmd : OrderCommand)
    (hmode : eqIgnoreAsciiCase cfg.executionMode "PAPER" = true)
    (hrow : w.db.position accountId symbol = some row) (hqty : row.qty ≠ 0)
    (hcmd : Gateway.handleClosePosition rt request (.ok (some row)) = .ok cmd) :
    ∃ row', (handleOrder rt cfg env (buildBinanceClient cfg) cmd w).1.db.position accountId symbol
        = some row' ∧ row'.qty ≠ 0 := by
  have hside : row.side = .both := congrArg (fun k => k.2.2) (key_of_lookup hrow)
  obtain ⟨u, hu, hbuy, haction, hcqty⟩ := close_spec hside hcmd
  have hu0 : u ≠ 0 := by
    rintro rfl
    exact hqty hu
  rw [handleOrder, if_pos hmode, if_neg (by rw [haction]; decide)]
  rcases lt_or_gt_of_ne hu0 with hneg | hpos
  · -- A short position: the quantity is not positive, and the order is rejected.
    have hle : cmd.qty.le .zero = true := by
      rw [hcqty]
      refine hsign _ (div_nonpos_of_nonpos_of_nonneg ?_ (by norm_num))
      exact_mod_cast hneg.le
    rw [buildReports_of_reject hle]
    refine ⟨row, ?_, hqty⟩
    refine emitAll_induction (P := fun w' => w'.db.position accountId symbol = some row) ?_ hrow
    intro report hreport i w' db published hw' hok
    obtain rfl := List.mem_singleton.mp hreport
    rw [← hw']
    exact position_of_not_fill rfl hok accountId symbol
  · -- A long position: every fill is a BUY, and the position can only grow.
    have hgrow : ∃ row', (emitAll rt cfg env 0 cmd (buildReports rt.fp env.clock cmd)
        w).1.db.position accountId symbol = some row' ∧ row.qty ≤ row'.qty := by
      refine emitAll_induction
        (P := fun w' => ∃ row', w'.db.position accountId symbol = some row' ∧ row.qty ≤ row'.qty)
        ?_ ⟨row, hrow, le_rfl⟩
      rintro report - i w' db published ⟨row', hrow', hle⟩ hok
      obtain ⟨row'', hrow'', hle'⟩ := position_le_of_buy hbuy hok hrow'
      exact ⟨row'', hrow'', hle.trans hle'⟩
    obtain ⟨row', hrow', hle⟩ := hgrow
    refine ⟨row', hrow', fun h0 => ?_⟩
    rw [h0, hu] at hle
    exact absurd hle (by exact_mod_cast not_le.mpr hpos)

/-- The world after an order of one unit that the router has filled. -/
def openedWorld (side : OrderSide) : World :=
  (handleOrder Runtime.reference Config.paper (Env.sample (fun _ => .up) fun _ => .up) none
    (OrderCommand.sample "018f3c2e-0000-7000-8000-00000000000a" 1 side.code 1 1 60000) {}).1

/-- The command that closes a position of the given quantity. -/
def closeCommand (qty : ℚ) : OrderCommand :=
  { OrderCommand.sample "018f3c2e-0000-7000-8000-00000000000b" 1 1 1 qty 0 with
    reduceOnly := true
    decisionReason := "Manual Market Close via Dashboard"
    traceId := "00000000-0000-0000-0000-000000000001"
    strategyId := "manual-dashboard" }

/-- What a request reads, with the ids of the command above. -/
def closeRequest : Gateway.Request := ⟨0x018f3c2e00007000800000000000000b, 1, 0⟩

/-- The environment in which the command is handled; its clock is ahead of the first order's. -/
def closeEnv : Env := { Env.sample (fun _ => .up) fun _ => .up with clock := fun i => i + 100 }

/-- A bought unit is held as one unit, and the command that closes it buys one unit. -/
theorem openedWorld_buy :
    (((openedWorld .buy).db.position "paper-main" "BTCUSDT").map fun row => (row.qty,
        Gateway.handleClosePosition Runtime.reference closeRequest (.ok (some row)))) =
      some (((100000000 : ℤ) : Numeric), .ok (closeCommand 1)) := by
  decide +kernel

theorem close_leaves_open_long : ∃ row,
    (openedWorld .buy).db.position "paper-main" "BTCUSDT" = some row ∧
      Gateway.handleClosePosition Runtime.reference closeRequest (.ok (some row)) =
        .ok (closeCommand 1) ∧
      ∃ row', (handleOrder Runtime.reference Config.paper closeEnv
        (buildBinanceClient Config.paper) (closeCommand 1) (openedWorld .buy)).1.db.position
          "paper-main" "BTCUSDT" = some row' ∧ row'.qty ≠ 0 := by
  obtain ⟨row, hrow, hpair⟩ := Option.map_eq_some_iff.mp openedWorld_buy
  obtain ⟨hqty, hcmd⟩ := Prod.mk.inj hpair
  exact ⟨row, hrow, hcmd, close_leaves_open Runtime.reference
    (fun q hq => Rounding.nearestEven.round_le_zero hq) Config.paper closeEnv _ closeRequest
    "paper-main" "BTCUSDT" row _ rfl hrow (by rw [hqty]; decide) hcmd⟩

/-- Closing a long position of one unit leaves one of two units, and closing a short position of
one unit leaves it as it is, with every report persisted. -/
theorem close_misses :
    (((openedWorld .buy).db.position "paper-main" "BTCUSDT").map fun row => (row.qty,
          Gateway.handleClosePosition Runtime.reference closeRequest (.ok (some row)))) =
        some (((100000000 : ℤ) : Numeric), .ok (closeCommand 1)) ∧
      (handleOrder Runtime.reference Config.paper closeEnv none (closeCommand 1)
          (openedWorld .buy)).2 = .ok () ∧
      (((handleOrder Runtime.reference Config.paper closeEnv none (closeCommand 1)
          (openedWorld .buy)).1.db.position "paper-main" "BTCUSDT").map PositionRow.qty) =
        some ((200000000 : ℤ) : Numeric) ∧
      (((openedWorld .sell).db.position "paper-main" "BTCUSDT").map fun row => (row.qty,
          Gateway.handleClosePosition Runtime.reference closeRequest (.ok (some row)))) =
        some (((-100000000 : ℤ) : Numeric), .ok (closeCommand (-1))) ∧
      (handleOrder Runtime.reference Config.paper closeEnv none (closeCommand (-1))
          (openedWorld .sell)).2 = .ok () ∧
      (((handleOrder Runtime.reference Config.paper closeEnv none (closeCommand (-1))
          (openedWorld .sell)).1.db.position "paper-main" "BTCUSDT").map PositionRow.qty) =
        some ((-100000000 : ℤ) : Numeric) := by
  refine ⟨openedWorld_buy, ?_⟩
  decide +kernel

end HftPlatform
