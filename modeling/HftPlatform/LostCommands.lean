import HftPlatform.Gateway
import HftPlatform.Router

/-!
# Commands that the dedup cache drops

The cache of the router is keyed by the client order id alone, and is marked before the
command is handled. A cancel carries the id of the order it cancels, and a redelivered command
carries its own, so both meet the mark of the command that came first.

## Main results

* `cancel_reaches_iff`: when a cancel of the gateway reaches `handle_order`.
* `retry_reaches_iff`: when the redelivery of a failed command does.
-/

namespace HftPlatform

open Lib Router

variable (rt : Runtime) (cfg : Router.Config) (w : World)

/-- **When a cancel reaches `handle_order`**: exactly when the router has handed over no command
with the id of the order within the time to live of its dedup cache. -/
theorem cancel_reaches_iff (pre : List Delivery) (d : Delivery) (request : Gateway.Request)
    (answers : Bool) (db : Db) (id : Uuid) (cancel : OrderCommand)
    (hcancel : Gateway.handleCancelOrder rt request false answers db id = .ok (some cancel))
    (hshow : rt.showUuid id ≠ "") (hd : d.message = .command cancel) :
    Reaches rt cfg w pre d cancel ↔ Rested rt cfg w pre d (rt.showUuid id) := by
  have hid := (Gateway.clientOrderId_of_cancel rt request hcancel).1
  rw [← hid] at hshow ⊢
  exact reaches_iff hd hshow

/-- An order that is stored and has no id of the exchange yet. -/
def storedOrder : OrderRow where
  clientOrderId := 0x018f3c2e00007000800000000000000a
  exchangeOrderId := none
  accountId := "paper-main"
  symbol := "BTCUSDT"
  side := .buy
  type := .limit
  tif := .gtc
  qty := ((100000000 : ℤ) : Numeric)
  price := some ((6000000000000 : ℤ) : Numeric)
  stopPrice := none
  takeProfitPrice := none
  coinTags := []
  status := .new
  filledQty := 0
  avgPrice := none
  reduceOnly := false
  traceId := none
  createdAt := 0
  updatedAt := 0

/-- The world in which the order is stored. -/
def storedWorld : World := { db := { orders := [storedOrder] } }

/-- The router consumes the order while its database cannot be reached, and commits nothing. -/
def restingRun : List Delivery :=
  [⟨0, .command (OrderCommand.sample "018f3c2e-0000-7000-8000-00000000000a" 1 1 2 1 60000),
    Env.sample (fun _ => .down) fun _ => .up⟩]

/-- The cancel that the gateway builds for the stored order. -/
def restingCancel : OrderCommand :=
  { OrderCommand.sample "018f3c2e-0000-7000-8000-00000000000a" 2 0 0 0 0 with
    tif := 0
    decisionReason := "Manual cancel via dashboard"
    traceId := "00000000-0000-0000-0000-000000000001"
    strategyId := "" }

/-- The cancel is delivered one second later. -/
def restingDelivery : Delivery :=
  ⟨1000000000, .command restingCancel, Env.sample (fun _ => .up) fun _ => .up⟩

/-- The router leaves the order as it is, and the gateway builds the cancel for it. -/
theorem restingCancel_built :
    (run Runtime.reference Config.paper storedWorld restingRun).1.world.db = storedWorld.db ∧
      Gateway.handleCancelOrder Runtime.reference ⟨0, 1, 0⟩ false true storedWorld.db
        0x018f3c2e00007000800000000000000a = .ok (some restingCancel) := by
  decide +kernel

theorem cancel_reaches_iff_resting :
    Reaches Runtime.reference Config.paper storedWorld restingRun restingDelivery restingCancel ↔
      Rested Runtime.reference Config.paper storedWorld restingRun restingDelivery
        "018f3c2e-0000-7000-8000-00000000000a" := by
  have hshow : Runtime.reference.showUuid 0x018f3c2e00007000800000000000000a =
      "018f3c2e-0000-7000-8000-00000000000a" := by decide +kernel
  rw [← hshow]
  exact cancel_reaches_iff _ _ _ _ _ ⟨0, 1, 0⟩ true storedWorld.db _ _ restingCancel_built.2
    (by rw [hshow]; decide) rfl

/-- The cancel of the stored order, delivered one second after the order, is dropped. -/
theorem cancel_dropped :
    (run Runtime.reference Config.paper storedWorld restingRun).1.world.db = storedWorld.db ∧
      Gateway.handleCancelOrder Runtime.reference ⟨0, 1, 0⟩ false true storedWorld.db
        0x018f3c2e00007000800000000000000a = .ok (some restingCancel) ∧
      ¬ Reaches Runtime.reference Config.paper storedWorld restingRun restingDelivery
        restingCancel := by
  refine ⟨restingCancel_built.1, restingCancel_built.2, ?_⟩
  rintro ⟨time, result, h⟩
  have hdropped : (step Runtime.reference Config.paper
      (run Runtime.reference Config.paper storedWorld restingRun).1 restingDelivery).2 =
        .duplicate restingCancel := by decide +kernel
  rw [hdropped] at h
  simp at h

/-- The delivery `d`, coming after `pre`, was handled at `time` and failed with the world left
as it was: nothing committed, published, or sent to the exchange. -/
def FailedClean (pre : List Delivery) (d : Delivery) (order : OrderCommand) (time : ℕ) : Prop :=
  ∃ e, (step rt cfg (run rt cfg w pre).1 d).2 = .handled order time (.error e) ∧
    (step rt cfg (run rt cfg w pre).1 d).1.world = (run rt cfg w pre).1.world

variable {rt cfg w}

/-- A handled delivery is among the handled calls from then on. -/
theorem mem_handledCalls {pre mid : List Delivery} {d : Delivery} {order : OrderCommand}
    {time : ℕ} {result : Except HandleError Unit}
    (h : (step rt cfg (run rt cfg w pre).1 d).2 = .handled order time result) :
    (order.clientOrderId, time) ∈ handledCalls (run rt cfg w (pre ++ d :: mid)).2 := by
  rw [Router.run, Machine.run_append]
  refine List.mem_filterMap.mpr ⟨.handled order time result, ?_, rfl⟩
  refine List.mem_append_right _ ?_
  rw [Machine.run, ← h]
  exact List.mem_cons_self

variable (rt cfg w)

/-- **When a failed command can be retried**: the redelivery of a command that failed with the
world left as it was is handled exactly when the router has handed over no command with its id
within the time to live of its dedup cache. The failed attempt itself counts. -/
theorem retry_reaches_iff (pre mid : List Delivery) (d retry : Delivery) (order : OrderCommand)
    (time : ℕ) (hfailed : FailedClean rt cfg w pre d order time)
    (hretry : retry.message = .command order) :
    (Reaches rt cfg w (pre ++ d :: mid) retry order ↔
        Rested rt cfg w (pre ++ d :: mid) retry order.clientOrderId) ∧
      ((run rt cfg w (pre ++ d :: mid)).1.now + retry.delay - time ≤ ttl →
        ¬ Reaches rt cfg w (pre ++ d :: mid) retry order) := by
  obtain ⟨e, hfailed, -⟩ := hfailed
  have hiff : Reaches rt cfg w (pre ++ d :: mid) retry order ↔
      Rested rt cfg w (pre ++ d :: mid) retry order.clientOrderId :=
    reaches_iff hretry (message_of_handled hfailed).2
  refine ⟨hiff, fun hsoon hreach => ?_⟩
  have hrested := hiff.mp hreach time (mem_handledCalls hfailed)
  omega

/-- A BUY whose first transaction fails, because the database cannot be reached. -/
def failedDelivery : Delivery :=
  ⟨0, .command (OrderCommand.sample "018f3c2e-0000-7000-8000-00000000000a" 1 1 2 1 60000),
    Env.sample (fun _ => .down) fun _ => .up⟩

/-- The same command, one second later, with the database back. -/
def retryDelivery : Delivery :=
  ⟨1000000000, failedDelivery.message, Env.sample (fun _ => .up) fun _ => .up⟩

theorem retry_reaches_iff_failedDelivery :
    (Reaches Runtime.reference Config.paper {} [failedDelivery] retryDelivery
          (OrderCommand.sample "018f3c2e-0000-7000-8000-00000000000a" 1 1 2 1 60000) ↔
        Rested Runtime.reference Config.paper {} [failedDelivery] retryDelivery
          "018f3c2e-0000-7000-8000-00000000000a") ∧
      ((run Runtime.reference Config.paper {} [failedDelivery]).1.now + 1000000000 - 0 ≤ ttl →
        ¬ Reaches Runtime.reference Config.paper {} [failedDelivery] retryDelivery
          (OrderCommand.sample "018f3c2e-0000-7000-8000-00000000000a" 1 1 2 1 60000)) :=
  retry_reaches_iff _ _ _ [] [] failedDelivery retryDelivery _ 0
    ⟨.persist none, by decide +kernel, by decide +kernel⟩ rfl

/-- The redelivery of the failed command is dropped. -/
theorem retry_dropped :
    FailedClean Runtime.reference Config.paper {} [] failedDelivery
        (OrderCommand.sample "018f3c2e-0000-7000-8000-00000000000a" 1 1 2 1 60000) 0 ∧
      ¬ Reaches Runtime.reference Config.paper {} [failedDelivery] retryDelivery
        (OrderCommand.sample "018f3c2e-0000-7000-8000-00000000000a" 1 1 2 1 60000) := by
  refine ⟨⟨.persist none, by decide +kernel, by decide +kernel⟩, ?_⟩
  rintro ⟨time, result, h⟩
  have hdropped : (step Runtime.reference Config.paper
      (run Runtime.reference Config.paper {} [failedDelivery]).1 retryDelivery).2 =
        .duplicate (OrderCommand.sample "018f3c2e-0000-7000-8000-00000000000a" 1 1 2 1 60000) := by
    decide +kernel
  rw [hdropped] at h
  simp at h

end HftPlatform
