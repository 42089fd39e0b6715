import HftPlatform.RiskRoute

/-!
# The risk gate on the wire

The topics of orders carry bytes. `risk_guard/src/main.rs` decodes what it reads, checks the order,
and encodes it again for the router, which `consumers/order_commands.rs` decodes once more. Bytes
that are no order are skipped. A producer may put any bytes on the topic of the risk guard.

`Deployment` follows the orders themselves. Here the log holds payloads, and what the processes do
with them is what `Deployment` does with the orders that they hold. A router that reads a payload
that is no order does nothing, but its time passes. How orders are written and read is left to the
codec of the messages.

## Main results

* `wire_refines`: every run on payloads is a run on orders.
* `wire_gated`: what is handled was approved, whatever payloads are produced.
-/

namespace HftPlatform

open Lib

/-! ### The orders that payloads hold -/

/-- `to_bytes` and `from_bytes` of `libs/rust/hft_proto/src/encode.rs`, for an order. -/
structure OrderCodec where
  toBytes : OrderCommand → List UInt8
  fromBytes : List UInt8 → Option OrderCommand

namespace OrderCodec

/-- An order that has been read is read back from the bytes that are written for it. -/
def ReadsBack (codec : OrderCodec) : Prop :=
  ∀ payload order, codec.fromBytes payload = some order →
    codec.fromBytes (codec.toBytes order) = some order

/-- `decode_order_command` -/
def decodeOrderCommand (codec : OrderCodec) (payload : List UInt8) : Option OrderCommand :=
  codec.fromBytes payload

end OrderCodec

/-! ### The log of payloads -/

namespace Deployment

open Router (Link)

/-- A step of one of the processes, or of the operator of the kill switch. -/
inductive WireAction
  /-- A producer puts bytes on the topic of the risk guard. -/
  | submit (payload : List UInt8) (broker : Link)
  | setKill (on : Bool)
  /-- A turn of the risk guard on an entry of the log. -/
  | check (entry : ℕ) (redis : Bool) (killAccount : Except Unit Bool)
      (dynamic : RiskGuard.DynamicLimits) (broker : Link)
  /-- A turn of the router on an entry of the log. -/
  | route (entry : ℕ) (delay : ℕ) (env : Router.Env)

/-- The log of payloads by topic, the global kill switch, and the state of the router. -/
structure WireState where
  log : List (String × List UInt8) := []
  kill : Bool := false
  router : Router.State

variable (d : Deployment) (codec : OrderCodec)

/-- The log after a payload is published. -/
def publishPayload (topic : String) (payload : List UInt8) (broker : Link)
    (log : List (String × List UInt8)) : List (String × List UInt8) :=
  if d.accepts topic = true ∧ broker ≠ .down then log ++ [(topic, payload)] else log

/-- What the router's loop is given for a payload. -/
def routerMessage (payload : List UInt8) : Router.Message :=
  match codec.decodeOrderCommand payload with
  | some order => .command order
  | none => .undecodable

/-- One step. A process that cannot load its configuration does not start. -/
def wireStep (s : WireState) : WireAction → WireState × Event
  | .submit payload broker =>
      ({ s with
          log := d.publishPayload (RiskGuard.topicOrders d.environment) payload broker s.log },
        .none)
  | .setKill on => ({ s with kill := on }, .none)
  | .check entry redis killAccount dynamic broker =>
      match RiskGuard.Config.fromEnv d.rt d.environment, s.log[entry]? with
      | some cfg, some (topic, payload) =>
          if topic = cfg.kafkaTopicOrders then
            match codec.fromBytes payload with
            | none => (s, .none)
            | some order =>
                match (RiskGuard.runGates d.rt cfg dynamic
                  (if redis then .ok s.kill else .error ()) killAccount order).2 with
                | .approved =>
                    let log := d.publishPayload cfg.kafkaTopicOrdersApproved
                      (codec.toBytes order) broker s.log
                    ({ s with log }, .approved order)
                | .rejected _ _ => (s, .none)
          else (s, .none)
      | _, _ => (s, .none)
  | .route entry delay env =>
      match Router.Config.fromEnv d.environment d.readFile, s.log[entry]? with
      | .ok cfg, some (topic, payload) =>
          if topic = cfg.kafkaTopicOrderCommands then
            match Router.step d.rt cfg s.router ⟨delay, routerMessage codec payload, env⟩ with
            | (router, .handled order _ _) => ({ s with router }, .handled order)
            | (router, _) => ({ s with router }, .none)
          else (s, .none)
      | _, _ => (s, .none)

/-- The state and the events after a list of steps, in the world the router finds. -/
def wireRun (w : Router.World) (actions : List WireAction) : WireState × List Event :=
  Machine.run (d.wireStep codec) { router := Router.State.init w } actions

/-! ### What the payloads hold -/

/-- The entry of the log of orders for one of the log of payloads. -/
def decodeEntry (entry : String × List UInt8) : Option (String × OrderCommand) :=
  (codec.decodeOrderCommand entry.2).map fun order => (entry.1, order)

/-- The log of payloads holds the orders, and the router of the payloads is ahead in time by what
it spent on payloads that hold none. -/
structure Holds (s : State) (t : WireState) : Prop where
  log : s.log = t.log.filterMap (decodeEntry codec)
  kill : s.kill = t.kill
  router : ∃ ahead, t.router = { s.router with now := s.router.now + ahead }

variable {d codec} {s : State} {t : WireState}

/-- The order of a payload in the log is in the log of orders. -/
theorem Holds.getElem? (h : Holds codec s t) {entry : ℕ} {topic : String} {payload : List UInt8}
    {order : OrderCommand} (hentry : t.log[entry]? = some (topic, payload))
    (horder : codec.decodeOrderCommand payload = some order) :
    ∃ entry' : ℕ, s.log[entry']? = some (topic, order) := by
  rw [h.log]
  refine List.mem_iff_getElem?.mp (List.mem_filterMap.mpr ⟨_, List.mem_of_getElem? hentry, ?_⟩)
  rw [decodeEntry, horder, Option.map_some]

/-- Publishing a payload publishes its order, if it holds one. -/
theorem filterMap_publishPayload (d : Deployment) (codec : OrderCodec) (topic : String)
    (payload : List UInt8) (broker : Link) (log : List (String × List UInt8)) :
    (d.publishPayload topic payload broker log).filterMap (decodeEntry codec) =
      match codec.decodeOrderCommand payload with
      | some order => d.publish topic order broker (log.filterMap (decodeEntry codec))
      | none => log.filterMap (decodeEntry codec) := by
  rw [publishPayload]
  cases horder : codec.decodeOrderCommand payload with
  | none =>
      split
      · simp [decodeEntry, horder]
      · rfl
  | some order =>
      simp only [publish]
      split
      · simp [decodeEntry, horder]
      · rfl

/-- A router that is ahead in time does what the other one does after waiting. -/
theorem step_ahead (rt : Runtime) (cfg : Router.Config) (s : Router.State) (ahead delay : ℕ)
    (message : Router.Message) (env : Router.Env) :
    Router.step rt cfg { s with now := s.now + ahead } ⟨delay, message, env⟩ =
      Router.step rt cfg s ⟨ahead + delay, message, env⟩ := by
  simp only [Router.step, Nat.add_assoc]

/-- The step neither turns the kill switch off nor misses it because Redis does not answer. -/
def WireAction.KeepsKill : WireAction → Prop
  | .setKill on => on = true
  | .check _ redis _ _ _ => redis = true
  | _ => True

/-- **The orders follow each step of the payloads**, and keep the kill switch on where these do. -/
theorem Holds.follow (d : Deployment) (hcodec : codec.ReadsBack) (h : Holds codec s t)
    (a : WireAction) :
    ∃ b : Action, b.NotEmit ∧ (s.kill = true → a.KeepsKill → b.KeepsKill) ∧
      (d.step s b).2 = (d.wireStep codec t a).2 ∧
        Holds codec (d.step s b).1 (d.wireStep codec t a).1 := by
  -- Setting the kill switch to what it is does nothing.
  have hidle : ∀ t', Holds codec s t' → ∃ b : Action, b.NotEmit ∧
      (s.kill = true → a.KeepsKill → b.KeepsKill) ∧ (d.step s b).2 = .none ∧
        Holds codec (d.step s b).1 t' :=
    fun t' h' => ⟨.setKill s.kill, trivial, fun hkill _ => hkill, rfl, h'⟩
  cases a with
  | submit payload broker =>
      have hlog := filterMap_publishPayload d codec (RiskGuard.topicOrders d.environment) payload
        broker t.log
      cases horder : codec.decodeOrderCommand payload with
      | none =>
          rw [horder] at hlog
          exact hidle _ ⟨h.log.trans hlog.symm, h.kill, h.router⟩
      | some order =>
          rw [horder, ← h.log] at hlog
          exact ⟨.submit order broker, trivial, fun _ _ => trivial, rfl, hlog.symm, h.kill,
            h.router⟩
  | setKill on => exact ⟨.setKill on, trivial, fun _ hkeeps => hkeeps, rfl, h.log, rfl, h.router⟩
  | check entry redis killAccount dynamic broker =>
      rw [wireStep]
      split
      · rename_i cfg topic payload hcfg hentry
        split
        · rename_i htopic
          split
          · exact hidle t h
          · rename_i order horder
            have hback : codec.decodeOrderCommand (codec.toBytes order) = some order :=
              hcodec payload order horder
            obtain ⟨entry', hentry'⟩ := h.getElem? hentry horder
            split
            · rename_i hgates
              have hlog := filterMap_publishPayload d codec cfg.kafkaTopicOrdersApproved
                (codec.toBytes order) broker t.log
              rw [hback, ← h.log] at hlog
              refine ⟨.check entry' redis killAccount dynamic broker, trivial,
                fun _ hkeeps => hkeeps, ?_⟩
              simp only [step, hcfg, hentry', if_pos htopic, h.kill, hgates]
              exact ⟨trivial, hlog.symm, rfl, h.router⟩
            · exact hidle t h
        · exact hidle t h
      · exact hidle t h
  | route entry delay env =>
      obtain ⟨ahead, hahead⟩ := h.router
      rw [wireStep]
      split
      · rename_i cfg topic payload hcfg hentry
        split
        · rename_i htopic
          rw [hahead, step_ahead, routerMessage]
          cases horder : codec.decodeOrderCommand payload with
          | none =>
              -- The payload holds no order, and the router only spends the time.
              exact hidle _ ⟨h.log, h.kill, ahead + delay, rfl⟩
          | some order =>
              obtain ⟨entry', hentry'⟩ := h.getElem? hentry horder
              refine ⟨.route entry' (ahead + delay) env, trivial, fun _ _ => trivial, ?_⟩
              simp only [step, hcfg, hentry', if_pos htopic]
              cases Router.step d.rt cfg s.router ⟨ahead + delay, .command order, env⟩ with
              | mk router event =>
                  cases event <;> exact ⟨rfl, h.log, h.kill, 0, rfl⟩
        · exact hidle t h
      · exact hidle t h

theorem holds_init (codec : OrderCodec) (w : Router.World) :
    Holds codec { router := Router.State.init w } { router := Router.State.init w } :=
  ⟨rfl, rfl, 0, rfl⟩

/-- The orders follow each run of the payloads. -/
theorem holds_run (d : Deployment) (hcodec : codec.ReadsBack) (w : Router.World)
    (actions : List WireAction) :
    ∃ actions' : List Action, (∀ a ∈ actions', a.NotEmit) ∧
      (d.run w actions').2 = (d.wireRun codec w actions).2 ∧
        Holds codec (d.run w actions').1 (d.wireRun codec w actions).1 := by
  have hstep : ∀ s t (a : WireAction), True → Holds codec s t → ∃ b : Action, b.NotEmit ∧
      (d.step s b).2 = (d.wireStep codec t a).2 ∧
        Holds codec (d.step s b).1 (d.wireStep codec t a).1 := by
    intro s t a _ h
    obtain ⟨b, hb, -, hnext⟩ := h.follow d hcodec a
    exact ⟨b, hb, hnext⟩
  exact Machine.exists_run_of_simulates hstep (holds_init codec w) actions fun _ _ => trivial

/-- While the kill switch is on, they follow with steps that leave it on. -/
theorem Holds.run_kill (d : Deployment) (hcodec : codec.ReadsBack) (h : Holds codec s t)
    (hkill : s.kill = true) {actions : List WireAction} (hkeeps : ∀ a ∈ actions, a.KeepsKill) :
    ∃ actions' : List Action, (∀ a ∈ actions', a.NotEmit ∧ a.KeepsKill) ∧
      (Machine.run d.step s actions').2 = (Machine.run (d.wireStep codec) t actions).2 := by
  have hstep : ∀ s t (a : WireAction), a.KeepsKill → (Holds codec s t ∧ s.kill = true) →
      ∃ b : Action, (b.NotEmit ∧ b.KeepsKill) ∧ (d.step s b).2 = (d.wireStep codec t a).2 ∧
        Holds codec (d.step s b).1 (d.wireStep codec t a).1 ∧ (d.step s b).1.kill = true := by
    rintro s t a ha ⟨h, hkill⟩
    obtain ⟨b, hb, hkeeps, hevent, hnext⟩ := h.follow d hcodec a
    exact ⟨b, ⟨hb, hkeeps hkill ha⟩, hevent, hnext,
      (step_spec d s b).kill_on (hkeeps hkill ha) hkill⟩
  obtain ⟨actions', hallowed, hevents, -⟩ :=
    Machine.exists_run_of_simulates hstep ⟨h, hkill⟩ actions hkeeps
  exact ⟨actions', hallowed, hevents⟩

/-- **The gate on the wire is the gate on orders**: whatever bytes the producers put on the topic of
the risk guard, and in whatever order the processes take their turns, there is a run on orders with
the same approvals and the same orders handled, and its log is what the payloads hold. -/
theorem wire_refines (d : Deployment) (codec : OrderCodec) (hcodec : codec.ReadsBack)
    (w : Router.World) (actions : List WireAction) :
    ∃ actions' : List Action, (∀ a ∈ actions', a.NotEmit) ∧
      (d.run w actions').2 = (d.wireRun codec w actions).2 ∧
        Holds codec (d.run w actions').1 (d.wireRun codec w actions).1 :=
  holds_run d hcodec w actions

/-- The default settings, with the numbers that the risk guard reads by default. -/
def limited : Deployment :=
  { defaults with
    rt := { Runtime.reference with
      parseF64 := fun s => if s = "5000" then some (.fin 5000)
        else if s = "5.0" then some (.fin 5) else none } }

/-- The bytes of the first order of the strategy engine. -/
def firstPayload : List UInt8 := [
  0x0a, 0x0a, 0x70, 0x61, 0x70, 0x65, 0x72, 0x2d, 0x6d, 0x61, 0x69, 0x6e, 0x12, 0x07, 0x42,
  0x54, 0x43, 0x55, 0x53, 0x44, 0x54, 0x1a, 0x24, 0x30, 0x30, 0x30, 0x30, 0x30, 0x30, 0x30,
  0x30, 0x2d, 0x30, 0x30, 0x30, 0x30, 0x2d, 0x30, 0x30, 0x30, 0x30, 0x2d, 0x30, 0x30, 0x30,
  0x30, 0x2d, 0x30, 0x30, 0x30, 0x30, 0x30, 0x30, 0x30, 0x30, 0x30, 0x30, 0x30, 0x32, 0x20,
  0x01, 0x28, 0x02, 0x30, 0x01, 0x39, 0x7b, 0x14, 0xae, 0x47, 0xe1, 0x7a, 0x84, 0x3f, 0x41,
  0x00, 0x00, 0x00, 0x00, 0x00, 0x46, 0xee, 0x40, 0x5a, 0x0b, 0x6d, 0x61, 0x6e, 0x75, 0x61,
  0x6c, 0x2d, 0x74, 0x65, 0x73, 0x74, 0x62, 0x24, 0x30, 0x30, 0x30, 0x30, 0x30, 0x30, 0x30,
  0x30, 0x2d, 0x30, 0x30, 0x30, 0x30, 0x2d, 0x30, 0x30, 0x30, 0x30, 0x2d, 0x30, 0x30, 0x30,
  0x30, 0x2d, 0x30, 0x30, 0x30, 0x30, 0x30, 0x30, 0x30, 0x30, 0x30, 0x30, 0x30, 0x31, 0x70,
  0x01, 0x78, 0x01, 0x82, 0x01, 0x0b, 0x6d, 0x61, 0x6e, 0x75, 0x61, 0x6c, 0x2d, 0x74, 0x65,
  0x73, 0x74]

/-- A codec that knows these bytes. -/
def firstCodec : OrderCodec where
  toBytes order := if order = firstOrder then firstPayload else []
  fromBytes payload := if payload = firstPayload then some firstOrder else none

theorem firstCodec_readsBack : firstCodec.ReadsBack := by
  intro payload order h
  simp only [firstCodec, Option.ite_none_right_eq_some, Option.some.injEq] at h
  obtain ⟨-, rfl⟩ := h
  simp [firstCodec]

/-- The order is submitted after bytes that are none, checked, and routed. -/
def firstActions : List WireAction :=
  [.submit [0xff] .up, .submit firstPayload .up, .check 0 true (.ok false) {} .up,
    .check 1 true (.ok false) {} .up, .route 2 0 answered]

theorem wire_refines_firstActions :
    ∃ actions' : List Action, (∀ a ∈ actions', a.NotEmit) ∧
      (limited.run {} actions').2 =
        [.none, .none, .none, .approved firstOrder, .handled firstOrder] ∧
          Holds firstCodec (limited.run {} actions').1
            (limited.wireRun firstCodec {} firstActions).1 := by
  have hevents : (limited.wireRun firstCodec {} firstActions).2 =
      [.none, .none, .none, .approved firstOrder, .handled firstOrder] := by decide +kernel
  rw [← hevents]
  exact wire_refines limited firstCodec firstCodec_readsBack {} firstActions

end Deployment

end HftPlatform
