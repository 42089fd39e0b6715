import HftPlatform.RiskGuard
import HftPlatform.Router
import HftPlatform.StrategyEngine

/-!
# The way around the risk gate

The strategy engine, the risk guard and the execution router run side by side on one log of
messages. Every process resolves its topics from the same environment. The risk guard reads
one topic, and forwards what `run_gates` approves to another; the router hands what it reads
to `handle_order`. Orders of other producers enter on the topic of the risk guard.

The strategy engine resolves the topic it publishes to from the variables of the router's
topic. Whatever they are set to, its orders enter the log behind the gate.

Entries of the log may be read late, in any order, and again. Reports travel on topics of
their own and are left out.

## Main results

* `step_spec`: what one step can do to the log, the kill switch and the orders.
* `approved_of_mem_log`: without orders of the strategy engine, the router's topic only carries
  approved orders.
* `kill_run`: without them, nothing new is handled while the kill switch is on.
* `gated_iff`: when no order gets around the gate.
-/

namespace HftPlatform

open Lib

/-- What the processes share: the environment, the secret files, and the broker with the topics
that it accepts. -/
structure Deployment where
  rt : Runtime
  environment : Environment
  readFile : String → Option String
  accepts : String → Bool

namespace Deployment

open Router (Link)

/-- A step of one of the processes, or of the operator of the kill switch. -/
inductive Action
  /-- A producer publishes an order for the risk guard. -/
  | submit (order : OrderCommand) (broker : Link)
  /-- A turn of the strategy engine. -/
  | emit (traceId clientOrderId : Uuid) (nowNs : ℤ) (broker : Link)
  /-- The global kill switch is set. -/
  | setKill (on : Bool)
  /-- A turn of the risk guard on an entry of the log; `redis` says whether the lookup of the
  global kill switch succeeds. -/
  | check (entry : ℕ) (redis : Bool) (killAccount : Except Unit Bool)
      (dynamic : RiskGuard.DynamicLimits) (broker : Link)
  /-- A turn of the router on an entry of the log. -/
  | route (entry : ℕ) (delay : ℕ) (env : Router.Env)

/-- What a step does with an order, as far as the gate is concerned. -/
inductive Event
  | none
  | approved (order : OrderCommand)
  | handled (order : OrderCommand)
  deriving DecidableEq, Repr

/-- The log of orders by topic, the global kill switch, and the states of the processes. -/
structure State where
  log : List (String × OrderCommand) := []
  kill : Bool := false
  planner : StrategyEngine.IdempotencyPlanner := []
  router : Router.State

variable (d : Deployment)

/-- The log after an order is published. -/
def publish (topic : String) (order : OrderCommand) (broker : Link)
    (log : List (String × OrderCommand)) : List (String × OrderCommand) :=
  if d.accepts topic = true ∧ broker ≠ .down then log ++ [(topic, order)] else log

/-- One step. A process that cannot load its configuration does not start. -/
def step (s : State) : Action → State × Event
  | .submit order broker =>
      ({ s with log := d.publish (RiskGuard.topicOrders d.environment) order broker s.log },
        .none)
  | .emit traceId clientOrderId nowNs broker =>
      let cfg := StrategyEngine.Config.fromEnv d.rt d.environment
      let (order, planner) := StrategyEngine.buildManualOrder d.rt cfg s.planner
        (d.rt.showUuid traceId) clientOrderId nowNs
      ({ s with planner, log := d.publish cfg.kafkaTopicOrderCommands order broker s.log },
        .none)
  | .setKill on => ({ s with kill := on }, .none)
  | .check entry redis killAccount dynamic broker =>
      match RiskGuard.Config.fromEnv d.rt d.environment, s.log[entry]? with
      | some cfg, some (topic, order) =>
          if topic = cfg.kafkaTopicOrders then
            match (RiskGuard.runGates d.rt cfg dynamic (if redis then .ok s.kill else .error ())
              killAccount order).2 with
            | .approved =>
                ({ s with log := d.publish cfg.kafkaTopicOrdersApproved order broker s.log },
                  .approved order)
            | .rejected _ _ => (s, .none)
          else (s, .none)
      | _, _ => (s, .none)
  | .route entry delay env =>
      match Router.Config.fromEnv d.environment d.readFile, s.log[entry]? with
      | .ok cfg, some (topic, order) =>
          if topic = cfg.kafkaTopicOrderCommands then
            match Router.step d.rt cfg s.router ⟨delay, .command order, env⟩ with
            | (router, .handled order _ _) => ({ s with router }, .handled order)
            | (router, _) => ({ s with router }, .none)
          else (s, .none)
      | _, _ => (s, .none)

/-- The state and the events after a list of steps, in the world the router finds. -/
def run (w : Router.World) (actions : List Action) : State × List Event :=
  Machine.run d.step { router := Router.State.init w } actions

/-- The step is not one of the strategy engine. -/
def Action.NotEmit : Action → Prop
  | .emit .. => False
  | _ => True

/-- The step neither turns the kill switch off nor misses it because Redis does not answer. -/
def Action.KeepsKill : Action → Prop
  | .setKill on => on = true
  | .check _ redis _ _ _ => redis = true
  | _ => True

/-- **Every order that the router handles was approved before**, in runs of allowed steps. -/
def Gated (Allowed : Action → Prop) : Prop :=
  ∀ w pre a order, (∀ b ∈ pre ++ [a], Allowed b) →
    (d.step (d.run w pre).1 a).2 = .handled order → .approved order ∈ (d.run w pre).2

/-- **The kill switch stops new orders**: while it is and stays on and Redis answers, an order
that was not in the log before is not handled, in runs of allowed steps. -/
def KillStops (Allowed : Action → Prop) : Prop :=
  ∀ w pre post order, (∀ b ∈ pre ++ post, Allowed b) → (d.run w pre).1.kill = true →
    (∀ b ∈ post, b.KeepsKill) → (∀ topic, (topic, order) ∉ (d.run w pre).1.log) →
      .handled order ∉ (Machine.run d.step (d.run w pre).1 post).2

/-- The router cannot start in the environment, or the broker does not accept its topic. -/
def Idle : Prop :=
  (∀ cfg, Router.Config.fromEnv d.environment d.readFile ≠ .ok cfg) ∨
    d.accepts (Router.topicOrderCommands d.environment) = false

/-! ### What one step can do -/

variable {d} {s : State} {a : Action} {topic : String} {order : OrderCommand}

/-- Publishing adds the order to the log, on a topic that the broker accepts, or nothing. -/
theorem publish_cases (d : Deployment) (topic : String) (order : OrderCommand) (broker : Link)
    (log : List (String × OrderCommand)) :
    d.publish topic order broker log = log ∨
      d.accepts topic = true ∧ d.publish topic order broker log = log ++ [(topic, order)] := by
  rw [publish]
  split
  · rename_i h
    exact Or.inr ⟨h.1, rfl⟩
  · exact Or.inl rfl

/-- What a step from `s` to `s'` that says `e` can do. -/
structure StepSpec (d : Deployment) (s : State) (a : Action) (s' : State) (e : Event) : Prop where
  /-- The log grows by an order for the risk guard, an order of the strategy engine, or an order
  that is approved. -/
  log : s'.log = s.log ∨ ∃ topic order, d.accepts topic = true ∧
    s'.log = s.log ++ [(topic, order)] ∧
      (topic = RiskGuard.topicOrders d.environment ∨ ¬ a.NotEmit ∨ e = .approved order)
  /-- The kill switch only changes when it is set. -/
  kill : s'.kill = s.kill ∨ a = .setKill s'.kill
  /-- An approved order was checked with the kill switch off, or unread. -/
  approved : ∀ order, e = .approved order → a.KeepsKill → s.kill = false
  /-- A handled order is in the log, on the topic of a router that runs. -/
  handled : ∀ order, e = .handled order →
    (∃ cfg, Router.Config.fromEnv d.environment d.readFile = .ok cfg) ∧
      (Router.topicOrderCommands d.environment, order) ∈ s.log

/-- A step that leaves the log and the kill switch alone and says nothing. -/
theorem StepSpec.idle {s' : State} (hlog : s'.log = s.log) (hkill : s'.kill = s.kill) :
    StepSpec d s a s' .none :=
  ⟨Or.inl hlog, Or.inl hkill, by simp, by simp⟩

/-- **What one step can do.** -/
theorem step_spec (d : Deployment) (s : State) (a : Action) :
    StepSpec d s a (d.step s a).1 (d.step s a).2 := by
  cases a with
  | submit order broker =>
      refine ⟨?_, Or.inl rfl, by simp [step], by simp [step]⟩
      exact (publish_cases d _ order broker s.log).imp id fun ⟨haccepts, h⟩ =>
        ⟨_, _, haccepts, h, Or.inl rfl⟩
  | emit traceId clientOrderId nowNs broker =>
      refine ⟨?_, Or.inl rfl, by simp [step], by simp [step]⟩
      exact (publish_cases d _ _ broker s.log).imp id fun ⟨haccepts, h⟩ =>
        ⟨_, _, haccepts, h, Or.inr (Or.inl id)⟩
  | setKill on => exact ⟨Or.inl rfl, Or.inr rfl, by simp [step], by simp [step]⟩
  | check entry redis killAccount dynamic broker =>
      rw [step]
      split
      · split
        · split
          · rename_i hgates
            refine ⟨?_, Or.inl rfl, ?_, by simp⟩
            · exact (publish_cases d _ _ broker s.log).imp id fun ⟨haccepts, h⟩ =>
                ⟨_, _, haccepts, h, Or.inr (Or.inr rfl)⟩
            · rintro order - hredis
              obtain rfl : redis = true := hredis
              simpa using (RiskGuard.runGates_approved_iff.mp hgates).1
          · exact StepSpec.idle rfl rfl
        · exact StepSpec.idle rfl rfl
      · exact StepSpec.idle rfl rfl
  | route entry delay env =>
      rw [step]
      split
      · rename_i cfg topic order hcfg hentry
        split
        · rename_i htopic
          split
          · rename_i router order' time result hstep
            refine ⟨Or.inl rfl, Or.inl rfl, by simp, ?_⟩
            rintro _ ⟨⟩
            -- The router hands over the order that was delivered to it.
            have hmessage := (Router.message_of_handled (congrArg Prod.snd hstep)).1
            obtain rfl := Router.Message.command.inj hmessage
            refine ⟨⟨cfg, hcfg⟩, ?_⟩
            rw [← (Router.Config.fromEnv_spec hcfg).1, ← htopic]
            exact List.mem_of_getElem? hentry
          · exact StepSpec.idle rfl rfl
        · exact StepSpec.idle rfl rfl
      · exact StepSpec.idle rfl rfl

/-- What is in the log after a step was there before, or is what the step published. -/
theorem StepSpec.mem_log {s' : State} {e : Event} (h : StepSpec d s a s' e)
    (hmem : (topic, order) ∈ s'.log) : (topic, order) ∈ s.log ∨ d.accepts topic = true ∧
      (topic = RiskGuard.topicOrders d.environment ∨ ¬ a.NotEmit ∨ e = .approved order) := by
  rcases h.log with hlog | ⟨topic', order', haccepts, hlog, hwhy⟩
  · exact Or.inl (hlog ▸ hmem)
  · rw [hlog] at hmem
    rcases List.mem_append.mp hmem with hmem | hmem
    · exact Or.inl hmem
    · obtain ⟨rfl, rfl⟩ := Prod.mk.inj (List.mem_singleton.mp hmem)
      exact Or.inr ⟨haccepts, hwhy⟩

/-- A step that keeps the kill switch on leaves it on. -/
theorem StepSpec.kill_on {s' : State} {e : Event} (h : StepSpec d s a s' e)
    (hkeeps : a.KeepsKill) (hkill : s.kill = true) : s'.kill = true := by
  rcases h.kill with hsame | rfl
  · rw [hsame, hkill]
  · exact hkeeps

/-! ### What a run can do -/

/-- A router that is idle handles nothing. -/
theorem not_idle_of_handled {w : Router.World} {actions : List Action}
    (h : .handled order ∈ (d.run w actions).2) : ¬ d.Idle := by
  -- The log only carries topics that the broker accepts.
  suffices hrun : (∀ topic order, (topic, order) ∈ (d.run w actions).1.log →
      d.accepts topic = true) ∧ ∀ order, .handled order ∈ (d.run w actions).2 → ¬ d.Idle from
    hrun.2 order h
  refine Machine.run_induction (P := fun _ (out : List Event) (s : State) =>
      (∀ topic order, (topic, order) ∈ s.log → d.accepts topic = true) ∧
        ∀ order, .handled order ∈ out → ¬ d.Idle)
    (s := { router := Router.State.init w }) (by simp) ?_ actions
  rintro pre out s a ⟨hlog, hhandled⟩
  have hspec := step_spec d s a
  refine ⟨fun topic order hmem => ?_, fun order hmem => ?_⟩
  · rcases hspec.mem_log hmem with hmem | ⟨haccepts, -⟩
    · exact hlog topic order hmem
    · exact haccepts
  · rcases List.mem_append.mp hmem with hmem | hmem
    · exact hhandled order hmem
    · obtain ⟨⟨cfg, hcfg⟩, hmem⟩ := hspec.handled order (List.mem_singleton.mp hmem).symm
      rintro (hnone | hrefused)
      · exact hnone cfg hcfg
      · simp [hlog _ _ hmem] at hrefused

/-- **Without orders of the strategy engine the router's topic only carries approved orders**,
unless it is the topic that the risk guard reads. -/
theorem approved_of_mem_log
    (htopic : RiskGuard.topicOrders d.environment ≠ Router.topicOrderCommands d.environment)
    {w : Router.World} {actions : List Action} (hallowed : ∀ a ∈ actions, a.NotEmit)
    (h : (Router.topicOrderCommands d.environment, order) ∈ (d.run w actions).1.log) :
    .approved order ∈ (d.run w actions).2 := by
  refine Machine.run_induction (P := fun (actions : List Action) (out : List Event) (s : State) =>
      (∀ a ∈ actions, a.NotEmit) → ∀ order,
        (Router.topicOrderCommands d.environment, order) ∈ s.log → .approved order ∈ out)
    (by simp) ?_ actions hallowed order h
  intro pre out s a ih hallowed order hmem
  rcases (step_spec d s a).mem_log hmem with hmem | ⟨-, hguard | hemit | happroved⟩
  · exact List.mem_append_left _
      (ih (fun b hb => hallowed b (List.mem_append_left _ hb)) order hmem)
  · exact absurd hguard.symm htopic
  · exact absurd (hallowed a (by simp)) hemit
  · exact List.mem_append_right _ (by simp [happroved])

/-- While the kill switch is on, nothing new gets to the router's topic, and what is handled was
there before. -/
theorem kill_run
    (htopic : RiskGuard.topicOrders d.environment ≠ Router.topicOrderCommands d.environment)
    (hkill : s.kill = true) {actions : List Action}
    (hallowed : ∀ a ∈ actions, a.NotEmit ∧ a.KeepsKill) :
    (Machine.run d.step s actions).1.kill = true ∧
      (∀ order, (Router.topicOrderCommands d.environment, order) ∈
          (Machine.run d.step s actions).1.log →
        (Router.topicOrderCommands d.environment, order) ∈ s.log) ∧
      ∀ order, .handled order ∈ (Machine.run d.step s actions).2 →
        (Router.topicOrderCommands d.environment, order) ∈ s.log := by
  refine Machine.run_induction (P := fun (actions : List Action) (out : List Event) (s' : State) =>
      (∀ a ∈ actions, a.NotEmit ∧ a.KeepsKill) → s'.kill = true ∧
        (∀ order, (Router.topicOrderCommands d.environment, order) ∈ s'.log →
          (Router.topicOrderCommands d.environment, order) ∈ s.log) ∧
        ∀ order, .handled order ∈ out →
          (Router.topicOrderCommands d.environment, order) ∈ s.log)
    (fun _ => ⟨hkill, fun _ h => h, by simp⟩) ?_ actions hallowed
  intro pre out s' a ih hallowed
  obtain ⟨hon, hlog, hhandled⟩ := ih fun b hb => hallowed b (List.mem_append_left _ hb)
  obtain ⟨hnotEmit, hkeeps⟩ := hallowed a (by simp)
  have hspec := step_spec d s' a
  refine ⟨hspec.kill_on hkeeps hon, ?_, ?_⟩
  · intro order hmem
    rcases hspec.mem_log hmem with hmem | ⟨-, hguard | hemit | happroved⟩
    · exact hlog order hmem
    · exact absurd hguard.symm htopic
    · exact absurd hnotEmit hemit
    · simp [hspec.approved order happroved hkeeps] at hon
  · intro order hmem
    rcases List.mem_append.mp hmem with hmem | hmem
    · exact hhandled order hmem
    · exact hlog order (hspec.handled order (List.mem_singleton.mp hmem).symm).2

/-! ### The way around -/

/-- The environment around a turn of the router in which every request is answered. -/
abbrev answered : Router.Env := Router.Env.sample (fun _ => .up) fun _ => .up

/-- A router that is not idle handles the first order of the strategy engine, whatever the kill
switch says. -/
theorem emit_handled (hshow : ∀ u, d.rt.showUuid u ≠ "") (hidle : ¬ d.Idle) (w : Router.World)
    (kill : Bool) : ∃ order,
      (d.step (d.run w [.setKill kill, .emit 0 0 0 .up]).1 (.route 0 0 answered)).2 =
        .handled order := by
  obtain ⟨⟨cfg, hcfg⟩, haccepts⟩ : (∃ cfg, Router.Config.fromEnv d.environment d.readFile =
      .ok cfg) ∧ d.accepts (Router.topicOrderCommands d.environment) = true := by
    simpa [Idle] using hidle
  obtain ⟨htopic, -⟩ := Router.Config.fromEnv_spec hcfg
  set order := (StrategyEngine.buildManualOrder d.rt
    (StrategyEngine.Config.fromEnv d.rt d.environment) [] (d.rt.showUuid 0) 0 0).1 with horder
  have hlog : (d.run w [.setKill kill, .emit 0 0 0 .up]).1.log =
      [(Router.topicOrderCommands d.environment, order)] := by
    simp only [run, Machine.run, step, publish, Router.topicOrderCommands_eq, haccepts]
    rfl
  have hrouter : (d.run w [.setKill kill, .emit 0 0 0 .up]).1.router = Router.State.init w := rfl
  have hid : order.clientOrderId ≠ "" := by
    rw [horder, StrategyEngine.clientOrderId_of_buildManualOrder]
    exact hshow 0
  -- The router has handed over nothing yet, so its cache does not drop the order.
  obtain ⟨time, result, hstep⟩ : Router.Reaches d.rt cfg w [] ⟨0, .command order, answered⟩
      order :=
    (Router.reaches_iff rfl hid).mpr (by simp [Router.Rested, Router.handledCalls, Router.run])
  refine ⟨order, ?_⟩
  rw [step, hcfg, hlog, hrouter]
  simp only [List.getElem?_cons_zero, if_pos htopic.symm]
  change (Router.step d.rt cfg (Router.State.init w) _).2 = _ at hstep
  cases hresult : Router.step d.rt cfg (Router.State.init w) ⟨0, .command order, answered⟩ with
  | mk router event =>
      rw [hresult] at hstep
      obtain rfl : event = _ := hstep
      rfl

/-- **An order gets around the gate** unless the router is idle. -/
theorem gated_all_iff (hshow : ∀ u, d.rt.showUuid u ≠ "") :
    d.Gated (fun _ => True) ↔ d.Idle := by
  constructor
  · intro h
    by_contra hidle
    obtain ⟨order, hhandled⟩ := emit_handled hshow hidle {} false
    have happroved := h {} _ _ order (by simp) hhandled
    simp [run, Machine.run, step] at happroved
  · intro hidle w pre a order _ hhandled
    have hmem : .handled order ∈ (d.run w (pre ++ [a])).2 := by
      rw [run, Machine.run_concat]
      exact List.mem_append_right _ (by simp [← hhandled, run])
    exact absurd hidle (not_idle_of_handled hmem)

/-- **An order gets around the kill switch** unless the router is idle. -/
theorem killStops_all_iff (hshow : ∀ u, d.rt.showUuid u ≠ "") :
    d.KillStops (fun _ => True) ↔ d.Idle := by
  constructor
  · intro h
    by_contra hidle
    obtain ⟨order, hhandled⟩ := emit_handled hshow hidle {} true
    refine h {} [.setKill true] [.emit 0 0 0 .up, .route 0 0 answered] order (by simp) rfl
      (by simp [Action.KeepsKill]) (by simp [run, Machine.run, step]) ?_
    simp only [Machine.run, List.mem_cons]
    exact Or.inr (Or.inl hhandled.symm)
  · intro hidle w pre post order _ _ _ _ hhandled
    have hmem : .handled order ∈ (d.run w (pre ++ post)).2 := by
      rw [run, Machine.run_append]
      exact List.mem_append_right _ hhandled
    exact absurd hidle (not_idle_of_handled hmem)

/-- **When no order gets around the gate.** Over all runs, exactly when the router is idle: what
the strategy engine publishes is handled without approval, and while the kill switch is on.
Over the runs in which the strategy engine does not step, also when the router and the risk
guard read different topics. -/
theorem gated_iff (d : Deployment) (hshow : ∀ u, d.rt.showUuid u ≠ "") :
    (d.Gated (fun _ => True) ↔ d.Idle) ∧ (d.KillStops (fun _ => True) ↔ d.Idle) ∧
      (RiskGuard.topicOrders d.environment ≠ Router.topicOrderCommands d.environment →
        d.Gated Action.NotEmit ∧ d.KillStops Action.NotEmit) := by
  refine ⟨gated_all_iff hshow, killStops_all_iff hshow, fun htopic => ⟨?_, ?_⟩⟩
  · intro w pre a order hallowed hhandled
    exact approved_of_mem_log htopic (fun b hb => hallowed b (List.mem_append_left _ hb))
      ((step_spec d _ a).handled order hhandled).2
  · intro w pre post order hallowed hkill hkeeps hnew hhandled
    have hpost := kill_run htopic hkill fun b hb =>
      ⟨hallowed b (List.mem_append_right _ hb), hkeeps b hb⟩
    exact hnew _ (hpost.2.2 order hhandled)

/-- A deployment with nothing set in its environment. -/
def defaults : Deployment where
  rt := Runtime.reference
  environment _ := none
  readFile _ := none
  accepts _ := true

theorem gated_iff_defaults :
    (defaults.Gated (fun _ => True) ↔ defaults.Idle) ∧
      (defaults.KillStops (fun _ => True) ↔ defaults.Idle) ∧
      (RiskGuard.topicOrders defaults.environment ≠
          Router.topicOrderCommands defaults.environment →
        defaults.Gated Action.NotEmit ∧ defaults.KillStops Action.NotEmit) :=
  gated_iff defaults showHyphenated_ne_empty

/-- The first order of the strategy engine with the default settings. -/
def firstOrder : OrderCommand :=
  { OrderCommand.sample "00000000-0000-0000-0000-000000000002" 1 1 2 0 62000 with
    tif := TimeInForce.gtc.code
    qty := Rounding.nearestEven.lit (1 / 100)
    traceId := "00000000-0000-0000-0000-000000000001" }

/-- With the kill switch on throughout, the first order of the strategy engine is handled and
was never approved. -/
theorem firstOrder_bypasses :
    (defaults.run {} [.setKill true, .emit 1 2 0 .up, .route 0 0 answered]).2 =
        [.none, .none, .handled firstOrder] ∧
      ¬ defaults.Gated (fun _ => True) ∧ ¬ defaults.KillStops (fun _ => True) := by
  have hkill : (defaults.run {} [.setKill true, .emit 1 2 0 .up]).2 = [.none, .none] := rfl
  have hhandled : (defaults.step (defaults.run {} [.setKill true, .emit 1 2 0 .up]).1
      (.route 0 0 answered)).2 = .handled firstOrder := by decide +kernel
  refine ⟨?_, fun h => ?_, fun h => ?_⟩
  · decide +kernel
  · have happroved := h {} _ _ firstOrder (by simp) hhandled
    simp [hkill] at happroved
  · refine h {} [.setKill true] [.emit 1 2 0 .up, .route 0 0 answered] firstOrder (by simp) rfl
      (by simp [Action.KeepsKill]) (by simp [run, Machine.run, step]) ?_
    simp only [Machine.run, List.mem_cons]
    exact Or.inr (Or.inl hhandled.symm)

end Deployment

end HftPlatform
