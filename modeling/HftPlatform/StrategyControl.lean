import HftPlatform.Gateway
import HftPlatform.Lib.Interleave
import HftPlatform.Lib.LastWrite

/-!
# Strategy control

`handle_strategy_action` of `services/api_gateway/src/routes/strategies.rs`: a request sets the
status of a strategy in `strat_definitions`, and then publishes the signal of that status on the
control topic. The two steps are awaited one after the other, and between them other requests may
take theirs.

## Main results

* `status_exec`, `lastSignal_exec`: a run leaves the last status written and the last signal sent.
* `update_mem_iff`, `publish_mem_iff`: which steps a request takes.
* `agrees_iff`: when the last signal is the one of the stored status.
-/

namespace HftPlatform.Gateway

open Lib Interleave

/-! ### The table and the topic -/

inductive DbStratStatus
  | running
  | paused
  | halted
  | error
  deriving DecidableEq, Repr

/-- A row of `strat_definitions`, with the columns that a change of the status writes. -/
structure StratDefinition where
  id : Uuid
  status : DbStratStatus
  updatedAt : ℤ
  deriving DecidableEq, Repr

structure ConfigUpdateSignal where
  strategyId : Uuid
  eventTime : ℤ
  action : String
  deriving DecidableEq, Repr

/-- A message of the log. -/
structure ControlMessage where
  topic : String
  key : String
  payload : ConfigUpdateSignal
  deriving DecidableEq, Repr

/-- Without brokers there is no producer, and nothing is published. -/
structure ControlProducer where
  producer : Bool
  topic : String := "control.config_updates"
  deriving DecidableEq, Repr

/-- What the requests share: the rows of the table, and the messages of the log. -/
structure ControlState where
  strats : List StratDefinition := []
  control : List ControlMessage := []
  deriving DecidableEq, Repr

def updateStrategyStatus (id : Uuid) (status : DbStratStatus) (now : ℤ)
    (strats : List StratDefinition) : List StratDefinition :=
  strats.map fun s => if s.id = id then { s with status, updatedAt := now } else s

variable (rt : Runtime) (mq : ControlProducer)

def publishUpdate (strategyId : Uuid) (action : String) (now : ℤ)
    (control : List ControlMessage) : List ControlMessage :=
  if mq.producer then
    control ++ [{
      topic := mq.topic
      key := rt.showUuid strategyId
      payload := { strategyId, eventTime := now, action } }]
  else control

/-! ### The handler -/

/-- The two steps of a request, each with its reading of the clock. -/
inductive ControlStep
  | update (id : Uuid) (status : DbStratStatus) (now : ℤ)
  | publish (id : Uuid) (action : String) (now : ℤ)
  deriving DecidableEq, Repr

def ControlStep.perform (s : ControlState) : ControlStep → ControlState
  | .update id status now => { s with strats := updateStrategyStatus id status now s.strats }
  | .publish id action now => { s with control := publishUpdate rt mq id action now s.control }

/-- What a request meets: whether the gateway is mocked, whether its two steps succeed, and the
clock at each. -/
structure ActionEnv where
  mock : Bool := false
  updated : Bool := true
  published : Bool := true
  updateTime : ℤ
  publishTime : ℤ
  deriving DecidableEq, Repr

/-- The status that an action asks for. -/
def actionStatus (actionName : String) : Option DbStratStatus :=
  if actionName = "START" ∨ actionName = "RESUME" then some .running
  else if actionName = "STOP" ∨ actionName = "HALTED" then some .halted
  else if actionName = "PAUSE" then some .paused
  else if actionName = "EMERGENCY_STOP" then some .halted
  else none

def signalAction (actionName : String) : String :=
  if actionName = "START" ∨ actionName = "RESUME" then "START"
  else if actionName = "PAUSE" then "PAUSE"
  else "STOP"

/-- The steps that a request takes, and its answer. A failed update ends the request; a failed
publish is logged. -/
def handleStrategyAction (env : ActionEnv) (id : Uuid) (action : String) :
    List ControlStep × Except StatusCode Unit :=
  if env.mock then ([], .ok ())
  else match actionStatus (rt.toUppercase action) with
    | none => ([], .error .badRequest)
    | some status =>
        if env.updated then
          (.update id status env.updateTime ::
            (if env.published then
              [.publish id (signalAction (rt.toUppercase action)) env.publishTime] else []), .ok ())
        else ([], .error .internalServerError)

/-! ### What a run leaves -/

/-- The status stored for a strategy. -/
def ControlState.status (s : ControlState) (id : Uuid) : Option DbStratStatus :=
  (lookup StratDefinition.id id s.strats).map StratDefinition.status

/-- The action of the last signal published for a strategy. -/
def ControlState.lastSignal (s : ControlState) (id : Uuid) : Option String :=
  lastWrite (fun m => if m.payload.strategyId = id then some m.payload.action else none) s.control

/-- The signal that corresponds to a status. -/
def DbStratStatus.signal : DbStratStatus → Option String
  | running => some "START"
  | paused => some "PAUSE"
  | halted => some "STOP"
  | error => none

/-- The last signal published for the strategy is the one of its stored status. -/
def Agrees (s : ControlState) (id : Uuid) : Prop :=
  ∃ status action, s.status id = some status ∧ s.lastSignal id = some action ∧
    status.signal = some action

variable {τ : Type}

/-- The state after a run. -/
def exec (s : ControlState) (tr : List (τ × ControlStep)) : ControlState :=
  tr.foldl (fun s e => e.2.perform rt mq s) s

/-- An update of the strategy: the request that makes it, and the status. -/
def updateOf (id : Uuid) (e : τ × ControlStep) : Option (τ × DbStratStatus) :=
  match e.2 with
  | .update id' status _ => if id' = id then some (e.1, status) else none
  | .publish _ _ _ => none

/-- A signal for the strategy: the request that publishes it, and the action. -/
def publishOf (id : Uuid) (e : τ × ControlStep) : Option (τ × String) :=
  match e.2 with
  | .update _ _ _ => none
  | .publish id' action _ => if id' = id then some (e.1, action) else none

/-- The request whose update of the strategy came last. -/
def lastUpdater (id : Uuid) (tr : List (τ × ControlStep)) : Option τ :=
  (lastWrite (updateOf id) tr).map Prod.fst

/-- The request whose signal for the strategy came last. -/
def lastPublisher (id : Uuid) (tr : List (τ × ControlStep)) : Option τ :=
  (lastWrite (publishOf id) tr).map Prod.fst

variable {rt mq} {s : ControlState} {tr : List (τ × ControlStep)} {id : Uuid}

@[simp] theorem updateOf_update {i : τ} {id' : Uuid} {status : DbStratStatus} {now : ℤ} :
    updateOf id (i, .update id' status now) = if id' = id then some (i, status) else none := rfl

@[simp] theorem publishOf_publish {i : τ} {id' : Uuid} {action : String} {now : ℤ} :
    publishOf id (i, .publish id' action now) = if id' = id then some (i, action) else none := rfl

theorem exec_concat (e : τ × ControlStep) :
    exec rt mq s (tr ++ [e]) = e.2.perform rt mq (exec rt mq s tr) := by
  simp [exec]

/-- An update writes the row of its strategy, if there is one, and no other. -/
theorem status_update {id' : Uuid} {status : DbStratStatus} {now : ℤ} :
    (ControlStep.perform rt mq s (.update id' status now)).status id =
      if id' = id then (s.status id).map fun _ => status else s.status id := by
  have hkey : ∀ r : StratDefinition,
      (if r.id = id' then { r with status, updatedAt := now } else r).id = r.id := by
    intro r
    split <;> rfl
  simp only [ControlState.status, ControlStep.perform, updateStrategyStatus,
    lookup_map hkey, Option.map_map]
  cases hrow : lookup StratDefinition.id id s.strats with
  | none => simp
  | some r =>
      have hr : r.id = id := key_of_lookup hrow
      simp only [Option.map_some, Function.comp_apply, hr, @eq_comm _ id id']
      split <;> rfl

/-- **A run leaves the last status** that was written to the row. -/
theorem status_exec : (exec rt mq s tr).status id =
    (s.status id).map fun status => ((lastWrite (updateOf id) tr).map Prod.snd).getD status := by
  induction tr using List.reverseRecOn with
  | nil => simp [exec]
  | append_singleton tr e ih =>
      rw [exec_concat, lastWrite_concat]
      obtain ⟨i, step⟩ := e
      cases step with
      | update id' status now =>
          rw [status_update, ih, updateOf_update]
          split
          · rw [Option.map_map]
            rfl
          · rfl
      | publish id' action now => exact ih

/-- **A run leaves the last signal** that was sent. -/
theorem lastSignal_exec (hmq : mq.producer = true) : (exec rt mq s tr).lastSignal id =
    ((lastWrite (publishOf id) tr).map Prod.snd <|> s.lastSignal id) := by
  induction tr using List.reverseRecOn with
  | nil => simp [exec]
  | append_singleton tr e ih =>
      rw [exec_concat, lastWrite_concat]
      obtain ⟨i, step⟩ := e
      cases step with
      | update id' status now => exact ih
      | publish id' action now =>
          rw [ControlState.lastSignal, ControlStep.perform, publishUpdate, if_pos hmq,
            lastWrite_concat]
          have hrest := ih
          rw [ControlState.lastSignal] at hrest
          rw [hrest, publishOf_publish]
          dsimp only
          split <;> rfl

/-! ### The steps of the requests -/

/-- A request: the strategy, the action, and what it meets. -/
structure ActionCall where
  id : Uuid
  action : String
  env : ActionEnv
  deriving DecidableEq, Repr

variable (rt) in
/-- The status that a request asks for. -/
def ActionCall.target (c : ActionCall) : Option DbStratStatus :=
  actionStatus (rt.toUppercase c.action)

variable (rt) in
/-- The steps of a request. -/
def ActionCall.steps (c : ActionCall) : List ControlStep :=
  (handleStrategyAction rt c.env c.id c.action).1

/-- The request is not mocked, and its update and its publish succeed. -/
def ActionEnv.Succeeds (env : ActionEnv) : Prop :=
  env.mock = false ∧ env.updated = true ∧ env.published = true

variable {c : ActionCall}

/-- The update of a request that succeeds. -/
theorem update_mem_iff (h : c.env.Succeeds) {id : Uuid} {status : DbStratStatus} {now : ℤ} :
    .update id status now ∈ c.steps rt ↔
      id = c.id ∧ c.target rt = some status ∧ now = c.env.updateTime := by
  obtain ⟨hmock, hupdated, hpublished⟩ := h
  rw [ActionCall.steps, ActionCall.target, handleStrategyAction, hmock]
  cases actionStatus (rt.toUppercase c.action) with
  | none => simp
  | some status' => simp [hupdated, hpublished, @eq_comm _ status' status]

/-- The publish of a request that succeeds. -/
theorem publish_mem_iff (h : c.env.Succeeds) {id : Uuid} {action : String} {now : ℤ} :
    .publish id action now ∈ c.steps rt ↔ id = c.id ∧ c.target rt ≠ none ∧
      action = signalAction (rt.toUppercase c.action) ∧ now = c.env.publishTime := by
  obtain ⟨hmock, hupdated, hpublished⟩ := h
  rw [ActionCall.steps, ActionCall.target, handleStrategyAction, hmock]
  cases actionStatus (rt.toUppercase c.action) with
  | none => simp
  | some status => simp [hupdated, hpublished]

/-- A request publishes the signal of the status that it asks for. -/
theorem signal_of_actionStatus {actionName : String} {status : DbStratStatus}
    (h : actionStatus actionName = some status) :
    status.signal = some (signalAction actionName) := by
  rw [actionStatus] at h
  rw [signalAction]
  split at h
  · rename_i hstart
    obtain rfl := Option.some.inj h
    rw [if_pos hstart]
    rfl
  · rename_i hstart
    rw [if_neg hstart]
    split at h
    · rename_i hstop
      obtain rfl := Option.some.inj h
      rcases hstop with rfl | rfl <;> rfl
    · split at h
      · rename_i hpause
        obtain rfl := Option.some.inj h
        rw [if_pos hpause]
        rfl
      · rename_i hpause
        split at h
        · obtain rfl := Option.some.inj h
          rw [if_neg hpause]
          rfl
        · cases h

/-- Two statuses with the same signal are the same. -/
theorem signal_inj {status status' : DbStratStatus} {action : String}
    (h : status.signal = some action) (h' : status'.signal = some action) : status = status' := by
  rw [← h'] at h
  cases status <;> cases status' <;> first | rfl | simp [DbStratStatus.signal] at h h'

variable [DecidableEq τ] {calls : τ → ActionCall}

/-- The last update of a complete run writes the status that its request asks for. -/
theorem target_of_lastUpdate (hok : ∀ i, (calls i).env.Succeeds)
    (htr : Completes (fun i => (calls i).steps rt) tr) {i : τ} {status : DbStratStatus}
    (h : lastWrite (updateOf id) tr = some (i, status)) : (calls i).target rt = some status := by
  obtain ⟨⟨j, step⟩, hmem, hstep⟩ := exists_of_lastWrite h
  cases step with
  | publish id' action now => simp [updateOf] at hstep
  | update id' status' now =>
      rw [updateOf_update] at hstep
      split at hstep
      · obtain ⟨rfl, rfl⟩ := Prod.mk.inj (Option.some.inj hstep)
        exact ((update_mem_iff (hok j)).mp ((mem_iff_of_completes htr).mp hmem)).2.1
      · cases hstep

/-- The last signal of a complete run is that of its request. -/
theorem action_of_lastPublish (hok : ∀ i, (calls i).env.Succeeds)
    (htr : Completes (fun i => (calls i).steps rt) tr) {i : τ} {action : String}
    (h : lastWrite (publishOf id) tr = some (i, action)) :
    ∃ status, (calls i).target rt = some status ∧ status.signal = some action := by
  obtain ⟨⟨j, step⟩, hmem, hstep⟩ := exists_of_lastWrite h
  cases step with
  | update id' status now => simp [publishOf] at hstep
  | publish id' action' now =>
      rw [publishOf_publish] at hstep
      split at hstep
      · obtain ⟨rfl, rfl⟩ := Prod.mk.inj (Option.some.inj hstep)
        obtain ⟨-, htarget, rfl, -⟩ :=
          (publish_mem_iff (hok j)).mp ((mem_iff_of_completes htr).mp hmem)
        obtain ⟨status, hstatus⟩ := Option.ne_none_iff_exists'.mp htarget
        exact ⟨status, hstatus, signal_of_actionStatus hstatus⟩
      · cases hstep

/-- A request that is accepted leaves an update and a signal in a complete run. -/
theorem exists_last (hok : ∀ i, (calls i).env.Succeeds)
    (htr : Completes (fun i => (calls i).steps rt) tr) {i : τ}
    (htarget : (calls i).target rt ≠ none) (hid : (calls i).id = id) :
    lastWrite (updateOf id) tr ≠ none ∧ lastWrite (publishOf id) tr ≠ none := by
  obtain ⟨status, hstatus⟩ := Option.ne_none_iff_exists'.mp htarget
  constructor
  · exact lastWrite_ne_none ((mem_iff_of_completes htr).mpr
      ((update_mem_iff (hok i)).mpr ⟨rfl, hstatus, rfl⟩)) (if_pos hid)
  · exact lastWrite_ne_none ((mem_iff_of_completes htr).mpr
      ((publish_mem_iff (hok i)).mpr ⟨rfl, htarget, rfl, rfl⟩)) (if_pos hid)

/-- **Control and status.** After any interleaving of any requests whose two steps succeed, the last
signal published for a strategy is the one of its stored status if and only if the request whose
update came last and the request whose publish came last ask for the same status. -/
theorem agrees_iff (rt : Runtime) (mq : ControlProducer) (s : ControlState)
    (calls : τ → ActionCall) (tr : List (τ × ControlStep)) (id : Uuid)
    (hmq : mq.producer = true) (hrow : s.status id ≠ none)
    (hok : ∀ i, (calls i).env.Succeeds)
    (hcall : ∃ i, (calls i).id = id ∧ (calls i).target rt ≠ none)
    (htr : Completes (fun i => (calls i).steps rt) tr) :
    Agrees (exec rt mq s tr) id ↔ ∃ i j, lastUpdater id tr = some i ∧
      lastPublisher id tr = some j ∧ (calls i).target rt = (calls j).target rt := by
  obtain ⟨old, hold⟩ := Option.ne_none_iff_exists'.mp hrow
  obtain ⟨k, hid, htarget⟩ := hcall
  obtain ⟨hupdate, hpublish⟩ := exists_last hok htr htarget hid
  obtain ⟨⟨i, status⟩, hupdate⟩ := Option.ne_none_iff_exists'.mp hupdate
  obtain ⟨⟨j, action⟩, hpublish⟩ := Option.ne_none_iff_exists'.mp hpublish
  have hi := target_of_lastUpdate hok htr hupdate
  obtain ⟨status', hj, hsignal⟩ := action_of_lastPublish hok htr hpublish
  have hstored : (exec rt mq s tr).status id = some status := by
    rw [status_exec, hold, hupdate]
    rfl
  have hlast : (exec rt mq s tr).lastSignal id = some action := by
    rw [lastSignal_exec hmq, hpublish]
    rfl
  rw [lastUpdater, lastPublisher, hupdate, hpublish]
  constructor
  · rintro ⟨status₁, action₁, hstatus₁, haction₁, hsignal₁⟩
    obtain rfl := Option.some.inj (hstored.symm.trans hstatus₁)
    obtain rfl := Option.some.inj (hlast.symm.trans haction₁)
    exact ⟨i, j, rfl, rfl, by rw [hi, hj, signal_inj hsignal₁ hsignal]⟩
  · rintro ⟨i', j', hi', hj', heq⟩
    obtain rfl := Option.some.inj hi'
    obtain rfl := Option.some.inj hj'
    dsimp only at heq
    rw [hi, hj] at heq
    obtain rfl := Option.some.inj heq
    exact ⟨status, action, hstored, hlast, hsignal⟩

/-! ### A start and an emergency stop -/

/-- Two requests on a strategy; the first is slow to publish. -/
def startStop : Bool → ActionCall
  | true => { id := 7, action := "start", env := { updateTime := 1, publishTime := 4 } }
  | false => { id := 7, action := "emergency_stop", env := { updateTime := 2, publishTime := 3 } }

/-- The strategy is paused. -/
def pausedStrategy : ControlState where
  strats := [{ id := 7, status := .paused, updatedAt := 0 }]

/-- The steps of the requests in the order in which they happen. -/
def startStopRun : List (Bool × ControlStep) :=
  [(true, .update 7 .running 1), (false, .update 7 .halted 2), (false, .publish 7 "STOP" 3),
    (true, .publish 7 "START" 4)]

/-- The same two requests, with the publish of the start before that of the stop. -/
def overtaken : Bool → ActionCall
  | true => { id := 7, action := "start", env := { updateTime := 1, publishTime := 3 } }
  | false => { id := 7, action := "emergency_stop", env := { updateTime := 2, publishTime := 4 } }

/-- Their steps: the stop updates while the start is between its two steps. -/
def overtakenRun : List (Bool × ControlStep) :=
  [(true, .update 7 .running 1), (false, .update 7 .halted 2), (true, .publish 7 "START" 3),
    (false, .publish 7 "STOP" 4)]

/-- The stop comes last in both, so the strategy is halted and the last signal says so. -/
theorem agrees_iff_overtaken :
    Agrees (exec Runtime.reference { producer := true } pausedStrategy overtakenRun) 7 :=
  (agrees_iff _ _ _ overtaken _ 7 rfl (by decide)
    (fun i => by cases i <;> exact ⟨rfl, rfl, rfl⟩) ⟨false, rfl, by decide +kernel⟩
    (by rw [Completes]; decide +kernel)).mpr ⟨false, false, by decide, by decide, rfl⟩

/-- What the run leaves. -/
def afterStartStop : ControlState :=
  exec Runtime.reference { producer := true } pausedStrategy startStopRun

/-- The strategy is stored as halted, and the last signal starts it. -/
theorem startStop_disagrees :
    (∀ i, (startStop i).env.Succeeds ∧ (startStop i).id = 7) ∧
      Completes (fun i => (startStop i).steps Runtime.reference) startStopRun ∧
      afterStartStop.status 7 = some .halted ∧ afterStartStop.lastSignal 7 = some "START" ∧
      ¬ Agrees afterStartStop 7 := by
  have hstatus : afterStartStop.status 7 = some .halted := by decide +kernel
  have hsignal : afterStartStop.lastSignal 7 = some "START" := by decide +kernel
  refine ⟨?_, ?_, hstatus, hsignal, ?_⟩
  · intro i
    cases i <;> exact ⟨⟨rfl, rfl, rfl⟩, rfl⟩
  · rw [Completes]
    decide +kernel
  · rintro ⟨status, action, hstatus', hsignal', hagree⟩
    obtain rfl := Option.some.inj (hstatus.symm.trans hstatus')
    obtain rfl := Option.some.inj (hsignal.symm.trans hsignal')
    exact absurd hagree (by decide)

end HftPlatform.Gateway
