import HftPlatform.Lib.Backoff
import HftPlatform.Lib.Machine

/-!
# Reconnecting

`services/marketdata_ingestor/src/ws/reconnect.rs`: how long a worker waits before it connects
again. The settings are 64-bit numbers, and so are the products, which saturate.

## Main results

* `run_eq`: the controller after any events.
* `getElem?_states`: a delay is the exact one for the disconnects since the last connect.
* `reconnect_backoff`: the delays are bounded, grow from disconnect to disconnect, and start again
  with the smallest one.
-/

namespace HftPlatform.MarketdataIngestor

open Lib

/-- The backoff is in milliseconds. -/
inductive ConnectionState
  | connecting
  | connected
  | backoff (ms : ℕ)
  deriving DecidableEq

/-- The settings, and the disconnects since the last connect and at all. -/
structure ReconnectController where
  baseMs : ℕ
  maxMs : ℕ
  attempt : ℕ
  reconnectCount : ℕ
  deriving DecidableEq

namespace ReconnectController

/-- The base is raised to the floor, and the maximum to the base as it is given. -/
def new (baseMs maxMs : ℕ) : ReconnectController where
  baseMs := max baseMs 100
  maxMs := max maxMs baseMs
  attempt := 0
  reconnectCount := 0

/-- The delays start again. -/
def onConnected (c : ReconnectController) : ReconnectController × ConnectionState :=
  ({ c with attempt := 0 }, .connected)

/-- The next delay: the base doubled for each disconnect, up to the maximum. -/
def onDisconnected (c : ReconnectController) : ReconnectController × ConnectionState :=
  let c := { c with
    reconnectCount := min (c.reconnectCount + 1) (2 ^ 64 - 1)
    attempt := min (c.attempt + 1) (2 ^ 32 - 1) }
  let exp := 2 ^ min c.attempt 10
  let delayMs := min (min (c.baseMs * exp) (2 ^ 64 - 1)) c.maxMs
  (c, .backoff delayMs)

/-- A call of a controller. -/
inductive Event
  | connected
  | disconnected
  deriving DecidableEq

/-- The controller after an event, and the state that is reported. -/
def step (c : ReconnectController) : Event → ReconnectController × ConnectionState
  | .connected => c.onConnected
  | .disconnected => c.onDisconnected

/-- What the calls return, in order. -/
def states (baseMs maxMs : ℕ) (events : List Event) : List ConnectionState :=
  (Machine.run step (new baseMs maxMs) events).2

/-- A connect forgets the disconnects before it. -/
def countFailure (n : ℕ) : Event → ℕ
  | .connected => 0
  | .disconnected => n + 1

/-- The disconnects since the last connect. -/
def failures (events : List Event) : ℕ := events.foldl countFailure 0

/-- The delay after so many disconnects in a row. -/
def delay (baseMs maxMs n : ℕ) : ℕ := backoff (max baseMs 100) 10 (max maxMs baseMs) n

variable {baseMs maxMs n m : ℕ}

/-- The disconnects since the last connect, with one event more. -/
@[simp] theorem failures_concat (events : List Event) (e : Event) :
    failures (events ++ [e]) = countFailure (failures events) e := by
  simp [failures]

/-- **The controller after any events** knows the disconnects since the last connect, as far as 32
bits go. -/
theorem run_eq (events : List Event) :
    (Machine.run step (new baseMs maxMs) events).1 =
      ⟨max baseMs 100, max maxMs baseMs, min (failures events) (2 ^ 32 - 1),
        min (events.count .disconnected) (2 ^ 64 - 1)⟩ := by
  refine Machine.run_induction (P := fun events _ (c : ReconnectController) =>
    c = ⟨max baseMs 100, max maxMs baseMs, min (failures events) (2 ^ 32 - 1),
      min (events.count .disconnected) (2 ^ 64 - 1)⟩) ?_ ?_ events
  · simp [new, failures]
  · intro pre _ c e hc
    subst hc
    cases e with
    | connected => simp [step, onConnected, countFailure]
    | disconnected =>
        simp only [step, onDisconnected, failures_concat, countFailure, List.count_append,
          List.count_singleton_self, mk.injEq, true_and]
        omega

/-- What a call returns after the given events. -/
def returned (baseMs maxMs : ℕ) (pre : List Event) : Event → ConnectionState
  | .connected => .connected
  | .disconnected => .backoff (delay baseMs maxMs (failures pre + 1))

/-- **A delay is the exact one** for the disconnects since the last connect. -/
theorem getElem?_states (hbase : baseMs < 2 ^ 64) (hmax : maxMs < 2 ^ 64) (pre post : List Event)
    (e : Event) : (states baseMs maxMs (pre ++ e :: post))[pre.length]? =
      some (returned baseMs maxMs pre e) := by
  rw [states, Machine.getElem?_run, run_eq]
  cases e with
  | connected => rfl
  | disconnected =>
      have hexp : min (min (min (failures pre) (2 ^ 32 - 1) + 1) (2 ^ 32 - 1)) 10 =
          min (failures pre + 1) 10 := by omega
      simp only [step, onDisconnected, hexp]
      rw [backoff_saturating (by omega), returned, delay]

/-- What is returned is returned by one of the calls. -/
theorem exists_returned (hbase : baseMs < 2 ^ 64) (hmax : maxMs < 2 ^ 64) {events : List Event}
    {i : ℕ} {state : ConnectionState} (h : (states baseMs maxMs events)[i]? = some state) :
    ∃ e, events[i]? = some e ∧ state = returned baseMs maxMs (events.take i) e := by
  have hi : i < events.length := by
    have hlt := (List.getElem?_eq_some_iff.mp h).1
    rwa [states, Machine.length_run] at hlt
  refine ⟨events[i], List.getElem?_eq_getElem hi, ?_⟩
  have hcall := getElem?_states hbase hmax (events.take i) (events.drop (i + 1)) events[i]
  rw [List.getElem_cons_drop, List.take_append_drop, List.length_take_of_le hi.le, h] at hcall
  exact Option.some.inj hcall

/-- The disconnects up to an event are those before it and the event. -/
theorem failures_take_succ {events : List Event} {i : ℕ} {e : Event} (h : events[i]? = some e) :
    failures (events.take (i + 1)) = countFailure (failures (events.take i)) e := by
  rw [List.take_add_one, h, Option.toList_some, failures_concat]

/-- A call that returned a delay was a disconnect. -/
theorem backoff_eq (hbase : baseMs < 2 ^ 64) (hmax : maxMs < 2 ^ 64) {events : List Event}
    {i d : ℕ} (h : (states baseMs maxMs events)[i]? = some (.backoff d)) :
    events[i]? = some .disconnected ∧
      d = delay baseMs maxMs (failures (events.take (i + 1))) := by
  obtain ⟨e, he, hstate⟩ := exists_returned hbase hmax h
  cases e with
  | connected => simp [returned] at hstate
  | disconnected =>
      rw [failures_take_succ he]
      exact ⟨he, ConnectionState.backoff.inj hstate⟩

/-- The delay grows with the disconnects. -/
theorem delay_mono (h : n ≤ m) : delay baseMs maxMs n ≤ delay baseMs maxMs m := backoff_mono h

/-- Every delay comes from at least one disconnect. -/
theorem delay_one_le (hbase : baseMs < 2 ^ 64) (hmax : maxMs < 2 ^ 64) {events : List Event}
    {d : ℕ} (h : .backoff d ∈ states baseMs maxMs events) : delay baseMs maxMs 1 ≤ d := by
  obtain ⟨i, hi⟩ := List.mem_iff_getElem?.mp h
  obtain ⟨he, hd⟩ := backoff_eq hbase hmax hi
  rw [hd, failures_take_succ he, countFailure]
  exact delay_mono (Nat.le_add_left 1 _)

/-- With a base of a second and a maximum of half a second, the first delay is a second; with
settings below the floor, so is the delay. -/
theorem base_above_max :
    (.backoff 1000 ∈ states 1000 500 [.disconnected] ∧ ¬1000 ≤ max 500 100) ∧
      .backoff 60 ∈ states 50 60 [.disconnected] ∧ ¬100 ≤ 60 := by
  decide

/-- **The backoff of a controller.** For all settings and any calls: a delay is at most the larger
of the two settings, or the floor of 100 ms, and it is not below the floor unless both settings are;
it does not overflow, and it is the exact product where one of the settings is at least the floor;
it does not shrink from a disconnect to the next one; and the first delay after a connect is the
smallest there is. -/
theorem reconnect_backoff (hbase : baseMs < 2 ^ 64) (hmax : maxMs < 2 ^ 64) (events : List Event) :
    (∀ d, .backoff d ∈ states baseMs maxMs events →
      d ≤ max (max maxMs baseMs) 100 ∧ (100 ≤ max maxMs baseMs → 100 ≤ d)) ∧
    (∀ i d d', (states baseMs maxMs events)[i]? = some (.backoff d) →
      (states baseMs maxMs events)[i + 1]? = some (.backoff d') → d ≤ d') ∧
    (∀ i d, (states baseMs maxMs events)[i]? = some (.backoff d) → d < 2 ^ 64 ∧
      (100 ≤ max maxMs baseMs →
        d = min (max baseMs 100 * 2 ^ min (failures (events.take (i + 1))) 10)
          (max maxMs baseMs))) ∧
    ∀ i d, (states baseMs maxMs events)[i]? = some .connected →
      (states baseMs maxMs events)[i + 1]? = some (.backoff d) →
        ∀ events' d', .backoff d' ∈ states baseMs maxMs events' → d ≤ d' := by
  refine ⟨fun d hd => ?_, fun i d d' hd hd' => ?_, fun i d hd => ?_, fun i d hi hd => ?_⟩
  · obtain ⟨i, hi⟩ := List.mem_iff_getElem?.mp hd
    obtain ⟨-, rfl⟩ := backoff_eq hbase hmax hi
    have hle : delay baseMs maxMs (failures (events.take (i + 1))) ≤ max maxMs baseMs :=
      backoff_le_cap
    have hge : min (max baseMs 100) (max maxMs baseMs) ≤
        delay baseMs maxMs (failures (events.take (i + 1))) := le_backoff
    omega
  · obtain ⟨-, rfl⟩ := backoff_eq hbase hmax hd
    obtain ⟨he, rfl⟩ := backoff_eq hbase hmax hd'
    refine delay_mono ?_
    rw [failures_take_succ he, countFailure]
    exact Nat.le_succ _
  · obtain ⟨-, rfl⟩ := backoff_eq hbase hmax hd
    have hle : delay baseMs maxMs (failures (events.take (i + 1))) ≤ max maxMs baseMs :=
      backoff_le_cap
    exact ⟨by omega, fun _ => rfl⟩
  · obtain ⟨e, he, hstate⟩ := exists_returned hbase hmax hi
    obtain ⟨hdisconnected, rfl⟩ := backoff_eq hbase hmax hd
    intro events' d' hd'
    cases e with
    | disconnected => simp [returned] at hstate
    | connected =>
        rw [failures_take_succ hdisconnected, failures_take_succ he]
        exact delay_one_le hbase hmax hd'

/-- A base of 50 ms counts as 100 ms, and the delays double up to the maximum. -/
theorem reconnect_backoff_doubling :
    states 50 500 [.disconnected, .disconnected, .disconnected, .connected, .disconnected] =
        [.backoff 200, .backoff 400, .backoff 500, .connected, .backoff 200] ∧
      ∀ d, .backoff d ∈ states 50 500
        [.disconnected, .disconnected, .disconnected, .connected, .disconnected] →
          d ≤ 500 ∧ 100 ≤ d := by
  refine ⟨by decide, fun d hd => ?_⟩
  obtain ⟨hle, hge⟩ := (reconnect_backoff (show 50 < 2 ^ 64 by omega)
    (show 500 < 2 ^ 64 by omega)
    [.disconnected, .disconnected, .disconnected, .connected, .disconnected]).1 d hd
  exact ⟨by omega, hge (by omega)⟩

end ReconnectController

end HftPlatform.MarketdataIngestor
