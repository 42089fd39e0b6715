import HftPlatform.Lib.Machine
import Mathlib.Data.Int.Notation
import Mathlib.Data.List.ReduceOption

/-!
# Buffering in the asynchronous consumer

`libs/python/hft_ai_runtime/hft_ai_runtime/consumer.py`: a thread polls Kafka and hands every
payload to the event loop, which puts it into an `asyncio.Queue`; the service iterates over the
queue. The thread does not wait for the put, so the queue does not limit the puts that wait for
room.

The handles of the loop run in the order in which they were scheduled: first the callback of
`run_coroutine_threadsafe`, which starts the coroutine, then the coroutine, and once more whenever
it is woken. What else runs in the loop, the iteration over the queue included, runs in between.
Payloads are of any type. What is logged is left out, and so is the end of `stop`, which waits for
the thread.

## Main definitions

* `step`: the thread polls, the loop takes a turn, the service asks for the next message or stops.
* `Buffers`: at most one message more than the queue holds is polled and not yet yielded, and
  messages are yielded as they were polled.
* `awaited`: a message is polled only when no put is pending.

## Main results

* `Orderly.put`, `Orderly.get`: what the two sides of the queue keep of the messages.
* `buffers_of_awaited`: a run that waits for its puts buffers as the queue promises.
* `polled_busy`: a run that does not wait may poll any number of messages before one is put.
-/

namespace HftPlatform.HftAiRuntime

open Lib

variable {β : Type}

/-- What `Consumer.poll` returns, if it does not raise a `KafkaException`. -/
inductive Poll (β : Type)
  | exception
  | nothing
  | message (error : Bool) (value : Option β)

/-- The payload that a turn of `_poll_loop` hands over. -/
def Poll.payload : Poll β → Option β
  | .exception => none
  | .nothing => none
  | .message error value => if error then none else value

/-- Where the thread stands: before the test of `_running`, in `poll`, or at its end. -/
inductive Thread
  | testing
  | polling
  | ended

/-- Whether the service waits in `__anext__`. -/
inductive Iteration
  | idle
  | waiting
  | woken

/-- What the loop is to run. The item of a put is `None` if it is to stop the iteration. -/
inductive Handle (β : Type)
  | callback (payload : β)
  | put (item : Option β)
  | get

/-- The consumer: its queue, its polling thread, and who waits for it. -/
structure AsyncKafkaConsumer (β : Type) where
  running : Bool := true
  thread : Thread := .testing
  ready : List (Handle β) := []
  queue : List (Option β) := []
  putters : List (Option β) := []
  iteration : Iteration := .idle

/-- What happens next. -/
inductive Action (β : Type)
  | test
  | poll (outcome : Poll β)
  | turn
  | next
  | stop

/-- What a step is seen to do. -/
inductive Event (β : Type)
  | polled (payload : β)
  | yielded (payload : β)
  | stopIteration
  deriving DecidableEq

namespace AsyncKafkaConsumer

variable (c : AsyncKafkaConsumer β)

/-! ### The queue of `asyncio` -/

section Queue

variable (queueSize : ℤ)

/-- A size that is not positive is no limit. -/
def full : Bool := 0 < queueSize ∧ queueSize ≤ c.queue.length

/-- An item is put without waiting. -/
def putNowait (item : Option β) : AsyncKafkaConsumer β :=
  match c.iteration with
  | .waiting => { c with
      queue := c.queue ++ [item]
      iteration := .woken
      ready := c.ready ++ [.get] }
  | _ => { c with queue := c.queue ++ [item] }

/-- A put that meets a full queue waits, also when it had been woken. -/
def put (item : Option β) : AsyncKafkaConsumer β :=
  if c.full queueSize then { c with putters := c.putters ++ [item] } else c.putNowait item

/-- The first of those who wait to put may go on. -/
def wakeupPutter : AsyncKafkaConsumer β :=
  match c.putters with
  | [] => c
  | item :: putters => { c with putters, ready := c.ready ++ [.put item] }

/-- The `get` of an iteration, and what the iteration makes of the item. -/
def get : AsyncKafkaConsumer β × Option (Event β) :=
  match c.queue with
  | [] => ({ c with iteration := .waiting }, none)
  | some payload :: queue =>
      ({ c with queue, iteration := .idle }.wakeupPutter, some (.yielded payload))
  | none :: queue => ({ c with queue, iteration := .idle }.wakeupPutter, some .stopIteration)

/-! ### The consumer -/

/-- The consumer after an action, and what is seen of it. -/
def step : Action β → AsyncKafkaConsumer β × Option (Event β)
  | .test =>
      match c.thread with
      | .testing => ({ c with thread := if c.running then .polling else .ended }, none)
      | _ => (c, none)
  | .poll outcome =>
      match c.thread, outcome.payload with
      | .polling, some payload =>
          ({ c with thread := .testing, ready := c.ready ++ [.callback payload] },
            some (.polled payload))
      | .polling, none => ({ c with thread := .testing }, none)
      | _, _ => (c, none)
  | .turn =>
      match c.ready with
      | [] => (c, none)
      | .callback payload :: ready => ({ c with ready := ready ++ [.put (some payload)] }, none)
      | .put item :: ready => ({ c with ready }.put queueSize item, none)
      | .get :: ready => { c with ready }.get
  | .next =>
      match c.iteration with
      | .idle => c.get
      | _ => (c, none)
  | .stop => ({ c with running := false }.put queueSize none, none)

end Queue

end AsyncKafkaConsumer

open AsyncKafkaConsumer

/-- What a run of a new consumer is seen to do, in order. -/
def trace (queueSize : ℤ) (actions : List (Action β)) : List (Event β) :=
  (Machine.run (fun c => step c queueSize) {} actions).2.reduceOption

/-- The message that was polled, if it was that. -/
def Event.polledPayload : Event β → Option β
  | .polled payload => some payload
  | _ => none

/-- The message that was yielded, if it was that. -/
def Event.yieldedPayload : Event β → Option β
  | .yielded payload => some payload
  | _ => none

/-- The messages that were polled. -/
def polled (events : List (Event β)) : List β := events.filterMap Event.polledPayload

/-- The messages that were yielded. -/
def yielded (events : List (Event β)) : List β := events.filterMap Event.yieldedPayload

/-- At most one message more than the queue holds is polled and not yet yielded, and messages are
yielded in the order in which they were polled. -/
def Buffers (queueSize : ℤ) (events : List (Event β)) : Prop :=
  (polled events).length ≤ (yielded events).length + (queueSize + 1) ∧
    yielded events <+: polled events

/-- The message that a handle is to put. -/
def Handle.message : Handle β → Option β
  | .callback payload => some payload
  | .put item => item
  | .get => none

/-- The messages that were handed over and are not in the queue. -/
def AsyncKafkaConsumer.pending (c : AsyncKafkaConsumer β) : List β :=
  c.ready.filterMap Handle.message ++ c.putters.reduceOption

/-- A message is polled only when no put is pending. -/
def awaited (c : AsyncKafkaConsumer β) : Action β → Bool
  | .poll outcome => outcome.payload.isSome → c.pending.isEmpty
  | _ => true

/-! ### Runs that wait for their puts -/

/-- The messages were yielded or are queued as they were polled, but for those in `rest`, of which
there is at most one. -/
def Accounted (events : List (Event β)) (queue : List (Option β)) (rest : List β) : Prop :=
  ∃ last : List β, polled events = yielded events ++ queue.reduceOption ++ last ∧
    last.Perm rest ∧ last.length ≤ 1

/-- The messages of a consumer are accounted for, and its queue keeps to its size. -/
structure Orderly (queueSize : ℤ) (events : List (Event β)) (c : AsyncKafkaConsumer β) : Prop where
  accounted : Accounted events c.queue c.pending
  capacity : c.queue.length ≤ queueSize

section Steps

variable {queueSize : ℤ} {events : List (Event β)} {c c' : AsyncKafkaConsumer β}
  {queue : List (Option β)} {rest rest' : List β}

/-- The rest may be in any order. -/
theorem Accounted.perm (h : Accounted events queue rest) (hperm : rest.Perm rest') :
    Accounted events queue rest' := by
  obtain ⟨last, hpolled, hlast, hlength⟩ := h
  exact ⟨last, hpolled, hlast.trans hperm, hlength⟩

/-- What the loop does without the queue. -/
theorem Orderly.handle (h : Orderly queueSize events c) (hqueue : c'.queue = c.queue)
    (hpending : c.pending.Perm c'.pending) : Orderly queueSize events c' where
  accounted := hqueue ▸ h.accounted.perm hpending
  capacity := hqueue ▸ h.capacity

/-- A step that is not seen. -/
theorem Orderly.unseen (h : Orderly queueSize events c) :
    Orderly queueSize (events ++ Option.toList none) c := by
  rwa [Option.toList_none, List.append_nil]

/-- The message of the next handle is pending, and those of the others. -/
theorem pending_of_ready {handle : Handle β} {ready : List (Handle β)}
    (hready : c.ready = handle :: ready) :
    c.pending = handle.message.toList ++ AsyncKafkaConsumer.pending { c with ready } := by
  rw [AsyncKafkaConsumer.pending, AsyncKafkaConsumer.pending, hready, List.filterMap_cons]
  cases handle.message <;> rfl

/-- Putting leaves those who wait alone. -/
theorem pending_putNowait (item : Option β) : (c.putNowait item).pending = c.pending := by
  rw [AsyncKafkaConsumer.putNowait]
  split <;> simp [AsyncKafkaConsumer.pending, Handle.message]

/-- The item is the last of the queue. -/
theorem queue_putNowait (item : Option β) : (c.putNowait item).queue = c.queue ++ [item] := by
  rw [AsyncKafkaConsumer.putNowait]
  split <;> rfl

/-- Waking leaves the queue alone. -/
theorem queue_wakeupPutter : c.wakeupPutter.queue = c.queue := by
  rw [AsyncKafkaConsumer.wakeupPutter]
  split <;> rfl

/-- A put that is woken stays pending. -/
theorem pending_wakeupPutter : c.pending.Perm c.wakeupPutter.pending := by
  rw [AsyncKafkaConsumer.wakeupPutter]
  split
  · exact .refl _
  · rename_i item putters hputters
    cases item <;> simp [AsyncKafkaConsumer.pending, hputters, Handle.message, List.filterMap_cons]

/-- **A put** takes the one message that is pending, or it is none. -/
theorem Orderly.put {item : Option β} (hsize : 1 ≤ queueSize)
    (haccounted : Accounted events c.queue (item.toList ++ c.pending))
    (hcapacity : c.queue.length ≤ queueSize) : Orderly queueSize events (c.put queueSize item) := by
  rw [AsyncKafkaConsumer.put]
  split
  · refine ⟨haccounted.perm ?_, hcapacity⟩
    rw [AsyncKafkaConsumer.pending, AsyncKafkaConsumer.pending, List.reduceOption_append,
      List.reduceOption_singleton, ← List.append_assoc (c.ready.filterMap Handle.message)]
    exact List.perm_append_comm
  · rename_i hfull
    rw [AsyncKafkaConsumer.full, decide_eq_true_eq] at hfull
    constructor
    · rw [queue_putNowait, pending_putNowait]
      obtain ⟨last, hpolled, hlast, hlength⟩ := haccounted
      cases item with
      | none => exact ⟨last, by simpa [List.reduceOption_append] using hpolled, hlast, hlength⟩
      | some payload =>
          have hone : last.length = c.pending.length + 1 := hlast.length_eq
          have hnone : c.pending = [] := List.eq_nil_of_length_eq_zero (by omega)
          rw [hnone] at hlast ⊢
          obtain rfl := List.perm_singleton.mp hlast
          exact ⟨[], by simpa [List.reduceOption_append] using hpolled, .refl _, Nat.zero_le _⟩
    · rw [queue_putNowait, List.length_append, List.length_singleton]
      omega

/-- One event more. -/
theorem polled_concat (e : Event β) :
    polled (events ++ [e]) = polled events ++ e.polledPayload.toList := by
  rw [polled, List.filterMap_append]
  cases e <;> rfl

/-- The same for what was yielded. -/
theorem yielded_concat (e : Event β) :
    yielded (events ++ [e]) = yielded events ++ e.yieldedPayload.toList := by
  rw [yielded, List.filterMap_append]
  cases e <;> rfl

/-- **A get** yields the oldest message of the queue. -/
theorem Orderly.get (h : Orderly queueSize events c) :
    Orderly queueSize (events ++ c.get.2.toList) c.get.1 := by
  obtain ⟨⟨last, hpolled, hlast, hlength⟩, hcapacity⟩ := h
  rw [AsyncKafkaConsumer.get]
  split
  · rename_i hqueue
    rw [Option.toList_none, List.append_nil]
    exact ⟨⟨last, hqueue ▸ hpolled, hlast, hlength⟩, hqueue ▸ hcapacity⟩
  all_goals
    rename_i queue hqueue
    rw [Option.toList_some]
    rw [hqueue] at hpolled hcapacity
    have hpending := pending_wakeupPutter (c := { c with queue, iteration := .idle })
    refine ⟨⟨last, ?_, hlast.trans hpending, hlength⟩, ?_⟩
    · rw [polled_concat, yielded_concat, queue_wakeupPutter, hpolled]
      simp [Event.polledPayload, Event.yieldedPayload]
    · rw [queue_wakeupPutter]
      rw [List.length_cons] at hcapacity
      dsimp only
      omega

/-- A message is polled. -/
theorem Orderly.poll {payload : β} {thread : Thread} (h : Orderly queueSize events c)
    (hnone : c.pending = []) : Orderly queueSize (events ++ [.polled payload])
      { c with thread, ready := c.ready ++ [.callback payload] } := by
  obtain ⟨⟨last, hpolled, hlast, -⟩, hcapacity⟩ := h
  rw [hnone, List.perm_nil] at hlast
  obtain ⟨hready, hputters⟩ := List.append_eq_nil_iff.mp hnone
  refine ⟨⟨[payload], ?_, ?_, Nat.le_refl 1⟩, hcapacity⟩
  · rw [polled_concat, yielded_concat, hpolled, hlast]
    simp [Event.polledPayload, Event.yieldedPayload]
  · rw [AsyncKafkaConsumer.pending, List.filterMap_append, hready, hputters]
    exact .refl _

/-- **What a step keeps of the messages**, if it waits for the puts. -/
theorem Orderly.step (h : Orderly queueSize events c) (hsize : 1 ≤ queueSize) (a : Action β)
    (hawaited : awaited c a = true) :
    Orderly queueSize (events ++ (c.step queueSize a).2.toList) (c.step queueSize a).1 := by
  cases a with
  | test =>
      rw [AsyncKafkaConsumer.step]
      split
      · exact Orderly.unseen (h.handle rfl (.refl _))
      · exact h.unseen
  | poll outcome =>
      rw [AsyncKafkaConsumer.step]
      split
      · rename_i payload _ hpayload
        have hnone : c.pending = [] := by
          have hempty := of_decide_eq_true hawaited (by rw [hpayload]; rfl)
          exact List.isEmpty_iff.mp hempty
        exact h.poll hnone
      · exact Orderly.unseen (h.handle rfl (.refl _))
      · exact h.unseen
  | turn =>
      rw [AsyncKafkaConsumer.step]
      split
      · exact h.unseen
      all_goals
        rename_i hready
        have hpending := pending_of_ready hready
      · refine Orderly.unseen (h.handle rfl (hpending ▸ ?_))
        simpa [AsyncKafkaConsumer.pending, Handle.message] using List.perm_middle.symm
      · exact Orderly.unseen (Orderly.put hsize (hpending ▸ h.accounted) h.capacity)
      · exact Orderly.get (h.handle rfl (hpending ▸ .refl _))
  | next =>
      rw [AsyncKafkaConsumer.step]
      split
      · exact h.get
      · exact h.unseen
  | stop =>
      rw [AsyncKafkaConsumer.step]
      exact Orderly.unseen (Orderly.put hsize h.accounted h.capacity)

end Steps

/-- A run whose puts are awaited keeps the messages in order. -/
theorem orderly_run {queueSize : ℤ} (hsize : 1 ≤ queueSize) {actions : List (Action β)}
    (hawaited : Machine.Along (fun c => step c queueSize) (fun c a => awaited c a = true) {}
      actions) :
    Orderly queueSize (trace queueSize actions)
      (Machine.run (fun c => step c queueSize) {} actions).1 := by
  induction actions using List.reverseRecOn with
  | nil => exact ⟨⟨[], rfl, .refl _, Nat.zero_le _⟩, by simp; omega⟩
  | append_singleton actions a ih =>
      obtain ⟨hpast, hlast⟩ := (Machine.along_concat actions a).mp hawaited
      rw [trace, Machine.run_concat, List.reduceOption_append, List.reduceOption_singleton]
      exact (ih hpast).step hsize a hlast

/-- **A run that waits for its puts buffers as the queue promises.** -/
theorem buffers_of_awaited {queueSize : ℤ} (hsize : 1 ≤ queueSize) {actions : List (Action β)}
    (hawaited : Machine.Along (fun c => step c queueSize) (fun c a => awaited c a = true) {}
      actions) : Buffers queueSize (trace queueSize actions) := by
  obtain ⟨⟨last, hpolled, -, hlength⟩, hcapacity⟩ := orderly_run hsize hawaited
  constructor
  · have hqueue := List.reduceOption_length_le
      (Machine.run (fun c => step c queueSize) {} actions).1.queue
    rw [hpolled, List.length_append, List.length_append]
    omega
  · rw [hpolled, List.append_assoc]
    exact List.prefix_append _ _

/-- The thread polls a payload. -/
def polling (payload : β) : List (Action β) := [.test, .poll (.message false (some payload))]

/-- Messages are polled, put, and yielded one by one. -/
def steady : List (Action ℕ) :=
  .next :: [1, 2, 3].flatMap fun payload => polling payload ++ [.turn, .turn, .turn, .next]

/-- A loop that keeps up buffers one message at a time. -/
theorem buffers_steady : yielded (trace 1 steady) = [1, 2, 3] ∧ Buffers 1 (trace 1 steady) :=
  ⟨by decide, buffers_of_awaited (by decide) (by decide)⟩

/-! ### Runs that do not wait -/

/-- A turn of the thread polls a message, and leaves the thread as it was. -/
theorem run_polling {queueSize : ℤ} {c : AsyncKafkaConsumer β} (hrunning : c.running = true)
    (hthread : c.thread = .testing) (payload : β) :
    Machine.run (fun c => step c queueSize) c (polling payload) =
      ({ c with ready := c.ready ++ [.callback payload] }, [none, some (.polled payload)]) := by
  simp [Machine.run, polling, step, Poll.payload, hrunning, hthread]

/-- **While the loop is busy, the thread polls on**, whatever the size of the queue. -/
theorem polled_busy (queueSize : ℤ) (payloads : List β) :
    polled (trace queueSize (payloads.flatMap polling)) = payloads ∧
      yielded (trace queueSize (payloads.flatMap polling)) = [] := by
  have hrun : (Machine.run (fun c => step c queueSize) {} (payloads.flatMap polling)).1.running =
        true ∧
      (Machine.run (fun c => step c queueSize) {} (payloads.flatMap polling)).1.thread = .testing ∧
      trace queueSize (payloads.flatMap polling) = payloads.map .polled := by
    induction payloads using List.reverseRecOn with
    | nil => exact ⟨rfl, rfl, rfl⟩
    | append_singleton payloads payload ih =>
        obtain ⟨hrunning, hthread, htrace⟩ := ih
        rw [trace] at htrace
        rw [trace, List.flatMap_append, List.flatMap_singleton, Machine.run_append,
          run_polling hrunning hthread, List.reduceOption_append, htrace, List.map_append]
        exact ⟨hrunning, hthread, rfl⟩
  rw [hrun.2.2, polled, yielded, List.filterMap_map, List.filterMap_map]
  exact ⟨List.filterMap_some, List.filterMap_eq_nil_iff.mpr fun _ _ => rfl⟩

/-- Two messages are under way when the third is polled, and the first is taken just before the
third is put. -/
def overtaking : List (Action ℕ) :=
  polling 1 ++ polling 2 ++ [.turn, .turn] ++ polling 3 ++
    [.turn, .turn, .turn, .next, .turn, .turn, .next, .turn, .next]

/-- With room for one message, three are polled before any is put, and the third may overtake the
second. -/
theorem buffers_overrun :
    (polled (trace 1 ([1, 2, 3].flatMap polling)) = [1, 2, 3] ∧
      yielded (trace 1 ([1, 2, 3].flatMap polling)) = [] ∧
      ¬ Buffers 1 (trace 1 ([1, 2, 3].flatMap polling))) ∧
    (polled (trace 1 overtaking) = [1, 2, 3] ∧ yielded (trace 1 overtaking) = [1, 3, 2] ∧
      ¬ Buffers 1 (trace 1 overtaking)) := by
  refine ⟨⟨by decide, by decide, ?_⟩, by decide, by decide, ?_⟩
  · rw [Buffers, not_and_or]
    exact Or.inl (by decide)
  · rw [Buffers, not_and_or]
    exact Or.inr (by decide)

end HftPlatform.HftAiRuntime
