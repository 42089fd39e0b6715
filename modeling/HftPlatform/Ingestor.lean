import HftPlatform.Lib.Guards
import HftPlatform.Lib.Machine
import HftPlatform.RedisKeys
import HftPlatform.WsFrames
import Mathlib.Data.List.ReduceOption

/-!
# The tasks of the market data service

`main` and `handle_text` of `services/marketdata_ingestor/src/main.rs`, in atomic steps: any number
of workers handle frames, and a task of its own flushes the statistics of every symbol once a
second. They share two counters and the map of the statistics.

A guard on an entry of the map keeps all other tasks from it. `handle_text` holds one from `entry`
to the end of the block that records an event, and the flush one from entry to entry of its loop.
(The map locks a shard at a time, so it keeps more tasks waiting than are kept here.) The clock, and
whether the producer takes a record, are part of the call.

## Main definitions

* `step`: a worker takes a frame or does its next step, or the flush does.
* `trace`: what was done in a run, in order.

## Main results

* `handleText_eq_run`: a worker that no other task meets does what `handleText` does.
* `guarded_run`: the holder of an entry is the only task that stands in its block.
-/

namespace HftPlatform.MarketdataIngestor.Tasks

open Lib

/-- Where a worker stands: before a frame, or in `handle_text`. -/
inductive Pc
  | idle
  | numbering (text : String) (call : Call) (nextTradeSeq : ℕ)
  | normalizing (text : String) (call : Call) (nextTradeSeq nextBookSeq : ℕ)
  | entering (event : NormalizedEvent) (call : Call)
  | entered (event : NormalizedEvent) (call : Call)
  | stored (event : NormalizedEvent) (call : Call)
  | counted (event : NormalizedEvent) (call : Call)
  | publishing (event : NormalizedEvent) (call : Call)
  | panicked

/-- Where the flush stands: between two entries, or in the body of its loop. -/
inductive FlushPc
  | idle
  | entered (symbol : String)
  | loaded (symbol : String) (lastTs : ℕ)
  | counted (symbol : String) (lastTs count : ℕ)

/-- Who may hold the guard of an entry. -/
inductive Agent
  | worker (id : ℕ)
  | flush
  deriving DecidableEq

/-- The state that the workers and the flush share, and where each of them is. -/
structure State extends Worker where
  workers : ℕ → Pc
  flush : FlushPc
  /-- The task that holds a guard on the entry of a symbol. -/
  holder : String → Option Agent

/-- Nobody has begun, and no guard is held. -/
def State.init : State := { Worker.init with
  workers := fun _ => .idle
  flush := .idle
  holder := fun _ => none }

/-- What happens next: a worker takes a frame or goes on, or the flush comes to an entry or goes
on. -/
inductive Action
  | receive (worker : ℕ) (text : String) (call : Call)
  | advance (worker : ℕ)
  | visit (symbol : String)
  | flush

/-- What a step is seen to do. -/
inductive Event
  /-- A worker takes a number for a frame. -/
  | took (worker : ℕ)
  | counted (event : NormalizedEvent) (call : Call)
  | sent (worker : ℕ) (record : Record)
  /-- The fields that the flush writes to the key of a symbol in Redis. -/
  | flushed (symbol key : String) (lastMsgTs msgRate : ℕ) (latencyMs : Binary64)

namespace State

variable (s : State)

/-- The statistics of a symbol, which are the default before its first event. -/
def entry (symbol : String) : HeartbeatStats := (s.stats symbol).getD {}

/-- The entry of a symbol is overwritten. -/
def setEntry (symbol : String) (stats : HeartbeatStats) : State :=
  { s with stats := Function.update s.stats symbol (some stats) }

/-- An agent takes the guard of an entry. -/
def hold (symbol : String) (agent : Agent) : State :=
  { s with holder := Function.update s.holder symbol (some agent) }

/-- The guard of an entry is given back. -/
def release (symbol : String) : State :=
  { s with holder := Function.update s.holder symbol none }

/-- A worker goes on to another point. -/
def goto (worker : ℕ) (pc : Pc) : State :=
  { s with workers := Function.update s.workers worker pc }

end State

section Steps

variable (ps : Parsers) (cfg : Config) (rt : Rounding)

/-- `latency_ms as u64` -/
def latencyMs (event : NormalizedEvent) (call : Call) : ℕ :=
  Wire.toWord (saturate (call.recvTimeNs.tdiv 1000000 - event.exchangeEventTimeMs))

/-- The next step of a worker. One that finds a guard on its entry waits. -/
def advance (s : State) (w : ℕ) : State × Option Event :=
  match s.workers w with
  | .idle => (s, none)
  | .panicked => (s, none)
  | .numbering text call nextTradeSeq =>
      let nextBookSeq := (s.bookSeq + 1) % 2 ^ 64
      ({ s with bookSeq := nextBookSeq }.goto w
        (.normalizing text call nextTradeSeq nextBookSeq), none)
  | .normalizing text call nextTradeSeq nextBookSeq =>
      match normalize ps text call.recvTimeNs nextTradeSeq nextBookSeq call.newTraceId with
      | .panic => (s.goto w .panicked, none)
      | .error => (s.goto w .idle, none)
      | .ok none => (s.goto w .idle, none)
      | .ok (some event) => (s.goto w (.entering event call), none)
  | .entering event call =>
      match s.holder event.symbol with
      | some _ => (s, none)
      | none =>
          (((s.setEntry event.symbol (s.entry event.symbol)).hold event.symbol (.worker w)).goto w
            (.entered event call), none)
  | .entered event call =>
      let stats := s.entry event.symbol
      ((s.setEntry event.symbol { stats with lastMsgTs := Wire.toWord call.recvTimeNs }).goto w
        (.stored event call), none)
  | .stored event call =>
      let stats := s.entry event.symbol
      ((s.setEntry event.symbol { stats with msgCount := (stats.msgCount + 1) % 2 ^ 64 }).goto w
        (.counted event call), some (.counted event call))
  | .counted event call =>
      let stats := s.entry event.symbol
      let latencySumMs := (stats.latencySumMs + latencyMs event call) % 2 ^ 64
      (((s.setEntry event.symbol { stats with latencySumMs }).release event.symbol).goto w
        (.publishing event call), none)
  | .publishing event call =>
      if call.published then
        ({ s with sent := s.sent ++ [event.record cfg] }.goto w .idle,
          some (.sent w (event.record cfg)))
      else (s.goto w .idle, none)

/-- The next step of the flush, on the entry that it visits. -/
def flush (s : State) : State × Option Event :=
  match s.flush with
  | .idle => (s, none)
  | .entered symbol =>
      ({ s with flush := .loaded symbol (s.entry symbol).lastMsgTs }, none)
  | .loaded symbol lastTs =>
      ({ s.setEntry symbol { s.entry symbol with msgCount := 0 } with
        flush := .counted symbol lastTs (s.entry symbol).msgCount }, none)
  | .counted symbol lastTs count =>
      let latSum := (s.entry symbol).latencySumMs
      let avgLat := if count > 0 then rt.div (rt.lit latSum) (rt.lit count) else .zero
      ({ (s.setEntry symbol { s.entry symbol with latencySumMs := 0 }).release symbol with
          flush := .idle },
        some (.flushed symbol (Keys.mdHealth "binance" symbol) lastTs count avgLat))

/-- The state after an action, and what is seen of the action. -/
def step (s : State) : Action → State × Option Event
  | .receive w text call =>
      match s.workers w with
      | .idle =>
          let nextTradeSeq := (s.tradeSeq + 1) % 2 ^ 64
          ({ s with tradeSeq := nextTradeSeq }.goto w (.numbering text call nextTradeSeq),
            some (.took w))
      | _ => (s, none)
  | .advance w => advance ps cfg s w
  | .visit symbol =>
      match s.flush, s.stats symbol, s.holder symbol with
      | .idle, some _, none => ({ s.hold symbol .flush with flush := .entered symbol }, none)
      | _, _, _ => (s, none)
  | .flush => flush rt s

/-- What is seen of some actions. -/
def trace (actions : List Action) : List Event :=
  (Machine.run (step ps cfg rt) State.init actions).2.reduceOption

/-- The last action of a run meets the state that the others left. -/
theorem trace_concat (actions : List Action) (a : Action) :
    trace ps cfg rt (actions ++ [a]) = trace ps cfg rt actions ++
      (step ps cfg rt (Machine.run (step ps cfg rt) State.init actions).1 a).2.toList := by
  rw [trace, trace, Machine.run_concat, List.reduceOption_append, List.reduceOption_singleton]

end Steps

/-! ### A worker alone -/

section Alone

variable {ps : Parsers} {cfg : Config} {rt : Rounding} {s : State} {w : ℕ}

/-- The worker is where it went. -/
@[simp] theorem workers_goto (pc : Pc) : (s.goto w pc).workers w = pc :=
  Function.update_self ..

/-- Only the last point counts. -/
@[simp] theorem goto_goto (pc pc' : Pc) : (s.goto w pc).goto w pc' = s.goto w pc' := by
  simp [State.goto]

/-- The steps of a worker on its own. -/
theorem run_advance (n : ℕ) :
    (Machine.run (step ps cfg rt) s (List.replicate (n + 1) (.advance w))).1 =
      (Machine.run (step ps cfg rt) (advance ps cfg s w).1 (List.replicate n (.advance w))).1 :=
  rfl

/-- A worker that is done waits for the next frame. -/
theorem run_advance_idle (n : ℕ) (hdone : s.workers w = .idle ∨ s.workers w = .panicked) :
    (Machine.run (step ps cfg rt) s (List.replicate n (.advance w))).1 = s := by
  have hstay : (advance ps cfg s w).1 = s := by
    rcases hdone with h | h <;> rw [advance, h]
  induction n with
  | zero => rfl
  | succ n ih => rw [run_advance, hstay, ih]

/-- Recording and publishing an event, as `handleText` has it. -/
theorem run_entering (event : NormalizedEvent) (call : Call)
    (hpc : s.workers w = .entering event call) (hfree : s.holder = fun _ => none) :
    (Machine.run (step ps cfg rt) s (List.replicate 5 (.advance w))).1 =
      { s.goto w .idle with
        stats := Function.update s.stats event.symbol
          (some ((s.entry event.symbol).record call.recvTimeNs event.exchangeEventTimeMs))
        sent := if call.published then s.sent ++ [event.record cfg] else s.sent } := by
  rw [run_advance, advance]
  simp only [hpc, hfree]
  rw [run_advance, advance]
  simp only [workers_goto]
  rw [run_advance, advance]
  simp only [workers_goto]
  rw [run_advance, advance]
  simp only [workers_goto]
  rw [run_advance, advance]
  simp only [workers_goto]
  split <;> simp [State.goto, State.hold, State.release, State.setEntry, State.entry,
    HeartbeatStats.record, latencyMs, hfree]

/-- Where a call leaves its worker. -/
def Pc.after : Outcome Unit → Pc
  | .ok () => .idle
  | .error => .idle
  | .panic => .panicked

/-- **A worker that no other task meets does what `handleText` does.** -/
theorem handleText_eq_run (text : String) (call : Call) (hidle : s.workers w = .idle)
    (hfree : s.holder = fun _ => none) :
    (Machine.run (step ps cfg rt) s (.receive w text call :: List.replicate 7 (.advance w))).1 =
      { s.goto w (Pc.after (handleText ps cfg text call s.toWorker).1) with
        toWorker := (handleText ps cfg text call s.toWorker).2 } := by
  rw [Machine.run]
  simp only [step, hidle]
  rw [run_advance, advance]
  simp only [workers_goto]
  rw [run_advance, advance, handleText]
  simp only [workers_goto]
  simp only [State.goto]
  generalize (s.tradeSeq + 1) % 2 ^ 64 = tradeSeq, (s.bookSeq + 1) % 2 ^ 64 = bookSeq
  cases normalize ps text call.recvTimeNs tradeSeq bookSeq call.newTraceId with
  | panic =>
      rw [run_advance_idle _ (Or.inr (by simp))]
      simp [Pc.after]
  | error =>
      rw [run_advance_idle _ (Or.inl (by simp))]
      simp [Pc.after]
  | ok event =>
      cases event with
      | none =>
          rw [run_advance_idle _ (Or.inl (by simp))]
          simp [Pc.after]
      | some event =>
          dsimp only
          refine Eq.trans (run_entering event call (Function.update_self ..) hfree) ?_
          split <;> simp [State.goto, State.entry, Pc.after]

end Alone

/-! ### The guards -/

/-- The entry on which a worker holds a guard. -/
def Pc.guard : Pc → Option String
  | .entered event _ | .stored event _ | .counted event _ => some event.symbol
  | _ => none

/-- The guard that the flush holds at a point. -/
def FlushPc.guard : FlushPc → Option String
  | .entered symbol | .loaded symbol _ | .counted symbol _ _ => some symbol
  | .idle => none

/-- The guard that an agent holds. -/
def State.guard (s : State) : Agent → Option String
  | .worker w => (s.workers w).guard
  | .flush => s.flush.guard

/-- The map and the tasks agree on who holds which entry. -/
def Guarded (s : State) : Prop := Guards s.holder s.guard

section Guarded

variable {s : State} {w : ℕ} {pc : Pc}

/-- Only the guard of the worker changes with its point. -/
theorem guard_goto : (s.goto w pc).guard = Function.update s.guard (.worker w) pc.guard := by
  funext agent
  cases agent with
  | flush => simp [State.guard, State.goto]
  | worker i =>
      rcases eq_or_ne i w with rfl | hi
      · simp [State.guard, State.goto]
      · have hagent : Agent.worker i ≠ .worker w := fun heq => hi (Agent.worker.inj heq)
        simp [State.guard, State.goto, Function.update_of_ne hi, Function.update_of_ne hagent]

/-- Only the guard of the flush changes with its point. -/
theorem guard_flush {pc : FlushPc} :
    State.guard { s with flush := pc } = Function.update s.guard .flush pc.guard := by
  funext agent
  cases agent <;> simp [State.guard]

namespace Guarded

/-- At first nobody holds a guard. -/
theorem init : Guarded State.init := by
  intro symbol agent
  cases agent <;> simp [State.init, State.guard, Pc.guard, FlushPc.guard]

/-- A step that neither takes nor gives back a guard. -/
theorem goto (h : Guarded s) (hsame : pc.guard = (s.workers w).guard) : Guarded (s.goto w pc) := by
  rw [Guarded, guard_goto, hsame]
  exact (Function.update_eq_self (Agent.worker w) s.guard).symm ▸ h

/-- The flush goes on with the guard that it has. -/
theorem flushGoto {pc : FlushPc} (h : Guarded s) (hsame : pc.guard = s.flush.guard) :
    Guarded { s with flush := pc } := by
  rw [Guarded, guard_flush, hsame]
  exact (Function.update_eq_self Agent.flush s.guard).symm ▸ h

/-- A worker that goes on keeps the guards apart. -/
theorem advance (h : Guarded s) (ps : Parsers) (cfg : Config) (w : ℕ) :
    Guarded (advance ps cfg s w).1 := by
  rw [Tasks.advance]
  split
  · exact h
  · exact h
  all_goals rename_i hpc
  · exact h.goto (congrArg Pc.guard hpc).symm
  · split <;> exact h.goto (congrArg Pc.guard hpc).symm
  · split
    · exact h
    · rename_i hfree
      rw [Guarded, guard_goto]
      exact Guards.enter h hfree (congrArg Pc.guard hpc)
  · exact h.goto (congrArg Pc.guard hpc).symm
  · exact h.goto (congrArg Pc.guard hpc).symm
  · rw [Guarded, guard_goto]
    exact Guards.leave h (congrArg Pc.guard hpc)
  · split <;> exact h.goto (congrArg Pc.guard hpc).symm

/-- The flush keeps the guards apart. -/
theorem flush (h : Guarded s) (rt : Rounding) : Guarded (flush rt s).1 := by
  rw [Tasks.flush]
  split
  · exact h
  all_goals rename_i hpc
  · exact h.flushGoto (congrArg FlushPc.guard hpc).symm
  · exact h.flushGoto (congrArg FlushPc.guard hpc).symm
  · rw [Guarded, guard_flush]
    exact Guards.leave h (congrArg FlushPc.guard hpc)

/-- Every action keeps the guards apart. -/
theorem step (h : Guarded s) (ps : Parsers) (cfg : Config) (rt : Rounding) (a : Action) :
    Guarded (step ps cfg rt s a).1 := by
  cases a with
  | advance w => exact h.advance ps cfg w
  | flush => exact h.flush rt
  | receive w text call =>
      rw [Tasks.step]
      split
      · rename_i hpc
        exact h.goto (congrArg Pc.guard hpc).symm
      · exact h
  | visit symbol =>
      rw [Tasks.step]
      split
      · rename_i hidle _ hfree
        rw [Guarded, guard_flush]
        exact Guards.enter h hfree (congrArg FlushPc.guard hidle)
      · exact h

end Guarded

/-- **The holder of an entry is the only task that stands in its block.** -/
theorem guarded_run (ps : Parsers) (cfg : Config) (rt : Rounding) (actions : List Action) :
    Guarded (Machine.run (step ps cfg rt) State.init actions).1 :=
  Machine.run_induction (P := fun _ _ s => Guarded s) Guarded.init
    (fun _ _ _ a h => h.step ps cfg rt a) actions

end Guarded

/-! ### A run -/

/-- The frame of a trade at a time. -/
def tradeFrameAt (timeMs : ℕ) : String :=
  "\x7b\"stream\":\"btcusdt@trade\",\"data\":\x7b\"E\":" ++ toString timeMs ++
    ",\"s\":\"BTCUSDT\",\"t\":7,\"p\":\"60000\",\"q\":\"1\",\"m\":false\x7d\x7d"

/-- What is read from the frame of such a trade. -/
def tradeMessageAt (timeMs : ℕ) : Combined where
  stream := "btcusdt@trade"
  data := .obj [("E", .posInt (.ofNat timeMs)), ("s", .str "BTCUSDT"), ("t", .posInt 7),
    ("p", .str "60000"), ("q", .str "1"), ("m", .bool false)]

/-- Parsers that accept the frames of trades at some times, and read whole numbers. -/
def tradeParsers (timesMs : List ℕ) : Parsers where
  fromStr text := (timesMs.find? fun timeMs => tradeFrameAt timeMs = text).map tradeMessageAt
  parseF64 s := s.toNat?.map fun n => .fin n

/-- A second after the epoch, with a producer that takes the record. -/
def oneSecond : Call := ⟨1000000000, "", true⟩

/-- A worker takes a frame, and handles it alone. -/
def handling (worker : ℕ) (text : String) : List Action :=
  .receive worker text oneSecond :: List.replicate 7 (.advance worker)

end HftPlatform.MarketdataIngestor.Tasks
