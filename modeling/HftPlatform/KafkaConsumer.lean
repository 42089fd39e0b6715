import HftPlatform.Lib.Machine
import HftPlatform.Lib.Trace
import HftPlatform.Lib.Wire
import Mathlib.Data.Int.Notation
import Mathlib.Logic.Function.Basic
import Mathlib.Tactic.Cases

/-!
# The consumer loop

`libs/rust/hft_mq`: a message is given to the handler until it succeeds or its retries are spent,
then its offset is committed; a message that exhausts its retries goes to the dead-letter topic
before that, if there is one.

A turn of the loop takes what the outside does in it: the partition that is polled, what each call
of the handler meets, and whether the dead-letter topic and the broker take what they are sent. A
partition is delivered from its committed position.

## Main definitions

* `KafkaConsumer.runWithRetry`, `KafkaConsumer.turn`: the retries of a message, and the loop body.

## Main results

* `KafkaConsumer.turn_cases`: all that a turn can do.
* `KafkaConsumer.run_induction`: what every call of the handler keeps, a run keeps.
* `KafkaConsumer.at_least_once`: with a dead-letter topic whose failure halts the loop, an offset
  is committed only after its message was handled or dead-lettered.
-/

namespace HftPlatform.Mq

open Lib
open Wire (utf8)

/-! ### Messages -/

/-- An owned copy of a message. -/
structure MessageCtx where
  topic : String
  key : Option (List UInt8)
  payload : List UInt8
  headers : List (String × List UInt8)
  timestampMs : Option ℤ
  partition : ℤ
  offset : ℤ
  deriving DecidableEq

/-- The partition of a message, with its topic. -/
def MessageCtx.source (ctx : MessageCtx) : String × ℤ := (ctx.topic, ctx.partition)

/-- What the partitions hold by the end of the run, each in the order of its offsets. -/
structure Broker where
  log : String × ℤ → List MessageCtx
  source_eq : ∀ source, ∀ ctx ∈ log source, ctx.source = source
  increasing : ∀ source, (log source).Pairwise (·.offset < ·.offset)

/-- The first message of a partition at or after a position. -/
def Broker.next (broker : Broker) (source : String × ℤ) (position : ℤ) : Option MessageCtx :=
  (broker.log source).find? fun ctx => position ≤ ctx.offset

/-! ### Configuration -/

/-- How often and how late a message is tried again. -/
structure RetryPolicy where
  maxRetries : ℕ
  initialBackoffMs : ℕ
  maxBackoffMs : ℕ

/-- The pause after a failed attempt: it doubles each time, up to a cap. -/
def RetryPolicy.backoffMs (policy : RetryPolicy) (attempt : ℕ) : ℕ :=
  min (min (policy.initialBackoffMs * 2 ^ min attempt 10) (2 ^ 64 - 1)) policy.maxBackoffMs

/-- Where dead letters go, and whether a failure there halts the loop. -/
structure DlqConfig where
  enabled : Bool := false
  topicSuffix : String := ".dlq"
  haltOnFailure : Bool := false

/-- What the loop reads of its configuration. -/
structure KafkaConfig where
  retry : RetryPolicy
  dlq : DlqConfig := {}

/-! ### The dead-letter topic -/

/-- The publisher of dead letters. -/
structure DlqPublisher where
  suffix : String

/-- What is sent to a topic. -/
structure Record where
  topic : String
  key : List UInt8
  payload : List UInt8
  headers : List (String × List UInt8)
  deriving DecidableEq

/-- The record of a message that could not be handled. -/
def DlqPublisher.record (dlq : DlqPublisher) (ctx : MessageCtx) (error : String)
    (failedAtMs : ℕ) : Record where
  topic := ctx.topic ++ dlq.suffix
  key := ctx.key.getD []
  payload := ctx.payload
  headers := ctx.headers ++
    [("dlq.original-topic", utf8 ctx.topic),
      ("dlq.original-partition", utf8 (toString ctx.partition)),
      ("dlq.original-offset", utf8 (toString ctx.offset)), ("dlq.error", utf8 error),
      ("dlq.failed-at-ms", utf8 (toString failedAtMs))]

/-! ### The loop -/

/-- How a call of the handler ends. -/
inductive Outcome
  | ok
  | error (e : String)
  | panic
  deriving DecidableEq

/-- A handler with a state of type `σ`, where an input of type `ι` says what a call meets. -/
abbrev Handler (σ ι : Type) := MessageCtx → ι → σ → Outcome × σ

/-- What is seen of the loop. -/
inductive Event
  | received (ctx : MessageCtx)
  | handled (ctx : MessageCtx) (outcome : Outcome)
  | slept (ms : ℕ)
  | deadLettered (ctx : MessageCtx) (record : Record) (published : Bool)
  | committed (source : String × ℤ) (position : ℤ)
  | commitFailed (source : String × ℤ) (offset : ℤ)
  deriving DecidableEq

/-- The loop runs, has failed, or has panicked. -/
inductive Status
  | running
  | failed (e : String)
  | panicked
  deriving DecidableEq

/-- The consumer. -/
structure KafkaConsumer where
  config : KafkaConfig
  dlq : Option DlqPublisher

/-- The state of a handler, the committed position of each partition, and whether the loop still
runs. -/
structure State (σ : Type) where
  handler : σ
  position : String × ℤ → ℤ
  status : Status := .running

/-- What the outside does in a turn in which a message is received. -/
structure Delivery (ι : Type) where
  source : String × ℤ
  /-- What the calls of the handler meet, the first at `0`. -/
  attempts : ℕ → ι
  failedAtMs : ℕ
  dlq : Except String Unit
  commit : Except String Unit

/-- What a poll gives. -/
inductive Poll (ι : Type)
  | error (e : String)
  | message (delivery : Delivery ι)

/-- The result of handling a message. -/
structure Handled (σ : Type) where
  outcome : Outcome
  handler : σ
  events : List Event

namespace KafkaConsumer

variable {σ ι : Type} (c : KafkaConsumer) (handler : Handler σ ι) (broker : Broker)

/-- The attempts from a given one on, when so many retries are left. -/
def attemptFrom (ctx : MessageCtx) (inputs : ℕ → ι) : ℕ → ℕ → σ → Handled σ
  | left, attempt, h =>
    match handler ctx (inputs attempt) h with
    | (.error e, h') =>
        match left with
        | 0 => ⟨.error e, h', [.handled ctx (.error e)]⟩
        | left + 1 =>
            let rest := attemptFrom ctx inputs left (attempt + 1) h'
            { rest with
              events := .handled ctx (.error e) :: .slept (c.config.retry.backoffMs attempt) ::
                rest.events }
    | (outcome, h') => ⟨outcome, h', [.handled ctx outcome]⟩

/-- A message is tried until it is handled or the tries are used up. -/
def runWithRetry (ctx : MessageCtx) (inputs : ℕ → ι) (h : σ) : Handled σ :=
  c.attemptFrom handler ctx inputs c.config.retry.maxRetries 0 h

/-- The offset of a message is committed, or the loop ends. -/
def commitOffset (s : State σ) (ctx : MessageCtx) (failure : String) :
    Except String Unit → State σ × List Event
  | .ok () =>
      ({ s with position := Function.update s.position ctx.source (ctx.offset + 1) },
        [.committed ctx.source (ctx.offset + 1)])
  | .error _ =>
      ({ s with
          status := .failed (failure ++ " for " ++ ctx.topic ++ "[" ++ toString ctx.partition ++
            "]@" ++ toString ctx.offset) },
        [.commitFailed ctx.source ctx.offset])

/-- A message that could not be handled goes to the dead-letter topic, if there is one, and is
committed. -/
def giveUp (s : State σ) (ctx : MessageCtx) (error : String) (delivery : Delivery ι) :
    State σ × List Event :=
  match c.dlq with
  | none => commitOffset s ctx "fatal: commit failed after DLQ" delivery.commit
  | some dlq =>
      let record := dlq.record ctx error delivery.failedAtMs
      match delivery.dlq with
      | .error e =>
          if c.config.dlq.haltOnFailure then
            ({ s with
                status := .failed ("DLQ publish failed: DLQ publish failed for topic `" ++
                  ctx.topic ++ "`: " ++ e) },
              [.deadLettered ctx record false])
          else
            let (s', events) := commitOffset s ctx "fatal: commit failed after DLQ" delivery.commit
            (s', .deadLettered ctx record false :: events)
      | .ok () =>
          let (s', events) := commitOffset s ctx "fatal: commit failed after DLQ" delivery.commit
          (s', .deadLettered ctx record true :: events)

/-- The body of the loop. -/
def turn (s : State σ) : Poll ι → State σ × List Event
  | .error _ => (s, [])
  | .message delivery =>
      if s.status = .running then
        match broker.next delivery.source (s.position delivery.source) with
        | none => (s, [])
        | some ctx =>
            let result := c.runWithRetry handler ctx delivery.attempts s.handler
            let s := { s with handler := result.handler }
            match result.outcome with
            | .ok =>
                let (s', events) := commitOffset s ctx "fatal: commit failed" delivery.commit
                (s', .received ctx :: result.events ++ events)
            | .error e =>
                let (s', events) := c.giveUp s ctx e delivery
                (s', .received ctx :: result.events ++ events)
            | .panic => ({ s with status := .panicked }, .received ctx :: result.events)
      else (s, [])

/-- The state and the events after the given turns. -/
def run (s : State σ) (polls : List (Poll ι)) : State σ × List Event :=
  ((Machine.run (c.turn handler broker) s polls).1,
    (Machine.run (c.turn handler broker) s polls).2.flatten)

end KafkaConsumer

/-! ### What a turn does -/

/-- A partition is read in order: nothing at or after the position stands before the next
message. -/
theorem Broker.next_spec {broker : Broker} {source : String × ℤ} {position : ℤ} {ctx : MessageCtx}
    (h : broker.next source position = some ctx) :
    ctx ∈ broker.log source ∧ position ≤ ctx.offset ∧
      ∀ ctx' ∈ broker.log source, position ≤ ctx'.offset → ctx'.offset ≤ ctx.offset →
        ctx' = ctx := by
  obtain ⟨hle, before, after, hlog, hbefore⟩ := List.find?_eq_some_iff_append.mp h
  refine ⟨by simp [hlog], by simpa using hle, ?_⟩
  intro ctx' hmem hpos hoffset
  have hincreasing := broker.increasing source
  rw [hlog] at hmem hincreasing
  rcases List.mem_append.mp hmem with hmem | hmem
  · have hlt := hbefore ctx' hmem
    simp [hpos] at hlt
  · rcases List.mem_cons.mp hmem with rfl | hmem
    · rfl
    · have hlt := (List.pairwise_cons.mp (List.pairwise_append.mp hincreasing).2.1).1 ctx' hmem
      omega

/-- The events of the attempts at a message: its receipt, calls of the handler, and pauses. -/
structure Attempts (ctx : MessageCtx) (events : List Event) : Prop where
  exists_handled : ∃ outcome, .handled ctx outcome ∈ events
  only : ∀ e ∈ events, e = .received ctx ∨ (∃ outcome, e = .handled ctx outcome) ∨
    ∃ ms, e = .slept ms

/-- The first attempt follows the receipt. -/
theorem Attempts.receive {ctx : MessageCtx} {events : List Event} (h : Attempts ctx events) :
    Attempts ctx (.received ctx :: events) := by
  obtain ⟨outcome, hmem⟩ := h.exists_handled
  refine ⟨⟨outcome, List.mem_cons_of_mem _ hmem⟩, fun e he => ?_⟩
  rcases List.mem_cons.mp he with rfl | he
  · exact Or.inl rfl
  · exact h.only e he

/-- What stands between the attempts at a message and its commit. -/
inductive Passed (c : KafkaConsumer) (ctx : MessageCtx) (attempts : List Event) :
    List Event → Prop
  | handled : .handled ctx .ok ∈ attempts → Passed c ctx attempts []
  | skipped : c.dlq = none → Passed c ctx attempts []
  | deadLettered (record : Record) (published : Bool) :
      (c.config.dlq.haltOnFailure = true → published = true) →
        Passed c ctx attempts [.deadLettered ctx record published]

namespace KafkaConsumer

variable {σ ι : Type} {c : KafkaConsumer} {handler : Handler σ ι} {broker : Broker}

/-- The attempts of a message, and how the last of them ends. -/
theorem attemptFrom_spec (ctx : MessageCtx) (inputs : ℕ → ι) (left attempt : ℕ) (h : σ) :
    Attempts ctx (c.attemptFrom handler ctx inputs left attempt h).events ∧
      .handled ctx (c.attemptFrom handler ctx inputs left attempt h).outcome ∈
        (c.attemptFrom handler ctx inputs left attempt h).events := by
  induction left generalizing attempt h with
  | zero =>
      rw [attemptFrom]
      split
      · exact ⟨⟨⟨_, List.mem_singleton_self _⟩, by simp⟩, by simp⟩
      · exact ⟨⟨⟨_, List.mem_singleton_self _⟩, by simp⟩, by simp⟩
  | succ left ih =>
      rw [attemptFrom]
      split
      · rename_i e h' _
        obtain ⟨hattempts, hlast⟩ := ih (attempt + 1) h'
        refine ⟨⟨⟨_, List.mem_cons_self⟩, ?_⟩, ?_⟩
        · intro event hevent
          simp only [List.mem_cons] at hevent
          rcases hevent with rfl | rfl | hevent
          · exact Or.inr (Or.inl ⟨_, rfl⟩)
          · exact Or.inr (Or.inr ⟨_, rfl⟩)
          · exact hattempts.only event hevent
        · exact List.mem_cons_of_mem _ (List.mem_cons_of_mem _ hlast)
      · exact ⟨⟨⟨_, List.mem_singleton_self _⟩, by simp⟩, by simp⟩

/-- The same from the receipt on. -/
theorem runWithRetry_spec (handler : Handler σ ι) (ctx : MessageCtx) (inputs : ℕ → ι) (h : σ) :
    Attempts ctx (c.runWithRetry handler ctx inputs h).events ∧
      .handled ctx (c.runWithRetry handler ctx inputs h).outcome ∈
        (c.runWithRetry handler ctx inputs h).events :=
  attemptFrom_spec ctx inputs _ _ h

/-- A commit succeeds, or ends the loop and leaves the positions alone. -/
theorem commitOffset_cases (s : State σ) (ctx : MessageCtx) (failure : String)
    (commit : Except String Unit) :
    commitOffset s ctx failure commit =
        ({ s with position := Function.update s.position ctx.source (ctx.offset + 1) },
          [.committed ctx.source (ctx.offset + 1)]) ∨
      ∃ e, commitOffset s ctx failure commit =
        ({ s with status := .failed e }, [.commitFailed ctx.source ctx.offset]) := by
  cases commit with
  | ok u => exact Or.inl rfl
  | error e => exact Or.inr ⟨_, rfl⟩

/-- What follows the attempts at a message. -/
inductive Ending (c : KafkaConsumer) (ctx : MessageCtx) (attempts : List Event) (s : State σ) :
    State σ × List Event → Prop
  | panicked : Ending c ctx attempts s ({ s with status := .panicked }, attempts)
  | halted (record : Record) (e : String) : c.config.dlq.haltOnFailure = true →
      Ending c ctx attempts s
        ({ s with status := .failed e }, attempts ++ [.deadLettered ctx record false])
  | committed {passed : List Event} : Passed c ctx attempts passed →
      Ending c ctx attempts s
        ({ s with position := Function.update s.position ctx.source (ctx.offset + 1) },
          attempts ++ passed ++ [.committed ctx.source (ctx.offset + 1)])
  | commitFailed {passed : List Event} (e : String) : Passed c ctx attempts passed →
      Ending c ctx attempts s
        ({ s with status := .failed e },
          attempts ++ passed ++ [.commitFailed ctx.source ctx.offset])

/-- A message that was settled is committed, or the commit fails. -/
theorem Ending.of_commit {ctx : MessageCtx} {attempts passed : List Event} {s : State σ}
    (h : Passed c ctx attempts passed) (failure : String) (commit : Except String Unit) :
    Ending c ctx attempts s ((commitOffset s ctx failure commit).1,
      attempts ++ passed ++ (commitOffset s ctx failure commit).2) := by
  rcases commitOffset_cases s ctx failure commit with hcommit | ⟨e, hcommit⟩
  · rw [hcommit]
    exact .committed h
  · rw [hcommit]
    exact .commitFailed e h

/-- A message that is given up is dead-lettered, and committed if that is allowed. -/
theorem Ending.of_giveUp {ctx : MessageCtx} {attempts : List Event} (s : State σ) (error : String)
    (delivery : Delivery ι) :
    Ending c ctx attempts s ((c.giveUp s ctx error delivery).1,
      attempts ++ (c.giveUp s ctx error delivery).2) := by
  have hcommit : ∀ passed, Passed c ctx attempts passed → Ending c ctx attempts s
      ((commitOffset s ctx "fatal: commit failed after DLQ" delivery.commit).1,
        attempts ++ (passed ++
          (commitOffset s ctx "fatal: commit failed after DLQ" delivery.commit).2)) := by
    intro passed hpassed
    rw [← List.append_assoc]
    exact .of_commit hpassed _ _
  cases hdlq : c.dlq with
  | none =>
      rw [giveUp, hdlq]
      exact hcommit [] (.skipped hdlq)
  | some dlq =>
      rw [giveUp, hdlq]
      cases hpublish : delivery.dlq with
      | ok u => exact hcommit _ (.deadLettered _ true fun _ => rfl)
      | error e =>
          by_cases hhalt : c.config.dlq.haltOnFailure = true
          · simp only [if_pos hhalt]
            exact .halted _ _ hhalt
          · simp only [if_neg hhalt]
            exact hcommit _ (.deadLettered _ false fun h => absurd h hhalt)

/-- **All that a turn can do**: nothing, or to handle the next message of a partition. -/
theorem turn_cases (handler : Handler σ ι) (broker : Broker) (s : State σ) (poll : Poll ι) :
    c.turn handler broker s poll = (s, []) ∨
      ∃ ctx attempts h, s.status = .running ∧
        broker.next ctx.source (s.position ctx.source) = some ctx ∧ Attempts ctx attempts ∧
        Ending c ctx attempts { s with handler := h } (c.turn handler broker s poll) := by
  cases poll with
  | error e => exact Or.inl rfl
  | message delivery =>
      rw [turn]
      by_cases hs : s.status = .running
      · rw [if_pos hs]
        cases hnext : broker.next delivery.source (s.position delivery.source) with
        | none => exact Or.inl rfl
        | some ctx =>
            have hsource := broker.source_eq _ ctx (Broker.next_spec hnext).1
            obtain ⟨hattempts, hlast⟩ := runWithRetry_spec (c := c) handler ctx delivery.attempts
              s.handler
            obtain ⟨result, hresult⟩ : ∃ result,
                result = c.runWithRetry handler ctx delivery.attempts s.handler := ⟨_, rfl⟩
            rw [← hresult] at hattempts hlast
            replace hlast := List.mem_cons_of_mem (.received ctx) hlast
            refine Or.inr ⟨ctx, .received ctx :: result.events, result.handler, hs,
              by rw [hsource, hnext], hattempts.receive, ?_⟩
            dsimp only
            rw [← hresult]
            cases houtcome : result.outcome with
            | ok =>
                rw [houtcome] at hlast
                have hend := Ending.of_commit (.handled hlast : Passed c ctx _ [])
                  (s := { s with handler := result.handler }) "fatal: commit failed"
                  delivery.commit
                rwa [List.append_nil] at hend
            | error e => exact .of_giveUp _ _ delivery
            | panic => exact .panicked
      · rw [if_neg hs]
        exact Or.inl rfl

end KafkaConsumer

/-! ### Calls of the handler -/

/-- The messages that were consumed, each once. -/
def consumed (events : List Event) : List MessageCtx :=
  events.filterMap fun
    | .received ctx => some ctx
    | _ => none

/-- The messages that the handler was called with, once for each call. -/
def attempted (events : List Event) : List MessageCtx :=
  events.filterMap fun
    | .handled ctx _ => some ctx
    | _ => none

/-- What was consumed, in two parts. -/
theorem consumed_append (l l' : List Event) : consumed (l ++ l') = consumed l ++ consumed l' :=
  List.filterMap_append

/-- What was attempted, in two parts. -/
theorem attempted_append (l l' : List Event) : attempted (l ++ l') = attempted l ++ attempted l' :=
  List.filterMap_append

/-- A commit neither receives nor calls. -/
theorem commitOffset_quiet {σ : Type} (s : State σ) (ctx : MessageCtx) (failure : String)
    (commit : Except String Unit) :
    (KafkaConsumer.commitOffset s ctx failure commit).1.handler = s.handler ∧
      consumed (KafkaConsumer.commitOffset s ctx failure commit).2 = [] ∧
      attempted (KafkaConsumer.commitOffset s ctx failure commit).2 = [] := by
  cases commit <;> exact ⟨rfl, rfl, rfl⟩

namespace KafkaConsumer

variable {σ ι : Type} {c : KafkaConsumer} {handler : Handler σ ι} {broker : Broker}

/-- Giving up calls no handler and consumes nothing. -/
theorem giveUp_quiet (s : State σ) (ctx : MessageCtx) (error : String) (delivery : Delivery ι) :
    (c.giveUp s ctx error delivery).1.handler = s.handler ∧
      consumed (c.giveUp s ctx error delivery).2 = [] ∧
      attempted (c.giveUp s ctx error delivery).2 = [] := by
  have hcommit := commitOffset_quiet s ctx "fatal: commit failed after DLQ" delivery.commit
  rw [giveUp]
  split
  · exact hcommit
  · split
    · split
      · exact ⟨rfl, rfl, rfl⟩
      · exact hcommit
    · exact hcommit

/-- The attempts receive nothing. -/
theorem consumed_attemptFrom (ctx : MessageCtx) (inputs : ℕ → ι) (left attempt : ℕ) (h : σ) :
    consumed (c.attemptFrom handler ctx inputs left attempt h).events = [] := by
  induction left generalizing attempt h with
  | zero => rw [attemptFrom]; split <;> rfl
  | succ left ih =>
      rw [attemptFrom]
      split
      · exact ih _ _
      · rfl

/-- A first call that does not fail is the only one. -/
theorem attempted_of_first {ctx : MessageCtx} {inputs : ℕ → ι} {left attempt : ℕ} {h : σ}
    (hfirst : ∀ e, (handler ctx (inputs attempt) h).1 ≠ .error e) :
    attempted (c.attemptFrom handler ctx inputs left attempt h).events = [ctx] := by
  cases left <;>
  · rw [attemptFrom]
    split
    · rename_i e h' heq
      exact absurd (congrArg Prod.fst heq) (hfirst e)
    · rfl

/-- A first call that fails is followed by others, while retries are left. -/
theorem attempted_of_error {ctx : MessageCtx} {inputs : ℕ → ι} {left attempt : ℕ} {h : σ}
    {e : String} (hfirst : (handler ctx (inputs attempt) h).1 = .error e) :
    attempted (c.attemptFrom handler ctx inputs (left + 1) attempt h).events =
      ctx :: attempted (c.attemptFrom handler ctx inputs left (attempt + 1)
        (handler ctx (inputs attempt) h).2).events := by
  have heq : handler ctx (inputs attempt) h = (.error e, (handler ctx (inputs attempt) h).2) :=
    Prod.ext hfirst rfl
  rw [attemptFrom, heq]
  rfl

/-- Every call is with the message. -/
theorem attempted_attemptFrom (handler : Handler σ ι) (ctx : MessageCtx) (inputs : ℕ → ι)
    (left attempt : ℕ) (h : σ) :
    ∃ k, attempted (c.attemptFrom handler ctx inputs left attempt h).events =
      List.replicate (k + 1) ctx := by
  induction left generalizing attempt h with
  | zero => exact ⟨0, by rw [attemptFrom]; split <;> rfl⟩
  | succ left ih =>
      by_cases hfirst : ∃ e, (handler ctx (inputs attempt) h).1 = .error e
      · obtain ⟨e, he⟩ := hfirst
        obtain ⟨k, hk⟩ := ih (attempt + 1) (handler ctx (inputs attempt) h).2
        exact ⟨k + 1, by rw [attempted_of_error he, hk, ← List.replicate_succ]⟩
      · exact ⟨0, attempted_of_first fun e he => hfirst ⟨e, he⟩⟩

/-- **The calls of a turn**: none, or the attempts at the next message. -/
theorem turn_calls (handler : Handler σ ι) (broker : Broker) (s : State σ) (poll : Poll ι) :
    c.turn handler broker s poll = (s, []) ∨
      ∃ delivery ctx, poll = .message delivery ∧ s.status = .running ∧
        broker.next delivery.source (s.position delivery.source) = some ctx ∧
        (c.turn handler broker s poll).1.handler =
          (c.runWithRetry handler ctx delivery.attempts s.handler).handler ∧
        consumed (c.turn handler broker s poll).2 = [ctx] ∧
        attempted (c.turn handler broker s poll).2 =
          attempted (c.runWithRetry handler ctx delivery.attempts s.handler).events := by
  cases poll with
  | error e => exact Or.inl rfl
  | message delivery =>
      by_cases hs : s.status = .running
      · cases hnext : broker.next delivery.source (s.position delivery.source) with
        | none => exact Or.inl (by rw [turn, if_pos hs, hnext])
        | some ctx =>
            refine Or.inr ⟨delivery, ctx, rfl, hs, hnext, ?_⟩
            have hnone : consumed (c.runWithRetry handler ctx delivery.attempts s.handler).events =
                [] := consumed_attemptFrom ctx delivery.attempts _ _ s.handler
            simp only [turn, if_pos hs, hnext]
            split
            · obtain ⟨hh, hc, ha⟩ := commitOffset_quiet
                { s with handler := (c.runWithRetry handler ctx delivery.attempts
                  s.handler).handler } ctx "fatal: commit failed" delivery.commit
              refine ⟨hh, ?_, ?_⟩
              · rw [consumed_append, hc, List.append_nil]
                exact congrArg (ctx :: ·) hnone
              · rw [attempted_append, ha, List.append_nil]
                rfl
            · rename_i e _
              obtain ⟨hh, hc, ha⟩ := giveUp_quiet (c := c)
                { s with handler := (c.runWithRetry handler ctx delivery.attempts
                  s.handler).handler } ctx e delivery
              refine ⟨hh, ?_, ?_⟩
              · rw [consumed_append, hc, List.append_nil]
                exact congrArg (ctx :: ·) hnone
              · rw [attempted_append, ha, List.append_nil]
                rfl
            · exact ⟨rfl, congrArg (ctx :: ·) hnone, rfl⟩
      · exact Or.inl (by rw [turn, if_neg hs])

/-- The last turn of a run meets the state that the others left. -/
theorem run_concat (s : State σ) (polls : List (Poll ι)) (poll : Poll ι) :
    c.run handler broker s (polls ++ [poll]) =
      ((c.turn handler broker (c.run handler broker s polls).1 poll).1,
        (c.run handler broker s polls).2 ++
          (c.turn handler broker (c.run handler broker s polls).1 poll).2) := by
  simp only [run, Machine.run_concat, List.flatten_append, List.flatten_singleton]

/-- A message is consumed with its first call. -/
theorem consumed_sublist_turn (handler : Handler σ ι) (broker : Broker) (s : State σ)
    (poll : Poll ι) :
    (consumed (c.turn handler broker s poll).2).Sublist
      (attempted (c.turn handler broker s poll).2) := by
  rcases c.turn_calls handler broker s poll with
    hidle | ⟨delivery, ctx, -, -, -, -, hconsumed, hattempted⟩
  · rw [hidle]
    exact List.Sublist.refl _
  · obtain ⟨k, hk⟩ := c.attempted_attemptFrom handler ctx delivery.attempts
      c.config.retry.maxRetries 0 s.handler
    rw [hconsumed, hattempted, runWithRetry, hk, List.replicate_succ]
    exact (List.nil_sublist _).cons_cons ctx

/-- What was consumed was attempted, in its order. -/
theorem consumed_sublist (handler : Handler σ ι) (broker : Broker) (s : State σ)
    (polls : List (Poll ι)) :
    (consumed (c.run handler broker s polls).2).Sublist
      (attempted (c.run handler broker s polls).2) := by
  induction polls using List.reverseRecOn with
  | nil => exact List.Sublist.refl _
  | append_singleton polls poll ih =>
      rw [run_concat, consumed_append, attempted_append]
      exact ih.append (consumed_sublist_turn handler broker _ poll)

/-- What every call keeps, the attempts at a message keep. -/
theorem attemptFrom_induction {P : List MessageCtx → σ → Prop}
    (hcall : ∀ calls ctx input h, P calls h → P (calls ++ [ctx]) (handler ctx input h).2)
    (ctx : MessageCtx) (inputs : ℕ → ι) (left attempt : ℕ) {calls : List MessageCtx} {h : σ}
    (hP : P calls h) :
    P (calls ++ attempted (c.attemptFrom handler ctx inputs left attempt h).events)
      (c.attemptFrom handler ctx inputs left attempt h).handler := by
  have hnext := hcall calls ctx (inputs attempt) h hP
  induction left generalizing attempt calls h with
  | zero =>
      rw [attemptFrom]
      split <;> rename_i heq <;> rw [heq] at hnext <;> exact hnext
  | succ left ih =>
      rw [attemptFrom]
      split
      · rename_i e h' heq
        rw [heq] at hnext
        have hrest := ih (attempt + 1) hnext (hcall _ _ _ _ hnext)
        rwa [List.append_assoc] at hrest
      · rename_i heq
        rw [heq] at hnext
        exact hnext

/-- **The induction rule of the handler**: what every call keeps, a run keeps. -/
theorem run_induction {P : List MessageCtx → σ → Prop}
    (hcall : ∀ calls ctx input h, P calls h → P (calls ++ [ctx]) (handler ctx input h).2)
    {s : State σ} (hP : P [] s.handler) (polls : List (Poll ι)) :
    P (attempted (c.run handler broker s polls).2) (c.run handler broker s polls).1.handler := by
  refine Machine.run_induction
    (P := fun _ (out : List (List Event)) (s' : State σ) =>
      P (attempted out.flatten) s'.handler) (s := s) hP ?_ polls
  intro _ out s' poll ih
  rw [List.flatten_append, List.flatten_singleton, attempted_append]
  rcases c.turn_calls handler broker s' poll with
    hidle | ⟨delivery, ctx, -, -, -, hhandler, -, hattempted⟩
  · rw [hidle]
    simpa [attempted] using ih
  · rw [hhandler, hattempted]
    exact attemptFrom_induction hcall ctx delivery.attempts _ _ ih

end KafkaConsumer

/-! ### At-least-once delivery -/

/-- The message was given to the handler, and either the handler succeeded or the dead-letter topic
took it. -/
structure Settled (ctx : MessageCtx) (events : List Event) : Prop where
  given : ∃ outcome, .handled ctx outcome ∈ events
  passed : .handled ctx .ok ∈ events ∨ ∃ record, .deadLettered ctx record true ∈ events

/-- What stands before an event of the loop: at a commit, every message that it moves past is
settled; and nothing follows a message that the dead-letter topic did not take. -/
structure AtLeastOnce (broker : Broker) (start : String × ℤ → ℤ) (past : List Event)
    (event : Event) : Prop where
  settled : ∀ source position, event = .committed source position →
    ∀ ctx ∈ broker.log source, start source ≤ ctx.offset → ctx.offset < position →
      Settled ctx past
  live : ∀ ctx record, .deadLettered ctx record false ∉ past

/-- What is settled stays settled. -/
theorem Settled.mono {ctx : MessageCtx} {l l' : List Event} (h : Settled ctx l) (hl : l ⊆ l') :
    Settled ctx l' := by
  obtain ⟨⟨outcome, hgiven⟩, hpassed⟩ := h
  exact ⟨⟨outcome, hl hgiven⟩, hpassed.imp (fun h => hl h) fun ⟨record, h⟩ => ⟨record, hl h⟩⟩

/-- A message whose failure to be handled halts the loop is settled once it is passed. -/
theorem Passed.settled {c : KafkaConsumer} {ctx : MessageCtx} {attempts passed : List Event}
    (h : Passed c ctx attempts passed) (hattempts : Attempts ctx attempts) (hdlq : c.dlq ≠ none)
    (hhalt : c.config.dlq.haltOnFailure = true) : Settled ctx (attempts ++ passed) := by
  obtain ⟨outcome, hgiven⟩ := hattempts.exists_handled
  refine ⟨⟨outcome, List.mem_append_left _ hgiven⟩, ?_⟩
  cases h with
  | handled hok => exact Or.inl (List.mem_append_left _ hok)
  | skipped hnone => exact absurd hnone hdlq
  | deadLettered record published hpublished =>
      obtain rfl := hpublished hhalt
      exact Or.inr ⟨record, by simp⟩

/-- Neither a commit nor a refusal of the dead-letter topic. -/
structure Harmless (event : Event) : Prop where
  not_committed : ∀ source position, event ≠ .committed source position
  not_refused : ∀ ctx record, event ≠ .deadLettered ctx record false

/-- Attempts commit nothing. -/
theorem Attempts.harmless {ctx : MessageCtx} {events : List Event} (h : Attempts ctx events) :
    ∀ e ∈ events, Harmless e := by
  intro e he
  rcases h.only e he with rfl | ⟨outcome, rfl⟩ | ⟨ms, rfl⟩
  · exact ⟨by simp, by simp⟩
  · exact ⟨by simp, by simp⟩
  · exact ⟨by simp, by simp⟩

/-- Passing a message on commits nothing. -/
theorem Passed.harmless {c : KafkaConsumer} {ctx : MessageCtx} {attempts passed : List Event}
    (h : Passed c ctx attempts passed) (hhalt : c.config.dlq.haltOnFailure = true) :
    ∀ e ∈ passed, Harmless e := by
  cases h with
  | handled hok => simp
  | skipped hnone => simp
  | deadLettered record published hpublished =>
      obtain rfl := hpublished hhalt
      intro e he
      obtain rfl := List.mem_singleton.mp he
      exact ⟨by simp, by simp⟩

/-- So do attempts and passing on together. -/
theorem Passed.harmless_append {c : KafkaConsumer} {ctx : MessageCtx}
    {attempts passed : List Event} (h : Passed c ctx attempts passed)
    (hhalt : c.config.dlq.haltOnFailure = true) (hattempts : ∀ e ∈ attempts, Harmless e) :
    ∀ e ∈ attempts ++ passed, Harmless e := by
  intro e he
  rcases List.mem_append.mp he with he | he
  · exact hattempts e he
  · exact h.harmless hhalt e he

section Invariant

variable {σ ι : Type} {c : KafkaConsumer} {handler : Handler σ ι} {broker : Broker}
  {start : String × ℤ → ℤ} {events new : List Event} {s : State σ}

/-- The invariant of the loop: every event has the past that it needs, and every message before a
position is settled; after a refusal of the dead-letter topic the loop does not run, and the
position is not past the message. -/
structure Safe (broker : Broker) (start : String × ℤ → ℤ) (events : List Event) (s : State σ) :
    Prop where
  past : Trace.Preceded (AtLeastOnce broker start) events
  reached : ∀ source, ∀ ctx ∈ broker.log source, start source ≤ ctx.offset →
    ctx.offset < s.position source → Settled ctx events
  halted : ∀ ctx record, .deadLettered ctx record false ∈ events →
    s.status ≠ .running ∧ s.position ctx.source ≤ ctx.offset

/-- While the loop runs, the dead-letter topic has taken everything. -/
theorem Safe.live (h : Safe broker start events s) (hs : s.status = .running) (ctx : MessageCtx)
    (record : Record) : .deadLettered ctx record false ∉ events :=
  fun hmem => (h.halted ctx record hmem).1 hs

/-- Harmless events may follow while the loop runs. -/
theorem Safe.past_append (h : Safe broker start events s) (hs : s.status = .running)
    (hnew : ∀ e ∈ new, Harmless e) : Trace.Preceded (AtLeastOnce broker start) (events ++ new) := by
  refine Trace.preceded_append.mpr ⟨h.past, fun pre e post hsplit => ⟨?_, ?_⟩⟩
  · rintro source position rfl
    exact absurd rfl ((hnew _ (by simp [hsplit])).not_committed source position)
  · intro ctx record hmem
    rcases List.mem_append.mp hmem with hmem | hmem
    · exact h.live hs ctx record hmem
    · exact (hnew _ (by simp [hsplit, hmem])).not_refused ctx record rfl

/-- While the loop runs, harmless events leave no refusal. -/
theorem Safe.live_append (h : Safe broker start events s) (hs : s.status = .running)
    (hnew : ∀ e ∈ new, Harmless e) (ctx : MessageCtx) (record : Record) :
    .deadLettered ctx record false ∉ events ++ new := by
  rw [List.mem_append, not_or]
  exact ⟨h.live hs ctx record, fun hmem => (hnew _ hmem).not_refused ctx record rfl⟩

/-- **A turn keeps the invariant.** -/
theorem Safe.turn (h : Safe broker start events s) (hdlq : c.dlq ≠ none)
    (hhalt : c.config.dlq.haltOnFailure = true) (poll : Poll ι) :
    Safe broker start (events ++ (c.turn handler broker s poll).2)
      (c.turn handler broker s poll).1 := by
  rcases c.turn_cases handler broker s poll with
    hidle | ⟨ctx, attempts, h', hs, hnext, hattempts, hend⟩
  · rw [hidle, List.append_nil]
    exact h
  obtain ⟨hmem, hpos, honly⟩ := Broker.next_spec hnext
  have hquiet := hattempts.harmless
  have hreached : ∀ new source, ∀ m ∈ broker.log source, start source ≤ m.offset →
      m.offset < s.position source → Settled m (events ++ new) :=
    fun new source m hm hstart hlt =>
      (h.reached source m hm hstart hlt).mono (List.subset_append_left _ _)
  generalize c.turn handler broker s poll = r at hend
  cases hend with
  | panicked =>
      refine ⟨h.past_append hs hquiet, hreached _, fun m record hm => ?_⟩
      exact absurd hm (h.live_append hs hquiet m record)
  | halted record e _ =>
      have hlive := h.live_append hs hquiet
      refine ⟨?_, hreached _, fun m record' hm => ?_⟩
      · rw [← List.append_assoc]
        exact Trace.preceded_concat.mpr ⟨h.past_append hs hquiet, by simp, hlive⟩
      · rw [← List.append_assoc, List.mem_append, List.mem_singleton] at hm
        obtain ⟨rfl, -, -⟩ : m = ctx ∧ record' = record ∧ True := by
          simpa using hm.resolve_left (hlive m record')
        exact ⟨by simp, hpos⟩
  | committed hpassed =>
      rename_i passed
      have hnew := hpassed.harmless_append hhalt hquiet
      have hsettled : ∀ m ∈ broker.log ctx.source, start ctx.source ≤ m.offset →
          m.offset < ctx.offset + 1 → Settled m (events ++ (attempts ++ passed)) := by
        intro m hm hstart hlt
        by_cases hbefore : m.offset < s.position ctx.source
        · exact hreached _ _ m hm hstart hbefore
        · obtain rfl := honly m hm (by omega) (by omega)
          exact (hpassed.settled hattempts hdlq hhalt).mono (List.subset_append_right _ _)
      refine ⟨?_, ?_, ?_⟩
      · rw [← List.append_assoc]
        refine Trace.preceded_concat.mpr ⟨h.past_append hs hnew, ?_, h.live_append hs hnew⟩
        intro source position heq
        obtain ⟨rfl, rfl⟩ : ctx.source = source ∧ ctx.offset + 1 = position := by simpa using heq
        exact hsettled
      · intro source m hm hstart hlt
        rw [← List.append_assoc]
        by_cases hsource : source = ctx.source
        · subst hsource
          dsimp only at hlt
          rw [Function.update_self] at hlt
          exact (hsettled m hm hstart hlt).mono (List.subset_append_left _ _)
        · dsimp only at hlt
          rw [Function.update_of_ne hsource] at hlt
          exact (h.reached source m hm hstart hlt).mono (by simp)
      · intro m record hm
        rw [← List.append_assoc, List.mem_append, List.mem_singleton] at hm
        exact absurd (hm.resolve_right (by simp)) (h.live_append hs hnew m record)
  | commitFailed e hpassed =>
      rename_i passed
      have hnew := hpassed.harmless_append hhalt hquiet
      refine ⟨?_, hreached _, fun m record hm => ?_⟩
      · rw [← List.append_assoc]
        exact Trace.preceded_concat.mpr ⟨h.past_append hs hnew, by simp, h.live_append hs hnew⟩
      · rw [← List.append_assoc, List.mem_append, List.mem_singleton] at hm
        exact absurd (hm.resolve_right (by simp)) (h.live_append hs hnew m record)

end Invariant

/-- **At-least-once consumption.** With a dead-letter topic whose failure halts the loop, for every
handler, every content of the partitions and every sequence of turns: a message that a commit moves
past was given to the handler before, and the handler succeeded or the dead-letter topic took the
message; nothing happens after the dead-letter topic refused a message, the loop has ended, and the
position of its partition is not past it. -/
theorem KafkaConsumer.at_least_once {σ ι : Type} (c : KafkaConsumer) (handler : Handler σ ι)
    (broker : Broker) (s : State σ) (polls : List (Poll ι)) (hdlq : c.dlq ≠ none)
    (hhalt : c.config.dlq.haltOnFailure = true) :
    Trace.Preceded (AtLeastOnce broker s.position) (c.run handler broker s polls).2 ∧
      (∀ source, ∀ ctx ∈ broker.log source, s.position source ≤ ctx.offset →
        ctx.offset < (c.run handler broker s polls).1.position source →
          Settled ctx (c.run handler broker s polls).2) ∧
      ∀ ctx record, .deadLettered ctx record false ∈ (c.run handler broker s polls).2 →
        (c.run handler broker s polls).1.status ≠ .running ∧
          (c.run handler broker s polls).1.position ctx.source ≤ ctx.offset := by
  have hsafe : Safe broker s.position (c.run handler broker s polls).2
      (c.run handler broker s polls).1 := by
    refine Machine.run_induction
      (P := fun _ (out : List (List Event)) (s' : State σ) =>
        Safe broker s.position out.flatten s') ?_ ?_ polls
    · refine ⟨Trace.preceded_nil, fun source ctx _ hstart hlt => ?_, by simp⟩
      omega
    · intro _ out s' poll ih
      rw [List.flatten_append, List.flatten_singleton]
      exact ih.turn hdlq hhalt poll
  exact ⟨hsafe.past, hsafe.reached, hsafe.halted⟩

/-! ### A poison message -/

/-- A message of the order topic. -/
def orderMessage (offset : ℤ) : MessageCtx where
  topic := "orders.v1"
  key := none
  payload := []
  headers := []
  timestampMs := none
  partition := 0
  offset := offset

/-- One partition with two messages. -/
def twoMessages : Broker where
  log source := if source = ("orders.v1", 0) then [orderMessage 7, orderMessage 9] else []
  source_eq source ctx hmem := by
    split at hmem
    · rename_i hsource
      rw [hsource]
      simp only [List.mem_cons, List.not_mem_nil, or_false] at hmem
      rcases hmem with rfl | rfl <;> rfl
    · simp at hmem
  increasing source := by
    split
    · simp [orderMessage]
    · exact List.Pairwise.nil

/-- One retry, and a dead-letter topic whose failure halts the loop. -/
def haltingConsumer : KafkaConsumer where
  config := ⟨⟨1, 100, 5000⟩, { enabled := true, haltOnFailure := true }⟩
  dlq := some ⟨".dlq"⟩

/-- A handler that does what its input says. -/
def obey : Handler Unit Outcome := fun _ outcome _ => (outcome, ())

/-- The first message fails twice and is dead-lettered; the second is not even taken by the
dead-letter topic. -/
def poisonPolls : List (Poll Outcome) :=
  [.message ⟨("orders.v1", 0), fun _ => .error "bad order", 5, .ok (), .ok ()⟩,
    .message ⟨("orders.v1", 0), fun _ => .error "bad order", 6, .error "timed out", .ok ()⟩,
    .message ⟨("orders.v1", 0), fun _ => .ok, 7, .ok (), .ok ()⟩]

/-- The first message is settled and committed; the loop stops at the second, which stays where it
is. -/
theorem KafkaConsumer.at_least_once_poison :
    let r := haltingConsumer.run obey twoMessages ⟨(), fun _ => 7, .running⟩ poisonPolls
    r.1.position ("orders.v1", 0) = 8 ∧ r.1.status ≠ .running ∧
      Trace.Preceded (AtLeastOnce twoMessages fun _ => 7) r.2 := by
  have h := haltingConsumer.at_least_once obey twoMessages ⟨(), fun _ => 7, .running⟩ poisonPolls
    (by decide) (by decide)
  exact ⟨by decide +kernel, by decide +kernel, h.1⟩

end HftPlatform.Mq
