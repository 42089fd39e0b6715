import HftPlatform.KafkaConsumer
import HftPlatform.Lib.Backoff

/-!
# The retry loop

`run_with_retry` of `libs/rust/hft_mq/src/consumer.rs`: the loop over `0..=max_retries` as it is
written, whose fall-through is `unreachable!()`, and what its calls and pauses are.

## Main results

* `KafkaConsumer.retryLoop_eq`: the loop does not fall through.
* `KafkaConsumer.runWithRetry_eq`: the calls and pauses when the first calls fail.
* `KafkaConsumer.retry_loop`: the number of calls, what is returned, and the pauses.
-/

namespace HftPlatform.Mq

open Lib

namespace RetryPolicy

variable (policy : RetryPolicy) {n m : ℕ}

/-- A pause is at most the maximum. -/
theorem backoffMs_le (n : ℕ) : policy.backoffMs n ≤ policy.maxBackoffMs := Nat.min_le_right _ _

/-- A pause is the initial one, doubled for each attempt. -/
theorem backoffMs_eq (hmax : policy.maxBackoffMs < 2 ^ 64) (n : ℕ) :
    policy.backoffMs n = backoff policy.initialBackoffMs 10 policy.maxBackoffMs n :=
  backoff_saturating (by omega)

/-- The pauses grow. -/
theorem backoffMs_mono (h : n ≤ m) : policy.backoffMs n ≤ policy.backoffMs m := by
  have hexp : 2 ^ min n 10 ≤ 2 ^ min m 10 := Nat.pow_le_pow_right (by omega) (by omega)
  have hmul := Nat.mul_le_mul_left policy.initialBackoffMs hexp
  rw [backoffMs, backoffMs]
  omega

end RetryPolicy

namespace KafkaConsumer

variable {σ ι : Type} (c : KafkaConsumer) (handler : Handler σ ι) (ctx : MessageCtx)
  (inputs : ℕ → ι)

/-- The loop over the attempts that are left, unless it falls through. -/
def retryLoop : List ℕ → σ → Option (Handled σ)
  | [], _ => none
  | attempt :: attempts, h =>
      match handler ctx (inputs attempt) h with
      | (.ok, h') => some ⟨.ok, h', [.handled ctx .ok]⟩
      | (.panic, h') => some ⟨.panic, h', [.handled ctx .panic]⟩
      | (.error e, h') =>
          if attempt < c.config.retry.maxRetries then
            (retryLoop attempts h').map fun rest => { rest with
              events := .handled ctx (.error e) :: .slept (c.config.retry.backoffMs attempt) ::
                rest.events }
          else some ⟨.error e, h', [.handled ctx (.error e)]⟩

/-- The state of the handler after so many calls. -/
def stateAt (h : σ) : ℕ → σ
  | 0 => h
  | n + 1 => (handler ctx (inputs n) (stateAt h n)).2

/-- How a call ends, when all calls before it were made. -/
def answer (h : σ) (n : ℕ) : Outcome := (handler ctx (inputs n) (stateAt handler ctx inputs h n)).1

/-- A failed call and the pause after it. -/
def failedAttempt (h : σ) (n : ℕ) : List Event :=
  [.handled ctx (answer handler ctx inputs h n), .slept (c.config.retry.backoffMs n)]

/-- So many calls, with a pause between one and the next. -/
def transcript (h : σ) : ℕ → List Event
  | 0 => []
  | n + 1 => (List.range n).flatMap (c.failedAttempt handler ctx inputs h) ++
      [.handled ctx (answer handler ctx inputs h n)]

/-- The number of calls of the handler. -/
def calls (events : List Event) : ℕ :=
  events.countP fun e => match e with | .handled _ _ => true | _ => false

variable {c handler ctx inputs} {h : σ} {left attempt n : ℕ}

/-- The loop over the attempts that are left. -/
theorem retryLoop_range' (hlast : attempt + left = c.config.retry.maxRetries) (h : σ) :
    c.retryLoop handler ctx inputs (List.range' attempt (left + 1)) h =
      some (c.attemptFrom handler ctx inputs left attempt h) := by
  induction left generalizing attempt h with
  | zero =>
      rw [List.range'_succ, retryLoop, attemptFrom]
      rcases handler ctx (inputs attempt) h with ⟨_ | e | _, h'⟩
      · rfl
      · exact if_neg (by omega)
      · rfl
  | succ left ih =>
      rw [List.range'_succ, retryLoop, attemptFrom]
      rcases handler ctx (inputs attempt) h with ⟨_ | e | _, h'⟩
      · rfl
      · dsimp only
        rw [if_pos (by omega), ih (by omega)]
        rfl
      · rfl

variable (c handler ctx inputs) in
/-- **The loop does not fall through**: it returns what the attempts return. -/
theorem retryLoop_eq (h : σ) :
    c.retryLoop handler ctx inputs (List.range (c.config.retry.maxRetries + 1)) h =
      some (c.runWithRetry handler ctx inputs h) := by
  rw [List.range_eq_range']
  exact retryLoop_range' (Nat.zero_add _) h

/-- The last retry, and a call that does not fail, end the attempts. -/
theorem attemptFrom_last {h' : σ} {outcome : Outcome}
    (hcall : handler ctx (inputs attempt) h = (outcome, h'))
    (hlast : left = 0 ∨ ∀ e, outcome ≠ .error e) :
    c.attemptFrom handler ctx inputs left attempt h =
      ⟨outcome, h', [.handled ctx outcome]⟩ := by
  cases left with
  | zero =>
      rw [attemptFrom, hcall]
      cases outcome <;> rfl
  | succ left =>
      rw [attemptFrom, hcall]
      cases outcome with
      | ok | panic => rfl
      | error e => exact absurd rfl (hlast.resolve_left (Nat.succ_ne_zero _) e)

/-- While retries are left, a failed call is followed by a pause and the other attempts. -/
theorem attemptFrom_failed {e : String} (he : answer handler ctx inputs h n = .error e) :
    c.attemptFrom handler ctx inputs (left + 1) n (stateAt handler ctx inputs h n) =
      { c.attemptFrom handler ctx inputs left (n + 1) (stateAt handler ctx inputs h (n + 1)) with
        events := c.failedAttempt handler ctx inputs h n ++
          (c.attemptFrom handler ctx inputs left (n + 1)
            (stateAt handler ctx inputs h (n + 1))).events } := by
  have hcall : handler ctx (inputs n) (stateAt handler ctx inputs h n) =
      (.error e, stateAt handler ctx inputs h (n + 1)) := Prod.ext he rfl
  rw [attemptFrom, hcall, failedAttempt, he]
  rfl

/-- The attempts after the first ones failed. -/
theorem attemptFrom_zero (hfailed : ∀ i < n, ∃ e, answer handler ctx inputs h i = .error e) :
    c.attemptFrom handler ctx inputs (left + n) 0 h =
      { c.attemptFrom handler ctx inputs left n (stateAt handler ctx inputs h n) with
        events := (List.range n).flatMap (c.failedAttempt handler ctx inputs h) ++
          (c.attemptFrom handler ctx inputs left n
            (stateAt handler ctx inputs h n)).events } := by
  induction n generalizing left with
  | zero => rfl
  | succ n ih =>
      obtain ⟨e, he⟩ := hfailed n (Nat.lt_succ_self n)
      rw [← Nat.add_assoc, Nat.add_right_comm, ih fun i hi => hfailed i (Nat.lt_succ_of_lt hi),
        attemptFrom_failed he, List.range_succ, List.flatMap_append, List.flatMap_singleton,
        List.append_assoc]

/-- **The calls and pauses when the first calls fail**: they end with the last retry, and with a
call that does not fail. -/
theorem runWithRetry_eq (hn : n ≤ c.config.retry.maxRetries)
    (hfailed : ∀ i < n, ∃ e, answer handler ctx inputs h i = .error e)
    (hlast : n = c.config.retry.maxRetries ∨ ∀ e, answer handler ctx inputs h n ≠ .error e) :
    c.runWithRetry handler ctx inputs h =
      ⟨answer handler ctx inputs h n, stateAt handler ctx inputs h (n + 1),
        c.transcript handler ctx inputs h (n + 1)⟩ := by
  have hend : c.attemptFrom handler ctx inputs (c.config.retry.maxRetries - n) n
      (stateAt handler ctx inputs h n) = ⟨answer handler ctx inputs h n,
        stateAt handler ctx inputs h (n + 1), [.handled ctx (answer handler ctx inputs h n)]⟩ :=
    attemptFrom_last rfl (hlast.imp_left fun hn => by omega)
  rw [runWithRetry, ← Nat.sub_add_cancel hn, attemptFrom_zero hfailed, hend, transcript]

/-- A transcript has as many calls as it says. -/
theorem calls_transcript (h : σ) (n : ℕ) : calls (c.transcript handler ctx inputs h n) = n := by
  have hpairs : ∀ m, calls ((List.range m).flatMap (c.failedAttempt handler ctx inputs h)) = m := by
    intro m
    induction m with
    | zero => rfl
    | succ m ih =>
        rw [List.range_succ, List.flatMap_append, List.flatMap_singleton, calls,
          List.countP_append, ← calls, ih]
        rfl
  cases n with
  | zero => rfl
  | succ n =>
      rw [transcript, calls, List.countP_append, ← calls, hpairs]
      rfl

/-- **The retry loop.** For every policy and every handler, whatever its calls meet: the loop does
not fall through. When the first success is the call `k`, counted from zero, the handler is called
`min (k + 1) (max_retries + 1)` times with a pause between one call and the next, and nothing else
happens; the result is a success exactly when `k + 1 ≤ max_retries + 1`, and otherwise the last
error. Without a success the handler is called `max_retries + 1` times. The pauses do not shrink,
are at most the maximum, and are computed without overflow. -/
theorem retry_loop (c : KafkaConsumer) (handler : Handler σ ι) (ctx : MessageCtx) (inputs : ℕ → ι)
    (h : σ) (hmax : c.config.retry.maxBackoffMs < 2 ^ 64) :
    c.retryLoop handler ctx inputs (List.range (c.config.retry.maxRetries + 1)) h =
        some (c.runWithRetry handler ctx inputs h) ∧
      (∀ k, (∀ i < k, ∃ e, answer handler ctx inputs h i = .error e) →
        answer handler ctx inputs h k = .ok →
          calls (c.runWithRetry handler ctx inputs h).events =
              min (k + 1) (c.config.retry.maxRetries + 1) ∧
            (c.runWithRetry handler ctx inputs h).events = c.transcript handler ctx inputs h
              (min (k + 1) (c.config.retry.maxRetries + 1)) ∧
            ((c.runWithRetry handler ctx inputs h).outcome = .ok ↔
              k + 1 ≤ c.config.retry.maxRetries + 1) ∧
            (c.config.retry.maxRetries + 1 < k + 1 →
              ∃ e, answer handler ctx inputs h c.config.retry.maxRetries = .error e ∧
                (c.runWithRetry handler ctx inputs h).outcome = .error e)) ∧
      ((∀ i, ∃ e, answer handler ctx inputs h i = .error e) →
        calls (c.runWithRetry handler ctx inputs h).events = c.config.retry.maxRetries + 1 ∧
          (c.runWithRetry handler ctx inputs h).events =
            c.transcript handler ctx inputs h (c.config.retry.maxRetries + 1) ∧
          ∃ e, answer handler ctx inputs h c.config.retry.maxRetries = .error e ∧
            (c.runWithRetry handler ctx inputs h).outcome = .error e) ∧
      (∀ a b, a ≤ b → c.config.retry.backoffMs a ≤ c.config.retry.backoffMs b) ∧
      ∀ a, c.config.retry.backoffMs a ≤ c.config.retry.maxBackoffMs ∧
        c.config.retry.backoffMs a =
          min (c.config.retry.initialBackoffMs * 2 ^ min a 10) c.config.retry.maxBackoffMs := by
  refine ⟨retryLoop_eq c handler ctx inputs h, fun k hfailed hok => ?_, fun hfailed => ?_,
    fun a b hab => RetryPolicy.backoffMs_mono _ hab, fun a =>
      ⟨RetryPolicy.backoffMs_le _ a, RetryPolicy.backoffMs_eq _ hmax a⟩⟩
  · by_cases hk : k ≤ c.config.retry.maxRetries
    · -- the success is reached
      rw [runWithRetry_eq hk hfailed (Or.inr fun e he => nomatch hok.symm.trans he), hok,
        min_eq_left (Nat.add_le_add_right hk 1)]
      dsimp only
      exact ⟨calls_transcript h _, rfl, iff_of_true rfl (Nat.succ_le_succ hk), fun hlt => by omega⟩
    · -- the retries are spent before
      obtain ⟨e, he⟩ := hfailed c.config.retry.maxRetries (by omega)
      rw [runWithRetry_eq le_rfl (fun i hi => hfailed i (by omega)) (Or.inl rfl), he,
        min_eq_right (by omega)]
      dsimp only
      exact ⟨calls_transcript h _, rfl, iff_of_false nofun (by omega), fun _ => ⟨e, rfl, rfl⟩⟩
  · obtain ⟨e, he⟩ := hfailed c.config.retry.maxRetries
    rw [runWithRetry_eq le_rfl (fun i _ => hfailed i) (Or.inl rfl), he]
    dsimp only
    exact ⟨calls_transcript h _, rfl, e, rfl, rfl⟩

/-- The handler fails once, and a retry is enough. -/
theorem retry_loop_second_try :
    (haltingConsumer.runWithRetry obey (orderMessage 7)
        (fun n => if n = 0 then .error "timed out" else .ok) ()).events =
        [.handled (orderMessage 7) (.error "timed out"), .slept 100,
          .handled (orderMessage 7) .ok] ∧
      (haltingConsumer.runWithRetry obey (orderMessage 7)
        (fun n => if n = 0 then .error "timed out" else .ok) ()).outcome = .ok := by
  have hloop := haltingConsumer.retry_loop obey (orderMessage 7)
    (fun n => if n = 0 then .error "timed out" else .ok) () (by decide)
  refine ⟨by decide +kernel, (hloop.2.1 1 (fun i hi => ?_) rfl).2.2.1.mpr (by decide)⟩
  obtain rfl : i = 0 := by omega
  exact ⟨"timed out", rfl⟩

end KafkaConsumer

end HftPlatform.Mq
