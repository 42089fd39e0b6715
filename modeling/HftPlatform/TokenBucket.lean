import HftPlatform.Lib.Budget
import HftPlatform.Lib.Extended
import HftPlatform.Lib.Machine
import Mathlib.Data.Rat.Cast.Order

/-!
# The rate limiter of the exchange client

`libs/rust/hft_exchange/src/rate_limit.rs`: a bucket of tokens that all tasks take from. A pass
through the loop of `acquire` holds both locks; between its passes a task sleeps, and tasks that
sleep or call may pass in any order.

## Main definitions

* `RateLimiter.pass`: a pass through the loop.
* `Limiting.step`: a task calls `acquire`, or passes through its loop.
* `granted`: the amount that was granted in a window of time.

## Main results

* `Limiting.Ledger.step`: the bucket and what was granted keep to a budget.
* `tokens_and_grants`: the tokens are within bounds, and so is what is granted in any window.
-/

namespace HftPlatform.HftExchange

open Lib Extended

section Limiter

variable {F : Type} [Double F]

/-- Times are in nanoseconds. -/
structure RateLimiter (F : Type) where
  tokens : F
  maxTokens : F
  refillRate : F
  lastUpdate : ℕ

def RateLimiter.new (maxTokens refillRatePerSec : F) (now : ℕ) : RateLimiter F where
  tokens := maxTokens
  maxTokens := maxTokens
  refillRate := refillRatePerSec
  lastUpdate := now

/-- The seconds since the last update, none if the clock went back. -/
def RateLimiter.elapsed (s : RateLimiter F) (now : ℕ) : F :=
  Double.lit ((now - s.lastUpdate : ℕ) / 10 ^ 9)

/-- A pass through the loop of `acquire`: the amount is taken, or the seconds to sleep are
returned. -/
def RateLimiter.pass (s : RateLimiter F) (amount : F) (now : ℕ) : RateLimiter F × Option F :=
  let tokens := Double.min (s.tokens + s.elapsed now * s.refillRate) s.maxTokens
  if Double.le amount tokens then
    ({ s with tokens := tokens - amount, lastUpdate := now }, none)
  else ({ s with tokens := tokens, lastUpdate := now }, some ((amount - tokens) / s.refillRate))

theorem RateLimiter.pass_lastUpdate (s : RateLimiter F) (amount : F) (now : ℕ) :
    (s.pass amount now).1.lastUpdate = now := by
  unfold RateLimiter.pass
  dsimp only
  split <;> rfl

/-- A task calls `acquire`, or passes through the loop at a time. How long it slept before is
not looked at: it may be woken at any time. -/
inductive Action (F : Type)
  | acquire (task : ℕ) (amount : F)
  | pass (task : ℕ) (now : ℕ)

structure Grant (F : Type) where
  time : ℕ
  amount : F

/-- The limiter, and the amount that each task waits for. -/
structure Limiting (F : Type) where
  limiter : RateLimiter F
  waiting : ℕ → Option F

/-- An action, and what it grants. A task that waits does not call again, and one that does not
wait does not pass. -/
def Limiting.step (s : Limiting F) : Action F → Limiting F × Option (Grant F)
  | .acquire task amount =>
      if (s.waiting task).isSome then (s, none)
      else ({ s with waiting := Function.update s.waiting task (some amount) }, none)
  | .pass task now =>
      match s.waiting task with
      | none => (s, none)
      | some amount =>
          match s.limiter.pass amount now with
          | (limiter, none) =>
              (⟨limiter, Function.update s.waiting task none⟩, some ⟨now, amount⟩)
          | (limiter, some _) => ({ s with limiter }, none)

/-- A new limiter, for which no task waits. -/
def Limiting.new (maxTokens refillRatePerSec : F) (now : ℕ) : Limiting F :=
  ⟨.new maxTokens refillRatePerSec now, fun _ => none⟩

/-- The amount that was granted from `a` to `b`. -/
def granted (a b : ℕ) (grants : List (Option (Grant F))) : F :=
  Double.sum (((grants.filterMap id).filter fun g => a ≤ g.time ∧ g.time ≤ b).map (·.amount))

end Limiter

/-- An action with a number. -/
def Action.ofNumbers {K : Type} : Action K → Action (Extended K)
  | .acquire task amount => .acquire task (fin amount)
  | .pass task now => .pass task now

/-- The time of a pass. -/
def Action.time {F : Type} : Action F → Option ℕ
  | .acquire _ _ => none
  | .pass _ now => some now

section Exact

variable {K : Type} [Field K] [LinearOrder K]

/-- The amounts of the calls are not negative, and the clock does not go back. -/
structure Schedule (start : ℕ) (actions : List (Action K)) : Prop where
  amounts : ∀ task amount, .acquire task amount ∈ actions → 0 ≤ amount
  clock : (start :: actions.filterMap Action.time).Pairwise (· ≤ ·)

variable [SquareRoot K]

/-- The tasks wait for amounts that are not negative. -/
def Sound (waiting : ℕ → Option (Extended K)) : Prop :=
  ∀ task x, waiting task = some x → ∃ amount, x = fin amount ∧ 0 ≤ amount

omit [SquareRoot K] in
theorem Sound.update {waiting : ℕ → Option (Extended K)} (h : Sound waiting) (task : ℕ)
    {w : Option (Extended K)} (hw : ∀ x ∈ w, ∃ amount, x = fin amount ∧ 0 ≤ amount) :
    Sound (Function.update waiting task w) := by
  intro i x hx
  by_cases hi : i = task
  · subst hi
    rw [Function.update_self] at hx
    exact hw x hx
  · rw [Function.update_of_ne hi] at hx
    exact h i x hx

/-- The bucket, and what was granted from `a` to `b`, keep to the budget. -/
structure Limiting.Ledger (s : Limiting (Extended K)) (maxTokens rate : K) (a b : ℕ)
    (total : Extended K) : Prop where
  maxTokens_eq : s.limiter.maxTokens = fin maxTokens
  refillRate_eq : s.limiter.refillRate = fin rate
  waiting : Sound s.waiting
  budget : ∃ tokens spent, s.limiter.tokens = fin tokens ∧ total = fin spent ∧
    Budget maxTokens (rate / 10 ^ 9) a b s.limiter.lastUpdate tokens spent

/-- What an action adds to what was granted. -/
theorem granted_concat (a b : ℕ) (grants : List (Option (Grant (Extended K))))
    (grant : Option (Grant (Extended K))) :
    granted a b (grants ++ [grant]) = granted a b grants +
      match grant with
      | none => fin 0
      | some g => if a ≤ g.time ∧ g.time ≤ b then g.amount else fin 0 := by
  have hzero : (fin 0 : Extended K) = 0 := rfl
  rw [granted, granted, sum_eq, sum_eq, List.filterMap_append, List.filter_append, List.map_append,
    List.sum_append, hzero]
  cases grant with
  | none => rfl
  | some g =>
      by_cases h : a ≤ g.time ∧ g.time ≤ b
      · simp [h]
      · simp [h]

variable [IsStrictOrderedRing K]

theorem Limiting.ledger_new {maxTokens rate : K} (hmax : 0 ≤ maxTokens) (hrate : 0 ≤ rate)
    (start a b : ℕ) :
    (Limiting.new (fin maxTokens) (fin rate) start).Ledger maxTokens rate a b (granted a b []) where
  maxTokens_eq := rfl
  refillRate_eq := rfl
  waiting task x h := by cases h
  budget := ⟨maxTokens, 0, rfl, by simp [granted, sum_eq, zero_eq],
    Budget.full hmax (by positivity) a b start⟩

/-- The tokens that a pass finds, after the refill. -/
theorem refilled_eq {s : RateLimiter (Extended K)} {maxTokens rate tokens : K}
    (hmax : s.maxTokens = fin maxTokens) (hrate : s.refillRate = fin rate)
    (htokens : s.tokens = fin tokens) (now : ℕ) :
    Double.min (s.tokens + s.elapsed now * s.refillRate) s.maxTokens =
      fin (min (tokens + rate / 10 ^ 9 * (now - s.lastUpdate : ℕ)) maxTokens) := by
  have helapsed : ((((now - s.lastUpdate : ℕ) / 10 ^ 9 : ℚ) : K)) * rate =
      rate / 10 ^ 9 * (now - s.lastUpdate : ℕ) := by
    push_cast
    ring
  rw [hmax, hrate, htokens, RateLimiter.elapsed, lit_fin, mul_fin, fin_add_fin, min_fin, helapsed]

/-- **What an action keeps.** -/
theorem Limiting.Ledger.step {s : Limiting (Extended K)} {maxTokens rate : K} {a b : ℕ}
    {grants : List (Option (Grant (Extended K)))}
    (h : s.Ledger maxTokens rate a b (granted a b grants))
    (hrate : 0 ≤ rate) (action : Action K)
    (hamount : ∀ task amount, action = .acquire task amount → 0 ≤ amount)
    (hclock : ∀ now ∈ action.time, s.limiter.lastUpdate ≤ now) :
    (s.step action.ofNumbers).1.Ledger maxTokens rate a b
      (granted a b (grants ++ [(s.step action.ofNumbers).2])) := by
  have hnone : granted a b (grants ++ [none]) = granted a b grants := by
    rw [granted_concat]
    exact add_zero _
  cases action with
  | acquire task amount =>
      have hnonneg := hamount task amount rfl
      rw [Action.ofNumbers, Limiting.step]
      split
      · exact hnone ▸ h
      · have hwaiting := h.waiting.update task (w := some (fin amount)) fun x hx =>
          ⟨amount, (Option.some.inj hx).symm, hnonneg⟩
        exact hnone ▸ ⟨h.maxTokens_eq, h.refillRate_eq, hwaiting, h.budget⟩
  | pass task now =>
      rw [Action.ofNumbers, Limiting.step]
      cases hwaiting : s.waiting task with
      | none => exact hnone ▸ h
      | some x =>
          obtain ⟨amount, rfl, hnonneg⟩ := h.waiting task x hwaiting
          obtain ⟨tokens, spent, htokens, htotal, hbudget⟩ := h.budget
          have hrate' : 0 ≤ rate / 10 ^ 9 := by positivity
          have hrefill := hbudget.refill hrate' (hclock now rfl)
          have hfound := refilled_eq h.maxTokens_eq h.refillRate_eq htokens now
          unfold RateLimiter.pass
          dsimp only
          rw [hfound, le_fin]
          by_cases hle : amount ≤ min (tokens + rate / 10 ^ 9 * (now - s.limiter.lastUpdate : ℕ))
            maxTokens
          · -- The amount is granted.
            rw [if_pos (decide_eq_true hle), sub_fin]
            refine ⟨h.maxTokens_eq, h.refillRate_eq, h.waiting.update task (by simp), _, _, rfl, ?_,
              hrefill.spend hrate' hnonneg hle⟩
            rw [granted_concat, htotal]
            dsimp only
            split <;> rfl
          · -- The task sleeps.
            rw [if_neg (by simpa using hle)]
            exact hnone ▸ ⟨h.maxTokens_eq, h.refillRate_eq, h.waiting, _, _, rfl, htotal, hrefill⟩

/-- The state after a schedule, and its grants. -/
def Limiting.run (maxTokens rate : K) (start : ℕ) (actions : List (Action K)) :
    Limiting (Extended K) × List (Option (Grant (Extended K))) :=
  Machine.run Limiting.step (Limiting.new (fin maxTokens) (fin rate) start)
    (actions.map Action.ofNumbers)

omit [IsStrictOrderedRing K] in
/-- The time of the last update is that of a pass, or of the start. -/
theorem lastUpdate_mem (maxTokens rate : K) (start : ℕ) (actions : List (Action K)) :
    (Limiting.run maxTokens rate start actions).1.limiter.lastUpdate ∈
      start :: actions.filterMap Action.time := by
  induction actions using List.reverseRecOn with
  | nil => exact List.mem_cons_self
  | append_singleton actions action ih =>
      rw [Limiting.run, List.map_append, List.map_singleton, Machine.run_concat, ← Limiting.run,
        List.filterMap_append, ← List.cons_append]
      cases action with
      | acquire task amount =>
          rw [Action.ofNumbers, Limiting.step]
          split <;> exact List.mem_append_left _ ih
      | pass task now =>
          rw [Action.ofNumbers, Limiting.step]
          cases (Limiting.run maxTokens rate start actions).1.waiting task with
          | none => exact List.mem_append_left _ ih
          | some amount =>
              have hnow : now ∈ start :: actions.filterMap Action.time ++ [now] := by simp
              have hlast := RateLimiter.pass_lastUpdate
                (Limiting.run maxTokens rate start actions).1.limiter amount now
              dsimp only
              rcases hpass :
                (Limiting.run maxTokens rate start actions).1.limiter.pass amount now with
                ⟨limiter, _ | wait⟩
              · rw [hpass] at hlast
                exact hlast ▸ hnow
              · rw [hpass] at hlast
                exact hlast ▸ hnow

/-- **The ledger of a schedule.** -/
theorem Limiting.ledger_run {maxTokens rate : K} (hmax : 0 ≤ maxTokens) (hrate : 0 ≤ rate)
    (start a b : ℕ) {actions : List (Action K)} (h : Schedule start actions) :
    (Limiting.run maxTokens rate start actions).1.Ledger maxTokens rate a b
      (granted a b (Limiting.run maxTokens rate start actions).2) := by
  induction actions using List.reverseRecOn with
  | nil => exact Limiting.ledger_new hmax hrate start a b
  | append_singleton actions action ih =>
      have hclock := h.clock
      rw [List.filterMap_append, ← List.cons_append, List.pairwise_append] at hclock
      have hbefore := ih
        ⟨fun task amount hmem => h.amounts task amount (List.mem_append_left _ hmem), hclock.1⟩
      have hlast := lastUpdate_mem maxTokens rate start actions
      have hrun : Limiting.run maxTokens rate start (actions ++ [action]) = _ :=
        (congrArg (Machine.run _ _) (by rw [List.map_append, List.map_singleton])).trans
          (Machine.run_concat _ _)
      rw [hrun]
      refine hbefore.step hrate action (fun task amount heq => ?_) fun now hnow => ?_
      · exact h.amounts task amount (heq ▸ by simp)
      · exact hclock.2.2 _ hlast now (by simpa [List.mem_filterMap] using hnow)

/-- **The tokens stay within their bounds**, and what is granted in a window of time is at most
the capacity and what is refilled in the window. -/
theorem tokens_and_grants {maxTokens rate : K} (hmax : 0 ≤ maxTokens) (hrate : 0 < rate)
    (start : ℕ) {actions : List (Action K)} (h : Schedule start actions) :
    (∃ tokens, (Limiting.run maxTokens rate start actions).1.limiter.tokens = fin tokens ∧
      0 ≤ tokens ∧ tokens ≤ maxTokens) ∧
    ∀ a b, a ≤ b → ∃ total, granted a b (Limiting.run maxTokens rate start actions).2 = fin total ∧
      total ≤ maxTokens + rate * (((b : K) - a) / 10 ^ 9) := by
  constructor
  · obtain ⟨tokens, spent, htokens, -, hbudget⟩ :=
      (Limiting.ledger_run hmax hrate.le start 0 0 h).budget
    exact ⟨tokens, htokens, hbudget.nonneg, hbudget.le_cap⟩
  · intro a b hab
    obtain ⟨tokens, spent, -, hspent, hbudget⟩ :=
      (Limiting.ledger_run hmax hrate.le start a b h).budget
    refine ⟨spent, hspent, hbudget.total.trans (le_of_eq ?_)⟩
    rw [Nat.cast_sub hab]
    ring

end Exact

/-- Two tasks that ask for seven of ten tokens at once. The second sleeps, as four are missing, and
passes again when two tokens a second have brought them. -/
def twoTasks : List (Action ℚ) :=
  [.acquire 0 7, .acquire 1 7, .pass 0 1000, .pass 1 1000, .pass 1 (2 * 10 ^ 9 + 1000)]

/-- The second is granted two seconds after the first, and the two grants are all that the bound
allows in these two seconds. -/
theorem tokens_and_grants_two_tasks :
    granted 1000 (2 * 10 ^ 9 + 1000) (Limiting.run 10 2 0 twoTasks).2 = fin 14 ∧
    (∃ tokens, (Limiting.run 10 2 0 twoTasks).1.limiter.tokens = fin tokens ∧ 0 ≤ tokens ∧
      tokens ≤ 10) ∧
    ∀ a b, a ≤ b → ∃ total, granted a b (Limiting.run 10 2 0 twoTasks).2 = fin total ∧
      total ≤ 10 + 2 * (((b : ℚ) - a) / 10 ^ 9) :=
  ⟨by decide +kernel, tokens_and_grants (by norm_num) (by norm_num) 0
    ⟨by simp [twoTasks]; rintro task amount (⟨-, rfl⟩ | ⟨-, rfl⟩) <;> norm_num, by decide⟩⟩

end HftPlatform.HftExchange
