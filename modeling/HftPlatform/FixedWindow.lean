import HftPlatform.Lib.Machine
import Mathlib.Data.Option.Basic
import Mathlib.Tactic.Ring

/-!
# The counters in Redis

`RateLimiter` of `libs/rust/hft_redis/src/rate_limit.rs`: a counter under a key is incremented by a
script, which runs as one step, and expires some seconds after the call that created it. What the
clients see of the counter is compared with a limit.

## Main definitions

* `incrWithTtl`, `count`, `isExceeded`, `incrCheck`: the calls.
* `checks`: the calls of `incr_check` that reach Redis at the given times.

## Main results

* `Regular.incrWithTtl_cases`: a call creates a counter, or leaves the deadline of the one it finds.
* `fixed_window`: how many calls of a window are granted.
-/

namespace HftPlatform.HftRedis

open Lib

/-- A counter, and the millisecond from which on it is gone. -/
structure Counter where
  value : ℤ
  deadline : Option ℕ
  deriving DecidableEq

/-- The counter that a command finds under the key. -/
def live (now : ℕ) (key : Option Counter) : Option Counter :=
  key.filter fun c => c.deadline.all fun deadline => now < deadline

/-- `INCR`: a missing counter starts at zero, and its deadline is kept. -/
def incr (now : ℕ) (key : Option Counter) : Counter :=
  match live now key with
  | none => ⟨1, none⟩
  | some c => { c with value := c.value + 1 }

/-- `EXPIRE` -/
def expire (now ttlSecs : ℕ) (c : Counter) : Counter :=
  { c with deadline := some (now + ttlSecs * 1000) }

/-- `INCR_WITH_TTL_LUA`: the counter that the script leaves; what it returns is its value. -/
def incrWithTtlLua (ttlSecs now : ℕ) (key : Option Counter) : Counter :=
  let c := incr now key
  if c.value = 1 then expire now ttlSecs c else c

/-- The counter is counted up, and a new one gets a deadline. -/
def incrWithTtl (ttlSecs now : ℕ) (key : Option Counter) : Option Counter × ℕ :=
  let c := incrWithTtlLua ttlSecs now key
  (some c, c.value.toNat)

/-- What a counter stands at. -/
def count (now : ℕ) (key : Option Counter) : ℕ := (((live now key).map Counter.value).getD 0).toNat

/-- The counter has reached the limit. -/
def isExceeded (limit now : ℕ) (key : Option Counter) : Bool := limit ≤ count now key

/-- Counting up, and whether the limit is exceeded then. -/
def incrCheck (ttlSecs limit now : ℕ) (key : Option Counter) : Option Counter × ℕ × Bool :=
  let r := incrWithTtl ttlSecs now key
  (r.1, r.2, limit < r.2)

variable {ttlSecs limit now : ℕ}

/-! ### One call -/

/-- A counter that was created by the script. -/
def Counter.of (value deadline : ℕ) : Counter := ⟨value, some deadline⟩

/-- A counter lives until its deadline. -/
theorem live_of_iff {value deadline : ℕ} :
    live now (some (.of value deadline)) = some (.of value deadline) ↔ now < deadline := by
  simp [live, Counter.of, Option.filter_eq_some_iff]

/-- At its deadline it is gone. -/
theorem live_eq_none_iff {value deadline : ℕ} :
    live now (some (.of value deadline)) = none ↔ deadline ≤ now := by
  simp [live, Counter.of, Option.filter_eq_none_iff]

/-- **A call that finds the counter** does not move its deadline. -/
theorem incrWithTtl_live {value deadline : ℕ} (hvalue : 1 ≤ value) (h : now < deadline) :
    incrWithTtl ttlSecs now (some (.of value deadline)) =
      (some (.of (value + 1) deadline), value + 1) := by
  have hincr : incr now (some (.of value deadline)) = .of (value + 1) deadline := by
    rw [incr, live_of_iff.mpr h]
    rfl
  have hscript : incrWithTtlLua ttlSecs now (some (.of value deadline)) =
      .of (value + 1) deadline := by
    rw [incrWithTtlLua, hincr, if_neg]
    simp only [Counter.of]
    omega
  rw [incrWithTtl, hscript]
  rfl

/-- **A call that finds no counter** creates one. -/
theorem incrWithTtl_new {key : Option Counter} (h : live now key = none) :
    incrWithTtl ttlSecs now key = (some (.of 1 (now + ttlSecs * 1000)), 1) := by
  rw [incrWithTtl, incrWithTtlLua, incr, h]
  rfl

/-- No counter, or one that the script created. -/
def Regular (key : Option Counter) : Prop :=
  ∀ c ∈ key, ∃ value deadline, 1 ≤ value ∧ c = .of value deadline

/-- **What a call does**: it creates a counter, or it finds one and leaves its deadline. -/
theorem Regular.incrWithTtl_cases {key : Option Counter} (h : Regular key) (ttlSecs now : ℕ) :
    live now key = none ∧
        incrWithTtl ttlSecs now key = (some (.of 1 (now + ttlSecs * 1000)), 1) ∨
      ∃ value deadline, 1 ≤ value ∧ key = some (.of value deadline) ∧ now < deadline ∧
        incrWithTtl ttlSecs now key = (some (.of (value + 1) deadline), value + 1) := by
  cases hlive : live now key with
  | none => exact .inl ⟨rfl, incrWithTtl_new hlive⟩
  | some c =>
      obtain ⟨hkey, -⟩ := Option.filter_eq_some_iff.mp hlive
      obtain ⟨value, deadline, hvalue, rfl⟩ := h c hkey
      subst hkey
      have hlt := live_of_iff.mp hlive
      exact .inr ⟨value, deadline, hvalue, rfl, hlt, incrWithTtl_live hvalue hlt⟩

/-- Counting keeps a counter regular. -/
theorem Regular.incrWithTtl {key : Option Counter} (h : Regular key) (ttlSecs now : ℕ) :
    Regular (incrWithTtl ttlSecs now key).1 := by
  rintro c hc
  rcases h.incrWithTtl_cases ttlSecs now with ⟨-, hcall⟩ | ⟨value, deadline, hvalue, -, -, hcall⟩
  · rw [hcall] at hc
    exact ⟨1, _, le_rfl, (Option.some.inj hc).symm⟩
  · rw [hcall] at hc
    exact ⟨value + 1, deadline, by omega, (Option.some.inj hc).symm⟩

/-! ### The calls of a window -/

/-- The key, and what the calls returned, after calls that reached Redis at the given times. The
script is one step, so that an interleaving of clients is the order of their calls. -/
def checks (ttlSecs limit : ℕ) (key : Option Counter) (times : List ℕ) :
    Option Counter × List (ℕ × Bool) :=
  Machine.run (fun key now => incrCheck ttlSecs limit now key) key times

/-- The calls that were not told that the limit is exceeded. -/
def grants (answers : List (ℕ × Bool)) : ℕ := answers.countP fun answer => !answer.2

/-- Calls before the deadline leave it as it is, and are granted as long as the counter is below
the limit. -/
theorem checks_live (ttlSecs limit : ℕ) {value deadline : ℕ} (hvalue : 1 ≤ value) (times : List ℕ)
    (h : ∀ time ∈ times, time < deadline) :
    (checks ttlSecs limit (some (.of value deadline)) times).1 =
        some (.of (value + times.length) deadline) ∧
      grants (checks ttlSecs limit (some (.of value deadline)) times).2 + min limit value =
        min limit (value + times.length) := by
  induction times generalizing value with
  | nil => exact ⟨rfl, Nat.zero_add _⟩
  | cons time times ih =>
      have hstep : incrCheck ttlSecs limit time (some (.of value deadline)) =
          (some (.of (value + 1) deadline), value + 1, decide (limit < value + 1)) := by
        rw [incrCheck, incrWithTtl_live hvalue (h time List.mem_cons_self)]
      have hsum : value + 1 + times.length = value + (times.length + 1) := by omega
      have hnext : 1 ≤ value + 1 := Nat.le_succ_of_le hvalue
      obtain ⟨hkey, hgrants⟩ := ih hnext fun t ht => h t (List.mem_cons_of_mem _ ht)
      rw [checks, hsum] at hkey hgrants
      rw [checks, Machine.run, hstep, List.length_cons]
      refine ⟨hkey, ?_⟩
      rw [grants] at hgrants ⊢
      rw [List.countP_cons, ← hgrants]
      by_cases hlt : limit < value + 1
      · rw [min_eq_left (by omega), min_eq_left (by omega)]
        simp [hlt]
      · rw [min_eq_right (by omega), min_eq_right (by omega)]
        simp [hlt]
        omega

/-- After any calls the counter is regular. -/
theorem checks_regular (ttlSecs limit : ℕ) (times : List ℕ) :
    Regular (checks ttlSecs limit none times).1 := by
  induction times using List.reverseRecOn with
  | nil =>
      intro c hc
      cases hc
  | append_singleton times time ih =>
      rw [checks, Machine.run_concat]
      exact ih.incrWithTtl ttlSecs time

/-- The grants of a window: a call creates the key, and others follow before it expires. -/
theorem checks_window (ttlSecs limit : ℕ) (before : List ℕ) (time : ℕ) (after : List ℕ)
    (hnew : live time (checks ttlSecs limit none before).1 = none)
    (hafter : ∀ t ∈ after, t < time + ttlSecs * 1000) :
    grants ((checks ttlSecs limit none (before ++ time :: after)).2.drop before.length) =
        min limit (after.length + 1) := by
  have hstep : incrCheck ttlSecs limit time (checks ttlSecs limit none before).1 =
      (some (.of 1 (time + ttlSecs * 1000)), 1, decide (limit < 1)) := by
    rw [incrCheck, incrWithTtl_new hnew]
  have hgrants := (checks_live ttlSecs limit le_rfl after hafter).2
  have hlen : (checks ttlSecs limit none before).2.length = before.length :=
    Machine.length_run before
  rw [checks] at hstep hgrants hlen
  rw [checks, Machine.run_append, ← hlen, List.drop_left, Machine.run, hstep,
    Nat.add_comm after.length, ← hgrants]
  rw [grants, grants, List.countP_cons]
  by_cases hlimit : limit < 1
  · rw [min_eq_left (by omega)]
    simp [hlimit]
    omega
  · rw [min_eq_right (by omega)]
    simp [hlimit]

/-- **The fixed window.** Of the calls from the creation of the key to its expiry, as many are
granted as the limit allows; and no call moves the deadline of a counter that is there. -/
theorem fixed_window (ttlSecs limit : ℕ) :
    (∀ before time after, live time (checks ttlSecs limit none before).1 = none →
      (∀ t ∈ after, t < time + ttlSecs * 1000) →
      (checks ttlSecs limit none (before ++ [time])).1 = some (.of 1 (time + ttlSecs * 1000)) ∧
      grants ((checks ttlSecs limit none (before ++ time :: after)).2.drop before.length) =
        min limit (after.length + 1)) ∧
    ∀ before time, ∀ c ∈ live time (checks ttlSecs limit none before).1,
      (checks ttlSecs limit none (before ++ [time])).1.map Counter.deadline = some c.deadline := by
  constructor
  · intro before time after hnew hafter
    refine ⟨?_, checks_window ttlSecs limit before time after hnew hafter⟩
    rw [checks, Machine.run_concat]
    exact congrArg Prod.fst (incrWithTtl_new hnew)
  · intro before time c hc
    rw [checks, Machine.run_concat, ← checks]
    show (incrWithTtl ttlSecs time _).1.map Counter.deadline = _
    rcases (checks_regular ttlSecs limit before).incrWithTtl_cases ttlSecs time with
      ⟨hnone, -⟩ | ⟨value, deadline, -, hkey, hlt, hcall⟩
    · rw [hnone] at hc
      cases hc
    · rw [hkey, live_of_iff.mpr hlt] at hc
      rw [hcall, ← Option.some.inj hc]
      rfl

/-- Of three calls in the second window of a second, two are granted. -/
theorem fixed_window_second :
    grants ((checks 1 2 none [0, 999, 1000, 1500, 1999]).2.drop 2) = 2 :=
  ((fixed_window 1 2).1 [0, 999] 1000 [1500, 1999] (by decide) (by decide)).2

end HftPlatform.HftRedis
