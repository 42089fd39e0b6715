import HftPlatform.Lib.Delimited
import HftPlatform.Lib.Machine
import HftPlatform.StrategyEngine
import Mathlib.Data.List.Nodup

/-!
# The ids of the planner over time

`IdempotencyPlanner` of `services/strategy_engine/src/planner/idempotency.rs` over any sequence of
calls: a decision keeps the id that its first call was given, and different decisions get different
ids, though their keys are joined texts.

## Main results

* `Call.key_inj`: the key tells the decision.
* `getElem?_clientOrderIds`: a call returns the fresh id of the first call with its key.
* `clientOrderIds_eq_iff`: two ids are the same exactly when their decisions are.
-/

namespace HftPlatform

open Lib

/-! ### The text of an id -/

/-- The low digits of a number tell it up to their weight. -/
theorem mod_pow_eq_of_digits {u v : ℕ} (n : ℕ)
    (h : ∀ j < n, u / 16 ^ j % 16 = v / 16 ^ j % 16) : u % 16 ^ n = v % 16 ^ n := by
  induction n with
  | zero => simp [Nat.mod_one]
  | succ n ih =>
      rw [Nat.mod_pow_succ, Nat.mod_pow_succ, ih fun j hj => h j (by omega), h n (by omega)]

theorem digitChar_inj : ∀ a < 16, ∀ b < 16, Nat.digitChar a = Nat.digitChar b → a = b := by
  decide

/-- The digits are the groups between the hyphens. -/
theorem groups_append (l : List Char) : l.take 8 ++ (l.drop 8).take 4 ++ (l.drop 12).take 4 ++
    (l.drop 16).take 4 ++ l.drop 20 = l := by
  have h₃ : (l.drop 16).take 4 ++ l.drop 20 = l.drop 16 := by
    simpa using List.take_append_drop 4 (l.drop 16)
  have h₂ : (l.drop 12).take 4 ++ l.drop 16 = l.drop 12 := by
    simpa using List.take_append_drop 4 (l.drop 12)
  have h₁ : (l.drop 8).take 4 ++ l.drop 12 = l.drop 8 := by
    simpa using List.take_append_drop 4 (l.drop 8)
  rw [List.append_assoc, h₃, List.append_assoc, h₂, List.append_assoc, h₁, List.take_append_drop]

/-- Groups of known lengths are read off the hyphenated text. -/
theorem hyphenated_inj {l l' : List Char} (hl : l.length = 32) (hl' : l'.length = 32)
    (h : l.take 8 ++ ['-'] ++ (l.drop 8).take 4 ++ ['-'] ++ (l.drop 12).take 4 ++ ['-'] ++
        (l.drop 16).take 4 ++ ['-'] ++ l.drop 20 =
      l'.take 8 ++ ['-'] ++ (l'.drop 8).take 4 ++ ['-'] ++ (l'.drop 12).take 4 ++ ['-'] ++
        (l'.drop 16).take 4 ++ ['-'] ++ l'.drop 20) : l = l' := by
  obtain ⟨h, h₄⟩ := List.append_inj' h (by simp [hl, hl'])
  obtain ⟨h, -⟩ := List.append_inj' h rfl
  obtain ⟨h, h₃⟩ := List.append_inj' h (by simp [hl, hl'])
  obtain ⟨h, -⟩ := List.append_inj' h rfl
  obtain ⟨h, h₂⟩ := List.append_inj' h (by simp [hl, hl'])
  obtain ⟨h, -⟩ := List.append_inj' h rfl
  obtain ⟨h, h₁⟩ := List.append_inj' h (by simp [hl, hl'])
  obtain ⟨h₀, -⟩ := List.append_inj' h rfl
  rw [← groups_append l, ← groups_append l', h₀, h₁, h₂, h₃, h₄]

/-- Different ids are printed differently. -/
theorem showHyphenated_inj {u v : Uuid} (hu : u < 2 ^ 128) (hv : v < 2 ^ 128)
    (h : showHyphenated u = showHyphenated v) : u = v := by
  have hdigits := hyphenated_inj (by simp) (by simp) (String.ofList_injective h)
  have hdigit : ∀ j < 32, u / 16 ^ j % 16 = v / 16 ^ j % 16 := by
    intro j hj
    have hchar := (List.map_inj_left.mp hdigits) (31 - j) (List.mem_range.mpr (by omega))
    rw [show 31 - (31 - j) = j by omega] at hchar
    exact digitChar_inj _ (Nat.mod_lt _ (by decide)) _ (Nat.mod_lt _ (by decide)) hchar
  have hmod := mod_pow_eq_of_digits 32 hdigit
  rwa [Nat.mod_eq_of_lt (by omega), Nat.mod_eq_of_lt (by omega)] at hmod

/-! ### The calls -/

namespace StrategyEngine

/-- A call of the planner, with the id that it draws when the decision is new. -/
structure Call where
  traceId : String
  symbol : String
  side : ℤ
  fresh : Uuid

namespace Call

/-- What the id is for. -/
def decision (call : Call) : String × String × ℤ := (call.traceId, call.symbol, call.side)

def key (call : Call) : String := call.traceId ++ ":" ++ call.symbol ++ ":" ++ toString call.side

/-- **The key tells the decision**: a symbol may hold a `:`, but neither the trace id before it nor
the number after it does. -/
theorem key_inj {call call' : Call} (h : ':' ∉ call.traceId.toList)
    (h' : ':' ∉ call'.traceId.toList) : call.key = call'.key ↔ call.decision = call'.decision := by
  have hside : ∀ n : ℤ, ':' ∉ (toString n).toList := fun n hmem =>
    absurd (mem_toString_int hmem) (by decide)
  rw [key, key, joined_inj_right rfl (hside _) (hside _), joined_inj_left rfl h h',
    toString_int_inj, decision, decision, Prod.mk.injEq, Prod.mk.injEq, and_assoc]

end Call

/-! ### A run -/

variable (rt : Runtime)

/-- The planner after a call, and the id that the call returned. -/
def plan (seen : IdempotencyPlanner) (call : Call) : IdempotencyPlanner × String :=
  let (id, seen) := seen.clientOrderId rt call.traceId call.symbol call.side call.fresh
  (seen, id)

/-- The ids that the calls return, in order. -/
def clientOrderIds (calls : List Call) : List String := (Machine.run (plan rt) [] calls).2

variable {rt}

/-- **What a call does**: a key that was seen keeps its id, and a new one gets the fresh id. -/
theorem plan_eq (seen : IdempotencyPlanner) (call : Call) :
    plan rt seen call = match lookup Prod.fst call.key seen with
      | some existing => (seen, existing.2)
      | none => (seen ++ [(call.key, rt.showUuid call.fresh)], rt.showUuid call.fresh) := by
  rw [plan, IdempotencyPlanner.clientOrderId, Call.key]
  cases lookup Prod.fst (call.traceId ++ ":" ++ call.symbol ++ ":" ++ toString call.side) seen <;>
    rfl

/-- The planner remembers the first call of each key. -/
theorem lookup_run (calls : List Call) (key : String) :
    lookup Prod.fst key (Machine.run (plan rt) [] calls).1 =
      (lookup Call.key key calls).map fun first => (key, rt.showUuid first.fresh) := by
  refine Machine.run_induction (P := fun calls _ (seen : IdempotencyPlanner) => ∀ key,
    lookup Prod.fst key seen =
      (lookup Call.key key calls).map fun first => (key, rt.showUuid first.fresh)) ?_ ?_ calls key
  · simp [lookup]
  · intro calls _ seen call ih key
    have hcalls : lookup Call.key key (calls ++ [call]) =
        (lookup Call.key key calls).or (if call.key = key then some call else none) := by
      simp [lookup, List.find?_append]
    rw [hcalls, plan_eq, ih call.key]
    cases hseen : lookup Call.key call.key calls with
    | some first =>
        rw [Option.map_some, ih key]
        by_cases hkey : call.key = key
        · rw [← hkey, hseen]
          rfl
        · simp [hkey]
    | none =>
        have hentries : lookup Prod.fst key (seen ++ [(call.key, rt.showUuid call.fresh)]) =
            (lookup Prod.fst key seen).or
              (if call.key = key then some (call.key, rt.showUuid call.fresh) else none) := by
          simp [lookup, List.find?_append]
        rw [Option.map_none, hentries, ih key]
        by_cases hkey : call.key = key
        · rw [← hkey, hseen]
          simp
        · simp [hkey]

/-- **A call returns the fresh id of the first call with its key.** -/
theorem getElem?_clientOrderIds (rt : Runtime) (pre post : List Call) (call : Call) :
    (clientOrderIds rt (pre ++ call :: post))[pre.length]? =
      (lookup Call.key call.key (pre ++ call :: post)).map fun first =>
        rt.showUuid first.fresh := by
  have hfirst : lookup Call.key call.key (pre ++ call :: post) =
      some ((lookup Call.key call.key pre).getD call) := by
    rw [lookup, List.find?_append, List.find?_cons_of_pos (by simp), lookup]
    cases pre.find? fun c => c.key = call.key <;> rfl
  rw [clientOrderIds, Machine.getElem?_run, plan_eq, lookup_run, hfirst]
  cases lookup Call.key call.key pre <;> rfl

/-- A call returns the id of the first call with its key, which is one of the calls. -/
theorem exists_first (rt : Runtime) {calls : List Call} {i : ℕ} {call : Call}
    (h : calls[i]? = some call) :
    ∃ first ∈ calls, first.key = call.key ∧ lookup Call.key call.key calls = some first ∧
      (clientOrderIds rt calls)[i]? = some (rt.showUuid first.fresh) := by
  obtain ⟨hlt, hget⟩ := List.getElem?_eq_some_iff.mp h
  have hid := getElem?_clientOrderIds rt (calls.take i) (calls.drop (i + 1)) call
  rw [← hget, List.getElem_cons_drop, List.take_append_drop, List.length_take_of_le hlt.le,
    hget] at hid
  cases hlookup : lookup Call.key call.key calls with
  | none =>
      have hnone := List.find?_eq_none.mp hlookup call (List.mem_of_getElem? h)
      simp at hnone
  | some first =>
      rw [hlookup] at hid
      have hkey : first.key = call.key := by simpa using List.find?_some hlookup
      exact ⟨first, List.mem_of_find?_eq_some hlookup, hkey, rfl, hid⟩

/-- **The planner is idempotent.** When the trace ids hold no `:` and the fresh ids are pairwise
distinct, any two calls of a run return the same id exactly when they are about the same trace id,
symbol and side. -/
theorem clientOrderIds_eq_iff
    (hshow : ∀ u v, u < 2 ^ 128 → v < 2 ^ 128 → rt.showUuid u = rt.showUuid v → u = v)
    {calls : List Call} (htrace : ∀ call ∈ calls, ':' ∉ call.traceId.toList)
    (hrange : ∀ call ∈ calls, call.fresh < 2 ^ 128) (hfresh : (calls.map Call.fresh).Nodup)
    {i j : ℕ} {call call' : Call} (hi : calls[i]? = some call) (hj : calls[j]? = some call') :
    ∃ id id', (clientOrderIds rt calls)[i]? = some id ∧ (clientOrderIds rt calls)[j]? = some id' ∧
      (id = id' ↔
        (call.traceId, call.symbol, call.side) = (call'.traceId, call'.symbol, call'.side)) := by
  obtain ⟨first, hmem, hkey, hlookup, hid⟩ := exists_first rt hi
  obtain ⟨first', hmem', hkey', hlookup', hid'⟩ := exists_first rt hj
  refine ⟨_, _, hid, hid', ?_⟩
  have hdecision : call.key = call'.key ↔ call.decision = call'.decision :=
    Call.key_inj (htrace _ (List.mem_of_getElem? hi)) (htrace _ (List.mem_of_getElem? hj))
  refine Iff.trans ⟨fun h => ?_, fun h => ?_⟩ hdecision
  · have hsame : first.fresh = first'.fresh := hshow _ _ (hrange _ hmem) (hrange _ hmem') h
    rw [← hkey, ← hkey', List.inj_on_of_nodup_map hfresh hmem hmem' hsame]
  · rw [h, hlookup'] at hlookup
    rw [Option.some.inj hlookup]

/-- Three calls: a symbol with a `:` is not mistaken for another trace id. -/
def threeCalls : List Call :=
  [⟨"t1", "BTC:USDT", 1, 7⟩, ⟨"t1", "BTC", -1, 8⟩, ⟨"t1", "BTC:USDT", 1, 9⟩]

theorem clientOrderIds_threeCalls :
    (clientOrderIds .reference threeCalls)[0]? = (clientOrderIds .reference threeCalls)[2]? ∧
      (clientOrderIds .reference threeCalls)[0]? ≠ (clientOrderIds .reference threeCalls)[1]? := by
  have hids : ∀ i j call call', threeCalls[i]? = some call → threeCalls[j]? = some call' → _ :=
    fun i j call call' => clientOrderIds_eq_iff
      (fun u v hu hv (h : Runtime.reference.showUuid u = Runtime.reference.showUuid v) =>
        showHyphenated_inj hu hv h) (by decide) (by decide) (by decide)
  obtain ⟨id, id', h₀, h₂, hiff⟩ := hids 0 2 _ _ rfl rfl
  obtain ⟨id₀, id₁, h₀', h₁, hiff'⟩ := hids 0 1 _ _ rfl rfl
  refine ⟨by rw [h₀, h₂, hiff.mpr rfl], ?_⟩
  rw [h₀', h₁]
  exact fun h => absurd (hiff'.mp (Option.some.inj h)) (by decide)

end StrategyEngine

end HftPlatform
