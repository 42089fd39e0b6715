import HftPlatform.Lib.Window
import Mathlib.Data.List.Induction

/-!
# The router's dedup cache

`services/execution_router/src/oms/dedup.rs`. Instants are natural numbers of nanoseconds;
the truncated subtraction of naturals is the saturating `duration_since`.

## Main results

* `Knows.seen_iff`: a call is refused exactly when an accepted call of the same
  id is recent.
* `Knows.call`: a call keeps the cache and the accepted calls in step.
* `answer_window`: over a whole sequence of calls, the cache refuses exactly the ids accepted
  within the time to live, cleaning up changes no answer, and nothing accepted within the time to
  live is forgotten.
-/

namespace HftPlatform

open Lib

/-- One time stamp for each id that was let through. -/
structure DedupCache where
  entries : List (String × ℕ)
  ttl : ℕ
  nodup : (entries.map Prod.fst).Nodup

namespace DedupCache

/-- Nothing was seen yet. -/
def new (ttl : ℕ) : DedupCache := ⟨[], ttl, List.nodup_nil⟩

variable (cache : DedupCache) (now : ℕ) (clientOrderId : String)

/-- When an id was last inserted. -/
def get : Option ℕ := (lookup Prod.fst clientOrderId cache.entries).map Prod.snd

/-- Insert, replacing the entry of the same id. -/
def insert : DedupCache where
  entries := (clientOrderId, now) :: cache.entries.filter fun e => e.1 ≠ clientOrderId
  ttl := cache.ttl
  nodup := by
    rw [List.map_cons, List.nodup_cons]
    refine ⟨by simp, ?_⟩
    exact cache.nodup.sublist (List.filter_sublist.map _)

/-- Drop the entries that have expired. -/
def retainLive : DedupCache where
  entries := cache.entries.filter fun e => now - e.2 ≤ cache.ttl
  ttl := cache.ttl
  nodup := cache.nodup.sublist (List.filter_sublist.map _)

/-- A large cache forgets what is too old. -/
def cleanupIfNeeded : DedupCache :=
  if cache.entries.length < 10000 then cache else cache.retainLive now

/-- Whether the id was let through recently; if not, it is let through now. -/
def seenRecentlyOrInsert : Bool × DedupCache :=
  let cache := cache.cleanupIfNeeded now
  match cache.get clientOrderId with
  | some ts =>
      if now - ts ≤ cache.ttl then (true, cache) else (false, cache.insert now clientOrderId)
  | none => (false, cache.insert now clientOrderId)

/-- The same without the cleanup. -/
def lookupOrInsert : Bool × DedupCache :=
  match cache.get clientOrderId with
  | some ts =>
      if now - ts ≤ cache.ttl then (true, cache) else (false, cache.insert now clientOrderId)
  | none => (false, cache.insert now clientOrderId)

/-- A call cleans up, and then looks up or inserts. -/
theorem seenRecentlyOrInsert_eq : cache.seenRecentlyOrInsert now clientOrderId =
    (cache.cleanupIfNeeded now).lookupOrInsert now clientOrderId := rfl

/-! ### The cache answers like the list of accepted calls -/

variable {cache now clientOrderId}

/-- An insertion changes the time of its id only. -/
theorem get_insert (j : String) : (cache.insert now clientOrderId).get j =
    if j = clientOrderId then some now else cache.get j := by
  rw [get, insert, lookup_cons]
  by_cases hj : clientOrderId = j
  · simp [hj]
  · rw [if_neg hj, if_neg (Ne.symm hj), get, lookup, lookup, List.find?_filter]
    congr 2
    funext e
    by_cases he : e.1 = j <;> simp [he, Ne.symm hj]

/-- Cleaning up forgets the times that are too old. -/
theorem get_retainLive (j : String) : (cache.retainLive now).get j =
    (cache.get j).filter fun t => now - t ≤ cache.ttl := by
  rw [get, retainLive, lookup_filter_of_nodup cache.nodup, get]
  cases lookup Prod.fst j cache.entries with
  | none => rfl
  | some e => by_cases he : now - e.2 ≤ cache.ttl <;> simp [Option.filter, he]

variable {accepted : List (String × ℕ)}

/-- The cache knows which of the accepted calls are recent. -/
def Knows (cache : DedupCache) (now : ℕ) (accepted : List (String × ℕ)) : Prop :=
  Remembers cache.ttl now accepted cache.get

/-- A new cache knows that no call was accepted. -/
theorem knows_new (ttl : ℕ) : (new ttl).Knows now [] := Remembers.empty

/-- Time passes. -/
theorem Knows.later {now' : ℕ} (hnow : now ≤ now') (h : cache.Knows now accepted) :
    cache.Knows now' accepted := Remembers.later hnow h

/-- The cleanup changes neither the time to live nor what is recent. -/
theorem Knows.cleanup (h : cache.Knows now accepted) :
    (cache.cleanupIfNeeded now).ttl = cache.ttl ∧
      (cache.cleanupIfNeeded now).Knows now accepted := by
  rw [cleanupIfNeeded]
  split
  · exact ⟨rfl, h⟩
  · exact ⟨rfl, h.retain fun j => get_retainLive j⟩

/-- The time to live stays. -/
theorem lookupOrInsert_ttl (cache : DedupCache) (now : ℕ) (clientOrderId : String) :
    (cache.lookupOrInsert now clientOrderId).2.ttl = cache.ttl := by
  rw [lookupOrInsert]
  split
  · split <;> rfl
  · rfl

/-- No call changes the time to live. -/
theorem seenRecentlyOrInsert_ttl (cache : DedupCache) (now : ℕ) (clientOrderId : String) :
    (cache.seenRecentlyOrInsert now clientOrderId).2.ttl = cache.ttl := by
  rw [seenRecentlyOrInsert_eq, lookupOrInsert_ttl, cleanupIfNeeded]
  split <;> rfl

/-- Without a cleanup, a call is refused exactly when an accepted call of its id is recent. -/
theorem Knows.lookup_iff (h : cache.Knows now accepted) (clientOrderId : String) :
    (cache.lookupOrInsert now clientOrderId).1 = true ↔
      Recent cache.ttl now accepted clientOrderId := by
  rw [← h.recent_iff, lookupOrInsert]
  cases hget : cache.get clientOrderId with
  | none => simp
  | some ts =>
      simp only [Option.some.injEq, exists_eq_left']
      split
      · rename_i hlive
        exact ⟨fun _ => hlive, fun _ => rfl⟩
      · rename_i hlive
        exact ⟨fun h => absurd h (by simp), fun h => absurd h hlive⟩

/-- Without a cleanup, a call that is let through joins the accepted calls. -/
theorem Knows.lookup (h : cache.Knows now accepted) (clientOrderId : String) :
    (cache.lookupOrInsert now clientOrderId).2.Knows now
      (if (cache.lookupOrInsert now clientOrderId).1 then accepted
        else accepted ++ [(clientOrderId, now)]) := by
  rw [lookupOrInsert]
  cases hget : cache.get clientOrderId with
  | none => exact h.insert clientOrderId fun j => get_insert j
  | some ts =>
      simp only
      split
      · exact h
      · exact h.insert clientOrderId fun j => get_insert j

/-- **A call is refused** exactly when an accepted call of its id is recent. -/
theorem Knows.seen_iff (h : cache.Knows now accepted) (clientOrderId : String) :
    (cache.seenRecentlyOrInsert now clientOrderId).1 = true ↔
      Recent cache.ttl now accepted clientOrderId := by
  obtain ⟨httl, hknows⟩ := h.cleanup
  rw [seenRecentlyOrInsert_eq, hknows.lookup_iff, httl]

/-- **A call that is let through** joins the accepted calls, one that is refused does not. -/
theorem Knows.call (h : cache.Knows now accepted) (clientOrderId : String) :
    (cache.seenRecentlyOrInsert now clientOrderId).2.Knows now
      (if (cache.seenRecentlyOrInsert now clientOrderId).1 then accepted
        else accepted ++ [(clientOrderId, now)]) :=
  h.cleanup.2.lookup clientOrderId

/-! ### Sequences of calls -/

/-- The cache that a list of calls leaves, each with its time and its id, where `call` is how a
cache answers a call. -/
def after (call : DedupCache → ℕ → String → Bool × DedupCache) (ttl : ℕ)
    (calls : List (ℕ × String)) : DedupCache :=
  calls.foldl (fun cache c => (call cache c.1 c.2).2) (new ttl)

/-- The answer to a call after others. -/
def answer (call : DedupCache → ℕ → String → Bool × DedupCache) (ttl : ℕ)
    (calls : List (ℕ × String)) (now : ℕ) (clientOrderId : String) : Bool :=
  (call (after call ttl calls) now clientOrderId).1

/-- One of the calls was for the id at the time and was let through. -/
def LetThrough (ttl : ℕ) (calls : List (ℕ × String)) (clientOrderId : String) (t : ℕ) : Prop :=
  ∃ pre post, calls = pre ++ (t, clientOrderId) :: post ∧
    answer seenRecentlyOrInsert ttl pre t clientOrderId = false

/-- The cache after one call more. -/
theorem after_concat (call : DedupCache → ℕ → String → Bool × DedupCache) (ttl : ℕ)
    (calls : List (ℕ × String)) (c : ℕ × String) :
    after call ttl (calls ++ [c]) = (call (after call ttl calls) c.1 c.2).2 := by simp [after]

/-- One more call adds itself to those let through, unless it is refused. -/
theorem letThrough_concat {ttl : ℕ} {calls : List (ℕ × String)} {t : ℕ} {i j : String} {s : ℕ} :
    LetThrough ttl (calls ++ [(t, i)]) j s ↔ LetThrough ttl calls j s ∨
      (j, s) = (i, t) ∧ answer seenRecentlyOrInsert ttl calls t i = false := by
  constructor
  · rintro ⟨pre, post, hcalls, hanswer⟩
    rcases List.eq_nil_or_concat post with rfl | ⟨post, last, rfl⟩
    · obtain ⟨rfl, hlast⟩ := List.append_inj' hcalls rfl
      obtain ⟨rfl, rfl⟩ := Prod.mk.inj (List.cons.inj hlast).1
      exact Or.inr ⟨rfl, hanswer⟩
    · rw [List.concat_eq_append, ← List.cons_append, ← List.append_assoc] at hcalls
      exact Or.inl ⟨pre, post, (List.append_inj' hcalls rfl).1, hanswer⟩
  · rintro (⟨pre, post, rfl, hanswer⟩ | ⟨hji, hanswer⟩)
    · exact ⟨pre, post ++ [(t, i)], by simp, hanswer⟩
    · obtain ⟨rfl, rfl⟩ := Prod.mk.inj hji
      exact ⟨calls, [], rfl, hanswer⟩

/-- What the caches with and without cleanup have in common: both know the calls let through, which
are spaced. -/
structure InStep (ttl : ℕ) (calls : List (ℕ × String)) (now : ℕ) (accepted : List (String × ℕ)) :
    Prop where
  ttl_eq : (after seenRecentlyOrInsert ttl calls).ttl = ttl
  keeping_ttl : (after lookupOrInsert ttl calls).ttl = ttl
  knows : (after seenRecentlyOrInsert ttl calls).Knows now accepted
  keeping : (after lookupOrInsert ttl calls).Knows now accepted
  spaced : Spaced ttl accepted
  mem_iff : ∀ i t, (i, t) ∈ accepted ↔ LetThrough ttl calls i t

variable {ttl : ℕ} {calls : List (ℕ × String)}

/-- The answer says whether the id was accepted recently. -/
theorem InStep.answer_iff (h : InStep ttl calls now accepted) (i : String) :
    answer seenRecentlyOrInsert ttl calls now i = true ↔ Recent ttl now accepted i := by
  rw [answer, h.knows.seen_iff, h.ttl_eq]

/-- Without cleaning up the answer is the same. -/
theorem InStep.answer_keeping (h : InStep ttl calls now accepted) (i : String) :
    answer lookupOrInsert ttl calls now i = answer seenRecentlyOrInsert ttl calls now i := by
  rw [Bool.eq_iff_iff, h.answer_iff, answer, h.keeping.lookup_iff, h.keeping_ttl]

/-- A call keeps the caches in step. -/
theorem InStep.call (h : InStep ttl calls now accepted) (i : String) :
    InStep ttl (calls ++ [(now, i)]) now
      (if answer seenRecentlyOrInsert ttl calls now i then accepted
        else accepted ++ [(i, now)]) where
  ttl_eq := by rw [after_concat, seenRecentlyOrInsert_ttl, h.ttl_eq]
  keeping_ttl := by rw [after_concat, lookupOrInsert_ttl, h.keeping_ttl]
  knows := by
    rw [after_concat]
    exact h.knows.call i
  keeping := by
    rw [after_concat, ← h.answer_keeping]
    exact h.keeping.lookup i
  spaced := by
    split
    · exact h.spaced
    · rename_i hnew
      exact h.spaced.insert (by rwa [h.answer_iff] at hnew)
  mem_iff j t := by
    rw [letThrough_concat, ← h.mem_iff]
    split
    · rename_i hseen
      simp [hseen]
    · rename_i hnew
      simp [hnew]

/-- After calls at times that do not decrease, the caches are in step. -/
theorem exists_inStep (htimes : (calls.map Prod.fst).Pairwise (· ≤ ·))
    (hnow : ∀ c ∈ calls, c.1 ≤ now) : ∃ accepted, InStep ttl calls now accepted := by
  induction calls using List.reverseRecOn generalizing now with
  | nil =>
      exact ⟨[], rfl, rfl, knows_new ttl, knows_new ttl, List.Pairwise.nil, fun i t => by
        simp [LetThrough]⟩
  | append_singleton calls c ih =>
      rw [List.map_append, List.pairwise_append] at htimes
      obtain ⟨accepted, h⟩ := ih htimes.1 fun b hb =>
        htimes.2.2 b.1 (List.mem_map_of_mem hb) c.1 (by simp)
      have hcall := h.call c.2
      have hle : c.1 ≤ now := hnow c (by simp)
      exact ⟨_, { hcall with
        knows := hcall.knows.later hle
        keeping := hcall.keeping.later hle }⟩

/-- **The window of the dedup cache.** Over calls at times that do not decrease, a call is let
through exactly when no earlier call of its id that was let through lies within the time to live;
the answer is that of a cache that never cleans up; and what was let through within the time to
live is still in the cache when it is looked up. -/
theorem answer_window (ttl : ℕ) (calls pre post : List (ℕ × String)) (t : ℕ) (i : String)
    (htimes : (calls.map Prod.fst).Pairwise (· ≤ ·)) (hcalls : calls = pre ++ (t, i) :: post) :
    (answer seenRecentlyOrInsert ttl pre t i = false ↔
        ¬ ∃ s, LetThrough ttl pre i s ∧ t - s ≤ ttl) ∧
      answer lookupOrInsert ttl pre t i = answer seenRecentlyOrInsert ttl pre t i ∧
      ∀ j s, LetThrough ttl pre j s → t - s ≤ ttl →
        ((after seenRecentlyOrInsert ttl pre).cleanupIfNeeded t).get j = some s := by
  subst hcalls
  rw [List.map_append, List.pairwise_append] at htimes
  obtain ⟨accepted, h⟩ := exists_inStep htimes.1 fun c hc =>
    htimes.2.2 c.1 (List.mem_map_of_mem hc) t (by simp)
  refine ⟨?_, h.answer_keeping i, fun j s hs hlive => ?_⟩
  · simp only [← h.mem_iff]
    rw [← Bool.not_eq_true, h.answer_iff, Recent]
  · obtain ⟨httl, hknows⟩ := h.knows.cleanup
    rw [Knows, httl, h.ttl_eq] at hknows
    exact hknows.get_of_recent h.spaced ((h.mem_iff j s).mpr hs) hlive

/-- Three calls of one id, of which the second lies within the time to live of the first. -/
theorem answer_window_three : (answer seenRecentlyOrInsert 10 [(0, "a"), (5, "a")] 11 "a" = false ↔
      ¬ ∃ s, LetThrough 10 [(0, "a"), (5, "a")] "a" s ∧ 11 - s ≤ 10) ∧
    answer lookupOrInsert 10 [(0, "a"), (5, "a")] 11 "a" =
      answer seenRecentlyOrInsert 10 [(0, "a"), (5, "a")] 11 "a" ∧
    ∀ j s, LetThrough 10 [(0, "a"), (5, "a")] j s → 11 - s ≤ 10 →
      ((after seenRecentlyOrInsert 10 [(0, "a"), (5, "a")]).cleanupIfNeeded 11).get j = some s :=
  answer_window 10 [(0, "a"), (5, "a"), (11, "a")] _ [] 11 "a" (by decide) rfl

end DedupCache

end HftPlatform
