import HftPlatform.Lib.History
import Mathlib.Data.Finset.Basic

/-!
# The dedup cache of the candle stream

The cache of `services/marketdata_ingestor/src/candle.rs` keeps the keys of the candles that it
let through last, in a queue for their order and in a map for the test.

## Main results

* `evict_of_coupled`: evicting cuts the queue to its last keys and the map with it.
* `insertIfNew_iff`: a key is new exactly when it is none of the last ones that were, and queue and
  map hold the same keys after every call.
-/

namespace HftPlatform

open Lib

/-- What identifies a candle. -/
structure CandleKey where
  symbol : String
  interval : String
  openTime : ℤ
  deriving DecidableEq, Repr

/-- The keys that were inserted, in a queue and in a set. -/
structure DedupeCache where
  capacity : ℕ
  order : List CandleKey
  seen : Finset CandleKey

namespace DedupeCache

/-- Nothing was inserted yet. -/
def new (capacity : ℕ) : DedupeCache := ⟨capacity, [], ∅⟩

/-- The loop that pops the front of a queue that is too long. -/
def evict (capacity : ℕ) : List CandleKey → Finset CandleKey → List CandleKey × Finset CandleKey
  | [], seen => ([], seen)
  | key :: order, seen =>
      if capacity < (key :: order).length then evict capacity order (seen.erase key)
      else (key :: order, seen)

/-- Whether a key is new, and the cache with it; the oldest key makes room. -/
def insertIfNew (cache : DedupeCache) (key : CandleKey) : Bool × DedupeCache :=
  if key ∈ cache.seen then (false, cache)
  else
    let kept := evict cache.capacity (cache.order ++ [key]) (insert key cache.seen)
    (true, { cache with order := kept.1, seen := kept.2 })

/-- The cache that a list of calls leaves. -/
def after (capacity : ℕ) (keys : List CandleKey) : DedupeCache :=
  keys.foldl (fun cache key => (cache.insertIfNew key).2) (new capacity)

/-- The keys of the calls that returned `true`, in order. -/
def insertedBy (cache : DedupeCache) : List CandleKey → List CandleKey
  | [] => []
  | key :: keys =>
      if (cache.insertIfNew key).1 then key :: insertedBy (cache.insertIfNew key).2 keys
      else insertedBy (cache.insertIfNew key).2 keys

/-- The keys that calls of a new cache inserted. -/
def inserted (capacity : ℕ) (keys : List CandleKey) : List CandleKey :=
  (new capacity).insertedBy keys

/-! ### Queue and map -/

/-- The queue is without duplicates and within the capacity, and holds the keys of the map. -/
structure Coupled (cache : DedupeCache) : Prop where
  nodup : cache.order.Nodup
  bounded : cache.order.length ≤ cache.capacity
  mem_iff : ∀ key, key ∈ cache.order ↔ key ∈ cache.seen

variable {capacity : ℕ} {cache : DedupeCache} {order keys : List CandleKey} {key : CandleKey}

/-- **Evicting** cuts a queue to its last keys, and the map of its keys to theirs. -/
theorem evict_of_coupled (capacity : ℕ) {seen : Finset CandleKey} (hnodup : order.Nodup)
    (hmem : ∀ key, key ∈ order ↔ key ∈ seen) :
    (evict capacity order seen).1 = lastN capacity order ∧
      ∀ key, key ∈ (evict capacity order seen).1 ↔ key ∈ (evict capacity order seen).2 := by
  induction order generalizing seen with
  | nil => exact ⟨(lastN_nil capacity).symm, hmem⟩
  | cons first order ih =>
      rw [List.nodup_cons] at hnodup
      rw [evict]
      split
      · rename_i hlong
        have hrest : ∀ key, key ∈ order ↔ key ∈ seen.erase first := by
          intro key
          rw [Finset.mem_erase, ← hmem, List.mem_cons]
          constructor
          · intro hkey
            exact ⟨fun heq => hnodup.1 (heq ▸ hkey), Or.inr hkey⟩
          · rintro ⟨hne, hkey⟩
            exact hkey.resolve_left hne
        obtain ⟨horder, hkeys⟩ := ih hnodup.2 hrest
        refine ⟨?_, hkeys⟩
        have hdrop : (first :: order).length - capacity = order.length - capacity + 1 := by
          rw [List.length_cons] at hlong ⊢
          omega
        rw [horder, lastN, lastN, hdrop, List.drop_succ_cons]
      · rename_i hshort
        have hall : (first :: order).length - capacity = 0 := by omega
        exact ⟨by rw [lastN, hall, List.drop_zero], hmem⟩

/-- In a new cache both are empty. -/
theorem Coupled.new : Coupled (new capacity) where
  nodup := List.nodup_nil
  bounded := Nat.zero_le _
  mem_iff key := by simp [DedupeCache.new]

/-- A call keeps queue and map together, and pushes a key that it inserts. -/
theorem Coupled.insertIfNew (h : Coupled cache) (key : CandleKey) :
    Coupled (cache.insertIfNew key).2 ∧
      (cache.insertIfNew key).2.capacity = cache.capacity ∧
      ((cache.insertIfNew key).1 = true ↔ key ∉ cache.order) ∧
      ((cache.insertIfNew key).2.order = if (cache.insertIfNew key).1 then
        lastN cache.capacity (cache.order ++ [key]) else cache.order) := by
  rw [DedupeCache.insertIfNew, h.mem_iff]
  split
  · rename_i hseen
    exact ⟨h, rfl, by simp [hseen], rfl⟩
  · rename_i hnew
    have hnodup : (cache.order ++ [key]).Nodup := by
      rw [← List.concat_eq_append]
      exact h.nodup.concat (by rwa [h.mem_iff])
    have hmem : ∀ k, k ∈ cache.order ++ [key] ↔ k ∈ insert key cache.seen := by
      intro k
      rw [List.mem_append, List.mem_singleton, Finset.mem_insert, h.mem_iff, or_comm]
    obtain ⟨horder, hkeys⟩ := evict_of_coupled cache.capacity hnodup hmem
    refine ⟨⟨?_, ?_, hkeys⟩, rfl, by simp [hnew], horder⟩
    · simp only [horder]
      exact hnodup.sublist (List.drop_sublist _ _)
    · simp only [horder, lastN, List.length_drop]
      omega

/-! ### Sequences of calls -/

/-- One key more. -/
theorem after_concat : after capacity (keys ++ [key]) =
    ((after capacity keys).insertIfNew key).2 := by simp [after]

/-- The keys that were inserted, with one key more. -/
theorem insertedBy_concat : cache.insertedBy (keys ++ [key]) = cache.insertedBy keys ++
    if ((keys.foldl (fun cache key => (cache.insertIfNew key).2) cache).insertIfNew key).1 then
      [key] else [] := by
  induction keys generalizing cache with
  | nil => rfl
  | cons first keys ih =>
      rw [List.cons_append, insertedBy, insertedBy, ih, List.foldl_cons]
      split <;> rfl

/-- One more call adds its key to those inserted, if it returns `true`. -/
theorem inserted_concat : inserted capacity (keys ++ [key]) = inserted capacity keys ++
    if ((after capacity keys).insertIfNew key).1 then [key] else [] := insertedBy_concat

/-- **The cache after a sequence of calls**: its queue holds the last keys that were inserted. -/
theorem coupled_after (capacity : ℕ) (keys : List CandleKey) :
    Coupled (after capacity keys) ∧ (after capacity keys).capacity = capacity ∧
      (after capacity keys).order = lastN capacity (inserted capacity keys) := by
  induction keys using List.reverseRecOn with
  | nil => exact ⟨Coupled.new, rfl, (lastN_nil capacity).symm⟩
  | append_singleton keys key ih =>
      obtain ⟨hcoupled, hcapacity, horder⟩ := ih
      obtain ⟨hcoupled', hcapacity', -, horder'⟩ := hcoupled.insertIfNew key
      rw [after_concat, inserted_concat]
      refine ⟨hcoupled', hcapacity'.trans hcapacity, horder'.trans ?_⟩
      split
      · rw [hcapacity, horder, lastN_push]
      · rw [List.append_nil, horder]

/-- **A key is new** exactly when it is none of the last `capacity` keys that were; and after every
sequence of calls the queue has no duplicates, is within the capacity and holds the keys of the
map. -/
theorem insertIfNew_iff (capacity : ℕ) (keys : List CandleKey) (key : CandleKey) :
    (((after capacity keys).insertIfNew key).1 = true ↔
        key ∉ lastN capacity (inserted capacity keys)) ∧
      Coupled (after capacity keys) ∧ (after capacity keys).capacity = capacity := by
  obtain ⟨hcoupled, hcapacity, horder⟩ := coupled_after capacity keys
  obtain ⟨-, -, hnew, -⟩ := hcoupled.insertIfNew key
  exact ⟨by rw [hnew, horder], hcoupled, hcapacity⟩

/-- With room for two keys, a third one evicts the first, which is then new again. -/
example : inserted 2 [⟨"A", "1m", 0⟩, ⟨"A", "1m", 1⟩, ⟨"A", "1m", 0⟩, ⟨"A", "1m", 2⟩,
    ⟨"A", "1m", 0⟩] = [⟨"A", "1m", 0⟩, ⟨"A", "1m", 1⟩, ⟨"A", "1m", 2⟩, ⟨"A", "1m", 0⟩] := by
  decide

end DedupeCache

end HftPlatform
