import HftPlatform.Lib.Table
import Mathlib.Data.List.Pairwise

/-!
# Deduplication within a time window

A deduplicator refuses a call of a key while an accepted call of the same key lies at most
`ttl` back, and accepts it otherwise. Abstractly its state is the list of the calls it has
accepted, with their times. A cache that keeps one time for each key, and drops times that
have expired, answers in the same way; `Remembers` is the relation between the two.

## Main results

* `Remembers.recent_iff`: the cache and the list of accepted calls refuse the same keys.
* `Remembers.later`, `Remembers.retain`, `Remembers.insert`: the relation survives the passing
  of time, the removal of expired entries, and the acceptance of a call.
* `Remembers.get_of_recent`: the cache holds the time of a recent call, when the accepted calls of
  a key are spaced.
-/

namespace Lib

section Window

variable {κ : Type}

/-- An accepted call of the key `k` lies at most `ttl` back. -/
def Recent (ttl now : ℕ) (accepted : List (κ × ℕ)) (k : κ) : Prop :=
  ∃ t, (k, t) ∈ accepted ∧ now - t ≤ ttl

/-- At the time `now` a cache, read by `get`, knows which of the accepted calls are recent. -/
structure Remembers (ttl now : ℕ) (accepted : List (κ × ℕ)) (get : κ → Option ℕ) : Prop where
  /-- Calls are accepted in the past. -/
  past : ∀ k t, (k, t) ∈ accepted → t ≤ now
  /-- A remembered time is that of an accepted call. -/
  sound : ∀ k t, get k = some t → (k, t) ∈ accepted
  /-- A recent call, or a later one of its key, is remembered. -/
  complete : ∀ k t, (k, t) ∈ accepted → now - t ≤ ttl → ∃ t', get k = some t' ∧ t ≤ t'

namespace Remembers

variable {ttl now : ℕ} {accepted : List (κ × ℕ)} {get : κ → Option ℕ}

/-- Nothing is accepted at first, and nothing remembered. -/
theorem empty : Remembers ttl now ([] : List (κ × ℕ)) fun _ => none where
  past _ _ h := by simp at h
  sound _ _ h := by simp at h
  complete _ _ h := by simp at h

/-- **The cache refuses what the list of accepted calls refuses.** -/
theorem recent_iff (h : Remembers ttl now accepted get) (k : κ) :
    (∃ t, get k = some t ∧ now - t ≤ ttl) ↔ Recent ttl now accepted k := by
  constructor
  · rintro ⟨t, ht, hlive⟩
    exact ⟨t, h.sound k t ht, hlive⟩
  · rintro ⟨t, ht, hlive⟩
    obtain ⟨t', ht', hle⟩ := h.complete k t ht hlive
    exact ⟨t', ht', by omega⟩

/-- Time passes. -/
theorem later {now' : ℕ} (hnow : now ≤ now') (h : Remembers ttl now accepted get) :
    Remembers ttl now' accepted get where
  past k t ht := (h.past k t ht).trans hnow
  sound := h.sound
  complete k t ht hlive := h.complete k t ht (by omega)

/-- Expired entries are dropped. -/
theorem retain {get' : κ → Option ℕ} (h : Remembers ttl now accepted get)
    (hget : ∀ k, get' k = (get k).filter fun t => now - t ≤ ttl) :
    Remembers ttl now accepted get' where
  past := h.past
  sound k t ht := by
    rw [hget, Option.filter_eq_some_iff] at ht
    exact h.sound k t ht.1
  complete k t ht hlive := by
    obtain ⟨t', ht', hle⟩ := h.complete k t ht hlive
    refine ⟨t', ?_, hle⟩
    rw [hget, ht', Option.filter_eq_some_iff]
    exact ⟨rfl, by simp; omega⟩

/-- A call is accepted now. -/
theorem insert [DecidableEq κ] {get' : κ → Option ℕ} (h : Remembers ttl now accepted get) (k : κ)
    (hget : ∀ j, get' j = if j = k then some now else get j) :
    Remembers ttl now (accepted ++ [(k, now)]) get' where
  past j t ht := by
    rcases List.mem_append.mp ht with ht | ht
    · exact h.past j t ht
    · obtain ⟨-, rfl⟩ : j = k ∧ t = now := by simpa using ht
      exact le_rfl
  sound j t ht := by
    rw [hget] at ht
    split at ht
    · rename_i hj
      obtain rfl : now = t := Option.some.inj ht
      simp [hj]
    · exact List.mem_append_left _ (h.sound j t ht)
  complete j t ht hlive := by
    rw [hget]
    split
    · refine ⟨now, rfl, ?_⟩
      rcases List.mem_append.mp ht with ht | ht
      · exact h.past j t ht
      · obtain ⟨-, rfl⟩ : j = k ∧ t = now := by simpa using ht
        exact le_rfl
    · rename_i hj
      rcases List.mem_append.mp ht with ht | ht
      · exact h.complete j t ht hlive
      · exact absurd (by simpa using ht : j = k ∧ t = now).1 hj

end Remembers

/-! ### Spacing -/

/-- Two accepted calls of one key lie more than `ttl` apart. -/
def Spaced (ttl : ℕ) (accepted : List (κ × ℕ)) : Prop :=
  accepted.Pairwise fun a b => a.1 = b.1 → ttl < b.2 - a.2 ∨ ttl < a.2 - b.2

variable {ttl now : ℕ} {accepted : List (κ × ℕ)} {get : κ → Option ℕ}

/-- Accepting what is not recent keeps the calls spaced. -/
theorem Spaced.insert (h : Spaced ttl accepted) {k : κ} (hk : ¬ Recent ttl now accepted k) :
    Spaced ttl (accepted ++ [(k, now)]) := by
  refine List.pairwise_append.mpr ⟨h, List.pairwise_singleton _ _, fun a ha b hb hkey => ?_⟩
  obtain rfl := List.mem_singleton.mp hb
  obtain rfl : a.1 = k := hkey
  exact Or.inl (not_le.mp fun hle => hk ⟨a.2, ha, hle⟩)

/-- **The time of a recent call is remembered**, and no other time of its key. -/
theorem Remembers.get_of_recent (h : Remembers ttl now accepted get) (hspaced : Spaced ttl accepted)
    {k : κ} {t : ℕ} (ht : (k, t) ∈ accepted) (hlive : now - t ≤ ttl) : get k = some t := by
  obtain ⟨t', ht', hle⟩ := h.complete k t ht hlive
  have hin := h.sound k t' ht'
  have hpast := h.past k t' hin
  by_cases heq : t = t'
  · rw [heq, ht']
  · have hsymm : Std.Symm fun a b : κ × ℕ => a.1 = b.1 → ttl < b.2 - a.2 ∨ ttl < a.2 - b.2 :=
      ⟨fun a b hab hkey => (hab hkey.symm).symm⟩
    have hapart := hspaced.forall ht hin (fun hpair => heq (Prod.mk.inj hpair).2) rfl
    simp only at hapart
    omega

end Window

end Lib
