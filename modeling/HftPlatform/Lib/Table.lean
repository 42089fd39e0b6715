import HftPlatform.Lib.Numeric
import Mathlib.Data.List.Nodup

/-!
# Keyed tables

A table of a relational database is the list of its rows in insertion order, and a unique
key is a function on rows. This module defines the three ways a statement adds a row:

* `insertUnique` is a plain `INSERT` into a table with a unique key;
* `insertOrIgnore` is `INSERT … ON CONFLICT (key) DO NOTHING`;
* `upsert` is `INSERT … ON CONFLICT (key) DO UPDATE`, where `merge` computes the updated
  row from the stored one and may fail.

## Main results

* `lookup_filter_of_nodup`: what a deletion leaves under each key, where keys are unique.
* `lookup_upsert_self`, `lookup_upsert_of_ne`: what an upsert leaves under each key.
* `map_key_upsert`, `nodup_upsert`: an upsert adds at most the key of its row, and keeps keys
  unique.
* `upsert_isOk_iff`: an upsert fails exactly when merging the stored row does.
* `upsert_eq_self`, `upsert_unchanged_iff`: an upsert leaves the table as it is exactly when
  it merges the stored row into itself.
* `conflicts_insertOrIgnore`: a row once inserted, or ignored, is ignored from then on.
-/

namespace Lib

section Table

variable {ρ κ κ' ε : Type} [DecidableEq κ] [DecidableEq κ']

/-- The first row with key `k`. -/
def lookup (key : ρ → κ) (k : κ) (rows : List ρ) : Option ρ :=
  rows.find? fun r => key r = k

/-- Some stored row has the key of `new`. -/
def conflicts (key : ρ → κ) (new : ρ) (rows : List ρ) : Bool :=
  rows.any fun r => key r = key new

/-- `INSERT` into a table with a unique key, failing with `e` on a duplicate. -/
def insertUnique (unique : ρ → κ) (e : ε) (new : ρ) (rows : List ρ) : Except ε (List ρ) :=
  if conflicts unique new rows then .error e else .ok (rows ++ [new])

/-- `ON CONFLICT (arbiter) DO NOTHING` around the insertion `insert`. -/
def insertOrIgnore (arbiter : ρ → κ) (insert : ρ → List ρ → Except ε (List ρ)) (new : ρ)
    (rows : List ρ) : Except ε (List ρ) :=
  if conflicts arbiter new rows then .ok rows else insert new rows

/-- `INSERT … ON CONFLICT (key) DO UPDATE`: merge into the stored row of the same key, or
append. -/
def upsert (key : ρ → κ) (new : ρ) (merge : ρ → Except ε ρ) : List ρ → Except ε (List ρ)
  | [] => .ok [new]
  | r :: rs =>
      if key r = key new then
        match merge r with
        | .ok m => .ok (m :: rs)
        | .error e => .error e
      else
        match upsert key new merge rs with
        | .ok rs' => .ok (r :: rs')
        | .error e => .error e

variable {key : ρ → κ} {new : ρ} {merge : ρ → Except ε ρ} {rows rows' : List ρ}

@[simp] theorem lookup_nil (k : κ) : lookup key k [] = none := rfl

theorem lookup_cons (k : κ) (r : ρ) (rs : List ρ) :
    lookup key k (r :: rs) = if key r = k then some r else lookup key k rs := by
  by_cases h : key r = k <;> simp [lookup, h]

/-- The row found under a key carries it. -/
theorem key_of_lookup {k : κ} {r : ρ} (h : lookup key k rows = some r) : key r = k := by
  simpa using List.find?_some h

/-- Where keys are unique, a row is found under its key. -/
theorem lookup_of_mem {r : ρ} (h : (rows.map key).Nodup) (hr : r ∈ rows) :
    lookup key (key r) rows = some r := by
  induction rows with
  | nil => simp at hr
  | cons x xs ih =>
      rw [List.map_cons, List.nodup_cons] at h
      rw [lookup_cons]
      rcases List.mem_cons.mp hr with rfl | hr
      · rw [if_pos rfl]
      · have hne : key x ≠ key r := fun heq => h.1 (List.mem_map.mpr ⟨r, hr, heq.symm⟩)
        rw [if_neg hne, ih h.2 hr]

/-- What is found in a table whose rows are other records of the same keys. -/
theorem lookup_map {ρ' : Type} {key' : ρ' → κ} {f : ρ → ρ'} (h : ∀ r, key' (f r) = key r) (k : κ) :
    lookup key' k (rows.map f) = (lookup key k rows).map f := by
  induction rows with
  | nil => rfl
  | cons r rs ih =>
      rw [List.map_cons, lookup_cons, lookup_cons, h, ih]
      split <;> rfl

/-- A row that is found is stored. -/
theorem mem_of_lookup {k : κ} {r : ρ} (h : lookup key k rows = some r) : r ∈ rows :=
  List.mem_of_find?_eq_some h

/-- Nothing is found under a key that no row carries. -/
theorem lookup_of_not_mem {k : κ} (h : ∀ r ∈ rows, key r ≠ k) : lookup key k rows = none := by
  rw [lookup, List.find?_eq_none]
  intro r hr
  simpa using h r hr

/-- Where keys are unique, deleting rows deletes what is found under their keys. -/
theorem lookup_filter_of_nodup {p : ρ → Bool} {k : κ} (h : (rows.map key).Nodup) :
    lookup key k (rows.filter p) = (lookup key k rows).filter p := by
  induction rows with
  | nil => rfl
  | cons r rs ih =>
      rw [List.map_cons, List.nodup_cons] at h
      rw [lookup_cons, List.filter_cons]
      by_cases hr : key r = k
      · have hnone : lookup key k rs = none := by
          rw [lookup, List.find?_eq_none]
          intro x hx hxk
          rw [decide_eq_true_eq] at hxk
          exact h.1 (List.mem_map.mpr ⟨x, hx, hxk.trans hr.symm⟩)
        rw [if_pos hr]
        cases hp : p r with
        | true => simp [lookup_cons, hr, Option.filter, hp]
        | false => simp [ih h.2, hnone, Option.filter, hp]
      · rw [if_neg hr, ← ih h.2]
        cases p r <;> simp [lookup_cons, hr]

/-- **The key of an upsert** holds the merged row, or the new row when there was none. -/
theorem lookup_upsert_self
    (hmerge : ∀ old m, merge old = .ok m → key m = key old)
    (h : upsert key new merge rows = .ok rows') :
    ∃ r, lookup key (key new) rows' = some r ∧
      (lookup key (key new) rows = none ∧ r = new ∨
        ∃ old, lookup key (key new) rows = some old ∧ merge old = .ok r) := by
  induction rows generalizing rows' with
  | nil =>
      obtain rfl : [new] = rows' := by simpa [upsert] using h
      exact ⟨new, by simp [lookup], Or.inl ⟨rfl, rfl⟩⟩
  | cons r rs ih =>
      simp only [upsert] at h
      split at h
      · rename_i hr
        split at h
        · rename_i m hm
          obtain rfl : m :: rs = rows' := by simpa using h
          refine ⟨m, ?_, Or.inr ⟨r, ?_, hm⟩⟩
          · rw [lookup_cons, if_pos ((hmerge r m hm).trans hr)]
          · rw [lookup_cons, if_pos hr]
        · simp at h
      · rename_i hr
        split at h
        · rename_i rs' hrs
          obtain rfl : r :: rs' = rows' := by simpa using h
          obtain ⟨x, hx, hcases⟩ := ih hrs
          refine ⟨x, ?_, ?_⟩
          · rwa [lookup_cons, if_neg hr]
          · rwa [lookup_cons, if_neg hr]
        · simp at h

/-- **The other keys of an upsert** hold what they held. -/
theorem lookup_upsert_of_ne {k : κ} (hk : k ≠ key new)
    (hmerge : ∀ old m, merge old = .ok m → key m = key old)
    (h : upsert key new merge rows = .ok rows') : lookup key k rows' = lookup key k rows := by
  induction rows generalizing rows' with
  | nil =>
      obtain rfl : [new] = rows' := by simpa [upsert] using h
      rw [lookup_cons, if_neg hk.symm]
  | cons r rs ih =>
      simp only [upsert] at h
      split at h
      · rename_i hr
        split at h
        · rename_i m hm
          obtain rfl : m :: rs = rows' := by simpa using h
          have hmk : key m ≠ k := by rw [hmerge r m hm, hr]; exact hk.symm
          have hrk : key r ≠ k := by rw [hr]; exact hk.symm
          rw [lookup_cons, lookup_cons, if_neg hmk, if_neg hrk]
        · simp at h
      · split at h
        · rename_i rs' hrs
          obtain rfl : r :: rs' = rows' := by simpa using h
          rw [lookup_cons, lookup_cons, ih hrs]
        · simp at h

/-- The keys of a table after an upsert: those before it and, at the end, that of the new row
when no row had it. -/
theorem map_key_upsert (hmerge : ∀ old m, merge old = .ok m → key m = key old)
    (h : upsert key new merge rows = .ok rows') : rows'.map key =
      if key new ∈ rows.map key then rows.map key else rows.map key ++ [key new] := by
  induction rows generalizing rows' with
  | nil =>
      obtain rfl : [new] = rows' := by simpa [upsert] using h
      rfl
  | cons r rs ih =>
      simp only [upsert] at h
      split at h
      · rename_i hr
        split at h
        · rename_i m hm
          obtain rfl : m :: rs = rows' := by simpa using h
          have hmem : key new ∈ (r :: rs).map key := by simp [hr]
          rw [if_pos hmem, List.map_cons, List.map_cons, hmerge r m hm]
        · simp at h
      · rename_i hr
        split at h
        · rename_i rs' hrs
          obtain rfl : r :: rs' = rows' := by simpa using h
          rw [List.map_cons, ih hrs]
          by_cases hmem : key new ∈ rs.map key
          · rw [if_pos hmem, if_pos (by simp_all)]
            rfl
          · rw [if_neg hmem, if_neg (by simp_all [eq_comm])]
            rfl
        · simp at h

/-- **An upsert keeps keys unique.** -/
theorem nodup_upsert (hmerge : ∀ old m, merge old = .ok m → key m = key old)
    (h : upsert key new merge rows = .ok rows') (hrows : (rows.map key).Nodup) :
    (rows'.map key).Nodup := by
  rw [map_key_upsert hmerge h]
  split
  · exact hrows
  · rename_i hnew
    exact List.concat_eq_append ▸ List.Nodup.concat hnew hrows

/-- An upsert loses no key. -/
theorem keys_prefix_upsert (hmerge : ∀ old m, merge old = .ok m → key m = key old)
    (h : upsert key new merge rows = .ok rows') : rows.map key <+: rows'.map key := by
  rw [map_key_upsert hmerge h]
  split
  · exact List.prefix_rfl
  · exact List.prefix_append _ _

/-- An upsert succeeds exactly when the stored row of its key, if any, can be merged. -/
theorem upsert_isOk_iff :
    (∃ rows', upsert key new merge rows = .ok rows') ↔
      ∀ old, lookup key (key new) rows = some old → ∃ m, merge old = .ok m := by
  induction rows with
  | nil => simp [upsert]
  | cons r rs ih =>
      by_cases hr : key r = key new
      · rw [lookup_cons, if_pos hr]
        simp only [upsert, if_pos hr, Option.some.injEq, forall_eq']
        cases merge r <;> simp
      · rw [lookup_cons, if_neg hr, ← ih]
        simp only [upsert, if_neg hr]
        cases upsert key new merge rs <;> simp

/-- Merging the stored row into itself leaves the table as it is. -/
theorem upsert_eq_self {old : ρ} (hold : lookup key (key new) rows = some old)
    (hm : merge old = .ok old) : upsert key new merge rows = .ok rows := by
  induction rows with
  | nil => simp at hold
  | cons r rs ih =>
      rw [lookup_cons] at hold
      by_cases hr : key r = key new
      · obtain rfl : r = old := by simpa [hr] using hold
        simp [upsert, hr, hm]
      · rw [if_neg hr] at hold
        simp [upsert, hr, ih hold]

/-- An upsert changes the table exactly when it changes the stored row. -/
theorem upsert_unchanged_iff {old m : ρ} (hmerge : ∀ old m, merge old = .ok m → key m = key old)
    (hold : lookup key (key new) rows = some old) (hm : merge old = .ok m)
    (h : upsert key new merge rows = .ok rows') : rows' = rows ↔ m = old := by
  constructor
  · rintro rfl
    obtain ⟨r, hr, ⟨hnone, -⟩ | ⟨old', hold', hm'⟩⟩ := lookup_upsert_self hmerge h
    · simp [hnone] at hold
    · obtain rfl : old = old' := Option.some.inj (hold.symm.trans hold')
      obtain rfl : m = r := Except.ok.inj (hm.symm.trans hm')
      exact Option.some.inj (hr.symm.trans hold)
  · rintro rfl
    exact Except.ok.inj (h.symm.trans (upsert_eq_self hold hm))

/-- After `ON CONFLICT DO NOTHING` the key is taken, whichever branch was taken. -/
theorem conflicts_insertOrIgnore {unique : ρ → κ'} {e : ε}
    (h : insertOrIgnore key (insertUnique unique e) new rows = .ok rows') :
    conflicts key new rows' = true := by
  rw [insertOrIgnore] at h
  split at h
  · rename_i hc
    obtain rfl : rows = rows' := by simpa using h
    exact hc
  · rw [insertUnique] at h
    split at h
    · simp at h
    · obtain rfl : rows ++ [new] = rows' := by simpa using h
      simp [conflicts]

/-- A row is ignored when its key is taken, and inserted only when both keys are free. -/
theorem insertOrIgnore_cases {unique : ρ → κ'} {e : ε}
    (h : insertOrIgnore key (insertUnique unique e) new rows = .ok rows') :
    rows' = rows ∧ key new ∈ rows.map key ∨
      rows' = rows ++ [new] ∧ key new ∉ rows.map key ∧ unique new ∉ rows.map unique := by
  rw [insertOrIgnore] at h
  split at h
  · rename_i hc
    exact Or.inl ⟨(Except.ok.inj h).symm, by simpa [conflicts] using hc⟩
  · rename_i hc
    rw [insertUnique] at h
    split at h
    · simp at h
    · rename_i hu
      exact Or.inr ⟨(Except.ok.inj h).symm, by simpa [conflicts] using hc,
        by simpa [conflicts] using hu⟩

end Table

end Lib
