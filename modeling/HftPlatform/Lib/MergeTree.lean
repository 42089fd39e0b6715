import HftPlatform.Lib.Table
import Mathlib.Data.List.Dedup

/-!
# Tables that collapse equal keys

A table that is only inserted into and that, when its parts are merged, keeps one of the rows of
each key. What it holds after all merges is a choice of a row for every key, unless the engine says
which one it keeps.

## Main results

* `Collapsed.eq_table_iff`: all choices give the same table just when the inserted rows, as a set,
  are that table.
* `forall_replaced_iff`: what holds of all rows that an engine keeps which keeps the last ones.
-/

namespace Lib

section MergeTree

variable {ρ κ : Type} [DecidableEq κ]

/-- After all merges: of the inserted rows one is kept for each of their keys. -/
structure Collapsed (key : ρ → κ) (rows merged : List ρ) : Prop where
  nodup : (merged.map key).Nodup
  stored : ∀ r ∈ merged, r ∈ rows
  kept : ∀ r ∈ rows, ∃ r' ∈ merged, key r' = key r

/-- After all merges of an engine that keeps the last inserted row of each key. -/
structure Replaced (key : ρ → κ) (rows merged : List ρ) : Prop extends
    Collapsed key rows merged where
  last : ∀ r ∈ merged, lookup key (key r) rows.reverse = some r

variable {key : ρ → κ} {rows merged table : List ρ} {r : ρ}

/-- The first row of each key. -/
def firsts (key : ρ → κ) (rows : List ρ) : List ρ :=
  (rows.map key).dedup.filterMap fun k => lookup key k rows

/-- A row is kept by `firsts` when it is found under its key. -/
theorem mem_firsts : r ∈ firsts key rows ↔ lookup key (key r) rows = some r := by
  rw [firsts, List.mem_filterMap]
  constructor
  · rintro ⟨k, -, hk⟩
    rwa [← key_of_lookup hk] at hk
  · intro h
    exact ⟨key r, List.mem_dedup.mpr (List.mem_map_of_mem (mem_of_lookup h)), h⟩

/-- Under the key of a row something is found. -/
theorem exists_lookup (hr : r ∈ rows) : ∃ r', lookup key (key r) rows = some r' := by
  rw [← Option.isSome_iff_exists, lookup, List.find?_isSome]
  exact ⟨r, hr, by simp⟩

/-- The first rows are a choice. -/
theorem collapsed_firsts (key : ρ → κ) (rows : List ρ) : Collapsed key rows (firsts key rows) where
  nodup := by
    have hkeys : ((firsts key rows).map key).Sublist (rows.map key).dedup := by
      have hsub : ∀ ks : List κ,
          ((ks.filterMap fun k => lookup key k rows).map key).Sublist ks := by
        intro ks
        induction ks with
        | nil => exact List.Sublist.slnil
        | cons k ks ih =>
            rw [List.filterMap_cons]
            cases hk : lookup key k rows with
            | none => exact ih.cons k
            | some r =>
                rw [List.map_cons, key_of_lookup hk]
                exact ih.cons_cons k
      exact hsub _
    exact (List.nodup_dedup _).sublist hkeys
  stored _ hr := mem_of_lookup (mem_firsts.mp hr)
  kept r hr := by
    obtain ⟨r', hr'⟩ : ∃ r', lookup key (key r) rows = some r' := exists_lookup hr
    have hkey := key_of_lookup hr'
    exact ⟨r', mem_firsts.mpr (by rwa [hkey]), hkey⟩

omit [DecidableEq κ] in
/-- Rows that are the same as a set allow the same choices. -/
theorem Collapsed.of_mem_iff {rows' : List ρ} (hmem : ∀ r, r ∈ rows ↔ r ∈ rows')
    (h : Collapsed key rows merged) : Collapsed key rows' merged :=
  ⟨h.nodup, fun r hr => (hmem r).mp (h.stored r hr), fun r hr => h.kept r ((hmem r).mpr hr)⟩

/-- Every row is kept by some choice. -/
theorem exists_collapsed (hr : r ∈ rows) : ∃ merged, Collapsed key rows merged ∧ r ∈ merged := by
  refine ⟨firsts key (r :: rows), (collapsed_firsts key (r :: rows)).of_mem_iff ?_,
    mem_firsts.mpr ?_⟩
  · intro r'
    rw [List.mem_cons, or_iff_right_iff_imp]
    rintro rfl
    exact hr
  · rw [lookup_cons, if_pos rfl]

/-- **When the choice makes no difference**: whatever rows are kept, they are those of a table with
unique keys, just when the inserted rows are. -/
theorem Collapsed.eq_table_iff (hunique : (table.map key).Nodup) :
    (∀ merged, Collapsed key rows merged → ∀ r, r ∈ merged ↔ r ∈ table) ↔
      ∀ r, r ∈ rows ↔ r ∈ table := by
  constructor
  · intro h r
    constructor
    · intro hr
      obtain ⟨merged, hmerged, hmem⟩ : ∃ merged, Collapsed key rows merged ∧ r ∈ merged :=
        exists_collapsed hr
      exact (h merged hmerged r).mp hmem
    · intro hr
      have hfirst := collapsed_firsts key rows
      exact hfirst.stored r ((h _ hfirst r).mpr hr)
  · intro h merged hmerged r
    constructor
    · intro hr
      exact (h r).mp (hmerged.stored r hr)
    · intro hr
      obtain ⟨r', hr', hkey⟩ := hmerged.kept r ((h r).mpr hr)
      have hsame : r' = r :=
        List.inj_on_of_nodup_map hunique ((h r').mp (hmerged.stored r' hr')) hr hkey
      rwa [← hsame]

/-- A row is found last under a key when no later row has the key. -/
theorem lookup_reverse_eq_some_iff {k : κ} : lookup key k rows.reverse = some r ↔
    key r = k ∧ ∃ pre post, rows = pre ++ r :: post ∧ ∀ r' ∈ post, key r' ≠ k := by
  rw [lookup, List.find?_eq_some_iff_append, decide_eq_true_eq]
  refine and_congr_right fun _ => ⟨?_, ?_⟩
  · rintro ⟨later, earlier, hrows, hlater⟩
    refine ⟨earlier.reverse, later.reverse, ?_, fun r' hr' => ?_⟩
    · rw [← List.reverse_reverse rows, hrows, List.reverse_append, List.reverse_cons,
        List.append_assoc, List.singleton_append]
    · simpa using hlater r' (List.mem_reverse.mp hr')
  · rintro ⟨pre, post, rfl, hpost⟩
    refine ⟨post.reverse, pre.reverse, by simp, fun r' hr' => ?_⟩
    simpa using hpost r' (List.mem_reverse.mp hr')

/-- The last rows are the choice of an engine that keeps the last row. -/
theorem replaced_firsts (key : ρ → κ) (rows : List ρ) :
    Replaced key rows (firsts key rows.reverse) where
  toCollapsed := (collapsed_firsts key rows.reverse).of_mem_iff fun _ => List.mem_reverse
  last _ hr := mem_firsts.mp hr

/-- **The rows that an engine keeps which keeps the last row**: those found last under their
keys. -/
theorem forall_replaced_iff {P : ρ → Prop} :
    (∀ merged, Replaced key rows merged → ∀ r ∈ merged, P r) ↔
      ∀ r, lookup key (key r) rows.reverse = some r → P r :=
  ⟨fun h r hr => h _ (replaced_firsts key rows) r (mem_firsts.mpr hr),
    fun h _ hmerged r hr => h r (hmerged.last r hr)⟩

end MergeTree

end Lib
