import Mathlib.Data.List.Induction
import Mathlib.Data.List.Nodup
import Mathlib.Data.List.Perm.Basic

/-!
# Maps collected from lists

The entries of a map, in some order, with one value for each key. A list of pairs is collected
into a map by inserting one after the other, so that the last value of a key is kept.

## Main results

* `lookup_collect`: what is under a key of a collected map.
* `lookup_perm`: the order of the entries does not matter.
-/

namespace Lib

section Entries

variable {κ ν : Type} [DecidableEq κ]

/-- The entries after all pairs were inserted, the newest first. -/
def collect (pairs : List (κ × ν)) : List (κ × ν) :=
  pairs.foldl (fun entries pair => pair :: entries.filter fun e => e.1 ≠ pair.1) []

/-- A pair replaces what was under its key. -/
theorem collect_concat (pairs : List (κ × ν)) (pair : κ × ν) :
    collect (pairs ++ [pair]) = pair :: (collect pairs).filter fun e => e.1 ≠ pair.1 := by
  rw [collect, List.foldl_concat, collect]

/-- A key that is not left out is found as before. -/
theorem lookup_filter_ne {key k : κ} (h : k ≠ key) (entries : List (κ × ν)) :
    (entries.filter fun e => e.1 ≠ key).lookup k = entries.lookup k := by
  induction entries with
  | nil => rfl
  | cons e entries ih =>
      by_cases he : e.1 = key
      · rw [List.filter_cons_of_neg (by simpa using he), ih, List.lookup_cons,
          beq_false_of_ne (he ▸ h)]
      · rw [List.filter_cons_of_pos (by simpa using he), List.lookup_cons, List.lookup_cons, ih]

/-- **The last value of a key** is under it. -/
theorem lookup_collect (pairs : List (κ × ν)) (k : κ) :
    (collect pairs).lookup k = pairs.reverse.lookup k := by
  induction pairs using List.reverseRecOn with
  | nil => rfl
  | append_singleton pairs pair ih =>
      rw [collect_concat, List.reverse_append, List.reverse_singleton, List.singleton_append,
        List.lookup_cons, List.lookup_cons]
      by_cases h : k = pair.1
      · rw [h, beq_self_eq_true]
      · rw [beq_false_of_ne h, lookup_filter_ne h, ih]

/-- Every key has one value. -/
theorem nodup_collect (pairs : List (κ × ν)) : ((collect pairs).map Prod.fst).Nodup := by
  induction pairs using List.reverseRecOn with
  | nil => exact List.nodup_nil
  | append_singleton pairs pair ih =>
      rw [collect_concat, List.map_cons, List.nodup_cons]
      refine ⟨?_, ih.sublist (List.filter_sublist.map Prod.fst)⟩
      intro hmem
      obtain ⟨e, he, hkey⟩ := List.mem_map.mp hmem
      exact of_decide_eq_true (List.mem_filter.mp he).2 hkey

/-- With distinct keys, what is found is what is there. -/
theorem lookup_eq_some_iff_mem {entries : List (κ × ν)} (h : (entries.map Prod.fst).Nodup) {k : κ}
    {v : ν} : entries.lookup k = some v ↔ (k, v) ∈ entries := by
  induction entries with
  | nil => simp
  | cons e entries ih =>
      rw [List.map_cons, List.nodup_cons] at h
      rw [List.lookup_cons, List.mem_cons]
      by_cases hk : k = e.1
      · have hnot : (k, v) ∉ entries := fun hmem => h.1 (hk ▸ List.mem_map_of_mem hmem)
        rw [hk, beq_self_eq_true]
        constructor
        · intro hv
          exact .inl (by rw [← Option.some.inj hv])
        · rintro (heq | hmem)
          · rw [← heq]
          · exact absurd (hk ▸ hmem) hnot
      · rw [beq_false_of_ne hk, ih h.2]
        constructor
        · exact .inr
        · rintro (rfl | hmem)
          · exact absurd rfl hk
          · exact hmem

/-- **The order of the entries** does not matter. -/
theorem lookup_perm {entries entries' : List (κ × ν)} (hperm : entries.Perm entries')
    (h : (entries.map Prod.fst).Nodup) (k : κ) : entries.lookup k = entries'.lookup k := by
  have h' : (entries'.map Prod.fst).Nodup := (hperm.map Prod.fst).nodup_iff.mp h
  refine Option.ext fun v => ?_
  rw [lookup_eq_some_iff_mem h, lookup_eq_some_iff_mem h', hperm.mem_iff]

end Entries

end Lib
