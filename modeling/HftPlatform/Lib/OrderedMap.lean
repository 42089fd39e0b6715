import Mathlib.Data.List.Basic

/-!
# Updating ordered maps

A loop over the entries of one ordered map that updates, under each key, the entry of another one.

## Main results

* `getElem?_foldl_insert`: what the loop leaves under a key.
-/

namespace Lib

open Std (TreeMap TransOrd LawfulEqOrd)

section Update

variable {κ β γ : Type} [Ord κ] [TransOrd κ] [LawfulEqOrd κ] {update : Option γ → β → γ} {k : κ}

/-- Entries of other keys leave what is under a key. -/
theorem getElem?_foldl_of_not_mem {entries : List (κ × β)} (h : ∀ v, (k, v) ∉ entries)
    (map : TreeMap κ γ) :
    (entries.foldl (fun map e => map.insert e.1 (update map[e.1]? e.2)) map)[k]? = map[k]? := by
  induction entries generalizing map with
  | nil => rfl
  | cons e entries ih =>
      have hne : e.1 ≠ k := fun heq => h e.2 (by rw [← heq]; exact List.mem_cons_self)
      rw [List.foldl_cons, ih (fun v hv => h v (List.mem_cons_of_mem e hv)),
        TreeMap.getElem?_insert, if_neg (by rwa [Std.compare_eq_iff_eq])]

/-- The entry of a key is updated once. -/
theorem getElem?_foldl_of_mem {entries : List (κ × β)}
    (hkeys : entries.Pairwise fun a b => a.1 ≠ b.1) {v : β} (h : (k, v) ∈ entries)
    (map : TreeMap κ γ) :
    (entries.foldl (fun map e => map.insert e.1 (update map[e.1]? e.2)) map)[k]? =
      some (update map[k]? v) := by
  induction entries generalizing map with
  | nil => cases h
  | cons e entries ih =>
      rw [List.pairwise_cons] at hkeys
      rw [List.foldl_cons]
      rcases List.mem_cons.mp h with rfl | hmem
      · rw [getElem?_foldl_of_not_mem fun w hw => hkeys.1 (k, w) hw rfl, TreeMap.getElem?_insert,
          if_pos Std.ReflCmp.compare_self]
      · rw [ih hkeys.2 hmem, TreeMap.getElem?_insert,
          if_neg (by rw [Std.compare_eq_iff_eq]; exact hkeys.1 (k, v) hmem)]

/-- **What the loop leaves under a key.** -/
theorem getElem?_foldl_insert (update : Option γ → β → γ) (entries : TreeMap κ β)
    (map : TreeMap κ γ) (k : κ) :
    (entries.foldl (fun map key v => map.insert key (update map[key]? v)) map)[k]? =
      match entries[k]? with
      | some v => some (update map[k]? v)
      | none => map[k]? := by
  have hkeys : entries.toList.Pairwise fun a b => a.1 ≠ b.1 :=
    TreeMap.distinct_keys_toList.imp fun h heq => h (Std.compare_eq_iff_eq.mpr heq)
  rw [TreeMap.foldl_eq_foldl_toList]
  cases hentry : entries[k]? with
  | none =>
      refine getElem?_foldl_of_not_mem (fun v hv => ?_) map
      rw [TreeMap.mem_toList_iff_getElem?_eq_some, hentry] at hv
      cases hv
  | some v =>
      exact getElem?_foldl_of_mem hkeys (TreeMap.mem_toList_iff_getElem?_eq_some.mpr hentry) map

end Update

end Lib
