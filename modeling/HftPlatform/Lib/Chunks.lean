import Mathlib.Data.List.Nodup

/-!
# Chunks of a list

A list cut into parts of a given size, of which the last may be shorter.

## Main results

* `flatten_chunks`: the parts make up the list.
* `length_of_mem_chunks`: no part is empty, and none is too long.
* `eq_of_mem_chunks`: a value that occurs once is in one part.
-/

namespace Lib

variable {α : Type} {n : ℕ} {xs : List α}

/-- The parts of `n` elements each; there are none of no elements. -/
def chunks (n : ℕ) (xs : List α) : List (List α) :=
  if xs = [] ∨ n = 0 then [] else xs.take n :: chunks n (xs.drop n)
termination_by xs.length
decreasing_by
  have hpos : xs.length ≠ 0 := by simp_all
  rw [List.length_drop]
  omega

/-- The parts make up the list. -/
theorem flatten_chunks (hn : 0 < n) : (chunks n xs).flatten = xs := by
  fun_induction chunks n xs with
  | case1 xs hstop =>
      rcases hstop with rfl | rfl
      · rfl
      · exact absurd hn (Nat.lt_irrefl 0)
  | case2 xs hgo ih => rw [List.flatten_cons, ih, List.take_append_drop]

/-- No part is empty, and none is too long. -/
theorem length_of_mem_chunks {chunk : List α} (h : chunk ∈ chunks n xs) :
    1 ≤ chunk.length ∧ chunk.length ≤ n := by
  fun_induction chunks n xs with
  | case1 xs hstop => cases h
  | case2 xs hgo ih =>
      rcases List.mem_cons.mp h with rfl | hmem
      · obtain ⟨hxs, hn⟩ := not_or.mp hgo
        have hpos := List.length_pos_iff.mpr hxs
        rw [List.length_take]
        omega
      · exact ih hmem

/-- Where no value occurs twice, no two parts share one. -/
theorem eq_of_mem_chunks {i j : ℕ} {x : α} (hn : 0 < n) (hxs : xs.Nodup)
    (hi : x ∈ ((chunks n xs)[i]?).getD []) (hj : x ∈ ((chunks n xs)[j]?).getD []) : i = j := by
  have hdisjoint : (chunks n xs).Pairwise List.Disjoint := by
    have hflatten : (chunks n xs).flatten = xs := flatten_chunks hn
    rw [← hflatten, List.nodup_flatten] at hxs
    exact hxs.2
  have hpart : ∀ {k}, x ∈ ((chunks n xs)[k]?).getD [] →
      ∃ hk : k < (chunks n xs).length, x ∈ (chunks n xs)[k] := by
    intro k hk
    by_cases hlt : k < (chunks n xs).length
    · exact ⟨hlt, by simpa [hlt] using hk⟩
    · simp [hlt] at hk
  obtain ⟨hilt, hi⟩ := hpart hi
  obtain ⟨hjlt, hj⟩ := hpart hj
  rw [List.pairwise_iff_getElem] at hdisjoint
  rcases Nat.lt_trichotomy i j with h | h | h
  · exact absurd hj (fun hj => hdisjoint i j hilt hjlt h hi hj)
  · exact h
  · exact absurd hi (fun hi => hdisjoint j i hjlt hilt h hj hi)

end Lib
