import Mathlib.Data.List.Basic
import Mathlib.Data.List.Sort

/-!
# Pages of a table

`SELECT … WHERE … ORDER BY … DESC LIMIT … OFFSET …`. Rows that the order does not tell apart come in
any order, so the answers of a query are a relation.

## Main results

* `Page.exists`: a query has an answer.
* `Page.mem`: a row of an answer is a row of the table that meets the condition.
* `Page.exists_mem`: every such row is on some page.
* `Page.mem_some_iff`, `Page.mem_every_iff`: when a row may be, and when it must be, on the first
  page.
-/

namespace Lib

variable {ρ : Type}

/-- The rows that meet the condition, the largest key first. -/
structure Arranged (cond : ρ → Bool) (key : ρ → ℤ) (rows sorted : List ρ) : Prop where
  perm : sorted.Perm (rows.filter cond)
  sorted : sorted.Pairwise fun a b => key b ≤ key a

/-- An answer of a query for so many rows from an offset on. -/
def Page (cond : ρ → Bool) (key : ρ → ℤ) (limit offset : ℕ) (rows answer : List ρ) : Prop :=
  ∃ sorted, Arranged cond key rows sorted ∧ answer = (sorted.drop offset).take limit

section Page

variable {cond : ρ → Bool} {key : ρ → ℤ} {limit offset : ℕ} {rows sorted answer : List ρ} {r : ρ}

theorem Arranged.mem_iff (h : Arranged cond key rows sorted) :
    r ∈ sorted ↔ r ∈ rows ∧ cond r = true := by
  rw [h.perm.mem_iff, List.mem_filter]

/-- The rows can be sorted. -/
theorem Arranged.exists (cond : ρ → Bool) (key : ρ → ℤ) (rows : List ρ) :
    ∃ sorted, Arranged cond key rows sorted := by
  have hsorted : ((rows.filter cond).mergeSort fun a b => key b ≤ key a).Pairwise
      fun a b => decide (key b ≤ key a) = true := by
    refine List.pairwise_mergeSort (fun a b c hab hbc => ?_) (fun a b => ?_) _
    · simp only [decide_eq_true_eq] at hab hbc ⊢
      exact hbc.trans hab
    · simpa using le_total (key b) (key a)
  exact ⟨_, List.mergeSort_perm .., hsorted.imp fun h => by simpa using h⟩

theorem Page.exists (cond : ρ → Bool) (key : ρ → ℤ) (limit offset : ℕ) (rows : List ρ) :
    ∃ answer, Page cond key limit offset rows answer := by
  obtain ⟨sorted, h⟩ := Arranged.exists cond key rows
  exact ⟨_, sorted, h, rfl⟩

/-- **What a page holds**: rows that meet the condition. -/
theorem Page.mem (h : Page cond key limit offset rows answer) (hr : r ∈ answer) :
    r ∈ rows ∧ cond r = true := by
  obtain ⟨sorted, harranged, rfl⟩ := h
  exact harranged.mem_iff.mp (List.mem_of_mem_drop (List.mem_of_mem_take hr))

/-- **Every row is on some page** of a given positive length. -/
theorem Page.exists_mem (cond : ρ → Bool) (key : ρ → ℤ) (hlimit : 0 < limit) (hr : r ∈ rows)
    (hcond : cond r = true) :
    ∃ offset answer, Page cond key limit offset rows answer ∧ r ∈ answer := by
  obtain ⟨sorted, h⟩ := Arranged.exists cond key rows
  obtain ⟨offset, hoffset, rfl⟩ := List.mem_iff_getElem.mp (h.mem_iff.mpr ⟨hr, hcond⟩)
  refine ⟨offset, _, ⟨sorted, h, rfl⟩, ?_⟩
  rw [List.drop_eq_getElem_cons hoffset]
  obtain ⟨k, rfl⟩ := Nat.exists_eq_add_of_lt hlimit
  rw [Nat.zero_add, List.take_succ_cons]
  exact List.mem_cons_self

/-! ### The first page -/

/-- In front of a row stand all rows with larger keys, and only rows whose keys are not smaller. -/
theorem Arranged.countP_bounds {before after : List ρ}
    (h : Arranged cond key rows (before ++ r :: after)) :
    (rows.filter cond).countP (fun a => key r < key a) ≤ before.length ∧
      before.length < (rows.filter cond).countP (fun a => key r ≤ key a) := by
  obtain ⟨hbefore, hafter, hcross⟩ := List.pairwise_append.mp h.sorted
  have hsmaller : ∀ a ∈ after, ¬ key r < key a :=
    fun a ha => not_lt.mpr (List.rel_of_pairwise_cons hafter ha)
  have hlarger : ∀ a ∈ before, key r ≤ key a := fun a ha => hcross a ha r List.mem_cons_self
  rw [← h.perm.countP_eq, ← h.perm.countP_eq]
  rw [List.countP_append, List.countP_append, List.countP_cons, List.countP_cons]
  have hnone : after.countP (fun a => key r < key a) = 0 :=
    List.countP_eq_zero.mpr fun a ha => by simpa using hsmaller a ha
  have hall : before.countP (fun a => key r ≤ key a) = before.length :=
    List.countP_eq_length.mpr fun a ha => by simpa using hlarger a ha
  have hle := List.countP_le_length (p := fun a => decide (key r < key a)) (l := before)
  simp only [lt_irrefl, le_refl, decide_false, decide_true, if_true, Bool.false_eq_true, if_false]
  omega

/-- A finer order arranges the rows by the coarser one. -/
theorem Arranged.coarsen {fine : ρ → ℤ} (hfine : ∀ a b, fine b ≤ fine a → key b ≤ key a)
    (h : Arranged cond fine rows sorted) : Arranged cond key rows sorted :=
  ⟨h.perm, h.sorted.imp fun {a b} hab => hfine a b hab⟩

/-- A row is among the first ones when few stand in front of it. -/
theorem mem_take_iff_exists_append :
    r ∈ sorted.take limit ↔
      ∃ before after, sorted = before ++ r :: after ∧ before.length < limit := by
  rw [List.mem_take_iff_getElem]
  constructor
  · rintro ⟨i, hi, rfl⟩
    have hlength : i < sorted.length := lt_of_lt_of_le hi (min_le_right _ _)
    refine ⟨sorted.take i, sorted.drop (i + 1), ?_, ?_⟩
    · rw [← List.drop_eq_getElem_cons hlength, List.take_append_drop]
    · rw [List.length_take]
      omega
  · rintro ⟨before, after, rfl, hlength⟩
    refine ⟨before.length, ?_, ?_⟩
    · rw [List.length_append, List.length_cons]
      omega
    · simp

theorem Page.first_iff :
    Page cond key limit 0 rows answer ↔
      ∃ sorted, Arranged cond key rows sorted ∧ answer = sorted.take limit := by
  simp only [Page, List.drop_zero]

/-- **When a row may be on the first page**: when fewer rows than it holds are larger. -/
theorem Page.mem_some_iff [DecidableEq ρ] (hr : r ∈ rows) (hcond : cond r = true) :
    (∃ answer, Page cond key limit 0 rows answer ∧ r ∈ answer) ↔
      (rows.filter cond).countP (fun a => key r < key a) < limit := by
  constructor
  · rintro ⟨answer, hpage, hmem⟩
    obtain ⟨sorted, h, rfl⟩ := Page.first_iff.mp hpage
    obtain ⟨before, after, rfl, hlength⟩ := mem_take_iff_exists_append.mp hmem
    exact h.countP_bounds.1.trans_lt hlength
  · intro hcount
    -- The row comes first among those with its key.
    obtain ⟨sorted, h⟩ :=
      Arranged.exists cond (fun a => 2 * key a + if a = r then 1 else 0) rows
    obtain ⟨before, after, rfl, hnot⟩ := List.eq_append_cons_of_mem (h.mem_iff.mpr ⟨hr, hcond⟩)
    have hlarger : ∀ a ∈ before, key r < key a := by
      intro a ha
      have hle := (List.pairwise_append.mp h.sorted).2.2 a ha r List.mem_cons_self
      have hne : a ≠ r := fun heq => hnot (heq ▸ ha)
      rw [if_pos rfl, if_neg hne] at hle
      omega
    have hle : before.length ≤ (rows.filter cond).countP (fun a => key r < key a) := by
      rw [← h.perm.countP_eq, List.countP_append]
      have hall : before.countP (fun a => key r < key a) = before.length :=
        List.countP_eq_length.mpr fun a ha => by simpa using hlarger a ha
      omega
    have hcoarse : Arranged cond key rows (before ++ r :: after) := by
      refine h.coarsen fun a b hab => ?_
      split at hab <;> split at hab <;> omega
    refine ⟨_, Page.first_iff.mpr ⟨_, hcoarse, rfl⟩, ?_⟩
    exact mem_take_iff_exists_append.mpr ⟨before, after, rfl, hle.trans_lt hcount⟩

/-- **When a row must be on the first page**: when the rows that are not smaller fit on it. -/
theorem Page.mem_every_iff [DecidableEq ρ] (hnodup : rows.Nodup) (hr : r ∈ rows)
    (hcond : cond r = true) :
    (∀ answer, Page cond key limit 0 rows answer → r ∈ answer) ↔
      (rows.filter cond).countP (fun a => key r ≤ key a) ≤ limit := by
  constructor
  · intro hevery
    -- The row comes last among those with its key.
    obtain ⟨sorted, h⟩ :=
      Arranged.exists cond (fun a => 2 * key a + if a = r then 0 else 1) rows
    have hcoarse : Arranged cond key rows sorted := by
      refine h.coarsen fun a b hab => ?_
      split at hab <;> split at hab <;> omega
    have hmem := hevery _ (Page.first_iff.mpr ⟨sorted, hcoarse, rfl⟩)
    obtain ⟨before, after, rfl, hlength⟩ := mem_take_iff_exists_append.mp hmem
    have hafter : ∀ a ∈ after, ¬ key r ≤ key a := by
      intro a ha
      have hle := List.rel_of_pairwise_cons (List.pairwise_append.mp h.sorted).2.1 ha
      have hne : a ≠ r := by
        rintro rfl
        have hdup := h.perm.nodup_iff.mpr (hnodup.filter cond)
        exact (List.nodup_cons.mp (List.nodup_append.mp hdup).2.1).1 ha
      rw [if_pos rfl, if_neg hne] at hle
      omega
    rw [← h.perm.countP_eq, List.countP_append, List.countP_cons]
    have hnone : after.countP (fun a => key r ≤ key a) = 0 :=
      List.countP_eq_zero.mpr fun a ha => by simpa using hafter a ha
    have hle := List.countP_le_length (p := fun a => decide (key r ≤ key a)) (l := before)
    simp only [le_refl, decide_true, if_true]
    omega
  · intro hcount answer hpage
    obtain ⟨sorted, h, rfl⟩ := Page.first_iff.mp hpage
    obtain ⟨before, after, rfl⟩ := List.append_of_mem (h.mem_iff.mpr ⟨hr, hcond⟩)
    exact mem_take_iff_exists_append.mpr
      ⟨before, after, rfl, h.countP_bounds.2.trans_le hcount⟩

/-- The first page holds rows of the table, none more often than the table. -/
theorem Page.subperm (h : Page cond key limit offset rows answer) :
    answer.Subperm (rows.filter cond) := by
  obtain ⟨sorted, harranged, rfl⟩ := h
  exact ((List.take_sublist _ _).trans (List.drop_sublist _ _)).subperm.trans
    harranged.perm.subperm

end Page

end Lib
