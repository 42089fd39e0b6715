import Mathlib.Data.List.Basic
import Mathlib.Data.List.Induction

/-!
# Bounded histories

A queue that is pushed at the back and cut at the front keeps the last values of all that was ever
pushed. Two such queues, of which one skips some events, are compared from their ends.

## Main results

* `lastN_push`: pushing onto what was kept keeps what pushing onto everything keeps.
* `endAligned_prefixes_iff`: at every point the queue that skips is aligned with the other one
  exactly when, once it got an event, it skips no later one.
* `apart_of_classes`: values that stay apart in each class, and are in no two, stay apart when the
  classes are merged.
* `consecutive_append_singleton`: a new event is the end of at most one new step.
-/

namespace Lib

section History

variable {α κ : Type} {p : α → Bool} {l : List α} {n : ℕ}

/-- The last `n` values. -/
def lastN (n : ℕ) (l : List α) : List α := l.drop (l.length - n)

/-- The last of none. -/
@[simp] theorem lastN_zero (l : List α) : lastN 0 l = [] := List.drop_length

/-- The last of nothing. -/
@[simp] theorem lastN_nil (n : ℕ) : lastN n ([] : List α) = [] := List.drop_nil

/-- From its end, a kept list is the beginning of all. -/
theorem reverse_lastN (n : ℕ) (l : List α) : (lastN n l).reverse = l.reverse.take n :=
  List.take_reverse.symm

/-- What is among the last is there. -/
theorem mem_of_mem_lastN {x : α} (h : x ∈ lastN n l) : x ∈ l := List.mem_of_mem_drop h

/-- A list that is long enough has as many. -/
theorem length_lastN (h : n ≤ l.length) : (lastN n l).length = n := by
  rw [lastN, List.length_drop]
  omega

/-- The last values of two lists in a row are those of the second, if it is long enough. -/
theorem lastN_append (front : List α) (h : n ≤ l.length) : lastN n (front ++ l) = lastN n l := by
  have hcut : (front ++ l).length - n = front.length + (l.length - n) := by
    rw [List.length_append]
    omega
  rw [lastN, hcut, List.drop_length_add_append, lastN]

/-- As many last values as there are in the second list are the second list. -/
theorem lastN_append_length (front l : List α) : lastN l.length (front ++ l) = l := by
  rw [lastN_append front (Nat.le_refl _), lastN, Nat.sub_self, List.drop_zero]

/-- The last of a mapped list. -/
theorem lastN_map {β : Type} (f : α → β) (n : ℕ) (l : List α) :
    lastN n (l.map f) = (lastN n l).map f := by
  rw [lastN, lastN, List.length_map, List.map_drop]

/-- **Pushing onto what was kept.** -/
theorem lastN_push (n : ℕ) (l : List α) (a : α) :
    lastN n (lastN n l ++ [a]) = lastN n (l ++ [a]) := by
  rw [← List.reverse_inj, reverse_lastN, reverse_lastN, List.reverse_append, List.reverse_append,
    reverse_lastN]
  cases n with
  | zero => rfl
  | succ n =>
      show a :: (l.reverse.take (n + 1)).take n = a :: l.reverse.take n
      rw [List.take_take, Nat.min_eq_left (Nat.le_succ n)]

/-- The last of all values is kept, if any is. -/
theorem getLast?_lastN (hn : 0 < n) (l : List α) : (lastN n l).getLast? = l.getLast? := by
  rw [← List.head?_reverse, ← List.head?_reverse, reverse_lastN]
  obtain ⟨m, rfl⟩ := Nat.exists_eq_succ_of_ne_zero (Nat.ne_of_gt hn)
  cases l.reverse <;> rfl

/-! ### Alignment -/

/-- Counted from their ends, two lists have the same values as far as both go. -/
def EndAligned (xs ys : List κ) : Prop :=
  ∀ k, k < xs.length → k < ys.length → xs.reverse[k]? = ys.reverse[k]?

/-- Nothing is aligned with anything. -/
theorem endAligned_nil (ys : List κ) : EndAligned [] ys :=
  fun _ h => absurd h (Nat.not_lt_zero _)

/-- Aligned lists that are not empty end alike. -/
theorem EndAligned.getLast? {xs ys : List κ} (h : EndAligned xs ys) (hxs : xs ≠ [])
    (hys : ys ≠ []) : xs.getLast? = ys.getLast? := by
  rw [← List.head?_reverse, ← List.head?_reverse, List.head?_eq_getElem?, List.head?_eq_getElem?]
  exact h 0 (List.length_pos_iff.mpr hxs) (List.length_pos_iff.mpr hys)

/-- A list is aligned with the end of it that was kept longer or shorter. -/
theorem EndAligned.of_suffix {xs ys : List α} (h : xs <:+ ys) (n : ℕ) (key : α → κ) :
    EndAligned ((lastN n xs).map key) ((lastN n ys).map key) := by
  intro k hxs hys
  obtain ⟨front, rfl⟩ := h
  rw [← List.map_reverse, ← List.map_reverse, List.getElem?_map, List.getElem?_map, reverse_lastN,
    reverse_lastN, List.reverse_append]
  have hk : k < (xs.reverse.take n).length := by
    rw [← reverse_lastN, List.length_reverse]
    simpa using hxs
  rw [List.length_take] at hk
  rw [List.getElem?_take, List.getElem?_take, List.getElem?_append_left (by omega)]

/-- Where a selection never ends, it is the end of the list. -/
theorem filter_suffix (h : l.Pairwise fun a b => p a = true → p b = true) : l.filter p <:+ l := by
  induction l with
  | nil => exact List.suffix_refl _
  | cons a l ih =>
      rw [List.pairwise_cons] at h
      by_cases ha : p a = true
      · have hall : (a :: l).filter p = a :: l := by
          refine List.filter_eq_self.mpr fun b hb => ?_
          rcases List.mem_cons.mp hb with rfl | hb
          · exact ha
          · exact h.1 b hb ha
        exact ⟨[], hall⟩
      · rw [List.filter_cons_of_neg ha]
        exact (ih h.2).trans (List.suffix_cons a l)

/-- **When a queue that skips events is aligned at every point** with one that does not. -/
theorem endAligned_prefixes_iff {key : α → κ} (hkey : (l.map key).Nodup) :
    (∀ pre, pre <+: l → EndAligned ((lastN n (pre.filter p)).map key) ((lastN n pre).map key)) ↔
      n = 0 ∨ l.Pairwise fun a b => p a = true → p b = true := by
  constructor
  · intro haligned
    rcases Nat.eq_zero_or_pos n with hn | hn
    · exact Or.inl hn
    refine Or.inr ?_
    -- The last event is the one to look at: at its prefix, both queues end.
    induction l using List.reverseRecOn with
    | nil => exact List.Pairwise.nil
    | append_singleton l x ih =>
        have hinit : l.Pairwise fun a b => p a = true → p b = true :=
          ih (by rw [List.map_append] at hkey; exact (List.nodup_append.mp hkey).1)
            fun pre hpre => haligned pre (hpre.trans (List.prefix_append l [x]))
        refine List.pairwise_append.mpr ⟨hinit, List.pairwise_singleton _ _, ?_⟩
        intro a ha b hb hpa
        rw [List.mem_singleton] at hb
        subst hb
        by_contra hpb
        have hends := haligned (l ++ [b]) (List.prefix_refl _)
        have hfilter : (l ++ [b]).filter p = l.filter p := by
          rw [List.filter_append, List.filter_cons_of_neg hpb, List.filter_nil, List.append_nil]
        have hmem : a ∈ l.filter p := List.mem_filter.mpr ⟨ha, hpa⟩
        obtain ⟨z, hz⟩ := Option.isSome_iff_exists.mp
          (List.getLast?_isSome.mpr (List.ne_nil_of_mem hmem))
        have hkept : (lastN n (l.filter p)).getLast? = some z := by
          rw [getLast?_lastN hn, hz]
        have hkept' : (lastN n (l ++ [b])).getLast? = some b := by
          rw [getLast?_lastN hn, List.getLast?_concat]
        have hne : ∀ {xs : List α} {x : α}, xs.getLast? = some x → xs.map key ≠ [] := by
          rintro xs x hx hnil
          rw [List.map_eq_nil_iff.mp hnil] at hx
          cases hx
        rw [hfilter] at hends
        have hlast := hends.getLast? (hne hkept) (hne hkept')
        rw [List.getLast?_map, List.getLast?_map, hkept, hkept'] at hlast
        have hzl : z ∈ l := (List.mem_filter.mp (List.mem_of_getLast? hz)).1
        rw [List.map_append, List.nodup_append] at hkey
        exact hkey.2.2 (key z) (List.mem_map_of_mem hzl) (key b) (List.mem_singleton_self _)
          (Option.some.inj hlast)
  · rintro (rfl | h) pre hpre
    · rw [lastN_zero]
      exact endAligned_nil _
    · exact EndAligned.of_suffix (filter_suffix (h.sublist hpre.sublist)) n key

/-! ### Values that stay apart -/

/-- No value is one of the `n` before it. -/
def Apart (n : ℕ) (l : List α) : Prop := ∀ pre a post, l = pre ++ a :: post → a ∉ lastN n pre

/-- Nothing is apart. -/
theorem apart_nil : Apart n ([] : List α) := fun pre a post h => by simp at h

/-- What comes first is apart, whatever follows. -/
theorem Apart.of_prefix {l' : List α} (h : Apart n l) (hl' : l' <+: l) : Apart n l' := by
  obtain ⟨rest, rfl⟩ := hl'
  intro pre a post hl
  exact h pre a (post ++ rest) (by simp [hl])

/-- **One more value** is apart from the others when it is none of the last ones. -/
theorem Apart.concat {a : α} (h : Apart n l) (ha : a ∉ lastN n l) : Apart n (l ++ [a]) := by
  intro pre b post hl
  rcases List.eq_nil_or_concat post with rfl | ⟨post, c, rfl⟩
  · obtain ⟨rfl, hab⟩ := List.append_inj' hl rfl
    obtain rfl : a = b := by simpa using hab
    exact ha
  · rw [List.concat_eq_append, ← List.cons_append, ← List.append_assoc] at hl
    exact h pre b post (List.append_inj' hl rfl).1

/-- A selected value that is one of the last is one of the last selected ones. -/
theorem mem_lastN_filter {a : α} (ha : p a = true) (h : a ∈ lastN n l) :
    a ∈ lastN n (l.filter p) := by
  have hcut : l.filter p = (l.take (l.length - n)).filter p ++ (lastN n l).filter p := by
    rw [← List.filter_append, lastN, List.take_append_drop]
  have hlength : ((lastN n l).filter p).length ≤ n := by
    have hle : ((lastN n l).filter p).length ≤ (lastN n l).length := List.length_filter_le _ _
    have hlast : (lastN n l).length = l.length - (l.length - n) := List.length_drop
    omega
  rw [hcut, lastN, List.length_append, List.drop_append_of_le_length (by omega)]
  exact List.mem_append_right _ (List.mem_filter.mpr ⟨h, ha⟩)

/-- **Merging classes** of values, each of them apart, when no value is in two classes. -/
theorem apart_of_classes {τ : Type} [DecidableEq τ] {cls : α → τ} {key : α → κ}
    (happart : ∀ t, Apart n ((l.filter fun a => cls a = t).map key))
    (hclass : ∀ a ∈ l, ∀ b ∈ l, key a = key b → cls a = cls b) : Apart n (l.map key) := by
  intro pre k post hl hmem
  obtain ⟨front, rest, rfl, rfl, hrest⟩ := List.map_eq_append_iff.mp hl
  obtain ⟨b, back, rfl, rfl, -⟩ := List.map_eq_cons_iff.mp hrest
  rw [lastN_map] at hmem
  obtain ⟨a, ha, hkey⟩ := List.mem_map.mp hmem
  have hsame : cls a = cls b := hclass a (List.mem_append_left _ (mem_of_mem_lastN ha)) b
    (by simp) hkey
  refine happart (cls b) ((front.filter fun a => cls a = cls b).map key) (key b)
    ((back.filter fun a => cls a = cls b).map key) (by simp) ?_
  rw [lastN_map, ← hkey]
  exact List.mem_map_of_mem (mem_lastN_filter (by simpa using hsame) ha)

/-! ### Steps -/

/-- Each value but the last, with the one that follows it. -/
def consecutive (l : List α) : List (α × α) := l.zip l.tail

/-- **A new value is the end of at most one new step.** -/
theorem consecutive_append_singleton (l : List α) (a : α) :
    consecutive (l ++ [a]) = consecutive l ++ (l.getLast?.map (·, a)).toList := by
  induction l with
  | nil => rfl
  | cons x l ih =>
      cases l with
      | nil => rfl
      | cons y l =>
          have hstep : ∀ zs : List α,
              consecutive (x :: y :: zs) = (x, y) :: consecutive (y :: zs) := fun _ => rfl
          rw [List.cons_append, List.cons_append, hstep, hstep, ← List.cons_append, ih,
            List.getLast?_cons_cons, List.cons_append]

end History

end Lib
