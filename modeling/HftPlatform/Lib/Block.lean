import Mathlib.Data.List.Chain
import Mathlib.Data.List.Forall2
import Mathlib.Data.List.Infix
import Mathlib.Data.List.Nodup

/-!
# Numbers that count up

The entries of a list without duplicates have numbers, in order. Those of some of its entries count
up by one exactly when the entries are a block of the list.

## Main results

* `isChain_iff_infix`: the numbers of some entries count up exactly when the entries are a block.
-/

namespace Lib

variable {α : Type} {l p : List α} {ns : List ℕ} {k n : ℕ} {x : α}

/-- The number of an entry, counted from `k`. -/
def NumberedFrom (k : ℕ) (l : List α) (n : ℕ) (x : α) : Prop :=
  ∃ i, l[i]? = some x ∧ n = i + k

/-- Entries whose numbers count up follow one another from the first of them. -/
theorem prefix_of_isChain (h : List.Forall₂ (NumberedFrom k l) (n :: ns) p)
    (hchain : (n :: ns).IsChain fun a b => b = a + 1) : p <+: l.drop (n - k) := by
  induction ns generalizing n p with
  | nil =>
      obtain ⟨x, p, ⟨i, hi, rfl⟩, hp, rfl⟩ := List.forall₂_cons_left_iff.mp h
      obtain rfl := List.forall₂_nil_left_iff.mp hp
      obtain ⟨hlt, rfl⟩ := List.getElem?_eq_some_iff.mp hi
      rw [Nat.add_sub_cancel, List.drop_eq_getElem_cons hlt]
      exact (List.prefix_cons_inj _).mpr List.nil_prefix
  | cons m ns ih =>
      obtain ⟨x, p, ⟨i, hi, rfl⟩, hp, rfl⟩ := List.forall₂_cons_left_iff.mp h
      obtain ⟨rfl, hchain⟩ := List.isChain_cons_cons.mp hchain
      obtain ⟨hlt, rfl⟩ := List.getElem?_eq_some_iff.mp hi
      have hrest := ih hp hchain
      rw [Nat.add_right_comm, Nat.add_sub_cancel] at hrest
      rw [Nat.add_sub_cancel, List.drop_eq_getElem_cons hlt]
      exact (List.prefix_cons_inj _).mpr hrest

/-- The numbers of a block. -/
theorem eq_range'_of_block {pre post : List α} (hl : (pre ++ p ++ post).Nodup)
    (h : List.Forall₂ (NumberedFrom k (pre ++ p ++ post)) ns p) :
    ns = List.range' (pre.length + k) p.length := by
  induction p generalizing pre ns with
  | nil => exact List.forall₂_nil_right_iff.mp h
  | cons x p ih =>
      obtain ⟨n, ns, ⟨i, hi, rfl⟩, hp, rfl⟩ := List.forall₂_cons_right_iff.mp h
      have hassoc : pre ++ x :: p ++ post = pre ++ [x] ++ p ++ post := by simp
      have hplace : (pre ++ x :: p ++ post)[pre.length]? = some x := by simp
      obtain ⟨hlt, -⟩ := List.getElem?_eq_some_iff.mp hi
      obtain rfl := (List.getElem?_inj hlt hl).mp (hi.trans hplace.symm)
      rw [hassoc] at hl hp
      have hrest := ih hl hp
      rw [List.length_append, List.length_singleton, Nat.add_right_comm] at hrest
      rw [hrest, List.length_cons, List.range'_succ]

/-- **The numbers of some entries count up exactly when the entries are a block.** -/
theorem isChain_iff_infix (hl : l.Nodup) (h : List.Forall₂ (NumberedFrom k l) ns p) :
    (ns.IsChain fun a b => b = a + 1) ↔ p <:+: l := by
  constructor
  · intro hchain
    cases ns with
    | nil =>
        obtain rfl := List.forall₂_nil_left_iff.mp h
        exact List.nil_infix
    | cons n ns =>
        exact (prefix_of_isChain h hchain).isInfix.trans (List.drop_suffix _ _).isInfix
  · rintro ⟨pre, post, rfl⟩
    rw [eq_range'_of_block hl h]
    exact List.isChain_range' _ _ _

end Lib
