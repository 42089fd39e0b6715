import Mathlib.Data.Int.Notation
import Mathlib.Data.List.Basic

/-!
# Texts joined with a separator

A joined text is taken apart at its first separator when the first part holds none, and at its last
one when the last part holds none.

## Main results

* `joined_inj_left`, `joined_inj_right`: two joined texts are equal only when their parts are.
* `toString_int_inj`, `mem_toString_int`: the decimal form of an integer.
-/

namespace Lib

section Lists

variable {α : Type} {sep : α} {xs xs' ys ys' : List α}

/-- The first separator is in the same place. -/
theorem append_cons_inj_left (h : sep ∉ xs) (h' : sep ∉ xs') :
    xs ++ sep :: ys = xs' ++ sep :: ys' ↔ xs = xs' ∧ ys = ys' := by
  induction xs generalizing xs' with
  | nil =>
      cases xs' with
      | nil => simp
      | cons x' xs' =>
          have hne : sep ≠ x' := fun heq => h' (heq ▸ List.mem_cons_self)
          simp [hne]
  | cons x xs ih =>
      obtain ⟨hx, hxs⟩ := not_or.mp (mt List.mem_cons.mpr h)
      cases xs' with
      | nil => simp [Ne.symm hx]
      | cons x' xs' =>
          have hxs' : sep ∉ xs' := mt (List.mem_cons_of_mem _) h'
          rw [List.cons_append, List.cons_append, List.cons.injEq, ih hxs hxs', List.cons.injEq,
            and_assoc]

/-- The last separator is in the same place. -/
theorem append_cons_inj_right (h : sep ∉ ys) (h' : sep ∉ ys') :
    xs ++ sep :: ys = xs' ++ sep :: ys' ↔ xs = xs' ∧ ys = ys' := by
  have hreverse : ∀ zs ws : List α,
      (zs ++ sep :: ws).reverse = ws.reverse ++ sep :: zs.reverse := by
    simp
  rw [← List.reverse_inj, hreverse, hreverse, append_cons_inj_left (by simpa) (by simpa),
    List.reverse_inj, List.reverse_inj, and_comm]

end Lists

variable {sep : String} {c : Char} {s s' t t' : String}

/-- Two texts are told apart at their first separator. -/
theorem joined_inj_left (hsep : sep.toList = [c]) (h : c ∉ s.toList) (h' : c ∉ s'.toList) :
    s ++ sep ++ t = s' ++ sep ++ t' ↔ s = s' ∧ t = t' := by
  simp only [← String.toList_inj, String.toList_append, hsep, List.append_assoc,
    List.singleton_append]
  exact append_cons_inj_left h h'

/-- Or at their last one. -/
theorem joined_inj_right (hsep : sep.toList = [c]) (h : c ∉ t.toList) (h' : c ∉ t'.toList) :
    s ++ sep ++ t = s' ++ sep ++ t' ↔ s = s' ∧ t = t' := by
  simp only [← String.toList_inj, String.toList_append, hsep, List.append_assoc,
    List.singleton_append]
  exact append_cons_inj_right h h'

/-- An integer is written with a sign and digits. -/
theorem mem_toString_int {n : ℤ} (h : c ∈ (toString n).toList) : c = '-' ∨ c.isDigit := by
  have hdigits : ∀ m, c ∈ Nat.toDigits 10 m → c.isDigit := fun m hm =>
    Nat.isDigit_of_mem_toDigits (by decide) (by decide) hm
  cases n with
  | ofNat m => exact Or.inr (hdigits m (by simpa [Int.toString_eq_repr, Int.repr] using h))
  | negSucc m =>
      have hcases : c = '-' ∨ c ∈ Nat.toDigits 10 (m + 1) := by
        simpa [Int.toString_eq_repr, Int.repr] using h
      exact hcases.imp_right (hdigits _)

/-- Different integers are written differently. -/
theorem toString_int_inj {m n : ℤ} : toString m = toString n ↔ m = n := by
  refine ⟨fun h => ?_, fun h => h ▸ rfl⟩
  have hdigits : ∀ a b, Nat.toDigits 10 a = Nat.toDigits 10 b → a = b := fun a b hab => by
    rw [← Nat.ofDigitChars_toDigits (n := a) (b := 10) (by decide) (by decide), hab,
      Nat.ofDigitChars_toDigits (by decide) (by decide)]
  have hsign : ∀ a : ℕ, '-' ∉ Nat.toDigits 10 a := fun a ha =>
    absurd (Nat.isDigit_of_mem_toDigits (by decide) (by decide) ha) (by decide)
  have hlist := congrArg String.toList h
  cases m with
  | ofNat a =>
      cases n with
      | ofNat b =>
          exact congrArg Int.ofNat (hdigits a b (by
            simpa [Int.toString_eq_repr, Int.repr] using hlist))
      | negSucc b =>
          refine absurd ?_ (hsign a)
          have heq : Nat.toDigits 10 a = '-' :: Nat.toDigits 10 (b + 1) := by
            simpa [Int.toString_eq_repr, Int.repr] using hlist
          exact heq ▸ List.mem_cons_self
  | negSucc a =>
      cases n with
      | ofNat b =>
          refine absurd ?_ (hsign b)
          have heq : '-' :: Nat.toDigits 10 (a + 1) = Nat.toDigits 10 b := by
            simpa [Int.toString_eq_repr, Int.repr] using hlist
          exact heq ▸ List.mem_cons_self
      | negSucc b =>
          have heq := hdigits (a + 1) (b + 1) (by
            simpa [Int.toString_eq_repr, Int.repr] using hlist)
          exact congrArg Int.negSucc (by omega)

end Lib
