import Mathlib.Logic.Function.Basic

/-!
# Guards on the entries of a table

An agent holds a guard on at most one entry of a table at a time, and an entry is held by at most
one agent. The table knows the holder of every entry, and every agent the entry it holds.

## Main results

* `Guards.enter`, `Guards.leave`: taking a free entry and giving it back keep the two in agreement.
* `Guards.exclusive`: an entry has one holder.
-/

namespace Lib

variable {κ α : Type}

/-- The table and the agents agree on who holds what. -/
def Guards (holder : κ → Option α) (held : α → Option κ) : Prop :=
  ∀ k a, holder k = some a ↔ held a = some k

namespace Guards

variable {holder : κ → Option α} {held : α → Option κ} {k k' : κ} {a a' : α}

theorem empty : Guards (fun _ : κ => (none : Option α)) fun _ => none := by
  simp [Guards]

/-- An entry has one holder. -/
theorem exclusive (h : Guards holder held) (ha : held a = some k) (ha' : held a' = some k) :
    a = a' :=
  Option.some.inj (((h k a).mpr ha).symm.trans ((h k a').mpr ha'))

/-- A free entry is held by no agent. -/
theorem held_ne (h : Guards holder held) (hfree : holder k = none) : held a ≠ some k := by
  rw [Ne, ← h k a, hfree]
  simp

/-- An agent that holds nothing holds no entry. -/
theorem holder_ne (h : Guards holder held) (hidle : held a = none) : holder k ≠ some a := by
  rw [Ne, h k a, hidle]
  simp

variable [DecidableEq κ] [DecidableEq α]

/-- An agent that holds nothing takes a free entry. -/
theorem enter (h : Guards holder held) (hfree : holder k = none) (hidle : held a = none) :
    Guards (Function.update holder k (some a)) (Function.update held a (some k)) := by
  intro k' a'
  rcases eq_or_ne k' k with rfl | hk <;> rcases eq_or_ne a' a with rfl | ha
  · simp
  · rw [Function.update_self, Function.update_of_ne ha]
    exact iff_of_false (fun heq => ha (Option.some.inj heq).symm) (h.held_ne hfree)
  · rw [Function.update_of_ne hk, Function.update_self]
    exact iff_of_false (h.holder_ne hidle) fun heq => hk (Option.some.inj heq).symm
  · rw [Function.update_of_ne hk, Function.update_of_ne ha]
    exact h k' a'

/-- An agent gives back the entry it holds. -/
theorem leave (h : Guards holder held) (hheld : held a = some k) :
    Guards (Function.update holder k none) (Function.update held a none) := by
  intro k' a'
  rcases eq_or_ne k' k with rfl | hk <;> rcases eq_or_ne a' a with rfl | ha
  · simp
  · rw [Function.update_self, Function.update_of_ne ha]
    exact iff_of_false nofun fun ha' => ha (h.exclusive ha' hheld)
  · rw [Function.update_of_ne hk, Function.update_self, h k', hheld]
    exact iff_of_false (fun heq => hk (Option.some.inj heq).symm) nofun
  · rw [Function.update_of_ne hk, Function.update_of_ne ha]
    exact h k' a'

end Guards

end Lib
