import Mathlib.Algebra.Order.Field.Basic
import Mathlib.Tactic.Linarith
import Mathlib.Tactic.Ring

/-!
# Budgets over windows of time

A process spends from a reserve that refills at a rate and is capped. What it spends within a
window of time is bounded by the cap and by what is refilled in the window: the reserve that is
left is the potential of the argument.

## Main results

* `Budget.full`, `Budget.refill`, `Budget.spend`: a budget holds of a full reserve, and is kept by
  the passing of time and by an expense. Its `total` is the bound.
-/

namespace Lib

section Budgets

variable {K : Type} [Field K] [LinearOrder K]

/-- At a time, the reserve and what was spent from `a` to `b` so far. -/
structure Budget (cap rate : K) (a b : ℕ) (now : ℕ) (reserve spent : K) : Prop where
  nonneg : 0 ≤ reserve
  le_cap : reserve ≤ cap
  before : now < a → spent = 0
  within : now ≤ b → spent + reserve ≤ cap + rate * (now - a : ℕ)
  total : spent ≤ cap + rate * (b - a : ℕ)

variable [IsStrictOrderedRing K] {cap rate reserve spent : K} {a b now : ℕ}

/-- A full reserve, of which nothing was spent. -/
theorem Budget.full (hcap : 0 ≤ cap) (hrate : 0 ≤ rate) (a b now : ℕ) :
    Budget cap rate a b now cap 0 where
  nonneg := hcap
  le_cap := le_rfl
  before _ := rfl
  within _ := by
    have : 0 ≤ rate * (now - a : ℕ) := by positivity
    linarith
  total := by positivity

/-- Time passes: the reserve is refilled at most at the rate, and at most up to the cap. -/
theorem Budget.refill (h : Budget cap rate a b now reserve spent) (hrate : 0 ≤ rate)
    {later : ℕ} (hlater : now ≤ later) :
    Budget cap rate a b later (min (reserve + rate * (later - now : ℕ)) cap) spent where
  nonneg := by
    have hgain : 0 ≤ rate * (later - now : ℕ) := by positivity
    have hcap := h.nonneg.trans h.le_cap
    exact le_min (add_nonneg h.nonneg hgain) hcap
  le_cap := min_le_right _ _
  before hlt := h.before (hlater.trans_lt hlt)
  within hle := by
    rcases Nat.lt_or_ge now a with hlt | hge
    · -- Nothing was spent in the window, and the cap is all there is.
      have hcap : min (reserve + rate * (later - now : ℕ)) cap ≤ cap := min_le_right _ _
      have hgain : 0 ≤ rate * (later - a : ℕ) := by positivity
      rw [h.before hlt]
      linarith
    · have hmin : min (reserve + rate * (later - now : ℕ)) cap ≤
          reserve + rate * (later - now : ℕ) := min_le_left _ _
      have hsplit : ((later - a : ℕ) : K) = (now - a : ℕ) + (later - now : ℕ) := by
        rw [← Nat.cast_add]
        congr 1
        omega
      have hwithin := h.within (hlater.trans hle)
      rw [hsplit, mul_add]
      linarith
  total := h.total

/-- An expense of at most the reserve, which counts if it falls into the window. -/
theorem Budget.spend (h : Budget cap rate a b now reserve spent) (hrate : 0 ≤ rate) {amount : K}
    (hamount : 0 ≤ amount) (hle : amount ≤ reserve) :
    Budget cap rate a b now (reserve - amount)
      (spent + if a ≤ now ∧ now ≤ b then amount else 0) := by
  have hnonneg : 0 ≤ reserve - amount := sub_nonneg.mpr hle
  have hcap : reserve - amount ≤ cap := (sub_le_self _ hamount).trans h.le_cap
  by_cases hwindow : a ≤ now ∧ now ≤ b
  · rw [if_pos hwindow]
    have hwithin := h.within hwindow.2
    have hmono : rate * (now - a : ℕ) ≤ rate * (b - a : ℕ) :=
      mul_le_mul_of_nonneg_left (by exact_mod_cast Nat.sub_le_sub_right hwindow.2 a) hrate
    exact ⟨hnonneg, hcap, fun hlt => absurd hwindow.1 hlt.not_ge, fun _ => by linarith, by linarith⟩
  · rw [if_neg hwindow, add_zero]
    exact ⟨hnonneg, hcap, h.before, fun hb => by linarith [h.within hb], h.total⟩

end Budgets

end Lib
