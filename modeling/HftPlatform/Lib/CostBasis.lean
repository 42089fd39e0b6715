import Mathlib.Algebra.Order.Field.Basic
import Mathlib.Tactic.LinearCombination
import Mathlib.Tactic.Linarith
import Mathlib.Tactic.Ring

/-!
# Average cost

What a position costs, by the quantity held and the average price of it alone. A fill in the
direction of the position averages its price with that of the position, by quantity; a fill against
it leaves the average price of what remains; a fill that opens a position, or turns it over, sets
the price.

## Main results

* `suits_iff`: the average price after a fill, case by case and without a division.
* `Suits.congr`: the price of a position matters only while something is held.
* `suits_self_iff`, `suits_blend_iff`: when the price of the fill suits, and when the signed blend
  of the two prices does.
-/

namespace Lib

/-- A quantity held, negative for a short position, and its average price. -/
structure CostBasis (K : Type) where
  qty : K
  price : K
  deriving DecidableEq, Repr

namespace CostBasis

variable {K : Type} [Field K] [LinearOrder K]

/-- The position after a fill that moves it by `d` at the price `p`. -/
def fill (b : CostBasis K) (d p : K) : CostBasis K where
  qty := b.qty + d
  price :=
    if b.qty = 0 then p
    else if 0 ≤ b.qty * d then (|b.qty| * b.price + |d| * p) / (|b.qty| + |d|)
    else if |d| ≤ |b.qty| then b.price
    else p

/-- The position that fills make, each with its move and its price. -/
def ofFills (fills : List (K × K)) : CostBasis K := fills.foldl (fun b f => b.fill f.1 f.2) ⟨0, 0⟩

theorem ofFills_concat (fills : List (K × K)) (f : K × K) :
    ofFills (fills ++ [f]) = (ofFills fills).fill f.1 f.2 := by simp [ofFills]

/-- The price `x` suits a position that a fill moves by `d` at the price `p`: what it has to be
when the fill opens the position, adds to it, reduces it or turns it over. A fill that closes the
position leaves nothing that could have a price. -/
structure Suits (b : CostBasis K) (d p x : K) : Prop where
  opens : b.qty = 0 → d ≠ 0 → x = p
  adds : b.qty ≠ 0 → 0 ≤ b.qty * d → x * (|b.qty| + |d|) = |b.qty| * b.price + |d| * p
  reduces : b.qty * d < 0 → |d| < |b.qty| → x = b.price
  flips : b.qty * d < 0 → |b.qty| < |d| → x = p

variable {b b' : CostBasis K} {d p x : K}

/-- Positions of one quantity, and of one price unless it is zero, are suited by the same. -/
theorem Suits.congr (hqty : b.qty = b'.qty) (hprice : b.qty ≠ 0 → b.price = b'.price)
    (h : b.Suits d p x) : b'.Suits d p x := by
  by_cases hzero : b.qty = 0
  · have hzero' : b'.qty = 0 := hqty ▸ hzero
    refine ⟨fun _ hd => h.opens hzero hd, fun hne => absurd hzero' hne, fun hneg => ?_,
      fun hneg => ?_⟩
    · simp [hzero'] at hneg
    · simp [hzero'] at hneg
  · obtain ⟨q, y⟩ := b
    obtain ⟨q', y'⟩ := b'
    obtain rfl : q = q' := hqty
    obtain rfl : y = y' := hprice hzero
    exact h

variable [IsStrictOrderedRing K]

/-- **The average price after a fill**, unless the fill closes the position. -/
theorem suits_iff : b.Suits d p x ↔ ((b.fill d p).qty ≠ 0 → x = (b.fill d p).price) := by
  by_cases hzero : b.qty = 0
  · simp only [fill, hzero, zero_add, if_true]
    refine ⟨fun h hd => h.opens hzero hd, fun h => ⟨fun _ hd => h hd, fun hne => absurd hzero hne,
      fun hneg => ?_, fun hneg => ?_⟩⟩
    · simp [hzero] at hneg
    · simp [hzero] at hneg
  · have hpos : 0 < |b.qty| := abs_pos.mpr hzero
    by_cases hadd : 0 ≤ b.qty * d
    · have hsum : |b.qty| + |d| ≠ 0 := (add_pos_of_pos_of_nonneg hpos (abs_nonneg d)).ne'
      have hqty : b.qty + d ≠ 0 := by
        intro hclose
        obtain rfl : d = -b.qty := by linarith
        rw [mul_neg] at hadd
        linarith [mul_self_pos.mpr hzero]
      simp only [fill, if_neg hzero, if_pos hadd, eq_div_iff hsum]
      exact ⟨fun h _ => h.adds hzero hadd, fun h => ⟨fun h0 => absurd h0 hzero,
        fun _ _ => h hqty, fun hneg => absurd hadd hneg.not_ge,
        fun hneg => absurd hadd hneg.not_ge⟩⟩
    · have hneg : b.qty * d < 0 := not_le.mp hadd
      have hclose : b.qty + d = 0 ↔ |d| = |b.qty| := by
        constructor
        · intro h
          rw [show d = -b.qty by linarith, abs_neg]
        · intro h
          rcases abs_eq_abs.mp h with rfl | rfl
          · exact absurd (mul_self_nonneg _) hadd
          · exact add_neg_cancel _
      simp only [fill, if_neg hzero, if_neg hadd, ne_eq, hclose]
      rcases lt_trichotomy |d| |b.qty| with hlt | heq | hgt
      · rw [if_pos hlt.le]
        exact ⟨fun h _ => h.reduces hneg hlt, fun h => ⟨fun h0 => absurd h0 hzero,
          fun _ h0 => absurd h0 hadd, fun _ _ => h hlt.ne, fun _ hgt => absurd hgt hlt.not_gt⟩⟩
      · exact ⟨fun _ hne => absurd heq hne, fun _ => ⟨fun h0 => absurd h0 hzero,
          fun _ h0 => absurd h0 hadd, fun _ hlt => absurd heq hlt.ne,
          fun _ hgt => absurd heq hgt.ne'⟩⟩
      · rw [if_neg hgt.not_ge]
        exact ⟨fun h _ => h.flips hneg hgt, fun h => ⟨fun h0 => absurd h0 hzero,
          fun _ h0 => absurd h0 hadd, fun _ hlt => absurd hlt hgt.not_gt, fun _ _ => h hgt.ne'⟩⟩

/-- The price of the fill suits a position just when a fill that adds to it or reduces it is at the
price of the position. -/
theorem suits_self_iff (hd : d ≠ 0) : b.Suits d p p ↔
    (b.qty ≠ 0 → 0 < b.qty * d ∨ |d| < |b.qty| → p = b.price) := by
  constructor
  · intro h hqty hkind
    have hpos : 0 < |b.qty| := abs_pos.mpr hqty
    rcases lt_trichotomy (b.qty * d) 0 with hneg | hzero | hadd
    · exact h.reduces hneg (hkind.resolve_left hneg.not_gt)
    · exact absurd hzero (mul_ne_zero hqty hd)
    · have heq := h.adds hqty hadd.le
      have hcancel : |b.qty| * p = |b.qty| * b.price := by linarith
      exact mul_left_cancel₀ hpos.ne' hcancel
  · intro h
    refine ⟨fun _ _ => rfl, fun hqty hadd => ?_, fun hneg hlt => ?_, fun _ _ => rfl⟩
    · have hadd' : 0 < b.qty * d := lt_of_le_of_ne hadd (mul_ne_zero hqty hd).symm
      rw [← h hqty (Or.inl hadd')]
      ring
    · refine h ?_ (Or.inr hlt)
      intro hzero
      simp [hzero] at hneg

/-- The blend of the two prices by signed quantity suits a position that the fill does not close
just when the fill adds to the position or is at its price. -/
theorem suits_blend_iff (hqty : b.qty ≠ 0) (hd : d ≠ 0) (hopen : b.qty + d ≠ 0) :
    b.Suits d p ((b.qty * b.price + d * p) / (b.qty + d)) ↔ 0 < b.qty * d ∨ p = b.price := by
  constructor
  · intro h
    rcases lt_trichotomy (b.qty * d) 0 with hneg | hzero | hadd
    · right
      rcases lt_trichotomy |d| |b.qty| with hlt | heq | hgt
      · have hblend := (div_eq_iff hopen).mp (h.reduces hneg hlt)
        have hcancel : d * p = d * b.price := by linear_combination hblend
        exact mul_left_cancel₀ hd hcancel
      · rcases abs_eq_abs.mp heq with rfl | rfl
        · exact absurd (mul_self_nonneg _) hneg.not_ge
        · exact absurd (add_neg_cancel _) hopen
      · have hblend := (div_eq_iff hopen).mp (h.flips hneg hgt)
        have hcancel : b.qty * p = b.qty * b.price := by linear_combination -hblend
        exact mul_left_cancel₀ hqty hcancel
    · exact absurd hzero (mul_ne_zero hqty hd)
    · exact Or.inl hadd
  · rintro (hadd | rfl)
    · have hne : |b.qty| + |d| ≠ 0 := (add_pos (abs_pos.mpr hqty) (abs_pos.mpr hd)).ne'
      refine ⟨fun hzero => absurd hzero hqty, fun _ _ => ?_, fun hneg => absurd hadd hneg.not_gt,
        fun hneg => absurd hadd hneg.not_gt⟩
      rcases pos_and_pos_or_neg_and_neg_of_mul_pos hadd with ⟨hq, hd⟩ | ⟨hq, hd⟩
      · rw [abs_of_pos hq, abs_of_pos hd, div_mul_cancel₀ _ hopen]
      · rw [abs_of_neg hq, abs_of_neg hd, ← neg_add, mul_neg, div_mul_cancel₀ _ hopen]
        ring
    · have hblend : (b.qty * b.price + d * b.price) / (b.qty + d) = b.price := by
        rw [← add_mul, mul_div_cancel_left₀ _ hopen]
      rw [hblend]
      refine ⟨fun hzero => absurd hzero hqty, fun _ _ => by ring, fun _ _ => rfl, fun _ _ => rfl⟩

end CostBasis

end Lib
