import HftPlatform.Lib.Statistics
import Mathlib.Algebra.BigOperators.Intervals
import Mathlib.Algebra.BigOperators.Ring.Finset
import Mathlib.Data.List.DropRight
import Mathlib.Data.List.GetD
import Mathlib.Data.List.MinMax
import Mathlib.Tactic.Ring

/-!
# Averages over series

Of lists of numbers of an ordered field, the oldest first: the exponential average in closed form,
the average of Wilder, and the weighted mean. A series with keys ends in a run of one key.

## Main results

* `exponential_concat`, `wilder_concat`: how a new value enters an average.
* `mix_mem`, `weightedMean_mem`: an average lies between bounds of its values.
* `lastRun_concat`: a new element extends the last run or starts one.
-/

namespace Lib

section Averages

variable {K : Type} [Field K]

/-- The exponential average: the weight of a value falls by the factor `1 - a` with each later
one, and the first value stands for all before it. -/
def exponential (a : K) : List K → K
  | [] => 0
  | x :: xs =>
      (1 - a) ^ xs.length * x +
        ∑ i ∈ Finset.range xs.length, a * (1 - a) ^ (xs.length - 1 - i) * xs.getD i 0

@[simp] theorem exponential_singleton (a x : K) : exponential a [x] = x := by
  simp [exponential]

/-- **A new value** enters with the weight `a`. -/
theorem exponential_concat (a x : K) {xs : List K} (h : xs ≠ []) :
    exponential a (xs ++ [x]) = a * x + (1 - a) * exponential a xs := by
  cases xs with
  | nil => exact absurd rfl h
  | cons y ys =>
      have hlast : (ys ++ [x]).getD ys.length 0 = x := by
        rw [List.getD_append_right _ _ _ _ (Nat.le_refl _), Nat.sub_self]
        rfl
      have hearlier : ∀ i ∈ Finset.range ys.length,
          a * (1 - a) ^ (ys.length - i) * (ys ++ [x]).getD i 0 =
            (1 - a) * (a * (1 - a) ^ (ys.length - 1 - i) * ys.getD i 0) := by
        intro i hi
        have hi' : i < ys.length := Finset.mem_range.mp hi
        have hexp : ys.length - i = ys.length - 1 - i + 1 := by omega
        rw [List.getD_append _ _ _ _ hi', hexp, pow_succ]
        ring
      rw [List.cons_append, exponential, exponential, List.length_append, List.length_singleton,
        Nat.add_sub_cancel, Finset.sum_range_succ, hlast, Nat.sub_self, pow_zero, mul_one,
        Finset.sum_congr rfl hearlier, ← Finset.mul_sum, pow_succ]
      ring

/-- The average of Wilder: the mean of the first `p` values, into which each later value enters
with the weight `1 / p`. -/
def wilder (p : ℕ) (xs : List K) : K :=
  (xs.drop p).foldl (fun average x => (average * (p - 1) + x) / p) (mean (xs.take p))

/-- As many values as the mean takes. -/
theorem wilder_of_length {p : ℕ} {xs : List K} (h : xs.length = p) : wilder p xs = mean xs := by
  rw [wilder, List.drop_of_length_le h.le, List.take_of_length_le h.le, List.foldl_nil]

/-- **A later value.** -/
theorem wilder_concat {p : ℕ} {xs : List K} (x : K) (h : p ≤ xs.length) :
    wilder p (xs ++ [x]) = (wilder p xs * (p - 1) + x) / p := by
  rw [wilder, List.drop_append_of_le_length h, List.take_append_of_le_length h, List.foldl_concat,
    wilder]

/-- The mean of the values `f`, weighted with `w`. -/
def weightedMean {α : Type} (f w : α → K) (l : List α) : K :=
  (l.map fun x => f x * w x).sum / (l.map w).sum

variable [LinearOrder K] [IsStrictOrderedRing K] {lo hi : K}

/-- An average of values that are not negative is not negative. -/
theorem wilder_nonneg {p : ℕ} {xs : List K} (hp : 1 ≤ p) (h : ∀ x ∈ xs, 0 ≤ x) :
    0 ≤ wilder p xs := by
  have hp' : (0 : K) ≤ p - 1 := sub_nonneg.mpr (by exact_mod_cast hp)
  have hmean : 0 ≤ mean (xs.take p) :=
    div_nonneg (List.sum_nonneg fun x hx => h x (List.mem_of_mem_take hx)) (Nat.cast_nonneg _)
  rw [wilder]
  refine List.foldlRecOn (xs.drop p) _ hmean fun average haverage x hx => ?_
  have hx' : 0 ≤ x := h x (List.mem_of_mem_drop hx)
  positivity

/-- A value between bounds is mixed into an average between them. -/
theorem mix_mem {a x y : K} (ha : 0 ≤ a) (ha' : a ≤ 1) (hx : lo ≤ x ∧ x ≤ hi)
    (hy : lo ≤ y ∧ y ≤ hi) : lo ≤ a * x + (1 - a) * y ∧ a * x + (1 - a) * y ≤ hi := by
  have hrest : 0 ≤ 1 - a := sub_nonneg.mpr ha'
  constructor
  · calc lo = a * lo + (1 - a) * lo := by ring
      _ ≤ a * x + (1 - a) * y := by gcongr <;> tauto
  · calc a * x + (1 - a) * y ≤ a * hi + (1 - a) * hi := by gcongr <;> tauto
      _ = hi := by ring

/-- **A weighted mean** lies between bounds of its values. -/
theorem weightedMean_mem {α : Type} {f w : α → K} {l : List α} (hl : l ≠ [])
    (hw : ∀ x ∈ l, 0 < w x) (hf : ∀ x ∈ l, lo ≤ f x ∧ f x ≤ hi) :
    lo ≤ weightedMean f w l ∧ weightedMean f w l ≤ hi := by
  have hpos : 0 < (l.map w).sum := by
    refine List.sum_pos _ ?_ (by simpa using hl)
    simpa using hw
  have hscaled : ∀ b : K, b * (l.map w).sum = (l.map fun x => b * w x).sum :=
    fun b => (List.sum_map_mul_left l w b).symm
  rw [weightedMean, le_div_iff₀ hpos, div_le_iff₀ hpos, hscaled, hscaled]
  constructor
  · exact List.sum_le_sum fun x hx => mul_le_mul_of_nonneg_right (hf x hx).1 (hw x hx).le
  · exact List.sum_le_sum fun x hx => mul_le_mul_of_nonneg_right (hf x hx).2 (hw x hx).le

end Averages

/-! ### The range of a list -/

section Range

variable {K : Type} [LinearOrder K]

/-- A value keeps to all lower bounds of one list and all upper bounds of another. -/
def Spanned (lows highs : List K) (v : K) : Prop :=
  ∀ lo hi, (∀ x ∈ lows, lo ≤ x) → (∀ x ∈ highs, x ≤ hi) → lo ≤ v ∧ v ≤ hi

variable {lows highs : List K} {v : K}

/-- Such a value lies between the least and the greatest value. -/
theorem Spanned.between (h : Spanned lows highs v) (hlows : lows ≠ []) (hhighs : highs ≠ []) :
    lows.minimum ≤ (v : WithTop K) ∧ (v : WithBot K) ≤ highs.maximum := by
  obtain ⟨lo, hlo⟩ := WithTop.ne_top_iff_exists.mp (List.minimum_ne_top_of_ne_nil hlows)
  obtain ⟨hi, hhi⟩ := WithBot.ne_bot_iff_exists.mp (List.maximum_ne_bot_of_ne_nil hhighs)
  obtain ⟨hlov, hvhi⟩ := h lo hi
    (fun x hx => WithTop.coe_le_coe.mp (hlo ▸ List.minimum_le_of_mem' hx))
    (fun x hx => WithBot.coe_le_coe.mp (hhi ▸ List.le_maximum_of_mem' hx))
  rw [← hlo, ← hhi]
  exact ⟨WithTop.coe_le_coe.mpr hlov, WithBot.coe_le_coe.mpr hvhi⟩

/-- What lies below the least value lies below such a value. -/
theorem lt_of_minimum_le {b : K} (h : lows.minimum ≤ (v : WithTop K)) (hlows : ∀ x ∈ lows, b < x) :
    b < v := by
  obtain ⟨lo, hlo⟩ := WithTop.ne_top_iff_exists.mp (ne_top_of_le_ne_top (WithTop.coe_ne_top) h)
  have hle : lo ≤ v := WithTop.coe_le_coe.mp (hlo ▸ h)
  exact (hlows lo (List.minimum_mem hlo.symm)).trans_le hle

end Range

/-! ### The last run of a key -/

section Runs

variable {α κ : Type} [DecidableEq κ] {key : α → κ} {l : List α}

/-- The longest end of a list whose elements have the key of the last. -/
def lastRun (key : α → κ) (l : List α) : List α :=
  l.rtakeWhile fun x => some (key x) = l.getLast?.map key

theorem lastRun_suffix : lastRun key l <:+ l := List.rtakeWhile_suffix _ _

/-- **A new element** extends the last run, if it has its key, and else starts one. -/
theorem lastRun_concat (x : α) : lastRun key (l ++ [x]) =
    (if some (key x) = l.getLast?.map key then lastRun key l else []) ++ [x] := by
  rw [lastRun, List.getLast?_concat, List.rtakeWhile_concat_pos _ _ _ (by simp)]
  congr 1
  split
  · rename_i h
    rw [Option.map_some, h, lastRun]
  · rename_i h
    rw [List.rtakeWhile_eq_nil_iff]
    intro hl
    rw [List.getLast?_eq_getLast_of_ne_nil hl, Option.map_some] at h
    simpa [eq_comm] using h

end Runs

end Lib
