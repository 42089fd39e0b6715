import HftPlatform.Lib.NearestEven
import HftPlatform.ModelLoader

/-!
# Normalizers

`libs/python/hft_features/hft_features/normalizer.py` on the arithmetic of the hardware: how a
normalizer is fitted to a matrix of features, and what it then makes of the rows of the matrix. An
array of shape `(N, n)` is the list of its rows. Fitting by means and deviations, which `numpy` sums
up in an order of its own, and the files that normalizers are kept in are left out.

## Main results

* `zipFold_bound`: a fold of a column bounds what is in the column.
* `scaled_unit`: a value between the bounds of its column is scaled into the unit interval.
* `inverseTransform_transform`: on exact arithmetic, what was normalized is restored.
* `transform_fitMinmax`: every value of every row that the normalizer was fitted to is scaled into
  the unit interval, unless a range overflows.
-/

namespace HftPlatform.AiPredictor

open Lib Binary64

/-! ### Fitting -/

/-- `np.minimum`: a NaN wins. -/
def npMinimum (x y : Binary64) : Binary64 := if x = .nan ∨ x.lt y = true then x else y

/-- `np.maximum`: a NaN wins. -/
def npMaximum (x y : Binary64) : Binary64 := if x = .nan ∨ y.lt x = true then x else y

/-- A reduction along the columns; an array without rows has none. -/
def reduceAxis0 (f : Binary64 → Binary64 → Binary64) :
    List (List Binary64) → Option (List Binary64)
  | [] => none
  | row :: rows => some (rows.foldl (List.zipWith f) row)

section Fit

variable (fp : Rounding)

/-- The default `epsilon`. -/
def normalizerEpsilon : Binary64 := fp.lit (1 / 10 ^ 8)

/-- `np.where(x < epsilon, epsilon, x)` -/
def atLeastEpsilon (x : Binary64) : Binary64 :=
  if x.lt (normalizerEpsilon fp) then normalizerEpsilon fp else x

/-- A normalizer by means and deviations; small deviations are raised. -/
def Normalizer.fromStats (means stds : List Binary64) : Normalizer where
  paramA := means
  paramB := stds.map (atLeastEpsilon fp)

/-- A normalizer by bounds; small ranges are raised. -/
def Normalizer.fromMinmax (mins maxs : List Binary64) : Normalizer where
  paramA := mins
  paramB := (List.zipWith fp.sub maxs mins).map (atLeastEpsilon fp)

/-- The normalizer by the bounds of each column. -/
def Normalizer.fitMinmax (data : List (List Binary64)) : Option Normalizer := do
  return Normalizer.fromMinmax fp (← reduceAxis0 npMinimum data) (← reduceAxis0 npMaximum data)

/-- What the normalized values stood for. -/
def Normalizer.inverseTransform (n : Normalizer) (arr : List Binary64) :
    Option (List Binary64) := do
  let a ← broadcast arr.length n.paramA
  let b ← broadcast arr.length n.paramB
  return List.zipWith fp.add (List.zipWith fp.mul arr b) a

end Fit

/-! ### The bounds of a column -/

/-- **A fold of a column bounds** what is in the column. -/
theorem zipFold_bound {α : Type} {R : α → α → Prop} {f : α → α → α} (hrefl : ∀ a, R a a)
    (htrans : ∀ a b c, R a b → R b c → R a c) (hleft : ∀ a b, R (f a b) a)
    (hright : ∀ a b, R (f a b) b) {n : ℕ} (rows : List (List α)) {acc : List α}
    (hacc : acc.length = n) (hrows : ∀ row ∈ rows, row.length = n) :
    (rows.foldl (List.zipWith f) acc).length = n ∧ ∀ row ∈ acc :: rows, ∀ (j : ℕ) (a b : α),
      (rows.foldl (List.zipWith f) acc)[j]? = some a → row[j]? = some b → R a b := by
  induction rows generalizing acc with
  | nil =>
      refine ⟨hacc, fun row hrow j a b ha hb => ?_⟩
      obtain rfl := List.mem_singleton.mp hrow
      obtain rfl : a = b := Option.some.inj (ha.symm.trans hb)
      exact hrefl a
  | cons next rows ih =>
      have hnext : next.length = n := hrows next List.mem_cons_self
      have hacc' : (List.zipWith f acc next).length = n := by
        rw [List.length_zipWith, hacc, hnext, Nat.min_self]
      obtain ⟨hlength, hbound⟩ := ih hacc' fun row hrow => hrows row (List.mem_cons_of_mem _ hrow)
      refine ⟨hlength, fun row hrow j a b ha hb => ?_⟩
      -- the entry that the first two rows are folded to
      have hentry : ∀ c d, acc[j]? = some c → next[j]? = some d → R a (f c d) := by
        intro c d hc hd
        refine hbound _ List.mem_cons_self j a (f c d) ha ?_
        rw [List.getElem?_zipWith, hc, hd]
      have hfound : ∀ xs ys : List α, xs.length = n → ys.length = n → ∀ x, xs[j]? = some x →
          ∃ y, ys[j]? = some y := by
        intro xs ys hxs hys x hx
        have hlt := (List.getElem?_eq_some_iff.mp hx).1
        have hlt' : j < ys.length := by omega
        exact ⟨ys[j], List.getElem?_eq_getElem hlt'⟩
      rcases List.mem_cons.mp hrow with rfl | hrow
      · obtain ⟨d, hd⟩ := hfound _ _ hacc hnext b hb
        exact htrans _ _ _ (hentry b d hb hd) (hleft b d)
      rcases List.mem_cons.mp hrow with rfl | hrow
      · obtain ⟨c, hc⟩ := hfound _ _ hnext hacc b hb
        exact htrans _ _ _ (hentry c b hc hb) (hright c b)
      · exact hbound row (List.mem_cons_of_mem _ hrow) j a b ha hb

/-- The smaller of two numbers. -/
theorem npMinimum_fin (a b : ℚ) : npMinimum (fin a) (fin b) = fin (min a b) := by
  simp only [npMinimum, lt, reduceCtorEq, false_or, decide_eq_true_eq]
  split
  case isTrue h => rw [min_eq_left h.le]
  case isFalse h => rw [min_eq_right (not_lt.mp h)]

/-- The larger of two numbers. -/
theorem npMaximum_fin (a b : ℚ) : npMaximum (fin a) (fin b) = fin (max a b) := by
  simp only [npMaximum, lt, reduceCtorEq, false_or, decide_eq_true_eq]
  split
  case isTrue h => rw [max_eq_left h.le]
  case isFalse h => rw [max_eq_right (not_lt.mp h)]

/-- Finite columns are reduced as their values are. -/
theorem reduceAxis0_fin {f : Binary64 → Binary64 → Binary64} {g : ℚ → ℚ → ℚ}
    (hf : ∀ a b, f (fin a) (fin b) = fin (g a b)) (row : List ℚ) (rows : List (List ℚ)) :
    reduceAxis0 f ((row :: rows).map (List.map fin)) =
      some ((rows.foldl (List.zipWith g) row).map fin) := by
  rw [List.map_cons, reduceAxis0]
  congr 1
  induction rows generalizing row with
  | nil => rfl
  | cons next rows ih =>
      have hzip : List.zipWith f (row.map fin) (next.map fin) =
          (List.zipWith g row next).map fin := by
        rw [List.zipWith_map, List.map_zipWith]
        simp only [hf]
      rw [List.map_cons, List.foldl_cons, List.foldl_cons, hzip]
      exact ih _

/-! ### Scaling -/

open Rounding (nearestEven)

/-- The default `epsilon` is a positive number below one. -/
theorem exists_epsilon : ∃ e, normalizerEpsilon nearestEven = fin e ∧ 0 < e ∧ e ≤ 1 := by
  have hlarge : (2 : ℚ) ^ (-1074 : ℤ) ≤ 1 / 10 ^ 8 := by
    calc (2 : ℚ) ^ (-1074 : ℤ) ≤ 2 ^ (-27 : ℤ) := zpow_le_zpow_right₀ (by norm_num) (by norm_num)
      _ ≤ 1 / 10 ^ 8 := by norm_num
  obtain ⟨v, hv, -, hone⟩ := Rounding.round_between (q := 1 / 10 ^ 8) (m := 0) (M := 1)
    (by norm_num) (by norm_num) (by norm_num)
  have hround : nearestEven.round (1 / 10 ^ 8) = Rounding.nearestEvenMag (1 / 10 ^ 8) :=
    if_neg (by norm_num)
  have hmag : Rounding.nearestEvenMag (1 / 10 ^ 8) = fin v := hround.symm.trans hv
  rcases Rounding.half_le_nearestEvenMag hlarge with hinf | ⟨w, hw, hhalf⟩
  · rw [hinf] at hmag
    cases hmag
  · obtain rfl : w = v := fin.inj (hw.symm.trans hmag)
    exact ⟨w, hv, lt_of_lt_of_le (by norm_num) hhalf, by simpa using hone⟩

/-- In the unit interval, unless the range of the column is too large for a double. -/
def Scaled (range y : Binary64) : Prop :=
  (∃ q, y = fin q ∧ 0 ≤ q ∧ q ≤ 1) ∨ (y = nan ∧ range = inf false)

/-- Numbers are subtracted exactly, and rounded. -/
theorem sub_fin (a b : ℚ) : nearestEven.sub (fin a) (fin b) = nearestEven.round (a - b) := by
  rw [Rounding.sub, neg, Rounding.add, sub_eq_add_neg]

/-- **A value between the bounds of its column** is scaled into the unit interval. -/
theorem scaled_unit {m x M : ℚ} (hm : m ≤ x) (hM : x ≤ M) :
    Scaled (atLeastEpsilon nearestEven (nearestEven.sub (fin M) (fin m)))
      (nearestEven.div (nearestEven.sub (fin x) (fin m))
        (atLeastEpsilon nearestEven (nearestEven.sub (fin M) (fin m)))) := by
  obtain ⟨e, he, hpos, hone⟩ := exists_epsilon
  have hquotient : ∀ d b : ℚ, 0 ≤ d → d ≤ b → 0 < b →
      ∃ q, nearestEven.div (fin d) (fin b) = fin q ∧ 0 ≤ q ∧ q ≤ 1 := by
    intro d b hd hdb hb
    rw [Rounding.div, if_neg hb.ne']
    obtain ⟨q, hq, hzero, hle⟩ := Rounding.round_between (q := d / b) (m := 0) (M := 1)
      (by simpa using div_nonneg hd hb.le) (by simpa using (div_le_one hb).mpr hdb) (by norm_num)
    exact ⟨q, hq, by simpa using hzero, by simpa using hle⟩
  rw [sub_fin, sub_fin, atLeastEpsilon, he]
  have hnonneg : 0 ≤ x - m := sub_nonneg.mpr hm
  cases hrange : nearestEven.round (M - m) with
  | nan =>
      have hsign := nearestEven.round_nonneg (M - m) (by linarith)
      rw [hrange] at hsign
      cases hsign
  | inf s =>
      have hsign := nearestEven.round_nonneg (M - m) (by linarith)
      rw [hrange] at hsign
      cases s with
      | true => cases hsign
      | false =>
          rw [if_neg (by simp [lt])]
          cases nearestEven.round (x - m) with
          | nan => exact .inr ⟨rfl, rfl⟩
          | inf s => exact .inr ⟨rfl, rfl⟩
          | fin d => exact .inl ⟨0, rfl, le_rfl, zero_le_one⟩
  | fin r =>
      obtain ⟨d, hd, hdzero, hdr⟩ := Rounding.round_of_le hnonneg (sub_le_sub_right hM m) hrange
      rw [hd]
      split
      case isTrue hsmall =>
          have hre : r < e := of_decide_eq_true hsmall
          exact .inl (hquotient d e hdzero (hdr.trans hre.le) hpos)
      case isFalse hlarge =>
          have her : e ≤ r := not_lt.mp fun hlt => hlarge (decide_eq_true hlt)
          exact .inl (hquotient d r hdzero hdr (hpos.trans_le her))

/-- An array of the right length is left as it is. -/
theorem broadcast_of_length {xs : List Binary64} {n : ℕ} (h : xs.length = n) :
    broadcast n xs = some xs := by
  match xs, h with
  | [], h => exact if_pos h
  | [x], h =>
      obtain rfl : 1 = n := h
      rfl
  | x :: y :: xs, h => exact if_pos h

/-- No deviation is zero after it was fitted, so that a value can be scaled back. -/
theorem scaled_back (x m s : ℚ) :
    let b := atLeastEpsilon Rounding.exact (fin s)
    Rounding.exact.add (Rounding.exact.mul
      (Rounding.exact.div (Rounding.exact.sub (fin x) (fin m)) b) b) (fin m) = fin x := by
  have hpositive : ∃ b, atLeastEpsilon Rounding.exact (fin s) = fin b ∧ 0 < b := by
    by_cases hs : s < 1 / 10 ^ 8
    · exact ⟨1 / 10 ^ 8, if_pos (decide_eq_true hs), by norm_num⟩
    · exact ⟨s, if_neg (by simpa [lt, normalizerEpsilon, Rounding.lit, Rounding.exact] using hs),
        lt_of_lt_of_le (by norm_num) (not_lt.mp hs)⟩
  obtain ⟨b, hb, hpos⟩ := hpositive
  rw [hb]
  change Rounding.exact.add (Rounding.exact.mul (Rounding.exact.div (fin (x + -m)) (fin b)) (fin b))
    (fin m) = fin x
  rw [Rounding.div, if_neg hpos.ne']
  change fin ((x + -m) / b * b + m) = fin x
  rw [div_mul_cancel₀ _ hpos.ne', neg_add_cancel_right]

/-- **What was normalized is restored**, on exact arithmetic, whatever the deviations are. -/
theorem inverseTransform_transform {n : ℕ} {means stds row : List ℚ} (hmeans : means.length = n)
    (hstds : stds.length = n) (hrow : row.length = n) :
    ((Normalizer.fromStats Rounding.exact (means.map fin) (stds.map fin)).transform Rounding.exact
      (row.map fin)).bind
        ((Normalizer.fromStats Rounding.exact (means.map fin) (stds.map fin)).inverseTransform
          Rounding.exact) = some (row.map fin) := by
  have hback : ∀ row means stds : List ℚ, means.length = row.length → stds.length = row.length →
      List.zipWith Rounding.exact.add (List.zipWith Rounding.exact.mul
        (List.zipWith Rounding.exact.div
          (List.zipWith Rounding.exact.sub (row.map fin) (means.map fin))
          ((stds.map fin).map (atLeastEpsilon Rounding.exact)))
        ((stds.map fin).map (atLeastEpsilon Rounding.exact))) (means.map fin) = row.map fin := by
    intro row
    induction row with
    | nil => intro means stds hm hs; rfl
    | cons x row ih =>
        intro means stds hm hs
        obtain ⟨m, means, rfl⟩ := List.exists_cons_of_length_eq_add_one hm
        obtain ⟨s, stds, rfl⟩ := List.exists_cons_of_length_eq_add_one hs
        simp only [List.map_cons, List.zipWith_cons_cons]
        rw [scaled_back x m s, ih means stds (Nat.succ.inj hm) (Nat.succ.inj hs)]
  have hparamA : (means.map fin).length = n := by rw [List.length_map, hmeans]
  have hparamB : ((stds.map fin).map (atLeastEpsilon Rounding.exact)).length = n := by
    rw [List.length_map, List.length_map, hstds]
  have hrowLength : (row.map fin).length = n := by rw [List.length_map, hrow]
  have hlength : (List.zipWith Rounding.exact.div
      (List.zipWith Rounding.exact.sub (row.map fin) (means.map fin))
      ((stds.map fin).map (atLeastEpsilon Rounding.exact))).length = n := by
    rw [List.length_zipWith, List.length_zipWith, hrowLength, hparamA, hparamB, Nat.min_self,
      Nat.min_self]
  rw [Normalizer.transform, hrowLength, Normalizer.fromStats, broadcast_of_length hparamA,
    broadcast_of_length hparamB]
  change Normalizer.inverseTransform Rounding.exact _ (List.zipWith Rounding.exact.div _ _) = _
  rw [Normalizer.inverseTransform, hlength, broadcast_of_length hparamA,
    broadcast_of_length hparamB]
  exact congrArg some (hback row means stds (hmeans.trans hrow.symm) (hstds.trans hrow.symm))

/-- A normalizer is fitted to the bounds of the columns. -/
theorem exists_bounds {n : ℕ} {data : List (List ℚ)} (hshape : ∀ row ∈ data, row.length = n)
    (hdata : data ≠ []) :
    ∃ mins maxs : List ℚ, mins.length = n ∧ maxs.length = n ∧
      Normalizer.fitMinmax nearestEven (data.map (List.map fin)) =
        some (.fromMinmax nearestEven (mins.map fin) (maxs.map fin)) ∧
      ∀ row ∈ data, ∀ (j : ℕ) (m x M : ℚ), mins[j]? = some m → row[j]? = some x →
        maxs[j]? = some M → m ≤ x ∧ x ≤ M := by
  obtain ⟨first, rows, rfl⟩ := List.exists_cons_of_ne_nil hdata
  have hfirst := hshape first List.mem_cons_self
  have hrows := fun r hr => hshape r (List.mem_cons_of_mem first hr)
  obtain ⟨hminsLength, hmins⟩ := zipFold_bound (R := (· ≤ ·)) (fun a : ℚ => le_refl a)
    (fun _ _ _ => le_trans) min_le_left min_le_right rows hfirst hrows
  obtain ⟨hmaxsLength, hmaxs⟩ := zipFold_bound (R := (· ≥ ·)) (fun a : ℚ => le_refl a)
    (fun _ _ _ hab hbc => le_trans hbc hab) le_max_left le_max_right rows hfirst hrows
  refine ⟨_, _, hminsLength, hmaxsLength, ?_, fun row hrow j m x M hm hx hM => ?_⟩
  · rw [Normalizer.fitMinmax, reduceAxis0_fin npMinimum_fin, reduceAxis0_fin npMaximum_fin]
    rfl
  · exact ⟨hmins row hrow j m x hm hx, hmaxs row hrow j M x hM hx⟩

/-- **Every row that the normalizer was fitted to** is scaled into the unit interval, value by
value. -/
theorem transform_fitMinmax {n : ℕ} {data : List (List ℚ)} (hshape : ∀ row ∈ data, row.length = n)
    {row : List ℚ} (hrow : row ∈ data) :
    ∃ norm ys, Normalizer.fitMinmax nearestEven (data.map (List.map fin)) = some norm ∧
      norm.transform nearestEven (row.map fin) = some ys ∧ ys.length = n ∧
        ∀ (j : ℕ) (range y : Binary64), norm.paramB[j]? = some range → ys[j]? = some y →
          Scaled range y := by
  obtain ⟨mins, maxs, hmins, hmaxs, hfit, hbounds⟩ := exists_bounds hshape (List.ne_nil_of_mem hrow)
  have hrowLength : (row.map fin).length = n := by rw [List.length_map, hshape row hrow]
  have hparamA : (mins.map fin).length = n := by rw [List.length_map, hmins]
  have hparamB : ((List.zipWith nearestEven.sub (maxs.map fin) (mins.map fin)).map
      (atLeastEpsilon nearestEven)).length = n := by
    rw [List.length_map, List.length_zipWith, List.length_map, hmaxs, hparamA, Nat.min_self]
  have htransform : (Normalizer.fromMinmax nearestEven (mins.map fin) (maxs.map fin)).transform
      nearestEven (row.map fin) = some (List.zipWith nearestEven.div
        (List.zipWith nearestEven.sub (row.map fin) (mins.map fin))
        ((List.zipWith nearestEven.sub (maxs.map fin) (mins.map fin)).map
          (atLeastEpsilon nearestEven))) := by
    rw [Normalizer.transform, hrowLength, Normalizer.fromMinmax, broadcast_of_length hparamA,
      broadcast_of_length hparamB]
    rfl
  refine ⟨_, _, hfit, htransform, ?_, fun j range y hrange hy => ?_⟩
  · rw [List.length_zipWith, List.length_zipWith, hrowLength, hparamA, hparamB, Nat.min_self,
      Nat.min_self]
  · have hlt := (List.getElem?_eq_some_iff.mp hy).1
    rw [List.length_zipWith, List.length_zipWith, hrowLength, hparamA, hparamB, Nat.min_self,
      Nat.min_self] at hlt
    have hentry : ∀ xs : List ℚ, xs.length = n → ∃ x, xs[j]? = some x := by
      intro xs hxs
      have hlt' : j < xs.length := by omega
      exact ⟨xs[j], List.getElem?_eq_getElem hlt'⟩
    obtain ⟨x, hx⟩ := hentry row (hshape row hrow)
    obtain ⟨m, hm⟩ := hentry mins hmins
    obtain ⟨M, hM⟩ := hentry maxs hmaxs
    obtain ⟨hle, hge⟩ := hbounds row hrow j m x M hm hx hM
    have hscaled := scaled_unit hle hge
    simp only [Normalizer.fromMinmax, List.getElem?_map, List.getElem?_zipWith, hm, hM, hx,
      Option.map_some, Option.some.injEq] at hrange hy
    rw [hrange] at hy
    rwa [hrange, hy] at hscaled

/-- A column that varies, and one that does not. -/
theorem transform_fitMinmax_twoRows :
    ∃ norm ys, Normalizer.fitMinmax nearestEven ([[1, 5], [3, 5]].map (List.map fin)) = some norm ∧
      norm.transform nearestEven ([3, 5].map fin) = some ys ∧ ys.length = 2 ∧
        ∀ (j : ℕ) (range y : Binary64), norm.paramB[j]? = some range → ys[j]? = some y →
          Scaled range y := by
  have hshape : ∀ row ∈ [[1, 5], [3, (5 : ℚ)]], row.length = 2 := by decide
  exact transform_fitMinmax hshape (by decide)

end HftPlatform.AiPredictor
