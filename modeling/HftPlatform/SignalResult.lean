import HftPlatform.ZscoreExact
import Mathlib.Data.List.Nodup

/-!
# The coherence of a signal

The result of the model is put together from the prepared factors, in their order, and from a
ranked copy of those that pass. This module says how the parts fit.

## Main results

* `contributionOf_ranked`, `contributionOf_rejected`: what the two lookups find for a factor.
* `perm_passed`: the contributions that passed are those of the ranking, in another order.
* `coherent_buildZscoreSignal`: the law of the result.
-/

namespace HftPlatform.ZscoreModel

open Lib Extended

/-- A projection that does not depend on the place. -/
theorem map_mapIdx {α β γ : Type} {f : ℕ → α → β} {g : β → γ} {k : α → γ}
    (h : ∀ i x, g (f i x) = k x) (xs : List α) : (xs.mapIdx f).map g = xs.map k := by
  refine List.ext_getElem? fun place => ?_
  rw [List.getElem?_map, List.getElem?_map, List.getElem?_mapIdx, Option.map_map]
  exact congrArg (Option.map · _) (funext (h place))

/-! ### Joining the ranking -/

section Join

variable {F : Type} [Double F]

/-- The contribution of the factor at a place of the ranking. -/
def rankedContribution (denominator : F) (place : ℕ) (row : PreparedFactor F) :
    FactorContribution F where
  name := row.factor.name
  correlation := row.correlation
  sign := row.sign
  zscore := row.zscore
  rank := some (place + 1)
  rawWeight := row.rawWeight
  normalizedWeight := row.rawWeight / denominator
  contribution := row.rawWeight / denominator * row.contribution
  passed := true
  rejectReason := none

/-- The contribution of a factor that is not ranked. -/
def rejectedContribution (row : PreparedFactor F) : FactorContribution F where
  name := row.factor.name
  correlation := row.correlation
  sign := row.sign
  zscore := row.zscore
  rank := none
  rawWeight := Double.lit 0
  normalizedWeight := Double.lit 0
  contribution := Double.lit 0
  passed := false
  rejectReason := some (row.rejectReason.getD "filtered_out")

variable {ranked prepared : List (PreparedFactor F)} {denominator : F} {row r : PreparedFactor F}
  {place : ℕ} {config : SignalBuildConfig F}

/-- **The lookups find a ranked factor** and its place. -/
theorem contributionOf_ranked (hnodup : (ranked.map (·.factorIndex)).Nodup)
    (hplace : ranked[place]? = some r) (hrow : row.factorIndex = r.factorIndex) :
    contributionOf ranked denominator row = rankedContribution denominator place r := by
  have hmem : r ∈ ranked := List.mem_of_getElem? hplace
  have hrows : lookup Prod.fst r.factorIndex
      (ranked.map fun r => (r.factorIndex, r)).reverse = some (r.factorIndex, r) := by
    refine lookup_of_mem (r := (r.factorIndex, r)) ?_ ?_
    · simpa [List.map_reverse, Function.comp_def] using List.nodup_reverse.mpr hnodup
    · rw [List.mem_reverse, List.mem_map]
      exact ⟨r, hmem, rfl⟩
  have hranks : lookup Prod.fst r.factorIndex
      (ranked.zipIdx.map fun p => (p.1.factorIndex, p.2 + 1)).reverse =
        some (r.factorIndex, place + 1) := by
    refine lookup_of_mem (r := (r.factorIndex, place + 1)) ?_ ?_
    · have hkeys : (ranked.zipIdx.map fun p => (p.1.factorIndex, p.2 + 1)).map Prod.fst =
          ranked.map (·.factorIndex) := by
        calc (ranked.zipIdx.map fun p => (p.1.factorIndex, p.2 + 1)).map Prod.fst
            = (ranked.zipIdx.map Prod.fst).map (·.factorIndex) := by
              rw [List.map_map, List.map_map]
              rfl
          _ = ranked.map (·.factorIndex) := by rw [List.zipIdx_map_fst]
      rw [List.map_reverse, hkeys]
      exact List.nodup_reverse.mpr hnodup
    · rw [List.mem_reverse, List.mem_map]
      exact ⟨(r, place), List.mem_zipIdx_iff_getElem?.mpr hplace, rfl⟩
  simp only [contributionOf, hrow, hrows, Option.map_some, hranks]
  rfl

/-- The lookups find nothing for a factor that is not ranked. -/
theorem contributionOf_rejected (h : ∀ r ∈ ranked, r.factorIndex ≠ row.factorIndex) :
    contributionOf ranked denominator row = rejectedContribution row := by
  have hnone : lookup Prod.fst row.factorIndex
      (ranked.map fun r => (r.factorIndex, r)).reverse = none := by
    refine lookup_of_not_mem fun p hp => ?_
    obtain ⟨r, hr, rfl⟩ := List.mem_map.mp (List.mem_reverse.mp hp)
    exact h r hr
  simp only [contributionOf, hnone, Option.map_none]
  rfl

/-! ### The ranking -/

/-- The factors that pass, in the order of the ranking. -/
def sorted (prepared : List (PreparedFactor F)) : List (PreparedFactor F) :=
  (prepared.filter (·.passed)).mergeSort ranksBefore

theorem perm_sorted (prepared : List (PreparedFactor F)) :
    (sorted prepared).Perm (prepared.filter (·.passed)) :=
  List.mergeSort_perm _ _

theorem mem_sorted : row ∈ sorted prepared ↔ row ∈ prepared ∧ row.passed = true := by
  rw [(perm_sorted prepared).mem_iff, List.mem_filter]

/-- A place of the ranking holds the weighed factor. -/
theorem getElem?_rank (place : ℕ) : (rank config prepared)[place]? =
    (sorted prepared)[place]?.map (weigh config place) := by
  rw [rank, List.getElem?_mapIdx, sorted]

/-- Weighing keeps the indices of the factors. -/
theorem map_factorIndex_rank :
    (rank config prepared).map (·.factorIndex) = (sorted prepared).map (·.factorIndex) := by
  refine map_mapIdx ?_ (sorted prepared)
  exact fun _ _ => rfl

/-- The ranking has each factor once. -/
theorem nodup_rank (h : (prepared.map (·.factorIndex)).Nodup) :
    ((rank config prepared).map (·.factorIndex)).Nodup := by
  rw [map_factorIndex_rank, ((perm_sorted prepared).map _).nodup_iff]
  exact h.sublist (List.filter_sublist.map _)

/-- **A factor that passes** is found at its place of the ranking. -/
theorem contributionOf_of_sorted (h : (prepared.map (·.factorIndex)).Nodup)
    (hplace : (sorted prepared)[place]? = some row) :
    contributionOf (rank config prepared) denominator row =
      rankedContribution denominator place (weigh config place row) :=
  contributionOf_ranked (nodup_rank h) (by rw [getElem?_rank, hplace, Option.map_some]) rfl

/-- A factor that does not pass is not ranked. -/
theorem contributionOf_of_not_passed (h : (prepared.map (·.factorIndex)).Nodup)
    (hrow : row ∈ prepared) (hpassed : row.passed = false) :
    contributionOf (rank config prepared) denominator row = rejectedContribution row := by
  refine contributionOf_rejected fun r hr heq => ?_
  have hindex : r.factorIndex ∈ (sorted prepared).map (·.factorIndex) := by
    rw [← map_factorIndex_rank]
    exact List.mem_map.mpr ⟨r, hr, rfl⟩
  obtain ⟨r', hr', hsame⟩ := List.mem_map.mp hindex
  obtain ⟨hmem, hpass⟩ := mem_sorted.mp hr'
  obtain rfl : r' = row := List.inj_on_of_nodup_map h hmem hrow (hsame.trans heq)
  simp [hpass] at hpassed

/-- **A contribution is that of its factor**: joining the ranking changes the weights only. -/
theorem contributionOf_row (h : (prepared.map (·.factorIndex)).Nodup) (hrow : row ∈ prepared) :
    let c := contributionOf (rank config prepared) denominator row
    (c.name, c.correlation, c.sign, c.zscore, c.passed) =
      (row.factor.name, row.correlation, row.sign, row.zscore, row.passed) := by
  cases hpassed : row.passed with
  | false =>
      rw [contributionOf_of_not_passed h hrow hpassed]
      rfl
  | true =>
      obtain ⟨place, hplace⟩ := List.mem_iff_getElem?.mp (mem_sorted.mpr ⟨hrow, hpassed⟩)
      rw [contributionOf_of_sorted h hplace]
      rfl

/-- A contribution passes exactly when its factor does. -/
theorem passed_contributionOf (h : (prepared.map (·.factorIndex)).Nodup) (hrow : row ∈ prepared) :
    (contributionOf (rank config prepared) denominator row).passed = row.passed :=
  congrArg (·.2.2.2.2) (contributionOf_row h hrow)

/-- **The contributions that passed** are those of the ranking, in another order. -/
theorem perm_passed (h : (prepared.map (·.factorIndex)).Nodup) :
    ((prepared.map (contributionOf (rank config prepared) denominator)).filter (·.passed)).Perm
      ((rank config prepared).mapIdx (rankedContribution denominator)) := by
  have hfilter : (prepared.map (contributionOf (rank config prepared) denominator)).filter
      (·.passed) = (prepared.filter (·.passed)).map
        (contributionOf (rank config prepared) denominator) := by
    rw [List.filter_map]
    congr 1
    exact List.filter_congr fun row hrow => passed_contributionOf h hrow
  have hranked : (sorted prepared).map (contributionOf (rank config prepared) denominator) =
      (rank config prepared).mapIdx (rankedContribution denominator) := by
    refine List.ext_getElem? fun place => ?_
    rw [List.getElem?_map, List.getElem?_mapIdx, getElem?_rank]
    cases hplace : (sorted prepared)[place]? with
    | none => rfl
    | some row => simp only [Option.map_some, contributionOf_of_sorted h hplace]
  rw [hfilter, ← hranked]
  exact ((perm_sorted prepared).map _).symm

/-- The factors are prepared under the indices of their places. -/
theorem nodup_prepared (factors : List (FactorInput F)) :
    ((factors.mapIdx (prepareFactor config)).map (·.factorIndex)).Nodup := by
  have hindices : (factors.mapIdx (prepareFactor config)).map (·.factorIndex) =
      List.range factors.length := by
    refine List.ext_getElem (by simp) fun i _ _ => ?_
    rw [List.getElem_map, List.getElem_mapIdx, List.getElem_range]
    exact (prepareFactor_spec config i _).factorIndex
  rw [hindices]
  exact List.nodup_range

/-- A gate that does not pass says why. -/
theorem evaluateRegimeFilter_reason (filter : Option RegimeFilterConfig) :
    (evaluateRegimeFilter filter).reason.isSome = !(evaluateRegimeFilter filter).passed := by
  unfold evaluateRegimeFilter
  repeat' first | rfl | split

/-- A gate that does not pass says why. -/
theorem evaluateVolatilityFilter_reason (show4 : F → String)
    (filter : Option (VolatilityFilterConfig F)) :
    (evaluateVolatilityFilter show4 filter).reason.isSome =
      !(evaluateVolatilityFilter show4 filter).passed := by
  simp only [evaluateVolatilityFilter]
  repeat' first | rfl | split

/-- The reasons of a gate that says why it does not pass. -/
theorem reasons_eq_nil_iff {gate : GateResult} (h : gate.reason.isSome = !gate.passed) :
    (if gate.passed then [] else gate.reason.toList) = [] ↔ gate.passed = true := by
  obtain ⟨passed, reason⟩ := gate
  cases passed <;> cases reason <;> simp_all

/-- **A signal is suppressed** exactly when a reason says so. -/
theorem suppressed_iff (show4 : F → String) (factors : List (FactorInput F))
    (config : SignalBuildConfig F) : (buildZscoreSignal show4 factors config).suppressed = true ↔
      (buildZscoreSignal show4 factors config).suppressionReasons ≠ [] := by
  by_cases hfactors : factors = []
  · rw [buildZscoreSignal, if_pos hfactors]
    exact iff_of_true rfl (List.cons_ne_nil _ _)
  rw [buildZscoreSignal, if_neg hfactors]
  dsimp only
  simp only [ne_eq, List.append_eq_nil_iff, reasons_eq_nil_iff (evaluateRegimeFilter_reason _),
    reasons_eq_nil_iff (evaluateVolatilityFilter_reason show4 _)]
  generalize rank config _ = ranked
  cases (evaluateRegimeFilter config.regimeFilter).passed <;>
    cases (evaluateVolatilityFilter show4 config.volatilityFilter).passed <;>
    by_cases hranked : ranked = [] <;> simp [hranked]

end Join

/-! ### Weights -/

section Weights

variable {K : Type} [Field K] [LinearOrder K] [IsStrictOrderedRing K] [SquareRoot K]

variable {config : SignalBuildConfig (Extended K)} {row : PreparedFactor (Extended K)}

/-- **A raw weight** is a number that is not negative. -/
theorem exists_rawWeight (hdecay : Double.le (Double.lit 0) config.rankDecay = true) {c : K}
    (hcorr : row.correlation = fin c) (index : ℕ) :
    ∃ w : K, 0 ≤ w ∧ (weigh config index row).rawWeight = fin w := by
  have hzero : (Double.lit 0 : Extended K) = fin 0 := congrArg fin Rat.cast_zero
  have habs : NotNegative (Double.abs row.correlation) := by
    rw [hcorr, abs_fin, notNegative_fin]
    exact abs_nonneg c
  have hmanual : NotNegative (Double.max row.factor.weight (Double.lit 0)) := by
    rw [hzero]
    exact notNegative_max _
  have hrank : NotNegative (Double.pow config.rankDecay index) :=
    (notNegative_of_le (hzero ▸ hdecay)).pow index
  have hraw : ∀ x : Extended K, NotNegative x →
      ∃ w : K, 0 ≤ w ∧ (if Double.isFinite x then x else Double.lit 0) = fin w := by
    intro x hx
    by_cases hfin : Double.isFinite x = true
    · obtain ⟨w, rfl⟩ := isFinite_iff.mp hfin
      exact ⟨w, notNegative_fin.mp hx, if_pos rfl⟩
    · exact ⟨0, le_rfl, (if_neg hfin).trans hzero⟩
  refine hraw _ ?_
  cases config.weightMode with
  | equal => exact notNegative_fin.mpr (by simp)
  | manual => exact hmanual
  | correlation => exact hmanual.mul habs
  | rankedCorrelation => exact (hmanual.mul habs).mul hrank

variable {prepared : List (PreparedFactor (Extended K))}

/-- The raw weights of the ranking, as numbers. -/
def weights (config : SignalBuildConfig (Extended K))
    (prepared : List (PreparedFactor (Extended K))) : List K :=
  numbers ((rank config prepared).map (·.rawWeight))

/-- **The raw weights of a ranking** are numbers that are not negative. -/
theorem weights_spec (hdecay : Double.le (Double.lit 0) config.rankDecay = true)
    (hcorr : ∀ row ∈ prepared, ∃ c : K, row.correlation = fin c) :
    (rank config prepared).map (·.rawWeight) = (weights config prepared).map fin ∧
      ∀ w ∈ weights config prepared, 0 ≤ w := by
  have hraw : ∀ x ∈ (rank config prepared).map (·.rawWeight), ∃ w : K, 0 ≤ w ∧ x = fin w := by
    intro x hx
    obtain ⟨r, hr, rfl⟩ := List.mem_map.mp hx
    obtain ⟨place, hplace⟩ := List.mem_iff_getElem?.mp hr
    rw [getElem?_rank, Option.map_eq_some_iff] at hplace
    obtain ⟨row, hrow, rfl⟩ := hplace
    obtain ⟨c, hc⟩ := hcorr row (mem_sorted.mp (List.mem_of_getElem? hrow)).1
    exact exists_rawWeight hdecay hc place
  refine ⟨(map_fin_numbers fun x hx => ?_).symm, fun w hw => ?_⟩
  · obtain ⟨w, -, rfl⟩ := hraw x hx
    rfl
  · obtain ⟨w', hw', heq⟩ := hraw (fin w) (mem_numbers.mp hw)
    cases heq
    exact hw'

/-- The total of the raw weights is that of numbers. -/
theorem totalWeight_eq (hdecay : Double.le (Double.lit 0) config.rankDecay = true)
    (hcorr : ∀ row ∈ prepared, ∃ c : K, row.correlation = fin c) :
    Double.sum ((rank config prepared).map (·.rawWeight)) =
      fin (weights config prepared).sum := by
  rw [(weights_spec hdecay hcorr).1, sum_eq, sum_map_fin]

end Weights

/-! ### The joined contributions -/

section Contributions

variable {K : Type} [Field K] [LinearOrder K] [SquareRoot K]
  {config : SignalBuildConfig (Extended K)} {prepared : List (PreparedFactor (Extended K))}
  {denominator : Extended K}

omit [LinearOrder K] [SquareRoot K] in
/-- What is zero off a selection has the sum of the selection. -/
theorem sum_map_filter {α : Type} {f : α → Extended K} {p : α → Bool} {xs : List α}
    (h : ∀ x ∈ xs, p x = false → f x = 0) : ((xs.filter p).map f).sum = (xs.map f).sum := by
  rw [← List.sum_map_filter_add_sum_map_filter_not (p ·) f xs]
  have hrest : ((xs.filter fun x => ¬p x).map f).sum = 0 := by
    refine List.sum_eq_zero fun y hy => ?_
    obtain ⟨x, hx, rfl⟩ := List.mem_map.mp hy
    rw [List.mem_filter] at hx
    exact h x hx.1 (by simpa using hx.2)
  rw [hrest, add_zero]
  simp

/-- **The contributions of the result add up** to the weighted sum of the ranking. -/
theorem sum_contributions (h : (prepared.map (·.factorIndex)).Nodup) :
    Double.sum ((rank config prepared).map fun row =>
        row.rawWeight / denominator * row.contribution) =
      Double.sum ((prepared.map (contributionOf (rank config prepared) denominator)).map
        (·.contribution)) := by
  have hranked : (rank config prepared).map
        (fun row => row.rawWeight / denominator * row.contribution) =
      ((rank config prepared).mapIdx (rankedContribution denominator)).map (·.contribution) := by
    refine (map_mapIdx ?_ (rank config prepared)).symm
    exact fun _ _ => rfl
  rw [sum_eq, sum_eq, hranked, ← ((perm_passed h).map _).sum_eq]
  refine sum_map_filter fun c hc hpassed => ?_
  obtain ⟨row, hrow, rfl⟩ := List.mem_map.mp hc
  rw [passed_contributionOf h hrow] at hpassed
  rw [contributionOf_of_not_passed h hrow hpassed]
  exact congrArg fin Rat.cast_zero

/-- **The ranks** of the contributions that passed are the first numbers. -/
theorem perm_ranks (h : (prepared.map (·.factorIndex)).Nodup) :
    (((prepared.map (contributionOf (rank config prepared) denominator)).filter (·.passed)).map
      (·.rank)).Perm ((List.range' 1 (rank config prepared).length).map some) := by
  have hranks : ((rank config prepared).mapIdx (rankedContribution denominator)).map (·.rank) =
      (List.range' 1 (rank config prepared).length).map some := by
    refine List.ext_getElem (by simp) fun place _ _ => ?_
    rw [List.getElem_map, List.getElem_map, List.getElem_mapIdx, List.getElem_range', one_mul,
      Nat.add_comm]
    rfl
  rw [← hranks]
  exact (perm_passed h).map _

/-- The absolute value of a correlation that is a number. -/
def magnitude (row : PreparedFactor (Extended K)) : K :=
  match row.correlation with
  | fin c => |c|
  | _ => 0

/-- The ranking is by decreasing absolute correlation. -/
theorem pairwise_sorted (hcorr : ∀ row ∈ prepared, ∃ c : K, row.correlation = fin c) :
    ((sorted prepared).map magnitude).Pairwise (· ≥ ·) := by
  have hkeys : (sorted prepared).map magnitude =
      ((prepared.filter (·.passed)).map magnitude).mergeSort (fun x y => decide (x ≥ y)) := by
    refine List.map_mergeSort fun a ha b hb => ?_
    obtain ⟨x, hx⟩ := hcorr a (List.mem_filter.mp ha).1
    obtain ⟨y, hy⟩ := hcorr b (List.mem_filter.mp hb).1
    simp only [ranksBefore, magnitude, hx, hy, abs_fin, lt_fin, ge_iff_le, ← not_lt, decide_not]
  rw [hkeys]
  exact List.pairwise_mergeSort' _ _

/-- **A contribution that is ranked** has a place in the ranking. -/
theorem exists_place (h : (prepared.map (·.factorIndex)).Nodup)
    {c : FactorContribution (Extended K)}
    (hc : c ∈ prepared.map (contributionOf (rank config prepared) denominator)) {m : ℕ}
    (hrank : c.rank = some m) : ∃ place row, (sorted prepared)[place]? = some row ∧
      m = place + 1 ∧ c.correlation = row.correlation := by
  obtain ⟨row, hrow, rfl⟩ := List.mem_map.mp hc
  cases hpassed : row.passed with
  | false =>
      rw [contributionOf_of_not_passed h hrow hpassed] at hrank
      cases hrank
  | true =>
      obtain ⟨place, hplace⟩ := List.mem_iff_getElem?.mp (mem_sorted.mpr ⟨hrow, hpassed⟩)
      rw [contributionOf_of_sorted h hplace] at hrank ⊢
      exact ⟨place, row, hplace, (Option.some.inj hrank).symm, rfl⟩

/-- **A higher rank** means no smaller an absolute correlation. -/
theorem le_of_rank (h : (prepared.map (·.factorIndex)).Nodup)
    (hcorr : ∀ row ∈ prepared, ∃ c : K, row.correlation = fin c)
    {c c' : FactorContribution (Extended K)}
    (hc : c ∈ prepared.map (contributionOf (rank config prepared) denominator))
    (hc' : c' ∈ prepared.map (contributionOf (rank config prepared) denominator)) {m n : ℕ}
    (hm : c.rank = some m) (hn : c'.rank = some n) (hle : m ≤ n) :
    Double.le (Double.abs c'.correlation) (Double.abs c.correlation) = true := by
  obtain ⟨i, row, hi, rfl, hrow⟩ := exists_place h hc hm
  obtain ⟨j, row', hj, rfl, hrow'⟩ := exists_place h hc' hn
  obtain ⟨x, hx⟩ := hcorr row (mem_sorted.mp (List.mem_of_getElem? hi)).1
  obtain ⟨y, hy⟩ := hcorr row' (mem_sorted.mp (List.mem_of_getElem? hj)).1
  have hmagnitude : magnitude row' ≤ magnitude row := by
    rcases (Nat.le_of_add_le_add_right hle).eq_or_lt with rfl | hlt
    · rw [Option.some.inj (hi.symm.trans hj)]
    · obtain ⟨hilen, rfl⟩ := List.getElem?_eq_some_iff.mp hi
      obtain ⟨hjlen, rfl⟩ := List.getElem?_eq_some_iff.mp hj
      have hpair := List.pairwise_iff_getElem.mp (pairwise_sorted hcorr) i j
        (by simpa using hilen) (by simpa using hjlen) hlt
      simpa using hpair
  rw [hrow, hrow', hx, hy, abs_fin, abs_fin, le_fin, decide_eq_true_eq]
  simpa [magnitude, hx, hy] using hmagnitude

end Contributions

/-! ### The law of the result -/

section Coherence

variable {K : Type} [Field K] [LinearOrder K] [SquareRoot K]

/-- **The coherence of a result**: how the parts of what the model returns fit together. -/
structure Coherent (factors : List (FactorInput (Extended K)))
    (config : SignalBuildConfig (Extended K)) (result : SignalResult (Extended K)) : Prop where
  /-- A signal is suppressed exactly when a reason says so. -/
  suppressed_iff : result.suppressed = true ↔ result.suppressionReasons ≠ []
  /-- A suppressed signal predicts the mean. -/
  suppressed : result.suppressed = true →
    result.signal = Double.lit 0 ∧ result.predictedReturn = result.meanReturn
  /-- A signal is the sum of its contributions. -/
  signal : result.suppressed = false →
    result.signal = Double.sum (result.contributions.map (·.contribution))
  /-- The weights are shares. -/
  normalizedWeight_nonneg : result.suppressed = false → ∀ c ∈ result.contributions,
    c.passed = true → Double.le (Double.lit 0) c.normalizedWeight = true
  sum_normalizedWeight : result.suppressed = false →
    Double.sum ((result.contributions.filter (·.passed)).map (·.normalizedWeight)) = Double.lit 1
  factorsUsed : result.factorsUsed = (result.contributions.filter (·.passed)).length
  /-- Each rank from one on is given once, to a contribution that passed. -/
  ranks : ((result.contributions.filter (·.passed)).map (·.rank)).Perm
    ((List.range' 1 result.factorsUsed).map some)
  /-- A better rank has no smaller an absolute correlation. -/
  ranked : ∀ c ∈ result.contributions, ∀ c' ∈ result.contributions, ∀ m n,
    c.rank = some m → c'.rank = some n → m ≤ n →
      Double.le (Double.abs c'.correlation) (Double.abs c.correlation) = true
  /-- There is one contribution for each factor, in the order of the factors. -/
  order : result.contributions.map (fun c => (c.name, c.correlation, c.sign, c.zscore, c.passed)) =
    factors.mapIdx fun i factor =>
      let row := prepareFactor config i factor
      (factor.name, row.correlation, row.sign, row.zscore, row.passed)
  /-- A factor that did not pass counts for nothing, and a reason says why. -/
  rejected : ∀ c ∈ result.contributions, c.passed = false →
    c.rank = none ∧ c.rawWeight = Double.lit 0 ∧ c.normalizedWeight = Double.lit 0 ∧
      c.contribution = Double.lit 0 ∧ c.rejectReason.isSome = true

/-- Without factors the signal is suppressed. -/
theorem coherent_nil (show4 : Extended K → String) (config : SignalBuildConfig (Extended K)) :
    Coherent [] config (buildZscoreSignal show4 [] config) where
  suppressed_iff := iff_of_true rfl (List.cons_ne_nil _ _)
  suppressed _ := ⟨rfl, rfl⟩
  signal h := Bool.noConfusion h
  normalizedWeight_nonneg h := Bool.noConfusion h
  sum_normalizedWeight h := Bool.noConfusion h
  factorsUsed := rfl
  ranks := List.Perm.refl _
  ranked _ h := absurd h List.not_mem_nil
  order := rfl
  rejected _ h := absurd h List.not_mem_nil

/-- The standard deviation of the returns is a number that is not negative. -/
theorem exists_stdReturn (stdReturn : Option (Extended K)) (returns : List (Extended K))
    [IsStrictOrderedRing K] (hstd : ∀ s ∈ stdReturn, Double.isFinite s = true) :
    ∃ s : K, 0 ≤ s ∧
      Double.max ((stdReturn <|> calculateStd returns).getD (Double.lit 0)) (Double.lit 0) =
        fin s := by
  have hgiven : ∃ s : K, (stdReturn <|> calculateStd returns).getD (Double.lit 0) = fin s := by
    cases stdReturn with
    | some s =>
        obtain ⟨a, rfl⟩ := isFinite_iff.mp (hstd s rfl)
        exact ⟨a, rfl⟩
    | none =>
        show ∃ s : K, (calculateStd returns).getD (Double.lit 0) = fin s
        rw [calculateStd_eq]
        split
        · exact ⟨0, congrArg fin Rat.cast_zero⟩
        · exact ⟨_, rfl⟩
  obtain ⟨s, hs⟩ := hgiven
  exact ⟨max s 0, le_max_right s 0, by rw [hs, lit_fin, Rat.cast_zero, max_fin]⟩

/-- A sum with zero times a number. -/
theorem add_mul_zero (x : Extended K) (s : K) : x + fin s * Double.lit 0 = x := by
  rw [lit_fin, mul_fin, Rat.cast_zero, mul_zero, ← zero_eq, add_zero]

variable [IsStrictOrderedRing K] {config : SignalBuildConfig (Extended K)}
  {prepared : List (PreparedFactor (Extended K))}

/-- **The normalized weights** are the shares of the raw weights. -/
theorem perm_normalizedWeight (h : (prepared.map (·.factorIndex)).Nodup)
    (hdecay : Double.le (Double.lit 0) config.rankDecay = true)
    (hcorr : ∀ row ∈ prepared, ∃ c : K, row.correlation = fin c)
    (htotal : 0 < (weights config prepared).sum) :
    (((prepared.map (contributionOf (rank config prepared)
        (fin (weights config prepared).sum))).filter (·.passed)).map (·.normalizedWeight)).Perm
      (((weights config prepared).map (· / (weights config prepared).sum)).map fin) := by
  have hshares : ((rank config prepared).mapIdx (rankedContribution
      (fin (weights config prepared).sum))).map (·.normalizedWeight) =
        ((weights config prepared).map (· / (weights config prepared).sum)).map fin := by
    calc _ = ((rank config prepared).map (·.rawWeight)).map
          (· / fin (weights config prepared).sum) := by
            rw [List.map_map]
            refine map_mapIdx ?_ (rank config prepared)
            exact fun _ _ => rfl
      _ = _ := by
            rw [(weights_spec hdecay hcorr).1, List.map_map, List.map_map]
            exact List.map_congr_left fun w _ => div_fin w htotal.ne'
  rw [← hshares]
  exact (perm_passed h).map _

/-- A total that counts is the denominator of the shares. -/
theorem denominator_eq (hdecay : Double.le (Double.lit 0) config.rankDecay = true)
    (hcorr : ∀ row ∈ prepared, ∃ c : K, row.correlation = fin c)
    (htotal : Double.le (Double.sum ((rank config prepared).map (·.rawWeight))) epsilon = false) :
    0 < (weights config prepared).sum ∧
      (if Double.lt epsilon (Double.sum ((rank config prepared).map (·.rawWeight))) then
        Double.sum ((rank config prepared).map (·.rawWeight)) else Double.lit 1) =
          fin (weights config prepared).sum := by
  rw [totalWeight_eq hdecay hcorr, epsilon_eq] at htotal ⊢
  rw [le_fin, decide_eq_false_iff_not, not_le] at htotal
  exact ⟨smallest_pos.trans htotal, if_pos (by simpa using htotal)⟩

/-- **The law of the result**, for a rank decay that is not negative. -/
theorem coherent_buildZscoreSignal (show4 : Extended K → String)
    (factors : List (FactorInput (Extended K))) (config : SignalBuildConfig (Extended K))
    (hdecay : Double.le (Double.lit 0) config.rankDecay = true)
    (hstd : ∀ s ∈ config.stdReturn, Double.isFinite s = true) :
    Coherent factors config (buildZscoreSignal show4 factors config) := by
  by_cases hfactors : factors = []
  · rw [hfactors]
    exact coherent_nil show4 config
  have hsuppressed := suppressed_iff show4 factors config
  rw [buildZscoreSignal, if_neg hfactors] at hsuppressed ⊢
  dsimp only at hsuppressed ⊢
  have hnodup : ((factors.mapIdx (prepareFactor config)).map (·.factorIndex)).Nodup :=
    nodup_prepared factors
  have hcorr : ∀ row ∈ factors.mapIdx (prepareFactor config), ∃ c : K, row.correlation = fin c := by
    intro row hrow
    obtain ⟨i, hi, rfl⟩ := List.mem_mapIdx.mp hrow
    exact prepareFactor_correlation config i _
  exact {
    suppressed_iff := hsuppressed
    suppressed := by
      intro hsup
      dsimp only at hsup ⊢
      rw [if_pos hsup]
      obtain ⟨s, -, hs⟩ := exists_stdReturn config.stdReturn _ hstd
      exact ⟨rfl, by rw [hs, add_mul_zero]⟩
    signal := by
      intro hsup
      dsimp only at hsup ⊢
      rw [hsup, if_neg Bool.false_ne_true]
      exact sum_contributions hnodup
    normalizedWeight_nonneg := by
      intro hsup c hc hpassed
      dsimp only at hsup hc
      obtain ⟨htotal, hdenominator⟩ := denominator_eq hdecay hcorr
        (Bool.or_eq_false_iff.mp (Bool.or_eq_false_iff.mp hsup).2).2
      rw [hdenominator] at hc
      have hmem := (perm_normalizedWeight hnodup hdecay hcorr htotal).subset
        (List.mem_map.mpr ⟨c, List.mem_filter.mpr ⟨hc, hpassed⟩, rfl⟩)
      rw [List.map_map, List.mem_map] at hmem
      obtain ⟨w, hw, heq⟩ := hmem
      rw [← heq, lit_fin, Rat.cast_zero]
      exact decide_eq_true (div_nonneg ((weights_spec hdecay hcorr).2 w hw) htotal.le)
    sum_normalizedWeight := by
      intro hsup
      dsimp only at hsup ⊢
      obtain ⟨htotal, hdenominator⟩ := denominator_eq hdecay hcorr
        (Bool.or_eq_false_iff.mp (Bool.or_eq_false_iff.mp hsup).2).2
      rw [hdenominator, sum_eq, (perm_normalizedWeight hnodup hdecay hcorr htotal).sum_eq,
        sum_map_fin, sum_shares htotal.ne', lit_fin, Rat.cast_one]
    factorsUsed := by
      rw [(perm_passed hnodup).length_eq, List.length_mapIdx]
    ranks := perm_ranks hnodup
    ranked := fun c hc c' hc' m n hm hn hle => le_of_rank hnodup hcorr hc hc' hm hn hle
    order := by
      dsimp only
      rw [List.map_map]
      calc _ = (factors.mapIdx (prepareFactor config)).map fun row =>
            (row.factor.name, row.correlation, row.sign, row.zscore, row.passed) :=
              List.map_congr_left fun row hrow => contributionOf_row hnodup hrow
        _ = _ := by
            refine List.ext_getElem (by simp) fun i _ _ => ?_
            rw [List.getElem_map, List.getElem_mapIdx, List.getElem_mapIdx,
              (prepareFactor_spec config i _).factor]
    rejected := by
      intro c hc hpassed
      obtain ⟨row, hrow, rfl⟩ := List.mem_map.mp hc
      rw [passed_contributionOf hnodup hrow] at hpassed
      rw [contributionOf_of_not_passed hnodup hrow hpassed]
      exact ⟨rfl, rfl, rfl, rfl, rfl⟩ }

end Coherence

/-- A factor that does not vary, with a direction of its own. -/
def steadyFactor : FactorInput (Extended ℚ) where
  name := "steady"
  series := [fin 1, fin 1]
  returnSeries := [fin 1, fin 2]
  weight := fin 1
  rollingWindow := none
  currentValue := none
  directionHint := some 1
  enabled := true

/-- A configuration without filters that takes every correlation. -/
def openConfig : SignalBuildConfig (Extended ℚ) where
  rollingWindow := 2
  minHistory := 2
  minAbsCorrelation := fin 0
  rankDecay := fin (1 / 2)
  weightMode := .equal
  winsorizeZscoreAt := fin 4
  meanReturn := none
  stdReturn := some (fin 1)
  regimeFilter := none
  volatilityFilter := none

/-- The law at a signal that is not suppressed, of a factor that passes and one that does not. -/
theorem coherent_steady : let factors := [steadyFactor, { steadyFactor with enabled := false }]
    let result := buildZscoreSignal (fun _ => "") factors openConfig
    Coherent factors openConfig result ∧ result.suppressed = false ∧ result.factorsUsed = 1 :=
  ⟨coherent_buildZscoreSignal _ _ _ (by decide +kernel) (by rintro s ⟨⟩; rfl), by decide +kernel,
    by decide +kernel⟩

end HftPlatform.ZscoreModel
