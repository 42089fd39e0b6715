import HftPlatform.SignalParts

/-!
# The order of the factors

The factors are ranked, and the result is joined in their order, so that their order can matter in
two places only: among factors of the same absolute correlation, which the ranking leaves in the
order of the list, and in the returns of the first rank, which the statistics are of.

## Main results

* `perm_rankedFactors`: the rankings of a list and of its permutation hold the same rows.
* `place_eq`: the rank of a factor that is not tied.
* `order_independent`: what a permutation of the factors leaves as it is.
-/

namespace HftPlatform.ZscoreModel

open Lib Extended

/-! ### Rows without their index -/

section Index

variable {F : Type} [Double F] {config : SignalBuildConfig F} {factors : List (FactorInput F)}

/-- The row of a factor at another index. -/
def PreparedFactor.atIndex (index : ℕ) (row : PreparedFactor F) : PreparedFactor F :=
  { row with factorIndex := index }

/-- A factor is prepared in the same way at every index. -/
theorem prepareFactor_atIndex (i j : ℕ) (factor : FactorInput F) :
    (prepareFactor config i factor).atIndex j = prepareFactor config j factor := by
  simp only [prepareFactor, apply_ite (PreparedFactor.atIndex j)]
  simp only [PreparedFactor.atIndex, rejectedFactor]

/-- The ranking does not see the index of a factor. -/
theorem transparent_atIndex (config : SignalBuildConfig F) (index : ℕ) :
    Transparent config (PreparedFactor.atIndex index) where
  passed _ := rfl
  abs_correlation _ := rfl
  weighed _ _ := rfl

/-- The prepared factors, apart from their places in the list. -/
theorem map_atIndex : (factors.mapIdx (prepareFactor config)).map (·.atIndex 0) =
    factors.map (prepareFactor config 0) := by
  refine List.ext_getElem (by simp) fun i _ _ => ?_
  rw [List.getElem_map, List.getElem_mapIdx, List.getElem_map, prepareFactor_atIndex]

/-- The sorted factors, apart from their places in the list. -/
theorem sorted_atIndex : (sorted (factors.mapIdx (prepareFactor config))).map (·.atIndex 0) =
    sorted (factors.map (prepareFactor config 0)) := by
  rw [← (transparent_atIndex config 0).sorted_map, map_atIndex]

/-- The ranked factors, apart from their places in the list. -/
theorem rankedFactors_atIndex : (rankedFactors config factors).map (·.atIndex 0) =
    rank config (factors.map (prepareFactor config 0)) := by
  rw [rankedFactors, ← (transparent_atIndex config 0).rank_map, map_atIndex]

/-- Where the weights do not depend on the ranks, a factor is weighed in the same way at every
place. -/
theorem weigh_place (hmode : config.weightMode ≠ .rankedCorrelation) (place : ℕ)
    (row : PreparedFactor F) : weigh config place row = weigh config 0 row := by
  cases h : config.weightMode with
  | equal | manual | correlation => simp only [weigh, h]
  | rankedCorrelation => exact absurd h hmode

/-- Without the ranked mode, a weight does not depend on the place. -/
theorem rank_of_mode (hmode : config.weightMode ≠ .rankedCorrelation)
    (prepared : List (PreparedFactor F)) :
    rank config prepared = (sorted prepared).map (weigh config 0) := by
  refine List.ext_getElem? fun place => ?_
  rw [getElem?_rank, List.getElem?_map]
  exact congrArg (Option.map · _) (funext (weigh_place hmode place))

end Index

/-! ### Permuted rankings -/

section Order

variable {K : Type} [Field K] [LinearOrder K] [IsStrictOrderedRing K] [SquareRoot K]
  {config : SignalBuildConfig (Extended K)} {factors factors' : List (FactorInput (Extended K))}

/-- The factors that pass differ in their absolute correlation. -/
def DistinctCorrelations (config : SignalBuildConfig (Extended K))
    (factors : List (FactorInput (Extended K))) : Prop :=
  (((factors.mapIdx (prepareFactor config)).filter (·.passed)).map
    fun row => Double.abs row.correlation).Nodup

/-- The absolute correlations of the factors that pass, in the order of the ranking. -/
def magnitudes (config : SignalBuildConfig (Extended K))
    (factors : List (FactorInput (Extended K))) : List K :=
  (sorted (factors.mapIdx (prepareFactor config))).map magnitude

/-- The absolute correlation of a prepared factor. -/
theorem abs_correlation_eq (i : ℕ) (factor : FactorInput (Extended K)) :
    Double.abs (prepareFactor config i factor).correlation =
      fin (magnitude (prepareFactor config i factor)) := by
  obtain ⟨c, hc⟩ := prepareFactor_correlation config i factor
  rw [magnitude, hc, abs_fin]

/-- The absolute correlation of a row that is prepared. -/
theorem abs_correlation_of_mem {row : PreparedFactor (Extended K)}
    (h : row ∈ factors.mapIdx (prepareFactor config)) :
    Double.abs row.correlation = fin (magnitude row) := by
  obtain ⟨i, hi, rfl⟩ := List.mem_mapIdx.mp h
  exact abs_correlation_eq i _

omit [IsStrictOrderedRing K] in
/-- The magnitudes of the sorted factors. -/
theorem map_magnitude_sorted :
    (sorted (factors.map (prepareFactor config 0))).map magnitude = magnitudes config factors := by
  rw [← sorted_atIndex, List.map_map]
  rfl

omit [IsStrictOrderedRing K] in
/-- The absolute correlations are those of the factors that pass. -/
theorem perm_magnitudes : (magnitudes config factors).Perm
    (((factors.map (prepareFactor config 0)).filter (·.passed)).map magnitude) := by
  rw [← map_magnitude_sorted]
  exact (perm_sorted _).map magnitude

omit [IsStrictOrderedRing K] in
/-- A permutation of the factors keeps their absolute correlations. -/
theorem magnitudes_perm (h : factors'.Perm factors) :
    (magnitudes config factors').Perm (magnitudes config factors) :=
  perm_magnitudes.trans ((((h.map _).filter _).map _).trans perm_magnitudes.symm)

/-- They do not grow. -/
theorem pairwise_magnitudes : (magnitudes config factors).Pairwise (· ≥ ·) := by
  refine pairwise_sorted fun row hrow => ?_
  obtain ⟨i, hi, rfl⟩ := List.mem_mapIdx.mp hrow
  exact prepareFactor_correlation config i _

/-- They are distinct if the correlations are. -/
theorem nodup_magnitudes (h : DistinctCorrelations config factors) :
    (magnitudes config factors).Nodup := by
  have hrows : ((factors.mapIdx (prepareFactor config)).filter (·.passed)).map
      (fun row => Double.abs row.correlation) =
        (((factors.mapIdx (prepareFactor config)).filter (·.passed)).map magnitude).map fin := by
    rw [List.map_map]
    exact List.map_congr_left fun row hrow =>
      abs_correlation_of_mem (List.mem_filter.mp hrow).1
  rw [DistinctCorrelations, hrows] at h
  exact ((perm_sorted _).map magnitude).nodup_iff.mpr (h.of_map fin)

omit [IsStrictOrderedRing K] in
/-- Sorting keeps the factors. -/
theorem sorted_perm (h : factors'.Perm factors) :
    (sorted (factors'.map (prepareFactor config 0))).Perm
      (sorted (factors.map (prepareFactor config 0))) :=
  (perm_sorted _).trans (((h.map _).filter _).trans (perm_sorted _).symm)

/-- **Where no factors are tied**, their order does not matter for the ranking. -/
theorem sorted_eq (h : factors'.Perm factors) (hdistinct : DistinctCorrelations config factors) :
    sorted (factors'.map (prepareFactor config 0)) =
      sorted (factors.map (prepareFactor config 0)) := by
  have hpairwise : ∀ fs : List (FactorInput (Extended K)),
      (sorted (fs.map (prepareFactor config 0))).Pairwise
        fun a b => magnitude a ≥ magnitude b := by
    intro fs
    rw [← List.pairwise_map, map_magnitude_sorted]
    exact pairwise_magnitudes
  have hnodup := nodup_magnitudes hdistinct
  rw [← map_magnitude_sorted] at hnodup
  refine List.Perm.eq_of_pairwise (fun a b ha hb hab hba => ?_) (hpairwise factors')
    (hpairwise factors) (sorted_perm h)
  exact List.inj_on_of_nodup_map hnodup ((sorted_perm h).mem_iff.mp ha) hb (le_antisymm hba hab)

/-- **The rankings of two permutations** hold the same rows, but for their indices: the weights do
not depend on the ranks, or the ranking is the same. -/
theorem perm_rankedFactors (h : factors'.Perm factors)
    (hmode : config.weightMode = .rankedCorrelation → DistinctCorrelations config factors) :
    ((rankedFactors config factors').map (·.atIndex 0)).Perm
      ((rankedFactors config factors).map (·.atIndex 0)) := by
  rw [rankedFactors_atIndex, rankedFactors_atIndex]
  by_cases hranked : config.weightMode = .rankedCorrelation
  · rw [rank, rank, ← sorted, ← sorted, sorted_eq h (hmode hranked)]
  · rw [rank_of_mode hranked, rank_of_mode hranked]
    exact (sorted_perm h).map _

/-! ### The signal of permuted factors -/

omit [IsStrictOrderedRing K] in
/-- A sum does not depend on the order. -/
theorem sum_perm {xs ys : List (Extended K)} (h : xs.Perm ys) :
    Double.sum xs = Double.sum ys := by
  rw [sum_eq, sum_eq, h.sum_eq]

variable {ranked ranked' : List (PreparedFactor (Extended K))}

omit [IsStrictOrderedRing K] in
/-- The total weight does not depend on the order. -/
theorem totalWeight_perm (h : (ranked'.map (·.atIndex 0)).Perm (ranked.map (·.atIndex 0))) :
    totalWeight ranked' = totalWeight ranked := by
  rw [← totalWeight_map (f := (·.atIndex 0)) (fun _ => rfl) ranked',
    ← totalWeight_map (f := (·.atIndex 0)) (fun _ => rfl) ranked]
  exact sum_perm (h.map _)

omit [IsStrictOrderedRing K] in
/-- Nor does the denominator. -/
theorem normalizedDenominator_perm
    (h : (ranked'.map (·.atIndex 0)).Perm (ranked.map (·.atIndex 0))) :
    normalizedDenominator ranked' = normalizedDenominator ranked := by
  rw [normalizedDenominator, normalizedDenominator, totalWeight_perm h]

omit [IsStrictOrderedRing K] in
/-- Nor does the weighted sum. -/
theorem weightedSignal_perm (h : (ranked'.map (·.atIndex 0)).Perm (ranked.map (·.atIndex 0))) :
    weightedSignal ranked' = weightedSignal ranked := by
  have hrows := sum_perm (h.map fun row =>
    row.rawWeight / normalizedDenominator ranked * row.contribution)
  rw [List.map_map, List.map_map] at hrows
  rw [weightedSignal, normalizedDenominator_perm h]
  exact hrows

/-- **A signal does not depend on the order of the factors.** -/
theorem signal_perm (show4 : Extended K → String) (h : factors'.Perm factors)
    (hmode : config.weightMode = .rankedCorrelation → DistinctCorrelations config factors) :
    (buildZscoreSignal show4 factors' config).signal =
        (buildZscoreSignal show4 factors config).signal ∧
      (buildZscoreSignal show4 factors' config).suppressed =
        (buildZscoreSignal show4 factors config).suppressed := by
  have hranked := perm_rankedFactors h hmode
  have hframe := frame_eq show4 h.length_eq (by simpa using hranked.length_eq)
    (totalWeight_perm hranked)
  have hsuppressed := congrArg Prod.fst hframe
  dsimp only at hsuppressed
  refine ⟨?_, hsuppressed⟩
  rw [signal_eq, hsuppressed, weightedSignal_perm hranked, signal_eq]

omit [IsStrictOrderedRing K] in
/-- The ranking is of the factors. -/
theorem factor_mem {row : PreparedFactor (Extended K)} (h : row ∈ rankedFactors config factors) :
    row.factor ∈ factors := by
  obtain ⟨place, hplace⟩ := List.mem_iff_getElem?.mp h
  rw [rankedFactors, getElem?_rank, Option.map_eq_some_iff] at hplace
  obtain ⟨prepared, hprepared, rfl⟩ := hplace
  obtain ⟨i, hi, rfl⟩ := List.mem_mapIdx.mp (mem_sorted.mp (List.mem_of_getElem? hprepared)).1
  show (prepareFactor config i factors[i]).factor ∈ factors
  rw [(prepareFactor_spec config i _).factor]
  exact List.getElem_mem hi

/-- The factors share their returns and their window. -/
def SharedReturns (factors : List (FactorInput (Extended K))) : Prop :=
  ∀ f ∈ factors, ∀ g ∈ factors,
    f.returnSeries = g.returnSeries ∧ f.rollingWindow = g.rollingWindow

/-- Shared returns are those of every first rank. -/
theorem referenceReturns_perm (h : factors'.Perm factors)
    (hmode : config.weightMode = .rankedCorrelation → DistinctCorrelations config factors)
    (hshared : SharedReturns factors) :
    referenceReturns config (rankedFactors config factors') =
      referenceReturns config (rankedFactors config factors) := by
  have hlength :
      (rankedFactors config factors').length = (rankedFactors config factors).length := by
    simpa using (perm_rankedFactors h hmode).length_eq
  have hmem : ∀ row ∈ rankedFactors config factors, row.factor ∈ factors := fun _ => factor_mem
  have hmem' : ∀ row ∈ rankedFactors config factors', row.factor ∈ factors :=
    fun _ hrow => h.mem_iff.mp (factor_mem hrow)
  generalize rankedFactors config factors = ranked at *
  generalize rankedFactors config factors' = ranked' at *
  cases ranked with
  | nil => rw [List.length_eq_zero_iff.mp hlength]
  | cons row rows =>
      cases ranked' with
      | nil => simp at hlength
      | cons row' rows' =>
          obtain ⟨hreturns, hwindow⟩ := hshared _ (hmem' row' List.mem_cons_self) _
            (hmem row List.mem_cons_self)
          simp only [referenceReturns, List.head?_cons, hreturns, hwindow]

/-- **What is predicted does not depend on the order of factors** that share their returns. -/
theorem predictedReturn_perm (show4 : Extended K → String) (h : factors'.Perm factors)
    (hmode : config.weightMode = .rankedCorrelation → DistinctCorrelations config factors)
    (hshared : SharedReturns factors) :
    (buildZscoreSignal show4 factors' config).predictedReturn =
      (buildZscoreSignal show4 factors config).predictedReturn := by
  by_cases hnil : factors = []
  · subst hnil
    rw [h.eq_nil]
  have hnil' : factors' ≠ [] := fun heq => hnil (by rw [heq] at h; exact h.symm.eq_nil)
  have hreturns := referenceReturns_perm h hmode hshared
  rw [predictedReturn_eq hnil', predictedReturn_eq hnil, meanReturn_eq hnil', meanReturn_eq hnil,
    stdReturn_eq hnil', stdReturn_eq hnil, hreturns, (signal_perm show4 h hmode).1]

/-! ### The contributions of permuted factors -/

/-- The contributions that passed with the absolute correlation of `c`. -/
def tied (contributions : List (FactorContribution (Extended K)))
    (c : FactorContribution (Extended K)) : ℕ :=
  contributions.countP fun d =>
    d.passed && decide (Double.abs d.correlation = Double.abs c.correlation)

/-- Two contributions that agree but for the rank of one that is tied. -/
structure AgreeUpToTies (contributions : List (FactorContribution (Extended K)))
    (c c' : FactorContribution (Extended K)) : Prop where
  eq : { c' with rank := c.rank } = c
  rank : (c.passed = true → tied contributions c ≤ 1) → c'.rank = c.rank

variable {i j : ℕ} {factor : FactorInput (Extended K)} {show4 : Extended K → String}

omit [IsStrictOrderedRing K] in
/-- The contribution of a factor. -/
theorem getElem?_contributions (h : factors[i]? = some factor) :
    (buildZscoreSignal show4 factors config).contributions[i]? =
      some (contributionOf (rankedFactors config factors)
        (normalizedDenominator (rankedFactors config factors))
        (prepareFactor config i factor)) := by
  rw [contributions_eq, List.getElem?_map, List.getElem?_mapIdx, h, Option.map_some,
    Option.map_some]

omit [IsStrictOrderedRing K] in
/-- A factor is among the prepared ones. -/
theorem mem_prepared (config : SignalBuildConfig (Extended K)) (h : factors[i]? = some factor) :
    prepareFactor config i factor ∈ factors.mapIdx (prepareFactor config) := by
  refine List.mem_of_getElem? (i := i) ?_
  rw [List.getElem?_mapIdx, h, Option.map_some]

omit [IsStrictOrderedRing K] in
/-- A contribution has the correlation of its row. -/
theorem contribution_row {row : PreparedFactor (Extended K)} (denominator : Extended K)
    (h : row ∈ factors.mapIdx (prepareFactor config)) :
    (contributionOf (rankedFactors config factors) denominator row).passed = row.passed ∧
      (contributionOf (rankedFactors config factors) denominator row).correlation =
        row.correlation :=
  ⟨passed_contributionOf (nodup_prepared factors) h,
    congrArg (·.2.1) (contributionOf_row (nodup_prepared factors) h)⟩

/-- **Ties are those of the ranking.** -/
theorem tied_eq (show4 : Extended K → String) (config : SignalBuildConfig (Extended K))
    (h : factors[i]? = some factor) :
    tied (buildZscoreSignal show4 factors config).contributions
        (contributionOf (rankedFactors config factors)
          (normalizedDenominator (rankedFactors config factors)) (prepareFactor config i factor)) =
      (magnitudes config factors).count (magnitude (prepareFactor config i factor)) := by
  have hcorr := (contribution_row (normalizedDenominator (rankedFactors config factors))
    (mem_prepared config h)).2
  rw [tied, contributions_eq, List.countP_map, hcorr, abs_correlation_eq]
  generalize magnitude (prepareFactor config i factor) = m
  have hrows : (factors.mapIdx (prepareFactor config)).countP
      ((fun d => d.passed && decide (Double.abs d.correlation = fin m)) ∘
        contributionOf (rankedFactors config factors)
          (normalizedDenominator (rankedFactors config factors))) =
      (factors.mapIdx (prepareFactor config)).countP
        fun row => decide (magnitude row = m) && row.passed := by
    refine List.countP_congr fun row hrow => ?_
    obtain ⟨hpassed, hcorr⟩ :=
      contribution_row (normalizedDenominator (rankedFactors config factors)) hrow
    simp [hpassed, hcorr, abs_correlation_of_mem hrow, and_comm]
  have hfilter : (factors.mapIdx (prepareFactor config)).countP
      (fun row => decide (magnitude row = m) && row.passed) =
        (sorted (factors.mapIdx (prepareFactor config))).countP fun row => magnitude row = m := by
    rw [← List.countP_filter]
    exact ((perm_sorted _).countP_eq _).symm
  rw [hrows, hfilter, magnitudes, List.count, List.countP_map]
  exact List.countP_congr fun row _ => by simp

/-- **The rank of a factor that is not tied** is the number of larger correlations. -/
theorem place_eq {place : ℕ} {row : PreparedFactor (Extended K)}
    (hplace : (sorted (factors.mapIdx (prepareFactor config)))[place]? = some row)
    (hone : (magnitudes config factors).count (magnitude row) ≤ 1) :
    (magnitudes config factors).countP (magnitude row < ·) = place := by
  refine countP_of_pairwise pairwise_magnitudes ?_ hone
  rw [magnitudes, List.getElem?_map, hplace, Option.map_some]

/-- **The contribution of a factor** does not depend on the order of the factors, but for the rank
of one that is tied. -/
theorem contributions_perm (h : factors'.Perm factors)
    (hmode : config.weightMode = .rankedCorrelation → DistinctCorrelations config factors)
    (hi : factors[i]? = some factor) (hj : factors'[j]? = some factor) :
    ∃ c c', (buildZscoreSignal show4 factors config).contributions[i]? = some c ∧
      (buildZscoreSignal show4 factors' config).contributions[j]? = some c' ∧
      AgreeUpToTies (buildZscoreSignal show4 factors config).contributions c c' := by
  refine ⟨_, _, getElem?_contributions hi, getElem?_contributions hj, ?_⟩
  have hindex : prepareFactor config j factor = (prepareFactor config i factor).atIndex j :=
    (prepareFactor_atIndex i j factor).symm
  have hdenominator := normalizedDenominator_perm (perm_rankedFactors h hmode)
  cases hpassed : (prepareFactor config i factor).passed with
  | false =>
      have hpassed' : (prepareFactor config j factor).passed = false := by
        rw [hindex]
        exact hpassed
      rw [rankedFactors, rankedFactors,
        contributionOf_of_not_passed (nodup_prepared factors) (mem_prepared config hi) hpassed,
        contributionOf_of_not_passed (nodup_prepared factors') (mem_prepared config hj) hpassed',
        hindex]
      exact ⟨rfl, fun _ => rfl⟩
  | true =>
      have hpassed' : (prepareFactor config j factor).passed = true := by
        rw [hindex]
        exact hpassed
      obtain ⟨place, hplace⟩ :=
        List.mem_iff_getElem?.mp (mem_sorted.mpr ⟨mem_prepared config hi, hpassed⟩)
      obtain ⟨place', hplace'⟩ :=
        List.mem_iff_getElem?.mp (mem_sorted.mpr ⟨mem_prepared config hj, hpassed'⟩)
      have hmagnitude : magnitude (prepareFactor config j factor) =
          magnitude (prepareFactor config i factor) := by
        rw [hindex]
        rfl
      have hsame : (magnitudes config factors).count
          (magnitude (prepareFactor config i factor)) ≤ 1 → place' = place := by
        intro hone
        have hplaces := place_eq hplace' (by rwa [hmagnitude, (magnitudes_perm h).count_eq])
        rwa [hmagnitude, (magnitudes_perm h).countP_eq, place_eq hplace hone, eq_comm] at hplaces
      have hweigh : weigh config place' (prepareFactor config i factor) =
          weigh config place (prepareFactor config i factor) := by
        by_cases hranked : config.weightMode = .rankedCorrelation
        · rw [hsame (List.nodup_iff_count_le_one.mp (nodup_magnitudes (hmode hranked)) _)]
        · rw [weigh_place hranked, weigh_place hranked place]
      have hties := tied_eq show4 config hi
      have hc : contributionOf (rankedFactors config factors)
          (normalizedDenominator (rankedFactors config factors)) (prepareFactor config i factor) =
            rankedContribution (normalizedDenominator (rankedFactors config factors)) place
              (weigh config place (prepareFactor config i factor)) :=
        contributionOf_of_sorted (nodup_prepared factors) hplace
      have hc' : contributionOf (rankedFactors config factors')
          (normalizedDenominator (rankedFactors config factors')) (prepareFactor config j factor) =
            rankedContribution (normalizedDenominator (rankedFactors config factors)) place'
              ((weigh config place (prepareFactor config i factor)).atIndex j) := by
        rw [hdenominator, ← hweigh, ← (transparent_atIndex config j).weighed, ← hindex]
        exact contributionOf_of_sorted (nodup_prepared factors') hplace'
      have hties := tied_eq show4 config hi
      rw [hc] at hties
      rw [hc, hc']
      refine ⟨rfl, fun hone => ?_⟩
      rw [hties] at hone
      exact congrArg (fun place => some (place + 1)) (hsame (hone rfl))

/-- **The order of the factors does not matter** for the signal and for whether it is suppressed,
in a mode that does not weigh ranks or where no factors are tied; nor for the contributions, but for
the ranks of ties, nor for what is predicted from shared returns. -/
theorem order_independent (show4 : Extended K → String)
    (factors factors' : List (FactorInput (Extended K))) (config : SignalBuildConfig (Extended K))
    (h : factors'.Perm factors)
    (hmode : config.weightMode = .rankedCorrelation → DistinctCorrelations config factors) :
    let result := buildZscoreSignal show4 factors config
    let result' := buildZscoreSignal show4 factors' config
    result'.signal = result.signal ∧ result'.suppressed = result.suppressed ∧
      (SharedReturns factors → result'.predictedReturn = result.predictedReturn) ∧
      ∀ (i j : ℕ) factor, factors[i]? = some factor → factors'[j]? = some factor →
        ∃ c c', result.contributions[i]? = some c ∧ result'.contributions[j]? = some c' ∧
          AgreeUpToTies result.contributions c c' :=
  ⟨(signal_perm show4 h hmode).1, (signal_perm show4 h hmode).2,
    predictedReturn_perm show4 h hmode, fun _ _ _ hi hj => contributions_perm h hmode hi hj⟩

end Order

/-- Two factors that pass with different correlations, in both orders, in a mode that weighs
ranks. -/
theorem order_independent_two :
    let rising := { steadyFactor with series := [fin 1, fin 2] }
    let config := { openConfig with weightMode := .rankedCorrelation }
    let result := buildZscoreSignal (fun _ => "") [rising, steadyFactor] config
    let result' := buildZscoreSignal (fun _ => "") [steadyFactor, rising] config
    [rising, steadyFactor].map (fun factor => (prepareFactor config 0 factor).passed) =
        [true, true] ∧
      result'.signal = result.signal ∧ result'.suppressed = result.suppressed ∧
      result'.predictedReturn = result.predictedReturn := by
  have h := order_independent (fun _ => "") [{ steadyFactor with series := [fin 1, fin 2] },
    steadyFactor] [steadyFactor, { steadyFactor with series := [fin 1, fin 2] }]
    { openConfig with weightMode := .rankedCorrelation } (List.Perm.swap _ _ _)
    (fun _ => by unfold DistinctCorrelations; decide +kernel)
  exact ⟨by decide +kernel, h.1, h.2.1, h.2.2.1 (by unfold SharedReturns; decide +kernel)⟩

end HftPlatform.ZscoreModel
