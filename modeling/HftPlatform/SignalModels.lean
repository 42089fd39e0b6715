import HftPlatform.SignalFactors
import HftPlatform.SignalResult

/-!
# The two signal models

The signal of the dashboard is that of the signal engine: the rankings, the weights, the returns
and the joined contributions agree, where the weights that are no numbers have been replaced. The
dashboard decides with the weights that it had before whether it reports that they are all zero.

## Main results

* `map_toEngine_rank`: both rank and weigh alike.
* `buildZScoreSignal_eq`: in exact arithmetic both return the same result, up to that report.
-/

namespace HftPlatform.Dashboard

open Lib Extended

/-! ### Rows -/

section Rows

variable {F : Type} [Double F]

/-- The row that the engine has for a row of the dashboard. -/
def PreparedFactor.toEngine (row : PreparedFactor F) : ZscoreModel.PreparedFactor F :=
  { row with factor := row.factor.toEngine }

/-- A row of the engine and back. -/
theorem toEngine_ofEngine {factor : FactorInput F} {row : ZscoreModel.PreparedFactor F}
    (h : row.factor = factor.toEngine) : (ofEngine factor row).toEngine = row := by
  rw [PreparedFactor.toEngine, ofEngine, ← h]

/-- The rank decay of the spread configuration is that of the engine. -/
theorem getD_rankDecay (config : SignalBuildConfig F) :
    (spreadConfig config).rankDecay.getD defaultConfig.rankDecay = config.toEngine.rankDecay :=
  getD_orElse_some _ _

/-- The weight mode of the spread configuration is that of the engine. -/
theorem getD_weightMode (config : SignalBuildConfig F) :
    (spreadConfig config).weightMode.getD (defaultConfig (F := F)).weightMode =
      config.toEngine.weightMode :=
  getD_orElse_some _ _

/-- Both have the same raw weights. -/
theorem map_rawWeight (ranked : List (PreparedFactor F)) :
    (ranked.map PreparedFactor.toEngine).map (·.rawWeight) = ranked.map (·.rawWeight) := by
  rw [List.map_map]
  rfl

/-- Steps that all succeed. -/
theorem mapM_eq_ok {ε α β : Type} {f : α → Except ε β} {g : α → β} {xs : List α}
    (h : ∀ x ∈ xs, f x = .ok (g x)) : xs.mapM f = .ok (xs.map g) := by
  induction xs with
  | nil => rfl
  | cons x xs ih =>
      have hrest := ih fun y hy => h y (List.mem_cons_of_mem x hy)
      rw [List.mapM_cons, h x List.mem_cons_self, hrest]
      rfl

end Rows

section Ranking

variable {K : Type} [Field K] [LinearOrder K] [SquareRoot K] [IsStrictOrderedRing K]

/-- The correlation of a row is a number. -/
def HasCorrelation (row : PreparedFactor (Extended K)) : Prop := ∃ c : K, row.correlation = fin c

variable {a b row : PreparedFactor (Extended K)} {prepared : List (PreparedFactor (Extended K))}

/-- The comparators agree. -/
theorem ranksBefore_eq (ha : HasCorrelation a) (hb : HasCorrelation b) :
    ranksBefore a b = ZscoreModel.ranksBefore a.toEngine b.toEngine := by
  obtain ⟨x, hx⟩ := ha
  obtain ⟨y, hy⟩ := hb
  simp only [ranksBefore, ZscoreModel.ranksBefore, PreparedFactor.toEngine, hx, hy, abs_fin,
    sub_fin, lit_fin, Rat.cast_zero, lt_fin, sub_pos]

/-- **The rankings agree**: both sorts are stable. -/
theorem map_toEngine_sorted (h : ∀ row ∈ prepared, HasCorrelation row) :
    ((prepared.filter (·.passed)).mergeSort ranksBefore).map PreparedFactor.toEngine =
      ZscoreModel.sorted (prepared.map PreparedFactor.toEngine) := by
  rw [ZscoreModel.sorted, List.filter_map]
  refine List.map_mergeSort fun a ha b hb => ?_
  exact ranksBefore_eq (h a (List.mem_filter.mp ha).1) (h b (List.mem_filter.mp hb).1)

omit [IsStrictOrderedRing K] in
/-- The rank decay is a number. -/
theorem exists_rankDecay (config : SignalBuildConfig K) :
    ∃ decay : K, config.ofNumbers.toEngine.rankDecay = fin decay := by
  rw [SignalBuildConfig.ofNumbers, SignalBuildConfig.toEngine]
  cases config.rankDecay with
  | none => exact ⟨_, rfl⟩
  | some decay => exact ⟨decay, rfl⟩

omit [IsStrictOrderedRing K] in
/-- A power of a number is a number. -/
theorem exists_pow (a : K) (n : ℕ) : ∃ x : K, Double.pow (fin a) n = fin x := by
  cases n with
  | zero => exact ⟨1, rfl⟩
  | succ n => exact ⟨a ^ (n + 1), rfl⟩

omit [IsStrictOrderedRing K] in
/-- `Math.max` lets a NaN through. -/
theorem mathMax_nan (a : K) : mathMax (fin a) nan = (nan : Extended K) := by
  simp [mathMax, Double.le, le]

omit [IsStrictOrderedRing K] in
/-- `f64::max` does not. -/
theorem max_nan (a : K) : Double.max nan (fin a) = (fin a : Extended K) := rfl

omit [IsStrictOrderedRing K] in
/-- Both take an infinity alike. -/
theorem mathMax_inf (a : K) (s : Bool) :
    mathMax (fin a) (inf s) = Double.max (inf s) (fin a : Extended K) := by
  cases s <;> simp [mathMax, Double.le, le] <;> rfl

omit [IsStrictOrderedRing K] in
/-- **The weights agree** when those that are no numbers have been replaced. The two maxima differ
for a NaN, which counts as nothing either way. -/
theorem toEngine_weigh (config : SignalBuildConfig K) (h : HasCorrelation row) (index : ℕ) :
    (sanitizeWeight (weigh (spreadConfig config.ofNumbers) index row)).toEngine =
      ZscoreModel.weigh config.ofNumbers.toEngine index row.toEngine := by
  obtain ⟨c, hc⟩ := h
  obtain ⟨decay, hdecay⟩ := exists_rankDecay config
  obtain ⟨power, hpower⟩ := exists_pow decay index
  have hzero : (Double.lit 0 : Extended K) = fin 0 := congrArg fin Rat.cast_zero
  have hfinite : Double.isFinite (Double.lit 1 : Extended K) = true := isFinite_fin _
  have hcorrelation : row.toEngine.correlation = fin c := hc
  have hweight : row.toEngine.factor.weight = row.factor.weight.getD (Double.lit 1) := rfl
  cases hmode : config.ofNumbers.toEngine.weightMode <;>
    cases hw : row.factor.weight.getD (Double.lit 1) <;>
    simp only [sanitizeWeight, weigh, ZscoreModel.weigh, getD_rankDecay, getD_weightMode, hmode,
      hdecay, hpower, hw, hc, hweight, hcorrelation, hzero, mathMax_fin, mathMax_nan, max_nan,
      mathMax_inf, nan_mul, isFinite_nan, max_fin, max_comm, abs_fin, mul_fin, zero_mul,
      isFinite_fin, hfinite, Bool.false_eq_true, if_true, if_false] <;>
    rfl

omit [IsStrictOrderedRing K] in
/-- What holds of the prepared rows holds of those that are ranked. -/
theorem mem_sorted_of {p : PreparedFactor (Extended K) → Prop} (h : ∀ row ∈ prepared, p row)
    {place : ℕ} (hplace : ((prepared.filter (·.passed)).mergeSort ranksBefore)[place]? = some row) :
    p row :=
  h row (List.mem_filter.mp (List.mem_mergeSort.mp (List.mem_of_getElem? hplace))).1

/-- **Both rank and weigh alike** when the weights that are no numbers have been replaced. -/
theorem map_toEngine_rank (config : SignalBuildConfig K)
    (h : ∀ row ∈ prepared, HasCorrelation row) :
    ((rank (spreadConfig config.ofNumbers) prepared).map sanitizeWeight).map
        PreparedFactor.toEngine =
      ZscoreModel.rank config.ofNumbers.toEngine (prepared.map PreparedFactor.toEngine) := by
  rw [ZscoreModel.rank, ← ZscoreModel.sorted, ← map_toEngine_sorted h, rank, List.map_map]
  refine List.ext_getElem? fun place => ?_
  rw [List.getElem?_map, List.getElem?_mapIdx, List.getElem?_mapIdx, List.getElem?_map]
  cases hplace : ((prepared.filter (·.passed)).mergeSort ranksBefore)[place]? with
  | none => rfl
  | some row => exact congrArg some (toEngine_weigh config (mem_sorted_of h hplace) place)

end Ranking

/-! ### Contributions -/

section Contributions

variable {F : Type} [Double F] {ranked : List (PreparedFactor F)} {row : PreparedFactor F}
  {denominator : F}

/-- **The joined contributions agree**, where the index of a factor tells its name. -/
theorem contributionOf_eq
    (hname : ∀ r ∈ ranked, r.factorIndex = row.factorIndex → r.factor.name = row.factor.name) :
    contributionOf ranked denominator row =
      ZscoreModel.contributionOf (ranked.map PreparedFactor.toEngine) denominator row.toEngine := by
  have hranks : ((ranked.map PreparedFactor.toEngine).zipIdx.map fun p =>
      (p.1.factorIndex, p.2 + 1)) = ranked.zipIdx.map fun p => (p.1.factorIndex, p.2 + 1) := by
    rw [List.zipIdx_map, List.map_map]
    rfl
  have hrows : lookup Prod.fst row.factorIndex
      ((ranked.map PreparedFactor.toEngine).map fun r => (r.factorIndex, r)).reverse =
        (lookup Prod.fst row.factorIndex (ranked.map fun r => (r.factorIndex, r)).reverse).map
          fun p => (p.1, p.2.toEngine) := by
    have hmap : ((ranked.map PreparedFactor.toEngine).map fun r => (r.factorIndex, r)).reverse =
        (ranked.map fun r => (r.factorIndex, r)).reverse.map fun p => (p.1, p.2.toEngine) := by
      rw [List.map_reverse, List.map_map, List.map_map]
      rfl
    rw [hmap]
    exact lookup_map (fun _ => rfl) _
  have hindex : row.toEngine.factorIndex = row.factorIndex := rfl
  simp only [contributionOf, ZscoreModel.contributionOf, hindex, hrows, hranks, Option.map_map]
  cases hrow : lookup Prod.fst row.factorIndex
      (ranked.map fun r => (r.factorIndex, r)).reverse with
  | none => rfl
  | some p =>
      obtain ⟨r, hr, rfl⟩ := List.mem_map.mp (List.mem_reverse.mp (mem_of_lookup hrow))
      have hkey := key_of_lookup hrow
      have hsame : r.factorIndex = row.factorIndex := hkey
      have hengine : r.toEngine.factorIndex = r.factorIndex := rfl
      simp only [Option.map_some, Function.comp_apply, hengine, ← hsame, ← hname r hr hsame]
      rfl

end Contributions

/-! ### Returns -/

section Returns

variable {K : Type} [Field K] [LinearOrder K] [SquareRoot K]

/-- A window that is taken without a lower bound. -/
theorem toNat_max_window (own given : Option ℤ) (minHistory default : ℤ) :
    (max minHistory ((own <|> given <|> some default).getD default)).toNat =
      max minHistory.toNat ((own.map Int.toNat).getD (given.getD default).toNat) := by
  cases own with
  | none =>
      show (max minHistory ((given <|> some default).getD default)).toNat = _
      rw [getD_orElse_some]
      show _ = max minHistory.toNat (given.getD default).toNat
      omega
  | some w =>
      show (max minHistory w).toNat = max minHistory.toNat w.toNat
      omega

/-- **Both take the returns of the first rank**, and these are numbers. -/
theorem referenceReturns_eq (config : SignalBuildConfig K)
    (ranked : List (PreparedFactor (Extended K))) : ∃ xs : List K,
      referenceReturns (spreadConfig config.ofNumbers) ranked = xs.map fin ∧
      ZscoreModel.referenceReturns config.ofNumbers.toEngine
        (ranked.map PreparedFactor.toEngine) = xs.map fin := by
  rw [referenceReturns, ZscoreModel.referenceReturns, List.head?_map]
  cases ranked.head? with
  | none => exact ⟨[], rfl, rfl⟩
  | some row =>
      obtain ⟨xs, hxs⟩ : ∃ xs : List K,
          ZscoreModel.sanitizeSeries row.factor.returnSeries = xs.map fin :=
        ⟨_, ZscoreModel.sanitizeSeries_eq _⟩
      have hxs' : sanitizeSeries row.factor.returnSeries = xs.map fin := hxs
      have hreturns : row.toEngine.factor.returnSeries = row.factor.returnSeries := rfl
      have hwindow : row.toEngine.factor.rollingWindow =
          row.factor.rollingWindow.map Int.toNat := rfl
      simp only [Option.map_some, hxs, hxs', hreturns, hwindow, tail_eq, spreadConfig,
        getD_orElse_some, toNat_max_window, tail_map_fin]
      exact ⟨_, rfl, rfl⟩

variable [IsStrictOrderedRing K]

/-- **The means of the returns agree.** -/
theorem meanReturn_eq (config : SignalBuildConfig K) (xs : List K) :
    meanReturn (spreadConfig config.ofNumbers) (xs.map fin) =
      .ok ((config.ofNumbers.toEngine.meanReturn <|>
        ZscoreModel.calculateMean (xs.map fin)).getD (Double.lit 0)) := by
  have hgiven : config.ofNumbers.toEngine.meanReturn = config.meanReturn.map fin := rfl
  have hspread : (spreadConfig config.ofNumbers).meanReturn = config.meanReturn.map fin := rfl
  rw [meanReturn, hspread, hgiven, finiteNumber_map_fin]
  cases config.meanReturn with
  | some mean => rfl
  | none =>
      show (if 0 < (xs.map fin : List (Extended K)).length then calculateMean (xs.map fin)
        else .ok (Double.lit 0)) =
          .ok ((ZscoreModel.calculateMean (xs.map fin)).getD (Double.lit 0))
      rw [ZscoreModel.calculateMean_eq, ZscoreModel.numbers_map_fin]
      by_cases h : xs = []
      · rw [h]
        rfl
      · have hlen : 0 < (xs.map fin : List (Extended K)).length := by
          simpa using List.length_pos_iff.mpr h
        rw [if_pos hlen, if_neg h, calculateMean_fin h]
        rfl

/-- **The standard deviations of the returns agree.** -/
theorem stdReturn_eq (config : SignalBuildConfig K) (xs : List K) :
    stdReturn (spreadConfig config.ofNumbers) (xs.map fin) =
      .ok (Double.max ((config.ofNumbers.toEngine.stdReturn <|>
        ZscoreModel.calculateStd (xs.map fin)).getD (Double.lit 0)) (Double.lit 0)) := by
  have hgiven : config.ofNumbers.toEngine.stdReturn = config.stdReturn.map fin := rfl
  have hspread : (spreadConfig config.ofNumbers).stdReturn = config.stdReturn.map fin := rfl
  have hzero : (Double.lit 0 : Extended K) = fin 0 := congrArg fin Rat.cast_zero
  rw [stdReturn, hspread, hgiven, finiteNumber_map_fin, hzero]
  cases config.stdReturn with
  | some std =>
      show Except.ok (mathMax (fin 0) (fin std)) = .ok (Double.max (fin std) (fin 0) : Extended K)
      rw [mathMax_fin, max_fin, max_comm]
  | none =>
      show (if 1 < (xs.map fin : List (Extended K)).length then calculateStd (xs.map fin)
        else .ok (fin 0)) =
          .ok (Double.max ((ZscoreModel.calculateStd (xs.map fin)).getD (fin 0)) (fin 0))
      rw [ZscoreModel.calculateStd_eq, ZscoreModel.numbers_map_fin]
      match xs with
      | [] => simp
      | [x] => simp [deviation_singleton]
      | x :: y :: zs =>
          have hne : x :: y :: zs ≠ [] := List.cons_ne_nil _ _
          rw [if_pos (by simp), if_neg hne, calculateStd_fin hne]
          show _ = Except.ok (Double.max (fin (deviation (x :: y :: zs))) (fin 0) : Extended K)
          rw [max_fin, max_eq_left (deviation_nonneg _)]

end Returns

/-! ### Reasons -/

section Reasons

variable {F : Type} [Double F]

/-- A text with a part that is not empty is not empty. -/
theorem append_ne_empty {s : String} (h : s ≠ "") (t : String) : s ++ t ≠ "" := by
  intro heq
  exact h (String.append_eq_empty_iff.mp heq).1

/-- The reason of a gate is not an empty text. -/
theorem regime_reason_ne (filter : Option ZscoreModel.RegimeFilterConfig) :
    ∀ reason ∈ (ZscoreModel.evaluateRegimeFilter filter).reason, reason ≠ "" := by
  unfold ZscoreModel.evaluateRegimeFilter
  intro reason hreason
  repeat' split at hreason
  all_goals cases hreason <;> first | decide | exact append_ne_empty (by decide) _

/-- The reason of a gate is not an empty text. -/
theorem volatility_reason_ne (format : F → String)
    (filter : Option (ZscoreModel.VolatilityFilterConfig F)) :
    ∀ reason ∈ (ZscoreModel.evaluateVolatilityFilter format filter).reason, reason ≠ "" := by
  simp only [ZscoreModel.evaluateVolatilityFilter]
  intro reason hreason
  repeat' split at hreason
  all_goals cases hreason <;> first | decide | exact append_ne_empty (by decide) _

/-- A reason that is not an empty text is pushed. -/
theorem pushed_reason {passed : Bool} {reason : Option String} (h : ∀ r ∈ reason, r ≠ "") :
    (if !passed then (reason.filter (· ≠ "")).toList else []) =
      if passed then [] else reason.toList := by
  cases passed with
  | true => rfl
  | false =>
      cases reason with
      | none => rfl
      | some r => simp [Option.filter, h r rfl]

end Reasons

/-! ### The result -/

section Result

variable {K : Type} [Field K] [LinearOrder K] [SquareRoot K] [IsStrictOrderedRing K]

/-- The rows that the dashboard prepares. -/
def preparedRows (config : SignalBuildConfig K) (factors : List (FactorInput (Extended K))) :
    List (PreparedFactor (Extended K)) :=
  factors.mapIdx fun i factor => ofEngine factor
    (ZscoreModel.prepareFactor config.ofNumbers.toEngine i factor.toEngine)

/-- The rows that it ranks, with their weights as they are before any is replaced. -/
def weighedRows (config : SignalBuildConfig K) (factors : List (FactorInput (Extended K))) :
    List (PreparedFactor (Extended K)) :=
  rank (spreadConfig config.ofNumbers) (preparedRows config factors)

variable {factors : List (FactorInput (Extended K))}

/-- **The dashboard prepares all rows** without an error. -/
theorem mapM_prepareFactor (config : SignalBuildConfig K)
    (hfinite : ∀ factor ∈ factors, factor.Finite) :
    factors.zipIdx.mapM (fun p => prepareFactor (spreadConfig config.ofNumbers) p.2 p.1) =
      .ok (preparedRows config factors) := by
  have hrow : ∀ p ∈ factors.zipIdx, prepareFactor (spreadConfig config.ofNumbers) p.2 p.1 = _ :=
    fun p hp => prepareFactor_eq config p.2 (hfinite p.1 (List.fst_mem_of_mem_zipIdx hp))
  rw [mapM_eq_ok hrow, preparedRows, List.mapIdx_eq_zipIdx_map]

omit [IsStrictOrderedRing K] in
/-- The rows are those of the engine. -/
theorem map_toEngine_preparedRows (config : SignalBuildConfig K)
    (factors : List (FactorInput (Extended K))) :
    (preparedRows config factors).map PreparedFactor.toEngine =
      (factors.map FactorInput.toEngine).mapIdx
        (ZscoreModel.prepareFactor config.ofNumbers.toEngine) := by
  refine List.ext_getElem (by simp [preparedRows]) fun i _ _ => ?_
  simp only [preparedRows, List.getElem_map, List.getElem_mapIdx]
  exact toEngine_ofEngine (ZscoreModel.prepareFactor_spec _ i _).factor

/-- The rows have a correlation. -/
theorem hasCorrelation_preparedRows (config : SignalBuildConfig K)
    (factors : List (FactorInput (Extended K))) :
    ∀ row ∈ preparedRows config factors, HasCorrelation row := by
  intro row hrow
  obtain ⟨i, hi, rfl⟩ := List.mem_mapIdx.mp hrow
  exact ZscoreModel.prepareFactor_correlation _ i _

omit [IsStrictOrderedRing K] in
/-- The index of a factor tells its name. -/
theorem name_of_factorIndex (config : SignalBuildConfig K) {r row : PreparedFactor (Extended K)}
    (hr : r ∈ (weighedRows config factors).map sanitizeWeight)
    (hrow : row ∈ preparedRows config factors) (h : r.factorIndex = row.factorIndex) :
    r.factor.name = row.factor.name := by
  obtain ⟨weighed, hweighed, rfl⟩ := List.mem_map.mp hr
  obtain ⟨place, hplace⟩ := List.mem_iff_getElem?.mp hweighed
  rw [weighedRows, rank, List.getElem?_mapIdx, Option.map_eq_some_iff] at hplace
  obtain ⟨row', hsorted, rfl⟩ := hplace
  have hmem : row' ∈ preparedRows config factors :=
    (List.mem_filter.mp (List.mem_mergeSort.mp (List.mem_of_getElem? hsorted))).1
  have hindices : (preparedRows config factors).map (·.factorIndex) =
      ((preparedRows config factors).map PreparedFactor.toEngine).map (·.factorIndex) := by
    rw [List.map_map]
    rfl
  have hnodup : ((preparedRows config factors).map (·.factorIndex)).Nodup := by
    rw [hindices, map_toEngine_preparedRows]
    exact ZscoreModel.nodup_prepared _
  obtain rfl : row' = row := List.inj_on_of_nodup_map hnodup hmem hrow h
  rfl

/-- The reasons of the two gates of the engine. -/
def gateReasons {F : Type} [Double F] (format : F → String)
    (config : ZscoreModel.SignalBuildConfig F) : List String :=
  let regimeGate := ZscoreModel.evaluateRegimeFilter config.regimeFilter
  let volGate := ZscoreModel.evaluateVolatilityFilter format config.volatilityFilter
  (if regimeGate.passed then [] else regimeGate.reason.toList) ++
    (if volGate.passed then [] else volGate.reason.toList)

/-- What is reported of a ranking by its length and its total weight. -/
def weightReasons {F : Type} [Double F] (count : ℕ) (totalWeight : F) : List String :=
  (if 0 < count && Double.le totalWeight epsilon then ["all_factor_weights_zero"] else []) ++
    (if count = 0 then ["no_valid_factors_after_filters"] else [])

/-- The engine reports by the weights of which some have been replaced. -/
theorem suppressionReasons_eq (format : Extended K → String) (config : SignalBuildConfig K)
    (hfactors : factors ≠ []) :
    (ZscoreModel.buildZscoreSignal format (factors.map FactorInput.toEngine)
      config.ofNumbers.toEngine).suppressionReasons =
        gateReasons format config.ofNumbers.toEngine ++ weightReasons
          (weighedRows config factors).length
          (Double.sum (((weighedRows config factors).map sanitizeWeight).map (·.rawWeight))) := by
  have hne : factors.map FactorInput.toEngine ≠ [] := by simpa using hfactors
  have hepsilon : (epsilon : Extended K) = ZscoreModel.epsilon := rfl
  simp only [ZscoreModel.buildZscoreSignal, if_neg hne, ← map_toEngine_preparedRows,
    ← map_toEngine_rank config (hasCorrelation_preparedRows config factors), map_rawWeight]
  rw [← weighedRows]
  simp only [gateReasons, weightReasons, hepsilon, List.append_assoc, List.map_eq_nil_iff,
    List.length_eq_zero_iff, List.length_pos_iff, ne_eq]

/-- **The two models return the same result**, when both have one number format, except that the
dashboard reports by the weights of which none has been replaced. -/
theorem buildZScoreSignal_eq (format : Extended K → String) (config : SignalBuildConfig K)
    (hfinite : ∀ factor ∈ factors, factor.Finite)
    (hascii : ∀ c ∈ config.regimeFilter, ∀ label ∈ c.currentRegime, IsAscii label)
    (hfactors : factors ≠ []) :
    buildZScoreSignal format factors config.ofNumbers =
      .ok { ZscoreModel.buildZscoreSignal format (factors.map FactorInput.toEngine)
          config.ofNumbers.toEngine with
        suppressionReasons := gateReasons format config.ofNumbers.toEngine ++ weightReasons
          (weighedRows config factors).length
          (Double.sum ((weighedRows config factors).map (·.rawWeight))) } := by
  have hlen : factors.length ≠ 0 := by simpa using hfactors
  have hne : factors.map FactorInput.toEngine ≠ [] := by simpa using hfactors
  have hrows := hasCorrelation_preparedRows config factors
  have hregime := evaluateRegimeFilter_eq config.regimeFilter hascii
  obtain ⟨zscore, hvolatility⟩ := evaluateVolatilityFilter_eq format config.volatilityFilter
  rw [buildZScoreSignal, ZscoreModel.buildZscoreSignal, if_neg hlen, if_neg hne]
  have hregime' : evaluateRegimeFilter (spreadConfig config.ofNumbers).regimeFilter =
      ⟨(ZscoreModel.evaluateRegimeFilter config.ofNumbers.toEngine.regimeFilter).passed,
        (ZscoreModel.evaluateRegimeFilter config.ofNumbers.toEngine.regimeFilter).reason⟩ := hregime
  have hvolatility' : evaluateVolatilityFilter format
      (spreadConfig config.ofNumbers).volatilityFilter = .ok
        ⟨(ZscoreModel.evaluateVolatilityFilter format
          config.ofNumbers.toEngine.volatilityFilter).passed, zscore,
        (ZscoreModel.evaluateVolatilityFilter format
          config.ofNumbers.toEngine.volatilityFilter).reason⟩ := hvolatility
  simp only [hregime', hvolatility', mapM_prepareFactor config hfinite, bind, Except.bind, pure,
    Except.pure, ← map_toEngine_preparedRows, ← map_toEngine_rank config hrows]
  rw [← weighedRows]
  have hcontributions : ∀ denominator, ((preparedRows config factors).map
      PreparedFactor.toEngine).map (ZscoreModel.contributionOf
        (((weighedRows config factors).map sanitizeWeight).map PreparedFactor.toEngine)
          denominator) =
      (preparedRows config factors).map (contributionOf
        ((weighedRows config factors).map sanitizeWeight) denominator) := by
    intro denominator
    rw [List.map_map]
    refine List.map_congr_left fun row hrow => ?_
    exact (contributionOf_eq fun r hr => name_of_factorIndex config hr hrow).symm
  generalize (weighedRows config factors).map sanitizeWeight = ranked at *
  obtain ⟨xs, hreturns, hreturns'⟩ := referenceReturns_eq config ranked
  have hshares : ∀ denominator, (ranked.map PreparedFactor.toEngine).map
      (fun row => row.rawWeight / denominator * row.contribution) =
        ranked.map fun row => row.rawWeight / denominator * row.contribution := by
    intro denominator
    rw [List.map_map]
    rfl
  have hepsilon : (epsilon : Extended K) = ZscoreModel.epsilon := rfl
  simp only [hreturns, hreturns', meanReturn_eq, stdReturn_eq, map_rawWeight, hshares,
    hcontributions, pushed_reason (regime_reason_ne _),
    pushed_reason (volatility_reason_ne format _), hepsilon, gateReasons, weightReasons,
    List.append_assoc, List.length_map, List.map_eq_nil_iff, List.length_eq_zero_iff,
    List.length_pos_iff]

end Result

/-! ### Number formats -/

section Formats

variable {F : Type} [Double F]

/-- A reason to suppress a signal: a text, or the z-score of a volatility that is out of range. -/
inductive Reason (F : Type)
  | code (text : String)
  | volZOutOfRange (zscore : F)

/-- The text of a reason, in a number format. -/
def Reason.text (format : F → String) : Reason F → String
  | .code text => text
  | .volZOutOfRange zscore => "vol_z_out_of_range:" ++ format zscore

/-- The volatility gate depends on the number format in the text of its reason only. -/
theorem exists_volatility_reason (filter : Option (ZscoreModel.VolatilityFilterConfig F)) :
    ∃ (passed : Bool) (reason : Option (Reason F)), ∀ format,
      ZscoreModel.evaluateVolatilityFilter format filter =
        ⟨passed, reason.map (Reason.text format)⟩ := by
  cases filter with
  | none => exact ⟨true, none, fun _ => rfl⟩
  | some cfg =>
      simp only [ZscoreModel.evaluateVolatilityFilter]
      by_cases henabled : (!cfg.enabled) = true
      · simp only [if_pos henabled]
        exact ⟨true, none, fun _ => rfl⟩
      simp only [if_neg henabled]
      by_cases hlen : (ZscoreModel.sanitizeSeries cfg.historicalVolatilitySeries).length < 2
      · simp only [if_pos hlen]
        exact ⟨false, some (.code _), fun _ => rfl⟩
      simp only [if_neg hlen]
      split
      · exact ⟨false, some (.code _), fun _ => rfl⟩
      split
      · exact ⟨false, some (.volZOutOfRange _), fun _ => rfl⟩
      · exact ⟨true, none, fun _ => rfl⟩

omit [Double F] in
/-- Reasons of which one is that of the volatility gate. -/
theorem exists_reasons_append (passed : Bool) (reason : Option (Reason F))
    (as bs cs : List String) :
    ∃ reasons : List (Reason F), ∀ format,
      as ++ (if passed then [] else (reason.map (Reason.text format)).toList) ++ bs ++ cs =
        reasons.map (Reason.text format) := by
  have hcodes : ∀ (format : F → String) (texts : List String),
      (texts.map Reason.code).map (Reason.text format) = texts := by
    intro format texts
    rw [List.map_map]
    exact List.map_id texts
  refine ⟨as.map .code ++ (if passed then [] else reason.toList) ++ bs.map .code ++ cs.map .code,
    fun format => ?_⟩
  simp only [List.map_append, hcodes]
  cases passed <;> cases reason <;> rfl

/-- The signal depends on the number format in the text of its reasons only. -/
theorem exists_reasons (factors : List (ZscoreModel.FactorInput F))
    (config : ZscoreModel.SignalBuildConfig F) : ∃ reasons : List (Reason F), ∀ format format',
      (ZscoreModel.buildZscoreSignal format factors config).suppressionReasons =
          reasons.map (Reason.text format) ∧
        ZscoreModel.buildZscoreSignal format' factors config =
          { ZscoreModel.buildZscoreSignal format factors config with
            suppressionReasons := reasons.map (Reason.text format') } := by
  by_cases hfactors : factors = []
  · rw [hfactors]
    exact ⟨[.code "no_factors"], fun _ _ => ⟨rfl, rfl⟩⟩
  obtain ⟨passed, reason, hgate⟩ := exists_volatility_reason config.volatilityFilter
  simp only [ZscoreModel.buildZscoreSignal, if_neg hfactors, hgate]
  refine (exists_reasons_append passed reason _ _ _).imp fun reasons h format format' =>
    ⟨h format, ?_⟩
  rw [← h format']

end Formats

end HftPlatform.Dashboard
