import HftPlatform.SignalModels

/-!
# Weights that are no numbers

Both signal models count a weight that is NaN or infinite as nothing. `zscore_model.rs` replaces it
before it adds the weights up. `zscoreSignal.ts` adds them up before and after: by the first sum it
reports that the weights are all zero, by the second one it suppresses the signal. A sum with a NaN
or an infinity is not small, so a signal that is suppressed may have no reason, and the negative
infinity that a negative rank decay makes is, so one that is not suppressed may have one.

## Main results

* `le_total_iff`: when the two sums compare alike with the smallest weight.
* `agree_iff_numbersDecide`: when the two models agree.
-/

namespace HftPlatform.Dashboard

open Lib Extended
open ZscoreModel (WeightMode)

/-! ### The two sums -/

section Sums

variable {K : Type} [Field K] [LinearOrder K] [SquareRoot K]

/-- What the first sum has for a weight and its share. -/
def weighted (p : Extended K × Extended K) : Extended K := mathMax (fin 0) p.1 * p.2

/-- What the second sum has: nothing for a weight that is no number. -/
def kept (p : Extended K × Extended K) : Extended K :=
  match p.1 with
  | fin w => fin (max w 0) * p.2
  | _ => fin 0

/-- The weight makes the first sum a NaN or a positive infinity. -/
def Blinds (p : Extended K × Extended K) : Prop :=
  p.1 = nan ∨ p.1 = inf false ∧ Double.le (fin 0) p.2 = true

/-- The shares are numbers. -/
def NumberShares (pairs : List (Extended K × Extended K)) : Prop :=
  ∀ p ∈ pairs, ∃ s, p.2 = fin s

variable {pairs : List (Extended K × Extended K)}

/-- The second sum is a number. -/
theorem exists_sum_kept (h : NumberShares pairs) : ∃ a, (pairs.map kept).sum = fin a := by
  induction pairs with
  | nil => exact ⟨0, rfl⟩
  | cons p pairs ih =>
      obtain ⟨hp, hpairs⟩ := List.forall_mem_cons.mp h
      obtain ⟨s, hs⟩ := hp
      obtain ⟨a, ha⟩ := ih hpairs
      rw [List.map_cons, List.sum_cons, ha, kept, hs]
      cases p.1 with
      | nan | inf t => exact ⟨0 + a, rfl⟩
      | fin w => exact ⟨max w 0 * s + a, rfl⟩

/-- A weight that blinds the first sum. -/
theorem Blinds.weighted_eq {p : Extended K × Extended K} (h : Blinds p) {s : K}
    (hs : p.2 = fin s) : weighted p = nan ∨ weighted p = inf false := by
  rw [weighted, hs]
  rcases h with h | ⟨h, hsign⟩
  · rw [h, mathMax_nan]
    exact Or.inl (nan_mul _)
  · rw [hs, le_fin, decide_eq_true_eq] at hsign
    rw [h, mathMax_inf]
    show (if s = 0 then nan else inf (false != decide (s < 0))) = nan ∨ _
    rcases hsign.eq_or_lt with rfl | hpos
    · exact Or.inl (if_pos rfl)
    · refine Or.inr ((if_neg hpos.ne').trans ?_)
      rw [decide_eq_false hpos.not_gt, Bool.bne_false]

/-- A positive infinity that does not blind the first sum is a negative one there. -/
theorem weighted_of_inf {p : Extended K × Extended K} (hp : p.1 = inf false) {s : K}
    (hs : p.2 = fin s) (hblinds : ¬ Blinds p) : weighted p = inf true := by
  have hneg : s < 0 := by
    by_contra h
    exact hblinds (Or.inr ⟨hp, by rw [hs, le_fin, decide_eq_true_eq]; exact not_lt.mp h⟩)
  rw [weighted, hp, hs, mathMax_inf]
  show (if s = 0 then nan else inf (false != decide (s < 0))) = _
  rw [if_neg hneg.ne, decide_eq_true hneg, Bool.false_bne]

/-- Every other weight is the same in both sums. -/
theorem weighted_eq_kept {p : Extended K × Extended K} (hnan : p.1 ≠ nan) (hinf : p.1 ≠ inf false)
    {s : K} (hs : p.2 = fin s) : weighted p = kept p := by
  rw [weighted, kept, hs]
  rcases hp : p.1 with _ | (_ | _) | w
  · exact absurd hp hnan
  · exact absurd hp hinf
  · rw [mathMax_inf]
    exact congrArg fin (zero_mul s)
  · rw [mathMax_fin, max_comm]

/-- The second sum has what is left of the first one when values that are no numbers are
replaced. -/
theorem sanitize_weighted {p : Extended K × Extended K} {s : K} (hs : p.2 = fin s) :
    (if Double.isFinite (weighted p) then weighted p else Double.lit 0) = kept p := by
  have hzero : (Double.lit 0 : Extended K) = fin 0 := congrArg fin Rat.cast_zero
  rw [hzero]
  by_cases hblinds : Blinds p
  · have hkept : kept p = fin 0 := by
      rcases hblinds with h | ⟨h, -⟩ <;> rw [kept, h]
    rw [hkept]
    rcases hblinds.weighted_eq hs with h | h <;> rw [h] <;> rfl
  by_cases hinf : p.1 = inf false
  · rw [weighted_of_inf hinf hs hblinds, kept, hinf]
    rfl
  · rw [weighted_eq_kept (fun hnan => hblinds (Or.inl hnan)) hinf hs, if_pos]
    rw [kept, hs]
    cases p.1 <;> rfl

/-- **The two sums compare alike** with a number exactly when no weight blinds the first one or the
others add up to more than the number, and no weight makes it a negative infinity or they do not. -/
theorem le_total_iff (h : NumberShares pairs) (e : K) :
    Double.le (pairs.map weighted).sum (fin e) = Double.le (pairs.map kept).sum (fin e) ↔
      ((∃ p ∈ pairs, Blinds p) → Double.lt (fin e) (pairs.map kept).sum = true) ∧
        ((∀ p ∈ pairs, ¬ Blinds p) → (∃ p ∈ pairs, p.1 = inf false) →
          Double.le (pairs.map kept).sum (fin e) = true) := by
  obtain ⟨a, ha⟩ := exists_sum_kept h
  rw [ha, le_fin, lt_fin, decide_eq_true_eq, decide_eq_true_eq]
  by_cases hblinds : ∃ p ∈ pairs, Blinds p
  · obtain ⟨p, hp, hb⟩ := hblinds
    obtain ⟨s, hs⟩ := h p hp
    have hsum : Double.le (pairs.map weighted).sum (fin e) = false := by
      rcases sum_of_nan_or_inf ⟨_, List.mem_map_of_mem hp, hb.weighted_eq hs⟩ with h | h <;>
        rw [h] <;> rfl
    rw [hsum, eq_comm, decide_eq_false_iff_not, not_le]
    exact ⟨fun hlt => ⟨fun _ => hlt, fun hnone => absurd hb (hnone p hp)⟩,
      fun hboth => hboth.1 ⟨p, hp, hb⟩⟩
  have hnone : ∀ p ∈ pairs, ¬ Blinds p := fun p hp hb => hblinds ⟨p, hp, hb⟩
  have hnan : ∀ p ∈ pairs, p.1 ≠ nan := fun p hp hnan => hnone p hp (Or.inl hnan)
  by_cases hinf : ∃ p ∈ pairs, p.1 = inf false
  · obtain ⟨p, hp, hpinf⟩ := hinf
    obtain ⟨s, hs⟩ := h p hp
    have hsum : Double.le (pairs.map weighted).sum (fin e) = true := by
      rw [sum_of_neg_inf ?_ (List.mem_map.mpr ⟨p, hp, weighted_of_inf hpinf hs (hnone p hp)⟩)]
      · rfl
      · simp only [List.forall_mem_map]
        intro q hq
        obtain ⟨t, ht⟩ := h q hq
        by_cases hqinf : q.1 = inf false
        · rw [weighted_of_inf hqinf ht (hnone q hq)]
          simp
        · rw [weighted_eq_kept (hnan q hq) hqinf ht, kept, ht]
          cases q.1 <;> simp
    rw [hsum, eq_comm, decide_eq_true_eq]
    exact ⟨fun hle => ⟨fun hex => absurd hex hblinds, fun _ _ => hle⟩,
      fun hboth => hboth.2 hnone ⟨p, hp, hpinf⟩⟩
  · have hsame : pairs.map weighted = pairs.map kept := by
      refine List.map_congr_left fun p hp => ?_
      obtain ⟨s, hs⟩ := h p hp
      exact weighted_eq_kept (hnan p hp) (fun hpinf => hinf ⟨p, hp, hpinf⟩) hs
    rw [hsame, ha, le_fin]
    exact ⟨fun _ => ⟨fun hex => absurd hex hblinds, fun _ hex => absurd hex hinf⟩, fun _ => rfl⟩

end Sums

/-! ### The weights of a ranking -/

section Weights

variable {K : Type} [Field K] [LinearOrder K] [SquareRoot K]

/-- What the weight of a factor is multiplied with at its place of the ranking. -/
def share (config : ZscoreModel.SignalBuildConfig (Extended K)) (place : ℕ)
    (row : ZscoreModel.PreparedFactor (Extended K)) : Extended K :=
  match config.weightMode with
  | .equal => Double.lit 1
  | .manual => Double.lit 1
  | .correlation => Double.abs row.correlation
  | .rankedCorrelation => Double.abs row.correlation * Double.pow config.rankDecay place

/-- The weights of the factors that pass, in the order of the ranking, each with its share. -/
def shares (config : SignalBuildConfig K) (factors : List (FactorInput (Extended K))) :
    List (Extended K × Extended K) :=
  let cfg := config.ofNumbers.toEngine
  (ZscoreModel.sorted ((factors.map FactorInput.toEngine).mapIdx
    (ZscoreModel.prepareFactor cfg))).mapIdx fun place row =>
      (row.factor.weight, share cfg place row)

/-- Either the weights are not used, or those of them that are numbers decide: they add up to more
than the smallest weight if another one blinds the first sum, and they do not if others make it a
negative infinity. -/
def NumbersDecide (config : SignalBuildConfig K) (factors : List (FactorInput (Extended K))) :
    Prop :=
  config.ofNumbers.toEngine.weightMode = .equal ∨
    ((∃ p ∈ shares config factors, Blinds p) →
        Double.lt epsilon (Double.sum ((shares config factors).map kept)) = true) ∧
      ((∀ p ∈ shares config factors, ¬ Blinds p) →
        (∃ p ∈ shares config factors, p.1 = inf false) →
          Double.le (Double.sum ((shares config factors).map kept)) epsilon = true)

variable [IsStrictOrderedRing K] {factors : List (FactorInput (Extended K))}

/-- The shares of the rows that the dashboard ranks. -/
theorem shares_eq (config : SignalBuildConfig K) (factors : List (FactorInput (Extended K))) :
    shares config factors = (((preparedRows config factors).filter (·.passed)).mergeSort
      ranksBefore).mapIdx fun place row =>
        (row.toEngine.factor.weight, share config.ofNumbers.toEngine place row.toEngine) := by
  rw [shares, ← map_toEngine_preparedRows,
    ← map_toEngine_sorted (hasCorrelation_preparedRows config factors)]
  refine List.ext_getElem? fun place => ?_
  simp only [List.getElem?_mapIdx, List.getElem?_map, Option.map_map]
  rfl

omit [IsStrictOrderedRing K] in
/-- The share of a row with a correlation is a number. -/
theorem exists_share (config : SignalBuildConfig K) (place : ℕ)
    {row : PreparedFactor (Extended K)} (h : HasCorrelation row) :
    ∃ s, share config.ofNumbers.toEngine place row.toEngine = fin s := by
  obtain ⟨c, hc⟩ := h
  obtain ⟨decay, hdecay⟩ := exists_rankDecay config
  obtain ⟨power, hpower⟩ := exists_pow decay place
  have hcorrelation : row.toEngine.correlation = fin c := hc
  cases hmode : config.ofNumbers.toEngine.weightMode <;>
    simp only [share, hmode, hcorrelation, hdecay, hpower, abs_fin, mul_fin] <;>
    exact ⟨_, rfl⟩

/-- The shares are numbers. -/
theorem numberShares (config : SignalBuildConfig K)
    (factors : List (FactorInput (Extended K))) : NumberShares (shares config factors) := by
  intro p hp
  rw [shares_eq] at hp
  obtain ⟨place, hplace, rfl⟩ := List.mem_mapIdx.mp hp
  refine exists_share config place ?_
  exact mem_sorted_of (hasCorrelation_preparedRows config factors)
    (List.getElem?_eq_getElem hplace)

/-- **The first sum** adds up the weights times their shares. -/
theorem map_rawWeight_weighedRows (config : SignalBuildConfig K)
    (hmode : config.ofNumbers.toEngine.weightMode ≠ .equal) :
    (weighedRows config factors).map (·.rawWeight) = (shares config factors).map weighted := by
  rw [weighedRows, rank, shares_eq]
  refine List.ext_getElem? fun place => ?_
  simp only [List.getElem?_map, List.getElem?_mapIdx, Option.map_map]
  cases hplace : (((preparedRows config factors).filter (·.passed)).mergeSort
      ranksBefore)[place]? with
  | none => rfl
  | some row =>
      obtain ⟨c, hc⟩ := mem_sorted_of (hasCorrelation_preparedRows config factors) hplace
      obtain ⟨decay, hdecay⟩ := exists_rankDecay config
      obtain ⟨power, hpower⟩ := exists_pow decay place
      have hzero : (Double.lit 0 : Extended K) = fin 0 := congrArg fin Rat.cast_zero
      have hcorrelation : row.toEngine.correlation = fin c := hc
      have hweight : row.toEngine.factor.weight = row.factor.weight.getD (Double.lit 1) := rfl
      refine congrArg some ?_
      cases hmode' : config.ofNumbers.toEngine.weightMode <;>
        simp only [Function.comp_apply, weigh, weighted, share, getD_rankDecay, getD_weightMode,
          hmode', hdecay, hpower, hc, hcorrelation, hweight, hzero, abs_fin, mul_lit_one,
          mul_fin_assoc]
      exact absurd hmode' hmode

/-- The second sum leaves out the weights that are no numbers. -/
theorem map_rawWeight_sanitized (config : SignalBuildConfig K)
    (hmode : config.ofNumbers.toEngine.weightMode ≠ .equal) :
    ((weighedRows config factors).map sanitizeWeight).map (·.rawWeight) =
      (shares config factors).map kept := by
  have hsanitized : ((weighedRows config factors).map sanitizeWeight).map (·.rawWeight) =
      ((weighedRows config factors).map (·.rawWeight)).map fun x =>
        if Double.isFinite x then x else Double.lit 0 := by
    rw [List.map_map, List.map_map]
    rfl
  rw [hsanitized, map_rawWeight_weighedRows config hmode, List.map_map]
  refine List.map_congr_left fun p hp => ?_
  obtain ⟨s, hs⟩ := numberShares config factors p hp
  exact sanitize_weighted hs

omit [IsStrictOrderedRing K] in
/-- With equal weights there is nothing to replace. -/
theorem map_sanitizeWeight_equal (config : SignalBuildConfig K)
    (hmode : config.ofNumbers.toEngine.weightMode = .equal) :
    (weighedRows config factors).map sanitizeWeight = weighedRows config factors := by
  rw [weighedRows, rank]
  refine List.ext_getElem? fun place => ?_
  rw [List.getElem?_map, List.getElem?_mapIdx, Option.map_map]
  refine Option.map_congr fun row _ => ?_
  have hfinite : Double.isFinite (Double.lit 1 : Extended K) = true := isFinite_fin _
  simp only [Function.comp_apply, sanitizeWeight, weigh, getD_weightMode, hmode, hfinite, if_true]

end Weights

/-! ### The agreement -/

section Agreement

variable {K : Type} [Field K] [LinearOrder K] [SquareRoot K]

/-- The dashboard throws nothing, and its result is that of the engine, with reasons in its own
number format. -/
def Agree (toFixed4 show4 : Extended K → String) (factors : List (FactorInput (Extended K)))
    (config : SignalBuildConfig K) : Prop :=
  ∃ reasons : List (Reason (Extended K)),
    let result := ZscoreModel.buildZscoreSignal show4 (factors.map FactorInput.toEngine)
      config.ofNumbers.toEngine
    result.suppressionReasons = reasons.map (Reason.text show4) ∧
      buildZScoreSignal toFixed4 factors config.ofNumbers =
        .ok { result with suppressionReasons := reasons.map (Reason.text toFixed4) }

omit [Field K] [LinearOrder K] [SquareRoot K] in
/-- The reasons of a ranking tell how its total weight compares. -/
theorem length_weightReasons_eq_iff {F : Type} [Double F] {count : ℕ} {x y : F} :
    (weightReasons count x).length = (weightReasons count y).length ↔
      count = 0 ∨ Double.le x epsilon = Double.le y epsilon := by
  by_cases hcount : count = 0
  · simp [weightReasons, hcount]
  · have hpos : 0 < count := Nat.pos_of_ne_zero hcount
    cases hx : Double.le x epsilon <;> cases hy : Double.le y epsilon <;>
      simp [weightReasons, hcount, hpos, hx, hy]

/-- The reasons of the gates are as many in every number format. -/
theorem length_suppressionReasons {F : Type} [Double F] (format format' : F → String)
    (factors : List (ZscoreModel.FactorInput F)) (config : ZscoreModel.SignalBuildConfig F) :
    (ZscoreModel.buildZscoreSignal format factors config).suppressionReasons.length =
      (ZscoreModel.buildZscoreSignal format' factors config).suppressionReasons.length := by
  obtain ⟨reasons, hreasons⟩ := exists_reasons factors config
  rw [(hreasons format format).1, (hreasons format' format').1, List.length_map, List.length_map]

variable [IsStrictOrderedRing K] {factors : List (FactorInput (Extended K))}

/-- No factor passes exactly when there are no shares. -/
theorem weighedRows_eq_nil_iff (config : SignalBuildConfig K) :
    (weighedRows config factors).length = 0 ↔ shares config factors = [] := by
  rw [weighedRows, rank, shares_eq, List.length_mapIdx, List.mapIdx_eq_nil_iff,
    List.length_eq_zero_iff]

/-- **The total weights compare alike** exactly when the numbers decide, or no factor passes. -/
theorem le_epsilon_iff (config : SignalBuildConfig K) :
    (weighedRows config factors).length = 0 ∨
        Double.le (Double.sum ((weighedRows config factors).map (·.rawWeight))) epsilon =
          Double.le (Double.sum (((weighedRows config factors).map sanitizeWeight).map
            (·.rawWeight))) epsilon ↔
      NumbersDecide config factors := by
  have hepsilon : (epsilon : Extended K) = fin ZscoreModel.smallest := ZscoreModel.epsilon_eq
  by_cases hmode : config.ofNumbers.toEngine.weightMode = .equal
  · rw [map_sanitizeWeight_equal config hmode]
    exact ⟨fun _ => Or.inl hmode, fun _ => Or.inr rfl⟩
  rw [map_rawWeight_weighedRows config hmode, map_rawWeight_sanitized config hmode, NumbersDecide,
    sum_eq, sum_eq, hepsilon, le_total_iff (numberShares config factors),
    weighedRows_eq_nil_iff]
  constructor
  · rintro (hnil | hboth)
    · exact Or.inr (by simp [hnil])
    · exact Or.inr hboth
  · exact fun h => Or.inr (h.resolve_left hmode)

/-- **When the two models agree**, in exact arithmetic: exactly when the weights are not used, or
those of them that are numbers decide. -/
theorem agree_iff_numbersDecide (toFixed4 show4 : Extended K → String)
    (factors : List (FactorInput (Extended K))) (config : SignalBuildConfig K)
    (hfinite : ∀ factor ∈ factors, factor.Finite)
    (hascii : ∀ c ∈ config.regimeFilter, ∀ label ∈ c.currentRegime, IsAscii label) :
    Agree toFixed4 show4 factors config ↔ NumbersDecide config factors := by
  obtain ⟨reasons, hreasons⟩ :=
    exists_reasons (factors.map FactorInput.toEngine) config.ofNumbers.toEngine
  obtain ⟨htexts, hresult⟩ := hreasons show4 toFixed4
  by_cases hfactors : factors = []
  · have hshares : shares config factors = [] := by
      simp [shares, ZscoreModel.sorted, hfactors]
    refine iff_of_true ⟨reasons, htexts, ?_⟩ (Or.inr (by simp [hshares]))
    rw [← hresult, hfactors]
    rfl
  have hengine := suppressionReasons_eq toFixed4 config hfactors
  have hdashboard := buildZScoreSignal_eq toFixed4 config hfinite hascii hfactors
  rw [← le_epsilon_iff, ← length_weightReasons_eq_iff]
  constructor
  · rintro ⟨reasons', htexts', hagree⟩
    -- Both lists of reasons are as long as the list of those that they render.
    have hlong : (ZscoreModel.buildZscoreSignal toFixed4 (factors.map FactorInput.toEngine)
        config.ofNumbers.toEngine).suppressionReasons.length = reasons'.length := by
      rw [length_suppressionReasons toFixed4 show4, htexts', List.length_map]
    rw [hdashboard, Except.ok.injEq] at hagree
    have hreasons' := congrArg (fun r => r.suppressionReasons.length) hagree
    simp only [List.length_map, List.length_append, ← hlong, hengine] at hreasons'
    omega
  · intro hlength
    refine ⟨reasons, htexts, ?_⟩
    have hsame : ∀ count : ℕ, ∀ x y : Extended K,
        (weightReasons count x).length = (weightReasons count y).length →
          weightReasons count x = weightReasons count y := by
      intro count x y h
      rcases length_weightReasons_eq_iff.mp h with rfl | hle
      · rfl
      · simp only [weightReasons, hle]
    rw [hdashboard, hsame _ _ _ hlength, ← hengine, hresult]

end Agreement

/-- A factor with the given weight. -/
def weighedFactor (weight : Option (Extended ℚ)) : FactorInput (Extended ℚ) where
  name := "trend"
  series := [fin 1, fin 2, fin 4]
  returnSeries := [fin 1, fin 2, fin 3]
  weight := weight
  rollingWindow := none
  currentValue := some (fin 5)
  directionHint := none
  enabled := none

theorem finite_weighedFactor (weight : Option (Extended ℚ)) : (weighedFactor weight).Finite :=
  ⟨⟨[1, 2, 4], rfl⟩, ⟨[1, 2, 3], rfl⟩, some 5, rfl⟩

/-- A configuration with a regime filter, of which the label has spaces. -/
def rangeConfig (mode : WeightMode) (volatility : Option (VolatilityFilterConfig ℚ)) :
    SignalBuildConfig ℚ where
  rollingWindow := some 3
  minHistory := some 2
  minAbsCorrelation := none
  rankDecay := none
  weightMode := some mode
  winsorizeZScoreAt := none
  meanReturn := none
  stdReturn := none
  regimeFilter := some ⟨some true, some " RANGE ", some ["RANGE"]⟩
  volatilityFilter := volatility

/-- A volatility that is out of range. -/
def highVolatility : VolatilityFilterConfig ℚ := ⟨some true, some [1, 2, 3], some 9, none, some 2⟩

/-- The models agree on a factor without a weight beside one whose weight is NaN. -/
theorem agree_iff_range :
    let config := rangeConfig .rankedCorrelation (some highVolatility)
    let factors := [weighedFactor none, weighedFactor (some nan)]
    NumbersDecide config factors ∧
      Agree (fun _ => "8.5733") (fun _ => "8.5732") factors config := by
  intro config factors
  have hshares : (shares config factors).map Prod.fst = [fin 1, nan] ∧
      Double.lt epsilon (Double.sum ((shares config factors).map kept)) = true := by
    rw [shares, ZscoreModel.sorted, List.mergeSort_of_pairwise (by decide +kernel)]
    decide +kernel
  have hdecide : NumbersDecide config factors := by
    refine Or.inr ⟨fun _ => hshares.2, fun hnone => ?_⟩
    have hmem : nan ∈ (shares config factors).map Prod.fst := by simp [hshares.1]
    obtain ⟨p, hp, hnan⟩ := List.mem_map.mp hmem
    exact absurd (Or.inl hnan) (hnone p hp)
  refine ⟨hdecide, (agree_iff_numbersDecide _ _ factors config ?_ ?_).mpr hdecide⟩
  · simp [factors, finite_weighedFactor]
  · rintro c ⟨⟩ label ⟨⟩
    simp [IsAscii]

/-- A factor whose weight is NaN: both models suppress the signal, the engine because all weights
are zero, and the dashboard without a reason. -/
theorem not_agree_nan :
    let config := rangeConfig .manual none
    let factors := [weighedFactor (some nan)]
    let engine := ZscoreModel.buildZscoreSignal (fun _ => "") (factors.map FactorInput.toEngine)
      config.ofNumbers.toEngine
    engine.suppressed = true ∧ engine.suppressionReasons = ["all_factor_weights_zero"] ∧
      buildZScoreSignal (fun _ => "") factors config.ofNumbers =
        .ok { engine with suppressionReasons := [] } ∧
      ¬ Agree (fun _ => "") (fun _ => "") factors config := by
  intro config factors engine
  have hengine : engine.suppressed = true ∧
      engine.suppressionReasons = ["all_factor_weights_zero"] := by decide +kernel
  have hdashboard : buildZScoreSignal (fun _ => "") factors config.ofNumbers =
      .ok { engine with suppressionReasons := [] } := by decide +kernel
  refine ⟨hengine.1, hengine.2, hdashboard, ?_⟩
  rintro ⟨reasons, htexts, hagree⟩
  rw [hdashboard, Except.ok.injEq] at hagree
  have hnil : [] = reasons.map (Reason.text fun _ => "") :=
    congrArg (·.suppressionReasons) hagree
  have hone : ["all_factor_weights_zero"] = reasons.map (Reason.text fun _ => "") :=
    hengine.2.symm.trans htexts
  rw [← hnil] at hone
  cases hone

end HftPlatform.Dashboard
