import HftPlatform.Lib.History
import HftPlatform.ZscoreModel

/-!
# The bars that a correlation is computed from

`prepare_factor` drops what is not finite from the series of a factor and from its returns, each on
its own, cuts both to the length of the shorter one and only then pairs them up. The pairs are
bars of the input only when what was dropped does not shift one series against the other.

## Main results

* `correlation_of_pairs`: the pairs that a correlation is computed from.
* `suffix_finiteBars_iff`: they are the last bars where both values are finite exactly when the
  values at the other bars do not matter.
* `barsMatch_of_back`: so it is when no bar of the window has only one finite value.
-/

namespace HftPlatform.ZscoreModel

open Lib

section Pairs

variable {F : Type} [Double F]

/-- The number of values that `prepare_factor` takes of each series. -/
def alignedLen (cfg : SignalBuildConfig F) (factor : FactorInput F) : ℕ :=
  min (min (sanitizeSeries factor.series).length (sanitizeSeries factor.returnSeries).length)
    (max (factor.rollingWindow.getD cfg.rollingWindow) 2)

/-- The pairs that `prepare_factor` computes the correlation of a factor from, unless it rejects
the factor before. -/
def correlatedPairs (cfg : SignalBuildConfig F) (factor : FactorInput F) : Option (List (F × F)) :=
  let factorSeries := sanitizeSeries factor.series
  let returnSeries := sanitizeSeries factor.returnSeries
  if !factor.enabled then none
  else if factorSeries.length < cfg.minHistory then none
  else if returnSeries.length < cfg.minHistory then none
  else if alignedLen cfg factor < 2 then none
  else
    let aligned := sanitizeAlignedPair (tail factorSeries (alignedLen cfg factor))
      (tail returnSeries (alignedLen cfg factor))
    if aligned.1.length < 2 then none else some (aligned.1.zip aligned.2)

/-- The bars of a factor at which both values are finite. -/
def finiteBars (factor : FactorInput F) : List (F × F) :=
  (factor.series.zip factor.returnSeries).filter fun p =>
    Double.isFinite p.1 && Double.isFinite p.2

/-- The last values of each series stay the same when the values at bars where the other series
has none are dropped. -/
structure BarsMatch (factor : FactorInput F) (n : ℕ) : Prop where
  series : lastN n (sanitizeSeries factor.series) = lastN n ((finiteBars factor).map Prod.fst)
  returns : lastN n (sanitizeSeries factor.returnSeries) =
    lastN n ((finiteBars factor).map Prod.snd)

variable {cfg : SignalBuildConfig F} {factor : FactorInput F} {pairs : List (F × F)} {n : ℕ}

/-- The two lists of an aligned pair are of one length. -/
theorem length_sanitizeAlignedPair (seriesA seriesB : List F) :
    (sanitizeAlignedPair seriesA seriesB).1.length =
      (sanitizeAlignedPair seriesA seriesB).2.length := by
  simp [sanitizeAlignedPair]

/-- **The correlation of a factor** is that of its pairs. -/
theorem correlation_of_pairs (i : ℕ) (h : correlatedPairs cfg factor = some pairs) :
    (prepareFactor cfg i factor).correlation =
      pearsonCorrelation (pairs.map Prod.fst) (pairs.map Prod.snd) := by
  simp only [correlatedPairs] at h
  split at h
  · simp at h
  rename_i henabled
  split at h
  · simp at h
  rename_i hfactor
  split at h
  · simp at h
  rename_i hreturn
  split at h
  · simp at h
  rename_i hlen
  split at h
  · simp at h
  rename_i haligned
  obtain rfl := Option.some.inj h
  rw [List.map_fst_zip (length_sanitizeAlignedPair _ _).le,
    List.map_snd_zip (length_sanitizeAlignedPair _ _).ge]
  rw [alignedLen] at hlen haligned ⊢
  simp only [prepareFactor, if_neg henabled, if_neg hfactor, if_neg hreturn, if_neg hlen,
    if_neg haligned, apply_ite PreparedFactor.correlation, rejectedFactor, ite_self]

/-- Some pairs are taken, of values from both series. -/
theorem alignedLen_le (cfg : SignalBuildConfig F) (factor : FactorInput F) :
    alignedLen cfg factor ≤ (sanitizeSeries factor.series).length ∧
      alignedLen cfg factor ≤ (sanitizeSeries factor.returnSeries).length :=
  ⟨(min_le_left _ _).trans (min_le_left _ _), (min_le_left _ _).trans (min_le_right _ _)⟩

omit [Double F] in
theorem tail_eq_lastN (values : List F) : tail values n = lastN n values := by
  rw [tail]
  split
  · rename_i h
    rw [h, lastN_zero]
  · split
    · rename_i h
      rw [lastN, Nat.sub_eq_zero_of_le h, List.drop_zero]
    · rfl

/-- Aligning finite series of one length keeps them. -/
theorem sanitizeAlignedPair_of_finite {as bs : List F} (hlen : as.length = bs.length)
    (ha : ∀ a ∈ as, Double.isFinite a = true) (hb : ∀ b ∈ bs, Double.isFinite b = true) :
    sanitizeAlignedPair as bs = (as, bs) := by
  have hall : (as.zip bs).filter (fun p => Double.isFinite p.1 && Double.isFinite p.2) =
      as.zip bs := by
    refine List.filter_eq_self.mpr fun p hp => ?_
    obtain ⟨hpa, hpb⟩ := List.of_mem_zip hp
    rw [ha _ hpa, hb _ hpb, Bool.and_self]
  simp only [sanitizeAlignedPair, hlen, min_self, Nat.sub_self, List.drop_zero, hall]
  rw [List.unzip_zip hlen]

/-- **The pairs of a factor** are the last finite values of each series, side by side. -/
theorem correlatedPairs_eq (h : correlatedPairs cfg factor = some pairs) :
    pairs = (lastN (alignedLen cfg factor) (sanitizeSeries factor.series)).zip
      (lastN (alignedLen cfg factor) (sanitizeSeries factor.returnSeries)) := by
  have hfinite : ∀ (values : List F), ∀ x ∈ lastN (alignedLen cfg factor) (sanitizeSeries values),
      Double.isFinite x = true := fun values x hx => (List.mem_filter.mp (mem_of_mem_lastN hx)).2
  obtain ⟨hle, hle'⟩ := alignedLen_le cfg factor
  simp only [correlatedPairs, tail_eq_lastN] at h
  rw [sanitizeAlignedPair_of_finite ((length_lastN hle).trans (length_lastN hle').symm)
    (hfinite _) (hfinite _)] at h
  repeat' split at h
  all_goals simp_all

/-- **The pairs are the last bars where both values are finite** exactly when the values at the
other bars do not matter. -/
theorem suffix_finiteBars_iff (cfg : SignalBuildConfig F) (factor : FactorInput F)
    (pairs : List (F × F)) (h : correlatedPairs cfg factor = some pairs) :
    pairs <:+ finiteBars factor ↔ BarsMatch factor (alignedLen cfg factor) := by
  obtain ⟨hle, hle'⟩ := alignedLen_le cfg factor
  rw [correlatedPairs_eq h]
  have hlen := length_lastN hle
  have hlen' := length_lastN hle'
  generalize alignedLen cfg factor = n at *
  generalize hseries : lastN n (sanitizeSeries factor.series) = as at *
  generalize hreturns : lastN n (sanitizeSeries factor.returnSeries) = bs at *
  have hboth : as.length = bs.length := hlen.trans hlen'.symm
  constructor
  · rintro ⟨front, hfront⟩
    have hfst : (finiteBars factor).map Prod.fst = front.map Prod.fst ++ as := by
      rw [← hfront, List.map_append, List.map_fst_zip hboth.le]
    have hsnd : (finiteBars factor).map Prod.snd = front.map Prod.snd ++ bs := by
      rw [← hfront, List.map_append, List.map_snd_zip hboth.ge]
    refine ⟨?_, ?_⟩
    · rw [hseries, hfst, ← hlen, lastN_append_length]
    · rw [hreturns, hsnd, ← hlen', lastN_append_length]
  · rintro ⟨hfst, hsnd⟩
    rw [hseries, lastN_map] at hfst
    rw [hreturns, lastN_map] at hsnd
    have hzip : as.zip bs = lastN n (finiteBars factor) := by
      rw [hfst, hsnd, List.zip_map', List.map_id']
    rw [hzip]
    exact List.drop_suffix _ _

/-- **When no bar of the window has only one finite value**, the values at the other bars do not
matter. -/
theorem barsMatch_of_back {front back : List (F × F)}
    (hlen : factor.series.length = factor.returnSeries.length)
    (hbars : factor.series.zip factor.returnSeries = front ++ back)
    (hback : ∀ p ∈ back, Double.isFinite p.1 = Double.isFinite p.2)
    (hn : n ≤ (back.filter fun p => Double.isFinite p.1 && Double.isFinite p.2).length) :
    BarsMatch factor n := by
  have hside : ∀ f : F × F → F, (∀ p ∈ back, Double.isFinite (f p) =
      (Double.isFinite p.1 && Double.isFinite p.2)) →
        lastN n (sanitizeSeries ((factor.series.zip factor.returnSeries).map f)) =
          lastN n ((finiteBars factor).map f) := by
    intro f hf
    have hfilter : back.filter (Double.isFinite ∘ f) =
        back.filter fun p => Double.isFinite p.1 && Double.isFinite p.2 :=
      List.filter_congr hf
    have hn' : n ≤ ((back.filter fun p => Double.isFinite p.1 && Double.isFinite p.2).map
        f).length := by rwa [List.length_map]
    rw [sanitizeSeries, List.filter_map, finiteBars, hbars, List.filter_append, List.filter_append,
      List.map_append, List.map_append, hfilter, lastN_append _ hn', lastN_append _ hn']
  refine ⟨?_, ?_⟩
  · rw [← hside Prod.fst fun p hp => by rw [← hback p hp, Bool.and_self],
      List.map_fst_zip hlen.le]
  · rw [← hside Prod.snd fun p hp => by rw [hback p hp, Bool.and_self],
      List.map_snd_zip hlen.ge]

end Pairs

/-! ### Fixed series -/

/-- A factor with a series and returns. -/
def sampleFactor (series returnSeries : List (Extended ℚ)) : FactorInput (Extended ℚ) where
  name := "rsi"
  series := series
  returnSeries := returnSeries
  weight := .fin 1
  rollingWindow := none
  currentValue := none
  directionHint := none
  enabled := true

/-- A configuration with a window of four values. -/
def sampleConfig : SignalBuildConfig (Extended ℚ) where
  rollingWindow := 4
  minHistory := 2
  minAbsCorrelation := .fin 0
  rankDecay := .fin 1
  weightMode := .equal
  winsorizeZscoreAt := .fin 3
  meanReturn := none
  stdReturn := none
  regimeFilter := none
  volatilityFilter := none

/-- A value of the series that is missing at the second of three bars pairs the first one with the
return of the second bar. -/
theorem missing_shifts_pairs :
    ¬ ∀ pairs, correlatedPairs sampleConfig
        (sampleFactor [.fin 1, .nan, .fin 2] [.fin 10, .fin 20, .fin 30]) = some pairs →
      pairs <:+ finiteBars (sampleFactor [.fin 1, .nan, .fin 2] [.fin 10, .fin 20, .fin 30]) := by
  intro h
  exact absurd (h [(.fin 1, .fin 20), (.fin 2, .fin 30)] (by decide +kernel)) (by decide +kernel)

/-- A factor with a bar where both values are missing. -/
def gappedFactor : FactorInput (Extended ℚ) :=
  sampleFactor [.fin 1, .nan, .fin 2] [.fin 10, .nan, .fin 30]

/-- Such a bar is left out. -/
theorem gapped_suffix : [(.fin 1, .fin 10), (.fin 2, .fin 30)] <:+ finiteBars gappedFactor := by
  refine (suffix_finiteBars_iff sampleConfig _ _ (by decide +kernel)).mpr ?_
  have hbars : gappedFactor.series.zip gappedFactor.returnSeries =
      [] ++ gappedFactor.series.zip gappedFactor.returnSeries := rfl
  exact barsMatch_of_back rfl hbars (by decide +kernel) (by decide +kernel)

end HftPlatform.ZscoreModel
