import HftPlatform.Lib.Extended
import HftPlatform.Lib.OrderedMap
import HftPlatform.SignalEngine

/-!
# The alignment of factors and returns

A transition leads from an accepted feature of a symbol to the next one: it has the factors of the
first and the return between the two. The histories of a symbol keep the ends of what its
transitions have; each of them skips the transitions that do not have its factor.

## Main results

* `returnHistory_run`, `factorHistory_run`: what the histories keep.
* `aligned_iff`: at every point the histories are aligned exactly when no transition lacks a
  factor that an earlier one had.
* `gap_misaligned`: a factor that is missing once is paired with the wrong return.
-/

namespace HftPlatform.SignalEngine

open Lib Extended
open Std (TreeMap)

section Transitions

variable {F : Type} [Double F]

/-- What the features of a symbol that follow each other have: the number of the second one, the
factors of the first one, and the return. -/
structure Transition (F : Type) where
  number : ℕ
  factors : TreeMap String F
  ret : F

/-- The accepted features of a symbol, with their numbers. -/
def acceptedOf (symbol : String) (features : List (FeatureState F)) : List (FeatureState F × ℕ) :=
  features.zipIdx.filter fun p => accepted p.1 && p.1.symbol = symbol

/-- The transition between two accepted features, where the return is a number. -/
def transitionOf (a b : FeatureState F) (number : ℕ) : Option (Transition F) :=
  let ret := (b.vwap - a.vwap) / a.vwap
  if Double.lt epsilon (Double.abs a.vwap) && Double.isFinite ret then
    some ⟨number, extractFactorSnapshot a, ret⟩
  else none

/-- The transitions of a symbol. -/
def transitions (symbol : String) (features : List (FeatureState F)) : List (Transition F) :=
  (consecutive (acceptedOf symbol features)).filterMap fun (a, b) => transitionOf a.1 b.1 b.2

/-- The value of a factor in a transition. -/
def Transition.factor (name : String) (t : Transition F) : Option F := t.factors[name]?

variable {symbol : String} {features : List (FeatureState F)} {feature : FeatureState F}

/-! ### One more feature -/

/-- A feature is the last accepted one, or nothing to its symbol. -/
theorem acceptedOf_append : acceptedOf symbol (features ++ [feature]) =
    acceptedOf symbol features ++
      if accepted feature && feature.symbol = symbol then [(feature, features.length)] else [] := by
  rw [acceptedOf, acceptedOf, List.zipIdx_append, List.filter_append]
  simp only [List.zipIdx_singleton, Nat.zero_add, List.filter_singleton, Bool.cond_eq_ite]

/-- A feature that is accepted ends at most one transition. -/
theorem transitions_append (h : (accepted feature && feature.symbol = symbol) = true) :
    transitions symbol (features ++ [feature]) = transitions symbol features ++
      ((acceptedOf symbol features).getLast?.bind
        fun last => transitionOf last.1 feature features.length).toList := by
  rw [transitions, acceptedOf_append, if_pos h, consecutive_append_singleton, List.filterMap_append,
    ← transitions]
  cases (acceptedOf symbol features).getLast? with
  | none => rfl
  | some last => cases hnext : transitionOf last.1 feature features.length <;> simp [hnext]

/-- A feature that is not accepted ends no transition. -/
theorem transitions_append_of_not (h : (accepted feature && feature.symbol = symbol) ≠ true) :
    transitions symbol (features ++ [feature]) = transitions symbol features := by
  rw [transitions, acceptedOf_append, if_neg h, List.append_nil, transitions]

/-! ### What the histories keep -/

variable {α : Type} {cfg : RuntimeConfig F} {mark : ℕ → F → α}

/-- **A run goes on** with the next feature and its number. -/
theorem run_append : run cfg mark (features ++ [feature]) =
    absorb cfg (mark features.length) (run cfg mark features) feature := by
  rw [run, List.zipIdx_append, List.foldl_append, ← run]
  simp only [List.zipIdx_singleton, Nat.zero_add, List.foldl_cons, List.foldl_nil]

/-- What was pushed onto the history of a factor. -/
def observed (mark : ℕ → F → α) (name : String) (ts : List (Transition F)) : List α :=
  ts.filterMap fun t => (t.factor name).map (mark t.number)

/-- The state of a symbol after its features: the last accepted one waits for the next, and the
histories are the ends of what the transitions have. -/
structure Recorded (cfg : RuntimeConfig F) (mark : ℕ → F → α) (last : Option (FeatureState F))
    (ts : List (Transition F)) (state : SymbolState F α) : Prop where
  lastVwap : state.lastVwap = last.map (·.vwap)
  pendingFactors : state.pendingFactors = last.map extractFactorSnapshot
  returnHistory : state.returnHistory =
    lastN cfg.historyCapacity (ts.map fun t => mark t.number t.ret)
  factorHistories : ∀ name, state.factorHistories[name]? =
    if observed mark name ts = [] then none
    else some (lastN cfg.historyCapacity (observed mark name ts))

theorem pushCapped_eq (queue : List α) (value : α) (n : ℕ) :
    pushCapped queue value n = lastN n (queue ++ [value]) := rfl

omit [Double F] in
/-- What the loop over the factors leaves in a history. -/
theorem getElem?_pushFactors (capacity : ℕ) (mark : F → α) (factors : TreeMap String F)
    (histories : TreeMap String (List α)) (name : String) :
    (pushFactors capacity mark factors histories)[name]? =
      match factors[name]? with
      | some value => some (pushCapped (histories[name]?.getD []) (mark value) capacity)
      | none => histories[name]? :=
  getElem?_foldl_insert (fun history value => pushCapped (history.getD []) (mark value) capacity)
    factors histories name

omit [Double F] in
/-- A transition is pushed onto the history of each of its factors. -/
theorem getElem?_pushFactors_observed {histories : TreeMap String (List α)} {name : String}
    {ts : List (Transition F)} (t : Transition F)
    (h : histories[name]? = if observed mark name ts = [] then none
      else some (lastN cfg.historyCapacity (observed mark name ts))) :
    (pushFactors cfg.historyCapacity (mark t.number) t.factors histories)[name]? =
      if observed mark name (ts ++ [t]) = [] then none
      else some (lastN cfg.historyCapacity (observed mark name (ts ++ [t]))) := by
  have hobserved : observed mark name (ts ++ [t]) =
      observed mark name ts ++ ((t.factor name).map (mark t.number)).toList := by
    rw [observed, List.filterMap_append, ← observed]
    cases hfactor : t.factor name <;> simp [hfactor]
  have hgetD : histories[name]?.getD [] =
      lastN cfg.historyCapacity (observed mark name ts) := by
    rw [h]
    split
    · rename_i hnil
      rw [hnil, lastN_nil]
      rfl
    · rfl
  rw [getElem?_pushFactors, hobserved, Transition.factor]
  cases t.factors[name]? with
  | none =>
      simp only [Option.map_none, Option.toList_none, List.append_nil]
      exact h
  | some value =>
      have hne : observed mark name ts ++ ((some value).map (mark t.number)).toList ≠ [] := by
        simp
      rw [if_neg hne, hgetD]
      exact congrArg some (lastN_push _ _ _)

/-- The default state, before the first feature. -/
theorem Recorded.init : Recorded cfg mark none [] ({} : SymbolState F α) where
  lastVwap := rfl
  pendingFactors := rfl
  returnHistory := (lastN_nil _).symm
  factorHistories _ := TreeMap.getElem?_emptyc

variable {last : Option (FeatureState F)} {ts : List (Transition F)} {state : SymbolState F α}

/-- The history of the volatility is another one. -/
theorem Recorded.pushVolatility (h : Recorded cfg mark last ts state) (feature : FeatureState F) :
    Recorded cfg mark last ts (state.pushVolatility cfg feature) := by
  rw [SymbolState.pushVolatility]
  split
  · exact ⟨h.lastVwap, h.pendingFactors, h.returnHistory, h.factorHistories⟩
  · exact h

/-- **The transition that the last feature began** is pushed when the next one ends it. -/
theorem Recorded.pushReturn (h : Recorded cfg mark last ts state) (feature : FeatureState F)
    (number : ℕ) :
    Recorded cfg mark last (ts ++ (last.bind fun a => transitionOf a feature number).toList)
      (state.pushReturn cfg (mark number) feature) := by
  cases last with
  | none =>
      rw [SymbolState.pushReturn, h.lastVwap, Option.bind_none, Option.toList_none, List.append_nil]
      exact h
  | some a =>
      have hvwap : state.lastVwap = some a.vwap := h.lastVwap
      have hfactors : state.pendingFactors = some (extractFactorSnapshot a) := h.pendingFactors
      rw [SymbolState.pushReturn, hvwap, hfactors, Option.bind_some, transitionOf]
      dsimp only
      split
      · have hreturns : pushCapped state.returnHistory
            (mark number ((feature.vwap - a.vwap) / a.vwap)) cfg.historyCapacity =
              lastN cfg.historyCapacity (ts.map (fun t => mark t.number t.ret) ++
                [mark number ((feature.vwap - a.vwap) / a.vwap)]) := by
          rw [h.returnHistory, pushCapped_eq, lastN_push]
        exact
          { lastVwap := rfl
            pendingFactors := rfl
            returnHistory := by rw [hreturns, List.map_append]; rfl
            factorHistories := fun name => getElem?_pushFactors_observed
              ⟨number, extractFactorSnapshot a, (feature.vwap - a.vwap) / a.vwap⟩
              (h.factorHistories name) }
      · rw [Option.toList_none, List.append_nil]
        exact h

/-- **An accepted feature** becomes the last one. -/
theorem Recorded.record (h : Recorded cfg mark last ts state) (feature : FeatureState F)
    (number : ℕ) :
    Recorded cfg mark (some feature)
      (ts ++ (last.bind fun a => transitionOf a feature number).toList)
      (state.record cfg (mark number) feature (extractFactorSnapshot feature)) :=
  let pushed := (h.pushVolatility feature).pushReturn feature number
  ⟨rfl, rfl, pushed.returnHistory, pushed.factorHistories⟩

/-- **What a run keeps** of the features of a symbol. -/
theorem recorded_run (cfg : RuntimeConfig F) (mark : ℕ → F → α) (symbol : String)
    (features : List (FeatureState F)) :
    Recorded cfg mark ((acceptedOf symbol features).getLast?.map Prod.fst)
      (transitions symbol features) (run cfg mark features symbol) := by
  induction features using List.reverseRecOn with
  | nil => exact Recorded.init
  | append_singleton features feature ih =>
      rw [run_append, absorb]
      by_cases haccepted : accepted feature = true
      · by_cases hsymbol : feature.symbol = symbol
        · have hnext : (accepted feature && feature.symbol = symbol) = true := by
            simp [haccepted, hsymbol]
          have hlast : (acceptedOf symbol (features ++ [feature])).getLast? =
              some (feature, features.length) := by
            rw [acceptedOf_append, if_pos hnext, List.getLast?_concat]
          have hstep := ih.record feature features.length
          rw [if_pos haccepted, hsymbol, Function.update_self, hlast, transitions_append hnext]
          cases hprev : (acceptedOf symbol features).getLast? with
          | none => rw [hprev] at hstep; exact hstep
          | some prev => rw [hprev] at hstep; exact hstep
        · have hother : (accepted feature && feature.symbol = symbol) ≠ true := by
            simp [hsymbol]
          rw [if_pos haccepted, Function.update_of_ne (Ne.symm hsymbol),
            transitions_append_of_not hother, acceptedOf_append, if_neg hother, List.append_nil]
          exact ih
      · have hnot : (accepted feature && feature.symbol = symbol) ≠ true := by
          simp [haccepted]
        rw [if_neg haccepted, transitions_append_of_not hnot, acceptedOf_append, if_neg hnot,
          List.append_nil]
        exact ih

/-! ### Points of a run -/

/-- A feature ends at most one transition, and gives it its number. -/
theorem exists_transitions_append (symbol : String) (features : List (FeatureState F))
    (feature : FeatureState F) : ∃ next : Option (Transition F),
      transitions symbol (features ++ [feature]) = transitions symbol features ++ next.toList ∧
        ∀ t ∈ next, t.number = features.length := by
  by_cases h : (accepted feature && feature.symbol = symbol) = true
  · refine ⟨_, transitions_append h, fun t ht => ?_⟩
    obtain ⟨last, -, hlast⟩ := Option.mem_bind_iff.mp ht
    rw [Option.mem_def, transitionOf] at hlast
    split at hlast
    · cases hlast
      rfl
    · cases hlast
  · exact ⟨none, by rw [transitions_append_of_not h, Option.toList_none, List.append_nil],
      fun t ht => by cases ht⟩

/-- **Transitions have numbers of their own.** -/
theorem nodup_number (symbol : String) (features : List (FeatureState F)) :
    ((transitions symbol features).map (·.number)).Nodup ∧
      ∀ t ∈ transitions symbol features, t.number < features.length := by
  induction features using List.reverseRecOn with
  | nil => exact ⟨List.nodup_nil, fun t ht => by cases ht⟩
  | append_singleton features feature ih =>
      obtain ⟨next, hnext, hnumber⟩ := exists_transitions_append symbol features feature
      rw [hnext, List.length_append]
      cases next with
      | none =>
          rw [Option.toList_none, List.append_nil]
          exact ⟨ih.1, fun t ht => Nat.lt_succ_of_lt (ih.2 t ht)⟩
      | some t =>
          have ht : t.number = features.length := hnumber t rfl
          rw [Option.toList_some, List.map_append, List.nodup_append]
          refine ⟨⟨ih.1, List.nodup_singleton _, ?_⟩, ?_⟩
          · intro m hm n hn heq
            obtain ⟨u, hu, rfl⟩ := List.mem_map.mp hm
            obtain rfl : n = t.number := List.mem_singleton.mp hn
            exact absurd (ih.2 u hu) (by omega)
          · intro u hu
            rcases List.mem_append.mp hu with hu | hu
            · exact Nat.lt_succ_of_lt (ih.2 u hu)
            · rw [List.mem_singleton.mp hu, ht]
              exact Nat.lt_succ_self _

/-- **The points of a run** are the points of its transitions. -/
theorem transitions_prefix_iff {symbol : String} {features : List (FeatureState F)}
    {ts : List (Transition F)} :
    ts <+: transitions symbol features ↔ ∃ pre, pre <+: features ∧ transitions symbol pre = ts := by
  induction features using List.reverseRecOn with
  | nil =>
      constructor
      · intro h
        exact ⟨[], List.prefix_refl _, (List.prefix_nil.mp h).symm⟩
      · rintro ⟨pre, hpre, rfl⟩
        rw [List.prefix_nil.mp hpre]
  | append_singleton features feature ih =>
      obtain ⟨next, hnext, -⟩ := exists_transitions_append symbol features feature
      have hpoints : ts <+: transitions symbol (features ++ [feature]) ↔
          ts = transitions symbol (features ++ [feature]) ∨ ts <+: transitions symbol features := by
        rw [hnext]
        cases next with
        | none =>
            rw [Option.toList_none, List.append_nil]
            exact ⟨Or.inr, fun h => h.elim (fun heq => heq ▸ List.prefix_refl _) id⟩
        | some t => exact List.prefix_concat_iff
      rw [hpoints, ih]
      constructor
      · rintro (rfl | ⟨pre, hpre, rfl⟩)
        · exact ⟨_, List.prefix_refl _, rfl⟩
        · exact ⟨pre, hpre.trans (List.prefix_append _ _), rfl⟩
      · rintro ⟨pre, hpre, rfl⟩
        rcases List.prefix_concat_iff.mp hpre with rfl | hpre
        · exact Or.inl rfl
        · exact Or.inr ⟨pre, hpre, rfl⟩

/-! ### Alignment -/

/-- **The alignment of a state** whose histories keep the number of the transition with each value:
counted from the end, a factor and a return are of one transition. -/
def Aligned (state : SymbolState F (ℕ × F)) : Prop :=
  ∀ (name : String) (history : List (ℕ × F)), state.factorHistories[name]? = some history →
    EndAligned (history.map Prod.fst) (state.returnHistory.map Prod.fst)

/-- No transition lacks a factor that an earlier one had. -/
def NoGap (ts : List (Transition F)) : Prop :=
  ∀ name, ts.Pairwise fun t u => (t.factor name).isSome = true → (u.factor name).isSome = true

omit [Double F] in
/-- The numbers of what was pushed are those of the transitions with the factor. -/
theorem map_fst_observed (name : String) (ts : List (Transition F)) :
    (observed Prod.mk name ts).map Prod.fst =
      (ts.filter fun t => (t.factor name).isSome).map (·.number) := by
  induction ts with
  | nil => rfl
  | cons t ts ih =>
      rw [observed] at ih ⊢
      cases hfactor : t.factor name with
      | none => simpa [hfactor] using ih
      | some value => simpa [hfactor] using ih

/-- The numbers in the histories after a run. -/
theorem aligned_run_iff :
    Aligned (run cfg Prod.mk features symbol) ↔ ∀ name, EndAligned
      ((lastN cfg.historyCapacity ((transitions symbol features).filter
        fun t => (t.factor name).isSome)).map (·.number))
      ((lastN cfg.historyCapacity (transitions symbol features)).map (·.number)) := by
  have hrun := recorded_run cfg Prod.mk symbol features
  have hreturns : (run cfg Prod.mk features symbol).returnHistory.map Prod.fst =
      (lastN cfg.historyCapacity (transitions symbol features)).map (·.number) := by
    rw [hrun.returnHistory, lastN_map, List.map_map]
    rfl
  have hfactors : ∀ name, (lastN cfg.historyCapacity
      (observed Prod.mk name (transitions symbol features))).map Prod.fst =
        (lastN cfg.historyCapacity ((transitions symbol features).filter
          fun t => (t.factor name).isSome)).map (·.number) := by
    intro name
    rw [← lastN_map, map_fst_observed, lastN_map]
  constructor
  · intro haligned name
    by_cases hnil : observed Prod.mk name (transitions symbol features) = []
    · rw [← hfactors, hnil, lastN_nil]
      exact endAligned_nil _
    · have hhistory := hrun.factorHistories name
      rw [if_neg hnil] at hhistory
      rw [← hfactors, ← hreturns]
      exact haligned name _ hhistory
  · intro haligned name history hhistory
    rw [hrun.factorHistories name] at hhistory
    split at hhistory
    · cases hhistory
    · obtain rfl := Option.some.inj hhistory
      rw [hfactors, hreturns]
      exact haligned name

/-- **When factors and returns are aligned at every point of a run.** -/
theorem aligned_iff (cfg : RuntimeConfig F) (features : List (FeatureState F)) (symbol : String) :
    (∀ pre, pre <+: features → Aligned (run cfg Prod.mk pre symbol)) ↔
      cfg.historyCapacity = 0 ∨ NoGap (transitions symbol features) := by
  have hpoints : (∀ pre, pre <+: features → Aligned (run cfg Prod.mk pre symbol)) ↔
      ∀ name, ∀ ts, ts <+: transitions symbol features → EndAligned
        ((lastN cfg.historyCapacity (ts.filter fun t => (t.factor name).isSome)).map (·.number))
        ((lastN cfg.historyCapacity ts).map (·.number)) := by
    constructor
    · intro h name ts hts
      obtain ⟨pre, hpre, rfl⟩ := transitions_prefix_iff.mp hts
      exact aligned_run_iff.mp (h pre hpre) name
    · intro h pre hpre
      exact aligned_run_iff.mpr fun name => h name _ (transitions_prefix_iff.mpr ⟨pre, hpre, rfl⟩)
  rw [hpoints]
  simp only [endAligned_prefixes_iff (nodup_number symbol features).1, forall_or_left, NoGap]

/-- The histories of the engine are those of a run with marks, without the marks. -/
theorem run_unmarked (cfg : RuntimeConfig F) (features : List (FeatureState F)) (symbol : String) :
    (run cfg (fun _ value => value) features symbol).returnHistory =
        (run cfg Prod.mk features symbol).returnHistory.map Prod.snd ∧
      ∀ name : String, (run cfg (fun _ value => value) features symbol).factorHistories[name]? =
        (run cfg Prod.mk features symbol).factorHistories[name]?.map (·.map Prod.snd) := by
  have hplain := recorded_run cfg (fun _ value => value) symbol features
  have hmarked := recorded_run cfg Prod.mk symbol features
  have hobserved : ∀ name, observed (fun _ value => value) name (transitions symbol features) =
      (observed Prod.mk name (transitions symbol features)).map Prod.snd := by
    intro name
    rw [observed, observed, List.map_filterMap]
    exact List.filterMap_congr fun t _ => by rw [Option.map_map]; rfl
  constructor
  · rw [hplain.returnHistory, hmarked.returnHistory, ← lastN_map, List.map_map]
    rfl
  · intro name
    rw [hplain.factorHistories name, hmarked.factorHistories name, hobserved, lastN_map]
    by_cases hnil : observed Prod.mk name (transitions symbol features) = []
    · rw [if_pos hnil, if_pos (by rw [hnil]; rfl)]
      rfl
    · rw [if_neg hnil, if_neg (by simpa using hnil)]
      rfl

/-- The turns of the main loop leave the states of the run. -/
theorem run_onFeature (show4 : F → String) (cfg : RuntimeConfig F)
    (features : List (FeatureState F)) :
    features.foldl (fun states feature => (onFeature show4 cfg states feature).1) (fun _ => {}) =
      run cfg (fun _ value => value) features := by
  induction features using List.reverseRecOn with
  | nil => rfl
  | append_singleton features feature ih =>
      rw [List.foldl_append, ih, run_append]
      rfl

end Transitions

/-! ### A gap -/

/-- A feature with a price and a histogram. -/
def sampleFeature (vwap macdHist : Extended ℚ) : FeatureState (Extended ℚ) where
  symbol := "BTCUSDT"
  emaFast := fin 101
  emaSlow := fin 100
  rsi := fin 55
  macdHist := macdHist
  vwap := vwap
  adx := fin 30
  atr := fin 2
  regime := 3
  volZscore := fin 1
  oiChangePct := fin 0

/-- The second of three features has no histogram. -/
def gapFeatures : List (FeatureState (Extended ℚ)) :=
  [sampleFeature (fin 100) (fin 5), sampleFeature (fin 101) nan, sampleFeature (fin 102) (fin 7)]

/-- The defaults of the engine. -/
def defaultConfig : RuntimeConfig (Extended ℚ) where
  signalThreshold := fin (2 / 10)
  historyCapacity := 480
  modelConfig :=
    { rollingWindow := 120
      minHistory := 30
      minAbsCorrelation := fin (3 / 100)
      rankDecay := fin (85 / 100)
      weightMode := .equal
      winsorizeZscoreAt := fin 4
      meanReturn := none
      stdReturn := none
      regimeFilter := none
      volatilityFilter := none }
  regimeFilterEnabled := true
  allowedRegimes := ["TREND_UP", "TREND_DOWN", "RANGE", "VOL_COMPRESSION", "VOL_EXPANSION"]
  volFilterEnabled := true
  volMinZscore := fin (-25 / 10)
  volMaxZscore := fin (25 / 10)

/-- **A factor that is missing once** stands beside the return of another transition: the
histogram of the first transition ends its history, and the return of the second one ends that of
the returns. -/
theorem gap_misaligned : ¬∀ pre, pre <+: gapFeatures →
    Aligned (run defaultConfig Prod.mk pre "BTCUSDT") := by
  intro h
  have hhistory : (run defaultConfig Prod.mk gapFeatures "BTCUSDT").factorHistories["macd_hist"]? =
      some [(1, fin 5)] := by
    decide +kernel
  have hreturns : (run defaultConfig Prod.mk gapFeatures "BTCUSDT").returnHistory.map Prod.fst =
      [1, 2] := by
    decide +kernel
  have hends := (h gapFeatures (List.prefix_refl _) "macd_hist" _ hhistory).getLast?
  rw [hreturns] at hends
  exact absurd (hends (by decide) (by decide)) (by decide)

end HftPlatform.SignalEngine
