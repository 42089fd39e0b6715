import HftPlatform.FeaturePipeline
import HftPlatform.Lib.Isolation
import HftPlatform.Throttle

/-!
# One symbol among others

The feature engine and the signal engine read one stream of candles of all symbols, in the order in
which it happens to arrive. Both keep what they know under the symbol. This module says that what
comes out for a symbol depends on the candles of this symbol only.

## Main results

* `offer_of_candle`: what a call of the handler does with a closed candle, as an equation.
* `separate_pipelineStep`: no candle reads or writes what is kept for another symbol.
* `signals_of_symbol`: the vectors and signals of a symbol are those of a service that sees no
  other.
-/

namespace HftPlatform.FeaturePipeline

open Lib Mq
open FeatureEngine (Candle Config Engine FeatureVector SymbolState closedCandle handleMessage
  handleMessage_cases)
open SignalEngine (FeatureState RuntimeConfig SignalRecord onFeature)
open ZscoreModel (SignalResult)

section Pipeline

variable {F : Type} [Double F] (decode : List UInt8 → Option (Candle F)) (cfg : Config)
  (show4 : F → String) (runtime : RuntimeConfig F)

/-- The feature engine with the signal engine behind it. -/
structure Services (F : Type) where
  engine : Engine F := {}
  states : String → SignalEngine.SymbolState F F := fun _ => {}

/-- A message of the candle topic goes through both services; what is said about it is the feature
vector, if one is published, and the signal that is made of it, if there is one. -/
def pipelineStep (s : Services F) (i : MessageCtx × FeatureEngine.Call) :
    Services F × Option (FeatureVector F × Option (SignalResult F × SignalRecord F)) :=
  let offered := s.engine.offer decode cfg i
  match offered.2 with
  | none => ({ s with engine := offered.1 }, none)
  | some fv =>
      let turned := onFeature show4 runtime s.states (received (Md.publish fv))
      (⟨offered.1, turned.1⟩, some (fv, turned.2))

/-- The symbol of a message, if it is a closed candle. -/
def symbolOf (i : MessageCtx × FeatureEngine.Call) : Option String :=
  (closedCandle decode i.1).map (·.symbol)

/-- What both services keep for a symbol. -/
def Services.part (symbol : Option String) (s : Services F) :
    Option (Option (SymbolState F) × Option ℕ × SignalEngine.SymbolState F F) :=
  symbol.map fun k => (s.engine.registry k, s.engine.throttle k, s.states k)

/-- Every state is kept under its own symbol. -/
def Services.Filed (s : Services F) : Prop :=
  ∀ symbol state, s.engine.registry symbol = some state → state.symbol = symbol

variable {decode cfg show4 runtime}

/-- **What a call of the handler does** with a closed candle. -/
theorem offer_of_candle {i : MessageCtx × FeatureEngine.Call} {candle : Candle F}
    (hcandle : closedCandle decode i.1 = some candle) (s : Engine F) :
    s.offer decode cfg i =
      if s.throttled cfg candle.symbol i.2.checked then (s, none)
      else match s.getOrCreate cfg candle.symbol with
        | none => (s, none)
        | some state =>
            match i.2.publish with
            | .error _ => (s.take state candle, none)
            | .ok () => ((s.take state candle).publish cfg (state.update candle).2 i.2.recorded,
                some (state.update candle).2) := by
  rcases handleMessage_cases decode cfg i.1 i.2 s with ⟨hnone, -⟩ | ⟨candle', hcandle', htaken⟩
  · rw [hcandle] at hnone
    cases hnone
  · obtain rfl : candle = candle' := Option.some.inj (hcandle.symm.trans hcandle')
    rw [Engine.offer]
    generalize handleMessage decode cfg i.1 i.2 s = r at htaken ⊢
    cases htaken with
    | throttled hthrottled => simp [hthrottled]
    | panicked hthrottled hstate => simp [hthrottled, hstate]
    | failed state e hthrottled hstate hpublish =>
        simp [hthrottled, hstate, hpublish, Engine.take]
    | published state hthrottled hstate hpublish =>
        simp [hthrottled, hstate, hpublish, Engine.take, Engine.publish]

theorem offer_of_none {i : MessageCtx × FeatureEngine.Call} (hnone : closedCandle decode i.1 = none)
    (s : Engine F) : s.offer decode cfg i = (s, none) := by
  rcases handleMessage_cases decode cfg i.1 i.2 s with ⟨-, hok⟩ | ⟨candle, hcandle, -⟩
  · rw [Engine.offer, hok]
    simp
  · rw [hnone] at hcandle
    cases hcandle

/-- The state that a candle meets is kept under its symbol. -/
theorem symbol_of_getOrCreate {s : Services F} (h : s.Filed) {symbol : String}
    {state : SymbolState F} (hstate : s.engine.getOrCreate cfg symbol = some state) :
    state.symbol = symbol := by
  rw [Engine.getOrCreate] at hstate
  cases hregistry : s.engine.registry symbol with
  | some kept =>
      obtain rfl : kept = state := by simpa [hregistry] using hstate
      exact h symbol kept hregistry
  | none =>
      have hnew : SymbolState.new symbol cfg.periods = some state := by
        simpa [hregistry] using hstate
      simp only [SymbolState.new, bind, Option.bind_eq_some_iff, pure, Option.some.injEq] at hnew
      obtain ⟨-, -, -, -, -, -, -, -, rfl⟩ := hnew
      rfl

omit [Double F] in
/-- What the parts of two services being equal says. -/
theorem part_eq_iff {symbol : String} {s s' : Services F} :
    s.part (some symbol) = s'.part (some symbol) ↔
      s.engine.registry symbol = s'.engine.registry symbol ∧
        s.engine.throttle symbol = s'.engine.throttle symbol ∧
          s.states symbol = s'.states symbol := by
  simp [Services.part]

/-- What the signal engine does with a feature leaves the states of other symbols alone. -/
theorem onFeature_of_ne (show4 : F → String) (states : String → SignalEngine.SymbolState F F)
    (feature : FeatureState F) {symbol : String} (hne : feature.symbol ≠ symbol) :
    (onFeature show4 runtime states feature).1 symbol = states symbol := by
  rw [onFeature, SignalEngine.absorb]
  split
  · exact Function.update_of_ne (Ne.symm hne) ..
  · rfl

/-- What it says of a feature, and the state it leaves of its symbol, depend on this state only. -/
theorem onFeature_congr (show4 : F → String) (runtime : RuntimeConfig F)
    {states states' : String → SignalEngine.SymbolState F F} (feature : FeatureState F)
    (h : states feature.symbol = states' feature.symbol) :
    (onFeature show4 runtime states feature).2 = (onFeature show4 runtime states' feature).2 ∧
      (onFeature show4 runtime states feature).1 feature.symbol =
        (onFeature show4 runtime states' feature).1 feature.symbol := by
  have hstate : SignalEngine.absorb runtime id states feature feature.symbol =
      SignalEngine.absorb runtime id states' feature feature.symbol := by
    rw [SignalEngine.absorb, SignalEngine.absorb]
    split
    · rw [Function.update_self, Function.update_self, h]
    · exact h
  rw [onFeature, onFeature]
  exact ⟨by rw [hstate], hstate⟩

/-- What a message of a closed candle does to both services: nothing, or its candle is taken, or it
is taken and its vector is published and read by the signal engine. -/
theorem pipelineStep_of_candle {i : MessageCtx × FeatureEngine.Call} {candle : Candle F}
    (hcandle : closedCandle decode i.1 = some candle) (s : Services F) :
    pipelineStep decode cfg show4 runtime s i =
      if s.engine.throttled cfg candle.symbol i.2.checked then (s, none)
      else match s.engine.getOrCreate cfg candle.symbol with
        | none => (s, none)
        | some state =>
            match i.2.publish with
            | .error _ => ({ s with engine := s.engine.take state candle }, none)
            | .ok () =>
                let fv := (state.update candle).2
                let turned := onFeature show4 runtime s.states (received (Md.publish fv))
                (⟨(s.engine.take state candle).publish cfg fv i.2.recorded, turned.1⟩,
                  some (fv, turned.2)) := by
  rw [pipelineStep, offer_of_candle hcandle]
  cases s.engine.throttled cfg candle.symbol i.2.checked with
  | true => rfl
  | false =>
      cases s.engine.getOrCreate cfg candle.symbol with
      | none => rfl
      | some state => cases i.2.publish <;> rfl

theorem pipelineStep_of_none {i : MessageCtx × FeatureEngine.Call}
    (hnone : closedCandle decode i.1 = none) (s : Services F) :
    pipelineStep decode cfg show4 runtime s i = (s, none) := by
  rw [pipelineStep, offer_of_none hnone]

/-- Taking a candle keeps states under their symbols. -/
theorem Services.Filed.take {s : Services F} (h : s.Filed) {candle : Candle F}
    {state : SymbolState F} (hsymbol : state.symbol = candle.symbol)
    (states : String → SignalEngine.SymbolState F F) :
    Services.Filed ⟨s.engine.take state candle, states⟩ := by
  intro symbol state' hstate'
  have hupdate : Function.update s.engine.registry candle.symbol (some (state.update candle).1)
      symbol = some state' := hstate'
  by_cases hk : symbol = candle.symbol
  · subst hk
    rw [Function.update_self, Option.some.injEq] at hupdate
    rw [← hupdate, ← hsymbol]
    rfl
  · rw [Function.update_of_ne hk] at hupdate
    exact h symbol state' hupdate

omit [Double F] in
/-- Publishing a vector notes the time under its symbol. -/
theorem throttle_publish (s : Engine F) (fv : FeatureVector F) {recorded : ℕ} {symbol : String}
    (hne : fv.symbol ≠ symbol) :
    (s.publish cfg fv recorded).throttle symbol = s.throttle symbol := by
  rw [Engine.publish]
  split
  · exact Function.update_of_ne (Ne.symm hne) ..
  · rfl

omit [Double F] in
theorem throttle_publish_congr {s s' : Engine F} (fv : FeatureVector F) {recorded : ℕ}
    {symbol : String} (h : s.throttle symbol = s'.throttle symbol) :
    (s.publish cfg fv recorded).throttle symbol = (s'.publish cfg fv recorded).throttle symbol := by
  rw [Engine.publish, Engine.publish]
  split
  · by_cases hk : symbol = fv.symbol
    · subst hk
      dsimp only
      rw [Function.update_self, Function.update_self]
    · exact (Function.update_of_ne hk ..).trans (h.trans (Function.update_of_ne hk ..).symm)
  · exact h

/-- **No message reads or writes** what is kept for another symbol. -/
theorem separate_pipelineStep (decode : List UInt8 → Option (Candle F)) (cfg : Config)
    (show4 : F → String) (runtime : RuntimeConfig F) :
    Machine.Separate (pipelineStep decode cfg show4 runtime) (symbolOf decode) Services.part
      Services.Filed := by
  constructor
  case keeps =>
    intro s i hs
    cases hcandle : closedCandle decode i.1 with
    | none => rwa [pipelineStep_of_none hcandle]
    | some candle =>
        rw [pipelineStep_of_candle hcandle]
        split
        · exact hs
        · cases hstate : s.engine.getOrCreate cfg candle.symbol with
          | none => exact hs
          | some state =>
              have hsymbol := symbol_of_getOrCreate hs hstate
              cases i.2.publish with
              | error e => exact hs.take hsymbol s.states
              | ok u =>
                  exact fun symbol state' hstate' => hs.take hsymbol s.states symbol state' hstate'
  case others =>
    intro s i symbol hs hne
    cases symbol with
    | none => rfl
    | some symbol =>
        cases hcandle : closedCandle decode i.1 with
        | none => rw [pipelineStep_of_none hcandle]
        | some candle =>
            have hk : symbol ≠ candle.symbol := by
              rintro rfl
              exact hne (by rw [symbolOf, hcandle]; rfl)
            rw [pipelineStep_of_candle hcandle]
            split
            · rfl
            · cases hstate : s.engine.getOrCreate cfg candle.symbol with
              | none => rfl
              | some state =>
                  have hsymbol := symbol_of_getOrCreate hs hstate
                  cases i.2.publish with
                  | error e =>
                      refine part_eq_iff.mpr ⟨?_, rfl, rfl⟩
                      exact Function.update_of_ne hk ..
                  | ok u =>
                      refine part_eq_iff.mpr ⟨Function.update_of_ne hk .., ?_, ?_⟩
                      · exact throttle_publish _ _ fun heq => hk (heq.symm.trans hsymbol)
                      · exact onFeature_of_ne show4 _ _ fun heq => hk (heq.symm.trans hsymbol)
  case own =>
    intro s s' i hs hs' hpart
    cases hcandle : closedCandle decode i.1 with
    | none =>
        rw [pipelineStep_of_none hcandle, pipelineStep_of_none hcandle]
        exact ⟨rfl, hpart⟩
    | some candle =>
        have hkey : symbolOf decode i = some candle.symbol := by rw [symbolOf, hcandle]; rfl
        rw [hkey] at hpart ⊢
        obtain ⟨hregistry, hthrottle, hstates⟩ := part_eq_iff.mp hpart
        have hthrottled : s'.engine.throttled cfg candle.symbol i.2.checked =
            s.engine.throttled cfg candle.symbol i.2.checked := by
          rw [Engine.throttled, Engine.throttled, hthrottle]
        have hstate : s'.engine.getOrCreate cfg candle.symbol =
            s.engine.getOrCreate cfg candle.symbol := by
          rw [Engine.getOrCreate, Engine.getOrCreate, hregistry]
        rw [pipelineStep_of_candle hcandle, pipelineStep_of_candle hcandle, hthrottled, hstate]
        split
        · exact ⟨rfl, hpart⟩
        · cases hfound : s.engine.getOrCreate cfg candle.symbol with
          | none => exact ⟨rfl, hpart⟩
          | some state =>
              have hsymbol := symbol_of_getOrCreate hs hfound
              have htake : (s.engine.take state candle).registry candle.symbol =
                  (s'.engine.take state candle).registry candle.symbol := by
                dsimp only [Engine.take]
                rw [Function.update_self, Function.update_self]
              cases i.2.publish with
              | error e => exact ⟨rfl, part_eq_iff.mpr ⟨htake, hthrottle, hstates⟩⟩
              | ok u =>
                  have hfv : (received (Md.publish (state.update candle).2)).symbol =
                      candle.symbol := hsymbol
                  have hread : s.states (received (Md.publish (state.update candle).2)).symbol =
                      s'.states (received (Md.publish (state.update candle).2)).symbol := by
                    rw [hfv, hstates]
                  obtain ⟨hsaid, hafter⟩ := onFeature_congr show4 runtime _ hread
                  rw [hfv] at hafter
                  refine ⟨congrArg (fun turned => some ((state.update candle).2, turned)) hsaid,
                    part_eq_iff.mpr ⟨htake, ?_, hafter⟩⟩
                  exact throttle_publish_congr _ hthrottle

/-- **The vectors and signals of a symbol** are those of services that see its candles only: candles
of other symbols, wherever they arrive in between, change nothing. -/
theorem signals_of_symbol (decode : List UInt8 → Option (Candle F)) (cfg : Config)
    (show4 : F → String) (runtime : RuntimeConfig F)
    (inputs : List (MessageCtx × FeatureEngine.Call)) (symbol : String) :
    Machine.saidOf (pipelineStep decode cfg show4 runtime) (symbolOf decode) (some symbol) {}
        inputs =
      (Machine.run (pipelineStep decode cfg show4 runtime) {}
        (inputs.filter fun i => symbolOf decode i = some symbol)).2 := by
  have hempty : Services.Filed ({} : Services F) := fun _ _ hstate => by cases hstate
  exact ((separate_pipelineStep decode cfg show4 runtime).run hempty hempty rfl inputs).1

end Pipeline

end HftPlatform.FeaturePipeline
