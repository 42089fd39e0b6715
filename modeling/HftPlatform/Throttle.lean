import HftPlatform.FeatureEngine

/-!
# Throttling of feature vectors

A throttled candle is dropped before the indicators see it, so throttling changes not only which
vectors are published but also what they hold. The vectors of two runs over the same candles are
compared, with the throttle on and off, while every publish succeeds.

## Main results

* `exists_took`: the state of a symbol is that after its candles that were not throttled.
* `throttle_suppresses`: the vectors agree when no candle is published after a throttled one of
  its symbol; and the indicators of a symbol agree exactly when none of its candles was throttled.
-/

namespace HftPlatform.FeatureEngine

open Lib Mq

section Calls

variable {F : Type} (decode : List UInt8 → Option (Candle F)) (cfg : Config)

/-- The message is not a candle of the symbol that is throttled. -/
def Unthrottled (symbol : String) (s : Engine F) (i : MessageCtx × Call) : Prop :=
  ∀ candle, closedCandle decode i.1 = some candle → candle.symbol = symbol →
    s.throttled cfg symbol i.2.checked = false

/-- The closed candle of a message, if it is one of the symbol that is not throttled. -/
def Engine.takes (symbol : String) (s : Engine F) (i : MessageCtx × Call) : List (Candle F) :=
  if s.throttled cfg symbol i.2.checked then []
  else (closedCandle decode i.1).toList.filter (·.symbol = symbol)

/-- What is taken is the candle of the message, or nothing. -/
theorem sublist_takes (symbol : String) (s : Engine F) (i : MessageCtx × Call) :
    (s.takes decode cfg symbol i).Sublist
      ((closedCandle decode i.1).toList.filter (·.symbol = symbol)) := by
  rw [Engine.takes]
  split
  · exact List.nil_sublist _
  · exact List.Sublist.refl _

variable {decode cfg}

/-- The candle is taken if it is not throttled. -/
theorem length_takes_iff (symbol : String) (s : Engine F) (i : MessageCtx × Call) :
    (s.takes decode cfg symbol i).length =
        ((closedCandle decode i.1).toList.filter (·.symbol = symbol)).length ↔
      Unthrottled decode cfg symbol s i := by
  rw [Engine.takes, Unthrottled]
  cases hclosed : closedCandle decode i.1 with
  | none => simp
  | some candle =>
      by_cases hsymbol : candle.symbol = symbol
      · cases hthrottled : s.throttled cfg symbol i.2.checked with
        | true => simp [hsymbol]
        | false => simp
      · simp [hsymbol]

end Calls

section Offer

variable {F : Type} [Double F] (decode : List UInt8 → Option (Candle F)) (cfg : Config)

/-- A message is handled; the output is the feature vector that is published for it. -/
def Engine.offer (s : Engine F) (i : MessageCtx × Call) : Engine F × Option (FeatureVector F) :=
  let s' := (handleMessage decode cfg i.1 i.2 s).2
  (s', s'.published[s.published.length]?)

/-- The service after some messages, from its start, with what was published for each. -/
def offers (inputs : List (MessageCtx × Call)) : Engine F × List (Option (FeatureVector F)) :=
  Machine.run (Engine.offer decode cfg) {} inputs

/-- No candle of the symbol is throttled. -/
def NeverThrottled (symbol : String) (inputs : List (MessageCtx × Call)) : Prop :=
  Machine.Along (Engine.offer decode cfg) (Unthrottled decode cfg symbol) {} inputs

/-- No candle is published after a throttled one of its symbol: if the message is a candle that is
not throttled, no candle of its symbol was. -/
def NoResume (past : List (MessageCtx × Call)) (i : MessageCtx × Call) : Prop :=
  ∀ candle, closedCandle decode i.1 = some candle →
    (offers decode cfg past).1.throttled cfg candle.symbol i.2.checked = false →
      NeverThrottled decode cfg candle.symbol past

end Offer

section Compare

variable {F : Type} [Double F] {decode : List UInt8 → Option (Candle F)} {cfg : Config}
  {inputs : List (MessageCtx × Call)}

/-- Without a throttle nothing is throttled. -/
theorem neverThrottled_of_off (hoff : cfg.throttleMs = 0) (symbol : String)
    (inputs : List (MessageCtx × Call)) : NeverThrottled decode cfg symbol inputs := by
  induction inputs using List.reverseRecOn with
  | nil => trivial
  | append_singleton inputs i ih =>
      exact (Machine.along_concat inputs i).mpr ⟨ih, fun _ _ _ => throttled_of_off hoff _ _ _⟩

/-- **A message is taken** into the state of its symbol, unless it is throttled. -/
theorem registry_offer {symbol : String} {s : Engine F} {taken : List (Candle F)}
    (h : s.registry symbol = SymbolState.after cfg.periods symbol taken)
    (i : MessageCtx × Call) : (s.offer decode cfg i).1.registry symbol =
      SymbolState.after cfg.periods symbol (taken ++ s.takes decode cfg symbol i) := by
  rw [Engine.offer, Engine.takes]
  rcases handleMessage_cases decode cfg i.1 i.2 s with ⟨hclosed, hskip⟩ | ⟨candle, hclosed, htaken⟩
  · simp [hclosed, hskip, h]
  · generalize handleMessage decode cfg i.1 i.2 s = r at htaken
    cases hthrottled : s.throttled cfg candle.symbol i.2.checked with
    | true =>
        cases htaken with
        | throttled _ =>
            by_cases hsymbol : candle.symbol = symbol
            · rw [hsymbol] at hthrottled
              rw [if_pos hthrottled, List.append_nil, h]
            · simp [hclosed, hsymbol, h]
        | panicked hoff _ => simp [hthrottled] at hoff
        | failed _ _ hoff _ _ => simp [hthrottled] at hoff
        | published _ hoff _ _ => simp [hthrottled] at hoff
    | false =>
        rw [htaken.registry hthrottled, hclosed]
        by_cases hsymbol : candle.symbol = symbol
        · have hone : [candle].filter (·.symbol = symbol) = [candle] := by simp [hsymbol]
          rw [if_pos hsymbol, ← hsymbol, hthrottled, hsymbol, Engine.getOrCreate, h,
            Option.toList_some, hone]
          exact (SymbolState.after_concat ..).symm
        · rw [if_neg hsymbol, h]
          simp [hsymbol]

/-- The candles of a symbol that its state has taken: all of them exactly when none was
throttled. -/
structure Took (decode : List UInt8 → Option (Candle F)) (cfg : Config) (symbol : String)
    (inputs : List (MessageCtx × Call)) (taken : List (Candle F)) : Prop where
  registry : (offers decode cfg inputs).1.registry symbol =
    SymbolState.after cfg.periods symbol taken
  sublist : taken.Sublist (candlesOf decode symbol (inputs.map Prod.fst))
  length_iff : taken.length = (candlesOf decode symbol (inputs.map Prod.fst)).length ↔
    NeverThrottled decode cfg symbol inputs

/-- **The state of a symbol** is that after its candles that were not throttled. -/
theorem exists_took (decode : List UInt8 → Option (Candle F)) (cfg : Config) (symbol : String)
    (inputs : List (MessageCtx × Call)) : ∃ taken, Took decode cfg symbol inputs taken := by
  induction inputs using List.reverseRecOn with
  | nil => exact ⟨[], rfl, List.Sublist.refl _, iff_of_true rfl trivial⟩
  | append_singleton inputs i ih =>
      obtain ⟨taken, h⟩ := ih
      have hlast := sublist_takes decode cfg symbol (offers decode cfg inputs).1 i
      refine ⟨taken ++ (offers decode cfg inputs).1.takes decode cfg symbol i, ?_, ?_, ?_⟩
      · rw [offers, Machine.run_concat]
        exact registry_offer h.registry i
      · rw [List.map_append, List.map_singleton, candlesOf_concat]
        exact h.sublist.append hlast
      · have hle := h.sublist.length_le
        have hle' := hlast.length_le
        rw [NeverThrottled, Machine.along_concat, ← NeverThrottled, ← h.length_iff, ← offers,
          ← length_takes_iff, List.map_append, List.map_singleton, candlesOf_concat,
          List.length_append, List.length_append]
        omega

/-- All candles were taken if none was throttled. -/
theorem Took.eq_iff {symbol : String} {taken : List (Candle F)}
    (h : Took decode cfg symbol inputs taken) :
    taken = candlesOf decode symbol (inputs.map Prod.fst) ↔
      NeverThrottled decode cfg symbol inputs := by
  rw [← h.length_iff]
  exact ⟨congrArg List.length, h.sublist.eq_of_length⟩

/-- Without throttling every candle is taken. -/
theorem registry_offers_of_off (hoff : cfg.throttleMs = 0) (symbol : String) :
    (offers decode cfg inputs).1.registry symbol =
      SymbolState.after cfg.periods symbol (candlesOf decode symbol (inputs.map Prod.fst)) := by
  obtain ⟨taken, h⟩ := exists_took decode cfg symbol inputs
  rw [h.registry, h.eq_iff.mpr (neverThrottled_of_off hoff symbol inputs)]

/-- What is published for a message, if the publish succeeds. -/
theorem offer_output (s : Engine F) (i : MessageCtx × Call) (h : i.2.publish = .ok ()) :
    (s.offer decode cfg i).2 = (closedCandle decode i.1).bind fun candle =>
      if s.throttled cfg candle.symbol i.2.checked then none
      else (s.getOrCreate cfg candle.symbol).map fun state => (state.update candle).2 := by
  rw [Engine.offer]
  rcases handleMessage_cases decode cfg i.1 i.2 s with ⟨hclosed, hskip⟩ | ⟨candle, hclosed, htaken⟩
  · simp [hclosed, hskip]
  · generalize handleMessage decode cfg i.1 i.2 s = r at htaken
    rw [hclosed, Option.bind_some]
    cases htaken with
    | throttled hon => simp [hon]
    | panicked hoff hstate => simp [hoff, hstate]
    | failed state e hoff hstate herror => simp [h] at herror
    | published state hoff hstate hok => simp [hoff, hstate, Engine.publish, Engine.take]

end Compare

/-- A vector that is published when no candle of its symbol was throttled before is the one that is
published without throttling. -/
theorem output_of_noResume {F : Type} [Double F] {decode : List UInt8 → Option (Candle F)}
    {cfg : Config} {pre : List (MessageCtx × Call)} {i : MessageCtx × Call} {fv : FeatureVector F}
    (hi : i.2.publish = .ok ()) (hresume : NoResume decode cfg pre i)
    (hfv : ((offers decode cfg pre).1.offer decode cfg i).2 = some fv) :
    ((offers decode { cfg with throttleMs := 0 } pre).1.offer decode
      { cfg with throttleMs := 0 } i).2 = some fv := by
  rw [offer_output _ _ hi] at hfv ⊢
  cases hclosed : closedCandle decode i.1 with
  | none => simp [hclosed] at hfv
  | some candle =>
      rw [hclosed, Option.bind_some] at hfv
      rw [Option.bind_some]
      split at hfv
      · simp at hfv
      · rename_i hon
        obtain ⟨taken, htook⟩ := exists_took decode cfg candle.symbol pre
        have hnever := hresume candle hclosed (by simpa using hon)
        have hsame : (offers decode cfg pre).1.registry candle.symbol =
            (offers decode { cfg with throttleMs := 0 } pre).1.registry candle.symbol := by
          rw [htook.registry, htook.eq_iff.mpr hnever, registry_offers_of_off rfl]
        rw [throttled_of_off rfl, ← hfv, Engine.getOrCreate, Engine.getOrCreate, hsame]
        rfl

/-- The indicators of a symbol are those without throttling exactly if none of its candles was
throttled. -/
theorem registry_eq_iff {F : Type} [Double F] {decode : List UInt8 → Option (Candle F)}
    {cfg : Config} {inputs : List (MessageCtx × Call)} (hvalid : cfg.periods.Valid)
    (hlength : inputs.length < 2 ^ 32) (symbol : String) :
    (offers decode cfg inputs).1.registry symbol =
        (offers decode { cfg with throttleMs := 0 } inputs).1.registry symbol ↔
      NeverThrottled decode cfg symbol inputs := by
  obtain ⟨taken, htook⟩ := exists_took decode cfg symbol inputs
  have hall := length_candlesOf_le decode symbol (inputs.map Prod.fst)
  rw [List.length_map] at hall
  rw [htook.registry, registry_offers_of_off rfl, ← htook.length_iff]
  have hle := htook.sublist.length_le
  constructor
  · intro heq
    exact SymbolState.length_eq_of_after hvalid (by omega) (by omega) heq
  · intro heq
    rw [htook.sublist.eq_of_length heq]

/-- **What throttling leaves alone.** For every sequence of messages with their arrival times, all
of whose publishes succeed: if no candle is published after a throttled one of its symbol, then
every vector that is published is the one that is published for the same candle without throttling.
And the indicators of a symbol are those without throttling exactly if none of its candles was
throttled, with periods that the constructors admit and less than `2 ^ 32` messages. -/
theorem throttle_suppresses {F : Type} [Double F] (decode : List UInt8 → Option (Candle F))
    (cfg : Config) (inputs : List (MessageCtx × Call))
    (hpublish : ∀ i ∈ inputs, i.2.publish = .ok ()) :
    let off := { cfg with throttleMs := 0 }
    (Trace.Preceded (NoResume decode cfg) inputs → ∀ (n : ℕ) (fv : FeatureVector F),
        (offers decode cfg inputs).2[n]? = some (some fv) →
          (offers decode off inputs).2[n]? = some (some fv)) ∧
      (cfg.periods.Valid → inputs.length < 2 ^ 32 → ∀ symbol,
        ((offers decode cfg inputs).1.registry symbol =
            (offers decode off inputs).1.registry symbol ↔
          NeverThrottled decode cfg symbol inputs)) := by
  intro off
  constructor
  · intro hresume n fv hfv
    have hn : n < inputs.length := by
      have := (List.getElem?_eq_some_iff.mp hfv).1
      rwa [offers, Machine.length_run] at this
    obtain ⟨pre, i, post, rfl, rfl⟩ : ∃ pre i post, inputs = pre ++ i :: post ∧ pre.length = n :=
      ⟨inputs.take n, inputs[n], inputs.drop (n + 1), by simp, by simp; omega⟩
    rw [offers, Machine.getElem?_run, Option.some_inj, ← offers] at hfv ⊢
    exact output_of_noResume (hpublish i (by simp)) (hresume pre i post rfl) hfv
  · intro hvalid hlength symbol
    exact registry_eq_iff hvalid hlength symbol

/-! ### A candle after a throttled one -/

/-- A payload holds a price and a minute. -/
def decodePrice : List UInt8 → Option (Candle (Extended ℚ))
  | [price, minute] => some (flatCandle price.toNat (60000 * minute.toNat))
  | _ => none

/-- Two candles within half a second. -/
def twoPrices : List (MessageCtx × Call) :=
  [(candleMessage [100, 0], { checked := 0, recorded := 2000000 }),
    (candleMessage [200, 1], { checked := 500000000, recorded := 502000000 })]

/-- A third one follows. -/
def threePrices : List (MessageCtx × Call) :=
  twoPrices ++ [(candleMessage [100, 2], { checked := 2000000000, recorded := 2002000000 })]

/-- The second of two prices within a second is suppressed. -/
theorem throttle_suppresses_twoPrices :
    (offers decodePrice { throttleMs := 1000 } twoPrices).2.map Option.isSome = [true, false] ∧
      ∀ (n : ℕ) fv, (offers decodePrice { throttleMs := 1000 } twoPrices).2[n]? = some (some fv) →
        (offers decodePrice {} twoPrices).2[n]? = some (some fv) := by
  refine ⟨by decide +kernel,
    (throttle_suppresses decodePrice { throttleMs := 1000 } twoPrices (by decide)).1 ?_⟩
  refine (Trace.preceded_concat (l := [_])).mpr ⟨(Trace.preceded_concat (l := [])).mpr
    ⟨Trace.preceded_nil, fun _ _ _ => trivial⟩, fun candle hcandle hon => ?_⟩
  obtain rfl := Option.some.inj hcandle
  exact absurd hon (by decide +kernel)

/-- With a throttle of a second, the third vector is one of two candles. -/
theorem throttle_changes_vector :
    ¬ ∀ (n : ℕ) fv,
      (offers decodePrice { throttleMs := 1000 } threePrices).2[n]? = some (some fv) →
        (offers decodePrice {} threePrices).2[n]? = some (some fv) := by
  intro h
  have hsome : ∃ fv, (offers decodePrice { throttleMs := 1000 } threePrices).2[2]? =
      some (some fv) := by
    have hjoin : (offers decodePrice { throttleMs := 1000 } threePrices).2[2]?.join.isSome := by
      decide +kernel
    obtain ⟨fv, hfv⟩ := Option.isSome_iff_exists.mp hjoin
    exact ⟨fv, Option.join_eq_some_iff.mp hfv⟩
  obtain ⟨fv, hfv⟩ := hsome
  have hsame := congrArg (Option.map (Option.map (·.emaFast))) (hfv.trans (h 2 fv hfv).symm)
  revert hsame
  decide +kernel

end HftPlatform.FeatureEngine
