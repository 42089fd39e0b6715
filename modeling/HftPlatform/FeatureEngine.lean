import HftPlatform.Indicators
import HftPlatform.KafkaConsumer
import HftPlatform.Lib.Extended
import HftPlatform.Lib.Wire

/-!
# The feature engine

`services/feature_engine/src/consumer.rs`: the handler of candle messages, run by the consumer loop
with one retry and no dead-letter topic. The handler updates the indicators of the symbol before it
publishes, so a candle whose publish fails is taken once more by the retry; and it skips a
throttled candle altogether, so the indicators never see it.

Decoding of a payload is a parameter, and so is the arithmetic.

## Main results

* `registry_run`: the state of a symbol is that after all calls of the handler with its candles.
* `exactFold_of_firstPublish`: the state is an exact fold of the candles that were consumed, if no
  first publish of a candle fails; and, with periods that are admitted, only then.
-/

namespace HftPlatform.FeatureEngine

open Lib Mq

structure Config where
  periods : Periods := {}
  throttleMs : ℕ := 0
  topicFeatures : String := "md.features.live"

/-- The error of a send that failed. -/
def Config.sendError (cfg : Config) (e : String) : String :=
  "kafka send error on topic `" ++ cfg.topicFeatures ++ "`: " ++ e

/-- What a call of the handler meets: whether the publish succeeds, and the clock in nanoseconds,
before the throttle check and after the publish. -/
structure Call where
  publish : Except String Unit := .ok ()
  checked : ℕ := 0
  recorded : ℕ := 0

/-- The state of the service, with the vectors that it published. -/
structure Engine (F : Type) where
  registry : String → Option (SymbolState F) := fun _ => none
  throttle : String → Option ℕ := fun _ => none
  published : List (FeatureVector F) := []

/-- A symbol was published too recently. -/
def Engine.throttled {F : Type} (cfg : Config) (s : Engine F) (symbol : String) (now : ℕ) : Bool :=
  match s.throttle symbol with
  | some last => decide (0 < cfg.throttleMs ∧ now - last < cfg.throttleMs * 1000000)
  | none => false

theorem throttled_of_off {F : Type} {cfg : Config} (hoff : cfg.throttleMs = 0) (s : Engine F)
    (symbol : String) (now : ℕ) : s.throttled cfg symbol now = false := by
  rw [Engine.throttled]
  split
  · simp [hoff]
  · rfl

section Handler

variable {F : Type} [Double F] (decode : List UInt8 → Option (Candle F)) (cfg : Config)

/-- The state of a symbol, made on first access. -/
def Engine.getOrCreate (s : Engine F) (symbol : String) : Option (SymbolState F) :=
  s.registry symbol <|> SymbolState.new symbol cfg.periods

def handleMessage : Handler (Engine F) Call := fun ctx call s =>
  match decode ctx.payload with
  | none => (.ok, s)
  | some candle =>
      if !candle.isClosed then (.ok, s)
      else if s.throttled cfg candle.symbol call.checked then (.ok, s)
      else match s.getOrCreate cfg candle.symbol with
        | none => (.panic, s)
        | some state =>
            let (state, fv) := state.update candle
            let s := { s with
              registry := Function.update s.registry candle.symbol (some state) }
            match call.publish with
            | .error e => (.error (cfg.sendError e), s)
            | .ok () =>
                let s := { s with published := s.published ++ [fv] }
                if 0 < cfg.throttleMs then
                  (.ok, { s with
                    throttle := Function.update s.throttle fv.symbol (some call.recorded) })
                else (.ok, s)

/-- The consumer of the service. -/
def consumer : KafkaConsumer where
  config := { retry := ⟨1, 50, 500⟩ }
  dlq := none

/-- The closed candle of a message, if it is one. -/
def closedCandle (ctx : MessageCtx) : Option (Candle F) :=
  (decode ctx.payload).filter (·.isClosed)

/-- The closed candles of a symbol among some messages. -/
def candlesOf (symbol : String) (messages : List MessageCtx) : List (Candle F) :=
  (messages.filterMap (closedCandle decode)).filter (·.symbol = symbol)

end Handler

/-! ### The state as a fold -/

section Candles

variable {F : Type} {decode : List UInt8 → Option (Candle F)}

theorem candlesOf_concat (symbol : String) (messages : List MessageCtx) (ctx : MessageCtx) :
    candlesOf decode symbol (messages ++ [ctx]) = candlesOf decode symbol messages ++
      (closedCandle decode ctx).toList.filter (·.symbol = symbol) := by
  rw [candlesOf, List.filterMap_append, List.filter_append, ← candlesOf]
  cases h : closedCandle decode ctx <;> simp [h]

theorem candlesOf_append (symbol : String) (l l' : List MessageCtx) :
    candlesOf decode symbol (l ++ l') =
      candlesOf decode symbol l ++ candlesOf decode symbol l' := by
  rw [candlesOf, List.filterMap_append, List.filter_append, ← candlesOf, ← candlesOf]

theorem candlesOf_sublist (decode : List UInt8 → Option (Candle F)) (symbol : String)
    (l l' : List MessageCtx) (h : l.Sublist l') :
    (candlesOf decode symbol l).Sublist (candlesOf decode symbol l') :=
  (h.filterMap _).filter _

theorem length_candlesOf_le (decode : List UInt8 → Option (Candle F)) (symbol : String)
    (messages : List MessageCtx) :
    (candlesOf decode symbol messages).length ≤ messages.length :=
  (List.length_filter_le _ _).trans (List.length_filterMap_le _ _)

/-- A message counts for the symbol of its closed candle. -/
theorem length_candlesOf_replicate {ctx : MessageCtx} {candle : Candle F}
    (h : closedCandle decode ctx = some candle) (k : ℕ) :
    (candlesOf decode candle.symbol (List.replicate k ctx)).length = k := by
  induction k with
  | zero => rfl
  | succ k ih => simp [List.replicate_succ', candlesOf_concat, ih, h]

end Candles

section Fold

variable {F : Type} [Double F] {decode : List UInt8 → Option (Candle F)} {cfg : Config}
  {broker : Broker}

/-- The engine after a candle was taken into the given state of its symbol. -/
def Engine.take (s : Engine F) (state : SymbolState F) (candle : Candle F) : Engine F :=
  { s with registry := Function.update s.registry candle.symbol (some (state.update candle).1) }

/-- The engine after the feature vector of that candle was published. -/
def Engine.publish (cfg : Config) (s : Engine F) (fv : FeatureVector F) (recorded : ℕ) : Engine F :=
  { s with
    published := s.published ++ [fv]
    throttle :=
      if 0 < cfg.throttleMs then Function.update s.throttle fv.symbol (some recorded)
      else s.throttle }

/-- With periods that are admitted, every symbol has a state. -/
theorem Engine.exists_getOrCreate (hvalid : cfg.periods.Valid) (s : Engine F) (symbol : String) :
    ∃ state, s.getOrCreate cfg symbol = some state := by
  obtain ⟨s₀, hs₀⟩ := Option.isSome_iff_exists.mp
    ((SymbolState.isSome_new_iff (F := F) symbol cfg.periods).mpr hvalid)
  rw [Engine.getOrCreate, hs₀]
  cases s.registry symbol <;> simp

/-- What a call of the handler does with a closed candle. -/
inductive Taken (cfg : Config) (s : Engine F) (call : Call) (candle : Candle F) :
    Outcome × Engine F → Prop
  | throttled : s.throttled cfg candle.symbol call.checked = true → Taken cfg s call candle (.ok, s)
  | panicked : s.throttled cfg candle.symbol call.checked = false →
      s.getOrCreate cfg candle.symbol = none → Taken cfg s call candle (.panic, s)
  | failed (state : SymbolState F) (e : String) :
      s.throttled cfg candle.symbol call.checked = false →
      s.getOrCreate cfg candle.symbol = some state → call.publish = .error e →
      Taken cfg s call candle (.error (cfg.sendError e), s.take state candle)
  | published (state : SymbolState F) :
      s.throttled cfg candle.symbol call.checked = false →
      s.getOrCreate cfg candle.symbol = some state → call.publish = .ok () →
      Taken cfg s call candle
        (.ok, (s.take state candle).publish cfg (state.update candle).2 call.recorded)

/-- **All that a call of the handler can do.** -/
theorem handleMessage_cases (decode : List UInt8 → Option (Candle F)) (cfg : Config)
    (ctx : MessageCtx) (call : Call) (s : Engine F) :
    (closedCandle decode ctx = none ∧ handleMessage decode cfg ctx call s = (.ok, s)) ∨
      ∃ candle, closedCandle decode ctx = some candle ∧
        Taken cfg s call candle (handleMessage decode cfg ctx call s) := by
  rw [handleMessage, closedCandle]
  cases hdecode : decode ctx.payload with
  | none => exact Or.inl ⟨rfl, rfl⟩
  | some candle =>
      dsimp only
      cases hclosed : candle.isClosed with
      | false => exact Or.inl ⟨by simp [Option.filter, hclosed], rfl⟩
      | true =>
          refine Or.inr ⟨candle, by simp [Option.filter, hclosed], ?_⟩
          rw [if_neg (by simp)]
          cases hthrottled : s.throttled cfg candle.symbol call.checked with
          | true => exact .throttled hthrottled
          | false =>
              rw [if_neg (by simp)]
              cases hstate : s.getOrCreate cfg candle.symbol with
              | none => exact .panicked hthrottled hstate
              | some state =>
                  cases hpublish : call.publish with
                  | error e => exact .failed state e hthrottled hstate hpublish
                  | ok u =>
                      have hdone := Taken.published state hthrottled hstate hpublish
                      rw [Engine.publish] at hdone
                      dsimp only
                      split_ifs at hdone ⊢ <;> exact hdone

/-- A call that takes a candle changes the state of its symbol only. -/
theorem Taken.registry {call : Call} {s : Engine F} {candle : Candle F} {r : Outcome × Engine F}
    (h : Taken cfg s call candle r) (hon : s.throttled cfg candle.symbol call.checked = false)
    (symbol : String) : r.2.registry symbol =
      if candle.symbol = symbol then
        (s.getOrCreate cfg symbol).map fun state => (state.update candle).1
      else s.registry symbol := by
  have htake : ∀ state, s.getOrCreate cfg candle.symbol = some state →
      (s.take state candle).registry symbol =
        if candle.symbol = symbol then
          (s.getOrCreate cfg symbol).map fun state => (state.update candle).1
        else s.registry symbol := by
    intro state hstate
    by_cases hsymbol : candle.symbol = symbol
    · subst hsymbol
      rw [if_pos rfl, hstate]
      exact Function.update_self ..
    · rw [if_neg hsymbol]
      exact Function.update_of_ne (Ne.symm hsymbol) ..
  cases h with
  | throttled hthrottled => simp [hon] at hthrottled
  | panicked _ hstate =>
      by_cases hsymbol : candle.symbol = symbol
      · subst hsymbol
        rw [if_pos rfl, hstate]
        rw [Engine.getOrCreate] at hstate
        cases hregistry : s.registry candle.symbol with
        | none => rfl
        | some state => simp [hregistry] at hstate
      · rw [if_neg hsymbol]
  | failed state e _ hstate _ => exact htake state hstate
  | published state _ hstate _ => exact htake state hstate

/-- The state of every symbol is the one after its candles among the messages. -/
def ExactFold (decode : List UInt8 → Option (Candle F)) (periods : Periods) (s : Engine F)
    (messages : List MessageCtx) : Prop :=
  ∀ symbol, s.registry symbol = SymbolState.after periods symbol (candlesOf decode symbol messages)

/-- A call of the handler takes the message once more. -/
theorem ExactFold.call (hoff : cfg.throttleMs = 0) {s : Engine F} {messages : List MessageCtx}
    (h : ExactFold decode cfg.periods s messages) (ctx : MessageCtx) (call : Call) :
    ExactFold decode cfg.periods (handleMessage decode cfg ctx call s).2 (messages ++ [ctx]) := by
  intro symbol
  rw [candlesOf_concat]
  rcases handleMessage_cases decode cfg ctx call s with
    ⟨hclosed, hskip⟩ | ⟨candle, hclosed, htaken⟩
  · rw [hclosed, hskip]
    simpa using h symbol
  · rw [htaken.registry (throttled_of_off hoff _ _ _), hclosed]
    by_cases hsymbol : candle.symbol = symbol
    · have hone : [candle].filter (·.symbol = symbol) = [candle] := by simp [hsymbol]
      rw [if_pos hsymbol, Engine.getOrCreate, h symbol, Option.toList_some, hone,
        SymbolState.after_concat]
    · rw [if_neg hsymbol, h symbol]
      simp [hsymbol]

/-- **The state of a symbol** is the one after all calls of the handler with its candles. -/
theorem registry_run {c : KafkaConsumer} (hoff : cfg.throttleMs = 0) {s : State (Engine F)}
    (hnew : s.handler = {}) (polls : List (Poll Call)) :
    ExactFold decode cfg.periods (c.run (handleMessage decode cfg) broker s polls).1.handler
      (attempted (c.run (handleMessage decode cfg) broker s polls).2) := by
  refine KafkaConsumer.run_induction (P := fun calls h => ExactFold decode cfg.periods h calls)
    (fun calls ctx call h ih => ih.call hoff ctx call) ?_ polls
  intro symbol
  rw [hnew]
  rfl

/-- Two folds of one state have taken equally many candles of each symbol. -/
theorem ExactFold.length_eq {periods : Periods} {s : Engine F} {l l' : List MessageCtx}
    (h : ExactFold decode periods s l) (h' : ExactFold decode periods s l') (hvalid : periods.Valid)
    (hl : l.length < 2 ^ 32) (hl' : l'.length < 2 ^ 32) (symbol : String) :
    (candlesOf decode symbol l).length = (candlesOf decode symbol l').length :=
  SymbolState.length_eq_of_after hvalid ((length_candlesOf_le decode symbol l).trans_lt hl)
    ((length_candlesOf_le decode symbol l').trans_lt hl') ((h symbol).symm.trans (h' symbol))

/-! ### When no candle is taken twice -/

/-- If the message that is polled is a closed candle, its first publish succeeds. -/
def FirstPublishSucceeds (decode : List UInt8 → Option (Candle F)) (broker : Broker)
    (s : State (Engine F)) : Poll Call → Prop
  | .error _ => True
  | .message delivery => s.status = .running →
      ∀ ctx, broker.next delivery.source (s.position delivery.source) = some ctx →
        closedCandle decode ctx ≠ none → (delivery.attempts 0).publish = .ok ()

/-- A call fails only with the publish of a closed candle. -/
theorem handleMessage_error {ctx : MessageCtx} {call : Call} {s : Engine F} {e : String}
    (h : (handleMessage decode cfg ctx call s).1 = .error e) :
    closedCandle decode ctx ≠ none ∧ call.publish ≠ .ok () := by
  rcases handleMessage_cases decode cfg ctx call s with
    ⟨-, hskip⟩ | ⟨candle, hclosed, htaken⟩
  · simp [hskip] at h
  · generalize handleMessage decode cfg ctx call s = r at h htaken
    cases htaken with
    | failed state e' _ _ hpublish => exact ⟨by simp [hclosed], by simp [hpublish]⟩
    | _ => simp at h

/-- With periods that are admitted, the publish of a closed candle decides. -/
theorem handleMessage_of_publish_error (hoff : cfg.throttleMs = 0) (hvalid : cfg.periods.Valid)
    {ctx : MessageCtx} {call : Call} {s : Engine F} {candle : Candle F}
    (hclosed : closedCandle decode ctx = some candle) (hpublish : call.publish ≠ .ok ()) :
    ∃ e, (handleMessage decode cfg ctx call s).1 = .error e := by
  rcases handleMessage_cases decode cfg ctx call s with
    ⟨hnone, -⟩ | ⟨candle', hclosed', htaken⟩
  · simp [hclosed] at hnone
  · obtain rfl := Option.some.inj (hclosed.symm.trans hclosed')
    generalize handleMessage decode cfg ctx call s = r at htaken
    cases htaken with
    | throttled hthrottled => simp [throttled_of_off hoff] at hthrottled
    | panicked _ hstate =>
        obtain ⟨state, hsome⟩ := Engine.exists_getOrCreate hvalid s candle.symbol
        simp [hsome] at hstate
    | failed state e _ _ _ => exact ⟨_, rfl⟩
    | published state _ _ hok => exact absurd hok hpublish

/-- A turn in which the first publish succeeds calls the handler once. -/
theorem attempted_turn {c : KafkaConsumer} {s : State (Engine F)} {poll : Poll Call}
    (h : FirstPublishSucceeds decode broker s poll) :
    attempted (c.turn (handleMessage decode cfg) broker s poll).2 =
      consumed (c.turn (handleMessage decode cfg) broker s poll).2 := by
  rcases c.turn_calls (handleMessage decode cfg) broker s poll with
    hidle | ⟨delivery, ctx, rfl, hs, hnext, -, hconsumed, hattempted⟩
  · rw [hidle]
    rfl
  · rw [hconsumed, hattempted]
    refine KafkaConsumer.attempted_of_first fun e he => ?_
    obtain ⟨hclosed, hpublish⟩ := handleMessage_error he
    exact hpublish (h hs ctx hnext hclosed)

/-- A turn in which the first publish fails takes a candle twice. -/
theorem candlesOf_turn_lt (hoff : cfg.throttleMs = 0) (hvalid : cfg.periods.Valid)
    {s : State (Engine F)} {poll : Poll Call} (h : ¬ FirstPublishSucceeds decode broker s poll) :
    ∃ symbol, (candlesOf decode symbol
        (consumed (consumer.turn (handleMessage decode cfg) broker s poll).2)).length <
      (candlesOf decode symbol
        (attempted (consumer.turn (handleMessage decode cfg) broker s poll).2)).length := by
  cases poll with
  | error e => exact absurd trivial h
  | message delivery =>
      simp only [FirstPublishSucceeds, not_forall] at h
      obtain ⟨hs, ctx, hnext, hclosed, hpublish⟩ := h
      obtain ⟨candle, hcandle⟩ := Option.ne_none_iff_exists'.mp hclosed
      refine ⟨candle.symbol, ?_⟩
      rcases consumer.turn_calls (handleMessage decode cfg) broker s
        (.message delivery) with hidle | ⟨delivery', ctx', hdelivery, -, hnext', -, hc, ha⟩
      · exfalso
        have hevents := congrArg (fun r => r.2.length) hidle
        simp only [KafkaConsumer.turn, if_pos hs, hnext] at hevents
        split at hevents <;> simp at hevents
      · obtain rfl := Poll.message.inj hdelivery
        obtain rfl := Option.some.inj (hnext.symm.trans hnext')
        obtain ⟨e, he⟩ := handleMessage_of_publish_error (s := s.handler) hoff hvalid hcandle
          hpublish
        obtain ⟨k, hk⟩ := consumer.attempted_attemptFrom (handleMessage decode cfg) ctx
          delivery.attempts 0 1 (handleMessage decode cfg ctx (delivery.attempts 0) s.handler).2
        have htwice : attempted (consumer.runWithRetry (handleMessage decode cfg) ctx
            delivery.attempts s.handler).events = List.replicate (k + 2) ctx := by
          rw [KafkaConsumer.runWithRetry]
          exact (KafkaConsumer.attempted_of_error he).trans (by rw [hk, ← List.replicate_succ])
        have hone := length_candlesOf_replicate hcandle 1
        rw [hc, ha, htwice, length_candlesOf_replicate hcandle]
        rw [List.replicate_one] at hone
        omega

/-- If no candle is counted twice, every first publish succeeded. -/
theorem along_of_length_eq (hoff : cfg.throttleMs = 0) (hvalid : cfg.periods.Valid)
    (s : State (Engine F)) (polls : List (Poll Call))
    (h : ∀ symbol, (candlesOf decode symbol
        (attempted (consumer.run (handleMessage decode cfg) broker s polls).2)).length =
      (candlesOf decode symbol
        (consumed (consumer.run (handleMessage decode cfg) broker s polls).2)).length) :
    Machine.Along (consumer.turn (handleMessage decode cfg) broker)
      (FirstPublishSucceeds decode broker) s polls := by
  induction polls using List.reverseRecOn with
  | nil => trivial
  | append_singleton polls poll ih =>
      have hsplit : ∀ symbol, _ := h
      simp only [KafkaConsumer.run_concat, attempted_append, consumed_append, candlesOf_append,
        List.length_append] at hsplit
      have hbefore := fun symbol => (candlesOf_sublist decode symbol _ _
        (consumer.consumed_sublist (handleMessage decode cfg) broker s
          polls)).length_le
      have hturn := fun symbol => (candlesOf_sublist decode symbol _ _
        (consumer.consumed_sublist_turn (handleMessage decode cfg) broker
          (consumer.run (handleMessage decode cfg) broker s polls).1 poll)).length_le
      refine (Machine.along_concat polls poll).mpr ⟨ih fun symbol => ?_, ?_⟩
      · have := hsplit symbol
        have := hbefore symbol
        have := hturn symbol
        omega
      · by_contra hfail
        obtain ⟨symbol, hlt⟩ := candlesOf_turn_lt hoff hvalid hfail
        have := hsplit symbol
        have := hbefore symbol
        have := hlt
        simp only [KafkaConsumer.run] at *
        omega

/-- If every first publish succeeds, the handler is called once with each message. -/
theorem attempted_eq_consumed {c : KafkaConsumer} (s : State (Engine F)) (polls : List (Poll Call))
    (h : Machine.Along (c.turn (handleMessage decode cfg) broker)
      (FirstPublishSucceeds decode broker) s polls) :
    attempted (c.run (handleMessage decode cfg) broker s polls).2 =
      consumed (c.run (handleMessage decode cfg) broker s polls).2 := by
  induction polls using List.reverseRecOn with
  | nil => rfl
  | append_singleton polls poll ih =>
      obtain ⟨hbefore, hlast⟩ := (Machine.along_concat polls poll).mp h
      rw [KafkaConsumer.run_concat, attempted_append, consumed_append, ih hbefore]
      exact congrArg _ (attempted_turn hlast)

end Fold

/-- **The indicators as a fold of the candles.** Without throttling, and from an empty registry:
in a run in which the first publish of every closed candle succeeds, the state of each symbol is
that after its closed candles among the consumed messages, each taken once and in order. With
periods that the constructors admit, and less than `2 ^ 32` calls, it is so in no other run. -/
theorem exactFold_of_firstPublish {F : Type} [Double F] (decode : List UInt8 → Option (Candle F))
    (periods : Periods) (broker : Broker) (position : String × ℤ → ℤ) (polls : List (Poll Call)) :
    let handler := handleMessage decode { periods }
    let start : State (Engine F) := { handler := {}, position }
    let r := consumer.run handler broker start polls
    let exact := ExactFold decode periods r.1.handler (consumed r.2)
    let firsts := Machine.Along (consumer.turn handler broker) (FirstPublishSucceeds decode broker)
      start polls
    (firsts → exact) ∧
      (periods.Valid → (attempted r.2).length < 2 ^ 32 → exact → firsts) := by
  intro handler start r exact firsts
  have hfold : ExactFold decode periods r.1.handler (attempted r.2) :=
    registry_run (s := start) rfl rfl polls
  constructor
  · intro hfirsts
    rw [attempted_eq_consumed start polls hfirsts] at hfold
    exact hfold
  · intro hvalid hlength hexact
    have hsublist := consumer.consumed_sublist handler broker start polls
    refine along_of_length_eq rfl hvalid start polls fun symbol => ?_
    exact hfold.length_eq hexact hvalid hlength (hsublist.length_le.trans_lt hlength) symbol

/-! ### Candles of two symbols, and a publish that fails -/

/-- A closed candle, with one price throughout. -/
def flatCandle (price : ℚ) (openTime : ℤ) : Candle (Extended ℚ) where
  symbol := "BTCUSDT"
  openTime := openTime
  closeTime := openTime + 59999
  high := .fin price
  low := .fin price
  close := .fin price
  volume := .fin 1
  isClosed := true

/-- A message of the candle topic. -/
def candleMessage (payload : List UInt8) : MessageCtx where
  topic := "TOPIC_CANDLES_1M"
  key := none
  payload := payload
  headers := []
  timestampMs := none
  partition := 0
  offset := 0

/-- The text of a candle, as the consumer reads it. -/
def candleText (symbol : String) (price openTime : ℕ) : String :=
  "\x7b\"symbol\":\"" ++ symbol ++ "\",\"open_time\":" ++ toString openTime ++
    ",\"close_time\":" ++ toString (openTime + 59999) ++ ",\"high\":" ++ toString price ++
    ".0,\"low\":" ++ toString price ++ ".0,\"close\":" ++ toString price ++
    ".0,\"volume\":1.0,\"is_closed\":true\x7d"

/-- Closed candles of two symbols, in the order of their topic. -/
def threeCandles : List (List UInt8 × Candle (Extended ℚ)) :=
  [(Wire.utf8 (candleText "BTCUSDT" 100 0), flatCandle 100 0),
    (Wire.utf8 (candleText "ETHUSDT" 20 0), { flatCandle 20 0 with symbol := "ETHUSDT" }),
    (Wire.utf8 (candleText "BTCUSDT" 104 60000), flatCandle 104 60000)]

/-- What is read from the texts of these candles. -/
def readCandle (payload : List UInt8) : Option (Candle (Extended ℚ)) :=
  (threeCandles.find? (·.1 = payload)).map (·.2)

/-- Their messages. -/
def threeMessages : List MessageCtx :=
  threeCandles.mapIdx fun i c => { candleMessage c.1 with offset := i }

/-- The partition of these messages. -/
def threeLog : Broker where
  log source := if source = ("TOPIC_CANDLES_1M", 0) then threeMessages else []
  source_eq source ctx hmem := by
    split at hmem
    · rename_i hsource
      obtain ⟨i, -, rfl⟩ := List.mem_mapIdx.mp hmem
      exact hsource.symm
    · simp at hmem
  increasing source := by
    split
    · decide +kernel
    · exact List.Pairwise.nil

/-- A partition with one candle. -/
def oneCandle : Broker where
  log source := if source = ("TOPIC_CANDLES_1M", 0) then [candleMessage []] else []
  source_eq source ctx hmem := by
    split at hmem
    · rename_i hsource
      obtain rfl := List.mem_singleton.mp hmem
      exact hsource.symm
    · simp at hmem
  increasing source := by
    split
    · exact List.pairwise_singleton ..
    · exact List.Pairwise.nil

/-- The candle is delivered; the publishes that it meets are the given ones. -/
def deliver (publish : ℕ → Except String Unit) : Poll Call :=
  .message
    { source := ("TOPIC_CANDLES_1M", 0)
      attempts := fun n => { publish := publish n }
      failedAtMs := 0
      dlq := .ok ()
      commit := .ok () }

/-- Two candles of one symbol and one of another, each published at the first try: the states of
both symbols are folds of their own candles. -/
theorem exactFold_of_firstPublish_threeCandles :
    let r := consumer.run (handleMessage readCandle {}) threeLog
      { handler := {}, position := fun _ => 0 }
      (List.replicate 3 (deliver fun n => if n = 0 then .ok () else .error "queue full"))
    consumed r.2 = threeMessages ∧ r.1.handler.published.length = 3 ∧
      ExactFold readCandle {} r.1.handler (consumed r.2) :=
  ⟨by decide +kernel, by decide +kernel,
    (exactFold_of_firstPublish readCandle {} threeLog (fun _ => 0) _).1
      ⟨fun _ _ _ _ => rfl, fun _ _ _ _ => rfl, fun _ _ _ _ => rfl, trivial⟩⟩

/-- The first publish fails and the second succeeds: the candle is taken twice. -/
theorem not_exactFold_retry :
    let r := consumer.run (handleMessage (fun _ => some (flatCandle 100 0)) {}) oneCandle
      { handler := {}, position := fun _ => 0 }
      [deliver fun n => if n = 0 then .error "queue full" else .ok ()]
    ¬ ExactFold (fun _ => some (flatCandle 100 0)) {} r.1.handler (consumed r.2) := by
  intro r h
  have hcount := congrArg (Option.map (·.emaFast.count)) (h "BTCUSDT")
  revert hcount
  decide +kernel

end HftPlatform.FeatureEngine
