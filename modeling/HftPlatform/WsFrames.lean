import HftPlatform.Lib.Json
import HftPlatform.Lib.Text
import HftPlatform.Lib.Wire

/-!
# The frames of the market data socket

`services/marketdata_ingestor/src/ws/binance.rs` and `handle_text` of
`services/marketdata_ingestor/src/main.rs`: the name of a frame's stream tells what kind of payload
it has, the payload becomes an event, and the event is counted and sent to Kafka. A worker takes
the frames of its socket one after the other, and connects again when the socket closes; a panic
ends it.

What texts parse to is a parameter, the clock is after the epoch, and the 64-bit counters wrap, as
they do in a release build. The rows that a task of their own writes to ClickHouse are left out.

## Main results

* `normalize_eq_panic_iff`: a frame panics exactly when it is a depth update with a short level.
* `handleText_eq_panic_iff`, `runWsWorker_isSome_iff`: so does its handling, and no other frame ends
  a worker.
-/

namespace HftPlatform.MarketdataIngestor

open Lib

/-- How a call ends. The errors are only logged. -/
inductive Outcome (α : Type)
  | ok (value : α)
  | error
  | panic

/-! ### The wire types -/

/-- A frame of the combined stream. -/
structure Combined where
  stream : String
  data : Json

/-- What the service takes from its language and from third-party crates. -/
structure Parsers where
  /-- `serde_json::from_str::<Combined>(s).ok()`. -/
  fromStr : String → Option Combined
  /-- `str::parse::<f64>().ok()`. -/
  parseF64 : String → Option Binary64

/-- The payload of a trade. -/
structure TradeData where
  e : ℕ
  s : String
  t : ℕ
  p : String
  q : String
  m : Bool

/-- A trade as `serde` reads it: every field must be there, with its type. -/
def TradeData.fromValue (v : Json) : Option TradeData := do
  let [e, s, t, p, q, m] ← v.getFields ["E", "s", "t", "p", "q", "m"] | none
  return ⟨← e.getU64, ← s.getStr, ← t.getU64, ← p.getStr, ← q.getStr, ← m.getBool⟩

/-- The payload of a book ticker. -/
structure BookData where
  s : String
  b : String
  capB : String
  a : String
  capA : String

/-- A book ticker as `serde` reads it. -/
def BookData.fromValue (v : Json) : Option BookData := do
  let [s, b, capB, a, capA] ← v.getFields ["s", "b", "B", "a", "A"] | none
  return ⟨← s.getStr, ← b.getStr, ← capB.getStr, ← a.getStr, ← capA.getStr⟩

/-- The payload of a partial book. -/
structure DepthData where
  eTime : ℕ
  s : String
  uFirst : ℕ
  uFinal : ℕ
  b : List (List String)
  a : List (List String)

/-- A partial book as `serde` reads it: the levels are lists of texts of any length. -/
def DepthData.fromValue (v : Json) : Option DepthData := do
  let [eTime, s, uFirst, uFinal, b, a] ← v.getFields ["E", "s", "U", "u", "b", "a"] | none
  return ⟨← eTime.getU64, ← s.getStr, ← uFirst.getU64, ← uFinal.getU64,
    ← b.getVec (Json.getVec Json.getStr), ← a.getVec (Json.getVec Json.getStr)⟩

/-- The payload of a mark price. -/
structure MarkPriceData where
  eTime : ℕ
  s : String
  p : String
  i : String
  pEst : String
  r : String
  t : ℕ

/-- A mark price as `serde` reads it. -/
def MarkPriceData.fromValue (v : Json) : Option MarkPriceData := do
  let [eTime, s, p, i, pEst, r, t] ← v.getFields ["E", "s", "p", "i", "P", "r", "T"] | none
  return ⟨← eTime.getU64, ← s.getStr, ← p.getStr, ← i.getStr, ← pEst.getStr, ← r.getStr,
    ← t.getU64⟩

/-- The payload of an open interest. -/
structure OpenInterestData where
  eTime : ℕ
  s : String
  oo : String

/-- An open interest as `serde` reads it. -/
def OpenInterestData.fromValue (v : Json) : Option OpenInterestData := do
  let [eTime, s, oo] ← v.getFields ["E", "s", "oo"] | none
  return ⟨← eTime.getU64, ← s.getStr, ← oo.getStr⟩

/-- The order within the payload of a liquidation. -/
structure ForceOrderData where
  s : String
  side : String
  p : String
  q : String
  z : String

/-- A liquidated order as `serde` reads it. -/
def ForceOrderData.fromValue (v : Json) : Option ForceOrderData := do
  let [s, side, p, q, z] ← v.getFields ["s", "S", "p", "q", "z"] | none
  return ⟨← s.getStr, ← side.getStr, ← p.getStr, ← q.getStr, ← z.getStr⟩

/-- The payload of a liquidation. -/
structure ForceOrderDataWrapper where
  eTime : ℕ
  o : ForceOrderData

/-- A liquidation as `serde` reads it. -/
def ForceOrderDataWrapper.fromValue (v : Json) : Option ForceOrderDataWrapper := do
  let [eTime, o] ← v.getFields ["E", "o"] | none
  return ⟨← eTime.getU64, ← ForceOrderData.fromValue o⟩

/-! ### The events -/

/-- A trade as it is published. -/
structure RawTradeTick where
  symbol : String
  tradeId : ℕ
  price : Binary64
  qty : Binary64
  isBuyerMaker : Bool
  exchangeEventTimeMs : ℤ
  eventTimeNs : ℤ
  recvTimeNs : ℤ
  seq : ℕ
  traceId : String
  schemaVersion : ℕ

/-- A book ticker as it is published. -/
structure RawBookTick where
  symbol : String
  bestBid : Binary64
  bestBidQty : Binary64
  bestAsk : Binary64
  bestAskQty : Binary64
  exchangeEventTimeMs : ℤ
  eventTimeNs : ℤ
  recvTimeNs : ℤ
  seq : ℕ
  traceId : String
  schemaVersion : ℕ

/-- A level of the book: its price and its quantity. -/
structure Level where
  price : Binary64
  qty : Binary64

/-- A partial book as it is published. -/
structure RawOrderBookL2 where
  symbol : String
  bids : List Level
  asks : List Level
  exchangeEventTimeMs : ℤ
  recvTimeNs : ℤ
  firstUpdateId : ℕ
  finalUpdateId : ℕ
  traceId : String
  schemaVersion : ℕ

/-- A mark price as it is published. -/
structure RawMarkPrice where
  symbol : String
  markPrice : Binary64
  indexPrice : Binary64
  estimatedSettlePrice : Binary64
  fundingRate : Binary64
  nextFundingTimeMs : ℤ
  exchangeEventTimeMs : ℤ
  recvTimeNs : ℤ
  traceId : String
  schemaVersion : ℕ

/-- An open interest as it is published. -/
structure RawOpenInterest where
  symbol : String
  openInterest : Binary64
  exchangeEventTimeMs : ℤ
  recvTimeNs : ℤ
  traceId : String
  schemaVersion : ℕ

/-- A liquidation as it is published. -/
structure RawLiquidation where
  symbol : String
  side : ℤ
  price : Binary64
  origQty : Binary64
  executedQty : Binary64
  exchangeEventTimeMs : ℤ
  recvTimeNs : ℤ
  traceId : String
  schemaVersion : ℕ

/-- What a frame is normalized to. -/
inductive NormalizedEvent
  | trade (tick : RawTradeTick)
  | book (tick : RawBookTick)
  | orderBookL2 (tick : RawOrderBookL2)
  | markPrice (tick : RawMarkPrice)
  | openInterest (tick : RawOpenInterest)
  | liquidation (tick : RawLiquidation)

namespace NormalizedEvent

/-- The symbol that an event is about. -/
def symbol : NormalizedEvent → String
  | trade t => t.symbol
  | book b => b.symbol
  | orderBookL2 o => o.symbol
  | markPrice m => m.symbol
  | openInterest oi => oi.symbol
  | liquidation l => l.symbol

/-- The time that the exchange gave an event. -/
def exchangeEventTimeMs : NormalizedEvent → ℤ
  | trade t => t.exchangeEventTimeMs
  | book b => b.exchangeEventTimeMs
  | orderBookL2 o => o.exchangeEventTimeMs
  | markPrice m => m.exchangeEventTimeMs
  | openInterest oi => oi.exchangeEventTimeMs
  | liquidation l => l.exchangeEventTimeMs

end NormalizedEvent

/-! ### Normalization -/

/-- The nearest `i64`, which saturating arithmetic returns. -/
def saturate (x : ℤ) : ℤ := max (-2 ^ 63) (min x (2 ^ 63 - 1))

/-- A payload that does not decode is an error. -/
def decoded {δ : Type} (data : Option δ) (event : δ → NormalizedEvent) :
    Outcome (Option NormalizedEvent) :=
  match data with
  | none => .error
  | some data => .ok (some (event data))

section Normalize

variable (ps : Parsers)

/-- `parse().unwrap_or(0.0)` -/
def Parsers.number (s : String) : Binary64 := (ps.parseF64 s).getD .zero

/-- The level of a book, unless an index is out of bounds. -/
def Parsers.level (v : List String) : Option Level := do
  let price ← v[0]?
  let qty ← v[1]?
  return ⟨ps.number price, ps.number qty⟩

/-- The event of a frame, nothing for other frames, and a panic for a level without two texts. -/
def normalize (text : String) (recvTimeNs : ℤ) (tradeSeq bookSeq : ℕ) (newTraceId : String) :
    Outcome (Option NormalizedEvent) :=
  match ps.fromStr text with
  | none => .ok none
  | some msg =>
      if contains msg.stream "@trade" then
        decoded (TradeData.fromValue msg.data) fun data => .trade {
          symbol := data.s
          tradeId := data.t
          price := ps.number data.p
          qty := ps.number data.q
          isBuyerMaker := data.m
          exchangeEventTimeMs := Wire.ofWord data.e
          eventTimeNs := saturate (Wire.ofWord data.e * 1000000)
          recvTimeNs
          seq := tradeSeq
          traceId := newTraceId
          schemaVersion := 1 }
      else if contains msg.stream "@bookTicker" then
        decoded (BookData.fromValue msg.data) fun data => .book {
          symbol := data.s
          bestBid := ps.number data.b
          bestBidQty := ps.number data.capB
          bestAsk := ps.number data.a
          bestAskQty := ps.number data.capA
          exchangeEventTimeMs := recvTimeNs.tdiv 1000000
          eventTimeNs := recvTimeNs
          recvTimeNs
          seq := bookSeq
          traceId := newTraceId
          schemaVersion := 1 }
      else if contains msg.stream "@depth" then
        match DepthData.fromValue msg.data with
        | none => .error
        | some data =>
            match data.b.mapM ps.level, data.a.mapM ps.level with
            | some bids, some asks => .ok <| some <| .orderBookL2 {
                symbol := data.s
                bids
                asks
                exchangeEventTimeMs := Wire.ofWord data.eTime
                recvTimeNs
                firstUpdateId := data.uFirst
                finalUpdateId := data.uFinal
                traceId := newTraceId
                schemaVersion := 1 }
            | _, _ => .panic
      else if contains msg.stream "@markPrice" then
        decoded (MarkPriceData.fromValue msg.data) fun data => .markPrice {
          symbol := data.s
          markPrice := ps.number data.p
          indexPrice := ps.number data.i
          estimatedSettlePrice := ps.number data.pEst
          fundingRate := ps.number data.r
          nextFundingTimeMs := Wire.ofWord data.t
          exchangeEventTimeMs := Wire.ofWord data.eTime
          recvTimeNs
          traceId := newTraceId
          schemaVersion := 1 }
      else if contains msg.stream "@openInterest" then
        decoded (OpenInterestData.fromValue msg.data) fun data => .openInterest {
          symbol := data.s
          openInterest := ps.number data.oo
          exchangeEventTimeMs := Wire.ofWord data.eTime
          recvTimeNs
          traceId := newTraceId
          schemaVersion := 1 }
      else if contains msg.stream "@forceOrder" then
        decoded (ForceOrderDataWrapper.fromValue msg.data) fun data => .liquidation {
          symbol := data.o.s
          side := if data.o.side = "BUY" then 1 else -1
          price := ps.number data.o.p
          origQty := ps.number data.o.q
          executedQty := ps.number data.o.z
          exchangeEventTimeMs := Wire.ofWord data.eTime
          recvTimeNs
          traceId := newTraceId
          schemaVersion := 1 }
      else .ok none

/-- A depth update with a level that lacks its price or its quantity. -/
def ShortLevel (text : String) : Prop :=
  ∃ msg data, ps.fromStr text = some msg ∧
    (contains msg.stream "@trade" = false ∧ contains msg.stream "@bookTicker" = false ∧
      contains msg.stream "@depth" = true) ∧
    DepthData.fromValue msg.data = some data ∧ ∃ level ∈ data.b ++ data.a, level.length < 2

variable {ps}

/-- A payload that is decoded makes no panic. -/
theorem decoded_ne_panic {δ : Type} (data : Option δ) (event : δ → NormalizedEvent) :
    decoded data event ≠ .panic := by
  cases data <;> simp [decoded]

/-- A level has no event if one of its two texts is missing. -/
theorem level_eq_none_iff {v : List String} : ps.level v = none ↔ v.length < 2 := by
  match v with
  | [] | [_] | _ :: _ :: _ => simp [Parsers.level]

variable (ps) in
/-- A book has a short level exactly when one of its sides is indexed out of bounds. -/
theorem exists_short_iff {bids asks : List (List String)} :
    (∃ level ∈ bids ++ asks, level.length < 2) ↔
      bids.mapM ps.level = none ∨ asks.mapM ps.level = none := by
  simp only [mapM_eq_none_iff, level_eq_none_iff, List.mem_append, or_and_right, exists_or]

/-- **A frame panics exactly when it is a depth update with a short level.** -/
theorem normalize_eq_panic_iff {text : String} {recvTimeNs : ℤ} {tradeSeq bookSeq : ℕ}
    {newTraceId : String} :
    normalize ps text recvTimeNs tradeSeq bookSeq newTraceId = .panic ↔ ShortLevel ps text := by
  rw [normalize]
  cases hmsg : ps.fromStr text with
  | none => simp [ShortLevel, hmsg]
  | some msg =>
      dsimp only
      split_ifs with htrade hbook hdepth
      · simp [ShortLevel, hmsg, htrade, decoded_ne_panic]
      · simp [ShortLevel, hmsg, hbook, decoded_ne_panic]
      · cases hdata : DepthData.fromValue msg.data with
        | none => simp [ShortLevel, hmsg, hdata]
        | some data =>
            have hshort : ShortLevel ps text ↔ ∃ level ∈ data.b ++ data.a, level.length < 2 := by
              simp [ShortLevel, hmsg, htrade, hbook, hdepth, hdata]
            rw [hshort, exists_short_iff ps]
            dsimp only
            cases data.b.mapM ps.level <;> cases data.a.mapM ps.level <;> simp
      all_goals simp [ShortLevel, hmsg, hdepth, decoded_ne_panic]

end Normalize

/-! ### Handling -/

/-- What the ingestor reads of its configuration here. -/
structure Config where
  kafkaTopicRawTrades : String
  kafkaTopicRawBook : String
  kafkaTopicRawOrderbook : String
  kafkaTopicRawOpenInterest : String
  kafkaTopicRawMarkPrice : String
  kafkaTopicRawLiquidation : String

/-- A record that was sent; the event is its payload. -/
structure Record where
  topic : String
  key : String
  payload : NormalizedEvent

/-- What is counted of a symbol between two heartbeats. -/
structure HeartbeatStats where
  lastMsgTs : ℕ := 0
  msgCount : ℕ := 0
  latencySumMs : ℕ := 0

/-- What a worker shares with the other tasks of the service. -/
structure Worker where
  tradeSeq : ℕ
  bookSeq : ℕ
  stats : String → Option HeartbeatStats
  sent : List Record

/-- What a call meets: the clock, a fresh id, and whether the producer takes the record. -/
structure Call where
  recvTimeNs : ℤ
  newTraceId : String
  published : Bool

section Handle

variable (ps : Parsers) (cfg : Config)

/-- The record that `publish_trade`, `publish_book` and the others send. -/
def NormalizedEvent.record (event : NormalizedEvent) : Record where
  topic := match event with
    | .trade _ => cfg.kafkaTopicRawTrades
    | .book _ => cfg.kafkaTopicRawBook
    | .orderBookL2 _ => cfg.kafkaTopicRawOrderbook
    | .markPrice _ => cfg.kafkaTopicRawMarkPrice
    | .openInterest _ => cfg.kafkaTopicRawOpenInterest
    | .liquidation _ => cfg.kafkaTopicRawLiquidation
  key := event.symbol
  payload := event

/-- The statistics of a symbol after an event. -/
def HeartbeatStats.record (s : HeartbeatStats) (recvTimeNs exchTsMs : ℤ) : HeartbeatStats where
  lastMsgTs := Wire.toWord recvTimeNs
  msgCount := (s.msgCount + 1) % 2 ^ 64
  latencySumMs :=
    (s.latencySumMs + Wire.toWord (saturate (recvTimeNs.tdiv 1000000 - exchTsMs))) % 2 ^ 64

/-- A text frame: it is counted, normalized, noted for its symbol, and published. -/
def handleText (text : String) (call : Call) (w : Worker) : Outcome Unit × Worker :=
  let w := { w with
    tradeSeq := (w.tradeSeq + 1) % 2 ^ 64
    bookSeq := (w.bookSeq + 1) % 2 ^ 64 }
  match normalize ps text call.recvTimeNs w.tradeSeq w.bookSeq call.newTraceId with
  | .panic => (.panic, w)
  | .error => (.error, w)
  | .ok none => (.ok (), w)
  | .ok (some event) =>
      let stats := ((w.stats event.symbol).getD {}).record call.recvTimeNs event.exchangeEventTimeMs
      let w := { w with stats := Function.update w.stats event.symbol (some stats) }
      if call.published then (.ok (), { w with sent := w.sent ++ [event.record cfg] })
      else (.error, w)

/-- What the loop of a worker takes off its socket. -/
inductive Message
  | text (text : String) (call : Call)
  /-- Binary data, a ping, a pong or a raw frame. -/
  | other
  /-- A close or a read error, after which the worker connects again. -/
  | closed

/-- A turn of the loop of a worker, which is there no more once it panicked. -/
def receive : Option Worker → Message → Option Worker
  | none, _ => none
  | some w, .text text call =>
      match handleText ps cfg text call w with
      | (.panic, _) => none
      | (_, w) => some w
  | some w, .other => some w
  | some w, .closed => some w

/-- The worker after a number of messages. -/
def runWsWorker (w : Worker) (messages : List Message) : Option Worker :=
  messages.foldl (receive ps cfg) (some w)

variable {ps cfg}

/-- The handling of a frame panics exactly when the frame does. -/
theorem handleText_eq_panic_iff {text : String} {call : Call} {w : Worker} :
    (handleText ps cfg text call w).1 = .panic ↔ ShortLevel ps text := by
  have hiff : normalize ps text call.recvTimeNs ((w.tradeSeq + 1) % 2 ^ 64)
      ((w.bookSeq + 1) % 2 ^ 64) call.newTraceId = .panic ↔ ShortLevel ps text :=
    normalize_eq_panic_iff
  rw [handleText, ← hiff]
  cases normalize ps text call.recvTimeNs ((w.tradeSeq + 1) % 2 ^ 64)
      ((w.bookSeq + 1) % 2 ^ 64) call.newTraceId with
  | panic => simp
  | error => simp
  | ok event =>
      cases event with
      | none => simp
      | some event =>
          dsimp only
          split <;> simp

/-- A message that does not carry a short level leaves the worker there. -/
theorem receive_isSome_iff {w : Worker} {message : Message} :
    (receive ps cfg (some w) message).isSome ↔
      ∀ text call, message = .text text call → ¬ShortLevel ps text := by
  cases message with
  | other | closed => simp [receive]
  | text text call =>
      rw [receive]
      split
      · rename_i hpanic
        have hshort := handleText_eq_panic_iff.mp (congrArg Prod.fst hpanic)
        exact iff_of_false nofun fun h => h text call rfl hshort
      · rename_i outcome w' hne hcall
        have hsafe : ¬ShortLevel ps text := fun hshort =>
          hne ((congrArg Prod.fst hcall).symm.trans (handleText_eq_panic_iff.mpr hshort))
        refine iff_of_true rfl ?_
        rintro _ _ ⟨rfl, rfl⟩
        exact hsafe

/-- A worker that is not there takes nothing. -/
theorem foldl_none (messages : List Message) :
    messages.foldl (receive ps cfg) none = none := by
  induction messages with
  | nil => rfl
  | cons message messages ih => exact ih

/-- **No other frame ends a worker.** -/
theorem runWsWorker_isSome_iff {w : Worker} {messages : List Message} :
    (runWsWorker ps cfg w messages).isSome ↔
      ∀ text call, .text text call ∈ messages → ¬ShortLevel ps text := by
  induction messages generalizing w with
  | nil => simp [runWsWorker]
  | cons message messages ih =>
      have hfirst : (receive ps cfg (some w) message).isSome ↔ _ := receive_isSome_iff
      rw [runWsWorker, List.foldl_cons]
      cases hnext : receive ps cfg (some w) message with
      | none =>
          rw [foldl_none]
          rw [hnext] at hfirst
          refine iff_of_false nofun fun h => ?_
          exact absurd (hfirst.mpr fun text call hmessage =>
            h text call (hmessage ▸ List.mem_cons_self)) nofun
      | some w' =>
          rw [hnext] at hfirst
          have hsafe := hfirst.mp rfl
          refine Iff.trans ih ⟨fun h text call hmem => ?_, fun h text call hmem =>
            h text call (List.mem_cons_of_mem _ hmem)⟩
          rcases List.mem_cons.mp hmem with heq | hmem
          · exact hsafe text call heq.symm
          · exact h text call hmem

variable (ps cfg) in
/-- **A frame is survived exactly when it is not a depth update with a short level**, in every
state, and a worker stays exactly as long as all of its frames are survived. -/
theorem survives_iff :
    (∀ text call w, (handleText ps cfg text call w).1 ≠ .panic ↔ ¬ShortLevel ps text) ∧
      ∀ w messages, (runWsWorker ps cfg w messages).isSome ↔
        ∀ text call, .text text call ∈ messages → ¬ShortLevel ps text :=
  ⟨fun _ _ _ => not_congr handleText_eq_panic_iff, fun _ _ => runWsWorker_isSome_iff⟩

end Handle

/-- Parsers that accept one frame, and read whole numbers. -/
def Parsers.one (frame : String) (msg : Combined) : Parsers where
  fromStr text := if text = frame then some msg else none
  parseF64 s := s.toNat?.map fun n => .fin n

/-- A depth update whose only bid has a price but no quantity. -/
def priceOnly : String :=
  "\x7b\"stream\":\"btcusdt@depth20@100ms\",\"data\":\x7b\"E\":1,\"s\":\"BTCUSDT\"," ++
    "\"U\":1,\"u\":1,\"b\":[[\"1\"]],\"a\":[]\x7d\x7d"

/-- What is read from that frame. -/
def priceOnlyMessage : Combined where
  stream := "btcusdt@depth20@100ms"
  data := .obj [("E", .posInt 1), ("s", .str "BTCUSDT"), ("U", .posInt 1), ("u", .posInt 1),
    ("b", .arr [.arr [.str "1"]]), ("a", .arr [])]

/-- Its level has a price only. -/
theorem shortLevel_priceOnly : ShortLevel (.one priceOnly priceOnlyMessage) priceOnly := by
  refine ⟨priceOnlyMessage, ⟨1, "BTCUSDT", 1, 1, [["1"]], []⟩, ?_, by decide +kernel, rfl,
    ["1"], by simp, by decide⟩
  simp [Parsers.one]

/-- All events go to one topic. -/
def Config.single (topic : String) : Config := ⟨topic, topic, topic, topic, topic, topic⟩

/-- A worker before its first frame. -/
def Worker.init : Worker := ⟨0, 0, fun _ => none, []⟩

/-- A level without a quantity ends a worker, which then does not take a frame it would survive. -/
theorem priceOnly_panics :
    (handleText (.one priceOnly priceOnlyMessage) (.single "md") priceOnly ⟨0, "", true⟩
        .init).1 = .panic ∧
      runWsWorker (.one priceOnly priceOnlyMessage) (.single "md") .init
        [.text priceOnly ⟨0, "", true⟩, .text "pong" ⟨0, "", true⟩] = none := by
  refine ⟨handleText_eq_panic_iff.mpr shortLevel_priceOnly, ?_⟩
  rw [← Option.not_isSome_iff_eq_none, runWsWorker_isSome_iff]
  exact fun h => h priceOnly _ List.mem_cons_self shortLevel_priceOnly

end HftPlatform.MarketdataIngestor
