import HftPlatform.WsFrames
import HftPlatform.Lib.Chunks

/-!
# The subscriptions of the market data socket

`build_subscribe_messages` of `services/marketdata_ingestor/src/ws/binance.rs`: the names of six
streams for each symbol, in requests of at most fifty. The name of a stream comes back with each of
its frames, and `normalize` searches it for the tags of the kinds, one after the other.

How a JSON value is printed is a parameter, and so are the tables of Unicode, of which it is used
that the lower case of another character than an at sign holds none.

## Main results

* `find?_stream`: the first tag that is found in the name of a stream is that of its kind.
* `subscriptions_dispatch`: the requests carry the names in order, and a frame of a stream with a
  well-formed payload becomes an event of its kind.
-/

namespace HftPlatform.MarketdataIngestor

open Lib

/-! ### The requests -/

/-- The streams of some symbols, six for each. -/
def streams (u : Unicode) (symbols : List String) (orderBookDepth : ℕ) : List String :=
  symbols.flatMap fun s =>
    let ss := u.toLowercase s
    [ss ++ "@trade",
      ss ++ "@bookTicker",
      ss ++ "@depth" ++ toString orderBookDepth ++ "@100ms",
      ss ++ "@markPrice@1s",
      ss ++ "@openInterest",
      ss ++ "@forceOrder"]

/-- The request for some streams. -/
def subscribeRequest (chunk : List String) : Json :=
  .obj [("method", .str "SUBSCRIBE"), ("params", .arr (chunk.map .str)), ("id", .posInt 1)]

/-- The requests, each for a bounded number of streams. -/
def subscribeRequests (u : Unicode) (symbols : List String) (orderBookDepth : ℕ) : List Json :=
  (chunks 50 (streams u symbols orderBookDepth)).map subscribeRequest

/-- The texts that are sent. -/
def buildSubscribeMessages (toText : Json → String) (u : Unicode) (symbols : List String)
    (orderBookDepth : ℕ) : List String :=
  (subscribeRequests u symbols orderBookDepth).map toText

/-- The streams that a request names. -/
def requestParams (request : Json) : List String :=
  match request.getFields ["params"] with
  | some [params] => (params.getVec Json.getStr).getD []
  | _ => []

/-- The streams of a request are those it was made for. -/
theorem requestParams_subscribeRequest (chunk : List String) :
    requestParams (subscribeRequest chunk) = chunk := by
  have hfields : (subscribeRequest chunk).getFields ["params"] =
      some [.arr (chunk.map .str)] := rfl
  rw [requestParams, hfields]
  simp [Json.getVec_map_str]

/-- The requests carry the names of the streams, in order. -/
theorem flatMap_requestParams (u : Unicode) (symbols : List String) (orderBookDepth : ℕ) :
    (subscribeRequests u symbols orderBookDepth).flatMap requestParams =
      streams u symbols orderBookDepth := by
  rw [subscribeRequests, List.flatMap_map]
  simp only [requestParams_subscribeRequest]
  rw [List.flatMap_id', flatten_chunks (by decide)]

/-- A request names between one and fifty streams. -/
theorem length_requestParams {u : Unicode} {symbols : List String} {orderBookDepth : ℕ}
    {request : Json} (h : request ∈ subscribeRequests u symbols orderBookDepth) :
    1 ≤ (requestParams request).length ∧ (requestParams request).length ≤ 50 := by
  obtain ⟨chunk, hchunk, rfl⟩ := List.mem_map.mp h
  rw [requestParams_subscribeRequest]
  exact length_of_mem_chunks hchunk

/-! ### The kinds of streams -/

/-- The kinds of the streams. -/
inductive Kind
  | trade
  | book
  | orderBookL2
  | markPrice
  | openInterest
  | liquidation
  deriving DecidableEq

/-- The kind of an event. -/
def NormalizedEvent.kind : NormalizedEvent → Kind
  | .trade _ => .trade
  | .book _ => .book
  | .orderBookL2 _ => .orderBookL2
  | .markPrice _ => .markPrice
  | .openInterest _ => .openInterest
  | .liquidation _ => .liquidation

namespace Kind

/-- In the order of their tests. -/
def all : List Kind := [trade, book, orderBookL2, markPrice, openInterest, liquidation]

/-- What a stream name is searched for. -/
def tag : Kind → String
  | trade => "@trade"
  | book => "@bookTicker"
  | orderBookL2 => "@depth"
  | markPrice => "@markPrice"
  | openInterest => "@openInterest"
  | liquidation => "@forceOrder"

/-- What a stream name is after its symbol. -/
def suffix (orderBookDepth : ℕ) : Kind → String
  | trade => "@trade"
  | book => "@bookTicker"
  | orderBookL2 => "@depth" ++ (toString orderBookDepth ++ "@100ms")
  | markPrice => "@markPrice@1s"
  | openInterest => "@openInterest"
  | liquidation => "@forceOrder"

/-- The stream of a symbol, whose lower case is given. -/
def stream (ss : String) (orderBookDepth : ℕ) (kind : Kind) : String :=
  ss ++ kind.suffix orderBookDepth

/-- The payload has the fields of its kind, and all levels of a book have a price and a
quantity. -/
def WellFormed (data : Json) : Kind → Prop
  | trade => ∃ payload, TradeData.fromValue data = some payload
  | book => ∃ payload, BookData.fromValue data = some payload
  | orderBookL2 => ∃ payload, DepthData.fromValue data = some payload ∧
      ∀ level ∈ payload.b ++ payload.a, 2 ≤ level.length
  | markPrice => ∃ payload, MarkPriceData.fromValue data = some payload
  | openInterest => ∃ payload, OpenInterestData.fromValue data = some payload
  | liquidation => ∃ payload, ForceOrderDataWrapper.fromValue data = some payload

end Kind

/-- The streams symbol by symbol, in the order of the kinds. -/
theorem streams_eq (u : Unicode) (symbols : List String) (orderBookDepth : ℕ) :
    streams u symbols orderBookDepth =
      symbols.flatMap fun s => Kind.all.map (Kind.stream (u.toLowercase s) orderBookDepth) := by
  simp only [streams, Kind.all, List.map_cons, List.map_nil, Kind.stream, Kind.suffix,
    String.append_assoc]

/-! ### Dispatch -/

/-- A number is written without an at sign. -/
theorem at_not_mem_toString (n : ℕ) : '@' ∉ (toString n).toList := by
  intro h
  have hdigits : '@' ∈ Nat.toDigits 10 n := by simpa using h
  have hdigit := Nat.isDigit_of_mem_toDigits (by decide) (by decide) hdigits
  exact absurd hdigit (by decide)

/-- The depth of a book lets no tag be found that does not start as its own. -/
theorem contains_depth {orderBookDepth : ℕ} {pat : String} {c : Char} {cs : List Char}
    (hpat : pat.toList = '@' :: c :: cs) (hc : c ≠ 'd') (hend : contains "@100ms" pat = false) :
    contains (Kind.suffix orderBookDepth .orderBookL2) pat = false := by
  have hnumber : '@' ∉ ("depth" ++ toString orderBookDepth).toList := by
    rw [String.toList_append, List.mem_append, not_or]
    exact ⟨by decide, at_not_mem_toString orderBookDepth⟩
  have hafter : contains ("depth" ++ toString orderBookDepth ++ "@100ms") pat = false := by
    rwa [contains_append hnumber rfl (by rw [hpat, List.head?_cons])]
  have hname : (Kind.suffix orderBookDepth .orderBookL2).toList =
      '@' :: ("depth" ++ toString orderBookDepth ++ "@100ms").toList := by
    simp [Kind.suffix]
  rw [contains, decide_eq_false_iff_not] at hafter ⊢
  rw [hname, List.infix_cons_iff, not_or]
  refine ⟨fun hprefix => ?_, hafter⟩
  rw [hpat, List.cons_prefix_cons] at hprefix
  obtain ⟨post, hpost⟩ := hprefix.2
  have hfirst : c = 'd' := by simpa using congrArg List.head? hpost
  exact hc hfirst

/-- Whether a tag is in the name of a stream depends on the end of the name only. -/
theorem contains_stream {ss : String} (hss : '@' ∉ ss.toList) (orderBookDepth : ℕ)
    (kind tagged : Kind) : contains (kind.stream ss orderBookDepth) tagged.tag =
      contains (kind.suffix orderBookDepth) tagged.tag := by
  refine contains_append hss ?_ (by cases tagged <;> decide)
  cases kind with
  | orderBookL2 => simp [Kind.suffix]
  | _ => simp only [Kind.suffix]; decide

/-- **The first tag that is found in the name of a stream is that of its kind.** -/
theorem find?_stream {ss : String} (hss : '@' ∉ ss.toList) (orderBookDepth : ℕ) (kind : Kind) :
    Kind.all.find? (fun k => contains (kind.stream ss orderBookDepth) k.tag) = some kind := by
  simp only [contains_stream hss]
  cases kind with
  | orderBookL2 =>
      have htrade : contains (Kind.suffix orderBookDepth .orderBookL2) "@trade" = false :=
        contains_depth rfl (by decide) (by decide +kernel)
      have hbook : contains (Kind.suffix orderBookDepth .orderBookL2) "@bookTicker" = false :=
        contains_depth rfl (by decide) (by decide +kernel)
      have hdepth : contains (Kind.suffix orderBookDepth .orderBookL2) "@depth" = true :=
        contains_append_self "@depth" _
      simp [Kind.all, Kind.tag, htrade, hbook, hdepth]
  | _ =>
      simp only [Kind.suffix]
      decide +kernel

/-- A payload that decodes becomes the event. -/
theorem exists_decoded {δ : Type} {data : Option δ} {event : δ → NormalizedEvent} {kind : Kind}
    (hdata : ∃ payload, data = some payload) (hkind : ∀ payload, (event payload).kind = kind) :
    ∃ e : NormalizedEvent, e.kind = kind ∧ decoded data event = .ok (some e) := by
  obtain ⟨payload, rfl⟩ := hdata
  exact ⟨event payload, hkind payload, rfl⟩

/-- A frame whose first tag is that of a kind, with a well-formed payload of the kind, becomes an
event of the kind. -/
theorem normalize_of_find? {ps : Parsers} {text : String} {msg : Combined} {kind : Kind}
    (htext : ps.fromStr text = some msg)
    (hfirst : Kind.all.find? (fun k => contains msg.stream k.tag) = some kind)
    (hdata : kind.WellFormed msg.data) (recvTimeNs : ℤ) (tradeSeq bookSeq : ℕ)
    (newTraceId : String) : ∃ event, event.kind = kind ∧
      normalize ps text recvTimeNs tradeSeq bookSeq newTraceId = .ok (some event) := by
  rw [normalize, htext]
  simp only [Kind.all, List.find?_cons, Kind.tag] at hfirst
  dsimp only
  split_ifs with htrade hbook hdepth hmark hinterest horder
  · obtain rfl : Kind.trade = kind := by simpa [htrade] using hfirst
    exact exists_decoded hdata fun _ => rfl
  · obtain rfl : Kind.book = kind := by simpa [htrade, hbook] using hfirst
    exact exists_decoded hdata fun _ => rfl
  · obtain rfl : Kind.orderBookL2 = kind := by simpa [htrade, hbook, hdepth] using hfirst
    obtain ⟨payload, hpayload, hlevels⟩ := hdata
    have hindexed : ¬∃ level ∈ payload.b ++ payload.a, level.length < 2 := by
      rintro ⟨level, hmem, hlt⟩
      exact absurd (hlevels level hmem) (Nat.not_le.mpr hlt)
    rw [exists_short_iff ps, not_or] at hindexed
    obtain ⟨bids, hbids⟩ := Option.ne_none_iff_exists'.mp hindexed.1
    obtain ⟨asks, hasks⟩ := Option.ne_none_iff_exists'.mp hindexed.2
    rw [hpayload]
    dsimp only
    rw [hbids, hasks]
    exact ⟨_, rfl, rfl⟩
  · obtain rfl : Kind.markPrice = kind := by
      simpa [htrade, hbook, hdepth, hmark] using hfirst
    exact exists_decoded hdata fun _ => rfl
  · obtain rfl : Kind.openInterest = kind := by
      simpa [htrade, hbook, hdepth, hmark, hinterest] using hfirst
    exact exists_decoded hdata fun _ => rfl
  · obtain rfl : Kind.liquidation = kind := by
      simpa [htrade, hbook, hdepth, hmark, hinterest, horder] using hfirst
    exact exists_decoded hdata fun _ => rfl
  · simp [htrade, hbook, hdepth, hmark, hinterest, horder] at hfirst

/-- **Subscription and dispatch agree.** -/
theorem subscriptions_dispatch (ps : Parsers) (toText : Json → String) {u : Unicode}
    (hlower : ∀ c, '@' ∈ u.lower c → c = '@') {symbols : List String}
    (hsymbols : ∀ s ∈ symbols, '@' ∉ s.toList) (orderBookDepth : ℕ) :
    (∃ requests : List Json,
      buildSubscribeMessages toText u symbols orderBookDepth = requests.map toText ∧
      requests.flatMap requestParams = (symbols.flatMap fun s =>
        Kind.all.map (Kind.stream (u.toLowercase s) orderBookDepth)) ∧
      ∀ request ∈ requests,
        1 ≤ (requestParams request).length ∧ (requestParams request).length ≤ 50) ∧
    ∀ s ∈ symbols, ∀ (kind : Kind) (text : String) (data : Json),
      ps.fromStr text = some ⟨kind.stream (u.toLowercase s) orderBookDepth, data⟩ →
      kind.WellFormed data → ∀ recvTimeNs tradeSeq bookSeq newTraceId, ∃ event, event.kind = kind ∧
        normalize ps text recvTimeNs tradeSeq bookSeq newTraceId = .ok (some event) := by
  refine ⟨⟨subscribeRequests u symbols orderBookDepth, rfl, ?_, fun _ => length_requestParams⟩, ?_⟩
  · rw [flatMap_requestParams, streams_eq]
  · intro s hs kind text data htext hdata
    have hss : '@' ∉ (u.toLowercase s).toList := by
      rw [Unicode.toLowercase, String.toList_ofList]
      exact Unicode.not_mem_lowered hlower (by decide) (by decide) (hsymbols s hs)
    exact normalize_of_find? htext (find?_stream hss orderBookDepth kind) hdata

/-- A trade of one symbol. -/
def tradeFrame : String :=
  "\x7b\"stream\":\"btcusdt@trade\",\"data\":\x7b\"E\":1,\"s\":\"BTCUSDT\",\"t\":1," ++
    "\"p\":\"2\",\"q\":\"3\",\"m\":true\x7d\x7d"

/-- What is read from that frame. -/
def tradeMessage : Combined where
  stream := "btcusdt@trade"
  data := .obj [("E", .posInt 1), ("s", .str "BTCUSDT"), ("t", .posInt 1), ("p", .str "2"),
    ("q", .str "3"), ("m", .bool true)]

/-- The frame of a trade is normalized to a trade. -/
theorem subscriptions_dispatch_trade :
    '@' ∉ "BTCUSDT".toList ∧ ∃ event, event.kind = .trade ∧
      normalize (.one tradeFrame tradeMessage) tradeFrame 5 1 1 "" = .ok (some event) := by
  refine ⟨by decide, ?_⟩
  have hstream : tradeMessage.stream =
      Kind.stream (Unicode.ascii.toLowercase "BTCUSDT") 20 .trade := by decide +kernel
  have htext : (Parsers.one tradeFrame tradeMessage).fromStr tradeFrame =
      some ⟨Kind.stream (Unicode.ascii.toLowercase "BTCUSDT") 20 .trade, tradeMessage.data⟩ := by
    rw [← hstream]
    simp [Parsers.one]
  have hsymbols : ∀ s ∈ ["BTCUSDT"], '@' ∉ s.toList := by decide
  have hagree := subscriptions_dispatch (.one tradeFrame tradeMessage) (fun _ => "")
    (Unicode.eq_of_mem_lower_ascii (by decide)) hsymbols 20
  exact hagree.2 "BTCUSDT" (by decide) .trade tradeFrame tradeMessage.data htext ⟨_, rfl⟩ 5 1 1 ""

end HftPlatform.MarketdataIngestor
