import HftPlatform.CandleDedupe
import HftPlatform.CandleSink
import HftPlatform.Lib.Backoff
import HftPlatform.Lib.Chunks
import HftPlatform.Lib.Interleave

/-!
# The candle pipeline

`run_candle_pipeline` of `services/marketdata_ingestor/src/candle.rs`: one worker for each chunk of
the symbols reads a socket, lets each closed candle through once, and sends it to the channel of the
sink loop, which `CandleSink` models. The workers and the sink share the metrics, and the sink tells
from them whether the service is ready.

The steps are those of the task that spawns the workers, of the workers, and of the sink, in any
order. What texts parse to is a parameter. A tick that flushes refreshes the readiness twice, after
the flush and at its end; the second time is a tick of its own, which finds the batch empty.

## Main results

* `step_spec`: what a step can do.
* `apart_clickhouse`: between two rows of one candle there are as many others as a worker remembers.
* `gauge_run`: what the gauge of the connected workers counts.
* `backoff_run`: how long a worker sleeps.
* `ready_of_ended`: when the sink loop has ended, the service stays as ready as it was.
-/

namespace HftPlatform.CandlePipeline

open Lib
open CandleSink (CandleRow ParsedClosedCandle)

/-- The intervals of the candles. -/
inductive KlineInterval
  | m1 | m3 | m5 | m15 | m30 | h1 | h2 | h4 | h6 | h8 | h12 | d1 | d3 | w1 | mo1
  deriving DecidableEq, Repr

/-- An interval as the exchange writes it. -/
def KlineInterval.asStr : KlineInterval → String
  | m1 => "1m"
  | m3 => "3m"
  | m5 => "5m"
  | m15 => "15m"
  | m30 => "30m"
  | h1 => "1h"
  | h2 => "2h"
  | h4 => "4h"
  | h6 => "6h"
  | h8 => "8h"
  | h12 => "12h"
  | d1 => "1d"
  | d3 => "3d"
  | w1 => "1w"
  | mo1 => "1M"

/-- The payload of a frame, under the names of its keys. -/
structure Kline where
  t : ℤ
  capT : ℤ
  s : String
  o : String
  c : String
  h : String
  l : String
  v : String
  n : ℕ
  x : Bool
  q : String
  capV : String
  capQ : String

/-- The record of a candle, as it is published. -/
structure ClosedCandleEvent where
  symbol : String
  interval : String
  openTime : ℤ
  closeTime : ℤ
  «open» : Binary64
  high : Binary64
  low : Binary64
  close : Binary64
  volume : Binary64
  quoteAssetVolume : Binary64
  numberOfTrades : ℕ
  takerBuyBaseAssetVolume : Binary64
  takerBuyQuoteAssetVolume : Binary64
  exchange : String
  market : String
  eventIngestedAtMs : ℤ
  isClosed : Bool

/-- What the pipeline takes from its language and from third-party crates. -/
structure Parsers where
  /-- `serde_json::from_str::<Combined>(text).ok()`, and the payload in it. -/
  fromStr : String → Option Kline
  /-- `str::parse::<f64>().ok()`. -/
  parseF64 : String → Option Binary64
  /-- `serde_json::to_vec(&event).ok()`. -/
  toVec : ClosedCandleEvent → Option (List UInt8)
  toLowercase : String → String
  /-- `Url::parse(s).is_ok()`. -/
  parsesUrl : String → Bool

/-- The configuration of the pipeline. -/
structure Config extends CandleSink.Config where
  symbols : List String
  candleInterval : KlineInterval
  candleFuturesWsBaseUrl : String
  candleWsChunkSize : ℕ
  candleWsStaleTimeoutMs : ℤ
  candleDedupeCapacityPerWorker : ℕ
  /-- `from_env` replaces a size of zero. -/
  chunkSize_pos : 0 < candleWsChunkSize

/-- The first sleep of a worker. -/
def defaultWsInitialBackoffMs : ℕ := 500

/-- The longest sleep of a worker. -/
def defaultWsMaxBackoffMs : ℕ := 30000

/-! ### Parsing -/

/-- Why a candle could not be read. -/
inductive ParseError
  | field (fieldName symbol : String) (openTime : ℤ) (raw : String)
  | serialize

variable (cfg : Config) (ps : Parsers)

/-- The number in a field, or which field it was not in. -/
def parseF64Field (raw fieldName symbol : String) (openTime : ℤ) : Except ParseError Binary64 :=
  match ps.parseF64 raw with
  | some x => .ok x
  | none => .error (.field fieldName symbol openTime raw)

/-- The record of a row. -/
def closedCandleEvent (row : CandleRow) : ClosedCandleEvent where
  symbol := row.symbol
  interval := row.interval
  openTime := row.openTime
  closeTime := row.closeTime
  «open» := row.open
  high := row.high
  low := row.low
  close := row.close
  volume := row.volume
  quoteAssetVolume := row.quoteAssetVolume
  numberOfTrades := row.numberOfTrades
  takerBuyBaseAssetVolume := row.takerBuyBaseAssetVolume
  takerBuyQuoteAssetVolume := row.takerBuyQuoteAssetVolume
  exchange := row.exchange
  market := row.market
  eventIngestedAtMs := row.eventIngestedAtMs
  isClosed := true

/-- The candle of a text; nothing when it is not closed yet, or the text is something else. -/
def parseClosedCandleMessage (interval : KlineInterval) (nowMs : ℤ) (text : String) :
    Except ParseError (Option ParsedClosedCandle) :=
  match ps.fromStr text with
  | none => .ok none
  | some kline =>
      if !kline.x then .ok none
      else do
        let openPrice ← parseF64Field ps kline.o "open" kline.s kline.t
        let high ← parseF64Field ps kline.h "high" kline.s kline.t
        let low ← parseF64Field ps kline.l "low" kline.s kline.t
        let close ← parseF64Field ps kline.c "close" kline.s kline.t
        let volume ← parseF64Field ps kline.v "volume" kline.s kline.t
        let quoteAssetVolume ← parseF64Field ps kline.q "quote_asset_volume" kline.s kline.t
        let takerBuyBaseAssetVolume ←
          parseF64Field ps kline.capV "taker_buy_base_asset_volume" kline.s kline.t
        let takerBuyQuoteAssetVolume ←
          parseF64Field ps kline.capQ "taker_buy_quote_asset_volume" kline.s kline.t
        let row : CandleRow := {
          symbol := kline.s, interval := interval.asStr, openTime := kline.t, «open» := openPrice,
          high, low, close, volume, closeTime := kline.capT, quoteAssetVolume,
          numberOfTrades := kline.n, takerBuyBaseAssetVolume, takerBuyQuoteAssetVolume,
          exchange := "binance", market := "futures", eventIngestedAtMs := nowMs }
        match ps.toVec (closedCandleEvent row) with
        | none => .error .serialize
        | some kafkaPayload => return some {
            row, kafkaPayload
            kafkaKey := row.symbol ++ ":" ++ row.interval ++ ":" ++ toString row.openTime }

/-! ### The shared state -/

/-- The metrics that the workers and the sink share. -/
structure CandleWorkerMetrics where
  connectedWorkers : ℕ := 0
  lastWsMessageAtMs : ℤ := 0
  lastKafkaSuccessAtMs : ℤ := 0
  lastChSuccessAtMs : ℤ := 0
  parsedCandleCount : ℕ := 0
  duplicateCandleCount : ℕ := 0
  parseErrorCount : ℕ := 0

/-- `fetch_add(1)` of an `AtomicU64`. -/
def fetchAdd (n : ℕ) : ℕ := (n + 1) % 2 ^ 64

/-- `fetch_sub(1)` of an `AtomicU64`. -/
def fetchSub (n : ℕ) : ℕ := (n + (2 ^ 64 - 1)) % 2 ^ 64

/-- Someone is connected, and the last message and the last writes are not too old. -/
def refreshReadiness (m : CandleWorkerMetrics) (nowMs : ℤ) : Bool :=
  -- The product of the 64-bit time-out wraps.
  let twice := (cfg.candleWsStaleTimeoutMs * 2).bmod (2 ^ 64)
  decide (0 < m.connectedWorkers) &&
    decide (0 < m.lastWsMessageAtMs ∧ nowMs - m.lastWsMessageAtMs ≤ cfg.candleWsStaleTimeoutMs) &&
    decide (0 < m.lastKafkaSuccessAtMs ∧ nowMs - m.lastKafkaSuccessAtMs ≤ twice) &&
    decide (0 < m.lastChSuccessAtMs ∧ nowMs - m.lastChSuccessAtMs ≤ twice)

/-! ### Workers -/

/-- What a read with a time-out gives. -/
inductive Frame
  | text (text : String)
  | close
  | ping
  | pong
  | binary
  | raw
  | readError
  | ended
  | stale

/-- Where a worker is. One that has stopped after its start had a candle to send that the sink was
not there for. -/
inductive WorkerPhase
  | connecting
  | reading
  | sending (item : ParsedClosedCandle)
  | sleeping
  | stopped (item : Option ParsedClosedCandle)

/-- A worker with its symbols and the candles that it remembers. -/
structure Worker where
  symbols : List String
  dedupeCache : DedupeCache
  backoffMs : ℕ := defaultWsInitialBackoffMs
  phase : WorkerPhase
  /-- How often it has slept since it was last connected. -/
  naps : ℕ := 0

/-- What happens to a worker. -/
inductive WorkerEvent
  | connect (isOk : Bool)
  | read (message : Frame) (nowMs ingestedAtMs : ℤ)
  | send
  | wake

/-- What happens next. -/
inductive Event
  /-- The pipeline spawns its next worker or, after the last one, drops its end of the channel. -/
  | main
  | worker (i : ℕ) (e : WorkerEvent)
  | sink (e : CandleSink.Event) (nowMs : ℤ)
  /-- The channel closes, when nobody can send any more. -/
  | close

/-- The pipeline: what is still to be spawned, the workers, the sink, and what they share. -/
structure State where
  chunks : List (List String)
  workers : List Worker := []
  dropped : Bool := false
  sink : CandleSink.State
  metrics : CandleWorkerMetrics := {}
  ready : Bool := false
  /-- The candles that the channel accepted, with the workers that sent them. -/
  log : List (ℕ × ParsedClosedCandle) := []

/-- Nothing is spawned yet. -/
def State.init : State where
  chunks := Lib.chunks cfg.candleWsChunkSize cfg.symbols
  sink := .init cfg.toConfig

/-- The address of the streams of some symbols. -/
def wsUrl (symbols : List String) : String :=
  cfg.candleFuturesWsBaseUrl ++ "?streams=" ++ "/".intercalate
    (symbols.map fun symbol => ps.toLowercase symbol ++ "@kline_" ++ cfg.candleInterval.asStr)

/-- A worker at the beginning of `run_candle_ws_worker`. -/
def Worker.new (symbols : List String) : Worker where
  symbols
  dedupeCache := .new cfg.candleDedupeCapacityPerWorker
  phase := if symbols.isEmpty || !ps.parsesUrl (wsUrl cfg ps symbols) then .stopped none
    else .connecting

/-- The key under which a candle is remembered. -/
def dedupeKey (row : CandleRow) : CandleKey := ⟨row.symbol, row.interval, row.openTime⟩

/-- A text frame: a candle that is new is to be sent. -/
def handleText (w : Worker) (m : CandleWorkerMetrics) (text : String) (nowMs ingestedAtMs : ℤ) :
    Worker × CandleWorkerMetrics :=
  let m := { m with lastWsMessageAtMs := nowMs }
  match parseClosedCandleMessage ps cfg.candleInterval ingestedAtMs text with
  | .ok (some parsed) =>
      let inserted := w.dedupeCache.insertIfNew (dedupeKey parsed.row)
      if inserted.1 then
        ({ w with dedupeCache := inserted.2, phase := .sending parsed },
          { m with parsedCandleCount := fetchAdd m.parsedCandleCount })
      else
        ({ w with dedupeCache := inserted.2 },
          { m with duplicateCandleCount := fetchAdd m.duplicateCandleCount })
  | .ok none => (w, m)
  | .error _ => (w, { m with parseErrorCount := fetchAdd m.parseErrorCount })

/-- The worker leaves its socket and sleeps. -/
def disconnect (s : State) (i : ℕ) (w : Worker) : State :=
  { s with
    workers := s.workers.set i { w with phase := .sleeping }
    metrics := { s.metrics with connectedWorkers := fetchSub s.metrics.connectedWorkers } }

/-- What an event does to a worker and to what is shared. -/
def workerStep (s : State) (i : ℕ) (w : Worker) (e : WorkerEvent) : State :=
  match e, w.phase with
  | .connect true, .connecting =>
      { s with
        workers := s.workers.set i
          { w with backoffMs := defaultWsInitialBackoffMs, phase := .reading, naps := 0 }
        metrics := { s.metrics with connectedWorkers := fetchAdd s.metrics.connectedWorkers } }
  | .connect false, .connecting =>
      { s with workers := s.workers.set i { w with phase := .sleeping } }
  | .read message nowMs ingestedAtMs, .reading =>
      match message with
      | .text text =>
          let handled := handleText cfg ps w s.metrics text nowMs ingestedAtMs
          { s with workers := s.workers.set i handled.1, metrics := handled.2 }
      | .close | .readError | .ended | .stale => disconnect s i w
      | .ping | .pong | .binary | .raw => s
  | .send, .sending item =>
      if (CandleSink.step cfg.toConfig s.sink (.accept item)).2 then
        { s with
          sink := (CandleSink.step cfg.toConfig s.sink (.accept item)).1
          workers := s.workers.set i { w with phase := .reading }
          log := s.log ++ [(i, item)] }
      else if s.sink.phase.running then s
      else
        -- The worker returns from within its loop, and the gauge still counts it.
        { s with workers := s.workers.set i { w with phase := .stopped (some item) } }
  | .wake, .sleeping =>
      { s with
        workers := s.workers.set i { w with
          backoffMs := min (w.backoffMs * 2) defaultWsMaxBackoffMs
          phase := .connecting
          naps := w.naps + 1 } }
  | _, _ => s

/-! ### The sink and the spawning task -/

/-- What the sink notes of a step of its loop. -/
def sinkStep (s : State) (e : CandleSink.Event) (nowMs : ℤ) : State :=
  let sink := (CandleSink.step cfg.toConfig s.sink e).1
  match e, s.sink.phase with
  | .clickhouse true, .inserting _ =>
      { s with sink, metrics := { s.metrics with lastChSuccessAtMs := nowMs } }
  | .kafka true, .sending (_ :: _) _ =>
      { s with sink, metrics := { s.metrics with lastKafkaSuccessAtMs := nowMs } }
  | .clear, .sending [] _ => { s with sink, ready := refreshReadiness cfg s.metrics nowMs }
  | .tick, .select =>
      if s.sink.batch.isEmpty then { s with ready := refreshReadiness cfg s.metrics nowMs }
      else { s with sink }
  | .accept _, _ | .close, _ => s
  | _, _ => { s with sink }

/-- The worker has returned. -/
def Worker.isStopped (w : Worker) : Bool :=
  match w.phase with
  | .stopped _ => true
  | _ => false

/-- The state after an event. -/
def step (s : State) : Event → State
  | .main =>
      match s.chunks with
      | symbols :: chunks =>
          { s with chunks, workers := s.workers ++ [.new cfg ps symbols] }
      | [] => if s.dropped then s else { s with dropped := true, ready := true }
  | .worker i e =>
      match s.workers[i]? with
      | some w => workerStep cfg ps s i w e
      | none => s
  | .sink e nowMs => sinkStep cfg s e nowMs
  | .close =>
      if s.dropped && s.workers.all Worker.isStopped then
        { s with sink := (CandleSink.step cfg.toConfig s.sink .close).1 }
      else s

/-- The state after a list of events. -/
def run (events : List Event) : State := events.foldl (step cfg ps) (.init cfg)

/-! ### What a step can do -/

/-- What a step of a worker does to it and to the metrics, as far as these concern the workers. -/
inductive Move (w : Worker) (m : CandleWorkerMetrics) :
    WorkerEvent → Worker → CandleWorkerMetrics → Prop
  | connected (hphase : w.phase = .connecting) :
      Move w m (.connect true)
        { w with backoffMs := defaultWsInitialBackoffMs, phase := .reading, naps := 0 }
        { m with connectedWorkers := fetchAdd m.connectedWorkers }
  | refused (hphase : w.phase = .connecting) :
      Move w m (.connect false) { w with phase := .sleeping } m
  | noted {message : Frame} {nowMs ingestedAtMs : ℤ} {m' : CandleWorkerMetrics}
      (hphase : w.phase = .reading) (hgauge : m'.connectedWorkers = m.connectedWorkers)
      (hparsed : m'.parsedCandleCount = m.parsedCandleCount) :
      Move w m (.read message nowMs ingestedAtMs) w m'
  | parsed {text : String} {nowMs ingestedAtMs : ℤ} {item : ParsedClosedCandle}
      {m' : CandleWorkerMetrics} (hphase : w.phase = .reading)
      (hitem : parseClosedCandleMessage ps cfg.candleInterval ingestedAtMs text = .ok (some item))
      (hnew : (w.dedupeCache.insertIfNew (dedupeKey item.row)).1 = true)
      (hgauge : m'.connectedWorkers = m.connectedWorkers)
      (hparsed : m'.parsedCandleCount = fetchAdd m.parsedCandleCount) :
      Move w m (.read (.text text) nowMs ingestedAtMs)
        { w with
          dedupeCache := (w.dedupeCache.insertIfNew (dedupeKey item.row)).2
          phase := .sending item } m'
  | disconnected {message : Frame} {nowMs ingestedAtMs : ℤ} (hphase : w.phase = .reading) :
      Move w m (.read message nowMs ingestedAtMs) { w with phase := .sleeping }
        { m with connectedWorkers := fetchSub m.connectedWorkers }
  | woke (hphase : w.phase = .sleeping) :
      Move w m .wake
        { w with
          backoffMs := min (w.backoffMs * 2) defaultWsMaxBackoffMs
          phase := .connecting
          naps := w.naps + 1 } m

/-- What a step can do. -/
inductive Turn (s : State) : Event → State → Prop
  | idle {e : Event} : Turn s e s
  | spawned {symbols : List String} {chunks : List (List String)}
      (hchunks : s.chunks = symbols :: chunks) :
      Turn s .main { s with chunks, workers := s.workers ++ [.new cfg ps symbols] }
  | dropped (hchunks : s.chunks = []) (hdropped : s.dropped = false) :
      Turn s .main { s with dropped := true, ready := true }
  | moved {i : ℕ} {w w' : Worker} {m' : CandleWorkerMetrics} {e : WorkerEvent}
      (hw : s.workers[i]? = some w) (hmove : Move cfg ps w s.metrics e w' m') :
      Turn s (.worker i e) { s with workers := s.workers.set i w', metrics := m' }
  | accepted {i : ℕ} {w : Worker} {item : ParsedClosedCandle} (hw : s.workers[i]? = some w)
      (hphase : w.phase = .sending item)
      (haccept : (CandleSink.step cfg.toConfig s.sink (.accept item)).2 = true) :
      Turn s (.worker i .send)
        { s with
          sink := (CandleSink.step cfg.toConfig s.sink (.accept item)).1
          workers := s.workers.set i { w with phase := .reading }
          log := s.log ++ [(i, item)] }
  | lost {i : ℕ} {w : Worker} {item : ParsedClosedCandle} (hw : s.workers[i]? = some w)
      (hphase : w.phase = .sending item) (hended : s.sink.phase.running = false) :
      Turn s (.worker i .send)
        { s with workers := s.workers.set i { w with phase := .stopped (some item) } }
  | sank {e : CandleSink.Event} {nowMs : ℤ} {m' : CandleWorkerMetrics} {ready : Bool}
      (hloop : ∀ item, e ≠ .accept item) (hgauge : m'.connectedWorkers = s.metrics.connectedWorkers)
      (hparsed : m'.parsedCandleCount = s.metrics.parsedCandleCount)
      (hready : ready = s.ready ∨ s.sink.phase.running = true) :
      Turn s (.sink e nowMs)
        { s with sink := (CandleSink.step cfg.toConfig s.sink e).1, metrics := m', ready }
  | closed :
      Turn s .close { s with sink := (CandleSink.step cfg.toConfig s.sink .close).1 }

variable {cfg ps} {s s' : State} {e : Event}

/-- What a text frame does. -/
theorem handleText_spec {w : Worker} {m : CandleWorkerMetrics} {text : String}
    {nowMs ingestedAtMs : ℤ} (hphase : w.phase = .reading) :
    Move cfg ps w m (.read (.text text) nowMs ingestedAtMs)
      (handleText cfg ps w m text nowMs ingestedAtMs).1
      (handleText cfg ps w m text nowMs ingestedAtMs).2 := by
  rw [handleText]
  split
  · rename_i parsed hparsed
    dsimp only
    split
    · rename_i hnew
      exact .parsed hphase hparsed hnew rfl rfl
    · rename_i hold
      -- A candle that is not new leaves the cache alone.
      have hcache : (w.dedupeCache.insertIfNew (dedupeKey parsed.row)).2 = w.dedupeCache := by
        rw [DedupeCache.insertIfNew] at hold ⊢
        split
        · rfl
        · rename_i hnew
          simp [hnew] at hold
      rw [hcache]
      exact .noted hphase rfl rfl
  · exact .noted hphase rfl rfl
  · exact .noted hphase rfl rfl

/-- What an event of a worker can do. -/
theorem workerStep_spec {i : ℕ} {w : Worker} (hw : s.workers[i]? = some w) (e : WorkerEvent) :
    Turn cfg ps s (.worker i e) (workerStep cfg ps s i w e) := by
  have hset : s.workers.set i w = s.workers := by
    obtain ⟨hi, rfl⟩ := List.getElem?_eq_some_iff.mp hw
    exact List.set_getElem_self hi
  unfold workerStep
  split
  · rename_i hphase
    exact .moved hw (.connected hphase)
  · rename_i hphase
    exact .moved hw (.refused hphase)
  · rename_i message nowMs ingestedAtMs hphase
    cases message with
    | text text => exact .moved hw (handleText_spec hphase)
    | close | readError | ended | stale => exact .moved hw (.disconnected hphase)
    | ping | pong | binary | raw => exact .idle
  · rename_i item hphase
    split
    · rename_i haccept
      exact .accepted hw hphase haccept
    · split
      · exact .idle
      · rename_i hended
        exact .lost hw hphase (by simpa using hended)
  · rename_i hphase
    exact .moved hw (.woke hphase)
  · exact .idle

/-- What an event of the sink can do. -/
theorem sinkStep_spec (s : State) (e : CandleSink.Event) (nowMs : ℤ) :
    Turn cfg ps s (.sink e nowMs) (sinkStep cfg s e nowMs) := by
  unfold sinkStep
  dsimp only
  split
  · exact .sank (by simp) rfl rfl (Or.inl rfl)
  · exact .sank (by simp) rfl rfl (Or.inl rfl)
  · rename_i hphase
    exact .sank (by simp) rfl rfl (Or.inr (by simp [hphase, CandleSink.Phase.running]))
  · rename_i hphase
    have hrunning : s.sink.phase.running = true := by simp [hphase, CandleSink.Phase.running]
    split
    · rename_i hbatch
      -- The tick finds nothing to flush.
      have hsame : (CandleSink.step cfg.toConfig s.sink .tick).1 = s.sink := by
        simp [CandleSink.step, hphase, hbatch]
      have hturn : Turn cfg ps s (.sink .tick nowMs)
          { s with
            sink := (CandleSink.step cfg.toConfig s.sink .tick).1
            ready := refreshReadiness cfg s.metrics nowMs } :=
        .sank (by simp) rfl rfl (Or.inr hrunning)
      rwa [hsame] at hturn
    · exact .sank (by simp) rfl rfl (Or.inl rfl)
  · exact .idle
  · exact .idle
  · rename_i hnot _
    exact .sank (fun item => by rintro rfl; simp_all) rfl rfl (Or.inl rfl)

/-- **What a step can do.** -/
theorem step_spec (s : State) (e : Event) : Turn cfg ps s e (step cfg ps s e) := by
  cases e with
  | main =>
      rw [step]
      split
      · rename_i hchunks
        exact .spawned hchunks
      · rename_i hchunks
        split
        · exact .idle
        · rename_i hdropped
          exact .dropped hchunks (by simpa using hdropped)
  | worker i e =>
      rw [step]
      split
      · rename_i hw
        exact workerStep_spec hw e
      · exact .idle
  | sink e nowMs => exact sinkStep_spec s e nowMs
  | close =>
      rw [step]
      split
      · exact .closed
      · exact .idle

/-- **The rule for runs**: what holds at the start and is kept by what a step can do. -/
theorem run_induction {P : State → Prop} (h0 : P (.init cfg)) (events : List Event)
    (hturn : ∀ s e s', e ∈ events → Turn cfg ps s e s' → P s → P s') : P (run cfg ps events) := by
  induction events using List.reverseRecOn with
  | nil => exact h0
  | append_singleton events e ih =>
      rw [run, List.foldl_append]
      exact hturn _ e _ (by simp) (step_spec _ e)
        (ih fun s e s' he => hturn s e s' (List.mem_append_left _ he))

/-! ### The gauge -/

/-- The worker has stopped with a candle to send. -/
def WorkerPhase.isLost : WorkerPhase → Bool
  | .stopped (some _) => true
  | _ => false

/-- A worker that the gauge counts: a connected one, or one that is lost. -/
def WorkerPhase.counted : WorkerPhase → Bool
  | .reading | .sending _ | .stopped (some _) => true
  | _ => false

/-- The sink goes on or has ended. -/
theorem running_step {st : CandleSink.State} {e : CandleSink.Event}
    (h : st.phase.running = false) :
    (CandleSink.step cfg.toConfig st e).1.phase.running = false := by
  rcases CandleSink.step_spec cfg.toConfig st e with heq | ⟨st', heq, hturn⟩
  · rw [heq]
    exact h
  · rw [heq]
    cases hturn with
    | closed hsenders => exact h
    | accepted item hsenders hrunning => simp [h] at hrunning
    | _ => simp_all [CandleSink.Phase.running]

/-- Counting after a worker is replaced. -/
theorem countP_set_add (p : Worker → Bool) {ws : List Worker} {i : ℕ} {w : Worker} (w' : Worker)
    (hw : ws[i]? = some w) : (ws.set i w').countP p + (if p w then 1 else 0) =
      ws.countP p + if p w' then 1 else 0 := by
  obtain ⟨hi, rfl⟩ := List.getElem?_eq_some_iff.mp hw
  have hpos : p ws[i] = true → 0 < ws.countP p := fun hp =>
    List.countP_pos_iff.mpr ⟨_, List.getElem_mem hi, hp⟩
  rw [List.countP_set hi]
  by_cases hp : p ws[i] = true
  · have := hpos hp
    rw [if_pos hp]
    omega
  · rw [if_neg hp]
    omega

/-- The gauge counts the connected workers and those that stopped with a candle to send, of which
there are none while the sink is there. -/
structure Gauge (s : State) : Prop where
  counts : s.metrics.connectedWorkers =
    s.workers.countP (fun w => w.phase.counted) % 2 ^ 64
  lost : ∀ w ∈ s.workers, w.phase.isLost = true → s.sink.phase.running = false

/-- A worker that moves is not lost. -/
theorem Move.not_lost {w w' : Worker} {m m' : CandleWorkerMetrics} {e : WorkerEvent}
    (h : Move cfg ps w m e w' m') : w'.phase.isLost = false := by
  cases h with
  | noted hphase hgauge hparsed => rw [hphase]; rfl
  | _ => rfl

/-- A worker that moves is counted as the gauge is changed. -/
theorem Move.gauge {w w' : Worker} {m m' : CandleWorkerMetrics} {e : WorkerEvent} {n n' : ℕ}
    (h : Move cfg ps w m e w' m') (hm : m.connectedWorkers = n % 2 ^ 64)
    (hcount : n' + (if w.phase.counted then 1 else 0) = n + if w'.phase.counted then 1 else 0) :
    m'.connectedWorkers = n' % 2 ^ 64 := by
  cases h with
  | connected hphase =>
      simp only [hphase, WorkerPhase.counted, Bool.false_eq_true, if_false, if_true] at hcount
      simp only [fetchAdd, hm]
      omega
  | refused hphase =>
      simp only [hphase, WorkerPhase.counted, Bool.false_eq_true, if_false] at hcount
      omega
  | noted hphase hgauge hparsed =>
      rw [hgauge, hm]
      omega
  | parsed hphase hitem hnew hgauge hparsed =>
      simp only [hphase, WorkerPhase.counted, if_true] at hcount
      rw [hgauge, hm]
      omega
  | disconnected hphase =>
      simp only [hphase, WorkerPhase.counted, Bool.false_eq_true, if_false, if_true] at hcount
      simp only [fetchSub, hm]
      omega
  | woke hphase =>
      simp only [hphase, WorkerPhase.counted, Bool.false_eq_true, if_false] at hcount
      omega

/-- A new worker is neither connected nor lost. -/
theorem phase_new (cfg : Config) (ps : Parsers) (symbols : List String) :
    (Worker.new cfg ps symbols).phase = .stopped none ∨
      (Worker.new cfg ps symbols).phase = .connecting := by
  rw [Worker.new]
  split
  · exact Or.inl rfl
  · exact Or.inr rfl

/-- What a step can do keeps the gauge right. -/
theorem Gauge.turn (h : Gauge s) (hturn : Turn cfg ps s e s') : Gauge s' := by
  cases hturn with
  | idle => exact h
  | @spawned symbols chunks hchunks =>
      refine ⟨?_, fun w hw hlost => ?_⟩
      · rw [List.countP_append, h.counts]
        rcases phase_new cfg ps symbols with hnew | hnew <;>
          simp [hnew, WorkerPhase.counted]
      · rcases List.mem_append.mp hw with hw | hw
        · exact h.lost w hw hlost
        · rw [List.mem_singleton.mp hw] at hlost
          rcases phase_new cfg ps symbols with hnew | hnew <;>
            simp [hnew, WorkerPhase.isLost] at hlost
  | dropped hchunks hdropped => exact ⟨h.counts, h.lost⟩
  | @moved i w w' m' e hw hmove =>
      refine ⟨hmove.gauge h.counts (countP_set_add _ w' hw), fun x hx hlost => ?_⟩
      rcases List.mem_or_eq_of_mem_set hx with hx | rfl
      · exact h.lost x hx hlost
      · rw [hmove.not_lost] at hlost
        cases hlost
  | @accepted i w item hw hphase haccept =>
      have hcount := countP_set_add (fun w => w.phase.counted) { w with phase := .reading } hw
      simp only [hphase, WorkerPhase.counted, if_true, Nat.add_right_cancel_iff] at hcount
      refine ⟨h.counts.trans (congrArg (· % 2 ^ 64) hcount.symm), fun x hx hlost => ?_⟩
      rcases List.mem_or_eq_of_mem_set hx with hx | rfl
      · exact running_step (h.lost x hx hlost)
      · cases hlost
  | @lost i w item hw hphase hended =>
      have hcount :=
        countP_set_add (fun w => w.phase.counted) { w with phase := .stopped (some item) } hw
      simp only [hphase, WorkerPhase.counted, if_true, Nat.add_right_cancel_iff] at hcount
      exact ⟨h.counts.trans (congrArg (· % 2 ^ 64) hcount.symm), fun _ _ _ => hended⟩
  | sank hloop hgauge hparsed hready =>
      exact ⟨hgauge.trans h.counts, fun w hw hlost => running_step (h.lost w hw hlost)⟩
  | closed => exact ⟨h.counts, fun w hw hlost => running_step (h.lost w hw hlost)⟩

/-- **The gauge in every state of a run**: it counts the workers that are connected and those that
stopped with a candle to send, and there are some of these only when the sink has ended. -/
theorem gauge_run (cfg : Config) (ps : Parsers) (events : List Event) :
    Gauge (run cfg ps events) :=
  run_induction ⟨rfl, fun w hw => by cases hw⟩ events fun _ _ _ _ hturn h => h.turn hturn

/-- The pipeline has spawned its workers, and the sink has ended. -/
structure Ended (s : State) : Prop where
  dropped : s.dropped = true
  ended : s.sink.phase.running = false

/-- When the sink has ended, a step leaves the readiness and the accepted candles alone. -/
theorem Ended.turn (h : Ended s) (hturn : Turn cfg ps s e s') :
    Ended s' ∧ s'.ready = s.ready ∧ s'.log = s.log := by
  cases hturn with
  | idle => exact ⟨h, rfl, rfl⟩
  | spawned hchunks => exact ⟨⟨h.dropped, h.ended⟩, rfl, rfl⟩
  | dropped hchunks hdropped =>
      rw [h.dropped] at hdropped
      cases hdropped
  | moved hw hmove => exact ⟨⟨h.dropped, h.ended⟩, rfl, rfl⟩
  | @accepted i w item hw hphase haccept =>
      simp [CandleSink.step, h.ended] at haccept
  | lost hw hphase hended => exact ⟨⟨h.dropped, h.ended⟩, rfl, rfl⟩
  | sank hloop hgauge hparsed hready =>
      refine ⟨⟨h.dropped, running_step h.ended⟩, hready.resolve_right ?_, rfl⟩
      rw [h.ended]
      simp
  | closed => exact ⟨⟨h.dropped, running_step h.ended⟩, rfl, rfl⟩

/-- The socket that gives one candle whatever it is asked for. -/
def oneCandle : Parsers where
  fromStr _ := some ⟨0, 59999, "BTCUSDT", "1", "1", "1", "1", "1", 1, true, "1", "1", "1"⟩
  parseF64 _ := some (.fin 1)
  toVec _ := some []
  toLowercase s := s
  parsesUrl _ := true

/-- One symbol, and batches of one candle. -/
def oneSymbol : Config where
  candleChBatchSize := 1
  candleChFlushIntervalMs := 200
  candlePipelineChannelCapacity := 1
  candleKafkaTopic := "TOPIC_CANDLES_1m"
  symbols := ["BTCUSDT"]
  candleInterval := .m1
  candleFuturesWsBaseUrl := "wss://fstream.binance.com/stream"
  candleWsChunkSize := 50
  candleWsStaleTimeoutMs := 90000
  candleDedupeCapacityPerWorker := 10
  chunkSize_pos := by decide

/-- A candle is accepted, and a copy of it is not; then a write to ClickHouse fails or not. -/
def oneRun (isOk : Bool) : List Event :=
  [.main, .main, .worker 0 (.connect true), .worker 0 (.read (.text "1") 1 1), .worker 0 .send,
    .worker 0 (.read (.text "1") 2 2), .sink .recv 3, .sink (.clickhouse isOk) 4]

/-- One symbol makes one chunk. -/
theorem init_oneSymbol :
    State.init oneSymbol = { chunks := [["BTCUSDT"]], sink := .init oneSymbol.toConfig } := by
  simp [State.init, Lib.chunks, oneSymbol]

/-- The socket that gives one candle when it is asked for the first, and the next one otherwise. -/
def twoCandles : Parsers where
  __ := oneCandle
  fromStr text :=
    let openTime := if text = "1" then 0 else 60000
    some ⟨openTime, openTime + 59999, "BTCUSDT", "1", "1", "1", "1", "1", 1, true, "1", "1", "1"⟩

/-- The worker reads another candle, has no sink to send it to, and stops; a day goes by. -/
def dayAfter : List Event :=
  [.worker 0 (.read (.text "2") 5 5), .worker 0 .send, .sink .tick 86400000]

/-- Doubling a capped delay. -/
theorem backoff_succ (n : ℕ) : min (backoff defaultWsInitialBackoffMs 6 defaultWsMaxBackoffMs n * 2)
    defaultWsMaxBackoffMs = backoff defaultWsInitialBackoffMs 6 defaultWsMaxBackoffMs (n + 1) := by
  simp only [backoff, defaultWsInitialBackoffMs, defaultWsMaxBackoffMs]
  rcases Nat.lt_or_ge n 6 with hn | hn
  · rw [Nat.min_eq_left (by omega : n ≤ 6), Nat.min_eq_left (by omega : n + 1 ≤ 6), Nat.pow_succ]
    omega
  · rw [Nat.min_eq_right (by omega : 6 ≤ n), Nat.min_eq_right (by omega : 6 ≤ n + 1)]
    rfl

/-- **How long a worker sleeps next**: 500 milliseconds, doubled for each time it has slept since
it was last connected, and half a minute at most. -/
theorem backoff_run (cfg : Config) (ps : Parsers) (events : List Event) :
    ∀ w ∈ (run cfg ps events).workers,
      w.backoffMs = backoff defaultWsInitialBackoffMs 6 defaultWsMaxBackoffMs w.naps := by
  refine run_induction (P := fun s => ∀ w ∈ s.workers, w.backoffMs = backoff
    defaultWsInitialBackoffMs 6 defaultWsMaxBackoffMs w.naps) (fun w hw => by cases hw) events
      fun s e s' _ hturn h => ?_
  cases hturn with
  | spawned hchunks =>
      intro w hw
      rcases List.mem_append.mp hw with hw | hw
      · exact h w hw
      · rw [List.mem_singleton.mp hw]
        rfl
  | @moved i w w' m' e hw hmove =>
      intro x hx
      have hold := h w (List.mem_of_getElem? hw)
      rcases List.mem_or_eq_of_mem_set hx with hx | rfl
      · exact h x hx
      · cases hmove with
        | connected hphase => rfl
        | woke hphase =>
            simp only [hold]
            exact backoff_succ w.naps
        | _ => exact hold
  | @accepted i w item hw hphase haccept =>
      intro x hx
      rcases List.mem_or_eq_of_mem_set hx with hx | rfl
      · exact h x hx
      · exact h w (List.mem_of_getElem? hw)
  | @lost i w item hw hphase hended =>
      intro x hx
      rcases List.mem_or_eq_of_mem_set hx with hx | rfl
      · exact h x hx
      · exact h w (List.mem_of_getElem? hw)
  | _ => exact h

/-! ### What the workers let through -/

/-- The candle that a worker let through and has not sent. -/
def WorkerPhase.owed : WorkerPhase → List ParsedClosedCandle
  | .sending item => [item]
  | .stopped (some item) => [item]
  | _ => []

/-- There is one. -/
def WorkerPhase.owes : WorkerPhase → Bool
  | .sending _ | .stopped (some _) => true
  | _ => false

/-- The keys of the candles that a worker let through. -/
def State.passed (s : State) (i : ℕ) (w : Worker) : List CandleKey :=
  (Interleave.stepsOf i s.log ++ w.phase.owed).map fun item => dedupeKey item.row

/-- The cache remembers the last of the keys, each of which was new when it came. -/
structure Remembers (cfg : Config) (keys : List CandleKey) (cache : DedupeCache) : Prop where
  coupled : cache.Coupled
  capacity : cache.capacity = cfg.candleDedupeCapacityPerWorker
  order : cache.order = lastN cfg.candleDedupeCapacityPerWorker keys
  apart : Apart cfg.candleDedupeCapacityPerWorker keys

/-- A key that is new is remembered with the others. -/
theorem Remembers.insert {keys : List CandleKey} {cache : DedupeCache} {key : CandleKey}
    (h : Remembers cfg keys cache) (hnew : (cache.insertIfNew key).1 = true) :
    Remembers cfg (keys ++ [key]) (cache.insertIfNew key).2 := by
  obtain ⟨hcoupled, hcapacity, hiff, horder⟩ := h.coupled.insertIfNew key
  refine ⟨hcoupled, hcapacity.trans h.capacity, ?_, h.apart.concat ?_⟩
  · rw [horder, if_pos hnew, h.capacity, h.order, lastN_push]
  · rw [← h.order]
    exact hiff.mp hnew

/-- What is known of the candles that were let through: each worker remembers its last ones, those
that were sent are the accepted ones, and all of them were counted. -/
structure Deduplicated (cfg : Config) (s : State) : Prop where
  remembers : ∀ i w, s.workers[i]? = some w → Remembers cfg (s.passed i w) w.dedupeCache
  senders : ∀ x ∈ s.log, x.1 < s.workers.length
  accepted : s.sink.accepted = s.log.map Prod.snd
  parsed : s.metrics.parsedCandleCount =
    (s.log.length + s.workers.countP fun w => w.phase.owes) % 2 ^ 64
  sink : CandleSink.Inv cfg.toConfig s.sink

/-- The workers after one is replaced. -/
theorem getElem?_set_cases {ws : List Worker} {i j : ℕ} {w x : Worker}
    (h : (ws.set i w)[j]? = some x) : j = i ∧ x = w ∨ j ≠ i ∧ ws[j]? = some x := by
  rw [List.getElem?_set] at h
  split at h
  · rename_i hij
    split at h
    · exact Or.inl ⟨hij.symm, (Option.some.inj h).symm⟩
    · cases h
  · rename_i hij
    exact Or.inr ⟨Ne.symm hij, h⟩

/-- A step of the sink keeps what its sinks hold. -/
theorem inv_step {st : CandleSink.State} (h : CandleSink.Inv cfg.toConfig st)
    (e : CandleSink.Event) : CandleSink.Inv cfg.toConfig (CandleSink.step cfg.toConfig st e).1 := by
  rcases CandleSink.step_spec cfg.toConfig st e with heq | ⟨st', heq, hturn⟩
  · rwa [heq]
  · rw [heq]
    exact CandleSink.inv_turn hturn h

/-- The channel accepts what workers send. -/
theorem accepted_step {st : CandleSink.State} {e : CandleSink.Event} :
    (∀ item, e ≠ .accept item) →
      (CandleSink.step cfg.toConfig st e).1.accepted = st.accepted := by
  rcases CandleSink.step_spec cfg.toConfig st e with heq | ⟨st', heq, hturn⟩
  · rw [heq]
    exact fun _ => rfl
  · rw [heq]
    cases hturn with
    | accepted item hsenders hrunning => exact fun h => absurd rfl (h item)
    | _ => exact fun _ => rfl

/-- A candle that is taken is the last of those accepted. -/
theorem accepted_accept {st : CandleSink.State} {item : ParsedClosedCandle}
    (h : (CandleSink.step cfg.toConfig st (.accept item)).2 = true) :
    (CandleSink.step cfg.toConfig st (.accept item)).1.accepted = st.accepted ++ [item] := by
  rw [CandleSink.step] at h ⊢
  split
  · rfl
  · rename_i hnot
    rw [if_neg hnot] at h
    cases h

/-- The candles of a worker after one more was sent. -/
theorem stepsOf_concat (i j : ℕ) (log : List (ℕ × ParsedClosedCandle)) (item : ParsedClosedCandle) :
    Interleave.stepsOf j (log ++ [(i, item)]) =
      Interleave.stepsOf j log ++ if i = j then [item] else [] := by
  rw [Interleave.stepsOf, List.filter_append, List.map_append, Interleave.stepsOf]
  by_cases hij : i = j <;> simp [hij]

/-- A worker that moves remembers what it let through, which is counted. -/
theorem Move.remembers {w w' : Worker} {m m' : CandleWorkerMetrics} {e : WorkerEvent}
    {sent : List ParsedClosedCandle} {n n' : ℕ} (h : Move cfg ps w m e w' m')
    (hw : Remembers cfg ((sent ++ w.phase.owed).map fun item => dedupeKey item.row) w.dedupeCache)
    (hm : m.parsedCandleCount = n % 2 ^ 64)
    (hcount : n' + (if w.phase.owes then 1 else 0) = n + if w'.phase.owes then 1 else 0) :
    Remembers cfg ((sent ++ w'.phase.owed).map fun item => dedupeKey item.row) w'.dedupeCache ∧
      m'.parsedCandleCount = n' % 2 ^ 64 := by
  cases h with
  | parsed hphase hitem hnew hgauge hparsed =>
      simp only [hphase, WorkerPhase.owed, WorkerPhase.owes, List.append_nil, Bool.false_eq_true,
        if_false, if_true] at hw hcount
      simp only [WorkerPhase.owed, List.map_append, List.map_singleton]
      refine ⟨hw.insert hnew, ?_⟩
      simp only [hparsed, fetchAdd, hm]
      omega
  | noted hphase hgauge hparsed =>
      refine ⟨hw, ?_⟩
      rw [hparsed, hm]
      omega
  | connected hphase | refused hphase | disconnected hphase | woke hphase =>
      simp only [hphase, WorkerPhase.owed, WorkerPhase.owes, Bool.false_eq_true, if_false]
        at hw hcount
      refine ⟨hw, hm.trans ?_⟩
      omega

/-- A new worker remembers nothing. -/
theorem remembers_new (symbols : List String) :
    Remembers cfg [] (Worker.new cfg ps symbols).dedupeCache where
  coupled := .new
  capacity := rfl
  order := (lastN_nil _).symm
  apart := apart_nil

/-- What a step can do keeps this. -/
theorem Deduplicated.turn (h : Deduplicated cfg s) (hturn : Turn cfg ps s e s') :
    Deduplicated cfg s' := by
  cases hturn with
  | idle => exact h
  | @spawned symbols chunks hchunks =>
      have hnone : Interleave.stepsOf s.workers.length s.log = [] := by
        rw [Interleave.stepsOf, List.map_eq_nil_iff, List.filter_eq_nil_iff]
        intro x hx
        have hlt := h.senders x hx
        simp only [decide_eq_true_eq]
        omega
      have howed : (Worker.new cfg ps symbols).phase.owed = [] ∧
          (Worker.new cfg ps symbols).phase.owes = false := by
        rcases phase_new cfg ps symbols with hnew | hnew <;> rw [hnew] <;> exact ⟨rfl, rfl⟩
      refine ⟨fun i w hw => ?_, fun x hx => ?_, h.accepted, ?_, h.sink⟩
      · rcases Nat.lt_trichotomy i s.workers.length with hi | rfl | hi
        · rw [List.getElem?_append_left hi] at hw
          exact h.remembers i w hw
        · rw [List.getElem?_append_right (Nat.le_refl _), Nat.sub_self] at hw
          obtain rfl := Option.some.inj hw
          rw [State.passed, hnone, howed.1]
          exact remembers_new symbols
        · rw [List.getElem?_eq_none (by simp; omega)] at hw
          cases hw
      · rw [List.length_append]
        exact Nat.lt_add_right 1 (h.senders x hx)
      · rw [List.countP_append, List.countP_singleton, howed.2, if_neg (by simp), add_zero]
        exact h.parsed
  | dropped hchunks hdropped => exact ⟨h.remembers, h.senders, h.accepted, h.parsed, h.sink⟩
  | @moved i w w' m' e hw hmove =>
      have hcount : s.log.length + ((s.workers.set i w').countP fun w => w.phase.owes) +
          (if w.phase.owes then 1 else 0) = s.log.length +
            (s.workers.countP fun w => w.phase.owes) + if w'.phase.owes then 1 else 0 := by
        have := countP_set_add (fun w => w.phase.owes) w' hw
        omega
      obtain ⟨hremembers, hparsed⟩ := hmove.remembers (h.remembers i w hw) h.parsed hcount
      refine ⟨fun j x hx => ?_, by simpa using h.senders, h.accepted, hparsed, h.sink⟩
      rcases getElem?_set_cases hx with ⟨rfl, rfl⟩ | ⟨-, hx⟩
      · exact hremembers
      · exact h.remembers j x hx
  | @accepted i w item hw hphase haccept =>
      have hold := h.remembers i w hw
      have howes : w.phase.owes = true := by rw [hphase]; rfl
      have hcount : ((s.workers.set i { w with phase := .reading }).countP
          fun w => w.phase.owes) + 1 = s.workers.countP fun w => w.phase.owes := by
        have := countP_set_add (fun w => w.phase.owes) { w with phase := .reading } hw
        rwa [if_pos howes] at this
      rw [State.passed, hphase] at hold
      refine ⟨fun j x hx => ?_, fun x hx => ?_, ?_, ?_, inv_step h.sink _⟩
      · rcases getElem?_set_cases hx with ⟨rfl, rfl⟩ | ⟨hne, hx⟩
        · rwa [State.passed, stepsOf_concat, if_pos rfl, List.append_assoc]
        · rw [State.passed, stepsOf_concat, if_neg (Ne.symm hne), List.append_nil]
          exact h.remembers j x hx
      · rw [List.length_set]
        rcases List.mem_append.mp hx with hx | hx
        · exact h.senders x hx
        · rw [List.mem_singleton.mp hx]
          exact (List.getElem?_eq_some_iff.mp hw).1
      · rw [accepted_accept haccept, h.accepted, List.map_append, List.map_singleton]
      · rw [h.parsed, ← hcount, List.length_append, List.length_singleton, Nat.add_assoc,
          Nat.add_comm 1]
  | @lost i w item hw hphase hended =>
      have hold := h.remembers i w hw
      have howes : w.phase.owes = true := by rw [hphase]; rfl
      have hcount : ((s.workers.set i { w with phase := .stopped (some item) }).countP
          fun w => w.phase.owes) = s.workers.countP fun w => w.phase.owes := by
        have := countP_set_add (fun w => w.phase.owes) { w with phase := .stopped (some item) } hw
        rw [if_pos howes] at this
        exact Nat.add_right_cancel this
      rw [State.passed, hphase] at hold
      refine ⟨fun j x hx => ?_, by simpa using h.senders, h.accepted, ?_, h.sink⟩
      · rcases getElem?_set_cases hx with ⟨rfl, rfl⟩ | ⟨-, hx⟩
        · exact hold
        · exact h.remembers j x hx
      · rw [h.parsed, hcount]
  | sank hloop hgauge hparsed hready =>
      exact ⟨h.remembers, h.senders, (accepted_step hloop).trans h.accepted,
        hparsed.trans h.parsed, inv_step h.sink _⟩
  | closed =>
      exact ⟨h.remembers, h.senders, (accepted_step (by simp)).trans h.accepted, h.parsed,
        inv_step h.sink _⟩

/-- In every state of a run the accepted candles of a worker are apart. -/
theorem deduplicated_run (cfg : Config) (ps : Parsers) (events : List Event) :
    Deduplicated cfg (run cfg ps events) := by
  refine run_induction ?_ events fun _ _ _ _ hturn h => h.turn hturn
  refine ⟨fun i w hw => ?_, fun x hx => ?_, rfl, rfl, CandleSink.inv_init cfg.toConfig⟩
  · cases hw
  · cases hx

/-! ### Between two rows of one candle -/

/-- The symbols of the worker with that number. -/
def chunkOf (cfg : Config) (i : ℕ) : List String :=
  ((Lib.chunks cfg.candleWsChunkSize cfg.symbols)[i]?).getD []

/-- A worker is sent candles of the symbols that it subscribed to. -/
def Event.Subscribed (cfg : Config) (ps : Parsers) : Event → Prop
  | .worker i (.read (.text text) _ ingestedAtMs) =>
      ∀ item, parseClosedCandleMessage ps cfg.candleInterval ingestedAtMs text = .ok (some item) →
        item.row.symbol ∈ chunkOf cfg i
  | _ => True

/-- What a worker sent, or has to send, is of its symbols. -/
structure Subscribed (cfg : Config) (s : State) : Prop where
  log : ∀ x ∈ s.log, x.2.row.symbol ∈ chunkOf cfg x.1
  owed : ∀ i w, s.workers[i]? = some w → ∀ item ∈ w.phase.owed, item.row.symbol ∈ chunkOf cfg i

/-- A worker sends candles of its own symbols only. -/
theorem Subscribed.turn (h : Subscribed cfg s) (he : e.Subscribed cfg ps)
    (hturn : Turn cfg ps s e s') : Subscribed cfg s' := by
  cases hturn with
  | idle => exact h
  | @spawned symbols chunks hchunks =>
      refine ⟨h.log, fun i w hw => ?_⟩
      rw [List.getElem?_append] at hw
      split at hw
      · exact h.owed i w hw
      · have hnew : w = Worker.new cfg ps symbols := by
          simpa using List.mem_of_getElem? hw
        rw [hnew]
        rcases phase_new cfg ps symbols with hphase | hphase <;> simp [hphase, WorkerPhase.owed]
  | dropped hchunks hdropped => exact ⟨h.log, h.owed⟩
  | @moved i w w' m' e hw hmove =>
      refine ⟨h.log, fun j x hx => ?_⟩
      rcases getElem?_set_cases hx with ⟨rfl, rfl⟩ | ⟨-, hx⟩
      · cases hmove with
        | parsed hphase hitem hnew hgauge hparsed => simpa [WorkerPhase.owed] using he _ hitem
        | noted hphase hgauge hparsed => simp [hphase, WorkerPhase.owed]
        | _ => simp [WorkerPhase.owed]
      · exact h.owed j x hx
  | @accepted i w item hw hphase haccept =>
      refine ⟨fun x hx => ?_, fun j x hx => ?_⟩
      · rcases List.mem_append.mp hx with hx | hx
        · exact h.log x hx
        · rw [List.mem_singleton.mp hx]
          exact h.owed i w hw item (by simp [hphase, WorkerPhase.owed])
      · rcases getElem?_set_cases hx with ⟨rfl, rfl⟩ | ⟨-, hx⟩
        · simp [WorkerPhase.owed]
        · exact h.owed j x hx
  | @lost i w item hw hphase hended =>
      refine ⟨h.log, fun j x hx => ?_⟩
      rcases getElem?_set_cases hx with ⟨rfl, rfl⟩ | ⟨-, hx⟩
      · have hold := h.owed j w hw
        rwa [hphase] at hold
      · exact h.owed j x hx
  | sank hloop hgauge hparsed hready => exact ⟨h.log, h.owed⟩
  | closed => exact ⟨h.log, h.owed⟩

/-- The accepted candles of a worker are apart. -/
theorem Deduplicated.apart_steps (h : Deduplicated cfg s) (i : ℕ) :
    Apart cfg.candleDedupeCapacityPerWorker
      ((s.log.filter fun x => x.1 = i).map fun x => dedupeKey x.2.row) := by
  rcases Nat.lt_or_ge i s.workers.length with hi | hi
  · have hworker := (h.remembers i s.workers[i] (List.getElem?_eq_getElem hi)).apart
    rw [State.passed, List.map_append, Interleave.stepsOf, List.map_map] at hworker
    exact hworker.of_prefix (List.prefix_append _ _)
  · have hnone : (s.log.filter fun x => x.1 = i) = [] := by
      rw [List.filter_eq_nil_iff]
      intro x hx
      have hlt := h.senders x hx
      simp only [decide_eq_true_eq]
      omega
    rw [hnone]
    exact apart_nil

/-- **Between two rows of one candle** in ClickHouse, or two messages in Kafka, there are as many
others as a worker remembers, whatever the workers and the sink do, when no symbol is listed twice
and each worker is sent candles of its symbols. Both hold what the channel accepted, in order, and
the workers count what it accepted and what they have yet to send. -/
theorem apart_clickhouse (cfg : Config) (ps : Parsers) (events : List Event)
    (hsymbols : cfg.symbols.Nodup) (hevents : ∀ e ∈ events, e.Subscribed cfg ps) :
    let s := run cfg ps events
    Apart cfg.candleDedupeCapacityPerWorker (s.sink.clickhouse.map dedupeKey) ∧
      (∃ sent, sent <+: s.sink.accepted ∧ s.sink.kafka = sent.map (·.message cfg.toConfig) ∧
        Apart cfg.candleDedupeCapacityPerWorker (sent.map fun item => dedupeKey item.row)) ∧
      s.metrics.parsedCandleCount =
        (s.sink.accepted.length + s.workers.countP fun w => w.phase.owes) % 2 ^ 64 := by
  intro s
  have hdedup : Deduplicated cfg s := deduplicated_run cfg ps events
  have hsub : Subscribed cfg s := by
    refine run_induction ⟨fun x hx => ?_, fun i w hw => ?_⟩ events
      fun _ e _ he hturn h => h.turn (hevents e he) hturn
    · cases hx
    · cases hw
  have happart : Apart cfg.candleDedupeCapacityPerWorker
      (s.sink.accepted.map fun item => dedupeKey item.row) := by
    rw [hdedup.accepted, List.map_map]
    refine apart_of_classes hdedup.apart_steps fun a ha b hb hkey => ?_
    -- One candle has one symbol, and one worker reads it.
    have hsymbol : a.2.row.symbol = b.2.row.symbol := congrArg CandleKey.symbol hkey
    have hb' := hsub.log b hb
    rw [← hsymbol] at hb'
    exact eq_of_mem_chunks cfg.chunkSize_pos hsymbols (hsub.log a ha) hb'
  have hlaw := hdedup.sink.prefixLaw
  refine ⟨happart.of_prefix ?_, ?_, ?_⟩
  · have hrows := hlaw.clickhouse.map dedupeKey
    rwa [List.map_map] at hrows
  · obtain ⟨sent, hsent, hkafka⟩ := List.prefix_map_iff.mp hlaw.kafka
    exact ⟨sent, hsent, hkafka, happart.of_prefix (hsent.map _)⟩
  · rw [hdedup.parsed, hdedup.accepted, List.length_map]

/-- One candle and its copy leave one row. -/
theorem apart_clickhouse_oneRun :
    Apart 10 ((run oneSymbol oneCandle (oneRun true)).sink.clickhouse.map dedupeKey) := by
  refine (apart_clickhouse oneSymbol oneCandle (oneRun true) (by decide) fun e he => ?_).1
  have hchunk : chunkOf oneSymbol 0 = ["BTCUSDT"] := by simp [chunkOf, Lib.chunks, oneSymbol]
  have hread : ∀ now at', (Event.worker 0 (.read (.text "1") now at')).Subscribed
      oneSymbol oneCandle := by
    rintro now at' item ⟨⟩
    rw [hchunk]
    simp
  simp only [oneRun, List.mem_cons, List.not_mem_nil, or_false] at he
  rcases he with rfl | rfl | rfl | rfl | rfl | rfl | rfl | rfl
  all_goals first | exact hread _ _ | trivial

end HftPlatform.CandlePipeline
