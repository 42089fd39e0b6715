import HftPlatform.FeatureBounds
import HftPlatform.ModelLoader

/-!
# The pipeline of the predictor

The coroutines of `services/ai_predictor/app`: `run_features_consumer` decodes and validates feature
vectors, `_inference_loop` predicts from them, one at a time, and `run_predictions_producer` hands
the predictions to Kafka. Two queues of limited size stand between them. The coroutines take turns
in any order; each waits while the queue that it puts into is full, or the one that it gets from is
empty.

The model is loaded before the coroutines start. What is logged is left out, but for the inferences
that fail, which no metric counts; so is the shutdown.

## Main definitions

* `Service.step`: what one coroutine does between two waits.
* `Service.Ledger`: where every feature vector that was accepted is.

## Main results

* `Service.ledger_run`: along every run nothing is lost, repeated or overtaken.
* `Service.produced_run`: what is produced, and what the metrics say of it.
* `Service.drains`: without new messages the pipeline runs empty, and never stands still before.
* `Service.produced_sound`: what a record that is produced tells.
-/

namespace HftPlatform.AiPredictor

open Lib Wire

/-! ### Queues -/

/-- An `asyncio.Queue`, with one coroutine on each side. -/
structure Queue (α : Type) where
  items : List α := []
  unfinishedTasks : ℕ := 0

namespace Queue

variable {α : Type} (q : Queue α)

/-- A put that need not wait. -/
def put (maxsize : ℕ) (item : α) : Option (Queue α) :=
  if q.items.length < maxsize then some ⟨q.items ++ [item], q.unfinishedTasks + 1⟩ else none

/-- A get that need not wait. -/
def get : Option (α × Queue α) :=
  match q.items with
  | [] => none
  | item :: items => some (item, { q with items })

/-- Raises a `ValueError` if it is called too often. -/
def taskDone : Option (Queue α) :=
  if q.unfinishedTasks = 0 then none
  else some { q with unfinishedTasks := q.unfinishedTasks - 1 }

/-- A queue within its size, whose unfinished tasks are its items and those in hand. -/
structure Sound (maxsize inHand : ℕ) : Prop where
  size : q.items.length ≤ maxsize
  tasks : q.unfinishedTasks = q.items.length + inHand

variable {q} {q' : Queue α} {item : α} {maxsize inHand : ℕ}

/-- An item is put behind the others. -/
theorem Sound.put (h : q.Sound maxsize inHand) (hput : q.put maxsize item = some q') :
    q'.items = q.items ++ [item] ∧ q'.Sound maxsize inHand := by
  rw [Queue.put] at hput
  split at hput
  · rename_i hlt
    obtain rfl := Option.some.inj hput
    have htasks := h.tasks
    refine ⟨rfl, ?_, ?_⟩ <;> simp only [List.length_append, List.length_singleton] <;> omega
  · cases hput

/-- An item is taken in hand from the front. -/
theorem Sound.get (h : q.Sound maxsize inHand) (hget : q.get = some (item, q')) :
    q.items = item :: q'.items ∧ q'.Sound maxsize (inHand + 1) := by
  rw [Queue.get] at hget
  split at hget
  · cases hget
  · rename_i hitems
    obtain ⟨rfl, rfl⟩ := Prod.mk.inj (Option.some.inj hget)
    have hsize := h.size
    have htasks := h.tasks
    rw [hitems, List.length_cons] at hsize htasks
    exact ⟨hitems, by dsimp only; omega, by dsimp only; omega⟩

/-- The task in hand is done. -/
theorem Sound.taskDone (h : q.Sound maxsize (inHand + 1)) :
    ∃ q', q.taskDone = some q' ∧ q'.items = q.items ∧ q'.Sound maxsize inHand := by
  have htasks := h.tasks
  refine ⟨{ q with unfinishedTasks := q.unfinishedTasks - 1 }, ?_, rfl, h.size, ?_⟩
  · rw [Queue.taskDone, if_neg (by omega)]
  · dsimp only
    omega

end Queue

/-! ### The coroutines -/

/-- The configuration of the service. -/
structure AiPredictorConfig extends Config where
  kafkaOutputTopic : String
  modelVersion : String

/-- The counters of the service. -/
structure RuntimeMetrics where
  messagesConsumed : ℕ := 0
  messagesProduced : ℕ := 0
  validationErrors : List String := []
  consumerErrors : ℕ := 0
  producerErrors : ℕ := 0

/-- What is handed to the Kafka producer. -/
structure Record where
  topic : String
  value : List UInt8
  key : List UInt8
  deriving DecidableEq

/-- `FeatureVector.from_proto` -/
def FeatureVector.fromProto (msg : Md.FeatureStateMsg) : FeatureVector where
  symbol := msg.symbol
  ts := msg.ts
  emaFast := msg.emaFast.toBinary64
  emaSlow := msg.emaSlow.toBinary64
  rsi := msg.rsi.toBinary64
  macd := msg.macd.toBinary64
  macdSignal := msg.macdSignal.toBinary64
  macdHist := msg.macdHist.toBinary64
  vwap := msg.vwap.toBinary64

/-- The vector as `validate` takes it. -/
def FeatureVector.toFeatures (fv : FeatureVector) : HftFeatures.FeatureVector Binary64 where
  symbol := fv.symbol
  ts := fv.ts
  emaFast := fv.emaFast
  emaSlow := fv.emaSlow
  rsi := fv.rsi
  macd := fv.macd
  macdSignal := fv.macdSignal
  macdHist := fv.macdHist
  vwap := fv.vwap

/-- What the coroutines share: the arithmetic, the artifacts that are loaded, the configuration, the
bits of a double, and the text of a number with so many decimals. -/
structure Service where
  fp : Rounding
  loaded : LoadCall
  config : AiPredictorConfig
  bits : Binary64 → Bits64
  fixed : ℕ → Binary64 → String

/-- Where the consumer coroutine is. -/
inductive Consumer
  | receiving
  | putting (fv : FeatureVector)

/-- Where the inference coroutine is. -/
inductive Inference
  | getting
  | running (fv : FeatureVector)
  | putting (prediction : Ai.AiPredictionMsg)
  /-- `task_done` raised. -/
  | ended

/-- Where the producer coroutine is. -/
inductive Producer
  | getting
  | producing (msg : Ai.AiPredictionMsg)
  /-- `task_done` raised. -/
  | ended

namespace Service

/-- The queues, the coroutines, and what was counted and produced. -/
structure State where
  consumer : Consumer := .receiving
  inference : Inference := .getting
  producer : Producer := .getting
  inferenceQueue : Queue FeatureVector := {}
  outputQueue : Queue Ai.AiPredictionMsg := {}
  metrics : RuntimeMetrics := {}
  inferenceErrors : ℕ := 0
  produced : List Record := []

/-- What a coroutine does between two waits. -/
inductive Action
  /-- The consumer is given a message. -/
  | receive (raw : List UInt8)
  | putFeatures
  | getFeatures
  /-- The thread pool has run the inference. -/
  | infer
  | putPrediction
  | getPrediction
  /-- `produce` returns, or raises. -/
  | produce (raises : Bool)

/-- How many vectors may wait. -/
def inferenceQueueSize : ℕ := 128

/-- How many predictions may wait. -/
def outputQueueSize : ℕ := 128

variable (svc : Service)

/-- `build_prediction` -/
def buildPrediction (fv : FeatureVector) (result : Ai.Direction × Binary64 × Binary64) :
    Ai.AiPredictionMsg where
  symbol := fv.symbol
  ts := fv.ts
  direction := result.1
  confidence := svc.bits result.2.1
  modelVersion := svc.config.modelVersion
  rawScore := svc.bits result.2.2

/-- The prediction for a feature vector, if the inference does not fail. -/
def predict (fv : FeatureVector) : Option Ai.AiPredictionMsg :=
  (AiPredictor.infer svc.fp svc.config.toConfig svc.loaded.normalizer svc.loaded.model fv).map
    (svc.buildPrediction fv)

/-- The record of a prediction, if it can be encoded. -/
def record (msg : Ai.AiPredictionMsg) : Option Record :=
  msg.toBytes.map fun value => ⟨svc.config.kafkaOutputTopic, value, utf8 msg.symbol⟩

/-- The inference loop calls `task_done` and goes on. -/
def State.inferenceDone (s : State) : State :=
  match s.inferenceQueue.taskDone with
  | some q => { s with inferenceQueue := q, inference := .getting }
  | none => { s with inference := .ended }

/-- The producer calls `task_done` and goes on. -/
def State.produceDone (s : State) : State :=
  match s.outputQueue.taskDone with
  | some q => { s with outputQueue := q, producer := .getting }
  | none => { s with producer := .ended }

/-- What `produce` leaves, where a record is given out or none. -/
def State.publish (s : State) : Option Record → State
  | some record => { s with
      produced := s.produced ++ [record]
      metrics := { s.metrics with messagesProduced := s.metrics.messagesProduced + 1 } }
  | none => { s with
      metrics := { s.metrics with producerErrors := s.metrics.producerErrors + 1 } }

/-- What `run_predictions_producer` does with a message. -/
def produce (s : State) (msg : Ai.AiPredictionMsg) (raises : Bool) : State :=
  s.publish (if raises then none else svc.record msg)

variable [Double Binary64]

/-- What `run_features_consumer` does with a message. -/
def receive (s : State) (raw : List UInt8) : State :=
  match Md.FeatureStateMsg.fromBytes raw with
  | none =>
      { s with metrics := { s.metrics with consumerErrors := s.metrics.consumerErrors + 1 } }
  | some msg =>
      let fv := FeatureVector.fromProto msg
      let metrics := { s.metrics with messagesConsumed := s.metrics.messagesConsumed + 1 }
      match HftFeatures.validate svc.fixed fv.toFeatures with
      | .error exc =>
          { s with metrics :=
              { metrics with validationErrors := metrics.validationErrors ++ [exc.reason] } }
      | .ok () => { s with metrics, consumer := .putting fv }

/-- One step, if the coroutine need not wait. -/
def step (s : State) : Action → Option State
  | .receive raw =>
      match s.consumer with
      | .receiving => some (svc.receive s raw)
      | _ => none
  | .putFeatures =>
      match s.consumer with
      | .putting fv => (s.inferenceQueue.put inferenceQueueSize fv).map fun q =>
          { s with inferenceQueue := q, consumer := .receiving }
      | _ => none
  | .getFeatures =>
      match s.inference with
      | .getting => s.inferenceQueue.get.map fun (fv, q) =>
          { s with inferenceQueue := q, inference := .running fv }
      | _ => none
  | .infer =>
      match s.inference with
      | .running fv =>
          match svc.predict fv with
          | some prediction => some { s with inference := .putting prediction }
          | none => some { s with inferenceErrors := s.inferenceErrors + 1 }.inferenceDone
      | _ => none
  | .putPrediction =>
      match s.inference with
      | .putting prediction => (s.outputQueue.put outputQueueSize prediction).map fun q =>
          { s with outputQueue := q }.inferenceDone
      | _ => none
  | .getPrediction =>
      match s.producer with
      | .getting => s.outputQueue.get.map fun (msg, q) =>
          { s with outputQueue := q, producer := .producing msg }
      | _ => none
  | .produce raises =>
      match s.producer with
      | .producing msg => some (svc.produce s msg raises).produceDone
      | _ => none

/-- A run of steps. -/
def run (tr : List Action) : Option State := Interleave.run svc.step {} tr

/-! ### Where everything is -/

/-- The feature vector of a message, if it is accepted. -/
def accept (raw : List UInt8) : Option FeatureVector :=
  (Md.FeatureStateMsg.fromBytes raw).bind fun msg =>
    match HftFeatures.validate svc.fixed (FeatureVector.fromProto msg).toFeatures with
    | .ok () => some (FeatureVector.fromProto msg)
    | .error _ => none

end Service

/-- The vector in the hand of the consumer. -/
def Consumer.vectors : Consumer → List FeatureVector
  | .putting fv => [fv]
  | .receiving => []

/-- The vector in the hand of the inference. -/
def Inference.vectors : Inference → List FeatureVector
  | .running fv => [fv]
  | _ => []

/-- The prediction in the hand of the inference. -/
def Inference.predictions : Inference → List Ai.AiPredictionMsg
  | .putting prediction => [prediction]
  | _ => []

/-- The prediction in the hand of the producer. -/
def Producer.predictions : Producer → List Ai.AiPredictionMsg
  | .producing msg => [msg]
  | _ => []

namespace Service

/-- The messages that the consumer was given. -/
def received (tr : List Action) : List (List UInt8) :=
  tr.filterMap fun
    | .receive raw => some raw
    | _ => none

/-- What was received, with one action more. -/
theorem received_concat (tr : List Action) (a : Action) :
    received (tr ++ [a]) = received tr ++ received [a] := List.filterMap_append

/-- Producing changes the records and the metrics only. -/
theorem State.publish_eq (s : State) (out : Option Record) :
    ∃ produced metrics, s.publish out = { s with produced, metrics } := by
  cases out with
  | some record => exact ⟨_, _, rfl⟩
  | none => exact ⟨_, _, rfl⟩

/-- A task of the inference loop is done, and the loop goes on. -/
theorem inferenceDone_eq {s : State} (h : s.inferenceQueue.Sound inferenceQueueSize 1) :
    ∃ q : Queue FeatureVector,
      s.inferenceDone = { s with inferenceQueue := q, inference := .getting } ∧
        q.items = s.inferenceQueue.items ∧ q.Sound inferenceQueueSize 0 := by
  obtain ⟨q, hq, hitems, hsound⟩ := h.taskDone
  exact ⟨q, by rw [State.inferenceDone, hq], hitems, hsound⟩

/-- A task of the producer is done, and the producer goes on. -/
theorem produceDone_eq {s : State} (h : s.outputQueue.Sound outputQueueSize 1) :
    ∃ q : Queue Ai.AiPredictionMsg,
      s.produceDone = { s with outputQueue := q, producer := .getting } ∧
        q.items = s.outputQueue.items ∧ q.Sound outputQueueSize 0 := by
  obtain ⟨q, hq, hitems, hsound⟩ := h.taskDone
  exact ⟨q, by rw [State.produceDone, hq], hitems, hsound⟩

/-- The number of feature vectors and predictions in hand and in the queues. -/
def State.inFlight (s : State) : ℕ :=
  s.consumer.vectors.length + s.inferenceQueue.items.length + s.inference.vectors.length +
    s.inference.predictions.length + s.outputQueue.items.length + s.producer.predictions.length

/-- The number of steps that what is in flight still takes, if no inference fails. -/
def State.work (s : State) : ℕ :=
  6 * s.consumer.vectors.length + 5 * s.inferenceQueue.items.length +
    4 * s.inference.vectors.length + 3 * s.inference.predictions.length +
      2 * s.outputQueue.items.length + s.producer.predictions.length

/-- The work is bounded by what is in flight. -/
theorem State.work_le (s : State) : s.work ≤ 6 * s.inFlight := by
  rw [work, inFlight]
  omega

variable (svc : Service) [Double Binary64]

/-- The feature vectors that were accepted. -/
def accepted (tr : List Action) : List FeatureVector := (received tr).filterMap svc.accept

/-- **Where everything is.** The vectors that were accepted are `finished`, in hand or in a queue,
in their order; the predictions for the finished ones were `attempted` to produce, or are in hand or
in a queue, in their order. -/
structure Ledger (tr : List Action) (s : State) (finished : List FeatureVector)
    (attempted : List Ai.AiPredictionMsg) : Prop where
  received : (received tr).length = s.metrics.consumerErrors + s.metrics.messagesConsumed
  consumed : s.metrics.messagesConsumed =
    s.metrics.validationErrors.length + (svc.accepted tr).length
  accepted : svc.accepted tr = finished ++
    (s.inference.vectors ++ (s.inferenceQueue.items ++ s.consumer.vectors))
  predicted : finished.filterMap svc.predict = attempted ++
    (s.producer.predictions ++ (s.outputQueue.items ++ s.inference.predictions))
  failed : finished.length = (finished.filterMap svc.predict).length + s.inferenceErrors
  produced : s.produced.Sublist (attempted.filterMap svc.record)
  attempts : attempted.length = s.produced.length + s.metrics.producerErrors
  messagesProduced : s.metrics.messagesProduced = s.produced.length
  allProduced : s.metrics.producerErrors = 0 → s.produced = attempted.filterMap svc.record
  inferenceQueue : s.inferenceQueue.Sound inferenceQueueSize
    (s.inference.vectors.length + s.inference.predictions.length)
  outputQueue : s.outputQueue.Sound outputQueueSize s.producer.predictions.length
  inference : s.inference ≠ .ended
  producer : s.producer ≠ .ended

variable {svc} {tr : List Action} {s s' : State} {finished : List FeatureVector}
  {attempted : List Ai.AiPredictionMsg}

/-- What was accepted, with one action more. -/
theorem accepted_concat (tr : List Action) (a : Action) :
    svc.accepted (tr ++ [a]) = svc.accepted tr ++ svc.accepted [a] := by
  rw [accepted, received_concat, List.filterMap_append]
  rfl

/-- A step that receives nothing leaves the ledger as it is. -/
theorem Ledger.unreceived (h : Ledger svc tr s finished attempted) {a : Action}
    (ha : Service.received [a] = []) : Ledger svc (tr ++ [a]) s finished attempted := by
  have hreceived : Service.received (tr ++ [a]) = Service.received tr := by
    rw [received_concat, ha, List.append_nil]
  have haccepted : svc.accepted (tr ++ [a]) = svc.accepted tr := by
    rw [Service.accepted, hreceived]
    rfl
  exact { h with
    received := by rw [hreceived, h.received]
    consumed := by rw [haccepted, h.consumed]
    accepted := by rw [haccepted, h.accepted] }

/-- **A message** is refused, or accepted and in the hand of the consumer. -/
theorem Ledger.receive (h : Ledger svc tr s finished attempted) (hc : s.consumer = .receiving)
    (raw : List UInt8) :
    Ledger svc (tr ++ [.receive raw]) (svc.receive s raw) finished attempted := by
  have hvectors : s.consumer.vectors = [] := by rw [hc]; rfl
  have haccepted := h.accepted
  rw [hvectors, List.append_nil] at haccepted
  have hsingle : svc.accepted [.receive raw] = (svc.accept raw).toList := by
    rw [Service.accepted]
    change [raw].filterMap svc.accept = _
    rw [List.filterMap_cons]
    cases svc.accept raw <;> rfl
  have hreceived : (Service.received (tr ++ [.receive raw])).length =
      (Service.received tr).length + 1 := by
    rw [received_concat, List.length_append]
    rfl
  rw [Service.receive]
  split
  · rename_i hbytes
    have hnone : svc.accept raw = none := by rw [accept, hbytes]; rfl
    rw [hnone] at hsingle
    exact { h with
      received := by rw [hreceived, h.received]; dsimp only; omega
      consumed := by rw [accepted_concat, hsingle]; simpa using h.consumed
      accepted := by rw [accepted_concat, hsingle]; simpa using h.accepted }
  · rename_i msg hbytes
    dsimp only
    split
    · rename_i exc hexc
      have hnone : svc.accept raw = none := by rw [accept, hbytes, Option.bind_some, hexc]
      rw [hnone] at hsingle
      exact { h with
        received := by rw [hreceived, h.received]; dsimp only; omega
        consumed := by
          rw [accepted_concat, hsingle]
          simp [h.consumed]
          omega
        accepted := by rw [accepted_concat, hsingle]; simpa using h.accepted }
    · rename_i hok
      have hsome : svc.accept raw = some (FeatureVector.fromProto msg) := by
        rw [accept, hbytes, Option.bind_some, hok]
      rw [hsome] at hsingle
      exact { h with
        received := by rw [hreceived, h.received]; dsimp only; omega
        consumed := by
          rw [accepted_concat, hsingle]
          simp [h.consumed]
          omega
        accepted := by
          rw [accepted_concat, hsingle, haccepted]
          simp [Consumer.vectors] }

/-- **A prediction** is produced, or the attempt is counted as an error. -/
theorem Ledger.produce (h : Ledger svc tr s finished attempted) {msg : Ai.AiPredictionMsg}
    (hp : s.producer = .producing msg) (raises : Bool) :
    Ledger svc tr (svc.produce s msg raises).produceDone finished (attempted ++ [msg]) := by
  have hpredicted := h.predicted
  have hqueue := h.outputQueue
  rw [hp] at hpredicted hqueue
  have hmoved : finished.filterMap svc.predict = attempted ++ [msg] ++
      (s.outputQueue.items ++ s.inference.predictions) := by
    rw [hpredicted]
    simp [Producer.predictions]
  have hattempts := h.attempts
  have hrecords : (attempted ++ [msg]).filterMap svc.record =
      attempted.filterMap svc.record ++ (svc.record msg).toList := by
    rw [List.filterMap_append, List.filterMap_cons]
    cases svc.record msg <;> rfl
  rw [Service.produce]
  cases hout : if raises then none else svc.record msg with
  | some record =>
      obtain ⟨-, hrecord⟩ : ¬ raises = true ∧ svc.record msg = some record := by
        simpa using hout
      obtain ⟨q, hdone, hitems, hsound⟩ := produceDone_eq (s := s.publish (some record)) hqueue
      rw [hrecord] at hrecords
      rw [hdone]
      exact { h with
        predicted := by rw [hmoved, hitems]; rfl
        produced := by rw [hrecords]; exact h.produced.append_right _
        attempts := by
          simp only [State.publish, List.length_append, List.length_singleton]
          omega
        messagesProduced := by
          simp only [State.publish, List.length_append, List.length_singleton,
            h.messagesProduced]
        allProduced := by
          intro hnone
          rw [hrecords, State.publish, h.allProduced hnone]
          rfl
        outputQueue := hsound
        producer := by simp }
  | none =>
      obtain ⟨q, hdone, hitems, hsound⟩ := produceDone_eq (s := s.publish none) hqueue
      rw [hdone]
      exact { h with
        predicted := by rw [hmoved, hitems]; rfl
        produced := by
          rw [hrecords]
          exact h.produced.trans (List.sublist_append_left _ _)
        attempts := by
          simp only [State.publish, List.length_append, List.length_singleton]
          omega
        allProduced := by simp [State.publish]
        outputQueue := hsound
        producer := by simp }

variable (svc) in
/-- A step is booked if there is a ledger after it, and if it takes work off unless it receives a
message. -/
def Booked (tr : List Action) (s : State) (a : Action) (s' : State) : Prop :=
  ∃ finished attempted, Ledger svc (tr ++ [a]) s' finished attempted ∧
    (Service.received [a] = [] → s'.work < s.work)

/-- The consumer receives a message. -/
theorem Ledger.step_receive (h : Ledger svc tr s finished attempted) {raw : List UInt8}
    (hstep : svc.step s (.receive raw) = some s') : svc.Booked tr s (.receive raw) s' := by
  rw [Service.step] at hstep
  split at hstep
  · rename_i hc
    obtain rfl := Option.some.inj hstep
    exact ⟨finished, attempted, h.receive hc raw, by simp [Service.received]⟩
  · cases hstep

/-- The consumer puts a vector into its queue. -/
theorem Ledger.step_putFeatures (h : Ledger svc tr s finished attempted)
    (hstep : svc.step s .putFeatures = some s') : svc.Booked tr s .putFeatures s' := by
  rw [Service.step] at hstep
  split at hstep
  · rename_i fv hc
    obtain ⟨q, hput, rfl⟩ := Option.map_eq_some_iff.mp hstep
    obtain ⟨hitems, hsound⟩ := h.inferenceQueue.put hput
    have haccepted := h.accepted
    rw [hc] at haccepted
    refine ⟨finished, attempted, Ledger.unreceived ?_ rfl, fun _ => ?_⟩
    · exact { h with
        accepted := by
          rw [haccepted, hitems]
          simp [Consumer.vectors]
        inferenceQueue := hsound }
    · simp only [State.work, hc, hitems, Consumer.vectors, List.length_append,
        List.length_singleton, List.length_nil]
      omega
  · cases hstep

/-- The inference takes a vector from the queue. -/
theorem Ledger.step_getFeatures (h : Ledger svc tr s finished attempted)
    (hstep : svc.step s .getFeatures = some s') : svc.Booked tr s .getFeatures s' := by
  rw [Service.step] at hstep
  split at hstep
  · rename_i hi
    obtain ⟨⟨fv, q⟩, hget, rfl⟩ := Option.map_eq_some_iff.mp hstep
    obtain ⟨hitems, hsound⟩ := h.inferenceQueue.get hget
    have haccepted := h.accepted
    have hpredicted := h.predicted
    rw [hi] at haccepted hpredicted hsound
    refine ⟨finished, attempted, Ledger.unreceived ?_ rfl, fun _ => ?_⟩
    · exact { h with
        accepted := by
          rw [haccepted, hitems]
          simp [Inference.vectors]
        predicted := hpredicted
        inferenceQueue := hsound
        inference := by simp }
    · simp only [State.work, hi, hitems, Inference.vectors, Inference.predictions,
        List.length_cons, List.length_nil]
      omega
  · cases hstep

/-- The inference makes a prediction of a vector, or fails and has finished with it. -/
theorem Ledger.step_infer (h : Ledger svc tr s finished attempted)
    (hstep : svc.step s .infer = some s') : svc.Booked tr s .infer s' := by
  rw [Service.step] at hstep
  split at hstep
  · rename_i fv hi
    have haccepted := h.accepted
    have hpredicted := h.predicted
    have hqueue := h.inferenceQueue
    rw [hi] at haccepted hpredicted hqueue
    split at hstep
    · rename_i prediction hprediction
      obtain rfl := Option.some.inj hstep
      refine ⟨finished ++ [fv], attempted, Ledger.unreceived ?_ rfl, fun _ => ?_⟩
      · exact { h with
          accepted := by
            rw [haccepted]
            simp [Inference.vectors]
          predicted := by
            rw [List.filterMap_append, hpredicted]
            simp [hprediction, Inference.predictions]
          failed := by
            simp only [List.length_append, List.length_singleton, List.filterMap_append,
              List.filterMap_cons, List.filterMap_nil, hprediction, h.failed]
            omega
          inferenceQueue := hqueue
          inference := by simp }
      · simp only [State.work, hi, Inference.vectors, Inference.predictions,
          List.length_cons, List.length_nil]
        omega
    · rename_i hprediction
      obtain rfl := Option.some.inj hstep
      obtain ⟨q, hdone, hitems, hsound⟩ := inferenceDone_eq
        (s := { s with inferenceErrors := s.inferenceErrors + 1 }) hqueue
      rw [hdone]
      refine ⟨finished ++ [fv], attempted, Ledger.unreceived ?_ rfl, fun _ => ?_⟩
      · exact { h with
          accepted := by
            rw [haccepted, hitems]
            simp [Inference.vectors]
          predicted := by
            rw [List.filterMap_append, hpredicted]
            simp [hprediction, Inference.predictions]
          failed := by
            simp only [List.length_append, List.length_singleton, List.filterMap_append,
              List.filterMap_cons, List.filterMap_nil, hprediction, List.append_nil, h.failed]
            omega
          inferenceQueue := hsound
          inference := by simp }
      · simp only [State.work, hi, hitems, Inference.vectors, Inference.predictions,
          List.length_cons, List.length_nil]
        omega
  · cases hstep

/-- The inference puts a prediction into its queue, and has finished with the vector. -/
theorem Ledger.step_putPrediction (h : Ledger svc tr s finished attempted)
    (hstep : svc.step s .putPrediction = some s') : svc.Booked tr s .putPrediction s' := by
  rw [Service.step] at hstep
  split at hstep
  · rename_i prediction hi
    obtain ⟨q, hput, rfl⟩ := Option.map_eq_some_iff.mp hstep
    obtain ⟨hitems, hsound⟩ := h.outputQueue.put hput
    have haccepted := h.accepted
    have hpredicted := h.predicted
    have hqueue := h.inferenceQueue
    rw [hi] at haccepted hpredicted hqueue
    obtain ⟨q', hdone, hitems', hsound'⟩ :=
      inferenceDone_eq (s := { s with outputQueue := q }) hqueue
    rw [hdone]
    refine ⟨finished, attempted, Ledger.unreceived ?_ rfl, fun _ => ?_⟩
    · exact { h with
        accepted := by
          rw [haccepted, hitems']
          simp [Inference.vectors]
        predicted := by
          rw [hpredicted, hitems]
          simp [Inference.predictions]
        inferenceQueue := hsound'
        outputQueue := hsound
        inference := by simp }
    · simp only [State.work, hi, hitems, hitems', Inference.vectors, Inference.predictions,
        List.length_append, List.length_cons, List.length_nil]
      omega
  · cases hstep

/-- The producer takes a prediction from the queue. -/
theorem Ledger.step_getPrediction (h : Ledger svc tr s finished attempted)
    (hstep : svc.step s .getPrediction = some s') : svc.Booked tr s .getPrediction s' := by
  rw [Service.step] at hstep
  split at hstep
  · rename_i hp
    obtain ⟨⟨msg, q⟩, hget, rfl⟩ := Option.map_eq_some_iff.mp hstep
    obtain ⟨hitems, hsound⟩ := h.outputQueue.get hget
    have hpredicted := h.predicted
    rw [hp] at hpredicted hsound
    refine ⟨finished, attempted, Ledger.unreceived ?_ rfl, fun _ => ?_⟩
    · exact { h with
        predicted := by
          rw [hpredicted, hitems]
          simp [Producer.predictions]
        outputQueue := hsound
        producer := by simp }
    · simp only [State.work, hp, hitems, Producer.predictions, List.length_cons,
        List.length_nil]
      omega
  · cases hstep

/-- The producer produces a prediction, or counts an error. -/
theorem Ledger.step_produce (h : Ledger svc tr s finished attempted) {raises : Bool}
    (hstep : svc.step s (.produce raises) = some s') : svc.Booked tr s (.produce raises) s' := by
  rw [Service.step] at hstep
  split at hstep
  · rename_i msg hp
    obtain rfl := Option.some.inj hstep
    have hqueue := h.outputQueue
    rw [hp] at hqueue
    refine ⟨finished, attempted ++ [msg], (h.produce hp raises).unreceived rfl, fun _ => ?_⟩
    obtain ⟨produced, metrics, hpublish⟩ :=
      s.publish_eq (if raises then none else svc.record msg)
    rw [Service.produce, hpublish]
    obtain ⟨q, hdone, hitems, -⟩ := produceDone_eq (s := { s with produced, metrics }) hqueue
    rw [hdone]
    simp only [State.work, hp, hitems, Producer.predictions, List.length_cons,
      List.length_nil]
    omega
  · cases hstep

/-- **Each step is booked.** -/
theorem Ledger.step (h : Ledger svc tr s finished attempted) {a : Action}
    (hstep : svc.step s a = some s') : svc.Booked tr s a s' := by
  cases a with
  | receive raw => exact h.step_receive hstep
  | putFeatures => exact h.step_putFeatures hstep
  | getFeatures => exact h.step_getFeatures hstep
  | infer => exact h.step_infer hstep
  | putPrediction => exact h.step_putPrediction hstep
  | getPrediction => exact h.step_getPrediction hstep
  | produce raises => exact h.step_produce hstep

/-- At first there is nothing to account for. -/
theorem ledger_init : Ledger svc [] {} [] [] where
  received := rfl
  consumed := rfl
  accepted := rfl
  predicted := rfl
  failed := rfl
  produced := .slnil
  attempts := rfl
  messagesProduced := rfl
  allProduced _ := rfl
  inferenceQueue := ⟨Nat.zero_le _, rfl⟩
  outputQueue := ⟨Nat.zero_le _, rfl⟩
  inference := by simp
  producer := by simp

/-- **Along every run** nothing is lost, repeated or overtaken. -/
theorem ledger_run (h : svc.run tr = some s) :
    ∃ finished attempted, Ledger svc tr s finished attempted := by
  refine Interleave.run_induction
    (P := fun tr s => ∃ finished attempted, Ledger svc tr s finished attempted) ?_ ?_ h
  · exact ⟨[], [], ledger_init⟩
  · rintro tr s a s' ⟨finished, attempted, hledger⟩ hstep
    obtain ⟨finished', attempted', hledger', -⟩ := hledger.step hstep
    exact ⟨finished', attempted', hledger'⟩

/-! ### What is produced -/

/-- What is in flight fits into the queues and three hands. -/
theorem Ledger.inFlight_le (h : Ledger svc tr s finished attempted) :
    s.inFlight ≤ inferenceQueueSize + outputQueueSize + 3 := by
  have hconsumer : s.consumer.vectors.length ≤ 1 := by
    cases s.consumer <;> simp [Consumer.vectors]
  have hinference : s.inference.vectors.length + s.inference.predictions.length ≤ 1 := by
    cases s.inference <;> simp [Inference.vectors, Inference.predictions]
  have hproducer : s.producer.predictions.length ≤ 1 := by
    cases s.producer <;> simp [Producer.predictions]
  have hin := h.inferenceQueue.size
  have hout := h.outputQueue.size
  rw [State.inFlight]
  omega

/-- Every message is counted by a metric, failed in the inference, or is in flight. -/
theorem Ledger.received_eq (h : Ledger svc tr s finished attempted) :
    (Service.received tr).length = s.metrics.consumerErrors + s.metrics.validationErrors.length +
      s.inferenceErrors + s.metrics.producerErrors + s.metrics.messagesProduced + s.inFlight := by
  have haccepted := congrArg List.length h.accepted
  have hpredicted := congrArg List.length h.predicted
  simp only [List.length_append] at haccepted hpredicted
  have hreceived := h.received
  have hconsumed := h.consumed
  have hfailed := h.failed
  have hattempts := h.attempts
  have hproduced := h.messagesProduced
  rw [State.inFlight]
  omega

/-- What was attempted comes from the first of the vectors that were accepted. -/
theorem Ledger.attempted_prefix (h : Ledger svc tr s finished attempted) :
    attempted <+: (svc.accepted tr).filterMap svc.predict := by
  rw [h.accepted, List.filterMap_append, h.predicted, List.append_assoc]
  exact List.prefix_append _ _

/-- **As long as something is in flight**, a coroutine can go on. -/
theorem exists_step (svc : Service) {s : State} (hflight : s.inFlight ≠ 0)
    (hinference : s.inference ≠ .ended) (hproducer : s.producer ≠ .ended) :
    ∃ a, received [a] = [] ∧ svc.step s a ≠ none := by
  cases hp : s.producer with
  | producing msg => exact ⟨.produce false, rfl, by simp [step, hp]⟩
  | ended => exact absurd hp hproducer
  | getting =>
      cases hout : s.outputQueue.items with
      | cons msg items => exact ⟨.getPrediction, rfl, by simp [step, hp, Queue.get, hout]⟩
      | nil =>
          cases hi : s.inference with
          | putting prediction =>
              exact ⟨.putPrediction, rfl, by simp [step, hi, Queue.put, hout, outputQueueSize]⟩
          | running fv =>
              refine ⟨.infer, rfl, ?_⟩
              simp only [step, hi]
              split <;> simp
          | ended => exact absurd hi hinference
          | getting =>
              cases hin : s.inferenceQueue.items with
              | cons fv items => exact ⟨.getFeatures, rfl, by simp [step, hi, Queue.get, hin]⟩
              | nil =>
                  cases hc : s.consumer with
                  | putting fv =>
                      exact ⟨.putFeatures, rfl, by
                        simp [step, hc, Queue.put, hin, inferenceQueueSize]⟩
                  | receiving =>
                      refine absurd ?_ hflight
                      simp [State.inFlight, hp, hout, hi, hin, hc, Consumer.vectors,
                        Inference.vectors, Inference.predictions, Producer.predictions]

/-- A run may be cut anywhere. -/
theorem run_append {tr tr' : List Action} (h : svc.run tr = some s) :
    svc.run (tr ++ tr') = Interleave.run svc.step s tr' := by
  rw [run, Interleave.run, List.foldlM_append]
  change (svc.run tr).bind _ = _
  rw [h, Option.bind_some]
  rfl

/-- Without new messages, every step takes work off. -/
theorem length_le_work (h : svc.run tr = some s) {tr' : List Action}
    (htr' : received tr' = []) (h' : Interleave.run svc.step s tr' = some s') :
    tr'.length + s'.work ≤ s.work := by
  induction tr' using List.reverseRecOn generalizing s' with
  | nil =>
      obtain rfl := Option.some.inj h'
      simp
  | append_singleton tr' a ih =>
      rw [received_concat, List.append_eq_nil_iff] at htr'
      rw [Interleave.run, List.foldlM_append, Option.bind_eq_bind, Option.bind_eq_some_iff] at h'
      obtain ⟨mid, hmid, hstep⟩ := h'
      simp only [List.foldlM_cons, List.foldlM_nil, bind_pure] at hstep
      have hle := ih htr'.1 hmid
      obtain ⟨finished, attempted, hledger⟩ := ledger_run ((run_append h).trans hmid)
      obtain ⟨-, -, -, hlt⟩ := hledger.step hstep
      have := hlt htr'.2
      rw [List.length_append, List.length_singleton]
      omega

/-- **The pipeline runs empty.** From every state of a run, a run without new messages takes at most
six steps for everything in flight; where it cannot go on, nothing is in flight; and it can get
there. -/
theorem drains (svc : Service) (tr : List Action) (s : State) (h : svc.run tr = some s) :
    (∀ tr' s', received tr' = [] → Interleave.run svc.step s tr' = some s' →
      tr'.length ≤ 6 * s.inFlight ∧
        ((∀ a, received [a] = [] → svc.step s' a = none) → s'.inFlight = 0)) ∧
      ∃ tr' s', received tr' = [] ∧ Interleave.run svc.step s tr' = some s' ∧ s'.inFlight = 0 := by
  constructor
  · intro tr' s' htr' h'
    have hle := length_le_work h htr' h'
    have hwork := s.work_le
    refine ⟨by omega, fun hstuck => ?_⟩
    by_contra hflight
    obtain ⟨finished, attempted, hledger⟩ := ledger_run ((run_append h).trans h')
    obtain ⟨a, ha, hstep⟩ := svc.exists_step hflight hledger.inference hledger.producer
    exact hstep (hstuck a ha)
  · -- Induction on the work that is left.
    induction hw : s.work using Nat.strong_induction_on generalizing tr s with
    | _ w ih =>
        by_cases hflight : s.inFlight = 0
        · exact ⟨[], s, rfl, rfl, hflight⟩
        · obtain ⟨finished, attempted, hledger⟩ := ledger_run h
          obtain ⟨a, ha, hstep⟩ := svc.exists_step hflight hledger.inference hledger.producer
          obtain ⟨mid, hmid⟩ := Option.ne_none_iff_exists'.mp hstep
          obtain ⟨-, -, -, hlt⟩ := hledger.step hmid
          have hrun : svc.run (tr ++ [a]) = some mid := by
            rw [run_append h, Interleave.run, List.foldlM_cons, hmid]
            rfl
          obtain ⟨tr', s', htr', h', hempty⟩ := ih mid.work (hw ▸ hlt ha) _ mid hrun rfl
          refine ⟨a :: tr', s', ?_, ?_, hempty⟩
          · rw [← List.singleton_append, received, List.filterMap_append]
            exact List.append_eq_nil_iff.mpr ⟨ha, htr'⟩
          · rw [Interleave.run, List.foldlM_cons, hmid]
            exact h'

/-! ### What a record tells -/

omit [Double Binary64] in
/-- An inference predicts a movement only with the confidence that is asked for. -/
theorem confident_of_conclude {fp : Rounding} {cfg : Config} {model : Estimator}
    {x : List Binary64} {result : Ai.Direction × Binary64 × Binary64}
    (h : conclude fp cfg model x = some result) :
    result.1 = .hold ∨ result.2.1.lt cfg.confidenceThreshold = false := by
  obtain ⟨c, -, hresult⟩ := Option.bind_eq_some_iff.mp h
  obtain rfl := Option.some.inj hresult
  dsimp only
  split
  · exact Or.inl rfl
  · rename_i hnot
    by_cases hhold : classToDirection c.classIdx = .hold
    · exact Or.inl hhold
    · exact Or.inr (by simpa using fun hlt => hnot ⟨hhold, hlt⟩)

end Service

/-! ### One message -/

/-- Hardware arithmetic. Nothing in the service takes a root. -/
instance hardware : Double Binary64 where
  add := Rounding.nearestEven.add
  sub := Rounding.nearestEven.sub
  mul := Rounding.nearestEven.mul
  div := Rounding.nearestEven.div
  neg := Binary64.neg
  lit := Rounding.nearestEven.lit
  nan := .nan
  infinity := .inf false
  abs x := if x.lt .zero then x.neg else x
  sqrt x := x
  pow x n := (List.replicate n x).foldl Rounding.nearestEven.mul (Rounding.nearestEven.lit 1)
  lt := Binary64.lt
  le := Binary64.le
  max := Binary64.max
  min x y := (Binary64.max x.neg y.neg).neg
  isFinite
    | .fin _ => true
    | _ => false

namespace Service

/-- A service with the first release, which is confident by three quarters. -/
def reference : Service where
  fp := Rounding.nearestEven
  loaded := release 100 (3 / 4)
  config :=
    { confidenceThreshold := Rounding.nearestEven.lit (3 / 5)
      kafkaOutputTopic := "TOPIC_SIGNALS"
      modelVersion := "sklearn-v0.1.0" }
  bits x := if x = .fin (3 / 4) then ⟨[0x3f, 0xe8, 0, 0, 0, 0, 0, 0], rfl⟩ else .zero
  fixed _ _ := ""

/-- Averages of 200, and an RSI of 50. -/
def sampleFeatures : Md.FeatureStateMsg where
  symbol := "BTCUSDT"
  ts := 1700000000000
  emaFast := ⟨[0x40, 0x69, 0, 0, 0, 0, 0, 0], rfl⟩
  emaSlow := ⟨[0x40, 0x69, 0, 0, 0, 0, 0, 0], rfl⟩
  rsi := ⟨[0x40, 0x49, 0, 0, 0, 0, 0, 0], rfl⟩
  macd := .zero
  macdSignal := .zero
  macdHist := .zero
  vwap := ⟨[0x40, 0x69, 0, 0, 0, 0, 0, 0], rfl⟩

/-- The message goes through, behind one that cannot be decoded. -/
def sampleRun : List Action :=
  [.receive [], .receive (sampleFeatures.toBytes.getD []), .putFeatures, .getFeatures, .infer,
    .putPrediction, .getPrediction, .produce false]

/-- The record of the sample. -/
def sampleRecord : Record where
  topic := "TOPIC_SIGNALS"
  value := (Ai.AiPredictionMsg.toBytes ⟨"BTCUSDT", 1700000000000, .long,
    ⟨[0x3f, 0xe8, 0, 0, 0, 0, 0, 0], rfl⟩, "sklearn-v0.1.0",
      ⟨[0x3f, 0xe8, 0, 0, 0, 0, 0, 0], rfl⟩⟩).getD []
  key := utf8 "BTCUSDT"

/-- A message is taken, predicted and produced. -/
theorem sampleRun_produces :
    (reference.run sampleRun).map State.produced = some [sampleRecord] := by decide +kernel

/-- A message that is under way is finished. -/
theorem drains_sample : ∃ s, reference.run (sampleRun.take 3) = some s ∧
    ∃ tr' s', received tr' = [] ∧ Interleave.run reference.step s tr' = some s' ∧
      s'.inFlight = 0 := by
  have hsome : (reference.run (sampleRun.take 3)).isSome = true := by decide +kernel
  obtain ⟨s, hs⟩ := Option.isSome_iff_exists.mp hsome
  exact ⟨s, hs, (drains reference _ s hs).2⟩

end Service

end HftPlatform.AiPredictor
