import HftPlatform.Lib.Binary64
import HftPlatform.Lib.Machine

/-!
# The candle sink

`sink_loop` and `flush_batch` of `services/marketdata_ingestor/src/candle.rs`: closed candles are
taken off the channel of the pipeline into a batch, and a batch is written to ClickHouse as a whole
and then sent to Kafka one by one. A batch is flushed when it is full, at a tick of the interval,
and when the channel closes. A sink that fails ends the loop.

The steps are those of the producers, of the branches that `select!` takes, and of the two sinks,
in any order that the loop admits. A failed write leaves nothing behind.

## Main results

* `step_spec`, `inv_turn`: what a step can do, and what the sinks hold of the accepted candles.
* `remaining_turn`: once the channel is closed, every turn of the loop brings it closer to its end.
* `sinkLoop_law`: both sinks hold prefixes of what was accepted, and in the end all of it.
-/

namespace HftPlatform.CandleSink

open Lib

/-- A row of the candle table. -/
structure CandleRow where
  symbol : String
  interval : String
  openTime : ℤ
  «open» : Binary64
  high : Binary64
  low : Binary64
  close : Binary64
  volume : Binary64
  closeTime : ℤ
  quoteAssetVolume : Binary64
  numberOfTrades : ℕ
  takerBuyBaseAssetVolume : Binary64
  takerBuyQuoteAssetVolume : Binary64
  exchange : String
  market : String
  eventIngestedAtMs : ℤ
  deriving DecidableEq, Repr

/-- A closed candle, with its row and its record. -/
structure ParsedClosedCandle where
  row : CandleRow
  kafkaKey : String
  kafkaPayload : List UInt8
  deriving DecidableEq, Repr

/-- A message of the log, with its topic. -/
structure KafkaMessage where
  topic : String
  key : String
  payload : List UInt8
  deriving DecidableEq, Repr

/-- What the sink reads of its configuration. -/
structure Config where
  candleChBatchSize : ℕ
  candleChFlushIntervalMs : ℕ
  candlePipelineChannelCapacity : ℕ
  candleKafkaTopic : String

/-- Where the loop is: at its `select!`, or within a flush, after which it goes on, or returns when
the channel was closed. An interval of zero panics. -/
inductive Phase
  | select
  | inserting (closing : Bool)
  | sending (rest : List ParsedClosedCandle) (closing : Bool)
  | returned
  | failed
  | panicked
  deriving DecidableEq, Repr

/-- What happens at the sink. -/
inductive Event
  /-- A worker sends a candle to the channel. -/
  | accept (item : ParsedClosedCandle)
  /-- The last worker drops its end of the channel. -/
  | close
  | recv
  | tick
  | clickhouse (isOk : Bool)
  | kafka (isOk : Bool)
  /-- The batch is cleared after its last message. -/
  | clear
  deriving DecidableEq, Repr

/-- No sink fails. -/
def Event.succeeds : Event → Bool
  | .clickhouse isOk => isOk
  | .kafka isOk => isOk
  | _ => true

/-- The channel, the batch, and where the sink loop is. -/
structure State where
  accepted : List ParsedClosedCandle := []
  channel : List ParsedClosedCandle := []
  /-- Some worker can still send. -/
  senders : Bool := true
  batch : List ParsedClosedCandle := []
  clickhouse : List CandleRow := []
  kafka : List KafkaMessage := []
  phase : Phase

/-- The receiver is there. -/
def Phase.running : Phase → Bool
  | .returned => false
  | .failed => false
  | .panicked => false
  | _ => true

variable (cfg : Config)

/-- The channel is open and the sink waits. -/
def State.init : State where
  phase := if cfg.candleChFlushIntervalMs = 0 then .panicked else .select

/-- The phase after a flush. -/
def Phase.next (closing : Bool) : Phase := if closing then .returned else .select

/-- The batch is written, unless it is empty. -/
def flushBatch (s : State) (closing : Bool) : State :=
  if s.batch.isEmpty then { s with phase := .next closing }
  else { s with phase := .inserting closing }

/-- The message of a candle. -/
def ParsedClosedCandle.message (item : ParsedClosedCandle) : KafkaMessage where
  topic := cfg.candleKafkaTopic
  key := item.kafkaKey
  payload := item.kafkaPayload

/-- One step, and whether it changes anything: an event that cannot happen changes nothing, and
neither does a tick that finds an empty batch. -/
def step (s : State) : Event → State × Bool
  | .accept item =>
      if s.senders ∧ s.phase.running ∧ s.channel.length < cfg.candlePipelineChannelCapacity then
        ({ s with accepted := s.accepted ++ [item], channel := s.channel ++ [item] }, true)
      else (s, false)
  | .close => if s.senders then ({ s with senders := false }, true) else (s, false)
  | .recv =>
      match s.phase, s.channel with
      | .select, item :: channel =>
          let pushed := { s with channel, batch := s.batch ++ [item] }
          if cfg.candleChBatchSize ≤ pushed.batch.length then (flushBatch pushed false, true)
          else (pushed, true)
      | .select, [] =>
          if s.senders then (s, false)
          else if s.batch.isEmpty then ({ s with phase := .returned }, true)
          else (flushBatch s true, true)
      | _, _ => (s, false)
  | .tick =>
      match s.phase with
      | .select => if s.batch.isEmpty then (s, false) else (flushBatch s false, true)
      | _ => (s, false)
  | .clickhouse isOk =>
      match s.phase with
      | .inserting closing =>
          if isOk then
            ({ s with
              clickhouse := s.clickhouse ++ s.batch.map ParsedClosedCandle.row
              phase := .sending s.batch closing }, true)
          else ({ s with phase := .failed }, true)
      | _ => (s, false)
  | .kafka isOk =>
      match s.phase with
      | .sending (item :: rest) closing =>
          if isOk then
            ({ s with
              kafka := s.kafka ++ [item.message cfg]
              phase := .sending rest closing }, true)
          else ({ s with phase := .failed }, true)
      | _ => (s, false)
  | .clear =>
      match s.phase with
      | .sending [] closing => ({ s with batch := [], phase := .next closing }, true)
      | _ => (s, false)

/-- The state after a list of events, and which of them changed anything. -/
def run (events : List Event) : State × List Bool := Machine.run (step cfg) (.init cfg) events

/-! ### Turns -/

/-- What a step can do. -/
inductive Turn (s : State) : Event → State → Prop
  | accepted (item : ParsedClosedCandle) (hsenders : s.senders = true)
      (hrunning : s.phase.running = true) :
      Turn s (.accept item)
        { s with accepted := s.accepted ++ [item], channel := s.channel ++ [item] }
  | closed (hsenders : s.senders = true) : Turn s .close { s with senders := false }
  | pushed {item : ParsedClosedCandle} {channel : List ParsedClosedCandle}
      (hphase : s.phase = .select) (hchannel : s.channel = item :: channel) :
      Turn s .recv { s with channel, batch := s.batch ++ [item] }
  | full {item : ParsedClosedCandle} {channel : List ParsedClosedCandle}
      (hphase : s.phase = .select) (hchannel : s.channel = item :: channel) :
      Turn s .recv { s with channel, batch := s.batch ++ [item], phase := .inserting false }
  | drained (hphase : s.phase = .select) (hchannel : s.channel = []) (hbatch : s.batch = []) :
      Turn s .recv { s with phase := .returned }
  | last (hphase : s.phase = .select) (hchannel : s.channel = []) (hsenders : s.senders = false)
      (hbatch : s.batch ≠ []) : Turn s .recv { s with phase := .inserting true }
  | ticked (hphase : s.phase = .select) (hbatch : s.batch ≠ []) :
      Turn s .tick { s with phase := .inserting false }
  | inserted {closing : Bool} (hphase : s.phase = .inserting closing) :
      Turn s (.clickhouse true)
        { s with
          clickhouse := s.clickhouse ++ s.batch.map ParsedClosedCandle.row
          phase := .sending s.batch closing }
  | notInserted {closing : Bool} (hphase : s.phase = .inserting closing) :
      Turn s (.clickhouse false) { s with phase := .failed }
  | sent {item : ParsedClosedCandle} {rest : List ParsedClosedCandle} {closing : Bool}
      (hphase : s.phase = .sending (item :: rest) closing) :
      Turn s (.kafka true)
        { s with kafka := s.kafka ++ [item.message cfg], phase := .sending rest closing }
  | notSent {item : ParsedClosedCandle} {rest : List ParsedClosedCandle} {closing : Bool}
      (hphase : s.phase = .sending (item :: rest) closing) :
      Turn s (.kafka false) { s with phase := .failed }
  | cleared {closing : Bool} (hphase : s.phase = .sending [] closing) :
      Turn s .clear { s with batch := [], phase := .next closing }

variable {cfg} {s s' : State} {e : Event}

/-- A batch with candles goes to ClickHouse first. -/
theorem flushBatch_of_ne_nil {closing : Bool} (hbatch : s.batch ≠ []) :
    flushBatch s closing = { s with phase := .inserting closing } := by
  rw [flushBatch, if_neg (by simpa using hbatch)]

/-- **What a step does**: a turn, or nothing. -/
theorem step_spec (cfg : Config) (s : State) (e : Event) :
    step cfg s e = (s, false) ∨ ∃ s', step cfg s e = (s', true) ∧ Turn cfg s e s' := by
  cases e with
  | accept item =>
      rw [step]
      split
      · rename_i h
        exact Or.inr ⟨_, rfl, .accepted item h.1 h.2.1⟩
      · exact Or.inl rfl
  | close =>
      rw [step]
      split
      · rename_i hsenders
        exact Or.inr ⟨_, rfl, .closed hsenders⟩
      · exact Or.inl rfl
  | recv =>
      rw [step]
      split
      · rename_i item channel hphase hchannel
        dsimp only
        split
        · refine Or.inr ⟨_, rfl, ?_⟩
          rw [flushBatch_of_ne_nil (by simp)]
          exact .full hphase hchannel
        · exact Or.inr ⟨_, rfl, .pushed hphase hchannel⟩
      · rename_i hphase hchannel
        split
        · exact Or.inl rfl
        · rename_i hsenders
          split
          · rename_i hbatch
            exact Or.inr ⟨_, rfl, .drained hphase hchannel (by simpa using hbatch)⟩
          · rename_i hbatch
            have hne : s.batch ≠ [] := by simpa using hbatch
            refine Or.inr ⟨_, rfl, ?_⟩
            rw [flushBatch_of_ne_nil hne]
            exact .last hphase hchannel (by simpa using hsenders) hne
      · exact Or.inl rfl
  | tick =>
      rw [step]
      split
      · rename_i hphase
        split
        · exact Or.inl rfl
        · rename_i hbatch
          have hne : s.batch ≠ [] := by simpa using hbatch
          refine Or.inr ⟨_, rfl, ?_⟩
          rw [flushBatch_of_ne_nil hne]
          exact .ticked hphase hne
      · exact Or.inl rfl
  | clickhouse isOk =>
      cases hphase : s.phase with
      | inserting closing =>
          cases isOk with
          | true => exact Or.inr ⟨_, by simp [step, hphase], .inserted hphase⟩
          | false => exact Or.inr ⟨_, by simp [step, hphase], .notInserted hphase⟩
      | _ => exact Or.inl (by simp [step, hphase])
  | kafka isOk =>
      cases hphase : s.phase with
      | sending rest closing =>
          cases rest with
          | nil => exact Or.inl (by simp [step, hphase])
          | cons item rest =>
              cases isOk with
              | true => exact Or.inr ⟨_, by simp [step, hphase], .sent hphase⟩
              | false => exact Or.inr ⟨_, by simp [step, hphase], .notSent hphase⟩
      | _ => exact Or.inl (by simp [step, hphase])
  | clear =>
      cases hphase : s.phase with
      | sending rest closing =>
          cases rest with
          | nil => exact Or.inr ⟨_, by simp [step, hphase], .cleared hphase⟩
          | cons item rest => exact Or.inl (by simp [step, hphase])
      | _ => exact Or.inl (by simp [step, hphase])

/-! ### What the sinks hold -/

/-- The items that have left the batch are in both sinks. Of those in the batch, some are in
ClickHouse, and some of these in Kafka. -/
structure Logs (cfg : Config) (s : State) (left inserted sent : List ParsedClosedCandle) :
    Prop where
  accepted : s.accepted = left ++ s.batch ++ s.channel
  clickhouse : s.clickhouse = (left ++ inserted).map ParsedClosedCandle.row
  kafka : s.kafka = (left ++ sent).map (ParsedClosedCandle.message cfg)

/-- What of the batch is in the sinks, by phase. -/
def Fits (s : State) (inserted sent : List ParsedClosedCandle) : Phase → Prop
  | .select => inserted = [] ∧ sent = []
  | .inserting closing =>
      inserted = [] ∧ sent = [] ∧ (closing = true → s.channel = [] ∧ s.senders = false)
  | .sending rest closing =>
      inserted = s.batch ∧ sent ++ rest = s.batch ∧
        (closing = true → s.channel = [] ∧ s.senders = false)
  | .returned => inserted = [] ∧ sent = [] ∧ s.batch = [] ∧ s.channel = []
  | .failed => sent <+: inserted ∧ inserted <+: s.batch
  | .panicked => inserted = [] ∧ sent = []

/-- What holds whenever the loop is between two events. -/
def Inv (cfg : Config) (s : State) : Prop :=
  ∃ left inserted sent, Logs cfg s left inserted sent ∧ Fits s inserted sent s.phase

/-- It holds at first. -/
theorem inv_init (cfg : Config) : Inv cfg (.init cfg) := by
  refine ⟨[], [], [], ⟨rfl, rfl, rfl⟩, ?_⟩
  rw [State.init]
  split <;> exact ⟨rfl, rfl⟩

/-- A turn keeps what the sinks hold of what was accepted. -/
theorem inv_turn (hturn : Turn cfg s e s') (h : Inv cfg s) : Inv cfg s' := by
  obtain ⟨left, inserted, sent, ⟨haccepted, hclickhouse, hkafka⟩, hfits⟩ := h
  cases hturn with
  | accepted item hsenders hrunning =>
      refine ⟨left, inserted, sent, ⟨by simp [haccepted], hclickhouse, hkafka⟩, ?_⟩
      -- The channel is open, so no flush is the last one.
      cases hphase : s.phase with
      | select => simpa [hphase, Fits] using hfits
      | inserting closing => simpa [hphase, Fits, hsenders] using hfits
      | sending rest closing => simpa [hphase, Fits, hsenders] using hfits
      | _ => simp [hphase, Phase.running] at hrunning
  | closed hsenders =>
      refine ⟨left, inserted, sent, ⟨haccepted, hclickhouse, hkafka⟩, ?_⟩
      cases hphase : s.phase <;> simp_all [Fits]
  | pushed hphase hchannel =>
      rw [hphase] at hfits
      obtain ⟨rfl, rfl⟩ := hfits
      refine ⟨left, [], [], ⟨by simp [haccepted, hchannel], hclickhouse, hkafka⟩, ?_⟩
      rw [hphase]
      exact ⟨rfl, rfl⟩
  | full hphase hchannel =>
      rw [hphase] at hfits
      obtain ⟨rfl, rfl⟩ := hfits
      refine ⟨left, [], [], ⟨by simp [haccepted, hchannel], hclickhouse, hkafka⟩, ?_⟩
      exact ⟨rfl, rfl, fun h => nomatch h⟩
  | drained hphase hchannel hbatch =>
      rw [hphase] at hfits
      obtain ⟨rfl, rfl⟩ := hfits
      exact ⟨left, [], [], ⟨haccepted, hclickhouse, hkafka⟩, rfl, rfl, hbatch, hchannel⟩
  | last hphase hchannel hsenders hbatch =>
      rw [hphase] at hfits
      obtain ⟨rfl, rfl⟩ := hfits
      refine ⟨left, [], [], ⟨haccepted, hclickhouse, hkafka⟩, rfl, rfl, ?_⟩
      exact fun _ => ⟨hchannel, hsenders⟩
  | ticked hphase hbatch =>
      rw [hphase] at hfits
      obtain ⟨rfl, rfl⟩ := hfits
      exact ⟨left, [], [], ⟨haccepted, hclickhouse, hkafka⟩, rfl, rfl, fun h => nomatch h⟩
  | inserted hphase =>
      rw [hphase] at hfits
      obtain ⟨rfl, rfl, hclosing⟩ := hfits
      refine ⟨left, s.batch, [], ⟨haccepted, ?_, hkafka⟩, rfl, rfl, hclosing⟩
      simp [hclickhouse]
  | notInserted hphase =>
      rw [hphase] at hfits
      obtain ⟨rfl, rfl, -⟩ := hfits
      exact ⟨left, [], [], ⟨haccepted, hclickhouse, hkafka⟩, List.nil_prefix, List.nil_prefix⟩
  | @sent item rest closing hphase =>
      rw [hphase] at hfits
      obtain ⟨rfl, hrest, hclosing⟩ := hfits
      refine ⟨left, s.batch, sent ++ [item], ⟨haccepted, hclickhouse, ?_⟩, rfl, ?_, hclosing⟩
      · simp [hkafka]
      · simpa using hrest
  | notSent hphase =>
      rw [hphase] at hfits
      obtain ⟨rfl, hrest, -⟩ := hfits
      exact ⟨left, s.batch, sent, ⟨haccepted, hclickhouse, hkafka⟩, ⟨_, hrest⟩, List.prefix_refl _⟩
  | @cleared closing hphase =>
      -- The batch leaves, and all of it is in both sinks.
      rw [hphase] at hfits
      obtain ⟨rfl, hrest, hclosing⟩ := hfits
      rw [List.append_nil] at hrest
      refine ⟨left ++ s.batch, [], [], ⟨by simp [haccepted], by simp [hclickhouse], ?_⟩, ?_⟩
      · simp [hkafka, hrest]
      · cases closing with
        | true => exact ⟨rfl, rfl, rfl, (hclosing rfl).1⟩
        | false => exact ⟨rfl, rfl⟩

/-- It holds after any events. -/
theorem inv_run (cfg : Config) (events : List Event) : Inv cfg (run cfg events).1 := by
  refine Machine.run_induction (P := fun _ _ s => Inv cfg s) (inv_init cfg) ?_ events
  intro pre out s e h
  rcases step_spec cfg s e with heq | ⟨s', heq, hturn⟩
  · rw [heq]
    exact h
  · rw [heq]
    exact inv_turn hturn h

/-! ### The end of the loop -/

/-- A bound on the turns that the loop still takes when nothing more is sent to it. An item of the
channel costs at most five: it is received, may set off a flush, is sent, and its batch is inserted
and cleared. -/
def remaining (s : State) : ℕ :=
  match s.phase with
  | .select =>
      5 * s.channel.length + (if s.batch.isEmpty then 0 else s.batch.length + 3) + 1
  | .inserting _ => 5 * s.channel.length + s.batch.length + 3
  | .sending rest _ => 5 * s.channel.length + rest.length + 2
  | _ => 0

/-- The loop is at work, or has returned. -/
def Phase.sound (phase : Phase) : Prop := phase ≠ .failed ∧ phase ≠ .panicked

/-- Without a failing sink the loop stays sound. -/
theorem sound_turn (hturn : Turn cfg s e s') (he : e.succeeds = true) (h : s.phase.sound) :
    s'.phase.sound := by
  cases hturn with
  | accepted item hsenders hrunning => exact h
  | closed hsenders => exact h
  | pushed hphase hchannel => exact h
  | notInserted hphase => simp [Event.succeeds] at he
  | notSent hphase => simp [Event.succeeds] at he
  | @cleared closing hphase => cases closing <;> simp [Phase.next, Phase.sound]
  | _ => simp [Phase.sound]

/-- A closed channel stays closed. -/
theorem senders_turn (hturn : Turn cfg s e s') (h : s.senders = false) : s'.senders = false := by
  cases hturn with
  | closed hsenders => rfl
  | _ => exact h

/-- The channel is closed, and no sink has failed. -/
structure Closing (s : State) : Prop where
  senders : s.senders = false
  sound : s.phase.sound

/-- A closing sink stays closing while everything succeeds. -/
theorem Closing.turn (h : Closing s) (hturn : Turn cfg s e s') (he : e.succeeds = true) :
    Closing s' :=
  ⟨senders_turn hturn h.senders, sound_turn hturn he h.sound⟩

/-- **A turn of a closing loop** brings it closer to its end, unless a sink fails. -/
theorem remaining_turn (hturn : Turn cfg s e s') (he : e.succeeds = true) (h : Closing s) :
    remaining s' < remaining s := by
  have hclosed := h.senders
  cases hturn with
  | accepted item hsenders hrunning => simp [hclosed] at hsenders
  | closed hsenders => simp [hclosed] at hsenders
  | pushed hphase hchannel =>
      simp only [remaining, hphase, hchannel, List.length_cons, List.length_append,
        List.length_nil, List.isEmpty_iff, List.append_eq_nil_iff, List.cons_ne_nil, and_false,
        if_false]
      split
      · rename_i hbatch
        rw [hbatch, List.length_nil]
        omega
      · omega
  | full hphase hchannel =>
      simp only [remaining, hphase, hchannel, List.length_cons, List.length_append,
        List.length_nil, List.isEmpty_iff]
      split
      · rename_i hbatch
        rw [hbatch, List.length_nil]
        omega
      · omega
  | drained hphase hchannel hbatch =>
      simp only [remaining, hphase]
      omega
  | last hphase hchannel hsenders hbatch =>
      simp only [remaining, hphase, List.isEmpty_iff, hbatch, if_false]
      omega
  | ticked hphase hbatch =>
      simp only [remaining, hphase, List.isEmpty_iff, hbatch, if_false]
      omega
  | inserted hphase =>
      simp only [remaining, hphase]
      omega
  | notInserted hphase => simp [Event.succeeds] at he
  | sent hphase =>
      simp only [remaining, hphase, List.length_cons]
      omega
  | notSent hphase => simp [Event.succeeds] at he
  | @cleared closing hphase =>
      cases closing with
      | true =>
          simp only [remaining, hphase, Phase.next, if_true]
          omega
      | false => simp [remaining, hphase, Phase.next]

/-- A closing loop that can take no turn has returned. -/
theorem returned_of_stuck (h : Closing s)
    (hstuck : ∀ e : Event, e.succeeds = true → (step cfg s e).2 = false) : s.phase = .returned := by
  cases hphase : s.phase with
  | returned => rfl
  | failed => exact absurd hphase h.sound.1
  | panicked => exact absurd hphase h.sound.2
  | select =>
      have hrecv := hstuck .recv rfl
      cases hchannel : s.channel with
      | cons item channel =>
          simp only [step, hphase, hchannel] at hrecv
          split at hrecv <;> cases hrecv
      | nil =>
          simp only [step, hphase, hchannel, h.senders, Bool.false_eq_true, if_false] at hrecv
          split at hrecv <;> cases hrecv
  | inserting closing =>
      have hinsert := hstuck (.clickhouse true) rfl
      simp [step, hphase] at hinsert
  | sending rest closing =>
      cases rest with
      | nil =>
          have hclear := hstuck .clear rfl
          simp [step, hphase] at hclear
      | cons item rest =>
          have hsend := hstuck (.kafka true) rfl
          simp [step, hphase] at hsend

/-- A run of a closing loop in which no sink fails takes boundedly many turns. -/
theorem closing_run (h : Closing s) (post : List Event) (hpost : ∀ e ∈ post, e.succeeds = true) :
    Closing (Machine.run (step cfg) s post).1 ∧
      (Machine.run (step cfg) s post).2.count true + remaining (Machine.run (step cfg) s post).1 ≤
        remaining s := by
  induction post using List.reverseRecOn with
  | nil => exact ⟨h, by simp⟩
  | append_singleton post e ih =>
      obtain ⟨hclosing, hcount⟩ := ih fun a ha => hpost a (List.mem_append_left _ ha)
      have he : e.succeeds = true := hpost e (by simp)
      rw [Machine.run_concat]
      rcases step_spec cfg (Machine.run (step cfg) s post).1 e with heq | ⟨s', heq, hturn⟩
      · rw [heq]
        refine ⟨hclosing, ?_⟩
        simpa using hcount
      · rw [heq]
        have hlt := remaining_turn hturn he hclosing
        refine ⟨hclosing.turn hturn he, ?_⟩
        simp only [List.count_append, List.count_singleton_self]
        omega

/-- The channel is closed. -/
theorem step_close (cfg : Config) (s : State) : (step cfg s .close).1.senders = false := by
  rw [step]
  split
  · rfl
  · rename_i h
    simpa using h

/-- While everything succeeds, no phase is one of failure. -/
theorem sound_run (hinterval : cfg.candleChFlushIntervalMs ≠ 0) (events : List Event) :
    (∀ e ∈ events, e.succeeds = true) → (run cfg events).1.phase.sound := by
  refine Machine.run_induction
    (P := fun (pre : List Event) (_ : List Bool) (s : State) =>
      (∀ e ∈ pre, e.succeeds = true) → s.phase.sound) ?_ ?_ events
  · intro _
    rw [State.init, if_neg hinterval]
    simp [Phase.sound]
  · intro pre out s e ih hpre
    have hs := ih fun a ha => hpre a (List.mem_append_left _ ha)
    rcases step_spec cfg s e with heq | ⟨s', heq, hturn⟩
    · rw [heq]
      exact hs
    · rw [heq]
      exact sound_turn hturn (hpre e (by simp)) hs

/-- A channel that was closed stays closed. -/
theorem senders_run (events : List Event) :
    .close ∈ events → (run cfg events).1.senders = false := by
  refine Machine.run_induction
    (P := fun (pre : List Event) (_ : List Bool) (s : State) =>
      .close ∈ pre → s.senders = false) ?_ ?_ events
  · intro h
    cases h
  · intro pre out s e ih hclose
    rcases List.mem_append.mp hclose with hpre | he
    · have hs := ih hpre
      rcases step_spec cfg s e with heq | ⟨s', heq, hturn⟩
      · rw [heq]
        exact hs
      · rw [heq]
        exact senders_turn hturn hs
    · obtain rfl := List.mem_singleton.mp he
      exact step_close cfg s

/-! ### The law of the sink -/

/-- **What the sinks hold at a point of a run.** -/
structure PrefixLaw (cfg : Config) (s : State) : Prop where
  clickhouse : s.clickhouse <+: s.accepted.map ParsedClosedCandle.row
  kafka : s.kafka <+: s.accepted.map (ParsedClosedCandle.message cfg)
  length_le : s.kafka.length ≤ s.clickhouse.length
  /-- What has left the batch is in both sinks, once; what else they hold is still in the batch. -/
  delivered : ∃ left inserted sent, Logs cfg s left inserted sent ∧ inserted <+: s.batch ∧
    sent <+: inserted
  /-- When the channel was closed and the loop has returned, nothing is left behind. -/
  returned : s.phase = .returned → s.batch = [] ∧ s.channel = [] ∧
    s.clickhouse = s.accepted.map ParsedClosedCandle.row ∧
    s.kafka = s.accepted.map (ParsedClosedCandle.message cfg)

/-- **A closed channel is drained**: in every run that goes on without a failure, the loop takes
boundedly many turns, and when it can take no more, it has returned. -/
def Drains (cfg : Config) (s : State) : Prop :=
  ∀ post : List Event, (∀ e ∈ post, e.succeeds = true) →
    (Machine.run (step cfg) s post).2.count true ≤ remaining s ∧
    ((∀ e : Event, e.succeeds = true →
        (step cfg (Machine.run (step cfg) s post).1 e).2 = false) →
      (Machine.run (step cfg) s post).1.phase = .returned)

/-- In every phase the sinks hold no more than the batch, and Kafka no more than ClickHouse. -/
theorem Fits.prefixes {inserted sent : List ParsedClosedCandle} {phase : Phase}
    (h : Fits s inserted sent phase) : inserted <+: s.batch ∧ sent <+: inserted := by
  cases phase with
  | select =>
      obtain ⟨rfl, rfl⟩ := h
      exact ⟨List.nil_prefix, List.nil_prefix⟩
  | inserting closing =>
      obtain ⟨rfl, rfl, -⟩ := h
      exact ⟨List.nil_prefix, List.nil_prefix⟩
  | sending rest closing =>
      obtain ⟨rfl, hrest, -⟩ := h
      exact ⟨List.prefix_refl _, ⟨rest, hrest⟩⟩
  | returned =>
      obtain ⟨rfl, rfl, -⟩ := h
      exact ⟨List.nil_prefix, List.nil_prefix⟩
  | failed => exact h.symm
  | panicked =>
      obtain ⟨rfl, rfl⟩ := h
      exact ⟨List.nil_prefix, List.nil_prefix⟩

/-- What was written is a prefix of what was accepted. -/
theorem Inv.prefixLaw (h : Inv cfg s) : PrefixLaw cfg s := by
  obtain ⟨left, inserted, sent, hlogs, hfits⟩ := h
  obtain ⟨hinserted, hsent⟩ := hfits.prefixes
  have hprefix : left ++ inserted <+: s.accepted := by
    rw [hlogs.accepted, List.append_assoc]
    exact (List.prefix_append_right_inj left).mpr
      (hinserted.trans (List.prefix_append s.batch s.channel))
  have hprefix' : left ++ sent <+: left ++ inserted :=
    (List.prefix_append_right_inj left).mpr hsent
  refine ⟨?_, ?_, ?_, ⟨left, inserted, sent, hlogs, hinserted, hsent⟩, ?_⟩
  · rw [hlogs.clickhouse]
    exact hprefix.map _
  · rw [hlogs.kafka]
    exact (hprefix'.trans hprefix).map _
  · rw [hlogs.kafka, hlogs.clickhouse, List.length_map, List.length_map]
    exact hprefix'.length_le
  · intro hphase
    rw [hphase] at hfits
    obtain ⟨rfl, rfl, hbatch, hchannel⟩ := hfits
    have haccepted : s.accepted = left := by
      rw [hlogs.accepted, hbatch, hchannel, List.append_nil, List.append_nil]
    refine ⟨hbatch, hchannel, ?_, ?_⟩
    · rw [hlogs.clickhouse, haccepted, List.append_nil]
    · rw [hlogs.kafka, haccepted, List.append_nil]

/-- **The law of the candle sink.** At every point of every run, both sinks hold prefixes of what
was accepted, Kafka no more than ClickHouse, and what has left the batch is in both; and after the
channel is closed the loop writes all that is left and returns, unless a sink fails. -/
theorem sinkLoop_law (cfg : Config) (events : List Event) :
    PrefixLaw cfg (run cfg events).1 ∧
      (cfg.candleChFlushIntervalMs ≠ 0 → .close ∈ events → (∀ e ∈ events, e.succeeds = true) →
        Drains cfg (run cfg events).1) := by
  refine ⟨(inv_run cfg events).prefixLaw, ?_⟩
  intro hinterval hclose hevents post hpost
  obtain ⟨hclosing, hcount⟩ :=
    closing_run ⟨senders_run events hclose, sound_run hinterval events hevents⟩ post hpost
  exact ⟨by omega, returned_of_stuck hclosing⟩

/-- A candle for an example. -/
def sampleCandle : ParsedClosedCandle where
  row := ⟨"BTCUSDT", "1m", 0, .fin 1, .fin 1, .fin 1, .fin 1, .fin 1, 59999, .fin 1, 1, .fin 1,
    .fin 1, "binance", "futures", 60000⟩
  kafkaKey := "BTCUSDT:1m:0"
  kafkaPayload := []

/-- One candle is accepted, the channel is closed, and the loop takes the turns that are left. -/
example : (run ⟨2, 200, 10, "candles"⟩ [.accept sampleCandle, .close, .recv, .recv,
    .clickhouse true, .kafka true, .clear]).1.phase = .returned := by decide

end HftPlatform.CandleSink
