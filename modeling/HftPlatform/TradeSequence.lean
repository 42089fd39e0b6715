import HftPlatform.Ingestor
import HftPlatform.Lib.Block

/-!
# The sequence numbers of trades

The documentation gives every message a sequence number of its symbol, by which gaps are found. The
service takes the number of a trade from a counter that all workers share, and advances it for
every frame: of any symbol, of any stream, and also for one that does not parse.

A frame is named by the worker that handles it, and by how many frames that worker took before.

## Main definitions

* `Log`: the frames in the order in which they took their numbers, and those whose trade of a
  symbol was published.
* `tradeSeqs`: the sequence numbers of the published trades of a symbol.

## Main results

* `Numbered.step`: what a step keeps of the numbers.
* `tradeSeqs_consecutive_iff`: the numbers of a symbol are consecutive exactly when its published
  trades are a block of the frames.
-/

namespace HftPlatform.MarketdataIngestor.Tasks

open Lib

/-! ### The frames -/

/-- The trade of the symbol that a record holds. -/
def tradeOf (symbol : String) (record : Record) : Option RawTradeTick :=
  match record.payload with
  | .trade tick => if tick.symbol = symbol then some tick else none
  | _ => none

/-- The frames that were taken and the trades that were published, each with its worker and
number. -/
structure Log where
  taken : List (ℕ × ℕ)
  published : List (ℕ × ℕ)

namespace Log

variable (log : Log) (symbol : String)

/-- How many frames a worker took. -/
def count (w : ℕ) : ℕ := log.taken.countP fun frame => frame.1 = w

/-- The last frame of a worker. -/
def current (w : ℕ) : ℕ × ℕ := (w, log.count w - 1)

/-- An event is noted. -/
def add : Event → Log
  | .took w => { log with taken := log.taken ++ [(w, log.count w)] }
  | .sent w record =>
      match tradeOf symbol record with
      | some _ => { log with published := log.published ++ [log.current w] }
      | none => log
  | _ => log

end Log

/-- What the events of a run tell about the frames. -/
def logOf (symbol : String) (events : List Event) : Log :=
  events.foldl (fun log => log.add symbol) ⟨[], []⟩

/-- The sequence numbers of the published trades of a symbol, in the order of publication. -/
def tradeSeqs (symbol : String) (sent : List Record) : List ℕ :=
  (sent.filterMap (tradeOf symbol)).map RawTradeTick.seq

/-- Every number follows the one before it. -/
def Consecutive (seqs : List ℕ) : Prop := seqs.IsChain fun a b => b = a + 1

/-! ### The numbers on their way -/

/-- The number that a worker holds for its frame. -/
def Pc.seq : Pc → Option ℕ
  | .numbering _ _ nextTradeSeq => some nextTradeSeq
  | .normalizing _ _ nextTradeSeq _ => some nextTradeSeq
  | .entering event _ | .entered event _ | .stored event _ | .counted event _
  | .publishing event _ =>
      match event with
      | .trade tick => some tick.seq
      | _ => none
  | .idle => none
  | .panicked => none

/-- A frame has the number of its place, modulo the size of the counter. -/
def Placed (taken : List (ℕ × ℕ)) (seq : ℕ) (frame : ℕ × ℕ) : Prop :=
  ∃ i, taken[i]? = some frame ∧ seq = (i + 1) % 2 ^ 64

/-- The counter has counted the frames, and the numbers are those of their places. -/
structure Numbers (symbol : String) (log : Log) (tradeSeq : ℕ) (workers : ℕ → Pc)
    (sent : List Record) : Prop where
  counter : tradeSeq = log.taken.length % 2 ^ 64
  own : ∀ frame ∈ log.taken, frame.2 < log.count frame.1
  nodup : log.taken.Nodup
  working : ∀ w seq, (workers w).seq = some seq → Placed log.taken seq (log.current w)
  published : List.Forall₂ (Placed log.taken) (tradeSeqs symbol sent) log.published

/-- What was decoded is made of some payload. -/
theorem eq_of_decoded {δ : Type} {data : Option δ} {event : δ → NormalizedEvent}
    {e : NormalizedEvent} (h : decoded data event = .ok (some e)) : ∃ d, event d = e := by
  cases data with
  | none => cases h
  | some d =>
      rw [decoded] at h
      injection h with h
      exact ⟨d, Option.some.inj h⟩

/-- A trade has the number that its frame took. -/
theorem normalize_seq {ps : Parsers} {text newTraceId : String} {recvTimeNs : ℤ}
    {nextTradeSeq nextBookSeq : ℕ} {tick : RawTradeTick}
    (h : normalize ps text recvTimeNs nextTradeSeq nextBookSeq newTraceId =
      .ok (some (.trade tick))) : tick.seq = nextTradeSeq := by
  rw [normalize] at h
  split at h
  · injection h with h
    cases h
  · split_ifs at h
    · obtain ⟨data, hdata⟩ := eq_of_decoded h
      injection hdata with hdata
      rw [← hdata]
    · obtain ⟨data, hdata⟩ := eq_of_decoded h
      cases hdata
    · split at h
      · cases h
      · split at h
        · injection h with h
          cases Option.some.inj h
        · cases h
    iterate 3
      · obtain ⟨data, hdata⟩ := eq_of_decoded h
        cases hdata
    · injection h with h
      cases h

/-! ### Steps -/

section Steps

variable {symbol : String} {log : Log} {n : ℕ} {workers : ℕ → Pc} {sent : List Record} {w : ℕ}

/-- A frame keeps its place when others follow. -/
theorem placed_append {taken : List (ℕ × ℕ)} {seq : ℕ} {frame new : ℕ × ℕ}
    (h : Placed taken seq frame) : Placed (taken ++ [new]) seq frame := by
  obtain ⟨i, hi, hseq⟩ := h
  obtain ⟨hlt, -⟩ := List.getElem?_eq_some_iff.mp hi
  exact ⟨i, (List.getElem?_append_left hlt).trans hi, hseq⟩

/-- A worker that takes no frame moves on, with the number it has or without. -/
theorem Numbers.goto {pc : Pc} (h : Numbers symbol log n workers sent)
    (hsame : ∀ seq, pc.seq = some seq → (workers w).seq = some seq) :
    Numbers symbol log n (Function.update workers w pc) sent where
  counter := h.counter
  own := h.own
  nodup := h.nodup
  published := h.published
  working w' seq hseq := by
    rcases eq_or_ne w' w with rfl | hne
    · rw [Function.update_self] at hseq
      exact h.working w' seq (hsame seq hseq)
    · rw [Function.update_of_ne hne] at hseq
      exact h.working w' seq hseq

/-- A worker goes on with its number. -/
theorem Numbers.move {pc pc' : Pc} (h : Numbers symbol log n workers sent)
    (hpc : workers w = pc) (hsame : pc'.seq = pc.seq) :
    Numbers symbol log n (Function.update workers w pc') sent :=
  h.goto fun _ hseq => hpc ▸ hsame ▸ hseq

/-- A worker is done with its number. -/
theorem Numbers.drop {pc : Pc} (h : Numbers symbol log n workers sent) (hnone : pc.seq = none) :
    Numbers symbol log n (Function.update workers w pc) sent := by
  refine h.goto fun seq hseq => ?_
  rw [hnone] at hseq
  cases hseq

/-- A frame that is taken counts for its worker. -/
theorem count_took (w' : ℕ) : (log.add symbol (.took w)).count w' =
    log.count w' + if w = w' then 1 else 0 := by
  simp [Log.add, Log.count]

/-- A worker takes a frame. -/
theorem Numbers.take {text : String} {call : Call} (h : Numbers symbol log n workers sent) :
    Numbers symbol (log.add symbol (.took w)) ((n + 1) % 2 ^ 64)
      (Function.update workers w (.numbering text call ((n + 1) % 2 ^ 64))) sent where
  counter := by
    have hlength : (log.add symbol (.took w)).taken.length = log.taken.length + 1 :=
      List.length_append
    rw [hlength, h.counter, Nat.mod_add_mod]
  own frame hframe := by
    rw [count_took]
    rcases List.mem_append.mp hframe with hold | hnew
    · exact Nat.lt_add_right _ (h.own frame hold)
    · obtain rfl := List.mem_singleton.mp hnew
      simp
  nodup := by
    refine List.nodup_append.mpr ⟨h.nodup, List.nodup_singleton _, ?_⟩
    rintro frame hframe _ hnew rfl
    obtain rfl := List.mem_singleton.mp hnew
    exact (h.own _ hframe).false
  working w' seq hseq := by
    rcases eq_or_ne w' w with rfl | hne
    · rw [Function.update_self] at hseq
      obtain rfl := Option.some.inj hseq
      refine ⟨log.taken.length, ?_, ?_⟩
      · rw [Log.current, count_took, if_pos rfl, Nat.add_sub_cancel]
        exact List.getElem?_concat_length
      · rw [h.counter, Nat.mod_add_mod]
    · rw [Function.update_of_ne hne] at hseq
      have hcurrent : (log.add symbol (.took w)).current w' = log.current w' := by
        rw [Log.current, Log.current, count_took, if_neg hne.symm, Nat.add_zero]
      rw [hcurrent]
      exact placed_append (h.working w' seq hseq)
  published := h.published.imp fun _ _ => placed_append

/-- The record of a trade is made of that trade. -/
theorem eq_of_tradeOf {cfg : Config} {event : NormalizedEvent} {tick : RawTradeTick}
    (h : tradeOf symbol (event.record cfg) = some tick) : event = .trade tick := by
  cases event with
  | trade t =>
      rw [tradeOf, NormalizedEvent.record] at h
      dsimp only at h
      split at h
      · rw [Option.some.inj h]
      · cases h
  | _ => cases h

/-- A worker publishes its event. -/
theorem Numbers.send {cfg : Config} {event : NormalizedEvent} {call : Call}
    (h : Numbers symbol log n workers sent) (hpc : workers w = .publishing event call) :
    Numbers symbol (log.add symbol (.sent w (event.record cfg))) n
      (Function.update workers w .idle) (sent ++ [event.record cfg]) := by
  have hidle : Numbers symbol log n (Function.update workers w .idle) sent := h.drop rfl
  cases htrade : tradeOf symbol (event.record cfg) with
  | none =>
      have hlog : log.add symbol (.sent w (event.record cfg)) = log := by
        rw [Log.add, htrade]
      have hseqs : tradeSeqs symbol (sent ++ [event.record cfg]) = tradeSeqs symbol sent := by
        simp [tradeSeqs, htrade]
      rw [hlog]
      exact { hidle with published := hseqs ▸ hidle.published }
  | some tick =>
      have hlog : log.add symbol (.sent w (event.record cfg)) =
          { log with published := log.published ++ [log.current w] } := by
        rw [Log.add, htrade]
      have hseqs : tradeSeqs symbol (sent ++ [event.record cfg]) =
          tradeSeqs symbol sent ++ [tick.seq] := by
        simp [tradeSeqs, htrade]
      have hplaced : Placed log.taken tick.seq (log.current w) := by
        refine h.working w tick.seq ?_
        rw [hpc, eq_of_tradeOf htrade]
        rfl
      rw [hlog]
      refine { hidle with published := ?_ }
      rw [hseqs]
      exact List.rel_append hidle.published (.cons hplaced .nil)

/-- The numbers of a state. -/
def Numbered (symbol : String) (log : Log) (s : State) : Prop :=
  Numbers symbol log s.tradeSeq s.workers s.sent

variable {ps : Parsers} {cfg : Config} {rt : Rounding} {s : State}

/-- A worker that goes on keeps the numbers. -/
theorem Numbered.advance (h : Numbered symbol log s) :
    Numbered symbol ((advance ps cfg s w).2.toList.foldl (fun log => log.add symbol) log)
      (advance ps cfg s w).1 := by
  rw [Tasks.advance]
  split
  · exact h
  · exact h
  all_goals rename_i hpc
  · exact Numbers.move h hpc rfl
  · split
    · exact Numbers.drop h rfl
    · exact Numbers.drop h rfl
    · exact Numbers.drop h rfl
    · rename_i event hevent
      refine Numbers.goto h fun seq hseq => ?_
      cases event with
      | trade tick =>
          rw [hpc, ← hseq]
          exact congrArg some (normalize_seq hevent).symm
      | _ => cases hseq
  · split
    · exact h
    · exact Numbers.move h hpc rfl
  · exact Numbers.move h hpc rfl
  · exact Numbers.move h hpc rfl
  · exact Numbers.move h hpc rfl
  · split
    · exact Numbers.send h hpc
    · exact Numbers.drop h rfl

/-- The flush keeps the numbers. -/
theorem Numbered.flush (h : Numbered symbol log s) :
    Numbered symbol ((flush rt s).2.toList.foldl (fun log => log.add symbol) log)
      (flush rt s).1 := by
  rw [Tasks.flush]
  split <;> exact h

/-- **What a step keeps of the numbers.** -/
theorem Numbered.step (h : Numbered symbol log s) (a : Action) :
    Numbered symbol ((step ps cfg rt s a).2.toList.foldl (fun log => log.add symbol) log)
      (step ps cfg rt s a).1 := by
  cases a with
  | advance w => exact h.advance
  | flush => exact h.flush
  | visit symbol' =>
      rw [Tasks.step]
      split <;> exact h
  | receive w text call =>
      rw [Tasks.step]
      split
      · exact Numbers.take h
      · exact h

end Steps

section Run

variable (ps : Parsers) (cfg : Config) (rt : Rounding) (symbol : String) (actions : List Action)

/-- After any actions the numbers are those of the frames. -/
theorem numbered_run : Numbered symbol (logOf symbol (trace ps cfg rt actions))
    (Machine.run (step ps cfg rt) State.init actions).1 := by
  induction actions using List.reverseRecOn with
  | nil =>
      exact ⟨rfl, nofun, List.nodup_nil, nofun, .nil⟩
  | append_singleton actions a ih =>
      rw [Machine.run_concat, trace_concat, logOf, List.foldl_append]
      exact ih.step a

/-- **The numbers of a symbol are consecutive exactly when its published trades are a block of the
frames**: in the order of publication, they took their numbers one right after the other, and no
frame in between. -/
theorem tradeSeqs_consecutive_iff
    (hcount : (logOf symbol (trace ps cfg rt actions)).taken.length < 2 ^ 64) :
    Consecutive (tradeSeqs symbol (Machine.run (step ps cfg rt) State.init actions).1.sent) ↔
      (logOf symbol (trace ps cfg rt actions)).published <:+:
        (logOf symbol (trace ps cfg rt actions)).taken := by
  have hnumbers := numbered_run ps cfg rt symbol actions
  refine isChain_iff_infix (k := 1) hnumbers.nodup (hnumbers.published.imp ?_)
  rintro seq frame ⟨i, hi, rfl⟩
  obtain ⟨hlt, -⟩ := List.getElem?_eq_some_iff.mp hi
  exact ⟨i, hi, Nat.mod_eq_of_lt (by omega)⟩

end Run

/-- The reply to a subscription, which is no event. -/
def subscribed : String := "\x7b\"result\":null,\"id\":1\x7d"

/-- The published numbers of a run of frames that one worker handles. -/
def handledSeqs (frames : List String) : List ℕ :=
  tradeSeqs "BTCUSDT" (Machine.run (step (tradeParsers [995, 996]) (.single "md")
    Rounding.nearestEven) State.init (frames.flatMap (handling 0))).1.sent

/-- Two trades with nothing in between have consecutive numbers. -/
theorem tradeSeqs_consecutive_two :
    handledSeqs [tradeFrameAt 995, tradeFrameAt 996] = [1, 2] ∧
      (Consecutive (handledSeqs [tradeFrameAt 995, tradeFrameAt 996]) ↔
        (logOf "BTCUSDT" (trace (tradeParsers [995, 996]) (.single "md") Rounding.nearestEven
          ([tradeFrameAt 995, tradeFrameAt 996].flatMap (handling 0)))).published <:+:
        (logOf "BTCUSDT" (trace (tradeParsers [995, 996]) (.single "md") Rounding.nearestEven
          ([tradeFrameAt 995, tradeFrameAt 996].flatMap (handling 0)))).taken) :=
  ⟨by decide +kernel, tradeSeqs_consecutive_iff _ _ _ _ _ (by decide +kernel)⟩

/-- A frame that is no trade takes a number as well: all trades are published, and the numbers have
a gap. -/
theorem tradeSeqs_gap : handledSeqs [tradeFrameAt 995, subscribed, tradeFrameAt 996] = [1, 3] ∧
    ¬ Consecutive (handledSeqs [tradeFrameAt 995, subscribed, tradeFrameAt 996]) := by
  have hseqs : handledSeqs [tradeFrameAt 995, subscribed, tradeFrameAt 996] = [1, 3] := by
    decide +kernel
  refine ⟨hseqs, ?_⟩
  rw [hseqs, Consecutive]
  decide

end HftPlatform.MarketdataIngestor.Tasks
