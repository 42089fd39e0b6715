import HftPlatform.Ingestor
import HftPlatform.Lib.NearestEven
import HftPlatform.Lib.Trace
import Mathlib.Algebra.BigOperators.Ring.List

/-!
# The latency that the market data service reports

Every flush divides the sum of the latencies by the number of the messages that were counted since
the last one. A latency is a difference of two times as an `i64`, which `saturating_sub` keeps in
the range of an `i64` and not above zero, and is added as a `u64`: a message that is ahead of the
clock by a millisecond adds `2 ^ 64 - 1`.

## Main definitions

* `window`: the messages of a symbol counted since its last flush.
* `Averages`: a flush reports a latency between the least and the greatest of its window.
* `punctual`: a message that is counted is not ahead of the clock, and a double holds the sum.

## Main results

* `Tallied.advance`, `Tallied.flush`: what the steps keep of the accumulators of a symbol.
* `latency_averages`: in a run whose messages are punctual, every flush averages its window.
-/

namespace HftPlatform.MarketdataIngestor.Tasks

open Lib

/-- `max(0, receive time in ms - exchange time)`, of a message and its call. -/
def latency (m : NormalizedEvent × Call) : ℕ :=
  (m.2.recvTimeNs.tdiv 1000000 - m.1.exchangeEventTimeMs).toNat

/-- A flush of the symbol empties its window. -/
def sinceFlush (symbol : String) (messages : List (NormalizedEvent × Call)) :
    Event → List (NormalizedEvent × Call)
  | .counted event call =>
      if event.symbol = symbol then messages ++ [(event, call)] else messages
  | .flushed symbol' _ _ _ _ => if symbol' = symbol then [] else messages
  | _ => messages

/-- The messages of a symbol counted since its last flush. -/
def window (symbol : String) (events : List Event) : List (NormalizedEvent × Call) :=
  events.foldl (sinceFlush symbol) []

/-- A flush of the symbol after some messages reports a latency between the least and the greatest
of theirs. -/
def Averages (symbol : String) (past : List Event) : Event → Prop
  | .flushed symbol' _ _ _ latencyMs =>
      symbol' = symbol → window symbol past ≠ [] → ∃ q, latencyMs = .fin q ∧
        (∃ least ∈ window symbol past, (latency least : ℚ) ≤ q) ∧
        ∃ greatest ∈ window symbol past, q ≤ latency greatest
  | _ => True

/-- A message of the symbol that is about to be counted is not ahead of the clock, and the number
and the sum stay among those that a double holds. -/
def punctual (symbol : String) (s : State) : Action → Bool
  | .advance w =>
      match s.workers w with
      | .stored event call => event.symbol = symbol →
          event.exchangeEventTimeMs ≤ call.recvTimeNs.tdiv 1000000 ∧
          (s.entry symbol).msgCount < 2 ^ 53 ∧
          (s.entry symbol).latencySumMs + latency (event, call) ≤ 2 ^ 53
      | _ => true
  | _ => true

/-! ### One message -/

/-- The latency of a punctual message is added as it is. -/
theorem latencyMs_eq {event : NormalizedEvent} {call : Call}
    (hpast : event.exchangeEventTimeMs ≤ call.recvTimeNs.tdiv 1000000)
    (hsmall : latency (event, call) ≤ 2 ^ 53) : latencyMs event call = latency (event, call) := by
  rw [latency] at hsmall ⊢
  rw [latencyMs, saturate, Wire.toWord]
  dsimp only at hsmall ⊢
  omega

/-- **A mean lies between the least and the greatest**, also when it is rounded. -/
theorem mean_between {messages : List (NormalizedEvent × Call)} (hne : messages ≠ [])
    (hlength : messages.length ≤ 2 ^ 53) (hsum : (messages.map latency).sum ≤ 2 ^ 53) :
    ∃ q, Rounding.nearestEven.div (Rounding.nearestEven.lit (messages.map latency).sum)
        (Rounding.nearestEven.lit messages.length) = .fin q ∧
      (∃ least ∈ messages, (latency least : ℚ) ≤ q) ∧
      ∃ greatest ∈ messages, q ≤ latency greatest := by
  have htotal : (messages.map fun m => latency m * messages.length).sum =
      (messages.map fun _ => (messages.map latency).sum).sum := by
    rw [List.sum_map_mul_right, List.map_const', List.sum_replicate, nsmul_eq_mul, Nat.cast_id,
      Nat.mul_comm]
  obtain ⟨least, hleast, hle⟩ := List.exists_le_of_sum_le hne _ _ htotal.le
  obtain ⟨greatest, hgreatest, hge⟩ := List.exists_le_of_sum_le hne _ _ htotal.ge
  have hbound : latency greatest ≤ (messages.map latency).sum :=
    List.single_le_sum (fun _ _ => Nat.zero_le _) _ (List.mem_map_of_mem hgreatest)
  obtain ⟨q, hq, hlower, hupper⟩ := Rounding.div_between (List.length_pos_of_ne_nil hne) hle hge
    hsum hlength (hbound.trans hsum)
  exact ⟨q, hq, ⟨least, hleast, hlower⟩, greatest, hgreatest, hupper⟩

/-! ### The accumulators of a symbol -/

/-- What a worker has counted and not yet added. -/
def Pc.pending : Pc → ℕ
  | .counted event call => latencyMs event call
  | _ => 0

namespace State

/-- What the holder of an entry has counted and not yet added. -/
def pending (s : State) (symbol : String) : ℕ :=
  match s.holder symbol with
  | some (.worker w) => (s.workers w).pending
  | _ => 0

/-- What the flush has taken from the count of an entry and not yet reported. -/
def taken (s : State) (symbol : String) : Option ℕ :=
  match s.flush with
  | .counted symbol' _ count => if symbol' = symbol then some count else none
  | _ => none

variable {s : State} {w : ℕ} {symbol symbol' : String} {stats : HeartbeatStats} {pc : Pc}

/-- A worker that goes on leaves the entries alone. -/
@[simp] theorem entry_goto : (s.goto w pc).entry symbol = s.entry symbol := rfl

/-- So does taking a guard. -/
@[simp] theorem entry_hold {agent : Agent} : (s.hold symbol' agent).entry symbol = s.entry symbol :=
  rfl

/-- So does giving it back. -/
@[simp] theorem entry_release : (s.release symbol').entry symbol = s.entry symbol := rfl

/-- The entry that was set. -/
@[simp] theorem entry_setEntry : (s.setEntry symbol stats).entry symbol = stats := by
  simp [entry, setEntry]

/-- The other entries stay. -/
theorem entry_setEntry_of_ne (hne : symbol' ≠ symbol) :
    (s.setEntry symbol' stats).entry symbol = s.entry symbol := by
  simp [entry, setEntry, Function.update_of_ne hne.symm]

/-- A worker that holds the guard may owe something. -/
theorem pending_of_holder (h : s.holder symbol = some (.worker w)) :
    s.pending symbol = (s.workers w).pending := by
  rw [pending, h]

/-- An entry that nobody holds is owed nothing. -/
theorem pending_of_free (h : s.holder symbol = none) : s.pending symbol = 0 := by
  rw [pending, h]

/-- The flush owes nothing. -/
theorem pending_of_flush (h : s.holder symbol = some .flush) : s.pending symbol = 0 := by
  rw [pending, h]

/-- What is owed depends on the holder and the workers only. -/
theorem pending_congr {s' : State} (hholder : s'.holder symbol = s.holder symbol)
    (hworkers : s'.workers = s.workers) : s'.pending symbol = s.pending symbol := by
  rw [pending, pending, hholder, hworkers]

/-- A worker that does not hold the entry, or that owes as much as before, may move on. -/
theorem pending_goto
    (h : s.holder symbol = some (.worker w) → pc.pending = (s.workers w).pending) :
    (s.goto w pc).pending symbol = s.pending symbol := by
  have hholder : (s.goto w pc).holder symbol = s.holder symbol := rfl
  rw [pending, pending, hholder]
  split
  · rename_i i hi
    rcases eq_or_ne i w with rfl | hne
    · rw [workers_goto, h hi]
    · exact congrArg Pc.pending (Function.update_of_ne hne _ _)
  · rfl

end State

/-- The accumulators of a symbol hold the number and the sum of the messages in its window, but for
what their holder owes. -/
structure Tallied (symbol : String) (messages : List (NormalizedEvent × Call)) (s : State) :
    Prop where
  count : s.taken symbol = none → (s.entry symbol).msgCount = messages.length
  taken : ∀ n, s.taken symbol = some n → (s.entry symbol).msgCount = 0 ∧ n = messages.length
  sum : (s.entry symbol).latencySumMs + s.pending symbol = (messages.map latency).sum
  length_le : messages.length ≤ 2 ^ 53
  sum_le : (messages.map latency).sum ≤ 2 ^ 53

/-- A step that does not touch the accumulators of a symbol. -/
structure Quiet (symbol : String) (s s' : State) : Prop where
  msgCount : (s'.entry symbol).msgCount = (s.entry symbol).msgCount
  latencySumMs : (s'.entry symbol).latencySumMs = (s.entry symbol).latencySumMs
  taken : s'.taken symbol = s.taken symbol
  pending : s'.pending symbol = s.pending symbol

section Steps

variable {ps : Parsers} {cfg : Config} {symbol : String} {s s' : State} {w : ℕ}
  {messages : List (NormalizedEvent × Call)} {event : NormalizedEvent} {call : Call}

/-- A step that does not concern a symbol leaves its tally. -/
theorem Tallied.quiet (h : Tallied symbol messages s) (hquiet : Quiet symbol s s') :
    Tallied symbol messages s' where
  count := by
    rw [hquiet.taken, hquiet.msgCount]
    exact h.count
  taken := by
    rw [hquiet.taken, hquiet.msgCount]
    exact h.taken
  sum := by
    rw [hquiet.latencySumMs, hquiet.pending]
    exact h.sum
  length_le := h.length_le
  sum_le := h.sum_le

/-- While a worker has a guard on the entry, the flush has not taken its count. -/
theorem taken_eq_none (hg : Guarded s) (hpc : (s.workers w).guard = some symbol) :
    s.taken symbol = none := by
  have hflush : s.guard .flush ≠ some symbol := fun hflush =>
    absurd (Guards.exclusive hg hflush (show s.guard (.worker w) = some symbol from hpc)) nofun
  rw [State.taken]
  split
  · rename_i symbol' _ _ heq
    rw [State.guard, heq] at hflush
    exact if_neg fun hsymbol => hflush (congrArg some hsymbol)
  · rfl

/-- A worker that does not touch the map moves on. -/
theorem Quiet.goto {worker : Worker} {pc : Pc} (hstats : worker.stats = s.stats)
    (hsame : pc.pending = (s.workers w).pending) :
    Quiet symbol s (State.goto { s with toWorker := worker } w pc) where
  msgCount := by rw [State.entry_goto, State.entry, hstats, State.entry]
  latencySumMs := by rw [State.entry_goto, State.entry, hstats, State.entry]
  taken := rfl
  pending := State.pending_goto fun _ => hsame

/-- The entry of another symbol may be set, and its guard taken or given back. -/
theorem Quiet.setEntry {symbol' : String} {stats : HeartbeatStats} {pc : Pc}
    {holder : String → Option Agent} (hg : Guarded s) (hne : symbol' ≠ symbol)
    (hguard : (s.workers w).guard ≠ some symbol) (hholder : holder symbol = s.holder symbol) :
    Quiet symbol s ({ s.setEntry symbol' stats with holder }.goto w pc) where
  msgCount := congrArg HeartbeatStats.msgCount (State.entry_setEntry_of_ne hne)
  latencySumMs := congrArg HeartbeatStats.latencySumMs (State.entry_setEntry_of_ne hne)
  taken := rfl
  pending := by
    refine (State.pending_goto fun hw => ?_).trans (State.pending_congr hholder rfl)
    exact absurd ((hg symbol (.worker w)).mp (hholder.symm.trans hw)) hguard

/-- A worker that holds no entry takes a free one. -/
theorem Quiet.enter (hg : Guarded s) (hpc : s.workers w = .entering event call)
    (hfree : s.holder event.symbol = none) :
    Quiet symbol s (((s.setEntry event.symbol (s.entry event.symbol)).hold event.symbol
      (.worker w)).goto w (.entered event call)) := by
  rcases eq_or_ne event.symbol symbol with rfl | hne
  · refine ⟨by simp, by simp, rfl, ?_⟩
    rw [State.pending_of_free hfree]
    refine (State.pending_of_holder (w := w) (Function.update_self ..)).trans ?_
    rw [workers_goto]
    rfl
  · refine Quiet.setEntry hg hne ?_ (Function.update_of_ne hne.symm _ _)
    rw [hpc]
    nofun

/-- The time of the last message is no accumulator. -/
theorem Quiet.store {lastMsgTs : ℕ} (hg : Guarded s) (hpc : s.workers w = .entered event call) :
    Quiet symbol s ((s.setEntry event.symbol { s.entry event.symbol with lastMsgTs }).goto w
      (.stored event call)) := by
  rcases eq_or_ne event.symbol symbol with rfl | hne
  · refine ⟨by simp, by simp, rfl, ?_⟩
    refine (State.pending_goto fun _ => ?_).trans (State.pending_congr rfl rfl)
    exact (congrArg Pc.pending hpc).symm
  · refine Quiet.setEntry hg hne ?_ rfl
    rw [hpc]
    exact fun heq => hne (Option.some.inj heq)

/-- The flush visits the entry of another symbol. -/
theorem Quiet.flushOther {symbol' : String} {stats : HeartbeatStats} {pc : FlushPc}
    {holder : String → Option Agent} (hne : symbol' ≠ symbol)
    (hholder : holder symbol = s.holder symbol)
    (htaken : State.taken { s with flush := pc } symbol = s.taken symbol) :
    Quiet symbol s { s.setEntry symbol' stats with holder, flush := pc } where
  msgCount := congrArg HeartbeatStats.msgCount (State.entry_setEntry_of_ne hne)
  latencySumMs := congrArg HeartbeatStats.latencySumMs (State.entry_setEntry_of_ne hne)
  taken := htaken
  pending := State.pending_congr hholder rfl

/-- A message is counted. -/
theorem Tallied.record (h : Tallied symbol messages s) (hg : Guarded s)
    (hpc : s.workers w = .stored event call)
    (hpunctual : punctual symbol s (.advance w) = true) :
    Tallied symbol (sinceFlush symbol messages (.counted event call))
      ((s.setEntry event.symbol { s.entry event.symbol with
        msgCount := ((s.entry event.symbol).msgCount + 1) % 2 ^ 64 }).goto w
          (.counted event call)) := by
  rw [sinceFlush]
  split
  · rename_i hsymbol
    subst hsymbol
    rw [punctual, hpc] at hpunctual
    obtain ⟨hpast, hcount, hsmall⟩ := of_decide_eq_true hpunctual rfl
    have hholder : s.holder event.symbol = some (.worker w) :=
      (hg _ (.worker w)).mpr (congrArg Pc.guard hpc)
    have htaken : s.taken event.symbol = none := taken_eq_none hg (congrArg Pc.guard hpc)
    have hpending : s.pending event.symbol = 0 :=
      (State.pending_of_holder hholder).trans (congrArg Pc.pending hpc)
    have hlatency := latencyMs_eq hpast (by omega)
    have hlength := h.count htaken
    have hsum := h.sum
    rw [hpending, Nat.add_zero] at hsum
    have hlength' : (messages ++ [(event, call)]).length = messages.length + 1 :=
      List.length_append
    have hsum' : ((messages ++ [(event, call)]).map latency).sum =
        (messages.map latency).sum + latency (event, call) := by
      simp
    constructor
    · intro _
      rw [State.entry_goto, State.entry_setEntry, hlength']
      dsimp only
      omega
    · intro n hn
      exact absurd (htaken.symm.trans hn) nofun
    · rw [State.entry_goto, State.entry_setEntry, hsum', ← hsum, ← hlatency]
      refine congrArg _ (Eq.trans (State.pending_of_holder (w := w) hholder) ?_)
      rw [workers_goto]
      rfl
    · omega
    · omega
  · rename_i hne
    refine h.quiet (Quiet.setEntry hg hne ?_ rfl)
    rw [hpc]
    exact fun heq => hne (Option.some.inj heq)

/-- Its latency is added, and the guard given back. -/
theorem Tallied.add (h : Tallied symbol messages s) (hg : Guarded s)
    (hpc : s.workers w = .counted event call) :
    Tallied symbol messages
      (((s.setEntry event.symbol { s.entry event.symbol with
        latencySumMs := ((s.entry event.symbol).latencySumMs + latencyMs event call) % 2 ^ 64 }
        ).release event.symbol).goto w (.publishing event call)) := by
  rcases eq_or_ne event.symbol symbol with rfl | hne
  · have hholder : s.holder event.symbol = some (.worker w) :=
      (hg _ (.worker w)).mpr (congrArg Pc.guard hpc)
    have hsum := h.sum
    rw [State.pending_of_holder hholder, hpc, Pc.pending] at hsum
    refine ⟨?_, ?_, ?_, h.length_le, h.sum_le⟩
    · intro htaken
      rw [State.entry_goto, State.entry_release, State.entry_setEntry]
      exact h.count htaken
    · intro n hn
      rw [State.entry_goto, State.entry_release, State.entry_setEntry]
      exact h.taken n hn
    · rw [State.entry_goto, State.entry_release, State.entry_setEntry,
        State.pending_of_free (Function.update_self ..)]
      have hsmall := h.sum_le
      dsimp only
      omega
  · refine h.quiet (Quiet.setEntry hg hne ?_ (Function.update_of_ne hne.symm _ _))
    rw [hpc]
    exact fun heq => hne (Option.some.inj heq)

/-- **What the steps of a worker keep of the accumulators.** -/
theorem Tallied.advance (h : Tallied symbol messages s) (hg : Guarded s)
    (hpunctual : punctual symbol s (.advance w) = true) :
    Tallied symbol ((advance ps cfg s w).2.toList.foldl (sinceFlush symbol) messages)
      (advance ps cfg s w).1 := by
  rw [Tasks.advance]
  split
  · exact h
  · exact h
  all_goals rename_i hpc
  · exact h.quiet (Quiet.goto rfl (congrArg Pc.pending hpc).symm)
  · split <;> exact h.quiet (Quiet.goto rfl (congrArg Pc.pending hpc).symm)
  · split
    · exact h
    · rename_i hfree
      exact h.quiet (Quiet.enter hg hpc hfree)
  · exact h.quiet (Quiet.store hg hpc)
  · exact h.record hg hpc hpunctual
  · exact h.add hg hpc
  · split
    · exact h.quiet (Quiet.goto rfl (congrArg Pc.pending hpc).symm)
    · exact h.quiet (Quiet.goto rfl (congrArg Pc.pending hpc).symm)

/-- **What the steps of the flush keep of the accumulators.** -/
theorem Tallied.flush {rt : Rounding} (h : Tallied symbol messages s) :
    Tallied symbol ((flush rt s).2.toList.foldl (sinceFlush symbol) messages) (flush rt s).1 := by
  rw [Tasks.flush]
  split
  · exact h
  all_goals rename_i hpc
  · exact h.quiet ⟨rfl, rfl, by simp [State.taken, hpc], rfl⟩
  · rename_i symbol' lastTs
    have htaken : s.taken symbol = none := by simp [State.taken, hpc]
    rcases eq_or_ne symbol' symbol with rfl | hne
    · refine ⟨fun hnone => absurd hnone (by simp [State.taken]), fun n hn => ?_, ?_, h.length_le,
        h.sum_le⟩
      · obtain rfl : (s.entry symbol').msgCount = n := by simpa [State.taken] using hn
        exact ⟨congrArg HeartbeatStats.msgCount State.entry_setEntry, h.count htaken⟩
      · exact (congrArg₂ (· + ·) (congrArg HeartbeatStats.latencySumMs State.entry_setEntry)
          (State.pending_congr rfl rfl)).trans h.sum
    · refine h.quiet (Quiet.flushOther hne rfl ?_)
      rw [htaken]
      exact if_neg hne
  · rename_i symbol' lastTs count
    rw [Option.toList_some, List.foldl_cons, List.foldl_nil, sinceFlush]
    split
    · rename_i hsymbol
      subst hsymbol
      have htaken : s.taken symbol' = some count := by simp [State.taken, hpc]
      refine ⟨fun _ => ?_, fun n hn => absurd hn (by simp [State.taken]), ?_, by simp, by simp⟩
      · exact (congrArg HeartbeatStats.msgCount State.entry_setEntry).trans (h.taken count htaken).1
      · exact congrArg₂ (· + ·) (congrArg HeartbeatStats.latencySumMs State.entry_setEntry)
          (State.pending_of_free (Function.update_self ..))
    · rename_i hne
      refine h.quiet (Quiet.flushOther hne (Function.update_of_ne (Ne.symm hne) _ _) ?_)
      simp [State.taken, hpc, hne]

/-- A punctual action keeps the tally. -/
theorem Tallied.step (h : Tallied symbol messages s) (hg : Guarded s) (a : Action)
    (hpunctual : punctual symbol s a = true) {rt : Rounding} :
    Tallied symbol ((Tasks.step ps cfg rt s a).2.toList.foldl (sinceFlush symbol) messages)
      (Tasks.step ps cfg rt s a).1 := by
  cases a with
  | advance w => exact h.advance hg hpunctual
  | flush => exact h.flush
  | receive w text call =>
      rw [Tasks.step]
      split
      · rename_i hpc
        exact h.quiet (Quiet.goto rfl (congrArg Pc.pending hpc).symm)
      · exact h
  | visit symbol' =>
      rw [Tasks.step]
      split
      · rename_i hidle _ hfree
        refine h.quiet ⟨rfl, rfl, by simp [State.taken, hidle], ?_⟩
        rcases eq_or_ne symbol' symbol with rfl | hne
        · rw [State.pending_of_free hfree]
          exact State.pending_of_flush (Function.update_self ..)
        · exact State.pending_congr (Function.update_of_ne hne.symm _ _) rfl
      · exact h

/-- **A flush averages the messages of its window.** -/
theorem Tallied.averages {events : List Event} (h : Tallied symbol (window symbol events) s)
    (hg : Guarded s) : ∀ e ∈ (Tasks.flush Rounding.nearestEven s).2, Averages symbol events e := by
  intro e he
  rw [Tasks.flush] at he
  split at he
  · cases he
  · cases he
  · cases he
  · rename_i symbol' lastTs count hpc
    obtain rfl := Option.some.inj he
    rintro rfl hne
    have hcount : count = (window symbol' events).length :=
      (h.taken count (by simp [State.taken, hpc])).2
    have hholder : s.holder symbol' = some .flush :=
      (hg symbol' .flush).mpr (congrArg FlushPc.guard hpc)
    have hsum := h.sum
    rw [State.pending_of_flush hholder, Nat.add_zero] at hsum
    have hpos : count > 0 := hcount ▸ List.length_pos_of_ne_nil hne
    rw [if_pos hpos, hsum, hcount]
    exact mean_between hne h.length_le h.sum_le

/-- Only the flush reports anything. -/
theorem averages_advance {events : List Event} :
    ∀ e ∈ (advance ps cfg s w).2, Averages symbol events e := by
  intro e he
  rw [advance] at he
  split at he
  · cases he
  · cases he
  · cases he
  · split at he <;> cases he
  · split at he <;> cases he
  · cases he
  · obtain rfl := Option.some.inj he
    exact trivial
  · cases he
  · split at he
    · obtain rfl := Option.some.inj he
      exact trivial
    · cases he

variable (ps cfg) in
/-- A flush of a tallied entry averages its window. -/
theorem averages_step {events : List Event} (h : Tallied symbol (window symbol events) s)
    (hg : Guarded s) (a : Action) :
    ∀ e ∈ (step ps cfg Rounding.nearestEven s a).2, Averages symbol events e := by
  cases a with
  | advance w => exact averages_advance
  | flush => exact h.averages hg
  | visit symbol' =>
      intro e he
      rw [step] at he
      split at he <;> cases he
  | receive w text call =>
      intro e he
      rw [step] at he
      split at he
      · dsimp only at he
        obtain rfl := Option.some.inj he
        exact trivial
      · cases he

end Steps

section Run

variable {ps : Parsers} {cfg : Config} {symbol : String} {actions : List Action}

/-- Nothing was counted yet. -/
theorem tallied_init : Tallied symbol [] State.init := by
  constructor <;> simp [State.init, State.taken, State.entry, State.pending, Worker.init]

/-- The accumulators of a symbol along a run whose messages of the symbol are punctual. -/
theorem tallied_run (hpunctual : Machine.Along (step ps cfg Rounding.nearestEven)
      (fun s a => punctual symbol s a = true) State.init actions) :
    Tallied symbol (window symbol (trace ps cfg Rounding.nearestEven actions))
      (Machine.run (step ps cfg Rounding.nearestEven) State.init actions).1 := by
  induction actions using List.reverseRecOn with
  | nil => exact tallied_init
  | append_singleton actions a ih =>
      obtain ⟨hpast, hlast⟩ := (Machine.along_concat actions a).mp hpunctual
      rw [Machine.run_concat, trace_concat, window, List.foldl_append]
      exact (ih hpast).step (guarded_run ps cfg Rounding.nearestEven actions) a hlast

/-- **In a run whose messages are punctual, every flush averages its window.** -/
theorem latency_averages (hpunctual : Machine.Along (step ps cfg Rounding.nearestEven)
      (fun s a => punctual symbol s a = true) State.init actions) :
    Trace.Preceded (Averages symbol) (trace ps cfg Rounding.nearestEven actions) := by
  induction actions using List.reverseRecOn with
  | nil => exact Trace.preceded_nil
  | append_singleton actions a ih =>
      have hpast := ((Machine.along_concat actions a).mp hpunctual).1
      have hstep := averages_step ps cfg (tallied_run hpast)
        (guarded_run ps cfg Rounding.nearestEven actions) a
      rw [trace_concat]
      cases hevent : (step ps cfg Rounding.nearestEven (Machine.run (step ps cfg
          Rounding.nearestEven) State.init actions).1 a).2 with
      | none =>
          rw [Option.toList_none, List.append_nil]
          exact ih hpast
      | some e => exact Trace.preceded_concat.mpr ⟨ih hpast, hstep e hevent⟩

end Run

/-- What an event reports, and for which symbol. -/
def Event.reported : Event → Option (String × Binary64)
  | .flushed symbol _ _ _ latencyMs => some (symbol, latencyMs)
  | _ => none

/-- Two workers handle a trade each, a second after the epoch, and a flush follows. -/
def tradesThenFlush : List Action :=
  handling 0 (tradeFrameAt 995) ++ handling 1 (tradeFrameAt 991) ++
    [.visit "BTCUSDT", .flush, .flush, .flush]

/-- The trace of these trades. -/
def pastTrace : List Event :=
  trace (tradeParsers [995, 991]) (.single "md") Rounding.nearestEven tradesThenFlush

/-- Trades from five and from nine milliseconds before are reported with their mean. -/
theorem latency_averages_past :
    ((window "BTCUSDT" pastTrace.dropLast).map latency = [5, 9] ∧
      pastTrace.filterMap Event.reported = [("BTCUSDT", .fin 7)]) ∧
      Trace.Preceded (Averages "BTCUSDT") pastTrace :=
  ⟨by decide +kernel, latency_averages (by decide +kernel)⟩

/-- A trade is handled a second after the epoch, and a flush follows. -/
def tradeThenFlush (timeMs : ℕ) : List Action :=
  handling 0 (tradeFrameAt timeMs) ++ [.visit "BTCUSDT", .flush, .flush, .flush]

/-- The trace of a trade that is five milliseconds ahead of the clock. -/
def aheadTrace : List Event :=
  trace (tradeParsers [1005]) (.single "md") Rounding.nearestEven (tradeThenFlush 1005)

/-- A trade that is five milliseconds ahead is reported with a latency of `2 ^ 64`, which is not
between zero and zero. -/
theorem latency_ahead : aheadTrace.filterMap Event.reported = [("BTCUSDT", .fin (2 ^ 64))] ∧
    (window "BTCUSDT" (aheadTrace.take 3)).map latency = [0] ∧
    ¬ Trace.Preceded (Averages "BTCUSDT") aheadTrace := by
  have hwindow : (window "BTCUSDT" (aheadTrace.take 3)).map latency = [0] := by decide +kernel
  refine ⟨by decide +kernel, hwindow, fun h => ?_⟩
  have hlast : (aheadTrace.drop 3).map Event.reported = [some ("BTCUSDT", .fin (2 ^ 64))] := by
    decide +kernel
  obtain ⟨e, he, hreported⟩ := List.map_eq_singleton_iff.mp hlast
  cases e with
  | took | counted | sent => cases hreported
  | flushed symbol key lastMsgTs msgRate latencyMs =>
      obtain ⟨rfl, rfl⟩ := Prod.mk.inj (Option.some.inj hreported)
      have haverage := h (aheadTrace.take 3) _ [] (by rw [← he, List.take_append_drop])
      obtain ⟨q, hq, -, greatest, hgreatest, hle⟩ := haverage rfl fun hnil => by
        rw [hnil] at hwindow
        cases hwindow
      have hzero : latency greatest = 0 := by
        have hmem := List.mem_map_of_mem (f := latency) hgreatest
        rw [hwindow] at hmem
        exact List.mem_singleton.mp hmem
      obtain rfl := Binary64.fin.inj hq
      rw [hzero] at hle
      norm_num at hle

end HftPlatform.MarketdataIngestor.Tasks
