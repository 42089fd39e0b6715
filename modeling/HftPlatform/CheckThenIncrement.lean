import HftPlatform.FixedWindow

/-!
# Checking before incrementing

The use of `RateLimiter` that the documentation of `is_exceeded` shows: a client asks whether the
limit is exceeded, and if not, increments the counter and sends. The question and the increment
reach Redis in two calls, between which other clients act.

## Main definitions

* `Limited.step`: a client asks, increments or sends.
* `inTime`: an increment finds the counter below the limit, and a send finds the window of its
  increment.

## Main results

* `Limited.Settled.step`, `Limited.Within.step`: what an action keeps of a run, and of a window.
* `sends_le`: a run whose actions are in time keeps to the limit in every window.
-/

namespace HftPlatform.HftRedis

open Lib

/-- A client has not asked, may increment, or has incremented at a time and may send. -/
inductive Client
  | idle
  | cleared
  | counted (since : ℕ)
  deriving DecidableEq

inductive Action
  | check (client now : ℕ)
  | increment (client now : ℕ)
  | send (client now : ℕ)
  deriving DecidableEq

def Action.now : Action → ℕ
  | .check _ now => now
  | .increment _ now => now
  | .send _ now => now

structure Limited where
  key : Option Counter
  clients : List Client

/-- An action, and whether something is sent. A client takes the actions in turn; one that is told
that the limit is exceeded rejects, and may ask again. -/
def Limited.step (ttlSecs limit : ℕ) (s : Limited) : Action → Limited × Bool
  | .check client now =>
      if s.clients[client]? = some .idle ∧ isExceeded limit now s.key = false then
        ({ s with clients := s.clients.set client .cleared }, false)
      else (s, false)
  | .increment client now =>
      if s.clients[client]? = some .cleared then
        (⟨(incrWithTtl ttlSecs now s.key).1, s.clients.set client (.counted now)⟩, false)
      else (s, false)
  | .send client _ =>
      match s.clients[client]? with
      | some (.counted _) => ({ s with clients := s.clients.set client .idle }, true)
      | _ => (s, false)

/-- The state after the actions of a number of clients, and what was sent. -/
def limited (ttlSecs limit clients : ℕ) (actions : List Action) : Limited × List Bool :=
  Machine.run (Limited.step ttlSecs limit) ⟨none, List.replicate clients .idle⟩ actions

/-- An increment that creates the key: its client is cleared, and there is no counter. -/
def Creates (s : Limited) (client now : ℕ) : Prop :=
  s.clients[client]? = some .cleared ∧ live now s.key = none

/-- In every window, from the creation of the key to its expiry, at most `limit` sends happen. -/
def KeepsLimit (ttlSecs limit clients : ℕ) (actions : List Action) : Prop :=
  ∀ before client now within rest, actions = before ++ .increment client now :: (within ++ rest) →
    Creates (limited ttlSecs limit clients before).1 client now →
    (∀ a ∈ within, a.now < now + ttlSecs * 1000) →
    ((limited ttlSecs limit clients (before ++ .increment client now :: within)).2.drop
      (before.length + 1)).count true ≤ limit

/-- An increment finds the counter below the limit, and a send finds no counter, or that of the
window that its increment fell into. -/
def inTime (ttlSecs limit : ℕ) (s : Limited) : Action → Bool
  | .check _ _ => true
  | .increment client now =>
      decide (s.clients[client]? = some .cleared → isExceeded limit now s.key = false)
  | .send client now =>
      match s.clients[client]?, live now s.key with
      | some (.counted since), some ⟨_, some deadline⟩ => deadline ≤ since + ttlSecs * 1000
      | _, _ => true

/-- All actions of a run are in time. -/
def AllInTime (ttlSecs limit : ℕ) : Limited → List Action → Prop :=
  Machine.Along (Limited.step ttlSecs limit) fun s a => inTime ttlSecs limit s a = true

/-! ### What an action keeps -/

/-- A replaced element is counted instead of the one that was there. -/
theorem countP_set_add {α : Type} (p : α → Bool) {l : List α} {i : ℕ} {old : α}
    (h : l[i]? = some old) (new : α) :
    (l.set i new).countP p + (if p old then 1 else 0) = l.countP p + if p new then 1 else 0 := by
  induction l generalizing i with
  | nil => cases h
  | cons x l ih =>
      cases i with
      | zero =>
          obtain rfl : x = old := by simpa using h
          rw [List.set_cons_zero, List.countP_cons, List.countP_cons]
          omega
      | succ i =>
          have hrest := ih (i := i) (by simpa using h)
          rw [List.set_cons_succ, List.countP_cons, List.countP_cons]
          omega

theorem getElem?_set_cases {α : Type} {l : List α} {i j : ℕ} {new x : α}
    (h : (l.set i new)[j]? = some x) : x = new ∨ l[j]? = some x := by
  rw [List.getElem?_set] at h
  split at h
  · split at h
    · exact .inl (Option.some.inj h).symm
    · cases h
  · exact .inr h

/-- Every increment fell before the deadline of the counter that is stored, which may be over. -/
structure Limited.Settled (s : Limited) : Prop where
  key : Regular s.key
  clients : ∀ i since : ℕ, s.clients[i]? = some (.counted since) →
    ∃ value deadline, s.key = some (.of value deadline) ∧ since < deadline

section Steps

variable {ttlSecs limit : ℕ} {s : Limited}

/-- A client may be replaced by one that did not increment. -/
theorem Limited.Settled.set (h : s.Settled) (client : ℕ) {new : Client}
    (hnew : ∀ since, new ≠ .counted since) :
    Limited.Settled { s with clients := s.clients.set client new } where
  key := h.key
  clients i since hi := by
    rcases getElem?_set_cases hi with heq | hi
    · exact absurd heq.symm (hnew since)
    · exact h.clients i since hi

/-- **What an action keeps of a run.** -/
theorem Limited.Settled.step (h : s.Settled) (httl : 1 ≤ ttlSecs) (limit : ℕ) (a : Action) :
    (s.step ttlSecs limit a).1.Settled := by
  cases a with
  | check client now =>
      rw [Limited.step]
      split
      · exact h.set client (by simp)
      · exact h
  | send client now =>
      rw [Limited.step]
      split
      · exact h.set client (by simp)
      · exact h
  | increment client now =>
      rw [Limited.step]
      split
      · refine ⟨h.key.incrWithTtl ttlSecs now, fun i since hi => ?_⟩
        rcases h.key.incrWithTtl_cases ttlSecs now with
          ⟨hnone, hcall⟩ | ⟨value, deadline, -, hkey, hlt, hcall⟩
        · -- The counter is new, and outlasts whatever was stored.
          refine ⟨1, now + ttlSecs * 1000, congrArg Prod.fst hcall, ?_⟩
          rcases getElem?_set_cases hi with heq | hi
          · obtain rfl := Client.counted.inj heq
            omega
          · obtain ⟨value, deadline, hkey, hlt⟩ := h.clients i since hi
            rw [hkey] at hnone
            have hover := live_eq_none_iff.mp hnone
            omega
        · refine ⟨value + 1, deadline, congrArg Prod.fst hcall, ?_⟩
          rcases getElem?_set_cases hi with heq | hi
          · obtain rfl := Client.counted.inj heq
            exact hlt
          · obtain ⟨value', deadline', hkey', hlt'⟩ := h.clients i since hi
            obtain ⟨-, rfl⟩ : (value : ℤ) = value' ∧ deadline = deadline' := by
              simpa [hkey, Counter.of] using hkey'
            exact hlt'
      · exact h

/-- The increment of a client fell into the window that ends at the deadline. -/
def Client.inWindow (ttlSecs deadline : ℕ) : Client → Bool
  | .counted since => deadline ≤ since + ttlSecs * 1000
  | _ => false

/-- Within a window, the counter counts what was sent and what the clients may still send. -/
structure Limited.Within (s : Limited) (ttlSecs limit deadline sends : ℕ) : Prop where
  counter : ∃ value, s.key = some (.of value deadline) ∧ 1 ≤ value ∧ value ≤ limit ∧
    sends + s.clients.countP (Client.inWindow ttlSecs deadline) ≤ value

/-- **What an action keeps of a window**, if it is in time. -/
theorem Limited.Within.step {deadline sends : ℕ} (h : s.Within ttlSecs limit deadline sends)
    {a : Action} (hintime : inTime ttlSecs limit s a = true) (hbefore : a.now < deadline)
    (hafter : deadline ≤ a.now + ttlSecs * 1000) :
    (s.step ttlSecs limit a).1.Within ttlSecs limit deadline
      (sends + if (s.step ttlSecs limit a).2 then 1 else 0) := by
  obtain ⟨value, hkey, hpos, hle, hsum⟩ := h.counter
  cases a with
  | check client now =>
      rw [Limited.step]
      split
      · rename_i hcheck
        have hcount := countP_set_add (Client.inWindow ttlSecs deadline) hcheck.1 .cleared
        simp only [Client.inWindow, Bool.false_eq_true, if_false, add_zero] at hcount
        exact ⟨value, hkey, hpos, hle, hcount ▸ hsum⟩
      · exact h
  | increment client now =>
      rw [Limited.step]
      split
      · rename_i hcleared
        replace hbefore : now < deadline := hbefore
        replace hafter : deadline ≤ now + ttlSecs * 1000 := hafter
        have hbelow := of_decide_eq_true hintime hcleared
        rw [isExceeded, count, hkey, live_of_iff.mpr hbefore, decide_eq_false_iff_not] at hbelow
        have hlt : value < limit := Nat.not_le.mp hbelow
        have hcount := countP_set_add (Client.inWindow ttlSecs deadline) hcleared (.counted now)
        simp only [Client.inWindow, Bool.false_eq_true, if_false, add_zero, decide_eq_true_eq,
          if_pos hafter] at hcount
        refine ⟨value + 1, ?_, by omega, hlt, ?_⟩
        · rw [hkey]
          exact congrArg Prod.fst (incrWithTtl_live hpos hbefore)
        · dsimp only
          simp only [Bool.false_eq_true, if_false, add_zero]
          omega
      · exact h
  | send client now =>
      rw [Limited.step]
      split
      · rename_i since hcounted
        replace hbefore : now < deadline := hbefore
        have hwindow : deadline ≤ since + ttlSecs * 1000 := by
          rw [inTime, hcounted, hkey, live_of_iff.mpr hbefore] at hintime
          exact of_decide_eq_true hintime
        have hcount := countP_set_add (Client.inWindow ttlSecs deadline) hcounted .idle
        simp only [Client.inWindow, Bool.false_eq_true, if_false, add_zero, decide_eq_true_eq,
          if_pos hwindow] at hcount
        refine ⟨value, hkey, hpos, hle, ?_⟩
        dsimp only
        rw [if_pos rfl]
        omega
      · exact h

/-- The increment that creates the key starts a window with one increment. -/
theorem Limited.Settled.creates {client now : ℕ} (h : s.Settled) (hcreates : Creates s client now)
    (hintime : inTime ttlSecs limit s (.increment client now) = true) :
    (s.step ttlSecs limit (.increment client now)).1.Within ttlSecs limit
      (now + ttlSecs * 1000) 0 := by
  obtain ⟨hcleared, hnone⟩ := hcreates
  have hlimit := of_decide_eq_true hintime hcleared
  rw [isExceeded, count, hnone, decide_eq_false_iff_not] at hlimit
  have hnobody : s.clients.countP (Client.inWindow ttlSecs (now + ttlSecs * 1000)) = 0 := by
    rw [List.countP_eq_zero]
    intro c hc
    cases c with
    | idle | cleared => simp [Client.inWindow]
    | counted since =>
        obtain ⟨i, hi⟩ := List.mem_iff_getElem?.mp hc
        obtain ⟨value, deadline, hkey, hlt⟩ := h.clients i since hi
        rw [hkey] at hnone
        have hover := live_eq_none_iff.mp hnone
        simp only [Client.inWindow, decide_eq_true_eq]
        omega
  have hcount := countP_set_add (Client.inWindow ttlSecs (now + ttlSecs * 1000)) hcleared
    (.counted now)
  rw [hnobody] at hcount
  simp only [Client.inWindow, Bool.false_eq_true, if_false, add_zero, le_refl, decide_true,
    if_true] at hcount
  rw [Limited.step, if_pos hcleared]
  refine ⟨1, congrArg Prod.fst (incrWithTtl_new hnone), le_rfl, ?_, ?_⟩
  · exact Nat.pos_of_ne_zero fun hzero => hlimit (hzero ▸ Nat.zero_le _)
  · dsimp only
    omega

/-- **A window of a run**: at most as much is sent as the limit allows. -/
theorem Limited.Within.run {deadline sends : ℕ} (h : s.Within ttlSecs limit deadline sends)
    {actions : List Action}
    (hintime : AllInTime ttlSecs limit s actions)
    (hwindow : ∀ a ∈ actions, a.now < deadline ∧ deadline ≤ a.now + ttlSecs * 1000) :
    sends + (Machine.run (Limited.step ttlSecs limit) s actions).2.count true ≤ limit := by
  induction actions generalizing s sends with
  | nil =>
      obtain ⟨value, -, -, hle, hsum⟩ := h.counter
      rw [Machine.run_nil, List.count_nil]
      omega
  | cons a actions ih =>
      obtain ⟨hbefore, hafter⟩ := hwindow a List.mem_cons_self
      have hrest := ih (h.step hintime.1 hbefore hafter) hintime.2
        fun b hb => hwindow b (List.mem_cons_of_mem _ hb)
      rw [Machine.run, List.count_cons]
      simpa [Nat.add_comm, Nat.add_left_comm, Nat.add_assoc] using hrest

end Steps

theorem limited_settled {ttlSecs : ℕ} (httl : 1 ≤ ttlSecs) (limit clients : ℕ)
    (actions : List Action) : (limited ttlSecs limit clients actions).1.Settled := by
  induction actions using List.reverseRecOn with
  | nil =>
      refine ⟨fun c hc => (by cases hc), fun i since hi => ?_⟩
      have hmem := List.mem_of_getElem? hi
      cases List.eq_of_mem_replicate hmem
  | append_singleton actions a ih =>
      rw [limited, Machine.run_concat]
      exact ih.step httl limit a

/-- **A run whose actions are in time keeps to the limit** in every window. -/
theorem sends_le {ttlSecs : ℕ} (httl : 1 ≤ ttlSecs) (limit clients : ℕ) {actions : List Action}
    (hclock : (actions.map Action.now).Pairwise (· ≤ ·))
    (hintime : AllInTime ttlSecs limit ⟨none, List.replicate clients .idle⟩ actions) :
    KeepsLimit ttlSecs limit clients actions := by
  rintro before client now within rest rfl hcreates hbefore
  obtain ⟨-, hincrement, hrest⟩ := (Machine.along_append before _).mp hintime
  have hwithin := ((Machine.along_append within rest).mp hrest).1
  have hstart := (limited_settled httl limit clients before).creates hcreates hincrement
  have hlen : (limited ttlSecs limit clients before).2.length = before.length :=
    Machine.length_run before
  have hsent := hstart.run hwithin fun a ha => ⟨hbefore a ha, by
    have hlater : now ≤ a.now := by
      rw [List.map_append, List.map_cons, List.pairwise_append, List.pairwise_cons] at hclock
      exact hclock.2.1.1 a.now (List.mem_map_of_mem (List.mem_append_left _ ha))
    omega⟩
  have hdrop : ((limited ttlSecs limit clients (before ++ .increment client now :: within)).2.drop
      (before.length + 1)) = (Machine.run (Limited.step ttlSecs limit)
        ((limited ttlSecs limit clients before).1.step ttlSecs limit (.increment client now)).1
        within).2 := by
    have hrun : limited ttlSecs limit clients (before ++ .increment client now :: within) = _ :=
      Machine.run_append before _
    rw [hrun, ← hlen, ← List.drop_drop]
    dsimp only
    rw [← limited, List.drop_left, Machine.run, List.drop_one, List.tail_cons]
  rw [hdrop]
  omega

/-- Two clients that act one after the other, with a limit of one. -/
theorem sends_le_in_turn : KeepsLimit 60 1 2
    [.check 0 0, .increment 0 1, .send 0 2, .check 1 3, .increment 1 4, .send 1 5] :=
  sends_le (by decide) 1 2 (by decide) (by simp only [AllInTime, Machine.Along]; decide)

/-- Two clients that both ask before either increments: both send, with a limit of one. -/
theorem sends_exceed_limit : ¬ KeepsLimit 60 1 2
    [.check 0 0, .check 1 0, .increment 0 1, .increment 1 1, .send 0 2, .send 1 2] := by
  intro h
  have hsent := h [.check 0 0, .check 1 0] 0 1 [.increment 1 1, .send 0 2, .send 1 2] [] rfl
    ⟨by decide, by decide⟩ (by decide)
  revert hsent
  decide

end HftPlatform.HftRedis
