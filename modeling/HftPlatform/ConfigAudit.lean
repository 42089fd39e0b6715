import HftPlatform.Proto
import HftPlatform.Lib.Interleave
import HftPlatform.Lib.LastWrite

/-!
# The audit of strategy configurations

`update_strategy_config` of `libs/rust/hft_store/src/repos/strategies_repo.rs`: a transaction reads
the configuration of a strategy, updates it, and inserts what it read and what it wrote into
`strat_config_audit`. Any number of such transactions run at once on one strategy, at the isolation
level READ COMMITTED: a `SELECT` reads what was committed when it began and takes no lock; an
`UPDATE` waits until no other transaction holds the lock of the row, and then replaces what is
committed by then. The lock is held until the transaction ends.

## Main results

* `step_cases`: what a statement can do.
* `inv_run`: what is committed replaces, one `UPDATE` after the other, what was committed before.
* `auditHolds_iff`: when every audit row tells what its own `UPDATE` replaced.
-/

namespace HftPlatform.ConfigAudit

open Lib Interleave

/-- The statements of a transaction, and the two ways in which it ends. -/
inductive Statement
  | select
  | update
  | insert
  | commit
  | rollback
  deriving DecidableEq, Repr

/-- The arguments of a call, but for the strategy. -/
structure UpdateCall (Json : Type) where
  newConfig : Json
  changedBy : String
  reason : Option String

/-- A row of `strat_config_audit`. -/
structure AuditRow (Json : Type) where
  strategyId : Uuid
  changedBy : String
  changeReason : Option String
  oldConfig : Json
  newConfig : Json
  deriving DecidableEq, Repr

/-- An audit row, and the configuration that the `UPDATE` of its transaction replaced. -/
structure Entry (Json : Type) where
  row : AuditRow Json
  replaced : Json
  deriving DecidableEq, Repr

/-- How far a transaction is, with what it has read and written. -/
inductive Phase (Json : Type)
  | idle
  | selected (oldConfig : Json)
  | updated (oldConfig replaced : Json)
  | inserted (entry : Entry Json)
  | committed (entry : Entry Json)
  | aborted
  deriving DecidableEq, Repr

/-- The committed configuration of the strategy, the transaction that holds the lock of its row,
the transactions, and those of them that have updated the row, in order. -/
structure State (τ Json : Type) where
  config : Json
  lock : Option τ
  phase : τ → Phase Json
  updates : List τ

section Model

variable {τ Json : Type} [DecidableEq τ]

/-- Nobody has begun. -/
def State.init (config : Json) : State τ Json where
  config := config
  lock := none
  phase _ := .idle
  updates := []

/-- A request goes on. -/
def State.move (s : State τ Json) (i : τ) (p : Phase Json) : State τ Json :=
  { s with phase := Function.update s.phase i p }

variable (id : Uuid) (calls : τ → UpdateCall Json)

/-- The row that a transaction inserts. -/
def auditRow (i : τ) (oldConfig : Json) : AuditRow Json where
  strategyId := id
  changedBy := (calls i).changedBy
  changeReason := (calls i).reason
  oldConfig := oldConfig
  newConfig := (calls i).newConfig

/-- One statement of a transaction; an `UPDATE` that has to wait is not taken yet. -/
def step (s : State τ Json) (e : τ × Statement) : Option (State τ Json) :=
  match e.2, s.phase e.1 with
  | .select, .idle => some (s.move e.1 (.selected s.config))
  | .update, .selected oldConfig =>
      if s.lock = none then
        some { s.move e.1 (.updated oldConfig s.config) with
          lock := some e.1
          updates := s.updates ++ [e.1] }
      else none
  | .insert, .updated oldConfig replaced =>
      some (s.move e.1 (.inserted ⟨auditRow id calls e.1 oldConfig, replaced⟩))
  | .commit, .inserted entry =>
      some { s.move e.1 (.committed entry) with
        config := (calls e.1).newConfig
        lock := none }
  | .rollback, .committed _ => none
  | .rollback, .aborted => none
  | .rollback, _ =>
      some { s.move e.1 .aborted with lock := if s.lock = some e.1 then none else s.lock }
  | _, _ => none

/-- A run of statements, each of which can be taken. -/
def run (s : State τ Json) (tr : List (τ × Statement)) : Option (State τ Json) :=
  Interleave.run (step id calls) s tr

/-! ### What the audit is to say -/

/-- What a transaction has committed. -/
def Phase.entry : Phase Json → Option (Entry Json)
  | .committed entry => some entry
  | _ => none

/-- The committed audit rows, in the order in which their `UPDATE`s took effect. -/
def State.entries (s : State τ Json) : List (Entry Json) :=
  s.updates.filterMap fun i => (s.phase i).entry

/-- From one configuration to another, each entry starting from what the one before it left. -/
def Chain (old : Entry Json → Json) : Json → List (Entry Json) → Json → Prop
  | a, [], b => a = b
  | a, e :: es, b => old e = a ∧ Chain old e.row.newConfig es b

/-- Each audit row tells what its own `UPDATE` replaced; the rows are a chain that ends with the
stored configuration. -/
def AuditHolds (initial : Json) (s : State τ Json) : Prop :=
  (∀ e ∈ s.entries, e.row.oldConfig = e.replaced) ∧
    Chain (fun e => e.row.oldConfig) initial s.entries s.config

/-- The configuration that the commits of a run leave. -/
def committedConfig (initial : Json) (tr : List (τ × Statement)) : Json :=
  (lastWrite (fun e => if e.2 = .commit then some (calls e.1).newConfig else none) tr).getD initial

/-- What was committed whenever a transaction ran the statement. -/
def committedAt (initial : Json) (i : τ) (st : Statement) (tr : List (τ × Statement)) : List Json :=
  (before (i, st) tr).map (committedConfig calls initial)

end Model

/-! ### What a statement can do -/

variable {τ Json : Type} [DecidableEq τ] {id : Uuid} {calls : τ → UpdateCall Json}
  {s s' : State τ Json} {tr : List (τ × Statement)} {i j : τ} {st : Statement} {initial : Json}

/-- It is where it went. -/
@[simp] theorem move_phase_self (p : Phase Json) : (s.move i p).phase i = p := by
  simp [State.move]

/-- The others stay where they are. -/
theorem move_phase_of_ne (p : Phase Json) (h : j ≠ i) : (s.move i p).phase j = s.phase j := by
  simp [State.move, h]

/-- **What a statement can do.** -/
theorem step_cases (h : step id calls s (i, st) = some s') :
    (st = .select ∧ s.phase i = .idle ∧ s' = s.move i (.selected s.config)) ∨
    (st = .update ∧ ∃ old, s.phase i = .selected old ∧ s.lock = none ∧
      s' = { s.move i (.updated old s.config) with
        lock := some i, updates := s.updates ++ [i] }) ∨
    (st = .insert ∧ ∃ old replaced, s.phase i = .updated old replaced ∧
      s' = s.move i (.inserted ⟨auditRow id calls i old, replaced⟩)) ∨
    (st = .commit ∧ ∃ entry, s.phase i = .inserted entry ∧
      s' = { s.move i (.committed entry) with config := (calls i).newConfig, lock := none }) ∨
    (st = .rollback ∧ (s.phase i).entry = none ∧
      s' = { s.move i .aborted with lock := if s.lock = some i then none else s.lock }) := by
  rw [step] at h
  cases st with
  | select =>
      cases hp : s.phase i <;> simp only [hp, reduceCtorEq, Option.some.injEq] at h
      exact Or.inl ⟨rfl, rfl, h.symm⟩
  | update =>
      cases hp : s.phase i <;> simp only [hp, reduceCtorEq] at h
      split at h
      · rename_i hlock
        exact Or.inr (Or.inl ⟨rfl, _, rfl, hlock, (Option.some.inj h).symm⟩)
      · cases h
  | insert =>
      cases hp : s.phase i <;> simp only [hp, reduceCtorEq, Option.some.injEq] at h
      exact Or.inr (Or.inr (Or.inl ⟨rfl, _, _, rfl, h.symm⟩))
  | commit =>
      cases hp : s.phase i <;> simp only [hp, reduceCtorEq, Option.some.injEq] at h
      exact Or.inr (Or.inr (Or.inr (Or.inl ⟨rfl, _, rfl, h.symm⟩)))
  | rollback =>
      refine Or.inr (Or.inr (Or.inr (Or.inr ⟨rfl, ?_⟩)))
      cases hp : s.phase i <;> simp only [hp, reduceCtorEq, Option.some.injEq] at h <;>
        exact ⟨rfl, h.symm⟩

/-! ### What a run has committed -/

omit [DecidableEq τ] in
/-- A commit replaces the committed configuration. -/
theorem committedConfig_concat (e : τ × Statement) : committedConfig calls initial (tr ++ [e]) =
    if e.2 = .commit then (calls e.1).newConfig else committedConfig calls initial tr := by
  rw [committedConfig, lastWrite_concat]
  split <;> rfl

/-- What was committed at a statement, with one statement more. -/
theorem committedAt_concat (e : τ × Statement) : committedAt calls initial i st (tr ++ [e]) =
    committedAt calls initial i st tr ++
      if e = (i, st) then [committedConfig calls initial tr] else [] := by
  rw [committedAt, before_concat, List.map_append]
  split <;> rfl

/-- What a run shows of a transaction that is in some phase. -/
def Seen (calls : τ → UpdateCall Json) (initial : Json) (tr : List (τ × Statement)) (i : τ) :
    Phase Json → Prop
  | .idle => committedAt calls initial i .select tr = [] ∧
      committedAt calls initial i .update tr = [] ∧ (i, .commit) ∉ tr
  | .selected old => committedAt calls initial i .select tr = [old] ∧
      committedAt calls initial i .update tr = [] ∧ (i, .commit) ∉ tr
  | .updated old replaced => committedAt calls initial i .select tr = [old] ∧
      committedAt calls initial i .update tr = [replaced] ∧ (i, .commit) ∉ tr
  | .inserted entry => committedAt calls initial i .select tr = [entry.row.oldConfig] ∧
      committedAt calls initial i .update tr = [entry.replaced] ∧ (i, .commit) ∉ tr ∧
      entry.row.newConfig = (calls i).newConfig
  | .committed entry => committedAt calls initial i .select tr = [entry.row.oldConfig] ∧
      committedAt calls initial i .update tr = [entry.replaced] ∧ (i, .commit) ∈ tr
  | .aborted => (i, .commit) ∉ tr

/-- A statement of another transaction shows nothing. -/
theorem Seen.concat_of_ne {p : Phase Json} (h : Seen calls initial tr i p) (hne : j ≠ i) :
    Seen calls initial (tr ++ [(j, st)]) i p := by
  have hat : ∀ st', committedAt calls initial i st' (tr ++ [(j, st)]) =
      committedAt calls initial i st' tr := by
    intro st'
    rw [committedAt_concat, if_neg fun heq => hne (Prod.mk.inj heq).1, List.append_nil]
  have hmem : (i, Statement.commit) ∈ tr ++ [(j, st)] ↔ (i, Statement.commit) ∈ tr := by
    simp [hne.symm]
  cases p <;> simpa only [Seen, hat, hmem] using h

/-- A transaction that is not committed has not run its `COMMIT`. -/
theorem Seen.commit_mem_iff {p : Phase Json} (h : Seen calls initial tr i p) :
    (i, .commit) ∈ tr ↔ p.entry ≠ none := by
  cases p with
  | idle => simp [Phase.entry, h.2.2]
  | selected old => simp [Phase.entry, h.2.2]
  | updated old replaced => simp [Phase.entry, h.2.2]
  | inserted entry => simp [Phase.entry, h.2.2.1]
  | committed entry => simp [Phase.entry, h.2.2]
  | aborted => simp [Phase.entry, show (i, .commit) ∉ tr from h]

/-- **What a statement shows** of its own transaction. -/
theorem Seen.concat (h : Seen calls initial tr i (s.phase i))
    (hconfig : s.config = committedConfig calls initial tr)
    (hstep : step id calls s (i, st) = some s') :
    Seen calls initial (tr ++ [(i, st)]) i (s'.phase i) := by
  have hat : ∀ st', st ≠ st' → committedAt calls initial i st' (tr ++ [(i, st)]) =
      committedAt calls initial i st' tr := by
    intro st' hst
    rw [committedAt_concat, if_neg fun heq => hst (Prod.mk.inj heq).2, List.append_nil]
  have hself : committedAt calls initial i st (tr ++ [(i, st)]) =
      committedAt calls initial i st tr ++ [s.config] := by
    rw [committedAt_concat, if_pos rfl, hconfig]
  have hmem : st ≠ .commit → (i, Statement.commit) ∉ tr →
      (i, Statement.commit) ∉ tr ++ [(i, st)] := by
    intro hst hnot
    simp [hnot, Ne.symm hst]
  rcases step_cases hstep with ⟨rfl, hp, rfl⟩ | ⟨rfl, old, hp, -, rfl⟩ |
    ⟨rfl, old, replaced, hp, rfl⟩ | ⟨rfl, entry, hp, rfl⟩ | ⟨rfl, hp, rfl⟩
  · rw [hp] at h
    rw [move_phase_self]
    exact ⟨by rw [hself, h.1]; rfl, by rw [hat _ (by decide), h.2.1], hmem (by decide) h.2.2⟩
  · rw [hp] at h
    change Seen _ _ _ _ ((s.move i _).phase i)
    rw [move_phase_self]
    exact ⟨by rw [hat _ (by decide), h.1], by rw [hself, h.2.1]; rfl, hmem (by decide) h.2.2⟩
  · rw [hp] at h
    rw [move_phase_self]
    exact ⟨by rw [hat _ (by decide), h.1]; rfl, by rw [hat _ (by decide), h.2.1],
      hmem (by decide) h.2.2, rfl⟩
  · rw [hp] at h
    change Seen _ _ _ _ ((s.move i _).phase i)
    rw [move_phase_self]
    exact ⟨by rw [hat _ (by decide), h.1], by rw [hat _ (by decide), h.2.1], by simp⟩
  · change Seen _ _ _ _ ((s.move i _).phase i)
    rw [move_phase_self]
    exact hmem (by decide) fun hcommit => h.commit_mem_iff.mp hcommit hp

/-! ### The chain of what was replaced -/

/-- What a transaction has replaced and not yet committed. -/
def Phase.pending : Phase Json → Option Json
  | .updated _ replaced => some replaced
  | .inserted entry => some entry.replaced
  | _ => none

/-- The transaction that holds the lock has replaced what is committed, and it updated last. -/
structure Inv (calls : τ → UpdateCall Json) (initial : Json) (tr : List (τ × Statement))
    (s : State τ Json) : Prop where
  config : s.config = committedConfig calls initial tr
  seen : ∀ i, Seen calls initial tr i (s.phase i)
  held : ∀ i replaced, (s.phase i).pending = some replaced →
    s.lock = some i ∧ replaced = s.config
  last : ∀ i, s.lock = some i → ∃ l, s.updates = l ++ [i] ∧ i ∉ l
  started : ∀ i ∈ s.updates, s.phase i ≠ .idle ∧ ∀ old, s.phase i ≠ .selected old
  logged : ∀ i, (s.phase i).entry ≠ none → i ∈ s.updates
  chain : Chain Entry.replaced initial s.entries s.config

omit [DecidableEq τ] in
/-- A chain is extended at its end. -/
theorem chain_concat {old : Entry Json → Json} {a b : Json} {es : List (Entry Json)}
    {e : Entry Json} (h : Chain old a es b) (he : old e = b) :
    Chain old a (es ++ [e]) e.row.newConfig := by
  induction es generalizing a with
  | nil => exact ⟨he.trans h.symm, rfl⟩
  | cons x es ih => exact ⟨h.1, ih h.2⟩

/-- A transaction that has not committed, and does not, leaves the rows as they are. -/
theorem entries_move {p : Phase Json} (h : (s.phase i).entry = none) (hp : p.entry = none) :
    (s.move i p).entries = s.entries := by
  have hsame : ∀ j, ((s.move i p).phase j).entry = (s.phase j).entry := by
    intro j
    by_cases hj : j = i
    · rw [hj, move_phase_self, h, hp]
    · rw [move_phase_of_ne p hj]
  simp only [State.entries, hsame]
  rfl

/-- The rows of the transactions that a list has without its last. -/
theorem filterMap_move {l : List τ} {p : Phase Json} (h : i ∉ l) :
    l.filterMap (fun j => ((s.move i p).phase j).entry) =
      l.filterMap fun j => (s.phase j).entry := by
  refine List.filterMap_congr fun j hj => ?_
  have hne : j ≠ i := by
    rintro rfl
    exact h hj
  rw [move_phase_of_ne p hne]

/-- Nothing was done yet. -/
theorem inv_init : Inv calls initial [] (State.init initial : State τ Json) where
  config := rfl
  seen i := ⟨rfl, rfl, by simp⟩
  held i replaced h := by simp [State.init, Phase.pending] at h
  last i h := by simp [State.init] at h
  started i h := by simp [State.init] at h
  logged i h := by simp [State.init, Phase.entry] at h
  chain := rfl

/-- What all statements leave as it was of the other transactions. -/
theorem Inv.seen_step (h : Inv calls initial tr s) (hstep : step id calls s (i, st) = some s') :
    ∀ j, Seen calls initial (tr ++ [(i, st)]) j (s'.phase j) := by
  intro j
  by_cases hj : j = i
  · rw [hj]
    exact (h.seen i).concat h.config hstep
  · have hphase : s'.phase j = s.phase j := by
      rcases step_cases hstep with ⟨-, -, rfl⟩ | ⟨-, _, -, -, rfl⟩ | ⟨-, _, _, -, rfl⟩ |
        ⟨-, _, -, rfl⟩ | ⟨-, -, rfl⟩ <;> exact move_phase_of_ne _ hj
    rw [hphase]
    exact (h.seen j).concat_of_ne fun heq => hj heq.symm

/-- The lock keeps its holder, and what is committed stays, until the holder ends. -/
theorem Inv.held_move (h : Inv calls initial tr s) {p : Phase Json}
    (hp : ∀ replaced, p.pending = some replaced → s.lock = some i ∧ replaced = s.config)
    {replaced : Json} (hpending : ((s.move i p).phase j).pending = some replaced) :
    s.lock = some j ∧ replaced = s.config := by
  by_cases hj : j = i
  · rw [hj, move_phase_self] at hpending
    rw [hj]
    exact hp replaced hpending
  · rw [move_phase_of_ne p hj] at hpending
    exact h.held j replaced hpending

/-- A transaction that has updated does not go back. -/
theorem Inv.started_move (h : Inv calls initial tr s) {p : Phase Json}
    (hp : i ∈ s.updates → p ≠ .idle ∧ ∀ old, p ≠ .selected old) (hj : j ∈ s.updates) :
    (s.move i p).phase j ≠ .idle ∧ ∀ old, (s.move i p).phase j ≠ .selected old := by
  by_cases hji : j = i
  · subst hji
    rw [move_phase_self]
    exact hp hj
  · rw [move_phase_of_ne p hji]
    exact h.started j hj

/-- A transaction that does not commit leaves the commits. -/
theorem Inv.logged_move (h : Inv calls initial tr s) {p : Phase Json} (hp : p.entry = none)
    (hj : ((s.move i p).phase j).entry ≠ none) : j ∈ s.updates := by
  by_cases hji : j = i
  · rw [hji, move_phase_self] at hj
    exact absurd hp hj
  · rw [move_phase_of_ne p hji] at hj
    exact h.logged j hj

/-- When a transaction does not hold the lock any more, what is pending is of another one. -/
theorem Inv.held_other (h : Inv calls initial tr s) {p : Phase Json} (hp : p.pending = none)
    {replaced : Json} (hpending : ((s.move i p).phase j).pending = some replaced) :
    j ≠ i ∧ s.lock = some j ∧ replaced = s.config := by
  by_cases hj : j = i
  · rw [hj, move_phase_self, hp] at hpending
    cases hpending
  · rw [move_phase_of_ne p hj] at hpending
    exact ⟨hj, h.held j replaced hpending⟩

/-! #### One statement after the other -/

/-- A request has read the configuration. -/
theorem Inv.select (h : Inv calls initial tr s) (hp : s.phase i = .idle)
    (hconfig : s.config = committedConfig calls initial (tr ++ [(i, .select)]))
    (hseen : ∀ j, Seen calls initial (tr ++ [(i, .select)]) j
      ((s.move i (.selected s.config)).phase j)) :
    Inv calls initial (tr ++ [(i, .select)]) (s.move i (.selected s.config)) where
  config := hconfig
  seen := hseen
  held _ _ := h.held_move (by simp [Phase.pending])
  last := h.last
  started _ := h.started_move fun hi => absurd hp (h.started i hi).1
  logged _ := h.logged_move rfl
  chain := by
    rw [entries_move (by rw [hp]; rfl) rfl]
    exact h.chain

/-- It has taken the lock and replaced the configuration. -/
theorem Inv.update (h : Inv calls initial tr s) {old : Json} (hp : s.phase i = .selected old)
    (hlock : s.lock = none)
    (hconfig : s.config = committedConfig calls initial (tr ++ [(i, .update)]))
    (hseen : ∀ j, Seen calls initial (tr ++ [(i, .update)]) j
      ((s.move i (.updated old s.config)).phase j)) :
    Inv calls initial (tr ++ [(i, .update)]) { s.move i (.updated old s.config) with
      lock := some i, updates := s.updates ++ [i] } := by
  have hnot : i ∉ s.updates := fun hi => (h.started i hi).2 old hp
  refine ⟨hconfig, hseen, ?_, ?_, ?_, fun j hj => List.mem_append_left _ (h.logged_move rfl hj), ?_⟩
  · intro j r hpending
    change ((s.move i _).phase j).pending = some r at hpending
    by_cases hj : j = i
    · rw [hj, move_phase_self] at hpending
      exact ⟨by rw [hj], (Option.some.inj hpending).symm⟩
    · -- No other transaction holds the lock that this one got.
      rw [move_phase_of_ne _ hj] at hpending
      rw [(h.held j r hpending).1] at hlock
      cases hlock
  · intro j hj
    obtain rfl := Option.some.inj hj
    exact ⟨s.updates, rfl, hnot⟩
  · intro j hj
    change (s.move i _).phase j ≠ _ ∧ ∀ old, (s.move i _).phase j ≠ _
    rcases List.mem_append.mp hj with hj | hj
    · exact h.started_move (fun hi => absurd hi hnot) hj
    · rw [List.mem_singleton.mp hj, move_phase_self]
      simp
  · have hentries : ({ s.move i (.updated old s.config) with
        lock := some i, updates := s.updates ++ [i] } : State τ Json).entries = s.entries := by
      rw [State.entries, List.filterMap_append]
      change List.filterMap (fun j => ((s.move i _).phase j).entry) s.updates ++
        List.filterMap (fun j => ((s.move i _).phase j).entry) [i] = _
      rw [filterMap_move hnot]
      simp [Phase.entry, State.entries]
    rw [hentries]
    exact h.chain

/-- It has inserted its entry. -/
theorem Inv.insert (h : Inv calls initial tr s) {old replaced : Json}
    (hp : s.phase i = .updated old replaced) (row : AuditRow Json)
    (hconfig : s.config = committedConfig calls initial (tr ++ [(i, .insert)]))
    (hseen : ∀ j, Seen calls initial (tr ++ [(i, .insert)]) j
      ((s.move i (.inserted ⟨row, replaced⟩)).phase j)) :
    Inv calls initial (tr ++ [(i, .insert)]) (s.move i (.inserted ⟨row, replaced⟩)) where
  config := hconfig
  seen := hseen
  held _ _ := by
    refine h.held_move fun r hr => ?_
    obtain rfl := Option.some.inj hr
    exact h.held i replaced (by rw [hp]; rfl)
  last := h.last
  started _ := h.started_move fun _ => by simp
  logged _ := h.logged_move rfl
  chain := by
    rw [entries_move (by rw [hp]; rfl) rfl]
    exact h.chain

/-- It has committed both. -/
theorem Inv.commit (h : Inv calls initial tr s) {entry : Entry Json}
    (hp : s.phase i = .inserted entry)
    (hconfig : (calls i).newConfig = committedConfig calls initial (tr ++ [(i, .commit)]))
    (hseen : ∀ j, Seen calls initial (tr ++ [(i, .commit)]) j
      ((s.move i (.committed entry)).phase j)) :
    Inv calls initial (tr ++ [(i, .commit)])
      { s.move i (.committed entry) with config := (calls i).newConfig, lock := none } := by
  obtain ⟨hlock, hreplaced⟩ := h.held i entry.replaced (by rw [hp]; rfl)
  obtain ⟨l, hl, hnot⟩ := h.last i hlock
  have hfree : ∀ j, (none : Option τ) = some j → ∃ l, s.updates = l ++ [j] ∧ j ∉ l := by
    intro j hj
    cases hj
  refine ⟨hconfig, hseen, ?_, hfree, fun j => h.started_move fun _ => by simp, ?_, ?_⟩
  · intro j r hpending
    obtain ⟨hj, hheld, -⟩ := h.held_other rfl hpending
    exact absurd (Option.some.inj (hheld.symm.trans hlock)) hj
  · intro j hj
    change ((s.move i _).phase j).entry ≠ none at hj
    change j ∈ s.updates
    by_cases hji : j = i
    · rw [hji, hl]
      simp
    · rw [move_phase_of_ne _ hji] at hj
      exact h.logged j hj
  · have hold : s.entries = l.filterMap fun j => (s.phase j).entry := by
      rw [State.entries, hl, List.filterMap_append]
      simp [hp, Phase.entry]
    have hnew : ({ s.move i (.committed entry) with
        config := (calls i).newConfig, lock := none } : State τ Json).entries =
          s.entries ++ [entry] := by
      rw [hold, State.entries]
      change List.filterMap (fun j => ((s.move i _).phase j).entry) s.updates = _
      rw [hl, List.filterMap_append, filterMap_move hnot]
      simp [Phase.entry]
    have hseenEntry := h.seen i
    rw [hp] at hseenEntry
    rw [hnew, ← hseenEntry.2.2.2]
    exact chain_concat h.chain hreplaced

/-- It has given up. -/
theorem Inv.rollback (h : Inv calls initial tr s) (hp : (s.phase i).entry = none)
    (hconfig : s.config = committedConfig calls initial (tr ++ [(i, .rollback)]))
    (hseen : ∀ j, Seen calls initial (tr ++ [(i, .rollback)]) j
      ((s.move i .aborted).phase j)) :
    Inv calls initial (tr ++ [(i, .rollback)])
      { s.move i .aborted with lock := if s.lock = some i then none else s.lock } := by
  refine ⟨hconfig, hseen, ?_, ?_, fun j => h.started_move fun _ => by simp,
    fun j => h.logged_move rfl, ?_⟩
  · intro j r hpending
    obtain ⟨hj, hlock, hr⟩ := h.held_other rfl hpending
    refine ⟨?_, hr⟩
    rw [if_neg (by rw [hlock]; exact fun heq => hj (Option.some.inj heq))]
    exact hlock
  · intro j hj
    refine h.last j ?_
    dsimp only at hj
    split at hj
    · cases hj
    · exact hj
  · change Chain _ _ (s.move i .aborted).entries _
    rw [entries_move hp rfl]
    exact h.chain

/-- **Each statement** keeps the invariant. -/
theorem Inv.step (h : Inv calls initial tr s)
    (hstep : ConfigAudit.step id calls s (i, st) = some s') :
    Inv calls initial (tr ++ [(i, st)]) s' := by
  have hseen := h.seen_step hstep
  have hconfig : st ≠ .commit →
      s.config = committedConfig calls initial (tr ++ [(i, st)]) := by
    intro hst
    rw [committedConfig_concat, if_neg hst]
    exact h.config
  rcases step_cases hstep with ⟨rfl, hp, rfl⟩ | ⟨rfl, old, hp, hlock, rfl⟩ |
    ⟨rfl, old, replaced, hp, rfl⟩ | ⟨rfl, entry, hp, rfl⟩ | ⟨rfl, hp, rfl⟩
  · exact h.select hp (hconfig (by decide)) hseen
  · exact h.update hp hlock (hconfig (by decide)) hseen
  · exact h.insert hp _ (hconfig (by decide)) hseen
  · exact h.commit hp (by rw [committedConfig_concat, if_pos rfl]) hseen
  · exact h.rollback hp (hconfig (by decide)) hseen

/-- **Every run** keeps it: what is committed replaces, one `UPDATE` after the other, what was
committed before. -/
theorem inv_run (h : run id calls (.init initial) tr = some s) : Inv calls initial tr s := by
  refine run_induction (P := Inv calls initial) inv_init ?_ h
  intro tr s e s' hinv hstep
  exact hinv.step hstep

/-! ### The audit -/

omit [DecidableEq τ] in
/-- Two readings of what entries start from agree on a chain. -/
theorem chain_congr {old old' : Entry Json → Json} {a b : Json} {es : List (Entry Json)}
    (h : Chain old a es b) (heq : ∀ e ∈ es, old' e = old e) : Chain old' a es b := by
  induction es generalizing a with
  | nil => exact h
  | cons x es ih =>
      exact ⟨(heq x (by simp)).trans h.1, ih h.2 fun e he => heq e (by simp [he])⟩

/-- The committed rows are those of the transactions that have committed. -/
theorem Inv.mem_entries_iff (h : Inv calls initial tr s) {e : Entry Json} :
    e ∈ s.entries ↔ ∃ i, s.phase i = .committed e := by
  rw [State.entries, List.mem_filterMap]
  constructor
  · rintro ⟨i, -, hi⟩
    refine ⟨i, ?_⟩
    cases hp : s.phase i <;> rw [hp] at hi <;> cases hi
    rfl
  · rintro ⟨i, hi⟩
    exact ⟨i, h.logged i (by rw [hi]; simp [Phase.entry]), by rw [hi]; rfl⟩

/-- **The audit.** In every run of any transactions on a strategy, each committed audit row tells
what its own `UPDATE` replaced, and the rows are a chain from the initial configuration to the
stored one, if and only if for every transaction that commits, what was committed when it read the
configuration is what was committed when it updated it. -/
theorem auditHolds_iff (id : Uuid) (calls : τ → UpdateCall Json) (initial : Json)
    (tr : List (τ × Statement)) (s : State τ Json)
    (hrun : run id calls (.init initial) tr = some s) :
    AuditHolds initial s ↔ ∀ i, (i, .commit) ∈ tr →
      committedAt calls initial i .select tr = committedAt calls initial i .update tr := by
  have h := inv_run hrun
  have hchain : (∀ e ∈ s.entries, e.row.oldConfig = e.replaced) →
      Chain (fun e => e.row.oldConfig) initial s.entries s.config := chain_congr h.chain
  rw [AuditHolds, and_iff_left_of_imp hchain]
  constructor
  · intro hrows i hcommit
    have hseen := h.seen i
    have hentry := hseen.commit_mem_iff.mp hcommit
    cases hp : s.phase i <;> rw [hp] at hseen hentry <;> try exact absurd rfl hentry
    rename_i e
    rw [hseen.1, hseen.2.1, hrows e (h.mem_entries_iff.mpr ⟨i, hp⟩)]
  · intro hread e he
    obtain ⟨i, hp⟩ := h.mem_entries_iff.mp he
    have hseen := h.seen i
    rw [hp] at hseen
    have heq := hread i hseen.2.2
    rw [hseen.1, hseen.2.1] at heq
    exact (List.cons.inj heq).1

/-! ### Two updates -/

/-- Two updates of one strategy. -/
def twoUpdates : Bool → UpdateCall String
  | true => { newConfig := "v1", changedBy := "dashboard", reason := none }
  | false => { newConfig := "v2", changedBy := "operator", reason := some "retune" }

/-- One update after the other. -/
def serialRun : List (Bool × Statement) :=
  [(true, .select), (true, .update), (true, .insert), (true, .commit),
    (false, .select), (false, .update), (false, .insert), (false, .commit)]

/-- Both read before either updates; the second `UPDATE` waits for the first to commit. -/
def crossedRun : List (Bool × Statement) :=
  [(true, .select), (false, .select), (true, .update), (true, .insert), (true, .commit),
    (false, .update), (false, .insert), (false, .commit)]

/-- The audit of the serial run holds. -/
theorem auditHolds_serialRun : ∃ s, run 7 twoUpdates (.init "v0") serialRun = some s ∧
    AuditHolds "v0" s := by
  have hsome : (run 7 twoUpdates (.init "v0") serialRun).isSome = true := by decide +kernel
  obtain ⟨s, hs⟩ := Option.isSome_iff_exists.mp hsome
  refine ⟨s, hs, (auditHolds_iff _ _ _ _ _ hs).mpr fun i _ => ?_⟩
  cases i <;> decide +kernel

/-- The second row tells the configuration that the first update had already replaced. -/
theorem crossedRun_breaks : ∃ s, run 7 twoUpdates (.init "v0") crossedRun = some s ∧
    s.entries.map (fun e => (e.row.oldConfig, e.replaced, e.row.newConfig)) =
      [("v0", "v0", "v1"), ("v0", "v1", "v2")] ∧ ¬ AuditHolds "v0" s := by
  have hentries : (run 7 twoUpdates (.init "v0") crossedRun).map (fun s =>
      s.entries.map fun e => (e.row.oldConfig, e.replaced, e.row.newConfig)) =
        some [("v0", "v0", "v1"), ("v0", "v1", "v2")] := by decide +kernel
  obtain ⟨s, hs, hrows⟩ := Option.map_eq_some_iff.mp hentries
  refine ⟨s, hs, hrows, fun hholds => ?_⟩
  have hmem : ("v0", "v1", "v2") ∈
      s.entries.map fun e => (e.row.oldConfig, e.replaced, e.row.newConfig) := by
    rw [hrows]
    simp
  obtain ⟨e, he, heq⟩ := List.mem_map.mp hmem
  have hold := hholds.1 e he
  rw [(Prod.mk.inj heq).1, (Prod.mk.inj (Prod.mk.inj heq).2).1] at hold
  exact absurd hold (by decide)

end HftPlatform.ConfigAudit
