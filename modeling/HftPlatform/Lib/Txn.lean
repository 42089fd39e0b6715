import Mathlib.Data.List.Induction

/-!
# Runs of transactions

A transaction maps a state to a new state or fails. It is atomic: a failure leaves the
state as it was. A run submits a list of transactions one after another; next to each
input stands a flag by which the environment (a lost connection, a crash before the
commit) makes that transaction fail whatever it would have done.

## Main results

* `run_induction`: a property of the inputs submitted so far and the state they lead to
  holds after every run when the empty run has it, a failed transaction keeps it, and a
  committed transaction keeps it.
* `alongRun_iff`: a preorder relates every state of a run to every later one exactly when
  every committed transaction of the run respects it.
* `alwaysOnRun_iff`: a property holds in every state of a run exactly when it holds at the
  start and every committed transaction of the run keeps it.
* `alwaysWithCommits_iff`: the same for a property of the state and of what has committed so far.
-/

namespace Lib

section Txn

variable {ι σ ε : Type}

/-- Submit one transaction: commit it whole, or leave the state alone. -/
def attempt (tx : σ → Except ε σ) (fault : Bool) (s : σ) : σ :=
  if fault then s
  else match tx s with
    | .ok s' => s'
    | .error _ => s

/-- Submit the transactions of the inputs in order. -/
def run (tx : ι → σ → Except ε σ) (s : σ) (inputs : List (ι × Bool)) : σ :=
  inputs.foldl (fun s i => attempt (tx i.1) i.2 s) s

variable {tx : ι → σ → Except ε σ} {s : σ}

@[simp] theorem run_nil : run tx s [] = s := rfl

/-- The last transaction of a run starts from what the others left. -/
theorem run_concat (inputs : List (ι × Bool)) (i : ι × Bool) :
    run tx s (inputs ++ [i]) = attempt (tx i.1) i.2 (run tx s inputs) := by
  simp [run]

/-- A transaction that the environment lets through and that commits takes effect. -/
theorem attempt_of_ok {f : σ → Except ε σ} {s' : σ} (h : f s = .ok s') :
    attempt f false s = s' := by simp [attempt, h]

/-- A submitted transaction either had no effect, or was let through and committed. -/
theorem attempt_cases (f : σ → Except ε σ) (fault : Bool) (s : σ) :
    attempt f fault s = s ∧ (fault = true ∨ ∃ e, f s = .error e) ∨
      fault = false ∧ f s = .ok (attempt f fault s) := by
  cases fault with
  | true => exact Or.inl ⟨rfl, Or.inl rfl⟩
  | false =>
      cases h : f s with
      | error e => exact Or.inl ⟨by simp [attempt, h], Or.inr ⟨e, rfl⟩⟩
      | ok s' => exact Or.inr ⟨rfl, by simp [attempt, h]⟩

/-- **The induction rule of runs.** -/
theorem run_induction {P : List (ι × Bool) → σ → Prop} (h0 : P [] s)
    (hfail : ∀ pre i s, P pre s → P (pre ++ [i]) s)
    (hok : ∀ pre i s s', P pre s → tx i.1 s = .ok s' → P (pre ++ [i]) s')
    (inputs : List (ι × Bool)) : P inputs (run tx s inputs) := by
  induction inputs using List.reverseRecOn with
  | nil => exact h0
  | append_singleton pre i ih =>
      rw [run_concat]
      rcases attempt_cases (tx i.1) i.2 (run tx s pre) with ⟨h, -⟩ | ⟨-, h⟩
      · rw [h]
        exact hfail pre i _ ih
      · exact hok pre i _ _ ih h

/-! ### Properties of all the states of a run -/

variable {inputs : List (ι × Bool)} {R : σ → σ → Prop} {I : σ → Prop}

/-- `R` relates every state of the run to every later one. -/
def AlongRun (tx : ι → σ → Except ε σ) (s : σ) (inputs : List (ι × Bool))
    (R : σ → σ → Prop) : Prop :=
  ∀ pre mid post, inputs = pre ++ mid ++ post → R (run tx s pre) (run tx s (pre ++ mid))

/-- `I` holds in every state of the run. -/
def AlwaysOnRun (tx : ι → σ → Except ε σ) (s : σ) (inputs : List (ι × Bool))
    (I : σ → Prop) : Prop :=
  ∀ pre post, inputs = pre ++ post → I (run tx s pre)

/-- `Q` holds of every transaction of the run that commits, with the transactions before
it and the states before and after it. -/
def EachCommit (tx : ι → σ → Except ε σ) (s : σ) (inputs : List (ι × Bool))
    (Q : List (ι × Bool) → ι → σ → σ → Prop) : Prop :=
  ∀ pre i post s', inputs = pre ++ (i, false) :: post → tx i (run tx s pre) = .ok s' →
    Q pre i (run tx s pre) s'

/-- The relation holds between the states after any two lengths of the run. -/
theorem AlongRun.take (h : AlongRun tx s inputs R) {j k : ℕ} (hjk : j ≤ k) :
    R (run tx s (inputs.take j)) (run tx s (inputs.take k)) := by
  have htake : inputs.take j = (inputs.take k).take j := by
    rw [List.take_take, Nat.min_eq_left hjk]
  have hcut : inputs.take j ++ (inputs.take k).drop j = inputs.take k := by
    rw [htake, List.take_append_drop]
  have hR := h (inputs.take j) ((inputs.take k).drop j) (inputs.drop k)
    (by rw [hcut, List.take_append_drop])
  rwa [hcut] at hR

/-- The property holds in the state after any length of the run. -/
theorem AlwaysOnRun.take (h : AlwaysOnRun tx s inputs I) (k : ℕ) : I (run tx s (inputs.take k)) :=
  h (inputs.take k) (inputs.drop k) (List.take_append_drop k inputs).symm

/-- What holds at every place of the run holds where a transaction commits. -/
theorem EachCommit.of_take {Q : ι → σ → Prop}
    (h : ∀ k : Fin inputs.length, Q inputs[k].1 (run tx s (inputs.take k))) :
    EachCommit tx s inputs fun _ i s _ => Q i s := by
  rintro pre i post s' rfl _
  simpa using h ⟨pre.length, by simp⟩

/-- A commit takes the run from the state before to the state after. -/
theorem run_concat_of_ok {i : ι} {pre : List (ι × Bool)} {s' : σ}
    (h : tx i (run tx s pre) = .ok s') : run tx s (pre ++ [(i, false)]) = s' := by
  rw [run_concat]
  exact attempt_of_ok h

/-- **The rule for relations along a run.** -/
theorem alongRun_iff (hrefl : ∀ s, R s s) (htrans : ∀ a b c, R a b → R b c → R a c) :
    AlongRun tx s inputs R ↔ EachCommit tx s inputs fun _ _ s s' => R s s' := by
  constructor
  · intro h pre i post s' hinputs hok
    have := h pre [(i, false)] post (by simp [hinputs])
    rwa [run_concat_of_ok hok] at this
  · intro h pre mid
    induction mid using List.reverseRecOn with
    | nil =>
        intro post _
        rw [List.append_nil]
        exact hrefl _
    | append_singleton mid i ih =>
        intro post hinputs
        refine htrans _ _ _ (ih (i :: post) (by simp [hinputs])) ?_
        rw [← List.append_assoc, run_concat]
        rcases attempt_cases (tx i.1) i.2 (run tx s (pre ++ mid)) with ⟨hs, -⟩ | ⟨hi, hs⟩
        · rw [hs]
          exact hrefl _
        · refine h (pre ++ mid) i.1 post _ ?_ hs
          rw [hinputs, ← hi]
          simp

/-- **The rule for invariants of a run.** -/
theorem alwaysOnRun_iff (h0 : I s) :
    AlwaysOnRun tx s inputs I ↔ EachCommit tx s inputs fun _ _ s s' => I s → I s' := by
  constructor
  · intro h pre i post s' hinputs hok _
    have := h (pre ++ [(i, false)]) post (by simp [hinputs])
    rwa [run_concat_of_ok hok] at this
  · intro h pre
    induction pre using List.reverseRecOn with
    | nil => exact fun _ _ => h0
    | append_singleton pre i ih =>
        intro post hinputs
        have hpre := ih (i :: post) (by simp [hinputs])
        rw [run_concat]
        rcases attempt_cases (tx i.1) i.2 (run tx s pre) with ⟨hs, -⟩ | ⟨hi, hs⟩
        · rwa [hs]
        · refine h pre i.1 post _ ?_ hs hpre
          rw [hinputs, ← hi]
          simp

/-! ### The transactions that have committed -/

/-- The transaction, which also notes its input when it commits. -/
def noting (tx : ι → σ → Except ε σ) (i : ι) (s : σ × List ι) : Except ε (σ × List ι) :=
  (tx i s.1).map fun s' => (s', s.2 ++ [i])

/-- The inputs of the run whose transactions commit, in order. -/
def commits (tx : ι → σ → Except ε σ) (s : σ) (inputs : List (ι × Bool)) : List ι :=
  (run (noting tx) (s, []) inputs).2

@[simp] theorem commits_nil : commits tx s [] = [] := rfl

/-- Noting the inputs does not change the run. -/
theorem run_noting (tx : ι → σ → Except ε σ) (s : σ) (inputs : List (ι × Bool)) :
    run (noting tx) (s, []) inputs = (run tx s inputs, commits tx s inputs) := by
  have hstate : (run (noting tx) (s, []) inputs).1 = run tx s inputs := by
    induction inputs using List.reverseRecOn with
    | nil => rfl
    | append_singleton pre i ih =>
        rw [run_concat, run_concat, ← ih, attempt, attempt, noting]
        cases i.2 with
        | true => rfl
        | false => cases tx i.1 (run (noting tx) (s, []) pre).1 <;> rfl
  exact Prod.ext hstate rfl

/-- What noting a transaction commits. -/
theorem noting_eq_ok_iff {i : ι} {st st' : σ × List ι} :
    noting tx i st = .ok st' ↔ tx i st.1 = .ok st'.1 ∧ st'.2 = st.2 ++ [i] := by
  rw [noting]
  cases tx i st.1 with
  | error e => simp [Except.map]
  | ok s' => simp [Except.map, Prod.ext_iff, eq_comm]

/-- `J` holds in every state of the run together with what has committed until then. -/
def AlwaysWithCommits (tx : ι → σ → Except ε σ) (s : σ) (inputs : List (ι × Bool))
    (J : List ι → σ → Prop) : Prop :=
  ∀ pre post, inputs = pre ++ post → J (commits tx s pre) (run tx s pre)

/-- **The rule for invariants that look back** on what has committed. -/
theorem alwaysWithCommits_iff {J : List ι → σ → Prop} (h0 : J [] s) :
    AlwaysWithCommits tx s inputs J ↔ EachCommit tx s inputs fun pre i s₁ s₂ =>
      J (commits tx s pre) s₁ → J (commits tx s pre ++ [i]) s₂ := by
  have hrule : AlwaysOnRun (noting tx) (s, []) inputs (fun st => J st.2 st.1) ↔ _ :=
    alwaysOnRun_iff h0
  simp only [AlwaysOnRun, EachCommit, run_noting, noting_eq_ok_iff] at hrule
  refine hrule.trans ⟨fun h pre i post s' hinputs hok => ?_, fun h pre i post st' hinputs hok => ?_⟩
  · exact h pre i post (s', commits tx s pre ++ [i]) hinputs ⟨hok, rfl⟩
  · rw [hok.2]
    exact h pre i post st'.1 hinputs hok.1

end Txn

end Lib
