import Mathlib.Data.List.Induction

/-!
# Machines that emit an event a step

A machine takes an input in a state, moves to a next state, and says what it did. A run
collects what was said.

## Main results

* `Machine.run_concat`: the last input of a run meets the state that the others left.
* `Machine.getElem?_run`: so does every input, with the events in the order of the inputs.
* `Machine.run_induction`: what one step preserves of the inputs, the events and the state, a
  run preserves.
* `Machine.exists_run_of_simulates`: what follows each step of another machine follows its runs.
* `Machine.along_append`: a condition on all steps of a run, taken apart.
-/

namespace Lib

namespace Machine

variable {σ ι ο : Type} (step : σ → ι → σ × ο)

/-- The final state and the events of a run, in order. -/
def run (s : σ) : List ι → σ × List ο
  | [] => (s, [])
  | i :: is => ((run (step s i).1 is).1, (step s i).2 :: (run (step s i).1 is).2)

variable {step} {s : σ}

/-- No inputs, no outputs. -/
@[simp] theorem run_nil : run step s [] = (s, []) := rfl

/-- A run may be cut anywhere. -/
theorem run_append (pre post : List ι) : run step s (pre ++ post) =
    ((run step (run step s pre).1 post).1,
      (run step s pre).2 ++ (run step (run step s pre).1 post).2) := by
  induction pre generalizing s with
  | nil => simp
  | cons i is ih => simp [run, ih]

/-- The last input of a run meets the state that the others left. -/
theorem run_concat (pre : List ι) (i : ι) : run step s (pre ++ [i]) =
    ((step (run step s pre).1 i).1, (run step s pre).2 ++ [(step (run step s pre).1 i).2]) := by
  rw [run_append]
  simp [run]

/-- There is an output for each input. -/
theorem length_run (inputs : List ι) : (run step s inputs).2.length = inputs.length := by
  induction inputs generalizing s with
  | nil => rfl
  | cons i is ih => simp [run, ih]

/-- An event of a run is that of its input, in the state that the inputs before it left. -/
theorem getElem?_run (pre post : List ι) (i : ι) :
    (run step s (pre ++ i :: post)).2[pre.length]? = some (step (run step s pre).1 i).2 := by
  have hle : (run step s pre).2.length ≤ pre.length := Nat.le_of_eq (length_run pre)
  rw [run_append, List.getElem?_append_right hle, length_run, Nat.sub_self]
  rfl

/-- **The induction rule of runs.** -/
theorem run_induction {P : List ι → List ο → σ → Prop} (h0 : P [] [] s)
    (hstep : ∀ pre out s i, P pre out s → P (pre ++ [i]) (out ++ [(step s i).2]) (step s i).1)
    (inputs : List ι) : P inputs (run step s inputs).2 (run step s inputs).1 := by
  induction inputs using List.reverseRecOn with
  | nil => exact h0
  | append_singleton pre i ih =>
      rw [run_concat]
      exact hstep pre _ _ i ih

/-- **The rule of simulation**: if one machine can follow each step of another, with the same event
and an input of its own that is allowed, then it can follow each run. -/
theorem exists_run_of_simulates {τ κ : Type} {step' : τ → κ → τ × ο} {R : σ → τ → Prop}
    {Given : κ → Prop} {Allowed : ι → Prop}
    (hstep : ∀ s t k, Given k → R s t → ∃ i, Allowed i ∧ (step s i).2 = (step' t k).2 ∧
      R (step s i).1 (step' t k).1)
    {t : τ} (h : R s t) (inputs : List κ) (hgiven : ∀ k ∈ inputs, Given k) :
    ∃ is, (∀ i ∈ is, Allowed i) ∧ (run step s is).2 = (run step' t inputs).2 ∧
      R (run step s is).1 (run step' t inputs).1 := by
  induction inputs generalizing s t with
  | nil => exact ⟨[], by simp, rfl, h⟩
  | cons k ks ih =>
      obtain ⟨hk, hks⟩ := List.forall_mem_cons.mp hgiven
      obtain ⟨i, hi, hevent, hnext⟩ := hstep s t k hk h
      obtain ⟨is, his, hevents, hlast⟩ := ih hnext hks
      refine ⟨i :: is, List.forall_mem_cons.mpr ⟨hi, his⟩, ?_, hlast⟩
      rw [run, run, hevent, hevents]

variable (step) in
/-- Every input meets the condition in the state that it finds. -/
def Along (Q : σ → ι → Prop) : σ → List ι → Prop
  | _, [] => True
  | s, i :: is => Q s i ∧ Along Q (step s i).1 is

/-- Whether a run meets a condition can be tried out. -/
instance decidableAlong {Q : σ → ι → Prop} [∀ s i, Decidable (Q s i)] :
    (s : σ) → (is : List ι) → Decidable (Along step Q s is)
  | _, [] => isTrue trivial
  | s, i :: is =>
      haveI : Decidable (Along step Q (step s i).1 is) := decidableAlong (step s i).1 is
      inferInstanceAs (Decidable (Q s i ∧ Along step Q (step s i).1 is))

/-- A condition on all steps of a run may be cut anywhere. -/
theorem along_append {Q : σ → ι → Prop} (pre post : List ι) :
    Along step Q s (pre ++ post) ↔ Along step Q s pre ∧ Along step Q (run step s pre).1 post := by
  induction pre generalizing s with
  | nil => simp [Along]
  | cons j pre ih => simp [Along, run, ih, and_assoc]

/-- What holds along a run, with one input more. -/
theorem along_concat {Q : σ → ι → Prop} (pre : List ι) (i : ι) :
    Along step Q s (pre ++ [i]) ↔ Along step Q s pre ∧ Q (run step s pre).1 i := by
  rw [along_append]
  simp [Along]

end Machine

end Lib
