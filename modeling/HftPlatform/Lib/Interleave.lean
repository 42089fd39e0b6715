import Mathlib.Data.List.Induction
import Mathlib.Data.List.Infix

/-!
# Interleavings

Threads that run at once, each through a list of steps of its own. A run lists the steps in the
order in which they were taken, each with the thread that took it; the threads may take turns in any
way.

## Main definitions

* `Interleave.Completes`: every thread has taken all its steps, in order.
* `Interleave.run`: a run on a state, of steps that wait until they can be taken.
* `Interleave.before`: what a run had done whenever an event of it happened.

## Main results

* `Interleave.mem_iff_of_completes`: the steps of a complete run are those of its threads.
* `Interleave.run_induction`: what each step preserves, a run preserves.
* `Interleave.before_concat`: the last event of a run happens after all others.
-/

namespace Lib

namespace Interleave

variable {τ α : Type} [DecidableEq τ]

/-- The steps that a thread takes in a run. -/
def stepsOf (i : τ) (tr : List (τ × α)) : List α :=
  (tr.filter fun e => e.1 = i).map Prod.snd

/-- Every thread has taken all steps of its program, in order. -/
def Completes (program : τ → List α) (tr : List (τ × α)) : Prop :=
  ∀ i, stepsOf i tr = program i

variable {program : τ → List α} {tr : List (τ × α)} {i : τ} {a : α}

/-- The steps of a party are those it took. -/
theorem mem_stepsOf : a ∈ stepsOf i tr ↔ (i, a) ∈ tr := by
  simp only [stepsOf, List.mem_map, List.mem_filter, decide_eq_true_eq]
  constructor
  · rintro ⟨⟨j, b⟩, ⟨hmem, rfl⟩, rfl⟩
    exact hmem
  · intro hmem
    exact ⟨(i, a), ⟨hmem, rfl⟩, rfl⟩

/-- **The steps of a complete run** are those of its threads. -/
theorem mem_iff_of_completes (h : Completes program tr) : (i, a) ∈ tr ↔ a ∈ program i := by
  rw [← h i, mem_stepsOf]

/-! ### Runs on a state -/

section Run

variable {σ ε : Type} {step : σ → ε → Option σ} {s₀ s : σ} {l : List ε}

variable (step s₀) in
/-- A run of steps on a state, each of which can be taken where it stands. -/
def run (l : List ε) : Option σ := l.foldlM step s₀

/-- **The induction rule of runs.** -/
theorem run_induction {P : List ε → σ → Prop} (h0 : P [] s₀)
    (hstep : ∀ pre s e s', P pre s → step s e = some s' → P (pre ++ [e]) s')
    (h : run step s₀ l = some s) : P l s := by
  induction l using List.reverseRecOn generalizing s with
  | nil =>
      obtain rfl := Option.some.inj h
      exact h0
  | append_singleton pre e ih =>
      rw [run, List.foldlM_append, Option.bind_eq_bind, Option.bind_eq_some_iff] at h
      obtain ⟨s₁, hs₁, he⟩ := h
      simp only [List.foldlM_cons, List.foldlM_nil, bind_pure] at he
      exact hstep pre s₁ e s (ih hs₁) he

end Run

/-! ### What went before -/

section Before

variable {ε : Type} [DecidableEq ε] {e x : ε} {l : List ε}

/-- What a run had done each time the event happened. -/
def before (e : ε) : List ε → List (List ε)
  | [] => []
  | x :: l => (if x = e then [[]] else []) ++ (before e l).map (x :: ·)

/-- **The last event** happens after all others. -/
theorem before_concat :
    before e (l ++ [x]) = before e l ++ if x = e then [l] else [] := by
  induction l with
  | nil => simp [before]
  | cons y l ih =>
      rw [List.cons_append, before, ih, before, List.map_append, List.append_assoc]
      congr 2
      split <;> rfl

/-- What was before an event. -/
theorem mem_before {pre : List ε} : pre ∈ before e l ↔ ∃ post, l = pre ++ e :: post := by
  induction l generalizing pre with
  | nil => simp [before]
  | cons x l ih =>
      simp only [before, List.mem_append, List.mem_map]
      constructor
      · rintro (hmem | ⟨pre, hmem, rfl⟩)
        · split at hmem
          · rename_i hx
            rw [List.mem_singleton.mp hmem, hx]
            exact ⟨l, rfl⟩
          · simp at hmem
        · obtain ⟨post, rfl⟩ := ih.mp hmem
          exact ⟨post, rfl⟩
      · rintro ⟨post, hl⟩
        cases pre with
        | nil =>
            rw [List.nil_append, List.cons.injEq] at hl
            simp [hl.1]
        | cons y pre =>
            rw [List.cons_append, List.cons.injEq] at hl
            exact Or.inr ⟨pre, ih.mpr ⟨post, hl.2⟩, by rw [hl.1]⟩

end Before

end Interleave

end Lib
