import HftPlatform.Lib.Machine

/-!
# Machines made of separate parts

A machine that serves many keys at once, each from a part of its state that no input of another key
reads or writes. What it says about the inputs of one key is then what it would say if there were no
others, in whatever order they come.

## Main results

* `Separate.run`: a run, seen from one key, is the run of the inputs of that key.
-/

namespace Lib

namespace Machine

variable {σ τ ι ο κ : Type} [DecidableEq κ]

/-- In the states of an invariant, an input of one key leaves the parts of the other keys alone, and
what it does to its own part, and what is said about it, depends on this part only. -/
structure Separate (step : σ → ι → σ × ο) (key : ι → κ) (view : κ → σ → τ) (Inv : σ → Prop) :
    Prop where
  keeps : ∀ s i, Inv s → Inv (step s i).1
  others : ∀ s i k, Inv s → key i ≠ k → view k (step s i).1 = view k s
  own : ∀ s s' i, Inv s → Inv s' → view (key i) s = view (key i) s' →
    (step s i).2 = (step s' i).2 ∧ view (key i) (step s i).1 = view (key i) (step s' i).1

/-- What is said about the inputs of one key. -/
def saidOf (step : σ → ι → σ × ο) (key : ι → κ) (k : κ) (s : σ) (inputs : List ι) : List ο :=
  ((inputs.zip (run step s inputs).2).filter fun p => key p.1 = k).map Prod.snd

variable {step : σ → ι → σ × ο} {key : ι → κ} {view : κ → σ → τ} {Inv : σ → Prop}

/-- What is said of a key, from the first input on. -/
theorem saidOf_cons (k : κ) (s : σ) (i : ι) (inputs : List ι) :
    saidOf step key k s (i :: inputs) =
      (if key i = k then [(step s i).2] else []) ++ saidOf step key k (step s i).1 inputs := by
  rw [saidOf, run, List.zip_cons_cons, List.filter_cons]
  by_cases hk : key i = k
  · rw [if_pos hk, if_pos (by simpa using hk), List.map_cons, saidOf, List.singleton_append]
  · rw [if_neg hk, if_neg (by simpa using hk), saidOf, List.nil_append]

/-- **A run seen from one key** is the run of the inputs of that key, from any state with the same
part for it. -/
theorem Separate.run (h : Separate step key view Inv) {k : κ} {s s' : σ} (hs : Inv s)
    (hs' : Inv s') (hview : view k s = view k s') (inputs : List ι) :
    saidOf step key k s inputs = (Machine.run step s' (inputs.filter fun i => key i = k)).2 ∧
      view k (Machine.run step s inputs).1 =
        view k (Machine.run step s' (inputs.filter fun i => key i = k)).1 := by
  induction inputs generalizing s s' with
  | nil => exact ⟨rfl, hview⟩
  | cons i inputs ih =>
      rw [saidOf_cons, Machine.run]
      by_cases hk : key i = k
      · subst hk
        obtain ⟨hsaid, hown⟩ := h.own s s' i hs hs' hview
        obtain ⟨hrest, hlast⟩ := ih (h.keeps s i hs) (h.keeps s' i hs') hown
        have hfilter : ((i :: inputs).filter fun j => key j = key i) =
            i :: inputs.filter fun j => key j = key i := List.filter_cons_of_pos (by simp)
        rw [if_pos rfl, hfilter, Machine.run, hsaid, hrest]
        exact ⟨rfl, hlast⟩
      · have hfilter : ((i :: inputs).filter fun j => key j = k) =
            inputs.filter fun j => key j = k := List.filter_cons_of_neg (by simpa using hk)
        rw [if_neg hk, hfilter, List.nil_append]
        exact ih (h.keeps s i hs) hs' ((h.others s i k hs hk).trans hview)

end Machine

end Lib
