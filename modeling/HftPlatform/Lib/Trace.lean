import Mathlib.Data.List.Induction

/-!
# Traces

A trace lists the events of a run, the oldest first. What a run guarantees about the order of its
events says of each of them what went before.

## Main definitions

* `Trace.Preceded`: every event stands in a relation to its past.

## Main results

* `Trace.preceded_append`: a trace may be judged in two parts, the second with the first as a past.
-/

namespace Lib

namespace Trace

variable {ε : Type} {P : List ε → ε → Prop} {l l' : List ε} {e : ε}

/-- Every event of the trace stands in the relation `P` to the events before it. -/
def Preceded (P : List ε → ε → Prop) (trace : List ε) : Prop :=
  ∀ pre e post, trace = pre ++ e :: post → P pre e

/-- Nothing was seen. -/
@[simp] theorem preceded_nil : Preceded P [] := by
  intro pre e post h
  simp at h

/-- An event more is judged with the whole trace as its past. -/
theorem preceded_concat : Preceded P (l ++ [e]) ↔ Preceded P l ∧ P l e := by
  constructor
  · intro h
    refine ⟨fun pre x post hl => h pre x (post ++ [e]) ?_, h l e [] rfl⟩
    rw [hl, List.append_assoc, List.cons_append]
  · rintro ⟨hl, he⟩ pre x post heq
    rcases List.eq_nil_or_concat post with rfl | ⟨post, y, rfl⟩
    · obtain ⟨rfl, hx⟩ := List.append_inj' heq rfl
      obtain rfl : e = x := by simpa using hx
      exact he
    · rw [List.concat_eq_append, ← List.cons_append, ← List.append_assoc] at heq
      exact hl pre x post (List.append_inj' heq rfl).1

/-- **A trace in two parts**: the first is the past of the second. -/
theorem preceded_append :
    Preceded P (l ++ l') ↔ Preceded P l ∧ Preceded (fun pre => P (l ++ pre)) l' := by
  induction l' using List.reverseRecOn with
  | nil => simp
  | append_singleton l' e ih =>
      rw [← List.append_assoc, preceded_concat, ih, preceded_concat, and_assoc]

end Trace

end Lib
