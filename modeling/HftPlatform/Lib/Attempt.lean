import Mathlib.Data.List.Infix

/-!
# Attempts whose answer may be lost

A program appends to a log that it does not own: a topic, or a table of another server. An attempt
that is answered has arrived. One that fails may have arrived all the same, since the answer can be
lost as well as the request.

## Main results

* `Attempt.takes_prefix`: a log takes what was offered, or nothing.
* `Attempt.append_takes_failed`: what an attempt that fails leaves behind.
-/

namespace Lib

/-- How an attempt to append ends. -/
inductive Attempt
  | done
  | failed (cause : String) (arrived : Bool)
  deriving DecidableEq, Repr

namespace Attempt

variable {α β : Type}

/-- What the log takes of what it is offered in one attempt. -/
def takes : Attempt → List α → List α
  | done, xs => xs
  | failed _ arrived, xs => if arrived then xs else []

/-- What the program learns. -/
def answer (value : β) : Attempt → Except String β
  | done => .ok value
  | failed cause _ => .error cause

/-- A log takes what was offered, or nothing. -/
theorem takes_prefix (a : Attempt) (xs : List α) : a.takes xs <+: xs := by
  cases a with
  | done => exact List.prefix_rfl
  | failed cause arrived =>
      cases arrived with
      | true => exact List.prefix_rfl
      | false => exact List.nil_prefix

/-- An attempt that fails either arrives, or is as if it had not been made. -/
theorem append_takes_failed (cause : String) (arrived : Bool) (log xs : List α) :
    log ++ (failed cause arrived).takes xs = if arrived then log ++ xs else log := by
  cases arrived with
  | true => rfl
  | false => exact List.append_nil log

end Attempt

end Lib
