import HftPlatform.Lib.Binary64

/-!
# JSON values, and how they are read

The values that a JSON text parses to, and the readers that derived decoders are made of. A record
is read from an object by the names of its fields, whatever else is in the object, or from an array
by their positions. A value of another shape is refused.

## Main results

* `Json.getVec_map_str`: a list of texts is read back.
* `mapM_eq_none_iff`: a list is refused exactly when one of its elements is.
-/

namespace Lib

/-- A whole number is kept in 64 bits, without a sign if it can be. -/
inductive Json
  | null
  | bool (b : Bool)
  | posInt (n : UInt64)
  | negInt (n : Int64)
  | float (x : Binary64)
  | str (s : String)
  | arr (elems : List Json)
  | obj (members : List (String × Json))

namespace Json

/-- A number that is not finite is written as `null`. -/
def ofF64 : Binary64 → Json
  | .fin q => float (.fin q)
  | _ => null

/-- A number of 64 bits. -/
def ofI64 (n : Int64) : Json :=
  if 0 ≤ n then posInt n.toInt.toNat.toUInt64 else negInt n

/-- A value as a boolean. -/
def getBool : Json → Option Bool
  | bool b => some b
  | _ => none

/-- `u64`: neither a negative number nor one with a fraction is read. -/
def getU64 : Json → Option ℕ
  | posInt n => some n.toNat
  | _ => none

/-- A value as a text. -/
def getStr : Json → Option String
  | str s => some s
  | _ => none

/-- `Vec` -/
def getVec {α : Type} (get : Json → Option α) : Json → Option (List α)
  | arr elems => elems.mapM get
  | _ => none

/-- The fields of a record, in the order of their names. -/
def getFields (names : List String) : Json → Option (List Json)
  | obj members => names.mapM (members.lookup ·)
  | arr elems => if elems.length = names.length then some elems else none
  | _ => none

/-- The member of an object under a name. -/
def member (name : String) : Json → Option Json
  | obj members => members.lookup name
  | _ => none

/-- A list of texts is read back. -/
theorem getVec_map_str (ss : List String) : (arr (ss.map str)).getVec getStr = some ss := by
  induction ss with
  | nil => rfl
  | cons s ss ih =>
      rw [getVec] at ih
      rw [getVec, List.map_cons, List.mapM_cons, ih]
      rfl

end Json

/-- A list is refused exactly when one of its elements is. -/
theorem mapM_eq_none_iff {α β : Type} {get : α → Option β} {xs : List α} :
    xs.mapM get = none ↔ ∃ x ∈ xs, get x = none := by
  induction xs with
  | nil => simp
  | cons x xs ih =>
      rw [List.mapM_cons]
      cases hx : get x with
      | none => simp [hx]
      | some y =>
          cases hxs : xs.mapM get with
          | none => simpa [hx, hxs] using ih.mp hxs
          | some ys => simpa [hx, hxs] using ih

end Lib
