import Mathlib.Data.List.Basic

/-!
# Last writer wins

A register that a list of items is written to one by one: an item writes a value, or leaves the
register as it is. What it holds in the end depends on the order of the items only as far as they
write different values.

## Main results

* `lastWrite_concat`: the last item that writes decides.
* `lastWrite_perm_iff`: when the order of the items makes no difference.
-/

namespace Lib

variable {α β : Type}

/-- What the register holds after all items were written to it, `none` if no item writes. -/
def lastWrite (writes : α → Option β) (items : List α) : Option β :=
  items.reverse.findSome? writes

variable {writes : α → Option β} {items : List α} {a : α} {x : β}

/-- Nothing was written. -/
@[simp] theorem lastWrite_nil : lastWrite writes [] = none := rfl

/-- A later write hides the earlier ones. -/
theorem lastWrite_concat :
    lastWrite writes (items ++ [a]) = (writes a <|> lastWrite writes items) := by
  rw [lastWrite, List.reverse_append, List.reverse_singleton, List.singleton_append,
    List.findSome?_cons]
  cases writes a <;> rfl

/-- The items of two sequences, one after the other. -/
theorem lastWrite_append {items' : List α} :
    lastWrite writes (items ++ items') = (lastWrite writes items' <|> lastWrite writes items) := by
  rw [lastWrite, List.reverse_append, List.findSome?_append]
  cases h : items'.reverse.findSome? writes <;> simp [lastWrite, h]

/-- The register holds a value that some item wrote. -/
theorem exists_of_lastWrite (h : lastWrite writes items = some x) :
    ∃ a ∈ items, writes a = some x := by
  obtain ⟨a, ha, hx⟩ := List.exists_of_findSome?_eq_some h
  exact ⟨a, List.mem_reverse.mp ha, hx⟩

/-- A register that an item writes to is not empty. -/
theorem lastWrite_ne_none (ha : a ∈ items) (hx : writes a = some x) :
    lastWrite writes items ≠ none := by
  intro h
  have hnone := List.findSome?_eq_none_iff.mp h a (List.mem_reverse.mpr ha)
  rw [hx] at hnone
  cases hnone

/-- Every value that is written is the last one in some order of the items. -/
theorem exists_perm_lastWrite (ha : a ∈ items) (hx : writes a = some x) :
    ∃ items', items'.Perm items ∧ lastWrite writes items' = some x := by
  obtain ⟨before, after, rfl⟩ := List.append_of_mem ha
  refine ⟨(before ++ after) ++ [a], ?_, ?_⟩
  · exact (List.perm_append_singleton a _).trans List.perm_middle.symm
  · rw [lastWrite_concat, hx]
    rfl

/-- **The order makes no difference** exactly when all items that write write the same. -/
theorem lastWrite_perm_iff :
    (∀ items' items'', items'.Perm items → items''.Perm items →
        lastWrite writes items' = lastWrite writes items'') ↔
      ∀ a ∈ items, ∀ b ∈ items, ∀ x y, writes a = some x → writes b = some y → x = y := by
  constructor
  · intro h a ha b hb x y hx hy
    obtain ⟨first, hfirst, hlast⟩ := exists_perm_lastWrite ha hx
    obtain ⟨second, hsecond, hlast'⟩ := exists_perm_lastWrite hb hy
    have heq := h first second hfirst hsecond
    rw [hlast, hlast'] at heq
    exact Option.some.inj heq
  · intro h first second hfirst hsecond
    cases hx : lastWrite writes first with
    | none =>
        cases hy : lastWrite writes second with
        | none => rfl
        | some y =>
            obtain ⟨b, hb, hwrite⟩ := exists_of_lastWrite hy
            have hmem : b ∈ first := hfirst.mem_iff.mpr (hsecond.mem_iff.mp hb)
            exact absurd hx (lastWrite_ne_none hmem hwrite)
    | some x =>
        obtain ⟨a, ha, hwrite⟩ := exists_of_lastWrite hx
        have hmem : a ∈ second := hsecond.mem_iff.mpr (hfirst.mem_iff.mp ha)
        obtain ⟨y, hy⟩ := Option.ne_none_iff_exists'.mp (lastWrite_ne_none hmem hwrite)
        obtain ⟨b, hb, hwrite'⟩ := exists_of_lastWrite hy
        rw [hy, h a (hfirst.mem_iff.mp ha) b (hsecond.mem_iff.mp hb) x y hwrite hwrite']

end Lib
