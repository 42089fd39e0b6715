import Mathlib.Data.List.Infix
import Mathlib.Data.List.TakeWhile

/-!
# Text as the services handle it

The string operations of the program's standard library that its services branch on, on
the characters of a string: trimming of Unicode white space, ASCII case folding, lower-casing up
to the tables of Unicode, and the tests for a prefix and for a substring.

## Main results

* `infix_append_cons_iff`: where a pattern that begins with a separator is found.
* `not_mem_lowered`: a character that only its own lower case holds is not brought in.
-/

namespace Lib

/-- The Unicode `White_Space` property. -/
def isWhitespace (c : Char) : Bool :=
  let n := c.toNat
  (0x9 ≤ n && n ≤ 0xD) || n = 0x20 || n = 0x85 || n = 0xA0 || n = 0x1680 ||
    (0x2000 ≤ n && n ≤ 0x200A) || n = 0x2028 || n = 0x2029 || n = 0x202F || n = 0x205F ||
    n = 0x3000

/-- `str::trim`. -/
def trim (s : String) : String :=
  String.ofList (((s.toList.dropWhile isWhitespace).reverse.dropWhile isWhitespace).reverse)

/-- A text that begins with something else than white space is not blank. -/
theorem trim_ne_empty {s : String} {c : Char} (hs : s.toList.head? = some c)
    (hc : isWhitespace c = false) : trim s ≠ "" := by
  obtain ⟨cs, hcs⟩ := List.head?_eq_some_iff.mp hs
  have hstart : s.toList.dropWhile isWhitespace = c :: cs := by
    rw [hcs, List.dropWhile_cons_of_neg (by simp [hc])]
  intro hblank
  have hnil : (c :: cs).reverse.dropWhile isWhitespace = [] := by
    simpa [trim, hstart] using congrArg String.toList hblank
  have hwhite : isWhitespace c = true := List.dropWhile_eq_nil_iff.mp hnil c (by simp)
  rw [hc] at hwhite
  cases hwhite

/-- `str::to_ascii_uppercase`. -/
def toAsciiUppercase (s : String) : String :=
  String.ofList (s.toList.map Char.toUpper)

/-- `str::to_ascii_lowercase`. -/
def toAsciiLowercase (s : String) : String :=
  String.ofList (s.toList.map Char.toLower)

/-- `str::eq_ignore_ascii_case`. -/
def eqIgnoreAsciiCase (s t : String) : Bool :=
  toAsciiUppercase s = toAsciiUppercase t

/-- What lower-casing reads of Unicode. -/
structure Unicode where
  lower : Char → List Char
  cased : Char → Bool
  caseIgnorable : Char → Bool

namespace Unicode

variable (u : Unicode)

/-- The first character that is not ignored is cased. -/
def nextCased (cs : List Char) : Bool :=
  match cs.dropWhile u.caseIgnorable with
  | c :: _ => u.cased c
  | [] => false

/-- The lower case of characters that come after others, which are given from the last to the
first. A capital sigma is lowered by its place in its word. -/
def lowered : List Char → List Char → List Char
  | _, [] => []
  | before, c :: after =>
      (if c = 'Σ' then [if u.nextCased before && !u.nextCased after then 'ς' else 'σ']
        else u.lower c) ++ lowered (c :: before) after

/-- `str::to_lowercase`. -/
def toLowercase (s : String) : String :=
  String.ofList (u.lowered [] s.toList)

/-- A character that only its own lower case holds is not brought in. -/
theorem not_mem_lowered {u : Unicode} {sep : Char} (hlower : ∀ c, sep ∈ u.lower c → c = sep)
    (hfinal : sep ≠ 'ς') (hsigma : sep ≠ 'σ') {before cs : List Char} (h : sep ∉ cs) :
    sep ∉ u.lowered before cs := by
  induction cs generalizing before with
  | nil => simp [lowered]
  | cons c after ih =>
      obtain ⟨hc, hafter⟩ := not_or.mp (mt List.mem_cons.mpr h)
      rw [lowered, List.mem_append, not_or]
      refine ⟨?_, ih hafter⟩
      split
      · split <;> simpa
      · exact fun hmem => hc (hlower c hmem).symm

/-- The tables, as far as ASCII goes. -/
def ascii : Unicode where
  lower c := [c.toLower]
  cased := Char.isAlpha
  caseIgnorable _ := false

/-- In ASCII only letters change. -/
theorem eq_of_mem_lower_ascii {sep : Char} (hsep : sep.isAlpha = false) (c : Char)
    (h : sep ∈ ascii.lower c) : c = sep := by
  have heq : sep = c.toLower := by simpa [ascii] using h
  have hnotLower : sep.isLower = false := (Bool.or_eq_false_iff.mp hsep).2
  unfold Char.toLower at heq
  split at heq
  · -- A capital would have become a letter.
    rename_i hcapital
    have hval : sep.val = c.val + 32 := congrArg Char.val heq
    have hletter : sep.isLower = true := by
      show (decide (sep.val ≥ 97) && decide (sep.val ≤ 122)) = true
      simp [hval, UInt32.le_iff_toNat_le] at hcapital ⊢
      omega
    rw [hnotLower] at hletter
    cases hletter
  · exact heq.symm

end Unicode

/-- `str::starts_with`. -/
def startsWith (s pre : String) : Bool :=
  pre.toList.isPrefixOf s.toList

/-- A string literal put in front is found there. -/
@[simp] theorem startsWith_append (pre s : String) : startsWith (pre ++ s) pre = true := by
  simp [startsWith]

/-- `str::contains`. -/
def contains (s sub : String) : Bool :=
  sub.toList <:+: s.toList

@[simp] theorem contains_append_self (pre s : String) : contains (pre ++ s) pre = true := by
  rw [contains, String.toList_append]
  exact decide_eq_true (List.prefix_append _ _).isInfix

section Separated

variable {α : Type} {sep : α} {pat text post : List α}

/-- A pattern that begins with a separator is found at the first separator, or after it. -/
theorem infix_append_cons_iff (h : sep ∉ text) :
    sep :: pat <:+: text ++ sep :: post ↔ pat <+: post ∨ sep :: pat <:+: post := by
  induction text with
  | nil => rw [List.nil_append, List.infix_cons_iff, List.cons_prefix_cons, and_iff_right rfl]
  | cons c text ih =>
      obtain ⟨hc, htext⟩ := not_or.mp (mt List.mem_cons.mpr h)
      rw [List.cons_append, List.infix_cons_iff, List.cons_prefix_cons, ih htext]
      simp [hc]

end Separated

/-- A text without a separator is passed over, in front of one that begins with the separator. -/
theorem contains_append {sep : Char} {s t pat : String} (hs : sep ∉ s.toList)
    (ht : t.toList.head? = some sep) (hpat : pat.toList.head? = some sep) :
    contains (s ++ t) pat = contains t pat := by
  obtain ⟨cs, hcs⟩ := List.head?_eq_some_iff.mp hpat
  obtain ⟨ds, hds⟩ := List.head?_eq_some_iff.mp ht
  rw [contains, contains, String.toList_append, hcs, hds]
  refine decide_eq_decide.mpr ?_
  rw [infix_append_cons_iff hs, List.infix_cons_iff, List.cons_prefix_cons, and_iff_right rfl]

end Lib
