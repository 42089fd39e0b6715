import HftPlatform.Lib.Binary64
import Mathlib.Data.List.Basic
import Mathlib.Tactic.Cases
import Mathlib.Tactic.Ring

/-!
# Bytes on the wire

What serializers of messages are made of: texts in UTF-8, integers of a variable length, words of
eight bytes in either order, and reading at an offset.

A double is its bits. Two of them are the same number if they are equal, or both a zero, or both
a NaN.

## Main results

* `Wire.ofUtf8_eq_some_iff`: decoding a text is the inverse of encoding it.
* `Wire.bigEndian_toBigEndian`, `Wire.toBigEndian_bigEndian`: a number and its bytes.
* `Wire.readAt_of_drop`, `Wire.drop_of_readAt`: reading at an offset takes a piece apart.
* `Wire.readText_of_drop`, `Wire.drop_of_readText`: so does reading a text after its length.
* `Wire.Bits64.Same.eq_of_head`: a double whose first byte is neither that of a zero nor that of
  a NaN is the same number as itself only.
-/

namespace Lib

namespace Wire

/-! ### Texts -/

/-- The bytes of a text. -/
def utf8 (s : String) : List UInt8 := s.toUTF8.data.toList

/-- The text of some bytes, if they are well-formed. -/
def ofUtf8 (bytes : List UInt8) : Option String := String.fromUTF8? bytes.toByteArray

/-- A text is read from its own bytes only. -/
theorem ofUtf8_eq_some_iff {bytes : List UInt8} {s : String} :
    ofUtf8 bytes = some s ↔ utf8 s = bytes := by
  rw [ofUtf8, String.fromUTF8?]
  constructor
  · intro h
    split at h
    · obtain rfl := Option.some.inj h
      simp [utf8, String.fromUTF8]
    · simp at h
  · rintro rfl
    have hbytes : (utf8 s).toByteArray = s.toByteArray := by
      rw [utf8, String.toUTF8_eq_toByteArray]
      exact ByteArray.ext (by simp)
    rw [hbytes, dif_pos s.isValidUTF8]
    rfl

/-- Only the empty text has no bytes. -/
theorem utf8_eq_nil_iff {s : String} : utf8 s = [] ↔ s = "" := by
  rw [← ofUtf8_eq_some_iff]
  constructor
  · intro h
    exact Option.some.inj (h.symm.trans (ofUtf8_eq_some_iff.mpr rfl))
  · rintro rfl
    exact ofUtf8_eq_some_iff.mpr rfl

/-! ### Integers -/

/-- A number in groups of seven bits, the lowest first; at most so many groups. -/
def varintIn : ℕ → ℕ → List UInt8
  | 0, _ => []
  | k + 1, n =>
      if n < 128 then [UInt8.ofNat n]
      else UInt8.ofNat (n % 128 + 128) :: varintIn k (n / 128)

/-- A number below `2 ^ 64` as a varint, which has at most ten bytes. -/
def varint (n : ℕ) : List UInt8 := varintIn 10 n

/-- The first group of a number that has another one. -/
theorem varintIn_of_le {k n : ℕ} (h : 128 ≤ n) :
    varintIn (k + 1) n = UInt8.ofNat (n % 128 + 128) :: varintIn k (n / 128) := by
  rw [varintIn, if_neg (by omega)]

/-- The number of some bytes, the most significant first. -/
def bigEndian (bytes : List UInt8) : ℕ := bytes.foldl (fun n b => n * 256 + b.toNat) 0

/-- Reading goes on from the number read so far. -/
theorem foldl_bigEndian (bytes : List UInt8) (n : ℕ) :
    bytes.foldl (fun n b => n * 256 + b.toNat) n = n * 256 ^ bytes.length + bigEndian bytes := by
  induction bytes generalizing n with
  | nil => simp [bigEndian]
  | cons b bs ih =>
      rw [bigEndian, List.foldl_cons, List.foldl_cons, ih, ih, List.length_cons]
      ring

/-- The first byte counts most. -/
theorem bigEndian_cons (b : UInt8) (bs : List UInt8) :
    bigEndian (b :: bs) = b.toNat * 256 ^ bs.length + bigEndian bs := by
  rw [bigEndian, List.foldl_cons, foldl_bigEndian]
  ring

/-- The number of some bytes is bounded by their length. -/
theorem bigEndian_lt (bytes : List UInt8) : bigEndian bytes < 256 ^ bytes.length := by
  induction bytes with
  | nil => simp [bigEndian]
  | cons b bs ih =>
      have hb : b.toNat + 1 ≤ 256 := b.toNat_lt
      rw [bigEndian_cons, List.length_cons]
      calc b.toNat * 256 ^ bs.length + bigEndian bs
          < b.toNat * 256 ^ bs.length + 256 ^ bs.length := by omega
        _ = (b.toNat + 1) * 256 ^ bs.length := by ring
        _ ≤ 256 * 256 ^ bs.length := Nat.mul_le_mul_right _ hb
        _ = 256 ^ (bs.length + 1) := by ring

/-- The last `k` bytes of a number, the most significant first. -/
def toBigEndian : ℕ → ℕ → List UInt8
  | 0, _ => []
  | k + 1, n => UInt8.ofNat (n / 256 ^ k) :: toBigEndian k (n % 256 ^ k)

/-- A number takes as many bytes as it is given. -/
@[simp] theorem length_toBigEndian (k n : ℕ) : (toBigEndian k n).length = k := by
  induction k generalizing n with
  | zero => rfl
  | succ k ih => rw [toBigEndian, List.length_cons, ih]

/-- A number that fits is read back from its bytes. -/
theorem bigEndian_toBigEndian {k n : ℕ} (h : n < 256 ^ k) : bigEndian (toBigEndian k n) = n := by
  induction k generalizing n with
  | zero =>
      obtain rfl : n = 0 := by simpa using h
      rfl
  | succ k ih =>
      have hpos : 0 < 256 ^ k := Nat.pow_pos (by decide)
      have hfirst : n / 256 ^ k < 256 := by
        rw [Nat.div_lt_iff_lt_mul hpos]
        calc n < 256 ^ (k + 1) := h
          _ = 256 * 256 ^ k := by ring
      rw [toBigEndian, bigEndian_cons, length_toBigEndian, ih (Nat.mod_lt _ hpos),
        UInt8.toNat_ofNat', Nat.mod_eq_of_lt hfirst, Nat.div_add_mod']

/-- Bytes are those of the number that is read from them. -/
theorem toBigEndian_bigEndian (bytes : List UInt8) :
    toBigEndian bytes.length (bigEndian bytes) = bytes := by
  induction bytes with
  | nil => rfl
  | cons b bs ih =>
      have hpos : 0 < 256 ^ bs.length := Nat.pow_pos (by decide)
      have hrest := bigEndian_lt bs
      rw [List.length_cons, toBigEndian, bigEndian_cons, Nat.mul_comm,
        Nat.mul_add_div hpos, Nat.div_eq_of_lt hrest, Nat.add_zero, Nat.mul_add_mod,
        Nat.mod_eq_of_lt hrest, ih, UInt8.ofNat_toNat]

/-- The word of a signed number, in two's complement. -/
def toWord (x : ℤ) : ℕ := (x % 2 ^ 64).toNat

/-- The signed number of a word. -/
def ofWord (n : ℕ) : ℤ := if n < 2 ^ 63 then n else n - 2 ^ 64

/-- A word is the word of its number. -/
theorem toWord_ofWord {n : ℕ} (h : n < 2 ^ 64) : toWord (ofWord n) = n := by
  rw [toWord, ofWord]
  split <;> omega

/-- A number in range is the number of its word. -/
theorem ofWord_toWord {x : ℤ} (h : -2 ^ 63 ≤ x) (h' : x < 2 ^ 63) : ofWord (toWord x) = x := by
  rw [toWord, ofWord]
  split <;> omega

/-- A word fits into eight bytes. -/
theorem toWord_lt (x : ℤ) : toWord x < 256 ^ 8 := by
  rw [toWord]
  omega

/-- The number of a word is in range. -/
theorem ofWord_mem {n : ℕ} (h : n < 2 ^ 64) : -2 ^ 63 ≤ ofWord n ∧ ofWord n < 2 ^ 63 := by
  rw [ofWord]
  split <;> omega

/-- An unsigned number in `k` bytes, if it fits. -/
def packUnsigned (k : ℕ) (x : ℤ) : Option (List UInt8) :=
  if 0 ≤ x ∧ x < 256 ^ k then some (toBigEndian k x.toNat) else none

/-- A signed number in eight bytes, if it fits. -/
def packSigned (x : ℤ) : Option (List UInt8) :=
  if -2 ^ 63 ≤ x ∧ x < 2 ^ 63 then some (toBigEndian 8 (toWord x)) else none

/-- A number that fits is packed. -/
theorem packUnsigned_natCast {k n : ℕ} (h : n < 256 ^ k) :
    packUnsigned k n = some (toBigEndian k n) := by
  rw [packUnsigned, if_pos ⟨Int.natCast_nonneg n, by exact_mod_cast h⟩, Int.toNat_natCast]

/-- The numbers that are packed, and their bytes. -/
theorem packUnsigned_eq_some_iff {k : ℕ} {x : ℤ} {bytes : List UInt8} :
    packUnsigned k x = some bytes ↔ (0 ≤ x ∧ x < 256 ^ k) ∧ bytes = toBigEndian k x.toNat := by
  rw [packUnsigned]
  split
  · rename_i h
    rw [Option.some.injEq, and_iff_right h, eq_comm]
  · rename_i h
    constructor
    · rintro ⟨⟩
    · intro h'
      exact absurd h'.1 h

/-- The signed numbers that are packed, and their bytes. -/
theorem packSigned_eq_some_iff {x : ℤ} {bytes : List UInt8} : packSigned x = some bytes ↔
    (-2 ^ 63 ≤ x ∧ x < 2 ^ 63) ∧ bytes = toBigEndian 8 (toWord x) := by
  rw [packSigned]
  split
  · rename_i h
    rw [Option.some.injEq, and_iff_right h, eq_comm]
  · rename_i h
    constructor
    · rintro ⟨⟩
    · intro h'
      exact absurd h'.1 h

/-- A text after its length, which has two bytes. -/
def packText (s : String) : Option (List UInt8) :=
  (packUnsigned 2 (utf8 s).length).map (· ++ utf8 s)

/-- The texts that are packed, and their bytes. -/
theorem packText_eq_some_iff {s : String} {bytes : List UInt8} : packText s = some bytes ↔
    (utf8 s).length < 256 ^ 2 ∧ bytes = toBigEndian 2 (utf8 s).length ++ utf8 s := by
  rw [packText, packUnsigned]
  split
  · rename_i h
    have hlt : (utf8 s).length < 256 ^ 2 := by exact_mod_cast h.2
    rw [Option.map_some, Option.some.injEq, and_iff_right hlt, eq_comm, Int.toNat_natCast]
  · rename_i h
    have hle : ¬ (utf8 s).length < 256 ^ 2 := by
      intro hlt
      exact h ⟨Int.natCast_nonneg _, by exact_mod_cast hlt⟩
    rw [Option.map_none]
    constructor
    · rintro ⟨⟩
    · intro h
      exact absurd h.1 hle

/-! ### Doubles -/

/-- The bits of a double, the most significant byte first. -/
structure Bits64 where
  bytes : List UInt8
  length_eq : bytes.length = 8
  deriving DecidableEq

namespace Bits64

/-- The bits without the sign. -/
def magnitude (d : Bits64) : ℕ := bigEndian d.bytes % 2 ^ 63

/-- A zero of either sign. -/
def isZero (d : Bits64) : Bool := d.magnitude = 0

/-- The bits are above those of an infinity. -/
def isNaN (d : Bits64) : Bool := 0x7ff0000000000000 < d.magnitude

/-- The zero without a sign. -/
def zero : Bits64 := ⟨List.replicate 8 0, rfl⟩

/-- The number that the bits stand for. The sign of a zero is not kept. -/
def toBinary64 (d : Bits64) : Binary64 :=
  let exponent : ℕ := d.magnitude / 2 ^ 52
  let fraction : ℕ := d.magnitude % 2 ^ 52
  let negative := 2 ^ 63 ≤ bigEndian d.bytes
  if exponent = 2047 then if fraction = 0 then .inf negative else .nan
  else
    let value : ℚ :=
      if exponent = 0 then fraction * 2 ^ (-1074 : ℤ)
      else (2 ^ 52 + fraction) * 2 ^ ((exponent : ℤ) - 1075)
    .fin (if negative then -value else value)

example : toBinary64 ⟨[0x3f, 0xf8, 0, 0, 0, 0, 0, 0], rfl⟩ = .fin (3 / 2) := by decide +kernel

/-- The same number. -/
def Same (a b : Bits64) : Prop := a = b ∨ (a.isZero ∧ b.isZero) ∨ (a.isNaN ∧ b.isNaN)

/-- A first byte that is not zero, but for the sign, is not that of a zero. -/
theorem not_isZero_of_head {a : Bits64} {x : UInt8} {rest : List UInt8}
    (ha : a.bytes = x :: rest) (hx : 0 < x.toNat % 128) : a.isZero = false := by
  have hlength := a.length_eq
  rw [ha, List.length_cons] at hlength
  have hrest : rest.length = 7 := by omega
  have hlt := bigEndian_lt rest
  rw [hrest] at hlt
  simp only [isZero, magnitude, ha, bigEndian_cons, hrest, decide_eq_false_iff_not]
  omega

/-- A first byte that is not full, but for the sign, is not that of a NaN. -/
theorem not_isNaN_of_head {a : Bits64} {x : UInt8} {rest : List UInt8}
    (ha : a.bytes = x :: rest) (hx : x.toNat % 128 < 127) : a.isNaN = false := by
  have hlength := a.length_eq
  rw [ha, List.length_cons] at hlength
  have hrest : rest.length = 7 := by omega
  have hlt := bigEndian_lt rest
  rw [hrest] at hlt
  simp only [isNaN, magnitude, ha, bigEndian_cons, hrest, decide_eq_false_iff_not]
  omega

/-- **A number that is told by its bits.** -/
theorem Same.eq_of_head {a b : Bits64} {x : UInt8} {rest : List UInt8} (h : Same a b)
    (ha : a.bytes = x :: rest) (hx : 0 < x.toNat % 128) (hx' : x.toNat % 128 < 127) : a = b := by
  rcases h with h | ⟨h, -⟩ | ⟨h, -⟩
  · exact h
  · simp [not_isZero_of_head ha hx] at h
  · simp [not_isNaN_of_head ha hx'] at h

end Bits64

/-! ### Reading -/

/-- So many bytes at an offset, if there are as many. -/
def readAt (size : ℕ) (data : List UInt8) (offset : ℕ) : Option (List UInt8) :=
  if offset + size ≤ data.length then some ((data.drop offset).take size) else none

/-- What is read is there. -/
theorem readAt_le {size offset : ℕ} {data piece : List UInt8}
    (h : readAt size data offset = some piece) : offset + size ≤ data.length := by
  rw [readAt] at h
  split at h
  · assumption
  · simp at h

/-- A piece is read where it stands, and the rest follows it. -/
theorem readAt_of_drop {data piece post : List UInt8} {size offset : ℕ}
    (h : data.drop offset = piece ++ post) (hsize : piece.length = size) (hpos : 0 < size) :
    readAt size data offset = some piece ∧ data.drop (offset + size) = post := by
  have hlength := congrArg List.length h
  rw [List.length_drop, List.length_append, hsize] at hlength
  rw [readAt, if_pos (by omega), ← List.drop_drop, h, ← hsize, List.take_left, List.drop_left]
  exact ⟨rfl, rfl⟩

/-- What was read stands at the offset. -/
theorem drop_of_readAt {data piece : List UInt8} {size offset : ℕ}
    (h : readAt size data offset = some piece) :
    piece.length = size ∧ data.drop offset = piece ++ data.drop (offset + size) := by
  rw [readAt] at h
  split at h
  · obtain rfl := Option.some.inj h
    refine ⟨by simp; omega, ?_⟩
    rw [← List.drop_drop, List.take_append_drop]
  · simp at h

/-- A text is read where it stands after its length, and the rest follows it. -/
theorem readText_of_drop {data post : List UInt8} {s : String} {offset : ℕ}
    (h : data.drop offset = toBigEndian 2 (utf8 s).length ++ (utf8 s ++ post)) :
    readAt 2 data offset = some (toBigEndian 2 (utf8 s).length) ∧
      ofUtf8 ((data.drop (offset + 2)).take (utf8 s).length) = some s ∧
      data.drop (offset + 2 + (utf8 s).length) = post := by
  obtain ⟨hread, hdrop⟩ := readAt_of_drop h (length_toBigEndian 2 _) (by omega)
  refine ⟨hread, ?_, ?_⟩
  · rw [hdrop, List.take_left]
    exact ofUtf8_eq_some_iff.mpr rfl
  · rw [← List.drop_drop, hdrop, List.drop_left]

/-- A text that was read stands after its length, if the data reach that far. -/
theorem drop_of_readText {data head : List UInt8} {s : String} {offset : ℕ}
    (hread : readAt 2 data offset = some head)
    (hs : ofUtf8 ((data.drop (offset + 2)).take (bigEndian head)) = some s)
    (hlength : offset + 2 + bigEndian head ≤ data.length) :
    (utf8 s).length = bigEndian head ∧ data.drop offset =
      toBigEndian 2 (utf8 s).length ++ (utf8 s ++ data.drop (offset + 2 + bigEndian head)) := by
  obtain ⟨hhead, hdrop⟩ := drop_of_readAt hread
  rw [ofUtf8_eq_some_iff] at hs
  have hutf8 : (utf8 s).length = bigEndian head := by
    rw [hs, List.length_take, List.length_drop]
    omega
  refine ⟨hutf8, ?_⟩
  have hbytes := toBigEndian_bigEndian head
  rw [hhead] at hbytes
  have hslice : utf8 s ++ data.drop (offset + 2 + bigEndian head) = data.drop (offset + 2) := by
    rw [hs, ← List.drop_drop (j := offset + 2), List.take_append_drop]
  rw [hdrop, hutf8, hbytes, hslice]

end Wire

end Lib
