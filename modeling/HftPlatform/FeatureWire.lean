import HftPlatform.Indicators
import HftPlatform.Lib.Wire

/-!
# The feature topic

`services/feature_engine/src/producer.rs` encodes a feature vector as the message `md.FeatureState`
of `proto/md/features.proto`; `libs/python/hft_proto/hft_proto/md/types.py` decodes a compact
format of its own: a length in two bytes, the symbol, the time, and seven doubles, all of them with
the most significant byte first.

The bytes of a message are those of the proto3 format: a field is its tag and its value, in the
order of the fields, and a field with the default value is left out. A double is its bits.

## Main results

* `FeatureStateMsg.fromBytes_iff`: what the decoder accepts.
* `fromBytes_publish_iff`: which feature vectors are read as they were written.
-/

namespace HftPlatform.Md

open Lib.Wire
open FeatureEngine (FeatureVector)

/-! ### The encoder -/

/-- The message `md.FeatureState`. -/
structure FeatureState (F : Type) where
  symbol : String
  ts : ℤ
  emaFast : F
  emaSlow : F
  rsi : F
  macd : F
  macdSignal : F
  macdHist : F
  vwap : F
  schemaVersion : ℕ
  adx : F
  atr : F
  regime : ℕ
  volZscore : F
  oiChangePct : F

/-- A text under its tag, unless it is empty. -/
def stringField (tag : UInt8) (s : String) : List UInt8 :=
  if s = "" then [] else tag :: (varint (utf8 s).length ++ utf8 s)

/-- A number under its tag, unless it is zero. -/
def int64Field (tag : UInt8) (x : ℤ) : List UInt8 :=
  if x = 0 then [] else tag :: varint (toWord x)

/-- The same for a number without a sign. -/
def uint32Field (tag : UInt8) (n : ℕ) : List UInt8 :=
  if n = 0 then [] else tag :: varint n

/-- A double is written with its lowest byte first. -/
def doubleField (tag : UInt8) (d : Bits64) : List UInt8 :=
  if d.isZero then [] else tag :: d.bytes.reverse

/-- The fields after those that the decoder looks for. -/
def FeatureState.encodeRest (m : FeatureState Bits64) : List UInt8 :=
  uint32Field 0x50 m.schemaVersion ++ doubleField 0x59 m.adx ++ doubleField 0x61 m.atr ++
    uint32Field 0x68 m.regime ++ doubleField 0x71 m.volZscore ++ doubleField 0x79 m.oiChangePct

/-- The seven doubles that the decoder looks for, and what follows them. -/
def FeatureState.encodeDoubles (m : FeatureState Bits64) : List UInt8 :=
  doubleField 0x19 m.emaFast ++ (doubleField 0x21 m.emaSlow ++ (doubleField 0x29 m.rsi ++
    (doubleField 0x31 m.macd ++ (doubleField 0x39 m.macdSignal ++ (doubleField 0x41 m.macdHist ++
      (doubleField 0x49 m.vwap ++ m.encodeRest))))))

/-- The bytes of a message. -/
def FeatureState.encode (m : FeatureState Bits64) : List UInt8 :=
  stringField 0x0A m.symbol ++ (int64Field 0x10 m.ts ++ m.encodeDoubles)

/-- The message that `FeatureProducer::publish` sends for a feature vector. -/
def publish {F : Type} (fv : FeatureVector F) : FeatureState F where
  symbol := fv.symbol
  ts := fv.ts
  emaFast := fv.emaFast
  emaSlow := fv.emaSlow
  rsi := fv.rsi
  macd := fv.macd
  macdSignal := fv.macdSignal
  macdHist := fv.macdHist
  vwap := fv.vwap
  adx := fv.adx
  atr := fv.atr
  regime := fv.regime
  volZscore := fv.volZscore
  oiChangePct := fv.oiChangePct
  schemaVersion := 1

/-! ### The decoder -/

/-- The vector as the Python side has it. -/
structure FeatureStateMsg where
  symbol : String
  ts : ℤ
  emaFast : Bits64
  emaSlow : Bits64
  rsi : Bits64
  macd : Bits64
  macdSignal : Bits64
  macdHist : Bits64
  vwap : Bits64

/-- A double at an offset. -/
def readDouble (data : List UInt8) (offset : ℕ) : Option Bits64 :=
  (readAt 8 data offset).bind fun bytes =>
    if h : bytes.length = 8 then some ⟨bytes, h⟩ else none

/-- The slice of the symbol ends with the data at the latest; what is unpacked must be there. -/
def FeatureStateMsg.fromBytes (data : List UInt8) : Option FeatureStateMsg := do
  let symLen := bigEndian (← readAt 2 data 0)
  let symbol ← ofUtf8 ((data.drop 2).take symLen)
  let offset := 2 + symLen
  let ts := ofWord (bigEndian (← readAt 8 data offset))
  let offset := offset + 8
  return {
    symbol
    ts
    emaFast := ← readDouble data offset
    emaSlow := ← readDouble data (offset + 8)
    rsi := ← readDouble data (offset + 16)
    macd := ← readDouble data (offset + 24)
    macdSignal := ← readDouble data (offset + 32)
    macdHist := ← readDouble data (offset + 40)
    vwap := ← readDouble data (offset + 48) }

/-- A double that is there is read. -/
theorem readDouble_of_drop {data post : List UInt8} {d : Bits64} {offset : ℕ}
    (h : data.drop offset = d.bytes ++ post) :
    readDouble data offset = some d ∧ data.drop (offset + 8) = post := by
  obtain ⟨hread, hpost⟩ := readAt_of_drop h d.length_eq (by omega)
  rw [readDouble, hread, Option.bind_some, dif_pos d.length_eq]
  exact ⟨rfl, hpost⟩

/-- A double that is read is there. -/
theorem drop_of_readDouble {data : List UInt8} {d : Bits64} {offset : ℕ}
    (h : readDouble data offset = some d) :
    data.drop offset = d.bytes ++ data.drop (offset + 8) := by
  obtain ⟨bytes, hbytes, hd⟩ := Option.bind_eq_some_iff.mp h
  split at hd
  · obtain rfl := Option.some.inj hd
    exact (drop_of_readAt hbytes).2
  · simp at hd

/-- The seven doubles of a message, one after the other. -/
def FeatureStateMsg.doubles (msg : FeatureStateMsg) (post : List UInt8) : List UInt8 :=
  msg.emaFast.bytes ++ (msg.emaSlow.bytes ++ (msg.rsi.bytes ++ (msg.macd.bytes ++
    (msg.macdSignal.bytes ++ (msg.macdHist.bytes ++ (msg.vwap.bytes ++ post))))))

/-- **What the decoder accepts**, and how it is taken apart. -/
theorem FeatureStateMsg.fromBytes_iff {data : List UInt8} {msg : FeatureStateMsg} :
    fromBytes data = some msg ↔ ∃ head sym time post,
      data = head ++ (sym ++ (time ++ msg.doubles post)) ∧ head.length = 2 ∧
        sym.length = bigEndian head ∧ ofUtf8 sym = some msg.symbol ∧ time.length = 8 ∧
        msg.ts = ofWord (bigEndian time) := by
  constructor
  · intro h
    simp only [fromBytes, Option.bind_eq_bind, Option.bind_eq_some_iff, Option.pure_def] at h
    obtain ⟨head, hhead, sym, hsym, time, htime, d₁, h₁, d₂, h₂, d₃, h₃, d₄, h₄, d₅, h₅, d₆, h₆,
      d₇, h₇, hmsg⟩ := h
    obtain rfl := Option.some.inj hmsg
    obtain ⟨hlength, hdrop⟩ := drop_of_readAt hhead
    obtain ⟨hlength', hdrop'⟩ := drop_of_readAt htime
    have hsome := congrArg List.length hdrop'
    rw [List.length_drop, List.length_append, hlength'] at hsome
    refine ⟨head, (data.drop 2).take (bigEndian head), time,
      data.drop (2 + bigEndian head + 8 + 48 + 8), ?_, hlength, ?_, hsym, hlength', rfl⟩
    · rw [doubles, ← drop_of_readDouble h₇, ← drop_of_readDouble h₆, ← drop_of_readDouble h₅,
        ← drop_of_readDouble h₄, ← drop_of_readDouble h₃, ← drop_of_readDouble h₂,
        ← drop_of_readDouble h₁, ← hdrop', ← List.drop_drop, List.take_append_drop]
      exact hdrop
    · rw [List.length_take, List.length_drop]
      omega
  · rintro ⟨head, sym, time, post, hdata, hhead, hsym, hsymbol, htime, hts⟩
    obtain ⟨rhead, hdata⟩ := readAt_of_drop (show data.drop 0 = _ from hdata) hhead (by omega)
    have hslice : (data.drop 2).take (bigEndian head) = sym := by
      rw [hdata, ← hsym, List.take_left]
    have hdata := congrArg (List.drop (bigEndian head)) hdata
    rw [List.drop_drop, ← hsym, List.drop_left, hsym] at hdata
    obtain ⟨rtime, hdata⟩ := readAt_of_drop hdata htime (by omega)
    obtain ⟨r₁, hdata⟩ := readDouble_of_drop hdata
    obtain ⟨r₂, hdata⟩ := readDouble_of_drop hdata
    obtain ⟨r₃, hdata⟩ := readDouble_of_drop hdata
    obtain ⟨r₄, hdata⟩ := readDouble_of_drop hdata
    obtain ⟨r₅, hdata⟩ := readDouble_of_drop hdata
    obtain ⟨r₆, hdata⟩ := readDouble_of_drop hdata
    obtain ⟨r₇, -⟩ := readDouble_of_drop hdata
    simp only [fromBytes, Option.bind_eq_bind, rhead, hslice, hsymbol, rtime, r₁, r₂, r₃, r₄, r₅,
      r₆, r₇, Option.bind_some, ← hts]
    rfl

/-! ### The symbol -/

/-- A list that is read one place too early repeats one value. -/
theorem eq_replicate_of_shift {x : UInt8} {l body rest : List UInt8}
    (h : x :: (l ++ body) = l ++ rest) :
    l = List.replicate l.length x ∧ rest = x :: body := by
  induction l generalizing x with
  | nil => exact ⟨rfl, h.symm⟩
  | cons y l ih =>
      obtain ⟨rfl, htail⟩ := List.cons.inj h
      obtain ⟨hl, hrest⟩ := ih htail
      rw [List.length_cons, List.replicate_succ, ← hl]
      exact ⟨rfl, hrest⟩

/-- The bytes of a length between 2688 and 2815: the second of them is `0x15`. -/
theorem varint_of_symbolLength {n : ℕ} (hn : 2688 ≤ n) (hn' : n ≤ 2815) :
    varint n = [UInt8.ofNat (n % 128 + 128), 0x15] := by
  have hgroup : n / 128 = 21 := by omega
  rw [varint, varintIn_of_le (by omega), hgroup]
  rfl

/-- **The symbol** is read as it was written only if it repeats the control character `0x15` so
often that its length has that byte as well; one such byte is left over. -/
theorem symbol_iff {s : String} {body rest : List UInt8} (hbody : body.head? ≠ some 0) :
    (∃ head sym, stringField 0x0A s ++ body = head ++ (sym ++ rest) ∧ head.length = 2 ∧
        sym.length = bigEndian head ∧ ofUtf8 sym = some s) ↔
      (∃ n, 2688 ≤ n ∧ n ≤ 2815 ∧ utf8 s = List.replicate n 0x15) ∧ rest = 0x15 :: body := by
  constructor
  · rintro ⟨head, sym, hdata, hhead, hsym, hsymbol⟩
    obtain ⟨h₀, h₁, rfl⟩ := List.length_eq_two.mp hhead
    rw [ofUtf8_eq_some_iff] at hsymbol
    have hlength : sym.length = h₀.toNat * 256 + h₁.toNat := by
      rw [hsym]
      simp [bigEndian]
    have h₁lt := h₁.toNat_lt
    by_cases hs : s = ""
    · rw [stringField, if_pos hs, List.nil_append] at hdata
      rw [hs, (utf8_eq_nil_iff).mpr rfl] at hsymbol
      rw [← hsymbol, List.length_nil] at hlength
      obtain rfl : h₀ = 0 := UInt8.toNat_inj.mp (by rw [UInt8.toNat_zero]; omega)
      exact absurd (by rw [hdata]; rfl) hbody
    · rw [stringField, if_neg hs, hsymbol] at hdata
      simp only [List.cons_append, List.nil_append, List.cons.injEq] at hdata
      obtain ⟨rfl, hdata⟩ := hdata
      have hten : (0x0A : UInt8).toNat = 10 := rfl
      rw [varint, varintIn_of_le (by omega), List.cons_append, List.cons_append,
        List.cons.injEq] at hdata
      obtain ⟨hh₁, hdata⟩ := hdata
      have hgroup := congrArg UInt8.toNat hh₁
      rw [UInt8.toNat_ofNat', Nat.mod_eq_of_lt (by omega)] at hgroup
      have hlast : sym.length / 128 = 21 := by omega
      rw [hlast] at hdata
      obtain ⟨hreplicate, hrest⟩ := eq_replicate_of_shift hdata
      exact ⟨⟨sym.length, by omega, by omega, by rw [hsymbol]; exact hreplicate⟩, hrest⟩
  · rintro ⟨⟨n, hn, hn', hs⟩, rfl⟩
    have hne : s ≠ "" := by
      rintro rfl
      rw [(utf8_eq_nil_iff).mpr rfl] at hs
      have hlength := congrArg List.length hs
      rw [List.length_nil, List.length_replicate] at hlength
      omega
    refine ⟨[0x0A, UInt8.ofNat (n % 128 + 128)], List.replicate n 0x15, ?_, rfl, ?_, ?_⟩
    · rw [stringField, if_neg hne, hs, List.length_replicate, varint_of_symbolLength hn hn']
      have hshift : (0x15 : UInt8) :: (List.replicate n 0x15 ++ body) =
          List.replicate n 0x15 ++ 0x15 :: body := by
        rw [← List.cons_append, ← List.replicate_succ, List.replicate_succ', List.append_assoc,
          List.singleton_append]
      simp only [List.cons_append, List.nil_append, hshift]
    · have htoNat : (UInt8.ofNat (n % 128 + 128)).toNat = n % 128 + 128 := by
        rw [UInt8.toNat_ofNat', Nat.mod_eq_of_lt (by omega)]
      have hten : (0x0A : UInt8).toNat = 10 := rfl
      rw [List.length_replicate, bigEndian, List.foldl_cons, List.foldl_cons, List.foldl_nil,
        htoNat, hten]
      omega
    · exact ofUtf8_eq_some_iff.mpr hs

/-! ### The time -/

/-- The times whose bytes are those of their varint. -/
def legibleTimes : List ℤ :=
  [0x1510fffbd294bdff, 0x1510fffbd6b5bdff, 0x1510fffbdad6bdff, 0x1510fffbdef7bdff,
    0x1510fffff39cffff, 0x1510fffff7bdffff, 0x1510fffffbdeffff, 0x1510ffffffffffff]

/-- Each of these times is the number of the eight bytes that precede the doubles. -/
theorem varint_legibleTimes : ∀ ts ∈ legibleTimes, ts ≠ 0 ∧
    0x15 :: 0x10 :: varint (toWord ts) =
      (0x15 :: 0x10 :: varint (toWord ts)).take 8 ++ [0xBF, 0x88, 0x15] ∧
    ((0x15 :: 0x10 :: varint (toWord ts)).take 8).length = 8 ∧
    ts = ofWord (bigEndian ((0x15 :: 0x10 :: varint (toWord ts)).take 8)) := by
  decide

/-- The sixth byte of a legible time, by the upper two bits of the one after it. -/
theorem sixth_byte : ∀ q : Fin 4, ∀ b : Fin 256, 2 ≤ q →
    b.val = b.val / 32 + 8 * ((q.val + 4 * (b.val % 32) + 128) % 16) + 128 →
      q.val = 2 ∧ b.val ∈ [0x94, 0xb5, 0xd6, 0xf7] ∨
        q.val = 3 ∧ b.val ∈ [0x9c, 0xbd, 0xde, 0xff] := by
  decide +kernel

/-- The last six bytes of a word, if they are its groups of seven bits. -/
theorem mem_legibleTimes {n b₀ b₁ b₂ b₃ b₄ b₅ : ℕ} (hb₀ : b₀ < 256) (hb₁ : b₁ < 256)
    (hb₂ : b₂ < 256) (h₅ : b₅ = b₀ % 128 + 128) (h₄ : b₄ = b₀ / 128 + 2 * (b₁ % 64) + 128)
    (h₃ : b₃ = b₁ / 64 + 4 * (b₂ % 32) + 128) (h₂ : b₂ = b₂ / 32 + 8 * (b₃ % 16) + 128)
    (h₁ : b₁ = b₃ / 16 + 16 * (b₄ % 8) + 128) (h₀ : b₀ = b₄ / 8 + 32 * (b₅ % 4) + 128)
    (hn : n = 0x1510 * 2 ^ 48 + b₅ * 2 ^ 40 + b₄ * 2 ^ 32 + b₃ * 2 ^ 24 + b₂ * 2 ^ 16 +
      b₁ * 2 ^ 8 + b₀) : (n : ℤ) ∈ legibleTimes := by
  have hfour : b₀ / 128 = 1 := by clear h₄ h₃ h₂ h₁ hn; omega
  have hq : 2 ≤ b₁ / 64 ∧ b₁ / 64 < 4 := by clear h₅ h₄ h₃ h₂ h₀ hn; omega
  rw [h₃] at h₂
  have hbyte := sixth_byte ⟨b₁ / 64, hq.2⟩ ⟨b₂, hb₂⟩ hq.1 h₂
  simp only [List.mem_cons, List.not_mem_nil, or_false] at hbyte
  rcases hbyte with ⟨hupper, hlower⟩ | ⟨hupper, hlower⟩
  · have hlast : b₃ / 16 = 13 := by clear h₅ h₄ h₂ h₁ h₀ hn; omega
    have e₁ : b₁ = 0xbd := by clear h₅ h₃ h₂ h₀ hn hlower; omega
    have e₄ : b₄ = 0xfb := by rw [h₄, hfour, e₁]
    have e₀ : b₀ = 0xff := by clear h₄ h₃ h₂ h₁ hn; omega
    have e₅ : b₅ = 0xff := by rw [h₅, e₀]
    rw [e₁] at h₃
    subst e₀ e₁ e₄ e₅ h₃ hn
    rcases hlower with rfl | rfl | rfl | rfl <;> decide
  · have hlast : b₃ / 16 = 15 := by clear h₅ h₄ h₂ h₁ h₀ hn; omega
    have e₁ : b₁ = 0xff := by clear h₅ h₃ h₂ h₀ hn hlower; omega
    have e₄ : b₄ = 0xff := by rw [h₄, hfour, e₁]
    have e₀ : b₀ = 0xff := by clear h₄ h₃ h₂ h₁ hn; omega
    have e₅ : b₅ = 0xff := by rw [h₅, e₀]
    rw [e₁] at h₃
    subst e₀ e₁ e₄ e₅ h₃ hn
    rcases hlower with rfl | rfl | rfl | rfl <;> decide

/-- Where seven bits lie that begin in one byte and end in the next. -/
theorem groups_of_bytes {m b b' : ℕ} (hb : m % 256 = b) (hb' : m / 256 % 256 = b') :
    m % 128 = b % 128 ∧ m / 128 % 128 = b / 128 + 2 * (b' % 64) ∧
      m / 64 % 128 = b / 64 + 4 * (b' % 32) ∧ m / 32 % 128 = b / 32 + 8 * (b' % 16) ∧
      m / 16 % 128 = b / 16 + 16 * (b' % 8) ∧ m / 8 % 128 = b / 8 + 32 * (b' % 4) := by
  omega

/-- The first groups of seven bits of a word, by its bytes. -/
theorem groups_of_word {n b₀ b₁ b₂ b₃ b₄ b₅ : ℕ} (hb₀ : b₀ < 256) (hb₁ : b₁ < 256)
    (hb₂ : b₂ < 256) (hb₃ : b₃ < 256) (hb₄ : b₄ < 256) (hb₅ : b₅ < 256)
    (hn : n = 0x1510 * 2 ^ 48 + b₅ * 2 ^ 40 + b₄ * 2 ^ 32 + b₃ * 2 ^ 24 + b₂ * 2 ^ 16 +
      b₁ * 2 ^ 8 + b₀) :
    n % 128 = b₀ % 128 ∧ n / 2 ^ 7 % 128 = b₀ / 128 + 2 * (b₁ % 64) ∧
      n / 2 ^ 14 % 128 = b₁ / 64 + 4 * (b₂ % 32) ∧ n / 2 ^ 21 % 128 = b₂ / 32 + 8 * (b₃ % 16) ∧
      n / 2 ^ 28 % 128 = b₃ / 16 + 16 * (b₄ % 8) ∧ n / 2 ^ 35 % 128 = b₄ / 8 + 32 * (b₅ % 4) := by
  have f₀ : n % 256 = b₀ := by omega
  have f₁ : n / 2 ^ 8 % 256 = b₁ := by omega
  have f₂ : n / 2 ^ 16 % 256 = b₂ := by omega
  have f₃ : n / 2 ^ 24 % 256 = b₃ := by omega
  have f₄ : n / 2 ^ 32 % 256 = b₄ := by omega
  have f₅ : n / 2 ^ 40 % 256 = b₅ := by omega
  have hshift : ∀ j k, n / 2 ^ j / 2 ^ k = n / 2 ^ (j + k) := by
    intro j k
    rw [Nat.div_div_eq_div_mul, pow_add]
  have g₂ := (groups_of_bytes f₁ ((congrArg (· % 256) (hshift 8 8)).trans f₂)).2.2.1
  have g₃ := (groups_of_bytes f₂ ((congrArg (· % 256) (hshift 16 8)).trans f₃)).2.2.2.1
  have g₄ := (groups_of_bytes f₃ ((congrArg (· % 256) (hshift 24 8)).trans f₄)).2.2.2.2.1
  have g₅ := (groups_of_bytes f₄ ((congrArg (· % 256) (hshift 32 8)).trans f₅)).2.2.2.2.2
  exact ⟨(groups_of_bytes f₀ f₁).1, (groups_of_bytes f₀ f₁).2.1,
    (congrArg (· % 128) (hshift 8 6)).symm.trans g₂,
    (congrArg (· % 128) (hshift 16 5)).symm.trans g₃,
    (congrArg (· % 128) (hshift 24 4)).symm.trans g₄,
    (congrArg (· % 128) (hshift 32 3)).symm.trans g₅⟩

/-- The first groups of a varint that has many. -/
theorem varint_of_le {n : ℕ} (h : 2 ^ 42 ≤ n) : varint n =
    [UInt8.ofNat (n % 128 + 128), UInt8.ofNat (n / 2 ^ 7 % 128 + 128),
      UInt8.ofNat (n / 2 ^ 14 % 128 + 128), UInt8.ofNat (n / 2 ^ 21 % 128 + 128),
      UInt8.ofNat (n / 2 ^ 28 % 128 + 128), UInt8.ofNat (n / 2 ^ 35 % 128 + 128)] ++
    varintIn 4 (n / 2 ^ 42) := by
  rw [varint, varintIn_of_le (by omega), varintIn_of_le (by omega), varintIn_of_le (by omega),
    varintIn_of_le (by omega), varintIn_of_le (by omega), varintIn_of_le (by omega)]
  simp only [Nat.div_div_eq_div_mul]
  rfl

/-- A word that starts with the bytes `0x15` and `0x10`, followed by the first groups of its own
varint. -/
theorem mem_legibleTimes_of_varint {ts : ℤ} {time fields rest : List UInt8}
    (hlength : time.length = 6) (hword : toWord ts = bigEndian (0x15 :: 0x10 :: time))
    (hts : ts = ofWord (toWord ts)) (hdata : varint (toWord ts) ++ fields = time ++ rest) :
    ts ∈ legibleTimes := by
  generalize toWord ts = n at hword hts hdata
  have hlt := bigEndian_lt time
  rw [bigEndian_cons, bigEndian_cons, List.length_cons, hlength] at hword
  rw [hlength] at hlt
  have h₁ : (0x15 : UInt8).toNat = 21 := rfl
  have h₂ : (0x10 : UInt8).toNat = 16 := rfl
  rw [h₁, h₂] at hword
  have hsmall : n < 2 ^ 63 := by omega
  rw [varint_of_le (by omega), List.append_assoc] at hdata
  obtain ⟨rfl, -⟩ := List.append_inj hdata (by rw [hlength]; rfl)
  have hbyte : ∀ m : ℕ, (UInt8.ofNat (m % 128 + 128)).toNat = m % 128 + 128 := by
    intro m
    rw [UInt8.toNat_ofNat', Nat.mod_eq_of_lt (by omega)]
  simp only [bigEndian, List.foldl_cons, List.foldl_nil, hbyte] at hword
  have hgroup : ∀ m : ℕ, m % 128 + 128 < 256 := fun m => by omega
  have hn : n = 0x1510 * 2 ^ 48 + (n % 128 + 128) * 2 ^ 40 + (n / 2 ^ 7 % 128 + 128) * 2 ^ 32 +
      (n / 2 ^ 14 % 128 + 128) * 2 ^ 24 + (n / 2 ^ 21 % 128 + 128) * 2 ^ 16 +
      (n / 2 ^ 28 % 128 + 128) * 2 ^ 8 + (n / 2 ^ 35 % 128 + 128) := hword.trans (by ring)
  obtain ⟨e₅, e₄, e₃, e₂, e₁, e₀⟩ := groups_of_word (hgroup (n / 2 ^ 35)) (hgroup (n / 2 ^ 28))
    (hgroup (n / 2 ^ 21)) (hgroup (n / 2 ^ 14)) (hgroup (n / 2 ^ 7)) (hgroup n) hn
  have hmem := mem_legibleTimes (hgroup (n / 2 ^ 35)) (hgroup (n / 2 ^ 28)) (hgroup (n / 2 ^ 21))
    (congrArg (· + 128) e₅) (congrArg (· + 128) e₄) (congrArg (· + 128) e₃)
    (congrArg (· + 128) e₂) (congrArg (· + 128) e₁) (congrArg (· + 128) e₀) hn
  rw [hts, ofWord, if_pos hsmall]
  exact hmem

/-- **The time** is read as it was written only if it is one of eight; three bytes of it are left
over. -/
theorem time_iff {ts : ℤ} {fields rest : List UInt8} :
    (∃ time, 0x15 :: (int64Field 0x10 ts ++ fields) = time ++ rest ∧ time.length = 8 ∧
        ts = ofWord (bigEndian time)) ↔
      ts ∈ legibleTimes ∧ rest = 0xBF :: 0x88 :: 0x15 :: fields := by
  have hright : ts ∈ legibleTimes → ∃ time, time.length = 8 ∧ ts = ofWord (bigEndian time) ∧
      0x15 :: (int64Field 0x10 ts ++ fields) = time ++ 0xBF :: 0x88 :: 0x15 :: fields := by
    intro hts
    obtain ⟨hne, hsplit, hlength, htime⟩ := varint_legibleTimes ts hts
    refine ⟨_, hlength, htime, ?_⟩
    rw [int64Field, if_neg hne]
    exact (congrArg (· ++ fields) hsplit).trans (List.append_assoc ..)
  constructor
  · rintro ⟨time, hdata, hlength, hts⟩
    have hlt := bigEndian_lt time
    rw [hlength] at hlt
    have hword : toWord ts = bigEndian time := by
      rw [hts, toWord_ofWord hlt]
    have hmem : ts ∈ legibleTimes := by
      obtain ⟨t₀, time, rfl⟩ := List.exists_cons_of_length_eq_add_one hlength
      rw [List.length_cons] at hlength
      obtain ⟨t₁, time, rfl⟩ := List.exists_cons_of_length_eq_add_one (Nat.succ.inj hlength)
      have hsix : time.length = 6 := by
        rw [List.length_cons] at hlength
        omega
      simp only [List.cons_append, List.cons.injEq] at hdata
      obtain ⟨rfl, hdata⟩ := hdata
      by_cases hzero : ts = 0
      · rw [bigEndian_cons, List.length_cons, hsix, hzero] at hword
        have hfirst : (0x15 : UInt8).toNat = 21 := rfl
        have hnone : toWord 0 = 0 := rfl
        rw [hfirst, hnone] at hword
        omega
      · rw [int64Field, if_neg hzero, List.cons_append, List.cons.injEq] at hdata
        obtain ⟨rfl, hdata⟩ := hdata
        exact mem_legibleTimes_of_varint hsix hword (by rw [hword]; exact hts) hdata
    obtain ⟨time', hlength', -, hdata'⟩ := hright hmem
    rw [hdata'] at hdata
    exact ⟨hmem, (List.append_inj hdata (hlength'.trans hlength.symm)).2.symm⟩
  · rintro ⟨hts, rfl⟩
    obtain ⟨time, hlength, htime, hdata⟩ := hright hts
    exact ⟨time, hdata, hlength, htime⟩

/-! ### The doubles -/

/-- The message holds what was written. -/
structure FeatureStateMsg.Agrees (msg : FeatureStateMsg) (fv : FeatureVector Bits64) : Prop where
  symbol : msg.symbol = fv.symbol
  ts : msg.ts = fv.ts
  emaFast : msg.emaFast.Same fv.emaFast
  emaSlow : msg.emaSlow.Same fv.emaSlow
  rsi : msg.rsi.Same fv.rsi
  macd : msg.macd.Same fv.macd
  macdSignal : msg.macdSignal.Same fv.macdSignal
  macdHist : msg.macdHist.Same fv.macdHist
  vwap : msg.vwap.Same fv.vwap

/-- The doubles that can be read with three bytes of the time before them: up to seven bytes, each
of them is determined. -/
structure LegibleDoubles (fv : FeatureVector Bits64) : Prop where
  emaFast : ∃ a b, fv.emaFast.bytes = [0xBF, 0x88, 0x15, 0x19, a, b, b, a]
  emaSlow : ∃ a b, fv.emaSlow.bytes = [0x19, 0x15, 0x88, 0xBF, 0x21, a, b, a]
  rsi : ∃ a, fv.rsi.bytes = [0x21, 0xBF, 0x88, 0x15, 0x19, 0x29, a, a]
  macd : ∃ a, fv.macd.bytes = [0x29, 0x19, 0x15, 0x88, 0xBF, 0x21, 0x31, a]
  macdSignal : fv.macdSignal.bytes = [0x31, 0x21, 0xBF, 0x88, 0x15, 0x19, 0x29, 0x39]
  macdHist : fv.macdHist.bytes = [0x39, 0x29, 0x19, 0x15, 0x88, 0xBF, 0x21, 0x31]
  vwap : fv.vwap.bytes = [0x41, 0x31, 0x21, 0xBF, 0x88, 0x15, 0x19, 0x29]

/-- The eight bytes of a double. -/
theorem exists_bytes (d : Bits64) : ∃ b₀ b₁ b₂ b₃ b₄ b₅ b₆ b₇,
    d.bytes = [b₀, b₁, b₂, b₃, b₄, b₅, b₆, b₇] := by
  obtain ⟨bytes, hlength⟩ := d
  match bytes, hlength with
  | [b₀, b₁, b₂, b₃, b₄, b₅, b₆, b₇], _ => exact ⟨b₀, b₁, b₂, b₃, b₄, b₅, b₆, b₇, rfl⟩

/-- A double that is not a zero is written. -/
theorem doubleField_of_head {d : Bits64} {x : UInt8} {rest : List UInt8} (tag : UInt8)
    (h : d.bytes = x :: rest) (hx : 0 < x.toNat % 128) :
    doubleField tag d = tag :: d.bytes.reverse := by
  rw [doubleField, Bits64.not_isZero_of_head h hx]
  rfl

/-- **The next double**: bytes that are left over come first, so that it is neither a zero nor a
NaN; it is told by its bits, and it was written. -/
theorem next_double (front : List UInt8) {tag x : UInt8} {more post : List UInt8} {d d' : Bits64}
    (hsame : d'.Same d) (h : x :: (front ++ (doubleField tag d ++ more)) = d'.bytes ++ post)
    (hx : 0 < x.toNat % 128) (hx' : x.toNat % 128 < 127) :
    ∃ b₀ b₁ b₂ b₃ b₄ b₅ b₆ b₇, d.bytes = [b₀, b₁, b₂, b₃, b₄, b₅, b₆, b₇] ∧
      x :: (front ++ (tag :: b₇ :: b₆ :: b₅ :: b₄ :: b₃ :: b₂ :: b₁ :: b₀ :: more)) =
        b₀ :: b₁ :: b₂ :: b₃ :: b₄ :: b₅ :: b₆ :: b₇ :: post := by
  obtain ⟨b₀, b₁, b₂, b₃, b₄, b₅, b₆, b₇, hbytes⟩ := exists_bytes d'
  obtain rfl : x = b₀ := by
    rw [hbytes, List.cons_append, List.cons.injEq] at h
    exact h.1
  obtain rfl := hsame.eq_of_head hbytes hx hx'
  rw [doubleField_of_head tag hbytes hx, hbytes] at h
  exact ⟨_, _, _, _, _, _, _, _, hbytes, h⟩

/-- If the doubles are read as they were, there are bytes that allow it. -/
theorem legibleDoubles_of_agrees {fv : FeatureVector Bits64} {msg : FeatureStateMsg}
    {post : List UInt8} (hagrees : msg.Agrees fv)
    (h : 0xBF :: 0x88 :: 0x15 :: (publish fv).encodeDoubles = msg.doubles post) :
    LegibleDoubles fv := by
  rw [FeatureState.encodeDoubles, FeatureStateMsg.doubles] at h
  obtain ⟨_, _, _, _, _, _, _, _, emaFast, h⟩ :=
    next_double [0x88, 0x15] hagrees.emaFast h (by decide) (by decide)
  simp only [List.cons_append, List.nil_append, List.cons.injEq] at h
  obtain ⟨rfl, rfl, rfl, rfl, rfl, rfl, -, -, h⟩ := h
  obtain ⟨_, _, _, _, _, _, _, _, emaSlow, h⟩ :=
    next_double [0x15, 0x88, 0xBF] hagrees.emaSlow h (by decide) (by decide)
  simp only [List.cons_append, List.nil_append, List.cons.injEq] at h
  obtain ⟨rfl, rfl, rfl, rfl, rfl, rfl, -, -, h⟩ := h
  obtain ⟨_, _, _, _, _, _, _, _, rsi, h⟩ :=
    next_double [0xBF, 0x88, 0x15, 0x19] hagrees.rsi h (by decide) (by decide)
  simp only [List.cons_append, List.nil_append, List.cons.injEq] at h
  obtain ⟨rfl, rfl, rfl, rfl, rfl, rfl, rfl, -, h⟩ := h
  obtain ⟨_, _, _, _, _, _, _, _, macd, h⟩ :=
    next_double [0x19, 0x15, 0x88, 0xBF, 0x21] hagrees.macd h (by decide) (by decide)
  simp only [List.cons_append, List.nil_append, List.cons.injEq] at h
  obtain ⟨rfl, rfl, rfl, rfl, rfl, rfl, rfl, -, h⟩ := h
  obtain ⟨_, _, _, _, _, _, _, _, macdSignal, h⟩ :=
    next_double [0x21, 0xBF, 0x88, 0x15, 0x19, 0x29] hagrees.macdSignal h (by decide) (by decide)
  simp only [List.cons_append, List.nil_append, List.cons.injEq] at h
  obtain ⟨rfl, rfl, rfl, rfl, rfl, rfl, rfl, rfl, h⟩ := h
  obtain ⟨_, _, _, _, _, _, _, _, macdHist, h⟩ :=
    next_double [0x29, 0x19, 0x15, 0x88, 0xBF, 0x21, 0x31] hagrees.macdHist h (by decide)
      (by decide)
  simp only [List.cons_append, List.nil_append, List.cons.injEq] at h
  obtain ⟨rfl, rfl, rfl, rfl, rfl, rfl, rfl, rfl, h⟩ := h
  obtain ⟨_, _, _, _, _, _, _, _, vwap, h⟩ :=
    next_double [0x31, 0x21, 0xBF, 0x88, 0x15, 0x19, 0x29, 0x39] hagrees.vwap h (by decide)
      (by decide)
  simp only [List.cons_append, List.nil_append, List.cons.injEq] at h
  obtain ⟨rfl, rfl, rfl, rfl, rfl, rfl, rfl, rfl, -⟩ := h
  exact ⟨⟨_, _, emaFast⟩, ⟨_, _, emaSlow⟩, ⟨_, rsi⟩, ⟨_, macd⟩, macdSignal, macdHist, vwap⟩

/-- The message that the decoder should return. -/
def FeatureStateMsg.of (fv : FeatureVector Bits64) : FeatureStateMsg :=
  ⟨fv.symbol, fv.ts, fv.emaFast, fv.emaSlow, fv.rsi, fv.macd, fv.macdSignal, fv.macdHist, fv.vwap⟩

/-- Bytes that allow it are read as the doubles. -/
theorem LegibleDoubles.exists_post {fv : FeatureVector Bits64} (h : LegibleDoubles fv) :
    ∃ post, 0xBF :: 0x88 :: 0x15 :: (publish fv).encodeDoubles =
      (FeatureStateMsg.of fv).doubles post := by
  obtain ⟨⟨a₁, b₁, emaFast⟩, ⟨a₂, b₂, emaSlow⟩, ⟨a₃, rsi⟩, ⟨a₄, macd⟩, macdSignal, macdHist,
    vwap⟩ := h
  refine ⟨0x39 :: 0x49 :: (fv.vwap.bytes.reverse ++ (publish fv).encodeRest), ?_⟩
  simp only [FeatureState.encodeDoubles, publish, doubleField_of_head 0x19 emaFast (by decide),
    doubleField_of_head 0x21 emaSlow (by decide), doubleField_of_head 0x29 rsi (by decide),
    doubleField_of_head 0x31 macd (by decide), doubleField_of_head 0x39 macdSignal (by decide),
    doubleField_of_head 0x41 macdHist (by decide), doubleField_of_head 0x49 vwap (by decide),
    FeatureStateMsg.doubles, FeatureStateMsg.of, emaFast, emaSlow, rsi, macd, macdSignal, macdHist,
    vwap]
  rfl

/-! ### Compatibility -/

/-- The feature vectors that the decoder reads as they were written. -/
structure Legible (fv : FeatureVector Bits64) : Prop where
  symbol : ∃ n, 2688 ≤ n ∧ n ≤ 2815 ∧ utf8 fv.symbol = List.replicate n 0x15
  ts : fv.ts ∈ legibleTimes
  doubles : LegibleDoubles fv

/-- Two texts of bytes that do not begin with zero, one after the other. -/
theorem head?_append_ne {l l' : List UInt8} (h : l.head? ≠ some 0) (h' : l'.head? ≠ some 0) :
    (l ++ l').head? ≠ some 0 := by
  cases l with
  | nil => exact h'
  | cons x l => exact h

/-- A field does not begin with zero. -/
theorem head?_doubleField {tag : UInt8} (htag : tag ≠ 0) (d : Bits64) :
    (doubleField tag d).head? ≠ some 0 := by
  rw [doubleField]
  split
  · simp
  · simpa using htag

/-- What follows the symbol does not start with a zero byte. -/
theorem head?_fields (fv : FeatureVector Bits64) :
    (int64Field 0x10 (publish fv).ts ++ (publish fv).encodeDoubles).head? ≠ some 0 := by
  have hts : (int64Field 0x10 (publish fv).ts).head? ≠ some 0 := by
    rw [int64Field]
    split <;> simp
  have hrest : (publish fv).encodeRest.head? ≠ some 0 := by
    simp [FeatureState.encodeRest, uint32Field, publish]
  exact head?_append_ne hts <| head?_append_ne (head?_doubleField (by decide) _) <|
    head?_append_ne (head?_doubleField (by decide) _) <|
    head?_append_ne (head?_doubleField (by decide) _) <|
    head?_append_ne (head?_doubleField (by decide) _) <|
    head?_append_ne (head?_doubleField (by decide) _) <|
    head?_append_ne (head?_doubleField (by decide) _) <|
    head?_append_ne (head?_doubleField (by decide) _) hrest

/-- **Which feature vectors are read as they were written.** The decoder returns a message with the
symbol, the time and the seven doubles of the feature vector whose message it reads if and only if
the vector is legible; and then the doubles are the same bits. -/
theorem fromBytes_publish_iff (fv : FeatureVector Bits64) :
    ((∃ msg, FeatureStateMsg.fromBytes (publish fv).encode = some msg ∧
        msg.Agrees fv) ↔ Legible fv) ∧
      (Legible fv → FeatureStateMsg.fromBytes (publish fv).encode =
        some (FeatureStateMsg.of fv)) := by
  have hread : Legible fv → FeatureStateMsg.fromBytes (publish fv).encode =
      some (FeatureStateMsg.of fv) := by
    rintro ⟨hsymbol, hts, hdoubles⟩
    obtain ⟨post, hpost⟩ := hdoubles.exists_post
    obtain ⟨time, htime, hlength, hword⟩ := time_iff.mpr ⟨hts, rfl⟩
    obtain ⟨head, sym, hdata, hhead, hsym, hof⟩ := (symbol_iff (head?_fields fv)).mpr ⟨hsymbol, rfl⟩
    refine FeatureStateMsg.fromBytes_iff.mpr ⟨head, sym, time, post, ?_, hhead, hsym, hof, hlength,
      hword⟩
    rw [← hpost, ← htime]
    exact hdata
  refine ⟨⟨?_, fun h => ⟨_, hread h, ?_⟩⟩, hread⟩
  · rintro ⟨msg, hmsg, hagrees⟩
    obtain ⟨head, sym, time, post, hdata, hhead, hsym, hof, hlength, hword⟩ :=
      FeatureStateMsg.fromBytes_iff.mp hmsg
    rw [hagrees.symbol] at hof
    rw [hagrees.ts] at hword
    obtain ⟨hsymbol, hrest⟩ :=
      (symbol_iff (head?_fields fv)).mp ⟨head, sym, hdata, hhead, hsym, hof⟩
    obtain ⟨hts, hdoubles⟩ := time_iff.mp ⟨time, hrest.symm, hlength, hword⟩
    exact ⟨hsymbol, hts, legibleDoubles_of_agrees hagrees hdoubles.symm⟩
  · exact ⟨rfl, rfl, .inl rfl, .inl rfl, .inl rfl, .inl rfl, .inl rfl, .inl rfl, .inl rfl⟩

/-- The bits of `1.0`. -/
def one : Bits64 := ⟨[0x3F, 0xF0, 0, 0, 0, 0, 0, 0], rfl⟩

/-- A vector of an ordinary symbol and time. -/
def sampleVector : FeatureVector Bits64 where
  symbol := "BTCUSDT"
  ts := 1700000000000
  emaFast := one
  emaSlow := one
  rsi := one
  macd := one
  macdSignal := one
  macdHist := one
  vwap := one
  adx := one
  atr := one
  regime := 0
  volZscore := one
  oiChangePct := one
  quality := 31

/-- The length of the symbol is read off the tag: the bytes end before it. -/
theorem sampleVector_illegible : ¬ ∃ msg,
    FeatureStateMsg.fromBytes (publish sampleVector).encode = some msg ∧
      msg.Agrees sampleVector := by
  rintro ⟨msg, hmsg, hagrees⟩
  obtain ⟨head, sym, time, post, hdata, hhead, hsym, hof, -⟩ :=
    FeatureStateMsg.fromBytes_iff.mp hmsg
  rw [hagrees.symbol] at hof
  obtain ⟨⟨n, hn, -, hsymbol⟩, -⟩ :=
    (symbol_iff (head?_fields sampleVector)).mp ⟨head, sym, hdata, hhead, hsym, hof⟩
  have hseven : (utf8 sampleVector.symbol).length = 7 := by decide +kernel
  have hlength := hseven.symm.trans (congrArg List.length hsymbol)
  rw [List.length_replicate] at hlength
  omega

end HftPlatform.Md
