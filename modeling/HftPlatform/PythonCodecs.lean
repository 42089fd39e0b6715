import HftPlatform.FeatureWire

/-!
# The codecs of the Python services

`to_bytes` and `from_bytes` of `FeatureStateMsg`, `AiPredictionMsg` and `EnvelopeMsg`, in
`libs/python/hft_proto/hft_proto`. Texts stand after their length in two bytes, numbers have their
most significant byte first. An encoder fails on a number that does not fit its field; a decoder
fails when something that it unpacks is not there, but a slice ends with the data at the latest.

## Main results

* `FeatureStateMsg.toBytes_eq_some_iff` and its like: when an encoder succeeds, and with what.
* `FeatureStateMsg.fromBytes_spec` and its like: what a decoder has found in the data.
* `roundTrip`: what is encoded is decoded to the same message, in an envelope or not.
* `reencodes_iff`: which of the data that are decoded are what the message is encoded to.
-/

namespace HftPlatform

open Lib.Wire

/-! ### Feature vectors -/

namespace Md

namespace FeatureStateMsg

/-- A vector as bytes; a symbol that is too long or a time out of range is refused. -/
def toBytes (m : FeatureStateMsg) : Option (List UInt8) := do
  let symbol ← packText m.symbol
  let ts ← packSigned m.ts
  return symbol ++ (ts ++ m.doubles [])

/-- The vectors that are encoded, and their bytes. -/
theorem toBytes_eq_some_iff {m : FeatureStateMsg} {b : List UInt8} : m.toBytes = some b ↔
    (utf8 m.symbol).length < 256 ^ 2 ∧ (-2 ^ 63 ≤ m.ts ∧ m.ts < 2 ^ 63) ∧
      b = toBigEndian 2 (utf8 m.symbol).length ++ (utf8 m.symbol ++
        (toBigEndian 8 (toWord m.ts) ++ m.doubles [])) := by
  simp only [toBytes, Option.bind_eq_bind, Option.bind_eq_some_iff, Option.pure_def,
    packText_eq_some_iff, packSigned_eq_some_iff, Option.some.injEq]
  constructor
  · rintro ⟨_, ⟨hsymbol, rfl⟩, _, ⟨hts, rfl⟩, rfl⟩
    exact ⟨hsymbol, hts, by simp⟩
  · rintro ⟨hsymbol, hts, rfl⟩
    exact ⟨_, ⟨hsymbol, rfl⟩, _, ⟨hts, rfl⟩, by simp⟩

/-- **What the decoder has found**, and what it left. -/
theorem fromBytes_spec {m : FeatureStateMsg} {b : List UInt8} (h : fromBytes b = some m) :
    (utf8 m.symbol).length = bigEndian (b.take 2) ∧ (-2 ^ 63 ≤ m.ts ∧ m.ts < 2 ^ 63) ∧
      ∃ post, b = toBigEndian 2 (utf8 m.symbol).length ++ (utf8 m.symbol ++
        (toBigEndian 8 (toWord m.ts) ++ m.doubles post)) := by
  obtain ⟨head, sym, time, post, rfl, hhead, hsym, hsymbol, htime, hts⟩ := fromBytes_iff.mp h
  rw [ofUtf8_eq_some_iff] at hsymbol
  have htimeLt := bigEndian_lt time
  rw [htime] at htimeLt
  have hheadBytes := toBigEndian_bigEndian head
  have htimeBytes := toBigEndian_bigEndian time
  rw [hhead] at hheadBytes
  rw [htime] at htimeBytes
  refine ⟨?_, ?_, post, ?_⟩
  · rw [hsymbol, hsym, ← hhead, List.take_left]
  · rw [hts]
    exact ofWord_mem htimeLt
  · rw [hsymbol, hsym, hts, toWord_ofWord htimeLt, hheadBytes, htimeBytes]

/-- A message is read from what it is encoded to, whatever follows. -/
theorem fromBytes_of_doubles {m : FeatureStateMsg} (post : List UInt8)
    (hsymbol : (utf8 m.symbol).length < 256 ^ 2) (hts : -2 ^ 63 ≤ m.ts ∧ m.ts < 2 ^ 63) :
    fromBytes (toBigEndian 2 (utf8 m.symbol).length ++ (utf8 m.symbol ++
      (toBigEndian 8 (toWord m.ts) ++ m.doubles post))) = some m := by
  refine fromBytes_iff.mpr ⟨_, _, _, post, rfl, length_toBigEndian _ _, ?_,
    ofUtf8_eq_some_iff.mpr rfl, length_toBigEndian _ _, ?_⟩
  · rw [bigEndian_toBigEndian hsymbol]
  · rw [bigEndian_toBigEndian (toWord_lt m.ts), ofWord_toWord hts.1 hts.2]

/-- Seven doubles take fifty-six bytes. -/
theorem length_doubles (m : FeatureStateMsg) (post : List UInt8) :
    (m.doubles post).length = 56 + post.length := by
  simp only [doubles, List.length_append, Bits64.length_eq]
  omega

end FeatureStateMsg

end Md

/-! ### Predictions -/

namespace Ai

/-- The direction of a prediction. -/
inductive Direction
  | hold
  | long
  | short
  deriving DecidableEq, Repr

/-- The number of a direction on the wire. -/
def Direction.code : Direction → ℕ
  | hold => 0
  | long => 1
  | short => 2

/-- `Direction(n)`, which fails on other numbers. -/
def Direction.ofCode : ℕ → Option Direction
  | 0 => some hold
  | 1 => some long
  | 2 => some short
  | _ => none

/-- The numbers of the directions are told apart. -/
theorem Direction.ofCode_eq_some_iff {n : ℕ} {d : Direction} : ofCode n = some d ↔ n = d.code := by
  constructor
  · intro h
    match n, h with
    | 0, h | 1, h | 2, h =>
        obtain rfl := Option.some.inj h
        rfl
  · rintro rfl
    cases d <;> rfl

/-- A direction fits into a byte. -/
theorem Direction.code_lt (d : Direction) : d.code < 256 ^ 1 := by
  cases d <;> decide

/-- A prediction. -/
structure AiPredictionMsg where
  symbol : String
  ts : ℤ
  direction : Direction
  confidence : Bits64
  modelVersion : String
  rawScore : Bits64
  deriving DecidableEq

namespace AiPredictionMsg

/-- A prediction as bytes. -/
def toBytes (m : AiPredictionMsg) : Option (List UInt8) := do
  let symbol ← packText m.symbol
  let ts ← packSigned m.ts
  let direction ← packUnsigned 1 m.direction.code
  let version ← packText m.modelVersion
  return symbol ++ (ts ++ (direction ++ (m.confidence.bytes ++ (m.rawScore.bytes ++ version))))

/-- The prediction in some bytes. -/
def fromBytes (data : List UInt8) : Option AiPredictionMsg := do
  let symLen := bigEndian (← readAt 2 data 0)
  let symbol ← ofUtf8 ((data.drop 2).take symLen)
  let offset := 2 + symLen
  let ts := ofWord (bigEndian (← readAt 8 data offset))
  let dirInt := bigEndian (← readAt 1 data (offset + 8))
  let confidence ← Md.readDouble data (offset + 8 + 1)
  let rawScore ← Md.readDouble data (offset + 8 + 1 + 8)
  let verLen := bigEndian (← readAt 2 data (offset + 8 + 1 + 8 + 8))
  let modelVersion ← ofUtf8 ((data.drop (offset + 8 + 1 + 8 + 8 + 2)).take verLen)
  let direction ← Direction.ofCode dirInt
  return { symbol, ts, direction, confidence, modelVersion, rawScore }

/-- The bytes of a message up to its last text, and what follows. -/
def front (m : AiPredictionMsg) (post : List UInt8) : List UInt8 :=
  toBigEndian 2 (utf8 m.symbol).length ++ (utf8 m.symbol ++ (toBigEndian 8 (toWord m.ts) ++
    (toBigEndian 1 m.direction.code ++ (m.confidence.bytes ++ (m.rawScore.bytes ++ post)))))

/-- The length of what precedes the version. -/
theorem length_front (m : AiPredictionMsg) (post : List UInt8) :
    (m.front post).length = 2 + (utf8 m.symbol).length + 25 + post.length := by
  simp only [front, List.length_append, length_toBigEndian, Bits64.length_eq]
  omega

/-- What is left behind it. -/
theorem drop_front (m : AiPredictionMsg) (post : List UInt8) :
    (m.front post).drop (2 + (utf8 m.symbol).length + 25) = post := by
  have hfront : m.front post = m.front [] ++ post := by
    simp [front]
  rw [hfront, List.drop_left']
  rw [length_front, List.length_nil, Nat.add_zero]

/-- Equal bytes have equal rests behind the same front. -/
theorem front_inj {m : AiPredictionMsg} {post post' : List UInt8} :
    m.front post = m.front post' ↔ post = post' := by
  simp only [front, List.append_cancel_left_eq]

/-- The predictions that are encoded, and their bytes. -/
theorem toBytes_eq_some_iff {m : AiPredictionMsg} {b : List UInt8} : m.toBytes = some b ↔
    (utf8 m.symbol).length < 256 ^ 2 ∧ (-2 ^ 63 ≤ m.ts ∧ m.ts < 2 ^ 63) ∧
      (utf8 m.modelVersion).length < 256 ^ 2 ∧
        b = m.front (toBigEndian 2 (utf8 m.modelVersion).length ++ utf8 m.modelVersion) := by
  have hdirection : packUnsigned 1 m.direction.code = some (toBigEndian 1 m.direction.code) :=
    packUnsigned_natCast m.direction.code_lt
  simp only [toBytes, Option.bind_eq_bind, Option.bind_eq_some_iff, Option.pure_def, hdirection,
    packText_eq_some_iff, packSigned_eq_some_iff, Option.some.injEq, front]
  constructor
  · rintro ⟨_, ⟨hsymbol, rfl⟩, _, ⟨hts, rfl⟩, _, rfl, _, ⟨hversion, rfl⟩, rfl⟩
    exact ⟨hsymbol, hts, hversion, by simp⟩
  · rintro ⟨hsymbol, hts, hversion, rfl⟩
    exact ⟨_, ⟨hsymbol, rfl⟩, _, ⟨hts, rfl⟩, _, rfl, _, ⟨hversion, rfl⟩, by simp⟩

/-- **What the decoder has found**: the last text is a slice of what is left. -/
theorem fromBytes_spec {m : AiPredictionMsg} {b : List UInt8} (h : fromBytes b = some m) :
    (utf8 m.symbol).length = bigEndian (b.take 2) ∧ (-2 ^ 63 ≤ m.ts ∧ m.ts < 2 ^ 63) ∧
      ∃ head rest, b = m.front (head ++ rest) ∧ head.length = 2 ∧
        utf8 m.modelVersion = rest.take (bigEndian head) := by
  simp only [fromBytes, Option.bind_eq_bind, Option.bind_eq_some_iff, Option.pure_def,
    Option.some.injEq] at h
  obtain ⟨head, hhead, sym, hsym, time, htime, dir, hdir, conf, hconf, raw, hraw, vhead, hvhead,
    ver, hver, direction, hdirection, rfl⟩ := h
  obtain ⟨htimeLength, htimeDrop⟩ := drop_of_readAt htime
  obtain ⟨hdirLength, hdirDrop⟩ := drop_of_readAt hdir
  obtain ⟨hvheadLength, hvheadDrop⟩ := drop_of_readAt hvhead
  have hreach := readAt_le htime
  obtain ⟨hsymLength, hdata⟩ := drop_of_readText hhead hsym (by omega)
  have htimeLt := bigEndian_lt time
  rw [htimeLength] at htimeLt
  have htimeBytes := toBigEndian_bigEndian time
  have hdirBytes := toBigEndian_bigEndian dir
  rw [htimeLength] at htimeBytes
  rw [hdirLength] at hdirBytes
  rw [Direction.ofCode_eq_some_iff] at hdirection
  rw [List.drop_zero, Nat.zero_add, htimeDrop, hdirDrop, Md.drop_of_readDouble hconf,
    Md.drop_of_readDouble hraw, hvheadDrop] at hdata
  refine ⟨?_, ofWord_mem htimeLt, vhead, _, ?_, hvheadLength, ofUtf8_eq_some_iff.mp hver⟩
  · obtain ⟨hheadLength, hheadDrop⟩ := drop_of_readAt hhead
    rw [hsymLength, ← List.drop_zero (l := b), hheadDrop, ← hheadLength, List.take_left]
  · rw [front, toWord_ofWord htimeLt, htimeBytes, ← hdirection, hdirBytes]
    exact hdata

/-- A message is read from its bytes, if the last text is the slice that its length tells. -/
theorem fromBytes_of_front {m : AiPredictionMsg} {head rest : List UInt8}
    (hsymbol : (utf8 m.symbol).length < 256 ^ 2) (hts : -2 ^ 63 ≤ m.ts ∧ m.ts < 2 ^ 63)
    (hhead : head.length = 2) (hversion : utf8 m.modelVersion = rest.take (bigEndian head)) :
    fromBytes (m.front (head ++ rest)) = some m := by
  obtain ⟨rhead, rsym, hdata⟩ := readText_of_drop
    (show (m.front (head ++ rest)).drop 0 = _ from rfl)
  obtain ⟨rtime, hdata⟩ := readAt_of_drop hdata (length_toBigEndian 8 _) (by omega)
  obtain ⟨rdir, hdata⟩ := readAt_of_drop hdata (length_toBigEndian 1 _) (by omega)
  obtain ⟨rconf, hdata⟩ := Md.readDouble_of_drop hdata
  obtain ⟨rraw, hdata⟩ := Md.readDouble_of_drop hdata
  obtain ⟨rvhead, hdata⟩ := readAt_of_drop hdata hhead (by omega)
  rw [Nat.zero_add] at rsym rtime rdir rconf rraw rvhead hdata
  have hver : ofUtf8 (((m.front (head ++ rest)).drop
      (2 + (utf8 m.symbol).length + 8 + 1 + 8 + 8 + 2)).take (bigEndian head)) =
        some m.modelVersion := by
    rw [hdata]
    exact ofUtf8_eq_some_iff.mpr hversion
  simp only [fromBytes, Option.bind_eq_bind, rhead, Option.bind_some,
    bigEndian_toBigEndian hsymbol, rsym, rtime, rdir, rconf, rraw, rvhead, hver,
    bigEndian_toBigEndian m.direction.code_lt, Direction.ofCode_eq_some_iff.mpr rfl,
    bigEndian_toBigEndian (toWord_lt m.ts), ofWord_toWord hts.1 hts.2]
  rfl

end AiPredictionMsg

end Ai

/-! ### Envelopes -/

namespace Common

/-- A message with its schema and its trace. -/
structure EnvelopeMsg where
  schemaId : String
  payload : List UInt8
  producedAtMs : ℤ
  traceId : String
  deriving DecidableEq, Repr

namespace EnvelopeMsg

/-- An envelope as bytes. -/
def toBytes (m : EnvelopeMsg) : Option (List UInt8) := do
  let schema ← packText m.schemaId
  let trace ← packText m.traceId
  let producedAt ← packUnsigned 8 m.producedAtMs
  return schema ++ (trace ++ (producedAt ++ m.payload))

/-- The envelope in some bytes; the rest is its payload. -/
def fromBytes (data : List UInt8) : Option EnvelopeMsg := do
  let schemaLen := bigEndian (← readAt 2 data 0)
  let schemaId ← ofUtf8 ((data.drop 2).take schemaLen)
  let offset := 2 + schemaLen
  let traceLen := bigEndian (← readAt 2 data offset)
  let traceId ← ofUtf8 ((data.drop (offset + 2)).take traceLen)
  let offset := offset + 2 + traceLen
  let producedAtMs : ℤ := bigEndian (← readAt 8 data offset)
  let payload := data.drop (offset + 8)
  return { schemaId, payload, producedAtMs, traceId }

/-- The envelopes that are encoded, and their bytes. -/
theorem toBytes_eq_some_iff {m : EnvelopeMsg} {b : List UInt8} : m.toBytes = some b ↔
    (utf8 m.schemaId).length < 256 ^ 2 ∧ (utf8 m.traceId).length < 256 ^ 2 ∧
      (0 ≤ m.producedAtMs ∧ m.producedAtMs < 256 ^ 8) ∧
      b = toBigEndian 2 (utf8 m.schemaId).length ++ (utf8 m.schemaId ++
        (toBigEndian 2 (utf8 m.traceId).length ++ (utf8 m.traceId ++
          (toBigEndian 8 m.producedAtMs.toNat ++ m.payload)))) := by
  simp only [toBytes, Option.bind_eq_bind, Option.bind_eq_some_iff, Option.pure_def,
    packText_eq_some_iff, packUnsigned_eq_some_iff, Option.some.injEq]
  constructor
  · rintro ⟨_, ⟨hschema, rfl⟩, _, ⟨htrace, rfl⟩, _, ⟨hproduced, rfl⟩, rfl⟩
    exact ⟨hschema, htrace, hproduced, by simp⟩
  · rintro ⟨hschema, htrace, hproduced, rfl⟩
    exact ⟨_, ⟨hschema, rfl⟩, _, ⟨htrace, rfl⟩, _, ⟨hproduced, rfl⟩, by simp⟩

/-- An envelope is read from what it is encoded to. -/
theorem fromBytes_of_toBytes {m : EnvelopeMsg} {b : List UInt8} (h : m.toBytes = some b) :
    fromBytes b = some m := by
  obtain ⟨hschema, htrace, hproduced, hb⟩ := toBytes_eq_some_iff.mp h
  obtain ⟨rhead, rschema, hdata⟩ := readText_of_drop
    (show b.drop 0 = _ from hb)
  obtain ⟨rthead, rtrace, hdata⟩ := readText_of_drop hdata
  obtain ⟨rproduced, hdata⟩ := readAt_of_drop hdata (length_toBigEndian 8 _) (by omega)
  rw [Nat.zero_add] at rschema rthead rtrace rproduced hdata
  have hproducedNat : m.producedAtMs.toNat < 256 ^ 8 := by omega
  simp only [fromBytes, Option.bind_eq_bind, rhead, Option.bind_some,
    bigEndian_toBigEndian hschema, rschema, rthead, bigEndian_toBigEndian htrace, rtrace,
    rproduced, bigEndian_toBigEndian hproducedNat, hdata, Int.toNat_of_nonneg hproduced.1]
  rfl

/-- **An envelope that is read** is encoded to the data it was read from. -/
theorem toBytes_of_fromBytes {m : EnvelopeMsg} {b : List UInt8} (h : fromBytes b = some m) :
    m.toBytes = some b := by
  simp only [fromBytes, Option.bind_eq_bind, Option.bind_eq_some_iff, Option.pure_def,
    Option.some.injEq] at h
  obtain ⟨head, hhead, schema, hschema, thead, hthead, trace, htrace, time, htime, rfl⟩ := h
  obtain ⟨htimeLength, htimeDrop⟩ := drop_of_readAt htime
  have hreach := readAt_le hthead
  have hreach' := readAt_le htime
  obtain ⟨hheadLength, -⟩ := drop_of_readAt hhead
  obtain ⟨htheadLength, -⟩ := drop_of_readAt hthead
  obtain ⟨hschemaLength, hdata⟩ := drop_of_readText hhead hschema (by omega)
  obtain ⟨htraceLength, hdata'⟩ := drop_of_readText hthead htrace (by omega)
  have hheadLt := bigEndian_lt head
  have htheadLt := bigEndian_lt thead
  have htimeLt := bigEndian_lt time
  have htimeBytes := toBigEndian_bigEndian time
  rw [htimeLength] at htimeLt htimeBytes
  rw [hheadLength] at hheadLt
  rw [htheadLength] at htheadLt
  rw [List.drop_zero, Nat.zero_add, hdata', htimeDrop] at hdata
  refine toBytes_eq_some_iff.mpr ⟨?_, ?_, ⟨Int.natCast_nonneg _, ?_⟩, ?_⟩ <;> dsimp only
  · omega
  · omega
  · exact_mod_cast htimeLt
  · rw [Int.toNat_natCast, htimeBytes]
    exact hdata

end EnvelopeMsg

end Common

/-! ### Round trips -/

open Md (FeatureStateMsg)
open Ai (AiPredictionMsg)
open Common (EnvelopeMsg)

/-- A feature vector is read from what it is encoded to. -/
theorem Md.FeatureStateMsg.fromBytes_of_toBytes {m : FeatureStateMsg} {b : List UInt8}
    (h : m.toBytes = some b) : FeatureStateMsg.fromBytes b = some m := by
  obtain ⟨hsymbol, hts, rfl⟩ := FeatureStateMsg.toBytes_eq_some_iff.mp h
  exact FeatureStateMsg.fromBytes_of_doubles [] hsymbol hts

/-- A prediction is read from what it is encoded to. -/
theorem Ai.AiPredictionMsg.fromBytes_of_toBytes {m : AiPredictionMsg} {b : List UInt8}
    (h : m.toBytes = some b) : AiPredictionMsg.fromBytes b = some m := by
  obtain ⟨hsymbol, hts, hversion, rfl⟩ := AiPredictionMsg.toBytes_eq_some_iff.mp h
  refine AiPredictionMsg.fromBytes_of_front hsymbol hts (length_toBigEndian 2 _) ?_
  rw [bigEndian_toBigEndian hversion, List.take_length]

/-- A text that the formats can hold. -/
def Encodable (s : String) : Prop := (utf8 s).length ≤ 65535

/-- **Round trips.** Every message whose texts and numbers fit their fields is encoded, and decoded
to itself; so is one that an envelope carries. -/
theorem roundTrip :
    (∀ m : FeatureStateMsg, Encodable m.symbol → -2 ^ 63 ≤ m.ts ∧ m.ts < 2 ^ 63 →
      ∃ b, m.toBytes = some b ∧ FeatureStateMsg.fromBytes b = some m) ∧
    (∀ m : AiPredictionMsg, Encodable m.symbol → Encodable m.modelVersion →
      -2 ^ 63 ≤ m.ts ∧ m.ts < 2 ^ 63 →
      ∃ b, m.toBytes = some b ∧ AiPredictionMsg.fromBytes b = some m) ∧
    (∀ m : EnvelopeMsg, Encodable m.schemaId → Encodable m.traceId →
      0 ≤ m.producedAtMs ∧ m.producedAtMs < 2 ^ 64 →
      ∃ b, m.toBytes = some b ∧ EnvelopeMsg.fromBytes b = some m ∧
        (∀ inner : FeatureStateMsg, inner.toBytes = some m.payload →
          (EnvelopeMsg.fromBytes b).bind (fun m' => FeatureStateMsg.fromBytes m'.payload) =
            some inner) ∧
        ∀ inner : AiPredictionMsg, inner.toBytes = some m.payload →
          (EnvelopeMsg.fromBytes b).bind (fun m' => AiPredictionMsg.fromBytes m'.payload) =
            some inner) := by
  have hfits : ∀ {s : String}, Encodable s → (utf8 s).length < 256 ^ 2 := by
    intro s hs
    exact Nat.lt_succ_of_le hs
  refine ⟨fun m hsymbol hts => ?_, fun m hsymbol hversion hts => ?_,
    fun m hschema htrace hproduced => ?_⟩
  · have hb := FeatureStateMsg.toBytes_eq_some_iff.mpr ⟨hfits hsymbol, hts, rfl⟩
    exact ⟨_, hb, FeatureStateMsg.fromBytes_of_toBytes hb⟩
  · have hb := AiPredictionMsg.toBytes_eq_some_iff.mpr ⟨hfits hsymbol, hts, hfits hversion, rfl⟩
    exact ⟨_, hb, AiPredictionMsg.fromBytes_of_toBytes hb⟩
  · have hb := EnvelopeMsg.toBytes_eq_some_iff.mpr ⟨hfits hschema, hfits htrace, hproduced, rfl⟩
    have hm := EnvelopeMsg.fromBytes_of_toBytes hb
    refine ⟨_, hb, hm, fun inner hinner => ?_, fun inner hinner => ?_⟩
    · rw [hm, Option.bind_some, FeatureStateMsg.fromBytes_of_toBytes hinner]
    · rw [hm, Option.bind_some, AiPredictionMsg.fromBytes_of_toBytes hinner]

/-- A prediction with an empty symbol and a version of two-byte characters, before 1970. -/
def oddPrediction : AiPredictionMsg where
  symbol := ""
  ts := -1
  direction := .short
  confidence := ⟨[0xff, 0xf8, 0, 0, 0, 0, 0, 1], rfl⟩
  modelVersion := "éé"
  rawScore := ⟨[0x80, 0, 0, 0, 0, 0, 0, 0], rfl⟩

/-- The prediction comes back, alone and in an envelope. -/
theorem roundTrip_oddPrediction : ∃ b, oddPrediction.toBytes = some b ∧
    AiPredictionMsg.fromBytes b = some oddPrediction ∧
      ∃ e, (EnvelopeMsg.mk "ai.AiPrediction.v1" b (2 ^ 64 - 1) "").toBytes = some e ∧
        (EnvelopeMsg.fromBytes e).bind (fun m => AiPredictionMsg.fromBytes m.payload) =
          some oddPrediction := by
  obtain ⟨-, hprediction, henvelope⟩ := roundTrip
  have hempty : Encodable "" := by
    rw [Encodable]
    decide +kernel
  have hversion : Encodable "éé" := by
    rw [Encodable]
    decide +kernel
  have hschema : Encodable "ai.AiPrediction.v1" := by
    rw [Encodable]
    decide +kernel
  obtain ⟨b, hb, hm⟩ := hprediction oddPrediction hempty hversion (by decide)
  obtain ⟨e, he, -, -, hinner⟩ := henvelope (EnvelopeMsg.mk "ai.AiPrediction.v1" b (2 ^ 64 - 1) "")
    hschema hempty (show (0 : ℤ) ≤ 2 ^ 64 - 1 ∧ (2 ^ 64 - 1 : ℤ) < 2 ^ 64 by omega)
  exact ⟨b, hb, hm, e, he, hinner oddPrediction hb⟩

/-! ### What is encoded again -/

/-- The length that the data of a feature vector tell: the length of the symbol is in their first
two bytes. -/
def Md.FeatureStateMsg.announcedLength (b : List UInt8) : ℕ := 2 + bigEndian (b.take 2) + 64

/-- The length that the data of a prediction tell: the length of the symbol is in their first two
bytes, and that of the version 25 bytes after the symbol. -/
def Ai.AiPredictionMsg.announcedLength (b : List UInt8) : ℕ :=
  2 + bigEndian (b.take 2) + 25 + 2 +
    bigEndian ((b.drop (2 + bigEndian (b.take 2) + 25)).take 2)

/-- A feature vector is encoded to the data it was read from, unless they go on. -/
theorem Md.FeatureStateMsg.toBytes_fromBytes_iff {m : FeatureStateMsg} {b : List UInt8}
    (h : FeatureStateMsg.fromBytes b = some m) :
    m.toBytes = some b ↔ b.length = FeatureStateMsg.announcedLength b := by
  obtain ⟨hlength, hts, post, hb⟩ := FeatureStateMsg.fromBytes_spec h
  have hlt : (utf8 m.symbol).length < 256 ^ 2 := by
    have htake := bigEndian_lt (b.take 2)
    have hle : (b.take 2).length ≤ 2 := by simp
    have hpow := Nat.pow_le_pow_right (show 0 < 256 by decide) hle
    omega
  have hsize : b.length = 2 + (utf8 m.symbol).length + 64 + post.length := by
    rw [hb]
    simp only [List.length_append, length_toBigEndian, FeatureStateMsg.length_doubles]
    omega
  rw [FeatureStateMsg.toBytes_eq_some_iff, and_iff_right hlt, and_iff_right hts,
    FeatureStateMsg.announcedLength, ← hlength]
  constructor
  · intro heq
    rw [heq]
    simp only [List.length_append, length_toBigEndian, FeatureStateMsg.length_doubles,
      List.length_nil]
    omega
  · intro heq
    obtain rfl : post = [] := List.eq_nil_of_length_eq_zero (by omega)
    exact hb

/-- A prediction is encoded to the data it was read from, unless they go on or end within the
version. -/
theorem Ai.AiPredictionMsg.toBytes_fromBytes_iff {m : AiPredictionMsg} {b : List UInt8}
    (h : AiPredictionMsg.fromBytes b = some m) :
    m.toBytes = some b ↔ b.length = AiPredictionMsg.announcedLength b := by
  obtain ⟨hlength, hts, head, rest, hb, hhead, hversion⟩ := AiPredictionMsg.fromBytes_spec h
  have hlt : (utf8 m.symbol).length < 256 ^ 2 := by
    have htake := bigEndian_lt (b.take 2)
    have hle : (b.take 2).length ≤ 2 := by simp
    have hpow := Nat.pow_le_pow_right (show 0 < 256 by decide) hle
    omega
  have hheadLt := bigEndian_lt head
  rw [hhead] at hheadLt
  have hverLen : (utf8 m.modelVersion).length ≤ bigEndian head := by
    rw [hversion, List.length_take]
    omega
  have hfield : (b.drop (2 + bigEndian (b.take 2) + 25)).take 2 = head := by
    have hdrop := AiPredictionMsg.drop_front m (head ++ rest)
    rw [← hb, hlength] at hdrop
    rw [hdrop, ← hhead, List.take_left]
  have hsize : b.length = 2 + (utf8 m.symbol).length + 25 + 2 + rest.length := by
    rw [hb, AiPredictionMsg.length_front, List.length_append, hhead]
    omega
  rw [AiPredictionMsg.toBytes_eq_some_iff, and_iff_right hlt, and_iff_right hts,
    and_iff_right (by omega), AiPredictionMsg.announcedLength, hfield, ← hlength, hsize]
  constructor
  · intro heq
    rw [heq, AiPredictionMsg.front_inj] at hb
    have hheads := congrArg (List.take 2) hb
    rw [List.take_left' (length_toBigEndian 2 _), List.take_left' hhead] at hheads
    have hnumbers := congrArg bigEndian hheads
    rw [bigEndian_toBigEndian (by omega)] at hnumbers
    have hlengths := congrArg List.length hb
    rw [List.length_append, List.length_append, length_toBigEndian, hhead] at hlengths
    omega
  · intro heq
    have hrest : utf8 m.modelVersion = rest := by
      rw [hversion, List.take_of_length_le (by omega)]
    have hbytes := toBigEndian_bigEndian head
    rw [hhead] at hbytes
    rw [hb, AiPredictionMsg.front_inj, hrest, show rest.length = bigEndian head by omega, hbytes]

/-- **Encodings only.** Of the data that a decoder accepts, exactly those of the length that they
tell are what the message is encoded to; an envelope takes all data there are. -/
theorem reencodes_iff (b : List UInt8) :
    (∀ m, FeatureStateMsg.fromBytes b = some m →
      (m.toBytes = some b ↔ b.length = FeatureStateMsg.announcedLength b)) ∧
    (∀ m, AiPredictionMsg.fromBytes b = some m →
      (m.toBytes = some b ↔ b.length = AiPredictionMsg.announcedLength b)) ∧
    ∀ m, EnvelopeMsg.fromBytes b = some m → m.toBytes = some b :=
  ⟨fun _ h => FeatureStateMsg.toBytes_fromBytes_iff h,
    fun _ h => AiPredictionMsg.toBytes_fromBytes_iff h,
    fun _ h => EnvelopeMsg.toBytes_of_fromBytes h⟩

/-- The data of a prediction that end within the version, and those of a feature vector that go
on. -/
def cutPrediction : List UInt8 :=
  [0, 1, 0x42, 0, 0, 0, 0, 0, 0, 0, 7, 1] ++ List.replicate 16 0 ++ [0, 4, 0x76, 0x31]

/-- The bytes of a vector, and one more. -/
def longVector : List UInt8 := [0, 1, 0x42, 0, 0, 0, 0, 0, 0, 0, 7] ++ List.replicate 57 0

/-- Both are accepted, and neither is what its message is encoded to. -/
theorem cut_and_long_accepted :
    (∃ m, AiPredictionMsg.fromBytes cutPrediction = some m ∧ m.modelVersion = "v1" ∧
      m.toBytes ≠ some cutPrediction) ∧
    ∃ m, FeatureStateMsg.fromBytes longVector = some m ∧ m.toBytes ≠ some longVector := by
  constructor
  · have hread : (AiPredictionMsg.fromBytes cutPrediction).map (fun m =>
        (m.modelVersion, m.toBytes == some cutPrediction)) = some ("v1", false) := by
      decide +kernel
    obtain ⟨m, hm, hread⟩ := Option.map_eq_some_iff.mp hread
    obtain ⟨hversion, hbytes⟩ := Prod.mk.inj hread
    exact ⟨m, hm, hversion, by simpa using hbytes⟩
  · have hread : (FeatureStateMsg.fromBytes longVector).map (fun m =>
        m.toBytes == some longVector) = some false := by
      decide +kernel
    obtain ⟨m, hm, hbytes⟩ := Option.map_eq_some_iff.mp hread
    exact ⟨m, hm, by simpa using hbytes⟩

end HftPlatform
