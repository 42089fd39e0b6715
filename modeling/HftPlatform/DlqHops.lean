import HftPlatform.KafkaConsumer
import HftPlatform.Lib.Entries

/-!
# Dead-lettering again and again

A message that was dead-lettered may be consumed from the dead-letter topic, fail there, and be
dead-lettered again, any number of times: `MessageCtx::from_borrowed` collects the headers of a
record into a map, and `DlqPublisher::publish` writes the entries of the map, in any order, and its
own headers after them.

## Main definitions

* `MessageCtx.fromBorrowed`: the owned copy of a message of the broker.
* `Hop.apply`: a message is dead-lettered and read back.

## Main results

* `Hop.header_apply`: what a hop does to a header.
* `hops_preserve`: what any number of hops keeps, and what the last of them leaves.
-/

namespace HftPlatform.Mq

open Lib
open Wire (utf8)

/-! ### Reading a message -/

/-- A message of the broker. -/
structure BorrowedMessage where
  topic : String
  key : Option (List UInt8)
  payload : Option (List UInt8)
  headers : Option (List (String × Option (List UInt8)))
  timestampMs : Option ℤ
  partition : ℤ
  offset : ℤ

/-- The order in which a hash map is iterated over. -/
structure IterationOrder where
  arrange : List (String × List UInt8) → List (String × List UInt8)
  perm : ∀ entries, (arrange entries).Perm entries

/-- The owned copy of a message, its headers in the order in which the map is iterated over. -/
def MessageCtx.fromBorrowed (order : IterationOrder) (m : BorrowedMessage) : MessageCtx where
  topic := m.topic
  key := m.key
  payload := m.payload.getD []
  headers := order.arrange (collect ((m.headers.getD []).map fun h => (h.1, h.2.getD [])))
  timestampMs := m.timestampMs
  partition := m.partition
  offset := m.offset

/-- The value of a header. -/
def MessageCtx.header (ctx : MessageCtx) (name : String) : Option (List UInt8) :=
  ctx.headers.lookup name

/-- The headers of a copy have distinct names. -/
theorem MessageCtx.fromBorrowed_nodup (order : IterationOrder) (m : BorrowedMessage) :
    ((fromBorrowed order m).headers.map Prod.fst).Nodup :=
  (((order.perm _).map Prod.fst).nodup_iff).mpr (nodup_collect _)

/-- A header of the copy is the last header of that name. -/
theorem MessageCtx.header_fromBorrowed (order : IterationOrder) (m : BorrowedMessage)
    (name : String) : (fromBorrowed order m).header name =
      ((m.headers.getD []).map fun h => (h.1, h.2.getD [])).reverse.lookup name :=
  (lookup_perm (order.perm _) (fromBorrowed_nodup order m) name).trans (lookup_collect _ name)

/-! ### Hops -/

/-- A hop: a message is dead-lettered, stored, and read back. The broker gives it a place and a
time, and may return nothing for what is empty. -/
structure Hop where
  dlq : DlqPublisher
  error : String
  failedAtMs : ℕ
  partition : ℤ
  offset : ℤ
  timestampMs : Option ℤ
  emptyIsNull : Bool
  order : IterationOrder

/-- Bytes as the broker returns them. -/
def Hop.bytes (hop : Hop) (bytes : List UInt8) : Option (List UInt8) :=
  if hop.emptyIsNull && bytes.isEmpty then none else some bytes

/-- A record as it is stored. -/
def Hop.stored (hop : Hop) (record : Record) : BorrowedMessage where
  topic := record.topic
  key := hop.bytes record.key
  payload := hop.bytes record.payload
  headers := some (record.headers.map fun h => (h.1, hop.bytes h.2))
  timestampMs := hop.timestampMs
  partition := hop.partition
  offset := hop.offset

/-- The message that is read back. -/
def Hop.apply (ctx : MessageCtx) (hop : Hop) : MessageCtx :=
  .fromBorrowed hop.order (hop.stored (hop.dlq.record ctx hop.error hop.failedAtMs))

/-- The names of the headers that the publisher writes. -/
def dlqHeaders : List String :=
  ["dlq.original-topic", "dlq.original-partition", "dlq.original-offset", "dlq.error",
    "dlq.failed-at-ms"]

/-- Bytes come back as they were. -/
@[simp] theorem Hop.bytes_getD (hop : Hop) (bytes : List UInt8) :
    (hop.bytes bytes).getD [] = bytes := by
  rw [Hop.bytes]
  split
  · rename_i h
    simp_all
  · rfl

/-- **A header after a hop**: one of the publisher's, or what it was before. -/
theorem Hop.header_apply (hop : Hop) {ctx : MessageCtx} (h : (ctx.headers.map Prod.fst).Nodup)
    (name : String) : (hop.apply ctx).header name =
      ((([("dlq.original-topic", utf8 ctx.topic),
        ("dlq.original-partition", utf8 (toString ctx.partition)),
        ("dlq.original-offset", utf8 (toString ctx.offset)), ("dlq.error", utf8 hop.error),
        ("dlq.failed-at-ms", utf8 (toString hop.failedAtMs))] :
          List (String × List UInt8)).reverse.lookup name).or (ctx.header name)) := by
  have hback : ∀ headers : List (String × List UInt8),
      (headers.map fun h => (h.1, hop.bytes h.2)).map (fun h => (h.1, h.2.getD [])) = headers := by
    intro headers
    rw [List.map_map]
    exact (List.map_congr_left fun h _ => by simp).trans (List.map_id headers)
  rw [apply, MessageCtx.header_fromBorrowed, Hop.stored, Option.getD_some, hback,
    DlqPublisher.record, List.reverse_append, List.lookup_append, MessageCtx.header,
    lookup_perm (List.reverse_perm _).symm h]

/-- The headers of others stay. -/
theorem Hop.header_apply_of_not_mem (hop : Hop) {ctx : MessageCtx}
    (h : (ctx.headers.map Prod.fst).Nodup) {name : String} (hname : name ∉ dlqHeaders) :
    (hop.apply ctx).header name = ctx.header name := by
  rw [header_apply hop h, List.lookup_eq_none_iff.mpr, Option.none_or]
  intro e he
  have hmem : e.1 ∈ dlqHeaders := by
    rw [List.mem_reverse] at he
    exact List.mem_map_of_mem (f := Prod.fst) he
  exact bne_iff_ne.mpr fun heq => hname (heq ▸ hmem)

/-- The message after hops. -/
def afterHops (ctx : MessageCtx) (hops : List Hop) : MessageCtx := hops.foldl Hop.apply ctx

/-- After any hops the names are distinct. -/
theorem afterHops_nodup {ctx : MessageCtx} (h : (ctx.headers.map Prod.fst).Nodup)
    (hops : List Hop) : ((afterHops ctx hops).headers.map Prod.fst).Nodup := by
  induction hops using List.reverseRecOn with
  | nil => exact h
  | append_singleton hops hop ih =>
      rw [afterHops, List.foldl_concat]
      exact MessageCtx.fromBorrowed_nodup _ _

/-- What hops keep of a message. -/
structure Preserved (ctx : MessageCtx) (hops : List Hop) (result : MessageCtx) : Prop where
  payload : result.payload = ctx.payload
  topic : result.topic = ctx.topic ++ String.join (hops.map (·.dlq.suffix))
  headers : ∀ name ∉ dlqHeaders, result.header name = ctx.header name

/-- Any hops preserve the message. -/
theorem preserved_afterHops {ctx : MessageCtx} (h : (ctx.headers.map Prod.fst).Nodup)
    (hops : List Hop) : Preserved ctx hops (afterHops ctx hops) := by
  induction hops using List.reverseRecOn with
  | nil => exact ⟨rfl, by simp [afterHops], fun _ _ => rfl⟩
  | append_singleton hops hop ih =>
      rw [afterHops, List.foldl_concat, ← afterHops]
      refine ⟨?_, ?_, fun name hname => ?_⟩
      · exact (hop.bytes_getD _).trans ih.payload
      · show (afterHops ctx hops).topic ++ hop.dlq.suffix = _
        rw [ih.topic, List.map_append, List.map_singleton, String.append_assoc]
        simp [String.join_append]
      · rw [hop.header_apply_of_not_mem (afterHops_nodup h hops) hname, ih.headers name hname]

/-- The headers that a hop leaves are about the message that it dead-lettered. -/
structure Describes (result ctx : MessageCtx) (hop : Hop) : Prop where
  originalTopic : result.header "dlq.original-topic" = some (utf8 ctx.topic)
  originalPartition : result.header "dlq.original-partition" = some (utf8 (toString ctx.partition))
  originalOffset : result.header "dlq.original-offset" = some (utf8 (toString ctx.offset))
  error : result.header "dlq.error" = some (utf8 hop.error)
  failedAtMs : result.header "dlq.failed-at-ms" = some (utf8 (toString hop.failedAtMs))

/-- The headers of the publisher are about the hop. -/
theorem Hop.describes (hop : Hop) {ctx : MessageCtx} (h : (ctx.headers.map Prod.fst).Nodup) :
    Describes (hop.apply ctx) ctx hop := by
  constructor <;> rw [hop.header_apply h] <;> rfl

/-- **Dead-lettering preserves a message**, any number of times, and the headers of the publisher
are those of the last time. -/
theorem hops_preserve (order : IterationOrder) (m : BorrowedMessage) (hops : List Hop) :
    Preserved (.fromBorrowed order m) hops (afterHops (.fromBorrowed order m) hops) ∧
      ∀ before last, hops = before ++ [last] →
        Describes (afterHops (.fromBorrowed order m) hops)
          (afterHops (.fromBorrowed order m) before) last := by
  have hnodup := MessageCtx.fromBorrowed_nodup order m
  refine ⟨preserved_afterHops hnodup hops, ?_⟩
  rintro before last rfl
  rw [afterHops, List.foldl_concat]
  exact last.describes (afterHops_nodup hnodup before)

/-! ### Two hops of one message -/

/-- A map that is iterated over as it was filled. -/
def IterationOrder.asFilled : IterationOrder := ⟨id, fun _ => .refl _⟩

/-- A map that is iterated over backwards. -/
def IterationOrder.backwards : IterationOrder := ⟨List.reverse, List.reverse_perm⟩

/-- A message without a key, with a header of its own. -/
def tracedMessage : BorrowedMessage where
  topic := "TOPIC_ORDERS"
  key := none
  payload := some [1, 2, 3]
  headers := some [("trace-id", some [7])]
  timestampMs := some 1
  partition := 0
  offset := 41

/-- The message is dead-lettered for the first time, and the broker does not tell an empty key from
none. -/
def firstHop : Hop where
  dlq := ⟨".dlq"⟩
  error := "no such strategy"
  failedAtMs := 10
  partition := 2
  offset := 5
  timestampMs := some 11
  emptyIsNull := true
  order := .backwards

/-- The dead letter is dead-lettered again. -/
def secondHop : Hop where
  dlq := ⟨".dlq"⟩
  error := "still no such strategy"
  failedAtMs := 20
  partition := 0
  offset := 9
  timestampMs := some 21
  emptyIsNull := true
  order := .asFilled

/-- After the second hop the payload and the header of the message are what they were, and the
headers of the publisher are about the first dead letter. -/
theorem hops_preserve_twice :
    let result := afterHops (.fromBorrowed .asFilled tracedMessage) [firstHop, secondHop]
    result.payload = [1, 2, 3] ∧ result.topic = "TOPIC_ORDERS.dlq.dlq" ∧
      result.header "trace-id" = some [7] ∧
      result.header "dlq.original-topic" = some (utf8 "TOPIC_ORDERS.dlq") ∧
      result.header "dlq.error" = some (utf8 "still no such strategy") := by
  intro result
  obtain ⟨hkept, hlast⟩ := hops_preserve .asFilled tracedMessage [firstHop, secondHop]
  have htold := hlast [firstHop] secondHop rfl
  exact ⟨hkept.payload, hkept.topic, hkept.headers "trace-id" (by decide), htold.originalTopic,
    htold.error⟩

end HftPlatform.Mq
