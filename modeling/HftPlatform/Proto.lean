import HftPlatform.Lib.Text
import HftPlatform.Lib.Binary64

/-!
# The OMS messages and what the services take from outside

`OrderCommand` and `ExecutionReport` are the two messages of `proto/oms`. Enumerations
travel as `i32`, so a decoded message may carry any integer there; each enumeration comes
with the `code` its variants have on the wire. Every `double` is a `Binary64`.

`Runtime` collects what the services use of the language and of third-party crates: the
rounding of floating-point arithmetic, UUID parsing and printing, JSON decoding, and the
hasher. The development holds for every such runtime.
-/

namespace HftPlatform

open Lib

/-- The side of an order. -/
inductive OrderSide
  | unspecified
  | buy
  | sell
  deriving DecidableEq, Repr

/-- The number of a side on the wire. -/
def OrderSide.code : OrderSide → ℤ
  | unspecified => 0
  | buy => 1
  | sell => 2

/-- What a command asks for. -/
inductive OrderAction
  | unspecified
  | create
  | cancel
  | replace
  deriving DecidableEq, Repr

/-- The number of an action on the wire. -/
def OrderAction.code : OrderAction → ℤ
  | unspecified => 0
  | create => 1
  | cancel => 2
  | replace => 3

/-- The type of an order. -/
inductive OrderType
  | unspecified
  | market
  | limit
  | stopMarket
  | stopLimit
  deriving DecidableEq, Repr

/-- The number of a type on the wire. -/
def OrderType.code : OrderType → ℤ
  | unspecified => 0
  | market => 1
  | limit => 2
  | stopMarket => 3
  | stopLimit => 4

/-- How long an order stands. -/
inductive TimeInForce
  | unspecified
  | gtc
  | ioc
  | fok
  | gtx
  deriving DecidableEq, Repr

/-- The number of a time in force on the wire. -/
def TimeInForce.code : TimeInForce → ℤ
  | unspecified => 0
  | gtc => 1
  | ioc => 2
  | fok => 3
  | gtx => 4

/-- What a report says of its order. -/
inductive ExecutionStatus
  | unspecified
  | new
  | partiallyFilled
  | filled
  | canceled
  | rejected
  | expired
  | pendingCancel
  deriving DecidableEq, Repr

/-- The number of a status on the wire. -/
def ExecutionStatus.code : ExecutionStatus → ℤ
  | unspecified => 0
  | new => 1
  | partiallyFilled => 2
  | filled => 3
  | canceled => 4
  | rejected => 5
  | expired => 6
  | pendingCancel => 7

/-- `oms.OrderCommand`: what a service asks of the next one on the way to the exchange. -/
structure OrderCommand where
  accountId : String
  symbol : String
  clientOrderId : String
  side : ℤ
  type : ℤ
  tif : ℤ
  qty : Binary64
  price : Binary64
  reduceOnly : Bool
  stopPrice : Binary64
  decisionReason : String
  traceId : String
  decisionTimeNs : ℤ
  schemaVersion : ℕ
  action : ℤ
  strategyId : String
  signalId : String
  deriving DecidableEq, Repr

/-- `oms.ExecutionReport`: what became of an order. -/
structure ExecutionReport where
  accountId : String
  symbol : String
  clientOrderId : String
  exchangeOrderId : String
  status : ℤ
  side : ℤ
  lastFilledQty : Binary64
  lastFilledPrice : Binary64
  cumulativeFilledQty : Binary64
  avgPrice : Binary64
  commission : Binary64
  commissionAsset : String
  rejectReason : String
  eventTimeNs : ℤ
  recvTimeNs : ℤ
  traceId : String
  fillId : String
  fillSeq : ℤ
  schemaVersion : ℕ
  strategyId : String
  signalId : String
  deriving DecidableEq, Repr

/-- The exchange's acknowledgement of an order. -/
structure BinanceOrderAck where
  symbol : String
  orderId : ℤ
  clientOrderId : String
  transactTime : ℤ
  deriving DecidableEq, Repr

/-- A 128-bit identifier. -/
abbrev Uuid := ℕ

/-- The part of an order's decision reason that the writer interprets. -/
structure DecisionMeta where
  takeProfitPrice : Option Binary64 := none
  coinTags : Option (List String) := none
  exitKind : Option String := none
  deriving DecidableEq, Repr

/-- What the services take from their language and from third-party crates. -/
structure Runtime where
  /-- The rounding of `f64` arithmetic. -/
  fp : Rounding
  /-- `Uuid::parse_str(s).ok()`. -/
  parseUuid : String → Option Uuid
  /-- `Uuid::to_string`. -/
  showUuid : Uuid → String
  /-- `serde_json::from_str::<DecisionMeta>(s).ok()`. -/
  decisionMeta : String → Option DecisionMeta
  /-- `serde_json::from_str::<Value>(s).ok()`, as the text of the value. -/
  parseJson : String → Option String
  /-- The database accepts the text of a JSON value as `jsonb`. -/
  jsonbAccepts : String → Bool
  /-- `serde_json::from_str::<BinanceOrderAck>(s).ok()`. -/
  parseOrderAck : String → Option BinanceOrderAck
  /-- `str::parse::<f64>().ok()`. -/
  parseF64 : String → Option Binary64
  /-- `str::to_uppercase`. -/
  toUppercase : String → String
  /-- `StatusCode`'s `Display`. -/
  showStatus : ℕ → String
  /-- `f64`'s `Display`. -/
  showF64 : Binary64 → String
  /-- `f64` printed with two decimals. -/
  showF64Fixed2 : Binary64 → String
  /-- `Decimal::from_f64`. -/
  decimalFromF64 : Binary64 → Option ℚ
  /-- `Decimal::to_f64`. -/
  decimalToF64 : ℚ → Option Binary64
  /-- The significant digits with which the database prints a `float8` that it casts to
  `numeric`; all of them when there is no such number. -/
  castDigits : Option ℕ
  /-- `DefaultHasher::finish` after hashing, in this order, a client order id, a symbol, an
  event time, and the bits of a quantity and of a price. -/
  hashFill : String → String → ℤ → Binary64 → Binary64 → ℕ

/-! ### A reference runtime -/

/-- The value of a hexadecimal digit. -/
def hexDigit (c : Char) : Option ℕ :=
  if '0' ≤ c ∧ c ≤ '9' then some (c.toNat - '0'.toNat)
  else if 'a' ≤ c ∧ c ≤ 'f' then some (c.toNat - 'a'.toNat + 10)
  else if 'A' ≤ c ∧ c ≤ 'F' then some (c.toNat - 'A'.toNat + 10)
  else none

/-- The hyphenated form of a UUID: 8-4-4-4-12 hexadecimal digits. -/
def parseHyphenated (s : String) : Option Uuid :=
  let groups := s.toList.splitOn '-'
  if groups.map List.length = [8, 4, 4, 4, 12] then
    groups.flatten.foldlM (fun n c => (hexDigit c).map (16 * n + ·)) 0
  else none

/-- The hyphenated form, printed in lower case. -/
def showHyphenated (u : Uuid) : String :=
  let digits := (List.range 32).map fun i => (Nat.digitChar (u / 16 ^ (31 - i) % 16))
  let hyphen := ['-']
  String.ofList (digits.take 8 ++ hyphen ++ (digits.drop 8).take 4 ++ hyphen ++
    (digits.drop 12).take 4 ++ hyphen ++ (digits.drop 16).take 4 ++ hyphen ++ digits.drop 20)

/-- The text of an id is not empty. -/
theorem showHyphenated_ne_empty (u : Uuid) : showHyphenated u ≠ "" := by
  simp [showHyphenated]

/-- A runtime to evaluate the model on: hardware arithmetic, hyphenated UUIDs, decision
reasons that are plain text, acknowledgements of one fixed order. -/
def Runtime.reference : Runtime where
  fp := Rounding.nearestEven
  parseUuid := parseHyphenated
  showUuid := showHyphenated
  decisionMeta _ := none
  parseJson _ := none
  jsonbAccepts _ := true
  parseOrderAck _ := none
  parseF64 s := s.toNat?.map fun n => .fin n
  toUppercase := toAsciiUppercase
  showStatus := toString
  showF64 _ := ""
  showF64Fixed2 _ := ""
  decimalFromF64
    | .fin q => some q
    | _ => none
  decimalToF64 q := some (Rounding.nearestEven.round q)
  castDigits := some 15
  hashFill id symbol time _ _ := id.length + symbol.length + time.natAbs

/-- An order command with the given id, action, side, type, quantity and price. -/
def OrderCommand.sample (id : String) (action side type : ℤ) (qty price : ℚ) :
    OrderCommand where
  accountId := "paper-main"
  symbol := "BTCUSDT"
  clientOrderId := id
  side := side
  type := type
  tif := TimeInForce.ioc.code
  qty := .fin qty
  price := .fin price
  reduceOnly := false
  stopPrice := .zero
  decisionReason := "manual-test"
  traceId := ""
  decisionTimeNs := 0
  schemaVersion := 1
  action := action
  strategyId := "manual-test"
  signalId := ""

example : parseHyphenated "018f3c2e-0000-7000-8000-00000000000a" =
    some 0x018f3c2e00007000800000000000000a := by decide +kernel

example : showHyphenated 0x018f3c2e00007000800000000000000a =
    "018f3c2e-0000-7000-8000-00000000000a" := by decide +kernel

end HftPlatform
