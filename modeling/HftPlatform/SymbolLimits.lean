import HftPlatform.RiskGuard

/-!
# The spelling of symbols in the limits

`LIMIT_NOTIONAL_PER_SYMBOL_MAP` is read by `services/execution_router/risk_guard/src/config.rs`,
which writes the names of its entries in upper case. `checker.rs` then looks a limit up under the
symbol of the order as the order spells it.

## Main results

* `parseLimitMap_eq`: the map holds the entries under their names in upper case.
* `notionalLimit_eq_iff`: when the limit of an entry is applied to the symbols that it is for.
-/

namespace HftPlatform.RiskGuard

open Lib Binary64

variable (rt : Runtime)

/-- The well-formed `SYMBOL=limit` entries, with their names as they are written. -/
def limitEntries (s : String) : List (String × Binary64) :=
  (((s.toList.splitOn ',').map String.ofList).filter fun p => p.toList.contains '=').filterMap
    fun pair => do
      let name := String.ofList (pair.toList.takeWhile (· ≠ '='))
      let limit := String.ofList ((pair.toList.dropWhile (· ≠ '=')).drop 1)
      return (trim name, ← rt.parseF64 (trim limit))

variable {rt} {cfg : Config} {dynamic : DynamicLimits} {env : Environment} {symbol : String}

/-- **The map holds the entries** under their names in upper case. -/
theorem parseLimitMap_eq (s : String) :
    parseLimitMap rt s = (limitEntries rt s).map fun e => (rt.toUppercase e.1, e.2) := by
  rw [parseLimitMap, limitEntries, List.map_filterMap]
  congr 1
  funext pair
  cases rt.parseF64 (trim (String.ofList ((pair.toList.dropWhile (· ≠ '=')).drop 1))) <;>
    simp [parseLimitPair]

/-- The last entry of a symbol counts. -/
theorem SymbolLimits.get_eq (limits : SymbolLimits) (symbol : String) :
    SymbolLimits.get limits symbol =
      (limits.filter fun e => e.1 = symbol).getLast?.map Prod.snd := by
  rw [SymbolLimits.get, lookup, ← List.head?_filter, List.filter_reverse, List.head?_reverse]

/-- The limit that the configuration has for a symbol. -/
theorem get_notionalLimits (hcfg : Config.fromEnv rt env = some cfg) :
    cfg.notionalLimits.get symbol =
      ((limitEntries rt ((env "LIMIT_NOTIONAL_PER_SYMBOL_MAP").getD "")).filter fun e =>
        rt.toUppercase e.1 = symbol).getLast?.map Prod.snd := by
  have hlimits : cfg.notionalLimits =
      parseLimitMap rt ((env "LIMIT_NOTIONAL_PER_SYMBOL_MAP").getD "") := by
    rw [Config.fromEnv] at hcfg
    cases horder : rt.parseF64 ((env "LIMIT_NOTIONAL_PER_ORDER").getD "5000") with
    | none => simp [horder] at hcfg
    | some maxNotional =>
        cases hleverage : rt.parseF64 ((env "LIMIT_LEVERAGE").getD "5.0") with
        | none => simp [horder, hleverage] at hcfg
        | some maxLeverage =>
            simp only [horder, hleverage] at hcfg
            exact (congrArg Config.notionalLimits (Option.some.inj hcfg)).symm
  rw [hlimits, parseLimitMap_eq, SymbolLimits.get_eq, List.filter_map, List.getLast?_map,
    Option.map_map]
  rfl

/-- A number that is written with digits only. -/
def parseDigits (s : String) : Option Binary64 :=
  if s = "" then none
  else
    let digit (n : ℕ) (c : Char) := if c.isDigit then some (10 * n + (c.toNat - 48)) else none
    (s.toList.foldlM digit 0).map fun n => .fin n

/-- A runtime that reads whole numbers. -/
def digitRuntime : Runtime := { Runtime.reference with parseF64 := parseDigits }

/-- A global limit of 5000, and a limit of 100 for one symbol. -/
def limitEnv : Environment := fun key =>
  if key = "LIMIT_NOTIONAL_PER_ORDER" then some "5000"
  else if key = "LIMIT_LEVERAGE" then some "5"
  else if key = "LIMIT_NOTIONAL_PER_SYMBOL_MAP" then some "BTCUSDT=100"
  else none

/-- An order of 1000 units of its quote currency. -/
def mappedOrder (symbol : String) : OrderCommand where
  accountId := "a"
  symbol := symbol
  clientOrderId := "c"
  side := 1
  type := OrderType.limit.code
  tif := TimeInForce.gtc.code
  qty := .fin 1
  price := .fin 1000
  reduceOnly := false
  stopPrice := .zero
  decisionReason := ""
  traceId := ""
  decisionTimeNs := 0
  schemaVersion := 1
  action := OrderAction.create.code
  strategyId := ""
  signalId := ""

/-- The configuration of these variables. -/
def limitConfig : Config where
  kafkaTopicOrders := "TOPIC_ORDERS"
  kafkaTopicOrdersApproved := "TOPIC_ORDERS_APPROVED"
  kafkaTopicExecutionReports := "TOPIC_EXECUTION_REPORTS"
  maxNotionalPerOrder := .fin 5000
  maxLeverage := .fin 5
  notionalLimits := [("BTCUSDT", .fin 100)]

theorem fromEnv_limitEnv : Config.fromEnv digitRuntime limitEnv = some limitConfig := by
  have horder : digitRuntime.parseF64 "5000" = some (.fin 5000) := by decide +kernel
  have hleverage : digitRuntime.parseF64 "5" = some (.fin 5) := by decide +kernel
  have hmap : parseLimitMap digitRuntime "BTCUSDT=100" = [("BTCUSDT", .fin 100)] := by
    decide +kernel
  simp [Config.fromEnv, limitEnv, limitConfig, topicOrders, horder, hleverage, hmap]

theorem limitEntries_limitEnv :
    limitEntries digitRuntime ((limitEnv "LIMIT_NOTIONAL_PER_SYMBOL_MAP").getD "") =
      [("BTCUSDT", .fin 100)] := by
  decide +kernel

/-- An order for ten times the limit of its symbol is approved when it writes the symbol in lower
case, though the entry is for it, and rejected when it writes it as the entry does. -/
theorem limit_dodged :
    Config.fromEnv digitRuntime limitEnv = some limitConfig ∧
      limitEntries digitRuntime ((limitEnv "LIMIT_NOTIONAL_PER_SYMBOL_MAP").getD "") =
        [("BTCUSDT", .fin 100)] ∧
      eqIgnoreAsciiCase (mappedOrder "btcusdt").symbol "BTCUSDT" = true ∧
      notionalLimit limitConfig {} (mappedOrder "btcusdt").symbol = .fin 5000 ∧
      (runGates digitRuntime limitConfig {} (.ok false) (.ok false) (mappedOrder "btcusdt")).2 =
        .approved ∧
      (runGates digitRuntime limitConfig {} (.ok false) (.ok false) (mappedOrder "BTCUSDT")).2 ≠
        .approved :=
  ⟨fromEnv_limitEnv, limitEntries_limitEnv, by decide +kernel, by decide +kernel,
    by decide +kernel, by decide +kernel⟩

/-- **When the limit of an entry is applied.** `limit` is that of an entry whose name equals the
symbol of the order ignoring ASCII case, such as the last of them, and there is no dynamic limit for
the symbol. It is applied exactly when the order writes its symbol in upper case and no later entry,
whose name comes to the symbol in upper case, has another limit, or when the symbol is not written
in upper case and the global default happens to be the same. -/
theorem notionalLimit_eq_iff {order : OrderCommand}
    (hcase : ∀ s t, eqIgnoreAsciiCase s t = true → rt.toUppercase s = rt.toUppercase t)
    (hupper : ∀ s, rt.toUppercase (rt.toUppercase s) = rt.toUppercase s)
    (hcfg : Config.fromEnv rt env = some cfg)
    (hdynamic : dynamic.symbolNotional.get order.symbol = none)
    {pre post : List (String × Binary64)} {name : String} {limit : Binary64}
    (hentries : limitEntries rt ((env "LIMIT_NOTIONAL_PER_SYMBOL_MAP").getD "") =
      pre ++ (name, limit) :: post)
    (hname : eqIgnoreAsciiCase order.symbol name = true) :
    notionalLimit cfg dynamic order.symbol = limit ↔
      (rt.toUppercase order.symbol = order.symbol ∧
        ∀ e, (post.filter fun e => rt.toUppercase e.1 = order.symbol).getLast? = some e →
          e.2 = limit) ∨
      (rt.toUppercase order.symbol ≠ order.symbol ∧ cfg.maxNotionalPerOrder = limit) := by
  have hlimit : notionalLimit cfg dynamic order.symbol =
      (((pre ++ (name, limit) :: post).filter fun e =>
        rt.toUppercase e.1 = order.symbol).getLast?.map Prod.snd).getD
          cfg.maxNotionalPerOrder := by
    rw [notionalLimit, hdynamic, get_notionalLimits hcfg, hentries]
    rfl
  by_cases hsymbol : rt.toUppercase order.symbol = order.symbol
  · have hentry : rt.toUppercase name = order.symbol := (hcase _ _ hname).symm.trans hsymbol
    rw [hlimit, List.filter_append, List.filter_cons_of_pos (by simpa using hentry),
      List.getLast?_append, List.getLast?_cons]
    cases (post.filter fun e => rt.toUppercase e.1 = order.symbol).getLast? <;>
      simp [hsymbol]
  · have hnone : ∀ e : String × Binary64, rt.toUppercase e.1 ≠ order.symbol := by
      intro e he
      rw [← he, hupper] at hsymbol
      exact hsymbol rfl
    rw [hlimit, List.filter_eq_nil_iff.mpr (by simpa using fun name limit _ => hnone (name, limit))]
    simp [hsymbol]

/-- A capital letter is its own capital. -/
theorem toUpper_comp_toUpper : Char.toUpper ∘ Char.toUpper = Char.toUpper := by
  funext c
  rw [Function.comp_apply]
  unfold Char.toUpper
  split
  · rename_i h
    split
    · rename_i h'
      simp [UInt32.le_iff_toNat_le] at h h'
      omega
    · rfl
  · rfl

/-- The limit applies to the symbol as the entry writes it, and not in lower case. -/
theorem notionalLimit_limitEnv :
    notionalLimit limitConfig {} (mappedOrder "BTCUSDT").symbol = .fin 100 ∧
      notionalLimit limitConfig {} (mappedOrder "btcusdt").symbol ≠ .fin 100 := by
  have hcase : ∀ s t, eqIgnoreAsciiCase s t = true →
      digitRuntime.toUppercase s = digitRuntime.toUppercase t := by
    simp [eqIgnoreAsciiCase, digitRuntime, Runtime.reference]
  have hupper : ∀ s, digitRuntime.toUppercase (digitRuntime.toUppercase s) =
      digitRuntime.toUppercase s := by
    simp [digitRuntime, Runtime.reference, toAsciiUppercase, toUpper_comp_toUpper]
  have hiff : ∀ symbol, eqIgnoreAsciiCase symbol "BTCUSDT" = true → _ := fun symbol hname =>
    @notionalLimit_eq_iff digitRuntime limitConfig {} limitEnv (mappedOrder symbol) hcase hupper
      fromEnv_limitEnv rfl [] [] "BTCUSDT" (.fin 100) limitEntries_limitEnv hname
  refine ⟨(hiff "BTCUSDT" (by decide +kernel)).mpr (Or.inl ⟨by decide +kernel, by simp⟩), ?_⟩
  rw [Ne, hiff "btcusdt" (by decide +kernel)]
  rintro (⟨h, -⟩ | ⟨-, h⟩)
  · exact absurd h (by decide +kernel)
  · exact absurd h (by decide +kernel)

end HftPlatform.RiskGuard
