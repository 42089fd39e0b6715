import HftPlatform.Lib.LastWrite
import HftPlatform.RiskGuard
import Mathlib.Data.List.Induction

/-!
# The limits that the risk guard loads

`fetch_dynamic_limits` of `services/execution_router/risk_guard/src/main.rs` folds the rows of
`risk_limits` that are in effect into the overrides for the gates. Its query does not sort, so the
rows come in any order. A later row overwrites an earlier one, whatever `scope_type` says: a limit
of an account counts as one of the symbol that is named like the account, and every `MAX_LEVERAGE`
is the one leverage limit.

## Main results

* `fetchDynamicLimits_spec`: what the fold leaves under every key.
* `runGates_eq_of_same`: limits that agree under every key give every order the same verdict.
* `rowOrderIrrelevant_iff`: when the order of the rows makes no difference.
-/

namespace HftPlatform.RiskGuard

open Lib

/-- A row of `risk_limits`. -/
structure RiskLimitRow where
  scopeType : String
  scopeRef : String
  limitName : String
  /-- Ten decimals. -/
  limitValue : Numeric
  enabled : Bool
  /-- In microseconds. -/
  effectiveFrom : ℤ
  effectiveTo : Option ℤ

/-- The condition of the query. -/
def RiskLimitRow.inEffect (now : ℤ) (row : RiskLimitRow) : Bool :=
  row.enabled &&
    (match row.effectiveTo with
      | none => true
      | some effectiveTo => decide (now < effectiveTo)) &&
    decide (row.effectiveFrom ≤ now)

/-- `row.get::<Decimal>("limit_value")`, which panics on `NaN`. -/
def RiskLimitRow.decimal (row : RiskLimitRow) : Option ℚ :=
  match row.limitValue with
  | ⊤ => none
  | some units => some (units / 10 ^ 10)

section Fetch

variable (rt : Runtime)

/-- `limit_value.to_f64().unwrap_or(0.0)` -/
def limitF64 (value : ℚ) : Binary64 := (rt.decimalToF64 value).getD .zero

/-- One turn of the loop. -/
def DynamicLimits.insert (limits : DynamicLimits) (row : RiskLimitRow) (value : ℚ) :
    DynamicLimits :=
  if row.limitName = "MAX_POSITION_NOTIONAL" then
    { limits with symbolNotional := limits.symbolNotional ++ [(row.scopeRef, limitF64 rt value)] }
  else if row.limitName = "MAX_LEVERAGE" then
    { limits with maxLeverage := some (limitF64 rt value) }
  else limits

/-- The limits for the rows as the query returned them, `none` for a panic. -/
def fetchDynamicLimits (rows : List RiskLimitRow) : Option DynamicLimits :=
  rows.foldlM (fun limits row => row.decimal.map (limits.insert rt row)) {}

end Fetch

/-- What a limit is about. -/
inductive LimitKey
  | notional (symbol : String)
  | leverage
  deriving DecidableEq

/-- The limit that a row sets, if any. -/
def RiskLimitRow.key (row : RiskLimitRow) : Option LimitKey :=
  if row.limitName = "MAX_POSITION_NOTIONAL" then some (.notional row.scopeRef)
  else if row.limitName = "MAX_LEVERAGE" then some .leverage
  else none

/-- The limit that a load yields. -/
def DynamicLimits.read (limits : DynamicLimits) : LimitKey → Option Binary64
  | .notional symbol => limits.symbolNotional.get symbol
  | .leverage => limits.maxLeverage

/-- Two loads yield the same limits: the maps agree as maps. -/
def DynamicLimits.Same (limits limits' : DynamicLimits) : Prop :=
  ∀ key, limits.read key = limits'.read key

/-- **The limits do not depend on the order of the rows**: there are limits that the load yields
however the rows in effect come, and every order gets the same verdict on each of them. -/
def RowOrderIrrelevant (rt : Runtime) (now : ℤ) (riskLimits : List RiskLimitRow) : Prop :=
  ∃ limits, ∀ rows, rows.Perm (riskLimits.filter (·.inEffect now)) →
    ∃ limits', fetchDynamicLimits rt rows = some limits' ∧ limits'.Same limits ∧
      ∀ cfg killGlobal killAccount order,
        runGates rt cfg limits' killGlobal killAccount order =
          runGates rt cfg limits killGlobal killAccount order

/-- The rows are numbers, and two of them that set the same limit set it to the same double. -/
structure Unambiguous (rt : Runtime) (rows : List RiskLimitRow) : Prop where
  number : ∀ row ∈ rows, row.limitValue ≠ ⊤
  agree : ∀ row ∈ rows, ∀ row' ∈ rows, row.key ≠ none → row.key = row'.key →
    row.decimal.map (limitF64 rt) = row'.decimal.map (limitF64 rt)

variable {rt : Runtime} {rows : List RiskLimitRow} {row : RiskLimitRow} {key : LimitKey}
  {x : Binary64}

/-! ### The fold -/

/-- What a row writes to a limit. -/
def RiskLimitRow.writes (rt : Runtime) (key : LimitKey) (row : RiskLimitRow) : Option Binary64 :=
  if row.key = some key then row.decimal.map (limitF64 rt) else none

theorem writes_eq_some_iff :
    row.writes rt key = some x ↔
      row.key = some key ∧ row.decimal.map (limitF64 rt) = some x := by
  rw [RiskLimitRow.writes]
  by_cases hkey : row.key = some key
  · rw [if_pos hkey]
    exact ⟨fun h => ⟨hkey, h⟩, fun h => h.2⟩
  · rw [if_neg hkey]
    exact ⟨fun h => (Option.some_ne_none x h.symm).elim, fun h => absurd h.1 hkey⟩

theorem decimal_eq_none_iff : row.decimal = none ↔ row.limitValue = ⊤ := by
  rw [RiskLimitRow.decimal]
  cases row.limitValue with
  | none => exact ⟨fun _ => rfl, fun _ => rfl⟩
  | some units => exact ⟨fun h => absurd h (Option.some_ne_none _), fun h => nomatch h⟩

/-- A row that is a number has a decimal. -/
theorem exists_decimal (hrow : row.limitValue ≠ ⊤) : ∃ value, row.decimal = some value :=
  Option.ne_none_iff_exists'.mp (mt decimal_eq_none_iff.mp hrow)

theorem get_concat (limits : SymbolLimits) (symbol scopeRef : String) (x : Binary64) :
    SymbolLimits.get (limits ++ [(scopeRef, x)]) symbol =
      if scopeRef = symbol then some x else limits.get symbol := by
  rw [SymbolLimits.get, List.reverse_append, List.reverse_singleton, List.singleton_append,
    lookup_cons]
  split <;> rfl

/-- One turn of the loop writes what the row says, to the limit it is about. -/
theorem DynamicLimits.read_insert (limits : DynamicLimits) {value : ℚ}
    (hvalue : row.decimal = some value) (key : LimitKey) :
    (limits.insert rt row value).read key = (row.writes rt key <|> limits.read key) := by
  rw [RiskLimitRow.writes, RiskLimitRow.key, insert, hvalue, Option.map_some]
  split
  · -- The row sets the limit of a symbol.
    cases key with
    | leverage => rfl
    | notional symbol =>
        simp only [read, get_concat, Option.some_inj, LimitKey.notional.injEq]
        split <;> rfl
  · split
    · -- The row sets the leverage limit.
      cases key with
      | leverage => rfl
      | notional symbol => rfl
    · rfl

/-- **What the load leaves**: for every limit, what the last row about it says. -/
theorem fetchDynamicLimits_spec (rt : Runtime) (hnumber : ∀ row ∈ rows, row.limitValue ≠ ⊤) :
    ∃ limits, fetchDynamicLimits rt rows = some limits ∧
      ∀ key, limits.read key = lastWrite (RiskLimitRow.writes rt key) rows := by
  induction rows using List.reverseRecOn with
  | nil =>
      refine ⟨{}, rfl, fun key => ?_⟩
      cases key <;> rfl
  | append_singleton rows row ih =>
      obtain ⟨limits, hfetch, hread⟩ := ih fun r hr => hnumber r (List.mem_append_left _ hr)
      obtain ⟨value, hvalue⟩ := exists_decimal (hnumber row (by simp))
      refine ⟨limits.insert rt row value, ?_, ?_⟩
      · rw [fetchDynamicLimits] at hfetch ⊢
        simp [List.foldlM_append, hfetch, hvalue]
      · intro key
        rw [limits.read_insert hvalue, hread, lastWrite_concat]

/-- A row that is not a number stops the load. -/
theorem fetchDynamicLimits_of_nan (hrow : row ∈ rows) (hnan : row.limitValue = ⊤) :
    fetchDynamicLimits rt rows = none := by
  obtain ⟨before, after, rfl⟩ := List.append_of_mem hrow
  rw [fetchDynamicLimits, List.foldlM_append]
  cases hbefore : before.foldlM (fun limits row => row.decimal.map (limits.insert rt row))
      ({} : DynamicLimits) with
  | none => rfl
  | some limits => simp [decimal_eq_none_iff.mpr hnan]

/-! ### The gates -/

/-- The gates read the limits only under their keys. -/
theorem runGates_eq_of_same {limits limits' : DynamicLimits} (h : limits.Same limits')
    (cfg : Config) (killGlobal killAccount : Except Unit Bool) (order : OrderCommand) :
    runGates rt cfg limits killGlobal killAccount order =
      runGates rt cfg limits' killGlobal killAccount order := by
  have hnotional : notionalLimit cfg limits order.symbol =
      notionalLimit cfg limits' order.symbol := by
    have hread := h (.notional order.symbol)
    rw [DynamicLimits.read, DynamicLimits.read] at hread
    rw [notionalLimit, notionalLimit, hread]
  have hleverage : leverageLimit cfg limits = leverageLimit cfg limits' := by
    have hread := h .leverage
    rw [DynamicLimits.read, DynamicLimits.read] at hread
    rw [leverageLimit, leverageLimit, hread]
  simp only [runGates, hnotional, hleverage]

/-! ### The order of the rows -/

/-- Rows that are numbers are unambiguous exactly when under every key the order makes no
difference. -/
theorem agree_iff (hnumber : ∀ row ∈ rows, row.limitValue ≠ ⊤) :
    Unambiguous rt rows ↔ ∀ key rows' rows'', rows'.Perm rows → rows''.Perm rows →
      lastWrite (RiskLimitRow.writes rt key) rows' =
        lastWrite (RiskLimitRow.writes rt key) rows'' := by
  constructor
  · rintro ⟨-, hagree⟩ key
    rw [lastWrite_perm_iff]
    intro row hrow row' hrow' x y hx hy
    obtain ⟨hkey, hx⟩ := writes_eq_some_iff.mp hx
    obtain ⟨hkey', hy⟩ := writes_eq_some_iff.mp hy
    have heq := hagree row hrow row' hrow' (by simp [hkey]) (hkey.trans hkey'.symm)
    rw [hx, hy] at heq
    exact Option.some.inj heq
  · intro hperm
    refine ⟨hnumber, ?_⟩
    intro row hrow row' hrow' hkey hsame
    obtain ⟨key, hkey⟩ := Option.ne_none_iff_exists'.mp hkey
    obtain ⟨value, hvalue⟩ := exists_decimal (hnumber row hrow)
    obtain ⟨value', hvalue'⟩ := exists_decimal (hnumber row' hrow')
    rw [hvalue, hvalue', Option.map_some, Option.map_some, Option.some_inj]
    refine lastWrite_perm_iff.mp (hperm key) row hrow row' hrow' _ _ ?_ ?_
    · exact writes_eq_some_iff.mpr ⟨hkey, by rw [hvalue, Option.map_some]⟩
    · exact writes_eq_some_iff.mpr ⟨hsame.symm.trans hkey, by rw [hvalue', Option.map_some]⟩

/-- **When the order of the rows makes no difference**: exactly when every row in effect is a
number, and rows in effect that set the same limit set it to the same double. -/
theorem rowOrderIrrelevant_iff (rt : Runtime) (now : ℤ) (riskLimits : List RiskLimitRow) :
    RowOrderIrrelevant rt now riskLimits ↔
      Unambiguous rt (riskLimits.filter (·.inEffect now)) := by
  set selected := riskLimits.filter (·.inEffect now) with hselected
  constructor
  · rintro ⟨limits, h⟩
    have hnumber : ∀ row ∈ selected, row.limitValue ≠ ⊤ := by
      intro row hrow hnan
      obtain ⟨limits', hfetch, -⟩ := h selected (List.Perm.refl _)
      rw [fetchDynamicLimits_of_nan hrow hnan] at hfetch
      cases hfetch
    -- In every order, the fold leaves the limits that it yields for all of them.
    have hleft : ∀ rows, rows.Perm selected → ∀ key,
        lastWrite (RiskLimitRow.writes rt key) rows = limits.read key := by
      intro rows hrows key
      obtain ⟨limits', hfetch, hsame, -⟩ := h rows hrows
      obtain ⟨limits'', hfetch', hread⟩ :=
        fetchDynamicLimits_spec rt fun row hrow => hnumber row (hrows.mem_iff.mp hrow)
      obtain rfl : limits' = limits'' := Option.some.inj (hfetch.symm.trans hfetch')
      rw [← hread, hsame key]
    refine (agree_iff hnumber).mpr fun key rows' rows'' hrows' hrows'' => ?_
    rw [hleft rows' hrows', hleft rows'' hrows'']
  · intro h
    obtain ⟨limits, -, hread⟩ := fetchDynamicLimits_spec rt h.number
    refine ⟨limits, fun rows hrows => ?_⟩
    obtain ⟨limits', hfetch, hread'⟩ :=
      fetchDynamicLimits_spec rt fun row hrow => h.number row (hrows.mem_iff.mp hrow)
    have hsame : limits'.Same limits := by
      intro key
      rw [hread', hread, (agree_iff h.number).mp h key rows selected hrows (List.Perm.refl _)]
    refine ⟨limits', hfetch, hsame, ?_⟩
    intro cfg killGlobal killAccount order
    exact runGates_eq_of_same hsame cfg killGlobal killAccount order

/-- A limit on the notional of BTCUSDT, of the given scope type. -/
def notionalRow (scopeType : String) (units : ℤ) : RiskLimitRow where
  scopeType := scopeType
  scopeRef := "BTCUSDT"
  limitName := "MAX_POSITION_NOTIONAL"
  limitValue := some units
  enabled := true
  effectiveFrom := 0
  effectiveTo := none

/-- An order of one BTCUSDT at 62000. -/
def limitOrder : OrderCommand :=
  OrderCommand.sample "018f3c2e-0000-7000-8000-00000000000b" 1 1 2 1 62000

/-- A limit of 1000 for the symbol, and one of 100000 for a strategy that is named like it. -/
def twoScopes : List RiskLimitRow :=
  [notionalRow "SYMBOL" (1000 * 10 ^ 10), notionalRow "STRATEGY" (100000 * 10 ^ 10)]

/-- The verdict on an order, when the rows come in the given order. -/
def verdict (rows : List RiskLimitRow) (order : OrderCommand) : Option CheckResult :=
  (fetchDynamicLimits Runtime.reference rows).map fun limits =>
    (runGates Runtime.reference defaultConfig limits (.ok false) (.ok false) order).2

/-- The row that comes last decides what the order is checked against. -/
theorem twoScopes_dependsOnOrder :
    ¬ RowOrderIrrelevant Runtime.reference 1700000000000000 twoScopes ∧
      twoScopes.filter (·.inEffect 1700000000000000) = twoScopes ∧
      verdict twoScopes limitOrder = some .approved ∧
      verdict twoScopes.reverse limitOrder ≠ some .approved := by
  have hverdict : verdict twoScopes limitOrder = some .approved := by decide +kernel
  have hverdict' : verdict twoScopes.reverse limitOrder ≠ some .approved := by decide +kernel
  have hselected : twoScopes.filter (·.inEffect 1700000000000000) = twoScopes := by rfl
  refine ⟨?_, hselected, hverdict, hverdict'⟩
  rintro ⟨limits, h⟩
  rw [hselected] at h
  obtain ⟨limits', hfetch, -, hgates⟩ := h twoScopes (List.Perm.refl _)
  obtain ⟨limits'', hfetch', -, hgates'⟩ := h twoScopes.reverse (List.reverse_perm _)
  rw [verdict, hfetch, Option.map_some, hgates] at hverdict
  rw [verdict, hfetch', Option.map_some, hgates'] at hverdict'
  exact hverdict' hverdict

end HftPlatform.RiskGuard
