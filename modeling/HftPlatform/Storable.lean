import HftPlatform.Router

/-!
# Which calls the writer can bind

`DbWriter.Bindable` says that every row of a call can be bound. This module says the same of
the values that a call carries: its order id is a UUID, its texts contain no NUL character, its
numbers fit `NUMERIC(20, 8)`, and its decision metadata is accepted as `jsonb`.

## Main results

* `bindable_iff`: a call can be bound exactly when it is `Storable`.
* `storable_call_iff`: what a call of the router takes from its order and what it takes from a
  report that fills nothing.
-/

namespace HftPlatform

open Lib

/-- A sequence of fallible steps has a result when its first step has one from which the others
have one. -/
theorem exists_bind_eq_ok {ε α β : Type} {x : Except ε α} {f : α → Except ε β} :
    (∃ b, (x >>= f) = .ok b) ↔ ∃ a, x = .ok a ∧ ∃ b, f a = .ok b := by
  cases x <;> simp [bind, Except.bind]

/-- Wrapping a result does not change whether there is one. -/
theorem exists_map_eq_ok {ε α β : Type} {x : Except ε α} {f : α → β} :
    (∃ b, f <$> x = .ok b) ↔ ∃ a, x = .ok a := by
  cases x <;> simp [Functor.map, Except.map]

/-- A list of texts can be bound when each of them can. -/
theorem exists_mapM_eq_ok {ε α β : Type} {f : α → Except ε β} {l : List α} :
    (∃ l', l.mapM f = .ok l') ↔ ∀ a ∈ l, ∃ b, f a = .ok b := by
  induction l with
  | nil => simp [pure_eq_ok_iff]
  | cons a l ih =>
      simp only [List.mapM_cons, exists_bind_eq_ok, pure_eq_ok_iff, exists_eq', and_true,
        exists_and_right, ih, List.forall_mem_cons]

/-- The text contains no NUL character. -/
def NulFree (s : String) : Prop := s.toList.contains '\x00' = false

/-- Decided by looking at every character. -/
instance (s : String) : Decidable (NulFree s) := inferInstanceAs (Decidable (_ = _))

/-- The empty text is stored. -/
theorem nulFree_empty : NulFree "" := by decide

/-- Two texts are stored together if each of them is. -/
theorem nulFree_append {s t : String} : NulFree (s ++ t) ↔ NulFree s ∧ NulFree t := by
  simp [NulFree]

/-- The decimal form of an integer contains digits and a sign. -/
theorem nulFree_toString (n : ℤ) : NulFree (toString n) := by
  have hdigits : ∀ m, '\x00' ∉ Nat.toDigits 10 m := fun m h =>
    absurd (Nat.isDigit_of_mem_toDigits (by decide) (by decide) h) (by decide)
  rw [NulFree, List.contains_eq_mem, decide_eq_false_iff_not]
  cases n with
  | ofNat m => simpa [Int.toString_eq_repr, Int.repr] using hdigits m
  | negSucc m => simpa [Int.toString_eq_repr, Int.repr] using hdigits (m + 1)

/-- The text of a number is not empty. -/
theorem toString_ne_empty (n : ℤ) : toString n ≠ "" := by
  cases n with
  | ofNat m => simp [Int.toString_eq_repr, Int.repr, Nat.repr_ne_empty]
  | negSucc m => simp [Int.toString_eq_repr, Int.repr]

/-- The number fits a `NUMERIC(20, 8)` column. -/
def FitsColumn (rt : Runtime) (x : Binary64) : Prop := ∃ n, numeric20 rt x = .ok n

/-- Decided by storing the value. -/
instance (rt : Runtime) (x : Binary64) : Decidable (FitsColumn rt x) :=
  match h : numeric20 rt x with
  | .ok n => isTrue ⟨n, h⟩
  | .error _ => isFalse fun ⟨_, hn⟩ => by simp [h] at hn

/-- A text is stored if it has no NUL. -/
theorem exists_pgText {s : String} : (∃ t, pgText s = .ok t) ↔ NulFree s := by
  simp only [pgText_eq_ok_iff, exists_and_left, exists_eq, and_true, NulFree]

/-- So is one that may be NULL. -/
theorem exists_pgTextOpt {s : String} :
    (∃ t, pgTextOpt (nullIfEmpty s) = .ok t) ↔ NulFree s := by
  rw [nullIfEmpty]
  split
  · rename_i h
    subst h
    exact ⟨fun _ => by decide, fun _ => ⟨none, rfl⟩⟩
  · rw [pgTextOpt, Option.mapM_some, ← exists_pgText]
    cases pgText s <;> simp [Functor.map, Except.map]

/-- A value is stored if it fits its column. -/
theorem exists_numeric20 {rt : Runtime} {x : Binary64} :
    (∃ n, numeric20 rt x = .ok n) ↔ FitsColumn rt x := Iff.rfl

/-- Zero fits. -/
theorem fitsColumn_zero {rt : Runtime} : FitsColumn rt .zero := ⟨0, Numeric.ofFloat8_zero⟩

/-- A column that stores zero as null stores what fits. -/
theorem exists_nullIfZero {rt : Runtime} {x : Binary64} :
    (∃ n, numeric20NullIfZero rt x = .ok n) ↔ FitsColumn rt x := by
  rw [numeric20NullIfZero]
  split
  · rename_i h
    exact ⟨fun _ => h ▸ fitsColumn_zero, fun _ => ⟨none, rfl⟩⟩
  · simp only [exists_bind_eq_ok, pure_eq_ok_iff, exists_eq', and_true, FitsColumn]

/-- The negative of a number that fits does. -/
theorem FitsColumn.neg {rt : Runtime} {x : Binary64} (h : FitsColumn rt x) : FitsColumn rt x.neg :=
  h.elim fun _ hn => ⟨_, Numeric.ofFloat8_neg hn⟩

namespace DbWriter

/-- The texts of a call. -/
def callTexts (rt : Runtime) (c : Call) : List String :=
  [c.order.accountId, c.order.symbol, toAsciiUppercase c.executionMode,
    toAsciiUppercase c.exchange, c.order.strategyId, c.order.signalId] ++
      coinTagsJson (callMeta rt c) ++ reportStrings c.report

/-- The numbers of a call. -/
def callNumbers (rt : Runtime) (c : Call) : List Binary64 :=
  [c.order.qty, c.order.price, c.order.stopPrice, (callMeta rt c).takeProfitPrice.getD .zero,
    c.report.cumulativeFilledQty, c.report.avgPrice, c.report.lastFilledQty,
    c.report.lastFilledPrice, c.report.commission]

/-- The values of a call can be stored. -/
structure Storable (rt : Runtime) (c : Call) : Prop where
  uuid : ∃ u, rt.parseUuid c.order.clientOrderId = some u
  texts : ∀ s ∈ callTexts rt c, NulFree s
  numbers : ∀ x ∈ callNumbers rt c, FitsColumn rt x
  decisionMeta : ∃ m, pgDecisionMeta rt (decisionMetaJson rt c.order.decisionReason) = .ok m
  quoteQty : c.isFill = true →
    FitsColumn rt (rt.fp.mul c.report.lastFilledQty c.report.lastFilledPrice)

variable {rt : Runtime} {c : Call}

/-- An id is read if its text has one. -/
theorem exists_parseUuid {s : String} :
    (∃ u, parseUuid rt s = .ok u) ↔ ∃ u, rt.parseUuid s = some u := by
  simp only [parseUuid_eq_ok_iff]

/-- A statement that maps its error has a result when it has one. -/
theorem exists_sql {α : Type} {context : String} {x : Except PgError α} :
    (∃ a, sql context x = .ok a) ↔ ∃ a, x = .ok a := by
  simp only [sql_eq_ok_iff]

section Rows

attribute [local simp] exists_bind_eq_ok exists_map_eq_ok pure_eq_ok_iff exists_sql
  exists_parseUuid exists_pgText exists_pgTextOpt exists_nullIfZero exists_mapM_eq_ok
  exists_numeric20

/-- When there is a row for the order of a call. -/
theorem exists_orderRow : (∃ row, orderRow rt c = .ok row) ↔
    (∃ u, rt.parseUuid c.order.clientOrderId = some u) ∧ NulFree c.report.exchangeOrderId ∧
      NulFree c.order.accountId ∧ NulFree c.order.symbol ∧ FitsColumn rt c.order.qty ∧
      FitsColumn rt c.order.price ∧ FitsColumn rt c.order.stopPrice ∧
      FitsColumn rt ((callMeta rt c).takeProfitPrice.getD .zero) ∧
      (∀ s ∈ coinTagsJson (callMeta rt c), NulFree s) ∧
      FitsColumn rt c.report.cumulativeFilledQty ∧ FitsColumn rt c.report.avgPrice := by
  simp [orderRow]

/-- When there is an event of a call. -/
theorem exists_orderEventRow : (∃ ev, orderEventRow rt c = .ok ev) ↔
    (∃ u, rt.parseUuid c.order.clientOrderId = some u) ∧
      (∀ s ∈ reportStrings c.report, NulFree s) ∧ FitsColumn rt c.report.lastFilledQty ∧
      FitsColumn rt c.report.lastFilledPrice ∧ FitsColumn rt c.report.commission := by
  simp [orderEventRow]
  intro _ _ htexts _ _ _
  exact htexts _ (by simp [reportStrings])

/-- When there is a training event of a call. -/
theorem exists_trainingEventRow : (∃ ev, trainingEventRow rt c = .ok ev) ↔
    (∃ u, rt.parseUuid c.order.clientOrderId = some u) ∧ NulFree c.order.accountId ∧
      NulFree c.order.symbol ∧ NulFree (toAsciiUppercase c.executionMode) ∧
      NulFree (toAsciiUppercase c.exchange) ∧ NulFree c.order.strategyId ∧
      NulFree c.order.signalId ∧ (∀ s ∈ coinTagsJson (callMeta rt c), NulFree s) ∧
      (∃ m, pgDecisionMeta rt (decisionMetaJson rt c.order.decisionReason) = .ok m) ∧
      FitsColumn rt c.report.lastFilledQty ∧ FitsColumn rt c.report.lastFilledPrice := by
  simp [trainingEventRow]

/-- When there is a trade of a call. -/
theorem exists_tradeRow : (∃ t, tradeRow rt c = .ok t) ↔
    (∃ u, rt.parseUuid c.order.clientOrderId = some u) ∧ NulFree c.order.accountId ∧
      NulFree c.order.symbol ∧ FitsColumn rt c.report.lastFilledQty ∧
      FitsColumn rt c.report.lastFilledPrice ∧
      FitsColumn rt (rt.fp.mul c.report.lastFilledQty c.report.lastFilledPrice) ∧
      FitsColumn rt c.report.commission ∧ NulFree c.report.commissionAsset ∧
      NulFree c.report.fillId := by
  simp [tradeRow]

/-- When there is a row for the position of a call. -/
theorem exists_positionRow : (∃ p, positionRow rt c = .ok p) ↔
    NulFree c.order.accountId ∧ NulFree c.order.symbol ∧ FitsColumn rt c.qtyDelta ∧
      FitsColumn rt c.report.avgPrice := by
  simp [positionRow]

/-- When there is an exit snapshot of a call. -/
theorem exists_exitTagRow (trigger : ExitTrigger) : (∃ x, exitTagRow rt c trigger = .ok x) ↔
    (∃ u, rt.parseUuid c.order.clientOrderId = some u) ∧ NulFree c.order.accountId ∧
      NulFree c.order.symbol ∧ FitsColumn rt c.report.lastFilledPrice ∧
      ∀ s ∈ coinTagsJson (callMeta rt c), NulFree s := by
  simp [exitTagRow]

end Rows

/-- The exit snapshot of a call can be bound when its other rows can. -/
theorem exists_exitRows (horder : ∃ row, orderRow rt c = .ok row)
    (htrade : ∃ t, tradeRow rt c = .ok t) : ∃ xs, exitRows rt c = .ok xs := by
  obtain ⟨huuid, -, haccount, hsymbol, -, -, -, -, htags, -⟩ := exists_orderRow.mp horder
  obtain ⟨-, -, -, -, hprice, -⟩ := exists_tradeRow.mp htrade
  rw [exitRows]
  cases callTrigger rt c with
  | none => exact ⟨[], rfl⟩
  | some trigger =>
      obtain ⟨x, hx⟩ := (exists_exitTagRow trigger).mpr
        ⟨huuid, haccount, hsymbol, hprice, htags⟩
      exact ⟨[x], by simp only [hx, Except.map]⟩

/-- **A call can be bound exactly when it is storable.** -/
theorem bindable_iff : Bindable rt c ↔ Storable rt c := by
  constructor
  · rintro ⟨horder, hevent, htraining, htrade, -, -⟩
    obtain ⟨huuid, -, haccount, hsymbol, hqty, hprice, hstop, htp, htags, hcum, havg⟩ :=
      exists_orderRow.mp horder
    obtain ⟨-, hstrings, hlast, hlastPrice, hcommission⟩ := exists_orderEventRow.mp hevent
    obtain ⟨-, -, -, hmode, hexchange, hstrategy, hsignal, -, hmeta, -, -⟩ :=
      exists_trainingEventRow.mp htraining
    refine ⟨huuid, ?_, ?_, hmeta, fun hfill => ?_⟩
    · simp only [callTexts, List.forall_mem_append, List.forall_mem_cons]
      exact ⟨⟨⟨haccount, hsymbol, hmode, hexchange, hstrategy, hsignal, by simp⟩, htags⟩,
        hstrings⟩
    · simp only [callNumbers, List.forall_mem_cons]
      exact ⟨hqty, hprice, hstop, htp, hcum, havg, hlast, hlastPrice, hcommission, by simp⟩
    · obtain ⟨-, -, -, -, -, hquote, -⟩ := exists_tradeRow.mp (htrade hfill)
      exact hquote
  · rintro ⟨huuid, htexts, hnumbers, hmeta, hquote⟩
    simp only [callTexts, List.forall_mem_append, List.forall_mem_cons] at htexts
    obtain ⟨⟨⟨haccount, hsymbol, hmode, hexchange, hstrategy, hsignal, -⟩, htags⟩, hstrings⟩ :=
      htexts
    simp only [callNumbers, List.forall_mem_cons] at hnumbers
    obtain ⟨hqty, hprice, hstop, htp, hcum, havg, hlast, hlastPrice, hcommission, -⟩ := hnumbers
    have hreport : ∀ s ∈ reportStrings c.report, NulFree s := hstrings
    simp only [reportStrings, List.forall_mem_cons] at hstrings
    obtain ⟨-, -, -, hid, hasset, -, -, hfillId, -⟩ := hstrings
    have horder : ∃ row, orderRow rt c = .ok row := exists_orderRow.mpr
      ⟨huuid, hid, haccount, hsymbol, hqty, hprice, hstop, htp, htags, hcum, havg⟩
    have htrade : c.isFill = true → ∃ t, tradeRow rt c = .ok t := fun hfill =>
      exists_tradeRow.mpr ⟨huuid, haccount, hsymbol, hlast, hlastPrice, hquote hfill, hcommission,
        hasset, hfillId⟩
    have hdelta : FitsColumn rt c.qtyDelta := by
      rw [Call.qtyDelta]
      split
      · exact hlast
      · exact hlast.neg
    exact ⟨horder,
      exists_orderEventRow.mpr ⟨huuid, hreport, hlast, hlastPrice, hcommission⟩,
      exists_trainingEventRow.mpr ⟨huuid, haccount, hsymbol, hmode, hexchange, hstrategy, hsignal,
        htags, hmeta, hlast, hlastPrice⟩,
      htrade,
      fun _ => exists_positionRow.mpr ⟨haccount, hsymbol, hdelta, havg⟩,
      fun hfill => exists_exitRows horder (htrade hfill)⟩

end DbWriter

/-! ### The calls of the router -/

namespace Router

open DbWriter

/-- The values that every call of the router takes from the order and the configuration can be
stored. -/
structure OrderStorable (rt : Runtime) (cfg : Config) (order : OrderCommand) : Prop where
  uuid : ∃ u, rt.parseUuid order.clientOrderId = some u
  texts : ∀ s ∈ [order.accountId, order.symbol, order.clientOrderId, order.traceId,
    order.strategyId, order.signalId, toAsciiUppercase cfg.executionMode,
    toAsciiUppercase cfg.exchange], NulFree s
  coinTags : ∀ s ∈ coinTagsJson (parseDecisionMeta rt order.decisionReason), NulFree s
  numbers : ∀ x ∈ [order.qty, order.price, order.stopPrice,
    (parseDecisionMeta rt order.decisionReason).takeProfitPrice.getD .zero], FitsColumn rt x
  decisionMeta : ∃ m, pgDecisionMeta rt (decisionMetaJson rt order.decisionReason) = .ok m

/-- A report of the order that takes its identifying texts from it. -/
structure ReportOf (order : OrderCommand) (report : ExecutionReport) : Prop where
  accountId : report.accountId = order.accountId
  symbol : report.symbol = order.symbol
  clientOrderId : report.clientOrderId = order.clientOrderId
  traceId : report.traceId = order.traceId
  strategyId : report.strategyId = order.strategyId
  signalId : report.signalId = order.signalId
  commissionAsset : report.commissionAsset = "USDT"

variable {rt : Runtime} {cfg : Config} {order : OrderCommand} {report : ExecutionReport} {t : ℤ}

/-- **What a call of the router stores** comes from its order and from three texts and six
numbers of its report. -/
theorem storable_call_iff (hreport : ReportOf order report) :
    Storable rt (cfg.call order report t) ↔ OrderStorable rt cfg order ∧
      (∀ s ∈ [report.exchangeOrderId, report.rejectReason, report.fillId], NulFree s) ∧
      (∀ x ∈ [report.cumulativeFilledQty, report.avgPrice, report.lastFilledQty,
        report.lastFilledPrice, report.commission], FitsColumn rt x) ∧
      ((cfg.call order report t).isFill = true →
        FitsColumn rt (rt.fp.mul report.lastFilledQty report.lastFilledPrice)) := by
  obtain ⟨h₁, h₂, h₃, h₄, h₅, h₆, h₇⟩ := hreport
  have husdt : NulFree "USDT" := by decide
  constructor
  · rintro ⟨huuid, htexts, hnumbers, hmeta, hquote⟩
    simp only [callTexts, callNumbers, reportStrings, Config.call, callMeta,
      List.forall_mem_append, List.forall_mem_cons, h₁, h₂, h₃, h₄, h₅, h₆, h₇] at htexts hnumbers
    obtain ⟨⟨⟨ha, hs, hm, he, hst, hsi, -⟩, htags⟩, -, -, hc, hx, -, hr, ht, hf, -⟩ := htexts
    obtain ⟨hq, hp, hsp, htp, hcum, havg, hlast, hlp, hcom, -⟩ := hnumbers
    refine ⟨⟨huuid, ?_, htags, ?_, hmeta⟩, ?_, ?_, hquote⟩ <;>
      simp only [List.forall_mem_cons] <;> simp_all
  · rintro ⟨⟨huuid, htexts, htags, hnumbers, hmeta⟩, hreports, hfilled, hquote⟩
    simp only [List.forall_mem_cons] at htexts hnumbers hreports hfilled
    obtain ⟨ha, hs, hc, ht, hst, hsi, hm, he, -⟩ := htexts
    obtain ⟨hx, hr, hf, -⟩ := hreports
    obtain ⟨hq, hp, hsp, htp, -⟩ := hnumbers
    obtain ⟨hcum, havg, hlast, hlp, hcom, -⟩ := hfilled
    refine ⟨huuid, ?_, ?_, hmeta, hquote⟩
    · simp only [callTexts, reportStrings, Config.call, callMeta, List.forall_mem_append,
        List.forall_mem_cons, h₁, h₂, h₃, h₄, h₅, h₆, h₇]
      simp_all
    · simp only [callNumbers, Config.call, callMeta, List.forall_mem_cons]
      simp_all

end Router

end HftPlatform
