import HftPlatform.Positions

/-!
# Storing fills

`trades` has two unique keys. The insert of a fill skips a row whose fill id and time are stored;
it has no clause for the other key, an exchange trade id that is a hash of the order, the time,
the quantity and the price, next to the symbol and the time. Two legs of an order with equal
quantities and one time stamp have one hash, and the second of them is refused together with
everything else that its transaction would write.

## Main results

* `persistAll_trades`: a run only appends trades, each with the fill id of a call of the run.
* `storesEachFill_iff`: when a list of fills is stored with one trade for each fill.
-/

namespace HftPlatform

open Lib DbWriter

/-- The key under `uq_trades_id_symbol` of the trade that a call stores. -/
def Call.idKey (rt : Runtime) (c : Call) : ℕ × String × ℤ :=
  (deterministicTradeId rt c.report, c.order.symbol, tsFromNs c.report.eventTimeNs)

/-- Persist calls in order, with no fault from outside. -/
def persistAll (rt : Runtime) (db : Db) (calls : List Call) : Db :=
  run (persistExecution rt) db (calls.map fun c => (c, false))

/-- Persisting the calls leaves exactly one trade for each of their fill ids. -/
def StoresEachFill (rt : Runtime) (db : Db) (calls : List Call) : Prop :=
  ∀ c ∈ calls, ((persistAll rt db calls).trades.countP fun t => t.fillId = c.report.fillId) = 1

/-- Every call has a positive quantity and values that can be stored; no two calls, and no call
and a stored trade, have the same exchange trade id, symbol and time; and the position that each
call moves stays in range. -/
structure Separable (rt : Runtime) (db : Db) (calls : List Call) : Prop where
  positive : ∀ c ∈ calls, c.report.lastFilledQty.gt .zero = true
  storable : ∀ c ∈ calls, Storable rt c
  distinct : (calls.map (Call.idKey rt)).Nodup
  fresh : ∀ c ∈ calls, ∀ x ∈ db.trades, x.idKey ≠ c.idKey rt
  inRange : ∀ pre c, pre ++ [c] <+: calls → Numeric.Fits 20
    (db.held c.order.accountId c.order.symbol +
      ((pre ++ [c]).map fun c' => c'.moves rt c.order.accountId c.order.symbol).sum)

variable {rt : Runtime} {c : Call} {calls : List Call} {db db' : Db}

theorem persistAll_cons : persistAll rt db (c :: calls) =
    persistAll rt (attempt (persistExecution rt c) false db) calls := rfl

/-- The insert into `trades` appends the trade or leaves the table alone. -/
theorem insertTrade_cases {t : TradeRow} {trades trades' : List TradeRow}
    (h : insertTrade t trades = .ok trades') : trades' = trades ∨ trades' = trades ++ [t] := by
  rw [insertTrade, insertOrIgnore, insertUnique] at h
  split at h
  · exact Or.inl (Except.ok.inj h).symm
  · split at h
    · simp at h
    · exact Or.inr (Except.ok.inj h).symm

/-- A run only appends trades, each with the fill id of a call of the run. -/
theorem persistAll_trades (rt : Runtime) (db : Db) (calls : List Call) : ∃ new,
    (persistAll rt db calls).trades = db.trades ++ new ∧
      ∀ t ∈ new, ∃ c ∈ calls, t.fillId = c.report.fillId := by
  induction calls generalizing db with
  | nil => exact ⟨[], (List.append_nil _).symm, by simp⟩
  | cons c calls ih =>
      obtain ⟨new, hnew, hids⟩ := ih (attempt (persistExecution rt c) false db)
      have hlater : ∀ t ∈ new, ∃ c' ∈ c :: calls, t.fillId = c'.report.fillId := fun t ht =>
        (hids t ht).imp fun c' hc' => ⟨List.mem_cons_of_mem _ hc'.1, hc'.2⟩
      have hfirst : (attempt (persistExecution rt c) false db).trades = db.trades ∨ ∃ t : TradeRow,
          t.fillId = c.report.fillId ∧
            (attempt (persistExecution rt c) false db).trades = db.trades ++ [t] := by
        rcases attempt_cases (persistExecution rt c) false db with ⟨hs, -⟩ | ⟨-, hok⟩
        · exact Or.inl (by rw [hs])
        · obtain ⟨-, ⟨-, heffect⟩ | ⟨-, heffect⟩⟩ := persistExecution_ok_iff.mp hok
          · obtain ⟨t, ht, htrades⟩ := heffect.trades
            obtain ⟨-, -, -, -, -, hid, -⟩ := tradeRow_spec ht
            exact (insertTrade_cases htrades).imp_right fun h => ⟨t, hid, h⟩
          · exact Or.inl heffect.trades
      rw [persistAll_cons, hnew]
      rcases hfirst with hsame | ⟨t, hid, happend⟩
      · exact ⟨new, by rw [hsame], hlater⟩
      · refine ⟨t :: new, by rw [happend, List.append_assoc, List.singleton_append], ?_⟩
        rw [List.forall_mem_cons]
        exact ⟨⟨c, List.mem_cons_self, hid⟩, hlater⟩

/-- A committed fill whose id is new is appended to `trades` under its key. -/
theorem trades_of_fresh_fill (hfill : c.isFill = true)
    (hfresh : ∀ x ∈ db.trades, x.fillId ≠ c.report.fillId)
    (hok : persistExecution rt c db = .ok db') : ∃ t : TradeRow,
      t.fillId = c.report.fillId ∧ t.idKey = c.idKey rt ∧ db'.trades = db.trades ++ [t] := by
  obtain ⟨-, ⟨-, heffect⟩ | ⟨hnofill, -⟩⟩ := persistExecution_ok_iff.mp hok
  · obtain ⟨t, ht, htrades⟩ := heffect.trades
    obtain ⟨-, -, hsymbol, -, -, hid, htime, htradeId⟩ := tradeRow_spec ht
    refine ⟨t, hid, ?_, insertTrade_of_fresh (by rwa [hid]) htrades⟩
    rw [TradeRow.idKey, Call.idKey, hsymbol, htime, htradeId]
  · simp [hfill] at hnofill

/-- No trade of the table has a fill id of the calls, and their fill ids are distinct. -/
structure NewFills (db : Db) (calls : List Call) : Prop where
  like : ∀ c ∈ calls, isFillLike c.report = true
  distinct : (calls.map fun c => c.report.fillId).Nodup
  new : ∀ c ∈ calls, ∀ x ∈ db.trades, x.fillId ≠ c.report.fillId

/-- After the first call, the others are still new. -/
theorem NewFills.tail (h : NewFills db (c :: calls)) :
    NewFills (attempt (persistExecution rt c) false db) calls := by
  obtain ⟨hlike, hdistinct, hnew⟩ := h
  rw [List.map_cons, List.nodup_cons] at hdistinct
  refine ⟨fun c' hc' => hlike c' (List.mem_cons_of_mem _ hc'), hdistinct.2, fun c' hc' x hx => ?_⟩
  obtain ⟨new, htrades, hids⟩ := persistAll_trades rt db [c]
  have hx' : x ∈ db.trades ++ new := htrades ▸ hx
  rcases List.mem_append.mp hx' with hx | hx
  · exact hnew c' (List.mem_cons_of_mem _ hc') x hx
  · obtain ⟨c'', hc'', hid⟩ := hids x hx
    obtain rfl := List.mem_singleton.mp hc''
    rw [hid]
    exact fun heq => hdistinct.1 (List.mem_map.mpr ⟨c', hc', heq.symm⟩)

/-- The trades with the fill id of the first call are those that the first call leaves. -/
theorem countP_persistAll_cons (h : NewFills db (c :: calls)) :
    ((persistAll rt db (c :: calls)).trades.countP fun t => t.fillId = c.report.fillId) =
      (attempt (persistExecution rt c) false db).trades.countP
        fun t => t.fillId = c.report.fillId := by
  obtain ⟨new, htrades, hids⟩ :=
    persistAll_trades rt (attempt (persistExecution rt c) false db) calls
  have hdistinct := h.distinct
  rw [List.map_cons, List.nodup_cons] at hdistinct
  have hnone : (new.countP fun t => t.fillId = c.report.fillId) = 0 := by
    rw [List.countP_eq_zero]
    intro t ht heq
    obtain ⟨c', hc', hid⟩ := hids t ht
    exact hdistinct.1 (List.mem_map.mpr ⟨c', hc', hid.symm.trans (of_decide_eq_true heq)⟩)
  rw [persistAll_cons, htrades, List.countP_append, hnone, add_zero]

/-- No stored trade has the fill id of a new fill. -/
theorem NewFills.countP_eq_zero (h : NewFills db (c :: calls)) :
    (db.trades.countP fun t => t.fillId = c.report.fillId) = 0 := by
  rw [List.countP_eq_zero]
  intro t ht heq
  exact h.new c List.mem_cons_self t ht (of_decide_eq_true heq)

/-- **Storing the first fill**: each fill is stored exactly when the first call commits as a fill
and each of the others is stored from there. -/
theorem storesEachFill_cons (h : NewFills db (c :: calls)) :
    StoresEachFill rt db (c :: calls) ↔
      ∃ db', c.isFill = true ∧ persistExecution rt c db = .ok db' ∧
        StoresEachFill rt db' calls := by
  have hfresh := h.new c List.mem_cons_self
  have hzero := h.countP_eq_zero
  constructor
  · intro hstores
    have hone := hstores c List.mem_cons_self
    rw [countP_persistAll_cons h] at hone
    rcases attempt_cases (persistExecution rt c) false db with ⟨hs, -⟩ | ⟨-, hok⟩
    · rw [hs, hzero] at hone
      simp at hone
    · obtain ⟨-, ⟨hfill, -⟩ | ⟨-, heffect⟩⟩ := persistExecution_ok_iff.mp hok
      · exact ⟨_, hfill, hok, fun c' hc' => hstores c' (List.mem_cons_of_mem _ hc')⟩
      · rw [heffect.trades, hzero] at hone
        simp at hone
  · rintro ⟨db', hfill, hok, hstores⟩
    have hdb' : attempt (persistExecution rt c) false db = db' := attempt_of_ok hok
    rw [StoresEachFill, List.forall_mem_cons]
    refine ⟨?_, fun c' hc' => ?_⟩
    · obtain ⟨t, hid, -, happend⟩ := trades_of_fresh_fill hfill hfresh hok
      rw [countP_persistAll_cons h, hdb', happend, List.countP_append, hzero]
      simp [hid]
    · rw [persistAll_cons, hdb']
      exact hstores c' hc'

/-- A call that takes the fill branch has a positive quantity. -/
theorem isFill_iff (hlike : isFillLike c.report = true) :
    c.isFill = true ↔ c.report.lastFilledQty.gt .zero = true := by
  rw [Call.isFill, hlike, Bool.true_and]

/-- The positions stay in range exactly when the first call keeps its position in range and the
others do from there. -/
theorem inRange_cons (hfill : c.isFill = true) (hok : persistExecution rt c db = .ok db') :
    (∀ pre c', pre ++ [c'] <+: c :: calls → Numeric.Fits 20
        (db.held c'.order.accountId c'.order.symbol +
          ((pre ++ [c']).map fun x => x.moves rt c'.order.accountId c'.order.symbol).sum)) ↔
      Numeric.Fits 20 (db.held c.order.accountId c.order.symbol + c.stored rt) ∧
        ∀ pre c', pre ++ [c'] <+: calls → Numeric.Fits 20
          (db'.held c'.order.accountId c'.order.symbol +
            ((pre ++ [c']).map fun x => x.moves rt c'.order.accountId c'.order.symbol).sum) := by
  have hmoves : c.moves rt c.order.accountId c.order.symbol = c.stored rt := if_pos ⟨hfill, rfl⟩
  constructor
  · intro h
    refine ⟨?_, fun pre c' hpre => ?_⟩
    · simpa [hmoves] using h [] c (by simp)
    · have := h (c :: pre) c' (by simpa using hpre)
      rwa [List.cons_append, List.map_cons, List.sum_cons, ← add_assoc, ← held_persist hok] at this
  · rintro ⟨hfirst, hrest⟩ pre c' hpre
    cases pre with
    | nil =>
        obtain rfl : c' = c := by simpa using hpre
        simpa [hmoves] using hfirst
    | cons x pre =>
        have hcons := List.cons_prefix_cons.mp hpre
        obtain rfl := hcons.1
        have := hrest pre c' hcons.2
        rwa [List.cons_append, List.map_cons, List.sum_cons, ← add_assoc, ← held_persist hok]

/-- **Separating the first fill**: the calls are separable exactly when the first one is accepted
as a fill and the others are separable from there. -/
theorem separable_cons (h : NewFills db (c :: calls)) : Separable rt db (c :: calls) ↔
    ∃ db', c.isFill = true ∧ persistExecution rt c db = .ok db' ∧ Separable rt db' calls := by
  have hfresh := h.new c List.mem_cons_self
  have hfill := isFill_iff (h.like c List.mem_cons_self)
  constructor
  · rintro ⟨hpositive, hstorable, hdistinct, hnew, hrange⟩
    rw [List.forall_mem_cons] at hpositive hstorable hnew
    rw [List.map_cons, List.nodup_cons] at hdistinct
    have hisfill := hfill.mpr hpositive.1
    have hfits : Numeric.Fits 20 (db.held c.order.accountId c.order.symbol + c.stored rt) := by
      have := hrange [] c (by simp)
      have hmoves : c.moves rt c.order.accountId c.order.symbol = c.stored rt :=
        if_pos ⟨hisfill, rfl⟩
      simpa [hmoves] using this
    obtain ⟨db', hok⟩ := persistExecution_isOk_iff.mpr
      ((accepted_iff_of_fresh hisfill hfresh).mpr ⟨hstorable.1, hnew.1, hfits⟩)
    obtain ⟨t, -, hkey, happend⟩ := trades_of_fresh_fill hisfill hfresh hok
    refine ⟨db', hisfill, hok, hpositive.2, hstorable.2, hdistinct.2, fun c' hc' x hx => ?_,
      ((inRange_cons hisfill hok).mp hrange).2⟩
    rw [happend, List.mem_append, List.mem_singleton] at hx
    rcases hx with hx | rfl
    · exact hnew.2 c' hc' x hx
    · rw [hkey]
      exact fun heq => hdistinct.1 (List.mem_map.mpr ⟨c', hc', heq.symm⟩)
  · rintro ⟨db', hisfill, hok, hpositive, hstorable, hdistinct, hnew, hrange⟩
    obtain ⟨hstore, hid, hfits⟩ := (accepted_iff_of_fresh hisfill hfresh).mp
      (persistExecution_isOk_iff.mp ⟨db', hok⟩)
    obtain ⟨t, -, hkey, happend⟩ := trades_of_fresh_fill hisfill hfresh hok
    refine ⟨?_, ?_, ?_, ?_, (inRange_cons hisfill hok).mpr ⟨hfits, hrange⟩⟩
    · exact List.forall_mem_cons.mpr ⟨hfill.mp hisfill, hpositive⟩
    · exact List.forall_mem_cons.mpr ⟨hstore, hstorable⟩
    · rw [List.map_cons, List.nodup_cons]
      refine ⟨fun hmem => ?_, hdistinct⟩
      obtain ⟨c', hc', heq⟩ := List.mem_map.mp hmem
      exact hnew c' hc' t (by simp [happend]) (hkey.trans heq.symm)
    · refine List.forall_mem_cons.mpr ⟨hid, fun c' hc' x hx => hnew c' hc' x ?_⟩
      rw [happend]
      exact List.mem_append_left _ hx

/-- **When no fill is lost**: persisting a list of fills with distinct ids that are not stored yet
leaves exactly one trade for each of them if and only if the fills are separable. -/
theorem storesEachFill_iff (rt : Runtime) (db : Db) (calls : List Call) (h : NewFills db calls) :
    StoresEachFill rt db calls ↔ Separable rt db calls := by
  induction calls generalizing db with
  | nil =>
      refine iff_of_true (by simp [StoresEachFill]) ⟨by simp, by simp, by simp, by simp, ?_⟩
      intro pre c hpre
      simp at hpre
  | cons c calls ih =>
      rw [storesEachFill_cons h, separable_cons h]
      refine exists_congr fun db' => and_congr_right fun _ => and_congr_right fun hok => ih db' ?_
      rw [← attempt_of_ok hok]
      exact h.tail

/-- The fills of an order of 0.0002, whose two legs are equal, when the clock stands still
between them for `delay = 0`. -/
def equalLegs (delay : ℤ) : List Call :=
  let order := { OrderCommand.sample "018f3c2e-0000-7000-8000-00000000000a" 1 1 1 0 60000 with
    qty := Rounding.nearestEven.lit (1 / 5000) }
  ((buildReports Rounding.nearestEven (fun i => i * delay) order).drop 1).map (Call.paper 0 order)

theorem storesEachFill_iff_equalLegs : StoresEachFill Runtime.reference {} (equalLegs 1000) ↔
    Separable Runtime.reference {} (equalLegs 1000) :=
  storesEachFill_iff _ _ _ ⟨by decide +kernel, by decide +kernel, by simp⟩

/-- Two fills with distinct ids, equal quantities and one time stamp are not both stored. -/
theorem equalLegs_lost : NewFills {} (equalLegs 0) ∧
    ¬ StoresEachFill Runtime.reference {} (equalLegs 0) := by
  refine ⟨⟨by decide +kernel, by decide +kernel, by simp⟩, fun h => ?_⟩
  have hstored : ¬ ∀ c ∈ equalLegs 0, ((persistAll Runtime.reference {} (equalLegs 0)).trades.countP
      fun t => t.fillId = c.report.fillId) = 1 := by decide +kernel
  exact hstored h

end HftPlatform
