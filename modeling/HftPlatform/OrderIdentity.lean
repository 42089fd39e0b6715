import HftPlatform.Lib.Txn
import HftPlatform.Repos

/-!
# The identity of an order at the order executor

`persist_report` stores everything about a report under a UUID: the one that the client order id of
the report spells or, where it spells none, one that is made up for this report alone. This module
says when the reports of an order nevertheless come together in one row of `orders`.

## Main results

* `recordedUnder_of_ok`: where a committed report is recorded.
* `stableIdentity_iff`: orders are identified stably along a run exactly when no two committed
  reports carry one client order id that is no UUID.
-/

namespace HftPlatform.OrderExecutor

open Lib

/-- The transaction of a delivered report. -/
def persist (rt : Runtime) (c : Delivery × ExecutionReport) : Db → Except PgError Db :=
  persistReport rt c.1 c.2

/-- What a client order id names: a UUID, however it is spelled, or itself. -/
def orderIdentity (rt : Runtime) (clientOrderId : String) : Uuid ⊕ String :=
  match rt.parseUuid clientOrderId with
  | some u => .inl u
  | none => .inr clientOrderId

/-- The order of the UUID. -/
def Db.order (db : Db) (u : Uuid) : Option OrderRow := lookup OrderRow.clientOrderId u db.orders

/-- A report updates the order of one UUID, and its event and its trade, if it adds one, belong to
that order. -/
structure RecordedUnder (u : Uuid) (c : Delivery × ExecutionReport) (db db' : Db) : Prop where
  order : ∃ row ∈ db'.order u, row.status = toString c.2.status ∧
    row.exchangeOrderId = c.2.exchangeOrderId ∧ row.updatedAt = c.1.now
  others : ∀ v, v ≠ u → db'.order v = db.order v
  event : ∃ ev, db'.orderEvents = db.orderEvents ++ [ev] ∧ ev.clientOrderId = u ∧ ev.payload = c.2
  trade : db'.trades = db.trades ∨ ∃ t, db'.trades = db.trades ++ [t] ∧ t.clientOrderId = u

/-- Any two committed reports with one client order id are recorded under one order, and those of
different orders under different ones. -/
def StableIdentity (rt : Runtime) (db₀ : Db) (inputs : List ((Delivery × ExecutionReport) × Bool)) :
    Prop :=
  EachCommit (persist rt) db₀ inputs fun _ c s s' =>
    EachCommit (persist rt) db₀ inputs fun _ c' t t' =>
      ∃ u v, RecordedUnder u c s s' ∧ RecordedUnder v c' t t' ∧
        (c.2.clientOrderId = c'.2.clientOrderId → u = v) ∧
        (orderIdentity rt c.2.clientOrderId ≠ orderIdentity rt c'.2.clientOrderId → u ≠ v)

/-- Two committed reports with one client order id have a UUID for it. -/
def SharedIdsAreUuids (rt : Runtime) (db₀ : Db)
    (inputs : List ((Delivery × ExecutionReport) × Bool)) : Prop :=
  EachCommit (persist rt) db₀ inputs fun pre c _ _ =>
    EachCommit (persist rt) db₀ inputs fun pre' c' _ _ => pre.length ≠ pre'.length →
      c.2.clientOrderId = c'.2.clientOrderId → (rt.parseUuid c.2.clientOrderId).isSome = true

/-- The UUIDs that are made up are made up once, and no report spells one of them. -/
structure FreshUuids (rt : Runtime) (inputs : List ((Delivery × ExecutionReport) × Bool)) :
    Prop where
  nodup : (inputs.map fun i => i.1.1.freshUuid).Nodup
  unspelled : ∀ i ∈ inputs, ∀ j ∈ inputs,
    rt.parseUuid i.1.2.clientOrderId ≠ some j.1.1.freshUuid

variable {rt : Runtime} {c c' : Delivery × ExecutionReport} {db db' db₀ : Db} {u v : Uuid}
  {inputs : List ((Delivery × ExecutionReport) × Bool)}

/-! ### One report -/

/-- What the upsert of `orders` leaves. -/
theorem order_of_upsertOrder {d : Delivery} {report : ExecutionReport}
    (h : upsertOrder rt u d report db = .ok db') :
    (∃ row ∈ db'.order u, row.status = toString report.status ∧
      row.exchangeOrderId = report.exchangeOrderId ∧ row.updatedAt = d.now) ∧
    (∀ v, v ≠ u → db'.order v = db.order v) ∧ db'.orderEvents = db.orderEvents ∧
      db'.trades = db.trades := by
  simp only [upsertOrder, bind_eq_ok_iff, pure_eq_ok_iff] at h
  obtain ⟨row, hrow, orders, horders, rfl⟩ := h
  have hcols : row.clientOrderId = u ∧ row.status = toString report.status ∧
      row.exchangeOrderId = report.exchangeOrderId ∧ row.updatedAt = d.now := by
    simp only [orderRow, bind_eq_ok_iff, pure_eq_ok_iff] at hrow
    obtain ⟨-, -, -, -, -, -, -, -, e, he, -, -, rfl⟩ := hrow
    exact ⟨rfl, rfl, (pgText_eq_ok_iff.mp he).2, rfl⟩
  obtain ⟨hkey, hstatus, hexchange, hnow⟩ := hcols
  have hmerge : ∀ old m, (.ok (mergeOrder row old) : Except PgError OrderRow) = .ok m →
      m.clientOrderId = old.clientOrderId := by
    rintro old m ⟨rfl⟩
    rfl
  refine ⟨?_, fun v hv => lookup_upsert_of_ne (by rwa [hkey]) hmerge horders, rfl, rfl⟩
  obtain ⟨row', hrow', hcases⟩ := lookup_upsert_self hmerge horders
  rw [hkey] at hrow'
  refine ⟨row', hrow', ?_⟩
  rcases hcases with ⟨-, rfl⟩ | ⟨old, -, ⟨rfl⟩⟩
  · exact ⟨hstatus, hexchange, hnow⟩
  · exact ⟨hstatus, hexchange, hnow⟩

/-- **A committed report is recorded** under the order of its UUID. -/
theorem recordedUnder_of_ok (h : persist rt c db = .ok db') :
    RecordedUnder (reportUuid rt c.1 c.2) c db db' := by
  simp only [persist, persistReport, bind_eq_ok_iff] at h
  obtain ⟨db₁, h₁, db₂, h₂, h⟩ := h
  obtain ⟨horder, hothers, hevents, htrades⟩ := order_of_upsertOrder h₁
  have hevent : ∃ ev, db₂ = { db₁ with orderEvents := db.orderEvents ++ [ev] } ∧
      ev.clientOrderId = reportUuid rt c.1 c.2 ∧ ev.payload = c.2 := by
    simp only [insertOrderEvent, orderEventRow, bind_eq_ok_iff, pure_eq_ok_iff] at h₂
    obtain ⟨ev, ⟨-, -, rfl⟩, rfl⟩ := h₂
    exact ⟨_, by rw [hevents], rfl, rfl⟩
  obtain ⟨ev, rfl, hev⟩ := hevent
  split at h
  · simp only [insertTrade, updatePosition, bind_eq_ok_iff, pure_eq_ok_iff] at h
    obtain ⟨-, ⟨t, ht, rfl⟩, -, -, -, -, rfl⟩ := h
    refine ⟨horder, hothers, ⟨ev, rfl, hev⟩, ?_⟩
    simp only [tradeRow, bind_eq_ok_iff, pure_eq_ok_iff] at ht
    obtain ⟨-, -, -, -, -, -, -, -, -, -, -, -, -, -, rfl⟩ := ht
    simp only [insertTradeRow]
    split
    · exact Or.inl htrades
    · exact Or.inr ⟨_, congrArg (· ++ _) htrades, rfl⟩
  · obtain rfl := pure_eq_ok_iff.mp h
    exact ⟨horder, hothers, ⟨ev, rfl, hev⟩, Or.inl htrades⟩

/-- A report is recorded under one order. -/
theorem RecordedUnder.unique (h : RecordedUnder u c db db') (h' : RecordedUnder v c db db') :
    u = v := by
  obtain ⟨ev, hev, rfl, -⟩ := h.event
  obtain ⟨ev', hev', rfl, -⟩ := h'.event
  rw [hev, List.append_cancel_left_eq, List.cons.injEq] at hev'
  rw [hev'.1]

/-! ### Runs of reports -/

theorem reportUuid_of_some (h : rt.parseUuid c.2.clientOrderId = some u) :
    reportUuid rt c.1 c.2 = u := by rw [reportUuid, h, Option.getD_some]

theorem reportUuid_of_none (h : rt.parseUuid c.2.clientOrderId = none) :
    reportUuid rt c.1 c.2 = c.1.freshUuid := by rw [reportUuid, h, Option.getD_none]

theorem orderIdentity_eq_iff {s s' : String} : orderIdentity rt s = orderIdentity rt s' ↔
    (∃ u, rt.parseUuid s = some u ∧ rt.parseUuid s' = some u) ∨
      rt.parseUuid s = none ∧ rt.parseUuid s' = none ∧ s = s' := by
  rw [orderIdentity, orderIdentity]
  cases rt.parseUuid s <;> cases rt.parseUuid s' <;> simp [eq_comm]

/-- Inputs at one place are one input. -/
theorem eq_of_length_eq {pre pre' post post' : List ((Delivery × ExecutionReport) × Bool)}
    (hin : inputs = pre ++ (c, false) :: post) (hin' : inputs = pre' ++ (c', false) :: post')
    (hlen : pre.length = pre'.length) : c = c' := by
  have h := (List.append_inj (hin.symm.trans hin') hlen).2
  exact congrArg Prod.fst (List.cons.inj h).1

/-- UUIDs made up at two places differ. -/
theorem FreshUuids.ne (hfresh : FreshUuids rt inputs)
    {pre pre' post post' : List ((Delivery × ExecutionReport) × Bool)}
    (hin : inputs = pre ++ (c, false) :: post) (hin' : inputs = pre' ++ (c', false) :: post')
    (hlen : pre.length ≠ pre'.length) : c.1.freshUuid ≠ c'.1.freshUuid := by
  have hat : ∀ {pre post : List ((Delivery × ExecutionReport) × Bool)} {c},
      inputs = pre ++ (c, false) :: post →
        (inputs.map fun i => i.1.1.freshUuid)[pre.length]? = some c.1.freshUuid := by
    rintro pre post c rfl
    simp
  intro heq
  have hsame := (hat hin).trans ((congrArg some heq).trans (hat hin').symm)
  have hlt : pre.length < (inputs.map fun i => i.1.1.freshUuid).length := by simp [hin]
  exact hlen ((List.getElem?_inj hlt hfresh.nodup).mp hsame)

/-- **Orders are identified stably along a run** exactly when a client order id that two committed
reports carry is a UUID. -/
theorem stableIdentity_iff (rt : Runtime) (db₀ : Db)
    (inputs : List ((Delivery × ExecutionReport) × Bool)) (hfresh : FreshUuids rt inputs) :
    StableIdentity rt db₀ inputs ↔ SharedIdsAreUuids rt db₀ inputs := by
  constructor
  · intro h pre c post s hin hok pre' c' post' s' hin' hok' hlen hid
    obtain ⟨u, v, hu, hv, hsame, -⟩ := h pre c post s hin hok pre' c' post' s' hin' hok'
    obtain rfl := hu.unique (recordedUnder_of_ok hok)
    obtain rfl := hv.unique (recordedUnder_of_ok hok')
    rw [Option.isSome_iff_ne_none]
    intro hnone
    have heq := hsame hid
    rw [reportUuid_of_none hnone, reportUuid_of_none (hid ▸ hnone)] at heq
    exact hfresh.ne hin hin' hlen heq
  · intro h pre c post s hin hok pre' c' post' s' hin' hok'
    refine ⟨_, _, recordedUnder_of_ok hok, recordedUnder_of_ok hok', fun hid => ?_, fun hid => ?_⟩
    · by_cases hlen : pre.length = pre'.length
      · rw [eq_of_length_eq hin hin' hlen]
      · obtain ⟨u, hu⟩ := Option.isSome_iff_exists.mp
          (h pre c post s hin hok pre' c' post' s' hin' hok' hlen hid)
        rw [reportUuid_of_some hu, reportUuid_of_some (hid ▸ hu)]
    · have hc : (c, false) ∈ inputs := by simp [hin]
      have hc' : (c', false) ∈ inputs := by simp [hin']
      cases hu : rt.parseUuid c.2.clientOrderId with
      | some u =>
          rw [reportUuid_of_some hu]
          cases hv : rt.parseUuid c'.2.clientOrderId with
          | some v =>
              rw [reportUuid_of_some hv]
              rintro rfl
              exact hid (orderIdentity_eq_iff.mpr (Or.inl ⟨u, hu, hv⟩))
          | none =>
              rw [reportUuid_of_none hv]
              rintro rfl
              exact hfresh.unspelled _ hc _ hc' hu
      | none =>
          rw [reportUuid_of_none hu]
          cases hv : rt.parseUuid c'.2.clientOrderId with
          | some v =>
              rw [reportUuid_of_some hv]
              rintro rfl
              exact hfresh.unspelled _ hc' _ hc hv
          | none =>
              rw [reportUuid_of_none hv]
              refine hfresh.ne hin hin' fun hlen => hid ?_
              rw [eq_of_length_eq hin hin' hlen]

/-- A computation that does not fail has a result. -/
theorem exists_of_toBool {ε α : Type} {x : Except ε α} (h : x.toBool = true) : ∃ a, x = .ok a := by
  cases x with
  | error e => simp [Except.toBool] at h
  | ok a => exact ⟨a, rfl⟩

/-- The acknowledgement and the fill of an order, each delivered on its own. -/
def sampleReports (clientOrderId : String) : List ((Delivery × ExecutionReport) × Bool) :=
  let order := OrderCommand.sample clientOrderId 1 1 1 1 60000
  [((⟨1, 1, 1⟩, buildAck 1 order), false),
    ((⟨2, 2, 2⟩, buildFill Rounding.nearestEven 2 order .filled order.qty order.qty "-f1" 1),
      false)]

/-- The acknowledgement and the fill of the order `manual-1` are recorded under two orders. -/
theorem manual_not_stable : ¬ StableIdentity Runtime.reference {} (sampleReports "manual-1") := by
  intro h
  obtain ⟨s, hs⟩ := exists_of_toBool (x := persist Runtime.reference
    (sampleReports "manual-1")[0].1 {}) (by decide +kernel)
  obtain ⟨s', hs'⟩ := exists_of_toBool (x := persist Runtime.reference
    (sampleReports "manual-1")[1].1 (run (persist Runtime.reference) {}
      [(sampleReports "manual-1")[0]])) (by decide +kernel)
  obtain ⟨u, v, hu, hv, hsame, -⟩ := h [] _ [_] s rfl hs [_] _ [] s' rfl hs'
  have hu₁ : u = 1 := hu.unique (recordedUnder_of_ok hs)
  have hv₂ : v = 2 := hv.unique (recordedUnder_of_ok hs')
  exact absurd (hu₁.symm.trans ((hsame rfl).trans hv₂)) (by decide)

/-- The reports of an order that a UUID names are recorded under one. -/
theorem uuid_stable : StableIdentity Runtime.reference {}
    (sampleReports "018f3c2e-0000-7000-8000-00000000000a") := by
  have huuid : ∀ i ∈ sampleReports "018f3c2e-0000-7000-8000-00000000000a",
      (Runtime.reference.parseUuid i.1.2.clientOrderId).isSome = true := by decide +kernel
  refine (stableIdentity_iff _ _ _ ⟨by decide +kernel, by decide +kernel⟩).mpr ?_
  intro pre c post s hin hok pre' c' post' s' hin' hok' hlen hid
  exact huuid (c, false) (by rw [hin]; simp)

end HftPlatform.OrderExecutor
