import HftPlatform.RiskGuard

/-!
# The simulated trace of an order

What `build_reports` makes of an order, in exact arithmetic: a rejection, or an acknowledgement
followed by one fill or two. The first of two fills is two fifths of the quantity and no less than
0.0001, so a quantity up to 0.0001 is filled at once.

## Main results

* `SimulatedTrace`: what holds of the trace of an order that is not rejected.
* `fillId_inj`: no two orders have a fill id in common.
* `buildReports_trace`: both, for every order.
-/

namespace HftPlatform

open Lib Binary64

/-- The fills among the reports. -/
def fillsOf (reports : List ExecutionReport) : List ExecutionReport := reports.filter isFillLike

/-- An acknowledgement and then fills of the order, up to its quantity. -/
structure SimulatedTrace (order : OrderCommand) (reports : List ExecutionReport) : Prop where
  opens : ∃ ack, reports = ack :: fillsOf reports ∧ ack.status = ExecutionStatus.new.code ∧
    ack.lastFilledQty = .zero ∧ ack.cumulativeFilledQty = .zero
  closes : ∃ front last, reports = front ++ [last] ∧
    last.status = ExecutionStatus.filled.code ∧ last.cumulativeFilledQty = order.qty ∧
    ∀ r ∈ front, r.status ≠ ExecutionStatus.filled.code
  positive : ∀ r ∈ fillsOf reports, r.lastFilledQty.gt .zero = true
  running : (((fillsOf reports).map ExecutionReport.lastFilledQty).scanl Rounding.exact.add
    .zero).tail = (fillsOf reports).map ExecutionReport.cumulativeFilledQty
  partly : ∀ r ∈ fillsOf reports, r.status = ExecutionStatus.partiallyFilled.code ↔
    r.cumulativeFilledQty.lt order.qty = true
  seq : ((fillsOf reports).map ExecutionReport.fillSeq).Pairwise (· < ·)
  fillIds : ((fillsOf reports).map ExecutionReport.fillId).Nodup

variable {fp : Rounding} {now now' : ℕ → ℤ} {order order' : OrderCommand}
  {report report' : ExecutionReport}

/-! ### Fill ids -/

/-- The id of a fill is the id of its order with a mark of three characters. -/
theorem fillId_of_mem (h : report ∈ fillsOf (buildReports fp now order)) :
    ∃ leg : String, leg.length = 3 ∧ report.fillId = order.clientOrderId ++ leg := by
  obtain ⟨hmem, hfill⟩ := List.mem_filter.mp h
  rw [buildReports] at hmem
  split at hmem
  · obtain rfl := List.mem_singleton.mp hmem
    exact absurd hfill (by simp [isFillLike, buildReject, ExecutionStatus.code])
  · split at hmem
    · simp only [List.mem_cons, List.not_mem_nil, or_false] at hmem
      rcases hmem with rfl | rfl | rfl
      · exact absurd hfill (by simp [isFillLike, buildAck, ExecutionStatus.code])
      · exact ⟨"-p1", rfl, rfl⟩
      · exact ⟨"-p2", rfl, rfl⟩
    · simp only [List.mem_cons, List.not_mem_nil, or_false] at hmem
      rcases hmem with rfl | rfl
      · exact absurd hfill (by simp [isFillLike, buildAck, ExecutionStatus.code])
      · exact ⟨"-f1", rfl, rfl⟩

/-- Strings that end in marks of one length are equal only if what is before the marks is. -/
theorem append_mark_inj {s s' leg leg' : String} (hlen : leg.length = leg'.length)
    (h : s ++ leg = s' ++ leg') : s = s' ∧ leg = leg' := by
  have hchars := congrArg String.toList h
  rw [String.toList_append, String.toList_append] at hchars
  obtain ⟨hs, hleg⟩ := List.append_inj' hchars (by rwa [String.length_toList, String.length_toList])
  exact ⟨String.toList_inj.mp hs, String.toList_inj.mp hleg⟩

/-- **Fills of one fill id** are of one client order id. -/
theorem fillId_inj (h : report ∈ fillsOf (buildReports fp now order))
    (h' : report' ∈ fillsOf (buildReports fp now' order')) (hid : report.fillId = report'.fillId) :
    order.clientOrderId = order'.clientOrderId := by
  obtain ⟨leg, hleg, heq⟩ := fillId_of_mem h
  obtain ⟨leg', hleg', heq'⟩ := fillId_of_mem h'
  rw [heq, heq'] at hid
  exact (append_mark_inj (hleg.trans hleg'.symm) hid).1

/-! ### The two branches -/

theorem fillsOf_split (now : ℕ → ℤ) (h : order.qty.le .zero = false)
    (hlt : (partialQty fp order).lt order.qty = true) : buildReports fp now order =
      buildAck (now 0) order :: fillsOf (buildReports fp now order) ∧
    fillsOf (buildReports fp now order) =
      [buildFill fp (now 1) order .partiallyFilled (partialQty fp order) (partialQty fp order)
        "-p1" 1,
      buildFill fp (now 2) order .filled (fp.sub order.qty (partialQty fp order)) order.qty
        "-p2" 2] := by
  rw [buildReports, if_neg (by simp [h]), if_pos hlt]
  exact ⟨rfl, rfl⟩

theorem fillsOf_single (now : ℕ → ℤ) (h : order.qty.le .zero = false)
    (hlt : ¬ (partialQty fp order).lt order.qty = true) : buildReports fp now order =
      buildAck (now 0) order :: fillsOf (buildReports fp now order) ∧
    fillsOf (buildReports fp now order) =
      [buildFill fp (now 1) order .filled order.qty order.qty "-f1" 1] := by
  rw [buildReports, if_neg (by simp [h]), if_neg hlt]
  exact ⟨rfl, rfl⟩

/-- Filled at once: the quantity is added to zero. -/
theorem SimulatedTrace.single (h : order.qty.gt .zero = true)
    (hlt : ¬ (partialQty Rounding.exact order).lt order.qty = true) :
    SimulatedTrace order (buildReports Rounding.exact now order) := by
  have hpos : order.qty.le .zero = false := by
    rcases RiskGuard.pos_cases h with hq | ⟨q, hq, hq0⟩ <;> simp [hq, le, zero]
    exact hq0
  have hirrefl : order.qty.lt order.qty = false := by
    rcases RiskGuard.pos_cases h with hq | ⟨q, hq, -⟩ <;> simp [hq, lt]
  have hsum : Rounding.exact.add .zero order.qty = order.qty := by
    rcases RiskGuard.pos_cases h with hq | ⟨q, hq, -⟩ <;>
      simp [hq, zero, Rounding.add, Rounding.exact]
  obtain ⟨hreports, hfills⟩ := fillsOf_single now hpos hlt
  refine ⟨⟨_, hreports, rfl, rfl, rfl⟩,
    ⟨[_], _, hreports.trans (by rw [hfills]; rfl), rfl, rfl, ?_⟩, ?_, ?_, ?_, ?_, ?_⟩
  · simp [buildAck, ExecutionStatus.code]
  all_goals rw [hfills]
  · simpa [buildFill] using h
  · simp [buildFill, hsum]
  · simp [buildFill, hirrefl, ExecutionStatus.code]
  · simp
  · simp

/-- Filled in two legs: the second is the rest of the quantity. -/
theorem SimulatedTrace.split {q : ℚ} (hq : order.qty = .fin q) (hpos : 0 < q)
    (hlt : (partialQty Rounding.exact order).lt order.qty = true) :
    SimulatedTrace order (buildReports Rounding.exact now order) := by
  obtain ⟨l, hl, hl0⟩ := RiskGuard.partialQty_exact hq
  have hlq : l < q := by simpa [hl, hq, lt] using hlt
  have hrest : Rounding.exact.sub order.qty (partialQty Rounding.exact order) = .fin (q - l) := by
    rw [hq, hl, sub_eq_add_neg]
    rfl
  obtain ⟨hreports, hfills⟩ := fillsOf_split now (by simpa [hq, le, zero] using hpos) hlt
  rw [hrest, hl, hq] at hfills
  refine ⟨⟨_, hreports, rfl, rfl, rfl⟩,
    ⟨[_, _], _, hreports.trans (by rw [hfills]; rfl), rfl, hq.symm, ?_⟩, ?_, ?_, ?_, ?_, ?_⟩
  · simp [buildAck, buildFill, ExecutionStatus.code]
  all_goals rw [hfills]
  · simp [buildFill, gt, lt, zero, hl0, hlq]
  · simp [buildFill, Rounding.add, Rounding.exact, zero]
  · simp [buildFill, ExecutionStatus.code, hq, lt, hlq]
  · simp [buildFill]
  · simp only [List.map_cons, List.map_nil, List.nodup_cons, List.mem_singleton, buildFill]
    have hlen : "-p1".length = "-p2".length := by decide
    exact ⟨fun h => absurd (append_mark_inj hlen h).2 (by decide), by simp⟩

/-- **The simulated trace of an order.** It is a single rejection just when the quantity is not
positive, and an acknowledgement with fills up to the quantity otherwise; its fill ids are its
own. -/
theorem buildReports_trace (now : ℕ → ℤ) (order : OrderCommand) (hnan : order.qty ≠ .nan) :
    ((∃ r, buildReports Rounding.exact now order = [r] ∧
        r.status = ExecutionStatus.rejected.code) ↔ order.qty.le .zero = true) ∧
      (order.qty.le .zero = false →
        SimulatedTrace order (buildReports Rounding.exact now order)) ∧
      ∀ now' order', order'.clientOrderId ≠ order.clientOrderId →
        ∀ r ∈ fillsOf (buildReports Rounding.exact now order),
          ∀ r' ∈ fillsOf (buildReports Rounding.exact now' order'), r.fillId ≠ r'.fillId := by
  have htrace : order.qty.le .zero = false →
      SimulatedTrace order (buildReports Rounding.exact now order) := by
    intro hpos
    have hgt : order.qty.gt .zero = true := by
      cases hq : order.qty with
      | nan => exact absurd hq hnan
      | inf s => simpa [hq, le, gt, lt, zero] using hpos
      | fin q => simpa [hq, le, gt, lt, zero] using hpos
    by_cases hlt : (partialQty Rounding.exact order).lt order.qty = true
    · rcases RiskGuard.pos_cases hgt with hq | ⟨q, hq, hq0⟩
      · rw [RiskGuard.partialQty_inf hq, hq] at hlt
        exact absurd hlt (by decide)
      · exact SimulatedTrace.split hq hq0 hlt
    · exact SimulatedTrace.single hgt hlt
  refine ⟨⟨?_, fun hle => ⟨_, buildReports_of_reject hle, rfl⟩⟩, htrace, ?_⟩
  · rintro ⟨r, hr, hstatus⟩
    by_contra hpos
    obtain ⟨front, last, hlast, hfilled, -⟩ := (htrace (by simpa using hpos)).closes
    have hone : [] ++ [r] = front ++ [last] := hr.symm.trans hlast
    obtain ⟨-, htail⟩ := List.append_inj' hone rfl
    rw [(List.cons.inj htail).1, hfilled] at hstatus
    exact absurd hstatus (by decide)
  · intro now' order' hne r hr r' hr' hid
    exact hne (fillId_inj hr hr' hid).symm

/-- The trace of the largest order that is filled at once. -/
theorem simulatedTrace_atOnce :
    SimulatedTrace (OrderCommand.sample "manual-1" 1 1 1 (1 / 10000) 60000)
      (buildReports Rounding.exact (fun i => i)
        (OrderCommand.sample "manual-1" 1 1 1 (1 / 10000) 60000)) :=
  (buildReports_trace _ _ (by decide)).2.1 (by decide +kernel)

end HftPlatform
