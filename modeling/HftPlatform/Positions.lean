import HftPlatform.Emission
import HftPlatform.Ledger
import HftPlatform.Storable

/-!
# What a call moves

A committed call changes the quantity held in at most one position, by a number that the call
alone determines. Every later count of positions over a run rests on this.

## Main results

* `held_persist`: a committed call adds to each position what it moves there.
* `moves_eq`: what that number is, in units of the column.
* `accepted_iff_of_fresh`: when a fill whose id is new is accepted.
* `moved_moments`: at every moment of a command its committed reports have moved its position
  together.
* `Numbered.performAll`: after every run of commands each position is a number.
-/

namespace HftPlatform

open Lib DbWriter

/-- The quantity that an account holds in a symbol; nothing when there is no position. -/
def Db.held (db : Db) (accountId symbol : String) : Numeric :=
  ((db.position accountId symbol).map PositionRow.qty).getD 0

/-- The signed quantity of a call, as its column stores it. -/
def Call.stored (rt : Runtime) (c : Call) : Numeric :=
  match numeric20 rt c.qtyDelta with
  | .ok q => q
  | .error _ => 0

/-- What a committed call adds to the quantity that an account holds in a symbol. -/
def Call.moves (rt : Runtime) (c : Call) (accountId symbol : String) : Numeric :=
  if c.isFill = true ∧ (accountId, symbol) = (c.order.accountId, c.order.symbol) then c.stored rt
  else 0

variable {rt : Runtime} {c : Call} {db db' : Db}

/-- The proposed position holds the stored quantity. -/
theorem qty_eq_stored {p : PositionRow} (h : positionRow rt c = .ok p) : p.qty = c.stored rt := by
  rw [Call.stored, (positionRow_spec h).2.1]

/-- What a column stores fits it. -/
theorem fits_stored (rt : Runtime) (c : Call) : Numeric.Fits 20 (c.stored rt) := by
  rw [Call.stored]
  split
  · rename_i q h
    cases hx : c.qtyDelta with
    | nan =>
        obtain rfl : ⊤ = q := by simpa [hx, numeric20, Numeric.ofFloat8] using h
        exact fun u hu => absurd hu.symm (WithTop.coe_ne_top)
    | inf s => simp [hx, numeric20, Numeric.ofFloat8] at h
    | fin x =>
        rw [hx] at h
        obtain ⟨hlt, rfl⟩ := Numeric.checked_eq_ok_iff.mp h
        intro u hu
        rwa [← WithTop.coe_inj.mp hu]
  · intro u hu
    obtain rfl : (0 : ℤ) = u := by exact_mod_cast hu
    norm_num

/-- **A committed call** adds to each position what it moves there. -/
theorem held_persist (h : persistExecution rt c db = .ok db') (a s : String) :
    db'.held a s = db.held a s + c.moves rt a s := by
  obtain ⟨-, ⟨hfill, heffect⟩ | ⟨hfill, heffect⟩⟩ := persistExecution_ok_iff.mp h
  · obtain ⟨p, hp, ⟨p', hp', hcases⟩, hother⟩ := heffect.position
    rw [Call.moves]
    by_cases hkey : (a, s) = (c.order.accountId, c.order.symbol)
    · obtain ⟨rfl, rfl⟩ := Prod.mk.inj hkey
      rw [if_pos ⟨hfill, rfl⟩, Db.held, Db.held, hp', ← qty_eq_stored hp]
      rcases hcases with ⟨hnone, rfl⟩ | ⟨old, hold, hm⟩
      · simp [hnone]
      · obtain ⟨q, hq, rfl⟩ := mergePosition_ok_iff.mp hm
        simp [hold, (Numeric.add_eq_ok_iff.mp hq).2]
    · rw [if_neg fun hboth => hkey hboth.2, add_zero, Db.held, Db.held, hother a s hkey]
  · rw [Call.moves, if_neg (by simp [hfill]), add_zero, Db.held, Db.held, Db.position, Db.position,
      heffect.positions]

/-- The units that a column stores for the quantity of a fill. -/
def fillUnits (rt : Runtime) (q : Binary64) : ℤ :=
  if q.gt .zero then
    match numeric20 rt q with
    | .ok n => n.untopD 0
    | .error _ => 0
  else 0

theorem fillUnits_nonneg (rt : Runtime) (q : Binary64) : 0 ≤ fillUnits rt q := by
  rw [fillUnits]
  split
  · rename_i hpos
    split
    · rename_i n hn
      obtain ⟨u, hu, rfl⟩ := Numeric.ofFloat8_nonneg (Binary64.nonneg_of_zero_lt hpos) hn
      exact hu
    · exact le_rfl
  · exact le_rfl

/-- The direction in which the writer counts an order. -/
def direction (order : OrderCommand) : ℤ := if order.side = OrderSide.buy.code then 1 else -1

theorem direction_cases (order : OrderCommand) : direction order = 1 ∨ direction order = -1 := by
  rw [direction]
  split <;> simp

/-- The units by which the report of a fill moves the position of its order. -/
def reportUnits (rt : Runtime) (order : OrderCommand) (report : ExecutionReport) : ℤ :=
  if isFillLike report then direction order * fillUnits rt report.lastFilledQty else 0

/-- A positive value is stored as its units. -/
theorem eq_fillUnits {x : Binary64} {n : Numeric} (hpos : x.gt .zero = true)
    (hn : numeric20 rt x = .ok n) : n = (fillUnits rt x : Numeric) := by
  obtain ⟨u, -, rfl⟩ := Numeric.ofFloat8_nonneg (Binary64.nonneg_of_zero_lt hpos) hn
  rw [fillUnits, if_pos hpos, hn]
  rfl

/-- A positive quantity is stored as a number; its negative, as the negative number. -/
theorem stored_of_pos (hpos : c.report.lastFilledQty.gt .zero = true) :
    c.stored rt = ((direction c.order * fillUnits rt c.report.lastFilledQty : ℤ) : Numeric) := by
  have hnone : ∀ e, numeric20 rt c.report.lastFilledQty = .error e →
      fillUnits rt c.report.lastFilledQty = 0 := by
    intro e he
    rw [fillUnits, if_pos hpos, he]
  rw [Call.stored, Call.qtyDelta, direction]
  by_cases hside : c.order.side = OrderSide.buy.code
  · rw [if_pos hside, if_pos hside, one_mul]
    cases hq : numeric20 rt c.report.lastFilledQty with
    | ok n => exact eq_fillUnits hpos hq
    | error e => simp [hnone e hq]
  · rw [if_neg hside, if_neg hside, neg_one_mul, ← Numeric.neg_coe]
    cases hq : numeric20 rt c.report.lastFilledQty with
    | ok n =>
        have hneg : numeric20 rt c.report.lastFilledQty.neg = .ok (Numeric.neg n) :=
          Numeric.ofFloat8_neg hq
        rw [hneg, eq_fillUnits hpos hq]
    | error e =>
        cases hneg : numeric20 rt c.report.lastFilledQty.neg with
        | error e' =>
            rw [hnone e hq]
            rfl
        | ok n =>
            have hback : numeric20 rt c.report.lastFilledQty.neg.neg = .ok (Numeric.neg n) :=
              Numeric.ofFloat8_neg hneg
            rw [Binary64.neg_neg_self, hq] at hback
            simp at hback

/-- **What a call moves**, in units of the column. -/
theorem moves_eq (rt : Runtime) (c : Call) (a s : String) : c.moves rt a s =
    ((if (a, s) = (c.order.accountId, c.order.symbol) then reportUnits rt c.order c.report
      else 0 : ℤ) : Numeric) := by
  rw [Call.moves, reportUnits]
  by_cases hkey : (a, s) = (c.order.accountId, c.order.symbol)
  · rw [if_pos hkey]
    by_cases hfill : c.isFill = true
    · have hlike := (Bool.and_eq_true_iff.mp hfill).1
      rw [if_pos ⟨hfill, hkey⟩, if_pos hlike,
        stored_of_pos (Bool.and_eq_true_iff.mp hfill).2]
    · rw [if_neg fun h => hfill h.1]
      split
      · rename_i hlike
        have hpos : c.report.lastFilledQty.gt .zero = false := by
          simpa [Call.isFill, hlike] using hfill
        simp [fillUnits, hpos]
      · simp
  · rw [if_neg hkey, if_neg fun h => hkey h.2]
    simp

/-- **A fill whose id is new is accepted** exactly when its values can be stored, no stored trade
has its exchange trade id, symbol and time, and the position stays in range. -/
theorem accepted_iff_of_fresh (hfill : c.isFill = true)
    (hfresh : ∀ x ∈ db.trades, x.fillId ≠ c.report.fillId) : Accepted rt c db ↔
      Storable rt c ∧
        (∀ x ∈ db.trades, x.idKey ≠ (deterministicTradeId rt c.report, c.order.symbol,
          tsFromNs c.report.eventTimeNs)) ∧
        Numeric.Fits 20 (db.held c.order.accountId c.order.symbol + c.stored rt) := by
  constructor
  · rintro ⟨hbind, htrade, hposition⟩
    obtain ⟨t, ht⟩ := hbind.trade hfill
    obtain ⟨p, hp⟩ := hbind.position hfill
    obtain ⟨-, -, hsymbol, -, -, hid, htime, htradeId⟩ := tradeRow_spec ht
    refine ⟨bindable_iff.mp hbind, ?_, ?_⟩
    · rcases htrade hfill t ht with hc | hc
      · obtain ⟨x, hx, hkey⟩ := List.any_eq_true.mp hc
        have hsame : x.fillId = t.fillId := congrArg Prod.fst (of_decide_eq_true hkey)
        exact absurd (hsame.trans hid) (hfresh x hx)
      · intro x hx hkey
        refine List.any_eq_false.mp hc x hx (decide_eq_true ?_)
        rw [hkey, TradeRow.idKey, hsymbol, htime, htradeId]
    · rw [Db.held]
      cases hold : db.position c.order.accountId c.order.symbol with
      | none => simpa using fits_stored rt c
      | some old =>
          obtain ⟨q, hq⟩ := hposition hfill p old hp hold
          rw [← qty_eq_stored hp]
          exact (Numeric.add_eq_ok_iff.mp hq).1
  · rintro ⟨hstorable, hid, hrange⟩
    refine ⟨bindable_iff.mpr hstorable, fun _ t ht => ?_, fun _ p old hp hold => ?_⟩
    · obtain ⟨-, -, hsymbol, -, -, -, htime, htradeId⟩ := tradeRow_spec ht
      refine Or.inr (List.any_eq_false.mpr fun x hx hkey => hid x hx ?_)
      rw [of_decide_eq_true hkey, TradeRow.idKey, hsymbol, htime, htradeId]
    · refine ⟨_, Numeric.add_eq_ok_iff.mpr ⟨?_, rfl⟩⟩
      rw [Db.held, hold] at hrange
      rw [qty_eq_stored hp]
      exact hrange

/-! ### What a command moves -/

section Commands

open Router

variable {cfg : Router.Config} {env : Env} {order : OrderCommand} {i : ℕ}
  {reports : List ExecutionReport} {w : World}

/-- Since `w` some reports of the order were committed, and they moved its position together. -/
def Moved (rt : Runtime) (order : OrderCommand) (w w' : World) : Prop :=
  ∃ new, w'.committed = w.committed ++ new ∧ ∀ a s, w'.db.held a s = w.db.held a s +
    ((if (a, s) = (order.accountId, order.symbol) then (new.map (reportUnits rt order)).sum
      else 0 : ℤ) : Numeric)

theorem Moved.refl (w : World) : Moved rt order w w := ⟨[], by simp, by simp⟩

/-- **One committed report**, whatever is published. -/
theorem Moved.commit {w' : World} {report : ExecutionReport} {t : ℤ} (h : Moved rt order w w')
    (hok : persistExecution rt (cfg.call order report t) w'.db = .ok db)
    (published : List ExecutionReport) : Moved rt order w
      { w' with db, committed := w'.committed ++ [report], published } := by
  obtain ⟨new, hcommitted, hheld⟩ := h
  have hstep := held_persist hok
  simp only [moves_eq, Config.call] at hstep
  refine ⟨new ++ [report], by simp [hcommitted], fun a s => ?_⟩
  rw [hstep a s, hheld a s, add_assoc]
  congr 1
  split <;> simp

/-- Every position of the world is a number. -/
def Numbered (w : World) : Prop := ∀ a s, ∃ u : ℤ, w.db.held a s = u

/-- **At every moment of a command** its committed reports have moved its position together, and
nothing else has moved. -/
theorem moved_moments {inv : Invocation} {w' : World} (hw' : w' ∈ inv.moments rt w) :
    Moved rt inv.order w w' := by
  obtain ⟨hdb, hcommitted, -⟩ := emission_frame rt inv.cfg inv.env inv.client inv.order w
  simp only [Invocation.moments] at hw'
  rcases List.mem_cons.mp hw' with rfl | hw'
  · exact Moved.refl _
  · refine emitAllMoments_induction (fun report _ i w' db published h hok => h.commit hok published)
      ⟨[], by simp [hcommitted], by simp [hdb]⟩ hw'

/-- When a command has committed a report, the quantity of its order fits its column. -/
theorem fits_qty_moments {inv : Invocation} {w' : World} (hw' : w' ∈ inv.moments rt w)
    (hne : w'.committed ≠ w.committed) : FitsColumn rt inv.order.qty := by
  obtain ⟨-, hcommitted, -⟩ := emission_frame rt inv.cfg inv.env inv.client inv.order w
  simp only [Invocation.moments] at hw'
  rcases List.mem_cons.mp hw' with rfl | hw'
  · exact absurd rfl hne
  · refine (emitAllMoments_induction (P := fun w' => w'.committed = w.committed ∨
      FitsColumn rt inv.order.qty) ?_ (Or.inl hcommitted) hw').resolve_left hne
    intro report _ i w' db published _ hok
    have hbind := (persistExecution_isOk_iff.mp ⟨db, hok⟩).bindable
    exact Or.inr ((bindable_iff.mp hbind).numbers _ (by simp [callNumbers, Config.call]))

/-- **After every run of commands** each position is a number. -/
theorem Numbered.performAll (h : Numbered w) (invocations : List Invocation) :
    Numbered (performAll rt w invocations) := by
  induction invocations generalizing w with
  | nil => exact h
  | cons inv invocations ih =>
      refine ih fun a s => ?_
      obtain ⟨u, hu⟩ := h a s
      obtain ⟨new, -, hheld⟩ := moved_moments (inv.perform_mem_moments w)
      exact ⟨_, by rw [hheld a s, hu, ← WithTop.coe_add]⟩

end Commands

end HftPlatform
