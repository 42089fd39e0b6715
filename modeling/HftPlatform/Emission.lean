import HftPlatform.Router

/-!
# Persisting before publishing

Every branch of `handle_order` sends at most one order to the exchange and then emits a list of
reports: it persists a report, publishes it, and goes on to the next one. `emission` says which
world a branch emits from and which reports it emits, so that what holds of `emitAll` holds of
all branches at once.

## Main results

* `handleOrder_eq`: a command is handled by emitting the reports of its emission.
* `InLine.emitAll`: at every moment of an emission the published reports are the first ones of
  the committed reports, and at most one is missing.
* `persist_before_publish`: over every run, nothing is published that was not committed.
-/

namespace HftPlatform.Router

open Lib

section Emission

variable (rt : Runtime) (cfg : Config) (env : Env)

/-- The world from which `handle_order` emits its reports, and the reports. -/
def emission (client : Option BinanceRestClient) (order : OrderCommand) (w : World) :
    World × List ExecutionReport :=
  let reject (reason : String) := [buildReject (env.clock 0) order reason]
  if eqIgnoreAsciiCase cfg.executionMode "PAPER" then
    if order.action = OrderAction.cancel.code then (w, [buildCancel (env.clock 0) order])
    else (w, buildReports rt.fp env.clock order)
  else if toAsciiUppercase (trim cfg.exchange) = "BINANCE" then
    if client.isNone then (w, reject "BINANCE_CLIENT_NOT_CONFIGURED")
    else if order.type ≠ OrderType.market.code then (w, reject "REAL_BINANCE_ONLY_SUPPORTS_MARKET")
    else match placeOrder rt env order w with
      | (w, .ok ack) => (w, [buildExchangeAck (env.clock 0) order ack])
      | (w, .error e) => (w, reject ("BINANCE_ERROR:" ++ e))
  else if toAsciiUppercase (trim cfg.exchange) = "OKX" then (w, reject "OKX_NOT_IMPLEMENTED")
  else (w, reject "UNSUPPORTED_EXCHANGE")

/-- The worlds that an emission passes through, one after each request. -/
def emitAllMoments (i : ℕ) (order : OrderCommand) :
    List ExecutionReport → World → List World
  | [], _ => []
  | report :: reports, w =>
      match persist rt cfg env i order report w with
      | (w₁, .error _) => [w₁]
      | (w₁, .ok ()) =>
          match publishReport env i report w₁ with
          | (w₂, .error _) => [w₁, w₂]
          | (w₂, .ok ()) => w₁ :: w₂ :: emitAllMoments (i + 1) order reports w₂

end Emission

variable {rt : Runtime} {cfg : Config} {env : Env} {client : Option BinanceRestClient}
  {order : OrderCommand} {report : ExecutionReport} {reports : List ExecutionReport}
  {i : ℕ} {w w₀ w' : World}

/-- **A command is handled** by emitting the reports of its emission. -/
theorem handleOrder_eq : handleOrder rt cfg env client order w =
    emitAll rt cfg env 0 order (emission rt cfg env client order w).2
      (emission rt cfg env client order w).1 := by
  rw [handleOrder, emission]
  split
  · split <;> rfl
  · simp only
    split
    · split
      · rfl
      · split
        · rfl
        · cases hack : orderAck rt env.exchange <;> simp only [placeOrder, hack]
    · split <;> rfl

/-- Before its first report a command leaves the database and the logs alone. -/
theorem emission_frame (rt : Runtime) (cfg : Config) (env : Env)
    (client : Option BinanceRestClient) (order : OrderCommand) (w : World) :
    (emission rt cfg env client order w).1.db = w.db ∧
    (emission rt cfg env client order w).1.committed = w.committed ∧
    (emission rt cfg env client order w).1.published = w.published := by
  rw [emission]
  split
  · split <;> exact ⟨rfl, rfl, rfl⟩
  · split
    · split
      · exact ⟨rfl, rfl, rfl⟩
      · split
        · exact ⟨rfl, rfl, rfl⟩
        · cases hack : orderAck rt env.exchange <;> simp [placeOrder, hack]
    · split <;> exact ⟨rfl, rfl, rfl⟩

/-- The last moment of an emission is the world that it ends in. -/
theorem getLast_emitAllMoments :
    (w :: emitAllMoments rt cfg env i order reports w).getLast (by simp) =
      (emitAll rt cfg env i order reports w).1 := by
  induction reports generalizing i w with
  | nil => rfl
  | cons report reports ih =>
      rw [emitAll, emit, emitAllMoments]
      cases hpersist : persist rt cfg env i order report w with
      | mk w₁ r =>
          cases r with
          | error e => rfl
          | ok u =>
              cases hpublish : publishReport env i report w₁ with
              | mk w₂ r =>
                  cases r with
                  | error e => simp only [hpublish, List.getLast_cons_cons, List.getLast_singleton]
                  | ok u =>
                      simp only [hpublish, List.getLast_cons_cons]
                      exact ih

/-- **The induction rule of the moments of an emission**: what every committed report preserves of
the world, whatever is published, holds at each of them. -/
theorem emitAllMoments_induction {P : World → Prop}
    (h : ∀ report ∈ reports, ∀ i w db published, P w →
      DbWriter.persistExecution rt (cfg.call order report (env.txTime i)) w.db = .ok db →
        P { w with db, committed := w.committed ++ [report], published })
    (hw : P w) (hw' : w' ∈ w :: emitAllMoments rt cfg env i order reports w) : P w' := by
  induction reports generalizing i w with
  | nil =>
      obtain rfl := List.mem_singleton.mp hw'
      exact hw
  | cons report reports ih =>
      rcases List.mem_cons.mp hw' with rfl | hw'
      · exact hw
      rw [emitAllMoments] at hw'
      rcases persist_cases rt cfg env i order report w with ⟨e, he⟩ | ⟨db, r, hok, he⟩
      · simp only [he, List.mem_singleton] at hw'
        exact hw' ▸ hw
      · have hcommitted := fun published => h report List.mem_cons_self i w db published hw hok
        rw [he] at hw'
        cases r with
        | error e =>
            obtain rfl := List.mem_singleton.mp hw'
            exact hcommitted w.published
        | ok u =>
            have hpublished : P (publishReport env i report
                { w with db, committed := w.committed ++ [report] }).1 := by
              rcases publishReport_fst env i report
                { w with db, committed := w.committed ++ [report] } with h | h
              · rw [h]
                exact hcommitted w.published
              · rw [h]
                exact hcommitted _
            cases hpublish : publishReport env i report
                { w with db, committed := w.committed ++ [report] } with
            | mk w₂ r =>
                rw [hpublish] at hpublished
                simp only [hpublish] at hw'
                cases r with
                | error e =>
                    simp only [List.mem_cons, List.not_mem_nil, or_false] at hw'
                    rcases hw' with rfl | rfl
                    · exact hcommitted w.published
                    · exact hpublished
                | ok u =>
                    rcases List.mem_cons.mp hw' with rfl | hw'
                    · exact hcommitted w.published
                    · exact ih (fun r hr => h r (List.mem_cons_of_mem _ hr)) hpublished hw'

/-! ### The committed and the published reports -/

/-- Every report published was committed. -/
def Backed (w : World) : Prop := ∀ report ∈ w.published, report ∈ w.committed

/-- Since `w₀` the same reports were committed and published. -/
def Level (w₀ w : World) : Prop :=
  ∃ new, w.committed = w₀.committed ++ new ∧ w.published = w₀.published ++ new

/-- Since `w₀` the published reports are the first ones of the committed reports, in the same
order, and at most one is missing. -/
def InLine (w₀ w : World) : Prop :=
  ∃ committed published, w.committed = w₀.committed ++ committed ∧
    w.published = w₀.published ++ published ∧ published <+: committed ∧
      committed.length ≤ published.length + 1

theorem Level.refl (w : World) : Level w w := ⟨[], by simp, by simp⟩

/-- The same reports are in line. -/
theorem Level.inLine (h : Level w₀ w) : InLine w₀ w := by
  obtain ⟨new, hcommitted, hpublished⟩ := h
  exact ⟨new, new, hcommitted, hpublished, List.prefix_refl _, Nat.le_succ _⟩

/-- Where the logs are in line, what is published is still backed. -/
theorem InLine.backed (h : InLine w₀ w) (h₀ : Backed w₀) : Backed w := by
  obtain ⟨committed, published, hcommitted, hpublished, hpre, -⟩ := h
  intro report hreport
  rw [hpublished, List.mem_append] at hreport
  rw [hcommitted, List.mem_append]
  exact hreport.imp (h₀ report) fun hr => hpre.subset hr

/-- A transaction that fails leaves level logs in line. -/
theorem Level.persist (h : Level w₀ w) (rt : Runtime) (cfg : Config) (env : Env) (i : ℕ)
    (order : OrderCommand) (report : ExecutionReport) :
    InLine w₀ (persist rt cfg env i order report w).1 := by
  rcases persist_cases rt cfg env i order report w with ⟨e, he⟩ | ⟨db, r, -, he⟩
  · rw [he]
    exact h.inLine
  · obtain ⟨new, hcommitted, hpublished⟩ := h
    rw [he]
    exact ⟨new ++ [report], new, by simp [hcommitted], hpublished, List.prefix_append _ _,
      by simp⟩

/-- A report that is persisted and then published keeps the logs level; when the broker fails
it keeps them in line. -/
theorem Level.publish (h : Level w₀ w) {w₁ w₂ : World} {r : Except HandleError Unit}
    (hpersist : Router.persist rt cfg env i order report w = (w₁, .ok ()))
    (hpublish : publishReport env i report w₁ = (w₂, r)) :
    InLine w₀ w₂ ∧ (r = .ok () → Level w₀ w₂) := by
  obtain ⟨new, hcommitted, hpublished⟩ := h
  have hw₁ : w₁.committed = w₀.committed ++ (new ++ [report]) ∧
      w₁.published = w₀.published ++ new := by
    rcases persist_cases rt cfg env i order report w with ⟨e, he⟩ | ⟨db, r', -, he⟩
    · simp [he] at hpersist
    · obtain rfl : _ = w₁ := congrArg Prod.fst (he.symm.trans hpersist)
      exact ⟨by simp [hcommitted], hpublished⟩
  have hmissing : InLine w₀ w₁ :=
    ⟨_, new, hw₁.1, hw₁.2, List.prefix_append _ _, by simp⟩
  have hboth : Level w₀ { w₁ with published := w₁.published ++ [report] } :=
    ⟨new ++ [report], hw₁.1, by simp [hw₁.2]⟩
  rw [publishReport] at hpublish
  cases hlink : env.broker i with
  | up =>
      obtain ⟨rfl, -⟩ := Prod.mk.inj (by simpa only [hlink] using hpublish)
      exact ⟨hboth.inLine, fun _ => hboth⟩
  | down =>
      obtain ⟨rfl, rfl⟩ := Prod.mk.inj (by simpa only [hlink] using hpublish)
      exact ⟨hmissing, fun hr => by simp at hr⟩
  | lost =>
      obtain ⟨rfl, -⟩ := Prod.mk.inj (by simpa only [hlink] using hpublish)
      exact ⟨hboth.inLine, fun _ => hboth⟩

/-- **At every moment of an emission** that starts with level logs, the logs are in line. -/
theorem Level.emitAllMoments (h : Level w₀ w)
    (hw' : w' ∈ emitAllMoments rt cfg env i order reports w) : InLine w₀ w' := by
  induction reports generalizing i w with
  | nil => simp [Router.emitAllMoments] at hw'
  | cons report reports ih =>
      have hpersisted := h.persist rt cfg env i order report
      rw [Router.emitAllMoments] at hw'
      cases hpersist : Router.persist rt cfg env i order report w with
      | mk w₁ r =>
          rw [hpersist] at hw' hpersisted
          cases r with
          | error e =>
              obtain rfl := List.mem_singleton.mp hw'
              exact hpersisted
          | ok u =>
              cases hpublish : publishReport env i report w₁ with
              | mk w₂ r =>
                  obtain ⟨hline, hlevel⟩ := h.publish hpersist hpublish
                  simp only [hpublish] at hw'
                  cases r with
                  | error e =>
                      simp only [List.mem_cons, List.not_mem_nil, or_false] at hw'
                      rcases hw' with rfl | rfl
                      · exact hpersisted
                      · exact hline
                  | ok u =>
                      simp only [List.mem_cons] at hw'
                      rcases hw' with rfl | rfl | hw'
                      · exact hpersisted
                      · exact hline
                      · exact ih (hlevel rfl) hw'

/-! ### Runs of commands -/

/-- A command handed to `handle_order`, with the configuration and the client of its router and
what happens around it. -/
structure Invocation where
  cfg : Config
  client : Option BinanceRestClient
  env : Env
  order : OrderCommand

/-- The world after a command. -/
def Invocation.perform (rt : Runtime) (inv : Invocation) (w : World) : World :=
  (handleOrder rt inv.cfg inv.env inv.client inv.order w).1

/-- The worlds that a command passes through: the one it finds, the one after its request to
the exchange, and those of its emission. -/
def Invocation.moments (rt : Runtime) (inv : Invocation) (w : World) : List World :=
  let (w₁, reports) := emission rt inv.cfg inv.env inv.client inv.order w
  w :: w₁ :: emitAllMoments rt inv.cfg inv.env 0 inv.order reports w₁

/-- The world after a list of commands, handled one after another. -/
def performAll (rt : Runtime) (w : World) (invocations : List Invocation) : World :=
  invocations.foldl (fun w inv => inv.perform rt w) w

/-- The last moment of a command is the world after it. -/
theorem Invocation.perform_mem_moments (inv : Invocation) (w : World) :
    inv.perform rt w ∈ inv.moments rt w := by
  rw [Invocation.perform, handleOrder_eq, ← getLast_emitAllMoments, Invocation.moments]
  exact List.mem_cons_of_mem _ (List.getLast_mem _)

/-- The reports that a command commits are those of its emission. -/
theorem Invocation.committed_moments {inv : Invocation} (hw' : w' ∈ inv.moments rt w) :
    ∃ new, w'.committed = w.committed ++ new ∧
      ∀ report ∈ new, report ∈ (emission rt inv.cfg inv.env inv.client inv.order w).2 := by
  obtain ⟨-, hcommitted, -⟩ := emission_frame rt inv.cfg inv.env inv.client inv.order w
  simp only [Invocation.moments] at hw'
  rcases List.mem_cons.mp hw' with rfl | hw'
  · exact ⟨[], by simp, by simp⟩
  · refine emitAllMoments_induction (P := fun w' => ∃ new, w'.committed = w.committed ++ new ∧
      ∀ report ∈ new, report ∈ (emission rt inv.cfg inv.env inv.client inv.order w).2) ?_
      ⟨[], by simp [hcommitted], by simp⟩ hw'
    rintro report hreport i w' db published ⟨new, hnew, hmem⟩ hok
    refine ⟨new ++ [report], by simp [hnew], ?_⟩
    rw [List.forall_mem_append, List.forall_mem_singleton]
    exact ⟨hmem, hreport⟩

/-- **One command** keeps the logs in line at every moment. -/
theorem Invocation.inLine {inv : Invocation} (hw' : w' ∈ inv.moments rt w) : InLine w w' := by
  obtain ⟨-, hcommitted, hpublished⟩ := emission_frame rt inv.cfg inv.env inv.client
    inv.order w
  have hlevel : Level w (emission rt inv.cfg inv.env inv.client inv.order w).1 :=
    ⟨[], by simp [hcommitted], by simp [hpublished]⟩
  simp only [Invocation.moments, List.mem_cons] at hw'
  rcases hw' with rfl | rfl | hw'
  · exact (Level.refl _).inLine
  · exact hlevel.inLine
  · exact hlevel.emitAllMoments hw'

/-- **A run of commands** keeps what is published backed. -/
theorem Backed.performAll (h : Backed w₀) (invocations : List Invocation) :
    Backed (performAll rt w₀ invocations) := by
  induction invocations generalizing w₀ with
  | nil => exact h
  | cons inv invocations ih =>
      exact ih ((Invocation.inLine (inv.perform_mem_moments w₀)).backed h)

/-- **Persist before publish.** In every run of commands, over any modes and exchanges and with
any failures of the database and the broker, at every moment of every command: each published
report is committed, and since the command began the published reports are the first ones of the
committed reports, in the same order, with at most one missing. -/
theorem persist_before_publish (rt : Runtime) (w₀ : World) (h₀ : Backed w₀)
    (invocations : List Invocation) (inv : Invocation) (w : World)
    (hw : w ∈ inv.moments rt (performAll rt w₀ invocations)) :
    Backed w ∧ InLine (performAll rt w₀ invocations) w :=
  have hline := Invocation.inLine hw
  ⟨hline.backed (h₀.performAll invocations), hline⟩

/-- A BUY in PAPER mode whose second report the broker refuses. -/
def refusedInvocation : Invocation where
  cfg := Config.paper
  client := none
  env := Env.sample (fun _ => .up) fun i => if i = 1 then .down else .up
  order := OrderCommand.sample "018f3c2e-0000-7000-8000-00000000000a" 1 1 2 1 60000

/-- Two of its reports are committed, and one of them is published. -/
theorem persist_before_publish_refused :
    Backed (refusedInvocation.perform Runtime.reference {}) ∧
      InLine {} (refusedInvocation.perform Runtime.reference {}) ∧
      (refusedInvocation.perform Runtime.reference {}).committed.length = 2 ∧
      (refusedInvocation.perform Runtime.reference {}).published.length = 1 := by
  obtain ⟨hbacked, hline⟩ := persist_before_publish Runtime.reference {} (by simp [Backed]) []
    refusedInvocation _ (refusedInvocation.perform_mem_moments {})
  exact ⟨hbacked, hline, by decide +kernel⟩

end HftPlatform.Router
