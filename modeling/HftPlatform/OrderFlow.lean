import HftPlatform.PaperOrder
import HftPlatform.Repos

/-!
# One approved order and three consumers

The router, the paper trader and the order executor run side by side. The router and the paper
trader both read the topic of approved orders, and both publish fills of the same order; the
order executor books every fill that it reads, those included that the router has booked itself.
The router and the order executor issue statements of their own for `positions`, on tables with
the columns and keys that these name, so the recorded position of an account is what both hold.

The router takes one request after another, and the others may run in between. Commands and
reports travel on topics of their own.

## Main results

* `held_booked`: what a fill that the order executor commits does to the position.
* `step_spec`: what one step can do to the topics and to the tables of the order executor.
* `movedOnce_iff`: when an approved order moves the position once.
-/

namespace HftPlatform

open Lib Router

/-! ### What the order executor books -/

namespace OrderExecutor

/-- The quantity that an account holds in a symbol; nothing when there is no position. -/
def Db.held (db : Db) (accountId symbol : String) : Numeric :=
  ((db.position accountId symbol).map PositionRow.qty).getD 0

/-- The direction in which the order executor counts a report. -/
def direction (report : ExecutionReport) : ℤ := if report.side = 1 then 1 else -1

variable {rt : Runtime} {d : Delivery} {report : ExecutionReport} {db db' : Db}

/-- A report that is no fill leaves the positions alone. -/
theorem positions_of_not_fill (hfill : isFillLike report = false)
    (h : persistReport rt d report db = .ok db') : db'.positions = db.positions := by
  simp only [persistReport, hfill, upsertOrder, insertOrderEvent, bind_eq_ok_iff, pure_eq_ok_iff,
    Bool.false_eq_true, if_false] at h
  obtain ⟨-, ⟨row, -, orders, -, rfl⟩, -, ⟨ev, -, rfl⟩, rfl⟩ := h
  rfl

/-- The signed quantity of a report, in exact arithmetic. -/
theorem qtyDelta_exact (h : ExactArithmetic rt) {x : ℚ} (hx : report.lastFilledQty = .fin x) :
    qtyDelta rt report = .fin (direction report * x) := by
  rw [qtyDelta, direction, hx, h.fp]
  split <;> simp [Rounding.mul, Rounding.lit, Rounding.exact]

/-- The new quantity of a position is the sum of the stored one and of the signed quantity. -/
theorem qty_of_positionAfter {qty : Numeric} {avgPrice : Option Numeric}
    {new : Numeric × Option Numeric} (h : positionAfter rt report qty avgPrice = .ok new) :
    ∃ sum, qtySum rt report qty = .ok sum ∧ numeric20 rt sum = .ok new.1 := by
  simp only [positionAfter, bind_eq_ok_iff] at h
  obtain ⟨sum, hsum, q, hq, weighted, -, h⟩ := h
  split at h
  all_goals
    obtain ⟨average, -, h⟩ := bind_eq_ok_iff.mp h
    obtain rfl : (q, average) = new := pure_eq_ok_iff.mp h
    exact ⟨sum, hsum, hq⟩

/-- **A fill that the order executor commits** adds its signed quantity to the position, in exact
arithmetic, and rounds the sum to units. -/
theorem held_booked (hexact : ExactArithmetic rt) (hfill : isFillLike report = true)
    (h : persistReport rt d report db = .ok db') {x : ℚ} (hx : report.lastFilledQty = .fin x)
    {u : ℤ} (hu : db.held report.accountId report.symbol = u) :
    db'.held report.accountId report.symbol =
      (Numeric.halfAway (u + direction report * (x * 10 ^ 8)) : ℤ) := by
  have hdelta := qtyDelta_exact hexact hx
  obtain ⟨-, p, hp, hupsert⟩ := fillEffect_of_ok hfill h
  obtain ⟨hkey, hqty, -, -⟩ := positionRow_spec hp
  obtain ⟨r, hr, hcases⟩ := lookup_upsert_self (fun _ _ hm => key_of_mergePosition hm) hupsert
  rw [hkey] at hr hcases
  rw [Db.held, Db.position, hr, Option.map_some, Option.getD_some]
  rw [Db.held, Db.position] at hu
  rw [hdelta, numeric20_fin hexact] at hqty
  rcases hcases with ⟨hnone, rfl⟩ | ⟨old, hold, hm⟩
  · rw [hnone] at hu
    obtain rfl : (0 : ℤ) = u := WithTop.coe_inj.mp hu
    have hsum : direction report * x * 10 ^ 8 = (0 : ℤ) + direction report * (x * 10 ^ 8) := by
      push_cast
      ring
    rw [(Numeric.checked_eq_ok_iff.mp hqty).2, hsum]
  · rw [hold, Option.map_some, Option.getD_some] at hu
    obtain ⟨new, hnew, rfl⟩ := mergePosition_ok_iff.mp hm
    obtain ⟨sum, hsum, hq⟩ := qty_of_positionAfter hnew
    have hsum' : sum = .fin (u / 10 ^ 8 + direction report * x) := by
      rw [qtySum, hu, hdelta, hexact.fp] at hsum
      simpa [Float8.add, Float8.isInf, Numeric.toFloat8, Rounding.add, Rounding.exact]
        using hsum.symm
    have hunits : (u / 10 ^ 8 + direction report * x) * 10 ^ 8 =
        u + direction report * (x * 10 ^ 8) := by
      rw [add_mul, div_mul_cancel₀ _ (by norm_num), mul_assoc]
    rw [hsum', numeric20_fin hexact, hunits] at hq
    exact (Numeric.checked_eq_ok_iff.mp hq).2

end OrderExecutor

/-! ### The processes -/

/-- An approved order, the environment of the processes that meet it, and what happens around the
router. -/
structure Flow where
  rt : Runtime
  environment : Environment
  readFile : String → Option String
  env : Router.Env
  order : OrderCommand

namespace Flow

/-- A turn of one of the processes. The router goes on by one request; the paper trader reads the
order and publishes its fill; the order executor reads the next entry of its topic. -/
inductive Action
  | router
  | paperTrader (broker : Link) (uuid : Uuid) (nowNs : ℤ)
  | orderExecutor (database : Link) (delivery : OrderExecutor.Delivery)

/-- The topics of reports, the world of the router and those that it has yet to pass through,
whether the paper trader has read the order, how many entries of its topic the order executor has
read, and its tables. -/
structure State where
  log : List (String × ExecutionReport)
  world : World
  upcoming : List World
  traded : Bool
  read : ℕ
  executor : OrderExecutor.Db

variable (f : Flow)

/-- The topic to which the risk guard forwards approved orders. -/
def topicOrdersApproved : String :=
  (f.environment "KAFKA_TOPIC_ORDERS_APPROVED").getD "TOPIC_ORDERS_APPROVED"

/-- The worlds that the router passes through for the order, when it starts and reads the topic of
approved orders. -/
def routerMoments (w : World) : List World :=
  match Router.Config.fromEnv f.environment f.readFile with
  | .ok cfg =>
      if cfg.kafkaTopicOrderCommands = f.topicOrdersApproved then
        Invocation.moments f.rt ⟨cfg, buildBinanceClient cfg, f.env, f.order⟩ w
      else [w]
  | .error _ => [w]

/-- The order is approved, and no process has read it yet. -/
def init (w : World) (db : OrderExecutor.Db) : State where
  log := []
  world := w
  upcoming := (f.routerMoments w).tail
  traded := false
  read := 0
  executor := db

/-- The next report that the order executor reads. -/
def next (s : State) : Option ExecutionReport :=
  ((s.log.filter fun e =>
    e.1 = (OrderExecutor.Config.fromEnv f.environment).kafkaTopicFills)[s.read]?).map Prod.snd

def step (s : State) : Action → State
  | .router =>
      match s.upcoming with
      | [] => s
      | world :: upcoming =>
          let new := world.published.drop s.world.published.length
          { s with
            world, upcoming
            log := s.log ++ new.map (Prod.mk (Router.topicExecutionReports f.environment)) }
  | .paperTrader broker uuid nowNs =>
      let cfg := PaperTrader.Config.fromEnv f.environment
      if s.traded = true ∨ cfg.kafkaTopicOrdersApproved ≠ f.topicOrdersApproved then s
      else
        let new := PaperTrader.step f.rt broker uuid nowNs f.order []
        { s with traded := true, log := s.log ++ new.map (Prod.mk cfg.kafkaTopicFills) }
  | .orderExecutor database delivery =>
      match f.next s with
      | none => s
      | some report =>
          match database, OrderExecutor.persistReport f.rt delivery report s.executor with
          | .down, _ | _, .error _ => { s with read := s.read + 1 }
          | _, .ok executor => { s with read := s.read + 1, executor }

/-- The state after a list of steps, in any order. -/
def run (s : State) (actions : List Action) : State := actions.foldl f.step s

/-- The order executor reads a fill that its database, which can be reached, accepts. -/
def Books (s : State) : Action → Prop
  | .orderExecutor database delivery => database ≠ .down ∧ ∃ report, f.next s = some report ∧
      isFillLike report = true ∧ OrderExecutor.Accepted f.rt delivery report s.executor
  | _ => False

/-- In the course of a run the order executor books no fill. -/
def BooksNone (s : State) (actions : List Action) : Prop :=
  ∀ pre a post, actions = pre ++ a :: post → ¬ f.Books (f.run s pre) a

/-- The recorded position of the account of the order, over both sets of tables. -/
def net (s : State) : Numeric :=
  s.world.db.held f.order.accountId f.order.symbol +
    s.executor.held f.order.accountId f.order.symbol

/-- **The order moved the position once**: by its signed quantity exactly. -/
def MovedOnce (s s' : State) : Prop := ∃ (q : ℚ) (b a : ℤ), f.order.qty = .fin q ∧
  f.net s = b ∧ f.net s' = a ∧ ((a - b : ℤ) : ℚ) / 10 ^ 8 = direction f.order * q

variable {f} {s s₀ : State} {a : Action} {actions pre : List Action} {w : World}
  {db : OrderExecutor.Db}

/-! ### One step -/

/-- The reports of the order that the router simulates, and those of the paper trader. -/
def Reports (f : Flow) (report : ExecutionReport) : Prop :=
  report ∈ buildReports f.rt.fp f.env.clock f.order ∨
    ∃ uuid nowNs, report = PaperTrader.fillReport f.rt uuid nowNs f.order

/-- The next report of the order executor is on the topics. -/
theorem mem_log_of_next {report : ExecutionReport} (h : f.next s = some report) :
    ∃ topic, (topic, report) ∈ s.log := by
  obtain ⟨⟨topic, report'⟩, hentry, rfl⟩ := Option.map_eq_some_iff.mp h
  exact ⟨topic, (List.mem_filter.mp (List.mem_of_getElem? hentry)).1⟩

/-- **What one step does to the tables of the order executor**: either it books a fill, and commits
one of the reports on the topics, or the positions stay as they are. -/
theorem executor_step (f : Flow) (s : State) (a : Action) :
    (f.Books s a ∧ ∃ topic report delivery, (topic, report) ∈ s.log ∧ isFillLike report = true ∧
        OrderExecutor.persistReport f.rt delivery report s.executor = .ok (f.step s a).executor) ∨
      ¬ f.Books s a ∧ (f.step s a).executor.positions = s.executor.positions := by
  cases a with
  | router =>
      refine Or.inr ⟨id, ?_⟩
      rw [step]
      split <;> rfl
  | paperTrader broker uuid nowNs =>
      refine Or.inr ⟨id, ?_⟩
      simp only [step]
      split <;> rfl
  | orderExecutor database delivery =>
      cases hnext : f.next s with
      | none => exact Or.inr ⟨by simp [Books, hnext], by simp [step, hnext]⟩
      | some report =>
          obtain ⟨topic, hmem⟩ := mem_log_of_next hnext
          cases hok : OrderExecutor.persistReport f.rt delivery report s.executor with
          | error e =>
              have hrefused : ¬ OrderExecutor.Accepted f.rt delivery report s.executor := by
                intro h
                obtain ⟨db', hdb'⟩ := OrderExecutor.persistReport_isOk_iff.mpr h
                simp [hok] at hdb'
              refine Or.inr ⟨by simp [Books, hnext, hrefused], ?_⟩
              cases database <;> simp [step, hnext, hok]
          | ok executor =>
              have haccepted : OrderExecutor.Accepted f.rt delivery report s.executor :=
                OrderExecutor.persistReport_isOk_iff.mp ⟨_, hok⟩
              by_cases hdown : database = .down
              · exact Or.inr ⟨by simp [Books, hdown], by simp [step, hnext, hdown]⟩
              have hstep : (f.step s (.orderExecutor database delivery)).executor = executor := by
                cases database <;> simp_all [step]
              rw [hstep]
              cases hfill : isFillLike report with
              | true => exact Or.inl ⟨⟨hdown, report, hnext, hfill, haccepted⟩,
                  topic, report, delivery, hmem, hfill, hok⟩
              | false =>
                  refine Or.inr ⟨?_, OrderExecutor.positions_of_not_fill hfill hok⟩
                  rintro ⟨-, r, hr, hlike, -⟩
                  obtain rfl : r = report := Option.some.inj (hr.symm.trans hnext)
                  simp [hfill] at hlike

/-- **The router passes through the worlds of its command**, and every report on the topics is one
of the order. -/
structure Within (f : Flow) (w : World) (s : State) : Prop where
  moments : ∃ past, f.routerMoments w = past ++ s.world :: s.upcoming
  reports : ∀ e ∈ s.log, f.Reports e.2

/-- The order is a CREATE of a positive quantity, and the router runs in PAPER mode. -/
structure Approved (f : Flow) : Prop where
  action : f.order.action = OrderAction.create.code
  pos : f.order.qty.gt .zero = true
  paper : ∀ cfg, Router.Config.fromEnv f.environment f.readFile = .ok cfg →
    eqIgnoreAsciiCase cfg.executionMode "PAPER" = true

/-- The router starts in the world that it finds. -/
theorem routerMoments_eq_cons (f : Flow) (w : World) :
    f.routerMoments w = w :: (f.routerMoments w).tail := by
  rw [routerMoments]
  split
  · split <;> rfl
  · rfl

/-- A world of the router is the one it finds, or a moment of its command. -/
theorem mem_routerMoments {m : World} (hm : m ∈ f.routerMoments w) : m = w ∨
    ∃ cfg, Router.Config.fromEnv f.environment f.readFile = .ok cfg ∧
      m ∈ Invocation.moments f.rt ⟨cfg, buildBinanceClient cfg, f.env, f.order⟩ w := by
  rw [routerMoments] at hm
  split at hm
  · rename_i cfg hcfg
    split at hm
    · exact Or.inr ⟨cfg, hcfg, hm⟩
    · exact Or.inl (List.mem_singleton.mp hm)
  · exact Or.inl (List.mem_singleton.mp hm)

/-- In a world of the router, what was published since the start is simulated for the order. -/
theorem published_routerMoments (h : Approved f) {m : World} (hm : m ∈ f.routerMoments w) :
    ∃ new, m.published = w.published ++ new ∧
      ∀ report ∈ new, report ∈ buildReports f.rt.fp f.env.clock f.order := by
  rcases mem_routerMoments hm with rfl | ⟨cfg, hcfg, hm⟩
  · exact ⟨[], by simp, by simp⟩
  · obtain ⟨committed, published, hcommitted, hpublished, hpre, -⟩ := Invocation.inLine hm
    obtain ⟨new, hnew, hmem⟩ := Invocation.committed_moments hm
    obtain rfl : committed = new := List.append_cancel_left (hcommitted.symm.trans hnew)
    refine ⟨published, hpublished, fun report hreport => ?_⟩
    have hemitted := hmem report (hpre.subset hreport)
    rwa [emission, if_pos (h.paper cfg hcfg), if_neg (by rw [h.action]; decide)] at hemitted

theorem within_init (f : Flow) (w : World) (db : OrderExecutor.Db) : Within f w (f.init w db) :=
  ⟨⟨[], routerMoments_eq_cons f w⟩, by simp [init]⟩

/-- **One step** stays within the command. -/
theorem Within.step (h : Within f w s) (happroved : Approved f) (a : Action) :
    Within f w (f.step s a) := by
  obtain ⟨⟨past, hpast⟩, hreports⟩ := h
  cases a with
  | router =>
      cases hupcoming : s.upcoming with
      | nil =>
          simp only [Flow.step, hupcoming]
          exact ⟨⟨past, hpast⟩, hreports⟩
      | cons m upcoming =>
          rw [hupcoming] at hpast
          have hbefore : s.world ∈ f.routerMoments w := by simp [hpast]
          have hafter : m ∈ f.routerMoments w := by simp [hpast]
          obtain ⟨old, hold, -⟩ := published_routerMoments happroved hbefore
          obtain ⟨new, hnew, hmem⟩ := published_routerMoments happroved hafter
          simp only [Flow.step, hupcoming]
          refine ⟨⟨past ++ [s.world], by simp [hpast]⟩, ?_⟩
          rw [List.forall_mem_append]
          refine ⟨hreports, fun e he => ?_⟩
          obtain ⟨report, hreport, rfl⟩ := List.mem_map.mp he
          -- What is dropped includes all that was published before the command.
          rw [hold, hnew, List.length_append, List.drop_append, List.drop_eq_nil_of_le (by omega),
            List.nil_append] at hreport
          exact Or.inl (hmem report (List.mem_of_mem_drop hreport))
  | paperTrader broker uuid nowNs =>
      simp only [Flow.step]
      split
      · exact ⟨⟨past, hpast⟩, hreports⟩
      · refine ⟨⟨past, hpast⟩, ?_⟩
        rw [List.forall_mem_append]
        refine ⟨hreports, fun e he => ?_⟩
        obtain ⟨report, hreport, rfl⟩ := List.mem_map.mp he
        refine Or.inr ⟨uuid, nowNs, ?_⟩
        cases broker with
        | down => simp [PaperTrader.step] at hreport
        | up | lost => simpa [PaperTrader.step] using hreport
  | orderExecutor database delivery =>
      simp only [Flow.step]
      split
      · exact ⟨⟨past, hpast⟩, hreports⟩
      · split <;> exact ⟨⟨past, hpast⟩, hreports⟩

/-! ### Runs -/

theorem run_concat (f : Flow) (s : State) (pre : List Action) (a : Action) :
    f.run s (pre ++ [a]) = f.step (f.run s pre) a := by
  simp [run]

/-- A run stays within the command. -/
theorem within_run (happroved : Approved f) (w : World) (db : OrderExecutor.Db)
    (actions : List Action) : Within f w (f.run (f.init w db) actions) := by
  induction actions using List.reverseRecOn with
  | nil => exact within_init f w db
  | append_singleton pre a ih =>
      rw [run_concat]
      exact ih.step happroved a

/-- The order executor books no fill in a run exactly when it books none before the last step and
none there. -/
theorem booksNone_concat : f.BooksNone s (pre ++ [a]) ↔
    f.BooksNone s pre ∧ ¬ f.Books (f.run s pre) a := by
  constructor
  · intro h
    refine ⟨fun pre' b post hpre => ?_, h pre a [] rfl⟩
    exact h pre' b (post ++ [a]) (by simp [hpre])
  · rintro ⟨hpre, hlast⟩ pre' b post hsplit
    rcases List.eq_nil_or_concat post with rfl | ⟨post, c, rfl⟩
    · obtain ⟨rfl, hab⟩ := List.append_inj' hsplit rfl
      rwa [← List.singleton_inj.mp hab]
    · refine hpre pre' b post ?_
      rw [List.concat_eq_append, ← List.cons_append, ← List.append_assoc] at hsplit
      exact (List.append_inj' hsplit rfl).1

/-- Where the order executor books no fill, its positions stay. -/
theorem positions_of_booksNone (h : f.BooksNone s actions) :
    (f.run s actions).executor.positions = s.executor.positions := by
  induction actions using List.reverseRecOn with
  | nil => rfl
  | append_singleton pre a ih =>
      obtain ⟨hpre, hlast⟩ := booksNone_concat.mp h
      rw [run_concat]
      rcases executor_step f (f.run s pre) a with ⟨hbooks, -⟩ | ⟨-, hpositions⟩
      · exact absurd hbooks hlast
      · exact hpositions.trans (ih hpre)

/-- The quantity of the order is a whole number of units of its column. -/
def WholeUnits (f : Flow) : Prop := ∃ n : ℤ, f.order.qty = .fin (n / 10 ^ 8)

/-- The legs that the router stores add up to the quantity of the order. -/
def StoresQty (f : Flow) : Prop :=
  ∃ q : ℚ, f.order.qty = .fin q ∧ (legUnits f.rt f.order : ℚ) / 10 ^ 8 = q

/-- Every fill on the topics is of the position of the order, and of at least one unit. -/
theorem Reports.unit {report : ExecutionReport} {n : ℤ} (h : f.Reports report)
    (hexact : ExactArithmetic f.rt) (hn : 0 < n) (hqty : f.order.qty = .fin (n / 10 ^ 8))
    (hfill : isFillLike report = true) :
    ∃ x : ℚ, report.lastFilledQty = .fin x ∧ 1 ≤ x * 10 ^ 8 ∧
      report.accountId = f.order.accountId ∧ report.symbol = f.order.symbol ∧
      OrderExecutor.direction report = direction f.order := by
  have hwhole : (1 : ℚ) ≤ n / 10 ^ 8 * 10 ^ 8 := by
    rw [div_mul_cancel₀ _ (by norm_num)]
    exact_mod_cast hn
  have hack : ∀ t, isFillLike (buildAck t f.order) = false := fun _ => rfl
  rcases h with h | ⟨uuid, nowNs, rfl⟩
  · rcases buildReports_exact hexact f.env.clock hn hqty with ⟨x, hx, hx', -, hreports⟩ | hreports
    · rw [hreports] at h
      simp only [List.mem_cons, List.not_mem_nil, or_false] at h
      rcases h with rfl | rfl | rfl
      · simp [hack] at hfill
      · exact ⟨x, rfl, hx, rfl, rfl, rfl⟩
      · exact ⟨_, rfl, hx', rfl, rfl, rfl⟩
    · rw [hreports] at h
      simp only [List.mem_cons, List.not_mem_nil, or_false] at h
      rcases h with rfl | rfl
      · simp [hack] at hfill
      · exact ⟨_, hqty, hwhole, rfl, rfl, rfl⟩
  · exact ⟨_, hqty, hwhole, rfl, rfl, rfl⟩

/-- A booked fill of at least one unit takes the position at least one unit further. -/
theorem booked_further {d u : ℤ} {y : ℚ} (hd : d = 1 ∨ d = -1) (hy : 1 ≤ y) :
    1 ≤ d * (Numeric.halfAway (u + d * y) - u) := by
  rcases hd with rfl | rfl
  · have hle : Numeric.halfAway ((u + 1 : ℤ) : ℚ) ≤ Numeric.halfAway (u + (1 : ℤ) * y) :=
      Numeric.halfAway_mono (by push_cast; linarith)
    rw [Numeric.halfAway_intCast] at hle
    omega
  · have hle : Numeric.halfAway (u + (-1 : ℤ) * y) ≤ Numeric.halfAway ((u - 1 : ℤ) : ℚ) :=
      Numeric.halfAway_mono (by push_cast; linarith)
    rw [Numeric.halfAway_intCast] at hle
    omega

/-- **In a run** the order executor takes the position no way back, and further with the first fill
that it books. -/
theorem executor_run (happroved : Approved f) (hexact : ExactArithmetic f.rt) {n u₀ : ℤ}
    (hn : 0 < n) (hqty : f.order.qty = .fin (n / 10 ^ 8))
    (hheld : db.held f.order.accountId f.order.symbol = u₀) (w : World) (actions : List Action) :
    ∃ u : ℤ, (f.run (f.init w db) actions).executor.held f.order.accountId f.order.symbol = u ∧
      0 ≤ direction f.order * (u - u₀) ∧
      (¬ f.BooksNone (f.init w db) actions → 1 ≤ direction f.order * (u - u₀)) := by
  induction actions using List.reverseRecOn with
  | nil =>
      refine ⟨u₀, hheld, by simp, fun h => absurd ?_ h⟩
      intro pre a post hsplit
      simp at hsplit
  | append_singleton pre a ih =>
      obtain ⟨u, hu, hfurther, hbooked⟩ := ih
      have hwithin := within_run happroved w db pre
      rw [run_concat]
      rcases executor_step f (f.run (f.init w db) pre) a with
        ⟨-, topic, report, delivery, hmem, hfill, hok⟩ | ⟨hnone, hpositions⟩
      · obtain ⟨x, hx, hunit, haccount, hsymbol, hdirection⟩ :=
          (hwithin.reports _ hmem).unit hexact hn hqty hfill
        rw [← haccount, ← hsymbol] at hu ⊢
        rw [OrderExecutor.held_booked hexact hfill hok hx hu, hdirection]
        have hstep := booked_further (u := u) (direction_cases f.order) hunit
        refine ⟨_, rfl, ?_, fun _ => ?_⟩
        · nlinarith
        · nlinarith
      · refine ⟨u, ?_, hfurther, fun h => hbooked fun hpre => h ?_⟩
        · rw [OrderExecutor.Db.held, OrderExecutor.Db.position, hpositions]
          exact hu
        · exact booksNone_concat.mpr ⟨hpre, hnone⟩

/-- Once all its reports are committed, the router has moved the position by its legs. -/
theorem held_of_done (hs : Within f w s)
    (hdone : s.world.committed = w.committed ++ buildReports f.rt.fp f.env.clock f.order) :
    s.world.db.held f.order.accountId f.order.symbol =
        w.db.held f.order.accountId f.order.symbol +
          ((direction f.order * legUnits f.rt f.order : ℤ) : Numeric) ∧
      FitsColumn f.rt f.order.qty := by
  obtain ⟨past, hpast⟩ := hs.moments
  have hne : s.world.committed ≠ w.committed := by
    intro h
    rw [h, List.self_eq_append_right] at hdone
    exact buildReports_ne_nil hdone
  rcases mem_routerMoments (m := s.world) (w := w) (f := f) (by simp [hpast]) with h | ⟨cfg, -, hm⟩
  · exact absurd (congrArg World.committed h) hne
  · exact ⟨held_of_filled hm hdone, fits_qty_moments hm hne⟩

/-- In exact arithmetic the legs of an order store its quantity when it is a whole number of units
that fits. -/
theorem legUnits_exact (hexact : ExactArithmetic f.rt) {n : ℤ} (hn : 0 < n)
    (hqty : f.order.qty = .fin (n / 10 ^ 8)) (hfits : FitsColumn f.rt f.order.qty) :
    legUnits f.rt f.order = n := by
  have hunits : ∀ x : ℚ, 0 < x → x ≤ n / 10 ^ 8 →
      fillUnits f.rt (.fin x) = Numeric.halfAway (x * 10 ^ 8) := fun x hx hle =>
    fillUnits_fin hexact hx (fitsColumn_of_le hexact hx.le hle (hqty ▸ hfits))
  have hq : (0 : ℚ) < n / 10 ^ 8 := by
    have : (0 : ℚ) < n := by exact_mod_cast hn
    positivity
  have hsum := sum_reportUnits_buildReports f.rt f.order f.env.clock
  have hcancel : direction f.order * n = direction f.order * legUnits f.rt f.order →
      legUnits f.rt f.order = n := fun h => by
    rcases direction_cases f.order with hd | hd <;> rw [hd] at h <;> omega
  refine hcancel ?_
  rcases buildReports_exact hexact f.env.clock hn hqty with
    ⟨x, hx, hx', hsplit, hreports⟩ | hreports
  · have hfirst : fillUnits f.rt (.fin x) = _ := hunits x (by linarith) (by linarith)
    have hsecond : fillUnits f.rt (.fin (n / 10 ^ 8 - x)) = _ :=
      hunits _ (by linarith) (by linarith)
    rw [hreports] at hsum
    simp only [List.map_cons, List.map_nil, List.sum_cons, List.sum_nil, reportUnits_buildAck,
      reportUnits_buildFill, true_or, or_true, hfirst, hsecond] at hsum
    rwa [zero_add, add_zero, ← mul_add, hsplit] at hsum
  · have hwhole : fillUnits f.rt f.order.qty = n := by
      rw [hqty, hunits _ hq le_rfl, div_mul_cancel₀ _ (by norm_num), Numeric.halfAway_intCast]
    rw [hreports] at hsum
    simp only [List.map_cons, List.map_nil, List.sum_cons, List.sum_nil, reportUnits_buildAck,
      reportUnits_buildFill, or_true, hwhole] at hsum
    rwa [zero_add, add_zero] at hsum

/-- Whether the order has moved the position once, when the order executor holds `u` units after
`u₀` before. -/
theorem movedOnce_iff_of_held {s₀ : State} {b u₀ u : ℤ}
    (hstart : f.net s₀ = ((b + u₀ : ℤ) : Numeric))
    (hnet : f.net s = ((b + direction f.order * legUnits f.rt f.order + u : ℤ) : Numeric)) :
    f.MovedOnce s₀ s ↔ ∃ q : ℚ, f.order.qty = .fin q ∧
      ((direction f.order * legUnits f.rt f.order + (u - u₀) : ℤ) : ℚ) / 10 ^ 8 =
        direction f.order * q := by
  constructor
  · rintro ⟨q, b', a, hq, hb, ha, hmoved⟩
    obtain rfl : b + u₀ = b' := WithTop.coe_inj.mp (hstart.symm.trans hb)
    obtain rfl : b + direction f.order * legUnits f.rt f.order + u = a :=
      WithTop.coe_inj.mp (hnet.symm.trans ha)
    refine ⟨q, hq, ?_⟩
    rw [← hmoved]
    congr 2
    ring
  · rintro ⟨q, hq, hmoved⟩
    refine ⟨q, _, _, hq, hstart, hnet, ?_⟩
    rw [← hmoved]
    congr 2
    ring

/-- A position moves by whole units only. -/
theorem wholeUnits_of_movedOnce (h : f.MovedOnce s₀ s) : f.WholeUnits := by
  obtain ⟨q, b, a, hq, -, -, hmoved⟩ := h
  refine ⟨direction f.order * (a - b), hq.trans (congrArg Binary64.fin ?_)⟩
  have hsquare : (direction f.order : ℚ) * direction f.order = 1 := by
    rcases direction_cases f.order with hd | hd <;> norm_num [hd]
  calc q = direction f.order * direction f.order * q := by rw [hsquare, one_mul]
    _ = direction f.order * (((a - b : ℤ) : ℚ) / 10 ^ 8) := by rw [mul_assoc, ← hmoved]
    _ = ((direction f.order * (a - b) : ℤ) : ℚ) / 10 ^ 8 := by
        rw [Int.cast_mul, mul_div_assoc]

/-- **When an approved order moves the position once.** In every run of the three processes, in any
order and with any faults, once the router has committed all its reports: as long as the order
executor has booked no fill, the order has moved the position once exactly when the legs of the
router store its quantity; and in exact arithmetic, it has moved the position once exactly when its
quantity is a whole number of units and the order executor has booked no fill. -/
theorem movedOnce_iff (f : Flow) (w : World) (db : OrderExecutor.Db) (actions : List Action)
    (happroved : Approved f)
    (hrouter : ∃ b : ℤ, w.db.held f.order.accountId f.order.symbol = b)
    (hexecutor : ∃ u : ℤ, db.held f.order.accountId f.order.symbol = u)
    (hdone : (f.run (f.init w db) actions).world.committed =
      w.committed ++ buildReports f.rt.fp f.env.clock f.order) :
    (f.BooksNone (f.init w db) actions →
        (f.MovedOnce (f.init w db) (f.run (f.init w db) actions) ↔ f.StoresQty)) ∧
      (ExactArithmetic f.rt →
        (f.MovedOnce (f.init w db) (f.run (f.init w db) actions) ↔
          f.WholeUnits ∧ f.BooksNone (f.init w db) actions)) := by
  obtain ⟨b, hb⟩ := hrouter
  obtain ⟨u₀, hu₀⟩ := hexecutor
  obtain ⟨hheld, hfits⟩ := held_of_done (within_run happroved w db actions) hdone
  have hstart : f.net (f.init w db) = ((b + u₀ : ℤ) : Numeric) := by
    rw [net, WithTop.coe_add, ← hb, ← hu₀]
    rfl
  have hnet : ∀ u : ℤ, (f.run (f.init w db) actions).executor.held f.order.accountId
      f.order.symbol = u → f.net (f.run (f.init w db) actions) =
        ((b + direction f.order * legUnits f.rt f.order + u : ℤ) : Numeric) := fun u hu => by
    rw [net, hheld, hb, hu, ← WithTop.coe_add, ← WithTop.coe_add]
  have hd : (direction f.order : ℚ) ≠ 0 := by
    rcases direction_cases f.order with h | h <;> simp [h]
  have hquiet : f.BooksNone (f.init w db) actions →
      (f.MovedOnce (f.init w db) (f.run (f.init w db) actions) ↔ f.StoresQty) := fun hnone => by
    have hsame : (f.run (f.init w db) actions).executor.held f.order.accountId f.order.symbol =
        u₀ := by
      rw [OrderExecutor.Db.held, OrderExecutor.Db.position, positions_of_booksNone hnone]
      exact hu₀
    rw [movedOnce_iff_of_held hstart (hnet u₀ hsame)]
    refine exists_congr fun q => and_congr_right fun _ => ?_
    rw [sub_self, add_zero, Int.cast_mul, mul_div_assoc]
    exact mul_right_inj' hd
  have hpos : ∀ n : ℤ, f.order.qty = .fin (n / 10 ^ 8) → 0 < n := fun n hqty => by
    have hq := happroved.pos
    rw [hqty] at hq
    simp only [Binary64.gt, Binary64.lt, Binary64.zero, decide_eq_true_eq] at hq
    exact_mod_cast (div_pos_iff_of_pos_right (by norm_num)).mp hq
  refine ⟨hquiet, fun hexact => ⟨fun hmoved => ?_, fun hgood => ?_⟩⟩
  · have hwhole : f.WholeUnits := wholeUnits_of_movedOnce hmoved
    obtain ⟨n, hqty⟩ := hwhole
    have hlegs : legUnits f.rt f.order = n := legUnits_exact hexact (hpos n hqty) hqty hfits
    obtain ⟨u, hu, -, hbooked⟩ := executor_run happroved hexact (hpos n hqty) hqty hu₀ w actions
    obtain ⟨q, hq, hmoved⟩ := (movedOnce_iff_of_held hstart (hnet u hu)).mp hmoved
    obtain rfl : (n / 10 ^ 8 : ℚ) = q := by simpa using hqty.symm.trans hq
    refine ⟨⟨n, hqty⟩, ?_⟩
    by_contra hsome
    have hfurther := hbooked hsome
    have hstayed : u - u₀ = 0 := by
      rw [hlegs, ← mul_div_assoc, div_left_inj' (by norm_num)] at hmoved
      have hunits : direction f.order * n + (u - u₀) = direction f.order * n := by
        exact_mod_cast hmoved
      omega
    rw [hstayed, mul_zero] at hfurther
    omega
  · obtain ⟨⟨n, hqty⟩, hnone⟩ := hgood
    have hlegs : legUnits f.rt f.order = n := legUnits_exact hexact (hpos n hqty) hqty hfits
    exact (hquiet hnone).mpr ⟨_, hqty, by rw [hlegs]⟩

/-- A BUY of one unit where no variable is set, with healthy links. -/
def oneUnit : Flow where
  rt := exactRuntime
  environment _ := none
  readFile _ := none
  env := tickingEnv
  order := paperBuy 1 60000

/-- Every process takes all its turns, the order executor last. -/
def allTurns : List Action :=
  List.replicate 5 .router ++ [.paperTrader .up 0 0] ++
    List.replicate 3 (.orderExecutor .up ⟨0, 0, 0⟩)

theorem approved_oneUnit : Approved oneUnit where
  action := rfl
  pos := by decide +kernel
  paper cfg hcfg := by
    obtain rfl := Except.ok.inj hcfg
    decide

/-- With the default topics and without a fault, every report is committed, every entry read, and
three units are recorded. -/
theorem run_oneUnit :
    (oneUnit.run (oneUnit.init {} {}) allTurns).world.committed =
        buildReports oneUnit.rt.fp oneUnit.env.clock oneUnit.order ∧
      oneUnit.next (oneUnit.run (oneUnit.init {} {}) allTurns) = none ∧
      oneUnit.net (oneUnit.run (oneUnit.init {} {}) allTurns) = ((3 : ℤ) : Numeric) := by
  decide +kernel

theorem movedOnce_iff_oneUnit :
    (oneUnit.BooksNone (oneUnit.init {} {}) allTurns →
        (oneUnit.MovedOnce (oneUnit.init {} {}) (oneUnit.run (oneUnit.init {} {}) allTurns) ↔
          oneUnit.StoresQty)) ∧
      (ExactArithmetic oneUnit.rt →
        (oneUnit.MovedOnce (oneUnit.init {} {}) (oneUnit.run (oneUnit.init {} {}) allTurns) ↔
          oneUnit.WholeUnits ∧ oneUnit.BooksNone (oneUnit.init {} {}) allTurns)) :=
  movedOnce_iff oneUnit {} {} allTurns approved_oneUnit ⟨0, rfl⟩ ⟨0, rfl⟩ run_oneUnit.1

/-- With every report committed and every entry read, the order has moved the position three
times. -/
theorem oneUnit_moved_thrice : Approved oneUnit ∧
    (oneUnit.run (oneUnit.init {} {}) allTurns).world.committed =
      buildReports oneUnit.rt.fp oneUnit.env.clock oneUnit.order ∧
    oneUnit.next (oneUnit.run (oneUnit.init {} {}) allTurns) = none ∧
    ¬ oneUnit.MovedOnce (oneUnit.init {} {}) (oneUnit.run (oneUnit.init {} {}) allTurns) := by
  obtain ⟨hdone, hread, hafter⟩ := run_oneUnit
  refine ⟨approved_oneUnit, hdone, hread, ?_⟩
  rintro ⟨q, b, a, hq, hb, ha, hmoved⟩
  obtain rfl : (1 / 10 ^ 8 : ℚ) = q := by simpa [oneUnit, paperBuy, OrderCommand.sample] using hq
  obtain rfl : (0 : ℤ) = b := WithTop.coe_inj.mp hb
  obtain rfl : (3 : ℤ) = a := WithTop.coe_inj.mp (hafter.symm.trans ha)
  rw [show direction oneUnit.order = 1 from rfl] at hmoved
  norm_num at hmoved

end Flow

end HftPlatform
