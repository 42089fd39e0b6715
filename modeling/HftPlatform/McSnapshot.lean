import HftPlatform.Config
import HftPlatform.Lib.Attempt
import HftPlatform.Lib.Json
import HftPlatform.Lib.Machine

/-!
# Market capitalisations

`services/strategy_engine/mc_snapshot/src/main.rs`: every minute the service asks CoinGecko for the
market capitalisations of its coins and for their shares of the market, sends a message for each
coin, and inserts the rows into ClickHouse. The messages go out one by one while the insert is still
open; the rows are stored when it is ended. Any of these steps may fail, and the cycle is then given
up. The health server and the logging are left out; an insert of a few rows is one block, which
ClickHouse stores as a whole.

## Main results

* `fetchAndPublish_spec`: what a cycle leaves on the topic and in the table.
* `mirrored_run`: the table holds whole cycles, and each of its rows was sent before.
* `rows_run`: every row is of a configured symbol, with the share of its base asset.
-/

namespace HftPlatform.McSnapshot

open Lib

/-! ### The configuration -/

/-- The coins that the service knows, by their symbols. -/
def symToId : List (String × String) :=
  [("BTCUSDT", "bitcoin"), ("ETHUSDT", "ethereum"), ("BNBUSDT", "binancecoin"),
    ("SOLUSDT", "solana"), ("XRPUSDT", "ripple")]

/-- The symbols, under the names that the source of the prices has for them. -/
structure Config where
  kafkaTopic : String
  coingeckoIds : List String
  idToSymbol : String → Option String

/-- The symbols that are asked for. -/
def symbols (rt : Runtime) (env : Environment) : List String :=
  (((((env "SYMBOLS").getD "BTCUSDT,ETHUSDT").toList.splitOn ',').map fun s =>
    rt.toUppercase (trim (String.ofList s))).filter fun s => s ≠ "")

/-- A symbol is entered under its coin; one that has none is skipped. -/
def Config.enter (cfg : Config) (sym : String) : Config :=
  match symToId.lookup sym with
  | some cgId =>
      { cfg with
        idToSymbol := Function.update cfg.idToSymbol cgId (some sym)
        coingeckoIds := cfg.coingeckoIds ++ [cgId] }
  | none => cfg

/-- The configuration of an environment. -/
def Config.fromEnv (rt : Runtime) (env : Environment) : Config :=
  (symbols rt env).foldl Config.enter
    { kafkaTopic := (env "KAFKA_TOPIC_MC_SNAPSHOT").getD "TOPIC_MC_SNAPSHOT"
      coingeckoIds := []
      idToSymbol := fun _ => none }

/-! ### Rows and messages -/

/-- A row of `mc_snapshot`. -/
structure McRow where
  ts : Int64
  symbol : String
  marketcap : Binary64
  dominance : Binary64
  deriving DecidableEq

/-- A coin of the source. -/
structure CgMarketItem where
  id : String
  marketCap : Option Binary64

/-- The key of a coin among the shares of the market. -/
def domKey (id : String) : String :=
  if id = "bitcoin" then "btc"
  else if id = "ethereum" then "eth"
  else if id = "binancecoin" then "bnb"
  else if id = "solana" then "sol"
  else if id = "ripple" then "xrp"
  else ""

/-- The row of a coin, if it is one of the configured coins. -/
def rowOf (cfg : Config) (tsMs : Int64) (dom : String → Option Binary64) (coin : CgMarketItem) :
    Option McRow :=
  (cfg.idToSymbol coin.id).map fun symbol =>
    { ts := tsMs
      symbol
      marketcap := coin.marketCap.getD .zero
      dominance := (dom (domKey coin.id)).getD .zero }

/-- A record of a snapshot. -/
structure Message where
  topic : String
  key : String
  payload : Json

/-- The message of a row. -/
def McRow.message (cfg : Config) (row : McRow) : Message where
  topic := cfg.kafkaTopic
  key := row.symbol
  payload := .obj [("dominance", .ofF64 row.dominance), ("marketcap", .ofF64 row.marketcap),
    ("symbol", .str row.symbol), ("ts", .ofI64 row.ts)]

/-! ### A cycle -/

/-- How a request to CoinGecko ends. -/
inductive Fetched (α : Type)
  | refused (cause : String)
  | status (cause : String)
  | unreadable (cause : String)
  | body (value : α)

/-- The body of the answer, or an error with its context. -/
def Fetched.get {α : Type} (request http parse : String) : Fetched α → Except String α
  | .refused cause => .error (request ++ ": " ++ cause)
  | .status cause => .error (http ++ ": " ++ cause)
  | .unreadable cause => .error (parse ++ ": " ++ cause)
  | .body value => .ok value

/-- What a cycle meets. The attempts of the loop are counted by the rows before them. -/
structure Cycle where
  tsMs : Int64
  coins : Fetched (List CgMarketItem)
  global : Fetched (String → Option Binary64)
  opened : Except String Unit
  written : ℕ → Except String Unit
  sent : ℕ → Attempt
  ended : Attempt

/-- What the loop has done so far: the rows of the open insert, what has arrived on the topic, and
the rows that are through. -/
structure Progress where
  rows : List McRow := []
  messages : List Message := []
  count : ℕ := 0

/-- The loop over the coins, up to the first step that fails. -/
def publishAll (cfg : Config) (c : Cycle) (dom : String → Option Binary64) :
    List CgMarketItem → Progress → Progress × Option String
  | [], p => (p, none)
  | coin :: coins, p =>
      match rowOf cfg c.tsMs dom coin with
      | none => publishAll cfg c dom coins p
      | some row =>
          match c.written p.count with
          | .error e => (p, some e)
          | .ok () =>
              let p' := { p with
                rows := p.rows ++ [row]
                messages := p.messages ++ (c.sent p.count).takes [row.message cfg] }
              match (c.sent p.count).answer () with
              | .error e => (p', some ("kafka: " ++ e))
              | .ok () => publishAll cfg c dom coins { p' with count := p.count + 1 }

/-- The topic and the table, in the order in which they were written. -/
structure Store where
  topic : List Message := []
  table : List McRow := []

/-- A cycle: the store after it, and how many rows it published or why it failed. -/
def fetchAndPublish (cfg : Config) (s : Store) (c : Cycle) : Store × Except String ℕ :=
  match c.coins.get "CoinGecko markets request" "CoinGecko HTTP error" "CoinGecko parse" with
  | .error e => (s, .error e)
  | .ok coins =>
      match c.global.get "CoinGecko global request" "CoinGecko global HTTP error"
          "CoinGecko global parse" with
      | .error e => (s, .error e)
      | .ok dom =>
          match c.opened with
          | .error e => (s, .error e)
          | .ok () =>
              let (p, failure) := publishAll cfg c dom coins {}
              let s' := { s with topic := s.topic ++ p.messages }
              match failure with
              -- an insert that is dropped before its end stores nothing
              | some e => (s', .error e)
              | none =>
                  ({ s' with table := s.table ++ c.ended.takes p.rows }, c.ended.answer p.count)

/-- The main loop: a service without coins sleeps for ever. -/
def main (cfg : Config) (s : Store) (cycles : List Cycle) : Store × List (Except String ℕ) :=
  if cfg.coingeckoIds = [] then (s, []) else Machine.run (fetchAndPublish cfg) s cycles

/-! ### What a cycle leaves behind -/

/-- The rows that a cycle is about: those of the configured coins in the answer. -/
def Cycle.rows (cfg : Config) (c : Cycle) : List McRow :=
  match c.coins, c.global with
  | .body coins, .body dom => coins.filterMap (rowOf cfg c.tsMs dom)
  | _, _ => []

/-- The records of a cycle. -/
def Cycle.messages (cfg : Config) (c : Cycle) : List Message :=
  (c.rows cfg).map (McRow.message cfg)

/-- A cycle is given up after an initial part of its messages, or it sends all of them and its rows
are stored. The answer to the end of the insert may be lost even so. -/
inductive Cycle.Leaves (cfg : Config) (c : Cycle) (s : Store) : Store × Except String ℕ → Prop
  | givenUp (sent : List Message) (e : String) (hsent : sent <+: c.messages cfg) :
      Leaves cfg c s ({ s with topic := s.topic ++ sent }, .error e)
  | stored (answer : Except String ℕ) (hanswer : ∀ n, answer = .ok n → n = (c.rows cfg).length) :
      Leaves cfg c s
        ({ topic := s.topic ++ c.messages cfg, table := s.table ++ c.rows cfg }, answer)

/-- **The loop** goes through the rows in order. If a step fails, the messages so far are an initial
part of those of the rows; if none does, every row is in the open insert and was sent. -/
theorem publishAll_spec (cfg : Config) (c : Cycle) (dom : String → Option Binary64)
    (coins : List CgMarketItem) (p : Progress) :
    let rows := coins.filterMap (rowOf cfg c.tsMs dom)
    (∃ sent p' e, sent <+: rows.map (McRow.message cfg) ∧ p'.messages = p.messages ++ sent ∧
        publishAll cfg c dom coins p = (p', some e)) ∨
      publishAll cfg c dom coins p =
        ({ rows := p.rows ++ rows
           messages := p.messages ++ rows.map (McRow.message cfg)
           count := p.count + rows.length }, none) := by
  intro rows
  induction coins generalizing p with
  | nil => exact .inr (by simp [publishAll, rows])
  | cons coin coins ih =>
      rw [publishAll]
      cases hrow : rowOf cfg c.tsMs dom coin with
      | none =>
          have hrows : rows = coins.filterMap (rowOf cfg c.tsMs dom) :=
            List.filterMap_cons_none hrow
          rw [hrows]
          exact ih p
      | some row =>
          have hrows : rows = row :: coins.filterMap (rowOf cfg c.tsMs dom) :=
            List.filterMap_cons_some hrow
          rw [hrows, List.map_cons]
          cases hwritten : c.written p.count with
          | error e => exact .inl ⟨[], p, e, List.nil_prefix, (List.append_nil _).symm, rfl⟩
          | ok u =>
              cases hsent : c.sent p.count with
              | failed cause arrived =>
                  refine .inl ⟨(Attempt.failed cause arrived).takes [row.message cfg], _, _, ?_,
                    rfl, rfl⟩
                  exact (Attempt.takes_prefix _ _).trans (List.prefix_append [row.message cfg] _)
              | done =>
                  -- the rows after this one are what the induction speaks about
                  rcases ih
                    { rows := p.rows ++ [row]
                      messages := p.messages ++ [row.message cfg]
                      count := p.count + 1 } with ⟨sent, p', e, hinitial, hp', heq⟩ | heq
                  · refine .inl ⟨row.message cfg :: sent, p', e, ?_, ?_, heq⟩
                    · exact List.cons_prefix_cons.mpr ⟨rfl, hinitial⟩
                    · rw [hp', List.append_assoc, List.singleton_append]
                  · refine .inr (heq.trans ?_)
                    rw [List.append_assoc, List.append_assoc, List.singleton_append,
                      List.singleton_append, List.length_cons, Nat.add_assoc, Nat.add_comm 1]

/-- **What a cycle leaves behind.** -/
theorem fetchAndPublish_spec (cfg : Config) (s : Store) (c : Cycle) :
    c.Leaves cfg s (fetchAndPublish cfg s c) := by
  have hgivenUp : ∀ e : String, fetchAndPublish cfg s c = (s, .error e) →
      c.Leaves cfg s (fetchAndPublish cfg s c) := by
    intro e he
    have hnothing : c.Leaves cfg s ({ s with topic := s.topic ++ [] }, .error e) :=
      .givenUp [] e List.nil_prefix
    rwa [List.append_nil, ← he] at hnothing
  cases hcoins : c.coins with
  | refused cause => exact hgivenUp _ (by rw [fetchAndPublish, hcoins]; rfl)
  | status cause => exact hgivenUp _ (by rw [fetchAndPublish, hcoins]; rfl)
  | unreadable cause => exact hgivenUp _ (by rw [fetchAndPublish, hcoins]; rfl)
  | body coins =>
    cases hglobal : c.global with
    | refused cause => exact hgivenUp _ (by rw [fetchAndPublish, hcoins, hglobal]; rfl)
    | status cause => exact hgivenUp _ (by rw [fetchAndPublish, hcoins, hglobal]; rfl)
    | unreadable cause => exact hgivenUp _ (by rw [fetchAndPublish, hcoins, hglobal]; rfl)
    | body dom =>
      cases hopened : c.opened with
      | error e => exact hgivenUp e (by rw [fetchAndPublish, hcoins, hglobal, hopened]; rfl)
      | ok u =>
        have hrows : coins.filterMap (rowOf cfg c.tsMs dom) = c.rows cfg := by
          rw [Cycle.rows, hcoins, hglobal]
        rw [fetchAndPublish, hcoins, hglobal, hopened]
        dsimp only [Fetched.get]
        rcases publishAll_spec cfg c dom coins {} with
          ⟨sent, p, e, hinitial, hp, heq⟩ | heq
        · rw [heq]
          rw [hrows] at hinitial
          rw [List.nil_append] at hp
          rw [← hp] at hinitial
          exact .givenUp p.messages e hinitial
        · rw [hrows] at heq
          rw [heq]
          dsimp only
          rw [List.nil_append, List.nil_append, Nat.zero_add]
          cases hended : c.ended with
          | done => exact .stored _ fun n hn => (Except.ok.inj hn).symm
          | failed cause arrived =>
              cases arrived with
              | true => exact .stored _ fun n hn => by cases hn
              | false =>
                  rw [Attempt.append_takes_failed]
                  exact .givenUp _ cause List.prefix_rfl

/-! ### Runs -/

/-- The row counts that the service has logged. -/
def announced (answers : List (Except String ℕ)) : List ℕ := answers.filterMap Except.toOption

/-- What holds after the cycles so far. -/
structure Mirrored (cfg : Config) (cycles : List Cycle) (answers : List (Except String ℕ))
    (s : Store) : Prop where
  whole : ∃ kept : List Cycle, kept.Sublist cycles ∧ s.table = kept.flatMap (Cycle.rows cfg)
  sent : (s.table.map (McRow.message cfg)).Sublist s.topic
  known : s.topic.Sublist (cycles.flatMap (Cycle.messages cfg))
  counted : (announced answers).sum ≤ s.table.length

/-- What a cycle leaves behind keeps this. -/
theorem Mirrored.step {cfg : Config} {cycles : List Cycle} {answers : List (Except String ℕ)}
    {s : Store} {c : Cycle} (h : Mirrored cfg cycles answers s) :
    Mirrored cfg (cycles ++ [c]) (answers ++ [(fetchAndPublish cfg s c).2])
      (fetchAndPublish cfg s c).1 := by
  obtain ⟨kept, hkept, htable⟩ := h.whole
  have hflat : (cycles ++ [c]).flatMap (Cycle.messages cfg) =
      cycles.flatMap (Cycle.messages cfg) ++ c.messages cfg := by
    rw [List.flatMap_append, List.flatMap_singleton]
  have hannounced : ∀ answer, announced (answers ++ [answer]) =
      announced answers ++ announced [answer] := fun answer => List.filterMap_append
  have hleaves := fetchAndPublish_spec cfg s c
  generalize fetchAndPublish cfg s c = r at hleaves ⊢
  cases hleaves with
  | givenUp sent e hsent =>
      constructor
      case whole => exact ⟨kept, hkept.trans (List.sublist_append_left ..), htable⟩
      case sent => exact h.sent.trans (List.sublist_append_left ..)
      case known =>
        rw [hflat]
        exact h.known.append hsent.sublist
      case counted =>
        have hnone : announced [.error e] = [] := rfl
        rw [hannounced, hnone, List.append_nil]
        exact h.counted
  | stored answer hanswer =>
      constructor
      case whole =>
        refine ⟨kept ++ [c], hkept.append (List.Sublist.refl _), ?_⟩
        rw [List.flatMap_append, List.flatMap_singleton, htable]
      case sent =>
        rw [List.map_append]
        exact h.sent.append (List.Sublist.refl _)
      case known =>
        rw [hflat]
        exact h.known.append (List.Sublist.refl _)
      case counted =>
        rw [hannounced, List.sum_append, List.length_append]
        refine Nat.add_le_add h.counted ?_
        cases answer with
        | error e => exact Nat.zero_le _
        | ok n => exact Nat.le_of_eq (hanswer n rfl)

/-- Nothing was published yet. -/
theorem mirrored_nil (cfg : Config) (cycles : List Cycle) : Mirrored cfg cycles [] {} where
  whole := ⟨[], List.nil_sublist _, rfl⟩
  sent := List.nil_sublist _
  known := List.nil_sublist _
  counted := Nat.le_refl 0

/-- After any cycles, topic and table mirror each other. -/
theorem mirrored_cycles (cfg : Config) (cycles : List Cycle) :
    Mirrored cfg cycles (Machine.run (fetchAndPublish cfg) {} cycles).2
      (Machine.run (fetchAndPublish cfg) {} cycles).1 := by
  refine Machine.run_induction (P := Mirrored cfg) (mirrored_nil cfg []) ?_ cycles
  intro pre answers s c ih
  exact ih.step

/-- Every coin is entered under a symbol that was asked for. -/
def Config.Known (cfg : Config) (syms : List String) : Prop :=
  ∀ id symbol, cfg.idToSymbol id = some symbol → symToId.lookup symbol = some id ∧ symbol ∈ syms

/-- What is entered is the coin of the symbol. -/
theorem Config.idToSymbol_enter {cfg : Config} {sym id symbol : String}
    (h : (cfg.enter sym).idToSymbol id = some symbol) :
    (symbol = sym ∧ symToId.lookup sym = some id) ∨ cfg.idToSymbol id = some symbol := by
  rw [Config.enter] at h
  cases hlookup : symToId.lookup sym with
  | none =>
      rw [hlookup] at h
      exact .inr h
  | some cgId =>
      rw [hlookup] at h
      have hupdate : Function.update cfg.idToSymbol cgId (some sym) id = some symbol := h
      by_cases hk : id = cgId
      · rw [hk, Function.update_self, Option.some.injEq] at hupdate
        exact .inl ⟨hupdate.symm, by rw [hk]⟩
      · rw [Function.update_of_ne hk] at hupdate
        exact .inr hupdate

/-- Entering symbols one by one. -/
theorem Config.known_foldl {cfg : Config} {pre : List String} (h : cfg.Known pre)
    (syms : List String) : (syms.foldl Config.enter cfg).Known (pre ++ syms) := by
  induction syms generalizing cfg pre with
  | nil => rwa [List.append_nil]
  | cons sym syms ih =>
      have henter : (cfg.enter sym).Known (pre ++ [sym]) := by
        intro id symbol hid
        rcases idToSymbol_enter hid with ⟨rfl, hlookup⟩ | hold
        · exact ⟨hlookup, List.mem_append_right _ (List.mem_singleton_self _)⟩
        · exact ⟨(h id symbol hold).1, List.mem_append_left _ (h id symbol hold).2⟩
      have hrest := ih henter
      rwa [List.append_assoc] at hrest

/-- The names of a configuration are those of its symbols. -/
theorem Config.known_fromEnv (rt : Runtime) (env : Environment) :
    (Config.fromEnv rt env).Known (symbols rt env) := by
  have hempty : ∀ topic, Config.Known ⟨topic, [], fun _ => none⟩ [] :=
    fun _ _ _ hid => by cases hid
  exact Config.known_foldl (hempty _) (symbols rt env)

/-- A symbol is the base asset of its coin, which the share of the coin is found under, against
`USDT`. -/
theorem symbol_eq {symbol id : String} (h : symToId.lookup symbol = some id) :
    symbol = toAsciiUppercase (domKey id) ++ "USDT" := by
  have hall : ∀ p ∈ symToId, p.1 = toAsciiUppercase (domKey p.2) ++ "USDT" := by decide
  obtain ⟨pre, post, hsplit, -⟩ := List.lookup_eq_some_iff.mp h
  exact hall (symbol, id) (by simp [hsplit])

/-- The answers of CoinGecko say this of the base asset of a row. -/
def Cycle.Tells (c : Cycle) (row : McRow) : Prop :=
  ∃ coins dom coin, c.coins = .body coins ∧ c.global = .body dom ∧ coin ∈ coins ∧
    row.symbol = toAsciiUppercase (domKey coin.id) ++ "USDT" ∧ row.ts = c.tsMs ∧
      row.marketcap = coin.marketCap.getD .zero ∧
        row.dominance = (dom (domKey coin.id)).getD .zero

/-- **Every row of the table** is of a symbol that the service was asked for, and holds what one
cycle was told of it: the capitalisation of its coin, and the share of its base asset. -/
theorem rows_run (rt : Runtime) (env : Environment) (cycles : List Cycle) {row : McRow}
    (hrow : row ∈ (main (Config.fromEnv rt env) {} cycles).1.table) :
    row.symbol ∈ symbols rt env ∧ ∃ c ∈ cycles, c.Tells row := by
  have hcycles :
      row ∈ (Machine.run (fetchAndPublish (Config.fromEnv rt env)) {} cycles).1.table := by
    rw [main] at hrow
    split at hrow
    · cases hrow
    · exact hrow
  obtain ⟨kept, hkept, htable⟩ := (mirrored_cycles (Config.fromEnv rt env) cycles).whole
  rw [htable, List.mem_flatMap] at hcycles
  obtain ⟨c, hc, hrow⟩ := hcycles
  cases hcoins : c.coins with
  | refused cause => simp [Cycle.rows, hcoins] at hrow
  | status cause => simp [Cycle.rows, hcoins] at hrow
  | unreadable cause => simp [Cycle.rows, hcoins] at hrow
  | body coins =>
    cases hglobal : c.global with
    | refused cause => simp [Cycle.rows, hcoins, hglobal] at hrow
    | status cause => simp [Cycle.rows, hcoins, hglobal] at hrow
    | unreadable cause => simp [Cycle.rows, hcoins, hglobal] at hrow
    | body dom =>
      rw [Cycle.rows, hcoins, hglobal, List.mem_filterMap] at hrow
      obtain ⟨coin, hcoin, hrow⟩ := hrow
      obtain ⟨symbol, hsymbol, rfl⟩ := Option.map_eq_some_iff.mp hrow
      obtain ⟨hlookup, hasked⟩ := Config.known_fromEnv rt env coin.id symbol hsymbol
      exact ⟨hasked, c, hkept.subset hc, coins, dom, coin, hcoins, hglobal, hcoin,
        symbol_eq hlookup, rfl, rfl, rfl⟩

/-- A cycle in which CoinGecko knows no share of bitcoin, and answers with a coin that was not asked
for. -/
def bitcoinCycle : Cycle where
  tsMs := 1700000000000
  coins := .body [⟨"bitcoin", some (.fin 2)⟩, ⟨"dogecoin", some (.fin 3)⟩]
  global := .body fun _ => none
  opened := .ok ()
  written := fun _ => .ok ()
  sent := fun _ => .done
  ended := .done

/-- One coin makes one row. -/
theorem rows_run_bitcoin :
    "BTCUSDT" ∈ symbols Runtime.reference (fun _ => none) ∧
      ∃ c ∈ [bitcoinCycle], c.Tells ⟨1700000000000, "BTCUSDT", .fin 2, .zero⟩ :=
  rows_run Runtime.reference (fun _ => none) [bitcoinCycle]
    (show ⟨1700000000000, "BTCUSDT", .fin 2, .zero⟩ ∈
      (main (Config.fromEnv Runtime.reference fun _ => none) {} [bitcoinCycle]).1.table by decide)

end HftPlatform.McSnapshot
