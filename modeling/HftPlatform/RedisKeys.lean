import HftPlatform.KillSwitch
import HftPlatform.Lib.Delimited

/-!
# The keys in Redis

`libs/rust/hft_redis/src/keys.rs`: the keys that the services share are built by joining texts with
`:`. What stands before the first `:` tells the family; the rest is taken apart at a `:` that the
part on one of its sides does not hold.

## Main results

* `Key.eq_of_name`: different keys have different names.
* `RateLimit.eq_of_name`: so have the rate-limit counters of signals, orders and endpoints.
* `keys_distinct`: both.
-/

namespace HftPlatform.Keys

open Lib KillSwitch

/-! ### The constructors -/

/-- The key of the last signal of a symbol. -/
def signalState (symbol : String) : String := "signal:state:" ++ symbol

/-- The key of a position. -/
def position (accountId symbol : String) : String := "position:" ++ accountId ++ ":" ++ symbol

/-- The key of the instruments of a market. -/
def instruments (exchange market : String) : String := "instruments:" ++ exchange ++ ":" ++ market

/-- The key of a counter, in a scope. -/
def rateLimit (scope id : String) : String := "rl:" ++ scope ++ ":" ++ id

/-- The counter of the signals of a symbol and a side. -/
def signalRateLimit (symbol side : String) : String := rateLimit "signal" (symbol ++ ":" ++ side)

/-- The counter of the orders of an account. -/
def orderRateLimit (accountId : String) : String := rateLimit "order" accountId

/-- The counter of the calls of an endpoint. -/
def apiRateLimit (endpoint : String) : String := rateLimit "api" endpoint

/-- The key of the health of a feed. -/
def mdHealth (venue symbol : String) : String := "md:health:" ++ venue ++ ":" ++ symbol

/-! ### What is stored -/

/-- What a key is for. -/
inductive Key
  | killSwitch
  | killSwitchAccount (accountId : String)
  | signalState (symbol : String)
  | position (accountId symbol : String)
  | instruments (exchange market : String)
  | rateLimit (scope id : String)
  | mdHealth (venue symbol : String)
  deriving DecidableEq

namespace Key

/-- The text of a key. -/
def name : Key → String
  | killSwitch => globalKey
  | killSwitchAccount accountId => accountKey accountId
  | signalState symbol => Keys.signalState symbol
  | position accountId symbol => Keys.position accountId symbol
  | instruments exchange market => Keys.instruments exchange market
  | rateLimit scope id => Keys.rateLimit scope id
  | mdHealth venue symbol => Keys.mdHealth venue symbol

/-- Symbols, markets and scopes do not hold a `:`. Accounts, exchanges, venues and the ids of
counters may. -/
def WellFormed : Key → Prop
  | position _ symbol => ':' ∉ symbol.toList
  | instruments _ market => ':' ∉ market.toList
  | rateLimit scope _ => ':' ∉ scope.toList
  | mdHealth _ symbol => ':' ∉ symbol.toList
  | _ => True

/-- What stands before the first `:`. -/
def family : Key → String
  | killSwitch | killSwitchAccount _ => "risk"
  | signalState _ => "signal"
  | position _ _ => "position"
  | instruments _ _ => "instruments"
  | rateLimit _ _ => "rl"
  | mdHealth _ _ => "md"

/-- What stands after the first `:`. -/
def rest : Key → String
  | killSwitch => "kill"
  | killSwitchAccount accountId => "kill:" ++ accountId
  | signalState symbol => "state:" ++ symbol
  | position accountId symbol => accountId ++ ":" ++ symbol
  | instruments exchange market => exchange ++ ":" ++ market
  | rateLimit scope id => scope ++ ":" ++ id
  | mdHealth venue symbol => "health:" ++ venue ++ ":" ++ symbol

/-- The text of a key is its family and the rest. -/
theorem name_eq (key : Key) : key.name = key.family ++ ":" ++ key.rest := by
  rw [← String.toList_inj]
  cases key <;>
    simp [name, family, rest, globalKey, accountKey, Keys.signalState, Keys.position,
      Keys.instruments, Keys.rateLimit, Keys.mdHealth]

/-- A family is free of the separator. -/
theorem family_not_mem (key : Key) : ':' ∉ key.family.toList := by
  cases key <;> simp [family]

/-- Equal names have the same family and the same rest. -/
theorem name_inj {key key' : Key} :
    key.name = key'.name ↔ key.family = key'.family ∧ key.rest = key'.rest := by
  rw [name_eq, name_eq, joined_inj_left rfl key.family_not_mem key'.family_not_mem]

/-- The global kill switch is not the kill switch of an account, whatever the id is. -/
theorem kill_ne_account (accountId : String) : "kill" ≠ "kill:" ++ accountId := by
  intro h
  have hlength := congrArg String.length h
  rw [String.length_append] at hlength
  have hkill : "kill".length = 4 ∧ "kill:".length = 5 := ⟨rfl, rfl⟩
  omega

/-- **Different keys have different names.** -/
theorem eq_of_name {key key' : Key} (hkey : key.WellFormed) (hkey' : key'.WellFormed)
    (h : key.name = key'.name) : key = key' := by
  obtain ⟨hfamily, hrest⟩ := name_inj.mp h
  cases key <;> cases key' <;> simp [family] at hfamily
  case killSwitch.killSwitch => rfl
  case killSwitch.killSwitchAccount accountId => exact absurd hrest (kill_ne_account accountId)
  case killSwitchAccount.killSwitch accountId =>
    exact absurd hrest.symm (kill_ne_account accountId)
  case killSwitchAccount.killSwitchAccount =>
    rw [String.append_right_inj "kill:" |>.mp hrest]
  case signalState.signalState =>
    rw [String.append_right_inj "state:" |>.mp hrest]
  case position.position =>
    obtain ⟨rfl, rfl⟩ := (joined_inj_right rfl hkey hkey').mp hrest
    rfl
  case instruments.instruments =>
    obtain ⟨rfl, rfl⟩ := (joined_inj_right rfl hkey hkey').mp hrest
    rfl
  case rateLimit.rateLimit =>
    obtain ⟨rfl, rfl⟩ := (joined_inj_left rfl hkey hkey').mp hrest
    rfl
  case mdHealth.mdHealth =>
    obtain ⟨hvenue, rfl⟩ := (joined_inj_right rfl hkey hkey').mp hrest
    rw [String.append_right_inj "health:" |>.mp hvenue]

end Key

/-! ### The counters of signals, orders and endpoints -/

/-- What a specialised counter counts. -/
inductive RateLimit
  | signal (symbol side : String)
  | order (accountId : String)
  | api (endpoint : String)
  deriving DecidableEq

namespace RateLimit

/-- The text of a counter's key. -/
def name : RateLimit → String
  | signal symbol side => signalRateLimit symbol side
  | order accountId => orderRateLimit accountId
  | api endpoint => apiRateLimit endpoint

/-- The generic counter behind it. -/
def key : RateLimit → Key
  | signal symbol side => .rateLimit "signal" (symbol ++ ":" ++ side)
  | order accountId => .rateLimit "order" accountId
  | api endpoint => .rateLimit "api" endpoint

/-- The parts before the last one are free of the separator. -/
def WellFormed : RateLimit → Prop
  | signal symbol side => ':' ∉ symbol.toList ∧ ':' ∉ side.toList
  | _ => True

/-- A counter has the text of its key. -/
theorem name_key (limit : RateLimit) : limit.key.name = limit.name := by
  cases limit <;> rfl

/-- The key of a counter is as well formed as the counter. -/
theorem wellFormed_key (limit : RateLimit) : limit.key.WellFormed := by
  cases limit <;> simp [key, Key.WellFormed]

/-- **Different counters have different names.** -/
theorem eq_of_name {limit limit' : RateLimit} (hlimit : limit.WellFormed)
    (hlimit' : limit'.WellFormed) (h : limit.name = limit'.name) : limit = limit' := by
  rw [← name_key, ← name_key] at h
  have hkey := Key.eq_of_name limit.wellFormed_key limit'.wellFormed_key h
  cases limit <;> cases limit' <;> simp [key] at hkey
  case signal.signal =>
    obtain ⟨rfl, rfl⟩ := (joined_inj_left rfl hlimit.1 hlimit'.1).mp hkey
    rfl
  case order.order => rw [hkey]
  case api.api => rw [hkey]

end RateLimit

/-- **Keys do not collide.** For all accounts, exchanges, venues, endpoints and ids, and all
symbols, sides, markets and scopes without `:`: a constructor gives different keys to different
arguments, keys of different families are different, and so are the counters of signals, orders and
endpoints, among each other and for different arguments. -/
theorem keys_distinct (key key' : Key) (limit limit' : RateLimit) (hkey : key.WellFormed)
    (hkey' : key'.WellFormed) (hlimit : limit.WellFormed) (hlimit' : limit'.WellFormed) :
    (key.name = key'.name ↔ key = key') ∧ (limit.name = limit'.name ↔ limit = limit') :=
  ⟨⟨Key.eq_of_name hkey hkey', fun h => h ▸ rfl⟩,
    ⟨RateLimit.eq_of_name hlimit hlimit', fun h => h ▸ rfl⟩⟩

/-- An account with a `:` in its id keeps its own kill switch and its own counters. -/
theorem keys_distinct_colon :
    accountKey "a:b" ≠ globalKey ∧
      signalRateLimit "BTCUSDT" "LONG" ≠ orderRateLimit "BTCUSDT:LONG" := by
  have h := keys_distinct (.killSwitchAccount "a:b") .killSwitch (.signal "BTCUSDT" "LONG")
    (.order "BTCUSDT:LONG") trivial trivial ⟨by decide, by decide⟩ trivial
  exact ⟨fun heq => absurd (h.1.mp heq) nofun, fun heq => absurd (h.2.mp heq) nofun⟩

end HftPlatform.Keys
