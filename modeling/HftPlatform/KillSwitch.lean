import HftPlatform.Lib.Wire
import HftPlatform.RiskGuard

/-!
# The kill switch in Redis

`KillSwitch` of `libs/rust/hft_redis/src/rate_limit.rs` over `get_bool` of `client.rs`, read in two
ways: `is_enabled` reads both levels, and gates 1 and 2 of the risk guard read them one by one. Both
let trading continue when Redis fails. But `is_enabled` stops at a failed read of the global key,
where the gates go on to the key of the account.

## Main results

* `stopped_of_isEnabled`: an order is stopped by the gates when `is_enabled` says so.
* `isEnabled_iff_stopped`: when the two readings agree.
-/

namespace HftPlatform

open Lib Wire

/-- What is stored under a key: the bytes of a string, or a value of another type. -/
inductive RedisValue
  | string (bytes : List UInt8)
  | other
  deriving DecidableEq, Repr

/-- The content of Redis, and the keys whose reads fail. -/
structure RedisStore where
  content : String → Option RedisValue
  down : String → Bool

namespace RedisStore

/-- `GET key` as an optional text. A value of another type or that is not UTF-8 is an error. -/
def getStr (store : RedisStore) (key : String) : Except Unit (Option String) :=
  if store.down key then .error ()
  else match store.content key with
    | none => .ok none
    | some .other => .error ()
    | some (.string bytes) =>
        match ofUtf8 bytes with
        | none => .error ()
        | some s => .ok (some s)

/-- A missing key reads as `false`, like every text that is not `"1"`. -/
def getBool (store : RedisStore) (key : String) : Except Unit Bool :=
  match store.getStr key with
  | .error e => .error e
  | .ok val => .ok (val == some "1")

/-- The read of the key succeeds, and finds the switch on. -/
def On (store : RedisStore) (key : String) : Prop :=
  store.down key = false ∧ store.content key = some (.string (utf8 "1"))

/-- The read of the key succeeds: there is a text, or nothing. -/
def Legible (store : RedisStore) (key : String) : Prop :=
  store.down key = false ∧
    (store.content key = none ∨ ∃ s, store.content key = some (.string (utf8 s)))

variable {store : RedisStore} {key : String}

/-- A switch that is on can be read. -/
theorem On.legible (h : store.On key) : store.Legible key :=
  ⟨h.1, Or.inr ⟨"1", h.2⟩⟩

/-- What a text is read from. -/
theorem getStr_eq_ok_iff {val : Option String} :
    store.getStr key = .ok val ↔
      store.down key = false ∧ store.content key = val.map fun s => .string (utf8 s) := by
  rw [getStr]
  cases hdown : store.down key with
  | true => simp
  | false =>
      cases hcontent : store.content key with
      | none => cases val <;> simp
      | some v =>
          cases v with
          | other => cases val <;> simp
          | string bytes =>
              cases htext : ofUtf8 bytes with
              | none =>
                  cases val with
                  | none => simp [htext]
                  | some s =>
                      have hne : bytes ≠ utf8 s := by
                        intro h
                        rw [ofUtf8_eq_some_iff.mpr h.symm] at htext
                        cases htext
                      simp [htext, hne]
              | some t =>
                  obtain rfl := ofUtf8_eq_some_iff.mp htext
                  cases val with
                  | none => simp [htext]
                  | some s =>
                      have hinj : utf8 t = utf8 s ↔ t = s := by
                        rw [← ofUtf8_eq_some_iff, ofUtf8_eq_some_iff.mpr rfl, Option.some_inj,
                          eq_comm]
                      simp [htext, hinj]

/-- A switch is read as on if it is on. -/
theorem getBool_eq_true_iff (store : RedisStore) (key : String) :
    store.getBool key = .ok true ↔ store.On key := by
  have hget : store.getBool key = .ok true ↔ store.getStr key = .ok (some "1") := by
    rw [getBool]
    cases store.getStr key with
    | error e => simp
    | ok val => simp
  rw [hget, getStr_eq_ok_iff]
  rfl

/-- A read fails if there is nothing legible. -/
theorem getBool_eq_error_iff (store : RedisStore) (key : String) :
    store.getBool key = .error () ↔ ¬ store.Legible key := by
  have hlegible : store.Legible key ↔ ∃ val, store.getStr key = .ok val := by
    constructor
    · rintro ⟨hdown, hnone | ⟨s, hs⟩⟩
      · exact ⟨none, getStr_eq_ok_iff.mpr ⟨hdown, hnone⟩⟩
      · exact ⟨some s, getStr_eq_ok_iff.mpr ⟨hdown, hs⟩⟩
    · rintro ⟨val, hval⟩
      obtain ⟨hdown, hcontent⟩ := getStr_eq_ok_iff.mp hval
      cases val with
      | none => exact ⟨hdown, Or.inl hcontent⟩
      | some s => exact ⟨hdown, Or.inr ⟨s, hcontent⟩⟩
  rw [hlegible, getBool]
  cases store.getStr key with
  | error e => simp
  | ok val => simp

end RedisStore

/-! ### The two readings -/

namespace KillSwitch

/-- The global kill switch. -/
def globalKey : String := "risk:kill"

/-- The kill switch of an account. -/
def accountKey (accountId : String) : String := "risk:kill:" ++ accountId

/-- Both levels at once; an error on either reads as off. -/
def isEnabled (store : RedisStore) (accountId : Option String) : Bool :=
  match store.getBool globalKey with
  | .ok true => true
  | .error _ => false
  | .ok false =>
      match accountId with
      | none => false
      | some id =>
          match store.getBool (accountKey id) with
          | .ok true => true
          | .ok false => false
          | .error _ => false

/-- The read of the global switch. -/
def checkGlobal (store : RedisStore) : Except Unit Bool := store.getBool globalKey

/-- The read of the switch of an account. -/
def checkAccount (store : RedisStore) (accountId : String) : Except Unit Bool :=
  store.getBool (accountKey accountId)

end KillSwitch

namespace RiskGuard

open KillSwitch

/-- The order was rejected by gate 1 or 2. -/
def CheckResult.stopped : CheckResult → Bool
  | .rejected .killSwitch _ => true
  | .rejected .killSwitchAccount _ => true
  | _ => false

/-- Gates 1 and 2 reject exactly when one of their reads finds the switch on. -/
theorem runGates_stopped_iff {rt : Runtime} {cfg : Config} {dynamic : DynamicLimits}
    {killGlobal killAccount : Except Unit Bool} {order : OrderCommand} :
    (runGates rt cfg dynamic killGlobal killAccount order).2.stopped = true ↔
      killGlobal = .ok true ∨ killAccount = .ok true := by
  have hglobal := killGate_snd rt order "GLOBAL_KILL" killGlobal
  have haccount := killGate_snd rt order "ACCOUNT_KILL" killAccount
  rw [runGates]
  cases hg : killGate rt order "GLOBAL_KILL" killGlobal with
  | mk globalEvents stoppedGlobal =>
      cases ha : killGate rt order "ACCOUNT_KILL" killAccount with
      | mk accountEvents stoppedAccount =>
          rw [hg] at hglobal
          rw [ha] at haccount
          rw [← hglobal, ← haccount]
          cases stoppedGlobal with
          | true => simp [CheckResult.stopped]
          | false =>
              cases stoppedAccount with
              | true => simp [CheckResult.stopped]
              | false =>
                  -- The gates that follow have reasons of their own.
                  simp only [Bool.false_eq_true, if_false, or_self, iff_false]
                  split
                  · simp [CheckResult.stopped]
                  · split <;> simp [CheckResult.stopped]

variable (rt : Runtime) (cfg : Config) (dynamic : DynamicLimits)

/-- What the gates do with an order, on what Redis answers. -/
def checkOrder (store : RedisStore) (order : OrderCommand) : CheckResult :=
  (runGates rt cfg dynamic (checkGlobal store) (checkAccount store order.accountId) order).2

end RiskGuard

namespace KillSwitch

open RiskGuard

variable {rt : Runtime} {cfg : Config} {dynamic : DynamicLimits} {store : RedisStore}
  {order : OrderCommand}

/-- `is_enabled` is on when the global switch is, or when that is off for sure and the switch of
the account is on. -/
theorem isEnabled_some_iff {id : String} :
    isEnabled store (some id) = true ↔
      store.On globalKey ∨ store.Legible globalKey ∧ store.On (accountKey id) := by
  have hglobal := store.getBool_eq_true_iff globalKey
  have herror := store.getBool_eq_error_iff globalKey
  have haccount := store.getBool_eq_true_iff (accountKey id)
  rw [isEnabled]
  cases hg : store.getBool globalKey with
  | error e =>
      have hill : ¬ store.Legible globalKey := herror.mp hg
      have hoff : ¬ store.On globalKey := fun h => hill h.legible
      simp [hill, hoff]
  | ok b =>
      rw [hg] at hglobal herror
      have hlegible : store.Legible globalKey := by
        by_contra h
        cases herror.mpr h
      cases b with
      | true => simp [hglobal.mp rfl]
      | false =>
          have hoff : ¬ store.On globalKey := by
            intro h
            cases hglobal.mpr h
          rw [← haccount]
          cases ha : store.getBool (accountKey id) with
          | error e => simp [hoff]
          | ok b => cases b <;> simp [hoff, hlegible]

/-- An order is stopped by a switch that is on. -/
theorem checkOrder_stopped_iff :
    (checkOrder rt cfg dynamic store order).stopped = true ↔
      store.On globalKey ∨ store.On (accountKey order.accountId) := by
  rw [checkOrder, runGates_stopped_iff, checkGlobal, checkAccount,
    RedisStore.getBool_eq_true_iff, RedisStore.getBool_eq_true_iff]

/-- The gates stop every order of an account whose switch `is_enabled` finds on. -/
theorem stopped_of_isEnabled (h : isEnabled store (some order.accountId) = true) :
    (checkOrder rt cfg dynamic store order).stopped = true := by
  rw [checkOrder_stopped_iff]
  rcases isEnabled_some_iff.mp h with hglobal | ⟨-, haccount⟩
  · exact Or.inl hglobal
  · exact Or.inr haccount

/-- **The two readings agree** exactly when the switch of the account is off or cannot be read, or
the global key can be read. -/
theorem isEnabled_iff_stopped (rt : Runtime) (cfg : Config) (dynamic : DynamicLimits)
    (store : RedisStore) (order : OrderCommand) :
    (isEnabled store (some order.accountId) = true ↔
        (checkOrder rt cfg dynamic store order).stopped = true) ↔
      (store.On (accountKey order.accountId) → store.Legible globalKey) := by
  rw [isEnabled_some_iff, checkOrder_stopped_iff]
  constructor
  · intro hagree hon
    rcases hagree.mpr (Or.inr hon) with hglobal | ⟨hlegible, -⟩
    · exact hglobal.legible
    · exact hlegible
  · intro hlegible
    constructor
    · rintro (hglobal | ⟨-, haccount⟩)
      · exact Or.inl hglobal
      · exact Or.inr haccount
    · rintro (hglobal | haccount)
      · exact Or.inl hglobal
      · exact Or.inr ⟨hlegible haccount, haccount⟩

/-- The switch of `paper-main` is on, and the read of the global key fails. -/
def paperKilled : RedisStore where
  content key := if key = "risk:kill:paper-main" then some (.string [0x31]) else none
  down key := key == "risk:kill"

/-- The gates stop an order that `is_enabled` would let through. -/
theorem paperKilled_disagrees :
    isEnabled paperKilled (some marketOrder.accountId) = false ∧
      checkOrder Runtime.reference defaultConfig {} paperKilled marketOrder =
        .rejected .killSwitchAccount "Kill switch active for account paper-main" := by
  decide +kernel

end KillSwitch

end HftPlatform
