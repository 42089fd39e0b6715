import HftPlatform.KillSwitch
import HftPlatform.Lib.LastWrite
import Mathlib.Data.List.Induction

/-!
# The kill switch as a store of flags

The operations of `KillSwitch` that write: `SET` and `DEL` on the key of the global switch, or on
that of an account. What they implement is a flag for the global switch and one for each account,
which no other operation touches.

## Main results

* `perform_represents`: each operation sets its flag, and keeps the others.
* `global_flagsAfter`, `account_flagsAfter`: a flag is what the last operation on it made it.
* `isEnabled_performAll_iff`: what `is_enabled` answers after any sequence of operations.
-/

namespace HftPlatform

open Lib Wire

namespace RedisStore

/-- `SET key val`, which replaces a value of any type. -/
def setStr (store : RedisStore) (key val : String) : Except Unit RedisStore :=
  if store.down key then .error ()
  else .ok { store with
    content := fun k => if k = key then some (.string (utf8 val)) else store.content k }

/-- `SET key ("1"|"0")`. -/
def setBool (store : RedisStore) (key : String) (val : Bool) : Except Unit RedisStore :=
  store.setStr key (if val then "1" else "0")

/-- `DEL key`, which succeeds on a missing key as well. -/
def del (store : RedisStore) (key : String) : Except Unit RedisStore :=
  if store.down key then .error ()
  else .ok { store with content := fun k => if k = key then none else store.content k }

/-- Redis holds nothing, and answers. -/
def empty : RedisStore where
  content _ := none
  down _ := false

end RedisStore

namespace KillSwitch

/-! ### The operations -/

/-- The global switch is turned on. -/
def enable (store : RedisStore) : Except Unit RedisStore := store.setBool globalKey true

/-- The switch of an account is turned on. -/
def enableAccount (store : RedisStore) (accountId : String) : Except Unit RedisStore :=
  store.setBool (accountKey accountId) true

/-- The global switch is deleted. -/
def disable (store : RedisStore) : Except Unit RedisStore := store.del globalKey

/-- The switch of an account is deleted. -/
def disableAccount (store : RedisStore) (accountId : String) : Except Unit RedisStore :=
  store.del (accountKey accountId)

/-- The operations on the switches. -/
inductive Operation
  | enable
  | disable
  | enableAccount (accountId : String)
  | disableAccount (accountId : String)
  deriving DecidableEq, Repr

/-- An operation on the store. -/
def Operation.perform (store : RedisStore) : Operation → Except Unit RedisStore
  | .enable => KillSwitch.enable store
  | .disable => KillSwitch.disable store
  | .enableAccount id => KillSwitch.enableAccount store id
  | .disableAccount id => KillSwitch.disableAccount store id

/-- The operations one after the other, up to the first error. -/
def performAll (store : RedisStore) (ops : List Operation) : Except Unit RedisStore :=
  ops.foldlM Operation.perform store

/-! ### The flags -/

/-- The state of the kill switch: a flag for all accounts, and one for each. -/
structure Flags where
  global : Bool
  account : String → Bool

/-- All switches are off. -/
def Flags.off : Flags where
  global := false
  account _ := false

/-- The switch of an account is set. -/
def Flags.setAccount (flags : Flags) (id : String) (val : Bool) : Flags :=
  { flags with account := fun id' => if id' = id then val else flags.account id' }

/-- An operation on the switches. -/
def Flags.apply (flags : Flags) : Operation → Flags
  | .enable => { flags with global := true }
  | .disable => { flags with global := false }
  | .enableAccount id => flags.setAccount id true
  | .disableAccount id => flags.setAccount id false

/-- What an operation makes of the global flag, if it is about it. -/
def Operation.setsGlobal : Operation → Option Bool
  | .enable => some true
  | .disable => some false
  | _ => none

/-- What an operation makes of the flag of an account, if it is about it. -/
def Operation.setsAccount (id : String) : Operation → Option Bool
  | .enableAccount id' => if id' = id then some true else none
  | .disableAccount id' => if id' = id then some false else none
  | _ => none

/-- The flags after some operations. -/
def flagsAfter (ops : List Operation) : Flags := ops.foldl Flags.apply .off

variable {flags : Flags} {op : Operation} {ops : List Operation} {id : String}

/-- The global switch after an operation. -/
theorem global_apply : (flags.apply op).global = op.setsGlobal.getD flags.global := by
  cases op <;> rfl

/-- The switch of an account after an operation. -/
theorem account_apply :
    (flags.apply op).account id = (op.setsAccount id).getD (flags.account id) := by
  cases op with
  | enable => rfl
  | disable => rfl
  | enableAccount id' =>
      simp only [Flags.apply, Flags.setAccount, Operation.setsAccount, @eq_comm _ id' id]
      split <;> rfl
  | disableAccount id' =>
      simp only [Flags.apply, Flags.setAccount, Operation.setsAccount, @eq_comm _ id' id]
      split <;> rfl

/-- A flag that the operations of a sequence set one by one, from off. -/
theorem foldl_flag (read : Flags → Bool) (sets : Operation → Option Bool)
    (hoff : read .off = false)
    (hset : ∀ flags op, read (flags.apply op) = (sets op).getD (read flags)) :
    read (flagsAfter ops) = (lastWrite sets ops).getD false := by
  induction ops using List.reverseRecOn with
  | nil => exact hoff
  | append_singleton ops op ih =>
      rw [flagsAfter, List.foldl_append, List.foldl_cons, List.foldl_nil, hset,
        show read (ops.foldl Flags.apply .off) = _ from ih, lastWrite_concat]
      cases sets op <;> rfl

/-- The global flag is what the last global operation made it. -/
theorem global_flagsAfter :
    (flagsAfter ops).global = true ↔ lastWrite Operation.setsGlobal ops = some true := by
  rw [foldl_flag Flags.global Operation.setsGlobal rfl fun flags op => global_apply]
  cases lastWrite Operation.setsGlobal ops <;> simp

/-- The flag of an account is what the last operation on the account made it. -/
theorem account_flagsAfter :
    (flagsAfter ops).account id = true ↔
      lastWrite (Operation.setsAccount id) ops = some true := by
  rw [foldl_flag (fun flags => flags.account id) (Operation.setsAccount id) rfl
    fun flags op => account_apply]
  cases lastWrite (Operation.setsAccount id) ops <;> simp

/-! ### The keys -/

/-- No account has the key of the global switch. -/
theorem accountKey_ne_globalKey : accountKey id ≠ globalKey := by
  intro h
  have hlength := congrArg String.length h
  simp only [accountKey, globalKey, String.length_append] at hlength
  have h₁ : "risk:kill:".length = 10 := by decide
  have h₂ : "risk:kill".length = 9 := by decide
  omega

/-- No two accounts have the same key. -/
theorem accountKey_inj {id' : String} : accountKey id = accountKey id' ↔ id = id' := by
  rw [accountKey, accountKey, String.append_right_inj]

/-! ### The store represents the flags -/

/-- The key holds `"1"`, or nothing. -/
def HoldsFlag (store : RedisStore) (key : String) (flag : Bool) : Prop :=
  store.content key = if flag then some (.string (utf8 "1")) else none

/-- Redis answers, and each key holds its flag. -/
structure Represents (store : RedisStore) (flags : Flags) : Prop where
  up : ∀ key, store.down key = false
  global : HoldsFlag store globalKey flags.global
  account : ∀ id, HoldsFlag store (accountKey id) (flags.account id)

variable {store store' : RedisStore}

/-- In the empty store all switches are off. -/
theorem represents_empty : Represents .empty .off :=
  ⟨fun _ => rfl, rfl, fun _ => rfl⟩

/-- A write of one key leaves the flag there, and what the other keys hold. -/
theorem write_spec (key : String) (flag : Bool) (hup : ∀ key, store.down key = false) :
    ∃ store', (if flag then store.setBool key true else store.del key) = .ok store' ∧
      (∀ key, store'.down key = false) ∧ HoldsFlag store' key flag ∧
      ∀ key', key' ≠ key → store'.content key' = store.content key' := by
  cases flag with
  | true =>
      refine ⟨{ store with
        content := fun k => if k = key then some (.string (utf8 "1")) else store.content k },
        ?_, hup, if_pos rfl, fun key' hne => if_neg hne⟩
      simp [RedisStore.setBool, RedisStore.setStr, hup]
  | false =>
      refine ⟨{ store with content := fun k => if k = key then none else store.content k },
        ?_, hup, if_pos rfl, fun key' hne => if_neg hne⟩
      simp [RedisStore.del, hup]

/-- A write of the global key sets the global flag. -/
theorem writeGlobal_represents (h : Represents store flags) (flag : Bool) :
    ∃ store', (if flag then store.setBool globalKey true else store.del globalKey) = .ok store' ∧
      Represents store' { flags with global := flag } := by
  obtain ⟨store', hok, hup, hflag, hframe⟩ := write_spec globalKey flag h.up
  refine ⟨store', hok, hup, hflag, fun id => ?_⟩
  rw [HoldsFlag, hframe _ accountKey_ne_globalKey]
  exact h.account id

/-- A write of the key of an account sets the flag of that account. -/
theorem writeAccount_represents (h : Represents store flags) (id : String) (flag : Bool) :
    ∃ store', (if flag then store.setBool (accountKey id) true else store.del (accountKey id)) =
        .ok store' ∧ Represents store' (flags.setAccount id flag) := by
  obtain ⟨store', hok, hup, hflag, hframe⟩ := write_spec (accountKey id) flag h.up
  refine ⟨store', hok, hup, ?_, fun id' => ?_⟩
  · rw [HoldsFlag, hframe _ accountKey_ne_globalKey.symm]
    exact h.global
  · have hset : (flags.setAccount id flag).account id' =
        if id' = id then flag else flags.account id' := rfl
    rw [hset]
    by_cases hid : id' = id
    · rw [hid, if_pos rfl]
      exact hflag
    · rw [if_neg hid, HoldsFlag, hframe _ (mt accountKey_inj.mp hid)]
      exact h.account id'

/-- **Each operation** succeeds, and does to the store what it does to the flags. -/
theorem perform_represents (h : Represents store flags) (op : Operation) :
    ∃ store', op.perform store = .ok store' ∧ Represents store' (flags.apply op) := by
  cases op with
  | enable => exact writeGlobal_represents h true
  | disable => exact writeGlobal_represents h false
  | enableAccount id => exact writeAccount_represents h id true
  | disableAccount id => exact writeAccount_represents h id false

/-- So does a sequence of operations. -/
theorem performAll_represents (ops : List Operation) :
    ∃ store, performAll .empty ops = .ok store ∧ Represents store (flagsAfter ops) := by
  induction ops using List.reverseRecOn with
  | nil => exact ⟨.empty, rfl, represents_empty⟩
  | append_singleton ops op ih =>
      obtain ⟨store, hok, hstore⟩ := ih
      obtain ⟨store', hok', hstore'⟩ := perform_represents hstore op
      refine ⟨store', ?_, ?_⟩
      · rw [performAll, List.foldlM_append, show ops.foldlM Operation.perform .empty = _ from hok]
        simp only [List.foldlM_cons, List.foldlM_nil, bind_pure]
        exact hok'
      · rw [flagsAfter, List.foldl_append]
        exact hstore'

/-! ### What `is_enabled` answers -/

/-- A key that can be read is on if its flag is set. -/
theorem HoldsFlag.on_iff {key : String} {flag : Bool} (h : HoldsFlag store key flag)
    (hup : store.down key = false) : store.On key ↔ flag = true := by
  rw [RedisStore.On, hup, h]
  cases flag <;> simp

/-- A key that holds a flag can be read as one. -/
theorem HoldsFlag.legible {key : String} {flag : Bool} (h : HoldsFlag store key flag)
    (hup : store.down key = false) : store.Legible key := by
  rw [RedisStore.Legible, hup, h]
  cases flag with
  | true => exact ⟨rfl, Or.inr ⟨"1", rfl⟩⟩
  | false => exact ⟨rfl, Or.inl rfl⟩

/-- An account is stopped by its own flag or by the global one. -/
theorem isEnabled_some_flags (h : Represents store flags) :
    isEnabled store (some id) = true ↔ flags.global = true ∨ flags.account id = true := by
  rw [isEnabled_some_iff, h.global.on_iff (h.up _), (h.account id).on_iff (h.up _)]
  simp [h.global.legible (h.up _)]

/-- Without an account only the global flag counts. -/
theorem isEnabled_none_flags (h : Represents store flags) :
    isEnabled store none = true ↔ flags.global = true := by
  have hglobal := h.global.on_iff (h.up _)
  rw [← RedisStore.getBool_eq_true_iff] at hglobal
  rw [isEnabled, ← hglobal]
  cases store.getBool globalKey with
  | error e => simp
  | ok b => cases b <;> simp

/-- **The kill switch as a store of flags.** From an empty store, with no errors of Redis, every
sequence of operations succeeds; `is_enabled` then answers for an account by the last operation on
the global switch and the last one on that account, and without an account by the former alone; and
an operation on one account changes neither the answer for another account nor that for none. -/
theorem isEnabled_performAll_iff (ops : List Operation) :
    ∃ store, performAll .empty ops = .ok store ∧
      (∀ a, isEnabled store (some a) = true ↔
        lastWrite Operation.setsGlobal ops = some true ∨
          lastWrite (Operation.setsAccount a) ops = some true) ∧
      (isEnabled store none = true ↔ lastWrite Operation.setsGlobal ops = some true) ∧
      ∀ (a : String) (op : Operation), op = .enableAccount a ∨ op = .disableAccount a →
        ∃ store', op.perform store = .ok store' ∧
          (∀ b, b ≠ a → isEnabled store' (some b) = isEnabled store (some b)) ∧
          isEnabled store' none = isEnabled store none := by
  obtain ⟨store, hok, hstore⟩ := performAll_represents ops
  refine ⟨store, hok, fun a => ?_, ?_, fun a op hop => ?_⟩
  · rw [isEnabled_some_flags hstore, global_flagsAfter, account_flagsAfter]
  · rw [isEnabled_none_flags hstore, global_flagsAfter]
  · obtain ⟨store', hok', hstore'⟩ := perform_represents hstore op
    have hglobal : op.setsGlobal = none := by
      rcases hop with rfl | rfl <;> rfl
    refine ⟨store', hok', fun b hne => ?_, ?_⟩
    · have haccount : op.setsAccount b = none := by
        rcases hop with rfl | rfl <;> exact if_neg hne.symm
      rw [Bool.eq_iff_iff, isEnabled_some_flags hstore', isEnabled_some_flags hstore, global_apply,
        account_apply, hglobal, haccount]
      rfl
    · rw [Bool.eq_iff_iff, isEnabled_none_flags hstore', isEnabled_none_flags hstore, global_apply,
        hglobal]
      rfl

/-- An account whose id begins with a colon, and one with an empty id. -/
example : (performAll .empty [.enableAccount "", .enableAccount ":a", .disableAccount ""]).map
    (fun store => [some "", some ":a", none].map (isEnabled store)) = .ok [false, true, false] := by
  decide +kernel

end KillSwitch

end HftPlatform
