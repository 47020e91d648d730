import Mathlib.Algebra.Order.BigOperators.Group.List
import Numera.Foundation.Budget
import Numera.Relay.DailyCap
import Numera.Relay.Sending

/-! # What the counter of the day covers

What a transaction costs is divided down to gwei, made a number, and added to a counter in
Redis. The division drops what is less than a gwei, and a transaction whose answer is lost is
not counted at all. Once every request has recorded what it sent, the counter covers the day
without a rounded number if and only if every transaction costs whole gwei, none that costs
anything is lost, and the amounts are numbers (`spendCovered_iff`).
-/

namespace Numera

open Async (CallsOnly Follows System)

/-! ## Numbers -/

namespace JsNumber

/-- A value of at most 53 binary digits before its trailing zeros. -/
def Exact (value : Nat) : Prop := ∃ digits exponent, digits < 2 ^ 53 ∧ value = digits * 2 ^ exponent

/-- The last digit that a number from `2 ^ 53` on can have. -/
theorem exact_iff_dvd {value : Nat} (large : 2 ^ 53 ≤ value) :
    Exact value ↔ 2 ^ (value.log2 - 52) ∣ value := by
  have nonzero : value ≠ 0 := by omega
  constructor
  · rintro ⟨digits, exponent, short, rfl⟩
    have below : 2 ^ (digits * 2 ^ exponent).log2 < 2 ^ (53 + exponent) := by
      calc 2 ^ (digits * 2 ^ exponent).log2 ≤ digits * 2 ^ exponent := Nat.log2_self_le nonzero
        _ < 2 ^ 53 * 2 ^ exponent := Nat.mul_lt_mul_of_pos_right short (by positivity)
        _ = 2 ^ (53 + exponent) := (Nat.pow_add ..).symm
    have shift := (Nat.pow_lt_pow_iff_right (by decide)).mp below
    exact (Nat.pow_dvd_pow 2 (by omega)).trans (Nat.dvd_mul_left _ _)
  · rintro ⟨digits, same⟩
    refine ⟨digits, value.log2 - 52, ?_, by rw [Nat.mul_comm]; exact same⟩
    have long : 52 ≤ value.log2 := (Nat.le_log2 nonzero).mpr (by omega)
    have below : 2 ^ (value.log2 - 52) * digits < 2 ^ (value.log2 - 52) * 2 ^ 53 := by
      calc 2 ^ (value.log2 - 52) * digits = value := same.symm
        _ < 2 ^ (value.log2 + 1) := Nat.lt_log2_self
        _ = 2 ^ (value.log2 - 52) * 2 ^ 53 := by rw [← Nat.pow_add]; congr 1; omega
    exact Nat.lt_of_mul_lt_mul_left below

/-- A value becomes the number it is when it is one. -/
theorem ofBigInt_eq_iff (value : Nat) : ofBigInt value = value ↔ Exact value := by
  by_cases small : value < 2 ^ 53
  · rw [ofBigInt, if_pos small]
    exact iff_of_true rfl ⟨value, 0, small, (Nat.mul_one _).symm⟩
  · rw [exact_iff_dvd (Nat.le_of_not_lt small), ofBigInt, if_neg small]
    dsimp only
    constructor
    · intro same
      split at same
      · exact ⟨_, same.symm.trans (Nat.mul_comm _ _)⟩
      · exact ⟨_, same.symm.trans (Nat.mul_comm _ _)⟩
    · intro divides
      have positive : 0 < 2 ^ (value.log2 - 52) := by positivity
      have whole : value % 2 ^ (value.log2 - 52) = 0 := Nat.mod_eq_zero_of_dvd divides
      rw [if_neg (by omega)]
      exact Nat.div_mul_cancel divides

end JsNumber

/-! ## What is counted -/

/-- A call of the counters in Redis. -/
def RelayCall.counts : RelayCall → Bool
  | incr _ | incrby _ _ | expire _ _ | get _ => true
  | _ => false

/-- The environment on one day by the clock, with a Redis that answers. Of a call that is
performed it is recorded whether its answer arrived. -/
def dayEnvironment (day : Nat) :
    Async.Environment RelayCall.Answer RelayError RelayWorld (RelayCall × Bool) :=
  fun call world answer record later =>
    world.now / 86400000 = day ∧ (call.counts = true → ∃ value, answer = .ok value) ∧
      ∃ made, relayEnvironment call world answer made later ∧
        record = made.map fun performed => (performed, answer.toBool)

/-- How far a request is with its last transaction: what it cost, and the day it is to be
recorded under. -/
inductive Charge where
  | clear
  | owed (cost : Nat)
  | dated (cost day : Nat)
  | failed
  deriving DecidableEq

namespace Charge

/-- The stage after a call. -/
def next (stage : Charge) (_ : RelayWorld) :
    (call : RelayCall) → Except RelayError call.Answer → Charge
  | .sendTransaction tx, .ok _ => .owed tx.cost
  | .dateNow, .ok now =>
      match stage with
      | owed cost => .dated cost (now / 86400000)
      | reached => reached
  | .dateNow, .error _ =>
      match stage with
      | owed _ => .failed
      | reached => reached
  | .incrby _ _, .ok _ => .clear
  | .incrby _ _, .error _ => .failed
  | _, _ => stage

/-- A request counts what it sent before it sends again, in gwei, under the day of the clock. -/
def Allows (stage : Charge) : RelayCall → Prop
  | .sendTransaction _ => stage = .clear
  | .incrby key amount => ∃ cost day, stage = .dated cost day ∧ key = .spend day ∧
      amount = JsNumber.ofBigInt (cost / RelayService.gweiWei)
  | .incr key => ∃ account, key = .rate account
  | .expire key seconds => (∃ account, key = .rate account) ∨ seconds = 172800
  | _ => True

/-- What a request has yet to count. -/
def due : Charge → Nat
  | owed cost | dated cost _ => JsNumber.ofBigInt (cost / RelayService.gweiWei)
  | clear | failed => 0

end Charge

variable (lib : RelayLibraries) (cfg : RelayConfig) (day : Nat)

/-- The services on one day. -/
def spendSystem (initial : RelayWorld) :
    System RelayCall.Answer RelayError Nat RelayRequest Charge RelayWorld (RelayCall × Bool) where
  start := RelayRequest.start lib cfg
  arrival _ := .clear
  next _ := Charge.next
  env := dayEnvironment day
  drift := RelayWorld.Changes
  initial := initial

/-- The transactions that have been broadcast, with or without an answer. -/
def sent (answered : Bool) (records : List (RelayCall × Bool)) : List RelayTransaction :=
  records.filterMap fun entry =>
    match entry.1 with
    | .sendTransaction tx => if entry.2 = answered then some tx else none
    | _ => none

/-- What has been added to the counter. -/
def counted (records : List (RelayCall × Bool)) : Nat :=
  (records.map fun entry =>
    match entry.1 with
    | .incrby _ amount => amount
    | _ => 0).sum

/-- The values that are made numbers: what is to be counted of each transaction, and each total
that Redis answers. -/
def conversions : Nat → List (RelayCall × Bool) → List Nat
  | _, [] => []
  | total, (.sendTransaction tx, true) :: rest =>
      tx.cost / RelayService.gweiWei :: conversions total rest
  | total, (.incrby _ amount, _) :: rest => (total + amount) :: conversions (total + amount) rest
  | total, _ :: rest => conversions total rest

namespace RelayWorld

/-- The counter of a day, in gwei. -/
def spent (world : RelayWorld) (day : Nat) : Nat :=
  ((world.counter (.spend day)).map Counter.value).getD 0

/-- The counter of a day stays to its end. -/
def Lasts (world : RelayWorld) (day : Nat) : Prop :=
  ∀ counter, world.counters (.spend day) = some counter →
    counter.expiresAt.all (fun expiresAt => (day + 1) * 86400000 ≤ expiresAt) = true

end RelayWorld

/-- `spentTodayWei` answers the counter of the day in wei. -/
theorem evaluate_spentTodayWei (node : RelayNode) (world : RelayWorld) :
    Async.evaluate node.respond RelayService.spentTodayWei world =
      (.ok (world.spent (world.now / 86400000) * RelayService.gweiWei), world) := rfl

/-- The counter has risen by what has been billed at least, and no number was rounded. -/
structure SpendCovered (initial world : RelayWorld) (records : List (RelayCall × Bool)) : Prop where
  covers : world.billed + initial.spent day * RelayService.gweiWei ≤
    initial.billed + world.spent day * RelayService.gweiWei
  unrounded : ∀ value ∈ conversions (initial.spent day) records, JsNumber.ofBigInt value = value

/-- Every transaction that is answered costs whole gwei, the others cost nothing, and the amounts
are numbers. -/
structure WholeGwei (initial : RelayWorld) (records : List (RelayCall × Bool)) : Prop where
  whole : ∀ tx ∈ sent true records, RelayService.gweiWei ∣ tx.cost
  lost : ∀ tx ∈ sent false records, tx.cost = 0
  exact : ∀ value ∈ conversions (initial.spent day) records, JsNumber.Exact value

/-! ## One call -/

section Calls

variable {day} {world later : RelayWorld} {call : RelayCall}
  {answer : Except RelayError call.Answer} {record : List (RelayCall × Bool)} {stage : Charge}

/-- What a call does: nothing when it is refused, and otherwise it is recorded. -/
theorem dayEnvironment_cases (answered : dayEnvironment day call world answer record later) :
    (record = [] ∧ later = world ∧ call.external ∧ ∃ thrown, answer = .error thrown) ∨
      record = [(call, answer.toBool)] ∧ ∃ given, call.Performs world given later ∧
        (answer = given ∨ call.external ∧ ∃ thrown, answer = .error thrown) := by
  obtain ⟨-, -, made, answered, rfl⟩ := answered
  rcases relayEnvironment_cases answered with
    ⟨rfl, same, outside, error, thrown⟩ | ⟨rfl, given, performed, same⟩
  · exact .inl ⟨rfl, same, outside, _, thrown⟩
  · refine .inr ⟨rfl, given, performed, same.imp_right ?_⟩
    rintro ⟨outside, error, thrown⟩
    exact ⟨outside, _, thrown⟩

@[simp] theorem sent_append (answered : Bool) (first second : List (RelayCall × Bool)) :
    sent answered (first ++ second) = sent answered first ++ sent answered second :=
  List.filterMap_append

@[simp] theorem counted_append (first second : List (RelayCall × Bool)) :
    counted (first ++ second) = counted first + counted second := by
  simp [counted]

/-- What is billed rises by what is broadcast. -/
theorem billed_of_day (answered : dayEnvironment day call world answer record later) :
    later.billed = world.billed + ((sent true record).map RelayTransaction.cost).sum +
      ((sent false record).map RelayTransaction.cost).sum := by
  by_cases sends : ∃ tx, call = .sendTransaction tx
  · obtain ⟨tx, rfl⟩ := sends
    rcases dayEnvironment_cases answered with ⟨rfl, rfl, -⟩ | ⟨rfl, given, ⟨-, -, rfl⟩, -⟩
    · rfl
    · rw [RelayWorld.billed_broadcast]
      cases answer.toBool <;> simp [sent]
  · have silent : ∀ given, sent given record = [] := by
      intro given
      rcases dayEnvironment_cases answered with ⟨rfl, -⟩ | ⟨rfl, -⟩
      · rfl
      · cases call with
        | sendTransaction tx => exact absurd ⟨tx, rfl⟩ sends
        | _ => rfl
    obtain ⟨-, -, made, answered, -⟩ := answered
    rw [RelayWorld.billed_answered answered fun tx same => sends ⟨tx, same⟩, silent, silent]
    rfl

/-- The counter of a day as it is kept, whether or not it has expired. -/
def RelayWorld.kept (world : RelayWorld) (day : Nat) : Nat :=
  ((world.counters (.spend day)).map Counter.value).getD 0

/-- Until the day ends its counter is there. -/
theorem counter_of_lasts (lasts : world.Lasts day) (early : world.now < (day + 1) * 86400000) :
    world.counter (.spend day) = world.counters (.spend day) := by
  unfold RelayWorld.counter
  cases found : world.counters (.spend day) with
  | none => rfl
  | some counter =>
      have stays := lasts counter found
      rw [Option.filter_some, if_pos]
      cases expires : counter.expiresAt with
      | none => rfl
      | some expiresAt =>
          rw [expires, Option.all_some, decide_eq_true_eq] at stays
          rw [Option.all_some, decide_eq_true_eq]
          exact Nat.lt_of_lt_of_le early stays

theorem spent_of_lasts (lasts : world.Lasts day) (early : world.now < (day + 1) * 86400000) :
    world.spent day = world.kept day := by
  rw [RelayWorld.spent, counter_of_lasts lasts early, RelayWorld.kept]

/-- What is kept of a day changes with its own counter only. -/
theorem kept_congr (same : later.counters (.spend day) = world.counters (.spend day)) :
    (world.Lasts day → later.Lasts day) ∧ later.kept day = world.kept day := by
  rw [RelayWorld.Lasts, RelayWorld.Lasts, RelayWorld.kept, RelayWorld.kept, same]
  exact ⟨id, rfl⟩

/-- Adding to the counter of the day. -/
theorem kept_incrby (lasts : world.Lasts day) (early : world.now < (day + 1) * 86400000)
    (amount : Nat) :
    (world.incrby (.spend day) amount).2.Lasts day ∧
      (world.incrby (.spend day) amount).2.kept day = world.kept day + amount := by
  have found : (world.incrby (.spend day) amount).2.counters (.spend day) =
      some { (world.counters (.spend day)).getD ⟨0, none⟩ with
        value := ((world.counters (.spend day)).getD ⟨0, none⟩).value + amount } := by
    rw [RelayWorld.incrby, counter_of_lasts lasts early]
    exact if_pos rfl
  rw [RelayWorld.Lasts, RelayWorld.kept, found, RelayWorld.kept]
  cases present : world.counters (.spend day) with
  | none =>
      refine ⟨fun counter same => ?_, rfl⟩
      obtain rfl := Option.some.inj same
      rfl
  | some kept =>
      refine ⟨fun counter same => ?_, rfl⟩
      obtain rfl := Option.some.inj same
      exact lasts kept present

/-- A counter of a day that is to expire in two days lasts. -/
theorem kept_expire (lasts : world.Lasts day) (today : world.now / 86400000 = day) :
    (world.expire (.spend day) 172800).Lasts day ∧
      (world.expire (.spend day) 172800).kept day = world.kept day := by
  unfold RelayWorld.expire
  rw [counter_of_lasts lasts (by omega)]
  cases present : world.counters (.spend day) with
  | none => exact ⟨lasts, rfl⟩
  | some kept =>
      have found : (world.setCounter (.spend day)
          { kept with expiresAt := some (world.now + 172800 * 1000) }).counters (.spend day) =
          some { kept with expiresAt := some (world.now + 172800 * 1000) } := if_pos rfl
      dsimp only
      rw [RelayWorld.Lasts, RelayWorld.kept, RelayWorld.kept, found, present]
      refine ⟨fun counter same => ?_, rfl⟩
      obtain rfl := Option.some.inj same
      rw [Option.all_some, decide_eq_true_eq]
      omega

/-- The counter rises by what is added to it. -/
theorem kept_of_day (answered : dayEnvironment day call world answer record later)
    (allows : stage.Allows call) (dated : ∀ cost other, stage = .dated cost other → other = day)
    (lasts : world.Lasts day) :
    later.Lasts day ∧ later.kept day = world.kept day + counted record := by
  have today := answered.1
  rcases dayEnvironment_cases answered with ⟨rfl, rfl, -⟩ | ⟨rfl, given, performed, -⟩
  · exact ⟨lasts, rfl⟩
  · cases call with
    | incrby key amount =>
        obtain ⟨cost, other, held, rfl, -⟩ := allows
        obtain rfl := dated cost other held
        obtain ⟨-, rfl⟩ := performed
        exact kept_incrby lasts (by omega) amount
    | incr key =>
        obtain ⟨account, rfl⟩ := allows
        obtain ⟨-, rfl⟩ := performed
        have other : (world.incrby (.rate account) 1).2.counters (.spend day) =
            world.counters (.spend day) :=
          world.counters_setCounter _ fun same => by cases same
        obtain ⟨stays, same⟩ := kept_congr other
        exact ⟨stays lasts, same⟩
    | expire key seconds =>
        obtain ⟨-, rfl⟩ := performed
        by_cases apart : RedisKey.spend day = key
        · subst apart
          rcases allows with ⟨account, other⟩ | rfl
          · cases other
          · exact kept_expire lasts today
        · obtain ⟨stays, same⟩ := kept_congr (world.counters_expire seconds apart)
          exact ⟨stays lasts, same⟩
    | sendTransaction | turn =>
        obtain ⟨-, -, rfl⟩ := performed
        exact ⟨lasts, rfl⟩
    | verifyRelayable | call | estimateGas | estimateFeesPerGas =>
        obtain rfl : later = world := performed
        exact ⟨lasts, rfl⟩
    | _ =>
        obtain ⟨-, rfl⟩ := performed
        exact ⟨lasts, rfl⟩

/-- A call adds what the request has yet to count of what it has sent before, or sends. -/
theorem due_of_day (answered : dayEnvironment day call world answer record later)
    (allows : stage.Allows call) :
    counted record + (stage.next world call answer).due =
      stage.due + ((sent true record).map fun tx =>
        JsNumber.ofBigInt (tx.cost / RelayService.gweiWei)).sum := by
  have served := answered.2.1
  rcases dayEnvironment_cases answered with
    ⟨rfl, -, outside, thrown, rfl⟩ | ⟨rfl, given, performed, same⟩
  · -- A refused call counts nothing, and a counter is not refused.
    cases call with
    | incrby key amount =>
        obtain ⟨value, same⟩ := served rfl
        cases same
    | dateNow => cases outside
    | _ => exact Nat.zero_add _
  · cases call with
    | sendTransaction tx =>
        obtain rfl : stage = .clear := allows
        cases answer with
        | ok hash => simp [sent, counted, Charge.next, Charge.due, Except.toBool]
        | error thrown => simp [sent, counted, Charge.next, Charge.due, Except.toBool]
    | incrby key amount =>
        obtain ⟨cost, other, rfl, -, rfl⟩ := allows
        obtain ⟨value, rfl⟩ := served rfl
        rfl
    | dateNow =>
        obtain ⟨rfl, -⟩ := performed
        obtain rfl | ⟨outside, -⟩ := same
        · cases stage <;> simp [sent, counted, Charge.next, Charge.due]
        · cases outside
    | _ => simp [sent, counted, Charge.next]

/-- A request dates what it has sent by the day of the clock. -/
theorem dated_of_day (answered : dayEnvironment day call world answer record later)
    (dated : ∀ cost other, stage = .dated cost other → other = day) {cost other : Nat}
    (reached : stage.next world call answer = .dated cost other) : other = day := by
  have today := answered.1
  cases call with
  | sendTransaction tx =>
      cases answer with
      | ok hash => cases reached
      | error thrown => exact dated cost other reached
  | incrby key amount => cases answer <;> cases reached
  | dateNow =>
      rcases dayEnvironment_cases answered with ⟨-, -, outside, -⟩ | ⟨-, given, ⟨rfl, -⟩, same⟩
      · cases outside
      · obtain rfl | ⟨outside, -⟩ := same
        · cases stage with
          | owed owing =>
              obtain ⟨-, rfl⟩ := Charge.dated.inj reached
              exact today
          | _ => exact dated cost other reached
        · cases outside
  | _ => exact dated cost other reached

end Calls

/-! ## One request -/

/-- A request that owes nothing is not concerned by the other calls. -/
theorem clear_beside (call : RelayCall) (beside : call.besideSpend = true) :
    Charge.clear.Allows call ∧ ∀ world answer, Charge.clear.next world call answer = .clear := by
  cases call with
  | sendTransaction | get | incrby => cases beside
  | incr key =>
      cases key with
      | rate account => exact ⟨⟨account, rfl⟩, fun _ _ => rfl⟩
      | spend day => cases beside
  | expire key seconds =>
      cases key with
      | rate account => exact ⟨.inl ⟨account, rfl⟩, fun _ _ => rfl⟩
      | spend day => cases beside
  | dateNow => exact ⟨trivial, fun _ answer => by cases answer <;> rfl⟩
  | _ => exact ⟨trivial, fun _ _ => rfl⟩

/-- Reading the counter owes nothing. -/
theorem enforceDailyCap_charges (cfg : RelayConfig) :
    Sends Charge.next Charge.Allows (· = .clear) .clear (RelayService.enforceDailyCap cfg) := by
  refine ⟨trivial, fun _ now => ?_⟩
  cases now with
  | error thrown => exact Sends.error thrown
  | ok now =>
      refine ⟨trivial, fun _ spent => ?_⟩
      cases spent with
      | error thrown => exact Sends.error thrown
      | ok spent =>
          change Sends Charge.next Charge.Allows (· = .clear) .clear
            (if spent.getD 0 * RelayService.gweiWei ≥ cfg.dailyCapWei then throw _ else return ())
          split
          · exact .error _
          · exact fun _ _ => rfl

/-- What is owed is counted. -/
theorem recordSpend_charges (wei : Nat) :
    Sends Charge.next Charge.Allows (· = .clear) (.owed wei) (RelayService.recordSpend wei) := by
  refine ⟨trivial, fun _ now => ?_⟩
  cases now with
  | error thrown => exact Sends.error thrown
  | ok now =>
      refine ⟨⟨wei, now / 86400000, rfl, rfl, rfl⟩, fun _ total => ?_⟩
      cases total with
      | error thrown => exact Sends.error thrown
      | ok total => exact ⟨.inr rfl, fun _ _ _ _ => rfl⟩

/-- A transaction is owed for once it is sent, and counted right after. -/
theorem chargeRules (cfg : RelayConfig) :
    SendingRules Charge.next Charge.Allows cfg (· = .clear) (· = .clear) where
  idle_of_passed _ cleared := cleared
  beside := by
    rintro stage call rfl beside
    exact clear_beside call beside
  leaves _ _ := ⟨trivial, fun _ _ => rfl⟩
  caps := by
    rintro stage rfl
    exact enforceDailyCap_charges cfg
  sends := by
    rintro stage destination data gas rfl
    refine Follows.neutral_bind (besideSpend_gasFor gas)
      (fun call beside => (clear_beside call beside).1)
      (fun call beside => (clear_beside call beside).2) (fun policy => ?_)
      fun _ _ same => by cases same
    refine Follows.perform_bind rfl (fun _ hash => ?_) fun _ _ _ same => by cases same
    exact Sends.bind (recordSpend_charges _) fun _ reached cleared _ _ => cleared

/-! ## Runs -/

/-- A request on one day. -/
abbrev Charging : Type := Async.Thread RelayCall.Answer RelayError Nat RelayRequest Charge

/-- What has been billed, counted and is still due, after some calls. -/
structure SpendAccounts (initial world : RelayWorld) (records : List (RelayCall × Bool))
    (threads : List Charging) : Prop where
  later : initial.now ≤ world.now
  lasts : world.Lasts day
  dated : ∀ thread ∈ threads, ∀ cost other, thread.stage = .dated cost other → other = day
  billed : world.billed = initial.billed + ((sent true records).map RelayTransaction.cost).sum +
    ((sent false records).map RelayTransaction.cost).sum
  kept : world.kept day = initial.kept day + counted records
  due : counted records + (threads.map fun thread => thread.stage.due).sum =
    ((sent true records).map fun tx => JsNumber.ofBigInt (tx.cost / RelayService.gweiWei)).sum

section Runs

variable {lib cfg day} {initial world : RelayWorld} {records : List (RelayCall × Bool)}
  {threads : List Charging}

/-- No call takes time. -/
theorem now_of_day {later : RelayWorld} {call : RelayCall}
    {answer : Except RelayError call.Answer} {record : List (RelayCall × Bool)}
    (answered : dayEnvironment day call world answer record later) : later.now = world.now := by
  rcases dayEnvironment_cases answered with ⟨-, rfl, -⟩ | ⟨-, given, performed, -⟩
  · rfl
  · exact performed.now_eq

/-- Nothing but a call changes the counters. -/
theorem counters_of_changes {later : RelayWorld} (changes : world.Changes later) :
    world.now ≤ later.now ∧ later.counters = world.counters := by
  cases changes with
  | waits passed => exact ⟨passed, rfl⟩
  | indexes | mines => exact ⟨le_refl _, rfl⟩

/-- The accounts hold throughout the day. -/
theorem accounts_of_run (lasts : initial.Lasts day)
    (run : (spendSystem lib cfg day initial).Run System.unconstrained records world threads) :
    SpendAccounts day initial world records threads := by
  induction run with
  | start => exact ⟨le_refl _, lasts, fun _ member => absurd member List.not_mem_nil, rfl, rfl, rfl⟩
  | pass before passes ih =>
      obtain ⟨later, same⟩ := counters_of_changes passes
      obtain ⟨stays, kept⟩ := kept_congr (congrFun same (.spend day))
      exact ⟨ih.later.trans later, stays ih.lasts, ih.dated,
        (RelayWorld.billed_changes passes).trans ih.billed, kept.trans ih.kept, ih.due⟩
  | arrive before request ih =>
      refine ⟨ih.later, ih.lasts, ?_, ih.billed, ih.kept, ?_⟩
      · intro thread member
        rcases List.mem_append.mp member with old | new
        · exact ih.dated thread old
        · obtain rfl := List.mem_singleton.mp new
          intro cost other reached
          cases reached
      · rw [List.map_append, List.sum_append]
        exact ih.due
  | @call records world threads position request stage call continued answer record later before
      found answered met ih =>
      have member := List.mem_of_getElem? found
      have follows := before.follows (fun request => (chargeRules cfg).start rfl request) _ member
      have allows : stage.Allows call := follows.1
      have dated := ih.dated _ member
      obtain ⟨stays, kept⟩ := kept_of_day answered allows dated ih.lasts
      have billed := billed_of_day answered
      have due := due_of_day answered allows
      have moved := Async.sum_map_set (fun thread : Charging => thread.stage.due)
        ⟨request, stage.next world call answer, continued answer⟩ found
      refine ⟨ih.later.trans (now_of_day answered).ge, stays, ?_, ?_, ?_, ?_⟩
      · intro thread present
        rcases List.mem_or_eq_of_mem_set present with old | rfl
        · exact ih.dated thread old
        · exact fun _ _ reached => dated_of_day answered dated reached
      · rw [billed, ih.billed, sent_append, sent_append, List.map_append, List.map_append,
          List.sum_append, List.sum_append]
        omega
      · rw [kept, ih.kept, counted_append]
        omega
      · have before := ih.due
        rw [sent_append, counted_append, List.map_append, List.sum_append]
        change _ + ((threads.set position
          ⟨request, stage.next world call answer, continued answer⟩).map _).sum = _
        simp only at moved
        omega

/-- What is counted of a transaction is made a number. -/
theorem mem_conversions (total : Nat) (records : List (RelayCall × Bool)) :
    ∀ tx ∈ sent true records, tx.cost / RelayService.gweiWei ∈ conversions total records := by
  induction records generalizing total with
  | nil => exact fun tx member => absurd member List.not_mem_nil
  | cons entry rest ih =>
      obtain ⟨call, answered⟩ := entry
      cases call with
      | sendTransaction own =>
          cases answered with
          | true =>
              intro tx member
              rcases List.mem_cons.mp member with rfl | later
              · exact List.mem_cons_self
              · exact List.mem_cons_of_mem _ (ih total tx later)
          | false => exact ih total
      | incrby key amount =>
          exact fun tx member => List.mem_cons_of_mem _ (ih (total + amount) tx member)
      | _ => exact ih total

/-- Amounts that come to what bounds each of them are what bounds them. -/
theorem eq_of_sum_le {α : Type} {amount bound : α → Nat} {items : List α}
    (below : ∀ item ∈ items, amount item ≤ bound item)
    (total : (items.map bound).sum ≤ (items.map amount).sum) :
    ∀ item ∈ items, amount item = bound item := by
  induction items with
  | nil => exact fun item member => absurd member List.not_mem_nil
  | cons first rest ih =>
      have own := below first List.mem_cons_self
      have kept (item : α) (member : item ∈ rest) : amount item ≤ bound item :=
        below item (List.mem_cons_of_mem first member)
      have others := List.sum_le_sum kept
      simp only [List.map_cons, List.sum_cons] at total
      intro item member
      rcases List.mem_cons.mp member with rfl | later
      · omega
      · exact ih kept (by omega) item later

/-- **The counter covers what is billed exactly where gwei are whole.** On every day, when all
requests have counted what they sent, the counter has risen by what has been billed and no number
was rounded if and only if every transaction that was answered costs whole gwei, every other costs
nothing, and the amounts are numbers. -/
theorem spendCovered_iff (lib : RelayLibraries) (cfg : RelayConfig) (day : Nat)
    {initial world : RelayWorld} (lasts : initial.Lasts day) {records : List (RelayCall × Bool)}
    {threads : List Charging}
    (run : (spendSystem lib cfg day initial).Run System.unconstrained records world threads)
    (today : world.now / 86400000 = day) (resting : ∀ thread ∈ threads, thread.stage = .clear) :
    SpendCovered day initial world records ↔ WholeGwei day initial records := by
  have accounts := accounts_of_run lasts run
  have before := spent_of_lasts lasts (by have := accounts.later; omega)
  have after := spent_of_lasts accounts.lasts (by omega)
  have settled : (threads.map fun thread => thread.stage.due).sum = 0 := by
    refine List.sum_eq_zero fun due member => ?_
    obtain ⟨thread, present, rfl⟩ := List.mem_map.mp member
    rw [resting thread present]
    rfl
  have counts := accounts.due
  rw [settled, Nat.add_zero] at counts
  -- What the counter has risen by, where no number is rounded.
  have counts_of (unrounded : ∀ value ∈ conversions (initial.spent day) records,
      JsNumber.ofBigInt value = value) : counted records * RelayService.gweiWei =
        ((sent true records).map fun tx =>
          tx.cost / RelayService.gweiWei * RelayService.gweiWei).sum := by
    rw [counts, List.sum_map_mul_right]
    congr 2
    exact List.map_congr_left fun tx member => unrounded _ (mem_conversions _ records tx member)
  have covers_iff : world.billed + initial.spent day * RelayService.gweiWei ≤
      initial.billed + world.spent day * RelayService.gweiWei ↔
      ((sent true records).map RelayTransaction.cost).sum +
          ((sent false records).map RelayTransaction.cost).sum ≤
        counted records * RelayService.gweiWei := by
    rw [before, after, accounts.kept, accounts.billed, Nat.add_mul]
    omega
  constructor
  · rintro ⟨covers, unrounded⟩
    rw [covers_iff, counts_of unrounded] at covers
    have rounded_down (tx : RelayTransaction) :
        tx.cost / RelayService.gweiWei * RelayService.gweiWei ≤ tx.cost := Nat.div_mul_le_self ..
    refine ⟨fun tx member => ?_, fun tx member => ?_, fun value member =>
      (JsNumber.ofBigInt_eq_iff value).mp (unrounded value member)⟩
    · have whole := eq_of_sum_le (fun tx _ => rounded_down tx)
        ((Nat.le_add_right _ _).trans covers) tx member
      exact Dvd.intro_left _ whole
    · have answered := List.sum_le_sum fun tx (_ : tx ∈ sent true records) => rounded_down tx
      have nothing : ((sent false records).map RelayTransaction.cost).sum = 0 := by omega
      exact List.sum_eq_zero_iff_forall_eq_nat.mp nothing _ (List.mem_map_of_mem member)
  · rintro ⟨whole, lost, exact⟩
    have unrounded : ∀ value ∈ conversions (initial.spent day) records,
        JsNumber.ofBigInt value = value := fun value member =>
      (JsNumber.ofBigInt_eq_iff value).mpr (exact value member)
    refine ⟨covers_iff.mpr ?_, unrounded⟩
    have nothing : ((sent false records).map RelayTransaction.cost).sum = 0 := by
      refine List.sum_eq_zero fun cost member => ?_
      obtain ⟨tx, present, rfl⟩ := List.mem_map.mp member
      exact lost tx present
    rw [counts_of unrounded, nothing, Nat.add_zero]
    exact List.sum_le_sum fun tx member => (Nat.div_mul_cancel (whole tx member)).ge

end Runs

/-! ## A price between two gwei -/

/-- Follow a schedule on one day against a node. -/
def playDay (initial : RelayWorld) (node : RelayNode) (moves : List (System.Move RelayRequest)) :
    Option (System.Standing RelayCall.Answer RelayError Nat RelayRequest Charge RelayWorld
      (RelayCall × Bool)) :=
  (spendSystem lib cfg day initial).play node.respond
    (fun call world => [(call, (node.respond call world).1.toBool)])
    (fun world _ _ call _ => RelayNode.ready call world && world.now / 86400000 = day) moves
    (spendSystem lib cfg day initial).standing

/-- A schedule that was followed is a run. -/
theorem run_of_playDay {initial : RelayWorld} {node : RelayNode}
    {moves : List (System.Move RelayRequest)}
    {reached : System.Standing RelayCall.Answer RelayError Nat RelayRequest Charge RelayWorld
      (RelayCall × Bool)}
    (played : playDay lib cfg day initial node moves = some reached) :
    (spendSystem lib cfg day initial).Run System.unconstrained reached.records reached.world
      reached.threads := by
  refine System.run_of_play _ _ _ _ (fun world threads position call passed => ?_) moves .start
    played
  obtain ⟨now, today⟩ := Bool.and_eq_true_iff.mp passed
  refine ⟨⟨of_decide_eq_true today, fun counts => ?_, _, node.respond_answers now, rfl⟩, trivial⟩
  cases call with
  | incr | incrby | expire | get => exact ⟨_, rfl⟩
  | _ => cases counts

namespace SampleRelay

/-- A node whose price is a gwei's fraction above a round one. -/
def fractional : RelayNode := { node with fees := ⟨100000000001, 2000000000⟩ }

/-- An approval is sent and counted. -/
def oneApproval : List (System.Move RelayRequest) :=
  .arrive (.submitPermit (permit (address 'c'))) :: List.replicate 15 (.call 0)

end SampleRelay

open SampleRelay in
/-- **The counter covers less than what is billed**: of 11,000,000.00011 gwei it counts the whole
ones. -/
theorem fraction_uncounted :
    ¬ ∀ records world threads,
      (spendSystem libraries config 0 SampleRelay.world).Run System.unconstrained records world
          threads →
        world.now / 86400000 = 0 → (∀ thread ∈ threads, thread.stage = .clear) →
          SpendCovered 0 SampleRelay.world world records := by
  intro covered
  have played : (playDay libraries config 0 SampleRelay.world fractional oneApproval).map
      (fun reached => (reached.world.billed, reached.world.spent 0, reached.world.now / 86400000,
        reached.threads.all fun thread => thread.stage = .clear)) =
      some (11000000000110000, 11000000, 0, true) := by decide +kernel
  obtain ⟨reached, followed, same⟩ := Option.map_eq_some_iff.mp played
  simp only [Prod.mk.injEq] at same
  obtain ⟨billed, spent, today, resting⟩ := same
  have covers := (covered _ _ _ (run_of_playDay libraries config 0 followed) today
    fun thread member => of_decide_eq_true (List.all_eq_true.mp resting thread member)).covers
  rw [billed, spent] at covers
  revert covers
  decide

open SampleRelay in
/-- Two approvals at a round price are covered. -/
theorem spendCovered_iff_consecutive :
    ∃ records world threads,
      (spendSystem libraries config 0 SampleRelay.world).Run System.unconstrained records world
          threads ∧
        world.billed = 599999600000000000 ∧ SpendCovered 0 SampleRelay.world world records := by
  have played : (playDay libraries config 0 SampleRelay.world congested consecutive).map
      (fun reached => (reached.world.billed, reached.world.now / 86400000,
        (reached.threads.all fun thread => thread.stage = .clear),
        (sent true reached.records).all (fun tx => RelayService.gweiWei ∣ tx.cost) &&
          (sent false reached.records).all (fun tx => tx.cost = 0) &&
          (conversions (SampleRelay.world.spent 0) reached.records).all (· < 2 ^ 53))) =
      some (599999600000000000, 0, true, true) := by decide +kernel
  obtain ⟨reached, followed, same⟩ := Option.map_eq_some_iff.mp played
  simp only [Prod.mk.injEq, Bool.and_eq_true, List.all_eq_true, decide_eq_true_eq] at same
  obtain ⟨billed, today, resting, ⟨whole, lost⟩, small⟩ := same
  have run := run_of_playDay libraries config 0 followed
  have exact (value : Nat)
      (member : value ∈ conversions (SampleRelay.world.spent 0) reached.records) :
      JsNumber.Exact value := ⟨value, 0, small value member, (Nat.mul_one value).symm⟩
  exact ⟨_, _, _, run, billed, (spendCovered_iff libraries config 0
    (fun _ same => by cases same) run today resting).mpr ⟨whole, lost, exact⟩⟩

end Numera
