import Numera.Relay.Destinations
import Numera.Relay.Sending

/-! # The daily ceiling

A request reads what has been spent before it joins the queue, and what it spends is
recorded after its transaction was sent. Requests that read the counter one after the other
before any of them sends are all let through (`concurrent_exceed_cap`). Where each passing
reading covers what has been broadcast, but for less than a gwei of each transaction, and
nobody else is between a passing reading and a broadcast, the ceiling is exceeded by one
transaction at most (`spent_within_cap`). A recorded send keeps the first half of that
(`covered_of_recorded`).
-/

namespace Numera

open Async (CallsOnly Follows System)

/-! ## What is billed -/

/-- What the transactions that have been broadcast cost. -/
def RelayWorld.billed (world : RelayWorld) : Nat :=
  (world.pending.map fun entry => entry.2.cost).sum +
    (world.executed.map fun mined => mined.tx.cost).sum

/-- How many transactions have been broadcast. -/
def RelayWorld.sent (world : RelayWorld) : Nat := world.pending.length + world.executed.length

/-- The most that a transaction may cost. -/
def RelayConfig.maxCost (cfg : RelayConfig) : Nat := cfg.maxGas * cfg.maxFeePerGas

namespace RelayWorld

variable {world later : RelayWorld}

theorem billed_broadcast (world : RelayWorld) (tx : RelayTransaction) :
    (world.broadcast tx).billed = world.billed + tx.cost := by
  simp only [billed, broadcast, List.map_append, List.sum_append, List.map_cons, List.map_nil,
    List.sum_singleton]
  omega

theorem sent_broadcast (world : RelayWorld) (tx : RelayTransaction) :
    (world.broadcast tx).sent = world.sent + 1 := by
  simp only [sent, broadcast, List.length_append, List.length_singleton]
  omega

/-- Only a broadcast changes what is billed. -/
theorem billed_changes (changes : world.Changes later) : later.billed = world.billed := by
  cases changes with
  | waits | indexes => rfl
  | mines succeeded next =>
      simp only [billed, next, List.map_cons, List.sum_cons, List.map_append, List.sum_append,
        List.map_nil, List.sum_nil]
      omega

theorem billed_answered {call : RelayCall} {answer : Except RelayError call.Answer}
    {record : List RelayCall} (answered : relayEnvironment call world answer record later)
    (other : ∀ tx, call ≠ .sendTransaction tx) : later.billed = world.billed := by
  refine relayEnvironment_keeps (·.billed = world.billed) answered rfl fun given performed => ?_
  obtain ⟨-, pending, executed⟩ := performed.chain_eq other
  rw [billed, billed, pending, executed]

theorem billed_sent {tx : RelayTransaction} {answer : Except RelayError Nat}
    {record : List RelayCall}
    (answered : relayEnvironment (.sendTransaction tx) world answer record later) :
    later.billed ≤ world.billed + tx.cost := by
  refine relayEnvironment_keeps (·.billed ≤ world.billed + tx.cost) answered
    (Nat.le_add_right _ _) fun given performed => ?_
  obtain ⟨-, -, rfl⟩ := performed
  exact Nat.le_of_eq (billed_broadcast world tx)

end RelayWorld

/-! ## Passing the ceiling -/

variable (lib : RelayLibraries) (cfg : RelayConfig)

/-- The stage of a request: whether it has passed the ceiling and not sent since. -/
def passedCap (_ : RelayRequest) (passed : Bool) (_ : RelayWorld) :
    (call : RelayCall) → Except RelayError call.Answer → Bool
  | .get (.spend _), .ok spent => spent.getD 0 * RelayService.gweiWei < cfg.dailyCapWei
  | .sendTransaction _, _ => false
  | _, _ => passed

/-- A request sends once it has passed the ceiling, at no more than a transaction may cost. -/
def maySpend (passed : Bool) (call : RelayCall) : Prop :=
  ∀ tx, call = .sendTransaction tx → passed = true ∧ tx.cost ≤ cfg.maxCost

/-- The services, with whether their requests have passed the ceiling. -/
def capSystem (initial : RelayWorld) :
    System RelayCall.Answer RelayError Nat RelayRequest Bool RelayWorld RelayCall :=
  relaySystem lib cfg initial (fun _ => false) (passedCap cfg)

/-- Whatever it is answered, a part of a request sends as it may. -/
def Spends {α : Type} (request : RelayRequest) (passed : Bool) (task : Relay α) : Prop :=
  Follows (passedCap cfg request) (maySpend cfg) (fun _ _ => True) passed task

/-- A call that neither sends nor reads a counter. -/
def RelayCall.spendless : RelayCall → Bool
  | get _ | sendTransaction _ => false
  | _ => true

theorem spendless_of_plain (call : RelayCall) (plain : call.plain) : call.spendless = true := by
  cases call <;> first | rfl | cases plain

theorem spendless_of_idle (call : RelayCall) (idle : call.idle) : call.spendless = true :=
  idle_of_plain spendless_of_plain call idle

theorem spendless_of_besideSpend (call : RelayCall) (beside : call.besideSpend = true) :
    call.spendless = true := by
  cases call <;> first | rfl | cases beside

section Spends

variable {lib cfg} {α β : Type} {request : RelayRequest} {passed : Bool}

theorem maySpend_spendless {call : RelayCall} (spendless : call.spendless = true) :
    maySpend cfg passed call := by
  rintro tx rfl
  cases spendless

theorem passedCap_spendless {call : RelayCall} (spendless : call.spendless = true)
    (world : RelayWorld) (answer : Except RelayError call.Answer) :
    passedCap cfg request passed world call answer = passed := by
  cases call with
  | get | sendTransaction => cases spendless
  | _ => rfl

/-- The check of the ceiling returns with the ceiling passed. -/
theorem sends_enforceDailyCap : Sends (passedCap cfg request) (maySpend cfg) (· = true) passed
    (RelayService.enforceDailyCap cfg) := by
  refine ⟨maySpend_spendless rfl, fun _ now => ?_⟩
  cases now with
  | error thrown => exact fun _ same => by cases same
  | ok now =>
      refine ⟨(fun tx same => by cases same), fun world spent => ?_⟩
      cases spent with
      | error thrown => exact fun _ same => by cases same
      | ok spent =>
          change Follows (passedCap cfg request) (maySpend cfg)
            (fun reached outcome => ∀ value, outcome = .ok value → reached = true)
            (decide (spent.getD 0 * RelayService.gweiWei < cfg.dailyCapWei))
            (if spent.getD 0 * RelayService.gweiWei ≥ cfg.dailyCapWei then throw _ else return ())
          split
          · exact fun _ same => by cases same
          · rename_i below
            exact fun _ _ => decide_eq_true (Nat.lt_of_not_le below)

/-- A transaction, sent with the ceiling passed. -/
theorem sends_sendTransaction {destination : JsString} {data : ContractCall} {gas : Nat} :
    Sends (passedCap cfg request) (maySpend cfg) (fun _ => True) true
      (RelayService.sendTransaction cfg destination data gas) := by
  have bounded : Follows (passedCap cfg request) (maySpend cfg)
      (fun reached outcome => ∀ policy, outcome = .ok policy → reached = true ∧
        policy.limit ≤ cfg.maxGas ∧ policy.maxFeePerGas ≤ cfg.maxFeePerGas)
      true (RelayService.gasFor cfg gas) := by
    unfold RelayService.gasFor
    split
    · exact fun _ same => by cases same
    · rename_i affordable
      have only : (MonadExcept.tryCatch (do
            let fees ← RelayCall.estimateFeesPerGas.request
            return some fees) fun _ => return none : Relay (Option FeesPerGas)).CallsOnly
          fun call => call.spendless = true :=
        .tryCatch (.bind (.perform rfl) fun _ => trivial) fun _ => trivial
      refine .neutral_bind only (fun _ => maySpend_spendless)
        (fun _ spendless => passedCap_spendless spendless) (fun fees policy same => ?_)
        fun _ _ same => by cases same
      obtain rfl := Except.ok.inj same
      exact ⟨rfl, Nat.le_of_not_lt affordable, Nat.min_le_right _ _⟩
  refine Follows.bind (bounded.mono ?_)
  rintro reached (thrown | policy) within
  · exact fun _ _ => trivial
  · obtain ⟨rfl, limit, fee⟩ := within policy rfl
    refine Follows.perform_bind ?_ (fun _ hash => ?_) fun _ _ _ _ => trivial
    · rintro tx same
      obtain rfl := RelayCall.sendTransaction.inj same
      exact ⟨rfl, Nat.mul_le_mul limit fee⟩
    · exact .neutral_bind (callsOnly_recordSpend spendless_of_idle _)
        (fun _ => maySpend_spendless) (fun _ spendless => passedCap_spendless spendless)
        (fun _ _ _ => trivial) fun _ _ _ => trivial

/-- The ceiling and one transaction: what there is to know of a request that sends. -/
theorem cap_sendingRules :
    SendingRules (passedCap cfg request) (maySpend cfg) cfg (fun _ => True) (· = true) where
  idle_of_passed _ _ := trivial
  beside stage call _ beside :=
    ⟨maySpend_spendless (spendless_of_besideSpend call beside), fun world answer =>
      passedCap_spendless (spendless_of_besideSpend call beside) world answer⟩
  leaves _ _ := ⟨maySpend_spendless rfl, fun _ _ => rfl⟩
  caps _ _ := sends_enforceDailyCap
  sends stage destination data gas passed := by
    rw [passed]
    exact sends_sendTransaction

namespace Spends

/-- Every request sends as it may. -/
theorem start (lib : RelayLibraries) (cfg : RelayConfig) (request : RelayRequest) :
    Spends cfg request false (request.start lib cfg) :=
  (cap_sendingRules.start trivial request).mono fun _ _ _ => trivial

end Spends

end Spends

/-! ## Readings -/

/-- A request that is being served. -/
abbrev Spending : Type := Async.Thread RelayCall.Answer RelayError Nat RelayRequest Bool

/-- A request that has passed the ceiling and may still send. -/
def Cleared (thread : Spending) : Prop := thread.stage = true ∧ thread.task.outcome? = none

/-- So many gwei, and what `recordSpend` has dropped of each transaction, cover what has been
broadcast since the start of the day. -/
def Covers (initial world : RelayWorld) (spent dropped : Nat) : Prop :=
  dropped ≤ (world.sent - initial.sent) * RelayService.gweiWei ∧
    world.billed ≤ initial.billed + (spent * RelayService.gweiWei + dropped)

/-- A send that is recorded in whole gwei leaves the counter covering what has been broadcast. -/
theorem covered_of_recorded {initial world : RelayWorld} {spent dropped : Nat}
    (covers : Covers initial world spent dropped) (later : initial.sent ≤ world.sent)
    (tx : RelayTransaction) :
    Covers initial (world.broadcast tx) (spent + tx.cost / RelayService.gweiWei)
      (dropped + tx.cost % RelayService.gweiWei) := by
  obtain ⟨few, covered⟩ := covers
  have rest : tx.cost % RelayService.gweiWei < RelayService.gweiWei := Nat.mod_lt _ (by decide)
  have whole := Nat.div_add_mod' tx.cost RelayService.gweiWei
  constructor
  · rw [RelayWorld.sent_broadcast, Nat.sub_add_comm later, Nat.add_mul]
    omega
  · rw [RelayWorld.billed_broadcast, Nat.add_mul]
    omega

/-- Where a reading of the counter passes the ceiling, it covers what has been broadcast since
the start of the day, it would pass with what has been dropped as well, and no other request has
passed and may still send. -/
def ReadsCovered (initial world : RelayWorld) (threads : List Spending) (position : Nat) :
    (call : RelayCall) → Except RelayError call.Answer → Prop
  | .get (.spend _), .ok spent =>
      spent.getD 0 * RelayService.gweiWei < cfg.dailyCapWei →
        (∃ dropped, Covers initial world (spent.getD 0) dropped ∧
          spent.getD 0 * RelayService.gweiWei + dropped < cfg.dailyCapWei) ∧
          ∀ (other : Nat) (thread : Spending), other ≠ position → threads[other]? = some thread →
            ¬ Cleared thread
  | _, _ => True

section Runs

variable {lib cfg} {initial world later : RelayWorld} {records record : List RelayCall}
  {threads : List Spending} {position : Nat} {request : RelayRequest} {passed : Bool}
  {call : RelayCall} {answer : Except RelayError call.Answer}
  {continued : Except RelayError call.Answer → Relay Nat}

/-- After a call a request has passed the ceiling if it had before and did not send, or if the
call was a reading that passes. -/
theorem passedCap_cases
    (met : ReadsCovered cfg initial world threads position call answer)
    (passes : passedCap cfg request passed world call answer = true) :
    (∀ tx, call ≠ .sendTransaction tx) ∧
      (passed = true ∨ world.billed < initial.billed + cfg.dailyCapWei ∧
        ∀ (other : Nat) (thread : Spending), other ≠ position → threads[other]? = some thread →
          ¬ Cleared thread) := by
  unfold passedCap at passes
  split at passes
  · rename_i day spent
    have below := of_decide_eq_true passes
    obtain ⟨⟨dropped, ⟨-, covered⟩, within⟩, alone⟩ := met below
    exact ⟨nofun, .inr ⟨Nat.lt_of_le_of_lt covered (Nat.add_lt_add_left within _), alone⟩⟩
  · cases passes
  · rename_i sends
    exact ⟨fun tx same => by subst same; exact sends tx _ rfl HEq.rfl, .inl passes⟩

/-- A call leaves what is billed as it is, or sends for a request that may still send, at no more
than a transaction may cost. -/
theorem billed_of_turn {meets : System.Condition RelayCall.Answer RelayError Nat RelayRequest Bool
      RelayWorld}
    (turn : (capSystem lib cfg initial).Turn meets world threads position request passed call
      continued answer record later) :
    later.billed = world.billed ∨
      Cleared ⟨request, passed, .call call continued⟩ ∧
        later.billed ≤ world.billed + cfg.maxCost := by
  obtain ⟨_, before⟩ := turn.before
  have follows := before.follows (fun request => Spends.start lib cfg request) _
    (List.mem_of_getElem? turn.found)
  have answered : relayEnvironment call world answer record later := turn.answered
  by_cases sends : ∃ tx, call = .sendTransaction tx
  · obtain ⟨tx, rfl⟩ := sends
    obtain ⟨cleared, bounded⟩ := follows.1 tx rfl
    exact .inr ⟨⟨cleared, rfl⟩, Nat.le_trans (RelayWorld.billed_sent answered)
      (Nat.add_le_add_left bounded _)⟩
  · exact .inl (RelayWorld.billed_answered answered fun tx same => sends ⟨tx, same⟩)

/-- At most one request has passed the ceiling and may still send. -/
theorem cleared_alone
    (run : (capSystem lib cfg initial).Run (ReadsCovered cfg initial) records world threads)
    (i j : Nat) (first second : Spending) (foundFirst : threads[i]? = some first)
    (foundSecond : threads[j]? = some second) (clearedFirst : Cleared first)
    (clearedSecond : Cleared second) : i = j := by
  refine run.exclusive_threads Cleared (fun request cleared => nomatch cleared.1) ?_ i j first second
    foundFirst foundSecond clearedFirst clearedSecond
  intro world threads position request passed call continued answer record later turn before after
  have passes : passedCap cfg request passed world call answer = true := after.1
  obtain ⟨-, already | ⟨-, alone⟩⟩ := passedCap_cases turn.met passes
  · exact absurd ⟨already, rfl⟩ before
  · exact alone

/-- Where a request may still send, the ceiling has not been reached. -/
theorem below_of_cleared
    (run : (capSystem lib cfg initial).Run (ReadsCovered cfg initial) records world threads) :
    ∀ thread ∈ threads, Cleared thread → world.billed < initial.billed + cfg.dailyCapWei := by
  refine run.each_at
    (fun world thread => Cleared thread → world.billed < initial.billed + cfg.dailyCapWei) ?_ ?_ ?_ ?_
  · exact fun world request cleared => nomatch cleared.1
  · intro world later thread passes below cleared
    rw [RelayWorld.billed_changes passes]
    exact below cleared
  · intro world threads position request passed call continued answer record later turn all cleared
    have passes : passedCap cfg request passed world call answer = true := cleared.1
    obtain ⟨silent, reading⟩ := passedCap_cases turn.met passes
    rw [RelayWorld.billed_answered turn.answered silent]
    rcases reading with already | ⟨below, -⟩
    · exact all _ (List.mem_of_getElem? turn.found) ⟨already, rfl⟩
    · exact below
  · intro world threads position request passed call continued answer record later turn all other
      thread beside found cleared
    obtain ⟨_, before⟩ := turn.before
    rcases billed_of_turn turn with same | ⟨caller, -⟩
    · rw [same]
      exact all thread (List.mem_of_getElem? found) cleared
    · exact absurd (cleared_alone before other position thread _ found turn.found cleared caller)
        beside

/-- **What a day costs exceeds the ceiling by one transaction at most**, where every reading that
passes covers what has been broadcast, but for what was dropped in recording it, and is alone. -/
theorem spent_within_cap (lib : RelayLibraries) (cfg : RelayConfig) (initial : RelayWorld)
    {records : List RelayCall} {world : RelayWorld} {threads : List Spending}
    (run : (capSystem lib cfg initial).Run (ReadsCovered cfg initial) records world threads) :
    world.billed ≤ initial.billed + (cfg.dailyCapWei + cfg.maxCost) := by
  refine run.preserves
    (fun world => world.billed ≤ initial.billed + (cfg.dailyCapWei + cfg.maxCost))
    (Nat.le_add_right _ _) ?_ ?_
  · intro world later passes bounded
    rw [RelayWorld.billed_changes passes]
    exact bounded
  · intro world threads position request passed call continued answer record later turn bounded
    rcases billed_of_turn turn with same | ⟨cleared, sent⟩
    · rw [same]
      exact bounded
    · obtain ⟨_, before⟩ := turn.before
      have below := below_of_cleared before _ (List.mem_of_getElem? turn.found) cleared
      omega

end Runs

/-! ## Two approvals -/

namespace SampleRelay

/-- A node that finds a call as large as the relayer sponsors, at a high price. -/
def congested : RelayNode := { node with gas := 1363636, fees := ⟨200000000000, 2000000000⟩ }

/-- The same at a price that is no whole number of gwei. -/
def uneven : RelayNode := { congested with fees := ⟨199999999999, 2000000000⟩ }

/-- A day that may cost a thousandth of a coin. -/
def frugal : RelayConfig := { config with dailyCapWei := 1000000000000000 }

/-- Approvals by two accounts arrive. -/
def approvals : List (System.Move RelayRequest) :=
  [.arrive (.submitPermit (permit (address 'c'))),
    .arrive (.submitPermit { permit (address 'c') with owner := address '4' })]

/-- Both read the counter before either sends. -/
def interleaved : List (System.Move RelayRequest) :=
  approvals ++ List.replicate 5 (.call 0) ++ List.replicate 5 (.call 1) ++
    List.replicate 10 (.call 0) ++ List.replicate 6 (.call 1)

/-- The second reads the counter when the first is recorded. -/
def consecutive : List (System.Move RelayRequest) :=
  approvals ++ List.replicate 15 (.call 0) ++ List.replicate 15 (.call 1)

end SampleRelay

/-- The clock shows one day. -/
def withinDay (day : Nat) (_ : RelayWorld) (_ : List Spending) (_ : Nat) :
    (call : RelayCall) → Except RelayError call.Answer → Bool
  | .dateNow, .ok now => now / 86400000 = day
  | _, _ => true

open SampleRelay in
/-- **Requests that read the counter together are all let through**, and one day costs more than
the ceiling and one transaction. -/
theorem concurrent_exceed_cap :
    ¬ ∀ records world threads,
      (capSystem libraries frugal SampleRelay.world).Run
          (fun world threads position call answer =>
            withinDay 0 world threads position call answer = true) records world threads →
        world.billed ≤ SampleRelay.world.billed + (frugal.dailyCapWei + frugal.maxCost) := by
  intro bounded
  have played : (playRelay libraries frugal SampleRelay.world (fun _ => false) (passedCap frugal)
      congested (withinDay 0) interleaved (capSystem libraries frugal SampleRelay.world).standing).map
        (fun reached => reached.world.billed) = some 599999600000000000 := by decide +kernel
  obtain ⟨reached, followed, billed⟩ := Option.map_eq_some_iff.mp played
  have run := run_of_playRelay libraries frugal (fun _ _ _ _ _ passed => passed) interleaved
    System.Run.start followed
  have within := bounded _ _ _ run
  rw [billed] at within
  revert within
  decide +kernel

/-- A reading covers what has been broadcast with what was dropped of it, and passes with that too,
while nobody may still send. -/
def readsAlone (cfg : RelayConfig) (initial world : RelayWorld) (threads : List Spending)
    (_ : Nat) : (call : RelayCall) → Except RelayError call.Answer → Bool
  | .get (.spend _), .ok spent =>
      let dropped := world.billed - (initial.billed + spent.getD 0 * RelayService.gweiWei)
      decide (dropped ≤ (world.sent - initial.sent) * RelayService.gweiWei) &&
        decide (spent.getD 0 * RelayService.gweiWei + dropped < cfg.dailyCapWei) &&
        threads.all fun thread => !(thread.stage && thread.task.outcome?.isNone)
  | _, _ => true

theorem readsCovered_of_readsAlone {cfg : RelayConfig} {initial world : RelayWorld}
    {threads : List Spending} {position : Nat} {call : RelayCall}
    {answer : Except RelayError call.Answer}
    (checked : readsAlone cfg initial world threads position call answer = true) :
    ReadsCovered cfg initial world threads position call answer := by
  unfold ReadsCovered
  split
  · rename_i day spent
    obtain ⟨counted, alone⟩ := Bool.and_eq_true_iff.mp checked
    obtain ⟨few, within⟩ := Bool.and_eq_true_iff.mp counted
    refine fun _ => ⟨⟨_, ⟨of_decide_eq_true few, by omega⟩, of_decide_eq_true within⟩, ?_⟩
    intro other thread _ found cleared
    have outside := List.all_eq_true.mp alone thread (List.mem_of_getElem? found)
    rw [cleared.1, cleared.2] at outside
    cases outside
  · trivial

open SampleRelay in
/-- Two approvals are sent one after the other, at a price that is no whole number of gwei, so that
the counter is a little behind when the second reads it. -/
theorem spent_within_cap_consecutive :
    ∃ records world threads,
      (capSystem libraries config SampleRelay.world).Run (ReadsCovered config SampleRelay.world)
          records world threads ∧
        world.billed = 599999599997000002 ∧
        world.billed ≤ SampleRelay.world.billed + (config.dailyCapWei + config.maxCost) := by
  have played : (playRelay libraries config SampleRelay.world (fun _ => false) (passedCap config)
      uneven (readsAlone config SampleRelay.world) consecutive
      (capSystem libraries config SampleRelay.world).standing).map
        (fun reached => reached.world.billed) = some 599999599997000002 := by decide +kernel
  obtain ⟨reached, followed, billed⟩ := Option.map_eq_some_iff.mp played
  have run : (capSystem libraries config SampleRelay.world).Run
      (ReadsCovered config SampleRelay.world) reached.records reached.world reached.threads :=
    run_of_playRelay libraries config (fun _ _ _ _ _ passed => readsCovered_of_readsAlone passed)
      consecutive System.Run.start followed
  exact ⟨_, _, _, run, billed, spent_within_cap libraries config SampleRelay.world run⟩

end Numera
