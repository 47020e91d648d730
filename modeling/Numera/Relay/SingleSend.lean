import Numera.Foundation.Budget
import Numera.Relay.Destinations

/-! # No request is broadcast twice

A refused simulation, a full day and a failed answer all end a request; nothing sends again. So
however its calls are answered a request broadcasts one transaction at most, a withdrawal one more
for the root it publishes first, and in every run no nonce is used beyond those
(`broadcast_within`).
-/

namespace Numera

open Async (AtMost System)

/-- A call that broadcasts a transaction. -/
def RelayCall.broadcasts : RelayCall → Bool
  | sendTransaction _ => true
  | _ => false

theorem broadcasts_of_plain (call : RelayCall) (plain : call.plain) : call.broadcasts = false := by
  cases call <;> first | rfl | cases plain

theorem broadcasts_of_idle (call : RelayCall) (idle : call.idle) : call.broadcasts = false :=
  idle_of_plain broadcasts_of_plain call idle

/-! ## One transaction -/

section Parts

variable {lib : RelayLibraries} {cfg : RelayConfig} {α β : Type} {most : Nat}

/-- A part that broadcasts nothing, and what follows it. -/
theorem atMost_after {first : Relay β} {rest : β → Relay α}
    (silent : first.CallsOnly fun call => call.broadcasts = false)
    (follows : ∀ value, AtMost RelayCall.broadcasts (rest value) most) :
    AtMost RelayCall.broadcasts (first >>= rest) most :=
  .after silent (fun _ same => same) follows

/-- A part, and what follows it without broadcasting. -/
theorem atMost_before {first : Relay β} {rest : β → Relay α}
    (within : AtMost RelayCall.broadcasts first most)
    (silent : ∀ value, (rest value).CallsOnly fun call => call.broadcasts = false) :
    AtMost RelayCall.broadcasts (first >>= rest) most :=
  within.before silent fun _ same => same

/-- A part whose errors are handled without broadcasting. -/
theorem atMost_caught {task : Relay α} {handler : RelayError → Relay α}
    (within : AtMost RelayCall.broadcasts task most)
    (silent : ∀ thrown, (handler thrown).CallsOnly fun call => call.broadcasts = false) :
    AtMost RelayCall.broadcasts (tryCatch task handler) most :=
  within.tryCatch silent fun _ same => same

/-- A conversion, and what follows it. -/
theorem atMost_done {value : Except RelayError β} {rest : β → Relay α}
    (follows : ∀ result, AtMost RelayCall.broadcasts (rest result) most) :
    AtMost RelayCall.broadcasts (Async.done value >>= rest) most := by
  cases value with
  | ok result => exact follows result
  | error thrown => trivial

/-- A job on a promise chain broadcasts what it would without the chain. -/
theorem atMost_exclusively {chain : Chained} {fn : Relay α}
    (job : AtMost RelayCall.broadcasts fn most) :
    AtMost RelayCall.broadcasts (exclusively chain fn) most := by
  refine atMost_after (.perform rfl) fun place => atMost_after (.perform rfl) fun _ => ?_
  have through : AtMost RelayCall.broadcasts (settled fn) most :=
    atMost_caught (atMost_before job fun _ => trivial) fun _ => trivial
  exact atMost_before through fun _ => .bind (.perform rfl) fun _ => trivial

theorem atMost_sendTransaction (destination : JsString) (data : ContractCall) (gas : Nat) :
    AtMost RelayCall.broadcasts (RelayService.sendTransaction cfg destination data gas) 1 :=
  atMost_after (callsOnly_gasFor broadcasts_of_idle gas) fun _ =>
    atMost_before (.perform _) fun _ =>
      .bind (callsOnly_recordSpend broadcasts_of_idle _) fun _ => trivial

/-- A call that is simulated and sent. -/
theorem atMost_simulated (destination : JsString) (data : ContractCall)
    (refusal : RelayError → RelayError) :
    AtMost RelayCall.broadcasts (do
      let gas ← RelayService.simulate destination data refusal
      RelayService.sendTransaction cfg destination data gas) 1 :=
  atMost_after (callsOnly_simulate broadcasts_of_idle _ _ _) fun gas =>
    atMost_sendTransaction destination data gas

theorem atMost_sendFromRelayer (destination : JsString) (data : ContractCall) :
    AtMost RelayCall.broadcasts (RelayService.sendFromRelayer cfg destination data) 1 := by
  refine atMost_after (.perform rfl) fun wiring => ?_
  split
  · trivial
  · exact atMost_after (callsOnly_enforceDailyCap broadcasts_of_idle fun _ => rfl) fun _ =>
      atMost_exclusively (atMost_simulated _ _ _)

/-! ## Requests -/

theorem atMost_submitRequest (rules : RelayService.RequestRules) (payload : RelayRequestDto) :
    AtMost RelayCall.broadcasts (RelayService.submitRequest lib cfg rules payload) 1 := by
  refine atMost_done fun signed => ?_
  split
  · trivial
  · split
    · trivial
    · refine atMost_after (callsOnly_enforceAccountRate broadcasts_of_idle _) fun _ =>
        atMost_after (callsOnly_enforceDailyCap broadcasts_of_idle fun _ => rfl) fun _ =>
          atMost_after (callsOnly_verifyRelayable broadcasts_of_plain _ _) fun valid => ?_
      split
      · trivial
      · exact atMost_exclusively (atMost_done fun data => atMost_simulated _ data _)

theorem atMost_submitPermit (permit : PermitRequestDto) :
    AtMost RelayCall.broadcasts (RelayService.submitPermit lib cfg permit) 1 := by
  refine atMost_after (.perform rfl) fun wiring => ?_
  split
  · trivial
  · split
    · trivial
    · exact atMost_after (callsOnly_enforceAccountRate broadcasts_of_idle _) fun _ =>
        atMost_after (callsOnly_enforceDailyCap broadcasts_of_idle fun _ => rfl) fun _ =>
          atMost_done fun data => atMost_exclusively (atMost_simulated _ data _)

theorem atMost_publishAspRoot (root : Int) :
    AtMost RelayCall.broadcasts (PoolService.publishAspRoot lib cfg root) 1 := by
  refine atMost_after (.perform rfl) fun current => ?_
  split
  · trivial
  · refine atMost_done fun data => atMost_before (atMost_sendFromRelayer _ _) fun hash => ?_
    refine .bind (.tryCatch (.bind (.perform rfl) fun _ => trivial) fun _ => trivial)
      fun receipt => ?_
    split <;> trivial

/-- The root of a proof, and the proof. -/
theorem atMost_relayProof (root : Int) (data : JsString) (proof : WithdrawProof) :
    AtMost RelayCall.broadcasts (PoolService.relayProof lib cfg root data proof) 2 := by
  unfold PoolService.relayProof
  change AtMost _ _ (1 + 1)
  refine AtMost.bind (atMost_publishAspRoot root) fun _ =>
    atMost_done fun call => ?_
  exact atMost_caught (atMost_sendFromRelayer _ _) fun _ => trivial

theorem atMost_withdraw (dto : PoolWithdrawDto) :
    AtMost RelayCall.broadcasts (PoolService.withdraw lib cfg dto) 2 := by
  unfold PoolService.withdraw
  split
  · trivial
  · refine atMost_after (.perform rfl) fun synced => ?_
    split
    · trivial
    · exact atMost_done fun withdrawal => atMost_done fun signed =>
        atMost_after (.perform rfl) fun rows => atMost_done fun known => atMost_done fun root =>
          atMost_done fun proof => atMost_exclusively (atMost_relayProof root _ proof)

theorem atMost_shield (dto : PoolShieldDto) :
    AtMost RelayCall.broadcasts (PoolService.shield lib cfg dto) 1 := by
  unfold PoolService.shield
  split
  · trivial
  · refine atMost_done fun request => ?_
    split
    · trivial
    · refine atMost_after (.perform rfl) fun now => ?_
      split
      · trivial
      · exact atMost_done fun data =>
          atMost_caught (atMost_sendFromRelayer _ _) fun _ => trivial

end Parts

/-- How many transactions a request may need: a withdrawal publishes the root of its proof. -/
def RelayRequest.transactions : RelayRequest → Nat
  | withdraw _ => 2
  | _ => 1

/-- However it is answered, a request broadcasts no more than it needs. -/
theorem RelayRequest.atMost_start (lib : RelayLibraries) (cfg : RelayConfig)
    (request : RelayRequest) :
    AtMost RelayCall.broadcasts (request.start lib cfg) request.transactions := by
  cases request with
  | submit payload =>
      refine atMost_after (.perform rfl) fun wiring => ?_
      split
      · trivial
      · exact atMost_submitRequest _ _
  | submitResolution payload =>
      refine atMost_after (.perform rfl) fun wiring => ?_
      split
      · trivial
      · split
        · trivial
        · exact atMost_submitRequest _ _
  | submitPermit permit => exact atMost_submitPermit permit
  | sendFromRelayer destination data => exact atMost_sendFromRelayer destination data
  | withdraw dto => exact atMost_withdraw dto
  | shield dto => exact atMost_shield dto

/-! ## Nonces -/

namespace RelayWorld

variable {world later : RelayWorld}

theorem nonce_broadcast (world : RelayWorld) (tx : RelayTransaction) :
    (world.broadcast tx).nonce = world.nonce + 1 := by
  simp only [nonce, broadcast, List.length_append, List.length_singleton]
  omega

/-- What is mined keeps its nonce. -/
theorem nonce_changes (changes : world.Changes later) : later.nonce = world.nonce := by
  cases changes with
  | waits | indexes => rfl
  | mines succeeded next =>
      simp only [nonce, next, List.length_cons, List.length_append, List.length_nil]
      omega

/-- Only a broadcast uses a nonce, and one at most. -/
theorem nonce_answered {call : RelayCall} {answer : Except RelayError call.Answer}
    {record : List RelayCall} (answered : relayEnvironment call world answer record later) :
    later.nonce ≤ world.nonce + call.broadcasts.toNat := by
  refine relayEnvironment_keeps (·.nonce ≤ world.nonce + call.broadcasts.toNat) answered
    (Nat.le_add_right _ _) fun given performed => ?_
  cases performed.effect with
  | sends => exact Nat.le_of_eq (nonce_broadcast world _)
  | reads | joins | leaves | counts => exact Nat.le_add_right world.nonce _

end RelayWorld

/-! ## Runs -/

/-- The stage of a request: how many transactions it has tried to broadcast. -/
def broadcastStage (_ : RelayRequest) (spent : Nat) (_ : RelayWorld) (call : RelayCall)
    (_ : Except RelayError call.Answer) : Nat :=
  spent + call.broadcasts.toNat

/-- The services, with how many transactions their requests have tried to broadcast. -/
def broadcastSystem (lib : RelayLibraries) (cfg : RelayConfig) (initial : RelayWorld) :
    System RelayCall.Answer RelayError Nat RelayRequest Nat RelayWorld RelayCall :=
  relaySystem lib cfg initial (fun _ => 0) broadcastStage

/-- **No request is broadcast twice**: whatever fails, and whichever requests run beside it, a
request tries to broadcast no more transactions than it needs, and no nonce is used beyond what
the requests have tried. -/
theorem broadcast_within (lib : RelayLibraries) (cfg : RelayConfig) (initial : RelayWorld)
    {meets : System.Condition RelayCall.Answer RelayError Nat RelayRequest Nat RelayWorld}
    {records : List RelayCall} {world : RelayWorld}
    {threads : List (Async.Thread RelayCall.Answer RelayError Nat RelayRequest Nat)}
    (run : (broadcastSystem lib cfg initial).Run meets records world threads) :
    (∀ thread ∈ threads, thread.stage ≤ thread.request.transactions) ∧
      world.nonce ≤ initial.nonce + (threads.map Async.Thread.stage).sum := by
  constructor
  · exact System.spent_within run (fun _ => rfl) (fun _ => rfl)
      fun request => request.atMost_start lib cfg
  · exact System.raised_within run RelayWorld.nonce (fun _ => rfl) (fun _ => rfl)
      (fun _ _ passed => RelayWorld.nonce_changes passed)
      fun _ _ _ _ _ answered => RelayWorld.nonce_answered answered

namespace SampleRelay

/-- A node that refuses the approvals of the first account. -/
def selective : RelayNode :=
  { node with
    simulates := fun
      | .permit owner _ _ _ _ _ _ => owner ≠ address '1'
      | _ => true }

/-- Approvals of two accounts, their calls by turns up to the queue, and then the first and the
second to their ends. -/
def approvedBeside : List (System.Move RelayRequest) :=
  .arrive (.submitPermit (permit (address 'c'))) ::
    .arrive (.submitPermit { permit (address 'c') with owner := address '4' }) ::
    (List.replicate 6 [System.Move.call 0, .call 1]).flatten ++ List.replicate 3 (.call 0) ++
      List.replicate 9 (.call 1)

/-- The nonces that were used, and how many transactions each request has tried and whether it has
returned. -/
def broadcastSummary (reached : RelayStanding Nat) : Nat × List (Nat × Option Bool) :=
  (reached.world.nonce, reached.threads.map fun thread =>
    (thread.stage, thread.task.outcome?.map Except.isOk))

end SampleRelay

open SampleRelay in
/-- Of two approvals under way at once one is refused, and the other is broadcast and uses one
nonce. -/
theorem broadcast_within_permit :
    ∃ records world threads,
      (broadcastSystem libraries config SampleRelay.world).Run System.unconstrained records world
          threads ∧
        world.nonce = 1 ∧
        (threads.map fun thread => (thread.stage, thread.task.outcome?.map Except.isOk)) =
          [(0, some false), (1, some true)] ∧
        (∀ thread ∈ threads, thread.stage ≤ thread.request.transactions) ∧
        world.nonce ≤ SampleRelay.world.nonce + (threads.map Async.Thread.stage).sum := by
  have played : (playRelay libraries config SampleRelay.world (fun _ => 0) broadcastStage selective
      (fun _ _ _ _ _ => true) approvedBeside
        (broadcastSystem libraries config SampleRelay.world).standing).map broadcastSummary =
          some (1, [(0, some false), (1, some true)]) := by decide +kernel
  obtain ⟨reached, followed, summary⟩ := Option.map_eq_some_iff.mp played
  obtain ⟨used, tried⟩ := Prod.mk.inj summary
  have run : (broadcastSystem libraries config SampleRelay.world).Run System.unconstrained
      reached.records reached.world reached.threads :=
    run_of_playRelay libraries config (fun _ _ _ _ _ _ => trivial) _ .start followed
  exact ⟨_, _, _, run, used, tried, broadcast_within libraries config SampleRelay.world run⟩

end Numera
