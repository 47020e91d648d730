import Numera.Chain.Database
import Numera.Relay.Calls
import Mathlib.Data.List.Sort

/-! # The settlement keeper

`SettlementService` finalizes the proposals whose dispute window has closed. Every tick
it reads the ten oldest of them, skips those in backoff, and sends one transaction for
each of the others through `RelayService`, whose sends and receipts are calls here. It
keeps the earliest next attempt and the failures of each proposal in memory, so reading
or writing one of these maps is a call as well. A proposal is known by its engine and
market, which the transaction's data encodes. Time passes before every call, and
resolutions are indexed while the keeper waits for its next tick.

What is recorded of a run is what the keeper read and when its attempts started and
failed.
-/

namespace Numera

/-! ## State -/

structure SettlementConfig where
  enabled : Bool
  pollIntervalMs : Nat
  optimisticResolver : Option JsString

/-- The resolutions in the database, the maps of the service, and the proposals that
transactions were sent for. -/
structure SettlementWorld where
  now : Nat
  resolutions : Table MarketKey ResolutionProposal
  nextAttempt : MarketKey → Option Nat := fun _ => none
  attempts : MarketKey → Option Nat := fun _ => none
  sent : Nat → Option MarketKey := fun _ => none

/-- The dispute window of a proposal has closed, with nobody in dispute. -/
def ResolutionProposal.due (row : ResolutionProposal) (now : Nat) : Bool :=
  decide (row.phase = .proposed) && row.disputeDeadline.any fun deadline => decide (deadline.ms < now)

theorem ResolutionProposal.due_mono {row : ResolutionProposal} {now later : Nat}
    (due : row.due now = true) (passed : now ≤ later) : row.due later = true := by
  simp only [ResolutionProposal.due, Bool.and_eq_true, Option.any_eq_true, decide_eq_true_eq] at *
  obtain ⟨proposed, deadline, same, closed⟩ := due
  exact ⟨proposed, deadline, same, Nat.lt_of_lt_of_le closed passed⟩

namespace SettlementWorld

/-- The rows that are due, as stored. -/
def dueRows (world : SettlementWorld) : List (MarketKey × ResolutionProposal) :=
  world.resolutions.rows.filter fun row => row.2.due world.now

/-- Rows in the order of `disputeDeadline`. -/
def Before (first second : MarketKey × ResolutionProposal) : Prop :=
  (first.2.disputeDeadline.elim 0 Date.ms) ≤ second.2.disputeDeadline.elim 0 Date.ms

instance (first second : MarketKey × ResolutionProposal) : Decidable (Before first second) :=
  inferInstanceAs (Decidable (_ ≤ _))

instance : Std.Total Before := ⟨fun first second =>
  Nat.le_total (first.2.disputeDeadline.elim 0 Date.ms) (second.2.disputeDeadline.elim 0 Date.ms)⟩

instance : IsTrans (MarketKey × ResolutionProposal) Before := ⟨fun _ _ _ => Nat.le_trans⟩

/-- `BATCH`. -/
def batchSize : Nat := 10

/-- What the query may answer: the oldest rows that are due, in any order among those of one
deadline. -/
def IsBatch (world : SettlementWorld) (batch : List MarketKey) : Prop :=
  ∃ sorted : List (MarketKey × ResolutionProposal), sorted.Perm world.dueRows ∧
    sorted.Pairwise Before ∧ batch = (sorted.take batchSize).map Prod.fst

/-- Every row of a batch is due. -/
theorem IsBatch.due {world : SettlementWorld} {batch : List MarketKey} (answer : world.IsBatch batch)
    {key : MarketKey} (member : key ∈ batch) :
    ∃ row, world.resolutions.find? key = some row ∧ row.due world.now = true := by
  obtain ⟨sorted, perm, -, rfl⟩ := answer
  obtain ⟨⟨own, row⟩, taken, rfl⟩ := List.mem_map.mp member
  obtain ⟨present, due⟩ := List.mem_filter.mp (perm.mem_iff.mp (List.mem_of_mem_take taken))
  exact ⟨row, (world.resolutions.mem_rows_iff own row).mp present, due⟩

/-- The batch of a database that keeps to its own order where the deadlines do not decide. -/
def batch (world : SettlementWorld) : List MarketKey :=
  ((world.dueRows.insertionSort Before).take batchSize).map Prod.fst

theorem isBatch_batch (world : SettlementWorld) : world.IsBatch world.batch :=
  ⟨_, List.perm_insertionSort _ _, List.pairwise_insertionSort _ _, rfl⟩

def setNextAttempt (world : SettlementWorld) (key : MarketKey) (time : Nat) : SettlementWorld :=
  { world with
    nextAttempt := fun other => if other = key then some time else world.nextAttempt other }

def setAttempts (world : SettlementWorld) (key : MarketKey) (count : Option Nat) :
    SettlementWorld :=
  { world with attempts := fun other => if other = key then count else world.attempts other }

def setSent (world : SettlementWorld) (hash : Nat) (key : MarketKey) : SettlementWorld :=
  { world with sent := fun other => if other = hash then some key else world.sent other }

end SettlementWorld

/-! ## Calls -/

/-- Why an attempt failed. -/
inductive AttemptFailure where
  | rejected
  | reverted
  deriving DecidableEq

inductive SettlementEvent where
  | queried (batch : List MarketKey)
  | read (now : Nat)
  | started (key : MarketKey) (time : Nat)
  | failed (key : MarketKey) (time : Nat) (failure : AttemptFailure)
  deriving DecidableEq

/-- What a rejected call of the keeper throws. -/
inductive SettlementError where
  | rejected
  deriving DecidableEq

inductive SettlementCall where
  | setTimeout (delayMs : Nat)
  | isEnabled
  | findDue
  | dateNow
  | nextAttempt (key : MarketKey)
  | book (key : MarketKey)
  | postpone (key : MarketKey) (delayMs : Nat)
  | attempts (key : MarketKey)
  | setAttempts (key : MarketKey) (count : Nat)
  | deleteAttempts (key : MarketKey)
  | sendFromRelayer (resolver : JsString) (key : MarketKey)
  | receiptFor (hash : Nat)

@[reducible] def SettlementCall.Answer : SettlementCall → Type
  | setTimeout _ => Unit
  | isEnabled => Bool
  | findDue => List MarketKey
  | dateNow => Nat
  | nextAttempt _ => Option Nat
  | book _ => Unit
  | postpone _ _ => Unit
  | attempts _ => Option Nat
  | setAttempts _ _ => Unit
  | deleteAttempts _ => Unit
  | sendFromRelayer _ _ => Nat
  | receiptFor _ => Option ReceiptStatus

/-- A computation of the settlement service. -/
abbrev Settlement (α : Type) : Type := Async SettlementCall.Answer SettlementError α

/-- Await one call of the settlement service. -/
def SettlementCall.request (call : SettlementCall) : Settlement call.Answer := Async.perform call

namespace SettlementService

def settleCooldownMs : Nat := 60000
def baseBackoffMs : Nat := 60000
def maxBackoffMs : Nat := 1800000

/-- The delay after a number of failures. -/
def backoffMs (failures : Nat) : Nat := min (baseBackoffMs * 2 ^ (failures - 1)) maxBackoffMs

end SettlementService

/-- What a call does at the moment it is answered, how it is answered, and what is recorded of it.
The query may fail, a send may be rejected, and a receipt may be missing. An attempt starts when it
is booked; it fails when its send is rejected, or when the receipt of its transaction is
reverted. -/
def SettlementCall.Performs : (call : SettlementCall) → SettlementWorld →
    Except SettlementError call.Answer → List SettlementEvent → SettlementWorld → Prop
  | setTimeout _, world, answer, record, later =>
      answer = .ok () ∧ record = [] ∧ ∃ resolutions, later = { world with resolutions }
  | isEnabled, world, answer, record, later =>
      (∃ enabled, answer = .ok enabled) ∧ record = [] ∧ later = world
  | findDue, world, answer, record, later =>
      ((answer = .error .rejected ∧ record = []) ∨
        ∃ batch, world.IsBatch batch ∧ answer = .ok batch ∧ record = [.queried batch]) ∧
          later = world
  | dateNow, world, answer, record, later =>
      answer = .ok world.now ∧ record = [.read world.now] ∧ later = world
  | nextAttempt key, world, answer, record, later =>
      answer = .ok (world.nextAttempt key) ∧ record = [] ∧ later = world
  | book key, world, answer, record, later =>
      answer = .ok () ∧ record = [.started key world.now] ∧
        later = world.setNextAttempt key (world.now + SettlementService.settleCooldownMs)
  | postpone key delayMs, world, answer, record, later =>
      answer = .ok () ∧ record = [] ∧ later = world.setNextAttempt key (world.now + delayMs)
  | attempts key, world, answer, record, later =>
      answer = .ok (world.attempts key) ∧ record = [] ∧ later = world
  | setAttempts key count, world, answer, record, later =>
      answer = .ok () ∧ record = [] ∧ later = world.setAttempts key (some count)
  | deleteAttempts key, world, answer, record, later =>
      answer = .ok () ∧ record = [] ∧ later = world.setAttempts key none
  | sendFromRelayer _ key, world, answer, record, later =>
      (answer = .error .rejected ∧ record = [.failed key world.now .rejected] ∧ later = world) ∨
        ∃ hash, answer = .ok hash ∧ record = [] ∧ later = world.setSent hash key
  | receiptFor hash, world, answer, record, later =>
      later = world ∧ ∃ receipt, answer = .ok receipt ∧
        record = if receipt = some .reverted then
          (world.sent hash).toList.map fun key => .failed key world.now .reverted else []

/-- Time passes, and a call is answered. -/
def settlementEnvironment :
    Async.Environment SettlementCall.Answer SettlementError SettlementWorld SettlementEvent :=
  fun call world answer record later =>
    ∃ now, world.now ≤ now ∧ call.Performs { world with now } answer record later

/-! ## The service -/

namespace SettlementService

variable (cfg : SettlementConfig)

/-- Back off further each time. -/
def backOff (key : MarketKey) : Settlement Unit := do
  let attempts ← (SettlementCall.attempts key).request
  let n := attempts.getD 0 + 1
  (SettlementCall.setAttempts key n).request
  (SettlementCall.postpone key (backoffMs n)).request

/-- What follows a send: its receipt, when there is a transaction to wait for. -/
def awaitReceipt (key : MarketKey) : Option Nat → Settlement Unit
  | none => return
  | some hash => do
      (SettlementCall.deleteAttempts key).request
      let receipt ← (SettlementCall.receiptFor hash).request
      if receipt = some .reverted then backOff key else return

/-- One attempt. It is booked before the transaction is sent. -/
def finalize (resolver : JsString) (key : MarketKey) : Settlement Unit := do
  (SettlementCall.book key).request
  let sent ← tryCatch (do
      let hash ← (SettlementCall.sendFromRelayer resolver key).request
      return some hash) fun _ => do
    backOff key
    return none
  awaitReceipt key sent

/-- One row of a pass: an attempt, unless the proposal is in backoff. -/
def settleRow (resolver : JsString) (now : Nat) (key : MarketKey) : Settlement Unit := do
  let nextAttempt ← (SettlementCall.nextAttempt key).request
  if nextAttempt.getD 0 > now then return
  else finalize resolver key

/-- One pass: everything whose window has closed, minus what is in backoff. -/
def settleDue : Settlement Unit :=
  match cfg.optimisticResolver with
  | none => return
  | some resolver => do
      let due ← SettlementCall.findDue.request
      let now ← SettlementCall.dateNow.request
      Async.forEach due (settleRow resolver now)

/-- A bad pass never ends the loop. -/
def tick : Settlement Unit :=
  tryCatch (do
      let enabled ← SettlementCall.isEnabled.request
      if enabled then settleDue cfg else return) fun _ => return

/-- The loop, for some number of ticks. -/
def schedule : Nat → Settlement Unit
  | 0 => return
  | ticks + 1 => do
      (SettlementCall.setTimeout cfg.pollIntervalMs).request
      tick cfg
      schedule ticks

def onModuleInit (ticks : Nat) : Settlement Unit :=
  if cfg.enabled then schedule cfg ticks else return

end SettlementService

/-! ## A relay that answers -/

/-- How the relay answers the n-th send, and the receipts. -/
structure SettlementRelay where
  sends : Bool
  receipt : Option ReceiptStatus

namespace SettlementRelay

variable (relay : SettlementRelay)

/-- How a call is answered when the query is, and when time passes only between ticks. -/
def respond : (call : SettlementCall) → SettlementWorld →
    Except SettlementError call.Answer × SettlementWorld
  | .setTimeout delayMs, world => (.ok (), { world with now := world.now + delayMs })
  | .isEnabled, world => (.ok true, world)
  | .findDue, world => (.ok world.batch, world)
  | .dateNow, world => (.ok world.now, world)
  | .nextAttempt key, world => (.ok (world.nextAttempt key), world)
  | .book key, world =>
      (.ok (), world.setNextAttempt key (world.now + SettlementService.settleCooldownMs))
  | .postpone key delayMs, world => (.ok (), world.setNextAttempt key (world.now + delayMs))
  | .attempts key, world => (.ok (world.attempts key), world)
  | .setAttempts key count, world => (.ok (), world.setAttempts key (some count))
  | .deleteAttempts key, world => (.ok (), world.setAttempts key none)
  | .sendFromRelayer _ key, world =>
      if relay.sends then (.ok world.now, world.setSent world.now key) else (.error .rejected, world)
  | .receiptFor _, world => (.ok relay.receipt, world)

/-- What is recorded of a call that is answered so. -/
def record : SettlementCall → SettlementWorld → List SettlementEvent
  | .findDue, world => [.queried world.batch]
  | .dateNow, world => [.read world.now]
  | .book key, world => [.started key world.now]
  | .sendFromRelayer _ key, world =>
      if relay.sends then [] else [.failed key world.now .rejected]
  | .receiptFor hash, world =>
      if relay.receipt = some .reverted then
        (world.sent hash).toList.map fun key => .failed key world.now .reverted
      else []
  | _, _ => []

theorem respond_answers (call : SettlementCall) (world : SettlementWorld) :
    settlementEnvironment call world (relay.respond call world).1 (relay.record call world)
      (relay.respond call world).2 := by
  cases call with
  | setTimeout delayMs =>
      exact ⟨world.now + delayMs, Nat.le_add_right _ _, rfl, rfl, world.resolutions, rfl⟩
  | isEnabled => exact ⟨world.now, Nat.le_refl _, ⟨true, rfl⟩, rfl, rfl⟩
  | findDue =>
      exact ⟨world.now, Nat.le_refl _, .inr ⟨world.batch, world.isBatch_batch, rfl, rfl⟩, rfl⟩
  | sendFromRelayer resolver key =>
      refine ⟨world.now, Nat.le_refl _, ?_⟩
      simp only [respond, record]
      cases relay.sends with
      | false => exact .inl ⟨rfl, rfl, rfl⟩
      | true => exact .inr ⟨world.now, rfl, rfl, rfl⟩
  | receiptFor hash => exact ⟨world.now, Nat.le_refl _, rfl, relay.receipt, rfl, rfl⟩
  | dateNow | nextAttempt | book | postpone | attempts | setAttempts | deleteAttempts =>
      exact ⟨world.now, Nat.le_refl _, rfl, rfl, rfl⟩

end SettlementRelay

/-- A proposal whose window closes at a time. -/
def proposalUntil (deadline : Nat) : ResolutionProposal where
  marketRef := none
  phase := .proposed
  proposer := none
  proposedOutcome := some 0
  proposerBonded := false
  proposerBond := 0
  disputeDeadline := some ⟨deadline⟩
  disputer := none
  counterOutcome := none
  disputerBond := 0
  arbitrationDeadline := none
  route := none
  settledOutcome := none
  reward := 0
  forfeited := 0
  loser := none
  settledAt := none
  proposedTx := none
  settledTx := none

/-- A keeper that looks every minute. -/
def settlementConfig : SettlementConfig where
  enabled := true
  pollIntervalMs := 60000
  optimisticResolver := some [2]

end Numera
