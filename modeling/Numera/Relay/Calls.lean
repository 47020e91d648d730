import Numera.Foundation.Interleaving
import Numera.Relay.Wire

/-! # The calls of the relay

`RelayService` and `PoolService` await Redis counters, the leaves in the database, and
the node they simulate at and broadcast to. This module has the configuration, the
state of the process and of what it calls, the calls and what each does. The two
promise chains of the services are lines in which a job takes its place, waits for its
turn and leaves. Calls inside the process never fail.
-/

namespace Numera

/-! ## Configuration -/

structure RelayConfig where
  enabled : Bool
  forwarder : JsString
  resolutionForwarder : JsString
  maxGas : Nat
  maxFeePerGas : Nat
  accountLimit : Nat
  accountWindowSeconds : Nat
  dailyCapWei : Nat
  /-- The pool has its addresses and the chain client is ready. -/
  poolEnabled : Bool
  entrypoint : JsString
  collateral : JsString

/-- The libraries the services rely on: viem's function selectors and its encoder, which
may throw, and the root of zk-kit's Merkle tree of some leaves. -/
structure RelayLibraries where
  toFunctionSelector : JsString → JsString
  encodes : ContractCall → Bool
  imtRoot : List Int → Int

/-! ## State -/

/-- What the boot checks have established: whether there is a wallet, the engine the
forwarder targets, the spenders a permit may name, and the resolver the resolution
forwarder targets, in lower case where the service keeps them so. -/
structure Wiring where
  connected : Bool
  engine : Option JsString := none
  permitSpenders : List JsString := []
  resolver : Option JsString := none

/-- The keys of the relay in Redis: `relay:rate:` of an account, and `relay:spend:` of
a day. -/
inductive RedisKey where
  | rate (account : JsString)
  | spend (day : Nat)
  deriving DecidableEq

structure Counter where
  value : Nat
  expiresAt : Option Nat := none

/-- A promise chain: how many jobs have been put on it, and how many are through. -/
structure Line where
  issued : Nat := 0
  served : Nat := 0

/-- The promise chains of the services: the nonce queue and the withdrawal lock. -/
inductive Chained where
  | queue
  | lock
  deriving DecidableEq

/-- A transaction that was mined, with the association root just before it. -/
structure Execution where
  hash : Nat
  tx : RelayTransaction
  latestRoot : Int
  succeeded : Bool

/-- The process, Redis, the leaves, and the chain. Transactions are known by their
nonce. -/
structure RelayWorld where
  wiring : Wiring
  line : Chained → Line := fun _ => {}
  synced : Bool := true
  leaves : List PoolLeaf := []
  now : Nat := 0
  counters : RedisKey → Option Counter := fun _ => none
  latestRoot : Int := 0
  pending : List (Nat × RelayTransaction) := []
  executed : List Execution := []

namespace RelayWorld

/-- How many transactions have been broadcast: the next nonce. -/
def nonce (world : RelayWorld) : Nat := world.pending.length + world.executed.length

/-- A counter that has not expired. -/
def counter (world : RelayWorld) (key : RedisKey) : Option Counter :=
  (world.counters key).filter fun counter => counter.expiresAt.all (world.now < ·)

def setCounter (world : RelayWorld) (key : RedisKey) (counter : Counter) : RelayWorld :=
  { world with counters := fun other => if other = key then some counter else world.counters other }

/-- `INCRBY`: a missing counter starts at zero, and one that is there keeps its expiry. -/
def incrby (world : RelayWorld) (key : RedisKey) (amount : Nat) : Nat × RelayWorld :=
  let counter := (world.counter key).getD ⟨0, none⟩
  (counter.value + amount, world.setCounter key { counter with value := counter.value + amount })

/-- `EXPIRE`. -/
def expire (world : RelayWorld) (key : RedisKey) (seconds : Nat) : RelayWorld :=
  match world.counter key with
  | none => world
  | some counter =>
      world.setCounter key { counter with expiresAt := some (world.now + seconds * 1000) }

/-- Another counter is set. -/
theorem counters_setCounter (world : RelayWorld) {key other : RedisKey} (counter : Counter)
    (apart : other ≠ key) : (world.setCounter key counter).counters other = world.counters other :=
  if_neg apart

theorem counters_expire (world : RelayWorld) {key other : RedisKey} (seconds : Nat)
    (apart : other ≠ key) : (world.expire key seconds).counters other = world.counters other := by
  unfold RelayWorld.expire
  split
  · rfl
  · exact counters_setCounter world _ apart

def setLine (world : RelayWorld) (chain : Chained) (line : Line) : RelayWorld :=
  { world with line := fun other => if other = chain then line else world.line other }

/-- Broadcast a transaction. -/
def broadcast (world : RelayWorld) (tx : RelayTransaction) : RelayWorld :=
  { world with pending := world.pending ++ [(world.nonce, tx)] }

/-- The association root after a transaction. -/
def rootAfter (root : Int) (tx : RelayTransaction) (succeeded : Bool) : Int :=
  match tx.data with
  | .updateRoot updated => if succeeded then updated else root
  | _ => root

/-- What changes by itself: time passes, the pool is indexed, and the oldest pending
transaction is mined. -/
inductive Changes (world : RelayWorld) : RelayWorld → Prop where
  | waits {now} (later : world.now ≤ now) : Changes world { world with now }
  | indexes (leaves : List PoolLeaf) (synced : Bool) : Changes world { world with leaves, synced }
  | mines {hash tx rest} (succeeded : Bool) (next : world.pending = (hash, tx) :: rest) :
      Changes world { world with
        pending := rest
        executed := world.executed ++ [⟨hash, tx, world.latestRoot, succeeded⟩]
        latestRoot := rootAfter world.latestRoot tx succeeded }

end RelayWorld

/-! ## Calls -/

structure FeesPerGas where
  maxFeePerGas : Nat
  maxPriorityFeePerGas : Nat

inductive ReceiptStatus where
  | success
  | reverted
  deriving DecidableEq

inductive RelayCall where
  | wiring
  | dateNow
  | isSynced
  | join (chain : Chained)
  | turn (chain : Chained) (place : Nat)
  | leave (chain : Chained)
  | leaves
  | incr (key : RedisKey)
  | incrby (key : RedisKey) (amount : Nat)
  | expire (key : RedisKey) (seconds : Nat)
  | get (key : RedisKey)
  | verifyRelayable (forwarder : JsString) (request : ContractRequest)
  | call («to» : JsString) (data : ContractCall)
  | estimateGas («to» : JsString) (data : ContractCall)
  | estimateFeesPerGas
  | sendTransaction (tx : RelayTransaction)
  | waitForTransactionReceipt (hash : Nat)
  | latestRoot
  deriving DecidableEq

@[reducible] def RelayCall.Answer : RelayCall → Type
  | wiring => Wiring
  | dateNow => Nat
  | isSynced => Bool
  | join _ => Nat
  | turn _ _ => Unit
  | leave _ => Unit
  | leaves => List PoolLeaf
  | incr _ => Nat
  | incrby _ _ => Nat
  | expire _ _ => Unit
  | get _ => Option Nat
  | verifyRelayable _ _ => Bool
  | call _ _ => Unit
  | estimateGas _ _ => Nat
  | estimateFeesPerGas => FeesPerGas
  | sendTransaction _ => Nat
  | waitForTransactionReceipt _ => ReceiptStatus
  | latestRoot => Int

/-- A computation of the relaying services. -/
abbrev Relay (α : Type) : Type := Async RelayCall.Answer RelayError α

/-- Await one call of the relaying services. -/
def RelayCall.request (call : RelayCall) : Relay call.Answer := Async.perform call

/-- A call that leaves the process. -/
def RelayCall.external : RelayCall → Bool
  | wiring | dateNow | isSynced | join _ | turn _ _ | leave _ => false
  | _ => true

/-- What a call does and how it is answered. The node may find anything of a request, a
simulation or the fees; it has a receipt only of what was mined. -/
def RelayCall.Performs :
    (call : RelayCall) → RelayWorld → Except RelayError call.Answer → RelayWorld → Prop
  | wiring, world, answer, later => answer = .ok world.wiring ∧ later = world
  | dateNow, world, answer, later => answer = .ok world.now ∧ later = world
  | isSynced, world, answer, later => answer = .ok world.synced ∧ later = world
  | join chain, world, answer, later =>
      answer = .ok (world.line chain).issued ∧
        later = world.setLine chain
          { world.line chain with issued := (world.line chain).issued + 1 }
  | turn chain place, world, answer, later =>
      (world.line chain).served = place ∧ answer = .ok () ∧ later = world
  | leave chain, world, answer, later =>
      answer = .ok () ∧
        later = world.setLine chain
          { world.line chain with served := (world.line chain).served + 1 }
  | leaves, world, answer, later => answer = .ok world.leaves ∧ later = world
  | incr key, world, answer, later =>
      answer = .ok (world.incrby key 1).1 ∧ later = (world.incrby key 1).2
  | incrby key amount, world, answer, later =>
      answer = .ok (world.incrby key amount).1 ∧ later = (world.incrby key amount).2
  | expire key seconds, world, answer, later =>
      answer = .ok () ∧ later = world.expire key seconds
  | get key, world, answer, later =>
      answer = .ok ((world.counter key).map Counter.value) ∧ later = world
  | verifyRelayable _ _, world, _, later => later = world
  | call _ _, world, _, later => later = world
  | estimateGas _ _, world, _, later => later = world
  | estimateFeesPerGas, world, _, later => later = world
  | sendTransaction tx, world, answer, later =>
      world.wiring.connected ∧ answer = .ok world.nonce ∧ later = world.broadcast tx
  | waitForTransactionReceipt hash, world, answer, later =>
      (∀ status, answer = .ok status →
        ∃ mined ∈ world.executed, mined.hash = hash ∧ (mined.succeeded ↔ status = .success)) ∧
        later = world
  | latestRoot, world, answer, later => answer = .ok world.latestRoot ∧ later = world

/-- The environment of the services: a call inside the process is performed, one that
leaves it may fail, with or without having been performed. -/
def relayEnvironment : Async.Environment RelayCall.Answer RelayError RelayWorld RelayCall :=
  fun call world answer record later =>
    if call.external then
      Async.Unreliable RelayCall.Performs call world answer record later ∧
        ∀ thrown, answer = .error thrown → ∃ error, thrown = .call error
    else Async.Reliable RelayCall.Performs call world answer record later

section Answered

variable {call : RelayCall} {world later : RelayWorld} {answer : Except RelayError call.Answer}
  {record : List RelayCall}

/-- What a call leaves behind: only the calls of the promise chains move their lines, and only
a broadcast changes the transactions. -/
inductive RelayCall.Effect (world : RelayWorld) : RelayCall → RelayWorld → Prop where
  | reads {call : RelayCall} : Effect world call world
  | joins {chain line} : Effect world (.join chain) (world.setLine chain line)
  | leaves {chain line} : Effect world (.leave chain) (world.setLine chain line)
  | counts {call : RelayCall} {key counter} : Effect world call (world.setCounter key counter)
  | sends {tx} : Effect world (.sendTransaction tx) (world.broadcast tx)

theorem RelayCall.Performs.effect (performed : call.Performs world answer later) :
    call.Effect world later := by
  cases call with
  | join chain =>
      obtain ⟨-, rfl⟩ := performed
      exact .joins
  | leave chain =>
      obtain ⟨-, rfl⟩ := performed
      exact .leaves
  | incr | incrby =>
      obtain ⟨-, rfl⟩ := performed
      exact .counts
  | expire key seconds =>
      obtain ⟨-, rfl⟩ := performed
      unfold RelayWorld.expire
      split
      · exact .reads
      · exact .counts
  | sendTransaction tx =>
      obtain ⟨-, -, rfl⟩ := performed
      exact .sends
  | turn chain place =>
      obtain ⟨-, -, rfl⟩ := performed
      exact .reads
  | verifyRelayable | call | estimateGas | estimateFeesPerGas =>
      obtain rfl : later = world := performed
      exact .reads
  | _ =>
      obtain ⟨-, rfl⟩ := performed
      exact .reads

/-- No call changes the wiring. -/
theorem RelayCall.Performs.wiring_eq (performed : call.Performs world answer later) :
    later.wiring = world.wiring := by
  cases performed.effect <;> rfl

/-- No call takes time. -/
theorem RelayCall.Performs.now_eq (performed : call.Performs world answer later) :
    later.now = world.now := by
  cases performed.effect <;> rfl

theorem RelayCall.Performs.line_eq (performed : call.Performs world answer later)
    (joins : ∀ chain, call ≠ .join chain) (leaves : ∀ chain, call ≠ .leave chain) :
    later.line = world.line := by
  cases performed.effect with
  | joins => exact absurd rfl (joins _)
  | leaves => exact absurd rfl (leaves _)
  | reads | counts | sends => rfl

/-- No call changes the root. -/
theorem RelayCall.Performs.chain_eq (performed : call.Performs world answer later)
    (sends : ∀ tx, call ≠ .sendTransaction tx) :
    later.latestRoot = world.latestRoot ∧ later.pending = world.pending ∧
      later.executed = world.executed := by
  cases performed.effect with
  | sends => exact absurd rfl (sends _)
  | reads | joins | leaves | counts => exact ⟨rfl, rfl, rfl⟩

/-- A call is refused without effect, or performed, when its answer may still be lost. -/
theorem relayEnvironment_cases (answered : relayEnvironment call world answer record later) :
    (record = [] ∧ later = world ∧ call.external ∧ ∃ error, answer = .error (.call error)) ∨
      record = [call] ∧ ∃ given, call.Performs world given later ∧
        (answer = given ∨ call.external ∧ ∃ error, answer = .error (.call error)) := by
  unfold relayEnvironment at answered
  split at answered
  · rename_i external
    obtain ⟨made, failure⟩ := answered
    cases made with
    | performed done => exact .inr ⟨rfl, answer, done, .inl rfl⟩
    | refused thrown =>
        obtain ⟨error, rfl⟩ := failure thrown rfl
        exact .inl ⟨rfl, rfl, external, error, rfl⟩
    | lost thrown done =>
        obtain ⟨error, rfl⟩ := failure thrown rfl
        exact .inr ⟨rfl, _, done, .inr ⟨external, error, rfl⟩⟩
  · exact .inr ⟨answered.2, answer, answered.1, .inl rfl⟩

/-- Only the call itself is recorded. -/
theorem relayEnvironment_record (answered : relayEnvironment call world answer record later) :
    ∀ entry ∈ record, entry = call := by
  rcases relayEnvironment_cases answered with ⟨rfl, -⟩ | ⟨rfl, -⟩
  · exact fun entry member => absurd member List.not_mem_nil
  · exact fun entry member => List.mem_singleton.mp member

/-- A call that was answered with a value was performed. -/
theorem relayEnvironment_ok {value : call.Answer}
    (answered : relayEnvironment call world (.ok value) record later) :
    call.Performs world (.ok value) later := by
  rcases relayEnvironment_cases answered with ⟨-, -, -, error, same⟩ | ⟨-, given, performed, same⟩
  · cases same
  · rcases same with rfl | ⟨-, error, same⟩
    · exact performed
    · cases same

/-- A call inside the process is performed and answered. -/
theorem relayEnvironment_inside (inside : call.external = false)
    (answered : relayEnvironment call world answer record later) :
    call.Performs world answer later := by
  unfold relayEnvironment at answered
  rw [if_neg (Bool.eq_false_iff.mp inside)] at answered
  exact answered.1

/-- What a call preserves when it is performed holds after it. -/
theorem relayEnvironment_keeps (holds : RelayWorld → Prop)
    (answered : relayEnvironment call world answer record later) (initially : holds world)
    (kept : ∀ given, call.Performs world given later → holds later) : holds later := by
  rcases relayEnvironment_cases answered with ⟨-, rfl, -⟩ | ⟨-, given, performed, -⟩
  · exact initially
  · exact kept given performed

end Answered

/-! ## A node that answers -/

/-- A node whose answers do not depend on the time: which requests it verifies, which
calls it simulates, the gas it estimates and the fees. -/
structure RelayNode where
  verifies : ContractRequest → Bool
  simulates : ContractCall → Bool
  gas : Nat
  fees : FeesPerGas

namespace RelayNode

variable (node : RelayNode)

/-- How a call is answered when nothing fails. A receipt that is not there times out. -/
def respond : (call : RelayCall) → RelayWorld → Except RelayError call.Answer × RelayWorld
  | .wiring, world => (.ok world.wiring, world)
  | .dateNow, world => (.ok world.now, world)
  | .isSynced, world => (.ok world.synced, world)
  | .join chain, world => (.ok (world.line chain).issued, world.setLine chain
      { world.line chain with issued := (world.line chain).issued + 1 })
  | .turn _ _, world => (.ok (), world)
  | .leave chain, world => (.ok (), world.setLine chain
      { world.line chain with served := (world.line chain).served + 1 })
  | .leaves, world => (.ok world.leaves, world)
  | .incr key, world => (.ok (world.incrby key 1).1, (world.incrby key 1).2)
  | .incrby key amount, world => (.ok (world.incrby key amount).1, (world.incrby key amount).2)
  | .expire key seconds, world => (.ok (), world.expire key seconds)
  | .get key, world => (.ok ((world.counter key).map Counter.value), world)
  | .verifyRelayable _ request, world => (.ok (node.verifies request), world)
  | .call _ data, world =>
      (if node.simulates data then .ok () else .error (.call ⟨JsString.ascii "reverted", []⟩), world)
  | .estimateGas _ _, world => (.ok node.gas, world)
  | .estimateFeesPerGas, world => (.ok node.fees, world)
  | .sendTransaction tx, world => (.ok world.nonce, world.broadcast tx)
  | .waitForTransactionReceipt hash, world =>
      (match world.executed.find? (·.hash = hash) with
        | some mined => .ok (if mined.succeeded then .success else .reverted)
        | none => .error (.call ⟨JsString.ascii "timed out", []⟩), world)
  | .latestRoot, world => (.ok world.latestRoot, world)

/-- A call can be made at once: it is its turn, and there is a wallet to send with. -/
def ready : RelayCall → RelayWorld → Bool
  | .turn chain place, world => (world.line chain).served = place
  | .sendTransaction _, world => world.wiring.connected
  | _, _ => true

/-- The environment may answer as a node does. -/
theorem respond_answers {call : RelayCall} {world : RelayWorld} (now : ready call world = true) :
    relayEnvironment call world (node.respond call world).1 [call] (node.respond call world).2 := by
  have performs : call.Performs world (node.respond call world).1 (node.respond call world).2 := by
    cases call with
    | turn chain place => exact ⟨of_decide_eq_true now, rfl, rfl⟩
    | sendTransaction tx => exact ⟨now, rfl, rfl⟩
    | waitForTransactionReceipt hash =>
        refine ⟨fun status same => ?_, rfl⟩
        simp only [respond] at same
        split at same
        · rename_i mined found
          have at_hash : mined.hash = hash := by simpa using List.find?_some found
          refine ⟨mined, List.mem_of_find?_eq_some found, at_hash, ?_⟩
          obtain rfl := Except.ok.inj same
          cases mined.succeeded <;> simp
        · cases same
    | verifyRelayable | call | estimateGas | estimateFeesPerGas => exact rfl
    | _ => exact ⟨rfl, rfl⟩
  unfold relayEnvironment
  split
  · refine ⟨.performed performs, fun thrown same => ?_⟩
    cases call with
    | call destination data =>
        simp only [respond] at same
        split at same
        · cases same
        · exact ⟨_, (Except.error.inj same).symm⟩
    | waitForTransactionReceipt hash =>
        simp only [respond] at same
        split at same
        · cases same
        · exact ⟨_, (Except.error.inj same).symm⟩
    | _ => cases same
  · exact ⟨performs, rfl⟩

end RelayNode

end Numera
