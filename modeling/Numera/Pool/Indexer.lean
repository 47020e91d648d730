import Mathlib.Data.List.Sort
import Numera.Chain.Indexer
import Numera.Foundation.Table

/-! # The pool indexer

`PoolIndexerService.tick`: one step of the crawler that mirrors the shielded
pool's state tree. It reads one range of blocks behind the safe head, turns the
deposits and withdrawals of the pool into leaves, and writes them together with
its cursor in one transaction. `PoolService.leaves` reads them back.
-/

namespace Numera

/-! ## Leaves -/

/-- A decoded event of the pool; `other` is any event that is not mirrored. -/
inductive PoolEvent where
  | deposited (commitment label value precommitmentHash : Nat)
  | withdrawn (value spentNullifier newCommitment : Nat)
  | other (eventName : JsString)

/-- A decoded log of the pool. -/
structure RawPoolLog where
  event : PoolEvent
  blockNumber : Nat
  transactionHash : JsString
  logIndex : Nat

inductive PoolLeafKind where
  | deposit
  | change
  deriving DecidableEq

/-- The unique index of the leaves table. -/
structure PoolLeafKey where
  txHash : JsString
  logIndex : Nat
  deriving DecidableEq

/-- One leaf of the pool's state tree, with its numbers in decimal. -/
structure PoolLeaf where
  blockNumber : Nat
  logIndex : Nat
  txHash : JsString
  kind : PoolLeafKind
  commitment : JsString
  label : Option JsString := none
  value : JsString
  precommitment : Option JsString := none
  spentNullifier : Option JsString := none
  deriving DecidableEq

def PoolLeaf.key (row : PoolLeaf) : PoolLeafKey := ⟨row.txHash, row.logIndex⟩

/-- An update with all the columns the row has, which leaves the others as they are. -/
def PoolLeaf.update (row old : PoolLeaf) : PoolLeaf :=
  { row with
    label := row.label.or old.label
    precommitment := row.precommitment.or old.precommitment
    spentNullifier := row.spentNullifier.or old.spentNullifier }

/-- `String(value)` of a `bigint`. -/
def decimalString (value : Nat) : JsString := JsString.ascii (toString value)

/-! ## Calls -/

structure PoolIndexerConfig where
  confirmations : Nat
  batchBlocks : Nat
  startBlock : Nat
  privacyPool : JsString

/-- The calls of a tick. The last is no call but the assignment of the service's own
flag. -/
inductive PoolIndexerCall where
  | getBlockNumber
  | findCursor
  | getLogs (privacyPool : JsString) (fromBlock toBlock : Nat)
  | transaction (rows : List PoolLeaf) (lastBlock : Nat)
  | setCaughtUp

@[reducible] def PoolIndexerCall.Answer : PoolIndexerCall → Type
  | getBlockNumber => Nat
  | findCursor => Option Nat
  | getLogs _ _ _ => List RawPoolLog
  | transaction _ _ => Unit
  | setCaughtUp => Unit

/-- A computation of the pool indexer. -/
abbrev PoolIndexing (α : Type) : Type := Async PoolIndexerCall.Answer Unit α

/-- The tables of the pool indexer. -/
structure PoolStore where
  leaves : Table PoolLeafKey PoolLeaf
  cursor : Option Nat

namespace PoolStore

/-- `poolLeaf.upsert`. -/
def upsertLeaf (store : PoolStore) (row : PoolLeaf) : PoolStore :=
  { store with leaves := store.leaves.upsert row.key row row.update }

/-- The transaction of a tick: every leaf, then the cursor. -/
def commit (store : PoolStore) (rows : List PoolLeaf) (lastBlock : Nat) : PoolStore :=
  { rows.foldl upsertLeaf store with cursor := some lastBlock }

end PoolStore

namespace PoolIndexerService

/-- Await one call of the pool indexer. -/
def request (call : PoolIndexerCall) : PoolIndexing call.Answer := Async.perform call

/-- One decoded log into a row, or null for an event we do not mirror. -/
def toLeaf (log : RawPoolLog) : Option PoolLeaf :=
  match log.event with
  | .deposited commitment label value precommitmentHash =>
      some {
        blockNumber := log.blockNumber
        logIndex := log.logIndex
        txHash := log.transactionHash.toLowerCase
        kind := .deposit
        commitment := decimalString commitment
        label := some (decimalString label)
        value := decimalString value
        precommitment := some (decimalString precommitmentHash) }
  | .withdrawn value spentNullifier newCommitment =>
      some {
        blockNumber := log.blockNumber
        logIndex := log.logIndex
        txHash := log.transactionHash.toLowerCase
        kind := .change
        commitment := decimalString newCommitment
        value := decimalString value
        spentNullifier := some (decimalString spentNullifier) }
  | .other _ => none

/-- Block, then log index within the block: the order the tree was built in. -/
def byTreeOrder (a b : PoolLeaf) : Int :=
  if a.blockNumber = b.blockNumber then (a.logIndex : Int) - b.logIndex
  else (a.blockNumber : Int) - b.blockNumber

def nextFromBlock (cfg : PoolIndexerConfig) : PoolIndexing Nat := do
  let cursor : Option Nat ← request .findCursor
  match cursor with
  | none => return cfg.startBlock
  | some lastBlock => return lastBlock + 1

/-- One step. Returns true when the safe head has been reached. -/
def tick (cfg : PoolIndexerConfig) : PoolIndexing Bool := do
  let head : Nat ← request .getBlockNumber
  let safeHead := safeHeadOf cfg.confirmations head
  let fromBlock ← nextFromBlock cfg
  if fromBlock > safeHead then
    request .setCaughtUp
    return true
  let width := cfg.batchBlocks
  let toBlock := if fromBlock + width - 1 < safeHead then fromBlock + width - 1 else safeHead
  let logs : List RawPoolLog ← request (.getLogs cfg.privacyPool fromBlock toBlock)
  let rows := (logs.filterMap toLeaf).insertionSort fun a b => byTreeOrder a b ≤ 0
  request (.transaction rows toBlock)
  if toBlock ≥ safeHead then request .setCaughtUp
  return toBlock ≥ safeHead

end PoolIndexerService

/-! ## Reading the leaves -/

/-- One leaf as the browser receives it. -/
structure PoolLeafView where
  index : Nat
  kind : PoolLeafKind
  commitment : JsString
  label : Option JsString
  value : JsString
  precommitment : Option JsString
  spentNullifier : Option JsString
  deriving DecidableEq

def PoolLeaf.view (index : Nat) (row : PoolLeaf) : PoolLeafView where
  index := index
  kind := row.kind
  commitment := row.commitment
  label := row.label
  value := row.value
  precommitment := row.precommitment
  spentNullifier := row.spentNullifier

namespace PoolService

/-- Every leaf, ordered by block number and then by log index. -/
def leaves (store : PoolStore) : List PoolLeaf :=
  (store.leaves.rows.map Prod.snd).insertionSort fun a b =>
    a.blockNumber < b.blockNumber ∨ a.blockNumber = b.blockNumber ∧ a.logIndex ≤ b.logIndex

/-- `state().leaves` of an enabled pool. -/
def stateLeaves (store : PoolStore) : List PoolLeafView :=
  (leaves store).mapIdx PoolLeaf.view

end PoolService

end Numera
