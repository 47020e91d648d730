import Mathlib.Data.List.Sort
import Numera.Foundation.Async
import Numera.Chain.Log

/-! # The market indexer

`IndexerService.tick`: one step of the resumable indexer. It reads the head, plans
the block ranges it will fetch, collects the logs of every stream over them,
hands them to the event processor as one batch in chain order, and then advances
its cursor over the whole span. The requests of a `Promise.all` are made in
order.
-/

namespace Numera

open Async (promiseAll)

/-- One contract whose events are indexed. -/
structure Stream where
  address : JsString
  kind : StreamKind
  deriving DecidableEq

/-- A decoded log as viem returns it for one stream. -/
structure RawLog where
  event : Event
  blockNumber : Nat
  transactionHash : JsString
  logIndex : Nat
  deriving DecidableEq

/-- The indexer's configuration. The streams are those whose address is set. -/
structure IndexerConfig where
  confirmations : Nat
  batchBlocks : Nat
  startBlock : Nat
  streams : List Stream

/-- How many `getLogs` requests one tick may have in flight. -/
def maxLogRequestsInFlight : Nat := 14

/-- The calls of a tick. -/
inductive IndexerCall where
  | getBlockNumber
  | findCursor
  | getLogs (stream : Stream) (fromBlock toBlock : Nat)
  | getBlockTimestamp (blockNumber : Nat)
  | processBatch (logs : List NormalizedLog)
  | upsertCursor (lastBlock : Nat)

@[reducible] def IndexerCall.Answer : IndexerCall → Type
  | getBlockNumber => Nat
  | findCursor => Option Nat
  | getLogs _ _ _ => List RawLog
  | getBlockTimestamp _ => Nat
  | processBatch _ => Unit
  | upsertCursor _ => Unit

/-- A computation of the indexer. What a call is rejected with has no part in it. -/
abbrev Indexing (α : Type) : Type := Async IndexerCall.Answer Unit α

/-- Await one call of the indexer. -/
def request (call : IndexerCall) : Indexing call.Answer := Async.perform call

/-- A span of blocks, both ends included. -/
structure BlockRange where
  fromBlock : Nat
  toBlock : Nat
  deriving DecidableEq

/-- On-chain order: block first, then position within the block. -/
def byChainOrder (a b : NormalizedLog) : Int :=
  if a.blockNumber = b.blockNumber then (a.logIndex : Int) - b.logIndex
  else if a.blockNumber < b.blockNumber then -1 else 1

/-- `Array.prototype.sort`, which is stable. -/
def sortByChainOrder (logs : List NormalizedLog) : List NormalizedLog :=
  logs.insertionSort fun a b => byChainOrder a b ≤ 0

/-- The last block that is final under a head. -/
def safeHeadOf (confirmations head : Nat) : Nat :=
  if head > confirmations then head - confirmations else 0

/-- What a batch writes: its logs, when there are any, and then the cursor. -/
def applySpan {m : Type → Type} [Monad m] (processBatch : List NormalizedLog → m Unit)
    (saveCursor : Nat → m Unit) (logs : List NormalizedLog)
    (toBlock : Nat) : m Unit := do
  if logs.length > 0 then processBatch logs
  saveCursor toBlock

namespace IndexerService

/-- The ranges from a cursor up to the safe head, as many as may still be added. -/
def planFrom (width safeHead : Nat) : Nat → Nat → List BlockRange
  | 0, _ => []
  | remaining + 1, cursor =>
      if cursor ≤ safeHead then
        let endBlock := if cursor + width - 1 < safeHead then cursor + width - 1 else safeHead
        ⟨cursor, endBlock⟩ :: planFrom width safeHead remaining (endBlock + 1)
      else []

/-- Split `[fromBlock, safeHead]` into the ranges this tick should fetch. -/
def plan (cfg : IndexerConfig) (fromBlock safeHead : Nat) : List BlockRange :=
  planFrom cfg.batchBlocks safeHead (max 1 (maxLogRequestsInFlight / cfg.streams.length))
    fromBlock

/-- A raw log with its stream's tag and the time of its block. -/
def normalize (stream : Stream) (timestamp : Nat) (log : RawLog) : NormalizedLog where
  kind := stream.kind
  address := stream.address
  event := log.event
  blockNumber := log.blockNumber
  txHash := log.transactionHash
  logIndex := log.logIndex
  timestamp := .ofSeconds timestamp

def collectLogs (cfg : IndexerConfig) (range : BlockRange) : Indexing (List NormalizedLog) := do
  let perStream ← promiseAll (fun stream => do
    let raw : List RawLog ← request (.getLogs stream range.fromBlock range.toBlock)
    return raw.map fun log => (stream, log)) cfg.streams
  let flat := perStream.flatten
  let uniqueBlocks := (flat.map fun entry => entry.2.blockNumber).eraseDups
  let tsByBlock ← promiseAll (fun blockNumber => do
    let timestamp : Nat ← request (.getBlockTimestamp blockNumber)
    return (blockNumber, timestamp)) uniqueBlocks
  let normalized := flat.map fun (stream, log) =>
    normalize stream ((tsByBlock.lookup log.blockNumber).getD 0) log
  return sortByChainOrder normalized

def nextFromBlock (cfg : IndexerConfig) : Indexing Nat := do
  let cursor : Option Nat ← request .findCursor
  match cursor with
  | none => return cfg.startBlock
  | some lastBlock => return lastBlock + 1

/-- One indexing step. Returns true when the safe head has been reached. -/
def tick (cfg : IndexerConfig) : Indexing Bool := do
  let head : Nat ← request .getBlockNumber
  let safeHead := safeHeadOf cfg.confirmations head
  let fromBlock ← nextFromBlock cfg
  if fromBlock > safeHead then return true
  let ranges := plan cfg fromBlock safeHead
  let toBlock := (ranges.getLast?.map BlockRange.toBlock).getD safeHead
  let collected ← promiseAll (collectLogs cfg) ranges
  let logs := sortByChainOrder collected.flatten
  applySpan (fun logs => request (.processBatch logs)) (fun last => request (.upsertCursor last))
    logs toBlock
  return toBlock ≥ safeHead

end IndexerService

end Numera
