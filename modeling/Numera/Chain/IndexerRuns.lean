import Numera.Chain.Indexer
import Numera.Foundation.BlockScan

/-! # Runs of the market indexer

The ticks of the indexer, one after the other, each stopped wherever it fails,
against a chain whose final blocks do not change. A tick is refined by `Ticked`:
it hands over the block-by-block scan of a span that starts right after its
cursor and ends at or below its safe head, and it moves the cursor only to the
end of that span and only after the batch has completed. What the ticks that
saved their cursor have handed over is then one scan from the start block to the
cursor (`indexed_exactly`), whatever the width, the streams or the failures.
-/

namespace Numera

open Async (Reaches promiseAll)
open BlockScan (Before Distinct)

/-- The scan of normalized logs, block by block. -/
abbrev chainScan : List NormalizedLog → Nat → Nat → List NormalizedLog :=
  BlockScan.scan NormalizedLog.blockNumber NormalizedLog.logIndex

/-- No two logs share a block number and an index. -/
abbrev DistinctLogs : List NormalizedLog → Prop :=
  Distinct NormalizedLog.blockNumber NormalizedLog.logIndex

theorem byChainOrder_iff (x y : NormalizedLog) :
    byChainOrder x y ≤ 0 ↔ Before NormalizedLog.blockNumber NormalizedLog.logIndex x y := by
  unfold byChainOrder Before
  split
  · omega
  · split <;> omega

/-! ## The chain -/

/-- What the chain holds: the logs of every stream and the time of every block. -/
structure ChainHistory where
  logsOf : Stream → List RawLog
  timeOf : Nat → Nat

namespace ChainHistory

variable (history : ChainHistory)

/-- A log of a stream as it has to be handed over: under the kind and the address of its stream,
with its own event, place and transaction, and at the time of its block. -/
def normalizedLog (stream : Stream) (log : RawLog) : NormalizedLog where
  kind := stream.kind
  address := stream.address
  event := log.event
  blockNumber := log.blockNumber
  txHash := log.transactionHash
  logIndex := log.logIndex
  timestamp := ⟨history.timeOf log.blockNumber * 1000⟩

/-- `normalize` gives a log all of this, under the time of its block. -/
theorem normalize_eq (stream : Stream) (log : RawLog) :
    IndexerService.normalize stream (history.timeOf log.blockNumber) log =
      history.normalizedLog stream log := rfl

/-- The normalized logs of the streams. -/
def normalized (streams : List Stream) : List NormalizedLog :=
  streams.flatMap fun stream => (history.logsOf stream).map (history.normalizedLog stream)

/-- The logs of a stream within a span of blocks. -/
def logsWithin (stream : Stream) (first last : Nat) : List RawLog :=
  (history.logsOf stream).filter fun log => first ≤ log.blockNumber ∧ log.blockNumber ≤ last

end ChainHistory

/-- What is observed of a tick: the head it read, the batch it handed to the
processor, the batch the processor completed, and the cursor it saved. -/
inductive IndexerRecord where
  | observed (head : Nat)
  | handed (logs : List NormalizedLog)
  | completed (logs : List NormalizedLog)
  | saved (lastBlock : Nat)

/-- The stored cursor and the head that was read last. -/
structure IndexerWorld where
  cursor : Option Nat
  head : Nat

/-- What the services may answer. Any call may be rejected. `getLogs` answers in any
order, and completely for blocks that are final under the head that was read. The
head is any number, the processor may fail, and a cursor may be saved although the
answer is lost. -/
inductive Serves (history : ChainHistory) (confirmations : Nat) :
    Async.Environment IndexerCall.Answer Unit IndexerWorld IndexerRecord where
  | rejected {op : IndexerCall} {world : IndexerWorld} :
      Serves history confirmations op world (.error ()) [] world
  | head {world : IndexerWorld} (head : Nat) :
      Serves history confirmations .getBlockNumber world (.ok head) [.observed head]
        { world with head }
  | cursor {world : IndexerWorld} :
      Serves history confirmations .findCursor world (.ok world.cursor) [] world
  | logs {world : IndexerWorld} {stream : Stream} {first last : Nat} {answer : List RawLog}
      (complete : last ≤ safeHeadOf confirmations world.head →
        answer.Perm (history.logsWithin stream first last)) :
      Serves history confirmations (.getLogs stream first last) world (.ok answer) [] world
  | timestamp {world : IndexerWorld} {blockNumber : Nat} :
      Serves history confirmations (.getBlockTimestamp blockNumber) world
        (.ok (history.timeOf blockNumber)) [] world
  | batchFailed {world : IndexerWorld} {logs : List NormalizedLog} :
      Serves history confirmations (.processBatch logs) world (.error ()) [.handed logs] world
  | batchCompleted {world : IndexerWorld} {logs : List NormalizedLog} :
      Serves history confirmations (.processBatch logs) world (.ok ())
        [.handed logs, .completed logs] world
  | saved {world : IndexerWorld} {lastBlock : Nat} :
      Serves history confirmations (.upsertCursor lastBlock) world (.ok ()) [.saved lastBlock]
        { world with cursor := some lastBlock }
  | savedLost {world : IndexerWorld} {lastBlock : Nat} :
      Serves history confirmations (.upsertCursor lastBlock) world (.error ()) [.saved lastBlock]
        { world with cursor := some lastBlock }

/-- The calls that only read below the head. -/
def IndexerCall.reads : IndexerCall → Prop
  | findCursor | getLogs _ _ _ | getBlockTimestamp _ => True
  | _ => False

variable {history : ChainHistory} {cfg : IndexerConfig} {confirmations : Nat}

/-- A read changes nothing and is not recorded. -/
theorem Serves.of_reads {op : IndexerCall} {before after : IndexerWorld}
    {answer : Except Unit op.Answer} {record : List IndexerRecord} (reads : op.reads)
    (served : Serves history confirmations op before answer record after) :
    record = [] ∧ after = before := by
  cases served with
  | rejected => exact ⟨rfl, rfl⟩
  | cursor => exact ⟨rfl, rfl⟩
  | logs _ => exact ⟨rfl, rfl⟩
  | timestamp => exact ⟨rfl, rfl⟩
  | head _ => exact reads.elim
  | batchFailed => exact reads.elim
  | batchCompleted => exact reads.elim
  | saved => exact reads.elim
  | savedLost => exact reads.elim

/-! ## One range -/

/-- Parts that are each a permutation of something are together one of all of it. -/
private theorem perm_flatten {α β : Type} {items : List α} {parts : List (List β)}
    {whole : α → List β} (each : List.Forall₂ (fun item part => part.Perm (whole item)) items parts) :
    parts.flatten.Perm (items.flatMap whole) := by
  induction each with
  | nil => exact .refl _
  | cons first _ ih =>
      rw [List.flatten_cons, List.flatMap_cons]
      exact first.append ih

theorem callsOnly_collectLogs (range : BlockRange) :
    (IndexerService.collectLogs cfg range).CallsOnly IndexerCall.reads := by
  refine .bind (.promiseAll fun stream => ?_) fun perStream => ?_
  · exact .bind (.perform trivial) fun _ => trivial
  · refine .bind (.promiseAll fun blockNumber => ?_) fun _ => trivial
    exact .bind (.perform trivial) fun _ => trivial

/-- The timestamps that were read, looked up under one of their blocks. -/
private theorem lookup_timestamps (timeOf : Nat → Nat) (blocks : List Nat) {blockNumber : Nat}
    (member : blockNumber ∈ blocks) :
    (blocks.map fun block => (block, timeOf block)).lookup blockNumber =
      some (timeOf blockNumber) := by
  induction blocks with
  | nil => cases member
  | cons first rest ih =>
      rw [List.map_cons, List.lookup_cons]
      by_cases same : blockNumber = first
      · subst same
        simp
      · rw [beq_false_of_ne same]
        exact ih ((List.mem_cons.mp member).resolve_left same)

/-- The logs of the streams within a span, normalized. -/
private theorem map_logsWithin (streams : List Stream) (first last : Nat) :
    (streams.flatMap fun stream =>
        (history.logsWithin stream first last).map fun log => (stream, log)).map
          (fun entry => history.normalizedLog entry.1 entry.2) =
      BlockScan.within NormalizedLog.blockNumber (history.normalized streams) first last := by
  simp only [BlockScan.within, ChainHistory.normalized, ChainHistory.logsWithin, List.map_flatMap,
    List.filter_flatMap, List.map_map, List.filter_map]
  rfl

/-- **One range.** The logs collected over a final range are its scan. -/
theorem collectLogs_returned {logs collected : List NormalizedLog} {range : BlockRange}
    {world after : IndexerWorld} {records : List IndexerRecord}
    (arranged : (history.normalized cfg.streams).Perm logs) (distinct : DistinctLogs logs)
    (settled : range.toBlock ≤ safeHeadOf confirmations world.head)
    (path : Reaches (Serves history confirmations) (IndexerService.collectLogs cfg range) world
      records (.done (.ok collected)) after) :
    after = world ∧ collected = chainScan logs range.fromBlock range.toBlock := by
  refine ⟨((callsOnly_collectLogs range).unobserved
    (fun _ _ _ _ _ reads => Serves.of_reads reads) path).2, ?_⟩
  obtain ⟨perStream, asked, _, _, -, fetched, continued⟩ := Reaches.bind_returned path
  obtain ⟨tsByBlock, timed, _, _, -, read, returned⟩ := Reaches.bind_returned continued
  have parts : asked = world ∧ List.Forall₂ (fun stream part => part.Perm
      ((history.logsWithin stream range.fromBlock range.toBlock).map fun log => (stream, log)))
      cfg.streams perStream := by
    refine Reaches.promiseAll_returned (fun stream _ value records last round => ?_) fetched
    obtain ⟨raw, _, _, _, -, call, answered⟩ := Reaches.bind_returned round
    cases answered
    cases Reaches.perform_returned call with
    | logs complete => exact ⟨rfl, (complete settled).map _⟩
  have times : timed = asked ∧ List.Forall₂ (fun blockNumber entry =>
      (blockNumber, history.timeOf blockNumber) = entry)
      (perStream.flatten.map fun entry => entry.2.blockNumber).eraseDups tsByBlock := by
    refine Reaches.promiseAll_returned (fun blockNumber _ value records last round => ?_) read
    obtain ⟨timestamp, _, _, _, -, call, answered⟩ := Reaches.bind_returned round
    cases answered
    cases Reaches.perform_returned call with
    | timestamp => exact ⟨rfl, rfl⟩
  have table := List.forall₂_map_left_iff.mpr times.2
  rw [List.forall₂_eq_eq_eq] at table
  cases returned
  have normalized : ∀ entry ∈ perStream.flatten,
      IndexerService.normalize entry.1 ((tsByBlock.lookup entry.2.blockNumber).getD 0) entry.2 =
        history.normalizedLog entry.1 entry.2 := by
    intro entry member
    have listed : entry.2.blockNumber ∈
        (perStream.flatten.map fun entry => entry.2.blockNumber).eraseDups :=
      List.mem_eraseDups.mpr (List.mem_map_of_mem member)
    have found := lookup_timestamps history.timeOf _ listed
    rw [table] at found
    rw [found, Option.getD_some, ChainHistory.normalize_eq]
  have all := (perm_flatten parts.2).map fun entry => history.normalizedLog entry.1 entry.2
  rw [map_logsWithin] at all
  have sorted := BlockScan.insertionSort_eq_scan byChainOrder_iff distinct
    (all.trans (arranged.filter _))
  exact (congrArg (List.insertionSort _) (List.map_congr_left normalized)).trans sorted

/-! ## The planned ranges -/

/-- Ranges that follow one another from a block up to the end of the last of them,
none past the safe head. -/
inductive Spans (safeHead : Nat) : Nat → List BlockRange → Nat → Prop where
  | last {first last : Nat} (ordered : first ≤ last) (safe : last ≤ safeHead) :
      Spans safeHead first [⟨first, last⟩] last
  | cons {first middle last : Nat} {rest : List BlockRange} (ordered : first ≤ middle)
      (later : Spans safeHead (middle + 1) rest last) :
      Spans safeHead first (⟨first, middle⟩ :: rest) last

namespace Spans

variable {safeHead first last : Nat} {ranges : List BlockRange}

theorem bounds (spans : Spans safeHead first ranges last) : first ≤ last ∧ last ≤ safeHead := by
  induction spans with
  | last ordered safe => exact ⟨ordered, safe⟩
  | cons ordered _ ih => omega

theorem settled (spans : Spans safeHead first ranges last) :
    ∀ range ∈ ranges, range.toBlock ≤ safeHead := by
  induction spans with
  | last ordered safe =>
      intro range member
      rw [List.mem_singleton.mp member]
      exact safe
  | @cons first middle last rest ordered later ih =>
      intro range member
      rcases List.mem_cons.mp member with rfl | inRest
      · have bounds := later.bounds
        change middle ≤ safeHead
        omega
      · exact ih range inRest

theorem getLast? (spans : Spans safeHead first ranges last) :
    ranges.getLast?.map BlockRange.toBlock = some last := by
  induction spans with
  | last ordered safe => rfl
  | @cons first middle last rest ordered later ih =>
      cases rest with
      | nil => cases ih
      | cons second others => rw [List.getLast?_cons_cons, ih]

/-- The scans of the ranges are together the scan of the span. -/
theorem flatMap_scan (spans : Spans safeHead first ranges last) (logs : List NormalizedLog) :
    (ranges.flatMap fun range => chainScan logs range.fromBlock range.toBlock) =
      chainScan logs first last := by
  induction spans with
  | last ordered safe => simp
  | @cons first middle last rest ordered later ih =>
      have bounds := later.bounds
      have start : first ≤ middle + 1 := by omega
      have stop : middle ≤ last := by omega
      rw [List.flatMap_cons, ih]
      exact BlockScan.scan_append start stop

end Spans

/-- **The plan** spans from its first block without a gap, never past the safe head. -/
theorem spans_planFrom {width safeHead first : Nat} (positive : 1 ≤ width) (count : Nat)
    (behind : first ≤ safeHead) :
    ∃ last, Spans safeHead first (IndexerService.planFrom width safeHead (count + 1) first) last := by
  induction count generalizing first with
  | zero =>
      rw [IndexerService.planFrom, if_pos behind]
      refine ⟨_, .last ?_ ?_⟩
      · split <;> omega
      · split <;> omega
  | succ count ih =>
      rw [IndexerService.planFrom, if_pos behind]
      dsimp only
      by_cases more : (if first + width - 1 < safeHead then first + width - 1 else safeHead) + 1 ≤
          safeHead
      · obtain ⟨last, later⟩ := ih more
        refine ⟨last, .cons ?_ later⟩
        split <;> omega
      · rw [IndexerService.planFrom, if_neg more]
        refine ⟨_, .last ?_ ?_⟩
        · split <;> omega
        · split <;> omega

theorem spans_plan {safeHead first : Nat} (positive : 1 ≤ cfg.batchBlocks)
    (behind : first ≤ safeHead) :
    ∃ last, Spans safeHead first (IndexerService.plan cfg first safeHead) last := by
  obtain ⟨count, more⟩ : ∃ count, max 1 (maxLogRequestsInFlight / cfg.streams.length) = count + 1 :=
    ⟨max 1 (maxLogRequestsInFlight / cfg.streams.length) - 1, by omega⟩
  rw [IndexerService.plan, more]
  exact spans_planFrom positive count behind

/-! ## One tick -/

/-- How far a tick gets with writing a batch: what is recorded of it, and the cursor
it leaves. -/
inductive WritesBatch (cursor : Option Nat) (batch : List NormalizedLog) (last : Nat) :
    List IndexerRecord → Option Nat → Prop where
  | none : WritesBatch cursor batch last [] cursor
  | handed : WritesBatch cursor batch last [.handed batch] cursor
  | completed : WritesBatch cursor batch last [.handed batch, .completed batch] cursor
  | saved : WritesBatch cursor batch last [.handed batch, .completed batch, .saved last] (some last)
  | savedEmpty (empty : batch = []) : WritesBatch cursor batch last [.saved last] (some last)

/-- **The abstract tick.** It may not learn the head, or find nothing to do; else it
writes the scan of a span that starts after the cursor and ends at or below the
safe head of the head it learned. -/
inductive Ticked (confirmations startBlock : Nat) (logs : List NormalizedLog)
    (cursor : Option Nat) : List IndexerRecord → Option Nat → Prop where
  | unaware : Ticked confirmations startBlock logs cursor [] cursor
  | writing {head last : Nat} {records : List IndexerRecord} {later : Option Nat}
      (ahead : BlockScan.next startBlock cursor ≤ last) (safe : last ≤ safeHeadOf confirmations head)
      (writes : WritesBatch cursor (chainScan logs (BlockScan.next startBlock cursor) last) last
        records later) :
      Ticked confirmations startBlock logs cursor (.observed head :: records) later
  | idle (head : Nat) : Ticked confirmations startBlock logs cursor [.observed head] cursor

theorem callsOnly_nextFromBlock :
    (IndexerService.nextFromBlock cfg).CallsOnly IndexerCall.reads := by
  refine .bind (.perform trivial) fun cursor => ?_
  cases cursor <;> trivial

theorem nextFromBlock_returned {world after : IndexerWorld} {records : List IndexerRecord}
    {first : Nat}
    (path : Reaches (Serves history confirmations) (IndexerService.nextFromBlock cfg) world records
      (.done (.ok first)) after) : first = BlockScan.next cfg.startBlock world.cursor := by
  obtain ⟨cursor, _, _, _, -, found, returned⟩ := Reaches.bind_returned path
  cases Reaches.perform_returned found with
  | cursor =>
      cases stored : world.cursor with
      | none =>
          rw [stored] at returned
          cases returned
          rfl
      | some lastBlock =>
          rw [stored] at returned
          cases returned
          rfl

/-- Writing a batch, wherever it stands. -/
private theorem writesBatch_of_reaches {batch : List NormalizedLog} {last : Nat}
    {world after : IndexerWorld} {records : List IndexerRecord} {standing : Indexing Unit}
    (path : Reaches (Serves history confirmations)
      (applySpan (fun logs => request (.processBatch logs))
        (fun last => request (.upsertCursor last)) batch last) world records standing after) :
    WritesBatch world.cursor batch last records after.cursor := by
  unfold applySpan at path
  split at path
  · rcases Reaches.bind_cases path with ⟨_, within, -, -⟩ | ⟨_, _, _, _, rfl, handed, continued⟩
    · rcases Reaches.perform_cases within with ⟨rfl, rfl⟩ | ⟨answer, -, served⟩
      · exact .none
      · cases served with
        | rejected => exact .none
        | batchFailed => exact .handed
        | batchCompleted => exact .completed
    · cases Reaches.perform_returned handed with
      | batchCompleted =>
          rcases Reaches.perform_cases continued with ⟨rfl, rfl⟩ | ⟨answer, -, served⟩
          · exact .completed
          · cases served with
            | rejected => exact .completed
            | saved => exact .saved
            | savedLost => exact .saved
  · rename_i nothing
    have empty : batch = [] := by simpa using nothing
    rcases Reaches.perform_cases path with ⟨rfl, rfl⟩ | ⟨answer, -, served⟩
    · exact .none
    · cases served with
      | rejected => exact .none
      | saved => exact .savedEmpty empty
      | savedLost => exact .savedEmpty empty

/-- Collecting final ranges and writing what was collected, wherever it stands. -/
private theorem writesBatch_of_spans {logs : List NormalizedLog} {ranges : List BlockRange}
    {first last : Nat} {world after : IndexerWorld} {records : List IndexerRecord}
    {caughtUp : Bool} {standing : Indexing Bool}
    (arranged : (history.normalized cfg.streams).Perm logs) (distinct : DistinctLogs logs)
    (spans : Spans (safeHeadOf confirmations world.head) first ranges last)
    (path : Reaches (Serves history confirmations) (do
      let collected ← promiseAll (IndexerService.collectLogs cfg) ranges
      applySpan (fun logs => request (.processBatch logs))
        (fun last => request (.upsertCursor last)) (sortByChainOrder collected.flatten) last
      return caughtUp) world records standing after) :
    WritesBatch world.cursor (chainScan logs first last) last records after.cursor := by
  rcases Reaches.bind_cases path with ⟨_, within, -, -⟩ |
    ⟨collected, fetched, _, _, rfl, collecting, writing⟩
  · obtain ⟨rfl, rfl⟩ := (Async.CallsOnly.promiseAll callsOnly_collectLogs).unobserved
      (fun _ _ _ _ _ reads => Serves.of_reads reads) within
    exact .none
  · obtain ⟨rfl, -⟩ := (Async.CallsOnly.promiseAll callsOnly_collectLogs).unobserved
      (fun _ _ _ _ _ reads => Serves.of_reads reads) collecting
    have parts : fetched = world ∧ List.Forall₂ (fun range part =>
        chainScan logs range.fromBlock range.toBlock = part) ranges collected := by
      refine Reaches.promiseAll_returned (fun range member part _ later round => ?_) collecting
      obtain ⟨same, scanned⟩ :=
        collectLogs_returned arranged distinct (spans.settled range member) round
      exact ⟨same, scanned.symm⟩
    obtain ⟨rfl, parts⟩ := parts
    have table := List.forall₂_map_left_iff.mpr parts
    rw [List.forall₂_eq_eq_eq] at table
    have batch : sortByChainOrder collected.flatten = chainScan logs first last := by
      rw [← table, ← List.flatMap_def, spans.flatMap_scan logs]
      exact BlockScan.insertionSort_scan byChainOrder_iff
    rw [batch] at writing
    rcases Reaches.bind_cases writing with ⟨_, within, -, -⟩ | ⟨_, _, _, _, rfl, written, done⟩
    · exact writesBatch_of_reaches within
    · cases done
      rw [List.append_nil]
      exact writesBatch_of_reaches written

/-- **A tick, wherever it stands, is an abstract tick.** -/
theorem ticked_of_reaches {logs : List NormalizedLog} {world after : IndexerWorld}
    {records : List IndexerRecord} {standing : Indexing Bool} (positive : 1 ≤ cfg.batchBlocks)
    (arranged : (history.normalized cfg.streams).Perm logs) (distinct : DistinctLogs logs)
    (path : Reaches (Serves history cfg.confirmations) (IndexerService.tick cfg) world records
      standing after) :
    Ticked cfg.confirmations cfg.startBlock logs world.cursor records after.cursor := by
  have reads : ∀ op before answer record after, IndexerCall.reads op →
      Serves history cfg.confirmations op before answer record after →
        record = [] ∧ after = before := fun _ _ _ _ _ reads => Serves.of_reads reads
  unfold IndexerService.tick at path
  rcases Reaches.bind_cases path with ⟨_, within, unreturned, -⟩ |
    ⟨head, looked, _, _, rfl, asked, continued⟩
  · rcases Reaches.perform_cases within with ⟨rfl, rfl⟩ | ⟨answer, standing, served⟩
    · exact .unaware
    · cases served with
      | rejected => exact .unaware
      | head head => exact absurd standing (unreturned head)
  cases Reaches.perform_returned asked with
  | head =>
      rcases Reaches.bind_cases continued with ⟨_, within, -, -⟩ |
        ⟨first, found, _, _, rfl, cursor, deciding⟩
      · obtain ⟨rfl, rfl⟩ := callsOnly_nextFromBlock.unobserved reads within
        exact .idle head
      · obtain ⟨rfl, rfl⟩ := callsOnly_nextFromBlock.unobserved reads cursor
        have next := nextFromBlock_returned cursor
        dsimp only at next
        subst next
        split at deciding
        · cases deciding
          exact .idle head
        · rename_i behind
          obtain ⟨last, spans⟩ := spans_plan positive (Nat.le_of_not_lt behind)
          dsimp only at deciding
          rw [spans.getLast?, Option.getD_some] at deciding
          have writes := writesBatch_of_spans arranged distinct spans deciding
          exact .writing spans.bounds.1 spans.bounds.2 writes

/-! ## Runs -/

/-- Ticks one after the other, each stopped wherever it fails, from a start without
a cursor. The records are kept tick by tick. -/
inductive IndexerRun (cfg : IndexerConfig) (history : ChainHistory) :
    List (List IndexerRecord) → IndexerWorld → Prop where
  | start (head : Nat) : IndexerRun cfg history [] ⟨none, head⟩
  | tick {ticks : List (List IndexerRecord)} {world later : IndexerWorld}
      {records : List IndexerRecord} {standing : Indexing Bool}
      (earlier : IndexerRun cfg history ticks world)
      (stopped : Reaches (Serves history cfg.confirmations) (IndexerService.tick cfg) world records
        standing later) :
      IndexerRun cfg history (ticks ++ [records]) later

def IndexerRecord.isSaved : IndexerRecord → Bool
  | saved _ => true
  | _ => false

/-- The batch that was handed over, if the record is of one. -/
def IndexerRecord.batch : IndexerRecord → List NormalizedLog
  | handed logs => logs
  | _ => []

/-- The batches of the ticks that saved their cursor, put together. -/
def savedLogs (ticks : List (List IndexerRecord)) : List NormalizedLog :=
  (ticks.filter fun records => records.any IndexerRecord.isSaved).flatten.flatMap
    IndexerRecord.batch

/-- The logs from the start block to the cursor in chain order. -/
def mirrored (startBlock : Nat) (logs : List NormalizedLog) : Option Nat → List NormalizedLog
  | none => []
  | some lastBlock =>
      sortByChainOrder (logs.filter fun log =>
        startBlock ≤ log.blockNumber ∧ log.blockNumber ≤ lastBlock)

theorem mirrored_eq {startBlock : Nat} {logs : List NormalizedLog} (distinct : DistinctLogs logs)
    (cursor : Option Nat) :
    mirrored startBlock logs cursor =
      BlockScan.upTo NormalizedLog.blockNumber NormalizedLog.logIndex logs startBlock cursor := by
  cases cursor with
  | none => rfl
  | some lastBlock => exact BlockScan.insertionSort_eq_scan byChainOrder_iff distinct (.refl _)

/-- A span that starts after the cursor extends what is mirrored. -/
private theorem mirrored_extend {startBlock last : Nat} {cursor : Option Nat}
    {logs : List NormalizedLog} (distinct : DistinctLogs logs)
    (started : ∀ lastBlock, cursor = some lastBlock → startBlock ≤ lastBlock)
    (ahead : BlockScan.next startBlock cursor ≤ last) :
    mirrored startBlock logs (some last) =
      mirrored startBlock logs cursor ++ chainScan logs (BlockScan.next startBlock cursor) last := by
  rw [mirrored_eq distinct, mirrored_eq distinct, BlockScan.upTo_extend started ahead]

/-- What holds between the ticks of a run. -/
structure Mirrors (cfg : IndexerConfig) (logs : List NormalizedLog)
    (ticks : List (List IndexerRecord)) (cursor : Option Nat) : Prop where
  started : ∀ lastBlock, cursor = some lastBlock → cfg.startBlock ≤ lastBlock
  saved : savedLogs ticks = mirrored cfg.startBlock logs cursor
  applied : ∀ log ∈ mirrored cfg.startBlock logs cursor,
    ∃ batch, .completed batch ∈ ticks.flatten ∧ log ∈ batch
  settled : ∀ records ∈ ticks, ∀ batch, .handed batch ∈ records →
    ∃ head, .observed head ∈ records ∧
      ∀ log ∈ batch, log.blockNumber ≤ safeHeadOf cfg.confirmations head

private theorem savedLogs_append (ticks : List (List IndexerRecord)) (records : List IndexerRecord) :
    savedLogs (ticks ++ [records]) = savedLogs ticks ++
      if records.any IndexerRecord.isSaved then records.flatMap IndexerRecord.batch else [] := by
  unfold savedLogs
  rw [List.filter_append, List.flatten_append, List.flatMap_append]
  by_cases saves : records.any IndexerRecord.isSaved
  · simp [saves]
  · simp [saves]

/-- A tick that does not save keeps what is mirrored. -/
private theorem Mirrors.unsaved {logs : List NormalizedLog} {ticks : List (List IndexerRecord)}
    {cursor : Option Nat} {records : List IndexerRecord} (mirrors : Mirrors cfg logs ticks cursor)
    (unsaved : records.any IndexerRecord.isSaved = false)
    (settled : ∀ batch, .handed batch ∈ records → ∃ head, .observed head ∈ records ∧
      ∀ log ∈ batch, log.blockNumber ≤ safeHeadOf cfg.confirmations head) :
    Mirrors cfg logs (ticks ++ [records]) cursor where
  started := mirrors.started
  saved := by
    rw [savedLogs_append, unsaved, mirrors.saved]
    exact List.append_nil _
  applied log member := by
    obtain ⟨batch, completed, inBatch⟩ := mirrors.applied log member
    refine ⟨batch, ?_, inBatch⟩
    rw [List.flatten_append]
    exact List.mem_append_left _ completed
  settled others member := by
    rcases List.mem_append.mp member with old | new
    · exact mirrors.settled others old
    · rw [List.mem_singleton.mp new]
      exact settled

/-- A tick that saves extends what is mirrored by the batch it completed. -/
private theorem Mirrors.extended {logs : List NormalizedLog} {ticks : List (List IndexerRecord)}
    {cursor : Option Nat} {records : List IndexerRecord} {last : Nat}
    (mirrors : Mirrors cfg logs ticks cursor) (distinct : DistinctLogs logs)
    (ahead : BlockScan.next cfg.startBlock cursor ≤ last)
    (saves : records.any IndexerRecord.isSaved)
    (batch : records.flatMap IndexerRecord.batch =
      chainScan logs (BlockScan.next cfg.startBlock cursor) last)
    (completed : ∀ log ∈ chainScan logs (BlockScan.next cfg.startBlock cursor) last,
      ∃ batch, .completed batch ∈ records ∧ log ∈ batch)
    (settled : ∀ batch, .handed batch ∈ records → ∃ head, .observed head ∈ records ∧
      ∀ log ∈ batch, log.blockNumber ≤ safeHeadOf cfg.confirmations head) :
    Mirrors cfg logs (ticks ++ [records]) (some last) where
  started := by
    rintro _ ⟨⟩
    exact BlockScan.start_le_of_next_le mirrors.started ahead
  saved := by
    rw [savedLogs_append, if_pos saves, batch, mirrors.saved,
      mirrored_extend distinct mirrors.started ahead]
  applied log member := by
    rw [mirrored_extend distinct mirrors.started ahead] at member
    rw [List.flatten_append]
    rcases List.mem_append.mp member with old | new
    · obtain ⟨batch, inTicks, inBatch⟩ := mirrors.applied log old
      exact ⟨batch, List.mem_append_left _ inTicks, inBatch⟩
    · obtain ⟨batch, inRecords, inBatch⟩ := completed log new
      exact ⟨batch, List.mem_append_right _ (by simpa using inRecords), inBatch⟩
  settled others member := by
    rcases List.mem_append.mp member with old | new
    · exact mirrors.settled others old
    · rw [List.mem_singleton.mp new]
      exact settled

/-- **One tick.** -/
theorem Mirrors.tick {logs : List NormalizedLog} {ticks : List (List IndexerRecord)}
    {cursor later : Option Nat} {records : List IndexerRecord}
    (mirrors : Mirrors cfg logs ticks cursor) (distinct : DistinctLogs logs)
    (ticked : Ticked cfg.confirmations cfg.startBlock logs cursor records later) :
    Mirrors cfg logs (ticks ++ [records]) later := by
  cases ticked with
  | unaware => exact mirrors.unsaved rfl (by simp)
  | idle head => exact mirrors.unsaved rfl (by simp)
  | @writing head last records later ahead safe writes =>
      have below : ∀ log ∈ chainScan logs (BlockScan.next cfg.startBlock cursor) last,
          log.blockNumber ≤ safeHeadOf cfg.confirmations head := fun log member =>
        (BlockScan.mem_scan.mp member).2.2.trans safe
      cases writes with
      | none => exact mirrors.unsaved rfl (by simp)
      | handed => exact mirrors.unsaved rfl (by simpa using below)
      | completed => exact mirrors.unsaved rfl (by simpa using below)
      | saved =>
          refine mirrors.extended distinct ahead rfl ?_ ?_ (by simpa using below)
          · simp [IndexerRecord.batch]
          · exact fun log member => ⟨_, by simp, member⟩
      | savedEmpty empty =>
          refine mirrors.extended distinct ahead rfl ?_ ?_ (by simp)
          · simp [IndexerRecord.batch, empty]
          · rw [empty]
            exact fun log member => (nomatch member)

/-- **The indexer neither skips nor reorders.** In every run, what the ticks that
saved their cursor handed over is, put together, the logs from the start block to
the cursor in chain order; every one of them was in a batch that completed; and no
log above the safe head of its tick was ever handed over. -/
theorem indexed_exactly {logs : List NormalizedLog} {ticks : List (List IndexerRecord)}
    {world : IndexerWorld} (positive : 1 ≤ cfg.batchBlocks)
    (arranged : (history.normalized cfg.streams).Perm logs) (distinct : DistinctLogs logs)
    (run : IndexerRun cfg history ticks world) :
    savedLogs ticks = mirrored cfg.startBlock logs world.cursor ∧
      (∀ log ∈ mirrored cfg.startBlock logs world.cursor,
        ∃ batch, .completed batch ∈ ticks.flatten ∧ log ∈ batch) ∧
      ∀ records ∈ ticks, ∀ batch, .handed batch ∈ records →
        ∃ head, .observed head ∈ records ∧
          ∀ log ∈ batch, log.blockNumber ≤ safeHeadOf cfg.confirmations head := by
  have mirrors : Mirrors cfg logs ticks world.cursor := by
    induction run with
    | start head => exact ⟨by simp, rfl, by simp [mirrored], by simp⟩
    | tick earlier stopped ih =>
        exact ih.tick distinct (ticked_of_reaches positive arranged distinct stopped)
  exact ⟨mirrors.saved, mirrors.applied, mirrors.settled⟩

/-! ## Computed ticks -/

/-- The services when nothing fails and the head stands still. -/
def serve (history : ChainHistory) (head : Nat) :
    Async.Responder IndexerCall.Answer Unit IndexerWorld
  | .getBlockNumber, world => (.ok head, { world with head })
  | .findCursor, world => (.ok world.cursor, world)
  | .getLogs stream first last, world => (.ok (history.logsWithin stream first last), world)
  | .getBlockTimestamp blockNumber, world => (.ok (history.timeOf blockNumber), world)
  | .processBatch _, world => (.ok (), world)
  | .upsertCursor lastBlock, world => (.ok (), { world with cursor := some lastBlock })

def serveRecord (head : Nat) : IndexerCall → IndexerWorld → List IndexerRecord
  | .getBlockNumber, _ => [.observed head]
  | .processBatch logs, _ => [.handed logs, .completed logs]
  | .upsertCursor lastBlock, _ => [.saved lastBlock]
  | _, _ => []

theorem serves_serve (confirmations head : Nat) (call : IndexerCall) (world : IndexerWorld) :
    Serves history confirmations call world (serve history head call world).1
      (serveRecord head call world) (serve history head call world).2 := by
  cases call with
  | getBlockNumber => exact .head head
  | findCursor => exact .cursor
  | getLogs stream first last => exact .logs fun _ => .refl _
  | getBlockTimestamp blockNumber => exact .timestamp
  | processBatch logs => exact .batchCompleted
  | upsertCursor lastBlock => exact .saved

namespace Sample

/-- Two streams, read two blocks at a time from block 5 on and one block behind the head. -/
def streams : IndexerConfig where
  confirmations := 1
  batchBlocks := 2
  startBlock := 5
  streams := [⟨JsString.ascii "0xe0", .lsLmsr⟩, ⟨JsString.ascii "0xb0", .tradingBlocklist⟩]

/-- The engine has logs in blocks 8 and 6, the ban list in block 6. -/
def chainHistory : ChainHistory where
  logsOf stream :=
    match stream.kind with
    | .lsLmsr =>
        [⟨.marketInvalidated 1 0, 8, JsString.ascii "0x81", 0⟩,
          ⟨.marketInvalidated 2 7, 6, JsString.ascii "0x62", 3⟩]
    | .tradingBlocklist => [⟨.unbanned (JsString.ascii "0xa1"), 6, JsString.ascii "0x61", 1⟩]
    | .optimisticResolver => []
  timeOf blockNumber := 1000 + blockNumber

/-- What is recorded of a tick under head 9 that nothing stops. -/
def tickRecords : List IndexerRecord :=
  Async.recorded (serve chainHistory 9) (serveRecord 9) 40 (IndexerService.tick streams) ⟨none, 0⟩

end Sample

open Sample in
/-- A tick over two ranges and two streams saves the three logs in chain order, each under its
stream and at the time of its block. -/
theorem indexed_twoStreams :
    savedLogs [tickRecords] =
      [⟨.tradingBlocklist, JsString.ascii "0xb0", .unbanned (JsString.ascii "0xa1"), 6,
          JsString.ascii "0x61", 1, ⟨1006000⟩⟩,
        ⟨.lsLmsr, JsString.ascii "0xe0", .marketInvalidated 2 7, 6, JsString.ascii "0x62", 3,
          ⟨1006000⟩⟩,
        ⟨.lsLmsr, JsString.ascii "0xe0", .marketInvalidated 1 0, 8, JsString.ascii "0x81", 0,
          ⟨1008000⟩⟩] := by
  have stopped := Async.reaches_recorded (serve chainHistory 9) (serves_serve 1 9) 40
    (IndexerService.tick streams) ⟨none, 0⟩
  have distinct : DistinctLogs (chainHistory.normalized streams.streams) := by
    unfold DistinctLogs BlockScan.Distinct
    decide +kernel
  have saved := (indexed_exactly (by decide) (.refl _) distinct (.tick (.start 0) stopped)).1
  have cursor : (Async.stopped (serve chainHistory 9) 40 (IndexerService.tick streams)
      ⟨none, 0⟩).2.cursor = some 8 := by decide +kernel
  rw [cursor] at saved
  calc savedLogs [tickRecords]
      = mirrored streams.startBlock (chainHistory.normalized streams.streams) (some 8) := saved
    _ = _ := by decide +kernel

end Numera
