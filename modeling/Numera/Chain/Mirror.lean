import Numera.Chain.IndexerRuns
import Numera.Chain.Replay

/-! # The market indexer over its database

The ticks of the indexer with the event processor and the cursor write performed
against the database they change. Seen through its cursor and its head such a run
is a run of the indexer over services that only answer (`MirrorRun.indexer`), so
each tick hands over a scan that starts after the cursor. A pass over a batch that
fails has performed a prefix of the batch's writes, and the next tick starts from
there at the same cursor.

What carries a run is that the database leads to the chain (`LeadsToChain`): apply the
logs after the cursor to its ledger, up to any block at or above everything that
was ever handed over, and the result is the ledger of the chain up to that block.
Where the cursor itself is such a block, the database is the chain's ledger
(`ledger_of_mirrorRun`).
-/

namespace Numera

open Async (Reaches Changed)

/-- What is observed of a tick: the head it read, the calls a pass over a batch
performed and whether it completed, and the cursor it saved. -/
inductive MirrorRecord where
  | observed (head : Nat)
  | passed (logs : List NormalizedLog) (calls : List Call) (completed : Bool)
  | saved (lastBlock : Nat)

/-- The database and the head that was read last. -/
structure MirrorWorld where
  db : Database
  head : Nat

/-- The services of a tick, with the database behind two of them: a batch is a pass
of the event processor, stopped at any call or completed, and the cursor is a row. -/
inductive Maintains (ext : Externals) (history : ChainHistory) (confirmations : Nat) :
    Async.Environment IndexerCall.Answer Unit MirrorWorld MirrorRecord where
  | rejected {op : IndexerCall} {world : MirrorWorld} :
      Maintains ext history confirmations op world (.error ()) [] world
  | head {world : MirrorWorld} (head : Nat) :
      Maintains ext history confirmations .getBlockNumber world (.ok head) [.observed head]
        { world with head }
  | cursor {world : MirrorWorld} :
      Maintains ext history confirmations .findCursor world (.ok world.db.cursor) [] world
  | logs {world : MirrorWorld} {stream : Stream} {first last : Nat} {answer : List RawLog}
      (complete : last ≤ safeHeadOf confirmations world.head →
        answer.Perm (history.logsWithin stream first last)) :
      Maintains ext history confirmations (.getLogs stream first last) world (.ok answer) [] world
  | timestamp {world : MirrorWorld} {blockNumber : Nat} :
      Maintains ext history confirmations (.getBlockTimestamp blockNumber) world
        (.ok (history.timeOf blockNumber)) [] world
  | batchFailed {world : MirrorWorld} {logs : List NormalizedLog} {calls : List Call}
      {standing : Chain Unit} {later : Database}
      (stopped : Reaches Failing (EventProcessor.processBatch ext logs) world.db calls standing
        later) :
      Maintains ext history confirmations (.processBatch logs) world (.error ())
        [.passed logs calls false] { world with db := later }
  | batchCompleted {world : MirrorWorld} {logs : List NormalizedLog} {calls : List Call}
      {later : Database}
      (returned : Reaches Failing (EventProcessor.processBatch ext logs) world.db calls
        (.done (.ok ())) later) :
      Maintains ext history confirmations (.processBatch logs) world (.ok ())
        [.passed logs calls true] { world with db := later }
  | saved {world : MirrorWorld} {lastBlock : Nat} {later : Database}
      (performed : Performs (.upsertCursor lastBlock) world.db (.ok ()) later) :
      Maintains ext history confirmations (.upsertCursor lastBlock) world (.ok ())
        [.saved lastBlock] { world with db := later }
  | savedLost {world : MirrorWorld} {lastBlock : Nat} {later : Database}
      (performed : Performs (.upsertCursor lastBlock) world.db (.ok ()) later) :
      Maintains ext history confirmations (.upsertCursor lastBlock) world (.error ())
        [.saved lastBlock] { world with db := later }

variable {ext : Externals} {cfg : IndexerConfig} {history : ChainHistory} {confirmations : Nat}

/-! ## Seen as services that only answer -/

/-- A record as one of the indexer over its services. -/
def MirrorRecord.entries : MirrorRecord → List IndexerRecord
  | observed head => [.observed head]
  | passed logs _ true => [.handed logs, .completed logs]
  | passed logs _ false => [.handed logs]
  | saved lastBlock => [.saved lastBlock]

/-- The world of the indexer over its services. -/
def MirrorWorld.indexer (world : MirrorWorld) : IndexerWorld := ⟨world.db.cursor, world.head⟩

/-- No batch writes the cursor. -/
theorem cursor_of_processBatch {logs : List NormalizedLog} {db later : Database}
    {calls : List Call} {standing : Chain Unit}
    (path : Reaches Failing (EventProcessor.processBatch ext logs) db calls standing later) :
    later.cursor = db.cursor := by
  let cursorJournal : Journal Database Call (Option Nat) Empty :=
    ⟨Database.cursor, fun write _ => write.elim, fun _ => False, fun _ _ => True⟩
  have unseen : ∀ (call : Call) (db : Database), call.handled →
      cursorJournal.view (call.effect db) = cursorJournal.view db := by
    intro call db handled
    cases call with
    | upsertCursor lastBlock => cases handled
    | _ => rfl
  have silent : Journal.Keeps cursorJournal Failing (EventProcessor.processBatch ext logs)
      (fun _ _ => True) db [] := keeps_unseen unseen (EventProcessor.handled_processBatch ext logs)
  obtain ⟨performed, rest, none, reached, -, -⟩ := silent.reaches path
  obtain ⟨rfl, -⟩ := List.append_eq_nil_iff.mp none.symm
  exact reached

/-- The cursor row after it was written. -/
theorem eq_of_upsertCursor {lastBlock : Nat} {db later : Database}
    (performed : Performs (.upsertCursor lastBlock) db (.ok ()) later) :
    later = { db with cursor := some lastBlock } := by
  rcases performs_cases performed with ⟨failure, wrong, -⟩ | ⟨_, -, -, moved⟩
  · cases wrong
  · exact moved

/-- **The services answer as services do.** What the database adds is not seen. -/
theorem Maintains.serves (op : IndexerCall) (world : MirrorWorld)
    (answer : Except Unit op.Answer) (record : List MirrorRecord) (after : MirrorWorld)
    (answered : Maintains ext history confirmations op world answer record after) :
    Serves history confirmations op world.indexer answer (record.flatMap MirrorRecord.entries)
      after.indexer := by
  cases answered with
  | rejected => exact .rejected
  | head head => exact .head head
  | cursor => exact .cursor
  | logs complete => exact .logs complete
  | timestamp => exact .timestamp
  | @batchFailed _ logs calls standing later stopped =>
      have same : MirrorWorld.indexer ⟨later, world.head⟩ = world.indexer :=
        congrArg (fun cursor => IndexerWorld.mk cursor world.head) (cursor_of_processBatch stopped)
      rw [same]
      exact .batchFailed
  | @batchCompleted _ logs calls later returned =>
      have same : MirrorWorld.indexer ⟨later, world.head⟩ = world.indexer :=
        congrArg (fun cursor => IndexerWorld.mk cursor world.head) (cursor_of_processBatch returned)
      rw [same]
      exact .batchCompleted
  | saved performed =>
      cases eq_of_upsertCursor performed
      exact .saved
  | savedLost performed =>
      cases eq_of_upsertCursor performed
      exact .savedLost

/-! ## What a record says of the database -/

/-- The change of the database that a record stands for. -/
inductive MirrorRecord.Moves (ext : Externals) : MirrorRecord → Database → Database → Prop where
  | observed {head : Nat} {db : Database} : Moves ext (.observed head) db db
  | passed {logs : List NormalizedLog} {calls : List Call} {completed : Bool}
      {standing : Chain Unit} {db later : Database}
      (stopped : Reaches Failing (EventProcessor.processBatch ext logs) db calls standing later)
      (returned : completed → standing = .done (.ok ())) :
      Moves ext (.passed logs calls completed) db later
  | saved {lastBlock : Nat} {db : Database} :
      Moves ext (.saved lastBlock) db { db with cursor := some lastBlock }

theorem Maintains.moves (op : IndexerCall) (world : MirrorWorld)
    (answer : Except Unit op.Answer) (record : List MirrorRecord) (after : MirrorWorld)
    (answered : Maintains ext history confirmations op world answer record after) :
    Changed (MirrorRecord.Moves ext) record world.db after.db := by
  cases answered with
  | rejected => exact .nil _
  | head head => exact .cons .observed (.nil _)
  | cursor => exact .nil _
  | logs complete => exact .nil _
  | timestamp => exact .nil _
  | batchFailed stopped => exact .cons (.passed stopped nofun) (.nil _)
  | batchCompleted returned => exact .cons (.passed returned fun _ => rfl) (.nil _)
  | saved performed =>
      cases eq_of_upsertCursor performed
      exact .cons .saved (.nil _)
  | savedLost performed =>
      cases eq_of_upsertCursor performed
      exact .cons .saved (.nil _)

/-- A pass leaves a ledger from which the batch leads where it led before: every
completed one, and a stopped one while no call it performed moves a balance. -/
theorem ledger_of_pass {logs : List NormalizedLog} {db later : Database} {calls : List Call}
    {standing : Chain Unit} (ordered : CreatedFirst logs)
    (stopped : Reaches Failing (EventProcessor.processBatch ext logs) db calls standing later)
    (unmoved : ∀ call ∈ calls, call.moves = false) :
    later.ledger.applyLogs logs = db.ledger.applyLogs logs := by
  obtain ⟨performed, rest, split, reached, quiet, -⟩ :=
    (keeps_processBatch ext logs).reaches stopped
  have ledger : later.ledger = ledgerJournal.replay performed db.ledger := reached
  rw [ledger, replay_of_opening ordered split (quiet unmoved)]

/-! ## Runs -/

/-- Ticks one after the other, each stopped wherever it fails. The records are kept
tick by tick. Between two ticks other services may write what is neither of the
ledger nor the cursor. -/
inductive MirrorRun (ext : Externals) (cfg : IndexerConfig) (history : ChainHistory)
    (opening : Database) : List (List MirrorRecord) → MirrorWorld → Prop where
  | start (head : Nat) : MirrorRun ext cfg history opening [] ⟨opening, head⟩
  | others {ticks : List (List MirrorRecord)} {world : MirrorWorld} {later : Database}
      (earlier : MirrorRun ext cfg history opening ticks world)
      (ledger : later.ledger = world.db.ledger) (cursor : later.cursor = world.db.cursor) :
      MirrorRun ext cfg history opening ticks { world with db := later }
  | tick {ticks : List (List MirrorRecord)} {world later : MirrorWorld}
      {records : List MirrorRecord} {standing : Indexing Bool}
      (earlier : MirrorRun ext cfg history opening ticks world)
      (stopped : Reaches (Maintains ext history cfg.confirmations) (IndexerService.tick cfg) world
        records standing later) :
      MirrorRun ext cfg history opening (ticks ++ [records]) later

/-- **Refinement.** A run over the database is a run of the indexer over its services. -/
theorem MirrorRun.indexer {opening : Database} {ticks : List (List MirrorRecord)}
    {world : MirrorWorld} (run : MirrorRun ext cfg history opening ticks world)
    (fresh : opening.cursor = none) :
    IndexerRun cfg history (ticks.map fun records => records.flatMap MirrorRecord.entries)
      world.indexer := by
  induction run with
  | start head =>
      have opened : MirrorWorld.indexer ⟨opening, head⟩ = ⟨none, head⟩ :=
        congrArg (fun cursor => IndexerWorld.mk cursor head) fresh
      rw [opened]
      exact .start head
  | @others ticks world later _ _ cursor ih =>
      have same : MirrorWorld.indexer ⟨later, world.head⟩ = world.indexer :=
        congrArg (fun cursor => IndexerWorld.mk cursor world.head) cursor
      rw [same]
      exact ih
  | tick _ stopped ih =>
      rw [List.map_append]
      exact .tick ih (stopped.seen MirrorWorld.indexer MirrorRecord.entries Maintains.serves)

/-! ## What a tick's records are -/

namespace MirrorRecord

theorem entries_eq_nil {records : List MirrorRecord} (none : records.flatMap entries = []) :
    records = [] := by
  cases records with
  | nil => rfl
  | cons record rest =>
      have first := (List.append_eq_nil_iff.mp none).1
      cases record with
      | passed logs calls completed => cases completed <;> cases first
      | _ => cases first

theorem entries_observed {records : List MirrorRecord} {head : Nat} {rest : List IndexerRecord}
    (seen : records.flatMap entries = .observed head :: rest) :
    ∃ more, records = .observed head :: more ∧ more.flatMap entries = rest := by
  cases records with
  | nil => cases seen
  | cons record more =>
      cases record with
      | observed other =>
          cases seen
          exact ⟨more, rfl, rfl⟩
      | passed logs calls completed => cases completed <;> cases seen
      | saved lastBlock => cases seen

theorem entries_handed {records : List MirrorRecord} {batch : List NormalizedLog}
    (seen : records.flatMap entries = [.handed batch]) :
    ∃ calls, records = [.passed batch calls false] := by
  cases records with
  | nil => cases seen
  | cons record more =>
      cases record with
      | observed head => cases seen
      | saved lastBlock => cases seen
      | passed logs calls completed =>
          cases completed with
          | true => cases seen
          | false =>
              obtain ⟨same, rest⟩ := List.cons.inj seen
              cases same
              rw [entries_eq_nil rest]
              exact ⟨calls, rfl⟩

/-- Nothing but a pass that completed is seen as a completion. -/
theorem entries_completed {records : List MirrorRecord} {batch : List NormalizedLog}
    {rest : List IndexerRecord}
    (seen : records.flatMap entries = .handed batch :: .completed batch :: rest) :
    ∃ calls more, records = .passed batch calls true :: more ∧ more.flatMap entries = rest := by
  cases records with
  | nil => cases seen
  | cons record more =>
      cases record with
      | observed head => cases seen
      | saved lastBlock => cases seen
      | passed logs calls completed =>
          cases completed with
          | true =>
              cases seen
              exact ⟨calls, more, rfl, rfl⟩
          | false =>
              have after := (List.cons.inj seen).2
              cases more with
              | nil => cases after
              | cons second _ =>
                  cases second with
                  | passed _ _ completed => cases completed <;> cases after
                  | _ => cases after

theorem entries_saved {records : List MirrorRecord} {lastBlock : Nat}
    (seen : records.flatMap entries = [.saved lastBlock]) : records = [.saved lastBlock] := by
  cases records with
  | nil => cases seen
  | cons record more =>
      cases record with
      | observed other => cases seen
      | passed logs calls completed => cases completed <;> cases seen
      | saved other =>
          have same := List.cons.inj seen
          rw [entries_eq_nil same.2]
          cases same.1
          rfl

end MirrorRecord

/-- **What a tick does to the database.** Nothing; or a pass over the scan of a span
that starts after the cursor, stopped or completed; or such a pass completed and the
cursor saved. -/
inductive MirrorTicked (ext : Externals) (startBlock : Nat) (logs : List NormalizedLog)
    (db : Database) : List MirrorRecord → Database → Prop where
  | unaware : MirrorTicked ext startBlock logs db [] db
  | idle {head : Nat} : MirrorTicked ext startBlock logs db [.observed head] db
  | passed {head last : Nat} {calls : List Call} {completed : Bool} {standing : Chain Unit}
      {later : Database} (ahead : BlockScan.next startBlock db.cursor ≤ last)
      (stopped : Reaches Failing
        (EventProcessor.processBatch ext
          (chainScan logs (BlockScan.next startBlock db.cursor) last)) db calls standing later) :
      MirrorTicked ext startBlock logs db
        [.observed head,
          .passed (chainScan logs (BlockScan.next startBlock db.cursor) last) calls completed] later
  | saved {head last : Nat} {calls : List Call} {later : Database}
      (ahead : BlockScan.next startBlock db.cursor ≤ last)
      (returned : Reaches Failing
        (EventProcessor.processBatch ext
          (chainScan logs (BlockScan.next startBlock db.cursor) last)) db calls (.done (.ok ()))
        later) :
      MirrorTicked ext startBlock logs db
        [.observed head,
          .passed (chainScan logs (BlockScan.next startBlock db.cursor) last) calls true,
          .saved last] { later with cursor := some last }
  | savedEmpty {head last : Nat} (ahead : BlockScan.next startBlock db.cursor ≤ last)
      (empty : chainScan logs (BlockScan.next startBlock db.cursor) last = []) :
      MirrorTicked ext startBlock logs db [.observed head, .saved last]
        { db with cursor := some last }

/-- Records that write a batch change the database as a pass and a cursor row do. -/
private theorem mirrorTicked_of_writes {startBlock head last : Nat} {logs : List NormalizedLog}
    {db later : Database} {records : List MirrorRecord} {cursor : Option Nat}
    (ahead : BlockScan.next startBlock db.cursor ≤ last)
    (changed : Changed (MirrorRecord.Moves ext) (.observed head :: records) db later)
    (writes : WritesBatch db.cursor (chainScan logs (BlockScan.next startBlock db.cursor) last) last
      (records.flatMap MirrorRecord.entries) cursor) :
    MirrorTicked ext startBlock logs db (.observed head :: records) later := by
  cases changed with
  | cons observed changed =>
      cases observed with
      | observed =>
          generalize seen : records.flatMap MirrorRecord.entries = entries at writes
          cases writes with
          | none =>
              rw [MirrorRecord.entries_eq_nil seen] at changed ⊢
              cases changed
              exact .idle
          | handed =>
              obtain ⟨calls, rfl⟩ := MirrorRecord.entries_handed seen
              cases changed with
              | cons pass done =>
                  cases done
                  cases pass with
                  | passed stopped _ => exact .passed ahead stopped
          | completed =>
              obtain ⟨calls, more, rfl, rest⟩ := MirrorRecord.entries_completed seen
              rw [MirrorRecord.entries_eq_nil rest] at changed ⊢
              cases changed with
              | cons pass done =>
                  cases done
                  cases pass with
                  | passed stopped _ => exact .passed ahead stopped
          | saved =>
              obtain ⟨calls, more, rfl, rest⟩ := MirrorRecord.entries_completed seen
              rw [MirrorRecord.entries_saved rest] at changed ⊢
              cases changed with
              | cons pass done =>
                  cases pass with
                  | passed stopped returned =>
                      cases returned rfl
                      cases done with
                      | cons written rest =>
                          cases rest
                          cases written
                          exact .saved ahead stopped
          | savedEmpty empty =>
              rw [MirrorRecord.entries_saved seen] at changed ⊢
              cases changed with
              | cons written rest =>
                  cases rest
                  cases written
                  exact .savedEmpty ahead empty

/-- **A tick over the database, wherever it stands.** -/
theorem mirrorTicked_of_reaches {logs : List NormalizedLog} {world later : MirrorWorld}
    {records : List MirrorRecord} {standing : Indexing Bool} (positive : 1 ≤ cfg.batchBlocks)
    (arranged : (history.normalized cfg.streams).Perm logs) (distinct : DistinctLogs logs)
    (path : Reaches (Maintains ext history cfg.confirmations) (IndexerService.tick cfg) world records
      standing later) :
    MirrorTicked ext cfg.startBlock logs world.db records later.db := by
  have changed := path.changed MirrorWorld.db Maintains.moves
  have ticked := ticked_of_reaches positive arranged distinct
    (path.seen MirrorWorld.indexer MirrorRecord.entries Maintains.serves)
  generalize seen : records.flatMap MirrorRecord.entries = entries at ticked
  generalize later.indexer.cursor = cursor at ticked
  generalize later.db = final at changed ⊢
  change Ticked _ _ _ world.db.cursor entries cursor at ticked
  generalize world.db = db at changed ticked ⊢
  cases ticked with
  | unaware =>
      rw [MirrorRecord.entries_eq_nil seen] at changed ⊢
      cases changed
      exact .unaware
  | idle head =>
      obtain ⟨more, rfl, rest⟩ := MirrorRecord.entries_observed seen
      rw [MirrorRecord.entries_eq_nil rest] at changed ⊢
      cases changed with
      | cons observed done =>
          cases done
          cases observed
          exact .idle
  | writing ahead _ writes =>
      obtain ⟨more, rfl, rest⟩ := MirrorRecord.entries_observed seen
      rw [← rest] at writes
      exact mirrorTicked_of_writes ahead changed writes

/-! ## The chain in the database -/

namespace MirrorRecord

def isSaved : MirrorRecord → Bool
  | saved _ => true
  | _ => false

/-- The batch that was handed over, if the record is of one. -/
def batch : MirrorRecord → List NormalizedLog
  | passed logs _ _ => logs
  | _ => []

/-- The calls that were performed over that batch. -/
def calls : MirrorRecord → List Call
  | passed _ calls _ => calls
  | _ => []

end MirrorRecord

/-- No tick that ended without saving its cursor has moved a balance. -/
def Unmoved (ticks : List (List MirrorRecord)) : Prop :=
  ∀ records ∈ ticks, records.any MirrorRecord.isSaved = false →
    ∀ record ∈ records, ∀ call ∈ record.calls, call.moves = false

/-- No log above a block was ever handed over. -/
def HandedUpTo (ticks : List (List MirrorRecord)) (lastBlock : Nat) : Prop :=
  ∀ records ∈ ticks, ∀ record ∈ records, ∀ log ∈ record.batch, log.blockNumber ≤ lastBlock

/-- On the chain no log about a market comes before a creation of it, other creations
apart. -/
def CreatedOnChain (logs : List NormalizedLog) : Prop :=
  ∀ earlier ∈ logs, ∀ later ∈ logs,
    BlockScan.Before NormalizedLog.blockNumber NormalizedLog.logIndex earlier later →
      ∀ market, earlier.concerns market → later.concerns market → later.event.isCreation →
        earlier.event.isCreation

theorem CreatedOnChain.scan {logs : List NormalizedLog} (created : CreatedOnChain logs)
    (first last : Nat) : CreatedFirst (chainScan logs first last) :=
  BlockScan.pairwise_scan.imp_of_mem fun {earlier later} inEarlier inLater before =>
    created earlier (BlockScan.mem_scan.mp inEarlier).1 later (BlockScan.mem_scan.mp inLater).1
      before

/-- **The database leads to the chain.** Applying the logs after the cursor, up to a
block at or above everything handed over, gives the ledger of the chain up to it. -/
def LeadsToChain (opening : Ledger) (startBlock : Nat) (logs : List NormalizedLog)
    (ticks : List (List MirrorRecord)) (db : Database) : Prop :=
  ∀ last, BlockScan.next startBlock db.cursor ≤ last + 1 → HandedUpTo ticks last →
    db.ledger.applyLogs (chainScan logs (BlockScan.next startBlock db.cursor) last) =
      opening.applyLogs (chainScan logs startBlock last)

section Ticks

variable {opening : Ledger} {startBlock : Nat} {logs : List NormalizedLog}
  {ticks : List (List MirrorRecord)} {db later : Database} {records : List MirrorRecord}

private theorem HandedUpTo.before {lastBlock : Nat}
    (handed : HandedUpTo (ticks ++ [records]) lastBlock) : HandedUpTo ticks lastBlock :=
  fun others member => handed others (List.mem_append_left _ member)

private theorem HandedUpTo.last {lastBlock : Nat}
    (handed : HandedUpTo (ticks ++ [records]) lastBlock) :
    ∀ record ∈ records, ∀ log ∈ record.batch, log.blockNumber ≤ lastBlock :=
  handed records (List.mem_append_right _ (by simp))

/-- What writes neither the ledger nor the cursor. -/
private theorem LeadsToChain.same (leads : LeadsToChain opening startBlock logs ticks db)
    (ledger : later.ledger = db.ledger) (cursor : later.cursor = db.cursor) :
    LeadsToChain opening startBlock logs (ticks ++ [records]) later := by
  intro last ahead handed
  rw [cursor] at ahead ⊢
  rw [ledger]
  exact leads last ahead handed.before

/-- A pass that leaves the cursor where it was. -/
private theorem LeadsToChain.passed {last : Nat} (leads : LeadsToChain opening startBlock logs ticks db)
    (ahead : BlockScan.next startBlock db.cursor ≤ last)
    (listed : ∀ log ∈ chainScan logs (BlockScan.next startBlock db.cursor) last,
      ∃ record ∈ records, log ∈ record.batch)
    (cursor : later.cursor = db.cursor)
    (again : later.ledger.applyLogs (chainScan logs (BlockScan.next startBlock db.cursor) last) =
      db.ledger.applyLogs (chainScan logs (BlockScan.next startBlock db.cursor) last)) :
    LeadsToChain opening startBlock logs (ticks ++ [records]) later := by
  intro stop begun handed
  rw [cursor] at begun ⊢
  have below : ∀ log ∈ chainScan logs (BlockScan.next startBlock db.cursor) last,
      log.blockNumber ≤ stop := by
    intro log member
    obtain ⟨record, within, inBatch⟩ := listed log member
    exact handed.last record within log inBatch
  obtain ⟨rest, split⟩ := BlockScan.scan_prefix (Nat.le_succ_of_le ahead) begun below
  calc later.ledger.applyLogs (chainScan logs (BlockScan.next startBlock db.cursor) stop)
      = (later.ledger.applyLogs
          (chainScan logs (BlockScan.next startBlock db.cursor) last)).applyLogs rest := by
        rw [chainScan, split, Ledger.applyLogs_append]
    _ = db.ledger.applyLogs (chainScan logs (BlockScan.next startBlock db.cursor) stop) := by
        rw [again, chainScan, split, Ledger.applyLogs_append]
    _ = opening.applyLogs (chainScan logs startBlock stop) := leads stop begun handed.before

/-- A completed pass with the cursor saved at the end of its span. -/
private theorem LeadsToChain.saved {last : Nat} (leads : LeadsToChain opening startBlock logs ticks db)
    (ahead : BlockScan.next startBlock db.cursor ≤ last) (cursor : later.cursor = some last)
    (applied : later.ledger =
      db.ledger.applyLogs (chainScan logs (BlockScan.next startBlock db.cursor) last)) :
    LeadsToChain opening startBlock logs (ticks ++ [records]) later := by
  intro stop begun handed
  rw [cursor] at begun ⊢
  change last + 1 ≤ stop + 1 at begun
  have joined : chainScan logs (BlockScan.next startBlock db.cursor) stop =
      chainScan logs (BlockScan.next startBlock db.cursor) last ++ chainScan logs (last + 1) stop :=
    (BlockScan.scan_append (Nat.le_succ_of_le ahead) (Nat.le_of_succ_le_succ begun)).symm
  change later.ledger.applyLogs (chainScan logs (last + 1) stop) = _
  rw [applied, ← Ledger.applyLogs_append, ← joined]
  exact leads stop (by omega) handed.before

/-- **One tick.** -/
theorem LeadsToChain.tick (leads : LeadsToChain opening startBlock logs ticks db) (created : CreatedOnChain logs)
    (unmoved : records.any MirrorRecord.isSaved = false →
      ∀ record ∈ records, ∀ call ∈ record.calls, call.moves = false)
    (ticked : MirrorTicked ext startBlock logs db records later) :
    LeadsToChain opening startBlock logs (ticks ++ [records]) later := by
  cases ticked with
  | unaware => exact leads.same rfl rfl
  | idle => exact leads.same rfl rfl
  | passed ahead stopped =>
      refine leads.passed ahead (fun log member => ?_) (cursor_of_processBatch stopped) ?_
      · exact ⟨.passed _ _ _, List.mem_cons_of_mem _ List.mem_cons_self, member⟩
      · refine ledger_of_pass (created.scan _ _) stopped fun call member => ?_
        exact unmoved rfl _ (List.mem_cons_of_mem _ List.mem_cons_self) call member
  | saved ahead returned =>
      have applied := ledger_of_processBatch returned
      exact leads.saved ahead rfl applied
  | savedEmpty ahead empty =>
      refine leads.saved ahead rfl ?_
      rw [empty]
      rfl

end Ticks

/-- **The database is the chain.** In every run, however many ticks failed at whatever
call and however the spans were cut, if no tick that ended without saving its cursor
had moved a balance and nothing above the cursor was ever handed over, then the pots,
the shares, the positions and the trades are those of the chain's logs up to the
cursor, each applied once and in chain order. -/
theorem ledger_of_mirrorRun {opening : Database} {logs : List NormalizedLog}
    {ticks : List (List MirrorRecord)} {world : MirrorWorld} {lastBlock : Nat}
    (positive : 1 ≤ cfg.batchBlocks) (arranged : (history.normalized cfg.streams).Perm logs)
    (distinct : DistinctLogs logs) (created : CreatedOnChain logs) (fresh : opening.cursor = none)
    (run : MirrorRun ext cfg history opening ticks world) (unmoved : Unmoved ticks)
    (saved : world.db.cursor = some lastBlock) (handed : HandedUpTo ticks lastBlock) :
    world.db.ledger =
      opening.ledger.applyLogs (mirrored cfg.startBlock logs (some lastBlock)) := by
  have leads : LeadsToChain opening.ledger cfg.startBlock logs ticks world.db := by
    clear saved handed
    induction run with
    | start head =>
        intro last _ _
        rw [fresh]
        rfl
    | others _ ledger cursor ih =>
        intro last ahead handed
        dsimp only at ahead ⊢
        rw [cursor] at ahead ⊢
        rw [ledger]
        exact ih unmoved last ahead handed
    | @tick ticks world later records standing _ stopped ih =>
        have before := ih fun others member => unmoved others (List.mem_append_left _ member)
        have ticked := mirrorTicked_of_reaches positive arranged distinct stopped
        exact before.tick created (unmoved records (List.mem_append_right _ (by simp))) ticked
  have reached := leads lastBlock (by rw [saved]; exact le_refl _) handed
  have none : chainScan logs (lastBlock + 1) lastBlock = [] := by
    simp [chainScan, BlockScan.scan]
  have next : BlockScan.next cfg.startBlock world.db.cursor = lastBlock + 1 := by rw [saved]; rfl
  rw [next, none] at reached
  rw [mirrored_eq distinct]
  exact reached

/-! ## Computed ticks -/

namespace Sample

/-- The services when nothing fails but the pass over a batch, which gets as far as
some number of calls. -/
def maintain (history : ChainHistory) (head count : Nat) :
    Async.Responder IndexerCall.Answer Unit MirrorWorld
  | .getBlockNumber, world => (.ok head, { world with head })
  | .findCursor, world => (.ok world.db.cursor, world)
  | .getLogs stream first last, world => (.ok (history.logsWithin stream first last), world)
  | .getBlockTimestamp blockNumber, world => (.ok (history.timeOf blockNumber), world)
  | .processBatch logs, world =>
      let pass := Async.stopped (respond outside) count (EventProcessor.processBatch externals logs)
        world.db
      match pass.1.outcome? with
      | some (.ok ()) => (.ok (), { world with db := pass.2 })
      | _ => (.error (), { world with db := pass.2 })
  | .upsertCursor lastBlock, world =>
      if storableBigInt lastBlock then
        (.ok (), { world with db := { world.db with cursor := some lastBlock } })
      else (.error (), world)

def maintainRecord (head count : Nat) : IndexerCall → MirrorWorld → List MirrorRecord
  | .getBlockNumber, _ => [.observed head]
  | .processBatch logs, world =>
      let pass := Async.stopped (respond outside) count (EventProcessor.processBatch externals logs)
        world.db
      let calls := Async.callsMade (respond outside) count
        (EventProcessor.processBatch externals logs) world.db
      [.passed logs calls (match pass.1.outcome? with | some (.ok ()) => true | _ => false)]
  | .upsertCursor lastBlock, _ => if storableBigInt lastBlock then [.saved lastBlock] else []
  | _, _ => []

theorem maintains_maintain (history : ChainHistory) (confirmations head count : Nat)
    (call : IndexerCall) (world : MirrorWorld) :
    Maintains externals history confirmations call world (maintain history head count call world).1
      (maintainRecord head count call world) (maintain history head count call world).2 := by
  cases call with
  | getBlockNumber => exact .head head
  | findCursor => exact .cursor
  | getLogs stream first last => exact .logs fun _ => .refl _
  | getBlockTimestamp blockNumber => exact .timestamp
  | processBatch logs =>
      have path := Failing.reaches_stopped outside count
        (EventProcessor.processBatch externals logs) world.db
      simp only [maintain, maintainRecord]
      split
      · rename_i returned
        rw [Async.eq_done_of_outcome? returned] at path
        exact .batchCompleted path
      · exact .batchFailed path
  | upsertCursor lastBlock =>
      simp only [maintain, maintainRecord]
      split
      · rename_i fits
        refine .saved ⟨outside, ?_⟩
        simp [respond, Database.commit, fits]
      · exact .rejected

/-- Market 1 is created in block 6 and bought on in block 7. -/
def marketHistory : ChainHistory where
  logsOf stream :=
    match stream.kind with
    | .lsLmsr =>
        [⟨.bought (trade 0 9 20), 7, JsString.ascii "0x77", 0⟩,
          ⟨(created 2).event, 6, JsString.ascii "0x66", 2⟩]
    | _ => []
  timeOf blockNumber := blockNumber

/-- One stream, read two blocks at a time from block 5 on, one block behind the head. -/
def oneStream : IndexerConfig := ⟨1, 2, 5, [⟨engine, .lsLmsr⟩]⟩

/-- A tick under head 9 whose pass gets as far as some number of calls. -/
def mirrorTick (count : Nat) (world : MirrorWorld) : MirrorWorld :=
  (Async.stopped (maintain marketHistory 9 count) 60 (IndexerService.tick oneStream) world).2

def mirrorRecords (count : Nat) (world : MirrorWorld) : List MirrorRecord :=
  Async.recorded (maintain marketHistory 9 count) (maintainRecord 9 count) 60
    (IndexerService.tick oneStream) world

/-- The empty database. -/
def unstarted : MirrorWorld := ⟨.empty, 0⟩

/-- A tick whose pass is stopped right after it has inserted the trade, and then one
that nothing stops. -/
def twoTicks : List (List MirrorRecord) :=
  [mirrorRecords 7 unstarted, mirrorRecords 400 (mirrorTick 7 unstarted)]

def afterTwoTicks : MirrorWorld := mirrorTick 400 (mirrorTick 7 unstarted)

theorem mirrorRun_twoTicks :
    MirrorRun externals oneStream marketHistory .empty twoTicks afterTwoTicks := by
  have reaches : ∀ count world, Reaches (Maintains externals marketHistory oneStream.confirmations)
      (IndexerService.tick oneStream) world (mirrorRecords count world) _ (mirrorTick count world) :=
    fun count world => Async.reaches_recorded (maintain marketHistory 9 count)
      (maintains_maintain marketHistory 1 9 count) 60 (IndexerService.tick oneStream) world
  exact .tick (.tick (.start 0) (reaches 7 _)) (reaches 400 _)

theorem createdOnChain_market :
    CreatedOnChain (marketHistory.normalized oneStream.streams) := by
  intro earlier inEarlier later inLater before market _ _ creation
  have two : ∀ log ∈ marketHistory.normalized oneStream.streams,
      log.blockNumber = 6 ∧ log.event.isCreation ∨ log.blockNumber = 7 ∧ ¬ log.event.isCreation := by
    intro log member
    rcases List.mem_cons.mp member with rfl | member
    · exact .inr ⟨rfl, by simp [ChainHistory.normalizedLog,
        Event.isCreation]⟩
    · rw [List.mem_singleton.mp member]
      exact .inl ⟨rfl, rfl⟩
  rcases two earlier inEarlier with ⟨-, first⟩ | ⟨first, -⟩
  · exact first
  · rcases two later inLater with ⟨second, -⟩ | ⟨-, traded⟩
    · unfold BlockScan.Before at before
      omega
    · exact absurd creation traded

end Sample

open Sample in
/-- After a failed pass and one that succeeds the purchase is counted once. -/
theorem ledger_of_twoTicks :
    afterTwoTicks.db.ledger = Ledger.applyLogs Database.empty.ledger
        (mirrored 5 (marketHistory.normalized oneStream.streams) (some 8)) ∧
      afterTwoTicks.db.ledger.books.rows.map (fun row => row.2.pot) = [120] := by
  have distinct : DistinctLogs (marketHistory.normalized oneStream.streams) := by
    unfold DistinctLogs BlockScan.Distinct
    decide +kernel
  refine ⟨ledger_of_mirrorRun (by decide) (.refl _) distinct createdOnChain_market rfl
    mirrorRun_twoTicks ?_ (by decide +kernel) ?_, by decide +kernel⟩
  · unfold Unmoved twoTicks
    decide +kernel
  · unfold HandedUpTo twoTicks
    decide +kernel

end Numera
