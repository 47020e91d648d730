import Numera.Chain.Indexer
import Numera.Chain.Replay

/-! # Scanning a batch again

A pass that fails leaves the cursor where it was, and the next tick hands the
same batch over again. A failed pass has performed a prefix of the batch's
writes. While none of the calls it performed moves a balance that prefix is
still, and the pass that succeeds leaves the ledger as one uninterrupted pass
does (`ledger_of_rescanned`).
-/

namespace Numera

open Async (Reaches)

namespace IndexerService

/-- What a tick writes: its batch, and then its cursor. -/
def writeSpan (ext : Externals) (logs : List NormalizedLog) (toBlock : Nat) : Chain Unit :=
  applySpan (EventProcessor.processBatch ext) (fun last => await (.upsertCursor last)) logs toBlock

end IndexerService

/-- The ticks over one batch: any number of passes that fail, stopped at whatever
call and with the cursor unchanged, and then one that succeeds. The calls are
those the failed passes performed. -/
inductive Rescanned (ext : Externals) (logs : List NormalizedLog) (toBlock : Nat) :
    Database → List Call → Database → Prop where
  | succeeded {start final : Database} {records : List Call}
      (returned : Reaches Failing (IndexerService.writeSpan ext logs toBlock) start records
        (.done (.ok ())) final) :
      Rescanned ext logs toBlock start [] final
  | failed {start middle final : Database} {records calls : List Call} {remaining : Chain Unit}
      (stopped : Reaches Failing (IndexerService.writeSpan ext logs toBlock) start records
        remaining middle)
      (unchanged : middle.cursor = start.cursor)
      (again : Rescanned ext logs toBlock middle calls final) :
      Rescanned ext logs toBlock start (records ++ calls) final

variable {ext : Externals} {logs : List NormalizedLog} {toBlock : Nat}

/-- Saving the cursor writes nothing of the ledger. -/
theorem keeps_writeSpan {db : Database} :
    Journal.Keeps ledgerJournal Failing (IndexerService.writeSpan ext logs toBlock)
      (fun _ _ => True) db (batchWrites logs db.ledger) := by
  have cursor : ∀ before : Database, Journal.Keeps ledgerJournal Failing
      (await (.upsertCursor toBlock)) (fun _ _ => True) before [] :=
    fun before => keeps_quietly (.perform rfl)
  unfold IndexerService.writeSpan applySpan
  split
  · rw [← List.append_nil (batchWrites logs db.ledger)]
    exact Journal.Keeps.bind (keeps_processBatch ext logs) fun _ after _ _ => cursor after
  · rename_i none
    have empty : logs = [] := by simpa using none
    subst empty
    exact cursor db

theorem ledger_of_writeSpan {start final : Database} {records : List Call}
    (returned : Reaches Failing (IndexerService.writeSpan ext logs toBlock) start records
      (.done (.ok ())) final) :
    final.ledger = start.ledger.applyLogs logs := by
  have performed := keeps_writeSpan.returns returned
  rw [← replay_batchWrites]
  exact performed.1

/-- Whatever passes fail before they moved a balance, the one that succeeds leaves
the ledger with the batch applied once. -/
theorem Rescanned.ledger {start final : Database} {calls : List Call}
    (rescanned : Rescanned ext logs toBlock start calls final) (ordered : CreatedFirst logs)
    (unmoved : ∀ call ∈ calls, call.moves = false) :
    final.ledger = start.ledger.applyLogs logs := by
  induction rescanned with
  | succeeded returned => exact ledger_of_writeSpan returned
  | @failed start middle final records calls remaining stopped unchanged again ih =>
      obtain ⟨performed, rest, split, reached, quiet, -⟩ := keeps_writeSpan.reaches stopped
      have still : ledgerJournal.Still performed start.ledger :=
        quiet fun call member => unmoved call (List.mem_append_left calls member)
      have middleLedger : middle.ledger = ledgerJournal.replay performed start.ledger := reached
      rw [ih fun call member => unmoved call (List.mem_append_right records member),
        middleLedger, replay_of_opening ordered split still]

/-- **Re-scanning is idempotent while no failed pass has moved a balance.** However
often a batch fails, the pass that succeeds leaves the pots, the shares, the
positions and the trades as one uninterrupted pass leaves them. -/
theorem ledger_of_rescanned {start final whole : Database} {calls records : List Call}
    (ordered : CreatedFirst logs) (rescanned : Rescanned ext logs toBlock start calls final)
    (unmoved : ∀ call ∈ calls, call.moves = false)
    (uninterrupted : Reaches Failing (IndexerService.writeSpan ext logs toBlock) start records
      (.done (.ok ())) whole) :
    final.ledger = whole.ledger := by
  rw [rescanned.ledger ordered unmoved, ledger_of_writeSpan uninterrupted]

/-! ## Computed passes -/

namespace Sample

/-- The database a pass over the logs leaves when it is stopped after some number
of calls, all performed and answered. -/
def pass (count : Nat) (logs : List NormalizedLog) (db : Database) : Database :=
  (Async.stopped (respond outside) count (IndexerService.writeSpan externals logs 8) db).2

/-- The calls of that pass. -/
def passCalls (count : Nat) (logs : List NormalizedLog) (db : Database) : List Call :=
  Async.callsMade (respond outside) count (IndexerService.writeSpan externals logs 8) db

theorem reaches_pass {logs : List NormalizedLog} {db : Database} (count : Nat)
    (returned : (Async.stopped (respond outside) count
      (IndexerService.writeSpan externals logs 8) db).1.outcome? = some (.ok ())) :
    Reaches Failing (IndexerService.writeSpan externals logs 8) db (passCalls count logs db)
      (.done (.ok ())) (pass count logs db) := by
  have path := Failing.reaches_stopped outside count (IndexerService.writeSpan externals logs 8) db
  rw [Async.eq_done_of_outcome? returned] at path
  exact path

/-- A pass that is stopped after some number of calls, and then one that succeeds. -/
theorem rescanned_pass {logs : List NormalizedLog} {db : Database} (count : Nat)
    (unchanged : (pass count logs db).cursor = db.cursor)
    (returned : (Async.stopped (respond outside) 400 (IndexerService.writeSpan externals logs 8)
      (pass count logs db)).1.outcome? = some (.ok ())) :
    Rescanned externals logs 8 db (passCalls count logs db) (pass 400 logs (pass count logs db)) := by
  have stopped := Failing.reaches_stopped outside count
    (IndexerService.writeSpan externals logs 8) db
  have run := Rescanned.failed stopped unchanged (.succeeded (reaches_pass 400 returned))
  rw [List.append_nil] at run
  exact run

end Sample

open Sample in
/-- A purchase whose first pass is stopped right after it has inserted the trade. -/
theorem ledger_of_rescannedPurchase :
    let logs := [log 1 (.bought (trade 0 9 20))]
    (pass 400 logs (pass 2 logs (opened 2))).ledger = (pass 400 logs (opened 2)).ledger := by
  refine ledger_of_rescanned (List.pairwise_singleton _ _)
    (rescanned_pass 2 (by decide +kernel) (by decide +kernel)) ?_
    (reaches_pass 400 (by decide +kernel))
  decide +kernel

open Sample in
/-- **A purchase that is scanned again is counted twice.** Market 1 is seeded with
100 and 20 is paid in. The first pass is stopped between the batch and the cursor;
after the second the pot is 140, and after an uninterrupted one 120. -/
theorem rescan_counts_twice :
    let logs := [log 1 (.bought (trade 0 9 20))]
    let final := pass 400 logs (pass 9 logs (opened 2))
    let whole := pass 400 logs (opened 2)
    CreatedFirst logs ∧ Rescanned externals logs 8 (opened 2) (passCalls 9 logs (opened 2)) final ∧
      Reaches Failing (IndexerService.writeSpan externals logs 8) (opened 2)
        (passCalls 400 logs (opened 2)) (.done (.ok ())) whole ∧
      (final.markets.find? Sample.market).map Market.pot = some 140 ∧
      (whole.markets.find? Sample.market).map Market.pot = some 120 := by
  refine ⟨List.pairwise_singleton _ _, rescanned_pass 9 (by decide +kernel) (by decide +kernel),
    reaches_pass 400 (by decide +kernel), ?_, ?_⟩
  · decide +kernel
  · decide +kernel

end Numera
