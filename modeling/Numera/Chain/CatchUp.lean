import Numera.Chain.IndexerRuns

/-! # Catching up

How fast the indexer reaches the safe head. A tick that returns moves the cursor by
the whole of its plan: as many ranges as its request budget has room for, each of the
batch width, or all there is up to its safe head (`tick_returned`). Ticks that fail
never move it back. So a run is past a block after as many returned ticks as plans
fit before the block, however the ticks that failed lie between them
(`catches_up`).
-/

namespace Numera

open Async (Reaches promiseAll)

variable {history : ChainHistory} {cfg : IndexerConfig} {confirmations : Nat}

/-- How many blocks one tick covers when it is behind. -/
def IndexerConfig.span (cfg : IndexerConfig) : Nat :=
  max 1 (maxLogRequestsInFlight / cfg.streams.length) * cfg.batchBlocks

/-- Where the planned ranges end. -/
theorem last_planFrom {width safeHead first : Nat} (positive : 1 ≤ width) (count : Nat)
    (behind : first ≤ safeHead) :
    (IndexerService.planFrom width safeHead (count + 1) first).getLast?.map BlockRange.toBlock =
      some (min (first + (count + 1) * width - 1) safeHead) := by
  induction count generalizing first with
  | zero =>
      rw [IndexerService.planFrom, if_pos behind, Nat.zero_add, Nat.one_mul]
      change some (if first + width - 1 < safeHead then first + width - 1 else safeHead) = _
      congr 1
      split <;> omega
  | succ count ih =>
      rw [IndexerService.planFrom, if_pos behind]
      dsimp only
      by_cases more : first + width - 1 < safeHead
      · rw [if_pos more]
        have further : first + width - 1 + 1 ≤ safeHead := more
        have later := ih further
        have nonempty : ∃ range rest, IndexerService.planFrom width safeHead (count + 1)
            (first + width - 1 + 1) = range :: rest := by
          rw [IndexerService.planFrom, if_pos further]
          exact ⟨_, _, rfl⟩
        obtain ⟨range, rest, ranges⟩ := nonempty
        rw [ranges] at later ⊢
        rw [List.getLast?_cons_cons, later, Nat.succ_mul (count + 1)]
        congr 2
        omega
      · have done : ¬ safeHead + 1 ≤ safeHead := by omega
        rw [if_neg more, IndexerService.planFrom, if_neg done]
        change some safeHead = _
        rw [Nat.succ_mul]
        congr 1
        omega

theorem last_plan {safeHead first : Nat} (positive : 1 ≤ cfg.batchBlocks)
    (behind : first ≤ safeHead) :
    (IndexerService.plan cfg first safeHead).getLast?.map BlockRange.toBlock =
      some (min (first + cfg.span - 1) safeHead) := by
  obtain ⟨count, more⟩ : ∃ count, max 1 (maxLogRequestsInFlight / cfg.streams.length) = count + 1 :=
    ⟨max 1 (maxLogRequestsInFlight / cfg.streams.length) - 1, by omega⟩
  rw [IndexerService.plan, IndexerConfig.span, more]
  exact last_planFrom positive count behind

/-- Writing a span that returned has saved its cursor. -/
private theorem applySpan_returned {batch : List NormalizedLog} {last : Nat}
    {world after : IndexerWorld} {records : List IndexerRecord}
    (path : Reaches (Serves history confirmations)
      (applySpan (fun logs => request (.processBatch logs))
        (fun last => request (.upsertCursor last)) batch last) world records (.done (.ok ())) after) :
    after.cursor = some last := by
  unfold applySpan at path
  split at path
  · obtain ⟨_, _, _, _, -, -, continued⟩ := Reaches.bind_returned path
    cases Reaches.perform_returned continued with
    | saved => rfl
  · cases Reaches.perform_returned path with
    | saved => rfl

/-- **A tick that returned.** It has read a head, and the block after its cursor is
then past the safe head or as far on as a plan reaches. It says that it has caught up
exactly when that block is past the safe head. -/
theorem tick_returned {world after : IndexerWorld} {records : List IndexerRecord} {caughtUp : Bool}
    (positive : 1 ≤ cfg.batchBlocks)
    (path : Reaches (Serves history cfg.confirmations) (IndexerService.tick cfg) world records
      (.done (.ok caughtUp)) after) :
    ∃ head, .observed head ∈ records ∧
      BlockScan.next cfg.startBlock after.cursor =
        max (BlockScan.next cfg.startBlock world.cursor)
          (min (BlockScan.next cfg.startBlock world.cursor + cfg.span)
            (safeHeadOf cfg.confirmations head + 1)) ∧
      (caughtUp = true ↔
        safeHeadOf cfg.confirmations head < BlockScan.next cfg.startBlock after.cursor) := by
  have reads : ∀ op before answer record after, IndexerCall.reads op →
      Serves history cfg.confirmations op before answer record after →
        record = [] ∧ after = before := fun _ _ _ _ _ reads => Serves.of_reads reads
  have wide : 1 ≤ cfg.span := Nat.mul_pos (by omega) positive
  unfold IndexerService.tick at path
  obtain ⟨head, looked, _, _, rfl, asked, continued⟩ := Reaches.bind_returned path
  cases Reaches.perform_returned asked with
  | head =>
      refine ⟨head, by simp, ?_⟩
      obtain ⟨first, found, _, _, rfl, cursor, deciding⟩ := Reaches.bind_returned continued
      obtain ⟨rfl, rfl⟩ := callsOnly_nextFromBlock.unobserved reads cursor
      have next := nextFromBlock_returned cursor
      dsimp only at next
      subst next
      split at deciding
      · rename_i nothing
        cases deciding
        refine ⟨?_, by simpa using nothing⟩
        dsimp only
        omega
      · rename_i behind
        dsimp only at deciding
        rw [last_plan positive (Nat.le_of_not_lt behind), Option.getD_some] at deciding
        obtain ⟨collected, fetched, _, _, rfl, collecting, writing⟩ := Reaches.bind_returned deciding
        obtain ⟨written, wrote, _, _, rfl, saving, done⟩ := Reaches.bind_returned writing
        cases done
        have saved := applySpan_returned saving
        have reached : BlockScan.next cfg.startBlock after.cursor =
            min (BlockScan.next cfg.startBlock world.cursor + cfg.span - 1)
              (safeHeadOf cfg.confirmations head) + 1 := by rw [saved]; rfl
        refine ⟨?_, ?_⟩
        · rw [reached]
          omega
        · rw [reached, decide_eq_true_iff]
          omega

/-- **No tick moves the cursor back**, wherever it stands. -/
theorem next_le_of_ticked {startBlock : Nat} {logs : List NormalizedLog} {cursor later : Option Nat}
    {records : List IndexerRecord} (ticked : Ticked confirmations startBlock logs cursor records later) :
    BlockScan.next startBlock cursor ≤ BlockScan.next startBlock later := by
  cases ticked with
  | unaware => exact le_refl _
  | idle => exact le_refl _
  | @writing head last records later ahead safe writes =>
      have saved : BlockScan.next startBlock cursor ≤ BlockScan.next startBlock (some last) :=
        Nat.le_succ_of_le ahead
      cases writes with
      | none => exact le_refl _
      | handed => exact le_refl _
      | completed => exact le_refl _
      | saved => exact saved
      | savedEmpty => exact saved

/-! ## Runs -/

/-- Ticks one after the other, each stopped wherever it fails, and how many of them have
returned under a head whose safe head is at or above a target. -/
inductive CatchingUp (cfg : IndexerConfig) (history : ChainHistory) (target : Nat) :
    Nat → IndexerWorld → Prop where
  | start (head : Nat) : CatchingUp cfg history target 0 ⟨none, head⟩
  | stopped {count : Nat} {world later : IndexerWorld} {records : List IndexerRecord}
      {standing : Indexing Bool} (earlier : CatchingUp cfg history target count world)
      (path : Reaches (Serves history cfg.confirmations) (IndexerService.tick cfg) world records
        standing later) :
      CatchingUp cfg history target count later
  | returned {count : Nat} {world later : IndexerWorld} {records : List IndexerRecord}
      {caughtUp : Bool} (earlier : CatchingUp cfg history target count world)
      (path : Reaches (Serves history cfg.confirmations) (IndexerService.tick cfg) world records
        (.done (.ok caughtUp)) later)
      (above : ∀ head, .observed head ∈ records → target ≤ safeHeadOf cfg.confirmations head) :
      CatchingUp cfg history target (count + 1) later

/-- **The indexer catches up.** In every run, whatever ticks fail and wherever, once some
number of ticks have returned under heads whose safe head is at or above a target, the
cursor has reached the target, or that many plans from the start block. -/
theorem catches_up {target count : Nat} {world : IndexerWorld} {logs : List NormalizedLog}
    (positive : 1 ≤ cfg.batchBlocks) (arranged : (history.normalized cfg.streams).Perm logs)
    (distinct : DistinctLogs logs) (run : CatchingUp cfg history target count world) :
    min (cfg.startBlock + count * cfg.span) (target + 1) ≤
      BlockScan.next cfg.startBlock world.cursor := by
  induction run with
  | start head =>
      change min (cfg.startBlock + 0 * cfg.span) (target + 1) ≤ cfg.startBlock
      omega
  | stopped _ path ih =>
      exact ih.trans (next_le_of_ticked (ticked_of_reaches positive arranged distinct path))
  | @returned count world later records caughtUp _ path above ih =>
      obtain ⟨head, observed, reached, -⟩ := tick_returned positive path
      have safe := above head observed
      rw [Nat.succ_mul, reached]
      omega

/-- The head that was read, if the record is of one. -/
def IndexerRecord.head? : IndexerRecord → Option Nat
  | observed head => some head
  | _ => none

open Sample in
/-- After one tick that nothing stops under head 9 the cursor is at the safe head. -/
theorem catches_up_twoStreams :
    min (5 + 1 * streams.span) (8 + 1) ≤
      BlockScan.next 5 (Async.stopped (serve chainHistory 9) 40 (IndexerService.tick streams)
        ⟨none, 0⟩).2.cursor := by
  have distinct : DistinctLogs (chainHistory.normalized streams.streams) := by
    unfold DistinctLogs BlockScan.Distinct
    decide +kernel
  have path := Async.reaches_recorded (serve chainHistory 9) (serves_serve 1 9) 40
    (IndexerService.tick streams) ⟨none, 0⟩
  have returned : (Async.stopped (serve chainHistory 9) 40 (IndexerService.tick streams)
      ⟨none, 0⟩).1.outcome? = some (.ok true) := by decide +kernel
  rw [Async.eq_done_of_outcome? returned] at path
  refine catches_up (by decide) (.refl _) distinct (.returned (.start 0) path ?_)
  have heads : tickRecords.filterMap IndexerRecord.head? = [9] := by decide +kernel
  intro head member
  have listed : head ∈ tickRecords.filterMap IndexerRecord.head? :=
    List.mem_filterMap.mpr ⟨_, member, rfl⟩
  rw [heads] at listed
  rw [List.mem_singleton.mp listed]
  decide

end Numera
