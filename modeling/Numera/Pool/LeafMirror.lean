import Numera.Foundation.BlockScan
import Numera.Pool.Indexer

/-! # The leaf mirror

The ticks of the pool indexer, one after the other, each stopped wherever it
fails, against a chain whose final blocks do not change. A tick is refined by
`PoolTicked`: its transaction, if it is performed, writes the scan of a span that
starts right after the cursor and moves the cursor to the end of that span. The
table therefore grows by whole spans of new rows, and in every reachable state
its rows are the leaves from the start block to the cursor (`Mirrored`).
-/

namespace Numera

open Async (Reaches)
open BlockScan (Before Distinct)

/-- The scan of leaves, block by block. -/
abbrev leafScan : List PoolLeaf → Nat → Nat → List PoolLeaf :=
  BlockScan.scan PoolLeaf.blockNumber PoolLeaf.logIndex

/-- The leaves from a start block to a cursor, in chain order. -/
abbrev leavesUpTo : List PoolLeaf → Nat → Option Nat → List PoolLeaf :=
  BlockScan.upTo PoolLeaf.blockNumber PoolLeaf.logIndex

/-- What the chain guarantees of the leaves: no two share a position, and the logs of
one transaction are in one block. -/
structure ChainLeaves (leaves : List PoolLeaf) : Prop where
  distinct : Distinct PoolLeaf.blockNumber PoolLeaf.logIndex leaves
  oneBlock : ∀ x ∈ leaves, ∀ y ∈ leaves, x.txHash = y.txHash → x.blockNumber = y.blockNumber

theorem byTreeOrder_iff (x y : PoolLeaf) :
    PoolIndexerService.byTreeOrder x y ≤ 0 ↔
      Before PoolLeaf.blockNumber PoolLeaf.logIndex x y := by
  unfold PoolIndexerService.byTreeOrder Before
  split <;> omega

/-- Leaves of one key are one leaf. -/
theorem ChainLeaves.eq_of_key {leaves : List PoolLeaf} (chain : ChainLeaves leaves) {x y : PoolLeaf}
    (inX : x ∈ leaves) (inY : y ∈ leaves) (same : x.key = y.key) : x = y := by
  simp only [PoolLeaf.key, PoolLeafKey.mk.injEq] at same
  have block := chain.oneBlock x inX y inY same.1
  refine chain.distinct.eq_of_before inX inY ?_ ?_
  · exact .inr ⟨block, by omega⟩
  · exact .inr ⟨block.symm, by omega⟩

/-! ## The chain -/

/-- The two tables, the head that was read last, and the service's own flag. -/
structure PoolWorld where
  store : PoolStore
  head : Nat
  caughtUp : Bool

/-- The assignment of the flag is the one step that cannot fail. -/
def PoolIndexerCall.mayFail : PoolIndexerCall → Bool
  | setCaughtUp => false
  | _ => true

/-- What the services may answer. Any call may be rejected. `getLogs` answers in any
order, and completely for blocks that are final under the head that was read. A
transaction is performed as a whole, and its answer may be lost. The heads that
were read are recorded. -/
inductive ServesPool (logs : List RawPoolLog) (confirmations : Nat) :
    Async.Environment PoolIndexerCall.Answer Unit PoolWorld Nat where
  | rejected {op : PoolIndexerCall} {world : PoolWorld} (fails : op.mayFail) :
      ServesPool logs confirmations op world (.error ()) [] world
  | head {world : PoolWorld} (head : Nat) :
      ServesPool logs confirmations .getBlockNumber world (.ok head) [head] { world with head }
  | cursor {world : PoolWorld} :
      ServesPool logs confirmations .findCursor world (.ok world.store.cursor) [] world
  | logs {world : PoolWorld} {privacyPool : JsString} {first last : Nat}
      {answer : List RawPoolLog}
      (complete : last ≤ safeHeadOf confirmations world.head →
        answer.Perm (BlockScan.within RawPoolLog.blockNumber logs first last)) :
      ServesPool logs confirmations (.getLogs privacyPool first last) world (.ok answer) [] world
  | committed {world : PoolWorld} {rows : List PoolLeaf} {last : Nat} :
      ServesPool logs confirmations (.transaction rows last) world (.ok ()) []
        { world with store := world.store.commit rows last }
  | committedLost {world : PoolWorld} {rows : List PoolLeaf} {last : Nat} :
      ServesPool logs confirmations (.transaction rows last) world (.error ()) []
        { world with store := world.store.commit rows last }
  | caughtUp {world : PoolWorld} :
      ServesPool logs confirmations .setCaughtUp world (.ok ()) [] { world with caughtUp := true }

variable {cfg : PoolIndexerConfig} {logs : List RawPoolLog} {confirmations : Nat}

/-- The leaves of the pool's logs. -/
def leavesOf (logs : List RawPoolLog) : List PoolLeaf := logs.filterMap PoolIndexerService.toLeaf

/-- The row has the position of the log and the numbers of its event, in decimal. A deposit has a
label and a precommitment, and a withdrawal leaves a change with the nullifier it has spent. -/
inductive PoolLeaf.Mirrors (log : RawPoolLog) : PoolLeaf → Prop where
  | deposit {commitment label value precommitmentHash : Nat}
      (event : log.event = .deposited commitment label value precommitmentHash) :
      Mirrors log {
        blockNumber := log.blockNumber
        logIndex := log.logIndex
        txHash := log.transactionHash.toLowerCase
        kind := .deposit
        commitment := decimalString commitment
        label := some (decimalString label)
        value := decimalString value
        precommitment := some (decimalString precommitmentHash)
        spentNullifier := none }
  | change {value spentNullifier newCommitment : Nat}
      (event : log.event = .withdrawn value spentNullifier newCommitment) :
      Mirrors log {
        blockNumber := log.blockNumber
        logIndex := log.logIndex
        txHash := log.transactionHash.toLowerCase
        kind := .change
        commitment := decimalString newCommitment
        label := none
        value := decimalString value
        precommitment := none
        spentNullifier := some (decimalString spentNullifier) }

/-- The leaf of a log is the row that mirrors it, of a deposit or of a withdrawal. -/
theorem toLeaf_eq_some_iff {log : RawPoolLog} {leaf : PoolLeaf} :
    PoolIndexerService.toLeaf log = some leaf ↔ leaf.Mirrors log := by
  unfold PoolIndexerService.toLeaf
  constructor
  · intro mirrored
    split at mirrored
    · rename_i event
      obtain rfl := Option.some.inj mirrored
      exact .deposit event
    · rename_i event
      obtain rfl := Option.some.inj mirrored
      exact .change event
    · cases mirrored
  · rintro (event | event)
    · rw [event]
    · rw [event]

/-- The leaves are the rows that mirror a log. -/
theorem mem_leavesOf_iff {logs : List RawPoolLog} {leaf : PoolLeaf} :
    leaf ∈ leavesOf logs ↔ ∃ log ∈ logs, leaf.Mirrors log := by
  simp only [leavesOf, List.mem_filterMap, toLeaf_eq_some_iff]

theorem toLeaf_blockNumber {log : RawPoolLog} {leaf : PoolLeaf}
    (mirrored : PoolIndexerService.toLeaf log = some leaf) : leaf.blockNumber = log.blockNumber := by
  cases toLeaf_eq_some_iff.mp mirrored with
  | deposit | change => rfl

/-- The leaves of the logs of a span are the leaves of that span. -/
theorem leavesOf_within (logs : List RawPoolLog) (first last : Nat) :
    leavesOf (BlockScan.within RawPoolLog.blockNumber logs first last) =
      BlockScan.within PoolLeaf.blockNumber (leavesOf logs) first last := by
  induction logs with
  | nil => rfl
  | cons log rest ih =>
      unfold leavesOf BlockScan.within at ih ⊢
      cases mirrored : PoolIndexerService.toLeaf log with
      | none =>
          rw [List.filterMap_cons_none mirrored, List.filter_cons]
          split
          · rw [List.filterMap_cons_none mirrored, ih]
          · exact ih
      | some leaf =>
          have block := toLeaf_blockNumber mirrored
          rw [List.filterMap_cons_some mirrored, List.filter_cons, List.filter_cons, block]
          split
          · rw [List.filterMap_cons_some mirrored, ih]
          · exact ih

/-! ## One tick -/

/-- **The abstract tick.** It may not learn the head, or commit nothing; else it
commits the scan of a span that starts after the cursor and ends at or below the
safe head of the head it learned. -/
inductive PoolTicked (confirmations startBlock : Nat) (leaves : List PoolLeaf)
    (store : PoolStore) : List Nat → PoolStore → Prop where
  | unaware : PoolTicked confirmations startBlock leaves store [] store
  | idle (head : Nat) : PoolTicked confirmations startBlock leaves store [head] store
  | commits {head last : Nat} (ahead : BlockScan.next startBlock store.cursor ≤ last)
      (safe : last ≤ safeHeadOf confirmations head) :
      PoolTicked confirmations startBlock leaves store [head]
        (store.commit (leafScan leaves (BlockScan.next startBlock store.cursor) last) last)

/-- What a tick does to the service, wherever it stands. It may not learn the head, or
commit nothing; it sets the flag only when nothing is left below the safe head. -/
inductive PoolStepped (cfg : PoolIndexerConfig) (leaves : List PoolLeaf) (world : PoolWorld) :
    List Nat → PoolWorld → Prop where
  | unaware : PoolStepped cfg leaves world [] world
  | idle (head : Nat) : PoolStepped cfg leaves world [head] { world with head }
  | reached {head : Nat}
      (behind : safeHeadOf cfg.confirmations head <
        BlockScan.next cfg.startBlock world.store.cursor) :
      PoolStepped cfg leaves world [head] { world with head, caughtUp := true }
  | commits {head last : Nat} {flag : Bool}
      (ahead : BlockScan.next cfg.startBlock world.store.cursor ≤ last)
      (final : last = min (BlockScan.next cfg.startBlock world.store.cursor + cfg.batchBlocks - 1)
        (safeHeadOf cfg.confirmations head))
      (flagged : flag = world.caughtUp ∨ flag = true ∧ safeHeadOf cfg.confirmations head ≤ last) :
      PoolStepped cfg leaves world [head]
        ⟨world.store.commit
          (leafScan leaves (BlockScan.next cfg.startBlock world.store.cursor) last) last,
          head, flag⟩

/-- Setting the flag and returning, wherever it stands. -/
private theorem flag_of_reaches {world after : PoolWorld} {heads : List Nat} {result : Bool}
    {standing : PoolIndexing Bool}
    (path : Reaches (ServesPool logs confirmations) (do
      PoolIndexerService.request .setCaughtUp
      return result) world heads standing after) :
    heads = [] ∧ (after = world ∨ after = { world with caughtUp := true }) := by
  have assigned : ∀ {standing : PoolIndexing Unit} {heads : List Nat} {after : PoolWorld},
      Reaches (ServesPool logs confirmations) (PoolIndexerService.request .setCaughtUp) world heads
        standing after → heads = [] ∧ (after = world ∨ after = { world with caughtUp := true }) := by
    intro standing heads after path
    rcases Reaches.perform_cases path with ⟨rfl, rfl⟩ | ⟨answer, -, served⟩
    · exact ⟨rfl, .inl rfl⟩
    · cases served with
      | rejected fails => cases fails
      | caughtUp => exact ⟨rfl, .inr rfl⟩
  rcases Reaches.bind_cases path with ⟨_, within, -, -⟩ | ⟨_, _, _, _, rfl, call, returned⟩
  · exact assigned within
  · cases returned
    rw [List.append_nil]
    exact assigned call

/-- The calls that only read below the head. -/
def PoolIndexerCall.reads : PoolIndexerCall → Prop
  | findCursor | getLogs _ _ _ => True
  | _ => False

theorem ServesPool.of_reads {op : PoolIndexerCall} {before after : PoolWorld}
    {answer : Except Unit op.Answer} {heads : List Nat} (reads : op.reads)
    (served : ServesPool logs confirmations op before answer heads after) :
    heads = [] ∧ after = before := by
  cases served with
  | rejected _ => exact ⟨rfl, rfl⟩
  | cursor => exact ⟨rfl, rfl⟩
  | logs _ => exact ⟨rfl, rfl⟩
  | head _ => exact reads.elim
  | committed => exact reads.elim
  | committedLost => exact reads.elim
  | caughtUp => exact reads.elim

private theorem callsOnly_next :
    (PoolIndexerService.nextFromBlock cfg).CallsOnly PoolIndexerCall.reads := by
  refine .bind (.perform trivial) fun cursor => ?_
  cases cursor <;> trivial

private theorem next_returned {world after : PoolWorld} {heads : List Nat} {first : Nat}
    (path : Reaches (ServesPool logs confirmations) (PoolIndexerService.nextFromBlock cfg) world
      heads (.done (.ok first)) after) :
    first = BlockScan.next cfg.startBlock world.store.cursor := by
  obtain ⟨cursor, _, _, _, -, found, returned⟩ := Reaches.bind_returned path
  cases Reaches.perform_returned found with
  | cursor =>
      cases stored : world.store.cursor with
      | none =>
          rw [stored] at returned
          cases returned
          rfl
      | some lastBlock =>
          rw [stored] at returned
          cases returned
          rfl

/-- Reading a final range and committing its leaves, wherever it stands. -/
private theorem commits_of_reaches {world after : PoolWorld} {heads : List Nat} {first last : Nat}
    {standing : PoolIndexing Bool} {done : Prop} [Decidable done] {result : Bool}
    (chain : ChainLeaves (leavesOf logs))
    (settled : last ≤ safeHeadOf confirmations world.head)
    (path : Reaches (ServesPool logs confirmations) (do
      let logs : List RawPoolLog ←
        PoolIndexerService.request (.getLogs cfg.privacyPool first last)
      let rows := (logs.filterMap PoolIndexerService.toLeaf).insertionSort fun a b =>
        PoolIndexerService.byTreeOrder a b ≤ 0
      PoolIndexerService.request (.transaction rows last)
      if done then PoolIndexerService.request .setCaughtUp
      return result) world heads standing after) :
    heads = [] ∧ (after = world ∨ ∃ flag, (flag = world.caughtUp ∨ flag = true ∧ done) ∧
      after = ⟨world.store.commit (leafScan (leavesOf logs) first last) last, world.head, flag⟩) := by
  rcases Reaches.bind_cases path with ⟨_, within, -, -⟩ | ⟨answer, _, _, _, rfl, read, writing⟩
  · rcases Reaches.perform_cases within with ⟨rfl, rfl⟩ | ⟨answer, -, served⟩
    · exact ⟨rfl, .inl rfl⟩
    · cases served with
      | rejected _ => exact ⟨rfl, .inl rfl⟩
      | logs _ => exact ⟨rfl, .inl rfl⟩
  · cases Reaches.perform_returned read with
    | logs complete =>
        have rows : (answer.filterMap PoolIndexerService.toLeaf).insertionSort
            (fun a b => PoolIndexerService.byTreeOrder a b ≤ 0) =
              leafScan (leavesOf logs) first last := by
          have all := (complete settled).filterMap PoolIndexerService.toLeaf
          change List.Perm _ (leavesOf _) at all
          rw [leavesOf_within] at all
          exact BlockScan.insertionSort_eq_scan byTreeOrder_iff chain.distinct all
        dsimp only at writing
        rw [rows] at writing
        rcases Reaches.bind_cases writing with ⟨_, within, -, -⟩ |
          ⟨_, _, _, _, rfl, transaction, flagging⟩
        · rcases Reaches.perform_cases within with ⟨rfl, rfl⟩ | ⟨outcome, -, served⟩
          · exact ⟨rfl, .inl rfl⟩
          · cases served with
            | rejected _ => exact ⟨rfl, .inl rfl⟩
            | committed => exact ⟨rfl, .inr ⟨_, .inl rfl, rfl⟩⟩
            | committedLost => exact ⟨rfl, .inr ⟨_, .inl rfl, rfl⟩⟩
        · cases Reaches.perform_returned transaction with
          | committed =>
              split at flagging
              · rename_i reached
                obtain ⟨rfl, stayed | set⟩ := flag_of_reaches flagging
                · exact ⟨rfl, .inr ⟨_, .inl rfl, stayed⟩⟩
                · exact ⟨rfl, .inr ⟨_, .inr ⟨rfl, reached⟩, set⟩⟩
              · cases flagging
                exact ⟨rfl, .inr ⟨_, .inl rfl, rfl⟩⟩

/-- **A tick, wherever it stands, is a step of the service.** -/
theorem poolStepped_of_reaches {world after : PoolWorld} {heads : List Nat}
    {standing : PoolIndexing Bool} (positive : 1 ≤ cfg.batchBlocks)
    (chain : ChainLeaves (leavesOf logs))
    (path : Reaches (ServesPool logs cfg.confirmations) (PoolIndexerService.tick cfg) world heads
      standing after) :
    PoolStepped cfg (leavesOf logs) world heads after := by
  have reads : ∀ op before answer record after, PoolIndexerCall.reads op →
      ServesPool logs cfg.confirmations op before answer record after →
        record = [] ∧ after = before := fun _ _ _ _ _ reads => ServesPool.of_reads reads
  unfold PoolIndexerService.tick at path
  rcases Reaches.bind_cases path with ⟨_, within, unreturned, -⟩ |
    ⟨head, looked, _, _, rfl, asked, continued⟩
  · rcases Reaches.perform_cases within with ⟨rfl, rfl⟩ | ⟨answer, standing, served⟩
    · exact .unaware
    · cases served with
      | rejected _ => exact .unaware
      | head head => exact absurd standing (unreturned head)
  cases Reaches.perform_returned asked with
  | head =>
      rcases Reaches.bind_cases continued with ⟨_, within, -, -⟩ |
        ⟨first, found, _, _, rfl, cursor, deciding⟩
      · obtain ⟨rfl, rfl⟩ := callsOnly_next.unobserved reads within
        exact .idle head
      · obtain ⟨rfl, rfl⟩ := callsOnly_next.unobserved reads cursor
        have next := next_returned cursor
        dsimp only at next
        subst next
        split at deciding
        · rename_i behind
          obtain ⟨rfl, rfl | rfl⟩ := flag_of_reaches deciding
          · exact .idle head
          · exact .reached behind
        · rename_i behind
          dsimp only at deciding
          generalize final : (if BlockScan.next cfg.startBlock world.store.cursor +
              cfg.batchBlocks - 1 < safeHeadOf cfg.confirmations head then
            BlockScan.next cfg.startBlock world.store.cursor + cfg.batchBlocks - 1
            else safeHeadOf cfg.confirmations head) = last at deciding
          have least : last = min (BlockScan.next cfg.startBlock world.store.cursor +
              cfg.batchBlocks - 1) (safeHeadOf cfg.confirmations head) := by
            rw [← final]
            split <;> omega
          have safe : last ≤ safeHeadOf cfg.confirmations head := by omega
          have ahead : BlockScan.next cfg.startBlock world.store.cursor ≤ last := by omega
          obtain ⟨rfl, rfl | ⟨flag, flagged, rfl⟩⟩ := commits_of_reaches chain safe deciding
          · exact .idle head
          · exact .commits ahead least flagged

/-- **A tick, wherever it stands, is an abstract tick.** -/
theorem poolTicked_of_reaches {world after : PoolWorld} {heads : List Nat}
    {standing : PoolIndexing Bool} (positive : 1 ≤ cfg.batchBlocks)
    (chain : ChainLeaves (leavesOf logs))
    (path : Reaches (ServesPool logs cfg.confirmations) (PoolIndexerService.tick cfg) world heads
      standing after) :
    PoolTicked cfg.confirmations cfg.startBlock (leavesOf logs) world.store heads after.store := by
  cases poolStepped_of_reaches positive chain path with
  | unaware => exact .unaware
  | idle head => exact .idle head
  | @reached head behind => exact .idle head
  | commits ahead final flagged => exact .commits ahead (by omega)

/-! ## The table -/

/-- Fresh leaves are new rows at the end. -/
private theorem rows_foldl_upsertLeaf (rows : List PoolLeaf) (store : PoolStore)
    (fresh : ((store.leaves.rows.map Prod.fst) ++ rows.map PoolLeaf.key).Nodup) :
    (rows.foldl PoolStore.upsertLeaf store).leaves.rows =
      store.leaves.rows ++ rows.map fun row => (row.key, row) := by
  induction rows generalizing store with
  | nil => simp
  | cons row rest ih =>
      have absent : row.key ∉ store.leaves.rows.map Prod.fst := by
        intro member
        exact (List.nodup_append.mp fresh).2.2 row.key member row.key List.mem_cons_self rfl
      have added : (store.upsertLeaf row).leaves.rows =
          store.leaves.rows ++ [(row.key, row)] :=
        store.leaves.rows_upsert_of_not_mem row.key row row.update absent
      rw [List.foldl_cons, ih, added, List.append_assoc]
      · rfl
      · rw [added, List.map_append, List.append_assoc]
        exact fresh

/-- The rows of the table are the leaves from the start block to the cursor, in the
order they have on chain. -/
structure Mirrored (startBlock : Nat) (leaves : List PoolLeaf) (store : PoolStore) : Prop where
  started : ∀ lastBlock, store.cursor = some lastBlock → startBlock ≤ lastBlock
  rows : store.leaves.rows =
    (leavesUpTo leaves startBlock store.cursor).map fun row => (row.key, row)

/-- A commit of the span after the cursor. -/
theorem Mirrored.commit {startBlock last : Nat} {leaves : List PoolLeaf} {store : PoolStore}
    (mirrored : Mirrored startBlock leaves store) (chain : ChainLeaves leaves)
    (ahead : BlockScan.next startBlock store.cursor ≤ last) :
    Mirrored startBlock leaves
      (store.commit (leafScan leaves (BlockScan.next startBlock store.cursor) last) last) where
  started := by
    rintro _ ⟨⟩
    exact BlockScan.start_le_of_next_le mirrored.started ahead
  rows := by
    have extended : leavesUpTo leaves startBlock (some last) =
        leavesUpTo leaves startBlock store.cursor ++
          leafScan leaves (BlockScan.next startBlock store.cursor) last :=
      BlockScan.upTo_extend mirrored.started ahead
    have keys : ((leavesUpTo leaves startBlock (some last)).map PoolLeaf.key).Nodup :=
      (BlockScan.nodup_upTo chain.distinct (some last)).map_on fun x inX y inY same =>
        chain.eq_of_key (BlockScan.mem_upTo inX) (BlockScan.mem_upTo inY) same
    have fresh : ((store.leaves.rows.map Prod.fst) ++
        (leafScan leaves (BlockScan.next startBlock store.cursor) last).map
          PoolLeaf.key).Nodup := by
      rw [extended, List.map_append] at keys
      rw [mirrored.rows, List.map_map]
      exact keys
    change (List.foldl PoolStore.upsertLeaf store _).leaves.rows = _
    rw [rows_foldl_upsertLeaf _ store fresh, mirrored.rows, ← List.map_append, ← extended]
    rfl

/-- What is read back from the table. -/
theorem Mirrored.leaves_eq {startBlock : Nat} {leaves : List PoolLeaf} {store : PoolStore}
    (mirrored : Mirrored startBlock leaves store) :
    PoolService.leaves store = leavesUpTo leaves startBlock store.cursor := by
  have columns : store.leaves.rows.map Prod.snd = leavesUpTo leaves startBlock store.cursor := by
    rw [mirrored.rows, List.map_map]
    exact List.map_id _
  rw [PoolService.leaves, columns]
  cases store.cursor with
  | none => rfl
  | some lastBlock => exact BlockScan.insertionSort_scan fun x y => Iff.rfl

/-! ## Runs -/

/-- Ticks one after the other, each stopped wherever it fails, and restarts of the
service, which forget the flag. The heads that were read are kept. -/
inductive PoolRun (cfg : PoolIndexerConfig) (logs : List RawPoolLog) (start : PoolWorld) :
    List Nat → PoolWorld → Prop where
  | here : PoolRun cfg logs start [] start
  | tick {heads more : List Nat} {world later : PoolWorld} {standing : PoolIndexing Bool}
      (earlier : PoolRun cfg logs start heads world)
      (stopped : Reaches (ServesPool logs cfg.confirmations) (PoolIndexerService.tick cfg) world
        more standing later) :
      PoolRun cfg logs start (heads ++ more) later
  | restart {heads : List Nat} {world : PoolWorld} (earlier : PoolRun cfg logs start heads world) :
      PoolRun cfg logs start heads { world with caughtUp := false }

/-- The service before its first tick: no rows and no cursor. -/
def PoolWorld.initial : PoolWorld := ⟨⟨.empty, none⟩, 0, false⟩

/-- The leaves from the start block to the cursor, sorted by their columns. -/
def treeLeaves (startBlock : Nat) (leaves : List PoolLeaf) : Option Nat → List PoolLeaf
  | none => []
  | some lastBlock =>
      (leaves.filter fun leaf =>
        startBlock ≤ leaf.blockNumber ∧ leaf.blockNumber ≤ lastBlock).insertionSort
          fun a b => PoolIndexerService.byTreeOrder a b ≤ 0

theorem treeLeaves_eq {startBlock : Nat} {leaves : List PoolLeaf} (chain : ChainLeaves leaves)
    (cursor : Option Nat) :
    treeLeaves startBlock leaves cursor = leavesUpTo leaves startBlock cursor := by
  cases cursor with
  | none => rfl
  | some lastBlock =>
      exact BlockScan.insertionSort_eq_scan byTreeOrder_iff chain.distinct (.refl _)

/-- A cursor does not go back. -/
def Advances (earlier later : Option Nat) : Prop :=
  ∀ block, earlier = some block → ∃ reached, later = some reached ∧ block ≤ reached

private theorem advances_of_ticked {startBlock : Nat} {leaves : List PoolLeaf} {heads : List Nat}
    {store later : PoolStore}
    (ticked : PoolTicked confirmations startBlock leaves store heads later) :
    Advances store.cursor later.cursor := by
  intro block cursor
  cases ticked with
  | unaware => exact ⟨block, cursor, le_refl block⟩
  | idle head => exact ⟨block, cursor, le_refl block⟩
  | @commits head last ahead safe =>
      rw [cursor] at ahead
      exact ⟨last, rfl, (Nat.le_succ block).trans ahead⟩

/-- Over a run the cursor does not go back. -/
theorem PoolRun.advances {start world : PoolWorld} {heads : List Nat}
    (positive : 1 ≤ cfg.batchBlocks) (chain : ChainLeaves (leavesOf logs))
    (run : PoolRun cfg logs start heads world) : Advances start.store.cursor world.store.cursor := by
  induction run with
  | here => exact fun block cursor => ⟨block, cursor, le_refl block⟩
  | restart earlier ih => exact ih
  | tick earlier stopped ih =>
      intro block cursor
      obtain ⟨middle, reached, before⟩ := ih block cursor
      obtain ⟨last, arrived, after⟩ :=
        advances_of_ticked (poolTicked_of_reaches positive chain stopped) middle reached
      exact ⟨last, arrived, before.trans after⟩

/-- In every reachable state the rows are the leaves up to the cursor, which is at or
below the safe head of a head that was read. -/
theorem PoolRun.mirrored {world : PoolWorld} {heads : List Nat} (positive : 1 ≤ cfg.batchBlocks)
    (chain : ChainLeaves (leavesOf logs)) (run : PoolRun cfg logs .initial heads world) :
    Mirrored cfg.startBlock (leavesOf logs) world.store ∧
      ∀ block, world.store.cursor = some block →
        ∃ head ∈ heads, block ≤ safeHeadOf cfg.confirmations head := by
  induction run with
  | here => exact ⟨⟨by simp [PoolWorld.initial], rfl⟩, by simp [PoolWorld.initial]⟩
  | restart _ ih => exact ih
  | @tick heads more world later standing earlier stopped ih =>
      obtain ⟨mirrored, bounded⟩ := ih
      have kept : ∀ block, world.store.cursor = some block →
          ∃ head ∈ heads ++ more, block ≤ safeHeadOf cfg.confirmations head := by
        intro block cursor
        obtain ⟨head, member, below⟩ := bounded block cursor
        exact ⟨head, List.mem_append_left more member, below⟩
      have ticked := poolTicked_of_reaches positive chain stopped
      generalize later.store = store at ticked ⊢
      cases ticked with
      | unaware => exact ⟨mirrored, kept⟩
      | idle head => exact ⟨mirrored, kept⟩
      | @commits head last ahead safe =>
          refine ⟨mirrored.commit chain ahead, ?_⟩
          rintro _ ⟨⟩
          exact ⟨head, by simp, safe⟩

/-- **The leaf mirror is exact.** In every reachable state the leaves that are read
are the deposits and withdrawals from the start block to the cursor in chain
order, and the state gives each its place among them; the cursor is at or below
the safe head of a head that was read, and never goes back from there. -/
theorem leaves_exact {world : PoolWorld} {heads : List Nat} (positive : 1 ≤ cfg.batchBlocks)
    (chain : ChainLeaves (leavesOf logs)) (run : PoolRun cfg logs .initial heads world) :
    PoolService.leaves world.store =
        treeLeaves cfg.startBlock (leavesOf logs) world.store.cursor ∧
      PoolService.stateLeaves world.store =
        (treeLeaves cfg.startBlock (leavesOf logs) world.store.cursor).mapIdx PoolLeaf.view ∧
      (∀ block, world.store.cursor = some block →
        ∃ head ∈ heads, block ≤ safeHeadOf cfg.confirmations head) ∧
      ∀ more later, PoolRun cfg logs world more later →
        Advances world.store.cursor later.store.cursor := by
  obtain ⟨mirrored, bounded⟩ := run.mirrored positive chain
  have read : PoolService.leaves world.store =
      treeLeaves cfg.startBlock (leavesOf logs) world.store.cursor := by
    rw [treeLeaves_eq chain]
    exact mirrored.leaves_eq
  refine ⟨read, ?_, bounded, fun more later onward => onward.advances positive chain⟩
  rw [PoolService.stateLeaves, read]

/-! ## Computed ticks -/

/-- The services when nothing fails and the head stands still. -/
def servePool (logs : List RawPoolLog) (head : Nat) :
    Async.Responder PoolIndexerCall.Answer Unit PoolWorld
  | .getBlockNumber, world => (.ok head, { world with head })
  | .findCursor, world => (.ok world.store.cursor, world)
  | .getLogs _ first last, world =>
      (.ok (BlockScan.within RawPoolLog.blockNumber logs first last), world)
  | .transaction rows last, world =>
      (.ok (), { world with store := world.store.commit rows last })
  | .setCaughtUp, world => (.ok (), { world with caughtUp := true })

def servePoolHeads (head : Nat) : PoolIndexerCall → PoolWorld → List Nat
  | .getBlockNumber, _ => [head]
  | _, _ => []

theorem serves_servePool (confirmations head : Nat) (call : PoolIndexerCall) (world : PoolWorld) :
    ServesPool logs confirmations call world (servePool logs head call world).1
      (servePoolHeads head call world) (servePool logs head call world).2 := by
  cases call with
  | getBlockNumber => exact .head head
  | findCursor => exact .cursor
  | getLogs privacyPool first last => exact .logs fun _ => .refl _
  | transaction rows last => exact .committed
  | setCaughtUp => exact .caughtUp

namespace Sample

/-- The pool is read four blocks at a time from block 5 on, one block behind the head. -/
def pool : PoolIndexerConfig := ⟨1, 4, 5, JsString.ascii "0xd0"⟩

/-- A withdrawal in block 7 and a deposit in block 6, as the RPC may return them. -/
def poolLogs : List RawPoolLog :=
  [⟨.withdrawn 4 77 333, 7, JsString.ascii "0x71", 0⟩,
    ⟨.deposited 111 7 9 55, 6, JsString.ascii "0x6A", 2⟩]

/-- The service after one tick under head 9 that nothing stops. -/
def poolAfter : PoolWorld :=
  (Async.stopped (servePool poolLogs 9) 40 (PoolIndexerService.tick pool) .initial).2

end Sample

open Sample in
/-- One tick mirrors both leaves, the deposit first. -/
theorem leaves_of_poolAfter :
    PoolService.stateLeaves poolAfter.store =
      [{ index := 0
         kind := .deposit
         commitment := JsString.ascii "111"
         label := some (JsString.ascii "7")
         value := JsString.ascii "9"
         precommitment := some (JsString.ascii "55")
         spentNullifier := none },
       { index := 1
         kind := .change
         commitment := JsString.ascii "333"
         label := none
         value := JsString.ascii "4"
         precommitment := none
         spentNullifier := some (JsString.ascii "77") }] := by
  have stopped := Async.reaches_recorded (servePool poolLogs 9)
    (serves_servePool pool.confirmations 9) 40 (PoolIndexerService.tick pool) .initial
  have positive : 1 ≤ pool.batchBlocks := by decide
  have chain : ChainLeaves (leavesOf poolLogs) := by
    refine ⟨?_, by decide +kernel⟩
    unfold Distinct
    decide +kernel
  have read := (leaves_exact positive chain (.tick .here stopped)).2.1
  have cursor : poolAfter.store.cursor = some 8 := by decide +kernel
  calc PoolService.stateLeaves poolAfter.store
      = (treeLeaves pool.startBlock (leavesOf poolLogs) poolAfter.store.cursor).mapIdx
          PoolLeaf.view := read
    _ = _ := by
        rw [cursor]
        decide +kernel

end Numera
