import Numera.Pool.LeafMirror

/-! # The synced flag

`isSynced` is set by a tick that leaves nothing below the safe head it read, and by
nothing unset. It says that the cursor is at or beyond that safe head as long as
every later tick keeps up: a tick that reads a head further than one batch beyond
the cursor, or that fails before its transaction, leaves the flag set with the
cursor behind (`synced_behind`).
-/

namespace Numera

open Async (Reaches)

/-- Whether the mirror can be trusted to be complete to the safe head. -/
def PoolIndexerService.isSynced (world : PoolWorld) : Bool := world.caughtUp

variable (cfg : PoolIndexerConfig)

/-- The cursor is persisted, and at or beyond the safe head of a head. -/
def AtSafeHead (store : PoolStore) (head : Nat) : Prop :=
  ∃ block, store.cursor = some block ∧ safeHeadOf cfg.confirmations head ≤ block

/-- A service that says it is synced has mirrored everything up to the safe head of the
head that was read last. -/
def SyncedIsTrue (heads : List Nat) (world : PoolWorld) : Prop :=
  PoolIndexerService.isSynced world = true →
    ∀ head, heads.getLast? = some head → AtSafeHead cfg world.store head

/-- A tick keeps up with the heads it reads. Under the flag, nothing is left to mirror, or
one batch covers what is left and the transaction has been performed. Without a
cursor, the first block to mirror is final. -/
structure KeepsUp (world : PoolWorld) (heads : List Nat) (later : PoolWorld) : Prop where
  flagged : PoolIndexerService.isSynced world = true → ∀ head ∈ heads,
    AtSafeHead cfg world.store head ∨
      safeHeadOf cfg.confirmations head <
          BlockScan.next cfg.startBlock world.store.cursor + cfg.batchBlocks ∧
        later.store.cursor ≠ world.store.cursor
  started : world.store.cursor = none → ∀ head ∈ heads,
    cfg.startBlock ≤ safeHeadOf cfg.confirmations head

/-- Ticks that keep up, each stopped anywhere, and restarts. -/
inductive SteadyRun (logs : List RawPoolLog) (start : PoolWorld) : List Nat → PoolWorld → Prop where
  | here : SteadyRun logs start [] start
  | tick {heads more : List Nat} {world later : PoolWorld} {standing : PoolIndexing Bool}
      (earlier : SteadyRun logs start heads world)
      (stopped : Reaches (ServesPool logs cfg.confirmations) (PoolIndexerService.tick cfg) world
        more standing later)
      (keepsUp : KeepsUp cfg world more later) :
      SteadyRun logs start (heads ++ more) later
  | restart {heads : List Nat} {world : PoolWorld} (earlier : SteadyRun logs start heads world) :
      SteadyRun logs start heads { world with caughtUp := false }

variable {cfg} {logs : List RawPoolLog}

theorem SteadyRun.run {start world : PoolWorld} {heads : List Nat}
    (run : SteadyRun cfg logs start heads world) : PoolRun cfg logs start heads world := by
  induction run with
  | here => exact .here
  | tick _ stopped _ ih => exact .tick ih stopped
  | restart _ ih => exact .restart ih

/-- Under the flag there is a cursor, at or beyond the safe head of the last head. -/
private def CaughtUp (cfg : PoolIndexerConfig) (heads : List Nat) (world : PoolWorld) : Prop :=
  world.caughtUp = true → ∃ block, world.store.cursor = some block ∧
    ∀ head, heads.getLast? = some head → safeHeadOf cfg.confirmations head ≤ block

/-- **One tick.** A tick that keeps up, wherever it stands, leaves the flag true to its
word. -/
private theorem caughtUp_stepped {leaves : List PoolLeaf} {world later : PoolWorld}
    {heads more : List Nat} (stepped : PoolStepped cfg leaves world more later)
    (keepsUp : KeepsUp cfg world more later) (before : CaughtUp cfg heads world) :
    CaughtUp cfg (heads ++ more) later := by
  intro flag
  cases stepped with
  | unaware =>
      rw [List.append_nil]
      exact before flag
  | idle head =>
      obtain ⟨block, cursor, -⟩ := before flag
      refine ⟨block, cursor, ?_⟩
      rintro last read
      rw [List.getLast?_concat, Option.some.injEq] at read
      subst read
      rcases keepsUp.flagged flag head List.mem_cons_self with ⟨own, same, reached⟩ | ⟨-, moved⟩
      · rw [cursor, Option.some.injEq] at same
        exact same ▸ reached
      · exact absurd rfl moved
  | @reached head behind =>
      cases cursor : world.store.cursor with
      | none =>
          have started := keepsUp.started cursor head List.mem_cons_self
          rw [cursor] at behind
          exact absurd behind (Nat.not_lt.mpr started)
      | some block =>
          refine ⟨block, rfl, ?_⟩
          rintro last read
          rw [List.getLast?_concat, Option.some.injEq] at read
          subst read
          rw [cursor] at behind
          exact Nat.lt_succ_iff.mp behind
  | @commits head last _ ahead final flagged =>
      refine ⟨last, rfl, ?_⟩
      rintro read isLast
      rw [List.getLast?_concat, Option.some.injEq] at isLast
      subst isLast
      rcases flagged with kept | ⟨-, reached⟩
      · rcases keepsUp.flagged (kept.symm.trans flag) head List.mem_cons_self with
          ⟨own, cursor, reached⟩ | ⟨oneBatch, -⟩
        · rw [cursor] at ahead
          have beyond : own + 1 ≤ last := ahead
          omega
        · omega
      · exact reached

/-- **The flag can be trusted while every tick keeps up.** From a service that has just
started, on any persisted cursor, in every state a run of ticks and restarts reaches. -/
theorem synced_of_keepsUp {start world : PoolWorld} {heads : List Nat}
    (positive : 1 ≤ cfg.batchBlocks) (chain : ChainLeaves (leavesOf logs))
    (booted : PoolIndexerService.isSynced start = false)
    (run : SteadyRun cfg logs start heads world) : SyncedIsTrue cfg heads world := by
  have invariant : CaughtUp cfg heads world := by
    induction run with
    | here =>
        intro flag
        rw [show start.caughtUp = false from booted] at flag
        cases flag
    | restart _ _ =>
        intro flag
        cases flag
    | tick earlier stopped keepsUp ih =>
        exact caughtUp_stepped (poolStepped_of_reaches positive chain stopped) keepsUp ih
  intro flag head read
  obtain ⟨block, cursor, reached⟩ := invariant flag
  exact ⟨block, cursor, reached head read⟩

/-- Under the flag no weaker condition will do: a tick that reads a head and does not keep
up with it leaves the flag set with the cursor behind. -/
theorem not_synced_of_not_keepsUp {world later : PoolWorld} {heads more : List Nat}
    {standing : PoolIndexing Bool} (positive : 1 ≤ cfg.batchBlocks)
    (chain : ChainLeaves (leavesOf logs))
    (flag : PoolIndexerService.isSynced world = true)
    (stopped : Reaches (ServesPool logs cfg.confirmations) (PoolIndexerService.tick cfg) world more
      standing later) {head : Nat} (read : head ∈ more)
    (behind : ¬ AtSafeHead cfg world.store head)
    (missed : BlockScan.next cfg.startBlock world.store.cursor + cfg.batchBlocks ≤
        safeHeadOf cfg.confirmations head ∨ later.store.cursor = world.store.cursor)
    (cursor : world.store.cursor.isSome) : ¬ SyncedIsTrue cfg (heads ++ more) later := by
  obtain ⟨block, stored⟩ := Option.isSome_iff_exists.mp cursor
  have beyond : block < safeHeadOf cfg.confirmations head := by
    rw [← Nat.not_le]
    exact fun reached => behind ⟨block, stored, reached⟩
  intro trusted
  have stepped := poolStepped_of_reaches positive chain stopped
  cases stepped with
  | unaware => cases read
  | idle other =>
      obtain rfl := List.mem_singleton.mp read
      exact behind (trusted flag head List.getLast?_concat)
  | @reached other above =>
      obtain rfl := List.mem_singleton.mp read
      exact behind (trusted rfl head List.getLast?_concat)
  | @commits other last kept ahead final flagged =>
      obtain rfl := List.mem_singleton.mp read
      have set : kept = true := by
        rcases flagged with same | ⟨same, -⟩
        · exact same.trans flag
        · exact same
      obtain ⟨own, same, reached⟩ := trusted set head List.getLast?_concat
      have lastCursor : last = own := Option.some.inj same
      rw [stored] at ahead final missed
      have next : BlockScan.next cfg.startBlock (some block) = block + 1 := rfl
      rcases missed with far | stayed
      · omega
      · have unmoved : last = block := Option.some.inj stayed
        omega

/-! ## A head far ahead -/

namespace Sample

/-- One tick that nothing stops, under a head. -/
def ticked (head : Nat) (world : PoolWorld) : PoolWorld :=
  (Async.stopped (servePool [] head) 40 (PoolIndexerService.tick pool) world).2

/-- The heads such a tick reads. -/
def headsRead (head : Nat) (world : PoolWorld) : List Nat :=
  Async.recorded (servePool [] head) (servePoolHeads head) 40 (PoolIndexerService.tick pool) world

theorem ticked_reaches (head : Nat) (world : PoolWorld) :
    ∃ standing, Reaches (ServesPool [] pool.confirmations) (PoolIndexerService.tick pool) world
      (headsRead head world) standing (ticked head world) :=
  ⟨_, Async.reaches_recorded (servePool [] head) (serves_servePool pool.confirmations head) 40
    (PoolIndexerService.tick pool) world⟩

end Sample

open Sample in
/-- **The flag stays set when the node has been away.** A tick under head 9 mirrors up to
the safe head 8; the next one, under head 100, mirrors up to block 12 and leaves the
flag set. -/
theorem synced_behind :
    ¬ ∀ (cfg : PoolIndexerConfig) (logs : List RawPoolLog) (heads : List Nat) (world : PoolWorld),
      1 ≤ cfg.batchBlocks → ChainLeaves (leavesOf logs) →
        PoolRun cfg logs .initial heads world → SyncedIsTrue cfg heads world := by
  intro trusted
  obtain ⟨_, first⟩ := ticked_reaches 9 .initial
  obtain ⟨_, second⟩ := ticked_reaches 100 (ticked 9 .initial)
  have chain : ChainLeaves (leavesOf []) := ⟨List.Pairwise.nil, by decide⟩
  have run := PoolRun.tick (.tick .here first) second
  obtain ⟨block, cursor, reached⟩ :=
    trusted pool [] _ _ (by decide) chain run (by decide +kernel) 100 (by decide +kernel)
  have stored : (ticked 100 (ticked 9 .initial)).store.cursor = some 12 := by decide +kernel
  rw [stored, Option.some.injEq] at cursor
  subst cursor
  revert reached
  decide

open Sample in
/-- Under heads 9 and 11 every tick keeps up, and the flag is true to its word. -/
theorem synced_of_twoTicks :
    SyncedIsTrue pool [9, 11] (ticked 11 (ticked 9 .initial)) ∧
      PoolIndexerService.isSynced (ticked 11 (ticked 9 .initial)) = true := by
  refine ⟨?_, by decide +kernel⟩
  obtain ⟨_, first⟩ := ticked_reaches 9 .initial
  obtain ⟨_, second⟩ := ticked_reaches 11 (ticked 9 .initial)
  have readFirst : headsRead 9 .initial = [9] := by decide +kernel
  have readSecond : headsRead 11 (ticked 9 .initial) = [11] := by decide +kernel
  rw [readFirst] at first
  rw [readSecond] at second
  have keepsFirst : KeepsUp pool .initial [9] (ticked 9 .initial) := by
    refine ⟨fun flag => absurd flag Bool.false_ne_true, fun _ head read => ?_⟩
    obtain rfl := List.mem_singleton.mp read
    decide
  have keepsSecond : KeepsUp pool (ticked 9 .initial) [11] (ticked 11 (ticked 9 .initial)) := by
    refine ⟨fun _ head read => .inr ?_, fun none => ?_⟩
    · obtain rfl := List.mem_singleton.mp read
      exact ⟨by decide +kernel, by decide +kernel⟩
    · have stored : (ticked 9 .initial).store.cursor = some 8 := by decide +kernel
      rw [stored] at none
      cases none
  have chain : ChainLeaves (leavesOf []) := ⟨List.Pairwise.nil, by decide⟩
  exact synced_of_keepsUp (by decide) chain rfl (.tick (.tick .here first keepsFirst) second
    keepsSecond)

end Numera
