import Numera.Chain.Mirror
import Numera.Foundation.Polling
import Numera.Pool.LeafMirror
import Numera.Relay.Settlement

/-! # The loops of the services

`IndexerService.loop`, `PoolIndexerService.loop` and the `tick` of `SettlementService`, with
their flags and their timers. Whatever a run of one of them does, with failing ticks and
a shutdown at any time, ticks do that follow one another (`services_poll`): a run of the
market indexer is a `MirrorRun`, one of the pool indexer a `PoolRun`, and one of the
settlement keeper a part of its `schedule`. What holds of these holds of the services.

`onModuleInit` is that of a service that is enabled and configured; else it does nothing.
-/

namespace Numera

open Async (Environment Ends Poller Reaches)
open Async.Poller (Passes Polls)

/-! ## The services -/

/-- `IndexerService.loop`: at once again while it is catching up, else after an interval. -/
def IndexerService.loop (cfg : IndexerConfig) (pollIntervalMs : Nat) :
    Poller IndexerCall.Answer Unit Bool where
  pass := IndexerService.tick cfg
  guarded := true
  initialDelay := none
  delay
    | .ok caughtUp => if caughtUp then pollIntervalMs else 0
    | .error _ => pollIntervalMs

def catchupDelayMs : Nat := 150

/-- `PoolIndexerService.loop`. -/
def PoolIndexerService.loop (cfg : PoolIndexerConfig) (pollIntervalMs : Nat) :
    Poller PoolIndexerCall.Answer Unit Bool where
  pass := PoolIndexerService.tick cfg
  guarded := true
  initialDelay := none
  delay
    | .ok done => if done then pollIntervalMs else catchupDelayMs
    | .error _ => pollIntervalMs

/-- `SettlementService`: its callback looks at no flag, and its first tick waits for a timer. -/
def SettlementService.loop (cfg : SettlementConfig) :
    Poller SettlementCall.Answer SettlementError Unit where
  pass := SettlementService.tick cfg
  guarded := false
  initialDelay := some cfg.pollIntervalMs
  delay _ := cfg.pollIntervalMs

/-! ## The market indexer -/

variable {ext : Externals} {cfg : IndexerConfig} {history : ChainHistory} {opening : Database}

/-- What others may write between two ticks. -/
def OthersWrite (before after : MirrorWorld) : Prop :=
  after.head = before.head ∧ after.db.ledger = before.db.ledger ∧
    after.db.cursor = before.db.cursor

theorem MirrorRun.wait {ticks : List (List MirrorRecord)} {world later : MirrorWorld}
    (run : MirrorRun ext cfg history opening ticks world) (wrote : OthersWrite world later) :
    MirrorRun ext cfg history opening ticks later := by
  obtain ⟨db, head⟩ := later
  obtain ⟨rfl, ledger, cursor⟩ := wrote
  exact .others run ledger cursor

theorem mirrorRun_of_passes {head : Nat} {ended : List (List MirrorRecord)} {world : MirrorWorld}
    (passes : Passes (Maintains ext history cfg.confirmations) OthersWrite (IndexerService.tick cfg)
      ⟨opening, head⟩ ended world) :
    MirrorRun ext cfg history opening ended world := by
  induction passes with
  | here => exact .start head
  | pass _ waited path ih => exact .tick (ih.wait waited) path

/-- **The market indexer polls.** -/
theorem IndexerService.polls (pollIntervalMs head : Nat) :
    (IndexerService.loop cfg pollIntervalMs).Polls (Maintains ext history cfg.confirmations)
      OthersWrite ⟨opening, head⟩ fun records world =>
        ∃ ticks, ticks.flatten = records ∧ MirrorRun ext cfg history opening ticks world := by
  refine Poller.polls (.inl rfl) (fun _ _ => ⟨rfl, rfl, rfl⟩) ?_ ?_
  · exact fun ended world passes => ⟨ended, rfl, mirrorRun_of_passes passes⟩
  · intro ended world begun current remaining later passes waited path
    refine ⟨ended ++ [current], ?_, .tick ((mirrorRun_of_passes passes).wait waited) path⟩
    rw [List.flatten_append, List.flatten_singleton]

/-! ## The pool indexer -/

variable {pool : PoolIndexerConfig} {logs : List RawPoolLog} {start : PoolWorld}

theorem poolRun_of_passes {ended : List (List Nat)} {world : PoolWorld}
    (passes : Passes (ServesPool logs pool.confirmations) Eq (PoolIndexerService.tick pool) start
      ended world) :
    PoolRun pool logs start ended.flatten world := by
  induction passes with
  | here => exact .here
  | pass _ waited path ih =>
      subst waited
      rw [List.flatten_append, List.flatten_singleton]
      exact .tick ih path

/-- **The pool indexer polls.** -/
theorem PoolIndexerService.polls (pollIntervalMs : Nat) :
    (PoolIndexerService.loop pool pollIntervalMs).Polls (ServesPool logs pool.confirmations) Eq
      start (PoolRun pool logs start) := by
  refine Poller.polls (.inl rfl) (fun _ _ => rfl) ?_ ?_
  · exact fun ended world passes => poolRun_of_passes passes
  · rintro ended world begun current remaining later passes rfl path
    exact .tick (poolRun_of_passes passes) path

/-! ## The settlement keeper -/

namespace SettlementService

variable {settlement : SettlementConfig} {initial : SettlementWorld}

/-- While its timer is waited for, time passes and the indexer writes. -/
def TimerWaits (cfg : SettlementConfig) (before after : SettlementWorld) : Prop :=
  settlementEnvironment (.setTimeout cfg.pollIntervalMs) before (.ok ()) [] after

/-- A bad pass never ends the loop. -/
theorem tick_returns {world later : SettlementWorld} {records : List SettlementEvent}
    {outcome : Except SettlementError Unit}
    (path : Reaches settlementEnvironment (tick settlement) world records (.done outcome) later) :
    outcome = .ok () := by
  have ends : Ends settlementEnvironment (fun outcome _ => outcome = .ok ()) (tick settlement)
      world := by
    refine .tryCatch (.of_forall fun caught final => ?_)
    cases caught with
    | ok done => rfl
    | error thrown => rfl
  exact ends.outcome path

/-- After some ticks, the loop goes on with the others. -/
theorem schedule_of_passes {ended : List (List SettlementEvent)} {world : SettlementWorld}
    (passes : Passes settlementEnvironment (TimerWaits settlement) (tick settlement) initial ended
      world) (more : Nat) :
    Reaches settlementEnvironment (schedule settlement (ended.length + more)) initial
      ended.flatten (schedule settlement more) world := by
  induction passes generalizing more with
  | here =>
      rw [List.length_nil, Nat.zero_add]
      exact .refl _ _
  | @pass ended world begun records outcome later earlier waited path ih =>
      obtain rfl := tick_returns path
      have count : (ended ++ [records]).length + more = ended.length + (more + 1) := by
        rw [List.length_append, List.length_singleton]
        omega
      have ticked : Reaches settlementEnvironment (schedule settlement (more + 1)) world
          ([] ++ records) (schedule settlement more) later :=
        .step waited (path.bind_left fun _ => schedule settlement more)
      rw [count, List.flatten_append, List.flatten_singleton]
      exact (ih (more + 1)).trans ticked

/-- **The settlement keeper polls.** -/
theorem polls :
    (loop settlement).Polls settlementEnvironment (TimerWaits settlement) initial
      fun records world => settlement.enabled = true → ∃ ticks standing,
        Reaches settlementEnvironment (onModuleInit settlement ticks) initial records standing
          world := by
  refine Poller.polls (.inr rfl) nofun ?_ ?_
  · intro ended world passes enabled
    refine ⟨ended.length, schedule settlement 0, ?_⟩
    rw [onModuleInit, if_pos enabled]
    exact schedule_of_passes passes 0
  · intro ended world begun current remaining later passes waited path enabled
    refine ⟨ended.length + 1, remaining >>= fun _ => schedule settlement 0, ?_⟩
    rw [onModuleInit, if_pos enabled]
    exact (schedule_of_passes passes 1).trans
      (.step waited (path.bind_left fun _ => schedule settlement 0))

end SettlementService

/-! ## All of them -/

/-- **The services poll.** Each of the three loops, in every run with failing ticks and a
shutdown at any time: no two ticks are ever under way and no timer is armed beside one; the
loop never dies before the shutdown; what it does, ticks do that follow one another; and
after the shutdown no tick begins. -/
theorem services_poll (ext : Externals) (cfg : IndexerConfig) (history : ChainHistory)
    (opening : Database) (pool : PoolIndexerConfig) (logs : List RawPoolLog)
    (settlement : SettlementConfig) (initial : SettlementWorld) (pollIntervalMs head : Nat) :
    ((IndexerService.loop cfg pollIntervalMs).Polls (Maintains ext history cfg.confirmations)
        OthersWrite ⟨opening, head⟩ fun records world =>
          ∃ ticks, ticks.flatten = records ∧ MirrorRun ext cfg history opening ticks world) ∧
      ((PoolIndexerService.loop pool pollIntervalMs).Polls (ServesPool logs pool.confirmations) Eq
        .initial (PoolRun pool logs .initial)) ∧
      (SettlementService.loop settlement).Polls settlementEnvironment
        (SettlementService.TimerWaits settlement) initial fun records world =>
          settlement.enabled = true → ∃ ticks standing,
            Reaches settlementEnvironment (SettlementService.onModuleInit settlement ticks) initial
              records standing world :=
  ⟨IndexerService.polls pollIntervalMs head, PoolIndexerService.polls pollIntervalMs,
    SettlementService.polls⟩

end Numera
