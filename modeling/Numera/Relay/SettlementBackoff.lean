import Numera.Relay.Settlement

/-! # The backoff of the settlement keeper

The failures of a proposal are counted in memory, and the count is cleared when a
transaction has been sent, before its receipt is known. A receipt that is reverted
therefore counts as the first failure whatever came before it (`tally`), and the delay
does not escalate (`backoff_resets`). On a proposal none of whose receipts is reverted
for an attempt that directly follows a failed one, it does (`backoff_escalates`). That
attempts on a proposal start a minute apart holds in every run.

The history of a proposal lists its attempts, the newest first. The proof carries on from
one attempt to the next that the count in memory is at least the tally, and that the
earliest next attempt is as late as the last failure requires (`Resting`).
-/

namespace Numera

open Async (Always Environment Reaches)

/-! ## Histories -/

/-- An attempt: when it started, and when and how it failed, if it did. -/
structure Attempt where
  start : Nat
  failure : Option (Nat × AttemptFailure) := none
  deriving DecidableEq

namespace Attempt

def failed (attempt : Attempt) : Bool := attempt.failure.isSome

end Attempt

/-- The attempts on each proposal, the newest first. -/
abbrev Histories : Type := MarketKey → List Attempt

namespace Histories

def set (histories : Histories) (key : MarketKey) (history : List Attempt) : Histories :=
  fun other => if other = key then history else histories other

@[simp] theorem set_self (histories : Histories) (key : MarketKey) (history : List Attempt) :
    histories.set key history key = history := if_pos rfl

theorem set_of_ne (histories : Histories) {key other : MarketKey} (history : List Attempt)
    (apart : other ≠ key) : histories.set key history other = histories other := if_neg apart

/-- The histories after an event. -/
def record (histories : Histories) : SettlementEvent → Histories
  | .started key time => histories.set key (⟨time, none⟩ :: histories key)
  | .failed key time failure =>
      match histories key with
      | [] => histories
      | last :: earlier => histories.set key ({ last with failure := some (time, failure) } :: earlier)
  | .queried _ => histories
  | .read _ => histories

end Histories

/-- The number of failures in a row up to the newest attempt. -/
def streak : List Attempt → Nat
  | [] => 0
  | last :: earlier => if last.failed then streak earlier + 1 else 0

/-- The number of failures in a row as the service counts them: a transaction that was sent
clears the count, also when it is reverted. -/
def tally : List Attempt → Nat
  | [] => 0
  | last :: earlier =>
      match last.failure with
      | none => 0
      | some (_, .rejected) => tally earlier + 1
      | some (_, .reverted) => 1

/-- A start respects the attempts before it: a minute after the last start, and as long after the
last failure as the service has counted. -/
def Timely (start : Nat) : List Attempt → Prop
  | [] => True
  | last :: earlier =>
      last.start + SettlementService.settleCooldownMs ≤ start ∧
        ∀ time cause, last.failure = some (time, cause) →
          time + SettlementService.backoffMs (tally (last :: earlier)) ≤ start

/-- Every attempt of a history starts in time. -/
def AllTimely : List Attempt → Prop
  | [] => True
  | attempt :: earlier => Timely attempt.start earlier ∧ AllTimely earlier

/-- No receipt is reverted for an attempt that directly follows a failed one. -/
def Calm (history : List Attempt) : Prop :=
  ∀ later last previous earlier time, history = later ++ last :: previous :: earlier →
    last.failure = some (time, .reverted) → previous.failed = false

/-- **Backoff escalates**: after any number of failures in a row, the next attempt starts no
earlier than the delay of that number after the last of them. -/
def Escalates (history : List Attempt) : Prop :=
  ∀ later next last failures earlier time cause,
    history = later ++ next :: (last :: failures ++ earlier) →
    last.failure = some (time, cause) → (∀ attempt ∈ failures, attempt.failed) →
      time + SettlementService.backoffMs (failures.length + 1) ≤ next.start

/-- Any two attempts start a minute apart. -/
def Spaced (history : List Attempt) : Prop :=
  history.Pairwise fun later earlier =>
    earlier.start + SettlementService.settleCooldownMs ≤ later.start

namespace SettlementService

theorem backoffMs_mono {fewer failures : Nat} (le : fewer ≤ failures) :
    backoffMs fewer ≤ backoffMs failures := by
  unfold backoffMs
  have power : 2 ^ (fewer - 1) ≤ 2 ^ (failures - 1) := Nat.pow_le_pow_right (by decide) (by omega)
  have product := Nat.mul_le_mul_left baseBackoffMs power
  omega

/-- No delay is shorter than the cooldown of an attempt. -/
theorem settleCooldownMs_le (failures : Nat) : settleCooldownMs ≤ backoffMs failures :=
  backoffMs_mono (Nat.zero_le failures)

end SettlementService

/-- Failures in a row make a streak. -/
theorem le_streak {last : Attempt} {failures earlier : List Attempt} (isFailed : last.failed)
    (all : ∀ attempt ∈ failures, attempt.failed) :
    failures.length + 1 ≤ streak (last :: (failures ++ earlier)) := by
  induction failures generalizing last with
  | nil => simp [streak, isFailed]
  | cons next failures ih =>
      have more := ih (all next List.mem_cons_self) fun attempt member =>
        all attempt (List.mem_cons_of_mem next member)
      rw [streak, if_pos isFailed, List.length_cons]
      exact Nat.succ_le_succ more

theorem Calm.tail (later : List Attempt) {history : List Attempt}
    (calm : Calm (later ++ history)) : Calm history := by
  rintro before last previous earlier time rfl reverted
  exact calm (later ++ before) last previous earlier time (List.append_assoc _ _ _).symm reverted

/-- The service counts every failure of a calm history. -/
theorem Calm.streak_le {history : List Attempt} (calm : Calm history) :
    streak history ≤ tally history := by
  induction history with
  | nil => exact Nat.le_refl 0
  | cons last earlier ih =>
      have counted := ih (Calm.tail [last] calm)
      unfold streak tally Attempt.failed
      cases failure : last.failure with
      | none => exact Nat.le_refl 0
      | some failed =>
          obtain ⟨time, cause⟩ := failed
          cases cause with
          | rejected => exact Nat.succ_le_succ counted
          | reverted =>
              cases earlier with
              | nil => exact Nat.le_refl 1
              | cons previous before =>
                  have unfailed := calm [] last previous before time rfl failure
                  simp [streak, unfailed]

theorem AllTimely.tail {later : List Attempt} {history : List Attempt}
    (timely : AllTimely (later ++ history)) : AllTimely history := by
  induction later with
  | nil => exact timely
  | cons attempt later ih => exact ih timely.2

theorem escalates_of_timely {history : List Attempt} (timely : AllTimely history)
    (calm : Calm history) : Escalates history := by
  rintro later next last failures earlier time cause rfl ended all
  have isFailed : last.failed := by rw [Attempt.failed, ended]; rfl
  have counted : failures.length + 1 ≤ tally (last :: failures ++ earlier) :=
    Nat.le_trans (le_streak isFailed all)
      (Calm.streak_le (Calm.tail (later ++ [next]) (by simpa using calm)))
  calc time + SettlementService.backoffMs (failures.length + 1)
      ≤ time + SettlementService.backoffMs (tally (last :: failures ++ earlier)) :=
        Nat.add_le_add_left (SettlementService.backoffMs_mono counted) time
    _ ≤ next.start := timely.tail.1.2 time cause ended

theorem spaced_of_timely {history : List Attempt} (timely : AllTimely history) : Spaced history := by
  induction history with
  | nil => exact .nil
  | cons attempt earlier ih =>
      have spaced := ih timely.2
      refine .cons ?_ spaced
      cases earlier with
      | nil => exact fun _ member => absurd member List.not_mem_nil
      | cons last before =>
          intro other member
          rcases List.mem_cons.mp member with rfl | older
          · exact timely.1.1
          · have between := List.rel_of_pairwise_cons spaced older
            have recent := timely.1.1
            omega

/-! ## What the service keeps of an attempt -/

/-- The environment of the keeper, with the histories so far. -/
abbrev remembering : Environment SettlementCall.Answer SettlementError
    (SettlementWorld × Histories) SettlementEvent :=
  settlementEnvironment.summarised Histories.record

/-- A proposal between two attempts, or while one is under way that has not failed: the count in
memory is at least the tally, and the next attempt is as late as the last one requires. -/
structure Resting (state : SettlementWorld × Histories) (key : MarketKey) : Prop where
  timely : AllTimely (state.2 key)
  tallied : tally (state.2 key) ≤ (state.1.attempts key).getD 0
  cooled : ∀ last earlier, state.2 key = last :: earlier →
    ∃ next, state.1.nextAttempt key = some next ∧
      last.start + SettlementService.settleCooldownMs ≤ next ∧
      ∀ time cause, last.failure = some (time, cause) →
        time + SettlementService.backoffMs (tally (state.2 key)) ≤ next

/-- What is kept of a proposal depends on its entries alone. -/
theorem Resting.of_same {state later : SettlementWorld × Histories} {key : MarketKey}
    (resting : Resting state key) (history : later.2 key = state.2 key)
    (attempts : later.1.attempts key = state.1.attempts key)
    (nextAttempt : later.1.nextAttempt key = state.1.nextAttempt key) : Resting later key where
  timely := by rw [history]; exact resting.timely
  tallied := by rw [history, attempts]; exact resting.tallied
  cooled := by rw [history, nextAttempt]; exact resting.cooled

/-- A proposal whose attempt has just failed. -/
structure JustFailed (state : SettlementWorld × Histories) (key : MarketKey) : Prop where
  timely : AllTimely (state.2 key)
  tallied : tally (state.2 key) ≤ (state.1.attempts key).getD 0 + 1
  passed : ∀ last earlier, state.2 key = last :: earlier → last.start ≤ state.1.now ∧
    ∀ time cause, last.failure = some (time, cause) → time ≤ state.1.now

/-- An attempt that was under way fails. -/
theorem JustFailed.of_booked {world : SettlementWorld} {histories : Histories} {key : MarketKey}
    {start time : Nat} {cause : AttemptFailure} {old : List Attempt}
    (booked : histories key = ⟨start, none⟩ :: old) (timely : AllTimely (histories key))
    (counted : tally (⟨start, some (time, cause)⟩ :: old) ≤ (world.attempts key).getD 0 + 1)
    (started : start ≤ world.now) (ended : time ≤ world.now) :
    JustFailed (world, histories.set key (⟨start, some (time, cause)⟩ :: old)) key where
  timely := by
    rw [booked] at timely
    dsimp only
    rw [Histories.set_self]
    exact timely
  tallied := by
    dsimp only
    rw [Histories.set_self]
    exact counted
  passed last earlier newest := by
    dsimp only at newest
    rw [Histories.set_self] at newest
    obtain ⟨rfl, rfl⟩ := List.cons.inj newest
    refine ⟨started, fun moment other same => ?_⟩
    obtain ⟨rfl, rfl⟩ := Prod.mk.inj (Option.some.inj same)
    exact ended

/-- Between the attempts of a pass that read the clock. -/
structure Passing (now : Nat) (state : SettlementWorld × Histories) : Prop where
  clock : now ≤ state.1.now
  resting : ∀ key, Resting state key

/-- Time passes, and the tables that the proof says nothing about change. -/
theorem Passing.wait {now moment : Nat} {world later : SettlementWorld} {histories : Histories}
    (passing : Passing now (world, histories)) (clock : moment ≤ later.now)
    (attempts : later.attempts = world.attempts)
    (nextAttempt : later.nextAttempt = world.nextAttempt) :
    Passing moment (later, histories) :=
  ⟨clock, fun key => (passing.resting key).of_same rfl (congrFun attempts key)
    (congrFun nextAttempt key)⟩

/-- An attempt is booked. -/
theorem Passing.book {now start : Nat} {key : MarketKey} {world : SettlementWorld}
    {histories : Histories} (passing : Passing now (world, histories))
    (timely : Timely start (histories key)) (clock : now ≤ start) :
    Passing now (({ world with now := start } : SettlementWorld).setNextAttempt key
      (start + SettlementService.settleCooldownMs),
        histories.set key (⟨start, none⟩ :: histories key)) := by
  refine ⟨clock, fun other => ?_⟩
  by_cases same : other = key
  · subst same
    refine ⟨?_, ?_, fun last earlier newest => ?_⟩
    · dsimp only
      rw [Histories.set_self]
      exact ⟨timely, (passing.resting other).timely⟩
    · dsimp only
      rw [Histories.set_self]
      exact Nat.zero_le _
    · dsimp only at newest
      rw [Histories.set_self] at newest
      obtain ⟨rfl, rfl⟩ := List.cons.inj newest
      exact ⟨_, if_pos rfl, Nat.le_refl _, fun _ _ ended => by cases ended⟩
  · exact (passing.resting other).of_same (Histories.set_of_ne _ _ same) rfl (if_neg same)

/-- An attempt is under way. -/
structure Booked (now : Nat) (key : MarketKey) (start : Nat) (old : List Attempt)
    (world : SettlementWorld) (histories : Histories) : Prop where
  passing : Passing now (world, histories)
  newest : histories key = ⟨start, none⟩ :: old
  started : start ≤ world.now

/-- Every attempt so far has started in time. -/
def InTime (state : SettlementWorld × Histories) : Prop := ∀ key, AllTimely (state.2 key)

theorem Passing.inTime {now : Nat} {state : SettlementWorld × Histories}
    (passing : Passing now state) : InTime state := fun key => (passing.resting key).timely

/-- One call of the keeper and the histories after it. -/
theorem remembering_step {call : SettlementCall} {world : SettlementWorld} {histories : Histories}
    {later : SettlementWorld × Histories} {answer : Except SettlementError call.Answer}
    {record : List SettlementEvent}
    (answered : remembering call (world, histories) answer record later) :
    ∃ now after, world.now ≤ now ∧ call.Performs { world with now } answer record after ∧
      later = (after, record.foldl Histories.record histories) := by
  obtain ⟨⟨now, passed, done⟩, same⟩ := answered
  exact ⟨now, later.1, passed, done, Prod.ext rfl same⟩

namespace SettlementService

/-- Counting a failure and postponing the next attempt puts a proposal to rest. -/
theorem backOff_always {now : Nat} {key : MarketKey} {world : SettlementWorld}
    {histories : Histories} (clock : now ≤ world.now)
    (others : ∀ other, other ≠ key → Resting (world, histories) other)
    (failing : JustFailed (world, histories) key) :
    Always remembering InTime (fun outcome final => outcome = .ok () ∧ Passing now final)
      (backOff key) (world, histories) := by
  have inTime : ∀ world, InTime (world, histories) := by
    intro world other
    by_cases same : other = key
    · rw [same]
      exact failing.timely
    · exact (others other same).timely
  refine ⟨inTime _, fun answer record _ answered => ?_⟩
  obtain ⟨moment, _, passed, ⟨rfl, rfl, rfl⟩, rfl⟩ := remembering_step answered
  refine ⟨inTime _, fun answer record _ answered => ?_⟩
  obtain ⟨second, _, passedMore, ⟨rfl, rfl, rfl⟩, rfl⟩ := remembering_step answered
  refine ⟨inTime _, fun answer record _ answered => ?_⟩
  obtain ⟨third, _, passedLast, ⟨rfl, rfl, rfl⟩, rfl⟩ := remembering_step answered
  have later : world.now ≤ third := passed.trans (passedMore.trans passedLast)
  refine ⟨inTime _, rfl, clock.trans later, fun other => ?_⟩
  by_cases same : other = key
  · subst same
    refine ⟨failing.timely, ?_, fun last earlier newest => ?_⟩
    · simpa [SettlementWorld.setNextAttempt, SettlementWorld.setAttempts] using failing.tallied
    · obtain ⟨startPassed, failurePassed⟩ := failing.passed last earlier newest
      refine ⟨_, if_pos rfl, ?_, fun time cause ended => ?_⟩
      · exact Nat.add_le_add (startPassed.trans later) (settleCooldownMs_le _)
      · exact Nat.add_le_add ((failurePassed time cause ended).trans later)
          (backoffMs_mono failing.tallied)
  · exact (others other same).of_same rfl (if_neg same) (if_neg same)

/-- An attempt under way fails and the service backs off. -/
theorem fail_always {now start moment : Nat} {key : MarketKey} {old : List Attempt}
    {world : SettlementWorld} {histories : Histories} (cause : AttemptFailure)
    (booked : Booked now key start old world histories) (passed : world.now ≤ moment)
    (counted : tally (⟨start, some (moment, cause)⟩ :: old) ≤ (world.attempts key).getD 0 + 1) :
    Always remembering InTime (fun outcome final => outcome = .ok () ∧ Passing now final)
      (backOff key)
      ({ world with now := moment }, Histories.record histories (.failed key moment cause)) := by
  have failed : Histories.record histories (.failed key moment cause) =
      histories.set key (⟨start, some (moment, cause)⟩ :: old) := by
    rw [Histories.record, booked.newest]
  rw [failed]
  refine backOff_always (booked.passing.clock.trans passed) (fun other apart => ?_) ?_
  · exact (booked.passing.resting other).of_same (Histories.set_of_ne _ _ apart) rfl rfl
  · exact .of_booked booked.newest (booked.passing.resting key).timely counted
      (booked.started.trans passed) (Nat.le_refl _)

/-- What follows a send that has succeeded. -/
theorem awaitReceipt_always {now hash start : Nat} {key : MarketKey} {old : List Attempt}
    {world : SettlementWorld} {histories : Histories}
    (booked : Booked now key start old world histories) (sent : world.sent hash = some key) :
    Always remembering InTime (fun outcome final => outcome = .ok () ∧ Passing now final)
      (awaitReceipt key (some hash)) (world, histories) := by
  refine ⟨booked.passing.inTime, fun answer record _ answered => ?_⟩
  obtain ⟨moment, _, passed, ⟨rfl, rfl, rfl⟩, rfl⟩ := remembering_step answered
  -- the count is cleared, and the tally of an attempt that has not failed is zero
  have cleared : Booked now key start old
      (({ world with now := moment } : SettlementWorld).setAttempts key none) histories := by
    refine ⟨⟨booked.passing.clock.trans passed, fun other => ?_⟩, booked.newest,
      booked.started.trans passed⟩
    by_cases same : other = key
    · subst same
      have own := booked.passing.resting other
      refine ⟨own.timely, ?_, own.cooled⟩
      dsimp only
      rw [booked.newest]
      exact Nat.zero_le _
    · exact (booked.passing.resting other).of_same rfl (if_neg same) rfl
  refine ⟨cleared.passing.inTime, fun answer record _ answered => ?_⟩
  obtain ⟨second, _, passedMore, ⟨rfl, receipt, rfl, rfl⟩, rfl⟩ := remembering_step answered
  change Always remembering InTime _ (ite (receipt = some .reverted) _ _) _
  by_cases reverted : receipt = some .reverted
  · have known : (({ world with now := moment } : SettlementWorld).setAttempts key none).sent hash =
        some key := sent
    simp only [if_pos reverted, known, Option.toList_some, List.map_cons, List.map_nil,
      List.foldl_cons, List.foldl_nil]
    exact fail_always .reverted cleared passedMore (Nat.le_add_left 1 _)
  · rw [if_neg reverted, if_neg reverted]
    have rest : Passing now ({ (({ world with now := moment } : SettlementWorld).setAttempts key
        none) with now := second }, histories) :=
      cleared.passing.wait (cleared.passing.clock.trans passedMore) rfl rfl
    exact ⟨rest.inTime, rfl, rest⟩

/-- What follows the booking of an attempt. -/
theorem send_always {now start : Nat} {key : MarketKey} {old : List Attempt}
    {world : SettlementWorld} {histories : Histories} (resolver : JsString)
    (booked : Booked now key start old world histories)
    (counted : tally old ≤ (world.attempts key).getD 0) :
    Always remembering InTime (fun outcome final => outcome = .ok () ∧ Passing now final)
      (do
        let sent ← tryCatch (do
            let hash ← (SettlementCall.sendFromRelayer resolver key).request
            return some hash) fun _ => do
          backOff key
          return none
        awaitReceipt key sent) (world, histories) := by
  refine .bind (.tryCatch ⟨booked.passing.inTime, fun answer record _ answered => ?_⟩)
  obtain ⟨ended, _, passed, ⟨rfl, rfl, rfl⟩ | ⟨hash, rfl, rfl, rfl⟩, rfl⟩ :=
    remembering_step answered
  · have failed := fail_always .rejected booked passed (Nat.succ_le_succ counted)
    refine ⟨failed.now, .bind (failed.mono ?_)⟩
    rintro outcome final inTime ⟨rfl, rest⟩
    exact ⟨inTime, ⟨inTime, rfl, rest⟩⟩
  · have sent : Booked now key start old
        (({ world with now := ended } : SettlementWorld).setSent hash key) histories :=
      ⟨booked.passing.wait (booked.passing.clock.trans passed) rfl rfl, booked.newest,
        booked.started.trans passed⟩
    exact ⟨sent.passing.inTime, awaitReceipt_always sent (if_pos rfl)⟩

/-- One attempt, on a proposal that is not in backoff. -/
theorem finalize_always {now : Nat} {key : MarketKey} {world : SettlementWorld}
    {histories : Histories} (resolver : JsString) (passing : Passing now (world, histories))
    (ready : (world.nextAttempt key).getD 0 ≤ now) :
    Always remembering InTime (fun outcome final => outcome = .ok () ∧ Passing now final)
      (finalize resolver key) (world, histories) := by
  refine ⟨passing.inTime, fun answer record _ answered => ?_⟩
  obtain ⟨start, _, passed, ⟨rfl, rfl, rfl⟩, rfl⟩ := remembering_step answered
  have own := passing.resting key
  have clock : now ≤ start := passing.clock.trans passed
  -- the attempt starts after the moment that the last one postponed it to
  have timely : Timely start (histories key) := by
    cases history : histories key with
    | nil => trivial
    | cons last earlier =>
        obtain ⟨next, booked, spaced, delayed⟩ := own.cooled last earlier history
        dsimp only at booked delayed
        rw [booked, Option.getD_some] at ready
        refine ⟨by omega, fun time cause ended => ?_⟩
        have enough := delayed time cause ended
        rw [history] at enough
        omega
  exact send_always resolver
    ⟨passing.book timely clock, Histories.set_self _ _ _, Nat.le_refl _⟩ own.tallied

/-- One row of a pass. -/
theorem settleRow_always {now : Nat} {world : SettlementWorld} {histories : Histories}
    (resolver : JsString) (key : MarketKey) (passing : Passing now (world, histories)) :
    Always remembering InTime (fun _ final => Passing now final) (settleRow resolver now key)
      (world, histories) := by
  refine ⟨passing.inTime, fun answer record _ answered => ?_⟩
  obtain ⟨moment, _, passed, ⟨rfl, rfl, rfl⟩, rfl⟩ := remembering_step answered
  have read : Passing now ({ world with now := moment }, histories) :=
    passing.wait (passing.clock.trans passed) rfl rfl
  change Always remembering InTime _ (ite ((world.nextAttempt key).getD 0 > now) _ _) _
  by_cases inBackoff : (world.nextAttempt key).getD 0 > now
  · rw [if_pos inBackoff]
    exact ⟨read.inTime, read⟩
  · rw [if_neg inBackoff]
    exact (finalize_always resolver read (Nat.not_lt.mp inBackoff)).mono fun _ _ _ rest => rest.2

/-- One pass leaves every proposal at rest. -/
theorem settleDue_always (cfg : SettlementConfig) {world : SettlementWorld} {histories : Histories}
    (passing : Passing 0 (world, histories)) :
    Always remembering InTime (fun _ final => Passing 0 final) (settleDue cfg)
      (world, histories) := by
  unfold settleDue
  cases cfg.optimisticResolver with
  | none => exact ⟨passing.inTime, passing⟩
  | some resolver =>
      refine ⟨passing.inTime, fun answer record _ answered => ?_⟩
      obtain ⟨asked, _, passed, ⟨found, rfl⟩, rfl⟩ := remembering_step answered
      have queried : Passing 0 ({ world with now := asked }, histories) :=
        passing.wait (Nat.zero_le _) rfl rfl
      rcases found with ⟨rfl, rfl⟩ | ⟨batch, -, rfl, rfl⟩
      · exact ⟨queried.inTime, queried⟩
      · refine ⟨queried.inTime, fun answer record _ answered => ?_⟩
        obtain ⟨now, _, passedMore, ⟨rfl, rfl, rfl⟩, rfl⟩ := remembering_step answered
        have read : Passing now ({ world with now }, histories) :=
          passing.wait (Nat.le_refl _) rfl rfl
        have rows : Always remembering InTime (fun _ after => Passing now after)
            (Async.forEach batch (settleRow resolver now)) ({ world with now }, histories) :=
          .forEach (fun _ => Passing.inTime)
            (fun key _ before rest => settleRow_always resolver key rest) read
        exact rows.mono fun _ _ _ rest => rest.wait (Nat.zero_le _) rfl rfl

theorem tick_always (cfg : SettlementConfig) {world : SettlementWorld} {histories : Histories}
    (passing : Passing 0 (world, histories)) :
    Always remembering InTime (fun _ final => Passing 0 final) (tick cfg) (world, histories) := by
  refine .tryCatch ⟨passing.inTime, fun answer record _ answered => ?_⟩
  obtain ⟨moment, _, passed, ⟨⟨enabled, rfl⟩, rfl, rfl⟩, rfl⟩ := remembering_step answered
  have read : Passing 0 ({ world with now := moment }, histories) :=
    passing.wait (Nat.zero_le _) rfl rfl
  change Always remembering InTime _ (ite (enabled = true) _ _) _
  split
  · refine (settleDue_always cfg read).mono fun outcome final inTime rest => ?_
    cases outcome with
    | ok done => exact rest
    | error thrown => exact ⟨inTime, rest⟩
  · exact ⟨read.inTime, read⟩

/-- The loop keeps every attempt in time. -/
theorem schedule_always (cfg : SettlementConfig) (ticks : Nat) {world : SettlementWorld}
    {histories : Histories} (passing : Passing 0 (world, histories)) :
    Always remembering InTime (fun _ final => Passing 0 final) (schedule cfg ticks)
      (world, histories) := by
  induction ticks generalizing world histories with
  | zero => exact ⟨passing.inTime, passing⟩
  | succ ticks ih =>
      refine ⟨passing.inTime, fun answer record _ answered => ?_⟩
      obtain ⟨moment, _, passed, ⟨rfl, rfl, resolutions, rfl⟩, rfl⟩ := remembering_step answered
      have waited : Passing 0 ({ world with now := moment, resolutions }, histories) :=
        passing.wait (Nat.zero_le _) rfl rfl
      change Always remembering InTime _ (tick cfg >>= fun _ => schedule cfg ticks) _
      refine .bind ((tick_always cfg waited).mono fun outcome final inTime rest => ?_)
      cases outcome with
      | ok done => exact ih rest
      | error thrown => exact rest

end SettlementService

/-! ## Runs -/

/-- The attempts that have been recorded. -/
def historiesOf (records : List SettlementEvent) : Histories :=
  records.foldl Histories.record fun _ => []

/-- Every attempt of a run starts in time, by the service's own count. -/
theorem timely_of_run (cfg : SettlementConfig) (ticks now : Nat)
    (resolutions : Table MarketKey ResolutionProposal) {records : List SettlementEvent}
    {remaining : Settlement Unit} {final : SettlementWorld}
    (run : Reaches settlementEnvironment (SettlementService.onModuleInit cfg ticks)
      { now, resolutions } records remaining final) (key : MarketKey) :
    AllTimely (historiesOf records key) := by
  have fresh : Passing 0 (({ now, resolutions } : SettlementWorld), fun _ => []) :=
    ⟨Nat.zero_le _, fun key => ⟨trivial, Nat.le_refl _, fun _ _ newest => by cases newest⟩⟩
  have always : Always remembering InTime (fun _ final => Passing 0 final)
      (SettlementService.onModuleInit cfg ticks) ({ now, resolutions }, fun _ => []) := by
    unfold SettlementService.onModuleInit
    split
    · exact SettlementService.schedule_always cfg ticks fresh
    · exact ⟨fresh.inTime, fresh⟩
  exact always.reached (run.summarised Histories.record fun _ => []) key

/-- **Backoff escalates, and attempts are a minute apart**, on every proposal none of whose
receipts is reverted for an attempt that directly follows a failed one. The attempts are a minute
apart in any case. -/
theorem backoff_escalates (cfg : SettlementConfig) (ticks now : Nat)
    (resolutions : Table MarketKey ResolutionProposal) {records : List SettlementEvent}
    {remaining : Settlement Unit} {final : SettlementWorld}
    (run : Reaches settlementEnvironment (SettlementService.onModuleInit cfg ticks)
      { now, resolutions } records remaining final) (key : MarketKey) :
    Spaced (historiesOf records key) ∧
      (Calm (historiesOf records key) → Escalates (historiesOf records key)) :=
  have timely := timely_of_run cfg ticks now resolutions run key
  ⟨spaced_of_timely timely, escalates_of_timely timely⟩

/-! ## A proposal whose transactions are reverted -/

/-- One proposal, which is due. -/
def oneProposal : Table MarketKey ResolutionProposal :=
  Table.empty.insertNew ⟨[1], 0⟩ (proposalUntil 0)

/-- What the keeper records against a relay in some number of calls. -/
def keeperRecords (relay : SettlementRelay) (ticks calls : Nat) : List SettlementEvent :=
  Async.recorded relay.respond relay.record calls
    (SettlementService.onModuleInit settlementConfig ticks) { now := 0, resolutions := oneProposal }

theorem keeperRecords_run (relay : SettlementRelay) (ticks calls : Nat) :
    ∃ remaining final, Reaches settlementEnvironment
      (SettlementService.onModuleInit settlementConfig ticks) { now := 0, resolutions := oneProposal }
      (keeperRecords relay ticks calls) remaining final :=
  ⟨_, _, Async.reaches_recorded _ relay.respond_answers calls _ _⟩

/-- A relay whose sends succeed, and whose transactions are reverted. -/
def revertingRelay : SettlementRelay where
  sends := true
  receipt := some .reverted

/-- A relay whose sends are rejected. -/
def rejectingRelay : SettlementRelay where
  sends := false
  receipt := none

/-- **Two reverted transactions in a row are followed by another attempt after one minute**, where
the backoff of two failures is two minutes. -/
theorem backoff_resets :
    ¬ ∀ cfg ticks now resolutions records remaining final,
      Reaches settlementEnvironment (SettlementService.onModuleInit cfg ticks)
        { now, resolutions } records remaining final →
          ∀ key, Escalates (historiesOf records key) := by
  intro escalates
  have recorded : historiesOf (keeperRecords revertingRelay 3 100) ⟨[1], 0⟩ =
      [⟨180000, some (180000, .reverted)⟩, ⟨120000, some (120000, .reverted)⟩,
        ⟨60000, some (60000, .reverted)⟩] := by decide +kernel
  obtain ⟨remaining, final, run⟩ := keeperRecords_run revertingRelay 3 100
  have early := escalates _ _ _ _ _ _ _ run ⟨[1], 0⟩ [] ⟨180000, some (180000, .reverted)⟩
    ⟨120000, some (120000, .reverted)⟩ [⟨60000, some (60000, .reverted)⟩] [] 120000 .reverted
    recorded rfl (by decide)
  exact absurd early (by decide)

/-- After two rejections in a row, the next attempt comes two minutes later. -/
theorem backoff_escalates_twice :
    ∃ records remaining final, Reaches settlementEnvironment
      (SettlementService.onModuleInit settlementConfig 4) { now := 0, resolutions := oneProposal }
        records remaining final ∧
      historiesOf records ⟨[1], 0⟩ = [⟨240000, some (240000, .rejected)⟩,
        ⟨120000, some (120000, .rejected)⟩, ⟨60000, some (60000, .rejected)⟩] ∧
      Spaced (historiesOf records ⟨[1], 0⟩) ∧ Escalates (historiesOf records ⟨[1], 0⟩) := by
  have recorded : historiesOf (keeperRecords rejectingRelay 4 100) ⟨[1], 0⟩ =
      [⟨240000, some (240000, .rejected)⟩, ⟨120000, some (120000, .rejected)⟩,
        ⟨60000, some (60000, .rejected)⟩] := by decide +kernel
  obtain ⟨remaining, final, run⟩ := keeperRecords_run rejectingRelay 4 100
  obtain ⟨spaced, escalates⟩ := backoff_escalates settlementConfig 4 0 oneProposal run ⟨[1], 0⟩
  refine ⟨_, remaining, final, run, recorded, spaced, escalates ?_⟩
  intro later last previous earlier time same reverted
  have member : last ∈ historiesOf (keeperRecords rejectingRelay 4 100) ⟨[1], 0⟩ := by
    rw [same]
    simp
  rw [recorded] at member
  simp only [List.mem_cons, List.not_mem_nil, or_false] at member
  rcases member with rfl | rfl | rfl <;> cases reverted

end Numera
