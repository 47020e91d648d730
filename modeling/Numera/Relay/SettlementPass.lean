import Numera.Relay.Settlement

/-! # One pass of the settlement keeper

The database cuts the batch to the ten oldest proposals before the service skips those in
backoff. When all ten are in backoff, a pass attempts nothing, however many proposals
behind them are ready (`settleDue_starves`). A pass attempts something exactly when one
of the ten is not in backoff (`settleDue_attempts_iff`).
-/

namespace Numera

open Async (CallsOnly Ends Environment Reaches)

/-! ## What a pass has recorded -/

/-- The environment of the keeper, with all that has been recorded so far. -/
abbrev journaled : Environment SettlementCall.Answer SettlementError
    (SettlementWorld × List SettlementEvent) SettlementEvent :=
  settlementEnvironment.summarised fun events event => events ++ [event]

theorem foldl_snoc {α : Type} (events record : List α) :
    record.foldl (fun events event => events ++ [event]) events = events ++ record := by
  induction record generalizing events with
  | nil => exact (List.append_nil events).symm
  | cons event record ih =>
      rw [List.foldl_cons, ih, List.append_assoc, List.singleton_append]

/-- One call of the keeper and what it adds to the record. -/
theorem journaled_step {call : SettlementCall} {before later : SettlementWorld × List SettlementEvent}
    {answer : Except SettlementError call.Answer} {record : List SettlementEvent}
    (answered : journaled call before answer record later) :
    ∃ now, before.1.now ≤ now ∧ call.Performs { before.1 with now } answer record later.1 ∧
      later.2 = before.2 ++ record := by
  obtain ⟨⟨now, passed, done⟩, same⟩ := answered
  exact ⟨now, passed, done, by rw [same, foldl_snoc]⟩

/-- An attempt on a proposal that is due. -/
def Attempts (resolutions : Table MarketKey ResolutionProposal) (events : List SettlementEvent) :
    Prop :=
  ∃ key time row, .started key time ∈ events ∧ resolutions.find? key = some row ∧
    row.due time = true

/-- The query was answered, and one of the proposals in its batch was not in backoff when the
service read the clock. -/
def OldestReady (nextAttempt : MarketKey → Option Nat) (events : List SettlementEvent) : Prop :=
  ∃ batch now rest, events = .queried batch :: .read now :: rest ∧
    ∃ key ∈ batch, (nextAttempt key).getD 0 ≤ now

/-- A proposal is due and not in backoff. -/
def Waiting (world : SettlementWorld) : Prop :=
  ∃ key row, world.resolutions.find? key = some row ∧ row.due world.now = true ∧
    (world.nextAttempt key).getD 0 ≤ world.now

/-- What has been recorded stays recorded. -/
theorem journaled_extends (events : List SettlementEvent) {α : Type} (task : Settlement α)
    (state : SettlementWorld × List SettlementEvent) (initially : ∃ more, state.2 = events ++ more) :
    Ends journaled (fun _ final => ∃ more, final.2 = events ++ more) task state := by
  refine .of_callsOnly (.unrestricted task) ?_ initially
  intro call before answer record later _ answered extended
  obtain ⟨more, same⟩ := extended
  obtain ⟨_, _, _, added⟩ := journaled_step answered
  exact ⟨more ++ record, by rw [added, same, List.append_assoc]⟩

namespace SettlementService

/-- The rows of a pass, from the first one that has not been looked at: they are attempted from
the first one that is not in backoff. -/
theorem settleRows_ends (resolver : JsString) (now : Nat) (batch : List MarketKey)
    (resolutions : Table MarketKey ResolutionProposal) (nextAttempt : MarketKey → Option Nat) :
    ∀ (rest : List MarketKey) (state : SettlementWorld × List SettlementEvent),
      (∀ key ∈ rest, ∃ row, resolutions.find? key = some row ∧ row.due state.1.now = true) →
      state.1.nextAttempt = nextAttempt → state.2 = [.queried batch, .read now] →
      Ends journaled (fun _ final => ∃ more, final.2 = .queried batch :: .read now :: more ∧
        ((∃ key ∈ rest, (nextAttempt key).getD 0 ≤ now) → Attempts resolutions final.2) ∧
        ((∃ key time, .started key time ∈ final.2) →
          ∃ key ∈ rest, (nextAttempt key).getD 0 ≤ now))
        (Async.forEach rest (settleRow resolver now)) state := by
  intro rest
  induction rest with
  | nil =>
      intro state _ _ recorded
      refine ⟨[], recorded, ?_, ?_⟩
      · rintro ⟨key, member, -⟩
        exact absurd member List.not_mem_nil
      · rintro ⟨key, time, member⟩
        rw [recorded] at member
        simp at member
  | cons key rest ih =>
      intro state due same recorded answer record later answered
      obtain ⟨moment, passed, ⟨rfl, rfl, unchanged⟩, added⟩ := journaled_step answered
      rw [List.append_nil, recorded] at added
      have later_now : later.1.now = moment := by rw [unchanged]
      have later_map : later.1.nextAttempt = nextAttempt := by rw [unchanged, ← same]
      change Ends journaled _ ((ite ((state.1.nextAttempt key).getD 0 > now) _ _ :
        Settlement Unit) >>= fun _ => Async.forEach rest (settleRow resolver now)) later
      rw [same]
      by_cases inBackoff : (nextAttempt key).getD 0 > now
      · rw [if_pos inBackoff]
        have others : ∀ other ∈ rest, ∃ row, resolutions.find? other = some row ∧
            row.due later.1.now = true := by
          intro other member
          obtain ⟨row, found, isDue⟩ := due other (List.mem_cons_of_mem key member)
          exact ⟨row, found, ResolutionProposal.due_mono isDue (by omega)⟩
        have passing : ∀ ready : MarketKey → Prop, ¬ ready key →
            ((∃ other ∈ key :: rest, ready other) ↔ ∃ other ∈ rest, ready other) := by
          intro ready unready
          rw [List.exists_mem_cons_iff]
          exact or_iff_right unready
        refine Ends.mono (ih later others later_map added) ?_
        intro outcome final ended
        rw [passing _ (Nat.not_le.mpr inBackoff)]
        exact ended
      · rw [if_neg inBackoff]
        have ready : ∃ other ∈ key :: rest, (nextAttempt other).getD 0 ≤ now :=
          ⟨key, List.mem_cons_self, Nat.not_lt.mp inBackoff⟩
        intro booked record final answered
        obtain ⟨moment, passedMore, ⟨rfl, rfl, -⟩, booking⟩ := journaled_step answered
        -- the attempt has started, and whatever follows only adds to the record
        refine Ends.mono (journaled_extends final.2 _ final ⟨[], (List.append_nil _).symm⟩) ?_
        rintro outcome last ⟨more, extended⟩
        rw [added] at booking
        rw [booking] at extended
        refine ⟨.started key moment :: more, extended, fun _ => ?_, fun _ => ready⟩
        obtain ⟨row, found, isDue⟩ := due key List.mem_cons_self
        refine ⟨key, moment, row, ?_, found, ResolutionProposal.due_mono isDue (by omega)⟩
        rw [extended]
        simp

/-- **A pass attempts something exactly when one of the ten oldest proposals is not in
backoff**: the query was answered, and a proposal of its batch is ready. -/
theorem settleDue_attempts_iff (cfg : SettlementConfig) {world final : SettlementWorld}
    {records : List SettlementEvent} {outcome : Except SettlementError Unit}
    (pass : Reaches settlementEnvironment (settleDue cfg) world records (.done outcome) final) :
    (Waiting world → Attempts world.resolutions records) ↔
      (Waiting world → OldestReady world.nextAttempt records) := by
  have ends : Ends journaled (fun _ final =>
      Attempts world.resolutions final.2 ↔ OldestReady world.nextAttempt final.2)
      (settleDue cfg) (world, []) := by
    have nothing : Attempts world.resolutions [] ↔ OldestReady world.nextAttempt [] := by
      constructor
      · rintro ⟨key, time, row, member, -⟩
        exact absurd member List.not_mem_nil
      · rintro ⟨batch, now, rest, same, -⟩
        cases same
    unfold settleDue
    cases cfg.optimisticResolver with
    | none => exact nothing
    | some resolver =>
        intro answer record queried answered
        obtain ⟨asked, passedQuery, ⟨failed | ⟨batch, isBatch, rfl, rfl⟩, unchanged⟩, added⟩ :=
          journaled_step answered
        · obtain ⟨rfl, rfl⟩ := failed
          rw [List.append_nil] at added
          change Attempts _ queried.2 ↔ OldestReady _ queried.2
          rw [added]
          exact nothing
        · intro answer record later answered
          obtain ⟨now, passed, ⟨rfl, rfl, same⟩, addedClock⟩ := journaled_step answered
          rw [added] at addedClock
          have due : ∀ key ∈ batch, ∃ row, world.resolutions.find? key = some row ∧
              row.due later.1.now = true := by
            intro key member
            obtain ⟨row, found, isDue⟩ := isBatch.due member
            refine ⟨row, found, ResolutionProposal.due_mono isDue ?_⟩
            rw [unchanged] at passed
            rw [same]
            exact passed
          have map : later.1.nextAttempt = world.nextAttempt := by rw [same, unchanged]
          refine Ends.mono (settleRows_ends resolver now batch world.resolutions world.nextAttempt
            batch later due map addedClock) ?_
          rintro outcome final ⟨more, recorded, attempted, started⟩
          constructor
          · rintro ⟨key, time, row, member, -⟩
            exact ⟨batch, now, more, recorded, started ⟨key, time, member⟩⟩
          · rintro ⟨other, clock, others, alike, ready⟩
            rw [recorded] at alike
            cases alike
            exact attempted ready
  have summarised := pass.summarised (fun events event => events ++ [event]) []
  rw [foldl_snoc, List.nil_append] at summarised
  exact imp_congr_right fun _ => ends.outcome summarised

end SettlementService

/-! ## Ten stuck proposals -/

/-- Proposals whose windows close one after the other, in one engine. -/
def proposalsUpTo : Nat → Table MarketKey ResolutionProposal
  | 0 => Table.empty
  | count + 1 => (proposalsUpTo count).insertNew ⟨[1], count⟩ (proposalUntil count)

/-- Some proposals, all of them due, of which the oldest are in backoff. -/
def stuck (count inBackoff : Nat) : SettlementWorld where
  now := 100
  resolutions := proposalsUpTo count
  nextAttempt key := if key.marketId < inBackoff then some 200 else none

/-- A relay whose sends succeed. -/
def sendingRelay : SettlementRelay where
  sends := true
  receipt := some .success

/-- A pass of the keeper, as far as some number of calls. -/
def passOver (world : SettlementWorld) (calls : Nat) :
    Settlement Unit × List SettlementEvent :=
  ((Async.stopped sendingRelay.respond calls (SettlementService.settleDue settlementConfig)
      world).1,
    Async.recorded sendingRelay.respond sendingRelay.record calls
      (SettlementService.settleDue settlementConfig) world)

theorem passOver_reaches (world : SettlementWorld) (calls : Nat) :
    ∃ final, Reaches settlementEnvironment (SettlementService.settleDue settlementConfig) world
      (passOver world calls).2 (passOver world calls).1 final :=
  ⟨_, Async.reaches_recorded _ sendingRelay.respond_answers calls _ world⟩

/-- **Ten stuck proposals starve the eleventh**, which is due and not in backoff. -/
theorem settleDue_starves :
    ¬ ∀ world records outcome final,
      Reaches settlementEnvironment (SettlementService.settleDue settlementConfig) world records
        (.done outcome) final → Waiting world → Attempts world.resolutions records := by
  intro attempts
  have ended : (passOver (stuck 11 10) 20).1.outcome? = some (.ok ()) := by decide +kernel
  have recorded : (passOver (stuck 11 10) 20).2.all (fun event =>
      match event with
      | .started _ _ => false
      | _ => true) = true := by decide +kernel
  obtain ⟨final, path⟩ := passOver_reaches (stuck 11 10) 20
  rw [Async.eq_done_of_outcome? ended] at path
  obtain ⟨key, time, row, started, -⟩ := attempts _ _ _ _ path
    ⟨⟨[1], 10⟩, proposalUntil 10, by decide +kernel, by decide, by decide⟩
  exact absurd (List.all_eq_true.mp recorded _ started) Bool.false_ne_true

/-- With nine of them stuck, the tenth is attempted. -/
theorem settleDue_attempts_tenth :
    ∃ records final, Reaches settlementEnvironment
      (SettlementService.settleDue settlementConfig) (stuck 11 9) records (.done (.ok ())) final ∧
        Attempts (stuck 11 9).resolutions records := by
  have ended : (passOver (stuck 11 9) 40).1.outcome? = some (.ok ()) := by decide +kernel
  have looked : (passOver (stuck 11 9) 40).2.take 2 =
      [.queried ((List.range 10).map fun id => ⟨[1], id⟩), .read 100] := by decide +kernel
  obtain ⟨final, path⟩ := passOver_reaches (stuck 11 9) 40
  rw [Async.eq_done_of_outcome? ended] at path
  refine ⟨_, final, path, (SettlementService.settleDue_attempts_iff settlementConfig path).mpr ?_ ?_⟩
  · intro _
    refine ⟨(List.range 10).map fun id => ⟨[1], id⟩, 100, (passOver (stuck 11 9) 40).2.drop 2, ?_,
      ⟨[1], 9⟩, by decide, by decide⟩
    conv_lhs => rw [← List.take_append_drop 2 (passOver (stuck 11 9) 40).2, looked]
    rfl
  · exact ⟨⟨[1], 10⟩, proposalUntil 10, by decide +kernel, by decide, by decide⟩

end Numera
