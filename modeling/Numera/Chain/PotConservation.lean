import Mathlib.Data.List.Induction
import Numera.Chain.Refinement

/-! # The mirrored pot

A market's pot against the collateral the market holds: what was seeded and paid
in, less what was paid out and swept. Each log moves the collateral by a known
amount (`collateralMoved`), and the handler of each log but two moves the pot by
the same amount. An invalidation sweeps its surplus and the pot keeps it; a short
on a market without another outcome is paid for and the pot does not see it.
-/

namespace Numera

variable (market : MarketKey)

/-- What a log moves the market's collateral by. A settlement sweeps its surplus. -/
def collateralMoved (log : NormalizedLog) : Int :=
  if log.event.marketId?.map log.marketKey = some market then
    match log.kind, log.event with
    | .lsLmsr, .marketCreated a => a.seedCost
    | .lsLmsr, .bought a | .lsLmsr, .shorted a => a.amount
    | .lsLmsr, .sold a => -a.amount
    | .lsLmsr, .marketResolved _ _ _ surplus => -surplus
    | .lsLmsr, .marketInvalidated _ surplus => -surplus
    | .lsLmsr, .redeemed _ _ amount | .lsLmsr, .seedRedeemed _ _ amount => -amount
    | _, _ => 0
  else 0

/-- The collateral the market holds after a sequence of logs. -/
def collateral (logs : List NormalizedLog) : Int := (logs.map (collateralMoved market)).sum

/-- What a resolution pays out and sweeps is the collateral held just before it. -/
def splitsCollateral (held : Int) : Event → Bool
  | .marketResolved _ _ owed surplus => (owed : Int) + surplus = held
  | _ => true

/-- What the engine guarantees of a log about the market after the logs before it:
the first of them, and no other, creates the market, and a resolution splits the
collateral. -/
def ValidAfter (before : List NormalizedLog) (log : NormalizedLog) : Prop :=
  log.concerns market →
    (log.event.isCreation ↔ ∀ earlier ∈ before, ¬ earlier.concerns market) ∧
      splitsCollateral (collateral market before) log.event

instance (before : List NormalizedLog) (log : NormalizedLog) :
    Decidable (ValidAfter market before log) :=
  inferInstanceAs (Decidable (_ → _))

/-- A sequence of logs the engine may emit, as far as the market goes. -/
def EngineValid (before : List NormalizedLog) : List NormalizedLog → Prop
  | [] => True
  | log :: rest => ValidAfter market before log ∧ EngineValid (before ++ [log]) rest

/-- A log whose collateral the pot follows: an invalidation sweeps nothing, and a
short is free or has an outcome to credit. -/
def Followed (ledger : Ledger) (log : NormalizedLog) : Prop :=
  match log.kind, log.event with
  | .lsLmsr, .marketInvalidated marketId surplus => log.marketKey marketId = market → surplus = 0
  | .lsLmsr, .shorted a => log.marketKey a.marketId = market →
      a.amount = 0 ∨ ledger.credits market a.outcomeId
  | _, _ => True

/-! ## What a log does to the pot -/

/-- The legs of a short leave every pot as it is. -/
private theorem pot?_legs (log : NormalizedLog) (a : TradeArgs) (count : Nat)
    (legs : List (Nat × Nat)) (ledger : Ledger) :
    (ledgerJournal.replay (legs.flatMap (legWrites log a count)) ledger).pot? market =
      ledger.pot? market := by
  induction legs generalizing ledger with
  | nil => rfl
  | cons leg rest ih =>
      rw [List.flatMap_cons, Journal.replay_append, ih]
      simp only [legWrites, Journal.replay_cons, Journal.replay_nil, ledgerJournal_apply,
        pot?_apply, Write.onPot]

/-- The writes of a short leave the pots of other markets as they are. -/
private theorem pot?_shortWrites_other (log : NormalizedLog) (a : TradeArgs) (outcomeCount : Nat)
    (ledger : Ledger) (other : market ≠ log.marketKey a.marketId) :
    (ledgerJournal.replay (shortWrites log a outcomeCount) ledger).pot? market =
      ledger.pot? market := by
  unfold shortWrites
  dsimp only
  split
  · rfl
  · simp only [Journal.replay_cons, Journal.replay_append, Journal.replay_nil,
      ledgerJournal_apply, pot?_apply, pot?_legs, Write.onPot, other, ↓reduceIte]

/-- A log about another market, or not the engine's, leaves the pot as it is. -/
theorem pot?_elsewhere {ledger : Ledger} {log : NormalizedLog}
    (elsewhere : ¬ log.concerns market) :
    (ledger.applyLogs [log]).pot? market = ledger.pot? market := by
  change (ledgerJournal.replay (logWrites ledger.books.find? log) ledger).pot? market = _
  unfold logWrites
  cases kind : log.kind with
  | optimisticResolver => rfl
  | tradingBlocklist => rfl
  | lsLmsr =>
      have other : ∀ marketId, log.event.marketId? = some marketId →
          market ≠ log.marketKey marketId := by
        rintro marketId named rfl
        exact elsewhere ⟨kind, by rw [named]; rfl⟩
      dsimp only
      unfold engineWrites
      cases event : log.event with
      | marketCreated a =>
          have apart := other a.marketId (by rw [event]; rfl)
          simp [pot?_apply, Write.onPot, apart]
      | bought a =>
          have apart := other a.marketId (by rw [event]; rfl)
          dsimp only
          cases ledger.books.find? (log.marketKey a.marketId) <;>
            simp [pot?_apply, Write.onPot, apart]
      | sold a =>
          have apart := other a.marketId (by rw [event]; rfl)
          dsimp only
          cases ledger.books.find? (log.marketKey a.marketId) <;>
            simp [pot?_apply, Write.onPot, apart]
      | shorted a =>
          have apart := other a.marketId (by rw [event]; rfl)
          dsimp only
          cases ledger.books.find? (log.marketKey a.marketId) with
          | none => rfl
          | some book => exact pot?_shortWrites_other market log a book.outcomeCount ledger apart
      | marketResolved marketId winner owed surplus =>
          have apart := other marketId (by rw [event]; rfl)
          dsimp only
          cases ledger.books.find? (log.marketKey marketId) <;>
            simp [pot?_apply, Write.onPot, apart]
      | redeemed marketId redeemer amount =>
          have apart := other marketId (by rw [event]; rfl)
          dsimp only
          cases ledger.books.find? (log.marketKey marketId) <;>
            simp [pot?_apply, Write.onPot, apart]
      | seedRedeemed marketId creator amount =>
          have apart := other marketId (by rw [event]; rfl)
          dsimp only
          cases ledger.books.find? (log.marketKey marketId) with
          | none => rfl
          | some book =>
              dsimp only
              split
              · rfl
              · simp [pot?_apply, Write.onPot, apart]
      | _ => rfl

/-- The creation of a market that is not known opens its pot with the seed. -/
private theorem pot?_created {ledger : Ledger} {log : NormalizedLog}
    (unknown : ledger.pot? market = none) (concerns : log.concerns market)
    (creates : log.event.isCreation) :
    (ledger.applyLogs [log]).pot? market = some (collateralMoved market log) := by
  obtain ⟨kind, named⟩ := concerns
  change (ledgerJournal.replay (logWrites ledger.books.find? log) ledger).pot? _ = _
  cases event : log.event with
  | marketCreated a =>
      have opened : logWrites ledger.books.find? log =
          [.openBook (log.marketKey a.marketId) (openingBook a)] := by
        simp only [logWrites, kind, engineWrites, event]
      rw [event] at named
      have key : log.marketKey a.marketId = market := Option.some.inj named
      simp [opened, pot?_apply, Write.onPot, unknown, collateralMoved, kind, event,
        Event.marketId?, openingBook, key]
  | _ =>
      rw [event] at creates
      cases creates

/-- A short that is free, or has an outcome to credit, adds its cost to the pot. -/
private theorem pot?_shortWrites (log : NormalizedLog) (a : TradeArgs) (outcomeCount : Nat)
    (ledger : Ledger)
    (covered : a.amount = 0 ∨ EventProcessor.legs outcomeCount a.outcomeId ≠ []) :
    (ledgerJournal.replay (shortWrites log a outcomeCount) ledger).pot? (log.marketKey a.marketId) =
      (ledger.pot? (log.marketKey a.marketId)).map (· + (a.amount : Int)) := by
  unfold shortWrites
  dsimp only
  split
  · rename_i none
    rcases covered with free | credited
    · cases pot : ledger.pot? (log.marketKey a.marketId) <;> simp [free, pot]
    · exact absurd (List.length_eq_zero_iff.mp none) credited
  · simp only [Journal.replay_cons, Journal.replay_append, Journal.replay_nil,
      ledgerJournal_apply, pot?_apply, pot?_legs, Write.onPot, ↓reduceIte]

/-- **One log.** A followed log about a known market moves its pot as it moves the
collateral. -/
theorem pot?_followed {ledger : Ledger} {log : NormalizedLog} {held : Int}
    (known : ledger.pot? market = some held) (concerns : log.concerns market)
    (notCreation : ¬ log.event.isCreation) (followed : Followed market ledger log)
    (resolved : splitsCollateral held log.event) :
    (ledger.applyLogs [log]).pot? market = some (held + collateralMoved market log) := by
  obtain ⟨kind, named⟩ := concerns
  change (ledgerJournal.replay (logWrites ledger.books.find? log) ledger).pot? market = _
  have exists_ : ∃ book, ledger.books.find? market = some book := by
    unfold Ledger.pot? at known
    obtain ⟨book, present, -⟩ := Option.map_eq_some_iff.mp known
    exact ⟨book, present⟩
  obtain ⟨book, present⟩ := exists_
  unfold Followed at followed
  simp only [logWrites, engineWrites, collateralMoved, named, ↓reduceIte, kind] at followed ⊢
  cases event : log.event with
  | marketCreated a =>
      rw [event] at notCreation
      exact absurd rfl notCreation
  | bought a =>
      rw [event] at named
      have key : log.marketKey a.marketId = market := Option.some.inj named
      simp [key, present, pot?_apply, Write.onPot, known]
  | sold a =>
      rw [event] at named
      have key : log.marketKey a.marketId = market := Option.some.inj named
      simp [key, present, pot?_apply, Write.onPot, known]
  | shorted a =>
      rw [event] at named followed
      have key : log.marketKey a.marketId = market := Option.some.inj named
      have covered := (followed key).imp_right fun legs => Ledger.legs_of_credits legs present
      subst key
      dsimp only
      rw [present]
      dsimp only
      rw [pot?_shortWrites log a book.outcomeCount ledger covered, known]
      rfl
  | marketResolved marketId winner owed surplus =>
      rw [event] at named resolved
      have key : log.marketKey marketId = market := Option.some.inj named
      have whole : (owed : Int) + surplus = held := of_decide_eq_true resolved
      simp [key, present, pot?_apply, Write.onPot, known]
      omega
  | marketInvalidated marketId surplus =>
      rw [event] at named followed
      have none := followed (Option.some.inj named)
      simp [none, known]
  | redeemed marketId redeemer amount =>
      rw [event] at named
      have key : log.marketKey marketId = market := Option.some.inj named
      simp [key, present, pot?_apply, Write.onPot, known]
  | seedRedeemed marketId creator amount =>
      rw [event] at named
      have key : log.marketKey marketId = market := Option.some.inj named
      simp only [key, present]
      split
      · rename_i zero
        simp [zero, known]
      · simp [pot?_apply, Write.onPot, known]
  | _ => simp [known]

/-! ## Runs -/

variable {market}

/-- The last log of a sequence the engine may emit is valid after the others. -/
private theorem EngineValid.last {earlier logs : List NormalizedLog} {log : NormalizedLog}
    (valid : EngineValid market earlier (logs ++ [log])) :
    EngineValid market earlier logs ∧ ValidAfter market (earlier ++ logs) log := by
  induction logs generalizing earlier with
  | nil =>
      rw [List.append_nil]
      exact ⟨trivial, valid.1⟩
  | cons first rest ih =>
      obtain ⟨validRest, validLast⟩ := ih valid.2
      rw [List.append_assoc, List.singleton_append] at validLast
      exact ⟨⟨valid.1, validRest⟩, validLast⟩

theorem collateralMoved_elsewhere {log : NormalizedLog}
    (elsewhere : ¬ log.concerns market) : collateralMoved market log = 0 := by
  unfold collateralMoved
  split
  · rename_i named
    cases kind : log.kind with
    | lsLmsr => exact absurd ⟨kind, named⟩ elsewhere
    | optimisticResolver => rfl
    | tradingBlocklist => rfl
  · rfl

/-- **A run of logs.** When every log is followed, the pot of the market is the
collateral it holds, from its first log on. -/
theorem pot?_applyLogs {ledger : Ledger} {logs : List NormalizedLog}
    (unknown : ledger.pot? market = none) (valid : EngineValid market [] logs)
    (followed : ledger.EachLog (Followed market) logs) :
    ((∀ log ∈ logs, ¬ log.concerns market) ∧ (ledger.applyLogs logs).pot? market = none) ∨
      (∃ log ∈ logs, log.concerns market) ∧
        (ledger.applyLogs logs).pot? market = some (collateral market logs) := by
  induction logs using List.reverseRecOn with
  | nil => exact .inl ⟨by simp, unknown⟩
  | append_singleton before log ih =>
      obtain ⟨followedBefore, followedLog, -⟩ := (Ledger.eachLog_append _ _ _ _).mp followed
      obtain ⟨validBefore, validLog⟩ := valid.last
      rw [List.nil_append] at validLog
      have reached := ih validBefore followedBefore
      have moved : collateral market (before ++ [log]) =
          collateral market before + collateralMoved market log := by
        simp [collateral]
      rw [Ledger.applyLogs_append, moved]
      by_cases concerns : log.concerns market
      · refine .inr ⟨⟨log, by simp, concerns⟩, ?_⟩
        obtain ⟨first, resolved⟩ := validLog concerns
        rcases reached with ⟨none, pot⟩ | ⟨earlier, pot⟩
        · have nothing : collateral market before = 0 := by
            refine List.sum_eq_zero fun amount member => ?_
            obtain ⟨other, present, rfl⟩ := List.mem_map.mp member
            exact collateralMoved_elsewhere (none other present)
          rw [pot?_created market pot concerns (first.mpr none), nothing, zero_add]
        · have notCreation : ¬ log.event.isCreation := by
            intro creates
            obtain ⟨other, member, named⟩ := earlier
            exact first.mp creates other member named
          exact pot?_followed market pot concerns notCreation followedLog resolved
      · rw [pot?_elsewhere market concerns, collateralMoved_elsewhere concerns, add_zero]
        rcases reached with ⟨none, pot⟩ | ⟨⟨other, member, named⟩, pot⟩
        · refine .inl ⟨fun other member => ?_, pot⟩
          rcases List.mem_append.mp member with old | new
          · exact none other old
          · rw [List.mem_singleton.mp new]
            exact concerns
        · exact .inr ⟨⟨other, List.mem_append_left _ member, named⟩, pot⟩

variable {ext : Externals} {start final : Database} {logs : List NormalizedLog}

/-- **The pot is the collateral while every log is followed.** From a database
that does not know the market, in every run of logs the engine may emit, the
market's row carries the collateral the market holds. -/
theorem pot_of_followed (unknown : start.markets.find? market = none)
    (valid : EngineValid market [] logs) (followed : start.ledger.EachLog (Followed market) logs)
    (run : Processed ext start logs final) (opened : ∃ log ∈ logs, log.concerns market) :
    (final.markets.find? market).map Market.pot = some (collateral market logs) := by
  have initially : start.ledger.pot? market = none := by
    simp [Ledger.pot?, Database.ledger, unknown]
  have shown : (final.markets.find? market).map Market.pot =
      (start.ledger.applyLogs logs).pot? market := by
    rw [← run.ledger]
    simp [Ledger.pot?, Database.ledger, Function.comp_def, Market.book]
  rw [shown]
  rcases pot?_applyLogs initially valid followed with ⟨none, -⟩ | ⟨-, pot⟩
  · obtain ⟨log, member, concerns⟩ := opened
    exact absurd concerns (none log member)
  · exact pot

open Sample in
/-- A market that is created, traded in, resolved and redeemed: 100 seeded, 20 and
5 paid in, 10 swept, 15 redeemed. -/
theorem pot_of_resolvedMarket :
    ((after [created 2, log 1 (.bought (trade 0 9 20)), log 2 (.shorted (trade 0 3 5)),
        log 3 (.marketResolved 1 0 115 10), log 4 (.redeemed 1 alice 15)]
          .empty).markets.find? Sample.market).map Market.pot = some 100 := by
  have valid : EngineValid Sample.market [] [created 2, log 1 (.bought (trade 0 9 20)),
      log 2 (.shorted (trade 0 3 5)), log 3 (.marketResolved 1 0 115 10),
      log 4 (.redeemed 1 alice 15)] :=
    ⟨by decide +kernel, by decide +kernel, by decide +kernel, by decide +kernel,
      by decide +kernel, trivial⟩
  have credited : Followed Sample.market
      ((Database.empty.ledger.applyLogs [created 2]).applyLogs
        [log 1 (.bought (trade 0 9 20))]) (log 2 (.shorted (trade 0 3 5))) :=
    fun _ => .inr (by decide +kernel)
  have followed : Database.empty.ledger.EachLog (Followed Sample.market) [created 2,
      log 1 (.bought (trade 0 9 20)), log 2 (.shorted (trade 0 3 5)),
      log 3 (.marketResolved 1 0 115 10), log 4 (.redeemed 1 alice 15)] :=
    ⟨trivial, trivial, credited, trivial, trivial, trivial⟩
  have run := pot_of_followed rfl valid followed
    (.of_stopped outside 400 (by decide +kernel) : Processed externals _ _ _)
    ⟨created 2, by simp, by decide +kernel⟩
  exact run.trans (by decide +kernel)

open Sample in
/-- **An invalidation keeps the surplus it sweeps.** Market 1 is seeded with 100,
20 is paid in and an invalidation sweeps 30: its pot is 30 above its collateral. -/
theorem invalidation_keeps_surplus :
    let logs := [created 2, log 1 (.bought (trade 0 9 20)), log 2 (.marketInvalidated 1 30)]
    Processed externals .empty logs (after logs .empty) ∧ EngineValid Sample.market [] logs ∧
      ((after logs .empty).markets.find? Sample.market).map Market.pot ≠
        some (collateral Sample.market logs) := by
  refine ⟨.of_stopped outside 400 (by decide +kernel), ?_, by decide +kernel⟩
  exact ⟨by decide +kernel, by decide +kernel, by decide +kernel, trivial⟩

end Numera
