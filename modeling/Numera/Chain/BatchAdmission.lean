import Numera.Chain.Refinement
import Numera.Chain.TradeAdmission

/-! # What a batch needs

The events that settle a market, the bonded resolution and the ban list complete what the
processor can take (`Database.Takes`). A batch is processed exactly when each of its logs finds
a database that takes it and the prices read at its end fit the markets they are of
(`processBatch_returns`).
-/

namespace Numera

open Async (Returns returns_bind)
open EventProcessor

section Parts

variable {outside : Call → Outside} {db : Database} {log : NormalizedLog} {ref : MarketKey}
  {row : Market}

/-! ## Settlement and redemption -/

theorem returns_invalidated {data : RealtimeData} :
    Returns (serving outside) (do
      await (.invalidate ref)
      publishMarket ref data) db fun _ _ => True := by
  rw [returns_bind, returns_invalidate]
  exact returns_publishMarket.mpr trivial

/-- A verdict can be recorded, if it is of a market. -/
def TakesVerdict (db : Database) (log : NormalizedLog)
    (marketId winningOutcomeId owed surplus : Nat) : Prop :=
  storableBigInt marketId = true ∧ ∀ row, db.markets.find? (log.marketKey marketId) = some row →
    storableInt winningOutcomeId = true ∧ storableDecimal owed = true ∧
      storableDecimal surplus = true

theorem returns_onResolved (wellFormed : db.WellFormed) (marketId winner owed surplus : Nat) :
    Returns (serving outside) (onResolved log marketId winner owed surplus) db (fun _ _ => True) ↔
      TakesVerdict db log marketId winner owed surplus := by
  unfold onResolved
  refine returns_ofMarket trivial fun row found => ?_
  rw [returns_await_bind, refusal_updateMarket found (wellFormed.markets _ _ found)]
  constructor
  · rintro ⟨⟨-, fits⟩, -⟩
    exact ⟨fits.winningOutcomeId, fits.pot, fits.surplus⟩
  · rintro ⟨winner, owed, surplus⟩
    exact ⟨⟨rfl, ⟨rfl, rfl, rfl, rfl, rfl, winner, owed, surplus⟩⟩, returns_invalidated⟩

/-- The invalidation of a market can be recorded, if it is of one. -/
def TakesInvalidation (db : Database) (log : NormalizedLog) (marketId surplus : Nat) : Prop :=
  storableBigInt marketId = true ∧ ∀ row, db.markets.find? (log.marketKey marketId) = some row →
    storableDecimal surplus = true

theorem returns_onInvalidated (wellFormed : db.WellFormed) (marketId surplus : Nat) :
    Returns (serving outside) (onInvalidated log marketId surplus) db (fun _ _ => True) ↔
      TakesInvalidation db log marketId surplus := by
  unfold onInvalidated
  refine returns_ofMarket trivial fun row found => ?_
  have fits := wellFormed.markets _ _ found
  rw [returns_await_bind, refusal_updateMarket found fits]
  constructor
  · rintro ⟨⟨-, fits⟩, -⟩
    exact fits.surplus
  · intro surplus
    exact ⟨⟨rfl, ⟨rfl, rfl, rfl, rfl, rfl, rfl, storable_pot fits, surplus⟩⟩, returns_invalidated⟩

/-- A redemption can be recorded, if it is from a market. -/
def TakesRedemption (db : Database) (log : NormalizedLog) (marketId : Nat) (account : JsString)
    (payout : Nat) : Prop :=
  storableBigInt marketId = true ∧ ∀ row, db.markets.find? (log.marketKey marketId) = some row →
    (∀ key position, db.positions.find? key = some position →
      Database.isHeldBy (log.marketKey marketId) account.toLowerCase key = true →
        storableDecimal (position.realizedPnl + payout) = true) ∧
      storableDecimal (row.pot - payout) = true

/-- An account's positions are redeemed when what they have realized fits then. -/
theorem refusal_redeem (wellFormed : db.WellFormed) {account : JsString} {payout : Nat}
    {now : Outside} :
    (Call.updatePositions ref account {
        redeemed := some true, realizedPnl := some (.increment payout) }).refusal now db = none ↔
      ∀ key position, db.positions.find? key = some position →
        Database.isHeldBy ref account key = true →
          storableDecimal (position.realizedPnl + payout) = true := by
  simp only [Call.refusal, unlessFits_eq_none, List.all_eq_true, Prod.forall, Table.mem_rows_iff,
    Table.find?_modifyWhere]
  refine forall_congr' fun key => ?_
  cases there : db.positions.find? key with
  | none => simp
  | some position =>
      have fits := wellFormed.positions _ _ there
      simp only [Position.storable, Bool.and_eq_true] at fits
      by_cases held : Database.isHeldBy ref account key = true
      · simp [held, Position.storable, PositionUpdate.apply, DecimalUpdate.apply, fits.1.1,
          fits.1.2]
      · simp [held]

theorem returns_onRedeem (wellFormed : db.WellFormed) (marketId : Nat) (account : JsString)
    (payout : Nat) :
    Returns (serving outside) (onRedeem log marketId account payout) db (fun _ _ => True) ↔
      TakesRedemption db log marketId account payout := by
  unfold onRedeem
  refine returns_ofMarket trivial fun row found => ?_
  let redeem : Call := .updatePositions (log.marketKey marketId) account.toLowerCase {
    redeemed := some true, realizedPnl := some (.increment payout) }
  have there : (redeem.effect db).markets.find? (log.marketKey marketId) = some row := found
  rw [returns_await_bind, refusal_redeem wellFormed, returns_await_bind,
    refusal_pot there (wellFormed.markets _ _ found), returns_invalidate]
  simp only [and_true]
  rfl

/-- The redemption of a seed can be recorded, if it is from a market. -/
def TakesSeedRedemption (db : Database) (log : NormalizedLog) (marketId amount : Nat) : Prop :=
  storableBigInt marketId = true ∧ ∀ row, db.markets.find? (log.marketKey marketId) = some row →
    amount = 0 ∨ storableDecimal (row.pot - amount) = true

theorem returns_onSeedRedeemed (wellFormed : db.WellFormed) (marketId amount : Nat) :
    Returns (serving outside) (onSeedRedeemed log marketId amount) db (fun _ _ => True) ↔
      TakesSeedRedemption db log marketId amount := by
  unfold onSeedRedeemed
  refine returns_ofMarket trivial fun row found => ?_
  split
  · rename_i nothing
    exact ⟨fun _ => .inl nothing, fun _ => (Async.returns_pure ()).mpr trivial⟩
  · rename_i something
    rw [returns_await_bind, refusal_pot found (wellFormed.markets _ _ found), returns_invalidate]
    simp only [and_true, something, false_or]
    rfl

/-! ## Bonded resolution -/

theorem returns_resolutionKey {market : JsString} {marketId : Nat}
    {post : MarketKey × Option MarketKey → Database → Prop} :
    Returns (serving outside) (resolutionKey market marketId) db post ↔
      storableBigInt marketId = true ∧ post (⟨market.toLowerCase, marketId⟩,
        (db.markets.find? ⟨market.toLowerCase, marketId⟩).map fun _ =>
          ⟨market.toLowerCase, marketId⟩) db := by
  unfold resolutionKey
  rw [returns_await_bind]
  simp [Call.refusal, Call.answer, Call.effect, unlessFits_eq_none]

/-- A deadline that is stored is a time. -/
theorem valid_deadline (wellFormed : db.WellFormed) {key : MarketKey} {deadline : Date}
    (due : (db.resolutions.find? key).bind (·.disputeDeadline) = some deadline) :
    deadline.valid = true := by
  obtain ⟨row, found, due⟩ := Option.bind_eq_some_iff.mp due
  have fits := wellFormed.resolutions _ _ found
  simp only [ResolutionProposal.storable, due, Option.all_some, Bool.and_eq_true] at fits
  exact Date.valid_of_storable fits.1.1.1.1.1.1.1.2

/-- The announcement of a resolution does not throw. -/
theorem announces (wellFormed : db.WellFormed) (known : Option MarketKey) (key : MarketKey) :
    Returns (serving outside) (announceResolution known key) db fun _ _ => True := by
  cases known with
  | none => exact (Async.returns_pure ()).mpr trivial
  | some ref =>
      unfold announceResolution
      rw [returns_await_bind, returns_await_bind, returns_await_bind]
      have answered : (Call.findResolution key).answer (outside (.findResolution key))
          ((Call.redisDel ref).effect ((Call.invalidate ref).effect db)) =
            db.resolutions.find? key := rfl
      rw [answered]
      refine ⟨rfl, rfl, rfl, ?_⟩
      dsimp only
      split
      · rename_i deadline due
        rw [returns_bind, ← bind_pure_comp, returns_bind, returns_toISOString]
        exact ⟨valid_deadline wellFormed due,
          (Async.returns_pure _).mpr (returns_publishMarket.mpr trivial)⟩
      · exact returns_publishMarket.mpr trivial

/-- The changes of a resolution are written when its values fit. -/
theorem returns_updateResolution {market : JsString} {marketId : Nat} {data : ResolutionUpdate}
    (wellFormed : db.WellFormed) :
    Returns (serving outside) (do
        let (key, known) ← resolutionKey market marketId
        await (.updateResolutions key data)
        announceResolution known key) db (fun _ _ => True) ↔
      storableBigInt marketId = true ∧ data.storable = true := by
  rw [returns_bind, returns_resolutionKey, returns_await_bind]
  refine and_congr_right fun named => ?_
  have admitted {now : Outside} :
      (Call.updateResolutions ⟨market.toLowerCase, marketId⟩ data).refusal now db = none ↔
        data.storable = true := by
    simp only [Call.refusal, unlessFits_eq_none, Bool.and_eq_true]
    exact and_iff_right named
  rw [admitted]
  refine and_iff_left_of_imp fun fits => ?_
  have written : (Call.updateResolutions ⟨market.toLowerCase, marketId⟩ data).refusal
      (outside .dateNow) db = none := admitted.mpr fits
  exact announces (wellFormed.effect written) _ _

/-- A proposal can be recorded. -/
structure TakesProposal (a : Proposed) : Prop where
  marketId : storableBigInt a.marketId = true
  outcome : (outcomeOrVoid a.outcome).all storableInt = true
  bond : storableDecimal a.bond = true
  deadline : (Date.ofSeconds a.disputeDeadline).storable = true

theorem returns_onProposed (wellFormed : db.WellFormed) (a : Proposed) :
    Returns (serving outside) (onProposed log a) db (fun _ _ => True) ↔ TakesProposal a := by
  unfold onProposed
  rw [returns_bind, returns_resolutionKey, returns_await_bind]
  constructor
  · rintro ⟨marketId, written, -⟩
    have fits := (Bool.and_eq_true_iff.mp (unlessFits_eq_none.mp written)).2
    simp only [ResolutionProposal.storable, Option.all_some, Option.all_none, storable_zero,
      Bool.and_true, Bool.and_eq_true] at fits
    exact ⟨marketId, fits.1.1, fits.1.2, fits.2⟩
  · intro takes
    refine ⟨takes.marketId, ?written, announces (wellFormed.effect ?written) _ _⟩
    refine unlessFits_eq_none.mpr (Bool.and_eq_true_iff.mpr ⟨takes.marketId, ?_⟩)
    simp only [ResolutionProposal.storable, Option.all_some, Option.all_none, storable_zero,
      Bool.and_true, Bool.and_eq_true]
    exact ⟨⟨takes.outcome, takes.bond⟩, takes.deadline⟩

/-- A dispute can be recorded. -/
structure TakesDispute (a : Disputed) : Prop where
  marketId : storableBigInt a.marketId = true
  counterOutcome : (outcomeOrVoid a.counterOutcome).all storableInt = true
  bond : storableDecimal a.bond = true
  deadline : (Date.ofSeconds a.arbitrationDeadline).storable = true

theorem returns_onDisputed (wellFormed : db.WellFormed) (a : Disputed) :
    Returns (serving outside) (onDisputed a) db (fun _ _ => True) ↔ TakesDispute a := by
  refine (returns_updateResolution wellFormed).trans ?_
  simp only [ResolutionUpdate.storable, Option.join_some, Option.join_none, Option.all_some,
    Option.all_none, Bool.true_and, Bool.and_true, Bool.and_eq_true]
  constructor
  · rintro ⟨marketId, ⟨outcome, bond⟩, deadline⟩
    exact ⟨marketId, outcome, bond, deadline⟩
  · rintro ⟨marketId, outcome, bond, deadline⟩
    exact ⟨marketId, ⟨outcome, bond⟩, deadline⟩

/-- A finalization can be recorded. -/
structure TakesFinalization (log : NormalizedLog) (a : Finalized) : Prop where
  marketId : storableBigInt a.marketId = true
  outcome : (outcomeOrVoid a.outcome).all storableInt = true
  reward : storableDecimal a.reward = true
  timestamp : log.timestamp.storable = true

theorem returns_onFinalized (wellFormed : db.WellFormed) (a : Finalized) :
    Returns (serving outside) (onFinalized log a) db (fun _ _ => True) ↔
      TakesFinalization log a := by
  refine (returns_updateResolution wellFormed).trans ?_
  simp only [ResolutionUpdate.storable, Option.join_some, Option.join_none, Option.all_some,
    Option.all_none, Bool.true_and, Bool.and_true, Bool.and_eq_true]
  constructor
  · rintro ⟨marketId, ⟨outcome, reward⟩, timestamp⟩
    exact ⟨marketId, outcome, reward, timestamp⟩
  · rintro ⟨marketId, outcome, reward, timestamp⟩
    exact ⟨marketId, ⟨outcome, reward⟩, timestamp⟩

/-- An arbitration can be recorded. -/
structure TakesArbitration (a : Arbitrated) : Prop where
  marketId : storableBigInt a.marketId = true
  outcome : (outcomeOrVoid a.outcome).all storableInt = true
  reward : storableDecimal a.reward = true
  forfeited : storableDecimal a.forfeited = true

theorem returns_onArbitrated (wellFormed : db.WellFormed) (a : Arbitrated) :
    Returns (serving outside) (onArbitrated a) db (fun _ _ => True) ↔ TakesArbitration a := by
  refine (returns_updateResolution wellFormed).trans ?_
  simp only [ResolutionUpdate.storable, Option.join_some, Option.join_none, Option.all_some,
    Option.all_none, Bool.true_and, Bool.and_true, Bool.and_eq_true]
  constructor
  · rintro ⟨marketId, ⟨outcome, reward⟩, forfeited⟩
    exact ⟨marketId, outcome, reward, forfeited⟩
  · rintro ⟨marketId, outcome, reward, forfeited⟩
    exact ⟨marketId, ⟨outcome, reward⟩, forfeited⟩

/-- A slashing can be recorded. -/
structure TakesSlashing (log : NormalizedLog) (a : Slashed) : Prop where
  marketId : storableBigInt a.marketId = true
  amount : storableDecimal a.amount = true
  timestamp : log.timestamp.storable = true

theorem returns_onSlashed (a : Slashed) :
    Returns (serving outside) (onSlashed log a) db (fun _ _ => True) ↔ TakesSlashing log a := by
  unfold onSlashed
  rw [returns_bind, returns_resolutionKey, returns_await]
  simp only [Call.refusal, unlessFits_eq_none, Bool.and_eq_true, ResolutionUpdate.storable,
    Option.join_some, Option.join_none, Option.all_some, Option.all_none, Bool.true_and, and_true]
  constructor
  · rintro ⟨marketId, -, amount, timestamp⟩
    exact ⟨marketId, amount, timestamp⟩
  · rintro ⟨marketId, amount, timestamp⟩
    exact ⟨marketId, marketId, amount, timestamp⟩

theorem returns_onResolutionCleared (wellFormed : db.WellFormed) (market : JsString)
    (marketId : Nat) :
    Returns (serving outside) (onResolutionCleared market marketId) db (fun _ _ => True) ↔
      storableBigInt marketId = true :=
  (returns_updateResolution wellFormed).trans (and_iff_left rfl)

/-! ## The ban list -/

/-- A ban can be recorded. -/
structure TakesBan (a : Banned) : Prop where
  marketId : (unlessZero a.context.toLowerCase).isSome = true → storableBigInt a.marketId = true
  bannedAt : (Date.ofSeconds a.at).storable = true

theorem returns_onBanned (a : Banned) :
    Returns (serving outside) (onBanned log a) db (fun _ _ => True) ↔ TakesBan a := by
  unfold onBanned
  rw [returns_await]
  have named : ((unlessZero a.context.toLowerCase).map fun _ => a.marketId).all storableBigInt =
      true ↔ ((unlessZero a.context.toLowerCase).isSome = true →
        storableBigInt a.marketId = true) := by
    cases unlessZero a.context.toLowerCase with
    | none => simp
    | some context => simp
  simp only [Call.refusal, unlessFits_eq_none, BannedAccount.storable, Bool.and_eq_true, and_true,
    Option.all_none, named]
  constructor
  · rintro ⟨marketId, bannedAt⟩
    exact ⟨marketId, bannedAt⟩
  · rintro ⟨marketId, bannedAt⟩
    exact ⟨marketId, bannedAt⟩

theorem returns_onUnbanned (account : JsString) :
    Returns (serving outside) (onUnbanned log account) db (fun _ _ => True) ↔
      log.timestamp.storable = true := by
  unfold onUnbanned
  rw [returns_await]
  simp [Call.refusal, unlessFits_eq_none]

end Parts

/-! ## Logs -/

/-- A database takes a log. -/
def Database.Takes (ext : Externals) (log : NormalizedLog) (db : Database) : Prop :=
  match log.kind with
  | .lsLmsr =>
      match log.event with
      | .marketCreated a => TakesCreation ext log a
      | .marketMetadataPublished a => TakesMetadata ext db log a
      | .bought a => TakesTrade db log .buy a
      | .sold a => TakesTrade db log .sell a
      | .shorted a => TakesShort db log a
      | .marketResolved marketId winner owed surplus =>
          TakesVerdict db log marketId winner owed surplus
      | .marketInvalidated marketId surplus => TakesInvalidation db log marketId surplus
      | .redeemed marketId account amount => TakesRedemption db log marketId account amount
      | .seedRedeemed marketId _ amount => TakesSeedRedemption db log marketId amount
      | _ => True
  | .optimisticResolver =>
      match log.event with
      | .proposed a => TakesProposal a
      | .disputed a => TakesDispute a
      | .finalized a => TakesFinalization log a
      | .arbitrated a => TakesArbitration a
      | .slashed a => TakesSlashing log a
      | .proposalAbandoned _ marketId | .disputeReset _ marketId => storableBigInt marketId = true
      | _ => True
  | .tradingBlocklist =>
      match log.event with
      | .banned a => TakesBan a
      | .unbanned _ => log.timestamp.storable = true
      | _ => True

section Logs

variable {ext : Externals} {outside : Call → Outside} {db : Database}

/-- A handler that touches no market. -/
theorem returns_untouched {handler : Chain Unit} {touched : List MarketKey} :
    Returns (serving outside) (do
        handler
        return touched) db (fun _ _ => True) ↔
      Returns (serving outside) handler db fun _ _ => True := by
  rw [returns_bind]
  simp

/-- **A log is applied exactly when the database takes it.** -/
theorem returns_apply (wellFormed : db.WellFormed) (log : NormalizedLog)
    (touched : List MarketKey) :
    Returns (serving outside) (apply ext log touched) db (fun _ _ => True) ↔ db.Takes ext log := by
  have ignored : Returns (serving outside) (pure touched : Chain (List MarketKey)) db
      (fun _ _ => True) ↔ True := by simp
  unfold apply Database.Takes
  cases log.kind with
  | lsLmsr =>
      cases log.event with
      | marketCreated a => exact returns_untouched.trans (returns_createMarket wellFormed a)
      | marketMetadataPublished a =>
          exact returns_untouched.trans (returns_onMetadataPublished wellFormed a)
      | bought a => exact returns_onTrade wellFormed a
      | sold a => exact returns_onTrade wellFormed a
      | shorted a => exact returns_onShort wellFormed a
      | marketResolved marketId winner owed surplus =>
          exact returns_untouched.trans (returns_onResolved wellFormed marketId winner owed surplus)
      | marketInvalidated marketId surplus =>
          exact returns_untouched.trans (returns_onInvalidated wellFormed marketId surplus)
      | redeemed marketId account amount =>
          exact returns_untouched.trans (returns_onRedeem wellFormed marketId account amount)
      | seedRedeemed marketId creator amount =>
          exact returns_untouched.trans (returns_onSeedRedeemed wellFormed marketId amount)
      | _ => exact ignored
  | optimisticResolver =>
      cases log.event with
      | proposed a => exact returns_untouched.trans (returns_onProposed wellFormed a)
      | disputed a => exact returns_untouched.trans (returns_onDisputed wellFormed a)
      | finalized a => exact returns_untouched.trans (returns_onFinalized wellFormed a)
      | arbitrated a => exact returns_untouched.trans (returns_onArbitrated wellFormed a)
      | slashed a => exact returns_untouched.trans (returns_onSlashed a)
      | proposalAbandoned market marketId =>
          exact returns_untouched.trans (returns_onResolutionCleared wellFormed market marketId)
      | disputeReset market marketId =>
          exact returns_untouched.trans (returns_onResolutionCleared wellFormed market marketId)
      | _ => exact ignored
  | tradingBlocklist =>
      cases log.event with
      | banned a => exact returns_untouched.trans (returns_onBanned a)
      | unbanned account => exact returns_untouched.trans (returns_onUnbanned account)
      | _ => exact ignored

end Logs

/-- The arguments of a creation are within the types of its event. -/
structure MarketCreated.InRange (a : MarketCreated) : Prop where
  marketId : a.marketId < 2 ^ 256
  outcomeCount : a.outcomeCount < 2 ^ 32
  startTime : a.startTime < 2 ^ 64
  closeTime : a.closeTime < 2 ^ 64
  alpha : a.alpha < 2 ^ 256
  sStar : a.sStar < 2 ^ 256
  seedPerOutcome : a.seedPerOutcome < 2 ^ 256
  seedCost : a.seedCost < 2 ^ 256

/-- A word of the chain fits a decimal column. -/
theorem storable_word {value : Nat} (inRange : value < 2 ^ 256) : storableDecimal value = true := by
  have wide : 2 ^ 256 < 10 ^ 78 := by decide
  simp only [storableDecimal, Int.natAbs_natCast, decide_eq_true_eq]
  exact inRange.trans wide

/-- What can be wrong with a creation: its id, its times, its number of outcomes, its category
and its block. -/
theorem takesCreation_iff {ext : Externals} {log : NormalizedLog} {a : MarketCreated}
    (inRange : a.InRange) :
    TakesCreation ext log a ↔
      storableBigInt a.marketId = true ∧ (Date.ofSeconds a.startTime).storable = true ∧
        (Date.ofSeconds a.closeTime).storable = true ∧ a.outcomeCount ≠ 0 ∧
        storableInt a.outcomeCount = true ∧
        storableText (bytes32ToString ext a.category) = true ∧
        storableBigInt log.blockNumber = true := by
  constructor
  · intro takes
    exact ⟨takes.marketId, takes.startTime, takes.closeTime, takes.divisor, takes.outcomeCount,
      takes.category, takes.block⟩
  · rintro ⟨marketId, startTime, closeTime, divisor, outcomeCount, category, block⟩
    exact {
      marketId, startTime, closeTime, divisor, outcomeCount, category, block
      alpha := storable_word inRange.alpha
      sStar := storable_word inRange.sStar
      seed := storable_word inRange.seedPerOutcome
      pot := storable_word inRange.seedCost }

/-! ## Prices -/

/-- The time that the prices of a market are recorded under. -/
def priceTime (outside : Call → Outside) (logs : List NormalizedLog) (key : MarketKey) : Date :=
  match (logs.filter fun l =>
    l.address.toLowerCase = key.address.toLowerCase ∧ l.event.marketId? = some key.marketId).map
      NormalizedLog.timestamp with
  | [] => (outside .dateNow).now
  | first :: rest => rest.foldl (fun ts t => if t.ms > ts.ms then t else ts) first

/-- Prices fit the market they are of. -/
structure FitsPrices (row : Market) (prices : List Nat) (ts : Date) : Prop where
  each : ∀ p ∈ prices, storableDecimal p = true
  outcomes : prices.length ≤ row.outcomes.length
  indices : prices.length ≤ 2 ^ 31
  time : prices ≠ [] → (Date.mk (ts.ms / 1000 * 1000)).storable = true

/-- The prices of a market fit it, if they are read. -/
def TakesPrices (ext : Externals) (outside : Call → Outside) (logs : List NormalizedLog)
    (db : Database) (ref : MarketKey) : Prop :=
  ∀ row prices, db.markets.find? ref = some row → ext.chainReady = true →
    (outside (.readPrices ref)).prices = .ok prices →
      FitsPrices row prices (priceTime outside logs ref)

section Prices

variable {ext : Externals} {outside : Call → Outside} {db : Database} {ref : MarketKey}
  {row : Market} {logs : List NormalizedLog} {prices : List Nat} {ts : Date}

theorem returns_latestTs {post : Date → Database → Prop} :
    Returns (serving outside) (latestTs logs ref) db post ↔
      post (priceTime outside logs ref) db := by
  unfold latestTs priceTime
  dsimp only
  generalize List.map NormalizedLog.timestamp _ = timestamps
  cases timestamps with
  | nil =>
      rw [returns_await]
      simp [Call.refusal, Call.answer, Call.effect]
  | cons first rest => exact Async.returns_pure _

/-- The points of the price series are written when each of them fits. -/
theorem returns_recordPoints {post : Unit → Database → Prop} {rest : Prop}
    (ends : ∀ later, post () later ↔ rest) :
    Returns (serving outside) (Async.forEach prices.zipIdx fun (p, i) => recordPoint ref i p 0 ts)
        db post ↔
      (∀ point ∈ prices.zipIdx, storableInt point.2 = true ∧
        (Date.mk (ts.ms / 1000 * 1000)).storable = true ∧ storableDecimal point.1 = true) ∧ rest := by
  let point (item : Nat × Nat) : Call :=
    .upsertPricePoint ⟨ref, item.2, ⟨ts.ms / 1000 * 1000⟩⟩ item.1 0
  let fits (item : Nat × Nat) (_ : Database) : Prop := storableInt item.2 = true ∧
    (Date.mk (ts.ms / 1000 * 1000)).storable = true ∧ storableDecimal item.1 = true
  have rounds : ∀ item ∈ prices.zipIdx, ∀ (before : Database) (post : Unit → Database → Prop),
      True → (Returns (serving outside) (await (point item) : Chain Unit) before post ↔
        fits item before ∧ post () ((point item).effect before)) := by
    intro item _ before post _
    rw [returns_await]
    simp [point, fits, Call.refusal, unlessFits_eq_none, storable_zero, and_assoc]
  exact Async.returns_forEach rounds (fun _ _ _ _ _ => trivial)
    (List.pairwise_of_forall fun _ _ _ _ _ => Iff.rfl) trivial fun later _ => ends later

theorem returns_applyPrices (wellFormed : db.WellFormed)
    (found : db.markets.find? ref = some row) :
    Returns (serving outside) (applyPrices ref prices ts) db (fun _ _ => True) ↔
      FitsPrices row prices ts := by
  have applied : ∀ (value : Nat) (outcome : Outcome), outcome.storable = true →
      (({ currentPriceWad := some (.set value) } : OutcomeUpdate).apply outcome).storable =
        storableDecimal value := by
    intro value outcome fits
    simp only [Outcome.storable, Bool.and_eq_true] at fits
    simp [Outcome.storable, OutcomeUpdate.apply, DecimalUpdate.apply, fits.1.1, fits.2]
  have published : ∀ later, Returns (serving outside) (do
      await (.redisDel ref)
      publishMarket ref (.price prices)) later (fun _ _ => True) ↔ True := by
    intro later
    rw [returns_await_bind, returns_publishMarket]
    simp [Call.refusal]
  unfold applyPrices
  rw [returns_bind, returns_updateOutcomes wellFormed found applied fun later =>
    (returns_bind _ _).trans (returns_recordPoints published)]
  constructor
  · rintro ⟨each, outcomes, points, -⟩
    refine ⟨each, outcomes, ?_, ?_⟩
    · refine Nat.le_of_not_lt fun more => ?_
      have last := List.getElem?_eq_getElem more
      have index : storableInt (2 ^ 31) = true :=
        (points (_, 2 ^ 31) (List.mem_zipIdx_iff_getElem?.mpr last)).1
      exact absurd index (by decide)
    · intro nonempty
      have first := List.getElem?_eq_getElem (List.length_pos_of_ne_nil nonempty)
      exact (points (_, 0) (List.mem_zipIdx_iff_getElem?.mpr first)).2.1
  · intro fits
    refine ⟨fits.each, fits.outcomes, fun point member => ?_, trivial⟩
    obtain ⟨price, index⟩ := point
    have here := List.mem_zipIdx_iff_getElem?.mp member
    obtain ⟨bound, -⟩ := List.getElem?_eq_some_iff.mp here
    have nonempty : prices ≠ [] := List.ne_nil_of_mem (List.mem_of_getElem? here)
    exact ⟨decide_eq_true (Nat.lt_of_lt_of_le bound fits.indices), fits.time nonempty,
      fits.each price (List.mem_of_getElem? here)⟩

theorem evaluate_readPrices :
    Async.evaluate (serving outside) (some <$> (await (.readPrices ref) : Chain (List Nat))) db =
      ((outside (.readPrices ref)).prices.map some, db) := by
  have read : Async.evaluate (serving outside) (await (.readPrices ref)) db =
      ((outside (.readPrices ref)).prices, db) := rfl
  rw [← bind_pure_comp, Async.evaluate_bind, read]
  cases (outside (.readPrices ref)).prices with
  | ok prices => rfl
  | error thrown => rfl

/-- **The prices of a market are refreshed exactly when they fit it.** -/
theorem returns_refreshPrices (wellFormed : db.WellFormed) :
    Returns (serving outside) (refreshPrices ext logs ref) db (fun _ _ => True) ↔
      TakesPrices ext outside logs db ref := by
  unfold refreshPrices TakesPrices
  rw [returns_await_bind]
  have answered : (Call.findMarketById ref).answer (outside (.findMarketById ref)) db =
      db.markets.find? ref := rfl
  have unmoved : (Call.findMarketById ref).effect db = db := rfl
  rw [answered, unmoved]
  refine (and_iff_right rfl).trans ?_
  cases found : db.markets.find? ref with
  | none => simp
  | some row =>
      cases ready : ext.chainReady with
      | false => simp
      | true =>
          simp only [Option.isNone_some, Bool.false_eq_true, Bool.true_eq_false, or_self, if_false,
            Option.some.injEq, forall_true_left]
          rw [returns_bind, Async.returns_tryCatch, evaluate_readPrices]
          cases read : (outside (.readPrices ref)).prices with
          | error thrown => simp [Except.map]
          | ok prices =>
              simp only [Except.map, Except.ok.injEq]
              rw [returns_bind, returns_latestTs, returns_applyPrices wellFormed found]
              constructor
              · rintro fits _ _ rfl rfl
                exact fits
              · intro takes
                exact takes row prices rfl rfl

end Prices

/-! ## Batches -/

/-- Applying some logs leads from a database to another, and to the markets they have traded. -/
def Leads (ext : Externals) (outside : Call → Outside) (logs : List NormalizedLog)
    (traded : List MarketKey) (db : Database) (touched : List MarketKey) (later : Database) :
    Prop :=
  Async.evaluate (serving outside) (applyLogs ext logs traded) db = (.ok touched, later)

section Batches

variable {ext : Externals} {outside : Call → Outside} {db later : Database}
  {logs : List NormalizedLog}

/-- Whatever is computed against services that are up, the rows still fit. -/
theorem Database.WellFormed.evaluated {α : Type} (wellFormed : db.WellFormed) (task : Chain α) :
    (Async.evaluate (serving outside) task db).2.WellFormed := by
  refine Async.evaluate_preserves _ (.unrestricted task) (fun call before _ held => ?_) wellFormed
  rw [serving, respond_eq]
  cases refused : call.refusal (outside call) before with
  | some failure => exact held
  | none => exact held.effect refused

theorem Database.WellFormed.onward {α : Type} {task : Chain α} {outcome : Except Failure α}
    (wellFormed : db.WellFormed)
    (ends : Async.evaluate (serving outside) task db = (outcome, later)) : later.WellFormed := by
  have evaluated : (Async.evaluate (serving outside) task db).2.WellFormed :=
    wellFormed.evaluated task
  rwa [ends] at evaluated

/-- The number of a market's outcomes. -/
def Database.countOf (db : Database) (ref : MarketKey) : Option Nat :=
  (db.markets.find? ref).map fun row => row.outcomes.length

/-- An aside leaves the number of every market's outcomes. -/
theorem countOf_aside {call : Call} (aside : call.aside = true) (ref : MarketKey) :
    (call.effect db).countOf ref = db.countOf ref := by
  have kept (key : MarketKey) (change : Market → Market)
      (same : ∀ row, (change row).outcomes.length = row.outcomes.length) :
      ((db.markets.modify key change).find? ref).map (fun row => row.outcomes.length) =
        (db.markets.find? ref).map fun row => row.outcomes.length := by
    rw [Table.modify, Table.find?_modifyWhere, Option.map_map]
    congr 1
    funext row
    simp only [Function.comp_apply]
    split
    · exact same row
    · rfl
  cases call with
  | updateMarket key data => exact kept key data.apply fun _ => rfl
  | updateOutcome key index data =>
      exact kept key (Market.updateOutcome index data) fun row => List.length_modify _ _ _
  | upsertMarket key create => cases aside
  | _ => rfl

theorem countOf_refreshPrices (logs : List NormalizedLog) (refreshed ref : MarketKey) :
    (Async.evaluate (serving outside) (refreshPrices ext logs refreshed) db).2.countOf ref =
      db.countOf ref := by
  have kept : ∀ (call : Call) (before : Database), call.aside = true →
      before.countOf ref = db.countOf ref →
        (serving outside call before).2.countOf ref = db.countOf ref := by
    intro call before aside held
    rw [serving, respond_eq]
    cases refused : call.refusal (outside call) before with
    | some failure => exact held
    | none => exact (countOf_aside aside ref).trans held
  exact Async.evaluate_preserves _
    (callsOnly_refreshPrices (fun _ beside _ => aside_of_beside beside) (fun _ _ => rfl) ext logs
      refreshed) kept rfl

/-- Prices that fit a market fit one with as many outcomes. -/
theorem takesPrices_of_countOf {ref : MarketKey} (same : later.countOf ref = db.countOf ref)
    (takes : TakesPrices ext outside logs db ref) : TakesPrices ext outside logs later ref := by
  intro row prices found ready read
  rw [Database.countOf, found, Database.countOf] at same
  obtain ⟨old, there, counted⟩ := Option.map_eq_some_iff.mp same.symm
  have fits := takes old prices there ready read
  exact ⟨fits.each, fits.outcomes.trans_eq counted, fits.indices, fits.time⟩

/-- The prices of the traded markets are refreshed exactly when they fit them. -/
theorem returns_refreshAll (wellFormed : db.WellFormed) (touched : List MarketKey) :
    Returns (serving outside) (Async.forEach touched (refreshPrices ext logs)) db
        (fun _ _ => True) ↔ ∀ ref ∈ touched, TakesPrices ext outside logs db ref := by
  let holds (before : Database) : Prop :=
    before.WellFormed ∧ ∀ ref, before.countOf ref = db.countOf ref
  let fits (ref : MarketKey) (_ : Database) : Prop := TakesPrices ext outside logs db ref
  let step (before : Database) (ref : MarketKey) : Database :=
    (Async.evaluate (serving outside) (refreshPrices ext logs ref) before).2
  have rounds : ∀ ref ∈ touched, ∀ (before : Database) (post : Unit → Database → Prop),
      holds before → (Returns (serving outside) (refreshPrices ext logs ref) before post ↔
        fits ref before ∧ post () (step before ref)) := by
    rintro ref - before post ⟨whole, counted⟩
    rw [Async.returns_unit_iff, returns_refreshPrices whole]
    refine and_congr_left fun _ => ?_
    exact ⟨takesPrices_of_countOf (counted ref).symm, takesPrices_of_countOf (counted ref)⟩
  have keeps : ∀ ref ∈ touched, ∀ before, holds before → fits ref before →
      holds (step before ref) := by
    rintro ref - before ⟨whole, counted⟩ -
    refine ⟨whole.evaluated _, fun other => ?_⟩
    exact (countOf_refreshPrices logs ref other).trans (counted other)
  have apart : touched.Pairwise fun ref other => ∀ before, holds before → fits ref before →
      (fits other (step before ref) ↔ fits other before) :=
    List.pairwise_of_forall fun _ _ _ _ _ => Iff.rfl
  exact (Async.returns_forEach rounds keeps apart ⟨wellFormed, fun _ => rfl⟩
    fun _ _ => Iff.rfl).trans (and_iff_left trivial)

theorem leads_cons {log : NormalizedLog} {traded touched : List MarketKey} :
    Leads ext outside (log :: logs) traded db touched later ↔
      ∃ middle before,
        Async.evaluate (serving outside) (apply ext log traded) db = (.ok middle, before) ∧
          Leads ext outside logs middle before touched later := by
  unfold Leads
  rw [applyLogs, Async.tryCatch_throw, Async.evaluate_bind]
  rcases Async.evaluate (serving outside) (apply ext log traded) db with ⟨outcome, before⟩
  cases outcome with
  | error thrown => simp
  | ok middle => simp

/-- Logs are applied exactly when each of them finds a database that takes it. -/
theorem returns_applyLogs (wellFormed : db.WellFormed) (traded : List MarketKey) :
    Returns (serving outside) (applyLogs ext logs traded) db (fun _ _ => True) ↔
      ∀ earlier log rest touched before, logs = earlier ++ log :: rest →
        Leads ext outside earlier traded db touched before → before.Takes ext log := by
  induction logs generalizing traded db with
  | nil => simp [applyLogs]
  | cons first others ih =>
      rw [applyLogs, Async.tryCatch_throw, returns_bind, Async.returns_iff,
        returns_apply wellFormed]
      constructor
      · rintro ⟨takes, returns⟩ earlier log rest touched before split leads
        cases earlier with
        | nil =>
            obtain ⟨rfl, -⟩ := List.cons.inj split
            obtain ⟨-, rfl⟩ := Prod.mk.inj leads
            exact takes
        | cons own earlier =>
            obtain ⟨rfl, others_split⟩ := List.cons.inj split
            obtain ⟨middle, next, ends, leads⟩ := leads_cons.mp leads
            have later := (ih (wellFormed.onward ends) middle).mp (returns middle next ends)
            exact later earlier log rest touched before others_split leads
      · intro all
        refine ⟨all [] first others traded db rfl rfl, fun middle next ends => ?_⟩
        refine (ih (wellFormed.onward ends) middle).mpr
          fun earlier log rest touched before split leads => ?_
        exact all (first :: earlier) log rest touched before (congrArg (first :: ·) split)
          (leads_cons.mpr ⟨middle, next, ends, leads⟩)

end Batches

namespace Sample

/-- The 32 bytes of `a`, U+0000, `b` and 29 more U+0000. -/
def splitCategory : JsString :=
  JsString.ascii "0x6100620000000000000000000000000000000000000000000000000000000000"

/-- A chain client, and the text that the category decodes to. -/
def decoding : Externals where
  chainReady := true
  hexToString hex := if hex = splitCategory then some ([97, 0, 98] ++ List.replicate 29 0) else none
  keccak256 _ := zeroAddress

/-- A market in that category. -/
def splitCreation : MarketCreated where
  marketId := 1
  collateral := zeroAddress
  creator := zeroAddress
  resolver := zeroAddress
  outcomeCount := 2
  startTime := 0
  closeTime := 9
  alpha := 1
  sStar := 1
  seedPerOutcome := 100
  seedCost := 100
  category := splitCategory
  metadataHash :=
    JsString.ascii "0x5f26e2995cd945470b3b00a9d782afe9781488b29e6ce59fe90f2095e0ad5213"

end Sample

end Numera
