import Numera.Chain.EventProcessor
import Numera.Foundation.Journal

/-! # What the processor's calls do

A call is refused without effect, or it is answered and has its effect
(`respond_eq`). A journal of the database is kept by a call when the call's
effect, seen through the journal's view, is the writes claimed for it
(`keeps_await`).

The asides are the calls that change no balance, no verdict, no redemption and
no resolution: reads, texts, prices, bans, the cursor and Redis.
-/

namespace Numera

open Async (Reaches Unreliable)
open Journal (Keeps)

/-- The environment of the processor: its calls may fail. -/
abbrev Failing : Async.Environment Call.Answer Failure Database Call := Unreliable Performs

namespace Call

/-- Refuse what does not fit its columns. -/
def unlessFits (fits : Bool) : Option Failure := if fits then none else some .valueOutOfRange

/-- Why a call is refused, if it is. -/
def refusal (outside : Outside) : Call → Database → Option Failure
  | upsertCategory key _, _ => unlessFits (storableText key)
  | adoptDraft metadataHash _, db =>
      if (db.drafts.find? metadataHash).isSome then none else some .recordNotFound
  | upsertMarket key create, _ => unlessFits (storableBigInt key.marketId && create.storable)
  | findMarket key, _ => unlessFits (storableBigInt key.marketId)
  | updateMarket key data, db =>
      if data.categoryKey.join.all fun category => (db.categories.find? category).isSome then
        match db.markets.find? key with
        | none => some .recordNotFound
        | some row => unlessFits (data.apply row).storable
      else some .foreignKey
  | updateOutcome key index data, db =>
      match db.markets.find? key with
      | none => some .recordNotFound
      | some row =>
          if index < row.outcomes.length then unlessFits (row.updateOutcome index data).storable
          else some .recordNotFound
  | upsertTrade key create, _ => unlessFits (storableInt key.logIndex && create.storable)
  | findPosition key, _ => unlessFits (storableInt key.outcomeIndex)
  | upsertPosition key create update, db =>
      unlessFits (storableInt key.outcomeIndex && create.storable &&
        (db.positions.find? key).all fun row => (update.apply row).storable)
  | updatePositions marketRef account data, db =>
      unlessFits ((db.positions.modifyWhere (Database.isHeldBy marketRef account)
        data.apply).rows.all fun row =>
          !Database.isHeldBy marketRef account row.1 || row.2.storable)
  | upsertResolution key row, _ => unlessFits (storableBigInt key.marketId && row.storable)
  | updateResolutions key data, _ => unlessFits (storableBigInt key.marketId && data.storable)
  | upsertBanned _ row, _ => unlessFits row.storable
  | liftBans _ liftedAt _, _ => unlessFits liftedAt.storable
  | upsertPricePoint key priceWad volume, _ =>
      unlessFits (storableInt key.outcomeIndex && key.time.storable && storableDecimal priceWad &&
        storableDecimal volume)
  | upsertCursor lastBlock, _ => unlessFits (storableBigInt lastBlock)
  | readPrices _, _ =>
      match outside.prices with
      | .ok _ => none
      | .error failure => some failure
  | findDraft _, _ | findMarketById _, _ | findResolution _, _ | dateNow, _ | invalidate _, _
  | redisDel _, _ | redisPublish _, _ => none

/-- What a call that is not refused answers. -/
def answer (outside : Outside) : (call : Call) → Database → call.Answer
  | findDraft metadataHash, db => db.drafts.find? metadataHash
  | findMarket key, db => db.markets.find? key
  | findMarketById marketRef, db => db.markets.find? marketRef
  | findPosition key, db => db.positions.find? key
  | findResolution key, db => db.resolutions.find? key
  | readPrices _, _ =>
      match outside.prices with
      | .ok prices => prices
      | .error _ => []
  | dateNow, _ => outside.now
  | upsertCategory _ _, _ | adoptDraft _ _, _ | upsertMarket _ _, _ | updateMarket _ _, _
  | updateOutcome _ _ _, _ | upsertTrade _ _, _ | upsertPosition _ _ _, _
  | updatePositions _ _ _, _ | upsertResolution _ _, _ | updateResolutions _ _, _
  | upsertBanned _ _, _ | liftBans _ _ _, _ | upsertPricePoint _ _ _, _ | upsertCursor _, _
  | invalidate _, _ | redisDel _, _ | redisPublish _, _ => ()

/-- The database a call that is not refused leaves. -/
def effect : Call → Database → Database
  | upsertCategory key label, db => { db with categories := db.categories.insertNew key label }
  | adoptDraft metadataHash marketRef, db =>
      { db with drafts := db.drafts.modify metadataHash fun draft =>
        { draft with marketRef := some marketRef } }
  | upsertMarket key create, db => { db with markets := db.markets.insertNew key create }
  | updateMarket key data, db => { db with markets := db.markets.modify key data.apply }
  | updateOutcome key index data, db =>
      { db with markets := db.markets.modify key (Market.updateOutcome index data) }
  | upsertTrade key create, db => { db with trades := db.trades.insertNew key create }
  | upsertPosition key create update, db =>
      { db with positions := db.positions.upsert key create update.apply }
  | updatePositions marketRef account data, db =>
      { db with positions :=
        db.positions.modifyWhere (Database.isHeldBy marketRef account) data.apply }
  | upsertResolution key row, db =>
      { db with resolutions := db.resolutions.upsert key row fun _ => row }
  | updateResolutions key data, db =>
      { db with resolutions := db.resolutions.modify key data.apply }
  | upsertBanned account row, db =>
      { db with bannedAccounts := db.bannedAccounts.upsert account row fun _ => row }
  | liftBans account liftedAt txHash, db =>
      { db with bannedAccounts := db.bannedAccounts.modify account fun row =>
        { row with liftedAt := some liftedAt, txHash := some txHash } }
  | upsertPricePoint key priceWad volume, db =>
      { db with pricePoints := db.pricePoints.upsert key ⟨priceWad, volume⟩ fun row =>
        ⟨priceWad, row.volume + volume⟩ }
  | upsertCursor lastBlock, db => { db with cursor := some lastBlock }
  | findDraft _, db | findMarket _, db | findMarketById _, db | findPosition _, db
  | findResolution _, db | readPrices _, db | dateNow, db | invalidate _, db | redisDel _, db
  | redisPublish _, db => db

end Call

/-- A write that is committed, or refused with nothing written. -/
private theorem commit_eq (db : Database) (fits : Bool) (written : Database) :
    db.commit fits written =
      match Call.unlessFits fits with
      | none => (.ok (), written)
      | some failure => (.error failure, db) := by
  cases fits <;> rfl

/-- The same for a market row, which has to be there. -/
private theorem updateMarket_eq (db : Database) (key : MarketKey) (change : Market → Market) :
    db.updateMarket key change =
      match (match db.markets.find? key with
        | none => some Failure.recordNotFound
        | some row => Call.unlessFits (change row).storable) with
      | none => (.ok (), { db with markets := db.markets.modify key change })
      | some failure => (.error failure, db) := by
  unfold Database.updateMarket
  cases db.markets.find? key with
  | none => rfl
  | some row => exact commit_eq _ _ _

/-- **What a call does.** It is refused and changes nothing, or it is answered and
has its effect. -/
theorem respond_eq (outside : Outside) (call : Call) (db : Database) :
    respond outside call db =
      match call.refusal outside db with
      | none => (.ok (call.answer outside db), call.effect db)
      | some failure => (.error failure, db) := by
  cases call with
  | upsertCategory key label => exact commit_eq _ _ _
  | adoptDraft metadataHash marketRef =>
      simp only [respond, Call.refusal]
      cases db.drafts.find? metadataHash <;> rfl
  | upsertMarket key create => exact commit_eq _ _ _
  | findMarket key =>
      simp only [respond, Call.refusal, Call.unlessFits]
      cases storableBigInt key.marketId <;> rfl
  | updateMarket key data =>
      simp only [respond, Call.refusal]
      split
      · exact updateMarket_eq _ _ _
      · rfl
  | updateOutcome key index data =>
      simp only [respond, Call.refusal]
      cases found : db.markets.find? key with
      | none => rfl
      | some row =>
          dsimp only
          split
          · rw [updateMarket_eq, found]
            rfl
          · rfl
  | upsertTrade key create => exact commit_eq _ _ _
  | findPosition key =>
      simp only [respond, Call.refusal, Call.unlessFits]
      cases storableInt key.outcomeIndex <;> rfl
  | upsertPosition key create update => exact commit_eq _ _ _
  | updatePositions marketRef account data => exact commit_eq _ _ _
  | upsertResolution key row => exact commit_eq _ _ _
  | updateResolutions key data => exact commit_eq _ _ _
  | upsertBanned account row => exact commit_eq _ _ _
  | liftBans account liftedAt txHash => exact commit_eq _ _ _
  | upsertPricePoint key priceWad volume => exact commit_eq _ _ _
  | upsertCursor lastBlock => exact commit_eq _ _ _
  | readPrices key =>
      simp only [respond, Call.refusal, Call.answer]
      cases outside.prices <;> rfl
  | findDraft metadataHash => rfl
  | findMarketById marketRef => rfl
  | findResolution key => rfl
  | dateNow => rfl
  | invalidate marketRef => rfl
  | redisDel marketRef => rfl
  | redisPublish message => rfl

/-- A call that is made is refused and changes nothing, or it is answered and has its
effect. -/
theorem performs_cases {call : Call} {db later : Database} {answer : Except Failure call.Answer}
    (performed : Performs call db answer later) :
    (∃ failure, answer = .error failure ∧ later = db) ∨
      ∃ outside, call.refusal outside db = none ∧ answer = .ok (call.answer outside db) ∧
        later = call.effect db := by
  obtain ⟨outside, responded⟩ := performed
  rw [respond_eq] at responded
  cases refused : call.refusal outside db with
  | none =>
      rw [refused] at responded
      cases responded
      exact .inr ⟨outside, refused, rfl, rfl⟩
  | some failure =>
      rw [refused] at responded
      cases responded
      exact .inl ⟨failure, rfl, rfl⟩

/-- A call that returned was not refused. -/
theorem returned_await {call : Call} {db later : Database} {value : call.Answer}
    {records : List Call}
    (path : Reaches Failing (await call) db records (.done (.ok value)) later) :
    ∃ outside, call.refusal outside db = none ∧ value = call.answer outside db ∧
      later = call.effect db := by
  have performed := Unreliable.performed_of_ok (Reaches.perform_returned path)
  rcases performs_cases performed with ⟨failure, wrong, -⟩ | ⟨outside, admitted, same, moved⟩
  · cases wrong
  · exact ⟨outside, admitted, Except.ok.inj same, moved⟩

/-! ## Calls and journals -/

section Journals

variable {α ν ω : Type} {journal : Journal Database Call ν ω} {db : Database} {call : Call}
  {writes : List ω}

/-- **A call in a journal.** A call whose effect is a block of writes keeps that
block, whether or not its answer arrives. -/
theorem keeps_await {post : call.Answer → ν → Prop}
    (moved : ∀ outside, call.refusal outside db = none →
      journal.view (call.effect db) = journal.replay writes (journal.view db))
    (still : ∀ outside, call.refusal outside db = none → journal.quiet call →
      journal.Still writes (journal.view db))
    (returns : ∀ outside, call.refusal outside db = none →
      post (call.answer outside db) (journal.view (call.effect db))) :
    Keeps journal Failing (await call) post db writes := by
  refine Keeps.perform fun answer record after answered => ?_
  cases answered with
  | refused failure => exact .inl ⟨failure, rfl, rfl⟩
  | performed performed =>
      rcases performs_cases performed with ⟨failure, rfl, rfl⟩ | ⟨outside, admitted, rfl, rfl⟩
      · exact .inl ⟨failure, rfl, rfl⟩
      · refine .inr ⟨moved outside admitted, fun quiet => ?_, fun value same => ?_⟩
        · exact still outside admitted (quiet call (by simp))
        · cases same
          exact returns outside admitted
  | lost failure performed =>
      rcases performs_cases performed with ⟨thrown, rfl, rfl⟩ | ⟨outside, admitted, rfl, rfl⟩
      · exact .inl ⟨failure, rfl, rfl⟩
      · refine .inr ⟨moved outside admitted, fun quiet => ?_, fun value same => ?_⟩
        · exact still outside admitted (quiet call (by simp))
        · cases same

/-- A computation of calls whose effect the journal does not see writes nothing. -/
theorem keeps_unseen {allowed : Call → Prop} {task : Chain α}
    (unseen : ∀ call db, allowed call → journal.view (Call.effect call db) = journal.view db)
    (only : task.CallsOnly allowed) :
    Keeps journal Failing task (fun _ _ => True) db [] := by
  refine Keeps.silent (fun call before answer record after silent answered => ?_) only
  have performed : ∀ reply, Performs call before reply after →
      journal.view after = journal.view before := by
    intro reply done
    rcases performs_cases done with ⟨failure, -, rfl⟩ | ⟨outside, -, -, rfl⟩
    · rfl
    · exact unseen call before silent
  cases answered with
  | refused failure => rfl
  | performed done => exact performed _ done
  | lost failure done => exact performed _ done

end Journals

/-! ## Asides -/

/-- A call that changes no pot, shares, position, trade, verdict or resolution. -/
def Call.aside : Call → Bool
  | updateMarket _ data =>
      data.pot.isNone && data.status.isNone && data.winningOutcomeId.isNone
  | updateOutcome _ _ data => data.currentShares.isNone
  | upsertMarket _ _ | upsertTrade _ _ | upsertPosition _ _ _ | updatePositions _ _ _
  | upsertResolution _ _ | updateResolutions _ _ => false
  | _ => true

/-- A call that records a sample of a price. -/
def Call.samples : Call → Bool
  | upsertPricePoint _ _ _ => true
  | _ => false

/-- An aside that samples no price. -/
def Call.beside (call : Call) : Bool := call.aside && !call.samples

/-- An aside that samples no price is an aside. -/
theorem aside_of_beside {call : Call} (beside : call.beside) : call.aside :=
  Bool.and_elim_left beside

/-- A call that neither saves the cursor nor records a volume. -/
def Call.handled : Call → Bool
  | upsertCursor _ => false
  | upsertPricePoint _ _ volume => volume = 0
  | _ => true

section Asides

open EventProcessor

variable {allowed : Call → Prop} (asides : ∀ call : Call, call.beside → call.handled → allowed call)
include asides

/-- An announcement drops a key of the cache and publishes. -/
theorem callsOnly_publish (ref : Option MarketKey) (data : RealtimeData) :
    (publish ref data).CallsOnly allowed :=
  .bind (.perform (asides _ rfl rfl)) fun _ => .perform (asides _ rfl rfl)

/-- Looking a market up is one read. -/
theorem callsOnly_marketRef (rawAddress : JsString) (marketId : Nat) :
    (marketRef rawAddress marketId).CallsOnly allowed :=
  .bind (.perform (asides _ rfl rfl)) fun _ => trivial

omit asides in
/-- A date is printed without a call. -/
theorem callsOnly_toISOString (date : Date) : (toISOString date).CallsOnly allowed := by
  unfold toISOString
  split <;> trivial

omit asides in
/-- A division makes no call, by zero or not. -/
theorem callsOnly_bigIntDiv (dividend divisor : Nat) :
    (bigIntDiv dividend divisor).CallsOnly allowed := by
  unfold bigIntDiv
  split <;> trivial

omit asides in
/-- A number is read back without a call. -/
theorem callsOnly_bigIntOfDecimal (value : Int) :
    (bigIntOfDecimal value).CallsOnly allowed := by
  unfold bigIntOfDecimal
  split <;> trivial

/-- A category is written on its own. -/
theorem callsOnly_ensureCategory (key : Option JsString) :
    (ensureCategory key).CallsOnly allowed := by
  unfold ensureCategory
  split
  · exact .perform (asides _ rfl rfl)
  · trivial

/-- Only the draft is touched when it is adopted. -/
theorem callsOnly_markAdopted (metadataHash : JsString) (key : MarketKey)
    (draft : Option MarketMetadataDraft) :
    (markAdopted metadataHash key draft).CallsOnly allowed := by
  unfold markAdopted
  split
  · exact .perform (asides _ rfl rfl)
  · trivial

/-- Published metadata changes texts and labels only. -/
theorem callsOnly_onMetadataPublished (ext : Externals) (log : NormalizedLog)
    (a : MarketMetadataPublished) : (onMetadataPublished ext log a).CallsOnly allowed := by
  refine .bind (callsOnly_marketRef asides _ _) fun ref => ?_
  cases ref with
  | none => trivial
  | some ref =>
      dsimp only
      split
      · refine .bind (callsOnly_ensureCategory asides _) fun _ => ?_
        refine .bind (.perform (asides _ rfl rfl)) fun _ => ?_
        refine .bind (.perform (asides _ rfl rfl)) fun market => ?_
        exact .bind (.forEach fun _ => .perform (asides _ rfl rfl)) fun _ => .perform (asides _ rfl rfl)
      · trivial

/-- The announcement of a trade, after its last write. -/
theorem callsOnly_announceTrade (ref : MarketKey) (date : Date) (data : Date → RealtimeData)
    (touched : List MarketKey) :
    (do
      let timestamp ← toISOString date
      publishMarket ref (data timestamp)
      return touched : Chain (List MarketKey)).CallsOnly allowed :=
  .bind (callsOnly_toISOString _) fun _ => .bind (callsOnly_publish asides _ _) fun _ => trivial

/-- The key of a resolution is found by one read. -/
theorem callsOnly_resolutionKey (market : JsString) (marketId : Nat) :
    (resolutionKey market marketId).CallsOnly allowed :=
  .bind (.perform (asides _ rfl rfl)) fun _ => trivial

/-- A resolution is announced from rows that are read again. -/
theorem callsOnly_announceResolution (ref : Option MarketKey) (key : MarketKey) :
    (announceResolution ref key).CallsOnly allowed := by
  cases ref with
  | none => trivial
  | some ref =>
      refine .bind (.perform (asides _ rfl rfl)) fun _ => .bind (.perform (asides _ rfl rfl)) fun _ => ?_
      refine .bind (.perform (asides _ rfl rfl)) fun row => ?_
      dsimp only
      split
      · refine .bind ?_ fun _ => callsOnly_publish asides _ _
        exact .bind (callsOnly_toISOString _) fun _ => trivial
      · exact callsOnly_publish asides _ _

/-- Refreshing prices makes asides only, and samples no volume. -/
theorem callsOnly_refreshPrices
    (samples : ∀ key priceWad, allowed (.upsertPricePoint key priceWad 0))
    (ext : Externals) (logs : List NormalizedLog) (ref : MarketKey) :
    (refreshPrices ext logs ref).CallsOnly allowed := by
  have timestamp : (latestTs logs ref).CallsOnly allowed := by
    unfold latestTs
    dsimp only
    split
    · exact .perform (asides _ rfl rfl)
    · trivial
  refine .bind (.perform (asides _ rfl rfl)) fun market => ?_
  split
  · trivial
  · refine .bind (.tryCatch (.bind (.perform (asides _ rfl rfl)) fun _ => trivial)
      fun _ => trivial) fun read => ?_
    cases read with
    | none => trivial
    | some prices =>
        refine .bind timestamp fun ts => ?_
        refine .bind (.forEach fun _ => .perform (asides _ rfl rfl)) fun _ => ?_
        refine .bind (.forEach fun _ => .perform (samples _ _)) fun _ => ?_
        exact .bind (.perform (asides _ rfl rfl)) fun _ => callsOnly_publish asides _ _

end Asides

/-! ## The whole batch -/

namespace EventProcessor

/-- What is beside and handled is handled: the sections' assumption at these calls. -/
private theorem handled_of_beside (call : Call) (_ : call.beside) (handled : call.handled) :
    call.handled := handled

/-- A position is read and written, nothing more. -/
private theorem handled_updatePosition (ref : MarketKey) (account : JsString) (index : Nat)
    (side : TradeSide) (shares amount : Nat) :
    (updatePosition ref account index side shares amount).CallsOnly fun call => call.handled := by
  refine .bind (.perform rfl) fun existing => ?_
  dsimp only
  split
  · refine .bind (callsOnly_bigIntOfDecimal _) fun _ => ?_
    exact .bind (callsOnly_bigIntOfDecimal _) fun _ => .perform rfl
  · exact .perform rfl

/-- The handlers of trades record no volume: the refresh after the batch is to do it. -/
private theorem handled_onTrade (log : NormalizedLog) (side : TradeSide) (a : TradeArgs)
    (touched : List MarketKey) :
    (onTrade log side a touched).CallsOnly fun call => call.handled := by
  refine .bind (callsOnly_marketRef handled_of_beside _ _) fun ref => ?_
  cases ref with
  | none => trivial
  | some ref =>
      refine .bind (.perform rfl) fun _ => .bind (.perform rfl) fun _ => ?_
      refine .bind (.perform rfl) fun _ => .bind (handled_updatePosition _ _ _ _ _ _) fun _ => ?_
      exact callsOnly_announceTrade handled_of_beside _ _ _ _

/-- Neither does a short, whichever number of legs it has. -/
private theorem handled_onShort (log : NormalizedLog) (a : TradeArgs)
    (touched : List MarketKey) :
    (onShort log a touched).CallsOnly fun call => call.handled := by
  refine .bind (callsOnly_marketRef handled_of_beside _ _) fun ref => ?_
  cases ref with
  | none => trivial
  | some ref =>
      refine .bind (.perform rfl) fun market => ?_
      cases market with
      | none => trivial
      | some market =>
          dsimp only
          split
          · trivial
          · refine .bind (.perform rfl) fun _ => ?_
            refine .bind (.forEach fun leg => ?_) fun _ => .bind (.perform rfl) fun _ => ?_
            · exact .bind (.perform rfl) fun _ => handled_updatePosition _ _ _ _ _ _
            · exact callsOnly_announceTrade handled_of_beside _ _ _ _

/-- A market opens with a price of its own, not with a sample of one. -/
private theorem handled_createMarket (ext : Externals) (log : NormalizedLog) (a : MarketCreated) :
    (createMarket ext log a).CallsOnly fun call => call.handled := by
  refine .bind (callsOnly_ensureCategory handled_of_beside _) fun _ => ?_
  refine .bind (callsOnly_bigIntDiv _ _) fun price => .bind (.perform rfl) fun draft => ?_
  refine .bind (.perform rfl) fun _ => ?_
  refine .bind (callsOnly_markAdopted handled_of_beside _ _ _) fun _ => ?_
  refine .bind (.perform rfl) fun _ => .bind (callsOnly_toISOString _) fun _ => ?_
  exact callsOnly_publish handled_of_beside _ _

/-- A handler of the engine's that looks its market up, writes and announces. -/
private theorem handled_ofMarket {log : NormalizedLog} {marketId : Nat}
    {body : Option MarketKey → Chain Unit} (unknown : (body none).CallsOnly fun call => call.handled)
    (known : ∀ ref, (body (some ref)).CallsOnly fun call => call.handled) :
    (marketRef log.address marketId >>= body).CallsOnly fun call => call.handled := by
  refine .bind (callsOnly_marketRef handled_of_beside _ _) fun ref => ?_
  cases ref with
  | none => exact unknown
  | some ref => exact known ref

/-- A handler of the resolver's, after it has looked the market up. -/
private theorem handled_ofResolution {market : JsString} {marketId : Nat}
    {body : MarketKey × Option MarketKey → Chain Unit}
    (only : ∀ found, (body found).CallsOnly fun call => call.handled) :
    (resolutionKey market marketId >>= body).CallsOnly fun call => call.handled :=
  .bind (callsOnly_resolutionKey handled_of_beside _ _) only

/-- A change of a resolution row, announced. -/
private theorem handled_announced {data : ResolutionUpdate} (key : MarketKey)
    (ref : Option MarketKey) :
    (do
      await (.updateResolutions key data)
      announceResolution ref key : Chain Unit).CallsOnly fun call => call.handled :=
  .bind (.perform rfl) fun _ => callsOnly_announceResolution handled_of_beside _ _

/-- A handler that leaves the list of touched markets as it is. -/
private theorem handled_unchanged {handler : Chain Unit} {touched : List MarketKey}
    (only : handler.CallsOnly fun call => call.handled) :
    (do handler; return touched : Chain (List MarketKey)).CallsOnly fun call => call.handled :=
  .bind only fun _ => trivial

/-- Every handler, by the kind of the contract and the event. -/
private theorem handled_apply (ext : Externals) (log : NormalizedLog) (touched : List MarketKey) :
    (apply ext log touched).CallsOnly fun call => call.handled := by
  unfold apply
  cases log.kind with
  | lsLmsr =>
      dsimp only
      cases log.event with
      | marketCreated a => exact handled_unchanged (handled_createMarket _ _ _)
      | marketMetadataPublished a =>
          exact handled_unchanged (callsOnly_onMetadataPublished handled_of_beside _ _ _)
      | bought a => exact handled_onTrade _ _ _ _
      | sold a => exact handled_onTrade _ _ _ _
      | shorted a => exact handled_onShort _ _ _
      | marketResolved marketId winningOutcomeId owed surplus =>
          refine handled_unchanged (handled_ofMarket trivial fun ref => ?_)
          refine .bind (.perform rfl) fun _ => .bind (.perform rfl) fun _ => ?_
          exact callsOnly_publish handled_of_beside _ _
      | marketInvalidated marketId surplus =>
          refine handled_unchanged (handled_ofMarket trivial fun ref => ?_)
          refine .bind (.perform rfl) fun _ => .bind (.perform rfl) fun _ => ?_
          exact callsOnly_publish handled_of_beside _ _
      | redeemed marketId account amount =>
          refine handled_unchanged (handled_ofMarket trivial fun ref => ?_)
          exact .bind (.perform rfl) fun _ => .bind (.perform rfl) fun _ => .perform rfl
      | seedRedeemed marketId creator amount =>
          refine handled_unchanged (handled_ofMarket trivial fun ref => ?_)
          dsimp only
          split
          · trivial
          · exact .bind (.perform rfl) fun _ => .perform rfl
      | _ => trivial
  | optimisticResolver =>
      dsimp only
      cases log.event with
      | proposed a =>
          refine handled_unchanged (handled_ofResolution fun found => .bind (.perform rfl) fun _ => ?_)
          exact callsOnly_announceResolution handled_of_beside _ _
      | disputed a => exact handled_unchanged (handled_ofResolution fun _ => handled_announced _ _)
      | finalized a => exact handled_unchanged (handled_ofResolution fun _ => handled_announced _ _)
      | arbitrated a => exact handled_unchanged (handled_ofResolution fun _ => handled_announced _ _)
      | slashed a => exact handled_unchanged (handled_ofResolution fun _ => .perform rfl)
      | proposalAbandoned market marketId =>
          exact handled_unchanged (handled_ofResolution fun _ => handled_announced _ _)
      | disputeReset market marketId =>
          exact handled_unchanged (handled_ofResolution fun _ => handled_announced _ _)
      | _ => trivial
  | tradingBlocklist =>
      dsimp only
      cases log.event with
      | banned a => exact handled_unchanged (.perform rfl)
      | unbanned account => exact handled_unchanged (.perform rfl)
      | _ => trivial

/-- The logs of a batch, in their order. -/
private theorem handled_applyLogs (ext : Externals) (logs : List NormalizedLog)
    (touched : List MarketKey) :
    (applyLogs ext logs touched).CallsOnly fun call => call.handled := by
  induction logs generalizing touched with
  | nil => trivial
  | cons log rest ih =>
      rw [applyLogs, Async.tryCatch_throw]
      exact .bind (handled_apply ext log touched) fun touched => ih touched

/-- **No batch saves a cursor or records a volume.** The one caller of `recordPoint`
passes zero. -/
theorem handled_processBatch (ext : Externals) (logs : List NormalizedLog) :
    (processBatch ext logs).CallsOnly fun call => call.handled := by
  refine .bind (handled_applyLogs ext logs []) fun touched => .forEach fun ref => ?_
  exact callsOnly_refreshPrices handled_of_beside (fun _ _ => rfl) ext logs ref

end EventProcessor

end Numera
