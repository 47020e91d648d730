import Numera.Chain.Refinement
import Numera.Chain.Register

/-! # The event processor keeps the register's journal

Every handler makes the entries of its log, in their order, in the register the
database holds, and nothing else of the register moves (`Processed.register`).
-/

namespace Numera

open Async (forEach)
open Journal (Keeps)

variable {α : Type} {db : Database} {call : Call} {entries : List Entry}

/-! ## The calls -/

/-- Calls that leave the register as it is. -/
def Call.unregistered : Call → Bool
  | updateMarket _ data => data.status.isNone && data.winningOutcomeId.isNone
  | upsertMarket _ _ | upsertPosition _ _ _ | updatePositions _ _ _ | upsertResolution _ _
  | updateResolutions _ _ => false
  | _ => true

/-- What is beside leaves the register alone. -/
private theorem unregistered_of_beside (call : Call) (beside : call.beside) (_ : call.handled) :
    call.unregistered := by
  cases call <;> simp_all [Call.beside, Call.aside, Call.samples, Call.unregistered]

/-- A change of a market row that the register sees as a change of its verdict. -/
private theorem register_modify (key : MarketKey) (change : Market → Market)
    (kept : Verdict → Verdict) (commutes : ∀ row, (change row).verdict = kept row.verdict) :
    Database.register { db with markets := db.markets.modify key change } =
      { db.register with verdicts := db.register.verdicts.modify key kept } := by
  unfold Database.register
  rw [Table.map_modify _ _ _ _ kept commutes]

/-- And so the register is the same after such a call. -/
private theorem register_effect (call : Call) (db : Database) (unregistered : call.unregistered) :
    (call.effect db).register = db.register := by
  cases call with
  | updateMarket key data =>
      have unmoved : data.status = none ∧ data.winningOutcomeId = none := by
        simpa [Call.unregistered] using unregistered
      refine (register_modify key data.apply id fun row => ?_).trans ?_
      · simp [Market.verdict, MarketUpdate.apply, unmoved]
      · rw [Table.modify_id]
  | updateOutcome key index data =>
      refine (register_modify key (Market.updateOutcome index data) id fun row => rfl).trans ?_
      rw [Table.modify_id]
  | upsertMarket key create => simp [Call.unregistered] at unregistered
  | upsertPosition key create update => simp [Call.unregistered] at unregistered
  | updatePositions marketRef account data => simp [Call.unregistered] at unregistered
  | upsertResolution key row => simp [Call.unregistered] at unregistered
  | updateResolutions key data => simp [Call.unregistered] at unregistered
  | _ => rfl

/-- A computation of such calls makes no entry. -/
private theorem registers_nothing {task : Chain α}
    (only : task.CallsOnly fun call => call.unregistered) :
    Keeps registerJournal Failing task (fun _ _ => True) db [] :=
  keeps_unseen register_effect only

/-- A call whose effect is one entry. -/
private theorem registers_call {entry : Entry}
    (effect : (call.effect db).register = entry.apply db.register) :
    Keeps registerJournal Failing (await call) (fun _ _ => True) db [entry] :=
  keeps_await (fun _ _ => effect) (fun _ _ quiet => quiet.elim) fun _ _ => trivial

/-- Reading a market by its address and number reads its verdict. -/
private theorem registers_findMarket (key : MarketKey) :
    Keeps registerJournal Failing (await (.findMarket key))
      (fun row seen => row.map Market.verdict = seen.verdicts.find? key) db [] :=
  keeps_await (fun _ _ => rfl) (fun _ _ _ => trivial) fun _ _ => (Table.find?_map _ _ _).symm

/-- And so does reading it by its reference. -/
private theorem registers_findMarketById (key : MarketKey) :
    Keeps registerJournal Failing (await (.findMarketById key))
      (fun row seen => row.map Market.verdict = seen.verdicts.find? key) db [] :=
  keeps_await (fun _ _ => rfl) (fun _ _ _ => trivial) fun _ _ => (Table.find?_map _ _ _).symm

/-- A market that is created enters as one that trades, unless it is there. -/
private theorem registers_upsertMarket (key : MarketKey) (create : Market) (outcomeCount : Nat)
    (opening : create.verdict = ⟨outcomeCount, .trading, none⟩) :
    Keeps registerJournal Failing (await (.upsertMarket key create)) (fun _ _ => True) db
      [.enter key outcomeCount] := by
  refine registers_call ?_
  simp only [Call.effect, Database.register, Table.map_insertNew, opening]
  rfl

/-- A change of status settles the verdict. -/
private theorem registers_settle (key : MarketKey) (data : MarketUpdate) (status : MarketStatus)
    (settles : data.status = some status) :
    Keeps registerJournal Failing (await (.updateMarket key data)) (fun _ _ => True) db
      [.settle key status data.winningOutcomeId] :=
  registers_call <| register_modify key data.apply _ fun row => by
    simp [Market.verdict, MarketUpdate.apply, settles]

/-- Marking an account's positions redeems them in the register. -/
private theorem registers_redeem (key : MarketKey) (account : JsString) (payout : Int) :
    Keeps registerJournal Failing
      (await (.updatePositions key account
        { redeemed := some true, realizedPnl := some (.increment payout) }))
      (fun _ _ => True) db [.redeem key account] := by
  refine registers_call ?_
  simp only [Call.effect, Database.register]
  rw [Table.map_modifyWhere _ _ _ _ (fun _ => true) fun row => rfl]
  rfl

/-- Writing the shares and the basis of a position leaves its flag, or opens it. -/
private theorem registers_hold (key : PositionKey) (create : Position) (data : PositionUpdate)
    (opens : create.redeemed = false) (keeps : data.redeemed = none) :
    Keeps registerJournal Failing (await (.upsertPosition key create data)) (fun _ _ => True) db
      [.hold key] := by
  refine registers_call ?_
  simp only [Call.effect, Database.register]
  rw [Table.map_upsert _ Position.redeemed _ _ _ id fun row => by
    simp [PositionUpdate.apply, keeps], opens]
  rfl

/-- One leg of a trade, whether or not the account held the outcome before. -/
private theorem registers_updatePosition (ref : MarketKey) (account : JsString) (index : Nat)
    (side : TradeSide) (shares amount : Nat) :
    Keeps registerJournal Failing
      (EventProcessor.updatePosition ref account index side shares amount) (fun _ _ => True) db
      [.hold ⟨ref, account.toLowerCase, index⟩] := by
  refine Keeps.bind_silent (registers_nothing (.perform rfl)) fun existing _ _ _ => ?_
  dsimp only
  split
  · refine Keeps.bind_silent (registers_nothing (callsOnly_bigIntOfDecimal _)) fun _ _ _ _ => ?_
    refine Keeps.bind_silent (registers_nothing (callsOnly_bigIntOfDecimal _)) fun _ _ _ _ => ?_
    exact registers_hold _ _ _ rfl rfl
  · exact registers_hold _ _ _ rfl rfl

/-! ## The handlers of the engine's logs -/

/-- The lookup a handler starts with finds what the register has. -/
private theorem registers_marketRef (log : NormalizedLog) (marketId : Nat) :
    Keeps registerJournal Failing (EventProcessor.marketRef log.address marketId)
      (fun ref seen => ref =
        (seen.verdicts.find? (log.marketKey marketId)).map fun _ => log.marketKey marketId)
      db [] := by
  refine Keeps.bind_silent (registers_findMarket (log.marketKey marketId))
    fun row after found _ => Keeps.pure ?_
  rw [← found]
  cases row <;> rfl

/-- A handler that looks its market up first. -/
private theorem registers_ofMarket {log : NormalizedLog} {marketId : Nat}
    {body : Option MarketKey → Chain α} {post : α → Register → Prop}
    (unknown : db.register.verdicts.find? (log.marketKey marketId) = none →
      ∀ after : Database, after.register = db.register →
        Keeps registerJournal Failing (body none) post after entries)
    (known : ∀ verdict, db.register.verdicts.find? (log.marketKey marketId) = some verdict →
      ∀ after : Database, after.register = db.register →
        Keeps registerJournal Failing (body (some (log.marketKey marketId))) post after entries) :
    Keeps registerJournal Failing (EventProcessor.marketRef log.address marketId >>= body) post db
      entries := by
  refine Keeps.bind_silent (registers_marketRef log marketId) fun ref after found same => ?_
  have sameRegister : after.register = db.register := same
  change ref = (after.register.verdicts.find? _).map _ at found
  rw [sameRegister] at found
  cases present : db.register.verdicts.find? (log.marketKey marketId) with
  | none =>
      rw [present] at found
      rw [found]
      exact unknown present after sameRegister
  | some verdict =>
      rw [present] at found
      rw [found]
      exact known verdict present after sameRegister

/-- A creation is one entry: the category, the draft and the announcement make none. -/
private theorem registers_createMarket (ext : Externals) (log : NormalizedLog) (a : MarketCreated) :
    Keeps registerJournal Failing (EventProcessor.createMarket ext log a) (fun _ _ => True) db
      [.enter (log.marketKey a.marketId) a.outcomeCount] := by
  refine Keeps.bind_silent
    (registers_nothing (callsOnly_ensureCategory unregistered_of_beside _)) fun _ _ _ _ => ?_
  refine Keeps.bind_silent (registers_nothing (callsOnly_bigIntDiv _ _)) fun price _ _ _ => ?_
  refine Keeps.bind_silent (registers_nothing (.perform rfl)) fun draft before _ _ => ?_
  refine Keeps.bind_write (registers_upsertMarket _ _ _ rfl) fun _ _ _ _ => registers_nothing ?_
  refine .bind (callsOnly_markAdopted unregistered_of_beside _ _ _) fun _ => ?_
  refine .bind (.perform rfl) fun _ => ?_
  exact .bind (callsOnly_toISOString _) fun _ => callsOnly_publish unregistered_of_beside _ _

/-- A trade holds one position, and none when its market is unknown. -/
private theorem registers_onTrade (log : NormalizedLog) (side : TradeSide) (a : TradeArgs)
    (touched : List MarketKey) :
    Keeps registerJournal Failing (EventProcessor.onTrade log side a touched) (fun _ _ => True) db
      (match db.register.verdicts.find? (log.marketKey a.marketId) with
        | none => []
        | some _ => [.hold ⟨log.marketKey a.marketId, a.account.toLowerCase, a.outcomeId⟩]) := by
  refine registers_ofMarket (fun absent _ _ => ?_) fun verdict present after _ => ?_
  · rw [absent]
    exact .pure trivial
  · rw [present]
    refine Keeps.bind_silent (registers_nothing (.perform rfl)) fun _ _ _ _ => ?_
    refine Keeps.bind_silent (registers_nothing (.perform rfl)) fun _ _ _ _ => ?_
    refine Keeps.bind_silent (registers_nothing (.perform rfl)) fun _ _ _ _ => ?_
    refine Keeps.bind_write (registers_updatePosition _ _ _ _ _ _) fun _ _ _ _ => ?_
    exact registers_nothing (callsOnly_announceTrade unregistered_of_beside _ _ _ _)

/-- A list taken with its places, which the legs are counted by. -/
private theorem map_eq_flatMap_zipIdx {β γ : Type} (column : β → γ) (items : List β) :
    items.map column = items.zipIdx.flatMap fun item => [column item.1] := by
  calc items.map column = (items.zipIdx.map Prod.fst).map column := by rw [List.zipIdx_map_fst]
    _ = items.zipIdx.flatMap fun item => [column item.1] := by
      rw [List.map_map, List.map_eq_flatMap]
      rfl

/-- A short holds a position for each leg, in the order of the legs. -/
private theorem registers_onShort (log : NormalizedLog) (a : TradeArgs)
    (touched : List MarketKey) :
    Keeps registerJournal Failing (EventProcessor.onShort log a touched) (fun _ _ => True) db
      (match db.register.verdicts.find? (log.marketKey a.marketId) with
        | none => []
        | some verdict =>
            (EventProcessor.legs verdict.outcomeCount a.outcomeId).map fun leg =>
              .hold ⟨log.marketKey a.marketId, a.account.toLowerCase, leg⟩) := by
  refine registers_ofMarket (fun absent _ _ => ?_) fun verdict present after same => ?_
  · rw [absent]
    exact .pure trivial
  · rw [present]
    refine Keeps.bind_silent (registers_findMarketById _) fun row found read again => ?_
    change row.map Market.verdict = found.register.verdicts.find? _ at read
    have sameRegister : found.register = db.register := again.trans same
    rw [sameRegister, present] at read
    cases row with
    | none => cases read
    | some market =>
        have count : market.outcomeCount = verdict.outcomeCount := by
          cases read
          rfl
        simp only [count]
        split
        · rename_i none
          rw [List.length_eq_zero_iff.mp none]
          exact .pure trivial
        · refine Keeps.bind_silent (registers_nothing (.perform rfl)) fun _ _ _ _ => ?_
          rw [map_eq_flatMap_zipIdx, ← List.append_nil (List.flatMap _ _)]
          refine Keeps.bind (Keeps.forEach fun leg _ before => ?_) fun _ _ _ _ => ?_
          · refine Keeps.bind_silent (registers_nothing (.perform rfl)) fun _ _ _ _ => ?_
            have key : (⟨log.marketKey a.marketId, a.account.toLowerCase.toLowerCase, leg.1⟩ :
                PositionKey) = ⟨log.marketKey a.marketId, a.account.toLowerCase, leg.1⟩ := by
              rw [JsString.toLowerCase_toLowerCase]
            rw [← key]
            exact registers_updatePosition _ _ _ _ _ _
          · refine registers_nothing (.bind (.perform rfl) fun _ => ?_)
            exact callsOnly_announceTrade unregistered_of_beside _ _ _ _

/-- A resolution of the engine's settles the market with its winner. -/
private theorem registers_onResolved (log : NormalizedLog)
    (marketId winningOutcomeId owed surplus : Nat) :
    Keeps registerJournal Failing
      (EventProcessor.onResolved log marketId winningOutcomeId owed surplus) (fun _ _ => True) db
      (match db.register.verdicts.find? (log.marketKey marketId) with
        | none => []
        | some _ => [.settle (log.marketKey marketId) .resolved (some winningOutcomeId)]) := by
  refine registers_ofMarket (fun absent _ _ => ?_) fun verdict present after _ => ?_
  · rw [absent]
    exact .pure trivial
  · rw [present]
    refine Keeps.bind_write (registers_settle _ _ .resolved rfl) fun _ _ _ _ => ?_
    refine registers_nothing (.bind (.perform rfl) fun _ => ?_)
    exact callsOnly_publish unregistered_of_beside _ _

/-- An invalidation settles it without one. -/
private theorem registers_onInvalidated (log : NormalizedLog) (marketId surplus : Nat) :
    Keeps registerJournal Failing (EventProcessor.onInvalidated log marketId surplus)
      (fun _ _ => True) db
      (match db.register.verdicts.find? (log.marketKey marketId) with
        | none => []
        | some _ => [.settle (log.marketKey marketId) .invalid none]) := by
  refine registers_ofMarket (fun absent _ _ => ?_) fun verdict present after _ => ?_
  · rw [absent]
    exact .pure trivial
  · rw [present]
    refine Keeps.bind_write (registers_settle _ _ .invalid rfl) fun _ _ _ _ => ?_
    refine registers_nothing (.bind (.perform rfl) fun _ => ?_)
    exact callsOnly_publish unregistered_of_beside _ _

/-- A redemption concerns the account, in lower case. -/
private theorem registers_onRedeem (log : NormalizedLog) (marketId : Nat) (account : JsString)
    (payout : Nat) :
    Keeps registerJournal Failing (EventProcessor.onRedeem log marketId account payout)
      (fun _ _ => True) db
      (match db.register.verdicts.find? (log.marketKey marketId) with
        | none => []
        | some _ => [.redeem (log.marketKey marketId) account.toLowerCase]) := by
  refine registers_ofMarket (fun absent _ _ => ?_) fun verdict present after _ => ?_
  · rw [absent]
    exact .pure trivial
  · rw [present]
    refine Keeps.bind_write (registers_redeem _ _ _) fun _ _ _ _ => ?_
    exact registers_nothing (.bind (.perform rfl) fun _ => .perform rfl)

/-- What the creator gets back of the seed is no redemption. -/
private theorem callsOnly_onSeedRedeemed (log : NormalizedLog) (marketId amount : Nat) :
    (EventProcessor.onSeedRedeemed log marketId amount).CallsOnly
      fun call => call.unregistered := by
  refine .bind (callsOnly_marketRef unregistered_of_beside _ _) fun ref => ?_
  cases ref with
  | none => trivial
  | some ref =>
      dsimp only
      split
      · trivial
      · exact .bind (.perform rfl) fun _ => .perform rfl

/-! ## The handlers of the resolver's logs -/

/-- The lookup of the resolver's handlers, by the market the log names. -/
private theorem registers_resolutionKey (market : JsString) (marketId : Nat) :
    Keeps registerJournal Failing (EventProcessor.resolutionKey market marketId)
      (fun found seen => found = (engineKey market marketId,
        (seen.verdicts.find? (engineKey market marketId)).map fun _ => engineKey market marketId))
      db [] := by
  refine Keeps.bind_silent (registers_findMarket (engineKey market marketId))
    fun row after found _ => Keeps.pure ?_
  rw [← found]
  cases row <;> rfl

/-- A handler that looks up the market a resolution is about: it continues with the
row's key and, when the market is known, its reference. -/
private theorem registers_ofResolution {market : JsString} {marketId : Nat}
    {body : MarketKey × Option MarketKey → Chain Unit}
    (continues : ∀ after : Database, after.register = db.register →
      Keeps registerJournal Failing (body (engineKey market marketId,
        (db.register.verdicts.find? (engineKey market marketId)).map fun _ =>
          engineKey market marketId)) (fun _ _ => True) after entries) :
    Keeps registerJournal Failing (EventProcessor.resolutionKey market marketId >>= body)
      (fun _ _ => True) db entries := by
  refine Keeps.bind_silent (registers_resolutionKey market marketId) fun found after same view => ?_
  have sameRegister : after.register = db.register := view
  change found = (_, (after.register.verdicts.find? _).map _) at same
  rw [sameRegister] at same
  rw [same]
  exact continues after sameRegister

/-- The writes of a resolution row, with the announcement that follows most of them. -/
private theorem registers_amend (key : MarketKey) (data : ResolutionUpdate) :
    Keeps registerJournal Failing (await (.updateResolutions key data)) (fun _ _ => True) db
      [.amend key data] :=
  registers_call rfl

/-- An entry and its announcement. -/
private theorem registers_announced {first : Chain Unit} {entry : Entry} {ref : Option MarketKey}
    {key : MarketKey} (written : Keeps registerJournal Failing first (fun _ _ => True) db [entry]) :
    Keeps registerJournal Failing (do first; EventProcessor.announceResolution ref key)
      (fun _ _ => True) db [entry] :=
  Keeps.bind_write written fun _ _ _ _ =>
    registers_nothing (callsOnly_announceResolution unregistered_of_beside _ _)

/-- A proposal writes the whole row, with the reference the register has. -/
private theorem registers_onProposed (log : NormalizedLog) (a : Proposed) :
    Keeps registerJournal Failing (EventProcessor.onProposed log a) (fun _ _ => True) db
      [.propose (engineKey a.market a.marketId) (proposedRow log a
        ((db.register.verdicts.find? (engineKey a.market a.marketId)).map fun _ =>
          engineKey a.market a.marketId))] :=
  registers_ofResolution fun _ _ => registers_announced (registers_call rfl)

/-! ## The batch -/

/-- A handler that touches no market's price. -/
private theorem registers_unchanged {handler : Chain Unit} {touched : List MarketKey}
    (keeps : Keeps registerJournal Failing handler (fun _ _ => True) db entries) :
    Keeps registerJournal Failing (do handler; return touched) (fun _ _ => True) db entries := by
  rw [← List.append_nil entries]
  exact Keeps.bind keeps fun _ _ _ _ => Keeps.pure trivial

/-- **One log.** The handler of a log makes the entries of the log. -/
theorem registers_apply (ext : Externals) (log : NormalizedLog) (touched : List MarketKey) :
    Keeps registerJournal Failing (EventProcessor.apply ext log touched) (fun _ _ => True) db
      (logEntries db.register.verdicts.find? log) := by
  unfold EventProcessor.apply logEntries
  cases log.kind with
  | lsLmsr =>
      unfold engineEntries
      dsimp only
      cases log.event with
      | marketCreated a => exact registers_unchanged (registers_createMarket _ _ _)
      | marketMetadataPublished a =>
          exact registers_unchanged
            (registers_nothing (callsOnly_onMetadataPublished unregistered_of_beside _ _ _))
      | bought a => exact registers_onTrade _ _ _ _
      | sold a => exact registers_onTrade _ _ _ _
      | shorted a => exact registers_onShort _ _ _
      | marketResolved marketId winningOutcomeId owed surplus =>
          exact registers_unchanged (registers_onResolved _ _ _ _ _)
      | marketInvalidated marketId surplus =>
          exact registers_unchanged (registers_onInvalidated _ _ _)
      | redeemed marketId account amount => exact registers_unchanged (registers_onRedeem _ _ _ _)
      | seedRedeemed marketId creator amount =>
          exact registers_unchanged (registers_nothing (callsOnly_onSeedRedeemed _ _ _))
      | _ => exact .pure trivial
  | optimisticResolver =>
      unfold resolverEntries
      dsimp only
      cases log.event with
      | proposed a => exact registers_unchanged (registers_onProposed _ _)
      | disputed a =>
          exact registers_unchanged
            (registers_ofResolution fun _ _ => registers_announced (registers_amend _ _))
      | finalized a =>
          exact registers_unchanged
            (registers_ofResolution fun _ _ => registers_announced (registers_amend _ _))
      | arbitrated a =>
          exact registers_unchanged
            (registers_ofResolution fun _ _ => registers_announced (registers_amend _ _))
      | slashed a =>
          exact registers_unchanged (registers_ofResolution fun _ _ => registers_amend _ _)
      | proposalAbandoned market marketId =>
          exact registers_unchanged
            (registers_ofResolution fun _ _ => registers_announced (registers_amend _ _))
      | disputeReset market marketId =>
          exact registers_unchanged
            (registers_ofResolution fun _ _ => registers_announced (registers_amend _ _))
      | _ => exact .pure trivial
  | tradingBlocklist =>
      dsimp only
      split
      · exact registers_unchanged (registers_nothing (.perform rfl))
      · exact registers_unchanged (registers_nothing (.perform rfl))
      · exact .pure trivial

/-- The logs of a batch make their entries one after the other, each from the verdicts
it meets. -/
private theorem registers_applyLogs (ext : Externals) (logs : List NormalizedLog)
    (touched : List MarketKey) :
    Keeps registerJournal Failing (EventProcessor.applyLogs ext logs touched) (fun _ _ => True) db
      (registerJournal.written (fun seen => logEntries seen.verdicts.find?) logs db.register) := by
  induction logs generalizing db touched with
  | nil => exact .pure trivial
  | cons log rest ih =>
      rw [EventProcessor.applyLogs, Async.tryCatch_throw]
      refine Keeps.bind (registers_apply ext log touched) fun touched after _ reached => ?_
      have sameRegister : after.register = registerJournal.replay
          (logEntries db.register.verdicts.find? log) db.register := reached
      rw [← sameRegister]
      exact ih touched

/-- **One batch.** -/
theorem registers_processBatch (ext : Externals) (logs : List NormalizedLog) :
    Keeps registerJournal Failing (EventProcessor.processBatch ext logs) (fun _ _ => True) db
      (registerJournal.written (fun seen => logEntries seen.verdicts.find?) logs db.register) := by
  rw [← List.append_nil (registerJournal.written _ _ _)]
  refine Keeps.bind (registers_applyLogs ext logs []) fun touched _ _ _ => ?_
  exact registers_nothing
    (.forEach fun ref =>
      callsOnly_refreshPrices unregistered_of_beside (fun _ _ => rfl) ext logs ref)

/-- Entering logs in two parts is entering them at once. -/
theorem Register.applyLogs_append (register : Register) (first second : List NormalizedLog) :
    register.applyLogs (first ++ second) = (register.applyLogs first).applyLogs second :=
  registerJournal.after_append _ first second register

/-- **The register after a run.** However the logs are cut into batches, they are
entered into the register one after the other. -/
theorem Processed.register {ext : Externals} {logs : List NormalizedLog} {final : Database}
    (run : Processed ext db logs final) : final.register = db.register.applyLogs logs := by
  induction run with
  | nil db => rfl
  | batch returned _ ih =>
      have entered := ((registers_processBatch ext _).returns returned).1.trans
        (registerJournal.replay_written _ _ _)
      rw [ih, Register.applyLogs_append]
      exact congrArg _ entered

end Numera
