import Numera.Chain.Calls
import Numera.Chain.Ledger

/-! # The event processor keeps the ledger's journal

Every handler performs the writes of its log, in their order, on the ledger the
database holds, and nothing else of the ledger moves. This holds with calls
failing at any point: a batch stopped anywhere has performed a prefix of its
writes (`keeps_processBatch`).
-/

namespace Numera

open Async (forEach Unreliable)
open Journal (Keeps)

variable {α : Type} {db : Database} {call : Call} {writes : List Write}

/-! ## The calls -/

/-- A change of a market row that the ledger sees as a change of its book. -/
private theorem ledger_modify (key : MarketKey) (change : Market → Market) (kept : Book → Book)
    (commutes : ∀ row, (change row).book = kept row.book) :
    Database.ledger { db with markets := db.markets.modify key change } =
      { db.ledger with books := db.ledger.books.modify key kept } := by
  unfold Database.ledger
  rw [Table.map_modify _ _ _ _ kept commutes]

/-- Calls that leave the ledger as it is. -/
def Call.silent : Call → Bool
  | updateMarket _ data => data.pot.isNone
  | updateOutcome _ _ data => data.currentShares.isNone
  | upsertMarket _ _ | upsertTrade _ _ | upsertPosition _ _ _ | updatePositions _ _ _ => false
  | _ => true

private theorem silent_of_beside (call : Call) (beside : call.beside) (_ : call.handled) :
    call.silent := by
  cases call <;> simp_all [Call.beside, Call.aside, Call.samples, Call.silent]

theorem map_modify {α β : Type} (column : α → β) (change : α → α) (kept : β → β)
    (commutes : ∀ row, column (change row) = kept (column row)) (index : Nat) (rows : List α) :
    (rows.modify index change).map column = (rows.map column).modify index kept := by
  induction rows generalizing index with
  | nil => simp
  | cons row rest ih =>
      cases index with
      | zero => simp [commutes]
      | succ index => simp [ih]

private theorem ledger_effect (call : Call) (db : Database) (silent : call.silent) :
    (call.effect db).ledger = db.ledger := by
  cases call with
  | updateMarket key data =>
      have unmoved : data.pot = none := by simpa [Call.silent] using silent
      refine (ledger_modify key data.apply id fun row => ?_).trans ?_
      · simp [Market.book, MarketUpdate.apply, unmoved, DecimalUpdate.apply]
      · rw [Table.modify_id]
  | updateOutcome key index data =>
      have unmoved : data.currentShares = none := by simpa [Call.silent] using silent
      refine (ledger_modify key _ id fun row => ?_).trans ?_
      · have sameStock := map_modify Outcome.currentShares data.apply id
          (fun row => by simp [OutcomeUpdate.apply, unmoved, DecimalUpdate.apply])
          index row.outcomes
        simp only [Market.book, Market.updateOutcome, sameStock, List.modify_id, id]
      · rw [Table.modify_id]
  | upsertMarket key create => simp [Call.silent] at silent
  | upsertTrade key create => simp [Call.silent] at silent
  | upsertPosition key create update => simp [Call.silent] at silent
  | updatePositions marketRef account data => simp [Call.silent] at silent
  | _ => rfl

/-- A computation of silent calls writes nothing. -/
theorem keeps_quietly {task : Chain α} (only : task.CallsOnly fun call => call.silent) :
    Keeps ledgerJournal Failing task (fun _ _ => True) db [] :=
  keeps_unseen ledger_effect only

private theorem keeps_findMarket (key : MarketKey) :
    Keeps ledgerJournal Failing (await (.findMarket key))
      (fun row seen => row.map Market.book = seen.books.find? key) db [] :=
  keeps_await (fun _ _ => rfl) (fun _ _ _ => trivial) fun _ _ => (Table.find?_map _ _ _).symm

private theorem keeps_findMarketById (key : MarketKey) :
    Keeps ledgerJournal Failing (await (.findMarketById key))
      (fun row seen => row.map Market.book = seen.books.find? key) db [] :=
  keeps_await (fun _ _ => rfl) (fun _ _ _ => trivial) fun _ _ => (Table.find?_map _ _ _).symm

private theorem keeps_findPosition (key : PositionKey) :
    Keeps ledgerJournal Failing (await (.findPosition key))
      (fun row seen => row.map Position.holding = seen.holdings.find? key) db [] :=
  keeps_await (fun _ _ => rfl) (fun _ _ _ => trivial) fun _ _ => (Table.find?_map _ _ _).symm

private theorem keeps_upsertMarket (key : MarketKey) (create : Market) (book : Book)
    (opening : create.book = book) :
    Keeps ledgerJournal Failing (await (.upsertMarket key create)) (fun _ _ => True) db
      [.openBook key book] := by
  refine keeps_await (fun _ _ => ?_) (fun _ _ _ => ⟨trivial, trivial⟩) fun _ _ => trivial
  subst opening
  change Database.ledger _ = _
  simp only [Call.effect, Database.ledger, Table.map_insertNew]
  rfl

private theorem keeps_upsertTrade (key : TradeKey) (create : Trade) :
    Keeps ledgerJournal Failing (await (.upsertTrade key create)) (fun _ _ => True) db
      [.trade key create] :=
  keeps_await (fun _ _ => rfl) (fun _ _ _ => ⟨trivial, trivial⟩) fun _ _ => trivial

/-- An update that adds to the pot, by an increment or a decrement. -/
private theorem keeps_movePot (key : MarketKey) (data : MarketUpdate) (amount : Int)
    (moves : ∀ pot, DecimalUpdate.apply data.pot pot = pot + amount)
    (quiet : DecimalUpdate.moves data.pot = false → amount = 0) :
    Keeps ledgerJournal Failing (await (.updateMarket key data)) (fun _ _ => True) db
      [.movePot key amount] := by
  refine keeps_await (fun _ _ => ?_) (fun _ _ still => ⟨quiet still, trivial⟩) fun _ _ => trivial
  exact ledger_modify key data.apply _ fun row => by
    simp [Market.book, MarketUpdate.apply, moves]

private theorem keeps_setPot (key : MarketKey) (data : MarketUpdate) (amount : Int)
    (sets : data.pot = some (.set amount)) :
    Keeps ledgerJournal Failing (await (.updateMarket key data)) (fun _ _ => True) db
      [.setPot key amount] := by
  refine keeps_await (fun _ _ => ?_) (fun outside admitted _ => ⟨?_, trivial⟩) fun _ _ => trivial
  · exact ledger_modify key data.apply _ fun row => by
      simp [Market.book, MarketUpdate.apply, sets, DecimalUpdate.apply]
  · -- An update that was not refused found its row.
    have present : (db.markets.find? key).isSome := by
      simp only [Call.refusal] at admitted
      cases found : db.markets.find? key with
      | none =>
          rw [found] at admitted
          split at admitted <;> cases admitted
      | some row => rfl
    simpa [ledgerJournal, Write.Still, Database.ledger] using present

private theorem keeps_moveStock (key : MarketKey) (index : Nat) (amount : Int) :
    Keeps ledgerJournal Failing
      (await (.updateOutcome key index { currentShares := some (.increment amount) }))
      (fun _ _ => True) db [.moveStock key index amount] := by
  refine keeps_await (fun _ _ => ?_) (fun _ _ still => ⟨?_, trivial⟩) fun _ _ => trivial
  · refine ledger_modify key _ _ fun row => ?_
    have moved := map_modify Outcome.currentShares
      (OutcomeUpdate.apply { currentShares := some (.increment amount) }) (· + amount)
      (fun row => by simp [OutcomeUpdate.apply, DecimalUpdate.apply]) index row.outcomes
    simp only [Market.book, Market.updateOutcome, moved]
  · have zero : amount = 0 := by simpa [ledgerJournal, Call.moves, DecimalUpdate.moves] using still
    exact zero

private theorem keeps_redeem (key : MarketKey) (account : JsString) (payout : Int) :
    Keeps ledgerJournal Failing
      (await (.updatePositions key account
        { redeemed := some true, realizedPnl := some (.increment payout) }))
      (fun _ _ => True) db [.redeem key account payout] := by
  refine keeps_await (fun _ _ => ?_) (fun _ _ still => ⟨?_, trivial⟩) fun _ _ => trivial
  · change Database.ledger _ = _
    simp only [Call.effect, Database.ledger]
    rw [Table.map_modifyWhere _ _ _ _ (Holding.redeem payout) fun row => by
      simp [Position.holding, PositionUpdate.apply, DecimalUpdate.apply, Holding.redeem]]
    rfl
  · have zero : payout = 0 := by simpa [ledgerJournal, Call.moves, DecimalUpdate.moves] using still
    exact zero

/-! ## The shared helpers -/

private theorem keeps_marketRef (log : NormalizedLog) (marketId : Nat) :
    Keeps ledgerJournal Failing (EventProcessor.marketRef log.address marketId)
      (fun ref seen => ref =
        (seen.books.find? (log.marketKey marketId)).map fun _ => log.marketKey marketId) db [] := by
  refine Keeps.bind_silent (keeps_findMarket (log.marketKey marketId)) fun row after found _ => ?_
  refine Keeps.pure ?_
  rw [← found]
  cases row <;> rfl

private theorem keeps_bigIntOfDecimal (value : Int) :
    Keeps ledgerJournal Failing (EventProcessor.bigIntOfDecimal value)
      (fun read _ => read = value) db [] := by
  unfold EventProcessor.bigIntOfDecimal
  split
  · exact .pure rfl
  · exact .throw _

/-- Writing a position row writes its holding. -/
private theorem keeps_upsertPosition (key : PositionKey) (create : Position)
    (data : PositionUpdate) (kept : Holding → Holding) (write : Write)
    (commutes : ∀ row : Position, (data.apply row).holding = kept row.holding)
    (writes : write.apply db.ledger =
      { db.ledger with holdings := db.ledger.holdings.upsert key create.holding kept })
    (quiet : Call.moves (.upsertPosition key create data) = false → write.Still db.ledger) :
    Keeps ledgerJournal Failing (await (.upsertPosition key create data)) (fun _ _ => True) db
      [write] := by
  refine keeps_await (fun _ _ => ?_) (fun _ _ still => ⟨quiet still, trivial⟩) fun _ _ => trivial
  change Database.ledger _ = write.apply db.ledger
  rw [writes]
  simp only [Call.effect, Database.ledger, Table.map_upsert _ _ _ _ _ kept commutes]

/-- A purchase: the position read has no part in what is written. -/
theorem keeps_buy (ref : MarketKey) (account : JsString) (index : Nat)
    (shares amount : Nat) :
    Keeps ledgerJournal Failing
      (EventProcessor.updatePosition ref account index .buy shares amount) (fun _ _ => True) db
      [.buy ⟨ref, account.toLowerCase, index⟩ shares amount] := by
  refine Keeps.bind_silent (keeps_findPosition _) fun row after found same => ?_
  have notSale : (TradeSide.buy = TradeSide.sell) = False := by simp
  simp only [notSale, ↓reduceIte]
  refine keeps_upsertPosition _ _ _ (Holding.buy shares amount) _ (fun row => ?_) rfl
    fun still => ?_
  · simp [Position.holding, PositionUpdate.apply, DecimalUpdate.apply, Holding.buy]
  · simpa [Call.moves, DecimalUpdate.moves, Write.Still] using still

/-- A sale: the position read is the holding the sale is computed from. -/
theorem keeps_sell (ref : MarketKey) (account : JsString) (index : Nat)
    (shares amount : Nat) :
    Keeps ledgerJournal Failing
      (EventProcessor.updatePosition ref account index .sell shares amount) (fun _ _ => True) db
      [.sell ⟨ref, account.toLowerCase, index⟩ shares amount] := by
  refine Keeps.bind_silent (keeps_findPosition _) fun row after found same => ?_
  simp only [↓reduceIte]
  refine Keeps.bind_silent (keeps_bigIntOfDecimal _) fun oldShares _ readShares again => ?_
  refine Keeps.bind_silent (keeps_bigIntOfDecimal _) fun oldCost last readCost final => ?_
  subst readShares readCost
  have held : last.ledger.holdings.find? ⟨ref, account.toLowerCase, index⟩ =
      row.map Position.holding := by
    change (ledgerJournal.view last).holdings.find? _ = _
    rw [final, again, found]
  obtain ⟨holding, readHolding⟩ : ∃ holding : Holding,
      holding = (row.map Position.holding).getD ⟨0, 0, 0⟩ := ⟨_, rfl⟩
  have readShares : (row.map Position.shares).getD 0 = holding.shares := by
    subst readHolding
    cases row <;> rfl
  have readCost : (row.map Position.costBasis).getD 0 = holding.costBasis := by
    subst readHolding
    cases row <;> rfl
  rw [readShares, readCost]
  refine keeps_upsertPosition _ _ _ (fun other =>
      ⟨other.shares - holding.sold shares, other.costBasis - holding.costRemoved shares,
        other.realizedPnl + (amount - holding.costRemoved shares)⟩) _ (fun other => rfl) ?_
    fun still => ?_
  · have sameTable : last.ledger.holdings.upsert ⟨ref, account.toLowerCase, index⟩ ⟨0, 0, amount⟩
          (Holding.sell shares amount) =
        last.ledger.holdings.upsert ⟨ref, account.toLowerCase, index⟩
          ⟨0, 0, amount - holding.costRemoved shares⟩ fun other =>
            ⟨other.shares - holding.sold shares, other.costBasis - holding.costRemoved shares,
              other.realizedPnl + (amount - holding.costRemoved shares)⟩ := by
      apply Table.upsert_congr
      rw [held]
      subst readHolding
      cases row with
      | none => simp [Holding.costRemoved]
      | some position => rfl
    simp only [Write.apply, sameTable]
    rfl
  · have zero : (holding.sold shares = 0 ∧ holding.costRemoved shares = 0) ∧
        amount - holding.costRemoved shares = 0 := by
      simpa [Call.moves, DecimalUpdate.moves, Holding.sold, Holding.costRemoved] using still
    obtain ⟨⟨noShares, noCost⟩, noProfit⟩ := zero
    simp only [Write.Still, held]
    subst readHolding
    cases row with
    | none =>
        simp only [Option.map_none]
        omega
    | some position =>
        simp only [Option.map_some, Option.getD_some] at noShares noCost noProfit ⊢
        simp only [Holding.sell, noShares, noProfit]
        simp only [noCost, sub_zero, add_zero]

/-! ## The handlers -/

/-- The logs of the resolver and of the ban list write nothing of the ledger. -/
private theorem callsOnly_apply (ext : Externals) (log : NormalizedLog)
    (touched : List MarketKey) (notEngine : log.kind ≠ .lsLmsr) :
    (EventProcessor.apply ext log touched).CallsOnly fun call => call.silent := by
  have announced : ∀ (market : JsString) (marketId : Nat)
      (write : MarketKey × Option MarketKey → Chain Unit),
      (∀ key, (write key).CallsOnly fun call => call.silent) →
      (EventProcessor.resolutionKey market marketId >>= write).CallsOnly
        fun call => call.silent :=
    fun market marketId write only =>
      .bind (callsOnly_resolutionKey silent_of_beside market marketId) only
  have recorded : ∀ {call : Call} (_ : call.silent) (known : Option MarketKey) (key : MarketKey),
      (await call >>= fun _ => EventProcessor.announceResolution known key).CallsOnly
        fun call => call.silent :=
    fun silent known key =>
      .bind (.perform silent) fun _ => callsOnly_announceResolution silent_of_beside known key
  unfold EventProcessor.apply
  cases kind : log.kind with
  | lsLmsr => exact absurd kind notEngine
  | optimisticResolver =>
      dsimp only
      split
      · exact .bind (announced _ _ _ fun _ => recorded rfl _ _) fun _ => trivial
      · exact .bind (announced _ _ _ fun _ => recorded rfl _ _) fun _ => trivial
      · exact .bind (announced _ _ _ fun _ => recorded rfl _ _) fun _ => trivial
      · exact .bind (announced _ _ _ fun _ => recorded rfl _ _) fun _ => trivial
      · exact .bind (announced _ _ _ fun _ => .perform rfl) fun _ => trivial
      · exact .bind (announced _ _ _ fun _ => recorded rfl _ _) fun _ => trivial
      · exact .bind (announced _ _ _ fun _ => recorded rfl _ _) fun _ => trivial
      · trivial
  | tradingBlocklist =>
      dsimp only
      split
      · exact .bind (.perform rfl) fun _ => trivial
      · exact .bind (.perform rfl) fun _ => trivial
      · trivial

/-- A handler that looks its market up first: it does nothing when the market is
unknown, and otherwise continues with its reference. -/
private theorem keeps_ofMarket {log : NormalizedLog} {marketId : Nat}
    {body : Option MarketKey → Chain α} {post : α → Ledger → Prop}
    (unknown : db.ledger.books.find? (log.marketKey marketId) = none →
      ∀ after : Database, after.ledger = db.ledger →
        Keeps ledgerJournal Failing (body none) post after writes)
    (known : ∀ book, db.ledger.books.find? (log.marketKey marketId) = some book →
      ∀ after : Database, after.ledger = db.ledger →
        Keeps ledgerJournal Failing (body (some (log.marketKey marketId))) post after writes) :
    Keeps ledgerJournal Failing (EventProcessor.marketRef log.address marketId >>= body) post db
      writes := by
  refine Keeps.bind_silent (keeps_marketRef log marketId) fun ref after found same => ?_
  have sameLedger : after.ledger = db.ledger := same
  rw [same] at found
  cases present : db.ledger.books.find? (log.marketKey marketId) with
  | none =>
      have absent : ref = none := by
        rw [found]
        change (db.ledger.books.find? _).map _ = _
        rw [present]
        rfl
      rw [absent]
      exact unknown present after sameLedger
  | some book =>
      have reference : ref = some (log.marketKey marketId) := by
        rw [found]
        change (db.ledger.books.find? _).map _ = _
        rw [present]
        rfl
      rw [reference]
      exact known book present after sameLedger

private theorem keeps_createMarket (ext : Externals) (log : NormalizedLog) (a : MarketCreated) :
    Keeps ledgerJournal Failing (EventProcessor.createMarket ext log a) (fun _ _ => True) db
      [.openBook (log.marketKey a.marketId) (openingBook a)] := by
  refine Keeps.bind_silent (keeps_quietly (callsOnly_ensureCategory silent_of_beside _))
    fun _ _ _ _ => ?_
  refine Keeps.bind_silent (keeps_quietly (callsOnly_bigIntDiv _ _)) fun price _ _ _ => ?_
  refine Keeps.bind_silent (keeps_quietly (.perform rfl)) fun draft before _ _ => ?_
  refine Keeps.bind_write (keeps_upsertMarket _ _ _ ?_) fun _ _ _ _ => keeps_quietly ?_
  · simp [Market.book, openingBook, Function.comp_def]
  · refine .bind (callsOnly_markAdopted silent_of_beside _ _ _) fun _ => ?_
    refine .bind (.perform rfl) fun _ => ?_
    exact .bind (callsOnly_toISOString _) fun _ => callsOnly_publish silent_of_beside _ _

private theorem keeps_insertTrade (log : NormalizedLog) (side : TradeSide) (a : TradeArgs) :
    Keeps ledgerJournal Failing
      (EventProcessor.insertTrade log a.account (log.marketKey a.marketId) side a.outcomeId a.shares
        a.amount a.spreadWad (EventProcessor.averagePriceWad a.amount a.shares))
      (fun _ _ => True) db [.trade (tradeKey log) (tradeRow log side a)] :=
  keeps_upsertTrade _ _

private theorem keeps_onTrade_buy (log : NormalizedLog) (a : TradeArgs)
    (touched : List MarketKey) :
    Keeps ledgerJournal Failing (EventProcessor.onTrade log .buy a touched) (fun _ _ => True) db
      (match db.ledger.books.find? (log.marketKey a.marketId) with
        | none => []
        | some _ =>
            [.trade (tradeKey log) (tradeRow log .buy a),
              .movePot (log.marketKey a.marketId) a.amount,
              .moveStock (log.marketKey a.marketId) a.outcomeId a.shares,
              .buy (positionKey log a a.outcomeId) a.shares a.amount]) := by
  refine keeps_ofMarket (fun absent _ _ => ?_) fun book present after _ => ?_
  · rw [absent]
    exact .pure trivial
  · rw [present]
    refine Keeps.bind_write (keeps_insertTrade log .buy a) fun _ _ _ _ => ?_
    refine Keeps.bind_write (keeps_movePot _ _ a.amount (fun pot => rfl) fun still => ?_)
      fun _ _ _ _ => ?_
    · simpa [DecimalUpdate.moves] using still
    · refine Keeps.bind_write (keeps_moveStock _ _ _) fun _ _ _ _ => ?_
      refine Keeps.bind_write (keeps_buy _ _ _ _ _) fun _ _ _ _ => keeps_quietly ?_
      exact callsOnly_announceTrade silent_of_beside _ _ _ _

private theorem keeps_onTrade_sell (log : NormalizedLog) (a : TradeArgs)
    (touched : List MarketKey) :
    Keeps ledgerJournal Failing (EventProcessor.onTrade log .sell a touched) (fun _ _ => True) db
      (match db.ledger.books.find? (log.marketKey a.marketId) with
        | none => []
        | some _ =>
            [.trade (tradeKey log) (tradeRow log .sell a),
              .movePot (log.marketKey a.marketId) (-a.amount),
              .moveStock (log.marketKey a.marketId) a.outcomeId (-a.shares),
              .sell (positionKey log a a.outcomeId) a.shares a.amount]) := by
  refine keeps_ofMarket (fun absent _ _ => ?_) fun book present after _ => ?_
  · rw [absent]
    exact .pure trivial
  · rw [present]
    refine Keeps.bind_write (keeps_insertTrade log .sell a) fun _ _ _ _ => ?_
    refine Keeps.bind_write (keeps_movePot _ _ (-a.amount) (fun pot => rfl) fun still => ?_)
      fun _ _ _ _ => ?_
    · simpa [DecimalUpdate.moves] using still
    · refine Keeps.bind_write (keeps_moveStock _ _ _) fun _ _ _ _ => ?_
      refine Keeps.bind_write (keeps_sell _ _ _ _ _) fun _ _ _ _ => keeps_quietly ?_
      exact callsOnly_announceTrade silent_of_beside _ _ _ _

private theorem keeps_onShort (log : NormalizedLog) (a : TradeArgs) (touched : List MarketKey) :
    Keeps ledgerJournal Failing (EventProcessor.onShort log a touched) (fun _ _ => True) db
      (match db.ledger.books.find? (log.marketKey a.marketId) with
        | none => []
        | some book => shortWrites log a book.outcomeCount) := by
  refine keeps_ofMarket (fun absent _ _ => ?_) fun book present after same => ?_
  · rw [absent]
    exact .pure trivial
  · rw [present]
    refine Keeps.bind_silent (keeps_findMarketById _) fun row found read again => ?_
    change row.map Market.book = found.ledger.books.find? _ at read
    have sameLedger : found.ledger = db.ledger := again.trans same
    rw [sameLedger, present] at read
    cases row with
    | none => cases read
    | some market =>
        have count : market.outcomeCount = book.outcomeCount := by
          cases read
          rfl
        simp only [count, shortWrites]
        split
        · exact .pure trivial
        · refine Keeps.bind_write (keeps_insertTrade log .short a) fun _ _ _ _ => ?_
          refine Keeps.bind (Keeps.forEach fun leg _ before => ?_) fun _ _ _ _ => ?_
          · refine Keeps.bind_write (keeps_moveStock _ _ _) fun _ _ _ _ => ?_
            have key : (⟨log.marketKey a.marketId, a.account.toLowerCase.toLowerCase, leg.1⟩ :
                PositionKey) = positionKey log a leg.1 := by
              rw [JsString.toLowerCase_toLowerCase]
              rfl
            rw [← key]
            exact keeps_buy _ _ _ _ _
          · refine Keeps.bind_write (keeps_movePot _ _ a.amount (fun pot => rfl) fun still => ?_)
              fun _ _ _ _ => keeps_quietly (callsOnly_announceTrade silent_of_beside _ _ _ _)
            simpa [DecimalUpdate.moves] using still

private theorem keeps_onResolved (log : NormalizedLog)
    (marketId winningOutcomeId owed surplus : Nat) :
    Keeps ledgerJournal Failing
      (EventProcessor.onResolved log marketId winningOutcomeId owed surplus) (fun _ _ => True) db
      (match db.ledger.books.find? (log.marketKey marketId) with
        | none => []
        | some _ => [.setPot (log.marketKey marketId) owed]) := by
  refine keeps_ofMarket (fun absent _ _ => ?_) fun book present after _ => ?_
  · rw [absent]
    exact .pure trivial
  · rw [present]
    refine Keeps.bind_write (keeps_setPot _ _ _ rfl) fun _ _ _ _ => keeps_quietly ?_
    exact .bind (.perform rfl) fun _ => callsOnly_publish silent_of_beside _ _

private theorem callsOnly_onInvalidated (log : NormalizedLog) (marketId surplus : Nat) :
    (EventProcessor.onInvalidated log marketId surplus).CallsOnly fun call => call.silent := by
  refine .bind (.bind (.perform rfl) fun _ => trivial) fun ref => ?_
  cases ref with
  | none => trivial
  | some ref =>
      refine .bind (.perform rfl) fun _ => .bind (.perform rfl) fun _ => ?_
      exact callsOnly_publish silent_of_beside _ _

private theorem keeps_onRedeem (log : NormalizedLog) (marketId : Nat) (account : JsString)
    (payout : Nat) :
    Keeps ledgerJournal Failing (EventProcessor.onRedeem log marketId account payout)
      (fun _ _ => True) db
      (match db.ledger.books.find? (log.marketKey marketId) with
        | none => []
        | some _ =>
            [.redeem (log.marketKey marketId) account.toLowerCase payout,
              .movePot (log.marketKey marketId) (-payout)]) := by
  refine keeps_ofMarket (fun absent _ _ => ?_) fun book present after _ => ?_
  · rw [absent]
    exact .pure trivial
  · rw [present]
    refine Keeps.bind_write (keeps_redeem _ _ _) fun _ _ _ _ => ?_
    refine Keeps.bind_write (keeps_movePot _ _ (-payout) (fun pot => ?_) fun still => ?_)
      fun _ _ _ _ => keeps_quietly (.perform rfl)
    · exact sub_eq_add_neg _ _
    · simpa [DecimalUpdate.moves] using still

private theorem keeps_onSeedRedeemed (log : NormalizedLog) (marketId amount : Nat) :
    Keeps ledgerJournal Failing (EventProcessor.onSeedRedeemed log marketId amount)
      (fun _ _ => True) db
      (match db.ledger.books.find? (log.marketKey marketId) with
        | none => []
        | some _ => if amount = 0 then [] else [.movePot (log.marketKey marketId) (-amount)]) := by
  refine keeps_ofMarket (fun absent _ _ => ?_) fun book present after _ => ?_
  · rw [absent]
    exact .pure trivial
  · rw [present]
    dsimp only
    split
    · exact .pure trivial
    · refine Keeps.bind_write (keeps_movePot _ _ (-amount) (fun pot => ?_) fun still => ?_)
        fun _ _ _ _ => keeps_quietly (.perform rfl)
      · exact sub_eq_add_neg _ _
      · simpa [DecimalUpdate.moves] using still

/-! ## The batch -/

/-- A handler whose result is the set of traded markets as it was. -/
private theorem keeps_unchanged {handler : Chain Unit} {touched : List MarketKey}
    (keeps : Keeps ledgerJournal Failing handler (fun _ _ => True) db writes) :
    Keeps ledgerJournal Failing (do handler; return touched) (fun _ _ => True) db writes := by
  rw [← List.append_nil writes]
  refine Keeps.bind keeps fun _ _ _ _ => ?_
  exact Keeps.pure trivial

private theorem callsOnly_unchanged {handler : Chain Unit} {touched : List MarketKey}
    (only : handler.CallsOnly fun call => call.silent) :
    (do handler; return touched : Chain (List MarketKey)).CallsOnly fun call => call.silent :=
  .bind only fun _ => trivial

/-- **One log.** The handler of a log performs the writes of the log. -/
theorem keeps_apply (ext : Externals) (log : NormalizedLog) (touched : List MarketKey) :
    Keeps ledgerJournal Failing (EventProcessor.apply ext log touched) (fun _ _ => True) db
      (logWrites db.ledger.books.find? log) := by
  by_cases engine : log.kind = .lsLmsr
  · unfold EventProcessor.apply logWrites engineWrites
    rw [engine]
    cases log.event with
    | marketCreated a => exact keeps_unchanged (keeps_createMarket _ _ _)
    | marketMetadataPublished a =>
        exact keeps_quietly
          (callsOnly_unchanged (callsOnly_onMetadataPublished silent_of_beside _ _ _))
    | bought a => exact keeps_onTrade_buy _ _ _
    | sold a => exact keeps_onTrade_sell _ _ _
    | shorted a => exact keeps_onShort _ _ _
    | marketResolved marketId winningOutcomeId owed surplus =>
        exact keeps_unchanged (keeps_onResolved _ _ _ _ _)
    | marketInvalidated marketId surplus =>
        exact keeps_quietly (callsOnly_unchanged (callsOnly_onInvalidated _ _ _))
    | redeemed marketId account amount => exact keeps_unchanged (keeps_onRedeem _ _ _ _)
    | seedRedeemed marketId creator amount => exact keeps_unchanged (keeps_onSeedRedeemed _ _ _)
    | _ => exact .pure trivial
  · have noWrites : logWrites db.ledger.books.find? log = [] := by
      unfold logWrites
      cases kind : log.kind with
      | lsLmsr => exact absurd kind engine
      | optimisticResolver => rfl
      | tradingBlocklist => rfl
    rw [noWrites]
    exact keeps_quietly (callsOnly_apply ext log touched engine)

/-- The handlers of a list of logs perform their writes one log after the other. -/
private theorem keeps_applyLogs (ext : Externals) (logs : List NormalizedLog)
    (touched : List MarketKey) :
    Keeps ledgerJournal Failing (EventProcessor.applyLogs ext logs touched) (fun _ _ => True) db
      (batchWrites logs db.ledger) := by
  induction logs generalizing db touched with
  | nil => exact .pure trivial
  | cons log rest ih =>
      rw [EventProcessor.applyLogs, Async.tryCatch_throw]
      refine Keeps.bind (keeps_apply ext log touched) fun touched after _ reached => ?_
      have sameLedger : after.ledger =
          ledgerJournal.replay (logWrites db.ledger.books.find? log) db.ledger := reached
      rw [← sameLedger]
      exact ih touched

/-- **One batch.** Wherever `processBatch` is stopped it has performed a prefix of
the writes of its logs, and once it has returned all of them. -/
theorem keeps_processBatch (ext : Externals) (logs : List NormalizedLog) :
    Keeps ledgerJournal Failing (EventProcessor.processBatch ext logs) (fun _ _ => True) db
      (batchWrites logs db.ledger) := by
  rw [← List.append_nil (batchWrites logs db.ledger)]
  refine Keeps.bind (keeps_applyLogs ext logs []) fun touched _ _ _ => ?_
  exact keeps_quietly (.forEach fun ref =>
    callsOnly_refreshPrices silent_of_beside (fun _ _ => rfl) ext logs ref)

/-- Replaying the writes of a batch is applying its logs. -/
theorem replay_batchWrites (logs : List NormalizedLog) (ledger : Ledger) :
    ledgerJournal.replay (batchWrites logs ledger) ledger = ledger.applyLogs logs := by
  induction logs generalizing ledger with
  | nil => rfl
  | cons log rest ih =>
      rw [batchWrites, Journal.replay_append, ih]
      rfl

/-- **The ledger after a batch.** A batch that returned has applied its logs to
the ledger, one after the other. -/
theorem ledger_of_processBatch {ext : Externals} {logs : List NormalizedLog} {final : Database}
    {records : List Call}
    (returned : Async.Reaches Failing (EventProcessor.processBatch ext logs) db records
      (.done (.ok ())) final) :
    final.ledger = db.ledger.applyLogs logs := by
  have performed := (keeps_processBatch ext logs).returns returned
  rw [← replay_batchWrites]
  exact performed.1

/-! ## Runs -/

/-- The logs are processed in order, each once, in batches that all return. -/
inductive Processed (ext : Externals) : Database → List NormalizedLog → Database → Prop where
  | nil (db : Database) : Processed ext db [] db
  | batch {db middle final : Database} {logs rest : List NormalizedLog} {records : List Call}
      (returned : Async.Reaches Failing (EventProcessor.processBatch ext logs) db records
        (.done (.ok ())) middle)
      (later : Processed ext middle rest final) :
      Processed ext db (logs ++ rest) final

theorem Ledger.applyLogs_append (ledger : Ledger) (first second : List NormalizedLog) :
    ledger.applyLogs (first ++ second) = (ledger.applyLogs first).applyLogs second := by
  induction first generalizing ledger with
  | nil => rfl
  | cons log rest ih => exact ih _

/-- **The ledger after a run.** However the logs are cut into batches, they are
applied to the ledger one after the other. -/
theorem Processed.ledger {ext : Externals} {logs : List NormalizedLog} {final : Database}
    (run : Processed ext db logs final) : final.ledger = db.ledger.applyLogs logs := by
  induction run with
  | nil db => rfl
  | batch returned _ ih =>
      rw [ih, ledger_of_processBatch returned, Ledger.applyLogs_append]

/-- What holds of every log of a run in the ledger just before it. -/
def Ledger.EachLog (holds : Ledger → NormalizedLog → Prop) :
    Ledger → List NormalizedLog → Prop
  | _, [] => True
  | ledger, log :: rest => holds ledger log ∧ EachLog holds (ledger.applyLogs [log]) rest

theorem Ledger.eachLog_append (holds : Ledger → NormalizedLog → Prop) (ledger : Ledger)
    (first second : List NormalizedLog) :
    ledger.EachLog holds (first ++ second) ↔
      ledger.EachLog holds first ∧ (ledger.applyLogs first).EachLog holds second := by
  induction first generalizing ledger with
  | nil => simp [Ledger.EachLog, Ledger.applyLogs]
  | cons log rest ih =>
      simp only [List.cons_append, Ledger.EachLog, ih, and_assoc]
      rfl

/-! ## What no write changes -/

/-- A book that exists keeps its outcome count under every write. -/
theorem find?_apply_outcomeCount (write : Write) {ledger : Ledger} {key : MarketKey} {book : Book}
    (present : ledger.books.find? key = some book) :
    ∃ later, (write.apply ledger).books.find? key = some later ∧
      later.outcomeCount = book.outcomeCount := by
  have modified : ∀ (other : MarketKey) (change : Book → Book),
      (∀ book, (change book).outcomeCount = book.outcomeCount) →
      ∃ later, (ledger.books.modify other change).find? key = some later ∧
        later.outcomeCount = book.outcomeCount := by
    intro other change keeps
    rw [Table.find?_modify]
    by_cases same : key = other
    · subst same
      rw [present]
      exact ⟨change book, by simp, keeps book⟩
    · rw [if_neg same]
      exact ⟨book, present, rfl⟩
  cases write with
  | openBook other created =>
      simp only [Write.apply, Table.find?_insertNew]
      by_cases same : key = other
      · subst same
        rw [present]
        exact ⟨book, by simp, rfl⟩
      · rw [if_neg same]
        exact ⟨book, present, rfl⟩
  | movePot other amount => exact modified other _ fun _ => rfl
  | setPot other amount => exact modified other _ fun _ => rfl
  | moveStock other index shares => exact modified other _ fun _ => rfl
  | trade _ _ => exact ⟨book, present, rfl⟩
  | buy _ _ _ => exact ⟨book, present, rfl⟩
  | sell _ _ _ => exact ⟨book, present, rfl⟩
  | redeem _ _ _ => exact ⟨book, present, rfl⟩

theorem find?_replay_outcomeCount (writes : List Write) {ledger : Ledger} {key : MarketKey}
    {book : Book} (present : ledger.books.find? key = some book) :
    ∃ later, (ledgerJournal.replay writes ledger).books.find? key = some later ∧
      later.outcomeCount = book.outcomeCount := by
  induction writes generalizing ledger book with
  | nil => exact ⟨book, present, rfl⟩
  | cons write rest ih =>
      obtain ⟨middle, found, same⟩ := find?_apply_outcomeCount write present
      obtain ⟨later, foundLater, sameLater⟩ := ih found
      exact ⟨later, foundLater, sameLater.trans same⟩

/-! ## Computed runs -/

/-- The failing environment may perform and answer every call. -/
theorem Failing.reaches_stopped (outside : Outside) (count : Nat) (task : Chain α)
    (db : Database) :
    Async.Reaches Failing task db (Async.callsMade (respond outside) count task db)
      (Async.stopped (respond outside) count task db).1
      (Async.stopped (respond outside) count task db).2 :=
  (Async.reaches_stopped (respond outside) (fun _ _ => ⟨outside, rfl⟩) count task db).mono
    Async.Reliable.unreliable

/-- A batch whose calls are all performed and answered, once it has returned. -/
theorem Processed.of_stopped {ext : Externals} {logs : List NormalizedLog} (outside : Outside)
    (count : Nat)
    (returned : (Async.stopped (respond outside) count (EventProcessor.processBatch ext logs)
      db).1.outcome? = some (.ok ())) :
    Processed ext db logs
      (Async.stopped (respond outside) count (EventProcessor.processBatch ext logs) db).2 := by
  have path := Failing.reaches_stopped outside count (EventProcessor.processBatch ext logs) db
  rw [Async.eq_done_of_outcome? returned] at path
  have run := Processed.batch path (.nil _)
  rw [List.append_nil] at run
  exact run

namespace Sample

/-- No chain client, categories that decode to nothing, and a hash that is never
compared. -/
def externals : Externals := ⟨false, fun _ => some [], fun _ => []⟩

def outside : Outside := ⟨.error .unavailable, ⟨0⟩⟩

def engine : JsString := JsString.ascii "0xe0"

def alice : JsString := JsString.ascii "0xa1"

def market : MarketKey := ⟨engine, 1⟩

/-- An engine log of market 1, the `index`-th of its block. -/
def log (index : Nat) (event : Event) : NormalizedLog :=
  ⟨.lsLmsr, engine, event, 7, JsString.ascii "0x77", index, ⟨1000⟩⟩

/-- A purchase or sale of an outcome by Alice. -/
def trade (outcomeId shares amount : Nat) : TradeArgs := ⟨1, alice, outcomeId, shares, amount, 0⟩

/-- The creation of market 1 with some number of outcomes, seeded with 100. -/
def created (outcomeCount : Nat) : NormalizedLog :=
  log 0 (.marketCreated ⟨1, [], [], [], outcomeCount, 0, 9, 1, 1, 100, 100, [], []⟩)

/-- The database a list of logs leaves when every call is performed and answered. -/
def after (logs : List NormalizedLog) (db : Database) : Database :=
  (Async.stopped (respond outside) 400 (EventProcessor.processBatch externals logs) db).2

/-- The database right after market 1 was created. -/
def opened (outcomeCount : Nat) : Database := after [created outcomeCount] .empty

end Sample

end Numera
