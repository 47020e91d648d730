import Numera.Chain.Refinement

/-! # Announcements

What the processor publishes while it applies a batch. A client that hears of a change
asks the API next, so nothing may be announced before the database has it
(`announcements_hold`): at the moment of each message the trade is a row, the status and
the phase are those of the row, and the prices are those of the outcomes. Trades are
announced one by one, in the order in which they are handed to the database, and all of
them once the batch returns; wherever a batch is stopped, one at most is still to be
announced.
-/

namespace Numera

open Async (CallsOnly Guarded Reaches)

/-! ## Messages -/

/-- The message about a trade row. -/
def tradeData (key : TradeKey) (row : Trade) : RealtimeData :=
  .trade row.side row.account row.outcomeIndex row.shares.toNat row.amount.toNat
    row.spreadWad.toNat row.priceWad.toNat key.txHash row.timestamp

def RealtimeData.isTrade : RealtimeData → Bool
  | trade .. => true
  | _ => false

/-- What a message other than of a trade says holds of a database. -/
def RealtimeData.Holds (db : Database) (ref : Option MarketKey) : RealtimeData → Prop
  | marketCreated key _ _ => (db.markets.find? key).isSome
  | trade .. => True
  | marketStatus status winningOutcomeId =>
      ∃ key row, ref = some key ∧ db.markets.find? key = some row ∧ row.status = status ∧
        ∀ outcome ∈ winningOutcomeId, row.winningOutcomeId = some outcome
  | resolution phase disputeDeadline =>
      ∃ key, ref = some key ∧
        phase = ((db.resolutions.find? key).map ResolutionProposal.phase).getD .none ∧
        disputeDeadline = (db.resolutions.find? key).bind ResolutionProposal.disputeDeadline
  | price prices =>
      ∃ key row, ref = some key ∧ db.markets.find? key = some row ∧
        ∀ index price : Nat, prices[index]? = some price →
          (row.outcomes[index]?).map Outcome.currentPriceWad = some (price : Int)

/-- What a message says holds of a database; a trade is a row of it. -/
def RealtimeMessage.Holds (db : Database) (message : RealtimeMessage) : Prop :=
  message.data.Holds db message.marketRef ∧
    (message.data.isTrade → ∃ key row, db.trades.find? key = some row ∧
      message.marketRef = some row.marketRef ∧ message.data = tradeData key row)

/-- The trade a log is about, with its side. -/
def NormalizedLog.trade? (log : NormalizedLog) : Option (TradeSide × TradeArgs) :=
  match log.kind, log.event with
  | .lsLmsr, .bought args => some (.buy, args)
  | .lsLmsr, .sold args => some (.sell, args)
  | .lsLmsr, .shorted args => some (.short, args)
  | _, _ => none

/-- A trade row on its way, and the log it is of. -/
abbrev TradeEntry : Type := TradeKey × Trade

def TradeEntry.IsOf (logs : List NormalizedLog) (entry : TradeEntry) : Prop :=
  ∃ log ∈ logs, ∃ side args, log.trade? = some (side, args) ∧
    entry = (tradeKey log, tradeRow log side args)

/-- What is announced of an entry. -/
def TradeEntry.announced (entry : TradeEntry) : Option MarketKey × RealtimeData :=
  (some entry.2.marketRef, tradeData entry.1 entry.2)

/-- The trades that have been handed to the database. -/
def tradesHanded (calls : List Call) : List TradeEntry :=
  calls.filterMap fun call =>
    match call with
    | .upsertTrade key create => some (key, create)
    | _ => none

/-- The trades that have been announced. -/
def tradesAnnounced (calls : List Call) : List (Option MarketKey × RealtimeData) :=
  calls.filterMap fun call =>
    match call with
    | .redisPublish message =>
        if message.data.isTrade then some (message.marketRef, message.data) else none
    | _ => none

/-- Every stored row of a trade of the logs is as the log has it. -/
def Faithful (logs : List NormalizedLog) (db : Database) : Prop :=
  ∀ log ∈ logs, ∀ side args, log.trade? = some (side, args) →
    ∀ row, db.trades.find? (tradeKey log) = some row → row = tradeRow log side args

/-! ## The feed -/

/-- The trade that is handed over and not announced, after a call. -/
def awaiting (pending : Option TradeEntry) : Call → Option TradeEntry
  | .upsertTrade key create => some (key, create)
  | .redisPublish message => if message.data.isTrade then none else pending
  | _ => pending

/-- The environment of the processor, which keeps the trade that awaits its message. -/
abbrev Feeding : Async.Environment Call.Answer Failure (Database × Option TradeEntry) Call :=
  Failing.summarised awaiting

/-- What may be said: a trade that awaits it and is stored, or else what holds. -/
def MaySay (db : Database) (pending : Option TradeEntry) (ref : Option MarketKey)
    (data : RealtimeData) : Prop :=
  data.Holds db ref ∧ (data.isTrade → ∃ entry : TradeEntry, pending = some entry ∧
    (ref, data) = entry.announced ∧ (db.trades.find? entry.1).isSome)

/-- The calls that are in order. A trade is handed over when none awaits its message. -/
def InOrder (logs : List NormalizedLog) (call : Call) (state : Database × Option TradeEntry) :
    Prop :=
  match call with
  | .upsertTrade key create => state.2 = none ∧ TradeEntry.IsOf logs (key, create)
  | .redisPublish message => MaySay state.1 state.2 message.marketRef message.data
  | _ => True

/-- A computation makes its calls in order, and what it returns is as required. -/
def Feeds {α : Type} (logs : List NormalizedLog) (post : α → Database × Option TradeEntry → Prop)
    (task : Chain α) (state : Database × Option TradeEntry) : Prop :=
  Guarded Feeding (InOrder logs) (fun outcome final => ∀ value, outcome = .ok value →
    post value final) task state

variable {logs : List NormalizedLog} {α β : Type} {state : Database × Option TradeEntry}
  {db : Database} {pending : Option TradeEntry}

namespace Feeds

theorem pure {post : α → Database × Option TradeEntry → Prop} {value : α} (done : post value state) :
    Feeds logs post (Async.done (.ok value)) state := by
  rintro other same
  rw [← Except.ok.inj same]
  exact done

theorem throw {post : α → Database × Option TradeEntry → Prop} (thrown : Failure) :
    Feeds logs post (Async.done (.error thrown)) state := nofun

theorem mono {post weaker : α → Database × Option TradeEntry → Prop} {task : Chain α}
    (feeds : Feeds logs post task state)
    (implies : ∀ value final, post value final → weaker value final) :
    Feeds logs weaker task state :=
  Guarded.mono feeds fun _ final required value same => implies value final (required value same)

theorem bind {post : β → Database × Option TradeEntry → Prop} {first : Chain α}
    {rest : α → Chain β}
    (feeds : Feeds logs (fun value after => Feeds logs post (rest value) after) first state) :
    Feeds logs post (first >>= rest) state := by
  refine Guarded.bind (Guarded.mono feeds fun outcome final required => ?_)
  cases outcome with
  | ok value => exact required value rfl
  | error thrown => exact nofun

/-- A call, and the state it leaves when it is answered. -/
theorem await {call : Call} {post : call.Answer → Database × Option TradeEntry → Prop}
    (ordered : InOrder logs call (db, pending))
    (answered : ∀ outside, call.refusal outside db = none →
      post (call.answer outside db) (call.effect db, awaiting pending call)) :
    Feeds logs post (Numera.await call) (db, pending) := by
  refine Guarded.perform ordered fun answer record later given value same => ?_
  subst same
  obtain ⟨db', pending'⟩ := later
  obtain ⟨given, kept⟩ := given
  cases given with
  | performed performed =>
      rcases performs_cases performed with ⟨_, wrong, -⟩ | ⟨outside, admitted, right, moved⟩
      · cases wrong
      · obtain rfl := Except.ok.inj right
        dsimp only at moved kept
        rw [moved, kept]
        exact answered outside admitted

/-- Calls that hand over no trade and say nothing. -/
theorem of_callsOnly {allowed : Call → Prop} (holds : Database → Prop) {task : Chain α}
    (only : task.CallsOnly allowed)
    (silent : ∀ call, allowed call → ∀ pending, awaiting pending call = pending)
    (ordered : ∀ call state, allowed call → InOrder logs call state)
    (kept : ∀ call db, allowed call → holds db → holds (Call.effect call db))
    (initially : holds db) :
    Feeds logs (fun _ final => holds final.1 ∧ final.2 = pending) task (db, pending) := by
  refine Guarded.mono (Guarded.of_callsOnly (fun final => holds final.1 ∧
    final.2 = pending) only (fun call before member _ => ordered call before member) ?_
    ⟨initially, rfl⟩) fun _ _ holds _ _ => holds
  rintro call ⟨before, pending⟩ answer record ⟨later, pending'⟩ member ⟨answered, same⟩ ⟨held, rfl⟩
  have performed : ∀ reply, Performs call before reply later → holds later := by
    intro reply done
    rcases performs_cases done with ⟨-, -, rfl⟩ | ⟨-, -, -, rfl⟩
    · exact held
    · exact kept call before member held
  dsimp only at same answered ⊢
  cases answered with
  | performed done => exact ⟨performed _ done, by rw [same]; exact silent call member _⟩
  | refused _ => exact ⟨held, same⟩
  | lost _ done => exact ⟨performed _ done, by rw [same]; exact silent call member _⟩

end Feeds

/-- A call that neither hands over a trade nor says anything, and removes no trade. -/
def Call.quiet : Call → Prop
  | upsertTrade _ _ | redisPublish _ => False
  | _ => True

theorem Call.trades_of_quiet {call : Call} (quiet : call.quiet) (db : Database) :
    (call.effect db).trades = db.trades := by
  cases call <;> first | rfl | exact quiet.elim

/-- Quiet calls leave the trades as they are, and what awaits its message. -/
theorem Feeds.of_quiet {task : Chain α} (only : task.CallsOnly Call.quiet) :
    Feeds logs (fun _ final => final.1.trades = db.trades ∧ final.2 = pending) task (db, pending) := by
  refine Feeds.of_callsOnly (fun later => later.trades = db.trades) only ?_ ?_ ?_ rfl
  · intro call quiet pending
    cases call <;> first | rfl | exact quiet.elim
  · intro call state quiet
    cases call <;> trivial
  · intro call db quiet same
    rw [Call.trades_of_quiet quiet, same]

namespace EventProcessor

variable (ext : Externals)

/-! ## Quiet parts -/

theorem quiet_marketRef (rawAddress : JsString) (marketId : Nat) :
    (marketRef rawAddress marketId).CallsOnly Call.quiet :=
  .bind (.perform trivial) fun _ => trivial

theorem quiet_resolutionKey (market : JsString) (marketId : Nat) :
    (resolutionKey market marketId).CallsOnly Call.quiet :=
  .bind (.perform trivial) fun _ => trivial

theorem quiet_ensureCategory (key : Option JsString) :
    (ensureCategory key).CallsOnly Call.quiet := by
  unfold ensureCategory
  split
  · exact .perform trivial
  · trivial

theorem quiet_bigIntOfDecimal (value : Int) : (bigIntOfDecimal value).CallsOnly Call.quiet :=
  callsOnly_bigIntOfDecimal value

theorem quiet_updatePosition (ref : MarketKey) (rawAccount : JsString) (outcomeIndex : Nat)
    (side : TradeSide) (shares amount : Nat) :
    (updatePosition ref rawAccount outcomeIndex side shares amount).CallsOnly Call.quiet := by
  refine .bind (.perform trivial) fun existing => ?_
  dsimp only
  split
  · refine .bind (quiet_bigIntOfDecimal _) fun _ => .bind (quiet_bigIntOfDecimal _) fun _ => ?_
    exact .perform trivial
  · exact .perform trivial

/-- The legs of a short. -/
theorem quiet_legs (ref : MarketKey) (account : JsString) (shares : Nat) (basis : Nat → Nat)
    (legs : List (Nat × Nat)) :
    (Async.forEach legs fun (i, k) => do
      let basis := basis k
      await (.updateOutcome ref i { currentShares := some (.increment shares) })
      updatePosition ref account i .buy shares basis : Chain Unit).CallsOnly Call.quiet :=
  .forEach fun _ => .bind (.perform trivial) fun _ => quiet_updatePosition _ _ _ _ _ _

theorem quiet_onMetadataPublished (log : NormalizedLog) (a : MarketMetadataPublished) :
    (onMetadataPublished ext log a).CallsOnly Call.quiet := by
  refine .bind (quiet_marketRef _ _) fun ref => ?_
  cases ref with
  | none => trivial
  | some ref =>
      dsimp only
      split
      · refine .bind (quiet_ensureCategory _) fun _ => .bind (.perform trivial) fun _ => ?_
        refine .bind (.perform trivial) fun market => ?_
        exact .bind (.forEach fun _ => .perform trivial) fun _ => .perform trivial
      · trivial

theorem quiet_onRedeem (log : NormalizedLog) (marketId : Nat) (rawAccount : JsString)
    (payout : Nat) : (onRedeem log marketId rawAccount payout).CallsOnly Call.quiet := by
  refine .bind (quiet_marketRef _ _) fun ref => ?_
  cases ref with
  | none => trivial
  | some ref =>
      exact .bind (.perform trivial) fun _ => .bind (.perform trivial) fun _ => .perform trivial

theorem quiet_onSeedRedeemed (log : NormalizedLog) (marketId amount : Nat) :
    (onSeedRedeemed log marketId amount).CallsOnly Call.quiet := by
  refine .bind (quiet_marketRef _ _) fun ref => ?_
  cases ref with
  | none => trivial
  | some ref =>
      dsimp only
      split
      · trivial
      · exact .bind (.perform trivial) fun _ => .perform trivial

theorem quiet_onSlashed (log : NormalizedLog) (a : Slashed) :
    (onSlashed log a).CallsOnly Call.quiet :=
  .bind (quiet_resolutionKey _ _) fun _ => .perform trivial

/-- The clock is asked, at most. -/
theorem dateNow_latestTs (batch : List NormalizedLog) (ref : MarketKey) :
    (latestTs batch ref).CallsOnly fun call => call = .dateNow := by
  unfold latestTs
  dsimp only
  split
  · exact .perform rfl
  · trivial

/-! ## Saying something -/

theorem feeds_toISOString (date : Date) :
    Feeds logs (fun shown final => shown = date ∧ final = state) (toISOString date) state := by
  unfold toISOString
  split
  · exact .pure ⟨rfl, rfl⟩
  · exact .throw _

/-- A market that was looked up is there. -/
theorem feeds_marketRef (rawAddress : JsString) (marketId : Nat) :
    Feeds logs (fun ref final => final = (db, pending) ∧
        ∀ key, ref = some key → key = ⟨rawAddress.toLowerCase, marketId⟩ ∧
          (db.markets.find? key).isSome)
      (marketRef rawAddress marketId) (db, pending) := by
  refine .bind (.await trivial fun outside _ => .pure ⟨rfl, fun key found => ?_⟩)
  obtain ⟨row, present, rfl⟩ := Option.map_eq_some_iff.mp found
  exact ⟨rfl, Option.isSome_iff_exists.mpr ⟨row, present⟩⟩

theorem feeds_resolutionKey (market : JsString) (marketId : Nat) :
    Feeds logs (fun found final => final = (db, pending) ∧ ∀ key, found.2 = some key → key = found.1)
      (resolutionKey market marketId) (db, pending) := by
  refine .bind (.await trivial fun outside _ => .pure ⟨rfl, fun key found => ?_⟩)
  obtain ⟨row, -, rfl⟩ := Option.map_eq_some_iff.mp found
  rfl

/-- What may be said is said. -/
theorem feeds_publish {ref : Option MarketKey} {data : RealtimeData}
    (said : MaySay db pending ref data) :
    Feeds logs (fun _ final => final = (db, if data.isTrade then none else pending))
      (publish ref data) (db, pending) := by
  refine .bind (.await trivial fun outside _ => ?_)
  exact .await said fun _ _ => rfl

/-- What is not about a trade. -/
theorem feeds_publish_holds {ref : Option MarketKey} {data : RealtimeData}
    (other : data.isTrade = false) (holds : data.Holds db ref) :
    Feeds logs (fun _ final => final.2 = pending) (publish ref data) (db, pending) := by
  refine (feeds_publish ⟨holds, fun trade => ?_⟩).mono fun _ final same => ?_
  · rw [other] at trade
    cases trade
  · rw [same, other]
    rfl

/-- A trade that awaits its message, after its last write. -/
theorem feeds_announceTrade (entry : TradeEntry) {ref : MarketKey} {data : RealtimeData}
    (touched : List MarketKey) (trade : data.isTrade = true) (awaits : pending = some entry)
    (announced : (some ref, data) = entry.announced) (stored : (db.trades.find? entry.1).isSome) :
    Feeds logs (fun _ final => final.2 = none) (do
      publishMarket ref data
      return touched : Chain (List MarketKey)) (db, pending) := by
  have holds : data.Holds db (some ref) := by
    cases data with
    | trade => trivial
    | _ => cases trade
  refine .bind ((feeds_publish ⟨holds, fun _ => ⟨entry, awaits, announced, stored⟩⟩).mono ?_)
  rintro _ _ rfl
  refine .pure ?_
  dsimp only
  rw [trade]
  rfl

/-! ## The handlers -/

/-- What has been inserted is there. -/
theorem isSome_insertNew {κ ρ : Type} [DecidableEq κ] (table : Table κ ρ) (key : κ) (create : ρ) :
    ((table.insertNew key create).find? key).isSome := by
  rw [Table.find?_insertNew, if_pos rfl]
  rfl

theorem feeds_bigIntDiv (dividend divisor : Nat) :
    Feeds logs (fun _ final => final = state) (bigIntDiv dividend divisor) state := by
  unfold bigIntDiv
  split
  · exact .throw _
  · exact .pure rfl

/-- Adopting a draft touches no market. -/
theorem feeds_markAdopted {key : MarketKey} (metadataHash : JsString)
    (draft : Option MarketMetadataDraft) (present : (db.markets.find? key).isSome) :
    Feeds logs (fun _ final => (final.1.markets.find? key).isSome ∧ final.2 = pending)
      (markAdopted metadataHash key draft) (db, pending) := by
  unfold markAdopted
  split
  · exact .await trivial fun _ _ => ⟨present, rfl⟩
  · exact .pure ⟨present, rfl⟩

theorem feeds_createMarket (log : NormalizedLog) (a : MarketCreated) :
    Feeds logs (fun _ final => final.2 = none) (createMarket ext log a) (db, none) := by
  refine .bind ((Feeds.of_quiet (quiet_ensureCategory _)).mono ?_)
  rintro _ ⟨db, pending⟩ ⟨-, rfl⟩
  refine .bind ((feeds_bigIntDiv _ _).mono ?_)
  rintro uniformPrice _ rfl
  refine .bind (.await trivial fun outside _ => ?_)
  refine .bind (.await trivial fun outside _ => ?_)
  refine .bind ((feeds_markAdopted _ _ ?_).mono ?_)
  · exact isSome_insertNew db.markets _ _
  rintro _ ⟨db, pending⟩ ⟨present, rfl⟩
  refine .bind (.await trivial fun outside _ => ?_)
  refine .bind ((feeds_toISOString _).mono ?_)
  rintro closeTime _ ⟨rfl, rfl⟩
  exact feeds_publish_holds rfl present

theorem feeds_onTrade {log : NormalizedLog} {side : TradeSide} {a : TradeArgs}
    (member : log ∈ logs) (trade : log.trade? = some (side, a)) (touched : List MarketKey) :
    Feeds logs (fun _ final => final.2 = none) (onTrade log side a touched) (db, none) := by
  refine .bind ((feeds_marketRef _ _).mono ?_)
  rintro ref _ ⟨rfl, found⟩
  cases ref with
  | none => exact .pure rfl
  | some ref =>
      obtain ⟨rfl, -⟩ := found ref rfl
      refine .bind (.await ⟨rfl, log, member, side, a, trade, rfl⟩ fun outside _ => ?_)
      refine .bind (.await trivial fun outside _ => ?_)
      refine .bind (.await trivial fun outside _ => ?_)
      refine .bind ((Feeds.of_quiet (quiet_updatePosition _ _ _ _ _ _)).mono ?_)
      rintro _ ⟨later, pending⟩ ⟨trades, rfl⟩
      refine .bind ((feeds_toISOString _).mono ?_)
      rintro timestamp _ ⟨rfl, rfl⟩
      refine feeds_announceTrade (tradeKey log, tradeRow log side a) _ rfl rfl rfl ?_
      dsimp only [Call.effect] at trades ⊢
      rw [trades]
      exact isSome_insertNew db.trades (tradeKey log) _

theorem feeds_onShort {log : NormalizedLog} {a : TradeArgs} (member : log ∈ logs)
    (trade : log.trade? = some (.short, a)) (touched : List MarketKey) :
    Feeds logs (fun _ final => final.2 = none) (onShort log a touched) (db, none) := by
  refine .bind ((feeds_marketRef _ _).mono ?_)
  rintro ref _ ⟨rfl, found⟩
  cases ref with
  | none => exact .pure rfl
  | some ref =>
      obtain ⟨rfl, -⟩ := found ref rfl
      refine .bind (.await trivial fun outside _ => ?_)
      dsimp only [Call.answer, Call.effect]
      cases db.markets.find? ⟨log.address.toLowerCase, a.marketId⟩ with
      | none => exact .pure rfl
      | some market =>
          dsimp only
          split
          · exact .pure rfl
          · refine .bind (.await ⟨rfl, log, member, .short, a, trade, rfl⟩ fun outside _ => ?_)
            refine .bind ((Feeds.of_quiet (quiet_legs _ _ _ _ _)).mono ?_)
            rintro _ ⟨later, pending⟩ ⟨trades, rfl⟩
            refine .bind (.await trivial fun outside _ => ?_)
            refine .bind ((feeds_toISOString _).mono ?_)
            rintro timestamp _ ⟨rfl, rfl⟩
            refine feeds_announceTrade (tradeKey log, tradeRow log .short a) _ rfl rfl
              rfl ?_
            dsimp only [Call.effect] at trades ⊢
            rw [trades]
            exact isSome_insertNew db.trades (tradeKey log) _

/-- The verdict is in the row before it is announced. -/
theorem feeds_verdict {ref : MarketKey} {data : MarketUpdate} {status : MarketStatus}
    {winningOutcomeId : Option Nat} (resolves : data.status = some status)
    (winner : data.winningOutcomeId = winningOutcomeId) :
    Feeds logs (fun _ final => final.2 = none) (do
      await (.updateMarket ref data)
      await (.invalidate ref)
      publishMarket ref (.marketStatus status winningOutcomeId)) (db, none) := by
  refine .bind (.await trivial fun outside admitted => ?_)
  refine .bind (.await trivial fun outside _ => ?_)
  refine feeds_publish_holds rfl ?_
  simp only [Call.refusal] at admitted
  split at admitted
  · cases found : db.markets.find? ref with
    | none =>
        rw [found] at admitted
        cases admitted
    | some row =>
        refine ⟨ref, data.apply row, rfl, ?_, ?_, ?_⟩
        · simp [Call.effect, found]
        · simp [MarketUpdate.apply, resolves]
        · rintro outcome named
          rw [← winner] at named
          simp [MarketUpdate.apply, Option.mem_def.mp named]
  · cases admitted

theorem feeds_onResolved (log : NormalizedLog) (marketId winningOutcomeId owed surplus : Nat) :
    Feeds logs (fun _ final => final.2 = none)
      (onResolved log marketId winningOutcomeId owed surplus) (db, none) := by
  refine .bind ((feeds_marketRef _ _).mono ?_)
  rintro ref _ ⟨rfl, -⟩
  cases ref with
  | none => exact .pure rfl
  | some ref => exact feeds_verdict rfl rfl

theorem feeds_onInvalidated (log : NormalizedLog) (marketId surplus : Nat) :
    Feeds logs (fun _ final => final.2 = none) (onInvalidated log marketId surplus) (db, none) := by
  refine .bind ((feeds_marketRef _ _).mono ?_)
  rintro ref _ ⟨rfl, -⟩
  cases ref with
  | none => exact .pure rfl
  | some ref => exact feeds_verdict rfl rfl

/-- What is announced of a resolution is read from its row. -/
theorem feeds_announceResolution {ref : Option MarketKey} {key : MarketKey}
    (same : ∀ found, ref = some found → found = key) :
    Feeds logs (fun _ final => final.2 = none) (announceResolution ref key) (db, none) := by
  cases ref with
  | none => exact .pure rfl
  | some ref =>
      obtain rfl := same ref rfl
      refine .bind (.await trivial fun outside _ => .bind (.await trivial fun outside _ => ?_))
      refine .bind (.await trivial fun outside _ => ?_)
      dsimp only [Call.answer, Call.effect]
      split
      · rename_i deadline stored
        refine .bind (.bind ((feeds_toISOString _).mono ?_))
        rintro shown _ ⟨rfl, rfl⟩
        exact .pure (feeds_publish_holds rfl ⟨ref, rfl, rfl, stored.symm⟩)
      · rename_i missing
        exact feeds_publish_holds rfl ⟨ref, rfl, rfl, missing.symm⟩

/-- A write of a resolution, and its announcement. -/
theorem feeds_written {write : Chain Unit} {ref : Option MarketKey} {key : MarketKey}
    (quiet : write.CallsOnly Call.quiet) (same : ∀ found, ref = some found → found = key) :
    Feeds logs (fun _ final => final.2 = none) (do
      write
      announceResolution ref key) (db, none) := by
  refine .bind ((Feeds.of_quiet quiet).mono ?_)
  rintro _ ⟨later, pending⟩ ⟨-, rfl⟩
  exact feeds_announceResolution same

/-- What follows when the market of a resolution log has been looked up. -/
theorem feeds_resolution {market : JsString} {marketId : Nat}
    {rest : MarketKey × Option MarketKey → Chain Unit}
    (goes : ∀ key ref, (∀ found, ref = some found → found = key) →
      Feeds logs (fun _ final => final.2 = none) (rest (key, ref)) (db, none)) :
    Feeds logs (fun _ final => final.2 = none) (resolutionKey market marketId >>= rest)
      (db, none) := by
  refine .bind ((feeds_resolutionKey _ _).mono ?_)
  rintro ⟨key, ref⟩ _ ⟨rfl, same⟩
  exact goes key ref same

/-! ## Prices -/

/-- The prices of the rounds that are over are in the row. -/
structure PricesWritten (ref : MarketKey) (prices : List Nat) (rounds : List (Nat × Nat))
    (state : Database × Option TradeEntry) : Prop where
  pending : state.2 = none
  entered : ∃ done row, prices.zipIdx = done ++ rounds ∧ state.1.markets.find? ref = some row ∧
    ∀ round ∈ done, (row.outcomes[round.2]?).map Outcome.currentPriceWad = some (round.1 : Int)

/-- One outcome's price is written, and those of the others stay. -/
theorem feeds_writePrice {ref : MarketKey} {prices : List Nat} {price index : Nat}
    {rest : List (Nat × Nat)} (written : PricesWritten ref prices ((price, index) :: rest) state) :
    Feeds logs (fun _ final => PricesWritten ref prices rest final)
      (await (.updateOutcome ref index { currentPriceWad := some (.set price) })) state := by
  obtain ⟨db, pending⟩ := state
  obtain ⟨rfl, done, row, split, found, prior⟩ := written
  refine .await trivial fun outside admitted => ⟨rfl, done ++ [(price, index)],
    row.updateOutcome index { currentPriceWad := some (.set price) }, ?_, ?_, ?_⟩
  · rw [split, List.append_assoc, List.singleton_append]
  · simp only [Call.effect, Table.find?_modify, found, Option.map_some, if_true]
  · simp only [Call.refusal, found] at admitted
    split at admitted
    · rename_i inside
      intro round member
      simp only [Market.updateOutcome, List.getElem?_modify]
      by_cases own : index = round.2
      · have latest : round = (price, index) := by
          have listed : round ∈ prices.zipIdx := by
            rw [split]
            rcases List.mem_append.mp member with earlier | last
            · exact List.mem_append_left _ earlier
            · exact List.mem_append_right _ (List.mem_singleton.mp last ▸ List.mem_cons_self)
          have here : (price, index) ∈ prices.zipIdx := by
            rw [split]
            exact List.mem_append_right _ List.mem_cons_self
          rw [List.mem_zipIdx_iff_getElem?] at listed here
          rw [← own, here] at listed
          exact Prod.ext (Option.some.inj listed).symm own.symm
        subst latest
        simp [OutcomeUpdate.apply, DecimalUpdate.apply, List.getElem?_eq_getElem inside]
      · rcases List.mem_append.mp member with earlier | last
        · simpa [own] using prior round earlier
        · rw [List.mem_singleton.mp last] at own
          exact absurd rfl own
    · cases admitted

/-- A step of the price series leaves the markets as they are. -/
theorem feeds_recordPoint {ref : MarketKey} {prices : List Nat} {market : MarketKey}
    {index price volume : Nat} {timestamp : Date} (written : PricesWritten ref prices [] state) :
    Feeds logs (fun _ final => PricesWritten ref prices [] final)
      (recordPoint market index price volume timestamp) state := by
  obtain ⟨db, pending⟩ := state
  obtain ⟨rfl, entered⟩ := written
  exact .await trivial fun outside _ => ⟨rfl, entered⟩

/-- Rounds that each keep what is required of those that are left. -/
theorem feeds_forEach {items : List β} {body : β → Chain Unit}
    (carried : List β → Database × Option TradeEntry → Prop)
    (rounds : ∀ item rest before, carried (item :: rest) before →
      Feeds logs (fun _ after => carried rest after) (body item) before)
    (initially : carried items state) :
    Feeds logs (fun _ after => carried [] after) (Async.forEach items body) state := by
  refine Guarded.forEach (fun item rest before held => ?_) (fun final held _ _ => held) initially
  refine Guarded.mono (rounds item rest before held) fun outcome final required => ?_
  cases outcome with
  | ok done => exact required () rfl
  | error thrown => exact nofun

/-- The prices are in the row before they are announced. -/
theorem feeds_applyPrices {ref : MarketKey} (prices : List Nat) (ts : Date)
    (present : (db.markets.find? ref).isSome) :
    Feeds logs (fun _ final => final.2 = none) (applyPrices ref prices ts) (db, none) := by
  obtain ⟨row, found⟩ := Option.isSome_iff_exists.mp present
  have start : PricesWritten ref prices prices.zipIdx (db, none) :=
    ⟨rfl, [], row, rfl, found, by simp⟩
  refine .bind ((feeds_forEach (PricesWritten ref prices)
    (fun _ _ _ written => feeds_writePrice written) start).mono ?_)
  rintro _ written? written
  refine .bind ((feeds_forEach (fun _ => PricesWritten ref prices [])
    (fun _ _ _ written => feeds_recordPoint written) written).mono ?_)
  rintro _ ⟨later, pending⟩ ⟨rfl, done, row, split, found, entered⟩
  refine .bind (.await trivial fun outside _ => ?_)
  refine feeds_publish_holds rfl ⟨ref, row, rfl, found, fun index price stands => ?_⟩
  rw [List.append_nil] at split
  refine entered (price, index) ?_
  rw [← split, List.mem_zipIdx_iff_getElem?]
  exact stands

theorem feeds_refreshPrices (batch : List NormalizedLog) (ref : MarketKey) :
    Feeds logs (fun _ final => final.2 = none) (refreshPrices ext batch ref) (db, none) := by
  refine .bind (.await trivial fun outside _ => ?_)
  dsimp only [Call.answer, Call.effect]
  split
  · exact .pure rfl
  · rename_i ready
    have present : (db.markets.find? ref).isSome := by
      rw [not_or] at ready
      exact Option.isSome_iff_ne_none.mpr (by simpa using ready.1)
    have quiet : (tryCatch (some <$> (await (.readPrices ref) : Chain (List Nat)))
        fun _ => pure none).CallsOnly fun call => call = .readPrices ref :=
      .tryCatch (.bind (.perform rfl) fun _ => trivial) fun _ => trivial
    refine .bind ((Feeds.of_callsOnly (fun later => (later.markets.find? ref).isSome)
      quiet ?_ ?_ ?_ present).mono ?_)
    · rintro _ rfl pending
      rfl
    · rintro _ state rfl
      trivial
    · rintro _ db rfl present
      exact present
    · rintro read ⟨db, pending⟩ ⟨present, rfl⟩
      cases read with
      | none => exact .pure rfl
      | some prices =>
          refine .bind ((Feeds.of_callsOnly (fun later => (later.markets.find? ref).isSome)
            (dateNow_latestTs batch ref) ?_ ?_ ?_ present).mono ?_)
          · rintro _ rfl pending
            rfl
          · rintro _ state rfl
            trivial
          · rintro _ db rfl present
            exact present
          · rintro ts ⟨db, pending⟩ ⟨present, rfl⟩
            exact feeds_applyPrices prices ts present

/-! ## The batch -/

theorem feeds_of_quiet_unit {task : Chain Unit} (quiet : task.CallsOnly Call.quiet)
    (touched : List MarketKey) :
    Feeds logs (fun _ final => final.2 = none) (do
      task
      return touched : Chain (List MarketKey)) (db, none) :=
  .bind ((Feeds.of_quiet quiet).mono fun _ _ kept => .pure kept.2)

theorem feeds_returning {task : Chain Unit} (touched : List MarketKey)
    (feeds : Feeds logs (fun _ final => final.2 = none) task (db, none)) :
    Feeds logs (fun _ final => final.2 = none) (do
      task
      return touched : Chain (List MarketKey)) (db, none) :=
  .bind (feeds.mono fun _ _ none => .pure none)

/-- **Every log is applied in order.** -/
theorem feeds_apply {log : NormalizedLog} (member : log ∈ logs) (touched : List MarketKey) :
    Feeds logs (fun _ final => final.2 = none) (apply ext log touched) (db, none) := by
  have traded : ∀ side args, log.kind = .lsLmsr →
      (log.event = .bought args ∧ side = .buy ∨ log.event = .sold args ∧ side = .sell ∨
        log.event = .shorted args ∧ side = .short) → log.trade? = some (side, args) := by
    rintro side args engine (⟨event, rfl⟩ | ⟨event, rfl⟩ | ⟨event, rfl⟩) <;>
      simp [NormalizedLog.trade?, engine, event]
  unfold apply
  split
  · rename_i engine
    split
    · exact feeds_returning touched (feeds_createMarket ext log _)
    · exact feeds_of_quiet_unit (quiet_onMetadataPublished ext log _) touched
    · exact feeds_onTrade member (traded _ _ engine (.inl ⟨‹_›, rfl⟩)) touched
    · exact feeds_onTrade member (traded _ _ engine (.inr (.inl ⟨‹_›, rfl⟩))) touched
    · exact feeds_onShort member (traded _ _ engine (.inr (.inr ⟨‹_›, rfl⟩))) touched
    · exact feeds_returning touched (feeds_onResolved log _ _ _ _)
    · exact feeds_returning touched (feeds_onInvalidated log _ _)
    · exact feeds_of_quiet_unit (quiet_onRedeem log _ _ _) touched
    · exact feeds_of_quiet_unit (quiet_onSeedRedeemed log _ _) touched
    · exact .pure rfl
  · split
    · exact feeds_returning touched (feeds_resolution fun _ _ same =>
        feeds_written (.perform trivial) same)
    · exact feeds_returning touched (feeds_resolution fun _ _ same =>
        feeds_written (.perform trivial) same)
    · exact feeds_returning touched (feeds_resolution fun _ _ same =>
        feeds_written (.perform trivial) same)
    · exact feeds_returning touched (feeds_resolution fun _ _ same =>
        feeds_written (.perform trivial) same)
    · exact feeds_of_quiet_unit (quiet_onSlashed log _) touched
    · exact feeds_returning touched (feeds_resolution fun _ _ same =>
        feeds_written (.perform trivial) same)
    · exact feeds_returning touched (feeds_resolution fun _ _ same =>
        feeds_written (.perform trivial) same)
    · exact .pure rfl
  · split
    · exact feeds_of_quiet_unit (.perform trivial) touched
    · exact feeds_of_quiet_unit (.perform trivial) touched
    · exact .pure rfl

theorem feeds_applyLogs {batch : List NormalizedLog} (among : ∀ log ∈ batch, log ∈ logs)
    (touched : List MarketKey) :
    Feeds logs (fun _ final => final.2 = none) (applyLogs ext batch touched) (db, none) := by
  induction batch generalizing touched db with
  | nil => exact .pure rfl
  | cons log rest ih =>
      rw [applyLogs, Async.tryCatch_throw]
      refine .bind ((feeds_apply ext (among log List.mem_cons_self) touched).mono ?_)
      rintro touched ⟨db, pending⟩ rfl
      exact ih (fun other member => among other (List.mem_cons_of_mem log member)) touched

/-- **The batch is in order.** -/
theorem feeds_processBatch {batch : List NormalizedLog} (among : ∀ log ∈ batch, log ∈ logs) :
    Feeds logs (fun _ final => final.2 = none) (processBatch ext batch) (db, none) := by
  refine .bind ((feeds_applyLogs ext among []).mono ?_)
  rintro touched ⟨db, pending⟩ rfl
  refine feeds_forEach (fun _ final => final.2 = none) ?_ rfl
  rintro ref rest ⟨db, pending⟩ rfl
  exact feeds_refreshPrices ext batch ref

end EventProcessor

/-! ## Runs -/

/-- A call that is in order keeps the rows faithful, and what awaits its message is of a
log. -/
theorem faithful_of_call {call : Call} {before later : Database × Option TradeEntry}
    {answer : Except Failure call.Answer} {record : List Call}
    (unique : ∀ first ∈ logs, ∀ second ∈ logs, tradeKey first = tradeKey second → first = second)
    (ordered : InOrder logs call before) (answered : Feeding call before answer record later)
    (held : Faithful logs before.1 ∧ ∀ entry ∈ before.2, TradeEntry.IsOf logs entry) :
    Faithful logs later.1 ∧ ∀ entry ∈ later.2, TradeEntry.IsOf logs entry := by
  obtain ⟨db, pending⟩ := before
  obtain ⟨db', pending'⟩ := later
  obtain ⟨faithful, awaited⟩ := held
  obtain ⟨answered, kept⟩ := answered
  dsimp only at answered kept faithful awaited ⊢
  have effect : Faithful logs (call.effect db) := by
    intro log member side args trade row found
    by_cases quiet : call.quiet
    · rw [Call.trades_of_quiet quiet] at found
      exact faithful log member side args trade row found
    · cases call with
      | redisPublish message => exact faithful log member side args trade row found
      | upsertTrade key create =>
          dsimp only [Call.effect] at found
          rw [Table.find?_insertNew] at found
          split at found
          · rename_i same
            obtain ⟨-, other, among, side', args', trade', entry⟩ := ordered
            obtain ⟨rfl, rfl⟩ := Prod.mk.inj entry
            obtain rfl := unique log member other among (by rw [same])
            obtain ⟨rfl, rfl⟩ := Prod.mk.inj (Option.some.inj (trade.symm.trans trade'))
            cases stored : db.trades.find? (tradeKey log) with
            | none =>
                rw [stored] at found
                exact (Option.some.inj found).symm
            | some old =>
                rw [stored] at found
                rw [← Option.some.inj found]
                exact faithful log member side args trade old stored
          · exact faithful log member side args trade row found
      | _ => exact absurd trivial quiet
  have pended : ∀ entry ∈ awaiting pending call, TradeEntry.IsOf logs entry := by
    intro entry member
    cases call with
    | upsertTrade key create =>
        rw [← Option.some.inj (Option.mem_def.mp member)]
        exact ordered.2
    | redisPublish message =>
        simp only [awaiting] at member
        split at member
        · cases member
        · exact awaited entry member
    | _ => exact awaited entry member
  have performed : ∀ reply, Performs call db reply db' → Faithful logs db' := by
    intro reply done
    rcases performs_cases done with ⟨-, -, rfl⟩ | ⟨-, -, -, rfl⟩
    · exact faithful
    · exact effect
  cases answered with
  | performed done => exact ⟨performed _ done, by rw [kept]; exact pended⟩
  | refused _ => exact ⟨faithful, by rw [kept]; exact awaited⟩
  | lost _ done => exact ⟨performed _ done, by rw [kept]; exact pended⟩

/-- The trades that have been handed over are those that have been announced, and the one
that awaits its message. -/
theorem handed_eq {task standing : Chain α} {post : Except Failure α → Database × Option TradeEntry → Prop}
    {later : Database × Option TradeEntry} {calls : List Call}
    (guarded : Guarded Feeding (InOrder logs) post task state)
    (path : Reaches Feeding task state calls standing later) :
    state.2.toList.map TradeEntry.announced ++ (tradesHanded calls).map TradeEntry.announced =
      tradesAnnounced calls ++ later.2.toList.map TradeEntry.announced := by
  induction path with
  | refl => simp [tradesHanded, tradesAnnounced]
  | @step call next before middle final answer record rest remaining first _ ih =>
      obtain ⟨ordered, onward⟩ := guarded
      have later := ih (onward _ _ _ first)
      obtain ⟨db, pending⟩ := before
      obtain ⟨db', pending'⟩ := middle
      obtain ⟨answered, kept⟩ := first
      dsimp only at kept later ⊢
      have called : pending' = awaiting pending call →
          pending.toList.map TradeEntry.announced ++
              (tradesHanded ([call] ++ rest)).map TradeEntry.announced =
            tradesAnnounced ([call] ++ rest) ++ final.2.toList.map TradeEntry.announced := by
        rintro rfl
        unfold tradesHanded tradesAnnounced at later ⊢
        cases call with
        | upsertTrade key create =>
            obtain ⟨none, -⟩ := ordered
            dsimp only at none
            subst none
            simpa [awaiting] using later
        | redisPublish message =>
            by_cases trade : message.data.isTrade
            · obtain ⟨entry, rfl, announced, -⟩ := ordered.2 trade
              simp only [awaiting, trade, if_true] at later
              simpa [trade, announced] using later
            · simp only [awaiting, trade] at later
              simpa [trade] using later
        | _ => simpa [awaiting] using later
      cases answered with
      | performed _ => exact called kept
      | refused _ =>
          rw [show pending' = pending from kept] at later
          exact later
      | lost _ _ => exact called kept

/-- **Announcements hold.** However far a batch of the chain's logs gets, with any calls
failing: at the moment of each message the database holds what the message says; the trades
that have been handed to the database have been announced, in that order and each once,
but for the last, perhaps, and for none when the batch has returned; and the stored trades
are those of the logs. -/
theorem announcements_hold {ext : Externals} {batch : List NormalizedLog} {later : Database}
    {calls : List Call} {standing : Chain Unit} (among : ∀ log ∈ batch, log ∈ logs)
    (unique : ∀ first ∈ logs, ∀ second ∈ logs, tradeKey first = tradeKey second → first = second)
    (faithful : Faithful logs db)
    (path : Reaches Failing (EventProcessor.processBatch ext batch) db calls standing later) :
    (∀ message next, standing = .call (.redisPublish message) next → message.Holds later) ∧
      (∃ left, (tradesHanded calls).map TradeEntry.announced = tradesAnnounced calls ++ left ∧
        left.length ≤ 1 ∧ (standing = .done (.ok ()) → left = [])) ∧
      Faithful logs later := by
  have guarded : Feeds logs (fun _ final => final.2 = none) (EventProcessor.processBatch ext batch)
      (db, none) := EventProcessor.feeds_processBatch ext among
  have fed : Reaches Feeding (EventProcessor.processBatch ext batch) (db, none) calls standing
      (later, calls.foldl awaiting none) := path.summarised awaiting none
  have kept : Faithful logs later ∧ ∀ entry ∈ calls.foldl awaiting none, TradeEntry.IsOf logs entry :=
    Guarded.preserves (fun final => Faithful logs final.1 ∧
      ∀ entry ∈ final.2, TradeEntry.IsOf logs entry) guarded fed
      (fun _ _ _ _ _ ordered answered held => faithful_of_call unique ordered answered held)
      ⟨faithful, nofun⟩
  have remains := Guarded.remains guarded fed
  refine ⟨?_, ⟨(calls.foldl awaiting none).toList.map TradeEntry.announced, ?_, ?_, ?_⟩, kept.1⟩
  · rintro message next rfl
    obtain ⟨holds, awaits⟩ := remains.1
    refine ⟨holds, fun trade => ?_⟩
    obtain ⟨⟨key, row⟩, pending, announced, stored⟩ := awaits trade
    obtain ⟨log, member, side, args, traded, entry⟩ := kept.2 _ pending
    obtain ⟨rfl, rfl⟩ := Prod.mk.inj entry
    obtain ⟨row, found⟩ := Option.isSome_iff_exists.mp stored
    obtain rfl := kept.1 log member side args traded row found
    obtain ⟨ref, data⟩ := Prod.mk.inj announced
    exact ⟨_, _, found, ref, data⟩
  · exact handed_eq guarded fed
  · cases calls.foldl awaiting none <;> simp
  · rintro rfl
    rw [show calls.foldl awaiting none = none from remains () rfl]
    rfl

/-! ## A computed batch -/

namespace Sample

/-- A market is created and bought on. -/
def purchaseLogs : List NormalizedLog := [created 2, log 1 (.bought (trade 0 9 20))]

/-- The calls of the batch, all performed and answered. -/
def purchaseCalls : List Call :=
  Async.callsMade (respond outside) 400 (EventProcessor.processBatch externals purchaseLogs) .empty

end Sample

open Sample in
/-- The purchase is announced, as it was handed over. -/
theorem announcements_hold_purchase :
    (tradesHanded purchaseCalls).length = 1 ∧
      (tradesHanded purchaseCalls).map TradeEntry.announced = tradesAnnounced purchaseCalls := by
  have path := Failing.reaches_stopped outside 400
    (EventProcessor.processBatch externals purchaseLogs) .empty
  have distinct : ∀ first ∈ purchaseLogs, ∀ second ∈ purchaseLogs,
      tradeKey first = tradeKey second → first = second := by
    unfold purchaseLogs
    simp [tradeKey, log, created]
  have unstored : Faithful purchaseLogs .empty := by
    intro log member side args trade row found
    cases found
  obtain ⟨-, ⟨left, announced, -, complete⟩, -⟩ :=
    announcements_hold (fun _ member => member) distinct unstored path
  refine ⟨by decide +kernel, announced.trans ?_⟩
  rw [complete (Async.eq_done_of_outcome? (by decide +kernel)), List.append_nil]
  rfl

end Numera
