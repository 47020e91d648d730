import Numera.Foundation.Async
import Numera.Foundation.Table
import Numera.Chain.Log

/-! # The indexer's database

The rows the event processor writes, under the column names of the schema, and
the calls it makes: one Prisma query, one Redis command or one chain read each.
`respond` performs a call. A query is atomic and fails without effect when a row
it must update is missing or when a value has no place in its column: a number
outside the range of `Int` or `Decimal(78, 0)`, a date after the year 9999 or an
Invalid Date, a text with U+0000 or with an unpaired surrogate.

A row is identified by the columns its unique index is on. A market carries its
outcome rows, which are created with it, one for each index below the count. Of
the foreign keys only a market's category can be missing when it is written:
everywhere else the handler has created or found the row it refers to.
-/

namespace Numera

inductive MarketStatus where
  | trading
  | resolved
  | invalid
  deriving DecidableEq

inductive TradeSide where
  | buy
  | sell
  | short
  deriving DecidableEq

inductive ResolutionPhase where
  | none
  | proposed
  | disputed
  | settled
  deriving DecidableEq

inductive ResolutionRoute where
  | finalized
  | arbitrated
  deriving DecidableEq

/-! ## Columns -/

/-- A `text` column. -/
def storableText (text : JsString) : Bool := !text.contains 0 && text.wellFormed

/-- An `Int` column. -/
def storableInt (value : Nat) : Bool := value < 2 ^ 31

/-- A `BigInt` column. -/
def storableBigInt (value : Nat) : Bool := value < 2 ^ 63

/-- A `Decimal(78, 0)` column. -/
def storableDecimal (value : Int) : Bool := value.natAbs < 10 ^ 78

/-- A Prisma number operation on a decimal column. -/
inductive DecimalUpdate where
  | set (value : Int)
  | increment (value : Int)
  | decrement (value : Int)
  deriving DecidableEq

/-- The column after the operation, or as it was when the update leaves it out. -/
def DecimalUpdate.apply : Option DecimalUpdate → Int → Int
  | .none, old => old
  | .some (.set value), _ => value
  | .some (.increment value), old => old + value
  | .some (.decrement value), old => old - value

/-! ## Rows -/

structure MarketMetadataDraft where
  title : JsString
  description : JsString
  resolutionRules : JsString
  imageUrl : Option JsString
  outcomeLabels : List JsString
  categoryKey : Option JsString
  marketRef : Option MarketKey

structure Outcome where
  label : JsString
  currentPriceWad : Int
  currentShares : Int
  deriving DecidableEq

def Outcome.storable (row : Outcome) : Bool :=
  storableText row.label && storableDecimal row.currentPriceWad &&
    storableDecimal row.currentShares

structure OutcomeUpdate where
  label : Option JsString := none
  currentPriceWad : Option DecimalUpdate := none
  currentShares : Option DecimalUpdate := none

def OutcomeUpdate.apply (data : OutcomeUpdate) (row : Outcome) : Outcome where
  label := data.label.getD row.label
  currentPriceWad := DecimalUpdate.apply data.currentPriceWad row.currentPriceWad
  currentShares := DecimalUpdate.apply data.currentShares row.currentShares

structure Market where
  collateral : JsString
  resolver : JsString
  startTime : Date
  closeTime : Date
  outcomeCount : Nat
  categoryKey : Option JsString
  metadataHash : JsString
  creator : JsString
  alpha : Int
  sStar : Int
  seed : Int
  status : MarketStatus := .trading
  winningOutcomeId : Option Nat := none
  pot : Int
  surplus : Option Int := none
  title : JsString
  description : JsString
  resolutionRules : JsString
  imageUrl : Option JsString
  createdBlock : Nat
  createdTx : JsString
  outcomes : List Outcome

def Market.storable (row : Market) : Bool :=
  row.startTime.storable && row.closeTime.storable && storableInt row.outcomeCount &&
    row.categoryKey.all storableText && storableDecimal row.alpha &&
    storableDecimal row.sStar && storableDecimal row.seed &&
    row.winningOutcomeId.all storableInt && storableDecimal row.pot &&
    row.surplus.all storableDecimal && storableText row.title &&
    storableText row.description && storableText row.resolutionRules &&
    row.imageUrl.all storableText && storableBigInt row.createdBlock &&
    row.outcomes.all Outcome.storable

structure MarketUpdate where
  title : Option JsString := none
  description : Option JsString := none
  resolutionRules : Option JsString := none
  imageUrl : Option (Option JsString) := none
  categoryKey : Option (Option JsString) := none
  status : Option MarketStatus := none
  winningOutcomeId : Option Nat := none
  pot : Option DecimalUpdate := none
  surplus : Option Int := none

def MarketUpdate.apply (data : MarketUpdate) (row : Market) : Market :=
  { row with
    title := data.title.getD row.title
    description := data.description.getD row.description
    resolutionRules := data.resolutionRules.getD row.resolutionRules
    imageUrl := data.imageUrl.getD row.imageUrl
    categoryKey := data.categoryKey.getD row.categoryKey
    status := data.status.getD row.status
    winningOutcomeId := data.winningOutcomeId.or row.winningOutcomeId
    pot := DecimalUpdate.apply data.pot row.pot
    surplus := data.surplus.or row.surplus }

/-- Update the outcome row at an index. -/
def Market.updateOutcome (index : Nat) (data : OutcomeUpdate) (row : Market) : Market :=
  { row with outcomes := row.outcomes.modify index data.apply }

/-- The unique index of the trades table. -/
structure TradeKey where
  txHash : JsString
  logIndex : Nat
  deriving DecidableEq

structure Trade where
  marketRef : MarketKey
  account : JsString
  side : TradeSide
  outcomeIndex : Nat
  shares : Int
  amount : Int
  spreadWad : Int
  priceWad : Int
  blockNumber : Nat
  timestamp : Date
  deriving DecidableEq

def Trade.storable (row : Trade) : Bool :=
  storableInt row.outcomeIndex && storableDecimal row.shares && storableDecimal row.amount &&
    storableDecimal row.spreadWad && storableDecimal row.priceWad &&
    storableBigInt row.blockNumber && row.timestamp.storable

/-- The unique index of the positions table. -/
structure PositionKey where
  marketRef : MarketKey
  account : JsString
  outcomeIndex : Nat
  deriving DecidableEq

structure Position where
  shares : Int
  costBasis : Int
  realizedPnl : Int := 0
  redeemed : Bool := false
  deriving DecidableEq

def Position.storable (row : Position) : Bool :=
  storableDecimal row.shares && storableDecimal row.costBasis && storableDecimal row.realizedPnl

structure PositionUpdate where
  shares : Option DecimalUpdate := none
  costBasis : Option DecimalUpdate := none
  realizedPnl : Option DecimalUpdate := none
  redeemed : Option Bool := none

def PositionUpdate.apply (data : PositionUpdate) (row : Position) : Position where
  shares := DecimalUpdate.apply data.shares row.shares
  costBasis := DecimalUpdate.apply data.costBasis row.costBasis
  realizedPnl := DecimalUpdate.apply data.realizedPnl row.realizedPnl
  redeemed := data.redeemed.getD row.redeemed

structure ResolutionProposal where
  marketRef : Option MarketKey
  phase : ResolutionPhase
  proposer : Option JsString
  proposedOutcome : Option Nat
  proposerBonded : Bool
  proposerBond : Int
  disputeDeadline : Option Date
  disputer : Option JsString
  counterOutcome : Option Nat
  disputerBond : Int
  arbitrationDeadline : Option Date
  route : Option ResolutionRoute
  settledOutcome : Option Nat
  reward : Int
  forfeited : Int
  loser : Option JsString
  settledAt : Option Date
  proposedTx : Option JsString
  settledTx : Option JsString
  deriving DecidableEq

def ResolutionProposal.storable (row : ResolutionProposal) : Bool :=
  row.proposedOutcome.all storableInt && storableDecimal row.proposerBond &&
    row.disputeDeadline.all Date.storable && row.counterOutcome.all storableInt &&
    storableDecimal row.disputerBond && row.arbitrationDeadline.all Date.storable &&
    row.settledOutcome.all storableInt && storableDecimal row.reward &&
    storableDecimal row.forfeited && row.settledAt.all Date.storable

structure ResolutionUpdate where
  phase : Option ResolutionPhase := none
  proposer : Option (Option JsString) := none
  proposedOutcome : Option (Option Nat) := none
  proposerBonded : Option Bool := none
  proposerBond : Option Int := none
  disputeDeadline : Option (Option Date) := none
  disputer : Option (Option JsString) := none
  counterOutcome : Option (Option Nat) := none
  disputerBond : Option Int := none
  arbitrationDeadline : Option (Option Date) := none
  route : Option (Option ResolutionRoute) := none
  settledOutcome : Option (Option Nat) := none
  reward : Option Int := none
  forfeited : Option Int := none
  loser : Option (Option JsString) := none
  settledAt : Option (Option Date) := none
  settledTx : Option (Option JsString) := none

/-- The values of an update are checked whether or not there is a row. -/
def ResolutionUpdate.storable (data : ResolutionUpdate) : Bool :=
  data.proposedOutcome.join.all storableInt && data.proposerBond.all storableDecimal &&
    data.disputeDeadline.join.all Date.storable && data.counterOutcome.join.all storableInt &&
    data.disputerBond.all storableDecimal && data.arbitrationDeadline.join.all Date.storable &&
    data.settledOutcome.join.all storableInt && data.reward.all storableDecimal &&
    data.forfeited.all storableDecimal && data.settledAt.join.all Date.storable

def ResolutionUpdate.apply (data : ResolutionUpdate) (row : ResolutionProposal) :
    ResolutionProposal where
  marketRef := row.marketRef
  phase := data.phase.getD row.phase
  proposer := data.proposer.getD row.proposer
  proposedOutcome := data.proposedOutcome.getD row.proposedOutcome
  proposerBonded := data.proposerBonded.getD row.proposerBonded
  proposerBond := data.proposerBond.getD row.proposerBond
  disputeDeadline := data.disputeDeadline.getD row.disputeDeadline
  disputer := data.disputer.getD row.disputer
  counterOutcome := data.counterOutcome.getD row.counterOutcome
  disputerBond := data.disputerBond.getD row.disputerBond
  arbitrationDeadline := data.arbitrationDeadline.getD row.arbitrationDeadline
  route := data.route.getD row.route
  settledOutcome := data.settledOutcome.getD row.settledOutcome
  reward := data.reward.getD row.reward
  forfeited := data.forfeited.getD row.forfeited
  loser := data.loser.getD row.loser
  settledAt := data.settledAt.getD row.settledAt
  proposedTx := row.proposedTx
  settledTx := data.settledTx.getD row.settledTx

structure BannedAccount where
  context : Option JsString
  marketId : Option Nat
  bannedAt : Date
  liftedAt : Option Date
  txHash : Option JsString
  deriving DecidableEq

def BannedAccount.storable (row : BannedAccount) : Bool :=
  row.marketId.all storableBigInt && row.bannedAt.storable && row.liftedAt.all Date.storable

/-- The primary key of the price series. -/
structure PricePointKey where
  marketRef : MarketKey
  outcomeIndex : Nat
  time : Date
  deriving DecidableEq

structure PricePoint where
  priceWad : Int
  volume : Int
  deriving DecidableEq

def PricePoint.storable (row : PricePoint) : Bool :=
  storableDecimal row.priceWad && storableDecimal row.volume

structure Database where
  categories : Table JsString JsString
  drafts : Table JsString MarketMetadataDraft
  markets : Table MarketKey Market
  trades : Table TradeKey Trade
  positions : Table PositionKey Position
  resolutions : Table MarketKey ResolutionProposal
  bannedAccounts : Table JsString BannedAccount
  pricePoints : Table PricePointKey PricePoint
  cursor : Option Nat

/-- The database before the first migration's first row. -/
def Database.empty : Database :=
  ⟨.empty, .empty, .empty, .empty, .empty, .empty, .empty, .empty, none⟩

/-! ## Calls -/

/-- The data of a realtime message, by event name. -/
inductive RealtimeData where
  | marketCreated (marketRef : MarketKey) (categoryKey : Option JsString) (closeTime : Date)
  | trade (side : TradeSide) (account : JsString) (outcomeIndex shares amount spreadWad priceWad : Nat)
      (txHash : JsString) (timestamp : Date)
  | marketStatus (status : MarketStatus) (winningOutcomeId : Option Nat)
  | resolution (phase : ResolutionPhase) (disputeDeadline : Option Date)
  | price (prices : List Nat)

/-- The envelope every realtime message is wrapped in. -/
structure RealtimeMessage where
  marketRef : Option MarketKey
  data : RealtimeData
  ts : Date

/-- The calls of the event processor and of the cursor write that follows it. -/
inductive Call where
  | upsertCategory (key label : JsString)
  | findDraft (metadataHash : JsString)
  | adoptDraft (metadataHash : JsString) (marketRef : MarketKey)
  | upsertMarket (key : MarketKey) (create : Market)
  | findMarket (key : MarketKey)
  | findMarketById (marketRef : MarketKey)
  | updateMarket (key : MarketKey) (data : MarketUpdate)
  | updateOutcome (key : MarketKey) (index : Nat) (data : OutcomeUpdate)
  | upsertTrade (key : TradeKey) (create : Trade)
  | findPosition (key : PositionKey)
  | upsertPosition (key : PositionKey) (create : Position) (update : PositionUpdate)
  | updatePositions (marketRef : MarketKey) (account : JsString) (data : PositionUpdate)
  | upsertResolution (key : MarketKey) (row : ResolutionProposal)
  | updateResolutions (key : MarketKey) (data : ResolutionUpdate)
  | findResolution (key : MarketKey)
  | upsertBanned (account : JsString) (row : BannedAccount)
  | liftBans (account : JsString) (liftedAt : Date) (txHash : JsString)
  | upsertPricePoint (key : PricePointKey) (priceWad volume : Int)
  | upsertCursor (lastBlock : Nat)
  | readPrices (key : MarketKey)
  | dateNow
  | invalidate (marketRef : MarketKey)
  | redisDel (marketRef : MarketKey)
  | redisPublish (message : RealtimeMessage)

/-- What each call answers with. -/
@[reducible] def Call.Answer : Call → Type
  | findDraft _ => Option MarketMetadataDraft
  | findMarket _ | findMarketById _ => Option Market
  | findPosition _ => Option Position
  | findResolution _ => Option ResolutionProposal
  | readPrices _ => List Nat
  | dateNow => Date
  | _ => Unit

/-- What a handler throws: an error of a query or of a service it calls, or a
JavaScript error of its own. -/
inductive Failure where
  | recordNotFound
  | foreignKey
  | valueOutOfRange
  | unavailable
  | rangeError
  | syntaxError
  deriving DecidableEq

/-- The answers of the chain and of the clock at the time of a call. -/
structure Outside where
  prices : Except Failure (List Nat)
  now : Date

namespace Database

variable (db : Database)

/-- A write that is refused when the rows it would leave do not fit their columns. -/
def commit (fits : Bool) (written : Database) : Except Failure Unit × Database :=
  if fits then (.ok (), written) else (.error .valueOutOfRange, db)

/-- `update`: the row must exist. -/
def updateMarket (key : MarketKey) (change : Market → Market) : Except Failure Unit × Database :=
  match db.markets.find? key with
  | none => (.error .recordNotFound, db)
  | some row =>
      db.commit (change row).storable { db with markets := db.markets.modify key change }

/-- `upsert` on the positions' unique index. -/
def upsertPosition (key : PositionKey) (create : Position) (change : Position → Position) :
    Except Failure Unit × Database :=
  db.commit (storableInt key.outcomeIndex && create.storable &&
      (db.positions.find? key).all fun row => (change row).storable)
    { db with positions := db.positions.upsert key create change }

/-- The positions of one account in one market. -/
def isHeldBy (marketRef : MarketKey) (account : JsString) (key : PositionKey) : Bool :=
  key.marketRef = marketRef ∧ key.account = account

/-- `updateMany`: no row needs to exist. -/
def updatePositions (marketRef : MarketKey) (account : JsString) (change : Position → Position) :
    Except Failure Unit × Database :=
  let positions := db.positions.modifyWhere (isHeldBy marketRef account) change
  db.commit (positions.rows.all fun row => !isHeldBy marketRef account row.1 || row.2.storable)
    { db with positions }

end Database

/-- Perform a call. -/
def respond (outside : Outside) : Async.Responder Call.Answer Failure Database
  | .upsertCategory key label, db =>
      db.commit (storableText key)
        { db with categories := db.categories.insertNew key label }
  | .findDraft metadataHash, db => (.ok (db.drafts.find? metadataHash), db)
  | .adoptDraft metadataHash marketRef, db =>
      match db.drafts.find? metadataHash with
      | none => (.error .recordNotFound, db)
      | some _ =>
          (.ok (), { db with drafts := db.drafts.modify metadataHash fun draft =>
            { draft with marketRef := some marketRef } })
  | .upsertMarket key create, db =>
      db.commit (storableBigInt key.marketId && create.storable)
        { db with markets := db.markets.insertNew key create }
  | .findMarket key, db =>
      if storableBigInt key.marketId then (.ok (db.markets.find? key), db)
      else (.error .valueOutOfRange, db)
  | .findMarketById marketRef, db => (.ok (db.markets.find? marketRef), db)
  | .updateMarket key data, db =>
      if data.categoryKey.join.all fun category => (db.categories.find? category).isSome then
        db.updateMarket key data.apply
      else (.error .foreignKey, db)
  | .updateOutcome key index data, db =>
      match db.markets.find? key with
      | none => (.error .recordNotFound, db)
      | some row =>
          if index < row.outcomes.length then
            db.updateMarket key (Market.updateOutcome index data)
          else (.error .recordNotFound, db)
  | .upsertTrade key create, db =>
      db.commit (storableInt key.logIndex && create.storable)
        { db with trades := db.trades.insertNew key create }
  | .findPosition key, db =>
      if storableInt key.outcomeIndex then (.ok (db.positions.find? key), db)
      else (.error .valueOutOfRange, db)
  | .upsertPosition key create update, db => db.upsertPosition key create update.apply
  | .updatePositions marketRef account data, db => db.updatePositions marketRef account data.apply
  | .upsertResolution key row, db =>
      db.commit (storableBigInt key.marketId && row.storable)
        { db with resolutions := db.resolutions.upsert key row fun _ => row }
  | .updateResolutions key data, db =>
      db.commit (storableBigInt key.marketId && data.storable)
        { db with resolutions := db.resolutions.modify key data.apply }
  | .findResolution key, db => (.ok (db.resolutions.find? key), db)
  | .upsertBanned account row, db =>
      db.commit row.storable
        { db with bannedAccounts := db.bannedAccounts.upsert account row fun _ => row }
  | .liftBans account liftedAt txHash, db =>
      db.commit liftedAt.storable
        { db with bannedAccounts := db.bannedAccounts.modify account fun row =>
            { row with liftedAt := some liftedAt, txHash := some txHash } }
  | .upsertPricePoint key priceWad volume, db =>
      db.commit (storableInt key.outcomeIndex && key.time.storable &&
          storableDecimal priceWad && storableDecimal volume)
        { db with pricePoints := db.pricePoints.upsert key ⟨priceWad, volume⟩ fun row =>
            ⟨priceWad, row.volume + volume⟩ }
  | .upsertCursor lastBlock, db =>
      db.commit (storableBigInt lastBlock) { db with cursor := some lastBlock }
  | .readPrices _, db => (outside.prices, db)
  | .dateNow, db => (.ok outside.now, db)
  | .invalidate _, db => (.ok (), db)
  | .redisDel _, db => (.ok (), db)
  | .redisPublish _, db => (.ok (), db)

/-- A call is performed under some answers of the outside. -/
def Performs (call : Call) (db : Database) (answer : Except Failure call.Answer)
    (later : Database) : Prop :=
  ∃ outside, respond outside call db = (answer, later)

/-- The processor's calls, as a do-block awaits them. -/
abbrev Chain (α : Type) : Type := Async Call.Answer Failure α

/-- Await one call. -/
def await (call : Call) : Chain call.Answer := Async.perform call

end Numera
