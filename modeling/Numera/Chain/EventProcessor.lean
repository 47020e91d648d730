import Numera.Admin.MetadataHash
import Numera.Chain.Database

/-! # The event processor

`EventProcessor.processBatch`: every decoded log is applied to the database by
the handler of its event, then the prices of the traded markets are refreshed.
The definitions follow the handlers call by call.

An outcome id is a JavaScript number. One beyond the range of an `Int` column is
refused by the first query it reaches, so no rounding is modelled. The calls of a
`Promise.all` are made in order. The in-memory reference cache, which answers
`marketRef` without the query once a market is known, is left out: a market row
is never deleted, so the query gives the same answer.
-/

namespace Numera

open Async (forEach)

/-- The services and library functions the processor relies on: whether a chain
client is configured, viem's `hexToString` of 32 bytes (which may throw), and
`keccak256` of a string's bytes. -/
structure Externals where
  chainReady : Bool
  hexToString : JsString → Option JsString
  keccak256 : JsString → JsString

/-- `OptimisticResolver.INVALID_OUTCOME`, the sentinel meaning "void this market". -/
def invalidOutcome : Nat := 4294967295

def zeroAddress : JsString := JsString.ascii "0x0000000000000000000000000000000000000000"

/-- An outcome index, or `null` when the assertion was "void this market". -/
def outcomeOrVoid (raw : Nat) : Option Nat := if raw = invalidOutcome then none else some raw

/-- `null` in place of an address that stands for nobody. -/
def unlessZero (address : JsString) : Option JsString :=
  if address = zeroAddress then none else some address

namespace EventProcessor

variable (ext : Externals)

/-- The decoded text without its trailing zeros, or the hex itself when it does
not decode. -/
def bytes32ToString (hex : JsString) : JsString :=
  match ext.hexToString hex with
  | some text => (text.reverse.dropWhile (· = 0)).reverse
  | none => hex

/-- `BigInt(value.toString())`: a decimal of 22 digits or more prints in exponent
notation, which `BigInt` does not read. -/
def bigIntOfDecimal (value : Int) : Chain Int :=
  if value.natAbs < 10 ^ 21 then pure value else throw .syntaxError

/-- BigInt division, which throws on a zero divisor. -/
def bigIntDiv (dividend divisor : Nat) : Chain Nat :=
  if divisor = 0 then throw .rangeError else pure (dividend / divisor)

/-- `date.toISOString()`, which throws on an Invalid Date. -/
def toISOString (date : Date) : Chain Date :=
  if date.valid then pure date else throw .rangeError

/-- `touched.add(ref)`. -/
def touch (touched : List MarketKey) (ref : MarketKey) : List MarketKey :=
  if ref ∈ touched then touched else touched ++ [ref]

/-! ## Shared helpers -/

def marketRef (rawAddress : JsString) (marketId : Nat) : Chain (Option MarketKey) := do
  let key : MarketKey := ⟨rawAddress.toLowerCase, marketId⟩
  let market : Option Market ← await (.findMarket key)
  return market.map fun _ => key

def publish (marketRef : Option MarketKey) (data : RealtimeData) : Chain Unit := do
  let ts : Date ← await .dateNow
  await (.redisPublish { marketRef, data, ts })

def publishMarket (ref : MarketKey) (data : RealtimeData) : Chain Unit := publish (some ref) data

def insertTrade (log : NormalizedLog) (rawAccount : JsString) (marketRef : MarketKey)
    (side : TradeSide) (outcomeIndex shares amount spreadWad priceWad : Nat) : Chain Unit :=
  await (.upsertTrade ⟨log.txHash, log.logIndex⟩ {
    marketRef, account := rawAccount.toLowerCase, side, outcomeIndex, shares, amount, spreadWad,
    priceWad, blockNumber := log.blockNumber, timestamp := log.timestamp })

def updatePosition (marketRef : MarketKey) (rawAccount : JsString) (outcomeIndex : Nat)
    (side : TradeSide) (shares amount : Nat) : Chain Unit := do
  let key : PositionKey := ⟨marketRef, rawAccount.toLowerCase, outcomeIndex⟩
  let existing : Option Position ← await (.findPosition key)
  if side = .sell then
    let oldShares ← bigIntOfDecimal ((existing.map Position.shares).getD 0)
    let oldCost ← bigIntOfDecimal ((existing.map Position.costBasis).getD 0)
    let sold := if shares > oldShares then oldShares else shares
    let costRemoved := if oldShares > 0 then (oldCost * sold).tdiv oldShares else 0
    let realized := amount - costRemoved
    await (.upsertPosition key { shares := 0, costBasis := 0, realizedPnl := realized } {
      shares := some (.decrement sold)
      costBasis := some (.decrement costRemoved)
      realizedPnl := some (.increment realized) })
  else
    await (.upsertPosition key { shares := shares, costBasis := amount } {
      shares := some (.increment shares)
      costBasis := some (.increment amount) })

/-! ## Market creation -/

/-- Upsert the category of a market that names one. The empty key counts as none. -/
def ensureCategory : Option JsString → Chain Unit
  | some (unit :: rest) => await (.upsertCategory (unit :: rest) (unit :: rest))
  | _ => pure ()

/-- Point an adopted draft that no market has yet adopted at its market. -/
def markAdopted (metadataHash : JsString) (key : MarketKey) :
    Option MarketMetadataDraft → Chain Unit
  | some { marketRef := none, .. } => await (.adoptDraft metadataHash key)
  | _ => pure ()

def createMarket (log : NormalizedLog) (a : MarketCreated) : Chain Unit := do
  let key := log.marketKey a.marketId
  let category := bytes32ToString ext a.category
  let categoryKey := if category = [] then none else some category
  let startTime := Date.ofSeconds a.startTime
  let closeTime := Date.ofSeconds a.closeTime
  ensureCategory categoryKey
  let uniformPrice ← bigIntDiv wad a.outcomeCount
  let draft : Option MarketMetadataDraft ← await (.findDraft a.metadataHash)
  let labels := (draft.map (·.outcomeLabels)).getD []
  await (.upsertMarket key {
    collateral := a.collateral.toLowerCase
    resolver := a.resolver.toLowerCase
    startTime, closeTime
    outcomeCount := a.outcomeCount
    categoryKey
    metadataHash := a.metadataHash
    creator := a.creator.toLowerCase
    alpha := a.alpha
    sStar := a.sStar
    seed := a.seedPerOutcome
    pot := a.seedCost
    title := (draft.map (·.title)).getD []
    description := (draft.map (·.description)).getD []
    resolutionRules := (draft.map (·.resolutionRules)).getD []
    imageUrl := draft.bind (·.imageUrl)
    createdBlock := log.blockNumber
    createdTx := log.txHash
    outcomes := (List.range a.outcomeCount).map fun i => {
      label := labels[i]?.getD []
      currentPriceWad := uniformPrice
      currentShares := a.seedPerOutcome } })
  markAdopted a.metadataHash key draft
  await (.invalidate key)
  let closeTime ← toISOString closeTime
  publish none (.marketCreated key categoryKey closeTime)

def onMetadataPublished (log : NormalizedLog) (a : MarketMetadataPublished) : Chain Unit := do
  let some ref ← marketRef log.address a.marketId | return
  let some metadata := MetadataHash.parseCanonical ext.keccak256 a.metadata a.metadataHash | return
  ensureCategory metadata.categoryKey
  await (.updateMarket ref {
    title := some metadata.title
    description := some metadata.description
    resolutionRules := some metadata.resolutionRules
    imageUrl := some metadata.imageUrl
    categoryKey := some metadata.categoryKey })
  let market : Option Market ← await (.findMarketById ref)
  let labels := metadata.outcomeLabels.take ((market.map Market.outcomeCount).getD 0)
  forEach labels.zipIdx fun (label, index) =>
    await (.updateOutcome ref index { label := some label })
  await (.invalidate ref)

/-! ## Trades -/

/-- The average execution price of a trade. -/
def averagePriceWad (amount shares : Nat) : Nat :=
  if shares > 0 then amount * wad / shares else 0

def onTrade (log : NormalizedLog) (side : TradeSide) (a : TradeArgs) (touched : List MarketKey) :
    Chain (List MarketKey) := do
  let some ref ← marketRef log.address a.marketId | return touched
  let priceWad := averagePriceWad a.amount a.shares
  insertTrade log a.account ref side a.outcomeId a.shares a.amount a.spreadWad priceWad
  let potDelta : Int := if side = .buy then a.amount else -a.amount
  let shareDelta : Int := if side = .buy then a.shares else -a.shares
  await (.updateMarket ref { pot := some (.increment potDelta) })
  await (.updateOutcome ref a.outcomeId { currentShares := some (.increment shareDelta) })
  updatePosition ref a.account a.outcomeId side a.shares a.amount
  let touched := touch touched ref
  let timestamp ← toISOString log.timestamp
  publishMarket ref (.trade side a.account.toLowerCase a.outcomeId a.shares a.amount a.spreadWad
    priceWad log.txHash timestamp)
  return touched

/-- The outcomes a short is credited to: every one but the shorted. -/
def legs (outcomeCount shorted : Nat) : List Nat :=
  (List.range outcomeCount).filter fun i => i ≠ shorted

/-- The cost basis of the `k`-th of `count` legs: an even share, with the
remainder on the last. -/
def legBasis (cost count k : Nat) : Nat :=
  let perLeg := cost / count
  if k = count - 1 then cost - perLeg * (count - 1) else perLeg

def onShort (log : NormalizedLog) (a : TradeArgs) (touched : List MarketKey) :
    Chain (List MarketKey) := do
  let some ref ← marketRef log.address a.marketId | return touched
  let some (market : Market) ← await (.findMarketById ref) | return touched
  let account := a.account.toLowerCase
  let legs := legs market.outcomeCount a.outcomeId
  if legs.length = 0 then return touched
  let priceWad := averagePriceWad a.amount a.shares
  insertTrade log a.account ref .short a.outcomeId a.shares a.amount a.spreadWad priceWad
  forEach legs.zipIdx fun (i, k) => do
    let basis := legBasis a.amount legs.length k
    await (.updateOutcome ref i { currentShares := some (.increment a.shares) })
    updatePosition ref account i .buy a.shares basis
  await (.updateMarket ref { pot := some (.increment a.amount) })
  let touched := touch touched ref
  let timestamp ← toISOString log.timestamp
  publishMarket ref (.trade .short account a.outcomeId a.shares a.amount a.spreadWad priceWad
    log.txHash timestamp)
  return touched

/-! ## Resolution -/

def onResolved (log : NormalizedLog) (marketId winningOutcomeId owed surplus : Nat) :
    Chain Unit := do
  let some ref ← marketRef log.address marketId | return
  await (.updateMarket ref {
    status := some .resolved
    winningOutcomeId := some winningOutcomeId
    pot := some (.set owed)
    surplus := some surplus })
  await (.invalidate ref)
  publishMarket ref (.marketStatus .resolved (some winningOutcomeId))

def onInvalidated (log : NormalizedLog) (marketId surplus : Nat) : Chain Unit := do
  let some ref ← marketRef log.address marketId | return
  await (.updateMarket ref { status := some .invalid, surplus := some surplus })
  await (.invalidate ref)
  publishMarket ref (.marketStatus .invalid none)

def onRedeem (log : NormalizedLog) (marketId : Nat) (rawAccount : JsString) (payout : Nat) :
    Chain Unit := do
  let some ref ← marketRef log.address marketId | return
  let account := rawAccount.toLowerCase
  await (.updatePositions ref account {
    redeemed := some true
    realizedPnl := some (.increment payout) })
  await (.updateMarket ref { pot := some (.decrement payout) })
  await (.invalidate ref)

def onSeedRedeemed (log : NormalizedLog) (marketId amount : Nat) : Chain Unit := do
  let some ref ← marketRef log.address marketId | return
  if amount = 0 then return
  await (.updateMarket ref { pot := some (.decrement amount) })
  await (.invalidate ref)

/-! ## Bonded resolution

These logs come from the resolver: their `market` argument is the engine. -/

/-- The market a resolution log is about, and its reference if it is indexed. -/
def resolutionKey (market : JsString) (marketId : Nat) :
    Chain (MarketKey × Option MarketKey) := do
  let key : MarketKey := ⟨market.toLowerCase, marketId⟩
  let row : Option Market ← await (.findMarket key)
  return (key, row.map fun _ => key)

def announceResolution (ref : Option MarketKey) (key : MarketKey) : Chain Unit := do
  let some ref := ref | return
  await (.invalidate ref)
  await (.redisDel ref)
  let row : Option ResolutionProposal ← await (.findResolution key)
  let disputeDeadline ← match row.bind (·.disputeDeadline) with
    | some deadline => some <$> toISOString deadline
    | none => pure none
  publishMarket ref (.resolution ((row.map (·.phase)).getD .none) disputeDeadline)

def onProposed (log : NormalizedLog) (a : Proposed) : Chain Unit := do
  let (key, ref) ← resolutionKey a.market a.marketId
  await (.upsertResolution key {
    marketRef := ref
    phase := .proposed
    proposer := some a.proposer.toLowerCase
    proposedOutcome := outcomeOrVoid a.outcome
    proposerBonded := a.bonded
    proposerBond := a.bond
    disputeDeadline := some (.ofSeconds a.disputeDeadline)
    disputer := none
    counterOutcome := none
    disputerBond := 0
    arbitrationDeadline := none
    route := none
    settledOutcome := none
    reward := 0
    forfeited := 0
    loser := none
    settledAt := none
    settledTx := none
    proposedTx := some log.txHash })
  announceResolution ref key

def onDisputed (a : Disputed) : Chain Unit := do
  let (key, ref) ← resolutionKey a.market a.marketId
  await (.updateResolutions key {
    phase := some .disputed
    disputer := some (some a.disputer.toLowerCase)
    counterOutcome := some (outcomeOrVoid a.counterOutcome)
    disputerBond := some a.bond
    arbitrationDeadline := some (some (.ofSeconds a.arbitrationDeadline)) })
  announceResolution ref key

def onFinalized (log : NormalizedLog) (a : Finalized) : Chain Unit := do
  let (key, ref) ← resolutionKey a.market a.marketId
  await (.updateResolutions key {
    phase := some .settled
    route := some (some .finalized)
    settledOutcome := some (outcomeOrVoid a.outcome)
    reward := some a.reward
    settledAt := some (some log.timestamp)
    settledTx := some (some log.txHash) })
  announceResolution ref key

def onArbitrated (a : Arbitrated) : Chain Unit := do
  let (key, ref) ← resolutionKey a.market a.marketId
  await (.updateResolutions key {
    phase := some .settled
    route := some (some .arbitrated)
    settledOutcome := some (outcomeOrVoid a.outcome)
    reward := some a.reward
    forfeited := some a.forfeited
    loser := some (unlessZero a.loser.toLowerCase) })
  announceResolution ref key

def onSlashed (log : NormalizedLog) (a : Slashed) : Chain Unit := do
  let (key, _) ← resolutionKey a.market a.marketId
  await (.updateResolutions key {
    loser := some (some a.account.toLowerCase)
    forfeited := some a.amount
    settledAt := some (some log.timestamp)
    settledTx := some (some log.txHash) })

def onResolutionCleared (market : JsString) (marketId : Nat) : Chain Unit := do
  let (key, ref) ← resolutionKey market marketId
  await (.updateResolutions key {
    phase := some .none
    proposer := some none
    proposedOutcome := some none
    proposerBonded := some false
    proposerBond := some 0
    disputeDeadline := some none
    disputer := some none
    counterOutcome := some none
    disputerBond := some 0
    arbitrationDeadline := some none })
  announceResolution ref key

/-! ## The ban list -/

def onBanned (log : NormalizedLog) (a : Banned) : Chain Unit :=
  let context := unlessZero a.context.toLowerCase
  await (.upsertBanned a.account.toLowerCase {
    context
    marketId := context.map fun _ => a.marketId
    bannedAt := .ofSeconds a.at
    liftedAt := none
    txHash := some log.txHash })

def onUnbanned (log : NormalizedLog) (account : JsString) : Chain Unit :=
  await (.liftBans account.toLowerCase log.timestamp log.txHash)

/-! ## Price refresh -/

/-- The latest timestamp of a market's logs, or the current time when there is none. -/
def latestTs (logs : List NormalizedLog) (key : MarketKey) : Chain Date := do
  let timestamps := (logs.filter fun l =>
    l.address.toLowerCase = key.address.toLowerCase ∧ l.event.marketId? = some key.marketId).map
      NormalizedLog.timestamp
  match timestamps with
  | [] => await .dateNow
  | first :: rest => return rest.foldl (fun ts t => if t.ms > ts.ms then t else ts) first

/-- `PricesService.recordPoint`. -/
def recordPoint (marketRef : MarketKey) (outcomeIndex priceWad volume : Nat) (timestamp : Date) :
    Chain Unit :=
  await (.upsertPricePoint ⟨marketRef, outcomeIndex, ⟨timestamp.ms / 1000 * 1000⟩⟩ priceWad volume)

def applyPrices (ref : MarketKey) (prices : List Nat) (ts : Date) : Chain Unit := do
  forEach prices.zipIdx fun (p, i) =>
    await (.updateOutcome ref i { currentPriceWad := some (.set p) })
  forEach prices.zipIdx fun (p, i) => recordPoint ref i p 0 ts
  await (.redisDel ref)
  publishMarket ref (.price prices)

def refreshPrices (logs : List NormalizedLog) (ref : MarketKey) : Chain Unit := do
  let market : Option Market ← await (.findMarketById ref)
  if market.isNone ∨ ext.chainReady = false then return
  let read : Option (List Nat) ←
    tryCatch (some <$> (await (.readPrices ref) : Chain (List Nat))) fun _ => pure none
  let some prices := read | return
  let ts ← latestTs logs ref
  applyPrices ref prices ts

/-! ## Dispatch -/

/-- Apply one log. The result is the set of traded markets after it. -/
def apply (log : NormalizedLog) (touched : List MarketKey) : Chain (List MarketKey) :=
  match log.kind with
  | .lsLmsr =>
      match log.event with
      | .marketCreated args => do createMarket ext log args; return touched
      | .marketMetadataPublished args => do onMetadataPublished ext log args; return touched
      | .bought args => onTrade log .buy args touched
      | .sold args => onTrade log .sell args touched
      | .shorted args => onShort log args touched
      | .marketResolved marketId winningOutcomeId owed surplus => do
          onResolved log marketId winningOutcomeId owed surplus
          return touched
      | .marketInvalidated marketId surplus => do
          onInvalidated log marketId surplus
          return touched
      | .redeemed marketId account amount => do
          onRedeem log marketId account amount
          return touched
      | .seedRedeemed marketId _ amount => do
          onSeedRedeemed log marketId amount
          return touched
      | _ => return touched
  | .optimisticResolver =>
      match log.event with
      | .proposed args => do onProposed log args; return touched
      | .disputed args => do onDisputed args; return touched
      | .finalized args => do onFinalized log args; return touched
      | .arbitrated args => do onArbitrated args; return touched
      | .slashed args => do onSlashed log args; return touched
      | .proposalAbandoned market marketId => do
          onResolutionCleared market marketId
          return touched
      | .disputeReset market marketId => do onResolutionCleared market marketId; return touched
      | _ => return touched
  | .tradingBlocklist =>
      match log.event with
      | .banned args => do onBanned log args; return touched
      | .unbanned account => do onUnbanned log account; return touched
      | _ => return touched

/-- Apply the logs in order. A log that fails aborts the batch. -/
def applyLogs : List NormalizedLog → List MarketKey → Chain (List MarketKey)
  | [], touched => pure touched
  | log :: rest, touched => do
      let touched ← tryCatch (apply ext log touched) throw
      applyLogs rest touched

/-- Apply a block-ordered batch of logs, then refresh prices for touched markets. -/
def processBatch (logs : List NormalizedLog) : Chain Unit := do
  let touched ← applyLogs ext logs []
  forEach touched (refreshPrices ext logs)

end EventProcessor

end Numera
