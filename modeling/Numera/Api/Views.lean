import Numera.Chain.Database
import Numera.Foundation.Decimal

/-! # What the API serves

The read side of the rows: the portfolio's mark to market, the market serializer
and the price series. A decimal column is read either through `toString`, and then
often through `BigInt`, or through `toFixed(0)`. A date is served as the ISO text of
a valid instant and stands for it here. The `engine` column has a single value and is
left out.
-/

namespace Numera

open JsString (decimalToString)

/-- `BigInt(text)`, which throws on what is not an integer literal. -/
def bigIntOf (text : JsString) : Except Failure Int :=
  match JsString.parseBigInt text with
  | some value => .ok value
  | none => .error .syntaxError

/-- `toStr` of a decimal: `toFixed(0)`. -/
def toStr (value : Int) : JsString := JsString.ofInt value

/-- `toHuman`, with the library's `formatUnits`. -/
def toHuman (formatUnits : Int → Nat → JsString) (value : Int) (decimals : Nat) :
    Option JsString :=
  match bigIntOf (toStr value) with
  | .ok units => some (formatUnits units decimals)
  | .error _ => none

/-! ## Positions -/

namespace PositionsService

/-- What a position is worth right now, in collateral base units. -/
def markToMarket (outcomeIndex : Nat) (p : Position) (market : Market) (outcome : Option Outcome) :
    Except Failure (Option JsString) := do
  let shares ← bigIntOf (decimalToString p.shares)
  if shares = 0 then return some (JsString.ascii "0")
  else match market.status with
    | .resolved =>
        -- Winning shares redeem 1:1 and losing shares are worthless.
        return some (if market.winningOutcomeId = some outcomeIndex then JsString.ofInt shares
          else JsString.ascii "0")
    | .invalid => return some (toStr p.costBasis)
    | .trading =>
        match outcome with
        | some outcome => do
            let priceWad ← bigIntOf (decimalToString outcome.currentPriceWad)
            return some (JsString.ofInt ((shares * priceWad).tdiv wad))
        | none => return none

end PositionsService

structure PositionView where
  marketRef : MarketKey
  marketTitle : JsString
  marketStatus : MarketStatus
  marketAddress : JsString
  marketOnChainId : JsString
  collateral : JsString
  account : JsString
  outcomeIndex : Nat
  outcomeLabel : JsString
  shares : JsString
  costBasis : JsString
  realizedPnl : JsString
  redeemed : Bool
  currentPriceWad : Option JsString
  winningOutcomeId : Option Nat
  markToMarket : Option JsString

def PositionsService.serialize (key : PositionKey) (p : Position) (market : Market) :
    Except Failure PositionView := do
  let outcome := market.outcomes[key.outcomeIndex]?
  let markToMarket ← markToMarket key.outcomeIndex p market outcome
  return {
    marketRef := key.marketRef
    marketTitle := market.title
    marketStatus := market.status
    marketAddress := key.marketRef.address
    marketOnChainId := JsString.ofNat key.marketRef.marketId
    collateral := market.collateral
    account := key.account
    outcomeIndex := key.outcomeIndex
    outcomeLabel := (outcome.map Outcome.label).getD []
    shares := toStr p.shares
    costBasis := toStr p.costBasis
    realizedPnl := toStr p.realizedPnl
    redeemed := p.redeemed
    currentPriceWad := outcome.map fun outcome => toStr outcome.currentPriceWad
    winningOutcomeId := market.winningOutcomeId
    markToMarket }

/-! ## Markets -/

structure OutcomeView where
  index : Nat
  label : JsString
  priceWad : JsString
  probability : Option JsString
  shares : JsString

structure ResolutionView where
  phase : ResolutionPhase
  proposedOutcome : Option Nat
  proposer : Option JsString
  bonded : Bool
  bond : JsString
  disputeDeadline : Option Date
  disputable : Bool
  finalizable : Bool
  disputer : Option JsString
  counterOutcome : Option Nat
  disputerBond : JsString
  arbitrationDeadline : Option Date
  route : Option ResolutionRoute
  settledOutcome : Option Nat
  reward : JsString
  forfeited : JsString
  loser : Option JsString
  settledAt : Option Date

structure MarketView where
  id : MarketKey
  address : JsString
  marketId : JsString
  title : JsString
  description : JsString
  imageUrl : Option JsString
  category : Option JsString
  status : MarketStatus
  tradingOpen : Bool
  resolutionRules : JsString
  startTime : Date
  notOpenYet : Bool
  closeTime : Date
  winningOutcomeId : Option Nat
  collateral : JsString
  collateralDecimals : Nat
  alpha : JsString
  sStar : JsString
  seed : JsString
  pot : JsString
  potHuman : Option JsString
  surplus : Option JsString
  outcomeCount : Nat
  outcomes : List OutcomeView
  resolution : Option ResolutionView
  createdAt : Date

namespace MarketSerializer

variable (formatUnits : Int → Nat → JsString) (now : Date)

def isTradingOpen (m : Market) : Bool :=
  m.status = .trading ∧ m.startTime.ms ≤ now.ms ∧ now.ms < m.closeTime.ms

def isNotOpenYet (m : Market) : Bool := m.status = .trading ∧ now.ms < m.startTime.ms

def outcome (index : Nat) (o : Outcome) : OutcomeView where
  index := index
  label := o.label
  priceWad := toStr o.currentPriceWad
  probability := toHuman formatUnits o.currentPriceWad 18
  shares := toStr o.currentShares

def resolution (r : ResolutionProposal) : ResolutionView :=
  let deadline := (r.disputeDeadline.map Date.ms).getD 0
  { phase := r.phase
    proposedOutcome := r.proposedOutcome
    proposer := r.proposer
    bonded := r.proposerBonded
    bond := toStr r.proposerBond
    disputeDeadline := r.disputeDeadline
    disputable := r.phase = .proposed ∧ now.ms ≤ deadline
    finalizable := r.phase = .proposed ∧ deadline < now.ms
    disputer := r.disputer
    counterOutcome := r.counterOutcome
    disputerBond := toStr r.disputerBond
    arbitrationDeadline := r.arbitrationDeadline
    route := r.route
    settledOutcome := r.settledOutcome
    reward := toStr r.reward
    forfeited := toStr r.forfeited
    loser := r.loser
    settledAt := r.settledAt }

/-- `MarketSerializer.market` of a market, its resolution row and its creation date. -/
def market (decimals : Nat) (key : MarketKey) (m : Market) (r : Option ResolutionProposal)
    (createdAt : Date) : MarketView where
  id := key
  address := key.address
  marketId := JsString.ofNat key.marketId
  title := m.title
  description := m.description
  imageUrl := m.imageUrl
  category := m.categoryKey
  status := m.status
  tradingOpen := isTradingOpen now m
  resolutionRules := m.resolutionRules
  startTime := m.startTime
  notOpenYet := isNotOpenYet now m
  closeTime := m.closeTime
  winningOutcomeId := m.winningOutcomeId
  collateral := m.collateral
  collateralDecimals := decimals
  alpha := toStr m.alpha
  sStar := toStr m.sStar
  seed := toStr m.seed
  pot := decimalToString m.pot
  potHuman := toHuman formatUnits m.pot decimals
  surplus := m.surplus.map toStr
  outcomeCount := m.outcomeCount
  outcomes := m.outcomes.zipIdx.map fun (o, index) => outcome formatUnits index o
  resolution := r.map (resolution now)
  createdAt := createdAt

end MarketSerializer

/-! ## Prices -/

/-- A bucket of the price series, as the database aggregates it. -/
structure RawCandle where
  bucket : Date
  «open» : Int
  high : Int
  low : Int
  close : Int
  volume : Int

structure Candle where
  time : Date
  «open» : JsString
  high : JsString
  low : JsString
  close : JsString
  volume : JsString

/-- A bucket's last price, as the database aggregates it. -/
structure RawClose where
  marketRef : MarketKey
  bucket : Date
  close : Int

structure Sparkline where
  marketRef : MarketKey
  points : List JsString

structure LatestPrice where
  outcomeIndex : Nat
  priceWad : JsString

namespace PricesService

/-- `candles`, from the rows its query answers with. -/
def candles (rows : List RawCandle) : List Candle :=
  rows.map fun r => {
    time := r.bucket
    «open» := decimalToString r.open
    high := decimalToString r.high
    low := decimalToString r.low
    close := decimalToString r.close
    volume := decimalToString r.volume }

/-- `sparklines` of the requested markets, from the rows its query answers with: the
closes of each market in their order, and markets without any left out. -/
def sparklines (markets : List MarketKey) (rows : List RawClose) : List Sparkline :=
  let byMarket (marketRef : MarketKey) :=
    (rows.filter fun r => r.marketRef = marketRef).map fun r => decimalToString r.close
  (markets.filter fun marketRef => !(byMarket marketRef).isEmpty).map fun marketRef =>
    { marketRef, points := byMarket marketRef }

/-- `latest`: the price on each outcome row of a market. -/
def latest (m : Market) : List LatestPrice :=
  m.outcomes.zipIdx.map fun (o, index) =>
    { outcomeIndex := index, priceWad := decimalToString o.currentPriceWad }

end PricesService

end Numera
