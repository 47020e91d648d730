import Numera.Foundation.Journal
import Numera.Chain.EventProcessor

/-! # The ledger

What the indexer mirrors of the money and the shares: for every market its pot
and the outstanding shares of each outcome, for every position its shares, cost
basis and realised profit, and the trades. `Database.ledger` reads it off the
database.

The handlers change it by the writes of `Write`. `logWrites` lists those of one
log: they depend on the ledger only through the books that exist and their
outcome counts, so they are known before the handler starts.
-/

namespace Numera

/-- The ledger's part of a market row and of its outcome rows. -/
structure Book where
  outcomeCount : Nat
  pot : Int
  stock : List Int
  deriving DecidableEq

/-- The ledger's part of a position row. -/
structure Holding where
  shares : Int
  costBasis : Int
  realizedPnl : Int
  deriving DecidableEq

structure Ledger where
  books : Table MarketKey Book
  holdings : Table PositionKey Holding
  trades : Table TradeKey Trade

def Market.book (row : Market) : Book :=
  ⟨row.outcomeCount, row.pot, row.outcomes.map (·.currentShares)⟩

def Position.holding (row : Position) : Holding := ⟨row.shares, row.costBasis, row.realizedPnl⟩

/-- The ledger a database holds. -/
def Database.ledger (db : Database) : Ledger :=
  ⟨db.markets.map Market.book, db.positions.map Position.holding, db.trades⟩

namespace Holding

/-- Opening or adding: the shares and what was paid for them. -/
def buy (shares amount : Int) (holding : Holding) : Holding :=
  { holding with
    shares := holding.shares + shares
    costBasis := holding.costBasis + amount }

/-- The shares a sale takes off a holding: no more than it has. -/
def sold (shares : Int) (holding : Holding) : Int :=
  if shares > holding.shares then holding.shares else shares

/-- The basis a sale takes off a holding: the sold fraction of it, rounded down. -/
def costRemoved (shares : Int) (holding : Holding) : Int :=
  if holding.shares > 0 then (holding.costBasis * holding.sold shares).tdiv holding.shares else 0

/-- Reducing: the proceeds over the basis removed are realised. -/
def sell (shares amount : Int) (holding : Holding) : Holding where
  shares := holding.shares - holding.sold shares
  costBasis := holding.costBasis - holding.costRemoved shares
  realizedPnl := holding.realizedPnl + (amount - holding.costRemoved shares)

/-- A redemption is pure profit. -/
def redeem (payout : Int) (holding : Holding) : Holding :=
  { holding with realizedPnl := holding.realizedPnl + payout }

/-- What the holder has received over what the holder has paid. -/
def cash (holding : Holding) : Int := holding.realizedPnl - holding.costBasis

@[simp] theorem cash_buy (shares amount : Int) (holding : Holding) :
    (holding.buy shares amount).cash = holding.cash - amount := by
  simp only [cash, buy]
  ring

@[simp] theorem cash_redeem (payout : Int) (holding : Holding) :
    (holding.redeem payout).cash = holding.cash + payout := by
  simp only [cash, redeem]
  ring

@[simp] theorem cash_sell (shares amount : Int) (holding : Holding) :
    (holding.sell shares amount).cash = holding.cash + amount := by
  simp only [cash, sell]
  ring

end Holding

/-- A change of the ledger. -/
inductive Write where
  | openBook (key : MarketKey) (book : Book)
  | trade (key : TradeKey) (row : Trade)
  | movePot (key : MarketKey) (amount : Int)
  | setPot (key : MarketKey) (amount : Int)
  | moveStock (key : MarketKey) (index : Nat) (shares : Int)
  | buy (key : PositionKey) (shares amount : Int)
  | sell (key : PositionKey) (shares : Nat) (amount : Int)
  | redeem (key : MarketKey) (account : JsString) (payout : Int)
  deriving DecidableEq

namespace Write

/-- The ledger after a write. -/
def apply : Write → Ledger → Ledger
  | openBook key book, ledger => { ledger with books := ledger.books.insertNew key book }
  | trade key row, ledger => { ledger with trades := ledger.trades.insertNew key row }
  | movePot key amount, ledger =>
      { ledger with books := ledger.books.modify key fun book =>
          { book with pot := book.pot + amount } }
  | setPot key amount, ledger =>
      { ledger with books := ledger.books.modify key fun book => { book with pot := amount } }
  | moveStock key index shares, ledger =>
      { ledger with books := ledger.books.modify key fun book =>
          { book with stock := book.stock.modify index (· + shares) } }
  | buy key shares amount, ledger =>
      { ledger with holdings :=
          ledger.holdings.upsert key ⟨shares, amount, 0⟩ (Holding.buy shares amount) }
  | sell key shares amount, ledger =>
      { ledger with holdings :=
          ledger.holdings.upsert key ⟨0, 0, amount⟩ (Holding.sell shares amount) }
  | redeem key account payout, ledger =>
      { ledger with holdings :=
          ledger.holdings.modifyWhere (Database.isHeldBy key account) (Holding.redeem payout) }

/-- A write that moves no balance: it creates rows, sets a pot that exists, or
adds nothing. -/
def Still : Write → Ledger → Prop
  | openBook _ _, _ => True
  | trade _ _, _ => True
  | movePot _ amount, _ => amount = 0
  | setPot key _, ledger => (ledger.books.find? key).isSome
  | moveStock _ _ shares, _ => shares = 0
  | buy _ shares amount, _ => shares = 0 ∧ amount = 0
  | sell key shares amount, ledger =>
      match ledger.holdings.find? key with
      | none => amount = 0
      | some holding => holding.sell shares amount = holding
  | redeem _ _ payout, _ => payout = 0

end Write

/-! ## The writes of a log -/

/-- The trade row a trade log leaves. -/
def tradeRow (log : NormalizedLog) (side : TradeSide) (a : TradeArgs) : Trade where
  marketRef := log.marketKey a.marketId
  account := a.account.toLowerCase
  side := side
  outcomeIndex := a.outcomeId
  shares := a.shares
  amount := a.amount
  spreadWad := a.spreadWad
  priceWad := EventProcessor.averagePriceWad a.amount a.shares
  blockNumber := log.blockNumber
  timestamp := log.timestamp

def tradeKey (log : NormalizedLog) : TradeKey := ⟨log.txHash, log.logIndex⟩

/-- The position of a trade log's account in an outcome of its market. -/
def positionKey (log : NormalizedLog) (a : TradeArgs) (index : Nat) : PositionKey :=
  ⟨log.marketKey a.marketId, a.account.toLowerCase, index⟩

/-- The writes of one leg of a short: its stock and its position. -/
def legWrites (log : NormalizedLog) (a : TradeArgs) (count : Nat) (leg : Nat × Nat) : List Write :=
  [.moveStock (log.marketKey a.marketId) leg.1 a.shares,
    .buy (positionKey log a leg.1) a.shares (EventProcessor.legBasis a.amount count leg.2)]

/-- The writes of a short on a market of some number of outcomes. -/
def shortWrites (log : NormalizedLog) (a : TradeArgs) (outcomeCount : Nat) : List Write :=
  let legs := EventProcessor.legs outcomeCount a.outcomeId
  if legs.length = 0 then []
  else
    .trade (tradeKey log) (tradeRow log .short a) ::
      (legs.zipIdx.flatMap (legWrites log a legs.length) ++
        [.movePot (log.marketKey a.marketId) a.amount])

/-- The book a market is created with. -/
def openingBook (a : MarketCreated) : Book :=
  ⟨a.outcomeCount, a.seedCost, List.replicate a.outcomeCount a.seedPerOutcome⟩

/-- The writes of an engine event, on a market whose book is given if it exists. -/
def engineWrites (book? : MarketKey → Option Book) (log : NormalizedLog) : List Write :=
  match log.event with
  | .marketCreated a => [.openBook (log.marketKey a.marketId) (openingBook a)]
  | .bought a =>
      match book? (log.marketKey a.marketId) with
      | none => []
      | some _ =>
          [.trade (tradeKey log) (tradeRow log .buy a),
            .movePot (log.marketKey a.marketId) a.amount,
            .moveStock (log.marketKey a.marketId) a.outcomeId a.shares,
            .buy (positionKey log a a.outcomeId) a.shares a.amount]
  | .sold a =>
      match book? (log.marketKey a.marketId) with
      | none => []
      | some _ =>
          [.trade (tradeKey log) (tradeRow log .sell a),
            .movePot (log.marketKey a.marketId) (-a.amount),
            .moveStock (log.marketKey a.marketId) a.outcomeId (-a.shares),
            .sell (positionKey log a a.outcomeId) a.shares a.amount]
  | .shorted a =>
      match book? (log.marketKey a.marketId) with
      | none => []
      | some book => shortWrites log a book.outcomeCount
  | .marketResolved marketId _ owed _ =>
      match book? (log.marketKey marketId) with
      | none => []
      | some _ => [.setPot (log.marketKey marketId) owed]
  | .redeemed marketId account amount =>
      match book? (log.marketKey marketId) with
      | none => []
      | some _ =>
          [.redeem (log.marketKey marketId) account.toLowerCase amount,
            .movePot (log.marketKey marketId) (-amount)]
  | .seedRedeemed marketId _ amount =>
      match book? (log.marketKey marketId) with
      | none => []
      | some _ => if amount = 0 then [] else [.movePot (log.marketKey marketId) (-amount)]
  | _ => []

/-- The writes of a log. Only the engine's logs have any. -/
def logWrites (book? : MarketKey → Option Book) (log : NormalizedLog) : List Write :=
  match log.kind with
  | .lsLmsr => engineWrites book? log
  | .optimisticResolver | .tradingBlocklist => []

/-- A short of the outcome has another outcome of the market to credit. -/
def Ledger.credits (ledger : Ledger) (market : MarketKey) (shorted : Nat) : Bool :=
  (ledger.books.find? market).all fun book =>
    !(EventProcessor.legs book.outcomeCount shorted).isEmpty

theorem Ledger.legs_of_credits {ledger : Ledger} {market : MarketKey} {shorted : Nat} {book : Book}
    (credits : ledger.credits market shorted) (present : ledger.books.find? market = some book) :
    EventProcessor.legs book.outcomeCount shorted ≠ [] := by
  simpa [Ledger.credits, present] using credits

/-! ## The journal of the database -/

/-- A number operation that moves its column however often it is repeated. -/
def DecimalUpdate.moves : Option DecimalUpdate → Bool
  | some (.increment value) | some (.decrement value) => value != 0
  | _ => false

/-- A call that moves a balance: it adds to or subtracts from a pot, an outcome's
shares or a position. -/
def Call.moves : Call → Bool
  | .updateMarket _ data => DecimalUpdate.moves data.pot
  | .updateOutcome _ _ data => DecimalUpdate.moves data.currentShares
  | .upsertPosition _ _ data | .updatePositions _ _ data =>
      DecimalUpdate.moves data.shares || DecimalUpdate.moves data.costBasis ||
        DecimalUpdate.moves data.realizedPnl
  | _ => false

/-- The database seen as its ledger. -/
def ledgerJournal : Journal Database Call Ledger Write where
  view := Database.ledger
  apply := Write.apply
  quiet call := call.moves = false
  still := Write.Still

@[simp] theorem ledgerJournal_apply (write : Write) (ledger : Ledger) :
    ledgerJournal.apply write ledger = write.apply ledger := rfl

/-- The ledger after applying a batch of logs. -/
def Ledger.applyLogs (ledger : Ledger) : List NormalizedLog → Ledger
  | [] => ledger
  | log :: rest =>
      (ledgerJournal.replay (logWrites ledger.books.find? log) ledger).applyLogs rest

/-- The writes of a batch of logs. -/
def batchWrites : List NormalizedLog → Ledger → List Write
  | [], _ => []
  | log :: rest, ledger =>
      logWrites ledger.books.find? log ++
        batchWrites rest (ledgerJournal.replay (logWrites ledger.books.find? log) ledger)

/-! ## The pot of one market -/

variable (market : MarketKey)

/-- The pot of a market, if it is known. -/
def Ledger.pot? (ledger : Ledger) : Option Int := (ledger.books.find? market).map Book.pot

/-- The pot after a write. -/
def Write.onPot (pot : Option Int) : Write → Option Int
  | openBook key book => if market = key then some (pot.getD book.pot) else pot
  | movePot key amount => if market = key then pot.map (· + amount) else pot
  | setPot key amount => if market = key then pot.map fun _ => amount else pot
  | _ => pot

theorem pot?_apply (write : Write) (ledger : Ledger) :
    (write.apply ledger).pot? market = write.onPot market (ledger.pot? market) := by
  cases write with
  | openBook key book =>
      simp only [Ledger.pot?, Write.apply, Write.onPot, Table.find?_insertNew]
      split
      · rename_i same
        subst same
        cases ledger.books.find? market <;> rfl
      · rfl
  | movePot key amount =>
      simp only [Ledger.pot?, Write.apply, Write.onPot, Table.find?_modify]
      split
      · rename_i same
        subst same
        cases ledger.books.find? market <;> rfl
      · rfl
  | setPot key amount =>
      simp only [Ledger.pot?, Write.apply, Write.onPot, Table.find?_modify]
      split
      · rename_i same
        subst same
        cases ledger.books.find? market <;> rfl
      · rfl
  | moveStock key index shares =>
      simp only [Ledger.pot?, Write.apply, Write.onPot, Table.find?_modify]
      split
      · rename_i same
        subst same
        cases ledger.books.find? market <;> rfl
      · rfl
  | trade _ _ => rfl
  | buy _ _ _ => rfl
  | sell _ _ _ => rfl
  | redeem _ _ _ => rfl

end Numera
