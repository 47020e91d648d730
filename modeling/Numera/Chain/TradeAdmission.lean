import Numera.Chain.Admission

/-! # What a trade needs

A trade is taken when its row fits its columns, the market it names has the outcome it is
for, and the pot, the stock and the position fit after it. A short is taken when each of its
legs is.
-/

namespace Numera

open Async (Returns returns_bind)
open EventProcessor

/-! ## Parts of a trade -/

/-- A trade fits the row that records it. -/
structure RecordsTrade (log : NormalizedLog) (a : TradeArgs) : Prop where
  logIndex : storableInt log.logIndex = true
  outcomeId : storableInt a.outcomeId = true
  shares : storableDecimal a.shares = true
  amount : storableDecimal a.amount = true
  spread : storableDecimal a.spreadWad = true
  price : storableDecimal (averagePriceWad a.amount a.shares) = true
  block : storableBigInt log.blockNumber = true
  timestamp : log.timestamp.storable = true

/-- A market's outcome can be moved by some shares. -/
def TakesStock (row : Market) (index : Nat) (moved : Int) : Prop :=
  ∃ outcome, row.outcomes[index]? = some outcome ∧
    storableDecimal (outcome.currentShares + moved) = true

/-- A position can be moved by a trade. -/
def TakesPosition (db : Database) (side : TradeSide) (key : PositionKey) (shares amount : Nat) :
    Prop :=
  if side = .sell then TakesSale db key shares amount else TakesPurchase db key shares amount

section Parts

variable {outside : Call → Outside} {db : Database} {log : NormalizedLog} {ref : MarketKey}
  {row : Market} {α : Type}

/-- The call that records a trade. -/
def tradeCall (log : NormalizedLog) (ref : MarketKey) (side : TradeSide) (a : TradeArgs) : Call :=
  .upsertTrade ⟨log.txHash, log.logIndex⟩ {
    marketRef := ref, account := a.account.toLowerCase, side, outcomeIndex := a.outcomeId,
    shares := a.shares, amount := a.amount, spreadWad := a.spreadWad,
    priceWad := averagePriceWad a.amount a.shares, blockNumber := log.blockNumber,
    timestamp := log.timestamp }

theorem refusal_trade {side : TradeSide} {a : TradeArgs} {now : Outside} :
    (tradeCall log ref side a).refusal now db = none ↔ RecordsTrade log a := by
  simp only [tradeCall, Call.refusal, unlessFits_eq_none, Trade.storable, Bool.and_eq_true]
  constructor
  · rintro ⟨logIndex, ⟨⟨⟨⟨⟨outcomeId, shares⟩, amount⟩, spread⟩, price⟩, block⟩, timestamp⟩
    exact ⟨logIndex, outcomeId, shares, amount, spread, price, block, timestamp⟩
  · rintro ⟨logIndex, outcomeId, shares, amount, spread, price, block, timestamp⟩
    exact ⟨logIndex, ⟨⟨⟨⟨⟨outcomeId, shares⟩, amount⟩, spread⟩, price⟩, block⟩, timestamp⟩

/-- The pot of a market is moved when it fits then. -/
theorem refusal_pot {moved : DecimalUpdate} {now : Outside}
    (found : db.markets.find? ref = some row) (fits : row.storable = true) :
    (Call.updateMarket ref { pot := some moved }).refusal now db = none ↔
      storableDecimal (DecimalUpdate.apply (some moved) row.pot) = true := by
  rw [refusal_updateMarket found fits]
  constructor
  · rintro ⟨-, fits⟩
    exact fits.pot
  · intro pot
    exact ⟨rfl, ⟨rfl, rfl, rfl, rfl, rfl, rfl, pot, rfl⟩⟩

theorem find?_updateMarket (found : db.markets.find? ref = some row) (data : MarketUpdate) :
    ((Call.updateMarket ref data).effect db).markets.find? ref = some (data.apply row) := by
  simp [Call.effect, found]

/-- The stock of an outcome is moved when the outcome is there and the stock fits then. -/
theorem refusal_stock {index : Nat} {moved : Int} {now : Outside}
    (found : db.markets.find? ref = some row) (fits : row.storable = true) :
    (Call.updateOutcome ref index { currentShares := some (.increment moved) }).refusal now db =
        none ↔ TakesStock row index moved := by
  rw [refusal_updateOutcome found fits]
  refine exists_congr fun outcome => and_congr_right fun here => ?_
  have whole := storable_outcome fits here
  simp only [Outcome.storable, Bool.and_eq_true] at whole
  simp [Outcome.storable, OutcomeUpdate.apply, DecimalUpdate.apply, whole.1.1, whole.1.2]

theorem returns_updatePosition {rawAccount : JsString} {index shares amount : Nat}
    {side : TradeSide} {post : Unit → Database → Prop} {rest : Prop} (wellFormed : db.WellFormed)
    (ends : ∀ later, post () later ↔ rest) :
    Returns (serving outside) (updatePosition ref rawAccount index side shares amount) db post ↔
      TakesPosition db side ⟨ref, rawAccount.toLowerCase, index⟩ shares amount ∧ rest := by
  unfold TakesPosition
  split
  · rename_i sells
    subst sells
    exact returns_sale ends
  · rename_i buys
    rw [returns_purchase wellFormed buys, ends]

/-- A trade with a time that is one is announced. -/
theorem returns_announceTrade {date : Date} {data : Date → RealtimeData}
    {touched : List MarketKey} :
    Returns (serving outside) (do
        let timestamp ← toISOString date
        publishMarket ref (data timestamp)
        return touched) db (fun _ _ => True) ↔ date.valid = true := by
  rw [returns_bind, returns_toISOString, returns_bind, returns_publishMarket]
  simp

end Parts

/-! ## Purchases and sales -/

/-- The pot's change in a trade. -/
def potMoved (side : TradeSide) (a : TradeArgs) : Int := if side = .buy then a.amount else -a.amount

/-- The stock's change in a trade. -/
def stockMoved (side : TradeSide) (a : TradeArgs) : Int :=
  if side = .buy then a.shares else -a.shares

/-- A market takes a purchase or a sale. -/
structure TakesTradeIn (db : Database) (log : NormalizedLog) (side : TradeSide) (a : TradeArgs)
    (row : Market) : Prop where
  recorded : RecordsTrade log a
  pot : storableDecimal (row.pot + potMoved side a) = true
  stock : TakesStock row a.outcomeId (stockMoved side a)
  position : TakesPosition db side ⟨log.marketKey a.marketId, a.account.toLowerCase, a.outcomeId⟩
    a.shares a.amount

/-- A purchase or a sale can be taken, if it is of a market. -/
def TakesTrade (db : Database) (log : NormalizedLog) (side : TradeSide) (a : TradeArgs) : Prop :=
  storableBigInt a.marketId = true ∧
    ∀ row, db.markets.find? (log.marketKey a.marketId) = some row → TakesTradeIn db log side a row

section Trades

variable {outside : Call → Outside} {db : Database} {log : NormalizedLog} {side : TradeSide}
  {touched : List MarketKey}

theorem returns_onTrade (wellFormed : db.WellFormed) (a : TradeArgs) :
    Returns (serving outside) (onTrade log side a touched) db (fun _ _ => True) ↔
      TakesTrade db log side a := by
  unfold onTrade
  refine returns_ofMarket trivial fun row found => ?_
  have fits := wellFormed.markets _ _ found
  -- Three rows are written before the position, each in its own table or column.
  let record := tradeCall log (log.marketKey a.marketId) side a
  let movePot : Call := .updateMarket (log.marketKey a.marketId) {
    pot := some (.increment (potMoved side a)) }
  let moveStock : Call := .updateOutcome (log.marketKey a.marketId) a.outcomeId {
    currentShares := some (.increment (stockMoved side a)) }
  have recorded : (record.effect db).markets.find? (log.marketKey a.marketId) = some row := found
  have there := find?_updateMarket recorded { pot := some (.increment (potMoved side a)) }
  unfold insertTrade
  rw [returns_await_bind, returns_await_bind, returns_await_bind, returns_bind]
  constructor
  · rintro ⟨trade, pot, stock, position⟩
    have whole : (movePot.effect (record.effect db)).WellFormed :=
      (wellFormed.effect trade).effect pot
    have stocked := (refusal_stock there (whole.markets _ _ there)).mp stock
    have positioned := (returns_updatePosition (whole.effect stock)
      fun later => returns_announceTrade).mp position
    exact ⟨refusal_trade.mp trade, (refusal_pot recorded fits).mp pot, stocked, positioned.1⟩
  · rintro ⟨taken, pot, stocked, position⟩
    have trade : record.refusal (outside record) db = none := refusal_trade.mpr taken
    have moved : movePot.refusal (outside movePot) (record.effect db) = none :=
      (refusal_pot recorded fits).mpr pot
    have whole : (movePot.effect (record.effect db)).WellFormed :=
      (wellFormed.effect trade).effect moved
    have stock : moveStock.refusal (outside moveStock) (movePot.effect (record.effect db)) = none :=
      (refusal_stock there (whole.markets _ _ there)).mpr stocked
    refine ⟨trade, moved, stock, ?_⟩
    exact (returns_updatePosition (whole.effect stock) fun later => returns_announceTrade).mpr
      ⟨position, Date.valid_of_storable taken.timestamp⟩

end Trades

/-! ## Shorts -/

/-- A leg of a short: the outcome that is credited, and what of the cost it carries. -/
structure TakesLeg (db : Database) (log : NormalizedLog) (a : TradeArgs) (count : Nat)
    (row : Market) (leg : Nat × Nat) : Prop where
  stock : TakesStock row leg.1 a.shares
  position : TakesPurchase db ⟨log.marketKey a.marketId, a.account.toLowerCase, leg.1⟩ a.shares
    (legBasis a.amount count leg.2)

/-- A market takes a short. -/
structure TakesShortIn (db : Database) (log : NormalizedLog) (a : TradeArgs) (row : Market) :
    Prop where
  recorded : RecordsTrade log a
  taken : ∀ leg ∈ (legs row.outcomeCount a.outcomeId).zipIdx,
    TakesLeg db log a (legs row.outcomeCount a.outcomeId).length row leg
  pot : storableDecimal (row.pot + a.amount) = true

/-- A short can be taken, if it is of a market with another outcome. -/
def TakesShort (db : Database) (log : NormalizedLog) (a : TradeArgs) : Prop :=
  storableBigInt a.marketId = true ∧
    ∀ row, db.markets.find? (log.marketKey a.marketId) = some row →
      legs row.outcomeCount a.outcomeId ≠ [] → TakesShortIn db log a row

section Shorts

variable {outside : Call → Outside} {db : Database} {log : NormalizedLog} {row : Market}
  {touched : List MarketKey}

/-- The legs of a short are of different outcomes. -/
theorem legs_apart (count shorted : Nat) :
    (legs count shorted).zipIdx.Pairwise fun leg other => leg.1 ≠ other.1 := by
  rw [← List.pairwise_map (f := Prod.fst) (R := (· ≠ ·)), List.zipIdx_map_fst]
  exact List.nodup_range.filter _

/-- A purchase of one outcome leaves the position in another. -/
theorem takesPurchase_apart {key other : PositionKey} {shares amount held cost : Nat}
    (apart : key ≠ other) :
    TakesPurchase ((purchaseCall key shares amount).effect db) other held cost ↔
      TakesPurchase db other held cost := by
  have kept : ((purchaseCall key shares amount).effect db).positions.find? other =
      db.positions.find? other := by
    simp [purchaseCall, Call.effect, Table.find?_upsert, apart.symm]
  unfold TakesPurchase
  rw [kept]

/-- The call that moves the stock of a leg. -/
def stockCall (log : NormalizedLog) (a : TradeArgs) (leg : Nat × Nat) : Call :=
  .updateOutcome (log.marketKey a.marketId) leg.1 { currentShares := some (.increment a.shares) }

/-- The call that credits the position of a leg. -/
def legCall (log : NormalizedLog) (a : TradeArgs) (count : Nat) (leg : Nat × Nat) : Call :=
  purchaseCall ⟨log.marketKey a.marketId, a.account.toLowerCase, leg.1⟩ a.shares
    (legBasis a.amount count leg.2)

/-- The database once a leg is written. -/
def withLeg (log : NormalizedLog) (a : TradeArgs) (count : Nat) (db : Database) (leg : Nat × Nat) :
    Database :=
  (legCall log a count leg).effect ((stockCall log a leg).effect db)

section Legs

variable {a : TradeArgs} {count : Nat} {leg other : Nat × Nat}

theorem find?_withLeg (found : db.markets.find? (log.marketKey a.marketId) = some row) :
    (withLeg log a count db leg).markets.find? (log.marketKey a.marketId) =
      some (row.updateOutcome leg.1 { currentShares := some (.increment a.shares) }) :=
  find?_updateOutcome found _ _

/-- The two writes of a leg return when it is taken. -/
theorem returns_leg {post : Unit → Database → Prop} (wellFormed : db.WellFormed)
    (found : db.markets.find? (log.marketKey a.marketId) = some row) :
    Returns (serving outside) (do
        await (.updateOutcome (log.marketKey a.marketId) leg.1 {
          currentShares := some (.increment a.shares) })
        updatePosition (log.marketKey a.marketId) a.account.toLowerCase leg.1 .buy a.shares
          (legBasis a.amount count leg.2)) db post ↔
      TakesLeg db log a count row leg ∧ post () (withLeg log a count db leg) := by
  have bought (whole : ((stockCall log a leg).effect db).WellFormed) :
      Returns (serving outside) (updatePosition (log.marketKey a.marketId) a.account.toLowerCase
        leg.1 .buy a.shares (legBasis a.amount count leg.2)) ((stockCall log a leg).effect db) post ↔
          TakesPurchase db ⟨log.marketKey a.marketId, a.account.toLowerCase, leg.1⟩ a.shares
            (legBasis a.amount count leg.2) ∧ post () (withLeg log a count db leg) := by
    rw [returns_purchase whole (by decide), JsString.toLowerCase_toLowerCase]
    rfl
  have fits := wellFormed.markets _ _ found
  rw [returns_await_bind]
  constructor
  · rintro ⟨stock, position⟩
    obtain ⟨taken, ended⟩ := (bought (wellFormed.effect stock)).mp position
    exact ⟨⟨(refusal_stock found fits).mp stock, taken⟩, ended⟩
  · rintro ⟨taken, ended⟩
    have stock : (stockCall log a leg).refusal (outside (stockCall log a leg)) db = none :=
      (refusal_stock found fits).mpr taken.stock
    exact ⟨stock, (bought (wellFormed.effect stock)).mpr ⟨taken.position, ended⟩⟩

theorem TakesLeg.wellFormed (takes : TakesLeg db log a count row leg) (wellFormed : db.WellFormed)
    (found : db.markets.find? (log.marketKey a.marketId) = some row) (now : Outside) :
    (withLeg log a count db leg).WellFormed := by
  have stock : (stockCall log a leg).refusal now db = none :=
    (refusal_stock found (wellFormed.markets _ _ found)).mpr takes.stock
  have purchase : (legCall log a count leg).refusal now ((stockCall log a leg).effect db) = none :=
    ((refusal_purchase (wellFormed.effect stock)).mpr takes.position).2
  exact (wellFormed.effect stock).effect purchase

/-- A leg that is written leaves what another needs. -/
theorem takesLeg_apart (different : leg.1 ≠ other.1) :
    TakesLeg (withLeg log a count db leg) log a count
        (row.updateOutcome leg.1 { currentShares := some (.increment a.shares) }) other ↔
      TakesLeg db log a count row other := by
  have positions : PositionKey.mk (log.marketKey a.marketId) a.account.toLowerCase leg.1 ≠
      ⟨log.marketKey a.marketId, a.account.toLowerCase, other.1⟩ := fun same =>
    different (congrArg PositionKey.outcomeIndex same)
  have stocks : TakesStock (row.updateOutcome leg.1 {
      currentShares := some (.increment a.shares) }) other.1 a.shares ↔
      TakesStock row other.1 a.shares := by
    simp only [TakesStock, Market.updateOutcome, List.getElem?_modify_ne _ _ different]
  constructor
  · intro taken
    exact ⟨stocks.mp taken.stock, (takesPurchase_apart positions).mp taken.position⟩
  · intro taken
    exact ⟨stocks.mpr taken.stock, (takesPurchase_apart positions).mpr taken.position⟩

end Legs

/-- A loop over legs returns when each of them is taken. -/
theorem returns_legs {a : TradeArgs} {items : List (Nat × Nat)} {count : Nat} {rest : Prop}
    {post : Unit → Database → Prop} (wellFormed : db.WellFormed)
    (found : db.markets.find? (log.marketKey a.marketId) = some row)
    (distinct : items.Pairwise fun leg other => leg.1 ≠ other.1)
    (ends : ∀ later last, later.WellFormed →
      later.markets.find? (log.marketKey a.marketId) = some last → last.pot = row.pot →
        (post () later ↔ rest)) :
    Returns (serving outside) (Async.forEach items fun (i, k) => do
        let basis := legBasis a.amount count k
        await (.updateOutcome (log.marketKey a.marketId) i {
          currentShares := some (.increment a.shares) })
        updatePosition (log.marketKey a.marketId) a.account.toLowerCase i .buy a.shares basis)
      db post ↔ (∀ leg ∈ items, TakesLeg db log a count row leg) ∧ rest := by
  let holds (before : Database) : Prop := before.WellFormed ∧ ∃ last,
    before.markets.find? (log.marketKey a.marketId) = some last ∧ last.pot = row.pot
  let fits (leg : Nat × Nat) (before : Database) : Prop := ∃ last,
    before.markets.find? (log.marketKey a.marketId) = some last ∧
      TakesLeg before log a count last leg
  have rounds : ∀ leg ∈ items, ∀ (before : Database) (post : Unit → Database → Prop),
      holds before → (Returns (serving outside) (do
        await (.updateOutcome (log.marketKey a.marketId) leg.1 {
          currentShares := some (.increment a.shares) })
        updatePosition (log.marketKey a.marketId) a.account.toLowerCase leg.1 .buy a.shares
          (legBasis a.amount count leg.2)) before post ↔
        fits leg before ∧ post () (withLeg log a count before leg)) := by
    rintro leg - before post ⟨whole, last, there, -⟩
    rw [returns_leg whole there]
    simp only [fits, there, Option.some.injEq, exists_eq_left']
  have keeps : ∀ leg ∈ items, ∀ before, holds before → fits leg before →
      holds (withLeg log a count before leg) := by
    rintro leg - before ⟨whole, last, there, pot⟩ ⟨same, again, taken⟩
    obtain rfl := Option.some.inj (there.symm.trans again)
    exact ⟨taken.wellFormed whole there (outside .dateNow), _, find?_withLeg there, pot⟩
  have apart : items.Pairwise fun leg other => ∀ before, holds before → fits leg before →
      (fits other (withLeg log a count before leg) ↔ fits other before) := by
    refine distinct.imp fun {leg other} different before held _ => ?_
    obtain ⟨-, last, there, -⟩ := held
    simp only [fits, find?_withLeg there, there, Option.some.injEq, exists_eq_left']
    exact takesLeg_apart different
  have ended : ∀ later, holds later → (post () later ↔ rest) := by
    rintro later ⟨whole, last, there, pot⟩
    exact ends later last whole there pot
  rw [Async.returns_forEach rounds keeps apart ⟨wellFormed, row, found, rfl⟩ ended]
  simp only [fits, found, Option.some.injEq, exists_eq_left']

/-- The pot is moved and the short announced once its legs are written. -/
theorem returns_endShort {data : Date → RealtimeData} {ref : MarketKey} {amount : Nat} {pot : Int}
    (wellFormed : db.WellFormed) (found : db.markets.find? ref = some row) (same : row.pot = pot) :
    Returns (serving outside) (do
        await (.updateMarket ref { pot := some (.increment amount) })
        let timestamp ← toISOString log.timestamp
        publishMarket ref (data timestamp)
        return touched) db (fun _ _ => True) ↔
      storableDecimal (pot + amount) = true ∧ log.timestamp.valid = true := by
  rw [returns_await_bind, returns_announceTrade,
    refusal_pot found (wellFormed.markets _ _ found)]
  subst same
  rfl

theorem returns_onShort (wellFormed : db.WellFormed) (a : TradeArgs) :
    Returns (serving outside) (onShort log a touched) db (fun _ _ => True) ↔
      TakesShort db log a := by
  unfold onShort
  refine returns_ofMarket trivial fun row found => ?_
  let record := tradeCall log (log.marketKey a.marketId) .short a
  have recorded : (record.effect db).markets.find? (log.marketKey a.marketId) = some row := found
  rw [returns_await_bind]
  have answered : (Call.findMarketById (log.marketKey a.marketId)).answer
      (outside (.findMarketById (log.marketKey a.marketId))) db = some row := found
  rw [answered]
  dsimp only
  split
  · rename_i none_credited
    have empty := List.eq_nil_of_length_eq_zero none_credited
    exact ⟨fun _ credited => absurd empty credited,
      fun _ => ⟨rfl, (Async.returns_pure touched).mpr trivial⟩⟩
  · rename_i credited
    have nonempty : legs row.outcomeCount a.outcomeId ≠ [] := fun empty =>
      credited (List.length_eq_zero_iff.mpr empty)
    unfold insertTrade
    rw [returns_await_bind, returns_bind]
    constructor
    · rintro ⟨-, trade, legged⟩ -
      have whole := wellFormed.effect trade
      obtain ⟨taken, pot, -⟩ := (returns_legs whole recorded (legs_apart _ _)
        fun later last whole there same => returns_endShort whole there same).mp legged
      have kept (leg : Nat × Nat) (member : leg ∈ (legs row.outcomeCount a.outcomeId).zipIdx) :
          TakesLeg db log a (legs row.outcomeCount a.outcomeId).length row leg :=
        ⟨(taken leg member).stock, (taken leg member).position⟩
      exact ⟨refusal_trade.mp trade, kept, pot⟩
    · intro takes
      have taken := takes nonempty
      have trade : record.refusal (outside record) db = none := refusal_trade.mpr taken.recorded
      refine ⟨rfl, trade, (returns_legs (wellFormed.effect trade) recorded (legs_apart _ _)
        fun later last whole there same => returns_endShort whole there same).mpr ?_⟩
      have kept (leg : Nat × Nat) (member : leg ∈ (legs row.outcomeCount a.outcomeId).zipIdx) :
          TakesLeg (record.effect db) log a (legs row.outcomeCount a.outcomeId).length row leg :=
        ⟨(taken.taken leg member).stock, (taken.taken leg member).position⟩
      exact ⟨kept, taken.pot, Date.valid_of_storable taken.recorded.timestamp⟩

end Shorts

end Numera
