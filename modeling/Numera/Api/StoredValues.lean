import Numera.Api.Views
import Numera.Chain.Ledger

/-! # Reading stored values back

A `Decimal(78,0)` column holds any uint256. `toStr` reads it through `toFixed(0)` and
always gets the value. The other readers go through `toString`, which prints a value
of 22 digits or more in exponential notation: they serve that text, or hand it to
`BigInt`, which throws.
-/

namespace Numera

open JsString (decimalToString)

/-- A column that `BigInt(column.toString())` reads back. -/
def ReadsBack (column : Int) : Prop := bigIntOf (decimalToString column) = .ok column

theorem readsBack_iff (column : Int) : ReadsBack column ↔ column.natAbs < 10 ^ 21 := by
  unfold ReadsBack bigIntOf
  rw [JsString.parseBigInt_decimalToString]
  by_cases small : column.natAbs < 10 ^ 21
  · rw [if_pos small]
    exact ⟨fun _ => small, fun _ => rfl⟩
  · rw [if_neg small]
    exact ⟨(fun thrown => nomatch thrown), fun below => absurd below small⟩

/-- The processor's read is the read of the column's text. -/
theorem bigIntOfDecimal_eq (column : Int) :
    EventProcessor.bigIntOfDecimal column = .done (bigIntOf (decimalToString column)) := by
  unfold EventProcessor.bigIntOfDecimal bigIntOf
  rw [JsString.parseBigInt_decimalToString]
  split <;> rfl

/-! ## What the readers compute from exact columns -/

/-- The write of a sale that computes with the columns of its position. -/
def soldFrom (key : PositionKey) (shares amount : Nat) (p : Position) : Chain Unit :=
  let realized := amount - p.holding.costRemoved shares
  await (.upsertPosition key { shares := 0, costBasis := 0, realizedPnl := realized } {
    shares := some (.decrement (p.holding.sold shares))
    costBasis := some (.decrement (p.holding.costRemoved shares))
    realizedPnl := some (.increment realized) })

/-- The value of a position computed with its columns and its outcome's price. -/
def valueOf (outcomeIndex : Nat) (p : Position) (market : Market) (outcome : Option Outcome) :
    Option JsString :=
  if p.shares = 0 then some (toStr 0)
  else match market.status with
    | .resolved => some (toStr (if market.winningOutcomeId = some outcomeIndex then p.shares else 0))
    | .invalid => some (toStr p.costBasis)
    | .trading => outcome.map fun outcome =>
        toStr ((p.shares * outcome.currentPriceWad).tdiv wad)

/-- A bucket of the price series in plain digits. -/
def plainCandle (r : RawCandle) : Candle where
  time := r.bucket
  «open» := toStr r.open
  high := toStr r.high
  low := toStr r.low
  close := toStr r.close
  volume := toStr r.volume

/-- The sparkline of a market in plain digits. -/
def plainPoints (marketRef : MarketKey) (rows : List RawClose) : List JsString :=
  (rows.filter fun r => r.marketRef = marketRef).map fun r => toStr r.close

/-- **Surviving every read.** A value in a column, next to columns that are read
back, reaches every reader: a sale and the portfolio compute with it, and the market,
the price series and `toStr` show its plain digits. -/
structure SurvivesEveryRead (v : Nat) : Prop where
  updatePosition : ∀ marketRef account outcomeIndex shares amount (p : Position),
    (∀ column ∈ [p.shares, p.costBasis], column = v ∨ ReadsBack column) →
      ∃ next, EventProcessor.updatePosition marketRef account outcomeIndex .sell shares amount =
          .call (.findPosition ⟨marketRef, account.toLowerCase, outcomeIndex⟩) next ∧
        next (.ok (some p)) =
          soldFrom ⟨marketRef, account.toLowerCase, outcomeIndex⟩ shares amount p
  markToMarket : ∀ outcomeIndex (p : Position) (market : Market) (outcome : Option Outcome),
    (∀ column ∈ p.shares :: (outcome.map Outcome.currentPriceWad).toList,
        column = v ∨ ReadsBack column) →
      PositionsService.markToMarket outcomeIndex p market outcome =
        .ok (valueOf outcomeIndex p market outcome)
  market : ∀ formatUnits now decimals key (m : Market) r createdAt, m.pot = v →
    (MarketSerializer.market formatUnits now decimals key m r createdAt).pot = toStr v
  candles : ∀ rows : List RawCandle,
    (∀ r ∈ rows, ∀ column ∈ [r.open, r.high, r.low, r.close, r.volume],
        column = v ∨ ReadsBack column) →
      PricesService.candles rows = rows.map plainCandle
  sparklines : ∀ (markets : List MarketKey) (rows : List RawClose),
    (∀ r ∈ rows, r.close = v ∨ ReadsBack r.close) →
      ∀ line ∈ PricesService.sparklines markets rows, line.points = plainPoints line.marketRef rows
  latest : ∀ m : Market,
    (∀ o ∈ m.outcomes, o.currentPriceWad = v ∨ ReadsBack o.currentPriceWad) →
      PricesService.latest m =
        m.outcomes.zipIdx.map fun (o, index) => ⟨index, toStr o.currentPriceWad⟩
  toStr : (∀ unit ∈ toStr v, JsString.isDigit unit) ∧ JsString.parseBigInt (toStr v) = some (v : Int)

/-! ## The readers -/

variable {v : Nat} {column : Int}

/-- The text of a column that is read back is its plain digits. -/
private theorem decimalToString_of_readsBack (readable : ReadsBack column) :
    decimalToString column = toStr column :=
  (JsString.decimalToString_eq_ofInt column).mpr ((readsBack_iff column).mp readable)

private theorem updatePosition_reads {p : Position} (marketRef : MarketKey) (account : JsString)
    (outcomeIndex shares amount : Nat) (sharesRead : ReadsBack p.shares)
    (basisRead : ReadsBack p.costBasis) :
    ∃ next, EventProcessor.updatePosition marketRef account outcomeIndex .sell shares amount =
        .call (.findPosition ⟨marketRef, account.toLowerCase, outcomeIndex⟩) next ∧
      next (.ok (some p)) =
        soldFrom ⟨marketRef, account.toLowerCase, outcomeIndex⟩ shares amount p := by
  refine ⟨_, rfl, ?_⟩
  have first : EventProcessor.bigIntOfDecimal p.shares = .done (.ok p.shares) := by
    rw [bigIntOfDecimal_eq, sharesRead]
  have second : EventProcessor.bigIntOfDecimal p.costBasis = .done (.ok p.costBasis) := by
    rw [bigIntOfDecimal_eq, basisRead]
  change EventProcessor.bigIntOfDecimal p.shares >>= (fun oldShares =>
    EventProcessor.bigIntOfDecimal p.costBasis >>= fun oldCost => _) = _
  rw [first, Async.done_ok_bind, second, Async.done_ok_bind]
  rfl

private theorem markToMarket_reads {p : Position} {outcome : Option Outcome} (outcomeIndex : Nat)
    (market : Market) (sharesRead : ReadsBack p.shares)
    (priceRead : ∀ o, outcome = some o → ReadsBack o.currentPriceWad) :
    PositionsService.markToMarket outcomeIndex p market outcome =
      .ok (valueOf outcomeIndex p market outcome) := by
  have shares : bigIntOf (decimalToString p.shares) = .ok p.shares := sharesRead
  unfold PositionsService.markToMarket valueOf
  rw [shares]
  change (if p.shares = 0 then _ else _) = _
  by_cases nothing : p.shares = 0
  · rw [if_pos nothing, if_pos nothing]
    rfl
  · rw [if_neg nothing, if_neg nothing]
    cases market.status with
    | resolved =>
        by_cases won : market.winningOutcomeId = some outcomeIndex
        · simp only [if_pos won]
          rfl
        · simp only [if_neg won]
          rfl
    | invalid => rfl
    | trading =>
        cases outcome with
        | none => rfl
        | some o =>
            have price : bigIntOf (decimalToString o.currentPriceWad) = .ok o.currentPriceWad :=
              priceRead o rfl
            dsimp only
            rw [price]
            rfl

private theorem candles_read {rows : List RawCandle}
    (readable : ∀ r ∈ rows, ∀ column ∈ [r.open, r.high, r.low, r.close, r.volume],
      ReadsBack column) :
    PricesService.candles rows = rows.map plainCandle := by
  refine List.map_congr_left fun r member => ?_
  have columns := fun column listed =>
    decimalToString_of_readsBack (readable r member column listed)
  simp only [List.forall_mem_cons, List.not_mem_nil, false_imp_iff, implies_true,
    and_true] at columns
  obtain ⟨first, high, low, close, volume⟩ := columns
  rw [first, high, low, close, volume]
  rfl

private theorem sparklines_read {markets : List MarketKey} {rows : List RawClose}
    (readable : ∀ r ∈ rows, ReadsBack r.close) :
    ∀ line ∈ PricesService.sparklines markets rows,
      line.points = plainPoints line.marketRef rows := by
  intro line member
  obtain ⟨marketRef, -, rfl⟩ := List.mem_map.mp member
  refine List.map_congr_left fun r selected => ?_
  exact decimalToString_of_readsBack (readable r (List.mem_filter.mp selected).1)

private theorem latest_read {m : Market}
    (readable : ∀ o ∈ m.outcomes, ReadsBack o.currentPriceWad) :
    PricesService.latest m =
      m.outcomes.zipIdx.map fun (o, index) => ⟨index, toStr o.currentPriceWad⟩ := by
  refine List.map_congr_left fun (o, index) member => ?_
  have own : o ∈ m.outcomes := List.fst_mem_of_mem_zipIdx member
  simp only [decimalToString_of_readsBack (readable o own)]

/-- `toStr` shows the plain digits of every value. -/
theorem toStr_plain (v : Nat) :
    (∀ unit ∈ toStr v, JsString.isDigit unit) ∧ JsString.parseBigInt (toStr v) = some (v : Int) :=
  ⟨fun _ member => JsString.isDigit_of_mem_ofNat member, JsString.parseBigInt_ofInt v⟩

/-- **Stored values survive every read below 10^21**, and no value from there on
does. -/
theorem survivesEveryRead_iff (v : Nat) : SurvivesEveryRead v ↔ v < 10 ^ 21 := by
  constructor
  · intro survives
    have shown := survives.candles [⟨⟨0⟩, v, v, v, v, v⟩] (by simp)
    have same : decimalToString v = toStr v :=
      congrArg Candle.close (List.singleton_inj.mp shown)
    exact (JsString.decimalToString_eq_ofInt v).mp same
  · intro small
    have readable : ReadsBack v := (readsBack_iff v).mpr small
    have either : ∀ {column : Int}, column = v ∨ ReadsBack column → ReadsBack column := by
      rintro column (rfl | other)
      · exact readable
      · exact other
    refine ⟨fun marketRef account outcomeIndex shares amount p columns => ?_,
      fun outcomeIndex p market outcome columns => ?_,
      fun formatUnits now decimals key m r createdAt pot => ?_,
      fun rows columns => candles_read fun r member column listed =>
        either (columns r member column listed),
      fun markets rows columns => sparklines_read fun r member => either (columns r member),
      fun m columns => latest_read fun o member => either (columns o member), toStr_plain v⟩
    · exact updatePosition_reads marketRef account outcomeIndex shares amount
        (either (columns _ (by simp))) (either (columns _ (by simp)))
    · refine markToMarket_reads outcomeIndex market (either (columns _ (by simp))) fun o present => ?_
      exact either (columns _ (by simp [present]))
    · rw [← decimalToString_of_readsBack readable, ← pot]
      rfl

/-- **A value of 22 digits is lost.** The price series shows 10^21, a uint256, as
1e+21. -/
theorem largeValue_lost : 10 ^ 21 < 2 ^ 256 ∧ ¬ SurvivesEveryRead (10 ^ 21) := by
  refine ⟨by decide, fun survives => ?_⟩
  have shown := survives.candles [⟨⟨0⟩, 10 ^ 21, 10 ^ 21, 10 ^ 21, 10 ^ 21, 10 ^ 21⟩] (by simp)
  have same : decimalToString (10 ^ 21) = toStr (10 ^ 21) :=
    congrArg Candle.close (List.singleton_inj.mp shown)
  exact absurd same (by decide +kernel)

end Numera
