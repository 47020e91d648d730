import Numera.Api.Views
import Numera.Foundation.Json

/-! # Markets on the wire

The JSON of what the API serves of a market: the members of a view in the order in which
`MarketSerializer` writes them, dates as `toISOString` prints them, and enumerations by
their names in the schema. All of it is read back from its text as it was written
(`MarketView.wellFormed_toJson`).
-/

namespace Numera

open Json (orNull)
open JsString (ascii)

/-! ## Dates -/

/-- `String.prototype.padStart` with zeros. -/
def padZeros (width : Nat) (text : JsString) : JsString :=
  List.replicate (width - text.length) 48 ++ text

/-- `Date.prototype.toISOString` from 1970 on, by the Gregorian calendar of years that start
in March. -/
def Date.isoString (date : Date) : JsString :=
  let days := date.ms / 86400000 + 719468
  let clock := date.ms % 86400000
  let dayOfEra := days % 146097
  let yearOfEra := (dayOfEra - dayOfEra / 1460 + dayOfEra / 36524 - dayOfEra / 146096) / 365
  let dayOfYear := dayOfEra - (365 * yearOfEra + yearOfEra / 4 - yearOfEra / 100)
  let fromMarch := (5 * dayOfYear + 2) / 153
  let day := dayOfYear - (153 * fromMarch + 2) / 5 + 1
  let month := if fromMarch < 10 then fromMarch + 3 else fromMarch - 9
  let year := days / 146097 * 400 + yearOfEra + (if month ≤ 2 then 1 else 0)
  let printed (width value : Nat) := padZeros width (JsString.ofNat value)
  (if year ≤ 9999 then printed 4 year else 43 :: printed 6 year) ++
    45 :: printed 2 month ++ 45 :: printed 2 day ++
    84 :: printed 2 (clock / 3600000) ++ 58 :: printed 2 (clock / 60000 % 60) ++
    58 :: printed 2 (clock / 1000 % 60) ++ 46 :: printed 3 (clock % 1000) ++ [90]

example : Date.isoString ⟨951827696789⟩ = ascii "2000-02-29T12:34:56.789Z" := by decide +kernel

/-! ## Enumerations -/

def MarketStatus.name : MarketStatus → JsString
  | trading => ascii "TRADING"
  | resolved => ascii "RESOLVED"
  | invalid => ascii "INVALID"

def ResolutionPhase.name : ResolutionPhase → JsString
  | none => ascii "NONE"
  | proposed => ascii "PROPOSED"
  | disputed => ascii "DISPUTED"
  | settled => ascii "SETTLED"

def ResolutionRoute.name : ResolutionRoute → JsString
  | finalized => ascii "FINALIZED"
  | arbitrated => ascii "ARBITRATED"

/-! ## Views -/

/-- A member of an object. -/
def member (name : String) (value : Json) : JsString × Json := (ascii name, value)

def Date.toJson (date : Date) : Json := .string date.isoString

def OutcomeView.toJson (view : OutcomeView) : Json := .object [
  member "index" (.ofNat view.index),
  member "label" (.string view.label),
  member "priceWad" (.string view.priceWad),
  member "probability" (orNull .string view.probability),
  member "shares" (.string view.shares)]

def ResolutionView.toJson (view : ResolutionView) : Json := .object [
  member "phase" (.string view.phase.name),
  member "proposedOutcome" (orNull .ofNat view.proposedOutcome),
  member "proposer" (orNull .string view.proposer),
  member "bonded" (.bool view.bonded),
  member "bond" (.string view.bond),
  member "disputeDeadline" (orNull Date.toJson view.disputeDeadline),
  member "disputable" (.bool view.disputable),
  member "finalizable" (.bool view.finalizable),
  member "disputer" (orNull .string view.disputer),
  member "counterOutcome" (orNull .ofNat view.counterOutcome),
  member "disputerBond" (.string view.disputerBond),
  member "arbitrationDeadline" (orNull Date.toJson view.arbitrationDeadline),
  member "route" (orNull .string (view.route.map ResolutionRoute.name)),
  member "settledOutcome" (orNull .ofNat view.settledOutcome),
  member "reward" (.string view.reward),
  member "forfeited" (.string view.forfeited),
  member "loser" (orNull .string view.loser),
  member "settledAt" (orNull Date.toJson view.settledAt)]

/-- A market, under the `id` that its row has in the database; every market has the one
engine there is. -/
def MarketView.toJson (idOf : MarketKey → JsString) (view : MarketView) : Json := .object [
  member "id" (.string (idOf view.id)),
  member "engine" (.string (ascii "LS_LMSR")),
  member "address" (.string view.address),
  member "marketId" (.string view.marketId),
  member "title" (.string view.title),
  member "description" (.string view.description),
  member "imageUrl" (orNull .string view.imageUrl),
  member "category" (orNull .string view.category),
  member "status" (.string view.status.name),
  member "tradingOpen" (.bool view.tradingOpen),
  member "resolutionRules" (.string view.resolutionRules),
  member "startTime" view.startTime.toJson,
  member "notOpenYet" (.bool view.notOpenYet),
  member "closeTime" view.closeTime.toJson,
  member "winningOutcomeId" (orNull .ofNat view.winningOutcomeId),
  member "collateral" (.string view.collateral),
  member "collateralDecimals" (.ofNat view.collateralDecimals),
  member "alpha" (.string view.alpha),
  member "sStar" (.string view.sStar),
  member "seed" (.string view.seed),
  member "pot" (.string view.pot),
  member "potHuman" (orNull .string view.potHuman),
  member "surplus" (orNull .string view.surplus),
  member "outcomeCount" (.ofNat view.outcomeCount),
  member "outcomes" (.array (view.outcomes.map OutcomeView.toJson)),
  member "resolution" (orNull ResolutionView.toJson view.resolution),
  member "createdAt" view.createdAt.toJson]

/-! ## Reading back -/

open Json

theorem Date.wellFormed_toJson (date : Date) : date.toJson.WellFormed := trivial

theorem OutcomeView.wellFormed_toJson (view : OutcomeView) : view.toJson.WellFormed := by
  refine wellFormed_object ?_
  simp only [List.map_cons, List.map_nil, member, List.forall_mem_cons]
  exact ⟨wellFormed_ofNat _, trivial, trivial, wellFormed_orNull wellFormed_string _, trivial,
    List.forall_mem_nil _⟩

theorem ResolutionView.wellFormed_toJson (view : ResolutionView) : view.toJson.WellFormed := by
  have text := fun value => wellFormed_orNull wellFormed_string value
  have number := fun value => wellFormed_orNull wellFormed_ofNat value
  have date := fun value => wellFormed_orNull Date.wellFormed_toJson value
  refine wellFormed_object ?_
  simp only [List.map_cons, List.map_nil, member, List.forall_mem_cons]
  exact ⟨trivial, number _, text _, trivial, trivial, date _, trivial, trivial, text _, number _,
    trivial, date _, text _, number _, trivial, trivial, text _, date _, List.forall_mem_nil _⟩

/-- **A market is read back as it was sent.** -/
theorem MarketView.wellFormed_toJson (idOf : MarketKey → JsString) (view : MarketView) :
    (view.toJson idOf).WellFormed := by
  have text := fun value => wellFormed_orNull wellFormed_string value
  have number := fun value => wellFormed_orNull wellFormed_ofNat value
  have outcomes : (array (view.outcomes.map OutcomeView.toJson)).WellFormed := by
    refine wellFormed_array fun item listed => ?_
    obtain ⟨outcome, -, rfl⟩ := List.mem_map.mp listed
    exact outcome.wellFormed_toJson
  refine wellFormed_object ?_
  simp only [List.map_cons, List.map_nil, member, List.forall_mem_cons]
  exact ⟨trivial, trivial, trivial, trivial, trivial, trivial, text _, text _, trivial, trivial,
    trivial, trivial, trivial, trivial, number _, trivial, wellFormed_ofNat _, trivial, trivial,
    trivial, trivial, text _, text _, wellFormed_ofNat _, outcomes,
    wellFormed_orNull ResolutionView.wellFormed_toJson _, trivial, List.forall_mem_nil _⟩

end Numera
