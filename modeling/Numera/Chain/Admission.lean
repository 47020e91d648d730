import Numera.Chain.Constraints

/-! # What the processor can take

A handler throws where a conversion of its log's arguments does, or where a value it writes
has no place in its column. This is decided by the log and by the rows it finds, and said here
for each event (`Database.Takes`).
-/

namespace Numera

open Async (Returns returns_bind)
open EventProcessor

section Parts

variable {outside : Call → Outside} {db : Database} {log : NormalizedLog} {α : Type}

/-! ## Conversions and messages -/

theorem returns_toISOString {date : Date} {post : Date → Database → Prop} :
    Returns (serving outside) (toISOString date) db post ↔ date.valid = true ∧ post date db := by
  unfold toISOString
  split <;> simp_all

theorem returns_bigIntDiv {dividend divisor : Nat} {post : Nat → Database → Prop} :
    Returns (serving outside) (bigIntDiv dividend divisor) db post ↔
      divisor ≠ 0 ∧ post (dividend / divisor) db := by
  unfold bigIntDiv
  split <;> simp_all

theorem returns_bigIntOfDecimal {value : Int} {post : Int → Database → Prop} :
    Returns (serving outside) (bigIntOfDecimal value) db post ↔
      value.natAbs < 10 ^ 21 ∧ post value db := by
  unfold bigIntOfDecimal
  split <;> simp_all

theorem returns_publish {ref : Option MarketKey} {data : RealtimeData}
    {post : Unit → Database → Prop} :
    Returns (serving outside) (publish ref data) db post ↔ post () db := by
  unfold publish
  rw [returns_await_bind, returns_await]
  simp [Call.refusal, Call.answer, Call.effect]

theorem returns_publishMarket {ref : MarketKey} {data : RealtimeData}
    {post : Unit → Database → Prop} :
    Returns (serving outside) (publishMarket ref data) db post ↔ post () db := returns_publish

theorem returns_invalidate {ref : MarketKey} {post : Unit → Database → Prop} :
    Returns (serving outside) (await (.invalidate ref)) db post ↔ post () db := by
  rw [returns_await]
  simp [Call.refusal, Call.answer, Call.effect]

/-! ## Categories -/

/-- The database with a category that is named, unless its key is empty. -/
def Database.withCategory : Option JsString → Database → Database
  | some (unit :: rest), db =>
      { db with categories := db.categories.insertNew (unit :: rest) (unit :: rest) }
  | _, db => db

theorem withCategory_drafts (key : Option JsString) : (db.withCategory key).drafts = db.drafts := by
  unfold Database.withCategory
  split <;> rfl

theorem withCategory_markets (key : Option JsString) :
    (db.withCategory key).markets = db.markets := by
  unfold Database.withCategory
  split <;> rfl

theorem returns_ensureCategory {key : Option JsString} {post : Unit → Database → Prop} :
    Returns (serving outside) (ensureCategory key) db post ↔
      key.all storableText = true ∧ post () (db.withCategory key) := by
  unfold ensureCategory
  split
  · rw [returns_await]
    simp [Call.refusal, Call.answer, Call.effect, unlessFits_eq_none, Database.withCategory]
  · rename_i other
    have fits : key.all storableText = true ∧ db.withCategory key = db := by
      rcases key with _ | (_ | ⟨unit, rest⟩)
      · exact ⟨rfl, rfl⟩
      · exact ⟨rfl, rfl⟩
      · exact (other unit rest rfl).elim
    simp [fits.1, fits.2]

/-! ## Markets and outcomes -/

theorem returns_marketRef {rawAddress : JsString} {marketId : Nat}
    {post : Option MarketKey → Database → Prop} :
    Returns (serving outside) (marketRef rawAddress marketId) db post ↔
      storableBigInt marketId = true ∧
        post ((db.markets.find? ⟨rawAddress.toLowerCase, marketId⟩).map fun _ =>
          ⟨rawAddress.toLowerCase, marketId⟩) db := by
  unfold marketRef
  rw [returns_await_bind]
  simp [Call.refusal, Call.answer, Call.effect, unlessFits_eq_none]

/-- A handler looks its market up, and has nothing to do when there is none. -/
theorem returns_ofMarket {marketId : Nat} {handle : MarketKey → Chain α} {otherwise : α}
    {post : α → Database → Prop} {fits : Market → Prop} (stays : post otherwise db)
    (of : ∀ row, db.markets.find? (log.marketKey marketId) = some row →
      (Returns (serving outside) (handle (log.marketKey marketId)) db post ↔ fits row)) :
    Returns (serving outside) (do
        let some ref ← marketRef log.address marketId | return otherwise
        handle ref) db post ↔
      storableBigInt marketId = true ∧
        ∀ row, db.markets.find? (log.marketKey marketId) = some row → fits row := by
  rw [returns_bind, returns_marketRef]
  refine and_congr_right fun _ => ?_
  change Returns _ (match (db.markets.find? (log.marketKey marketId)).map fun _ =>
    log.marketKey marketId with | some ref => handle ref | _ => pure otherwise) db post ↔ _
  cases found : db.markets.find? (log.marketKey marketId) with
  | none => simp [stays]
  | some row =>
      simp only [Option.map_some, Option.some.injEq, forall_eq']
      exact of row found

end Parts

/-! ## Market creation -/

/-- A market can be created from a log. -/
structure TakesCreation (ext : Externals) (log : NormalizedLog) (a : MarketCreated) : Prop where
  marketId : storableBigInt a.marketId = true
  startTime : (Date.ofSeconds a.startTime).storable = true
  closeTime : (Date.ofSeconds a.closeTime).storable = true
  divisor : a.outcomeCount ≠ 0
  outcomeCount : storableInt a.outcomeCount = true
  category : storableText (bytes32ToString ext a.category) = true
  alpha : storableDecimal a.alpha = true
  sStar : storableDecimal a.sStar = true
  seed : storableDecimal a.seedPerOutcome = true
  pot : storableDecimal a.seedCost = true
  block : storableBigInt log.blockNumber = true

section Creation

variable {ext : Externals} {outside : Call → Outside} {db : Database} {log : NormalizedLog}

theorem storable_uniformPrice (count : Nat) :
    storableDecimal ((wad / count : Nat) : Int) = true := by
  have small : wad / count ≤ wad := Nat.div_le_self _ _
  have below : wad < 10 ^ 78 := by decide
  simp only [storableDecimal, Int.natAbs_natCast, decide_eq_true_eq]
  exact Nat.lt_of_le_of_lt small below

/-- The category a market names. -/
def categoryKey (ext : Externals) (a : MarketCreated) : Option JsString :=
  if bytes32ToString ext a.category = [] then none else some (bytes32ToString ext a.category)

/-- The row of a market that adopts a draft. -/
def createdRow (ext : Externals) (log : NormalizedLog) (a : MarketCreated)
    (draft : Option MarketMetadataDraft) : Market where
  collateral := a.collateral.toLowerCase
  resolver := a.resolver.toLowerCase
  startTime := Date.ofSeconds a.startTime
  closeTime := Date.ofSeconds a.closeTime
  outcomeCount := a.outcomeCount
  categoryKey := categoryKey ext a
  metadataHash := a.metadataHash
  creator := a.creator.toLowerCase
  alpha := a.alpha
  sStar := a.sStar
  seed := a.seedPerOutcome
  pot := a.seedCost
  title := (draft.map (·.title)).getD []
  description := (draft.map (·.description)).getD []
  resolutionRules := (draft.map (·.resolutionRules)).getD []
  imageUrl := draft.bind (·.imageUrl)
  createdBlock := log.blockNumber
  createdTx := log.txHash
  outcomes := (List.range a.outcomeCount).map fun i => {
    label := ((draft.map (·.outcomeLabels)).getD [])[i]?.getD []
    currentPriceWad := (wad / a.outcomeCount : Nat)
    currentShares := a.seedPerOutcome }

theorem storable_categoryKey (a : MarketCreated) :
    (categoryKey ext a).all storableText = true ↔
      storableText (bytes32ToString ext a.category) = true := by
  unfold categoryKey
  split
  · rename_i empty
    rw [empty]
    exact ⟨fun _ => rfl, fun _ => rfl⟩
  · exact Iff.rfl

/-- The row fits when the log's own values do. -/
theorem storable_createdRow {a : MarketCreated} {draft : Option MarketMetadataDraft}
    (fits : draft.all MarketMetadataDraft.storable = true) (divisor : a.outcomeCount ≠ 0) :
    (storableBigInt a.marketId && (createdRow ext log a draft).storable) = true ↔
      TakesCreation ext log a := by
  have texts : storableText ((draft.map (·.title)).getD []) = true ∧
      storableText ((draft.map (·.description)).getD []) = true ∧
      storableText ((draft.map (·.resolutionRules)).getD []) = true ∧
      (draft.bind (·.imageUrl)).all storableText = true ∧
      ((draft.map (·.outcomeLabels)).getD []).all storableText = true := by
    cases draft with
    | none => exact ⟨rfl, rfl, rfl, rfl, rfl⟩
    | some draft => simpa [MarketMetadataDraft.storable, and_assoc] using fits
  obtain ⟨title, description, rules, image, labels⟩ := texts
  have label : ∀ i : Nat,
      storableText (((draft.map (·.outcomeLabels)).getD [])[i]?.getD []) = true := by
    intro i
    cases found : ((draft.map (·.outcomeLabels)).getD [])[i]? with
    | none => rfl
    | some label => exact List.all_eq_true.mp labels label (List.mem_of_getElem? found)
  have outcomes : (createdRow ext log a draft).outcomes.all Outcome.storable = true ↔
      storableDecimal a.seedPerOutcome = true := by
    simp only [createdRow, List.all_map, List.all_eq_true, List.mem_range, Function.comp_apply,
      Outcome.storable, label, storable_uniformPrice, Bool.true_and]
    exact ⟨fun all => all 0 (Nat.pos_of_ne_zero divisor), fun fits _ _ => fits⟩
  have columns : (categoryKey ext a).all storableText = true ↔ _ := storable_categoryKey a
  simp only [Market.storable, Bool.and_eq_true, outcomes]
  simp only [createdRow, title, description, rules, image, columns, Option.all_none, and_true]
  constructor
  · rintro ⟨marketId, columns, -⟩
    obtain ⟨⟨⟨⟨⟨⟨⟨⟨start, close⟩, count⟩, category⟩, alpha⟩, sStar⟩, seed⟩, pot⟩, block⟩ := columns
    exact ⟨marketId, start, close, divisor, count, category, alpha, sStar, seed, pot, block⟩
  · rintro ⟨marketId, start, close, -, count, category, alpha, sStar, seed, pot, block⟩
    exact ⟨marketId, ⟨⟨⟨⟨⟨⟨⟨⟨start, close⟩, count⟩, category⟩, alpha⟩, sStar⟩, seed⟩, pot⟩, block⟩,
      seed⟩

/-- What follows the creation of a row does not throw. -/
theorem returns_announceCreation {hash : JsString} {key : MarketKey} {closeTime : Date}
    {draft : Option MarketMetadataDraft} {data : Date → RealtimeData}
    (found : db.drafts.find? hash = draft) (fits : closeTime.storable = true) :
    Returns (serving outside) (do
      markAdopted hash key draft
      await (.invalidate key)
      let closeTime ← toISOString closeTime
      publish none (data closeTime)) db fun _ _ => True := by
  rw [returns_bind]
  have rest : ∀ later : Database, Returns (serving outside) (do
      await (.invalidate key)
      let closeTime ← toISOString closeTime
      publish none (data closeTime)) later fun _ _ => True := by
    intro later
    rw [returns_bind, returns_invalidate, returns_bind, returns_toISOString]
    exact ⟨Date.valid_of_storable fits, returns_publish.mpr trivial⟩
  unfold markAdopted
  split
  · rw [returns_await]
    simp only [Call.refusal, found]
    exact ⟨rfl, rest _⟩
  · exact (Async.returns_pure ()).mpr (rest _)

theorem returns_createMarket (wellFormed : db.WellFormed) (a : MarketCreated) :
    Returns (serving outside) (createMarket ext log a) db (fun _ _ => True) ↔
      TakesCreation ext log a := by
  have drafted : (db.drafts.find? a.metadataHash).all MarketMetadataDraft.storable = true := by
    cases found : db.drafts.find? a.metadataHash with
    | none => rfl
    | some draft => exact wellFormed.drafts _ _ found
  unfold createMarket
  rw [returns_bind, returns_ensureCategory, returns_bind, returns_bigIntDiv, returns_await_bind,
    returns_await_bind]
  change (categoryKey ext a).all storableText = true ∧ a.outcomeCount ≠ 0 ∧ none = none ∧
    Call.unlessFits (storableBigInt a.marketId && (createdRow ext log a
      ((db.withCategory (categoryKey ext a)).drafts.find? a.metadataHash)).storable) = none ∧ _ ↔ _
  rw [withCategory_drafts, unlessFits_eq_none]
  constructor
  · rintro ⟨-, divisor, -, fits, -⟩
    exact (storable_createdRow drafted divisor).mp fits
  · intro takes
    refine ⟨(storable_categoryKey a).mpr takes.category, takes.divisor, rfl,
      (storable_createdRow drafted takes.divisor).mpr takes, ?_⟩
    refine returns_announceCreation ?_ takes.closeTime
    rfl

end Creation

/-! ## Rows of markets -/

section Rows

variable {outside : Call → Outside} {db : Database} {key : MarketKey} {row : Market}

theorem all_modify {β : Type} {fits : β → Bool} {change : β → β} {items : List β} {index : Nat}
    {item : β} (all : items.all fits = true) (here : items[index]? = some item) :
    (items.modify index change).all fits = fits (change item) := by
  induction items generalizing index with
  | nil => cases here
  | cons first rest ih =>
      obtain ⟨own, others⟩ := Bool.and_eq_true_iff.mp all
      cases index with
      | zero =>
          obtain rfl := Option.some.inj here
          simp [others]
      | succ index =>
          rw [List.modify_succ_cons, List.all_cons, own, Bool.true_and]
          exact ih others here

theorem storable_outcome {index : Nat} {outcome : Outcome} (fits : row.storable = true)
    (here : row.outcomes[index]? = some outcome) : outcome.storable = true := by
  simp only [Market.storable, Bool.and_eq_true] at fits
  exact List.all_eq_true.mp fits.2 outcome (List.mem_of_getElem? here)

theorem storable_pot (fits : row.storable = true) : storableDecimal row.pot = true := by
  simp only [Market.storable, Bool.and_eq_true] at fits
  grind

/-- A row fits after the change of one outcome when the outcome does. -/
theorem storable_updateOutcome {index : Nat} {data : OutcomeUpdate} {outcome : Outcome}
    (fits : row.storable = true) (here : row.outcomes[index]? = some outcome) :
    (row.updateOutcome index data).storable = (data.apply outcome).storable := by
  simp only [Market.storable, Bool.and_eq_true] at fits
  obtain ⟨columns, outcomes⟩ := fits
  simp only [Market.storable, Market.updateOutcome, all_modify outcomes here]
  simp only [columns, Bool.true_and]

/-- The values of an update fit the columns of a row that does. -/
structure MarketUpdate.Fits (data : MarketUpdate) (row : Market) : Prop where
  title : data.title.all storableText = true
  description : data.description.all storableText = true
  resolutionRules : data.resolutionRules.all storableText = true
  imageUrl : data.imageUrl.join.all storableText = true
  categoryKey : data.categoryKey.join.all storableText = true
  winningOutcomeId : data.winningOutcomeId.all storableInt = true
  pot : storableDecimal (DecimalUpdate.apply data.pot row.pot) = true
  surplus : data.surplus.all storableDecimal = true

/-- A row fits after an update when the update's values do. -/
theorem storable_updateMarket {data : MarketUpdate} (fits : row.storable = true) :
    (data.apply row).storable = true ↔ data.Fits row := by
  have plain {τ : Type} {check : τ → Bool} (value : Option τ) (old : τ) (held : check old = true) :
      check (value.getD old) = value.all check := by
    cases value with
    | none => exact held
    | some value => rfl
  have nullable {τ : Type} {check : τ → Bool} (value : Option (Option τ)) (old : Option τ)
      (held : old.all check = true) : (value.getD old).all check = value.join.all check := by
    cases value with
    | none => exact held
    | some value => rfl
  have kept {τ : Type} {check : τ → Bool} (value old : Option τ) (held : old.all check = true) :
      (value.or old).all check = value.all check := by
    cases value with
    | none => exact held
    | some value => rfl
  simp only [Market.storable, Bool.and_eq_true] at fits
  obtain ⟨⟨⟨⟨⟨⟨⟨⟨⟨⟨⟨⟨⟨⟨⟨start, close⟩, count⟩, category⟩, alpha⟩, sStar⟩, seed⟩, winner⟩, -⟩,
    surplus⟩, title⟩, description⟩, rules⟩, image⟩, block⟩, outcomes⟩ := fits
  simp only [Market.storable, MarketUpdate.apply, start, close, count, alpha, sStar, seed, block,
    outcomes, nullable _ _ category, nullable _ _ image, kept _ _ winner, kept _ _ surplus,
    plain _ _ title, plain _ _ description, plain _ _ rules, Bool.true_and, Bool.and_true,
    Bool.and_eq_true]
  constructor
  · rintro ⟨⟨⟨⟨⟨⟨⟨category, winner⟩, pot⟩, surplus⟩, title⟩, description⟩, rules⟩, image⟩
    exact ⟨title, description, rules, image, category, winner, pot, surplus⟩
  · rintro ⟨title, description, rules, image, category, winner, pot, surplus⟩
    exact ⟨⟨⟨⟨⟨⟨⟨category, winner⟩, pot⟩, surplus⟩, title⟩, description⟩, rules⟩, image⟩

/-- A market is updated when its category is there and the values fit. -/
theorem refusal_updateMarket {data : MarketUpdate} {now : Outside}
    (found : db.markets.find? key = some row) (fits : row.storable = true) :
    (Call.updateMarket key data).refusal now db = none ↔
      (data.categoryKey.join.all fun category => (db.categories.find? category).isSome) = true ∧
        data.Fits row := by
  rw [← storable_updateMarket fits]
  simp only [Call.refusal, found]
  split
  · rename_i named
    rw [unlessFits_eq_none]
    exact ⟨fun fits => ⟨named, fits⟩, And.right⟩
  · rename_i missing
    constructor
    · intro refused
      exact (Option.some_ne_none _ refused).elim
    · intro held
      exact absurd held.1 missing

/-- An outcome is updated when it is there and fits then. -/
theorem refusal_updateOutcome {index : Nat} {data : OutcomeUpdate} {now : Outside}
    (found : db.markets.find? key = some row) (fits : row.storable = true) :
    (Call.updateOutcome key index data).refusal now db = none ↔
      ∃ outcome, row.outcomes[index]? = some outcome ∧ (data.apply outcome).storable = true := by
  simp only [Call.refusal, found]
  cases here : row.outcomes[index]? with
  | none =>
      have beyond := List.getElem?_eq_none_iff.mp here
      simp [Nat.not_lt.mpr beyond]
  | some outcome =>
      obtain ⟨bound, -⟩ := List.getElem?_eq_some_iff.mp here
      rw [if_pos bound, unlessFits_eq_none, storable_updateOutcome fits here]
      simp

theorem find?_updateOutcome (found : db.markets.find? key = some row) (index : Nat)
    (data : OutcomeUpdate) :
    ((Call.updateOutcome key index data).effect db).markets.find? key =
      some (row.updateOutcome index data) := by
  simp [Call.effect, found]

/-- A column of a market's outcomes is written when the values fit and there are not more of
them. -/
theorem returns_updateOutcomes {β : Type} {values : List β} {data : β → OutcomeUpdate}
    {fitting : β → Bool} {post : Unit → Database → Prop} {rest : Prop} (wellFormed : db.WellFormed)
    (found : db.markets.find? key = some row)
    (applied : ∀ value outcome, outcome.storable = true →
      ((data value).apply outcome).storable = fitting value)
    (ends : ∀ later, post () later ↔ rest) :
    Returns (serving outside) (Async.forEach values.zipIdx fun (value, index) =>
        await (.updateOutcome key index (data value))) db post ↔
      (∀ value ∈ values, fitting value = true) ∧ values.length ≤ row.outcomes.length ∧ rest := by
  let holds (before : Database) : Prop :=
    before.WellFormed ∧ ∃ row, before.markets.find? key = some row
  let fits (item : β × Nat) (before : Database) : Prop :=
    ∃ row, before.markets.find? key = some row ∧ item.2 < row.outcomes.length ∧
      fitting item.1 = true
  let step (before : Database) (item : β × Nat) : Database :=
    (Call.updateOutcome key item.2 (data item.1)).effect before
  have admitted : ∀ (item : β × Nat) (before : Database), holds before →
      ((Call.updateOutcome key item.2 (data item.1)).refusal
        (outside (.updateOutcome key item.2 (data item.1))) before = none ↔ fits item before) := by
    rintro ⟨value, index⟩ before ⟨wellFormed, row, there⟩
    have whole := wellFormed.markets _ _ there
    rw [refusal_updateOutcome there whole]
    constructor
    · rintro ⟨outcome, here, fits⟩
      obtain ⟨bound, -⟩ := List.getElem?_eq_some_iff.mp here
      rw [applied _ _ (storable_outcome whole here)] at fits
      exact ⟨row, there, bound, fits⟩
    · rintro ⟨same, again, bound, fits⟩
      obtain rfl := Option.some.inj (there.symm.trans again)
      have here := List.getElem?_eq_getElem bound
      refine ⟨_, here, ?_⟩
      rw [applied _ _ (storable_outcome whole here)]
      exact fits
  have stepped : ∀ (item : β × Nat) (before : Database) (row : Market),
      before.markets.find? key = some row →
        (step before item).markets.find? key = some (row.updateOutcome item.2 (data item.1)) :=
    fun item before row there => find?_updateOutcome there _ _
  have rounds : ∀ item ∈ values.zipIdx, ∀ (before : Database) (post : Unit → Database → Prop),
      holds before → (Returns (serving outside)
          (await (.updateOutcome key item.2 (data item.1)) : Chain Unit) before post ↔
        fits item before ∧ post () (step before item)) := by
    intro item _ before post held
    rw [← admitted item before held]
    exact returns_await
  have keeps : ∀ item ∈ values.zipIdx, ∀ before, holds before → fits item before →
      holds (step before item) := by
    intro item _ before held fitting
    obtain ⟨row, there⟩ := held.2
    have whole := held.1.effect ((admitted item before held).mpr fitting)
    exact ⟨whole, _, stepped item before row there⟩
  have apart : values.zipIdx.Pairwise fun item other => ∀ before, holds before →
      fits item before → (fits other (step before item) ↔ fits other before) := by
    refine List.pairwise_of_forall fun item other before held _ => ?_
    obtain ⟨row, there⟩ := held.2
    simp only [fits, stepped item before row there, there, Option.some.injEq, exists_eq_left',
      Market.updateOutcome, List.length_modify]
  rw [Async.returns_forEach rounds keeps apart ⟨wellFormed, row, found⟩ fun later _ => ends later,
    ← and_assoc]
  refine and_congr_left fun _ => ?_
  simp only [fits, found, Option.some.injEq, exists_eq_left']
  constructor
  · intro all
    refine ⟨fun value member => ?_, Nat.le_of_not_lt fun more => ?_⟩
    · obtain ⟨index, here⟩ := List.mem_iff_getElem?.mp member
      exact (all (value, index) (List.mem_zipIdx_iff_getElem?.mpr here)).2
    · have here := List.getElem?_eq_getElem more
      exact Nat.lt_irrefl _ (all (_, row.outcomes.length) (List.mem_zipIdx_iff_getElem?.mpr here)).1
  · rintro ⟨each, short⟩ ⟨value, index⟩ member
    have here := List.mem_zipIdx_iff_getElem?.mp member
    obtain ⟨bound, -⟩ := List.getElem?_eq_some_iff.mp here
    exact ⟨Nat.lt_of_lt_of_le bound short, each value (List.mem_of_getElem? here)⟩

end Rows

/-! ## Metadata -/

/-- Published copy fits a market's row. -/
structure TakesCopy (db : Database) (row : Market) (metadata : CanonicalMetadata) : Prop where
  title : storableText metadata.title = true
  description : storableText metadata.description = true
  resolutionRules : storableText metadata.resolutionRules = true
  imageUrl : metadata.imageUrl.all storableText = true
  category : metadata.categoryKey.all storableText = true
  /-- The empty key is written without its category being created. -/
  named : metadata.categoryKey = some [] → (db.categories.find? []).isSome = true
  labels : ∀ label ∈ metadata.outcomeLabels.take row.outcomeCount, storableText label = true
  outcomes : (metadata.outcomeLabels.take row.outcomeCount).length ≤ row.outcomes.length

/-- Published metadata can be adopted, if it is that of a market. -/
def TakesMetadata (ext : Externals) (db : Database) (log : NormalizedLog)
    (a : MarketMetadataPublished) : Prop :=
  storableBigInt a.marketId = true ∧
    ∀ row, db.markets.find? (log.marketKey a.marketId) = some row → ∀ metadata,
      MetadataHash.parseCanonical ext.keccak256 a.metadata a.metadataHash = some metadata →
        TakesCopy db row metadata

section Metadata

variable {ext : Externals} {outside : Call → Outside} {db : Database} {log : NormalizedLog}
  {ref : MarketKey} {row : Market}

theorem named_withCategory (key : Option JsString) :
    (key.all fun category => ((db.withCategory key).categories.find? category).isSome) = true ↔
      (key = some [] → (db.categories.find? []).isSome = true) := by
  rcases key with _ | (_ | ⟨unit, rest⟩)
  · simp
  · simp [Database.withCategory]
  · simp [Database.withCategory]

theorem storable_label (label : JsString) (outcome : Outcome) (fits : outcome.storable = true) :
    (({ label := some label } : OutcomeUpdate).apply outcome).storable = storableText label := by
  simp only [Outcome.storable, Bool.and_eq_true] at fits
  simp [Outcome.storable, OutcomeUpdate.apply, DecimalUpdate.apply, fits.1.2, fits.2]

/-- What published metadata writes to a market. -/
def copyUpdate (metadata : CanonicalMetadata) : MarketUpdate where
  title := some metadata.title
  description := some metadata.description
  resolutionRules := some metadata.resolutionRules
  imageUrl := some metadata.imageUrl
  categoryKey := some metadata.categoryKey

/-- The labels are written once the copy is. -/
theorem returns_writeLabels {metadata : CanonicalMetadata} (wellFormed : db.WellFormed)
    (found : db.markets.find? ref = some row)
    (admitted : (Call.updateMarket ref (copyUpdate metadata)).refusal
      (outside (.updateMarket ref (copyUpdate metadata))) db = none) :
    Returns (serving outside) (do
      let market : Option Market ← await (.findMarketById ref)
      let labels := metadata.outcomeLabels.take ((market.map Market.outcomeCount).getD 0)
      Async.forEach labels.zipIdx fun (label, index) =>
        await (.updateOutcome ref index { label := some label })
      await (.invalidate ref))
        ((Call.updateMarket ref (copyUpdate metadata)).effect db) (fun _ _ => True) ↔
      (∀ label ∈ metadata.outcomeLabels.take row.outcomeCount, storableText label = true) ∧
        (metadata.outcomeLabels.take row.outcomeCount).length ≤ row.outcomes.length := by
  have updated : ((Call.updateMarket ref (copyUpdate metadata)).effect db).markets.find? ref =
      some ((copyUpdate metadata).apply row) := by
    simp [Call.effect, found]
  rw [returns_await_bind]
  change none = none ∧ Returns _ (Async.forEach (List.take ((Option.map Market.outcomeCount
    (((Call.updateMarket ref (copyUpdate metadata)).effect db).markets.find? ref)).getD 0)
      metadata.outcomeLabels).zipIdx _ >>= _)
        ((Call.updateMarket ref (copyUpdate metadata)).effect db) _ ↔ _
  rw [updated, returns_bind]
  simp only [Option.map_some, Option.getD_some, true_and]
  refine (returns_updateOutcomes (wellFormed.effect admitted) updated storable_label
    fun later => returns_invalidate).trans ?_
  rw [and_true]
  rfl

/-- A market's copy is adopted when it fits. -/
theorem returns_adoptCopy {metadata : CanonicalMetadata} (wellFormed : db.WellFormed)
    (found : db.markets.find? ref = some row) :
    Returns (serving outside) (do
      ensureCategory metadata.categoryKey
      await (.updateMarket ref (copyUpdate metadata))
      let market : Option Market ← await (.findMarketById ref)
      let labels := metadata.outcomeLabels.take ((market.map Market.outcomeCount).getD 0)
      Async.forEach labels.zipIdx fun (label, index) =>
        await (.updateOutcome ref index { label := some label })
      await (.invalidate ref)) db (fun _ _ => True) ↔ TakesCopy db row metadata := by
  have categorised : (db.withCategory metadata.categoryKey).markets.find? ref = some row := by
    rw [withCategory_markets]
    exact found
  have whole : (db.withCategory metadata.categoryKey).WellFormed := by
    unfold Database.withCategory
    split
    · exact ⟨wellFormed.drafts, wellFormed.markets, wellFormed.positions, wellFormed.resolutions⟩
    · exact wellFormed
  have row_fits := wellFormed.markets _ _ found
  have admitted : ∀ now, (Call.updateMarket ref (copyUpdate metadata)).refusal now
      (db.withCategory metadata.categoryKey) = none ↔
        (metadata.categoryKey = some [] → (db.categories.find? []).isSome = true) ∧
          (copyUpdate metadata).Fits row := by
    intro now
    rw [refusal_updateMarket categorised row_fits, ← named_withCategory]
    rfl
  rw [returns_bind, returns_ensureCategory, returns_await_bind]
  constructor
  · rintro ⟨category, written, labelled⟩
    obtain ⟨named, fits⟩ := (admitted _).mp written
    obtain ⟨labels, outcomes⟩ := (returns_writeLabels whole categorised written).mp labelled
    exact ⟨fits.title, fits.description, fits.resolutionRules, fits.imageUrl, category, named,
      labels, outcomes⟩
  · intro takes
    have fits : (copyUpdate metadata).Fits row := ⟨takes.title, takes.description,
      takes.resolutionRules, takes.imageUrl, takes.category, rfl, storable_pot row_fits, rfl⟩
    have written := (admitted (outside (.updateMarket ref (copyUpdate metadata)))).mpr
      ⟨takes.named, fits⟩
    exact ⟨takes.category, written, (returns_writeLabels whole categorised written).mpr
      ⟨takes.labels, takes.outcomes⟩⟩

theorem returns_onMetadataPublished (wellFormed : db.WellFormed) (a : MarketMetadataPublished) :
    Returns (serving outside) (onMetadataPublished ext log a) db (fun _ _ => True) ↔
      TakesMetadata ext db log a := by
  unfold onMetadataPublished
  refine returns_ofMarket trivial fun row found => ?_
  cases parsed : MetadataHash.parseCanonical ext.keccak256 a.metadata a.metadataHash with
  | none => simp
  | some metadata =>
      refine (returns_adoptCopy wellFormed found).trans ⟨?_, fun takes => ?_⟩
      · rintro takes _ ⟨⟩
        exact takes
      · exact takes metadata rfl

end Metadata

/-! ## Positions -/

/-- A position can be bought into. -/
def TakesPurchase (db : Database) (key : PositionKey) (shares amount : Nat) : Prop :=
  storableInt key.outcomeIndex = true ∧ storableDecimal shares = true ∧
    storableDecimal amount = true ∧ ∀ row, db.positions.find? key = some row →
      storableDecimal (row.shares + shares) = true ∧ storableDecimal (row.costBasis + amount) = true

/-- The shares that a sale takes from a holding. -/
def soldShares (held : Int) (shares : Nat) : Int := if shares > held then held else shares

/-- The cost that a sale takes from a holding. -/
def removedCost (held cost : Int) (shares : Nat) : Int :=
  if held > 0 then (cost * soldShares held shares).tdiv held else 0

/-- A position can be sold from: its decimals are short enough to be read as integers, and what
is realized fits. -/
def TakesSale (db : Database) (key : PositionKey) (shares amount : Nat) : Prop :=
  storableInt key.outcomeIndex = true ∧
    let held := ((db.positions.find? key).map Position.shares).getD 0
    let cost := ((db.positions.find? key).map Position.costBasis).getD 0
    held.natAbs < 10 ^ 21 ∧ cost.natAbs < 10 ^ 21 ∧
      storableDecimal (amount - removedCost held cost shares) = true ∧
      ∀ row, db.positions.find? key = some row →
        storableDecimal (row.shares - soldShares held shares) = true ∧
          storableDecimal (row.costBasis - removedCost held cost shares) = true ∧
          storableDecimal (row.realizedPnl + (amount - removedCost held cost shares)) = true

section Positions

variable {outside : Call → Outside} {db : Database} {ref : MarketKey} {rawAccount : JsString}
  {index : Nat} {side : TradeSide} {shares amount : Nat} {post : Unit → Database → Prop}

theorem storable_zero : storableDecimal 0 = true := by decide

/-- The call that writes a purchase. -/
def purchaseCall (key : PositionKey) (shares amount : Nat) : Call :=
  .upsertPosition key { shares := shares, costBasis := amount } {
    shares := some (.increment shares)
    costBasis := some (.increment amount) }

theorem refusal_purchase (wellFormed : db.WellFormed) {key : PositionKey} {now : Outside} :
    storableInt key.outcomeIndex = true ∧ (purchaseCall key shares amount).refusal now db = none ↔
      TakesPurchase db key shares amount := by
  simp only [purchaseCall, Call.refusal, unlessFits_eq_none, Bool.and_eq_true, Position.storable,
    TakesPurchase, storable_zero, and_true]
  have changed : ((db.positions.find? key).all fun row =>
      ((({ shares := some (.increment shares), costBasis := some (.increment amount) } :
        PositionUpdate).apply row)).storable) = true ↔
      ∀ row, db.positions.find? key = some row →
        storableDecimal (row.shares + shares) = true ∧
          storableDecimal (row.costBasis + amount) = true := by
    cases there : db.positions.find? key with
    | none => simp
    | some row =>
        have fits := wellFormed.positions _ _ there
        simp only [Position.storable, Bool.and_eq_true] at fits
        simp [Position.storable, PositionUpdate.apply, DecimalUpdate.apply, fits.2]
  rw [← changed]
  simp only [Position.storable]
  grind

theorem returns_purchase (wellFormed : db.WellFormed) (buys : side ≠ .sell) :
    Returns (serving outside) (updatePosition ref rawAccount index side shares amount) db post ↔
      TakesPurchase db ⟨ref, rawAccount.toLowerCase, index⟩ shares amount ∧
        post () ((purchaseCall ⟨ref, rawAccount.toLowerCase, index⟩ shares amount).effect db) := by
  unfold updatePosition
  rw [returns_await_bind, if_neg buys, returns_await, ← refusal_purchase wellFormed, and_assoc]
  refine and_congr_left fun _ => ?_
  simp only [Call.refusal, unlessFits_eq_none]

/-- The call that writes a sale. -/
def saleCall (key : PositionKey) (held cost : Int) (shares amount : Nat) : Call :=
  .upsertPosition key
    { shares := 0, costBasis := 0, realizedPnl := amount - removedCost held cost shares } {
      shares := some (.decrement (soldShares held shares))
      costBasis := some (.decrement (removedCost held cost shares))
      realizedPnl := some (.increment (amount - removedCost held cost shares)) }

theorem refusal_sale (key : PositionKey) (held cost : Int) (now : Outside) :
    storableInt key.outcomeIndex = true ∧
        (saleCall key held cost shares amount).refusal now db = none ↔
      storableInt key.outcomeIndex = true ∧
        storableDecimal (amount - removedCost held cost shares) = true ∧
        ∀ row, db.positions.find? key = some row →
          storableDecimal (row.shares - soldShares held shares) = true ∧
            storableDecimal (row.costBasis - removedCost held cost shares) = true ∧
            storableDecimal (row.realizedPnl + (amount - removedCost held cost shares)) = true := by
  simp only [saleCall, Call.refusal, unlessFits_eq_none, Bool.and_eq_true, Position.storable,
    storable_zero, true_and]
  cases there : db.positions.find? key with
  | none => simp
  | some row =>
      simp [PositionUpdate.apply, DecimalUpdate.apply, and_assoc]

theorem returns_sale {rest : Prop} (ends : ∀ later, post () later ↔ rest) :
    Returns (serving outside) (updatePosition ref rawAccount index .sell shares amount) db post ↔
      TakesSale db ⟨ref, rawAccount.toLowerCase, index⟩ shares amount ∧ rest := by
  unfold updatePosition
  rw [returns_await_bind, if_pos rfl, returns_bind, returns_bigIntOfDecimal, returns_bind,
    returns_bigIntOfDecimal, returns_await, ends]
  dsimp only [Call.answer]
  constructor
  · rintro ⟨named, held, cost, admitted, ends⟩
    have indexed := unlessFits_eq_none.mp named
    obtain ⟨-, created, changed⟩ := (refusal_sale _ _ _ _).mp ⟨indexed, admitted⟩
    exact ⟨⟨indexed, held, cost, created, changed⟩, ends⟩
  · rintro ⟨⟨indexed, held, cost, created, changed⟩, ends⟩
    exact ⟨unlessFits_eq_none.mpr indexed, held, cost,
      ((refusal_sale _ _ _ _).mpr ⟨indexed, created, changed⟩).2, ends⟩

end Positions

end Numera
