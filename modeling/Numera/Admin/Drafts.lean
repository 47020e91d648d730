import Numera.Chain.CommittedCopy
import Numera.Chain.Constraints

/-! # Drafts, and whose words a market serves

An operator drafts the copy of a market before the market exists (`AdminService.createDraft`),
and the draft lies under its own hash. The processor adopts it for a market whose creation
carries that hash, or adopts what the engine publishes. With drafts stored at any moment,
between any two calls of the processor, and batches stopped anywhere, a row serves nothing
but what its market has committed to, and a draft keeps its copy and the market that adopted
it (`copy_committed`).
-/

namespace Numera

open Async (CallsOnly Guarded Reaches)
open MetadataHash (canonicalize metadataHashOf parseCanonical)

/-! ## The drafts -/

structure CreateMetadataDraftDto where
  title : JsString
  description : Option JsString
  resolutionRules : JsString
  imageUrl : Option JsString
  outcomeLabels : List JsString
  categoryKey : Option JsString

/-- What `createDraft` returns, without its note. -/
structure CreatedDraft where
  metadataHash : JsString
  canonical : JsString
  copy : CanonicalMetadata

def MarketMetadataDraft.copy (draft : MarketMetadataDraft) : CanonicalMetadata where
  title := draft.title
  description := draft.description
  resolutionRules := draft.resolutionRules
  imageUrl := draft.imageUrl
  outcomeLabels := draft.outcomeLabels
  categoryKey := draft.categoryKey

namespace AdminService

/-- The copy that is committed to. -/
def canonicalOf (dto : CreateMetadataDraftDto) : CanonicalMetadata where
  title := dto.title
  description := dto.description.getD []
  resolutionRules := dto.resolutionRules
  imageUrl := dto.imageUrl
  outcomeLabels := dto.outcomeLabels
  categoryKey := dto.categoryKey

/-- The row of a new draft. -/
def draftOf (canonical : CanonicalMetadata) : MarketMetadataDraft where
  title := canonical.title
  description := canonical.description
  resolutionRules := canonical.resolutionRules
  imageUrl := canonical.imageUrl
  outcomeLabels := canonical.outcomeLabels
  categoryKey := canonical.categoryKey
  marketRef := none

/-- Store the copy under its hash; a draft that is there already is left as it is. -/
def createDraft (ext : Externals) (dto : CreateMetadataDraftDto) (db : Database) :
    Except Failure CreatedDraft × Database :=
  let canonical := canonicalOf dto
  let metadataHash := metadataHashOf ext.keccak256 canonical
  let draft := draftOf canonical
  let (outcome, later) :=
    db.commit draft.storable { db with drafts := db.drafts.insertNew metadataHash draft }
  (outcome.map fun _ => ⟨metadataHash, canonicalize canonical, canonical⟩, later)

end AdminService

/-! ## Operators beside the processor -/

/-- What operators do to the database: they draft, any number of times. -/
inductive Drafts (ext : Externals) : Database → Database → Prop where
  | refl (db : Database) : Drafts ext db db
  | drafted {db middle : Database} (earlier : Drafts ext db middle) (dto : CreateMetadataDraftDto) :
      Drafts ext db (AdminService.createDraft ext dto middle).2

/-- The processor's environment: its calls may fail, and operators draft before any of them. -/
def Operated (ext : Externals) : Async.Environment Call.Answer Failure Database Call :=
  fun call db answer record later =>
    ∃ drafted, Drafts ext db drafted ∧ Failing call drafted answer record later

/-- The engine keeps a market's hash: its creation and its publications carry the same. -/
def NormalizedLog.CommitsTo (committed : MarketKey → JsString) (log : NormalizedLog) : Prop :=
  match log.event with
  | .marketCreated a => a.metadataHash = committed (log.marketKey a.marketId)
  | .marketMetadataPublished a => a.metadataHash = committed (log.marketKey a.marketId)
  | _ => True

/-- The runs of the processor and the operators over one database: batches in any order, each
stopped anywhere. -/
inductive CopyRun (ext : Externals) (committed : MarketKey → JsString) :
    Database → Database → Prop where
  | refl (db : Database) : CopyRun ext committed db db
  | batch {db middle later : Database} {logs : List NormalizedLog} {calls : List Call}
      {remaining : Chain Unit} (earlier : CopyRun ext committed db middle)
      (commits : ∀ log ∈ logs, log.CommitsTo committed)
      (stopped : Reaches (Operated ext) (EventProcessor.processBatch ext logs) middle calls
        remaining later) : CopyRun ext committed db later
  | drafted {db middle : Database} (earlier : CopyRun ext committed db middle)
      (dto : CreateMetadataDraftDto) :
      CopyRun ext committed db (AdminService.createDraft ext dto middle).2

/-! ## Whose words -/

/-- Copy that a hash commits to. -/
def CommittedTo (ext : Externals) (hash : JsString) (copy : CanonicalMetadata) : Prop :=
  (metadataHashOf ext.keccak256 copy).toLowerCase = hash.toLowerCase

/-- A row serves committed words: its texts are all blank or all of one copy, and a label is
blank or stands at its place in a copy. -/
structure Market.ServesCommitted (ext : Externals) (row : Market) : Prop where
  texts : (row.title = [] ∧ row.description = [] ∧ row.resolutionRules = [] ∧ row.imageUrl = none) ∨
    ∃ copy, CommittedTo ext row.metadataHash copy ∧ row.title = copy.title ∧
      row.description = copy.description ∧ row.resolutionRules = copy.resolutionRules ∧
      row.imageUrl = copy.imageUrl
  labels : ∀ (index : Nat) (outcome : Outcome), row.outcomes[index]? = some outcome → outcome.label = [] ∨
    ∃ copy, CommittedTo ext row.metadataHash copy ∧ copy.outcomeLabels[index]? = some outcome.label

/-- Drafts lie under their hashes and belong to markets of that hash, and every row serves
what its market has committed to. -/
structure Database.ServesCommitted (ext : Externals) (committed : MarketKey → JsString)
    (db : Database) : Prop where
  drafts : ∀ hash draft, db.drafts.find? hash = some draft →
    metadataHashOf ext.keccak256 draft.copy = hash
  adopted : ∀ hash draft key, db.drafts.find? hash = some draft → draft.marketRef = some key →
    ∃ row, db.markets.find? key = some row ∧ row.metadataHash = hash
  markets : ∀ key row, db.markets.find? key = some row →
    row.metadataHash = committed key ∧ row.ServesCommitted ext

/-- A draft keeps its copy, and the market that adopted it. -/
def DraftsKept (db later : Database) : Prop :=
  ∀ hash draft, db.drafts.find? hash = some draft →
    ∃ kept, later.drafts.find? hash = some kept ∧ kept.copy = draft.copy ∧
      ∀ key, draft.marketRef = some key → kept.marketRef = some key

theorem DraftsKept.refl (db : Database) : DraftsKept db db :=
  fun _ draft found => ⟨draft, found, rfl, fun _ same => same⟩

theorem DraftsKept.trans {db middle later : Database} (first : DraftsKept db middle)
    (second : DraftsKept middle later) : DraftsKept db later := by
  intro hash draft found
  obtain ⟨between, there, copied, adopted⟩ := first hash draft found
  obtain ⟨kept, after, again, still⟩ := second hash between there
  exact ⟨kept, after, again.trans copied, fun key same => still key (adopted key same)⟩

variable {ext : Externals} {committed : MarketKey → JsString} {db later : Database}

/-! ## Drafting -/

theorem createDraft_cases (ext : Externals) (dto : CreateMetadataDraftDto) (db : Database) :
    (AdminService.createDraft ext dto db).2 = db ∨
      (AdminService.createDraft ext dto db).2 = { db with
        drafts := db.drafts.insertNew
          (metadataHashOf ext.keccak256 (AdminService.canonicalOf dto))
          (AdminService.draftOf (AdminService.canonicalOf dto)) } := by
  simp only [AdminService.createDraft, Database.commit]
  split
  · exact .inr rfl
  · exact .inl rfl

/-- What is found after a draft was found before, or is the new one. -/
theorem find?_insertDraft {hash : JsString} {draft : MarketMetadataDraft}
    {canonical : CanonicalMetadata}
    (found : (db.drafts.insertNew (metadataHashOf ext.keccak256 canonical)
      (AdminService.draftOf canonical)).find? hash = some draft) :
    db.drafts.find? hash = some draft ∨
      hash = metadataHashOf ext.keccak256 canonical ∧ draft = AdminService.draftOf canonical := by
  rw [Table.find?_insertNew] at found
  split at found
  · rename_i same
    subst same
    cases present : db.drafts.find? (metadataHashOf ext.keccak256 canonical) with
    | none =>
        rw [present] at found
        exact .inr ⟨rfl, (Option.some.inj found).symm⟩
    | some old =>
        rw [present] at found
        exact .inl found
  · exact .inl found

theorem found_insertNew {κ ρ : Type} [DecidableEq κ] {table : Table κ ρ} {key : κ} {row : ρ}
    (found : table.find? key = some row) (other : κ) (create : ρ) :
    (table.insertNew other create).find? key = some row := by
  rw [Table.find?_insertNew]
  split
  · rename_i same
    rw [← same, found]
    rfl
  · exact found

/-- Drafting leaves the markets as they are, and the drafts that are there. -/
theorem Drafts.keeps (drafts : Drafts ext db later) :
    later.markets = db.markets ∧
      (∀ hash draft, db.drafts.find? hash = some draft → later.drafts.find? hash = some draft) ∧
      ∀ hash draft, later.drafts.find? hash = some draft →
        db.drafts.find? hash = some draft ∨ draft.marketRef = none ∧
          metadataHashOf ext.keccak256 draft.copy = hash := by
  induction drafts with
  | refl => exact ⟨rfl, fun _ _ found => found, fun _ _ found => .inl found⟩
  | @drafted middle earlier dto ih =>
      obtain ⟨markets, stays, known⟩ := ih
      rcases createDraft_cases ext dto middle with same | same <;> rw [same]
      · exact ⟨markets, stays, known⟩
      · refine ⟨markets, fun hash draft found => found_insertNew (stays hash draft found) _ _, ?_⟩
        intro hash draft found
        rcases find?_insertDraft found with before | ⟨rfl, rfl⟩
        · exact known hash draft before
        · exact .inr ⟨rfl, rfl⟩

theorem Drafts.served (drafts : Drafts ext db later) (served : db.ServesCommitted ext committed) :
    later.ServesCommitted ext committed := by
  obtain ⟨markets, -, known⟩ := drafts.keeps
  refine ⟨fun hash draft found => ?_, fun hash draft key found adopts => ?_, ?_⟩
  · rcases known hash draft found with before | ⟨-, own⟩
    · exact served.drafts hash draft before
    · exact own
  · rcases known hash draft found with before | ⟨free, -⟩
    · rw [markets]
      exact served.adopted hash draft key before adopts
    · rw [free] at adopts
      cases adopts
  · rw [markets]
    exact served.markets

theorem Drafts.kept (drafts : Drafts ext db later) : DraftsKept db later :=
  fun hash draft found => ⟨draft, drafts.keeps.2.1 hash draft found, rfl, fun _ same => same⟩

/-! ## What the processor may do to copy -/

/-- A call that is in order: a draft is adopted when it is free, for a market of its hash, and
nothing but committed words is written. -/
def Call.Committing (ext : Externals) (committed : MarketKey → JsString) :
    Call → Database → Prop
  | adoptDraft hash key, db =>
      (∀ draft, db.drafts.find? hash = some draft → draft.marketRef = none) ∧
        ∃ row, db.markets.find? key = some row ∧ row.metadataHash = hash
  | upsertMarket key create, _ =>
      create.metadataHash = committed key ∧ create.ServesCommitted ext
  | updateMarket key data, _ =>
      (data.title = none ∧ data.description = none ∧ data.resolutionRules = none ∧
          data.imageUrl = none) ∨
        ∃ copy, CommittedTo ext (committed key) copy ∧ data.title = some copy.title ∧
          data.description = some copy.description ∧
          data.resolutionRules = some copy.resolutionRules ∧ data.imageUrl = some copy.imageUrl
  | updateOutcome key index data, _ =>
      data.label = none ∨ ∃ copy label, CommittedTo ext (committed key) copy ∧
        data.label = some label ∧ copy.outcomeLabels[index]? = some label
  | _, _ => True

/-- Drafting leaves a call in order. -/
theorem Call.Committing.drafts {call : Call} (inOrder : call.Committing ext committed db)
    (drafts : Drafts ext db later) : call.Committing ext committed later := by
  obtain ⟨markets, -, known⟩ := drafts.keeps
  cases call with
  | adoptDraft hash key =>
      obtain ⟨free, row, found, same⟩ := inOrder
      refine ⟨fun draft there => ?_, row, markets ▸ found, same⟩
      rcases known hash draft there with before | ⟨none, -⟩
      · exact free draft before
      · exact none
  | _ => exact inOrder

/-- A change of rows that keeps their hashes keeps the markets of the drafts. -/
theorem Database.ServesCommitted.modify {key : MarketKey} {change : Market → Market}
    (served : db.ServesCommitted ext committed)
    (hash : ∀ row, (change row).metadataHash = row.metadataHash)
    (serves : ∀ row, row.metadataHash = committed key → row.ServesCommitted ext →
      (change row).ServesCommitted ext) :
    ({ db with markets := db.markets.modify key change } : Database).ServesCommitted ext
      committed := by
  refine ⟨served.drafts, fun digest draft other found adopts => ?_, fun other row found => ?_⟩
  · obtain ⟨row, there, same⟩ := served.adopted digest draft other found adopts
    by_cases own : other = key
    · exact ⟨change row, by simp [Table.find?_modify, own, own ▸ there], (hash row).trans same⟩
    · exact ⟨row, by simp [Table.find?_modify, own, there], same⟩
  · simp only [Table.find?_modify] at found
    split at found
    · rename_i own
      subst own
      obtain ⟨old, there, rfl⟩ := Option.map_eq_some_iff.mp found
      obtain ⟨same, before⟩ := served.markets _ old there
      exact ⟨(hash old).trans same, serves old same before⟩
    · exact served.markets other row found

/-- **A call that is in order keeps it so.** -/
theorem Call.Committing.effect {call : Call} (inOrder : call.Committing ext committed db)
    (served : db.ServesCommitted ext committed) :
    (call.effect db).ServesCommitted ext committed ∧ DraftsKept db (call.effect db) := by
  cases call with
  | adoptDraft digest key =>
      obtain ⟨free, row, there, same⟩ := inOrder
      refine ⟨⟨fun hash draft found => ?_, fun hash draft other found adopts => ?_,
        served.markets⟩, fun hash draft found => ?_⟩
      · simp only [Call.effect, Table.find?_modify] at found
        split at found
        · rename_i own
          subst own
          obtain ⟨old, before, rfl⟩ := Option.map_eq_some_iff.mp found
          exact served.drafts hash old before
        · exact served.drafts hash draft found
      · simp only [Call.effect, Table.find?_modify] at found
        split at found
        · rename_i own
          obtain ⟨old, before, rfl⟩ := Option.map_eq_some_iff.mp found
          obtain rfl := Option.some.inj adopts
          exact ⟨row, there, same.trans own.symm⟩
        · exact served.adopted hash draft other found adopts
      · by_cases own : hash = digest
        · subst own
          refine ⟨{ draft with marketRef := some key }, ?_, rfl, fun other adopts => ?_⟩
          · simp [Call.effect, Table.find?_modify, found]
          · rw [free draft found] at adopts
            cases adopts
        · exact ⟨draft, by simp [Call.effect, Table.find?_modify, own, found], rfl,
            fun _ same => same⟩
  | upsertMarket key create =>
      refine ⟨⟨served.drafts, fun hash draft other found adopts => ?_, fun other row found => ?_⟩,
        .refl db⟩
      · obtain ⟨row, there, same⟩ := served.adopted hash draft other found adopts
        exact ⟨row, found_insertNew there _ _, same⟩
      · simp only [Call.effect, Table.find?_insertNew] at found
        split at found
        · rename_i own
          subst own
          cases there : db.markets.find? other with
          | none =>
              rw [there] at found
              exact Option.some.inj found ▸ inOrder
          | some old =>
              rw [there] at found
              exact Option.some.inj found ▸ served.markets other old there
        · exact served.markets other row found
  | updateMarket key data =>
      refine ⟨served.modify (fun _ => rfl) fun row own serves => ⟨?_, serves.labels⟩, .refl db⟩
      rcases inOrder with ⟨title, description, rules, image⟩ | ⟨copy, commits, title, description,
        rules, image⟩
      · simpa only [MarketUpdate.apply, title, description, rules, image, Option.getD_none]
          using serves.texts
      · refine .inr ⟨copy, own.symm ▸ commits, ?_⟩
        simp only [MarketUpdate.apply, title, description, rules, image, Option.getD_some,
          and_self]
  | updateOutcome key index data =>
      refine ⟨served.modify (fun _ => rfl) fun row own serves => ⟨serves.texts, ?_⟩, .refl db⟩
      intro place outcome found
      simp only [Market.updateOutcome, List.getElem?_modify] at found
      obtain ⟨old, there, rfl⟩ := Option.map_eq_some_iff.mp found
      split
      · rename_i here
        subst here
        rcases inOrder with none | ⟨copy, label, commits, written, stands⟩
        · simpa only [Market.updateOutcome, OutcomeUpdate.apply, none, Option.getD_none] using
            serves.labels _ old there
        · refine .inr ⟨copy, own.symm ▸ commits, ?_⟩
          simpa only [OutcomeUpdate.apply, written, Option.getD_some] using stands
      · exact serves.labels place old there
  | _ => exact ⟨⟨served.drafts, served.adopted, served.markets⟩, .refl _⟩

/-- What a call that is in order leaves, with drafts stored before it. -/
theorem Operated.keeps {call : Call} {answer : Except Failure call.Answer} {record : List Call}
    (answered : Operated ext call db answer record later)
    (inOrder : call.Committing ext committed db) (served : db.ServesCommitted ext committed) :
    later.ServesCommitted ext committed ∧ DraftsKept db later := by
  obtain ⟨drafted, drafts, called⟩ := answered
  have still := drafts.served served
  have effect := (inOrder.drafts drafts).effect still
  have performed : ∀ reply, Performs call drafted reply later →
      later.ServesCommitted ext committed ∧ DraftsKept db later := by
    intro reply done
    rcases performs_cases done with ⟨-, -, rfl⟩ | ⟨-, -, -, rfl⟩
    · exact ⟨still, drafts.kept⟩
    · exact ⟨effect.1, drafts.kept.trans effect.2⟩
  cases called with
  | performed done => exact performed _ done
  | refused _ => exact ⟨still, drafts.kept⟩
  | lost _ done => exact performed _ done

/-- A call that was answered. -/
theorem Operated.answered {call : Call} {value : call.Answer} {record : List Call}
    (answered : Operated ext call db (.ok value) record later) :
    ∃ drafted outside, Drafts ext db drafted ∧ value = call.answer outside drafted ∧
      later = call.effect drafted := by
  obtain ⟨drafted, drafts, called⟩ := answered
  rcases performs_cases called.performed_of_ok with ⟨_, failed, -⟩ | ⟨outside, -, same, rfl⟩
  · cases failed
  · exact ⟨drafted, outside, drafts, Except.ok.inj same, rfl⟩

/-! ## The processor -/

variable (ext committed) in
/-- However its calls are answered and whatever is drafted meanwhile, the computation makes
calls that are in order, and its end serves committed words. -/
def Commits {α : Type} (task : Chain α) (db : Database) : Prop :=
  Guarded (Operated ext) (Call.Committing ext committed)
    (fun _ final => final.ServesCommitted ext committed) task db

namespace Commits

variable {α β : Type}

theorem of_callsOnly {task : Chain α}
    (only : task.CallsOnly fun call => ∀ db, call.Committing ext committed db)
    (served : db.ServesCommitted ext committed) : Commits ext committed task db := by
  refine Guarded.of_callsOnly (fun db => db.ServesCommitted ext committed) only
    (fun _ before always _ => always before) ?_ served
  exact fun call before answer record after always answered served =>
    (Operated.keeps answered (always before) served).1

theorem bind {task : Chain α} {rest : α → Chain β} (first : Commits ext committed task db)
    (second : ∀ value later, later.ServesCommitted ext committed →
      Commits ext committed (rest value) later) : Commits ext committed (task >>= rest) db := by
  refine Guarded.bind (Guarded.mono first fun outcome final served => ?_)
  cases outcome with
  | ok value => exact second value final served
  | error thrown => exact served

theorem await_bind {call : Call} {rest : call.Answer → Chain β}
    (inOrder : call.Committing ext committed db) (served : db.ServesCommitted ext committed)
    (continued : ∀ outside drafted, Drafts ext db drafted →
      (call.effect drafted).ServesCommitted ext committed →
      Commits ext committed (rest (call.answer outside drafted)) (call.effect drafted)) :
    Commits ext committed (await call >>= rest) db := by
  refine Guarded.bind (Guarded.perform inOrder fun answer record later answered => ?_)
  have kept := (answered.keeps inOrder served).1
  cases answer with
  | ok value =>
      obtain ⟨drafted, outside, drafts, rfl, rfl⟩ := answered.answered
      exact continued outside drafted drafts kept
  | error thrown => exact kept

theorem await {call : Call} (inOrder : call.Committing ext committed db)
    (served : db.ServesCommitted ext committed) : Commits ext committed (await call) db :=
  Guarded.perform inOrder fun _ _ _ answered => (Operated.keeps answered inOrder served).1

end Commits

namespace EventProcessor

/-! ### Parts that write no copy -/

variable (ext committed) in
/-- A call that is in order in any database. -/
def Orderly (call : Call) : Prop := ∀ db, call.Committing ext committed db

theorem orderly_publish (ref : Option MarketKey) (data : RealtimeData) :
    (publish ref data).CallsOnly (Orderly ext committed) :=
  .bind (.perform fun _ => trivial) fun _ => .perform fun _ => trivial

theorem orderly_ensureCategory (key : Option JsString) :
    (ensureCategory key).CallsOnly (Orderly ext committed) := by
  unfold ensureCategory
  split
  · exact .perform fun _ => trivial
  · trivial

theorem orderly_updatePosition (ref : MarketKey) (account : JsString) (index : Nat)
    (side : TradeSide) (shares amount : Nat) :
    (updatePosition ref account index side shares amount).CallsOnly (Orderly ext committed) := by
  refine .bind (.perform fun _ => trivial) fun existing => ?_
  dsimp only
  split
  · refine .bind (callsOnly_bigIntOfDecimal _) fun _ => ?_
    exact .bind (callsOnly_bigIntOfDecimal _) fun _ => .perform fun _ => trivial
  · exact .perform fun _ => trivial

/-- An update of a market's row that leaves its texts. -/
theorem orderly_updateMarket {key : MarketKey} {data : MarketUpdate}
    (texts : data.title = none ∧ data.description = none ∧ data.resolutionRules = none ∧
      data.imageUrl = none) :
    (await (.updateMarket key data)).CallsOnly (Orderly ext committed) :=
  .perform fun _ => .inl texts

/-- An update of an outcome's row that leaves its label. -/
theorem orderly_updateOutcome {key : MarketKey} {index : Nat} {data : OutcomeUpdate}
    (label : data.label = none) :
    (await (.updateOutcome key index data)).CallsOnly (Orderly ext committed) :=
  .perform fun _ => .inl label

/-- The announcement of a trade, after its last write. -/
theorem orderly_announceTrade (ref : MarketKey) (date : Date) (data : Date → RealtimeData)
    (touched : List MarketKey) :
    (do
      let timestamp ← toISOString date
      publishMarket ref (data timestamp)
      return touched : Chain (List MarketKey)).CallsOnly (Orderly ext committed) :=
  .bind (callsOnly_toISOString _) fun _ => .bind (orderly_publish _ _) fun _ => trivial

/-- A handler that looks its market up first. -/
theorem orderly_ofMarket {rawAddress : JsString} {marketId : Nat} {α : Type}
    {body : Option MarketKey → Chain α} (unknown : (body none).CallsOnly (Orderly ext committed))
    (known : (body (some ⟨rawAddress.toLowerCase, marketId⟩)).CallsOnly (Orderly ext committed)) :
    (marketRef rawAddress marketId >>= body).CallsOnly (Orderly ext committed) := by
  refine ⟨fun _ => trivial, fun answer => ?_⟩
  cases answer with
  | error thrown => trivial
  | ok row =>
      cases row with
      | none => exact unknown
      | some row => exact known

theorem orderly_ofResolution {market : JsString} {marketId : Nat}
    {body : MarketKey × Option MarketKey → Chain Unit}
    (only : ∀ found, (body found).CallsOnly (Orderly ext committed)) :
    (resolutionKey market marketId >>= body).CallsOnly (Orderly ext committed) :=
  .bind (.bind (.perform fun _ => trivial) fun _ => trivial) only

theorem orderly_announceResolution (ref : Option MarketKey) (key : MarketKey) :
    (announceResolution ref key).CallsOnly (Orderly ext committed) := by
  cases ref with
  | none => trivial
  | some ref =>
      refine .bind (.perform fun _ => trivial) fun _ => .bind (.perform fun _ => trivial) fun _ => ?_
      refine .bind (.perform fun _ => trivial) fun row => ?_
      dsimp only
      split
      · refine .bind ?_ fun _ => orderly_publish _ _
        exact .bind (callsOnly_toISOString _) fun _ => trivial
      · exact orderly_publish _ _

theorem orderly_amended {data : ResolutionUpdate} (key : MarketKey) (ref : Option MarketKey) :
    (do
      await (.updateResolutions key data)
      announceResolution ref key : Chain Unit).CallsOnly (Orderly ext committed) :=
  .bind (.perform fun _ => trivial) fun _ => orderly_announceResolution _ _

theorem orderly_unchanged {handler : Chain Unit} {touched : List MarketKey}
    (only : handler.CallsOnly (Orderly ext committed)) :
    (do handler; return touched : Chain (List MarketKey)).CallsOnly (Orderly ext committed) :=
  .bind only fun _ => trivial

theorem orderly_onTrade (log : NormalizedLog) (side : TradeSide) (a : TradeArgs)
    (touched : List MarketKey) :
    (onTrade log side a touched).CallsOnly (Orderly ext committed) := by
  refine orderly_ofMarket trivial ?_
  refine .bind (.perform fun _ => trivial) fun _ => ?_
  refine .bind (orderly_updateMarket ⟨rfl, rfl, rfl, rfl⟩) fun _ => ?_
  refine .bind (orderly_updateOutcome rfl) fun _ => ?_
  exact .bind (orderly_updatePosition _ _ _ _ _ _) fun _ => orderly_announceTrade _ _ _ _

theorem orderly_onShort (log : NormalizedLog) (a : TradeArgs) (touched : List MarketKey) :
    (onShort log a touched).CallsOnly (Orderly ext committed) := by
  refine orderly_ofMarket trivial ?_
  refine .bind (.perform fun _ => trivial) fun market => ?_
  cases market with
  | none => trivial
  | some market =>
      dsimp only
      split
      · trivial
      · refine .bind (.perform fun _ => trivial) fun _ => ?_
        refine .bind (.forEach fun leg => ?_) fun _ => ?_
        · exact .bind (orderly_updateOutcome rfl) fun _ => orderly_updatePosition _ _ _ _ _ _
        · refine .bind (orderly_updateMarket ⟨rfl, rfl, rfl, rfl⟩) fun _ => ?_
          exact orderly_announceTrade _ _ _ _

/-- A verdict, and its announcement. -/
theorem orderly_verdict {log : NormalizedLog} {marketId : Nat} {data : MarketUpdate}
    {status : RealtimeData} (texts : data.title = none ∧ data.description = none ∧
      data.resolutionRules = none ∧ data.imageUrl = none) :
    (do
      let some ref ← marketRef log.address marketId | return
      await (.updateMarket ref data)
      await (.invalidate ref)
      publishMarket ref status : Chain Unit).CallsOnly (Orderly ext committed) := by
  refine orderly_ofMarket trivial ?_
  refine .bind (orderly_updateMarket texts) fun _ => .bind (.perform fun _ => trivial) fun _ => ?_
  exact orderly_publish _ _

theorem orderly_refreshPrices (logs : List NormalizedLog) (ref : MarketKey) :
    (refreshPrices ext logs ref).CallsOnly (Orderly ext committed) := by
  have timestamp : (latestTs logs ref).CallsOnly (Orderly ext committed) := by
    unfold latestTs
    dsimp only
    split
    · exact .perform fun _ => trivial
    · trivial
  refine .bind (.perform fun _ => trivial) fun market => ?_
  split
  · trivial
  · refine .bind (.tryCatch (.bind (.perform fun _ => trivial) fun _ => trivial)
      fun _ => trivial) fun read => ?_
    cases read with
    | none => trivial
    | some prices =>
        refine .bind timestamp fun ts => ?_
        refine .bind (.forEach fun _ => orderly_updateOutcome rfl) fun _ => ?_
        refine .bind (.forEach fun _ => .perform fun _ => trivial) fun _ => ?_
        exact .bind (.perform fun _ => trivial) fun _ => orderly_publish _ _

/-! ### Parts that write copy -/

/-- What is published is adopted when it hashes to the commitment, and only then. -/
theorem orderly_onMetadataPublished {log : NormalizedLog} {a : MarketMetadataPublished}
    (commits : a.metadataHash = committed (log.marketKey a.marketId)) :
    (onMetadataPublished ext log a).CallsOnly (Orderly ext committed) := by
  refine orderly_ofMarket trivial ?_
  dsimp only
  cases parsed : parseCanonical ext.keccak256 a.metadata a.metadataHash with
  | none => trivial
  | some metadata =>
      have own : CommittedTo ext (committed (log.marketKey a.marketId)) metadata :=
        commits ▸ MetadataHash.hash_of_parseCanonical parsed
      dsimp only
      refine .bind (orderly_ensureCategory _) fun _ => ?_
      refine .bind (.perform fun _ => .inr ⟨metadata, own, rfl, rfl, rfl, rfl⟩) fun _ => ?_
      refine .bind (.perform fun _ => trivial) fun market => ?_
      refine .bind (.forEach_mem fun entry listed => ?_) fun _ => .perform fun _ => trivial
      obtain ⟨label, index⟩ := entry
      rw [List.mem_zipIdx_iff_getElem?] at listed
      rw [List.getElem?_take] at listed
      split at listed
      · exact .perform fun _ => .inr ⟨metadata, label, own, rfl, listed⟩
      · cases listed

/-- The row of a new market serves the draft of its hash, or nothing. -/
theorem servesCommitted_created {row : Market} {draft : Option MarketMetadataDraft}
    (drafted : ∀ found, draft = some found →
      metadataHashOf ext.keccak256 found.copy = row.metadataHash)
    (title : row.title = (draft.map (·.title)).getD [])
    (description : row.description = (draft.map (·.description)).getD [])
    (rules : row.resolutionRules = (draft.map (·.resolutionRules)).getD [])
    (image : row.imageUrl = draft.bind (·.imageUrl))
    (labels : ∀ (index : Nat) (outcome : Outcome), row.outcomes[index]? = some outcome →
      outcome.label = ((draft.map (·.outcomeLabels)).getD [])[index]?.getD []) :
    row.ServesCommitted ext := by
  cases draft with
  | none =>
      refine ⟨.inl ⟨title, description, rules, image⟩, fun index outcome found => .inl ?_⟩
      exact labels index outcome found
  | some draft =>
      have own : CommittedTo ext row.metadataHash draft.copy :=
        congrArg JsString.toLowerCase (drafted draft rfl)
      refine ⟨.inr ⟨draft.copy, own, title, description, rules, image⟩, ?_⟩
      intro index outcome found
      have label := labels index outcome found
      cases there : draft.outcomeLabels[index]? with
      | none => exact .inl (by simpa [there] using label)
      | some text =>
          refine .inr ⟨draft.copy, own, ?_⟩
          rw [label]
          simp [MarketMetadataDraft.copy, there]

/-- A draft that was read as free is adopted for a market of its hash, which is there. -/
theorem commits_markAdopted {hash : JsString} {key : MarketKey} {draft : Option MarketMetadataDraft}
    (still : ∀ found, draft = some found → db.drafts.find? hash = some found)
    (present : ∃ row, db.markets.find? key = some row ∧ row.metadataHash = hash)
    (served : db.ServesCommitted ext committed) :
    Commits ext committed (markAdopted hash key draft) db := by
  unfold markAdopted
  split
  · refine .await ⟨fun other there => ?_, present⟩ served
    rw [still _ rfl] at there
    exact Option.some.inj there ▸ rfl
  · exact served

theorem commits_createMarket {log : NormalizedLog} {a : MarketCreated}
    (commits : a.metadataHash = committed (log.marketKey a.marketId))
    (served : db.ServesCommitted ext committed) :
    Commits ext committed (createMarket ext log a) db := by
  refine .bind (.of_callsOnly (orderly_ensureCategory _) served) fun _ db served => ?_
  refine .bind (.of_callsOnly (callsOnly_bigIntDiv _ _) served) fun price db served => ?_
  refine .await_bind trivial served fun outside read _ served => ?_
  refine .await_bind ⟨commits, ?_⟩ served fun outside written drafts served => ?_
  · refine @servesCommitted_created ext _ (read.drafts.find? a.metadataHash)
      (fun found there => served.drafts _ found there) rfl rfl rfl rfl fun index outcome found => ?_
    obtain ⟨place, inside, rfl⟩ := Option.map_eq_some_iff.mp (List.getElem?_map ▸ found)
    obtain ⟨_, rfl⟩ := List.getElem?_eq_some_iff.mp inside
    rw [List.getElem_range]
    rfl
  · refine .bind (commits_markAdopted (fun draft found => drafts.keeps.2.1 _ draft found) ?_ served)
      fun _ db served => ?_
    · refine ⟨_, (Table.find?_insertNew _ _ _ _).trans (if_pos rfl), ?_⟩
      refine ((served.markets (log.marketKey a.marketId) _ ?_).1).trans commits.symm
      exact (Table.find?_insertNew _ _ _ _).trans (if_pos rfl)
    · refine .of_callsOnly (.bind (.perform fun _ => trivial) fun _ => ?_) served
      exact .bind (callsOnly_toISOString _) fun _ => orderly_publish _ _

/-! ### The batch -/

theorem commits_apply {log : NormalizedLog} (commits : log.CommitsTo committed)
    (touched : List MarketKey) (served : db.ServesCommitted ext committed) :
    Commits ext committed (apply ext log touched) db := by
  unfold apply
  cases log.kind with
  | lsLmsr =>
      dsimp only
      cases event : log.event with
      | marketCreated a =>
          simp only [NormalizedLog.CommitsTo, event] at commits
          exact .bind (commits_createMarket commits served) fun _ _ served => served
      | marketMetadataPublished a =>
          simp only [NormalizedLog.CommitsTo, event] at commits
          exact .of_callsOnly (orderly_unchanged (orderly_onMetadataPublished commits)) served
      | bought a => exact .of_callsOnly (orderly_onTrade _ _ _ _) served
      | sold a => exact .of_callsOnly (orderly_onTrade _ _ _ _) served
      | shorted a => exact .of_callsOnly (orderly_onShort _ _ _) served
      | marketResolved marketId winningOutcomeId owed surplus =>
          exact .of_callsOnly (orderly_unchanged (orderly_verdict ⟨rfl, rfl, rfl, rfl⟩)) served
      | marketInvalidated marketId surplus =>
          exact .of_callsOnly (orderly_unchanged (orderly_verdict ⟨rfl, rfl, rfl, rfl⟩)) served
      | redeemed marketId account amount =>
          refine .of_callsOnly (orderly_unchanged (orderly_ofMarket trivial ?_)) served
          refine .bind (.perform fun _ => trivial) fun _ => ?_
          exact .bind (orderly_updateMarket ⟨rfl, rfl, rfl, rfl⟩) fun _ => .perform fun _ => trivial
      | seedRedeemed marketId creator amount =>
          refine .of_callsOnly (orderly_unchanged (orderly_ofMarket trivial ?_)) served
          dsimp only
          split
          · trivial
          · exact .bind (orderly_updateMarket ⟨rfl, rfl, rfl, rfl⟩) fun _ =>
              .perform fun _ => trivial
      | _ => exact served
  | optimisticResolver =>
      dsimp only
      refine .of_callsOnly ?_ served
      cases log.event with
      | proposed a =>
          refine orderly_unchanged (orderly_ofResolution fun found => ?_)
          exact .bind (.perform fun _ => trivial) fun _ => orderly_announceResolution _ _
      | disputed a => exact orderly_unchanged (orderly_ofResolution fun _ => orderly_amended _ _)
      | finalized a => exact orderly_unchanged (orderly_ofResolution fun _ => orderly_amended _ _)
      | arbitrated a => exact orderly_unchanged (orderly_ofResolution fun _ => orderly_amended _ _)
      | slashed a =>
          exact orderly_unchanged (orderly_ofResolution fun _ => .perform fun _ => trivial)
      | proposalAbandoned market marketId =>
          exact orderly_unchanged (orderly_ofResolution fun _ => orderly_amended _ _)
      | disputeReset market marketId =>
          exact orderly_unchanged (orderly_ofResolution fun _ => orderly_amended _ _)
      | _ => trivial
  | tradingBlocklist =>
      dsimp only
      refine .of_callsOnly ?_ served
      cases log.event with
      | banned a => exact orderly_unchanged (.perform fun _ => trivial)
      | unbanned account => exact orderly_unchanged (.perform fun _ => trivial)
      | _ => trivial

theorem commits_applyLogs {logs : List NormalizedLog} (commits : ∀ log ∈ logs, log.CommitsTo committed)
    (touched : List MarketKey) (served : db.ServesCommitted ext committed) :
    Commits ext committed (applyLogs ext logs touched) db := by
  induction logs generalizing touched db with
  | nil => exact served
  | cons log rest ih =>
      rw [applyLogs, Async.tryCatch_throw]
      refine .bind (commits_apply (commits log List.mem_cons_self) touched served) ?_
      exact fun touched db served =>
        ih (fun other member => commits other (List.mem_cons_of_mem log member)) touched served

/-- **A batch is in order.** -/
theorem commits_processBatch {logs : List NormalizedLog}
    (commits : ∀ log ∈ logs, log.CommitsTo committed) (served : db.ServesCommitted ext committed) :
    Commits ext committed (processBatch ext logs) db :=
  .bind (commits_applyLogs commits [] served) fun _ _ served =>
    .of_callsOnly (.forEach fun ref => orderly_refreshPrices logs ref) served

end EventProcessor

/-! ## Runs -/

/-- **What a run keeps.** -/
theorem CopyRun.keeps (run : CopyRun ext committed db later)
    (served : db.ServesCommitted ext committed) :
    later.ServesCommitted ext committed ∧ DraftsKept db later := by
  induction run with
  | refl => exact ⟨served, .refl _⟩
  | @batch middle later logs calls remaining earlier commits stopped ih =>
      obtain ⟨before, kept⟩ := ih
      obtain ⟨after, still⟩ : later.ServesCommitted ext committed ∧ DraftsKept middle later := by
        refine Guarded.preserves (fun db => db.ServesCommitted ext committed ∧ DraftsKept middle db)
          (EventProcessor.commits_processBatch commits before) stopped ?_ ⟨before, .refl _⟩
        intro call db answer record next inOrder answered holds
        obtain ⟨serves, keeps⟩ := Operated.keeps answered inOrder holds.1
        exact ⟨serves, holds.2.trans keeps⟩
      exact ⟨after, kept.trans still⟩
  | @drafted middle earlier dto ih =>
      obtain ⟨before, kept⟩ := ih
      have drafts : Drafts ext middle (AdminService.createDraft ext dto middle).2 :=
        .drafted (.refl middle) dto
      exact ⟨drafts.served before, kept.trans drafts.kept⟩

theorem servesCommitted_empty : Database.empty.ServesCommitted ext committed where
  drafts _ _ found := by cases found
  adopted _ _ _ found := by cases found
  markets _ _ found := by cases found

/-- A draft that was answered is there, under the hash that was answered. -/
theorem createDraft_stores {dto : CreateMetadataDraftDto} {created : CreatedDraft}
    (answered : (AdminService.createDraft ext dto db).1 = .ok created) :
    ext.keccak256 created.canonical = created.metadataHash ∧
      ∃ draft, (AdminService.createDraft ext dto db).2.drafts.find? created.metadataHash =
        some draft := by
  simp only [AdminService.createDraft, Database.commit] at answered ⊢
  split at answered
  · rename_i fits
    obtain rfl := Except.ok.inj answered
    rw [if_pos fits]
    exact ⟨rfl, _, (Table.find?_insertNew _ _ _ _).trans (if_pos rfl)⟩
  · cases answered

/-- **A market serves its creator's words.** From an empty database, whatever operators draft
between any two calls of the processor and wherever its batches stop: every draft lies under
its own hash, and belongs to a market of that hash once it is adopted; every row serves
nothing but copy that its market has committed to, texts of one copy and labels at their
places; a draft keeps its copy and its market ever after; and one that was answered stays,
under a hash that is its own and that of the text that was answered. -/
theorem copy_committed (run : CopyRun ext committed .empty db)
    (onward : CopyRun ext committed db later) :
    db.ServesCommitted ext committed ∧ DraftsKept db later ∧
      ∀ dto created final, (AdminService.createDraft ext dto db).1 = .ok created →
        CopyRun ext committed (AdminService.createDraft ext dto db).2 final →
          ext.keccak256 created.canonical = created.metadataHash ∧
            ∃ draft, final.drafts.find? created.metadataHash = some draft ∧
              ext.keccak256 (canonicalize draft.copy) = created.metadataHash := by
  have served := (run.keeps servesCommitted_empty).1
  refine ⟨served, (onward.keeps served).2, fun dto created final answered after => ?_⟩
  have stored := (Drafts.drafted (.refl db) dto).served served
  obtain ⟨own, draft, there⟩ := createDraft_stores answered
  obtain ⟨serves, kept⟩ := after.keeps stored
  obtain ⟨still, found, -, -⟩ := kept _ draft there
  exact ⟨own, still, found, serves.drafts _ still found⟩

/-! ## A computed run -/

namespace Sample

/-- The copy about the rain, as it is drafted. -/
def rainDto : CreateMetadataDraftDto where
  title := (rain yesNo).title
  description := some (rain yesNo).description
  resolutionRules := (rain yesNo).resolutionRules
  imageUrl := (rain yesNo).imageUrl
  outcomeLabels := yesNo
  categoryKey := (rain yesNo).categoryKey

/-- The database with the draft. -/
def rainDrafted : Database := (AdminService.createDraft hashing rainDto .empty).2

/-- The creation of its market. -/
def rainCreated : List NormalizedLog :=
  [log 0 (.marketCreated ⟨1, [], [], [], 2, 0, 9, 1, 1, 100, 100, [], rainHash⟩)]

/-- The database once the market is indexed. -/
def rainAdopted : Database :=
  (Async.stopped (respond outside) 400 (EventProcessor.processBatch hashing rainCreated)
    rainDrafted).2

end Sample

open Sample in
/-- The market serves the draft, and the draft belongs to it. -/
theorem copy_committed_rain :
    rainAdopted.ServesCommitted hashing (fun _ => rainHash) ∧
      (rainAdopted.markets.find? market).map (fun row => (row.title, row.copy.outcomeLabels)) =
        some ((rain yesNo).title, yesNo) ∧
      (rainAdopted.drafts.find? rainHash).map (·.marketRef) = some (some market) := by
  have operated : ∀ call db answer record later, Failing call db answer record later →
      Operated hashing call db answer record later :=
    fun _ db _ _ _ answered => ⟨db, .refl db, answered⟩
  have stopped := (Failing.reaches_stopped outside 400
    (EventProcessor.processBatch hashing rainCreated) rainDrafted).mono operated
  have commits : ∀ log ∈ rainCreated, log.CommitsTo fun _ => rainHash := by
    intro log listed
    rw [List.mem_singleton.mp listed]
    rfl
  have run : CopyRun hashing (fun _ => rainHash) .empty rainAdopted :=
    .batch (.drafted (.refl .empty) rainDto) commits stopped
  refine ⟨(copy_committed run (.refl _)).1, ?_, ?_⟩
  · decide +kernel
  · decide +kernel

end Numera
