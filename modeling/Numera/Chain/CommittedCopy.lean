import Numera.Chain.Refinement

/-! # The copy a market serves

`onMetadataPublished` adopts the published metadata into the market's row and its
outcome rows. The row then carries the metadata with one difference: labels
beyond the outcome count are dropped, and outcomes beyond the labels keep the
label they had (`Market.adopted`). What is served therefore hashes to the
commitment exactly when there is one label for each outcome, a collision of the
hash apart.
-/

namespace Numera

open Async (forEach Reaches)
open MetadataHash (metadataHashOf parseCanonical canonicalize)

/-- The copy a market's rows serve. -/
def Market.copy (row : Market) : CanonicalMetadata where
  title := row.title
  description := row.description
  resolutionRules := row.resolutionRules
  imageUrl := row.imageUrl
  outcomeLabels := row.outcomes.map (·.label)
  categoryKey := row.categoryKey

/-- The copy a market serves once it has adopted the metadata. -/
def Market.adopted (row : Market) (metadata : CanonicalMetadata) : CanonicalMetadata :=
  let labels := metadata.outcomeLabels.take row.outcomeCount
  { metadata with
    outcomeLabels := labels ++ row.copy.outcomeLabels.drop labels.length }

/-! ## A row for every outcome -/

/-- The databases the indexer works on: markets come from its own batches alone,
stopped anywhere, and drafts from its operators at any time. -/
inductive Indexed (ext : Externals) : Database → Prop where
  | unopened {db : Database} (none : db.markets = .empty) : Indexed ext db
  | passed {db later : Database} {logs : List NormalizedLog} {records : List Call}
      {remaining : Chain Unit} (earlier : Indexed ext db)
      (stopped : Reaches Failing (EventProcessor.processBatch ext logs) db records remaining later) :
      Indexed ext later
  | drafted {db : Database} (earlier : Indexed ext db) (metadataHash : JsString)
      (draft : MarketMetadataDraft) :
      Indexed ext { db with drafts := db.drafts.insertNew metadataHash draft }

/-- Every book holds as many stocks as its market has outcomes. -/
def Ledger.Shaped (ledger : Ledger) : Prop :=
  ∀ key book, ledger.books.find? key = some book → book.stock.length = book.outcomeCount

/-- A write that opens no book of another shape. -/
def Write.Shapes : Write → Prop
  | openBook _ book => book.stock.length = book.outcomeCount
  | _ => True

theorem shaped_apply {write : Write} {ledger : Ledger} (shapes : write.Shapes)
    (shaped : ledger.Shaped) : (write.apply ledger).Shaped := by
  have modified : ∀ (other : MarketKey) (change : Book → Book),
      (∀ book, (change book).outcomeCount = book.outcomeCount) →
      (∀ book, (change book).stock.length = book.stock.length) →
      ∀ key book, (ledger.books.modify other change).find? key = some book →
        book.stock.length = book.outcomeCount := by
    intro other change counts stocks key book found
    rw [Table.find?_modify] at found
    split at found
    · rename_i same
      subst same
      obtain ⟨old, present, rfl⟩ := Option.map_eq_some_iff.mp found
      rw [counts, stocks]
      exact shaped key old present
    · exact shaped key book found
  cases write with
  | openBook other created =>
      intro key book found
      simp only [Write.apply, Table.find?_insertNew] at found
      split at found
      · rename_i same
        subst same
        cases present : ledger.books.find? key with
        | none =>
            rw [present] at found
            cases found
            exact shapes
        | some old =>
            rw [present] at found
            cases found
            exact shaped key old present
      · exact shaped key book found
  | movePot other amount => exact modified other _ (fun _ => rfl) fun _ => rfl
  | setPot other amount => exact modified other _ (fun _ => rfl) fun _ => rfl
  | moveStock other index shares =>
      exact modified other _ (fun _ => rfl) fun book => List.length_modify _ _ _
  | trade _ _ => exact shaped
  | buy _ _ _ => exact shaped
  | sell _ _ _ => exact shaped
  | redeem _ _ _ => exact shaped

theorem shaped_replay {writes : List Write} {ledger : Ledger}
    (shapes : ∀ write ∈ writes, write.Shapes) (shaped : ledger.Shaped) :
    (ledgerJournal.replay writes ledger).Shaped :=
  ledgerJournal.replay_holds (fun write member _ before => shaped_apply (shapes write member) before)
    shaped

private theorem shapes_logWrites (book? : MarketKey → Option Book) (log : NormalizedLog) :
    ∀ write ∈ logWrites book? log, write.Shapes := by
  unfold logWrites engineWrites
  cases log.kind with
  | optimisticResolver => exact fun _ member => absurd member List.not_mem_nil
  | tradingBlocklist => exact fun _ member => absurd member List.not_mem_nil
  | lsLmsr =>
      cases log.event with
      | marketCreated a =>
          intro write member
          rw [List.mem_singleton.mp member]
          exact List.length_replicate
      | shorted a =>
          dsimp only
          intro write member
          split at member
          · cases member
          · -- A short trades, moves stocks and a pot, and adds to positions.
            simp only [shortWrites] at member
            split at member
            · cases member
            · cases write with
              | openBook key book => simp [legWrites] at member
              | _ => trivial
      | bought a => dsimp only; split <;> simp [Write.Shapes]
      | sold a => dsimp only; split <;> simp [Write.Shapes]
      | marketResolved marketId winner owed surplus => dsimp only; split <;> simp [Write.Shapes]
      | redeemed marketId account amount => dsimp only; split <;> simp [Write.Shapes]
      | seedRedeemed marketId creator amount =>
          dsimp only
          split
          · simp
          · split <;> simp [Write.Shapes]
      | _ => exact fun _ member => absurd member List.not_mem_nil

private theorem shapes_batchWrites (logs : List NormalizedLog) (ledger : Ledger) :
    ∀ write ∈ batchWrites logs ledger, write.Shapes := by
  induction logs generalizing ledger with
  | nil => exact fun _ member => nomatch member
  | cons log rest ih =>
      intro write member
      rcases List.mem_append.mp member with first | later
      · exact shapes_logWrites _ log write first
      · exact ih _ write later

/-- Wherever the indexer stands, every market has a row for each of its outcomes. -/
theorem Indexed.shaped {ext : Externals} {db : Database} (indexed : Indexed ext db) :
    db.ledger.Shaped := by
  induction indexed with
  | unopened none =>
      intro key book found
      simp [Database.ledger, none] at found
  | passed earlier stopped ih =>
      obtain ⟨performed, rest, split, reached, -, -⟩ := (keeps_processBatch _ _).reaches stopped
      have laterLedger : Database.ledger _ = ledgerJournal.replay performed _ := reached
      rw [laterLedger]
      refine shaped_replay (fun write member => ?_) ih
      exact shapes_batchWrites _ _ write (split ▸ List.mem_append_left rest member)
  | drafted earlier metadataHash draft ih => exact ih

theorem Indexed.outcomes_length {ext : Externals} {db : Database} (indexed : Indexed ext db)
    {key : MarketKey} {row : Market} (present : db.markets.find? key = some row) :
    row.outcomes.length = row.outcomeCount := by
  have shaped := indexed.shaped key row.book (by simp [Database.ledger, present])
  simpa [Market.book] using shaped

/-! ## Calls that returned -/

variable {ext : Externals} {db later final : Database} {records : List Call} {key : MarketKey}

private theorem returned_findMarket {row : Option Market}
    (path : Reaches Failing (await (.findMarket key)) db records (.done (.ok row)) later) :
    db.markets.find? key = row ∧ db = later := by
  obtain ⟨outside, -, rfl, rfl⟩ := returned_await path
  exact ⟨rfl, rfl⟩

private theorem returned_updateMarket {data : MarketUpdate}
    (path : Reaches Failing (await (.updateMarket key data)) db records (.done (.ok ())) later) :
    later.markets = db.markets.modify key data.apply := by
  obtain ⟨outside, -, -, rfl⟩ := returned_await path
  rfl

private theorem returned_updateOutcome {index : Nat} {data : OutcomeUpdate}
    (path : Reaches Failing (await (.updateOutcome key index data)) db records (.done (.ok ()))
      later) :
    later.markets = db.markets.modify key (Market.updateOutcome index data) := by
  obtain ⟨outside, -, -, rfl⟩ := returned_await path
  rfl

private theorem returned_ensureCategory {category : Option JsString}
    (path : Reaches Failing (EventProcessor.ensureCategory category) db records (.done (.ok ()))
      later) : later.markets = db.markets := by
  unfold EventProcessor.ensureCategory at path
  split at path
  · obtain ⟨outside, -, -, rfl⟩ := returned_await path
    rfl
  · cases path
    rfl

/-! ## The adopted copy -/

/-- A copy with labels written at their indices. -/
private def relabelled (labels : List (JsString × Nat)) (copy : CanonicalMetadata) :
    CanonicalMetadata :=
  { copy with
    outcomeLabels := labels.foldl (fun texts entry => texts.set entry.2 entry.1)
      copy.outcomeLabels }

/-- Writing labels one index after the other puts them over the labels there were. -/
private theorem foldl_set {α : Type} (labels : List α) (start : Nat) (old : List α)
    (fits : start + labels.length ≤ old.length) :
    (labels.zipIdx start).foldl (fun texts entry => texts.set entry.2 entry.1) old =
      old.take start ++ labels ++ old.drop (start + labels.length) := by
  induction labels generalizing start old with
  | nil => simp
  | cons label rest ih =>
      rw [List.length_cons] at fits
      have written : (old.set start label).take (start + 1) = old.take start ++ [label] := by
        rw [List.take_succ_eq_append_getElem (by rw [List.length_set]; omega), List.take_set,
          List.set_eq_of_length_le (List.length_take_le start old), List.getElem_set_self]
      have kept : (old.set start label).drop (start + 1 + rest.length) =
          old.drop (start + (rest.length + 1)) := by
        rw [List.drop_set_of_lt (by omega)]
        congr 1
        omega
      rw [List.zipIdx_cons, List.foldl_cons, ih (start + 1) _ (by rw [List.length_set]; omega),
        written, kept, List.length_cons]
      simp only [List.append_assoc, List.cons_append, List.nil_append]

private theorem copy_updateOutcome (row : Market) (index : Nat) (label : JsString) :
    (row.updateOutcome index { label := some label }).copy =
      relabelled [(label, index)] row.copy := by
  have written := map_modify Outcome.label (OutcomeUpdate.apply { label := some label })
    (fun _ => label) (fun _ => rfl) index row.outcomes
  rw [← List.set_eq_modify] at written
  simp only [Market.copy, Market.updateOutcome, relabelled, written, List.foldl_cons,
    List.foldl_nil]

/-- The loop over the labels writes each at its index of the market's copy. -/
private theorem copy_of_labels {labels : List (JsString × Nat)} {row : Market}
    (present : db.markets.find? key = some row)
    (path : Reaches Failing (forEach labels fun (label, index) =>
      await (.updateOutcome key index { label := some label })) db records (.done (.ok ())) final) :
    (final.markets.find? key).map Market.copy = some (relabelled labels row.copy) := by
  let holds (rest : List (JsString × Nat)) (state : Database) : Prop :=
    ∃ now, state.markets.find? key = some now ∧
      relabelled rest now.copy = relabelled labels row.copy
  have reached : holds [] final := by
    refine Reaches.forEach_returned (fun entry rest before records after kept round => ?_)
      ⟨row, present, rfl⟩ path
    obtain ⟨now, found, same⟩ := kept
    have written := returned_updateOutcome round
    refine ⟨now.updateOutcome entry.2 { label := some entry.1 }, by simp [written, found], ?_⟩
    rw [← same, copy_updateOutcome]
    rfl
  obtain ⟨now, found, same⟩ := reached
  rw [found, ← same]
  rfl

/-- **What adoption stores.** Once the handler has returned, the market's rows carry
the published metadata with its labels cut to the outcome count and written over
those there were. -/
theorem copy_of_onMetadataPublished {log : NormalizedLog} {a : MarketMetadataPublished}
    {market : Market} {metadata : CanonicalMetadata}
    (known : db.markets.find? (log.marketKey a.marketId) = some market)
    (rows : market.outcomes.length = market.outcomeCount)
    (parsed : parseCanonical ext.keccak256 a.metadata a.metadataHash = some metadata)
    (returned : Reaches Failing (EventProcessor.onMetadataPublished ext log a) db records
      (.done (.ok ())) final) :
    (final.markets.find? (log.marketKey a.marketId)).map Market.copy =
      some (market.adopted metadata) := by
  obtain ⟨ref, _, _, _, -, findRef, path⟩ := Reaches.bind_returned returned
  obtain ⟨row, _, _, _, -, found, nothing⟩ := Reaches.bind_returned findRef
  obtain ⟨rfl, rfl⟩ := returned_findMarket found
  have named : db.markets.find? ⟨log.address.toLowerCase, a.marketId⟩ = some market := known
  rw [named] at nothing
  cases nothing
  simp only [parsed, Option.map_some] at path
  obtain ⟨_, categorised, _, _, -, category, path⟩ := Reaches.bind_returned path
  obtain ⟨_, _, _, _, -, update, path⟩ := Reaches.bind_returned path
  obtain ⟨reread, updated, _, _, -, read, path⟩ := Reaches.bind_returned path
  obtain ⟨_, _, _, _, -, relabel, invalidate⟩ := Reaches.bind_returned path
  have sameMarkets := returned_ensureCategory category
  have written := returned_updateMarket update
  obtain ⟨_, _, _, rfl⟩ := returned_await invalidate
  obtain ⟨_, _, rfl, rfl⟩ := returned_await read
  -- The row between the update and the labels.
  let row : Market := { market with
    title := metadata.title
    description := metadata.description
    resolutionRules := metadata.resolutionRules
    imageUrl := metadata.imageUrl
    categoryKey := metadata.categoryKey }
  have present : updated.markets.find? ⟨log.address.toLowerCase, a.marketId⟩ = some row := by
    rw [written, sameMarkets, Table.find?_modify, if_pos rfl, named]
    rfl
  simp only [Call.answer, present] at relabel
  have stored : (final.markets.find? (log.marketKey a.marketId)).map Market.copy = _ :=
    copy_of_labels present relabel
  rw [stored]
  simp only [Option.map_some, Option.getD_some]
  have fits : 0 + (metadata.outcomeLabels.take market.outcomeCount).length ≤
      row.copy.outcomeLabels.length := by
    change _ ≤ (market.outcomes.map (·.label)).length
    rw [List.length_map, rows, List.length_take]
    omega
  rw [relabelled, foldl_set _ 0 _ fits]
  simp only [List.take_zero, List.nil_append, Nat.zero_add]
  rfl

/-! ## The served hash -/

/-- **Served copy re-hashes to the commitment when there is a label for each
outcome**, and only then unless the hash of what is served collides with the hash
of what was published. -/
theorem servedHash_iff {log : NormalizedLog} {a : MarketMetadataPublished} {market : Market}
    {metadata : CanonicalMetadata}
    (hexadecimal : ∀ text, (ext.keccak256 text).toLowerCase = ext.keccak256 text)
    (noCollision : metadataHashOf ext.keccak256 (market.adopted metadata) =
      metadataHashOf ext.keccak256 metadata →
        canonicalize (market.adopted metadata) = canonicalize metadata)
    (indexed : Indexed ext db)
    (known : db.markets.find? (log.marketKey a.marketId) = some market)
    (announced : a.metadataHash = market.metadataHash)
    (committed : ext.keccak256 a.metadata = market.metadataHash)
    (parsed : parseCanonical ext.keccak256 a.metadata a.metadataHash = some metadata)
    (returned : Reaches Failing (EventProcessor.onMetadataPublished ext log a) db records
      (.done (.ok ())) final) :
    (final.markets.find? (log.marketKey a.marketId)).map
        (fun row => metadataHashOf ext.keccak256 row.copy) = some market.metadataHash ↔
      metadata.outcomeLabels.length = market.outcomeCount := by
  have rows := indexed.outcomes_length known
  have stored := copy_of_onMetadataPublished known rows parsed returned
  have published : metadataHashOf ext.keccak256 metadata = market.metadataHash := by
    have accepted := MetadataHash.hash_of_parseCanonical parsed
    rw [announced, ← committed, hexadecimal] at accepted
    rw [← committed, ← accepted]
    exact (hexadecimal _).symm
  have served : (final.markets.find? (log.marketKey a.marketId)).map
      (fun row => metadataHashOf ext.keccak256 row.copy) =
        some (metadataHashOf ext.keccak256 (market.adopted metadata)) := by
    obtain ⟨row, found, copied⟩ := Option.map_eq_some_iff.mp stored
    rw [found, Option.map_some, copied]
  rw [served, Option.some_inj, ← published]
  constructor
  · intro hashes
    have same := MetadataHash.canonicalize_injective (noCollision hashes)
    have labels := congrArg (fun copy => copy.outcomeLabels.length) same
    simp only [Market.adopted, Market.copy, List.length_append, List.length_take,
      List.length_drop, List.length_map, rows] at labels
    omega
  · intro one
    have same : market.adopted metadata = metadata := by
      have taken : metadata.outcomeLabels.take market.outcomeCount = metadata.outcomeLabels :=
        List.take_of_length_le (by omega)
      have nothingLeft : (market.outcomes.map (·.label)).drop metadata.outcomeLabels.length = [] :=
        List.drop_of_length_le (by rw [List.length_map]; omega)
      simp only [Market.adopted, Market.copy, taken, nothingLeft, List.append_nil]
    rw [same]

namespace Sample

/-- The copy of a market about the rain, with some labels. -/
def rain (labels : List JsString) : CanonicalMetadata :=
  ⟨JsString.ascii "Rain", [], [], none, labels, none⟩

def yesNo : List JsString := [JsString.ascii "Yes", JsString.ascii "No"]

def rainHash : JsString :=
  JsString.ascii "0x5f26e2995cd945470b3b00a9d782afe9781488b29e6ce59fe90f2095e0ad5213"

def blankHash : JsString :=
  JsString.ascii "0x170de656563262567452b79d01b98cced8a2a3c3aa2b62629125aa716a0b277f"

/-- `keccak256` at the encodings of the copy with two labels and with a blank third. -/
def hashing : Externals where
  chainReady := false
  hexToString _ := some []
  keccak256 text :=
    if text = canonicalize (rain yesNo) then rainHash
    else if text = canonicalize (rain (yesNo ++ [[]])) then blankHash
    else zeroAddress

theorem hashing_hexadecimal (text : JsString) :
    (hashing.keccak256 text).toLowerCase = hashing.keccak256 text := by
  have rainLower : rainHash.toLowerCase = rainHash := by decide
  have blankLower : blankHash.toLowerCase = blankHash := by decide
  have zeroLower : zeroAddress.toLowerCase = zeroAddress := by decide
  simp only [hashing]
  split
  · exact rainLower
  · split
    · exact blankLower
    · exact zeroLower

/-- The database after the creation of a market about the rain. -/
def announced (outcomeCount : Nat) : Database :=
  (Async.stopped (respond outside) 400 (EventProcessor.processBatch hashing
    [log 0 (.marketCreated ⟨1, [], [], [], outcomeCount, 0, 9, 1, 1, 100, 100, [], rainHash⟩)])
    .empty).2

theorem indexed_announced (outcomeCount : Nat) : Indexed hashing (announced outcomeCount) :=
  .passed (.unopened rfl) (Failing.reaches_stopped outside 400 _ .empty)

/-- The publication of its copy, with two labels. -/
def published : MarketMetadataPublished := ⟨1, rainHash, canonicalize (rain yesNo)⟩

/-- The database once the copy has been adopted. -/
def adopted (outcomeCount : Nat) : Database :=
  (Async.stopped (respond outside) 400
    (EventProcessor.onMetadataPublished hashing (log 1 (.marketMetadataPublished published))
      published) (announced outcomeCount)).2

theorem reaches_adopted (outcomeCount : Nat)
    (returned : (Async.stopped (respond outside) 400
      (EventProcessor.onMetadataPublished hashing (log 1 (.marketMetadataPublished published))
        published) (announced outcomeCount)).1.outcome? = some (.ok ())) :
    ∃ records, Reaches Failing
      (EventProcessor.onMetadataPublished hashing (log 1 (.marketMetadataPublished published))
        published) (announced outcomeCount) records (.done (.ok ())) (adopted outcomeCount) := by
  have path := Failing.reaches_stopped outside 400
    (EventProcessor.onMetadataPublished hashing (log 1 (.marketMetadataPublished published))
      published) (announced outcomeCount)
  rw [Async.eq_done_of_outcome? returned] at path
  exact ⟨_, path⟩

end Sample

open Sample in
/-- A market of two outcomes serves its two labels under the hash it committed to. -/
theorem servedHash_of_twoOutcomes :
    ((adopted 2).markets.find? Sample.market).map
      (fun row => metadataHashOf hashing.keccak256 row.copy) = some rainHash := by
  have columns : ((announced 2).markets.find? Sample.market).map
      (fun row => (row.metadataHash, row.outcomeCount, row.copy.outcomeLabels)) =
        some (rainHash, 2, [[], []]) := by decide +kernel
  obtain ⟨market, present, columns⟩ := Option.map_eq_some_iff.mp columns
  rw [Prod.mk.injEq, Prod.mk.injEq] at columns
  obtain ⟨hash, count, labels⟩ := columns
  have noCollision : metadataHashOf hashing.keccak256 (market.adopted (rain yesNo)) =
      metadataHashOf hashing.keccak256 (rain yesNo) →
        canonicalize (market.adopted (rain yesNo)) = canonicalize (rain yesNo) := by
    intro _
    have same : market.adopted (rain yesNo) = rain yesNo := by
      simp only [Market.adopted, count, labels]
      decide
    rw [same]
  obtain ⟨records, returned⟩ := reaches_adopted 2 (by decide +kernel)
  have found : (announced 2).markets.find?
      ((log 1 (.marketMetadataPublished published)).marketKey published.marketId) =
        some market := present
  have committed : hashing.keccak256 published.metadata = market.metadataHash := by
    rw [hash]
    decide +kernel
  have served := (servedHash_iff hashing_hexadecimal noCollision (indexed_announced 2) found
    hash.symm committed (by decide +kernel) returned).mpr count.symm
  rw [hash] at served
  exact served

open Sample in
/-- **A market of three outcomes with two labels is served under another hash.** The
third outcome keeps its blank label, which is not part of what was published. -/
theorem blankLabel_changes_servedHash :
    Indexed hashing (announced 3) ∧
      ((announced 3).markets.find? Sample.market).map Market.metadataHash = some rainHash ∧
      hashing.keccak256 published.metadata = rainHash ∧
      (∃ records, Reaches Failing
        (EventProcessor.onMetadataPublished hashing (log 1 (.marketMetadataPublished published))
          published) (announced 3) records (.done (.ok ())) (adopted 3)) ∧
      ((adopted 3).markets.find? Sample.market).map
        (fun row => metadataHashOf hashing.keccak256 row.copy) = some blankHash ∧
      blankHash ≠ rainHash := by
  refine ⟨indexed_announced 3, by decide +kernel, by decide +kernel, ?_, by decide +kernel,
    by decide⟩
  exact reaches_adopted 3 (by decide +kernel)

end Numera
