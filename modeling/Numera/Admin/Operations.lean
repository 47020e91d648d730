import Numera.Chain.Resolutions
import Numera.Api.Views
import Numera.Relay.Settlement

/-! # The operations queue, and who calls a proposal finalizable

`AdminService.operationsQueue` lists what waits for an operator: closed markets nobody has
proposed on, disputes, and proposals whose window has closed. Whether a window has closed is
also decided by the market serializer and by the query of the settlement keeper, each in its
own way: the serializer and the queue read a missing deadline as the epoch, the keeper's
query leaves it out. They agree on every row the indexer writes, because a proposed row has
a deadline wherever its batches stop (`ResolverIndexed.dated`).
-/

namespace Numera

open Async (Reaches)

/-! ## The queue -/

/-- A row of the queue. The fields a market has only once it is indexed are optional. -/
structure QueueRow where
  id : Option MarketKey
  title : JsString
  address : JsString
  marketId : JsString
  closeTime : Option Date
  resolver : Option JsString
  outcomeCount : Option Nat
  pot : Option JsString
  phase : ResolutionPhase
  proposer : Option JsString
  proposedOutcome : Option Nat
  proposerBonded : Bool
  proposerBond : JsString
  disputer : Option JsString
  counterOutcome : Option Nat
  disputerBond : JsString
  disputeDeadline : Option Date
  arbitrationDeadline : Option Date

/-- A market nobody has proposed on. -/
structure QueueMarket where
  id : MarketKey
  title : JsString
  address : JsString
  marketId : JsString
  closeTime : Date
  resolver : JsString
  outcomeCount : Nat
  pot : JsString

structure OperationsQueue where
  awaitingProposal : List QueueMarket
  disputed : List QueueRow
  finalizable : List QueueRow

/-- `counts.awaitingProposal`, `counts.disputed` and `counts.finalizable`. -/
def OperationsQueue.counts (queue : OperationsQueue) : Nat × Nat × Nat :=
  (queue.awaitingProposal.length, queue.disputed.length, queue.finalizable.length)

namespace AdminService

def marketRow (key : MarketKey) (m : Market) : QueueMarket where
  id := key
  title := m.title
  address := key.address
  marketId := JsString.ofNat key.marketId
  closeTime := m.closeTime
  resolver := m.resolver
  outcomeCount := m.outcomeCount
  pot := toStr m.pot

/-- The row of a proposal, with the market its reference leads to. -/
def queueRow (key : MarketKey) (r : ResolutionProposal) (market : Option (MarketKey × Market)) :
    QueueRow :=
  let known := market.map fun m => marketRow m.1 m.2
  { id := known.map QueueMarket.id
    title := (known.map QueueMarket.title).getD (JsString.ascii "(market not yet indexed)")
    address := (known.map QueueMarket.address).getD key.address
    marketId := (known.map QueueMarket.marketId).getD (JsString.ofNat key.marketId)
    closeTime := known.map QueueMarket.closeTime
    resolver := known.map QueueMarket.resolver
    outcomeCount := known.map QueueMarket.outcomeCount
    pot := known.map QueueMarket.pot
    phase := r.phase
    proposer := r.proposer
    proposedOutcome := r.proposedOutcome
    proposerBonded := r.proposerBonded
    proposerBond := toStr r.proposerBond
    disputer := r.disputer
    counterOutcome := r.counterOutcome
    disputerBond := toStr r.disputerBond
    disputeDeadline := r.disputeDeadline
    arbitrationDeadline := r.arbitrationDeadline }

/-- The resolution row that refers to a market. -/
def resolutionOf (db : Database) (key : MarketKey) : Option ResolutionProposal :=
  (db.resolutions.rows.find? fun row => row.2.marketRef = some key).map Prod.snd

/-- The market a resolution row refers to. -/
def marketOf (db : Database) (r : ResolutionProposal) : Option (MarketKey × Market) :=
  r.marketRef.bind fun ref => (db.markets.find? ref).map fun market => (ref, market)

/-- The markets the first query asks for, as stored: closed and untouched. -/
def awaitingRows (db : Database) (now : Date) : List (MarketKey × Market) :=
  db.markets.rows.filter fun market =>
    decide (market.2.status = .trading ∧ market.2.closeTime.ms < now.ms) &&
      (resolutionOf db market.1).all fun r => r.phase = .none

/-- The rows the second query asks for, as stored. -/
def liveRows (db : Database) : List (MarketKey × ResolutionProposal) :=
  db.resolutions.rows.filter fun row => row.2.phase = .proposed ∨ row.2.phase = .disputed

/-- The queue of what the two queries answered with. -/
def queueOf (db : Database) (now : Date) (awaiting : List (MarketKey × Market))
    (live : List (MarketKey × ResolutionProposal)) : OperationsQueue :=
  let row (r : MarketKey × ResolutionProposal) := queueRow r.1 r.2 (marketOf db r.2)
  { awaitingProposal := awaiting.map fun m => marketRow m.1 m.2
    disputed := (live.filter fun r => r.2.phase = .disputed).map row
    finalizable := (live.filter fun r =>
      r.2.phase = .proposed ∧ (r.2.disputeDeadline.map Date.ms).getD 0 < now.ms).map row }

/-- Rows in the order of `disputeDeadline`, those without one last. -/
def Before (first second : MarketKey × ResolutionProposal) : Bool :=
  second.2.disputeDeadline.all fun later =>
    first.2.disputeDeadline.any fun earlier => earlier.ms ≤ later.ms

/-- What `operationsQueue` may answer: the oldest 100 markets and the oldest 200 rows, in
any order among those of one time. -/
def IsOperationsQueue (db : Database) (now : Date) (queue : OperationsQueue) : Prop :=
  ∃ (awaiting : List (MarketKey × Market)) (live : List (MarketKey × ResolutionProposal)),
    awaiting.Perm (awaitingRows db now) ∧
    awaiting.Pairwise (fun first second => first.2.closeTime.ms ≤ second.2.closeTime.ms) ∧
    live.Perm (liveRows db) ∧ live.Pairwise (fun first second => Before first second) ∧
    queue = queueOf db now (awaiting.take 100) (live.take 200)

end AdminService

/-- The queue has a row for a market under finalizable. -/
def OperationsQueue.ListsFinalizable (queue : OperationsQueue) (key : MarketKey) : Prop :=
  ∃ listed ∈ queue.finalizable,
    listed.address = key.address ∧ listed.marketId = JsString.ofNat key.marketId

/-! ## Proposed rows have a deadline -/

/-- The databases whose resolutions come from the indexer's batches alone, stopped
anywhere; the other tables may be written at any time. -/
inductive ResolverIndexed (ext : Externals) : Database → Prop where
  | unopened {db : Database} (none : db.resolutions = .empty) : ResolverIndexed ext db
  | passed {db later : Database} {logs : List NormalizedLog} {records : List Call}
      {remaining : Chain Unit} (earlier : ResolverIndexed ext db)
      (stopped : Reaches Failing (EventProcessor.processBatch ext logs) db records remaining later) :
      ResolverIndexed ext later
  | aside {db later : Database} (earlier : ResolverIndexed ext db)
      (same : later.resolutions = db.resolutions) : ResolverIndexed ext later

/-- A proposed row has a deadline, and a row refers to no other market than its own. -/
structure ResolutionProposal.Dated (key : MarketKey) (row : ResolutionProposal) : Prop where
  deadline : row.phase = .proposed → row.disputeDeadline.isSome
  own : ∀ ref ∈ row.marketRef, ref = key

def Register.Dated (register : Register) : Prop :=
  ∀ key row, register.resolutions.find? key = some row → row.Dated key

/-- An entry that writes dated rows only. -/
def Entry.Dates : Entry → Prop
  | propose key row => row.Dated key
  | amend key data => ∀ row : ResolutionProposal, row.Dated key → (data.apply row).Dated key
  | _ => True

theorem Entry.Dates.apply {entry : Entry} (dates : entry.Dates) {register : Register}
    (dated : register.Dated) : (entry.apply register).Dated := by
  cases entry with
  | propose other written =>
      intro key row found
      simp only [Entry.apply, Table.find?_upsert] at found
      split at found
      · rename_i same
        subst same
        have proposed : row = written := by
          cases held : register.resolutions.find? key <;> simp_all
        subst proposed
        exact dates
      · exact dated key row found
  | amend other data =>
      intro key row found
      simp only [Entry.apply, Table.find?_modify] at found
      split at found
      · rename_i same
        subst same
        obtain ⟨old, present, rfl⟩ := Option.map_eq_some_iff.mp found
        exact dates old (dated key old present)
      · exact dated key row found
  | enter _ _ => exact dated
  | settle _ _ _ => exact dated
  | hold _ => exact dated
  | redeem _ _ => exact dated

/-- An amendment that does not propose and takes a deadline away with the phase alone. -/
theorem dates_amend {key : MarketKey} {data : ResolutionUpdate}
    (standing : data.phase ≠ some .proposed)
    (erased : data.disputeDeadline = some none → data.phase.isSome) :
    (Entry.amend key data).Dates := by
  intro row dated
  refine ⟨fun proposed => ?_, dated.own⟩
  have unmoved : data.phase = none := by
    cases phase : data.phase with
    | none => rfl
    | some moved =>
        change data.phase.getD row.phase = .proposed at proposed
        rw [phase] at proposed
        cases proposed
        exact absurd phase standing
  change data.phase.getD row.phase = .proposed at proposed
  rw [unmoved] at proposed
  change (data.disputeDeadline.getD row.disputeDeadline).isSome
  cases written : data.disputeDeadline with
  | none => exact dated.deadline proposed
  | some deadline =>
      cases deadline with
      | none =>
          have moved := erased written
          rw [unmoved] at moved
          cases moved
      | some date => rfl

/-- **One handler.** The entries of a log write dated rows only: a proposal with its
deadline, every other event another phase or none. -/
theorem dates_logEntries (verdict? : MarketKey → Option Verdict) (log : NormalizedLog) :
    ∀ entry ∈ logEntries verdict? log, entry.Dates := by
  intro entry member
  unfold logEntries at member
  cases kind : log.kind with
  | tradingBlocklist =>
      rw [kind] at member
      exact absurd member List.not_mem_nil
  | optimisticResolver =>
      rw [kind] at member
      dsimp only [resolverEntries] at member
      split at member
      · rw [List.mem_singleton.mp member]
        refine ⟨fun _ => rfl, fun ref linked => ?_⟩
        obtain ⟨verdict, -, same⟩ := Option.map_eq_some_iff.mp linked
        exact same.symm
      all_goals first
        | exact absurd member List.not_mem_nil
        | rw [List.mem_singleton.mp member]
          exact dates_amend (by intro same; cases same) (by intro same; first | rfl | cases same)
  | lsLmsr =>
      rw [kind] at member
      dsimp only [engineEntries] at member
      split at member
      · rw [List.mem_singleton.mp member]
        trivial
      · rw [eq_of_mem_entries member]
        trivial
      · rw [eq_of_mem_entries member]
        trivial
      · split at member
        · exact absurd member List.not_mem_nil
        · obtain ⟨leg, -, rfl⟩ := List.mem_map.mp member
          trivial
      · rw [eq_of_mem_entries member]
        trivial
      · rw [eq_of_mem_entries member]
        trivial
      · rw [eq_of_mem_entries member]
        trivial
      · exact absurd member List.not_mem_nil

/-- **Every reachable row is dated.** -/
theorem ResolverIndexed.dated {ext : Externals} {db : Database} (indexed : ResolverIndexed ext db) :
    db.register.Dated := by
  induction indexed with
  | unopened none =>
      intro key row found
      simp [Database.register, none] at found
  | passed earlier stopped ih =>
      refine (registers_processBatch _ _).reaches_holds stopped (fun entry written seen dated => ?_)
        ih
      obtain ⟨log, -, before, member⟩ := registerJournal.mem_written written
      exact (dates_logEntries _ log entry member).apply dated
  | @aside db later earlier same ih =>
      intro key row found
      have before : db.resolutions.find? key = some row := by
        rw [← same]
        exact found
      exact ih key row before

/-! ## The three places -/

variable {ext : Externals} {db : Database} {key : MarketKey} {row : ResolutionProposal}

/-- The serializer and the queue ask the same of a row. -/
theorem finalizable_iff (now : Date) (r : ResolutionProposal) :
    (MarketSerializer.resolution now r).finalizable = true ↔
      r.phase = .proposed ∧ (r.disputeDeadline.map Date.ms).getD 0 < now.ms := by
  simp only [MarketSerializer.resolution, decide_eq_true_eq]

/-- The query of the keeper asks it of the rows that have a deadline. -/
theorem due_iff (now : Nat) (r : ResolutionProposal) :
    r.due now = true ↔
      r.disputeDeadline.isSome ∧ r.phase = .proposed ∧
        (r.disputeDeadline.map Date.ms).getD 0 < now := by
  cases deadline : r.disputeDeadline with
  | none => simp [ResolutionProposal.due, deadline]
  | some date => simp [ResolutionProposal.due, deadline]

/-- The keeper selects a stored row when it is due. -/
theorem mem_dueRows_iff (world : SettlementWorld)
    (present : world.resolutions.find? key = some row) :
    (key, row) ∈ world.dueRows ↔ row.due world.now = true := by
  unfold SettlementWorld.dueRows
  rw [List.mem_filter, and_iff_right ((Table.mem_rows_iff _ _ _).mpr present)]

theorem ofNat_injective {first second : Nat} (same : JsString.ofNat first = JsString.ofNat second) :
    first = second := by
  have read := JsString.numeral_ofNat first
  rw [same, JsString.numeral_ofNat] at read
  exact (Option.some.inj read).symm

variable (db) in
/-- A dated row is shown under its own address and market id, whether its market is
indexed or not. -/
theorem queueRow_named (dated : row.Dated key) :
    (AdminService.queueRow key row (AdminService.marketOf db row)).address = key.address ∧
      (AdminService.queueRow key row (AdminService.marketOf db row)).marketId =
        JsString.ofNat key.marketId := by
  cases found : AdminService.marketOf db row with
  | none => exact ⟨rfl, rfl⟩
  | some market =>
      obtain ⟨ref, linked, known⟩ := Option.bind_eq_some_iff.mp found
      obtain ⟨columns, -, rfl⟩ := Option.map_eq_some_iff.mp known
      have own := dated.own ref linked
      subst own
      exact ⟨rfl, rfl⟩

/-- What a queue lists as finalizable is a proposal whose window has closed. -/
theorem closed_of_listsFinalizable (dated : db.register.Dated)
    (present : db.resolutions.find? key = some row) {now : Date}
    {awaiting : List (MarketKey × Market)} {live : List (MarketKey × ResolutionProposal)}
    (stored : ∀ shown ∈ live, shown ∈ AdminService.liveRows db)
    (lists : (AdminService.queueOf db now awaiting live).ListsFinalizable key) :
    row.phase = .proposed ∧ (row.disputeDeadline.map Date.ms).getD 0 < now.ms := by
  obtain ⟨listed, member, address, marketId⟩ := lists
  obtain ⟨⟨other, shown⟩, filtered, rfl⟩ := List.mem_map.mp member
  obtain ⟨answered, closed⟩ := List.mem_filter.mp filtered
  have found : db.resolutions.find? other = some shown :=
    (Table.mem_rows_iff _ _ _).mp (List.mem_filter.mp (stored _ answered)).1
  -- The row that is listed under the market's name is the market's row.
  have named := queueRow_named db (dated other shown found)
  have same : other = key := by
    cases other
    cases key
    exact congrArg₂ MarketKey.mk (named.1.symm.trans address)
      (ofNat_injective (named.2.symm.trans marketId))
  subst same
  rw [present] at found
  cases found
  exact of_decide_eq_true closed

/-- A proposal whose window has closed is listed when the query answered with its row. -/
theorem listsFinalizable_of_mem (dated : db.register.Dated)
    (present : db.resolutions.find? key = some row) {now : Date}
    {awaiting : List (MarketKey × Market)} {live : List (MarketKey × ResolutionProposal)}
    (answered : (key, row) ∈ live) (proposed : row.phase = .proposed)
    (closed : (row.disputeDeadline.map Date.ms).getD 0 < now.ms) :
    (AdminService.queueOf db now awaiting live).ListsFinalizable key := by
  have named := queueRow_named db (dated key row present)
  refine ⟨_, List.mem_map.mpr ⟨(key, row), ?_, rfl⟩, named.1, named.2⟩
  exact List.mem_filter.mpr ⟨answered, decide_eq_true ⟨proposed, closed⟩⟩

theorem mem_liveRows (present : db.resolutions.find? key = some row)
    (proposed : row.phase = .proposed) : (key, row) ∈ AdminService.liveRows db :=
  List.mem_filter.mpr
    ⟨(Table.mem_rows_iff _ _ _).mpr present, decide_eq_true (.inl proposed)⟩

/-- **Within its limits.** A queue never lists a proposal early, and while at most 200
proposals are live it lists every one whose window has closed. -/
theorem isOperationsQueue_listsFinalizable (indexed : ResolverIndexed ext db)
    (present : db.resolutions.find? key = some row) {now : Date} {queue : OperationsQueue}
    (answer : AdminService.IsOperationsQueue db now queue) :
    (queue.ListsFinalizable key →
        (MarketSerializer.resolution now row).finalizable = true) ∧
      ((AdminService.liveRows db).length ≤ 200 →
        (MarketSerializer.resolution now row).finalizable = true →
          queue.ListsFinalizable key) := by
  obtain ⟨awaiting, live, -, -, rows, -, rfl⟩ := answer
  rw [finalizable_iff]
  constructor
  · refine closed_of_listsFinalizable indexed.dated present fun shown taken => ?_
    exact rows.mem_iff.mp (List.mem_of_mem_take taken)
  · rintro few ⟨proposed, closed⟩
    refine listsFinalizable_of_mem indexed.dated present ?_ proposed closed
    rw [List.take_of_length_le (rows.length_eq ▸ few)]
    exact rows.mem_iff.mpr (mem_liveRows present proposed)

/-- **Three places agree on what is finalizable.** Wherever the indexer stands, and at
every instant, the serializer reports a row finalizable when the keeper selects it and when
the queue lists it, their limits apart; a proposed row is disputable or finalizable and
not both, and any other row is neither. -/
theorem finalizable_agrees (indexed : ResolverIndexed ext db)
    (present : db.resolutions.find? key = some row) (now : Date) (world : SettlementWorld)
    (awaiting : List (MarketKey × Market)) {live : List (MarketKey × ResolutionProposal)}
    (answer : live.Perm (AdminService.liveRows db)) :
    let view := MarketSerializer.resolution now row
    let keeper : SettlementWorld := { world with now := now.ms, resolutions := db.resolutions }
    (view.finalizable = true ↔ (key, row) ∈ keeper.dueRows) ∧
      ((key, row) ∈ keeper.dueRows ↔
        (AdminService.queueOf db now awaiting live).ListsFinalizable key) ∧
      (row.phase = .proposed → view.disputable = !view.finalizable) ∧
      (row.phase ≠ .proposed → view.disputable = false ∧ view.finalizable = false) := by
  intro view keeper
  have dated := indexed.dated
  have selected : (key, row) ∈ keeper.dueRows ↔
      row.phase = .proposed ∧ (row.disputeDeadline.map Date.ms).getD 0 < now.ms := by
    rw [mem_dueRows_iff keeper present, due_iff]
    -- A missing deadline is the epoch in one place and excludes the row in the other.
    exact and_iff_right_of_imp fun closed => (dated key row present).deadline closed.1
  refine ⟨(finalizable_iff now row).trans selected.symm, ?_, ?_, ?_⟩
  · rw [selected]
    constructor
    · rintro ⟨proposed, closed⟩
      have answered := answer.mem_iff.mpr (mem_liveRows present proposed)
      exact listsFinalizable_of_mem dated present answered proposed closed
    · exact closed_of_listsFinalizable dated present fun shown listed => answer.mem_iff.mp listed
  · intro proposed
    simp only [view, MarketSerializer.resolution, proposed, true_and]
    rw [← decide_not, decide_eq_decide]
    exact Nat.not_lt.symm
  · intro other
    simp [view, MarketSerializer.resolution, other]

open Sample in
/-- Alice's proposal on market 1 is finalizable one millisecond after its window, for all
three of them. -/
theorem finalizable_agrees_proposal :
    let db := after [created 2, ruling 1 proposal] .empty
    let keeper : SettlementWorld := ⟨9001, db.resolutions, fun _ => none, fun _ => none, fun _ => none⟩
    ∃ row, db.resolutions.find? Sample.market = some row ∧
      (MarketSerializer.resolution ⟨9001⟩ row).finalizable = true ∧
      (Sample.market, row) ∈ keeper.dueRows ∧
      (AdminService.queueOf db ⟨9001⟩ [] (AdminService.liveRows db)).ListsFinalizable
        Sample.market := by
  intro db keeper
  have columns : (db.resolutions.find? Sample.market).map
      (fun row => (row.phase, row.disputeDeadline)) = some (.proposed, some ⟨9000⟩) := by
    decide +kernel
  obtain ⟨row, present, columns⟩ := Option.map_eq_some_iff.mp columns
  obtain ⟨proposed, deadline⟩ := Prod.mk.inj columns
  have indexed : ResolverIndexed externals db :=
    .passed (.unopened rfl) (Failing.reaches_stopped outside 400 _ .empty)
  have agrees := finalizable_agrees indexed present ⟨9001⟩ keeper [] (.refl _)
  have reported : (MarketSerializer.resolution ⟨9001⟩ row).finalizable = true := by
    rw [finalizable_iff, proposed, deadline]
    decide
  have selected := agrees.1.mp reported
  exact ⟨row, present, reported, selected, agrees.2.1.mp selected⟩

end Numera
