import Numera.Chain.Calls

/-! # The register

What the indexer mirrors of the settlements: for every market its verdict, for
every position whether it is redeemed, and the resolution rows. `Database.register`
reads it off the database, and the handlers change it by the entries of `Entry`.
`logEntries` lists those of one log, and every handler makes the entries of its
log and no others (`register_of_processed`, in the next module).
-/

namespace Numera

/-- The register's part of a market row. -/
structure Verdict where
  outcomeCount : Nat
  status : MarketStatus
  winningOutcomeId : Option Nat
  deriving DecidableEq

structure Register where
  verdicts : Table MarketKey Verdict
  redeemed : Table PositionKey Bool
  resolutions : Table MarketKey ResolutionProposal

def Market.verdict (row : Market) : Verdict := ⟨row.outcomeCount, row.status, row.winningOutcomeId⟩

/-- The register a database holds. -/
def Database.register (db : Database) : Register :=
  ⟨db.markets.map Market.verdict, db.positions.map Position.redeemed, db.resolutions⟩

/-- A change of the register. -/
inductive Entry where
  | enter (key : MarketKey) (outcomeCount : Nat)
  | settle (key : MarketKey) (status : MarketStatus) (winningOutcomeId : Option Nat)
  | hold (key : PositionKey)
  | redeem (key : MarketKey) (account : JsString)
  | propose (key : MarketKey) (row : ResolutionProposal)
  | amend (key : MarketKey) (data : ResolutionUpdate)

/-- The register after an entry. A settlement without a winner leaves the one there
is. -/
def Entry.apply : Entry → Register → Register
  | enter key outcomeCount, register =>
      { register with verdicts := register.verdicts.insertNew key ⟨outcomeCount, .trading, none⟩ }
  | settle key status winningOutcomeId, register =>
      { register with verdicts := register.verdicts.modify key fun verdict =>
        { verdict with
          status := status
          winningOutcomeId := winningOutcomeId.or verdict.winningOutcomeId } }
  | hold key, register => { register with redeemed := register.redeemed.insertNew key false }
  | redeem key account, register =>
      { register with redeemed :=
        register.redeemed.modifyWhere (Database.isHeldBy key account) fun _ => true }
  | propose key row, register =>
      { register with resolutions := register.resolutions.upsert key row fun _ => row }
  | amend key data, register =>
      { register with resolutions := register.resolutions.modify key data.apply }

/-! ## The entries of a log -/

/-- The row a proposal leaves, whatever was there before. -/
def proposedRow (log : NormalizedLog) (a : Proposed) (ref : Option MarketKey) :
    ResolutionProposal where
  marketRef := ref
  phase := .proposed
  proposer := some a.proposer.toLowerCase
  proposedOutcome := outcomeOrVoid a.outcome
  proposerBonded := a.bonded
  proposerBond := a.bond
  disputeDeadline := some (.ofSeconds a.disputeDeadline)
  disputer := none
  counterOutcome := none
  disputerBond := 0
  arbitrationDeadline := none
  route := none
  settledOutcome := none
  reward := 0
  forfeited := 0
  loser := none
  settledAt := none
  proposedTx := some log.txHash
  settledTx := none

def disputedUpdate (a : Disputed) : ResolutionUpdate where
  phase := some .disputed
  disputer := some (some a.disputer.toLowerCase)
  counterOutcome := some (outcomeOrVoid a.counterOutcome)
  disputerBond := some a.bond
  arbitrationDeadline := some (some (.ofSeconds a.arbitrationDeadline))

def finalizedUpdate (log : NormalizedLog) (a : Finalized) : ResolutionUpdate where
  phase := some .settled
  route := some (some .finalized)
  settledOutcome := some (outcomeOrVoid a.outcome)
  reward := some a.reward
  settledAt := some (some log.timestamp)
  settledTx := some (some log.txHash)

def arbitratedUpdate (a : Arbitrated) : ResolutionUpdate where
  phase := some .settled
  route := some (some .arbitrated)
  settledOutcome := some (outcomeOrVoid a.outcome)
  reward := some a.reward
  forfeited := some a.forfeited
  loser := some (unlessZero a.loser.toLowerCase)

def slashedUpdate (log : NormalizedLog) (a : Slashed) : ResolutionUpdate where
  loser := some (some a.account.toLowerCase)
  forfeited := some a.amount
  settledAt := some (some log.timestamp)
  settledTx := some (some log.txHash)

def clearedUpdate : ResolutionUpdate where
  phase := some .none
  proposer := some none
  proposedOutcome := some none
  proposerBonded := some false
  proposerBond := some 0
  disputeDeadline := some none
  disputer := some none
  counterOutcome := some none
  disputerBond := some 0
  arbitrationDeadline := some none

/-- The market a resolution log is about: its `market` argument is the engine. -/
def engineKey (market : JsString) (marketId : Nat) : MarketKey := ⟨market.toLowerCase, marketId⟩

/-- The entries of an engine event, on a market whose verdict is given if it exists. -/
def engineEntries (verdict? : MarketKey → Option Verdict) (log : NormalizedLog) : List Entry :=
  match log.event with
  | .marketCreated a => [.enter (log.marketKey a.marketId) a.outcomeCount]
  | .bought a | .sold a =>
      match verdict? (log.marketKey a.marketId) with
      | none => []
      | some _ => [.hold ⟨log.marketKey a.marketId, a.account.toLowerCase, a.outcomeId⟩]
  | .shorted a =>
      match verdict? (log.marketKey a.marketId) with
      | none => []
      | some verdict =>
          (EventProcessor.legs verdict.outcomeCount a.outcomeId).map fun leg =>
            .hold ⟨log.marketKey a.marketId, a.account.toLowerCase, leg⟩
  | .marketResolved marketId winningOutcomeId _ _ =>
      match verdict? (log.marketKey marketId) with
      | none => []
      | some _ => [.settle (log.marketKey marketId) .resolved (some winningOutcomeId)]
  | .marketInvalidated marketId _ =>
      match verdict? (log.marketKey marketId) with
      | none => []
      | some _ => [.settle (log.marketKey marketId) .invalid none]
  | .redeemed marketId account _ =>
      match verdict? (log.marketKey marketId) with
      | none => []
      | some _ => [.redeem (log.marketKey marketId) account.toLowerCase]
  | _ => []

/-- An event with one entry makes it, if its market exists. -/
theorem eq_of_mem_entries {verdict? : MarketKey → Option Verdict} {key : MarketKey}
    {entry made : Entry}
    (member : entry ∈ (match verdict? key with
      | none => []
      | some _ => [made])) : entry = made := by
  split at member
  · cases member
  · exact List.mem_singleton.mp member

/-- The entries of a resolver event. Only a proposal links its row to the market. -/
def resolverEntries (verdict? : MarketKey → Option Verdict) (log : NormalizedLog) : List Entry :=
  match log.event with
  | .proposed a =>
      let key := engineKey a.market a.marketId
      [.propose key (proposedRow log a ((verdict? key).map fun _ => key))]
  | .disputed a => [.amend (engineKey a.market a.marketId) (disputedUpdate a)]
  | .finalized a => [.amend (engineKey a.market a.marketId) (finalizedUpdate log a)]
  | .arbitrated a => [.amend (engineKey a.market a.marketId) (arbitratedUpdate a)]
  | .slashed a => [.amend (engineKey a.market a.marketId) (slashedUpdate log a)]
  | .proposalAbandoned market marketId | .disputeReset market marketId =>
      [.amend (engineKey market marketId) clearedUpdate]
  | _ => []

/-- The entries of a log. -/
def logEntries (verdict? : MarketKey → Option Verdict) (log : NormalizedLog) : List Entry :=
  match log.kind with
  | .lsLmsr => engineEntries verdict? log
  | .optimisticResolver => resolverEntries verdict? log
  | .tradingBlocklist => []

/-- The database seen as its register. -/
def registerJournal : Journal Database Call Register Entry where
  view := Database.register
  apply := Entry.apply
  quiet _ := False
  still _ _ := True

@[simp] theorem registerJournal_apply (entry : Entry) (register : Register) :
    registerJournal.apply entry register = entry.apply register := rfl

/-- The register after applying a batch of logs. -/
def Register.applyLogs (logs : List NormalizedLog) (register : Register) : Register :=
  registerJournal.after (fun seen => logEntries seen.verdicts.find?) logs register

end Numera
