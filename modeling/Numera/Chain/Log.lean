import Mathlib.Algebra.Group.Nat.Defs
import Numera.Foundation.Text

/-! # Chain logs

The decoded logs of the three indexed contracts, with the arguments their event
ABIs give them. Every unsigned integer of the ABI is a natural number, every
address and hash the hexadecimal string viem decodes it to.
-/

namespace Numera

/-- `WAD`, the fixed-point unit of prices and spreads. -/
def wad : Nat := 10 ^ 18

/-- A market's identity: the engine contract and its id there. A market row is
never deleted and these two columns are unique, so the pair also stands for the
row's generated `id`. -/
structure MarketKey where
  address : JsString
  marketId : Nat
  deriving DecidableEq

/-- The end of the year 9999, in milliseconds: the database client takes no later date. -/
def lastDate : Nat := 253402300799999

/-- A JavaScript `Date`, in milliseconds since the epoch. -/
structure Date where
  ms : Nat
  deriving DecidableEq

namespace Date

/-- `new Date(Number(seconds) * 1000)`. -/
def ofSeconds (seconds : Nat) : Date := ⟨seconds * 1000⟩

/-- A time value beyond 8.64e15 ms makes an Invalid Date. -/
def valid (date : Date) : Bool := date.ms ≤ 8640000000000000

/-- A date that a column can hold. -/
def storable (date : Date) : Bool := date.ms ≤ lastDate

/-- What a column can hold is no Invalid Date. -/
theorem valid_of_storable {date : Date} (storable : date.storable = true) : date.valid = true :=
  decide_eq_true ((of_decide_eq_true storable).trans (by decide))

end Date

inductive StreamKind where
  | lsLmsr
  | optimisticResolver
  | tradingBlocklist
  deriving DecidableEq

/-! ## Engine events -/

structure MarketCreated where
  marketId : Nat
  collateral : JsString
  creator : JsString
  resolver : JsString
  outcomeCount : Nat
  startTime : Nat
  closeTime : Nat
  alpha : Nat
  sStar : Nat
  seedPerOutcome : Nat
  seedCost : Nat
  category : JsString
  metadataHash : JsString
  deriving DecidableEq

structure MarketMetadataPublished where
  marketId : Nat
  metadataHash : JsString
  metadata : JsString
  deriving DecidableEq

/-- The arguments of `Bought`, `Shorted` and `Sold`. The amount is `cost` in the
first two and `proceeds` in the third. -/
structure TradeArgs where
  marketId : Nat
  account : JsString
  outcomeId : Nat
  shares : Nat
  amount : Nat
  spreadWad : Nat
  deriving DecidableEq

/-! ## Resolver events -/

structure Proposed where
  market : JsString
  marketId : Nat
  proposer : JsString
  outcome : Nat
  bond : Nat
  bonded : Bool
  disputeDeadline : Nat
  deriving DecidableEq

structure Disputed where
  market : JsString
  marketId : Nat
  disputer : JsString
  counterOutcome : Nat
  bond : Nat
  arbitrationDeadline : Nat
  deriving DecidableEq

structure Finalized where
  market : JsString
  marketId : Nat
  outcome : Nat
  reward : Nat
  deriving DecidableEq

structure Arbitrated where
  market : JsString
  marketId : Nat
  outcome : Nat
  loser : JsString
  forfeited : Nat
  reward : Nat
  deriving DecidableEq

structure Slashed where
  market : JsString
  marketId : Nat
  account : JsString
  amount : Nat
  deriving DecidableEq

/-- The arguments the ban list's `Banned` carries. -/
structure Banned where
  account : JsString
  context : JsString
  marketId : Nat
  «at» : Nat
  deriving DecidableEq

/-- A decoded event. Its constructor is the `eventName`; `other` is any event the
dispatch has no case for. -/
inductive Event where
  | marketCreated (args : MarketCreated)
  | marketMetadataPublished (args : MarketMetadataPublished)
  | bought (args : TradeArgs)
  | sold (args : TradeArgs)
  | shorted (args : TradeArgs)
  | marketResolved (marketId winningOutcomeId owed surplus : Nat)
  | marketInvalidated (marketId surplus : Nat)
  | redeemed (marketId : Nat) (account : JsString) (amount : Nat)
  | seedRedeemed (marketId : Nat) (creator : JsString) (amount : Nat)
  | proposed (args : Proposed)
  | disputed (args : Disputed)
  | finalized (args : Finalized)
  | arbitrated (args : Arbitrated)
  | slashed (args : Slashed)
  | proposalAbandoned (market : JsString) (marketId : Nat)
  | disputeReset (market : JsString) (marketId : Nat)
  | banned (args : Banned)
  | unbanned (account : JsString)
  | other (eventName : JsString) (marketId : Option Nat)
  deriving DecidableEq

/-- `args.marketId`, which the unban event does not have. -/
def Event.marketId? : Event → Option Nat
  | .marketCreated args => some args.marketId
  | .marketMetadataPublished args => some args.marketId
  | .bought args | .sold args | .shorted args => some args.marketId
  | .marketResolved marketId _ _ _ => some marketId
  | .marketInvalidated marketId _ => some marketId
  | .redeemed marketId _ _ | .seedRedeemed marketId _ _ => some marketId
  | .proposed args => some args.marketId
  | .disputed args => some args.marketId
  | .finalized args => some args.marketId
  | .arbitrated args => some args.marketId
  | .slashed args => some args.marketId
  | .proposalAbandoned _ marketId | .disputeReset _ marketId => some marketId
  | .banned args => some args.marketId
  | .unbanned _ => none
  | .other _ marketId => marketId

/-- A decoded log the indexer hands to the processor, already tagged and timed. -/
structure NormalizedLog where
  kind : StreamKind
  address : JsString
  event : Event
  blockNumber : Nat
  txHash : JsString
  logIndex : Nat
  timestamp : Date
  deriving DecidableEq

/-- The key of a market on the contract that emitted the log. -/
def NormalizedLog.marketKey (log : NormalizedLog) (marketId : Nat) : MarketKey :=
  ⟨log.address.toLowerCase, marketId⟩

/-- A log that the engine emits about the market. -/
def NormalizedLog.concerns (market : MarketKey) (log : NormalizedLog) : Prop :=
  log.kind = .lsLmsr ∧ log.event.marketId?.map log.marketKey = some market

instance (market : MarketKey) (log : NormalizedLog) : Decidable (log.concerns market) :=
  inferInstanceAs (Decidable (_ ∧ _))

/-- The event that creates a market. -/
def Event.isCreation : Event → Bool
  | .marketCreated _ => true
  | _ => false

end Numera
