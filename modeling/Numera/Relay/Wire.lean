import Numera.Foundation.Decimal
import Numera.Pool.Indexer

/-! # What the relay sends and refuses

The bodies of the relaying requests as their validators pass them, the contract
calls they are turned into, and the errors a request ends with. A number of a body
is a string of decimal digits and stays one until `BigInt` reads it. A contract call
is kept as its function and arguments: `encodeFunctionData` writes each as different
bytes, or throws.
-/

namespace Numera

/-! ## Bodies -/

structure ForwardRequestDto where
  «from» : JsString
  «to» : JsString
  value : JsString
  gas : JsString
  deadline : Nat
  data : JsString
  signature : JsString
  deriving DecidableEq

structure PermitDto where
  owner : JsString
  value : JsString
  deadline : JsString
  v : Nat
  r : JsString
  s : JsString
  deriving DecidableEq

structure RelayRequestDto where
  request : ForwardRequestDto
  permit : Option PermitDto := none
  deriving DecidableEq

/-- A permit of its own, which names its token and its spender as well. -/
structure PermitRequestDto extends PermitDto where
  token : JsString
  spender : JsString
  deriving DecidableEq

structure WithdrawalDto where
  processooor : JsString
  data : JsString
  deriving DecidableEq

/-- A proof. The rows of `pB` are validated as little as their entries, and a row may have
any length. An entry that is not a string, a JSON number too, is `none`: `BigInt` is assumed
to throw on whatever is no string. -/
structure WithdrawProofDto where
  pA : List JsString
  pB : List (List (Option JsString))
  pC : List JsString
  pubSignals : List JsString
  deriving DecidableEq

/-- A withdrawal. The validators do not insist on either part. -/
structure PoolWithdrawDto where
  withdrawal : Option WithdrawalDto
  proof : Option WithdrawProofDto
  deriving DecidableEq

structure ShieldRequestDto where
  owner : JsString
  value : JsString
  precommitment : JsString
  deadline : JsString
  deriving DecidableEq

/-- The permit of a deposit. The validators let an empty array pass for one, which has no
deadline. -/
structure ShieldPermitDto where
  deadline : Option JsString
  v : Nat
  r : JsString
  s : JsString
  deriving DecidableEq

/-- A deposit. The validators do not insist on the request. -/
structure PoolShieldDto where
  request : Option ShieldRequestDto
  signature : JsString
  permit : Option ShieldPermitDto := none
  deriving DecidableEq

/-! ## Contract calls -/

/-- A signed request, with its numbers read. -/
structure ContractRequest where
  «from» : JsString
  «to» : JsString
  value : Int
  gas : Int
  deadline : Nat
  data : JsString
  signature : JsString
  deriving DecidableEq

structure WithdrawProof where
  pA : List Int
  pB : List (List Int)
  pC : List Int
  pubSignals : List Int
  deriving DecidableEq

structure ShieldRequest where
  owner : JsString
  value : Int
  precommitment : Int
  deadline : Int
  deriving DecidableEq

/-- A call of one of the contracts the relayer sends to. -/
inductive ContractCall where
  | execute (request : ContractRequest)
  | executeWithPermit (owner : JsString) (value deadline : Int) (v : Nat) (r s : JsString)
      (request : ContractRequest)
  | permit (owner spender : JsString) (value deadline : Int) (v : Nat) (r s : JsString)
  | updateRoot (root : Int)
  | relay (processooor data : JsString) (proof : WithdrawProof)
  | depositFor (request : ShieldRequest) (signature : JsString)
  | depositForWithPermit (request : ShieldRequest) (signature : JsString) (deadline : Int) (v : Nat)
      (r s : JsString)
  | finalize (market : JsString) (marketId : Nat)
  deriving DecidableEq

/-- A transaction of the relayer. -/
structure RelayTransaction where
  «to» : JsString
  data : ContractCall
  gas : Nat
  maxFeePerGas : Nat
  maxPriorityFeePerGas : Nat
  deriving DecidableEq

/-- What a transaction is billed at most, and on Monad exactly: the gas limit. -/
def RelayTransaction.cost (tx : RelayTransaction) : Nat := tx.gas * tx.maxFeePerGas

/-! ## Errors -/

inductive RelayRejectionCode where
  | invalid
  | rejected
  | rateLimited
  | unavailable
  deriving DecidableEq

inductive PoolRejectionKind where
  | unavailable
  | invalid
  | stale
  | rejected
  deriving DecidableEq

/-- The error of a call: its message, and the `data` of the error and of its causes,
outermost first. -/
structure CallError where
  message : JsString
  data : List (Option JsString)
  deriving DecidableEq

/-- What the language and the encoder throw. -/
inductive ThrownError where
  | typeError
  | syntaxError
  | encoding
  deriving DecidableEq

/-- What a request may throw: a refusal, the error of a call, or another error. -/
inductive RelayError where
  | relayRejected (code : RelayRejectionCode) (message : String)
  | poolRejected (kind : PoolRejectionKind) (message : String)
  | call (error : CallError)
  | thrown (error : ThrownError)
  deriving DecidableEq

namespace RelayError

/-- `text.includes(phrase)`. -/
def includes (phrase text : List Char) : Bool := text.tails.any phrase.isPrefixOf

/-- The message says that nothing was sent, or that nothing was spent. -/
def statesNothing (message : String) : Bool :=
  includes "othing was sent".toList message.toList ||
    includes "othing was spent".toList message.toList

/-- A refusal whose message says that nothing was sent or spent. -/
def saysNothingSent : RelayError → Bool
  | relayRejected _ message | poolRejected _ message => statesNothing message
  | _ => false

end RelayError

namespace CallError

/-- The revert data in the first eight errors of the chain. -/
def revertData (error : CallError) : Option JsString :=
  (error.data.take 8).findSome? fun data =>
    data.filter fun text => (JsString.ascii "0x").isPrefixOf text && 10 ≤ text.length

/-- `REVERT_REASONS`, by what they tell the sender. -/
def revertReasons : List (String × String) :=
  [("0x71c4efed", "The price moved past your limit before this landed."),
    ("0x38fcec43", "That is below the minimum size for this market."),
    ("0xfb8f41b2", "This account has not approved enough to cover it."),
    ("0xe450d38c", "This market account does not hold enough to cover it."),
    ("0x5bd17307", "Somebody has already proposed a result here. You can dispute it instead."),
    ("0x290e4209", "This proposal can no longer be disputed. The window has closed, or somebody already did."),
    ("0x2ec1bf71", "A dispute has to name a different outcome from the one proposed."),
    ("0x966a32f7", "This market is still open for trading, so it cannot be resolved yet."),
    ("0x9dc30b8e", "Trading has closed on this market."),
    ("0xdfd92da0", "This market has already been settled."),
    ("0xf5ccd95e", "This account is barred from trading."),
    ("0xeac3a0ea", "That is not one of this market’s outcomes.")]

/-- `revertReason(err)?.user`. -/
def revertReason (error : CallError) : Option String := do
  let data ← error.revertData
  let selector : JsString := JsString.toLowerCase (data.take 10)
  (revertReasons.find? fun reason => JsString.ascii reason.1 = selector).map Prod.snd

/-- Did the node fail to answer, rather than the contract refusing? -/
def isTransportFailure (error : CallError) : Bool :=
  error.revertData.isNone &&
    ["rpc request failed", "http request failed", "timed out", "fetch failed", "socket",
        "econnreset"].any fun phrase =>
      error.message.toLowerCase.tails.any (JsString.ascii phrase).isPrefixOf

end CallError

/-! ## Numbers -/

namespace JsNumber

/-- `Number(value)` of a `bigint`: the nearest number of 53 binary digits, the even one
of two that are equally near. -/
def ofBigInt (value : Nat) : Nat :=
  if value < 2 ^ 53 then value
  else
    let unit := 2 ^ (value.log2 - 52)
    let below := value / unit
    let rest := value % unit
    if unit < 2 * rest ∨ (unit = 2 * rest ∧ below % 2 = 1) then (below + 1) * unit
    else below * unit

example : ofBigInt (2 ^ 53 + 3) = 2 ^ 53 + 4 := by decide +kernel

end JsNumber

end Numera
