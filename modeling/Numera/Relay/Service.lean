import Numera.Relay.Calls

/-! # The relaying services

`RelayService` sends what others have signed, and what the platform sends itself.
`PoolService` sends withdrawals and deposits of the shielded pool through it. A
request ends with the hash of its transaction, or with an error. What is only logged is
left out.
-/

namespace Numera

variable (lib : RelayLibraries) (cfg : RelayConfig)

/-! ## Promise chains -/

/-- The result of a job, whether it returns or throws. -/
def settled {α : Type} (fn : Relay α) : Relay (Except RelayError α) :=
  tryCatch (do
      let value ← fn
      return .ok value) fun thrown => return .error thrown

/-- `enqueue` and `exclusively`: the job runs when all jobs before it are through, and
the next one follows whether or not it throws. -/
def exclusively {α : Type} (chain : Chained) (fn : Relay α) : Relay α := do
  let place ← (RelayCall.join chain).request
  (RelayCall.turn chain place).request
  let result ← settled fn
  (RelayCall.leave chain).request
  Async.done result

/-! ## Numbers and encodings -/

/-- `BigInt(text)`. -/
def bigInt (text : JsString) : Except RelayError Int :=
  match JsString.parseBigInt text with
  | some value => .ok value
  | none => .error (.thrown .syntaxError)

/-- `BigInt` of what may be missing. -/
def bigIntOption : Option JsString → Except RelayError Int
  | some text => bigInt text
  | none => .error (.thrown .typeError)

def encodeFunctionData (data : ContractCall) : Except RelayError ContractCall :=
  if lib.encodes data then .ok data else .error (.thrown .encoding)

namespace RelayService

/-! ## Limits -/

def gweiWei : Nat := 1000000000

def spendKey : Relay RedisKey := do
  let now ← RelayCall.dateNow.request
  return .spend (now / 86400000)

def spentTodayWei : Relay Nat := do
  let key ← spendKey
  let spent ← (RelayCall.get key).request
  return spent.getD 0 * gweiWei

/-- Per-account request rate. -/
def enforceAccountRate (account : JsString) : Relay Unit := do
  let key := RedisKey.rate account.toLowerCase
  let count ← (RelayCall.incr key).request
  let _ ← (if count = 1 then (RelayCall.expire key cfg.accountWindowSeconds).request
    else return () : Relay Unit)
  if count > cfg.accountLimit then
    throw (.relayRejected .rateLimited
      "Too many trades from this account in a short time. Wait a moment and try again.")
  else return ()

/-- The daily ceiling. -/
def enforceDailyCap : Relay Unit := do
  let spent ← spentTodayWei
  if spent ≥ cfg.dailyCapWei then
    throw (.relayRejected .unavailable
      "Gasless trading is paused for today. Nothing was spent from your balance.")
  else return ()

def recordSpend (wei : Nat) : Relay Unit := do
  let key ← spendKey
  let _ ← (RelayCall.incrby key (JsNumber.ofBigInt (wei / gweiWei))).request
  (RelayCall.expire key 172800).request

/-! ## Sending -/

structure GasPolicy where
  limit : Nat
  maxFeePerGas : Nat
  maxPriorityFeePerGas : Nat

/-- The gas limit of an estimate: a bounded headroom on it. -/
def gasLimit (estimate : Nat) : Nat := estimate + min (estimate / 10) 200000

def gasFor (estimate : Nat) : Relay GasPolicy := do
  if gasLimit estimate > cfg.maxGas then
    throw (.relayRejected .unavailable
      "This operation is larger than the relayer is configured to sponsor. Nothing was spent.")
  else do
    let fees ← tryCatch (do
        let fees ← RelayCall.estimateFeesPerGas.request
        return some fees) fun _ => return none
    let maxFeePerGas := min ((fees.map FeesPerGas.maxFeePerGas).getD cfg.maxFeePerGas) cfg.maxFeePerGas
    return {
      limit := gasLimit estimate
      maxFeePerGas
      maxPriorityFeePerGas :=
        min ((fees.map FeesPerGas.maxPriorityFeePerGas).getD 1000000000) maxFeePerGas }

/-- Simulate a call and estimate its gas, with what is thrown when either fails. -/
def simulate («to» : JsString) (data : ContractCall) (refusal : RelayError → RelayError) :
    Relay Nat :=
  tryCatch (do
      (RelayCall.call «to» data).request
      (RelayCall.estimateGas «to» data).request) fun error => throw (refusal error)

/-- Broadcast a call with the gas it was estimated at, and charge it against the cap. -/
def sendTransaction («to» : JsString) (data : ContractCall) (gas : Nat) : Relay Nat := do
  let policy ← gasFor cfg gas
  let hash ← (RelayCall.sendTransaction {
    «to»
    data
    gas := policy.limit
    maxFeePerGas := policy.maxFeePerGas
    maxPriorityFeePerGas := policy.maxPriorityFeePerGas }).request
  recordSpend (policy.limit * policy.maxFeePerGas)
  return hash

/-- The error of a failed call; nothing else is thrown by one. -/
def callError : RelayError → CallError
  | .call error => error
  | _ => ⟨[], []⟩

def noAnswer : String :=
  "The network did not answer, so this could not be submitted. Nothing was sent and nothing was spent — try again in a moment."

/-- What `sendFromRelayer` throws when a simulation fails. -/
def relayerRefusal (error : RelayError) : RelayError :=
  if (callError error).isTransportFailure then .relayRejected .unavailable noAnswer
  else .relayRejected .rejected ((callError error).revertReason.getD
    "The contract rejected this call. Nothing was sent and nothing was spent.")

/-- What `simulateAndSend` throws when a simulation fails. -/
def requestRefusal (error : RelayError) : RelayError :=
  if (callError error).isTransportFailure then .relayRejected .unavailable noAnswer
  else .relayRejected .rejected (match (callError error).revertReason with
    | some reason => reason ++ " Nothing was sent and nothing was spent."
    | none => "The contract rejected this request. Nothing was sent and nothing was spent.")

/-- What `submitPermit` throws when a simulation fails. -/
def permitRefusal (_ : RelayError) : RelayError :=
  .relayRejected .rejected
    "That approval could not be applied. Nothing was sent and nothing was spent."

/-- Send a call the platform is making on its own behalf. -/
def sendFromRelayer («to» : JsString) (data : ContractCall) : Relay Nat := do
  let wiring ← RelayCall.wiring.request
  if !(cfg.enabled && wiring.connected) then
    throw (.relayRejected .unavailable "The relay is not available. Nothing was sent.")
  else do
    enforceDailyCap cfg
    exclusively .queue do
      let gas ← simulate «to» data relayerRefusal
      sendTransaction cfg «to» data gas

/-- The receipt of a transaction, unless it does not come in time. -/
def receiptFor (hash : Nat) : Relay (Option ReceiptStatus) :=
  tryCatch (do
      let status ← (RelayCall.waitForTransactionReceipt hash).request
      return some status) fun _ => return none

/-! ## Signed requests -/

def toContractRequest (payload : RelayRequestDto) : Except RelayError ContractRequest := do
  let value ← bigInt payload.request.value
  let gas ← bigInt payload.request.gas
  return {
    «from» := payload.request.from
    «to» := payload.request.to
    value
    gas
    deadline := payload.request.deadline
    data := payload.request.data
    signature := payload.request.signature }

/-- The call of a forwarder for a request, with its permit if it has one. -/
def forwarded (payload : RelayRequestDto) (request : ContractRequest) :
    Except RelayError ContractCall := do
  match payload.permit with
  | none => encodeFunctionData lib (.execute request)
  | some permit => do
      let value ← bigInt permit.value
      let deadline ← bigInt permit.deadline
      encodeFunctionData lib
        (.executeWithPermit permit.owner value deadline permit.v permit.r permit.s request)

def simulateAndSend (payload : RelayRequestDto) (request : ContractRequest)
    (forwarder : JsString) : Relay Nat := do
  let data ← Async.done (forwarded lib payload request)
  let gas ← simulate forwarder data requestRefusal
  sendTransaction cfg forwarder data gas

/-- What one of the two entry points admits and how it refuses the rest. -/
structure RequestRules where
  destination : Option JsString
  selectors : List JsString
  forwarder : JsString
  wrongDestination : String
  carriesValue : String
  wrongSelector : String
  foreignPermit : String
  notVerified : String

/-- The free checks on a request: why it is refused, if it is. -/
def RequestRules.refusal (rules : RequestRules) (destination : JsString)
    (payload : RelayRequestDto) (request : ContractRequest) : Option String :=
  if request.to.toLowerCase ≠ destination.toLowerCase then some rules.wrongDestination
  else if request.value ≠ 0 then some rules.carriesValue
  else if request.gas > cfg.maxGas then
    some "This request asks for more gas than the relayer allows."
  else if request.data.length < 10 ∨
      JsString.toLowerCase (request.data.take 10) ∉ rules.selectors then
    some rules.wrongSelector
  else if payload.permit.any fun permit =>
      permit.owner.toLowerCase ≠ request.from.toLowerCase then
    some rules.foreignPermit
  else none

/-- Validate, simulate and submit one signed request: the free checks, the caps, the
forwarder's own verifier, and then the simulation and the transaction. -/
def submitRequest (rules : RequestRules) (payload : RelayRequestDto) : Relay Nat := do
  let request ← Async.done (toContractRequest payload)
  match rules.destination with
  | none => throw (.thrown .typeError)
  | some destination =>
      match rules.refusal cfg destination payload request with
      | some message => throw (.relayRejected .invalid message)
      | none => do
          enforceAccountRate cfg request.from
          enforceDailyCap cfg
          let valid ← tryCatch (RelayCall.verifyRelayable rules.forwarder request).request
            fun _ => return false
          if !valid then throw (.relayRejected .invalid rules.notVerified)
          else exclusively .queue (simulateAndSend lib cfg payload request rules.forwarder)

/-- `RELAYABLE_SIGNATURES`. -/
def relayableSignatures : List String :=
  ["buy(uint256,uint256,uint256,uint256)", "buyComplement(uint256,uint256,uint256,uint256)",
    "sell(uint256,uint256,uint256,uint256)", "sellComplement(uint256,uint256,uint256,uint256)",
    "redeem(uint256)"]

/-- `RESOLUTION_SIGNATURES`. -/
def resolutionSignatures : List String :=
  ["propose(address,uint256,uint256)", "dispute(address,uint256,uint256)"]

def selectorsOf (signatures : List String) : List JsString :=
  signatures.map fun signature => lib.toFunctionSelector (JsString.ascii ("function " ++ signature))

/-- The rules for trades. -/
def tradingRules (wiring : Wiring) : RequestRules where
  destination := wiring.engine
  selectors := selectorsOf lib relayableSignatures
  forwarder := cfg.forwarder
  wrongDestination := "This relayer only submits trades to the Numera engine."
  carriesValue := "Relayed trades never carry native value."
  wrongSelector := "Only buy, sell and redeem can be relayed."
  foreignPermit := "A relayed approval must belong to the trading account."
  notVerified := "This trade could not be verified. It may have expired, or already been submitted."

/-- The rules for proposals and disputes. -/
def resolutionRules (resolver : JsString) : RequestRules where
  destination := some resolver
  selectors := selectorsOf lib resolutionSignatures
  forwarder := cfg.resolutionForwarder
  wrongDestination := "This relayer only submits resolutions to the Numera resolver."
  carriesValue := "Relayed resolutions never carry native value."
  wrongSelector := "Only proposing and disputing can be relayed here."
  foreignPermit := "A relayed approval must belong to the proposing account."
  notVerified :=
    "This request could not be verified. It may have expired, or already been submitted."

/-- Submit a signed trade. -/
def submit (payload : RelayRequestDto) : Relay Nat := do
  let wiring ← RelayCall.wiring.request
  if !(cfg.enabled && wiring.connected) then
    throw (.relayRejected .unavailable "Gasless trading is not available.")
  else submitRequest lib cfg (tradingRules lib cfg wiring) payload

/-- Sponsor a signed proposal or dispute. -/
def submitResolution (payload : RelayRequestDto) : Relay Nat := do
  let wiring ← RelayCall.wiring.request
  if !(cfg.enabled && wiring.connected) then
    throw (.relayRejected .unavailable "Gasless actions are not available.")
  else
    match wiring.resolver with
    | none => throw (.relayRejected .unavailable "Sponsored resolution is not available.")
    | some resolver => submitRequest lib cfg (resolutionRules lib cfg resolver) payload

/-- The call of a token for a permit. -/
def permitCall (permit : PermitRequestDto) : Except RelayError ContractCall := do
  let value ← bigInt permit.value
  let deadline ← bigInt permit.deadline
  encodeFunctionData lib
    (.permit permit.owner permit.spender value deadline permit.v permit.r permit.s)

/-- Submit a standalone approval. The token is not looked at. -/
def submitPermit (permit : PermitRequestDto) : Relay Nat := do
  let wiring ← RelayCall.wiring.request
  if !(cfg.enabled && wiring.connected) then
    throw (.relayRejected .unavailable "Gasless trading is not available.")
  else if permit.spender.toLowerCase ∉ wiring.permitSpenders then
    throw (.relayRejected .invalid "This relayer only approves the Numera engine and Permit2.")
  else do
    enforceAccountRate cfg permit.owner
    enforceDailyCap cfg
    let data ← Async.done (permitCall lib permit)
    exclusively .queue do
      let gas ← simulate permit.token data permitRefusal
      sendTransaction cfg permit.token data gas

end RelayService

namespace PoolService

/-! ## Withdrawals -/

/-- The association-set roots of the leaves in order, the last 32 of them. -/
def aspRootHistory (rows : List PoolLeaf) : Except RelayError (List Int) := do
  let labels ← (rows.filter fun row => row.kind = .deposit).filterMap PoolLeaf.label |>.mapM bigInt
  let roots := labels.inits.tail.map lib.imtRoot
  return roots.drop (roots.length - 32)

/-- Where the association root stands among the public signals. -/
def aspRootSignal : Nat := 5

/-- Make the entrypoint's association root the given one, unless it is already. -/
def publishAspRoot (root : Int) : Relay Unit := do
  let current ← RelayCall.latestRoot.request
  if current = root then return
  else do
    let data ← Async.done (encodeFunctionData lib (.updateRoot root))
    let hash ← RelayService.sendFromRelayer cfg cfg.entrypoint data
    let receipt ← RelayService.receiptFor hash
    if receipt ≠ some .success then
      throw (.poolRejected .stale
        "The association set could not be published. Nothing was sent — try again in a moment.")
    else return

/-- The two coordinates of a point. -/
def point (row : List (Option JsString)) : Except RelayError (List Int) := do
  let first ← bigIntOption (row[0]?.join)
  let second ← bigIntOption (row[1]?.join)
  return [first, second]

/-- The numbers of a proof. -/
def readProof (proof : WithdrawProofDto) (signals : List Int) : Except RelayError WithdrawProof := do
  let pA ← point (proof.pA.map some)
  let first ← point ((proof.pB[0]?).getD [])
  let second ← point ((proof.pB[1]?).getD [])
  let pC ← point (proof.pC.map some)
  return { pA, pB := [first, second], pC, pubSignals := signals }

/-- Publish the root of a proof and relay the proof. -/
def relayProof (root : Int) (data : JsString) (proof : WithdrawProof) : Relay Nat := do
  publishAspRoot lib cfg root
  let call ← Async.done (encodeFunctionData lib (.relay cfg.entrypoint data proof))
  tryCatch (RelayService.sendFromRelayer cfg cfg.entrypoint call) fun _ =>
    throw (.poolRejected .rejected
      "That withdrawal could not be submitted. Nothing was sent and nothing was spent.")

/-- The withdrawal of a body, checked as far as this can be done without its proof. -/
def withdrawalOf (dto : PoolWithdrawDto) : Except RelayError WithdrawalDto :=
  match dto.withdrawal with
  | none => .error (.thrown .typeError)
  | some withdrawal =>
      if withdrawal.processooor.toLowerCase ≠ cfg.entrypoint.toLowerCase then
        .error (.poolRejected .invalid "A withdrawal must be processed by the pool entrypoint.")
      else .ok withdrawal

/-- The public signals of a body. -/
def signalsOf (dto : PoolWithdrawDto) : Except RelayError (WithdrawProofDto × List Int) :=
  match dto.proof with
  | none => .error (.thrown .typeError)
  | some proof => do
      let signals ← proof.pubSignals.mapM bigInt
      return (proof, signals)

/-- The root a proof was built against, when it is one we know. -/
def recognised (known signals : List Int) : Except RelayError Int :=
  match signals[aspRootSignal]? with
  | some root =>
      if root ∈ known then .ok root
      else .error (.poolRejected .stale
        "This proof was built against an association set we do not recognise. Refresh and try again.")
  | none => .error (.poolRejected .stale
      "This proof was built against an association set we do not recognise. Refresh and try again.")

/-- Submit a withdrawal proof, publishing the association root it was built against first. -/
def withdraw (dto : PoolWithdrawDto) : Relay Nat := do
  if !cfg.poolEnabled then
    throw (.poolRejected .unavailable "Private withdrawals are not available here.")
  else do
    let synced ← RelayCall.isSynced.request
    if !synced then
      throw (.poolRejected .stale
        "The pool index is still catching up. Nothing was sent — try again in a moment.")
    else do
      let withdrawal ← Async.done (withdrawalOf cfg dto)
      let (proofDto, signals) ← Async.done (signalsOf dto)
      let rows ← RelayCall.leaves.request
      let known ← Async.done (aspRootHistory lib rows)
      let root ← Async.done (recognised known signals)
      let proof ← Async.done (readProof proofDto signals)
      exclusively .lock (relayProof lib cfg root withdrawal.data proof)

/-! ## Deposits -/

/-- The request of a deposit, with its numbers read. -/
def shieldRequest (dto : PoolShieldDto) : Except RelayError ShieldRequest :=
  match dto.request with
  | none => .error (.thrown .typeError)
  | some request => do
      let value ← bigInt request.value
      let precommitment ← bigInt request.precommitment
      let deadline ← bigInt request.deadline
      return { owner := request.owner, value, precommitment, deadline }

/-- The call of the entrypoint for a deposit. -/
def shieldCall (dto : PoolShieldDto) (request : ShieldRequest) : Except RelayError ContractCall :=
  match dto.permit with
  | none => encodeFunctionData lib (.depositFor request dto.signature)
  | some permit => do
      let deadline ← bigIntOption permit.deadline
      encodeFunctionData lib
        (.depositForWithPermit request dto.signature deadline permit.v permit.r permit.s)

/-- Return a gasless account's balance to the pool on its behalf. -/
def shield (dto : PoolShieldDto) : Relay Nat := do
  if !cfg.poolEnabled then
    throw (.poolRejected .unavailable "Private deposits are not available here.")
  else do
    let request ← Async.done (shieldRequest dto)
    if request.value = 0 then
      throw (.poolRejected .invalid "There is nothing to return to the pool.")
    else do
      let now ← RelayCall.dateNow.request
      if request.deadline * 1000 < now then
        throw (.poolRejected .invalid "This instruction has expired. Sign a fresh one.")
      else do
        let data ← Async.done (shieldCall lib dto request)
        tryCatch (RelayService.sendFromRelayer cfg cfg.entrypoint data) fun _ =>
          throw (.poolRejected .rejected
            "That deposit could not be submitted. Nothing was sent and nothing was spent.")

end PoolService

/-! ## Requests -/

/-- The methods that send, with their arguments. -/
inductive RelayRequest where
  | submit (payload : RelayRequestDto)
  | submitResolution (payload : RelayRequestDto)
  | submitPermit (permit : PermitRequestDto)
  | sendFromRelayer (destination : JsString) (data : ContractCall)
  | withdraw (dto : PoolWithdrawDto)
  | shield (dto : PoolShieldDto)
  deriving DecidableEq

def RelayRequest.start : RelayRequest → Relay Nat
  | submit payload => RelayService.submit lib cfg payload
  | submitResolution payload => RelayService.submitResolution lib cfg payload
  | submitPermit permit => RelayService.submitPermit lib cfg permit
  | sendFromRelayer destination data => RelayService.sendFromRelayer cfg destination data
  | withdraw dto => PoolService.withdraw lib cfg dto
  | shield dto => PoolService.shield lib cfg dto

/-- The services, their requests interleaved. How a request's stage moves is left to the
property at hand. -/
def relaySystem {S : Type} (initial : RelayWorld) (arrival : RelayRequest → S)
    (next : RelayRequest → S → RelayWorld → (call : RelayCall) →
      Except RelayError call.Answer → S) :
    Async.System RelayCall.Answer RelayError Nat RelayRequest S RelayWorld RelayCall where
  start := RelayRequest.start lib cfg
  arrival
  next
  env := relayEnvironment
  drift := RelayWorld.Changes
  initial

/-- The wiring stays what it was at boot. -/
theorem wiring_of_relayRun {S : Type} {initial world : RelayWorld} {arrival : RelayRequest → S}
    {next : RelayRequest → S → RelayWorld → (call : RelayCall) →
      Except RelayError call.Answer → S}
    {meets : Async.System.Condition RelayCall.Answer RelayError Nat RelayRequest S RelayWorld}
    {records : List RelayCall}
    {threads : List (Async.Thread RelayCall.Answer RelayError Nat RelayRequest S)}
    (run : (relaySystem lib cfg initial arrival next).Run meets records world threads) :
    world.wiring = initial.wiring := by
  refine run.preserves (fun reached => reached.wiring = initial.wiring) rfl ?_ ?_
  · intro before later changes held
    cases changes <;> exact held
  · intro before threads position request stage call continued answer record later turn held
    exact relayEnvironment_keeps (·.wiring = initial.wiring) turn.answered held
      fun given performed => performed.wiring_eq.trans held

/-! ## Schedules -/

section Schedules

variable {S : Type} {initial : RelayWorld} {arrival : RelayRequest → S}
  {next : RelayRequest → S → RelayWorld → (call : RelayCall) → Except RelayError call.Answer → S}

/-- What the services have reached in a schedule. -/
abbrev RelayStanding (S : Type) : Type :=
  Async.System.Standing RelayCall.Answer RelayError Nat RelayRequest S RelayWorld RelayCall

/-- A condition on a call of the services and its answer, that can be checked. -/
abbrev RelayCheck (S : Type) : Type :=
  RelayWorld → List (Async.Thread RelayCall.Answer RelayError Nat RelayRequest S) → Nat →
    (call : RelayCall) → Except RelayError call.Answer → Bool

/-- Follow a schedule against a node, as long as the calls pass a check. -/
def playRelay (initial : RelayWorld) (arrival : RelayRequest → S)
    (next : RelayRequest → S → RelayWorld → (call : RelayCall) →
      Except RelayError call.Answer → S) (node : RelayNode) (check : RelayCheck S)
    (moves : List (Async.System.Move RelayRequest)) (start : RelayStanding S) :
    Option (RelayStanding S) :=
  (relaySystem lib cfg initial arrival next).play node.respond (fun call _ => [call])
    (fun world threads position call answer =>
      RelayNode.ready call world && check world threads position call answer) moves start

/-- A schedule that was followed is a run. -/
theorem run_of_playRelay {node : RelayNode} {check : RelayCheck S}
    {meets : Async.System.Condition RelayCall.Answer RelayError Nat RelayRequest S RelayWorld}
    (checked : ∀ world threads position call answer,
      check world threads position call answer = true → meets world threads position call answer)
    (moves : List (Async.System.Move RelayRequest)) {start reached : RelayStanding S}
    (run : (relaySystem lib cfg initial arrival next).Run meets start.records start.world
      start.threads)
    (played : playRelay lib cfg initial arrival next node check moves start = some reached) :
    (relaySystem lib cfg initial arrival next).Run meets reached.records reached.world
      reached.threads := by
  refine Async.System.run_of_play _ _ _ _ (fun world threads position call passed => ?_) moves run
    played
  obtain ⟨now, met⟩ := Bool.and_eq_true_iff.mp passed
  exact ⟨node.respond_answers now, checked _ _ _ _ _ met⟩

end Schedules

/-! ## A deployment -/

namespace SampleRelay

/-- An address that repeats one digit. -/
def address (digit : Char) : JsString :=
  JsString.ascii ("0x" ++ String.ofList (List.replicate 40 digit))

def word (digit : Char) : JsString :=
  JsString.ascii ("0x" ++ String.ofList (List.replicate 64 digit))

/-- The selectors of the functions that can be relayed. -/
def selectors : List (String × String) :=
  (RelayService.relayableSignatures.zip
      ["0x1281311d", "0x9be7b6a1", "0x3620875e", "0x244311d1", "0xdb006a75"]) ++
    RelayService.resolutionSignatures.zip ["0x0d34b2ad", "0xd594ccf0"]

/-- The libraries, on what the samples need: a tree of one leaf has that leaf as its root, and
one of two has their Poseidon hash. -/
def libraries : RelayLibraries where
  toFunctionSelector signature :=
    ((selectors.find? fun entry => JsString.ascii ("function " ++ entry.1) = signature).map
      fun entry => JsString.ascii entry.2).getD []
  encodes _ := true
  imtRoot
    | [1, 2] => 7853200120776062878684798364095072458815029376092732009249414926327459813530
    | labels => labels.headD 0

def config : RelayConfig where
  enabled := true
  forwarder := address 'f'
  resolutionForwarder := address 'd'
  maxGas := 1500000
  maxFeePerGas := 200000000000
  accountLimit := 30
  accountWindowSeconds := 60
  dailyCapWei := 5000000000000000000
  poolEnabled := true
  entrypoint := address 'b'
  collateral := address 'c'

def wiring : Wiring where
  connected := true
  engine := some (address 'e')
  permitSpenders := [address 'e', address '2']
  resolver := some (address '3')

def world : RelayWorld where
  wiring := wiring

/-- A deposit that is approved under a label. -/
def deposit (label : Nat) : PoolLeaf where
  blockNumber := label
  logIndex := 0
  txHash := word '7'
  kind := .deposit
  commitment := decimalString (100 + label)
  label := some (decimalString label)
  value := decimalString 5000000

/-- A withdrawal that was proved against an association root. -/
def withdrawal (root : Nat) : PoolWithdrawDto where
  withdrawal := some { processooor := address 'b', data := JsString.ascii "0x" }
  proof := some {
    pA := [decimalString 11, decimalString 12]
    pB := [[some (decimalString 13), some (decimalString 14)],
      [some (decimalString 15), some (decimalString 16)]]
    pC := [decimalString 17, decimalString 18]
    pubSignals := [21, 22, 23, 24, 1, root, 1, 25].map decimalString }

def node : RelayNode where
  verifies _ := true
  simulates _ := true
  gas := 100000
  fees := ⟨100000000000, 2000000000⟩

end SampleRelay

end Numera
