import Numera.Relay.Service

/-! # What the services call

Which calls each part of the relay makes, whatever it is answered: most of them are
plain, which leave the transactions, the cap's counter and the withdrawal lock alone,
and a transaction carries the call the part was given to where it was told to send it.
-/

namespace Numera

open Async (CallsOnly)

/-- A call that neither sends, reads the spend, nor concerns a withdrawal. -/
def RelayCall.plain : RelayCall → Bool
  | dateNow | incr _ | incrby _ _ | expire _ _ | verifyRelayable _ _ | call _ _
  | estimateGas _ _ | estimateFeesPerGas => true
  | join chain | turn chain _ | leave chain => chain = .queue
  | _ => false

/-- A plain call that asks no forwarder either. -/
def RelayCall.idle : RelayCall → Bool
  | verifyRelayable _ _ => false
  | made => made.plain

/-- What every plain call is, every idle one is. -/
theorem idle_of_plain {allowed : RelayCall → Prop}
    (plain : ∀ call : RelayCall, call.plain → allowed call) (call : RelayCall) (idle : call.idle) :
    allowed call := by
  cases call with
  | verifyRelayable => cases idle
  | _ => exact plain _ idle

/-- A call of the pool's entrypoint that publishes a root or relays a proof against one. -/
def ContractCall.concernsRoot : ContractCall → Bool
  | updateRoot _ | relay _ _ _ => true
  | _ => false

/-- Both parts of a computation that returned have returned. -/
theorem bind_eq_ok {α β : Type} {first : Except RelayError α} {rest : α → Except RelayError β}
    {value : β} (returned : first >>= rest = .ok value) :
    ∃ result, first = .ok result ∧ rest result = .ok value := by
  cases first with
  | ok result => exact ⟨result, rfl, returned⟩
  | error thrown => cases returned

/-- The encoder returns the call it was given. -/
theorem eq_of_encoded {lib : RelayLibraries} {data encoded : ContractCall}
    (returned : encodeFunctionData lib data = .ok encoded) : encoded = data := by
  unfold encodeFunctionData at returned
  split at returned
  · exact (Except.ok.inj returned).symm
  · cases returned

/-- A signed request is forwarded, and concerns no root. -/
theorem concernsRoot_forwarded {lib : RelayLibraries} {payload : RelayRequestDto}
    {request : ContractRequest}
    {data : ContractCall} (called : RelayService.forwarded lib payload request = .ok data) :
    data.concernsRoot = false := by
  unfold RelayService.forwarded at called
  split at called
  · rw [eq_of_encoded called]
    rfl
  · obtain ⟨value, -, called⟩ := bind_eq_ok called
    obtain ⟨deadline, -, called⟩ := bind_eq_ok called
    rw [eq_of_encoded called]
    rfl

/-- A deposit concerns no root either, with a permit or without. -/
theorem concernsRoot_shieldCall {lib : RelayLibraries} {dto : PoolShieldDto} {request : ShieldRequest}
    {data : ContractCall} (called : PoolService.shieldCall lib dto request = .ok data) :
    data.concernsRoot = false := by
  unfold PoolService.shieldCall at called
  split at called
  · rw [eq_of_encoded called]
    rfl
  · obtain ⟨deadline, -, called⟩ := bind_eq_ok called
    rw [eq_of_encoded called]
    rfl

/-- A conversion makes no call. -/
theorem callsOnly_done {α β : Type} {allowed : RelayCall → Prop} {value : Except RelayError β}
    {rest : β → Relay α} (follows : ∀ result, value = .ok result → (rest result).CallsOnly allowed) :
    (Async.done value >>= rest : Relay α).CallsOnly allowed := by
  cases value with
  | ok result => exact follows result rfl
  | error thrown => trivial

/-- A job on a promise chain makes its own calls and those of the chain. -/
theorem callsOnly_exclusively {α : Type} {allowed : RelayCall → Prop} {chain : Chained}
    {fn : Relay α} (joins : allowed (.join chain)) (turns : ∀ place, allowed (.turn chain place))
    (leaves : allowed (.leave chain)) (job : fn.CallsOnly allowed) :
    (exclusively chain fn).CallsOnly allowed :=
  .bind (.perform joins) fun _ => .bind (.perform (turns _)) fun _ =>
    .bind (.tryCatch (.bind job fun _ => trivial) fun _ => trivial) fun _ =>
      .bind (.perform leaves) fun _ => trivial

section Idle

variable {lib : RelayLibraries} {cfg : RelayConfig} {allowed : RelayCall → Prop}
  (idle : ∀ call : RelayCall, call.idle → allowed call)
include idle

/-- The key of the counter is the day's, by the clock. -/
theorem callsOnly_spendKey : RelayService.spendKey.CallsOnly allowed :=
  .bind (.perform (idle _ rfl)) fun _ => trivial

/-- An account's rate is counted in Redis. -/
theorem callsOnly_enforceAccountRate (account : JsString) :
    (RelayService.enforceAccountRate cfg account).CallsOnly allowed := by
  refine .bind (.perform (idle _ rfl)) fun count => .bind ?_ fun _ => ?_
  · split
    · exact .perform (idle _ rfl)
    · trivial
  · split <;> trivial

/-- What was spent is added to the counter, which is made to expire. -/
theorem callsOnly_recordSpend (wei : Nat) : (RelayService.recordSpend wei).CallsOnly allowed :=
  .bind (callsOnly_spendKey idle) fun _ =>
    .bind (.perform (idle _ rfl)) fun _ => .perform (idle _ rfl)

/-- The gas is the estimate, raised by a share of what the node says. -/
theorem callsOnly_gasFor (estimate : Nat) :
    (RelayService.gasFor cfg estimate).CallsOnly allowed := by
  unfold RelayService.gasFor
  split
  · trivial
  · exact .bind (.tryCatch (.bind (.perform (idle _ rfl)) fun _ => trivial) fun _ => trivial)
      fun _ => trivial

/-- A simulation calls and estimates. -/
theorem callsOnly_simulate (destination : JsString) (data : ContractCall)
    (refusal : RelayError → RelayError) :
    (RelayService.simulate destination data refusal).CallsOnly allowed :=
  .tryCatch (.bind (.perform (idle _ rfl)) fun _ => .perform (idle _ rfl)) fun _ => trivial

/-- A job on the queue makes its own calls. -/
theorem callsOnly_enqueue {α : Type} {fn : Relay α} (job : fn.CallsOnly allowed) :
    (exclusively .queue fn).CallsOnly allowed :=
  callsOnly_exclusively (idle _ rfl) (fun _ => idle _ rfl) (idle _ rfl) job

/-- The cap reads the counter, and nothing else of Redis. -/
theorem callsOnly_enforceDailyCap (reads : ∀ key, allowed (.get key)) :
    (RelayService.enforceDailyCap cfg).CallsOnly allowed := by
  refine .bind (.bind (callsOnly_spendKey idle) fun key =>
    .bind (.perform (reads key)) fun _ => trivial) fun spent => ?_
  split <;> trivial

/-- What is sent is the call given, where it was to be sent. -/
theorem callsOnly_sendTransaction {destination : JsString} {data : ContractCall} {gas : Nat}
    (sends : ∀ tx, tx.to = destination → tx.data = data → allowed (.sendTransaction tx)) :
    (RelayService.sendTransaction cfg destination data gas).CallsOnly allowed :=
  .bind (callsOnly_gasFor idle gas) fun _ => .bind (.perform (sends _ rfl rfl)) fun _ =>
    .bind (callsOnly_recordSpend idle _) fun _ => trivial

/-- And so it is after the simulation, on the queue. -/
theorem callsOnly_simulateAndSend {destination : JsString} {data : ContractCall}
    {refusal : RelayError → RelayError}
    (sends : ∀ tx, tx.to = destination → tx.data = data → allowed (.sendTransaction tx)) :
    (exclusively .queue do
      let gas ← RelayService.simulate destination data refusal
      RelayService.sendTransaction cfg destination data gas).CallsOnly allowed :=
  callsOnly_enqueue idle (.bind (callsOnly_simulate idle _ _ _) fun _ =>
    callsOnly_sendTransaction idle sends)

end Idle

section Plain

variable {lib : RelayLibraries} {cfg : RelayConfig} {allowed : RelayCall → Prop}
  (plain : ∀ call : RelayCall, call.plain → allowed call)
include plain

/-- A forwarder that cannot be asked has refused. -/
theorem callsOnly_verifyRelayable (forwarder : JsString) (request : ContractRequest) :
    (tryCatch (RelayCall.verifyRelayable forwarder request).request fun _ =>
      return false : Relay Bool).CallsOnly allowed :=
  .tryCatch (.perform (plain _ rfl)) fun _ => trivial

/-- Both forwarders are sent to by one function. -/
theorem callsOnly_submitRequest {rules : RelayService.RequestRules} {payload : RelayRequestDto}
    (reads : ∀ key, allowed (.get key))
    (sends : ∀ tx, tx.to = rules.forwarder → tx.data.concernsRoot = false →
      allowed (.sendTransaction tx)) :
    (RelayService.submitRequest lib cfg rules payload).CallsOnly allowed := by
  unfold RelayService.submitRequest
  refine callsOnly_done fun request _ => ?_
  split
  · trivial
  · split
    · trivial
    · refine .bind (callsOnly_enforceAccountRate (idle_of_plain plain) _) fun _ =>
        .bind (callsOnly_enforceDailyCap (idle_of_plain plain) reads) fun _ =>
          .bind (callsOnly_verifyRelayable plain _ _) fun valid => ?_
      split
      · trivial
      · refine callsOnly_enqueue (idle_of_plain plain) (callsOnly_done fun data called =>
          .bind (callsOnly_simulate (idle_of_plain plain) _ _ _) fun _ =>
            callsOnly_sendTransaction (idle_of_plain plain) ?_)
        rintro tx to_forwarder rfl
        exact sends tx to_forwarder (concernsRoot_forwarded called)

/-- A trade goes to the engine's forwarder. -/
theorem callsOnly_submit {payload : RelayRequestDto} (wiring : allowed .wiring)
    (reads : ∀ key, allowed (.get key))
    (sends : ∀ tx, tx.to = cfg.forwarder → tx.data.concernsRoot = false →
      allowed (.sendTransaction tx)) :
    (RelayService.submit lib cfg payload).CallsOnly allowed := by
  refine .bind (.perform wiring) fun _ => ?_
  split
  · trivial
  · exact callsOnly_submitRequest plain reads sends

/-- A proposal or a dispute goes to the resolver's. -/
theorem callsOnly_submitResolution {payload : RelayRequestDto} (wiring : allowed .wiring)
    (reads : ∀ key, allowed (.get key))
    (sends : ∀ tx, tx.to = cfg.resolutionForwarder → tx.data.concernsRoot = false →
      allowed (.sendTransaction tx)) :
    (RelayService.submitResolution lib cfg payload).CallsOnly allowed := by
  refine .bind (.perform wiring) fun _ => ?_
  split
  · trivial
  · split
    · trivial
    · exact callsOnly_submitRequest plain reads sends

/-- A permit, once its spender has been allowed. -/
theorem callsOnly_permitted {permit : PermitRequestDto} (reads : ∀ key, allowed (.get key))
    (sends : ∀ tx, tx.to = permit.token → tx.data.concernsRoot = false →
      allowed (.sendTransaction tx)) :
    (do
      RelayService.enforceAccountRate cfg permit.owner
      RelayService.enforceDailyCap cfg
      let data ← Async.done (RelayService.permitCall lib permit)
      exclusively .queue do
        let gas ← RelayService.simulate permit.token data RelayService.permitRefusal
        RelayService.sendTransaction cfg permit.token data gas : Relay Nat).CallsOnly allowed := by
  refine .bind (callsOnly_enforceAccountRate (idle_of_plain plain) _) fun _ =>
    .bind (callsOnly_enforceDailyCap (idle_of_plain plain) reads) fun _ =>
      callsOnly_done fun data called =>
      callsOnly_simulateAndSend (idle_of_plain plain) ?_
  rintro tx to_token rfl
  obtain ⟨value, -, called⟩ := bind_eq_ok called
  obtain ⟨deadline, -, called⟩ := bind_eq_ok called
  refine sends tx to_token ?_
  rw [eq_of_encoded called]
  rfl

/-- A permit goes to the token it names. -/
theorem callsOnly_submitPermit {permit : PermitRequestDto} (wiring : allowed .wiring)
    (reads : ∀ key, allowed (.get key))
    (sends : ∀ tx, tx.to = permit.token → tx.data.concernsRoot = false →
      allowed (.sendTransaction tx)) :
    (RelayService.submitPermit lib cfg permit).CallsOnly allowed := by
  refine .bind (.perform wiring) fun _ => ?_
  split
  · trivial
  · split
    · trivial
    · exact callsOnly_permitted plain reads sends

/-- A call of the relayer's own, for a pool that may be anybody's. -/
theorem callsOnly_sendFromRelayer {destination : JsString} {data : ContractCall}
    (wiring : allowed .wiring) (reads : ∀ key, allowed (.get key))
    (sends : ∀ tx, tx.to = destination → tx.data = data → allowed (.sendTransaction tx)) :
    (RelayService.sendFromRelayer cfg destination data).CallsOnly allowed := by
  refine .bind (.perform wiring) fun _ => ?_
  split
  · trivial
  · exact .bind (callsOnly_enforceDailyCap (idle_of_plain plain) reads) fun _ =>
      callsOnly_simulateAndSend (idle_of_plain plain) sends

/-- A deposit goes to the entrypoint. -/
theorem callsOnly_shield {dto : PoolShieldDto} (wiring : allowed .wiring)
    (reads : ∀ key, allowed (.get key))
    (sends : ∀ tx, tx.to = cfg.entrypoint → tx.data.concernsRoot = false →
      allowed (.sendTransaction tx)) :
    (PoolService.shield lib cfg dto).CallsOnly allowed := by
  unfold PoolService.shield
  split
  · trivial
  · refine callsOnly_done fun request _ => ?_
    split
    · trivial
    · refine .bind (.perform (plain _ rfl)) fun now => ?_
      split
      · trivial
      · refine callsOnly_done fun data called => .tryCatch (callsOnly_sendFromRelayer plain wiring
          reads ?_) fun _ => trivial
        rintro tx to_entrypoint rfl
        exact sends tx to_entrypoint (concernsRoot_shieldCall called)

end Plain

end Numera
