import Numera.Relay.Destinations
import Numera.Relay.Refusals

/-! # What may be retried

The controllers answer 503 for "not now" and 400 for "not ever". The relay refuses for now
when it is disabled, when an account is over its rate, when the daily cap is reached or when an
operation is too large, and a simulation fails for now when the node does not answer; what
reverts is refused for good. Trades and resolutions keep that distinction. A permit loses it
where its simulation is not answered, and the pool, which rewords every failure of its own
transactions and lets those of a root's publication through to no handler, keeps it only where
its own transaction reverts (`status_iff_preserves`).
-/

namespace Numera

open Async (Ends Environment Reaches)

variable (lib : RelayLibraries) (cfg : RelayConfig)

/-! ## Controllers -/

/-- An answer of a controller. What it throws besides is answered with 500. -/
inductive HttpAnswer where
  | submitted (hash : Nat)
  | serviceUnavailable (message : String)
  | badRequest (message : String)
  deriving DecidableEq

/-- The status of a response. -/
def HttpAnswer.status : Except RelayError HttpAnswer → Nat
  | .ok (.submitted _) => 200
  | .ok (.serviceUnavailable _) => 503
  | .ok (.badRequest _) => 400
  | .error _ => 500

/-- Submit, and give what is thrown to a controller's handler. -/
def attempt (handler : RelayError → Except RelayError HttpAnswer) (fn : Relay Nat) :
    Relay HttpAnswer :=
  tryCatch (do
      let hash ← fn
      return .submitted hash) fun err => Async.done (handler err)

namespace RelayController

/-- The handler of all three routes. -/
def handler : RelayError → Except RelayError HttpAnswer
  | .relayRejected code message =>
      if code = .unavailable ∨ code = .rateLimited then .ok (.serviceUnavailable message)
      else .ok (.badRequest message)
  | err => .error err

def submit (body : RelayRequestDto) : Relay HttpAnswer :=
  attempt handler (RelayService.submit lib cfg body)

def permit (body : PermitRequestDto) : Relay HttpAnswer :=
  attempt handler (RelayService.submitPermit lib cfg body)

def submitResolution (body : RelayRequestDto) : Relay HttpAnswer :=
  attempt handler (RelayService.submitResolution lib cfg body)

end RelayController

namespace PoolController

/-- The handler of both routes that write. -/
def handler : RelayError → Except RelayError HttpAnswer
  | .poolRejected kind message =>
      if kind = .unavailable ∨ kind = .stale then .ok (.serviceUnavailable message)
      else .ok (.badRequest message)
  | err => .error err

def withdraw (body : PoolWithdrawDto) : Relay HttpAnswer :=
  attempt handler (PoolService.withdraw lib cfg body)

def shield (body : PoolShieldDto) : Relay HttpAnswer :=
  attempt handler (PoolService.shield lib cfg body)

end PoolController

/-- A route that relays, with the body it is sent. -/
inductive Endpoint where
  | relay (body : RelayRequestDto)
  | resolution (body : RelayRequestDto)
  | permit (body : PermitRequestDto)
  | withdraw (body : PoolWithdrawDto)
  | shield (body : PoolShieldDto)

namespace Endpoint

def answer : Endpoint → Relay HttpAnswer
  | relay body => RelayController.submit lib cfg body
  | resolution body => RelayController.submitResolution lib cfg body
  | permit body => RelayController.permit lib cfg body
  | withdraw body => PoolController.withdraw lib cfg body
  | shield body => PoolController.shield lib cfg body

/-- The relay is enabled for a route. -/
def enabled (endpoint : Endpoint) (wiring : Wiring) : Bool :=
  cfg.enabled && wiring.connected && match endpoint with
    | resolution _ => wiring.resolver.isSome
    | _ => true

end Endpoint

/-! ## Causes -/

/-- Why a send fails: the relay refuses for now, the node does not answer the simulation, or
the call reverts in it. -/
inductive FailureCause where
  | refused
  | transport
  | reverted (data : ContractCall)
  deriving DecidableEq

namespace FailureCause

/-- The status a failure is to be answered with. -/
def status : FailureCause → Nat
  | refused | transport => 503
  | reverted _ => 400

/-- Why a simulation failed with an error. -/
def ofSimulation (data : ContractCall) (error : CallError) : Option FailureCause :=
  if error.isTransportFailure then some .transport
  else if error.revertData.isSome then some (.reverted data)
  else none

end FailureCause

/-- Why a send fails with the answer to one of its calls, if it does. -/
def RelayCall.cause (enabled : Wiring → Bool) :
    (call : RelayCall) → Except RelayError call.Answer → Option FailureCause
  | .wiring, .ok found => if enabled found then none else some .refused
  | .incr _, .ok count => if count ≠ 1 ∧ cfg.accountLimit < count then some .refused else none
  -- the first request of a window is over its rate only once the window has been opened
  | .expire (.rate _) _, .ok _ => if cfg.accountLimit < 1 then some .refused else none
  | .get _, .ok spent =>
      if cfg.dailyCapWei ≤ spent.getD 0 * RelayService.gweiWei then some .refused else none
  | .call _ data, .error (.call error) => FailureCause.ofSimulation data error
  | .estimateGas _ data, .error (.call error) => FailureCause.ofSimulation data error
  | .estimateGas _ _, .ok gas =>
      if cfg.maxGas < RelayService.gasLimit gas then some .refused else none
  | _, _ => none

/-- Why a send failed, if it did for one of these causes. -/
def failureCause (enabled : Wiring → Bool) (trace : List Exchange) : Option FailureCause :=
  trace.findSome? fun exchange => exchange.call.cause cfg enabled exchange.answer

/-- The routes answer a failure as its cause demands: trades and resolutions always, a permit
unless its simulation was not answered, a withdrawal and a deposit when their own call
reverted. -/
def Endpoint.preserves : Endpoint → FailureCause → Bool
  | relay _, _ | resolution _, _ => true
  | permit _, cause => cause ≠ .transport
  | withdraw _, .reverted (.updateRoot _) => false
  | withdraw _, cause | shield _, cause => cause.status = 400

/-! ## How the parts of a request fail -/

/-- The cause so far. -/
def FailureCause.next (enabled : Wiring → Bool) (cause : Option FailureCause)
    (exchange : Exchange) : Option FailureCause :=
  cause.or (exchange.call.cause cfg enabled exchange.answer)

theorem FailureCause.foldl_next (enabled : Wiring → Bool) (trace : List Exchange)
    (cause : Option FailureCause) :
    trace.foldl (next cfg enabled) cause = cause.or (failureCause cfg enabled trace) := by
  induction trace generalizing cause with
  | nil => simp [failureCause]
  | cons exchange trace ih =>
      rw [List.foldl_cons, ih, next, Option.or_assoc]
      congr 1
      unfold failureCause
      rw [List.findSome?_cons]
      cases exchange.call.cause cfg enabled exchange.answer <;> rfl

/-- A failure for a known cause ends in an error that belongs to it. -/
def AccountedFor {α : Type} (blames : FailureCause → RelayError → Prop)
    (outcome : Except RelayError α) (cause : Option FailureCause) : Prop :=
  ∀ known, cause = some known → ∃ error, outcome = .error error ∧ blames known error

/-- However its calls are answered, a part of a request gives every failure for a known cause
an error that belongs to it. -/
def Accounts {α : Type} (enabled : Wiring → Bool) (blames : FailureCause → RelayError → Prop)
    (task : Relay α) (cause : Option FailureCause) : Prop :=
  Ends (exchanges.summarised (FailureCause.next cfg enabled))
    (fun outcome final => AccountedFor blames outcome final.2) task ((), cause)

/-- A call whose answers are no failure of a send. -/
def RelayCall.blameless : RelayCall → Bool
  | wiring | incr _ | expire (.rate _) _ | get _ | call _ _ | estimateGas _ _ => false
  | _ => true

section Rules

variable {cfg} {lib} {α β : Type} {enabled : Wiring → Bool}
  {blames : FailureCause → RelayError → Prop}

theorem RelayCall.cause_blameless {call : RelayCall} (blameless : call.blameless = true)
    (answer : Except RelayError call.Answer) : call.cause cfg enabled answer = none := by
  cases call with
  | expire key seconds => cases key <;> first | rfl | cases blameless
  | _ => first | rfl | cases blameless

theorem accountedFor_none (outcome : Except RelayError α) : AccountedFor blames outcome none :=
  fun _ same => nomatch same

theorem accountedFor_error {error : RelayError} {cause : FailureCause}
    (belongs : blames cause error) :
    AccountedFor blames (.error error : Except RelayError α) (some cause) := by
  intro known same
  obtain rfl := Option.some.inj same
  exact ⟨error, rfl, belongs⟩

/-- What has ended has no cause, or its error belongs to it. -/
theorem Accounts.ended (outcome : Except RelayError α) :
    Accounts cfg enabled blames (.done outcome) none := accountedFor_none outcome

theorem Accounts.thrown {error : RelayError} {cause : FailureCause}
    (belongs : blames cause error) :
    Accounts cfg enabled blames (throw error : Relay α) (some cause) := accountedFor_error belongs

/-- Nothing has failed for a known cause when the first part of a sequence returns. -/
theorem Accounts.bind {first : Relay β} {rest : β → Relay α} {cause : Option FailureCause}
    (first_accounts : Accounts cfg enabled blames first cause)
    (rest_accounts : ∀ value, Accounts cfg enabled blames (rest value) none) :
    Accounts cfg enabled blames (first >>= rest) cause := by
  refine Ends.bind (Ends.mono first_accounts ?_)
  rintro (thrown | value) ⟨⟨⟩, cause⟩ accounted
  · rintro known rfl
    obtain ⟨error, same, belongs⟩ := accounted known rfl
    obtain rfl := Except.error.inj same
    exact ⟨_, rfl, belongs⟩
  · cases cause with
    | none => exact rest_accounts value
    | some known =>
        obtain ⟨error, same, -⟩ := accounted known rfl
        cases same

/-- A call, whose answer may be the cause of what follows. -/
theorem Accounts.perform_bind {call : RelayCall} {rest : call.Answer → Relay α}
    (answered : ∀ value, Accounts cfg enabled blames (rest value)
      (call.cause cfg enabled (.ok value)))
    (rejected : ∀ error, AccountedFor blames (.error (.call error) : Except RelayError α)
      (call.cause cfg enabled (.error (.call error)))) :
    Accounts cfg enabled blames (call.request >>= rest) none := by
  refine Ends.bind (Ends.perform ?_)
  rintro answer record ⟨⟨⟩, later⟩ ⟨⟨performed, rfl, possible⟩, made⟩
  obtain rfl : later = call.cause cfg enabled answer := made
  cases answer with
  | ok value => exact answered value
  | error thrown =>
      obtain ⟨-, error, rfl⟩ := possible
      exact rejected error

/-- A call whose answer is a cause exactly when what follows refuses. -/
theorem Accounts.judged {call : RelayCall} {refuses : call.Answer → Prop}
    [DecidablePred refuses] {refusal : RelayError} {rest : call.Answer → Relay α}
    (judges : ∀ value, call.cause cfg enabled (.ok value) =
      if refuses value then some .refused else none)
    (rejects : ∀ error, call.cause cfg enabled (.error (.call error)) = none)
    (belongs : blames .refused refusal)
    (follows : ∀ value, Accounts cfg enabled blames (rest value) none) :
    Accounts cfg enabled blames (call.request >>= fun value =>
      if refuses value then throw refusal else rest value) none := by
  refine .perform_bind (fun value => ?_) fun error => ?_
  · rw [judges value]
    split
    · exact .thrown belongs
    · exact follows value
  · rw [rejects error]
    exact accountedFor_none _

/-- A part that makes only blameless calls. -/
theorem Accounts.blameless {task : Relay α}
    (only : task.CallsOnly fun call => call.blameless = true) :
    Accounts cfg enabled blames task none := by
  have unmoved : Ends (exchanges.summarised (FailureCause.next cfg enabled))
      (fun _ final => final.2 = none) task ((), none) := by
    refine Ends.of_callsOnly only ?_ rfl
    rintro call ⟨⟨⟩, before⟩ answer record ⟨⟨⟩, later⟩ quiet ⟨⟨performed, rfl, possible⟩, made⟩ held
    obtain rfl : before = none := held
    exact made.trans (RelayCall.cause_blameless quiet answer)
  refine Ends.mono unmoved ?_
  rintro outcome ⟨⟨⟩, cause⟩ rfl
  exact accountedFor_none outcome

/-- A job on a promise chain fails as it would by itself. -/
theorem Accounts.exclusively {chain : Chained} {fn : Relay α}
    (job : Accounts cfg enabled blames fn none) :
    Accounts cfg enabled blames (Numera.exclusively chain fn) none := by
  have leaves : ∀ (outcome : Except RelayError α) (cause : Option FailureCause),
      AccountedFor blames outcome cause → Accounts cfg enabled blames (do
        (RelayCall.leave chain).request
        Async.done outcome) cause := by
    intro outcome cause accounted
    refine Ends.bind (Ends.perform ?_)
    rintro answer record ⟨⟨⟩, later⟩ ⟨⟨performed, rfl, possible⟩, made⟩
    obtain rfl : later = cause := made.trans (Option.or_none ..)
    cases answer with
    | ok value => exact accounted
    | error thrown => cases possible.1
  refine .perform_bind (fun place => .perform_bind (fun _ => ?_) fun _ => accountedFor_none _)
    fun _ => accountedFor_none _
  refine Ends.bind (Ends.tryCatch (Ends.bind (Ends.mono job ?_)))
  rintro (thrown | value) ⟨⟨⟩, cause⟩ accounted
  · exact leaves (.error thrown) cause accounted
  · exact leaves (.ok value) cause accounted

/-- A call is encoded as itself, or the encoder throws. -/
theorem Accounts.encoded {data : ContractCall} {rest : ContractCall → Relay α}
    (accounts : Accounts cfg enabled blames (rest data) none) :
    Accounts cfg enabled blames (Async.done (encodeFunctionData lib data) >>= rest) none := by
  unfold encodeFunctionData
  split
  · exact accounts
  · exact .ended _

/-- What is thrown instead of every error of a part belongs to what each of them does. -/
theorem Accounts.reworded {task : Relay α} {error : RelayError}
    (accounts : Accounts cfg enabled (fun cause _ => blames cause error) task none) :
    Accounts cfg enabled blames (tryCatch task fun _ => throw error) none := by
  refine Ends.tryCatch (Ends.mono accounts ?_)
  rintro (thrown | value) ⟨⟨⟩, cause⟩ accounted
  · rintro known rfl
    obtain ⟨_, -, belongs⟩ := accounted known rfl
    exact ⟨error, rfl, belongs⟩
  · rintro known rfl
    obtain ⟨_, same, -⟩ := accounted known rfl
    cases same

end Rules

/-! ## How the services fail -/

section Services

variable {cfg} {lib} {enabled : Wiring → Bool} {blames : FailureCause → RelayError → Prop}

/-- What the relay refuses for now belongs to such a refusal. -/
def Refuses (blames : FailureCause → RelayError → Prop) : Prop :=
  ∀ code message, code = .unavailable ∨ code = .rateLimited →
    blames .refused (.relayRejected code message)

/-- What a simulation throws belongs to the cause of its failure. -/
def Simulates (blames : FailureCause → RelayError → Prop) (data : ContractCall)
    (refusal : RelayError → RelayError) : Prop :=
  ∀ error cause, FailureCause.ofSimulation data error = some cause →
    blames cause (refusal (.call error))

theorem accounts_enforceAccountRate (refuses : Refuses blames) (account : JsString) :
    Accounts cfg enabled blames (RelayService.enforceAccountRate cfg account) none := by
  refine .perform_bind (fun count => ?_) fun _ => accountedFor_none _
  change Accounts cfg enabled blames _
    (if count ≠ 1 ∧ cfg.accountLimit < count then some .refused else none)
  by_cases first : count = 1
  · subst first
    have unjudged : ¬ (1 ≠ 1 ∧ cfg.accountLimit < 1) := fun both => both.1 rfl
    rw [if_neg unjudged]
    change Accounts cfg enabled blames ((RelayCall.expire _ cfg.accountWindowSeconds).request >>=
      fun _ => if cfg.accountLimit < 1 then throw _ else pure ()) none
    exact .judged (fun _ => rfl) (fun _ => rfl) (refuses .rateLimited _ (.inr rfl))
      fun _ => .ended (.ok ())
  · rw [if_neg first]
    change Accounts cfg enabled blames (if cfg.accountLimit < count then throw _ else pure ()) _
    by_cases exceeds : cfg.accountLimit < count
    · rw [if_pos exceeds, if_pos ⟨first, exceeds⟩]
      exact .thrown (refuses .rateLimited _ (.inr rfl))
    · rw [if_neg exceeds, if_neg fun both => exceeds both.2]
      exact .ended (.ok ())

theorem accounts_spendKey : Accounts cfg enabled blames RelayService.spendKey none :=
  .blameless (.bind (.perform rfl) fun _ => trivial)

theorem accounts_enforceDailyCap (refuses : Refuses blames) :
    Accounts cfg enabled blames (RelayService.enforceDailyCap cfg) none := by
  unfold RelayService.enforceDailyCap RelayService.spentTodayWei
  simp only [bind_assoc, pure_bind]
  exact .bind accounts_spendKey fun key => .judged (fun _ => rfl) (fun _ => rfl)
    (refuses .unavailable _ (.inl rfl)) fun _ => .ended (.ok ())

theorem accounts_gasFor (refuses : Refuses blames) (gas : Nat) :
    Accounts cfg enabled blames (RelayService.gasFor cfg gas)
      (if cfg.maxGas < RelayService.gasLimit gas then some .refused else none) := by
  unfold RelayService.gasFor
  split
  · exact .thrown (refuses .unavailable _ (.inl rfl))
  · exact .blameless (.bind (.tryCatch (.bind (.perform rfl) fun _ => trivial) fun _ => trivial)
      fun _ => trivial)

theorem blameless_recordSpend (wei : Nat) :
    (RelayService.recordSpend wei).CallsOnly fun call => call.blameless = true := by
  unfold RelayService.recordSpend RelayService.spendKey
  simp only [bind_assoc, pure_bind]
  exact .bind (.perform rfl) fun _ => .bind (.perform rfl) fun _ => .perform rfl

/-- A simulation that returns leaves the estimate to be judged, and one that fails throws what
its error becomes. -/
theorem ends_simulate_cause {post : Except RelayError Nat → Unit × Option FailureCause → Prop}
    {destination : JsString} {data : ContractCall} {refusal : RelayError → RelayError}
    (estimated : ∀ gas, post (.ok gas)
      ((), if cfg.maxGas < RelayService.gasLimit gas then some .refused else none))
    (failed : ∀ error, post (.error (refusal (.call error)))
      ((), FailureCause.ofSimulation data error)) :
    Ends (exchanges.summarised (FailureCause.next cfg enabled)) post
      (RelayService.simulate destination data refusal) ((), none) := by
  refine Ends.tryCatch (Ends.bind (Ends.perform ?_))
  rintro answer record ⟨⟨⟩, later⟩ ⟨⟨performed, rfl, possible⟩, made⟩
  obtain rfl : later = RelayCall.cause cfg enabled (.call destination data) answer := made
  cases answer with
  | error thrown =>
      obtain ⟨-, error, rfl⟩ := possible
      exact failed error
  | ok _ =>
      refine Ends.perform ?_
      rintro answer record ⟨⟨⟩, later⟩ ⟨⟨performed, rfl, possible⟩, made⟩
      obtain rfl : later = RelayCall.cause cfg enabled (.estimateGas destination data) answer :=
        made
      cases answer with
      | error thrown =>
          obtain ⟨-, error, rfl⟩ := possible
          exact failed error
      | ok gas => exact estimated gas

/-- A call is simulated and sent. -/
theorem accounts_simulateAndSend {destination : JsString} {data : ContractCall}
    {refusal : RelayError → RelayError} (refuses : Refuses blames)
    (simulates : Simulates blames data refusal) :
    Accounts cfg enabled blames (do
      let gas ← RelayService.simulate destination data refusal
      RelayService.sendTransaction cfg destination data gas) none := by
  refine Ends.bind (ends_simulate_cause (fun gas => ?_) fun error => ?_)
  · change Accounts cfg enabled blames (RelayService.sendTransaction cfg destination data gas)
      (if cfg.maxGas < RelayService.gasLimit gas then some .refused else none)
    refine .bind (accounts_gasFor refuses gas) fun policy => .blameless ?_
    exact .bind (.perform rfl) fun hash => .bind (blameless_recordSpend _) fun _ => trivial
  · cases failed : FailureCause.ofSimulation data error with
    | none => exact accountedFor_none _
    | some cause => exact accountedFor_error (simulates error cause failed)

/-- A request of the relay that is not enabled for it refuses for now. -/
theorem accounts_enabled {α : Type} {message : String} {rest : Wiring → Relay α}
    (refuses : Refuses blames)
    (enables : ∀ wiring : Wiring, enabled wiring = (cfg.enabled && wiring.connected))
    (follows : ∀ wiring, Accounts cfg enabled blames (rest wiring) none) :
    Accounts cfg enabled blames (RelayCall.wiring.request >>= fun wiring : Wiring =>
      if (!(cfg.enabled && wiring.connected)) = true then
        throw (.relayRejected .unavailable message)
      else rest wiring) none := by
  refine .judged (fun wiring => ?_) (fun _ => rfl) (refuses .unavailable _ (.inl rfl)) follows
  change (if enabled wiring then none else some FailureCause.refused) = _
  rw [enables wiring]
  cases cfg.enabled && wiring.connected <;> rfl

/-- A call of the relayer's own. -/
theorem accounts_sendFromRelayer {destination : JsString} {data : ContractCall}
    (refuses : Refuses blames) (simulates : Simulates blames data RelayService.relayerRefusal)
    (enables : ∀ wiring : Wiring, enabled wiring = (cfg.enabled && wiring.connected)) :
    Accounts cfg enabled blames (RelayService.sendFromRelayer cfg destination data) none :=
  accounts_enabled refuses enables fun _ => .bind (accounts_enforceDailyCap refuses) fun _ =>
    .exclusively (accounts_simulateAndSend refuses simulates)

theorem accounts_submitRequest (refuses : Refuses blames)
    (simulates : ∀ data, Simulates blames data RelayService.requestRefusal)
    (rules : RelayService.RequestRules) (payload : RelayRequestDto) :
    Accounts cfg enabled blames (RelayService.submitRequest lib cfg rules payload) none := by
  refine .bind (.ended _) fun request => ?_
  split
  · exact .ended _
  · split
    · exact .ended _
    · refine .bind (accounts_enforceAccountRate refuses request.from) fun _ =>
        .bind (accounts_enforceDailyCap refuses) fun _ =>
          .bind (.blameless (.tryCatch (.perform rfl) fun _ => trivial)) fun valid => ?_
      split
      · exact .ended _
      · exact .exclusively (.bind (.ended _) fun data =>
          accounts_simulateAndSend refuses (simulates data))

theorem accounts_submitPermit (refuses : Refuses blames)
    (simulates : ∀ data, Simulates blames data RelayService.permitRefusal)
    (enables : ∀ wiring : Wiring, enabled wiring = (cfg.enabled && wiring.connected))
    (permit : PermitRequestDto) :
    Accounts cfg enabled blames (RelayService.submitPermit lib cfg permit) none := by
  refine accounts_enabled refuses enables fun wiring => ?_
  split
  · exact .ended _
  · exact .bind (accounts_enforceAccountRate refuses _) fun _ =>
      .bind (accounts_enforceDailyCap refuses) fun _ => .bind (.ended _) fun data =>
        .exclusively (accounts_simulateAndSend refuses (simulates data))

/-- The relay refuses a resolution for now as well when it has no resolver. -/
theorem accounts_submitResolution (refuses : Refuses blames)
    (simulates : ∀ data, Simulates blames data RelayService.requestRefusal)
    (payload : RelayRequestDto) :
    Accounts cfg ((Endpoint.resolution payload).enabled cfg) blames
      (RelayService.submitResolution lib cfg payload) none := by
  refine .perform_bind (fun wiring => ?_) fun _ => accountedFor_none _
  change Accounts cfg _ blames (if (!(cfg.enabled && wiring.connected)) = true then throw _ else _)
    (if (cfg.enabled && wiring.connected && wiring.resolver.isSome) = true then none
      else some .refused)
  cases cfg.enabled && wiring.connected with
  | false => exact .thrown (refuses .unavailable _ (.inl rfl))
  | true =>
      cases wiring.resolver with
      | none => exact .thrown (refuses .unavailable _ (.inl rfl))
      | some resolver =>
          change Accounts cfg _ blames (RelayService.submitRequest lib cfg
            (RelayService.resolutionRules lib cfg resolver) payload) none
          exact accounts_submitRequest refuses simulates _ payload

/-- A root is published by a call of the relayer's own. -/
theorem accounts_publishAspRoot {root : Int} (refuses : Refuses blames)
    (simulates : Simulates blames (.updateRoot root) RelayService.relayerRefusal)
    (enables : ∀ wiring : Wiring, enabled wiring = (cfg.enabled && wiring.connected)) :
    Accounts cfg enabled blames (PoolService.publishAspRoot lib cfg root) none := by
  refine .bind (.blameless (.perform rfl)) fun current => ?_
  split
  · exact .ended _
  · refine .encoded (.bind (accounts_sendFromRelayer refuses simulates enables) fun hash =>
      .bind (.blameless (.tryCatch (.bind (.perform rfl) fun _ => trivial) fun _ => trivial))
        fun receipt => ?_)
    split <;> exact .ended _

/-- A call of the pool's own, whose errors are all given one message. -/
theorem accounts_reworded {destination : JsString} {data : ContractCall} {error : RelayError}
    (refuses : blames .refused error)
    (simulates : ∀ failure cause, FailureCause.ofSimulation data failure = some cause →
      blames cause error)
    (enables : ∀ wiring : Wiring, enabled wiring = (cfg.enabled && wiring.connected)) :
    Accounts cfg enabled blames
      (tryCatch (RelayService.sendFromRelayer cfg destination data) fun _ => throw error) none :=
  .reworded (accounts_sendFromRelayer (fun _ _ _ => refuses) simulates enables)

end Services

/-! ## Responses -/

section Responses

variable {cfg} {enabled : Wiring → Bool}

/-- An error is answered as its cause demands exactly when the cause is preserved. -/
def AnsweredBy (handler : RelayError → Except RelayError HttpAnswer)
    (preserves : FailureCause → Bool) (cause : FailureCause) (error : RelayError) : Prop :=
  HttpAnswer.status (handler error) = cause.status ↔ preserves cause = true

/-- What is accounted for is answered by the controller. -/
theorem ends_attempt {handler : RelayError → Except RelayError HttpAnswer}
    {preserves : FailureCause → Bool} {fn : Relay Nat}
    (accounts : Accounts cfg enabled (AnsweredBy handler preserves) fn none) :
    Ends (exchanges.summarised (FailureCause.next cfg enabled))
      (fun outcome final => ∀ cause, final.2 = some cause →
        (HttpAnswer.status outcome = cause.status ↔ preserves cause = true))
      (attempt handler fn) ((), none) := by
  refine Ends.tryCatch (Ends.bind (Ends.mono accounts ?_))
  rintro (thrown | hash) ⟨⟨⟩, blame⟩ accounted
  · rintro cause rfl
    obtain ⟨error, same, answered⟩ := accounted cause rfl
    obtain rfl := Except.error.inj same
    exact answered
  · rintro cause rfl
    obtain ⟨error, same, -⟩ := accounted cause rfl
    cases same

theorem FailureCause.ofSimulation_cases {data : ContractCall} {error : CallError}
    {cause : FailureCause} (failed : ofSimulation data error = some cause) :
    (error.isTransportFailure = true ∧ cause = .transport) ∨
      error.isTransportFailure = false ∧ cause = .reverted data := by
  unfold ofSimulation at failed
  cases transport : error.isTransportFailure with
  | true =>
      rw [if_pos transport] at failed
      exact .inl ⟨rfl, (Option.some.inj failed).symm⟩
  | false =>
      rw [if_neg (Bool.eq_false_iff.mp transport)] at failed
      split at failed
      · exact .inr ⟨rfl, (Option.some.inj failed).symm⟩
      · cases failed

/-- The relay's refusals for now are answered so. -/
theorem refuses_relay {preserves : FailureCause → Bool} (kept : preserves .refused = true) :
    Refuses (AnsweredBy RelayController.handler preserves) := by
  intro code message temporary
  refine iff_of_true ?_ kept
  rcases temporary with rfl | rfl <;> rfl

/-- A simulation of a request tells a missing answer from a revert. -/
theorem simulates_request {preserves : FailureCause → Bool}
    (kept : ∀ cause, preserves cause = true) (data : ContractCall) :
    Simulates (AnsweredBy RelayController.handler preserves) data RelayService.requestRefusal := by
  intro error cause failed
  refine iff_of_true ?_ (kept cause)
  unfold RelayService.requestRefusal RelayService.callError
  rcases FailureCause.ofSimulation_cases failed with ⟨transport, rfl⟩ | ⟨answered, rfl⟩
  · rw [if_pos transport]
    rfl
  · rw [if_neg (Bool.eq_false_iff.mp answered)]
    rfl

/-- A simulation of a permit does not. -/
theorem simulates_permit (body : PermitRequestDto) (data : ContractCall) :
    Simulates (AnsweredBy RelayController.handler (Endpoint.permit body).preserves) data
      RelayService.permitRefusal := by
  intro error cause failed
  rcases FailureCause.ofSimulation_cases failed with ⟨-, rfl⟩ | ⟨-, rfl⟩
  · exact iff_of_false (by nofun) (by nofun)
  · exact iff_of_true rfl rfl

/-- What the relay throws at the pool's controller is answered with 500. -/
theorem simulates_publication (body : PoolWithdrawDto) (root : Int) :
    Simulates (AnsweredBy PoolController.handler (Endpoint.withdraw body).preserves)
      (.updateRoot root) RelayService.relayerRefusal := by
  intro error cause failed
  unfold RelayService.relayerRefusal RelayService.callError
  rcases FailureCause.ofSimulation_cases failed with ⟨transport, rfl⟩ | ⟨answered, rfl⟩
  · rw [if_pos transport]
    exact iff_of_false (by nofun) (by nofun)
  · rw [if_neg (Bool.eq_false_iff.mp answered)]
    exact iff_of_false (by nofun) (by nofun)

/-- What the pool says of its own transactions is answered with 400. -/
theorem answeredBy_reworded {preserves : FailureCause → Bool} {cause : FailureCause}
    (message : String) (kept : preserves cause = decide (cause.status = 400)) :
    AnsweredBy PoolController.handler preserves cause (.poolRejected .rejected message) := by
  unfold AnsweredBy
  rw [kept, decide_eq_true_iff]
  exact eq_comm

/-- The failures of a root's publication reach the controller as they are, those of the
withdrawal's own transaction reworded. -/
theorem accounts_relayProof (body : PoolWithdrawDto) (root : Int) (data : JsString)
    (proof : WithdrawProof) :
    Accounts cfg ((Endpoint.withdraw body).enabled cfg)
      (AnsweredBy PoolController.handler (Endpoint.withdraw body).preserves)
      (PoolService.relayProof lib cfg root data proof) none := by
  refine .bind (accounts_publishAspRoot (fun code message _ => ?_)
    (simulates_publication body root) fun _ => Bool.and_true _) fun _ => .encoded ?_
  · exact iff_of_false (by nofun) (by nofun)
  · refine accounts_reworded (answeredBy_reworded _ rfl) (fun failure cause failed => ?_)
      fun _ => Bool.and_true _
    rcases FailureCause.ofSimulation_cases failed with ⟨-, rfl⟩ | ⟨-, rfl⟩ <;>
      exact answeredBy_reworded _ rfl

theorem accounts_withdraw (body : PoolWithdrawDto) :
    Accounts cfg ((Endpoint.withdraw body).enabled cfg)
      (AnsweredBy PoolController.handler (Endpoint.withdraw body).preserves)
      (PoolService.withdraw lib cfg body) none := by
  unfold PoolService.withdraw
  split
  · exact .ended _
  · refine .bind (.blameless (.perform rfl)) fun synced => ?_
    split
    · exact .ended _
    · exact .bind (.ended _) fun withdrawal => .bind (.ended _) fun signals =>
        .bind (.blameless (.perform rfl)) fun rows => .bind (.ended _) fun known =>
          .bind (.ended _) fun root => .bind (.ended _) fun proof =>
            .exclusively (accounts_relayProof lib body root withdrawal.data proof)

theorem accounts_shield (body : PoolShieldDto) :
    Accounts cfg ((Endpoint.shield body).enabled cfg)
      (AnsweredBy PoolController.handler (Endpoint.shield body).preserves)
      (PoolService.shield lib cfg body) none := by
  unfold PoolService.shield
  split
  · exact .ended _
  · refine .bind (.ended _) fun request => ?_
    split
    · exact .ended _
    · refine .bind (.blameless (.perform rfl)) fun now => ?_
      split
      · exact .ended _
      · exact .bind (.ended _) fun data => accounts_reworded (answeredBy_reworded _ rfl)
          (fun _ cause _ => answeredBy_reworded _ rfl) fun _ => Bool.and_true _

end Responses

/-- Every route answers the failures of its sends as their causes demand exactly when it
preserves them. -/
theorem ends_answer (endpoint : Endpoint) :
    Ends (exchanges.summarised (FailureCause.next cfg (endpoint.enabled cfg)))
      (fun outcome final => ∀ cause, final.2 = some cause →
        (HttpAnswer.status outcome = cause.status ↔ endpoint.preserves cause = true))
      (endpoint.answer lib cfg) ((), none) := by
  cases endpoint with
  | relay body =>
      refine ends_attempt (accounts_enabled (refuses_relay rfl) (fun _ => Bool.and_true _) ?_)
      exact fun wiring => accounts_submitRequest (refuses_relay rfl)
        (simulates_request fun _ => rfl) _ body
  | resolution body =>
      exact ends_attempt (accounts_submitResolution (refuses_relay rfl)
        (simulates_request fun _ => rfl) body)
  | permit body =>
      exact ends_attempt (accounts_submitPermit (refuses_relay rfl) (simulates_permit body)
        (fun _ => Bool.and_true _) body)
  | withdraw body => exact ends_attempt (accounts_withdraw lib body)
  | shield body => exact ends_attempt (accounts_shield lib body)

/-- **A failed send is answered as its cause demands**, 503 when it may be retried and 400 when
it may not, exactly on the routes that preserve the cause. -/
theorem status_iff_preserves (endpoint : Endpoint) {trace : List Exchange}
    {outcome : Except RelayError HttpAnswer} {cause : FailureCause}
    (path : Reaches exchanges (endpoint.answer lib cfg) () trace (.done outcome) ())
    (failed : failureCause cfg (endpoint.enabled cfg) trace = some cause) :
    HttpAnswer.status outcome = cause.status ↔ endpoint.preserves cause = true := by
  refine (ends_answer lib cfg endpoint).outcome (path.summarised _ none) cause ?_
  exact (FailureCause.foldl_next cfg _ trace none).trans failed

/-! ## The daily cap -/

namespace SampleRelay

/-- The daily cap has been reached. -/
def capped : RelayWorld := world.setCounter (.spend 0) ⟨5000000000, none⟩

/-- The answers to a request once the cap has been reached. -/
def refusing (call : RelayCall) (_ : Unit) : Except RelayError call.Answer × Unit :=
  ((node.respond call capped).1, ())

/-- What happens during a request to a route, over no more than twenty calls. -/
def cappedTrace (endpoint : Endpoint) : List Exchange :=
  Async.recorded refusing (fun call _ => [⟨call, (node.respond call capped).1, true⟩]) 20
    (endpoint.answer libraries config) ()

theorem capped_path {endpoint : Endpoint} {outcome : Except RelayError HttpAnswer}
    (ended : (Async.stopped refusing 20 (endpoint.answer libraries config) ()).1.outcome? =
      some outcome) :
    Reaches exchanges (endpoint.answer libraries config) () (cappedTrace endpoint)
      (.done outcome) () := by
  have path : Reaches exchanges (endpoint.answer libraries config) () (cappedTrace endpoint)
      (Async.stopped refusing 20 (endpoint.answer libraries config) ()).1 () :=
    Async.reaches_recorded refusing
      (fun call _ => ⟨true, rfl, node.respond_possible capped call⟩) 20 _ ()
  rw [Async.eq_done_of_outcome? ended] at path
  exact path

/-- An account returns its balance to the pool. -/
def deposited : PoolShieldDto where
  request := some {
    owner := address '1'
    value := decimalString 1000000
    precommitment := decimalString 31
    deadline := decimalString 4102444800 }
  signature := word '8'

/-- The relay's refusal of a deposit is answered as if the deposit were invalid. -/
theorem deposit_refused :
    (Async.stopped refusing 20
      ((Endpoint.shield deposited).answer libraries config) ()).1.outcome? = some (.ok (.badRequest
        "That deposit could not be submitted. Nothing was sent and nothing was spent.")) := by
  decide +kernel

/-- The relay's refusal of a permit is answered as one for now. -/
theorem permit_refused :
    (Async.stopped refusing 20
      ((Endpoint.permit (permit (address 'c'))).answer libraries config) ()).1.outcome? =
        some (.ok (.serviceUnavailable
          "Gasless trading is paused for today. Nothing was spent from your balance.")) := by
  decide +kernel

end SampleRelay

open SampleRelay in
/-- The failure of that permit is answered as one that may be retried. -/
theorem status_iff_preserves_permit : ∃ outcome,
    Reaches exchanges ((Endpoint.permit (permit (address 'c'))).answer libraries config) ()
      (cappedTrace (.permit (permit (address 'c')))) (.done outcome) () ∧
    HttpAnswer.status outcome = 503 := by
  have path := capped_path permit_refused
  exact ⟨_, path, (status_iff_preserves libraries config (.permit (permit (address 'c'))) path
    (by decide +kernel : _ = some FailureCause.refused)).mpr rfl⟩

open SampleRelay in
/-- **A deposit that only has to wait for the next day's cap is refused for good.** -/
theorem capped_deposit_refused :
    ¬ ∀ (endpoint : Endpoint) (trace : List Exchange) (outcome : Except RelayError HttpAnswer)
        (cause : FailureCause),
      Reaches exchanges (endpoint.answer libraries config) () trace (.done outcome) () →
        failureCause config (endpoint.enabled config) trace = some cause →
          HttpAnswer.status outcome = cause.status := by
  intro kept
  have status := kept (.shield deposited) _ _ .refused (capped_path deposit_refused)
    (by decide +kernel)
  cases status

end Numera
