import Numera.Relay.Destinations

/-! # The two relays

Trades and resolutions pass through the same steps, each with the destination, the selectors
and the forwarder of its own, and are sent by the same queue. Where nothing else is sent to a
forwarder, whatever reaches it carries a request that its own relay has checked and its own
verifier has accepted (`relays_apart`). A permit of its own is sent to the token it names, so
that a caller has anything signed as a permit sent to a forwarder (`permit_reaches_forwarder`).
-/

namespace Numera

open Async (CallsOnly Follows System)

/-! ## What a forwarder is given -/

/-- The inner request that a call of a forwarder carries, with the owner of its permit. -/
def ContractCall.inner : ContractCall → Option (Option JsString × ContractRequest)
  | execute request => some (none, request)
  | executeWithPermit owner _ _ _ _ _ request => some (some owner, request)
  | _ => none

/-- How far a request has come: the wiring it has read, and the first request that a forwarder
has verified for it. -/
structure ForwardStage where
  wiring : Option Wiring := none
  verified : Option (JsString × ContractRequest) := none

def forwardStage (_ : RelayRequest) (stage : ForwardStage) (_ : RelayWorld) :
    (call : RelayCall) → Except RelayError call.Answer → ForwardStage
  | .wiring, .ok wiring => { stage with wiring := stage.wiring.or (some wiring) }
  | .verifyRelayable forwarder request, .ok true =>
      { stage with verified := stage.verified.or (some (forwarder, request)) }
  | _, _ => stage

variable (lib : RelayLibraries) (cfg : RelayConfig)

/-- The services, with what has been verified for their requests. -/
def forwardSystem (initial : RelayWorld) :
    System RelayCall.Answer RelayError Nat RelayRequest ForwardStage RelayWorld RelayCall :=
  relaySystem lib cfg initial (fun _ => {}) forwardStage

/-- A request that is being served. -/
abbrev Forwarding : Type :=
  Async.Thread RelayCall.Answer RelayError Nat RelayRequest ForwardStage

/-- A transaction carries a request for a destination, with a selector that can be relayed to it,
without value, within the gas that a request may ask for, with no permit but its signer's, and its
forwarder has verified exactly this request. -/
structure Relays (destination : JsString) (selectors : List JsString) (forwarder : JsString)
    (verified : Option (JsString × ContractRequest)) (data : ContractCall) (owner : Option JsString)
    (request : ContractRequest) : Prop where
  carried : data.inner = some (owner, request)
  target : request.to.toLowerCase = destination.toLowerCase
  selector : JsString.toLowerCase (request.data.take 10) ∈ selectors
  whole : 10 ≤ request.data.length
  value : request.value = 0
  gas : request.gas ≤ cfg.maxGas
  permit : ∀ account, owner = some account → account.toLowerCase = request.from.toLowerCase
  relayable : verified = some (forwarder, request)

/-- A transaction was sent for a request that is being served, as its relay may send it. -/
def RelayedBy (threads : List Forwarding) (destination : Option JsString)
    (selectors : List JsString) (forwarder : JsString) (tx : RelayTransaction) : Prop :=
  ∃ address, destination = some address ∧ ∃ thread ∈ threads, ∃ owner request,
    Relays cfg address selectors forwarder thread.stage.verified tx.data owner request

/-- What is sent to either forwarder carries a request of its own relay, whatever either entry
point answers with a hash has been verified by its forwarder, and no payload has been by both. -/
structure RelaysApart (wiring : Wiring) (records : List RelayCall) (threads : List Forwarding) :
    Prop where
  trades : ∀ tx, .sendTransaction tx ∈ records →
    tx.to.toLowerCase = cfg.forwarder.toLowerCase →
      RelayedBy cfg threads wiring.engine
        (RelayService.selectorsOf lib RelayService.relayableSignatures) cfg.forwarder tx
  resolutions : ∀ tx, .sendTransaction tx ∈ records →
    tx.to.toLowerCase = cfg.resolutionForwarder.toLowerCase →
      RelayedBy cfg threads wiring.resolver
        (RelayService.selectorsOf lib RelayService.resolutionSignatures) cfg.resolutionForwarder tx
  accepted : ∀ thread ∈ threads, ∀ payload,
    thread.request = .submit payload ∨ thread.request = .submitResolution payload →
      ∀ hash, thread.task = .done (.ok hash) → thread.stage.verified.isSome
  apart : ∀ first ∈ threads, ∀ second ∈ threads, ∀ payload, first.request = .submit payload →
    second.request = .submitResolution payload →
      ¬ (first.stage.verified.isSome ∧ second.stage.verified.isSome)

/-- Nothing but a trade is sent to the forwarder of trades, and nothing but a resolution to the
forwarder of resolutions. -/
def RelayRequest.KeepsToRelay (cfg : RelayConfig) (request : RelayRequest) : Prop :=
  ((request.destination cfg).toLowerCase = cfg.forwarder.toLowerCase →
      ∃ payload, request = .submit payload) ∧
    ((request.destination cfg).toLowerCase = cfg.resolutionForwarder.toLowerCase →
      ∃ payload, request = .submitResolution payload)

/-! ## What each request verifies and sends -/

namespace RelayRequest

/-- The body of a request that is forwarded. -/
def payload : RelayRequest → Option RelayRequestDto
  | submit payload | submitResolution payload => some payload
  | _ => none

/-- The rules a body is forwarded by, once the wiring is known. -/
def rules (wiring : Wiring) : RelayRequest → Option (RelayService.RequestRules × RelayRequestDto)
  | submit payload => some (RelayService.tradingRules lib cfg wiring, payload)
  | submitResolution payload =>
      wiring.resolver.map fun resolver => (RelayService.resolutionRules lib cfg resolver, payload)
  | _ => none

/-- A request passes the free checks of its relay, whose forwarder is the given one. -/
def Checked (wiring : Wiring) (request : RelayRequest) (forwarder : JsString)
    (signed : ContractRequest) : Prop :=
  ∃ rules payload destination, request.rules lib cfg wiring = some (rules, payload) ∧
    rules.forwarder = forwarder ∧ rules.destination = some destination ∧
    RelayService.toContractRequest payload = .ok signed ∧
    rules.refusal cfg destination payload signed = none

/-- A request has what it passed the free checks with verified, and sends what was verified. -/
def MayForward (request : RelayRequest) (stage : ForwardStage) (made : RelayCall) : Prop :=
  (request.payload.isSome → ∀ forwarder signed, made = .verifyRelayable forwarder signed →
    ∃ wiring, stage.wiring = some wiring ∧ request.Checked lib cfg wiring forwarder signed) ∧
  ∀ tx, made = .sendTransaction tx → tx.to = request.destination cfg ∧
    ∀ payload, request.payload = some payload → ∃ signed,
      stage.verified = some (request.destination cfg, signed) ∧
        RelayService.forwarded lib payload signed = .ok tx.data

/-- A hash is answered for what was verified. -/
def MayAnswer (request : RelayRequest) (stage : ForwardStage) (outcome : Except RelayError Nat) :
    Prop :=
  request.payload.isSome → ∀ hash, outcome = .ok hash → stage.verified.isSome

end RelayRequest

/-- A call that neither reads the wiring, asks a forwarder, nor sends. -/
def RelayCall.silent : RelayCall → Bool
  | wiring | verifyRelayable _ _ | sendTransaction _ => false
  | _ => true

section Forwarded

variable {lib cfg} {request : RelayRequest} {rules : RelayService.RequestRules}
  {payload : RelayRequestDto} {wiring : Wiring} {stage : ForwardStage}

/-- A body is sent to the forwarder of its rules. -/
theorem RelayRequest.rules_spec (own : request.rules lib cfg wiring = some (rules, payload)) :
    request.payload = some payload ∧ rules.forwarder = request.destination cfg := by
  cases request with
  | submit body =>
      obtain ⟨rfl, rfl⟩ := Prod.mk.inj (Option.some.inj own)
      exact ⟨rfl, rfl⟩
  | submitResolution body =>
      obtain ⟨resolver, -, same⟩ := Option.map_eq_some_iff.mp own
      obtain ⟨rfl, rfl⟩ := Prod.mk.inj same
      exact ⟨rfl, rfl⟩
  | _ => cases own

theorem silent_of_idle (call : RelayCall) (idle : call.idle) : call.silent = true := by
  cases call <;> first | rfl | cases idle

/-- A silent call does not move the stage. -/
theorem forwardStage_silent {call : RelayCall} (silent : call.silent) (world : RelayWorld)
    (answer : Except RelayError call.Answer) :
    forwardStage request stage world call answer = stage := by
  cases call with
  | wiring | verifyRelayable => cases silent
  | _ => rfl

theorem mayForward_silent {call : RelayCall} (silent : call.silent) :
    request.MayForward lib cfg stage call := by
  refine ⟨fun _ forwarder signed same => ?_, fun tx same => ?_⟩
  · subst same
    cases silent
  · subst same
    cases silent

/-- A part that makes silent calls only, and what follows it. -/
theorem forwards_after {α : Type} {finish : ForwardStage → Except RelayError Nat → Prop}
    {first : Relay α} {rest : α → Relay Nat} (only : first.CallsOnly fun call => call.silent)
    (follows : ∀ value, Follows (forwardStage request) (request.MayForward lib cfg) finish stage
      (rest value))
    (thrown : ∀ error, finish stage (.error error)) :
    Follows (forwardStage request) (request.MayForward lib cfg) finish stage (first >>= rest) :=
  .neutral_bind only (fun _ => mayForward_silent) (fun _ silent => forwardStage_silent silent) follows
    thrown

/-- A body that has been verified is sent. -/
theorem forwards_verified {signed : ContractRequest}
    (own : request.rules lib cfg wiring = some (rules, payload))
    (verified : stage.verified = some (rules.forwarder, signed)) :
    Follows (forwardStage request) (request.MayForward lib cfg) request.MayAnswer stage
      (exclusively .queue
        (RelayService.simulateAndSend lib cfg payload signed rules.forwarder)) := by
  obtain ⟨body, forwarder⟩ := RelayRequest.rules_spec own
  have only : (exclusively .queue
      (RelayService.simulateAndSend lib cfg payload signed rules.forwarder)).CallsOnly fun call =>
        call.silent ∨ ∃ tx, call = .sendTransaction tx ∧ tx.to = rules.forwarder ∧
          RelayService.forwarded lib payload signed = .ok tx.data := by
    have idle : ∀ call : RelayCall, call.idle → call.silent ∨ ∃ tx, call = .sendTransaction tx ∧
        tx.to = rules.forwarder ∧ RelayService.forwarded lib payload signed = .ok tx.data :=
      fun call idle => .inl (silent_of_idle call idle)
    refine callsOnly_enqueue idle (callsOnly_done fun data encoded =>
      .bind (callsOnly_simulate idle _ _ _) fun gas => callsOnly_sendTransaction idle ?_)
    rintro tx sent rfl
    exact .inr ⟨tx, rfl, sent, encoded⟩
  refine .of_callsOnly only (fun call made => ?_) (fun call made world answer => ?_)
    fun outcome _ hash _ => ?_
  · rcases made with silent | ⟨tx, rfl, sent, encoded⟩
    · exact mayForward_silent silent
    · refine ⟨fun _ _ _ same => (by cases same), fun tx' same => ?_⟩
      obtain rfl := RelayCall.sendTransaction.inj same
      refine ⟨sent.trans forwarder, fun payload' same => ⟨signed, ?_, ?_⟩⟩
      · rw [verified, forwarder]
      · obtain rfl := Option.some.inj (body.symm.trans same)
        exact encoded
  · rcases made with silent | ⟨tx, rfl, -⟩
    · exact forwardStage_silent silent world answer
    · rfl
  · rw [verified]
    rfl

/-- A body is checked, verified and sent by its rules. -/
theorem forwards_submitRequest (own : request.rules lib cfg wiring = some (rules, payload))
    (wired : stage.wiring = some wiring) (fresh : stage.verified = none) :
    Follows (forwardStage request) (request.MayForward lib cfg) request.MayAnswer stage
      (RelayService.submitRequest lib cfg rules payload) := by
  have refused : ∀ reached error, request.MayAnswer reached (.error error) := by
    intro reached error _ hash same
    cases same
  unfold RelayService.submitRequest
  cases read : RelayService.toContractRequest payload with
  | error thrown => exact refused _ _
  | ok signed =>
      rw [Async.done_ok_bind]
      cases target : rules.destination with
      | none => exact refused _ _
      | some destination =>
          simp only
          cases message : rules.refusal cfg destination payload signed with
          | some text => exact refused _ _
          | none =>
              refine forwards_after (callsOnly_enforceAccountRate silent_of_idle _) (fun _ => ?_)
                (refused _)
              refine forwards_after (callsOnly_enforceDailyCap silent_of_idle fun _ => rfl)
                (fun _ => ?_) (refused _)
              refine .bind (.tryCatch ⟨⟨?_, fun tx same => by cases same⟩, fun world answer => ?_⟩)
              · intro _ forwarder request' same
                obtain ⟨rfl, rfl⟩ := RelayCall.verifyRelayable.inj same
                exact ⟨wiring, wired, rules, payload, destination, own, rfl, target, read, message⟩
              · cases answer with
                | error thrown => exact refused _ _
                | ok valid =>
                    cases valid with
                    | false => exact refused _ _
                    | true => exact forwards_verified own (by rw [forwardStage, fresh]; rfl)

/-- The wiring is read first. -/
theorem forwards_wiring {finish : ForwardStage → Except RelayError Nat → Prop}
    {rest : Wiring → Relay Nat}
    (follows : ∀ wiring, Follows (forwardStage request) (request.MayForward lib cfg) finish
      { wiring := some wiring } (rest wiring))
    (thrown : ∀ error, finish {} (.error error)) :
    Follows (forwardStage request) (request.MayForward lib cfg) finish {}
      (RelayCall.wiring.request >>= rest) := by
  refine .perform_bind ⟨fun _ _ _ same => ?_, fun _ same => ?_⟩ (fun _ wiring => follows wiring)
    fun _ error => thrown error
  · cases same
  · cases same

variable (lib cfg) in
/-- Every request verifies and sends as it may. -/
theorem forwards (initial : RelayWorld) (request : RelayRequest) :
    Follows ((forwardSystem lib cfg initial).next request) (request.MayForward lib cfg)
      request.MayAnswer ((forwardSystem lib cfg initial).arrival request)
      ((forwardSystem lib cfg initial).start request) := by
  have refused : ∀ reached error, request.MayAnswer reached (.error error) := by
    intro reached error _ hash same
    cases same
  have apart : request.payload = none → ∀ {task : Relay Nat},
      task.CallsOnly (RelayCall.OnlyTo (request.destination cfg)) →
        Follows (forwardStage request) (request.MayForward lib cfg) request.MayAnswer {} task := by
    intro none task only
    refine .of_always only (fun reached call sends => ⟨fun some => ?_, fun tx same =>
      ⟨sends tx same, fun payload some => ?_⟩⟩) fun reached outcome some => ?_
    · rw [none] at some
      cases some
    · rw [none] at some
      cases some
    · rw [none] at some
      cases some
  cases request with
  | submit payload =>
      refine forwards_wiring (fun wiring => ?_) (refused _)
      split
      · exact refused _ _
      · exact forwards_submitRequest rfl rfl rfl
  | submitResolution payload =>
      refine forwards_wiring (fun wiring => ?_) (refused _)
      split
      · exact refused _ _
      · cases there : wiring.resolver with
        | none => exact refused _ _
        | some resolver =>
            exact forwards_submitRequest (by rw [RelayRequest.rules, there]; rfl) rfl rfl
  | submitPermit permit =>
      exact apart rfl (callsOnly_submitPermit onlyTo_plain (by intro tx same; cases same)
        (by intro key tx same; cases same) fun tx to_token _ => onlyTo_sent tx to_token)
  | sendFromRelayer destination data => exact apart rfl (onlyTo_sendFromRelayer cfg data)
  | withdraw dto => exact apart rfl (onlyTo_withdraw lib cfg dto)
  | shield dto =>
      exact apart rfl (callsOnly_shield onlyTo_plain (by intro tx same; cases same)
        (by intro key tx same; cases same) fun tx to_entrypoint _ => onlyTo_sent tx to_entrypoint)

end Forwarded

/-! ## Runs -/

section Runs

variable {lib cfg} {initial world : RelayWorld} {records : List RelayCall}
  {threads : List Forwarding}

/-- What a request has read of the wiring is what was wired at boot. -/
theorem wiring_of_stage
    (run : (forwardSystem lib cfg initial).Run System.unconstrained records world threads) :
    ∀ thread ∈ threads, ∀ wiring, thread.stage.wiring = some wiring → wiring = initial.wiring := by
  refine run.each (fun _ thread => ∀ wiring, thread.stage.wiring = some wiring →
    wiring = initial.wiring) ?_ (fun _ _ _ _ held => held) ?_
    fun _ _ _ _ _ _ _ _ _ _ _ _ _ held => held
  · intro _ _ wiring same
    cases same
  · intro before threads position request stage call continued answer record later turn held wiring
      read
    obtain ⟨_, earlier⟩ := turn.before
    have answered : relayEnvironment call before answer record later := turn.answered
    change (forwardStage request stage before call answer).wiring = some wiring at read
    unfold forwardStage at read
    split at read
    · rename_i given
      obtain ⟨same, -⟩ := relayEnvironment_ok answered
      obtain rfl := Except.ok.inj same
      cases already : stage.wiring with
      | none =>
          rw [already] at read
          obtain rfl := Option.some.inj read
          exact wiring_of_relayRun lib cfg earlier
      | some old =>
          rw [already] at read
          obtain rfl := Option.some.inj read
          exact held old already
    · exact held wiring read
    · exact held wiring read

/-- What has been verified for a request passed the free checks of its relay. -/
theorem checked_of_verified
    (run : (forwardSystem lib cfg initial).Run System.unconstrained records world threads) :
    ∀ thread ∈ threads, thread.request.payload.isSome → ∀ forwarder signed,
      thread.stage.verified = some (forwarder, signed) →
        thread.request.Checked lib cfg initial.wiring forwarder signed := by
  refine run.each (fun _ thread => thread.request.payload.isSome → ∀ forwarder signed,
    thread.stage.verified = some (forwarder, signed) →
      thread.request.Checked lib cfg initial.wiring forwarder signed) ?_ (fun _ _ _ _ held => held) ?_
    fun _ _ _ _ _ _ _ _ _ _ _ _ _ held => held
  · intro _ _ _ _ _ same
    cases same
  · intro before threads position request stage call continued answer record later turn held body
      forwarder signed verified
    obtain ⟨_, earlier⟩ := turn.before
    have member := List.mem_of_getElem? turn.found
    have follows := (earlier.follows (forwards lib cfg initial) _ member).1
    change (forwardStage request stage before call answer).verified = some (forwarder, signed)
      at verified
    unfold forwardStage at verified
    split at verified
    · exact held body forwarder signed verified
    · rename_i asked signed'
      cases already : stage.verified with
      | none =>
          rw [already] at verified
          obtain ⟨rfl, rfl⟩ := Prod.mk.inj (Option.some.inj verified)
          obtain ⟨wiring, read, checked⟩ := follows.1 body _ _ rfl
          obtain rfl := wiring_of_stage earlier _ member wiring read
          exact checked
      | some old =>
          rw [already] at verified
          exact held body forwarder signed (already.trans verified)
    · exact held body forwarder signed verified

/-- What was verified first stays so. -/
theorem verified_stays (request : RelayRequest) (world : RelayWorld) {stage : ForwardStage}
    {call : RelayCall}
    {answer : Except RelayError call.Answer} {asked : JsString × ContractRequest}
    (verified : stage.verified = some asked) :
    (forwardStage request stage world call answer).verified = some asked := by
  unfold forwardStage
  split
  · exact verified
  · rw [verified]
    rfl
  · exact verified

/-- A transaction goes to the destination of its request, with what was verified for it. -/
def SentAs (lib : RelayLibraries) (cfg : RelayConfig) (request : RelayRequest) (stage : ForwardStage)
    (entry : RelayCall) : Prop :=
  ∀ tx, entry = .sendTransaction tx → tx.to = request.destination cfg ∧
    ∀ payload, request.payload = some payload → ∃ signed,
      stage.verified = some (request.destination cfg, signed) ∧
        RelayService.forwarded lib payload signed = .ok tx.data

/-- Every transaction was sent for a request, as it may send. -/
theorem sent_as
    (run : (forwardSystem lib cfg initial).Run System.unconstrained records world threads) :
    ∀ entry ∈ records, ∃ thread ∈ threads, SentAs lib cfg thread.request thread.stage entry := by
  refine run.accounted (SentAs lib cfg) (fun request => forwards lib cfg initial request) ?_ ?_
  · intro before threads position request stage call continued answer record later turn allowed entry
      member tx same
    have made : entry = call := relayEnvironment_record turn.answered entry member
    obtain ⟨goes, sends⟩ := allowed.2 tx (made.symm.trans same)
    refine ⟨goes, fun payload body => ?_⟩
    obtain ⟨signed, verified, encoded⟩ := sends payload body
    exact ⟨signed, verified_stays request before verified, encoded⟩
  · intro before threads position request stage call continued answer record later turn entry sent tx
      same
    obtain ⟨goes, sends⟩ := sent tx same
    refine ⟨goes, fun payload body => ?_⟩
    obtain ⟨signed, verified, encoded⟩ := sends payload body
    exact ⟨signed, verified_stays request before verified, encoded⟩

/-- What passes the free checks. -/
theorem RelayService.RequestRules.refusal_none {rules : RelayService.RequestRules}
    {destination : JsString} {payload : RelayRequestDto} {request : ContractRequest}
    (free : rules.refusal cfg destination payload request = none) :
    request.to.toLowerCase = destination.toLowerCase ∧ request.value = 0 ∧
      request.gas ≤ cfg.maxGas ∧ 10 ≤ request.data.length ∧
      JsString.toLowerCase (request.data.take 10) ∈ rules.selectors ∧
      ∀ permit, payload.permit = some permit →
        permit.owner.toLowerCase = request.from.toLowerCase := by
  unfold RelayService.RequestRules.refusal at free
  split at free
  · cases free
  · rename_i target
    split at free
    · cases free
    · rename_i value
      split at free
      · cases free
      · rename_i gas
        split at free
        · cases free
        · rename_i selector
          split at free
          · cases free
          · rename_i foreign
            obtain ⟨whole, allowed⟩ := not_or.mp selector
            refine ⟨not_not.mp target, not_not.mp value, Int.not_lt.mp gas, Nat.not_lt.mp whole,
              not_not.mp allowed, fun permit there => ?_⟩
            rw [there] at foreign
            simpa using foreign

/-- What is sent for a body that passed the free checks and was verified. -/
theorem relays_of_checked {rules : RelayService.RequestRules} {destination : JsString}
    {payload : RelayRequestDto} {signed : ContractRequest} {data : ContractCall}
    {verified : Option (JsString × ContractRequest)}
    (free : rules.refusal cfg destination payload signed = none)
    (encoded : RelayService.forwarded lib payload signed = .ok data)
    (relayable : verified = some (rules.forwarder, signed)) :
    ∃ owner, Relays cfg destination rules.selectors rules.forwarder verified data owner signed := by
  obtain ⟨target, value, gas, whole, selector, foreign⟩ :=
    RelayService.RequestRules.refusal_none free
  unfold RelayService.forwarded at encoded
  cases bundled : payload.permit with
  | none =>
      rw [bundled] at encoded
      refine ⟨none, ?_, target, selector, whole, value, gas, fun account same => ?_, relayable⟩
      · rw [eq_of_encoded encoded]
        rfl
      · cases same
  | some permit =>
      rw [bundled] at encoded
      obtain ⟨amount, -, encoded⟩ := bind_eq_ok encoded
      obtain ⟨deadline, -, encoded⟩ := bind_eq_ok encoded
      refine ⟨some permit.owner, ?_, target, selector, whole, value, gas, fun account same => ?_,
        relayable⟩
      · rw [eq_of_encoded encoded]
        rfl
      · obtain rfl := Option.some.inj same
        exact foreign permit bundled

/-- **The two relays do not leak into each other**, where nothing else is sent to a forwarder and
the engine is not the resolver. -/
theorem relays_apart (lib : RelayLibraries) (cfg : RelayConfig) (initial : RelayWorld)
    (distinct : ∀ engine resolver, initial.wiring.engine = some engine →
      initial.wiring.resolver = some resolver → engine.toLowerCase ≠ resolver.toLowerCase)
    {records : List RelayCall} {world : RelayWorld} {threads : List Forwarding}
    (run : (forwardSystem lib cfg initial).Run System.unconstrained records world threads)
    (keeps : ∀ thread ∈ threads, thread.request.KeepsToRelay cfg) :
    RelaysApart lib cfg initial.wiring records threads := by
  have checked := checked_of_verified run
  refine ⟨fun tx sent goes => ?_, fun tx sent goes => ?_, fun thread member payload own hash ended => ?_,
    fun first here second there payload trade resolution both => ?_⟩
  · obtain ⟨thread, member, sends⟩ := sent_as run _ sent
    obtain ⟨destined, forwards⟩ := sends tx rfl
    obtain ⟨payload, own⟩ := (keeps thread member).1 (by rw [← destined, goes])
    have body : thread.request.payload = some payload := by rw [own]; rfl
    obtain ⟨signed, verified, encoded⟩ := forwards payload body
    obtain ⟨rules, payload', destination, ruled, -, target, -, free⟩ :=
      checked thread member (by rw [body]; rfl) _ _ verified
    rw [own] at ruled verified
    obtain ⟨rfl, rfl⟩ := Prod.mk.inj (Option.some.inj ruled)
    obtain ⟨owner, relays⟩ := relays_of_checked free encoded verified
    exact ⟨destination, target, thread, member, owner, signed, relays⟩
  · obtain ⟨thread, member, sends⟩ := sent_as run _ sent
    obtain ⟨destined, forwards⟩ := sends tx rfl
    obtain ⟨payload, own⟩ := (keeps thread member).2 (by rw [← destined, goes])
    have body : thread.request.payload = some payload := by rw [own]; rfl
    obtain ⟨signed, verified, encoded⟩ := forwards payload body
    obtain ⟨rules, payload', destination, ruled, -, target, -, free⟩ :=
      checked thread member (by rw [body]; rfl) _ _ verified
    rw [own] at ruled verified
    obtain ⟨resolver, wired, same⟩ := Option.map_eq_some_iff.mp ruled
    obtain ⟨rfl, rfl⟩ := Prod.mk.inj same
    obtain rfl := Option.some.inj target
    obtain ⟨owner, relays⟩ := relays_of_checked free encoded verified
    exact ⟨resolver, wired, thread, member, owner, signed, relays⟩
  · have answers := run.follows (forwards lib cfg initial) thread member
    rw [ended] at answers
    refine answers ?_ hash rfl
    rcases own with own | own <;> rw [own] <;> rfl
  · obtain ⟨⟨⟨forwarder, signed⟩, verified⟩, ⟨forwarder', signed'⟩, verified'⟩ :=
      both.imp Option.isSome_iff_exists.mp Option.isSome_iff_exists.mp
    obtain ⟨rules, body, engine, ruled, -, target, read, free⟩ :=
      checked first here (by rw [trade]; rfl) _ _ verified
    obtain ⟨rules', body', resolver, ruled', -, target', read', free'⟩ :=
      checked second there (by rw [resolution]; rfl) _ _ verified'
    rw [trade] at ruled
    rw [resolution] at ruled'
    obtain ⟨rfl, rfl⟩ := Prod.mk.inj (Option.some.inj ruled)
    obtain ⟨known, wired, same⟩ := Option.map_eq_some_iff.mp ruled'
    obtain ⟨rfl, rfl⟩ := Prod.mk.inj same
    obtain rfl := Option.some.inj target'
    obtain rfl := Except.ok.inj (read.symm.trans read')
    have toEngine := (RelayService.RequestRules.refusal_none free).1
    have toResolver := (RelayService.RequestRules.refusal_none free').1
    exact distinct engine known target wired (toEngine.symm.trans toResolver)

end Runs

/-! ## A permit and a trade -/

namespace SampleRelay

/-- A purchase, signed for the engine. -/
def purchase : RelayRequestDto where
  request := {
    «from» := address '1'
    «to» := address 'e'
    value := JsString.ascii "0"
    gas := JsString.ascii "300000"
    deadline := 4102444800
    data := JsString.ascii "0x1281311d"
    signature := JsString.ascii "0x" }

/-- Where the transactions of a record go, and whether they carry a request. -/
def carriedTo (records : List RelayCall) : List (JsString × Bool) :=
  records.filterMap fun call =>
    match call with
    | .sendTransaction tx => some (tx.to, tx.data.inner.isSome)
    | _ => none

theorem sent_of_carriedTo {records : List RelayCall} {address : JsString} {carries : Bool}
    (sent : carriedTo records = [(address, carries)]) :
    ∃ tx, .sendTransaction tx ∈ records ∧ tx.to = address ∧ tx.data.inner.isSome = carries := by
  have member : (address, carries) ∈ carriedTo records := by
    rw [sent]
    exact List.mem_singleton_self _
  obtain ⟨call, present, goes⟩ := List.mem_filterMap.mp member
  cases call with
  | sendTransaction tx =>
      obtain ⟨to_address, carried⟩ := Prod.mk.inj (Option.some.inj goes)
      exact ⟨tx, present, to_address, carried⟩
  | _ => cases goes

/-- A request is served by a node that finds nothing wrong, up to its transaction. -/
theorem forward_run (request : RelayRequest) (calls : Nat) (address : JsString) (carries : Bool)
    (played : (playRelay libraries config world (fun _ => {}) forwardStage node
      (fun _ _ _ _ _ => true) (.arrive request :: List.replicate calls (.call 0))
        (relaySystem libraries config world (fun _ => {}) forwardStage).standing).map
          (fun reached => (carriedTo reached.records, reached.threads.map (·.request))) =
      some ([(address, carries)], [request])) :
    ∃ records reached threads,
      (forwardSystem libraries config world).Run System.unconstrained records reached threads ∧
        (∀ thread ∈ threads, thread.request = request) ∧
        ∃ tx, .sendTransaction tx ∈ records ∧ tx.to = address ∧ tx.data.inner.isSome = carries := by
  obtain ⟨reached, followed, summary⟩ := Option.map_eq_some_iff.mp played
  obtain ⟨sent, requests⟩ := Prod.mk.inj summary
  refine ⟨reached.records, reached.world, reached.threads, ?_, fun thread present => ?_,
    sent_of_carriedTo sent⟩
  · exact run_of_playRelay libraries config (fun _ _ _ _ _ _ => trivial) _ .start followed
  · have own : thread.request ∈ reached.threads.map (·.request) := List.mem_map_of_mem present
    rw [requests] at own
    exact List.mem_singleton.mp own

end SampleRelay

open SampleRelay in
/-- **A permit reaches a forwarder** that it names as its token. -/
theorem permit_reaches_forwarder :
    ¬ ∀ records world threads,
      (forwardSystem libraries config SampleRelay.world).Run System.unconstrained records world
          threads →
        RelaysApart libraries config SampleRelay.world.wiring records threads := by
  intro apart
  obtain ⟨records, reached, threads, run, -, tx, sent, to_forwarder, carries⟩ :=
    forward_run (.submitPermit (permit (address 'f'))) 11 (address 'f') false (by decide +kernel)
  have trades := (apart records reached threads run).trades tx sent (by rw [to_forwarder]; rfl)
  obtain ⟨engine, -, thread, -, owner, request, relays⟩ := trades
  rw [relays.carried] at carries
  cases carries

open SampleRelay in
/-- A purchase reaches the forwarder of trades. -/
theorem relays_apart_purchase :
    ∃ records world threads tx,
      (forwardSystem libraries config SampleRelay.world).Run System.unconstrained records world
          threads ∧
        RelayCall.sendTransaction tx ∈ records ∧ tx.to = config.forwarder ∧
        RelaysApart libraries config SampleRelay.world.wiring records threads := by
  obtain ⟨records, reached, threads, run, own, tx, sent, to_forwarder, -⟩ :=
    forward_run (.submit purchase) 12 (address 'f') true (by decide +kernel)
  refine ⟨records, reached, threads, tx, run, sent, to_forwarder, ?_⟩
  refine relays_apart libraries config SampleRelay.world (fun engine resolver wired wired' => ?_) run
    fun thread present => ⟨fun _ => ⟨purchase, own thread present⟩, fun goes => ?_⟩
  · obtain rfl := Option.some.inj wired
    obtain rfl := Option.some.inj wired'
    decide +kernel
  · rw [own thread present] at goes
    exact absurd goes (by decide +kernel)

end Numera
