import Numera.Relay.Footprint

/-! # Where the relayer sends

Four of the five requests open to callers send to an address of the configuration.
The fifth, a permit of its own, is sent to the token it names, and nothing checks that
token: a caller chooses the address (`permit_chooses_destination`). In every run whose
permits name a configured token every transaction goes to a configured address
(`sent_to_configured`).
-/

namespace Numera

open Async (CallsOnly Follows System)

/-! ## Destinations -/

/-- The addresses a transaction on a caller's behalf may go to: the two forwarders, the
collateral token and the pool's entrypoint. -/
def RelayConfig.destinations (cfg : RelayConfig) : List JsString :=
  [cfg.forwarder, cfg.resolutionForwarder, cfg.collateral, cfg.entrypoint]

/-- One of the configured addresses, in whatever case it is written. -/
def RelayConfig.Configured (cfg : RelayConfig) (address : JsString) : Prop :=
  address.toLowerCase ∈ cfg.destinations.map JsString.toLowerCase

instance (cfg : RelayConfig) (address : JsString) : Decidable (cfg.Configured address) :=
  inferInstanceAs (Decidable (_ ∈ _))

theorem RelayConfig.configured_of_mem {cfg : RelayConfig} {address : JsString}
    (member : address ∈ cfg.destinations) : cfg.Configured address :=
  List.mem_map_of_mem member

namespace RelayRequest

/-- Where the transactions of a request go. -/
def destination (cfg : RelayConfig) : RelayRequest → JsString
  | submit _ => cfg.forwarder
  | submitResolution _ => cfg.resolutionForwarder
  | submitPermit permit => permit.token
  | sendFromRelayer destination _ => destination
  | withdraw _ | shield _ => cfg.entrypoint

/-- A request that callers may make. The other one is the platform's own. -/
def fromCaller : RelayRequest → Bool
  | sendFromRelayer _ _ => false
  | _ => true

/-- A call that is no transaction, or one to the request's destination and, for a permit,
with an allowed spender. -/
def MaySend (cfg : RelayConfig) (wiring : Wiring) (request : RelayRequest) (made : RelayCall) :
    Prop :=
  ∀ tx, made = .sendTransaction tx → tx.to = request.destination cfg ∧
    ∀ permit, request = .submitPermit permit → permit.spender.toLowerCase ∈ wiring.permitSpenders

/-- A permit that names an allowed spender names a configured token. -/
def NamesConfigured (cfg : RelayConfig) (wiring : Wiring) : RelayRequest → Prop
  | submitPermit permit =>
      permit.spender.toLowerCase ∈ wiring.permitSpenders → cfg.Configured permit.token
  | _ => True

instance (cfg : RelayConfig) (wiring : Wiring) (request : RelayRequest) :
    Decidable (request.NamesConfigured cfg wiring) := by
  unfold NamesConfigured
  split <;> infer_instance

end RelayRequest

/-! ## What each request sends -/

/-- Any call but a transaction to another address. -/
def RelayCall.OnlyTo (destination : JsString) (made : RelayCall) : Prop :=
  ∀ tx, made = .sendTransaction tx → tx.to = destination

variable (lib : RelayLibraries) (cfg : RelayConfig) {destination : JsString}

theorem onlyTo_plain (call : RelayCall) (plain : call.plain) : call.OnlyTo destination := by
  rintro tx rfl
  cases plain

theorem onlyTo_sent (tx : RelayTransaction) (to_destination : tx.to = destination) :
    RelayCall.OnlyTo destination (.sendTransaction tx) := by
  intro _ same
  obtain rfl := RelayCall.sendTransaction.inj same
  exact to_destination

theorem onlyTo_sendFromRelayer (data : ContractCall) :
    (RelayService.sendFromRelayer cfg destination data).CallsOnly
      (RelayCall.OnlyTo destination) :=
  callsOnly_sendFromRelayer onlyTo_plain nofun (fun _ => nofun)
    fun tx to_destination _ => onlyTo_sent tx to_destination

theorem onlyTo_publishAspRoot (root : Int) :
    (PoolService.publishAspRoot lib cfg root).CallsOnly (RelayCall.OnlyTo cfg.entrypoint) := by
  refine .bind (.perform fun tx same => nomatch same) fun current => ?_
  split
  · trivial
  · refine callsOnly_done fun data _ => .bind (onlyTo_sendFromRelayer cfg data) fun hash => ?_
    refine .bind (.tryCatch (.bind (.perform fun tx same => nomatch same) fun _ => trivial)
      fun _ => trivial) fun receipt => ?_
    split <;> trivial

theorem onlyTo_withdraw (dto : PoolWithdrawDto) :
    (PoolService.withdraw lib cfg dto).CallsOnly (RelayCall.OnlyTo cfg.entrypoint) := by
  unfold PoolService.withdraw
  split
  · trivial
  · refine .bind (.perform fun tx same => nomatch same) fun synced => ?_
    split
    · trivial
    · refine callsOnly_done fun withdrawal _ => callsOnly_done fun signals _ => ?_
      refine .bind (.perform fun tx same => nomatch same) fun rows => ?_
      refine callsOnly_done fun known _ => callsOnly_done fun root _ =>
        callsOnly_done fun proof _ => ?_
      refine callsOnly_exclusively (fun tx same => nomatch same) (fun _ tx same => nomatch same)
        (fun tx same => nomatch same) ?_
      exact .bind (onlyTo_publishAspRoot lib cfg root) fun _ => callsOnly_done fun call _ =>
        .tryCatch (onlyTo_sendFromRelayer cfg call) fun _ => trivial

/-! ## Permits -/

/-- The stage of a request: whether it is a permit whose spender has been allowed. -/
def spenderStage (request : RelayRequest) (stage : Bool) (_ : RelayWorld) :
    (call : RelayCall) → Except RelayError call.Answer → Bool
  | .wiring, .ok wiring =>
      match request with
      | .submitPermit permit => permit.spender.toLowerCase ∈ wiring.permitSpenders
      | _ => stage
  | _, _ => stage

/-- A request sends to its destination only, and a permit only once its spender has been
allowed. -/
def spenderAllowed (request : RelayRequest) (stage : Bool) (call : RelayCall) : Prop :=
  ∀ tx, call = .sendTransaction tx → tx.to = request.destination cfg ∧
    ((∃ permit, request = .submitPermit permit) → stage = true)

/-- The services, with the stages of permits. -/
def destinationSystem (initial : RelayWorld) :
    System RelayCall.Answer RelayError Nat RelayRequest Bool RelayWorld RelayCall :=
  relaySystem lib cfg initial (fun _ => false) spenderStage

theorem follows_submitPermit (permit : PermitRequestDto) :
    Follows (spenderStage (.submitPermit permit)) (spenderAllowed cfg (.submitPermit permit))
      (fun _ _ => True) false (RelayService.submitPermit lib cfg permit) := by
  refine .perform_bind (fun tx same => nomatch same) (fun world wiring => ?_) fun _ _ => trivial
  split
  · trivial
  · split
    · trivial
    · rename_i allowed
      have spends : spenderStage (.submitPermit permit) false world .wiring (.ok wiring) = true :=
        decide_eq_true (not_not.mp allowed)
      rw [spends]
      -- nothing that follows reads the wiring again, which would move the stage
      have only : (do
          RelayService.enforceAccountRate cfg permit.owner
          RelayService.enforceDailyCap cfg
          let data ← Async.done (RelayService.permitCall lib permit)
          exclusively .queue do
            let gas ← RelayService.simulate permit.token data RelayService.permitRefusal
            RelayService.sendTransaction cfg permit.token data gas : Relay Nat).CallsOnly
          fun call => call ≠ .wiring ∧ call.OnlyTo permit.token := by
        refine callsOnly_permitted (fun call plain => ⟨?_, onlyTo_plain call plain⟩)
          (fun _ => ⟨nofun, nofun⟩) ?_
        · rintro rfl
          cases plain
        · exact fun tx to_token _ => ⟨nofun, onlyTo_sent tx to_token⟩
      refine .of_callsOnly only (fun call sends tx same => ⟨sends.2 tx same, fun _ => rfl⟩)
        (fun call sends world answer => ?_) fun _ => trivial
      cases call with
      | wiring => exact absurd rfl sends.1
      | _ => rfl

/-- Every request keeps to its destination. -/
theorem follows_destination (initial : RelayWorld) (request : RelayRequest) :
    Follows ((destinationSystem lib cfg initial).next request) (spenderAllowed cfg request)
      (fun _ _ => True) ((destinationSystem lib cfg initial).arrival request)
      ((destinationSystem lib cfg initial).start request) := by
  have unstaged : ∀ {task : Relay Nat}, (∀ permit, request ≠ .submitPermit permit) →
      task.CallsOnly (RelayCall.OnlyTo (request.destination cfg)) →
        Follows (spenderStage request) (spenderAllowed cfg request) (fun _ _ => True) false task := by
    intro task other only
    refine .of_callsOnly only (fun call sends tx same =>
      ⟨sends tx same, fun ⟨permit, same⟩ => absurd same (other permit)⟩)
      (fun call _ world answer => ?_) fun _ => trivial
    unfold spenderStage
    split
    · split
      · exact absurd rfl (other _)
      · rfl
    · rfl
  cases request with
  | submit payload =>
      exact unstaged nofun (callsOnly_submit onlyTo_plain nofun (fun _ => nofun)
        fun tx to_forwarder _ => onlyTo_sent tx to_forwarder)
  | submitResolution payload =>
      exact unstaged nofun (callsOnly_submitResolution onlyTo_plain nofun (fun _ => nofun)
        fun tx to_forwarder _ => onlyTo_sent tx to_forwarder)
  | submitPermit permit => exact follows_submitPermit lib cfg permit
  | sendFromRelayer destination data => exact unstaged nofun (onlyTo_sendFromRelayer cfg data)
  | withdraw dto => exact unstaged nofun (onlyTo_withdraw lib cfg dto)
  | shield dto =>
      exact unstaged nofun (callsOnly_shield onlyTo_plain nofun (fun _ => nofun)
        fun tx to_entrypoint _ => onlyTo_sent tx to_entrypoint)

/-! ## Runs -/

section Runs

variable {lib cfg} {initial world : RelayWorld} {meets : System.Condition RelayCall.Answer
  RelayError Nat RelayRequest Bool RelayWorld} {records : List RelayCall}
  {threads : List (Async.Thread RelayCall.Answer RelayError Nat RelayRequest Bool)}

/-- A permit whose spender has been allowed names one of the spenders established at boot. -/
theorem spender_of_stage (run : (destinationSystem lib cfg initial).Run meets records world threads) :
    ∀ thread ∈ threads, thread.stage = true → ∀ permit, thread.request = .submitPermit permit →
      permit.spender.toLowerCase ∈ initial.wiring.permitSpenders := by
  refine run.each (fun _ thread => thread.stage = true → ∀ permit,
    thread.request = .submitPermit permit →
      permit.spender.toLowerCase ∈ initial.wiring.permitSpenders)
    (fun _ _ staged => nomatch staged) (fun _ _ _ _ held => held) ?_
    fun _ _ _ _ _ _ _ _ _ _ _ _ _ held => held
  intro before threads position request stage call continued answer record later turn held staged
    permit same
  obtain ⟨_, earlier⟩ := turn.before
  have answered : relayEnvironment call before answer record later := turn.answered
  obtain rfl : request = .submitPermit permit := same
  change spenderStage (.submitPermit permit) stage before call answer = true at staged
  unfold spenderStage at staged
  split at staged
  · rename_i wiring
    obtain ⟨read, -⟩ := relayEnvironment_ok answered
    obtain rfl := Except.ok.inj read
    rw [wiring_of_relayRun lib cfg earlier] at staged
    exact of_decide_eq_true staged
  · exact held staged permit rfl

/-- Every transaction was sent for a request, to its destination; for a permit, only with an
allowed spender. -/
theorem sent_for_request
    (run : (destinationSystem lib cfg initial).Run meets records world threads) :
    ∀ entry ∈ records, ∃ thread ∈ threads, thread.request.MaySend cfg initial.wiring entry := by
  refine System.Run.recorded run (fun request => follows_destination lib cfg initial request) ?_
  rintro before threads position request stage call continued answer record later turn allowed
    entry member tx rfl
  have answered : relayEnvironment call before answer record later := turn.answered
  obtain ⟨to_destination, permitted⟩ :=
    allowed tx (relayEnvironment_record answered _ member).symm
  refine ⟨to_destination, fun permit same => ?_⟩
  obtain ⟨_, earlier⟩ := turn.before
  exact spender_of_stage earlier _ (List.mem_of_getElem? turn.found) (permitted ⟨permit, same⟩)
    permit same

/-- **Every transaction for a caller goes to a configured address**, where the permits with an
allowed spender name a configured token. -/
theorem sent_to_configured (lib : RelayLibraries) (cfg : RelayConfig) (initial : RelayWorld)
    {records : List RelayCall} {world : RelayWorld}
    {threads : List (Async.Thread RelayCall.Answer RelayError Nat RelayRequest Bool)}
    (run : (destinationSystem lib cfg initial).Run System.unconstrained records world threads)
    (callers : ∀ thread ∈ threads, thread.request.fromCaller = true)
    (tokens : ∀ thread ∈ threads, thread.request.NamesConfigured cfg initial.wiring) :
    ∀ tx, RelayCall.sendTransaction tx ∈ records → cfg.Configured tx.to := by
  intro tx sent
  obtain ⟨thread, present, sends⟩ := sent_for_request run _ sent
  obtain ⟨to_destination, spender⟩ := sends tx rfl
  have caller := callers thread present
  have token := tokens thread present
  rw [to_destination]
  cases same : thread.request with
  | submit payload => exact RelayConfig.configured_of_mem (.head _)
  | submitResolution payload => exact RelayConfig.configured_of_mem (.tail _ (.head _))
  | submitPermit permit =>
      rw [same] at token
      exact token (spender permit same)
  | sendFromRelayer destination data =>
      rw [same] at caller
      cases caller
  | withdraw dto | shield dto =>
      exact RelayConfig.configured_of_mem (.tail _ (.tail _ (.tail _ (.head _))))

end Runs

/-! ## A caller's address -/

namespace SampleRelay

/-- An approval of the engine, at an address the caller names as the token. -/
def permit (token : JsString) : PermitRequestDto where
  token
  owner := address '1'
  spender := address 'e'
  value := JsString.ascii "1000000"
  deadline := JsString.ascii "4102444800"
  v := 27
  r := word '5'
  s := word '6'

/-- A permit is sent: it arrives and makes its first eleven calls. -/
def permitSent (token : JsString) : List (System.Move RelayRequest) :=
  .arrive (.submitPermit (permit token)) :: List.replicate 11 (.call 0)

/-- Where the transactions of a record go. -/
def sentTo (records : List RelayCall) : List JsString :=
  records.filterMap fun call =>
    match call with
    | .sendTransaction tx => some tx.to
    | _ => none

theorem sent_of_sentTo {records : List RelayCall} {address : JsString}
    (sent : sentTo records = [address]) : ∃ tx, .sendTransaction tx ∈ records ∧ tx.to = address := by
  have member : address ∈ sentTo records := by
    rw [sent]
    exact List.mem_singleton_self address
  obtain ⟨call, present, goes⟩ := List.mem_filterMap.mp member
  cases call with
  | sendTransaction tx => exact ⟨tx, present, Option.some.inj goes⟩
  | _ => cases goes

/-- A permit with an allowed spender is sent to the token it names. -/
theorem permit_run (token : JsString)
    (played : (playRelay libraries config world (fun _ => false) spenderStage node
      (fun _ _ _ _ _ => true) (permitSent token)
        (relaySystem libraries config world (fun _ => false) spenderStage).standing).map
          (fun reached => (sentTo reached.records, reached.threads.map (·.request))) =
      some ([token], [.submitPermit (permit token)])) :
    ∃ records reached threads,
      (destinationSystem libraries config world).Run System.unconstrained records reached threads ∧
        (∀ thread ∈ threads, thread.request = .submitPermit (permit token)) ∧
        ∃ tx, .sendTransaction tx ∈ records ∧ tx.to = token := by
  obtain ⟨reached, followed, summary⟩ := Option.map_eq_some_iff.mp played
  obtain ⟨sent, requests⟩ := Prod.mk.inj summary
  refine ⟨reached.records, reached.world, reached.threads, ?_, fun thread present => ?_,
    sent_of_sentTo sent⟩
  · exact run_of_playRelay libraries config (fun _ _ _ _ _ _ => trivial) _ .start followed
  · have own : thread.request ∈ reached.threads.map (·.request) := List.mem_map_of_mem present
    rw [requests] at own
    exact List.mem_singleton.mp own

end SampleRelay

open SampleRelay in
/-- **A caller chooses the address** that the relayer sends a permit to. -/
theorem permit_chooses_destination :
    ¬ ∀ records world threads,
      (destinationSystem libraries config SampleRelay.world).Run System.unconstrained records world
          threads →
        (∀ thread ∈ threads, thread.request.fromCaller = true) →
          ∀ tx, RelayCall.sendTransaction tx ∈ records → config.Configured tx.to := by
  intro confined
  obtain ⟨records, reached, threads, run, own, tx, sent, to_token⟩ :=
    permit_run (address '9') (by decide +kernel)
  have configured := confined records reached threads run
    (fun thread present => by rw [own thread present]; rfl) tx sent
  rw [to_token] at configured
  revert configured
  decide +kernel

open SampleRelay in
/-- A permit of the collateral is sent to the collateral. -/
theorem sent_to_configured_collateral :
    ∃ records world threads tx,
      (destinationSystem libraries config SampleRelay.world).Run System.unconstrained records world
          threads ∧
        RelayCall.sendTransaction tx ∈ records ∧ config.Configured tx.to := by
  obtain ⟨records, reached, threads, run, own, tx, sent, -⟩ :=
    permit_run (address 'c') (by decide +kernel)
  have named : RelayRequest.NamesConfigured config SampleRelay.world.wiring
      (.submitPermit (permit (address 'c'))) := by decide +kernel
  refine ⟨records, reached, threads, tx, run, sent, ?_⟩
  exact sent_to_configured libraries config SampleRelay.world run
    (fun thread present => by rw [own thread present]; rfl)
    (fun thread present => by rw [own thread present]; exact named) tx sent

end Numera
