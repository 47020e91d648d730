import Numera.Relay.Footprint

/-! # The boot check of the relay

`onModuleInit` connects the wallet, and then reads of each forwarder where it sends and what it
may relay, again when the node does not answer. The wallet is there all the while, so that the
relay counts as enabled before anything has been verified (`enabled_unverified`). Once the check
has got as far as the relayer's balance, or is over, what is enabled has been verified, and a
resolution is only sponsored once its forwarder has been (`relay_enabled_iff`).
-/

namespace Numera

open Async (CallsOnly Environment Follows Guarded)

/-! ## Configuration and calls -/

/-- What the boot check reads of the configuration besides. An address that is not configured is
empty, and so are the key and the node's address. -/
structure BootConfig extends RelayConfig where
  privateKey : JsString
  httpUrl : JsString
  lsLmsr : JsString
  optimisticResolver : JsString
  permit2 : JsString

/-- What the boot check does: it sets a field of the service, or reads from the chain. -/
inductive BootCall where
  /-- `this.wallet = createWalletClient(...)`, with the account and `this.rpc`. -/
  | connect
  /-- `this.wallet = null`. -/
  | refuse
  /-- `this.engine = market`, with the spenders a permit may name. -/
  | target (market : JsString)
  /-- `this.resolutionForwarder = forwarder` and `this.resolutionResolver = resolver`. -/
  | sponsor (resolver : JsString)
  | sleep (milliseconds : Nat)
  | market (forwarder : JsString)
  | resolver (forwarder : JsString)
  | isRelayable (forwarder selector : JsString)
  | getBalance
  deriving DecidableEq

@[reducible] def BootCall.Answer : BootCall → Type
  | market _ | resolver _ => JsString
  | isRelayable _ _ => Bool
  | getBalance => Nat
  | _ => Unit

/-- A computation of the boot check. -/
abbrev Boot (α : Type) : Type := Async BootCall.Answer CallError α

def BootCall.request (call : BootCall) : Boot call.Answer := Async.perform call

/-! ## The check -/

namespace RelayService

/-- `WIRING_RETRIES`. -/
def wiringRetries : Nat := 5

/-- `WIRING_RETRY_BASE_MS`. -/
def wiringRetryBaseMs : Nat := 400

/-- How long to wait before the next attempt, with so many left. -/
def retryDelay (retries : Nat) : Nat := wiringRetryBaseMs * 2 ^ (wiringRetries - retries)

def zeroAddress : JsString := JsString.ascii "0x0000000000000000000000000000000000000000"

/-- Whether the forwarder accepts every selector, asked one by one up to the first it does not. -/
def confirmed (forwarder : JsString) : List JsString → Boot Bool
  | [] => return true
  | selector :: rest => do
      let ok ← (BootCall.isRelayable forwarder selector).request
      if ok then confirmed forwarder rest else return false

variable (lib : RelayLibraries) (cfg : BootConfig)

/-- The set of the selectors of some functions. -/
def selectorSet (signatures : List String) : List JsString := (selectorsOf lib signatures).eraseDups

/-- What `verifyWiring` attempts. -/
def checkWiring : Boot Unit := do
  let market ← (BootCall.market cfg.forwarder).request
  if market = zeroAddress then BootCall.refuse.request
  else if cfg.lsLmsr ≠ [] ∧ market.toLowerCase ≠ cfg.lsLmsr.toLowerCase then
    BootCall.refuse.request
  else do
    (BootCall.target market).request
    let ok ← confirmed cfg.forwarder (selectorSet lib relayableSignatures)
    if !ok then BootCall.refuse.request
    else do
      let _ ← BootCall.getBalance.request
      return ()

/-- Confirm at boot what every request would otherwise discover one at a time, with so many
attempts left after this one. -/
def verifyWiring : Nat → Boot Unit
  | 0 => tryCatch (checkWiring lib cfg) fun _ => BootCall.refuse.request
  | retries + 1 => tryCatch (checkWiring lib cfg) fun _ => do
      (BootCall.sleep (retryDelay (retries + 1))).request
      verifyWiring retries

/-- What `verifyResolutionWiring` attempts. -/
def checkResolutionWiring : Boot Unit := do
  let resolver ← (BootCall.resolver cfg.resolutionForwarder).request
  if resolver = zeroAddress then return ()
  else if cfg.optimisticResolver ≠ [] ∧
      resolver.toLowerCase ≠ cfg.optimisticResolver.toLowerCase then
    return ()
  else do
    let ok ← confirmed cfg.resolutionForwarder (selectorSet lib resolutionSignatures)
    if !ok then return () else (BootCall.sponsor resolver).request

/-- The same check for the resolution relay: failing it disables only that. -/
def verifyResolutionWiring : Nat → Boot Unit
  | 0 => tryCatch (checkResolutionWiring lib cfg) fun _ => return ()
  | retries + 1 => tryCatch (checkResolutionWiring lib cfg) fun _ => do
      (BootCall.sleep (retryDelay (retries + 1))).request
      verifyResolutionWiring retries

/-- The relay is switched on, and has its key, its forwarder and a node. -/
def configured : Bool :=
  cfg.enabled && (cfg.privateKey ≠ [] && cfg.forwarder ≠ [] && cfg.httpUrl ≠ [])

/-- What `onModuleInit` does up to the end of `verifyWiring`. -/
def initTrading : Boot Unit := do
  if configured cfg then do
    BootCall.connect.request
    verifyWiring lib cfg wiringRetries
  else return ()

/-- What `onModuleInit` does from there. -/
def initResolution : Boot Unit := do
  if configured cfg && cfg.resolutionForwarder ≠ [] then verifyResolutionWiring lib cfg wiringRetries
  else return ()

end RelayService

/-! ## What it reads and sets -/

/-- What the node has answered, and that it was asked for the balance. -/
inductive BootRead where
  | market (forwarder destination : JsString)
  | resolver (forwarder destination : JsString)
  | relayable (forwarder selector : JsString) (ok : Bool)
  | balance
  deriving DecidableEq

namespace BootCall

/-- A call that sets a field, or sleeps, does not fail. -/
def inside : BootCall → Bool
  | connect | refuse | target _ | sponsor _ | sleep _ => true
  | _ => false

/-- What a call sets. -/
def assigns (permit2 : JsString) : BootCall → Wiring → Wiring
  | connect, wiring => { wiring with connected := true }
  | refuse, wiring => { wiring with connected := false }
  | target destination, wiring => { wiring with
      engine := some destination
      permitSpenders :=
        destination.toLowerCase :: if permit2 ≠ [] then [permit2.toLowerCase] else [] }
  | sponsor destination, wiring => { wiring with resolver := some destination }
  | _, wiring => wiring

/-- What a call has read. -/
def reads : (call : BootCall) → Except CallError call.Answer → List BootRead
  | market forwarder, .ok destination => [.market forwarder destination]
  | resolver forwarder, .ok destination => [.resolver forwarder destination]
  | isRelayable forwarder selector, .ok ok => [.relayable forwarder selector ok]
  | getBalance, _ => [.balance]
  | _, _ => []

end BootCall

/-- The fields of the service, and all that has been read. -/
structure BootState where
  wiring : Wiring
  reads : List BootRead

/-- The node may answer anything, or not. -/
def bootEnvironment (permit2 : JsString) :
    Environment BootCall.Answer CallError BootState BootRead :=
  fun call before answer record later =>
    (call.inside → ∃ value, answer = .ok value) ∧ record = call.reads answer ∧
      later = ⟨call.assigns permit2 before.wiring, before.reads ++ record⟩

/-! ## Complete passes -/

/-- What is read of a forwarder. -/
structure WiringCheck where
  read : JsString → BootRead
  forwarder : JsString
  expected : JsString
  selectors : List JsString

namespace WiringCheck

/-- The selectors are accepted one after another. -/
def accepted (check : WiringCheck) (selectors : List JsString) : List BootRead :=
  selectors.map (BootRead.relayable check.forwarder · true)

/-- A destination that is set, and is the configured one when one is configured. -/
def Right (check : WiringCheck) (destination : JsString) : Prop :=
  destination ≠ RelayService.zeroAddress ∧
    (check.expected = [] ∨ destination.toLowerCase = check.expected.toLowerCase)

/-- A pass reads the right destination and has every selector accepted. -/
def Pass (check : WiringCheck) (reads : List BootRead) : Prop :=
  ∃ destination, reads = check.read destination :: check.accepted check.selectors ∧
    check.Right destination

/-- One complete pass has been made. -/
def Verified (check : WiringCheck) (reads : List BootRead) : Prop :=
  ∃ pass, check.Pass pass ∧ pass <:+: reads

end WiringCheck

/-- What `verifyWiring` verifies. -/
def tradingCheck (lib : RelayLibraries) (cfg : BootConfig) : WiringCheck where
  read := .market cfg.forwarder
  forwarder := cfg.forwarder
  expected := cfg.lsLmsr
  selectors := RelayService.selectorSet lib RelayService.relayableSignatures

/-- What `verifyResolutionWiring` verifies. -/
def resolutionCheck (lib : RelayLibraries) (cfg : BootConfig) : WiringCheck where
  read := .resolver cfg.resolutionForwarder
  forwarder := cfg.resolutionForwarder
  expected := cfg.optimisticResolver
  selectors := RelayService.selectorSet lib RelayService.resolutionSignatures

/-! ## The process -/

/-- The services while the relay boots: what is left of the two checks, the second of which waits
for the first, and what they have read. -/
structure RelayProcess where
  relay : RelayWorld
  trading : Boot Unit
  resolution : Boot Unit
  reads : List BootRead := []

namespace RelayProcess

/-- A process that starts. -/
def initial (lib : RelayLibraries) (cfg : BootConfig) (world : RelayWorld) : RelayProcess where
  relay := { world with wiring := { connected := false } }
  trading := RelayService.initTrading lib cfg
  resolution := RelayService.initResolution lib cfg

def state (process : RelayProcess) : BootState := ⟨process.relay.wiring, process.reads⟩

/-- What has been set and read. -/
def setState (process : RelayProcess) (state : BootState) : RelayProcess :=
  { process with relay := { process.relay with wiring := state.wiring }, reads := state.reads }

/-- What changes by itself: the world of the services, and the check that is being made. -/
inductive Changes (permit2 : JsString) (process : RelayProcess) : RelayProcess → Prop where
  | relay {later} (passed : process.relay.Changes later) :
      Changes permit2 process { process with relay := later }
  | trading {call next answer record later} (awaits : process.trading = .call call next)
      (answered : bootEnvironment permit2 call process.state answer record later) :
      Changes permit2 process { process.setState later with trading := next answer }
  | resolution {call next answer record later} (through : process.trading = .done (.ok ()))
      (awaits : process.resolution = .call call next)
      (answered : bootEnvironment permit2 call process.state answer record later) :
      Changes permit2 process { process.setState later with resolution := next answer }

/-- `isEnabled`. -/
def isEnabled (cfg : BootConfig) (process : RelayProcess) : Bool :=
  cfg.enabled && process.relay.wiring.connected

/-- `isResolutionEnabled`. -/
def isResolutionEnabled (cfg : BootConfig) (process : RelayProcess) : Bool :=
  process.isEnabled cfg && process.relay.wiring.resolver.isSome

/-- The wallet is there, and the check of the forwarder is under way and has never got as far as
asking for the balance. -/
def Checking (process : RelayProcess) : Prop :=
  ∃ call next, process.trading = .call call next ∧ call ≠ .connect ∧ call ≠ .getBalance ∧
    .balance ∉ process.reads

end RelayProcess

/-- What a request has been told, and whether it has sent a transaction. -/
structure BootStage where
  enabled : Bool := false
  sponsored : Bool := false
  sent : Bool := false

/-- What a request knows after a call. It is told that the relay is enabled, and of a resolver. -/
def told (cfg : BootConfig) (_ : RelayRequest) (before : BootStage) (_ : RelayProcess) :
    (call : RelayCall) → Except RelayError call.Answer → BootStage
  | .wiring, .ok wiring => { before with
      enabled := before.enabled || (cfg.enabled && wiring.connected)
      sponsored := before.sponsored || wiring.resolver.isSome }
  | .sendTransaction _, _ => { before with sent := true }
  | _, _ => before

/-- The services while the relay boots, their requests interleaved with its check. -/
def bootSystem (lib : RelayLibraries) (cfg : BootConfig) (world : RelayWorld) :
    Async.System RelayCall.Answer RelayError Nat RelayRequest BootStage RelayProcess RelayCall where
  start := RelayRequest.start lib cfg.toRelayConfig
  arrival := fun _ => {}
  next := told cfg
  env := fun call before answer record later =>
    ∃ relay, relayEnvironment call before.relay answer record relay ∧ later = { before with relay }
  drift := RelayProcess.Changes cfg.permit2
  initial := .initial lib cfg world

/-- A request that is being served while the relay boots. -/
abbrev BootThread : Type :=
  Async.Thread RelayCall.Answer RelayError Nat RelayRequest BootStage

/-- No request asks whether the relay is enabled while its check is under way. -/
def unasked : Async.System.Condition RelayCall.Answer RelayError Nat RelayRequest BootStage
    RelayProcess :=
  fun process _ _ call _ => call = .wiring → ¬ process.Checking

/-- A proposal or a dispute, which goes to the resolution forwarder. -/
def RelayRequest.resolves : RelayRequest → Bool
  | submitResolution _ => true
  | _ => false

/-- What is enabled has been verified, and so had been what was sent before: through either
forwarder, and to the resolution forwarder. -/
structure EnabledVerified (lib : RelayLibraries) (cfg : BootConfig) (world : RelayWorld)
    (process : RelayProcess) (threads : List BootThread) : Prop where
  trading : process.isEnabled cfg → (tradingCheck lib cfg).Verified process.reads
  resolution : process.isResolutionEnabled cfg → (resolutionCheck lib cfg).Verified process.reads
  sent : process.relay.nonce ≠ world.nonce → (tradingCheck lib cfg).Verified process.reads
  sponsored : ∀ thread ∈ threads, thread.request.resolves = true → thread.stage.sent = true →
    (resolutionCheck lib cfg).Verified process.reads

/-! ## Passes that are not complete -/

namespace WiringCheck

variable {check : WiringCheck} {reads : List BootRead}

theorem Verified.append (verified : check.Verified reads) (more : List BootRead) :
    check.Verified (reads ++ more) := by
  obtain ⟨pass, made, within⟩ := verified
  exact ⟨pass, made, within.trans (List.prefix_append reads more).isInfix⟩

theorem not_verified_nil : ¬ check.Verified [] := by
  rintro ⟨_, ⟨destination, rfl, -⟩, within⟩
  exact absurd (List.infix_nil.mp within) (List.cons_ne_nil _ _)

/-- A pass that is complete after a read, and was not before, ends with it. -/
theorem verified_snoc {last : BootRead} (verified : check.Verified (reads ++ [last]))
    (before : ¬ check.Verified reads) : ∃ pass, check.Pass pass ∧ pass <:+ reads ++ [last] := by
  obtain ⟨pass, made, within⟩ := verified
  rcases List.infix_concat_iff.mp within with ends | earlier
  · exact ⟨pass, made, ends⟩
  · exact absurd ⟨pass, made, earlier⟩ before

theorem mem_of_suffix_snoc {α : Type} {part whole : List α} {last : α} (some : part ≠ [])
    (ends : part <:+ whole ++ [last]) : last ∈ part := by
  rcases List.suffix_concat_iff.mp ends with none | ⟨front, rfl, -⟩
  · exact absurd none some
  · exact List.mem_append_right _ (List.mem_singleton_self last)

/-- A selector that is not accepted completes no pass. -/
theorem not_verified_rejected (before : ¬ check.Verified reads)
    (apart : ∀ destination selector, check.read destination ≠
      .relayable check.forwarder selector false) (selector : JsString) :
    ¬ check.Verified (reads ++ [.relayable check.forwarder selector false]) := by
  intro verified
  obtain ⟨_, ⟨destination, rfl, -⟩, ends⟩ := verified_snoc verified before
  rcases List.mem_cons.mp (mem_of_suffix_snoc (List.cons_ne_nil _ _) ends) with same | accepted
  · exact apart destination selector same.symm
  · obtain ⟨_, -, same⟩ := List.mem_map.mp accepted
    cases same

/-- A pass of which selectors are missing is not complete. -/
theorem not_verified_partial (before : ¬ check.Verified reads)
    (apart : ∀ destination selector, check.read destination ≠
      .relayable check.forwarder selector true)
    (destination : JsString) (done : List JsString) (missing : done.length < check.selectors.length) :
    ¬ check.Verified (reads ++ check.read destination :: check.accepted done) := by
  have ends : ∀ front done, done.length < check.selectors.length →
      ¬ ∃ pass, check.Pass pass ∧
        pass <:+ front ++ check.read destination :: check.accepted done := by
    rintro front done missing ⟨_, ⟨other, rfl, -⟩, ends⟩
    have shorter : (check.read destination :: check.accepted done).length ≤
        (check.read other :: check.accepted check.selectors).length := by
      simp only [accepted, List.length_cons, List.length_map]
      omega
    have within := List.suffix_of_suffix_length_le (List.suffix_append front _) ends shorter
    rcases List.suffix_cons_iff.mp within with same | later
    · have lengths := congrArg List.length same
      simp only [accepted, List.length_cons, List.length_map] at lengths
      omega
    · obtain ⟨selector, -, same⟩ := List.mem_map.mp (later.subset List.mem_cons_self)
      exact apart destination selector same.symm
  induction done using List.reverseRecOn with
  | nil => exact fun verified => ends reads [] missing (verified_snoc verified before)
  | append_singleton done selector ih =>
      intro verified
      rw [List.length_append] at missing
      have earlier := ih (by omega)
      have split : reads ++ check.read destination :: check.accepted (done ++ [selector]) =
          (reads ++ check.read destination :: check.accepted done) ++
            [.relayable check.forwarder selector true] := by
        simp [accepted]
      rw [split] at verified
      refine ends reads (done ++ [selector]) (by rwa [List.length_append]) ?_
      rw [split]
      exact verified_snoc verified earlier

/-- The right destination, and every selector. -/
theorem verified_pass {destination : JsString} (right : check.Right destination)
    (reads : List BootRead) :
    check.Verified (reads ++ check.read destination :: check.accepted check.selectors) :=
  ⟨_, ⟨destination, rfl, right⟩, (List.suffix_append reads _).isInfix⟩

end WiringCheck

/-! ## The loop over the selectors -/

section Loop

variable {permit2 : JsString}

/-- What a state is after some more reads. -/
def BootState.after (state : BootState) (more : List BootRead) : BootState :=
  { state with reads := state.reads ++ more }

theorem BootState.after_nil (state : BootState) : state.after [] = state := by
  rw [after, List.append_nil]

theorem BootState.after_after (state : BootState) (first second : List BootRead) :
    (state.after first).after second = state.after (first ++ second) := by
  simp only [after, List.append_assoc]

/-- The selectors are asked about in turn, until one is not accepted or the node fails. -/
theorem guarded_confirmed {permits : BootCall → BootState → Prop}
    {post : Except CallError Bool → BootState → Prop} (check : WiringCheck) (state : BootState)
    {selectors : List JsString}
    (permitted : ∀ done selector rest, selectors = done ++ selector :: rest →
      permits (.isRelayable check.forwarder selector) (state.after (check.accepted done)))
    (all : post (.ok true) (state.after (check.accepted selectors)))
    (rejected : ∀ done selector rest, selectors = done ++ selector :: rest →
      post (.ok false) (state.after
        (check.accepted done ++ [.relayable check.forwarder selector false])))
    (failed : ∀ done selector rest thrown, selectors = done ++ selector :: rest →
      post (.error thrown) (state.after (check.accepted done))) :
    Guarded (bootEnvironment permit2) permits post
      (RelayService.confirmed check.forwarder selectors) state := by
  have from_ : ∀ rest done, selectors = done ++ rest →
      Guarded (bootEnvironment permit2) permits post
        (RelayService.confirmed check.forwarder rest) (state.after (check.accepted done)) := by
    intro rest
    induction rest with
    | nil =>
        intro done split
        rw [List.append_nil] at split
        subst split
        exact all
    | cons selector rest ih =>
        intro done split
        refine .bind (.perform (permitted done selector rest split) ?_)
        rintro answer record later ⟨-, rfl, rfl⟩
        cases answer with
        | error thrown =>
            change post (.error thrown) ((state.after (check.accepted done)).after [])
            rw [BootState.after_nil]
            exact failed done selector rest thrown split
        | ok ok =>
            cases ok with
            | false =>
                change post (.ok false) ((state.after (check.accepted done)).after _)
                rw [BootState.after_after]
                exact rejected done selector rest split
            | true =>
                change Guarded _ _ _ _ ((state.after (check.accepted done)).after
                  (check.accepted [selector]))
                rw [BootState.after_after, WiringCheck.accepted, WiringCheck.accepted,
                  ← List.map_append]
                exact ih (done ++ [selector]) (by rw [split, List.append_assoc]; rfl)
  have start := from_ selectors [] rfl
  rwa [WiringCheck.accepted, List.map_nil, BootState.after_nil] at start

end Loop

/-! ## The check of the forwarder -/

section Trading

variable {lib : RelayLibraries} {cfg : BootConfig} {state : BootState}

/-- No pass is complete, and the balance has not been asked for. -/
structure Unverified (lib : RelayLibraries) (cfg : BootConfig) (state : BootState) : Prop where
  connected : state.wiring.connected = true
  resolver : state.wiring.resolver = none
  unread : .balance ∉ state.reads
  unverified : ¬ (tradingCheck lib cfg).Verified state.reads

/-- A pass is complete, and the balance has been asked for. -/
structure Balanced (lib : RelayLibraries) (cfg : BootConfig) (state : BootState) : Prop where
  resolver : state.wiring.resolver = none
  read : .balance ∈ state.reads
  verified : (tradingCheck lib cfg).Verified state.reads

/-- Where the check of the forwarder stands at its calls. -/
inductive CheckStands (lib : RelayLibraries) (cfg : BootConfig) : BootCall → BootState → Prop where
  | starts {state : BootState} (off : state.wiring.connected = false) (resolver : state.wiring.resolver = none) :
      CheckStands lib cfg .connect state
  | unverified {call : BootCall} {state : BootState} (fresh : Unverified lib cfg state) (connects : call ≠ .connect)
      (balances : call ≠ .getBalance) : CheckStands lib cfg call state
  | verified {call : BootCall} {state : BootState} (resolver : state.wiring.resolver = none)
      (verified : (tradingCheck lib cfg).Verified state.reads)
      (balances : call = .getBalance ∨ .balance ∈ state.reads) : CheckStands lib cfg call state

theorem Unverified.missing (fresh : Unverified lib cfg state) (destination : JsString)
    (done : List JsString) (missing : done.length < (tradingCheck lib cfg).selectors.length) :
    Unverified lib cfg (state.after (.market cfg.forwarder destination ::
      (tradingCheck lib cfg).accepted done)) where
  connected := fresh.connected
  resolver := fresh.resolver
  unread := by
    intro read
    rcases List.mem_append.mp read with earlier | later
    · exact fresh.unread earlier
    · rcases List.mem_cons.mp later with same | accepted
      · cases same
      · obtain ⟨selector, -, same⟩ := List.mem_map.mp accepted
        cases same
  unverified := WiringCheck.not_verified_partial fresh.unverified (fun _ _ same => by cases same)
    destination done missing

theorem Unverified.rejected (fresh : Unverified lib cfg state) (selector : JsString) :
    Unverified lib cfg (state.after [.relayable cfg.forwarder selector false]) where
  connected := fresh.connected
  resolver := fresh.resolver
  unread := by
    intro read
    rcases List.mem_append.mp read with earlier | later
    · exact fresh.unread earlier
    · cases List.mem_singleton.mp later
  unverified := WiringCheck.not_verified_rejected fresh.unverified (fun _ _ same => by cases same)
    selector

/-- Once the balance has been asked for, whatever the check does, it has been verified. -/
theorem guarded_balanced {task : Boot Unit}
    (only : task.CallsOnly fun call => ∀ resolver, call ≠ .sponsor resolver)
    (balanced : Balanced lib cfg state) :
    Guarded (bootEnvironment cfg.permit2) (CheckStands lib cfg)
      (fun _ final => Balanced lib cfg final) task state := by
  induction task generalizing state with
  | done outcome => exact balanced
  | call call next ih =>
      refine ⟨.verified balanced.resolver balanced.verified (.inr balanced.read), ?_⟩
      rintro answer record later ⟨-, rfl, rfl⟩
      refine ih answer (only.2 answer) ⟨?_, List.mem_append_left _ balanced.read,
        balanced.verified.append _⟩
      cases call with
      | sponsor destination => exact absurd rfl (only.1 destination)
      | _ => exact balanced.resolver

/-- How an attempt leaves the state: with the balance asked for, with the wallet gone, or, when the
node has failed before, as it was. -/
def Attempted (lib : RelayLibraries) (cfg : BootConfig) (outcome : Except CallError Unit)
    (state : BootState) : Prop :=
  Balanced lib cfg state ∨
    match outcome with
    | .ok () => state.wiring.connected = false ∧ state.wiring.resolver = none
    | .error _ => Unverified lib cfg state

/-- Without a wallet nothing is left to verify. -/
theorem guarded_refuse {post : Except CallError Unit → BootState → Prop}
    (fresh : Unverified lib cfg state)
    (ends : ∀ final : BootState, final.wiring.connected = false → final.wiring.resolver = none →
      post (.ok ()) final) :
    Guarded (bootEnvironment cfg.permit2) (CheckStands lib cfg) post BootCall.refuse.request state := by
  refine .perform (.unverified fresh (fun same => by cases same) fun same => by cases same) ?_
  rintro answer record later ⟨given, rfl, rfl⟩
  obtain ⟨value, rfl⟩ := given rfl
  exact ends _ rfl fresh.resolver

theorem Attempted.refused (off : state.wiring.connected = false)
    (resolver : state.wiring.resolver = none) : Attempted lib cfg (.ok ()) state :=
  .inr ⟨off, resolver⟩

theorem selectors_length_pos : 0 < (tradingCheck lib cfg).selectors.length := by
  refine List.length_pos_iff.mpr fun none => ?_
  have first : lib.toFunctionSelector (JsString.ascii
      ("function " ++ "buy(uint256,uint256,uint256,uint256)")) ∈
        (tradingCheck lib cfg).selectors :=
    List.mem_eraseDups.mpr List.mem_cons_self
  rw [none] at first
  exact absurd first List.not_mem_nil

/-- The rest of an attempt, once the engine has been set. -/
theorem guarded_targeted (fresh : Unverified lib cfg state) {market : JsString}
    (right : (tradingCheck lib cfg).Right market) :
    Guarded (bootEnvironment cfg.permit2) (CheckStands lib cfg) (Attempted lib cfg)
      (do
        let ok ← RelayService.confirmed cfg.forwarder
          (RelayService.selectorSet lib RelayService.relayableSignatures)
        if !ok then BootCall.refuse.request
        else do
          let _ ← BootCall.getBalance.request
          return ())
      ⟨(BootCall.target market).assigns cfg.permit2 state.wiring,
        state.reads ++ [.market cfg.forwarder market] ++ []⟩ := by
  let aimed : BootState := ⟨(BootCall.target market).assigns cfg.permit2 state.wiring, state.reads⟩
  have unverified : Unverified lib cfg aimed :=
    ⟨fresh.connected, fresh.resolver, fresh.unread, fresh.unverified⟩
  have asked : ∀ done selector rest, (tradingCheck lib cfg).selectors = done ++ selector :: rest →
      Unverified lib cfg ((aimed.after [.market cfg.forwarder market]).after
        ((tradingCheck lib cfg).accepted done)) := by
    intro done selector rest split
    rw [BootState.after_after]
    refine unverified.missing market done ?_
    rw [split, List.length_append, List.length_cons]
    omega
  change Guarded _ _ _ _ ((aimed.after [.market cfg.forwarder market]).after [])
  rw [BootState.after_nil]
  refine .bind (guarded_confirmed (tradingCheck lib cfg) _ ?_ ?_ ?_ ?_)
  · exact fun done selector rest split => .unverified (asked done selector rest split)
      (fun same => by cases same) fun same => by cases same
  · rw [BootState.after_after]
    have verified := WiringCheck.verified_pass right aimed.reads
    refine .bind (.perform (.verified unverified.resolver verified (.inl rfl)) ?_)
    rintro answer record later ⟨-, rfl, rfl⟩
    have balanced : Balanced lib cfg ((aimed.after (.market cfg.forwarder market ::
        (tradingCheck lib cfg).accepted (tradingCheck lib cfg).selectors)).after [.balance]) :=
      ⟨unverified.resolver, List.mem_append_right _ (List.mem_singleton_self _), verified.append _⟩
    cases answer with
    | ok balance => exact .inl balanced
    | error thrown => exact .inl balanced
  · intro done selector rest split
    rw [← BootState.after_after]
    exact guarded_refuse ((asked done selector rest split).rejected selector) fun _ => .refused
  · exact fun done selector rest thrown split => .inr (asked done selector rest split)

theorem guarded_checkWiring (fresh : Unverified lib cfg state) :
    Guarded (bootEnvironment cfg.permit2) (CheckStands lib cfg) (Attempted lib cfg)
      (RelayService.checkWiring lib cfg) state := by
  refine .bind (.perform (.unverified fresh (fun same => by cases same) fun same => by cases same) ?_)
  rintro answer record later ⟨-, rfl, rfl⟩
  cases answer with
  | error thrown =>
      change Attempted lib cfg (.error thrown) (state.after [])
      rw [BootState.after_nil]
      exact .inr fresh
  | ok market =>
      change Guarded _ _ _ _ (state.after [.market cfg.forwarder market])
      have read := fresh.missing market [] selectors_length_pos
      split
      · exact guarded_refuse read fun _ => .refused
      · rename_i set
        split
        · exact guarded_refuse read fun _ => .refused
        · rename_i matching
          have right : (tradingCheck lib cfg).Right market := by
            refine ⟨set, ?_⟩
            by_contra wrong
            exact matching (not_or.mp wrong)
          refine .bind (.perform (.unverified read (fun same => by cases same)
            fun same => by cases same) ?_)
          rintro answer record later ⟨given, rfl, rfl⟩
          obtain ⟨⟨⟩, rfl⟩ := given rfl
          exact guarded_targeted fresh right

theorem callsOnly_confirmed {allowed : BootCall → Prop} {forwarder : JsString}
    (asks : ∀ selector, allowed (.isRelayable forwarder selector)) (selectors : List JsString) :
    (RelayService.confirmed forwarder selectors).CallsOnly allowed := by
  induction selectors with
  | nil => trivial
  | cons selector rest ih =>
      refine .bind (.perform (asks selector)) fun ok => ?_
      split
      · exact ih
      · trivial

theorem callsOnly_verifyWiring {allowed : BootCall → Prop} (reads : ∀ forwarder, allowed (.market forwarder))
    (asks : ∀ forwarder selector, allowed (.isRelayable forwarder selector))
    (targets : ∀ market, allowed (.target market)) (refuses : allowed .refuse)
    (balances : allowed .getBalance) (sleeps : ∀ milliseconds, allowed (.sleep milliseconds))
    (retries : Nat) : (RelayService.verifyWiring lib cfg retries).CallsOnly allowed := by
  have attempt : (RelayService.checkWiring lib cfg).CallsOnly allowed := by
    refine .bind (.perform (reads _)) fun market => ?_
    split
    · exact .perform refuses
    · split
      · exact .perform refuses
      · refine .bind (.perform (targets _)) fun _ =>
          .bind (callsOnly_confirmed (asks _) _) fun ok => ?_
        split
        · exact .perform refuses
        · exact .bind (.perform balances) fun _ => trivial
  induction retries with
  | zero => exact .tryCatch attempt fun _ => .perform refuses
  | succ retries ih => exact .tryCatch attempt fun _ => .bind (.perform (sleeps _)) fun _ => ih

/-- What the check of the forwarder leaves when it is over. -/
def Concluded (lib : RelayLibraries) (cfg : BootConfig) (state : BootState) : Prop :=
  state.wiring.resolver = none ∧
    (state.wiring.connected = true → (tradingCheck lib cfg).Verified state.reads)

theorem Balanced.concluded (balanced : Balanced lib cfg state) : Concluded lib cfg state :=
  ⟨balanced.resolver, fun _ => balanced.verified⟩

theorem concluded_of_off (off : state.wiring.connected = false)
    (resolver : state.wiring.resolver = none) : Concluded lib cfg state :=
  ⟨resolver, fun on => by rw [off] at on; cases on⟩

theorem Attempted.concluded (attempted : Attempted lib cfg (.ok ()) state) :
    Concluded lib cfg state := by
  rcases attempted with balanced | ⟨off, resolver⟩
  · exact balanced.concluded
  · exact concluded_of_off off resolver

theorem guarded_verifyWiring (retries : Nat) (fresh : Unverified lib cfg state) :
    Guarded (bootEnvironment cfg.permit2) (CheckStands lib cfg)
      (fun _ final => Concluded lib cfg final) (RelayService.verifyWiring lib cfg retries) state := by
  have sponsorless : ∀ retries, (RelayService.verifyWiring lib cfg retries).CallsOnly
      fun call => ∀ resolver, call ≠ .sponsor resolver :=
    callsOnly_verifyWiring (fun _ _ same => by cases same) (fun _ _ _ same => by cases same)
      (fun _ _ same => by cases same) (fun _ same => by cases same) (fun _ same => by cases same)
      fun _ _ same => by cases same
  induction retries generalizing state with
  | zero =>
      refine .tryCatch ((guarded_checkWiring fresh).mono fun outcome final attempted => ?_)
      cases outcome with
      | ok done => exact attempted.concluded
      | error thrown =>
          rcases attempted with balanced | unverified
          · exact (guarded_balanced (.perform fun _ same => by cases same) balanced).mono
              fun _ _ later => later.concluded
          · exact guarded_refuse unverified fun _ => concluded_of_off
  | succ retries ih =>
      refine .tryCatch ((guarded_checkWiring fresh).mono fun outcome final attempted => ?_)
      cases outcome with
      | ok done => exact attempted.concluded
      | error thrown =>
          rcases attempted with balanced | unverified
          · exact (guarded_balanced (.bind (.perform fun _ same => by cases same)
              fun _ => sponsorless retries) balanced).mono fun _ _ later => later.concluded
          · refine .bind (.perform (.unverified unverified (fun same => by cases same)
              fun same => by cases same) ?_)
            rintro answer record later ⟨given, rfl, rfl⟩
            obtain ⟨⟨⟩, rfl⟩ := given rfl
            change Guarded _ _ _ _ (final.after [])
            rw [BootState.after_nil]
            exact ih unverified

theorem guarded_initTrading (off : state.wiring.connected = false)
    (resolver : state.wiring.resolver = none) (unread : state.reads = []) :
    Guarded (bootEnvironment cfg.permit2) (CheckStands lib cfg)
      (fun _ final => Concluded lib cfg final) (RelayService.initTrading lib cfg) state := by
  unfold RelayService.initTrading
  split
  · refine .bind (.perform (.starts off resolver) ?_)
    rintro answer record later ⟨given, rfl, rfl⟩
    obtain ⟨⟨⟩, rfl⟩ := given rfl
    refine guarded_verifyWiring _ ⟨rfl, resolver, ?_, ?_⟩
    · simp [unread, BootCall.reads]
    · simpa [unread, BootCall.reads] using WiringCheck.not_verified_nil
  · exact concluded_of_off off resolver

end Trading

/-! ## The check of the resolution forwarder -/

section Resolution

variable {lib : RelayLibraries} {cfg : BootConfig} {state : BootState}

/-- What has been set was verified before. -/
def Settled (lib : RelayLibraries) (cfg : BootConfig) (state : BootState) : Prop :=
  (state.wiring.connected = true → (tradingCheck lib cfg).Verified state.reads) ∧
    (state.wiring.resolver.isSome → (resolutionCheck lib cfg).Verified state.reads)

theorem Concluded.settled (concluded : Concluded lib cfg state) : Settled lib cfg state :=
  ⟨concluded.2, fun some => by rw [concluded.1] at some; cases some⟩

theorem Settled.after (settled : Settled lib cfg state) (more : List BootRead) :
    Settled lib cfg (state.after more) :=
  ⟨fun on => (settled.1 on).append more, fun some => (settled.2 some).append more⟩

/-- An attempt sets the resolver when its pass is complete. -/
theorem guarded_checkResolutionWiring (settled : Settled lib cfg state) :
    Guarded (bootEnvironment cfg.permit2) (fun _ => Settled lib cfg)
      (fun _ final => Settled lib cfg final) (RelayService.checkResolutionWiring lib cfg) state := by
  refine .bind (.perform settled ?_)
  rintro answer record later ⟨-, rfl, rfl⟩
  cases answer with
  | error thrown => exact settled.after _
  | ok resolver =>
      have read := settled.after [.resolver cfg.resolutionForwarder resolver]
      change Guarded _ _ _ _ (state.after [.resolver cfg.resolutionForwarder resolver])
      split
      · exact read
      · rename_i set
        split
        · exact read
        · rename_i matching
          have right : (resolutionCheck lib cfg).Right resolver := by
            refine ⟨set, ?_⟩
            by_contra wrong
            exact matching (not_or.mp wrong)
          refine .bind (guarded_confirmed (resolutionCheck lib cfg) _ ?_ ?_ ?_ ?_)
          · exact fun _ _ _ _ => read.after _
          · rw [BootState.after_after]
            have verified := WiringCheck.verified_pass right state.reads
            refine And.intro (settled.after _) ?_
            rintro answer record later ⟨-, rfl, rfl⟩
            exact ⟨fun on => ((settled.1 on).append _).append _, fun _ => verified.append _⟩
          · exact fun _ _ _ _ => read.after _
          · exact fun _ _ _ _ _ => read.after _

theorem guarded_initResolution (settled : Settled lib cfg state) :
    Guarded (bootEnvironment cfg.permit2) (fun _ => Settled lib cfg)
      (fun _ final => Settled lib cfg final) (RelayService.initResolution lib cfg) state := by
  have verifies : ∀ retries (state : BootState), Settled lib cfg state →
      Guarded (bootEnvironment cfg.permit2) (fun _ => Settled lib cfg)
        (fun _ final => Settled lib cfg final)
        (RelayService.verifyResolutionWiring lib cfg retries) state := by
    intro retries
    induction retries with
    | zero =>
        refine fun state settled =>
          .tryCatch ((guarded_checkResolutionWiring settled).mono fun outcome final later => ?_)
        cases outcome <;> exact later
    | succ retries ih =>
        refine fun state settled =>
          .tryCatch ((guarded_checkResolutionWiring settled).mono fun outcome final later => ?_)
        cases outcome with
        | ok done => exact later
        | error thrown =>
            refine .bind (And.intro later ?_)
            rintro answer record after ⟨given, rfl, rfl⟩
            obtain ⟨⟨⟩, rfl⟩ := given rfl
            exact ih _ (later.after [])
  unfold RelayService.initResolution
  split
  · exact verifies _ state settled
  · exact settled

end Resolution

/-! ## Requests that ask -/

section Requests

variable {lib : RelayLibraries} {cfg : BootConfig} {request : RelayRequest} {α β : Type}
  {stage : BootStage}

/-- A request sends nothing before it has been told that the relay is enabled. -/
def Told (cfg : BootConfig) (request : RelayRequest) (stage : BootStage) (task : Relay α) : Prop :=
  Follows (told cfg request)
    (fun stage call => ∀ tx, call = .sendTransaction tx → stage.enabled = true) (fun _ _ => True)
    stage task

/-- What a request has been told, it knows from then on. -/
theorem told_mono (process : RelayProcess) (call : RelayCall)
    (answer : Except RelayError call.Answer) :
    (stage.enabled = true → (told cfg request stage process call answer).enabled = true) ∧
      (stage.sponsored = true → (told cfg request stage process call answer).sponsored = true) := by
  unfold told
  split
  · exact ⟨fun on => by simp only [on, Bool.true_or], fun on => by simp only [on, Bool.true_or]⟩
  · exact ⟨id, id⟩
  · exact ⟨id, id⟩

namespace Told

theorem of_told (enabled : stage.enabled = true) (task : Relay α) : Told cfg request stage task := by
  induction task generalizing stage with
  | done outcome => trivial
  | call call next ih =>
      exact ⟨fun _ _ => enabled, fun process answer =>
        ih answer ((told_mono process call answer).1 enabled)⟩

theorem bind {first : Relay β} {rest : β → Relay α} (begins : Told cfg request stage first)
    (follows : ∀ value stage, Told cfg request stage (rest value)) :
    Told cfg request stage (first >>= rest) := by
  refine Follows.bind (begins.mono fun reached outcome _ => ?_)
  cases outcome with
  | ok value => exact follows value reached
  | error thrown => trivial

theorem tryCatch {task : Relay α} {handler : RelayError → Relay α}
    (body : Told cfg request stage task)
    (handled : ∀ thrown stage, Told cfg request stage (handler thrown)) :
    Told cfg request stage (tryCatch task handler) := by
  refine Follows.tryCatch (body.mono fun reached outcome _ => ?_)
  cases outcome with
  | ok value => trivial
  | error thrown => exact handled thrown reached

/-- A conversion makes no call. -/
theorem done {value : Except RelayError β} {rest : β → Relay α}
    (follows : ∀ result, Told cfg request stage (rest result)) :
    Told cfg request stage (Async.done value >>= rest) := by
  cases value with
  | ok result => exact follows result
  | error thrown => trivial

theorem of_sendless {task : Relay α} (only : task.CallsOnly fun call =>
    ∀ tx, call ≠ .sendTransaction tx) : Told cfg request stage task :=
  .of_always only (fun _ _ sendless tx same => absurd same (sendless tx)) fun _ _ => trivial

theorem perform {call : RelayCall} (sendless : ∀ tx, call ≠ .sendTransaction tx) :
    Told cfg request stage call.request := of_sendless (.perform sendless)

/-- What asks, and stops unless it is told that the relay is enabled. -/
theorem asks {refusal : RelayError} {rest : Wiring → Relay α} :
    Told cfg request stage (do
      let wiring ← RelayCall.wiring.request
      if !(cfg.enabled && wiring.connected) then throw refusal else rest wiring) := by
  refine Follows.perform_bind (fun tx same => by cases same) (fun process wiring => ?_)
    fun _ _ => trivial
  cases on : cfg.enabled && wiring.connected with
  | false => trivial
  | true => exact of_told (by simp only [told, on, Bool.or_true]) _

theorem exclusively {chain : Chained} {fn : Relay α} (job : ∀ stage, Told cfg request stage fn) :
    Told cfg request stage (exclusively chain fn) :=
  bind (perform fun _ same => by cases same) fun _ _ =>
    bind (perform fun _ same => by cases same) fun _ stage =>
      bind (tryCatch (bind (job stage) fun _ _ => trivial) fun _ _ => trivial) fun _ _ =>
        bind (perform fun _ same => by cases same) fun _ _ => by trivial

end Told

/-- A proposal or a dispute is not sent before there is a resolver. -/
def Sponsored (cfg : BootConfig) (request : RelayRequest) (stage : BootStage) (task : Relay α) :
    Prop :=
  Follows (told cfg request) (fun stage call => request.resolves = true →
    ∀ tx, call = .sendTransaction tx → stage.sponsored = true) (fun _ _ => True) stage task

theorem Sponsored.of_told (sponsored : stage.sponsored = true) (task : Relay α) :
    Sponsored cfg request stage task := by
  induction task generalizing stage with
  | done outcome => trivial
  | call call next ih =>
      exact ⟨fun _ _ _ => sponsored, fun process answer =>
        ih answer ((told_mono process call answer).2 sponsored)⟩

theorem sponsored_start (request : RelayRequest) :
    Sponsored cfg request stage (request.start lib cfg.toRelayConfig) := by
  cases request with
  | submitResolution payload =>
      refine Follows.perform_bind (fun _ tx same => by cases same) (fun process wiring => ?_)
        fun _ _ => trivial
      split
      · trivial
      · cases resolver : wiring.resolver with
        | none => trivial
        | some address =>
            exact Sponsored.of_told (by simp only [told, resolver, Option.isSome_some,
              Bool.or_true]) _
  | submit | submitPermit | sendFromRelayer | withdraw | shield =>
      exact .of_always (.unrestricted _) (fun _ _ _ resolves => by cases resolves)
        fun _ _ => trivial

theorem told_sendFromRelayer (destination : JsString) (data : ContractCall) :
    Told cfg request stage (RelayService.sendFromRelayer cfg.toRelayConfig destination data) :=
  .asks

theorem told_publishAspRoot (root : Int) :
    Told cfg request stage (PoolService.publishAspRoot lib cfg.toRelayConfig root) := by
  refine .bind (.perform fun _ same => by cases same) fun current _ => ?_
  split
  · trivial
  · refine .done fun data => .bind (told_sendFromRelayer _ data) fun hash _ =>
      .bind (.tryCatch (.bind (.perform fun _ same => by cases same) fun _ _ => trivial)
        fun _ _ => trivial) fun receipt _ => ?_
    split <;> trivial

theorem told_start (request : RelayRequest) :
    Told cfg request stage (request.start lib cfg.toRelayConfig) := by
  cases request with
  | submit payload => exact .asks
  | submitResolution payload => exact .asks
  | submitPermit permit => exact .asks
  | sendFromRelayer destination data => exact .asks
  | withdraw dto =>
      change Told cfg _ stage (PoolService.withdraw lib cfg.toRelayConfig dto)
      unfold PoolService.withdraw
      split
      · trivial
      · refine .bind (.perform fun _ same => by cases same) fun synced _ => ?_
        split
        · trivial
        · refine .done fun withdrawal => .done fun signalled =>
            .bind (.perform fun _ same => by cases same) fun rows _ => .done fun known =>
              .done fun root => .done fun proof => .exclusively fun _ =>
                .bind (told_publishAspRoot root) fun _ _ => .done fun call =>
                  .tryCatch (told_sendFromRelayer _ call) fun _ _ => trivial
  | shield dto =>
      change Told cfg _ stage (PoolService.shield lib cfg.toRelayConfig dto)
      unfold PoolService.shield
      split
      · trivial
      · refine .done fun request => ?_
        split
        · trivial
        · refine .bind (.perform fun _ same => by cases same) fun now _ => ?_
          split
          · trivial
          · exact .done fun data => .tryCatch (told_sendFromRelayer _ data) fun _ _ => trivial

end Requests

/-! ## Every run -/

section Runs

variable {lib : RelayLibraries} {cfg : BootConfig} {world : RelayWorld}

/-- Where a process stands: in the check of the forwarder, or in the other one. -/
inductive Booting (lib : RelayLibraries) (cfg : BootConfig) (process : RelayProcess) : Prop where
  | trading (guarded : Guarded (bootEnvironment cfg.permit2) (CheckStands lib cfg)
        (fun _ final => Concluded lib cfg final) process.trading process.state)
      (untouched : process.resolution = RelayService.initResolution lib cfg)
  | resolution (through : process.trading = .done (.ok ()))
      (guarded : Guarded (bootEnvironment cfg.permit2) (fun _ => Settled lib cfg)
        (fun _ final => Settled lib cfg final) process.resolution process.state)

namespace Booting

variable {process : RelayProcess}

/-- What the process has set and read is all that matters. -/
theorem of_state_eq {later : RelayProcess} (booting : Booting lib cfg process)
    (trading : later.trading = process.trading) (resolution : later.resolution = process.resolution)
    (state : later.state = process.state) : Booting lib cfg later := by
  cases booting with
  | trading guarded untouched =>
      refine .trading ?_ (resolution.trans untouched)
      rwa [trading, state]
  | resolution through guarded =>
      refine .resolution (trading.trans through) ?_
      rwa [resolution, state]

/-- The resolver has been verified. -/
theorem resolver (booting : Booting lib cfg process)
    (some : process.relay.wiring.resolver.isSome) :
    (resolutionCheck lib cfg).Verified process.reads := by
  have unset : process.relay.wiring.resolver = none → (resolutionCheck lib cfg).Verified process.reads :=
    fun none => by rw [none] at some; cases some
  cases booting with
  | trading guarded untouched =>
      cases left : process.trading with
      | done outcome =>
          rw [left] at guarded
          exact unset guarded.1
      | call call next =>
          rw [left] at guarded
          cases guarded.1 with
          | starts off none => exact unset none
          | unverified fresh => exact unset fresh.resolver
          | verified none => exact unset none
  | resolution through guarded =>
      cases left : process.resolution with
      | done outcome =>
          rw [left] at guarded
          exact guarded.2 some
      | call call next =>
          rw [left] at guarded
          exact guarded.1.2 some

/-- Outside of the check, a wallet is there when the forwarder has been verified. -/
theorem connected (booting : Booting lib cfg process) (settled : ¬ process.Checking)
    (on : process.relay.wiring.connected = true) : (tradingCheck lib cfg).Verified process.reads := by
  cases booting with
  | trading guarded untouched =>
      cases left : process.trading with
      | done outcome =>
          rw [left] at guarded
          exact guarded.2 on
      | call call next =>
          rw [left] at guarded
          cases guarded.1 with
          | starts off =>
              rw [show process.relay.wiring.connected = false from off] at on
              cases on
          | unverified fresh connects balances =>
              exact absurd ⟨call, next, left, connects, balances, fresh.unread⟩ settled
          | verified _ verified => exact verified
  | resolution through guarded =>
      cases left : process.resolution with
      | done outcome =>
          rw [left] at guarded
          exact guarded.1 on
      | call call next =>
          rw [left] at guarded
          exact guarded.1.1 on

/-- In the check, the wallet is there and nothing has been verified. -/
theorem checking (booting : Booting lib cfg process) (under : process.Checking) :
    process.relay.wiring.connected = true ∧ ¬ (tradingCheck lib cfg).Verified process.reads := by
  obtain ⟨call, next, left, connects, balances, unread⟩ := under
  cases booting with
  | trading guarded untouched =>
      rw [left] at guarded
      cases guarded.1 with
      | starts => exact absurd rfl connects
      | unverified fresh => exact ⟨fresh.connected, fresh.unverified⟩
      | verified _ _ asked =>
          rcases asked with balance | read
          · exact absurd balance balances
          · exact absurd read unread
  | resolution through =>
      rw [through] at left
      cases left

end Booting

/-- What holds of a process and its requests throughout. -/
structure BootHolds (lib : RelayLibraries) (cfg : BootConfig) (process : RelayProcess)
    (threads : List BootThread) : Prop where
  booting : Booting lib cfg process
  enabled : ∀ call next, process.trading = .call call next → cfg.enabled = true
  sponsoring : ∀ thread ∈ threads, Sponsored cfg thread.request thread.stage thread.task
  resolver : ∀ thread ∈ threads, thread.stage.sponsored = true →
    (resolutionCheck lib cfg).Verified process.reads
  sponsored : ∀ thread ∈ threads, thread.request.resolves = true → thread.stage.sent = true →
    (resolutionCheck lib cfg).Verified process.reads

/-- What holds besides, where no request asks during the check. -/
structure SendsVerified (lib : RelayLibraries) (cfg : BootConfig) (world : RelayWorld)
    (process : RelayProcess) (threads : List BootThread) : Prop where
  told : ∀ thread ∈ threads, Told cfg thread.request thread.stage thread.task
  asked : ∀ thread ∈ threads, thread.stage.enabled = true →
    (tradingCheck lib cfg).Verified process.reads
  sent : process.relay.nonce ≠ world.nonce → (tradingCheck lib cfg).Verified process.reads

theorem bootHolds_initial : BootHolds lib cfg (.initial lib cfg world) [] where
  booting := .trading (guarded_initTrading rfl rfl rfl) rfl
  enabled := by
    intro call next same
    change RelayService.initTrading lib cfg = .call call next at same
    unfold RelayService.initTrading at same
    split at same
    · rename_i on
      exact (Bool.and_eq_true_iff.mp on).1
    · cases same
  sponsoring := fun _ member => absurd member List.not_mem_nil
  resolver := fun _ member => absurd member List.not_mem_nil
  sponsored := fun _ member => absurd member List.not_mem_nil

/-- The check goes on. -/
theorem BootHolds.changes {process later : RelayProcess} {threads : List BootThread}
    (holds : BootHolds lib cfg process threads)
    (changes : process.Changes cfg.permit2 later) : BootHolds lib cfg later threads := by
  obtain ⟨booting, enabled, sponsoring, resolver, sponsored⟩ := holds
  cases changes with
  | relay passed =>
      rename_i relay
      have wiring : relay.wiring = process.relay.wiring := by cases passed <;> rfl
      exact ⟨booting.of_state_eq rfl rfl (congrArg (BootState.mk · process.reads) wiring), enabled,
        sponsoring, resolver, sponsored⟩
  | trading awaits answered =>
      cases booting with
      | resolution through =>
          rw [through] at awaits
          cases awaits
      | trading guarded untouched =>
          rw [awaits] at guarded
          have next := guarded.2 _ _ _ answered
          obtain ⟨-, rfl, rfl⟩ := answered
          exact ⟨.trading next untouched, fun _ _ _ => enabled _ _ awaits, sponsoring,
            fun thread present now => (resolver thread present now).append _,
            fun thread present resolves sent => (sponsored thread present resolves sent).append _⟩
  | resolution through awaits answered =>
      have guarded : Guarded (bootEnvironment cfg.permit2) (fun _ => Settled lib cfg)
          (fun _ final => Settled lib cfg final) process.resolution process.state := by
        cases booting with
        | resolution _ guarded => exact guarded
        | trading guarded untouched =>
            rw [through] at guarded
            rw [untouched]
            exact guarded_initResolution (Concluded.settled guarded)
      rw [awaits] at guarded
      have next := guarded.2 _ _ _ answered
      obtain ⟨-, rfl, rfl⟩ := answered
      exact ⟨.resolution through next, enabled, sponsoring,
        fun thread present now => (resolver thread present now).append _,
        fun thread present resolves sent => (sponsored thread present resolves sent).append _⟩

/-- While the check goes on, nothing is sent. -/
theorem SendsVerified.changes {process later : RelayProcess} {threads : List BootThread}
    (verified : SendsVerified lib cfg world process threads)
    (changes : process.Changes cfg.permit2 later) : SendsVerified lib cfg world later threads := by
  obtain ⟨told, asked, sent⟩ := verified
  cases changes with
  | relay passed =>
      rename_i relay
      have nonce : relay.nonce = process.relay.nonce := by
        cases passed with
        | mines succeeded next =>
            simp only [RelayWorld.nonce, next, List.length_cons, List.length_append,
              List.length_nil]
            omega
        | _ => rfl
      exact ⟨told, asked, fun more => sent (nonce ▸ more)⟩
  | trading awaits answered | resolution through awaits answered =>
      obtain ⟨-, rfl, rfl⟩ := answered
      exact ⟨told, fun thread present now => (asked thread present now).append _,
        fun more => (sent more).append _⟩

/-- Only a transaction that is broadcast counts. -/
theorem nonce_eq_of_performs {call : RelayCall} {before later : RelayWorld}
    {answer : Except RelayError call.Answer} (performed : call.Performs before answer later)
    (sends : ∀ tx, call ≠ .sendTransaction tx) : later.nonce = before.nonce := by
  obtain ⟨-, pending, executed⟩ := performed.chain_eq sends
  rw [RelayWorld.nonce, RelayWorld.nonce, pending, executed]

section Calls

variable {meets : Async.System.Condition RelayCall.Answer RelayError Nat RelayRequest BootStage
    RelayProcess} {process later : RelayProcess} {threads : List BootThread} {position : Nat}
  {request : RelayRequest} {stage : BootStage} {call : RelayCall}
  {continued : Except RelayError call.Answer → Relay Nat} {answer : Except RelayError call.Answer}
  {record : List RelayCall}

/-- A request is told of a resolver that has been verified. -/
theorem BootHolds.resolver_told
    (turn : (bootSystem lib cfg world).Turn meets process threads position request stage call
      continued answer record later)
    (holds : BootHolds lib cfg process threads)
    (isTold : (Numera.told cfg request stage process call answer).sponsored = true) :
    (resolutionCheck lib cfg).Verified process.reads := by
  obtain ⟨relay, answered, -⟩ := turn.answered
  have own : stage.sponsored = true → (resolutionCheck lib cfg).Verified process.reads :=
    holds.resolver _ (List.mem_of_getElem? turn.found)
  unfold Numera.told at isTold
  split at isTold
  · rename_i wired
    rcases Bool.or_eq_true_iff.mp isTold with before | some
    · exact own before
    · have given := (relayEnvironment_inside rfl answered).1
      obtain rfl := Except.ok.inj given
      exact holds.booting.resolver some
  · exact own isTold
  · exact own isTold

/-- A request sends a proposal or a dispute when it has been told of the resolver. -/
theorem BootHolds.sponsored_told
    (turn : (bootSystem lib cfg world).Turn meets process threads position request stage call
      continued answer record later)
    (holds : BootHolds lib cfg process threads) (resolves : request.resolves = true)
    (sent : (Numera.told cfg request stage process call answer).sent = true) :
    (resolutionCheck lib cfg).Verified process.reads := by
  have present := List.mem_of_getElem? turn.found
  unfold Numera.told at sent
  split at sent
  · exact holds.sponsored _ present resolves sent
  · rename_i tx _
    exact holds.resolver _ present ((holds.sponsoring _ present).1 resolves tx rfl)
  · exact holds.sponsored _ present resolves sent

/-- A request makes a call. -/
theorem BootHolds.calls
    (turn : (bootSystem lib cfg world).Turn meets process threads position request stage call
      continued answer record later)
    (holds : BootHolds lib cfg process threads) :
    BootHolds lib cfg later (threads.set position
      ⟨request, Numera.told cfg request stage process call answer, continued answer⟩) := by
  have now := holds.resolver_told turn
  have sends := holds.sponsored_told turn
  obtain ⟨relay, answered, rfl⟩ := turn.answered
  have wiring : relay.wiring = process.relay.wiring :=
    relayEnvironment_keeps (·.wiring = process.relay.wiring) answered rfl
      fun given performed => performed.wiring_eq
  refine ⟨holds.booting.of_state_eq rfl rfl (congrArg (BootState.mk · process.reads) wiring),
    holds.enabled, fun thread member => ?_, fun thread member isTold => ?_,
    fun thread member resolves sent => ?_⟩
  · rcases List.mem_or_eq_of_mem_set member with old | rfl
    · exact holds.sponsoring thread old
    · exact (holds.sponsoring _ (List.mem_of_getElem? turn.found)).2 process answer
  · rcases List.mem_or_eq_of_mem_set member with old | rfl
    · exact holds.resolver thread old isTold
    · exact now isTold
  · rcases List.mem_or_eq_of_mem_set member with old | rfl
    · exact holds.sponsored thread old resolves sent
    · exact sends resolves sent

/-- Outside of the check a request is told that the relay is enabled when the forwarder has been
verified. -/
theorem SendsVerified.enabled_told
    (turn : (bootSystem lib cfg world).Turn unasked process threads position request stage call
      continued answer record later)
    (holds : BootHolds lib cfg process threads)
    (verified : SendsVerified lib cfg world process threads)
    (isTold : (Numera.told cfg request stage process call answer).enabled = true) :
    (tradingCheck lib cfg).Verified process.reads := by
  obtain ⟨relay, answered, -⟩ := turn.answered
  have own : stage.enabled = true → (tradingCheck lib cfg).Verified process.reads :=
    verified.asked _ (List.mem_of_getElem? turn.found)
  unfold Numera.told at isTold
  split at isTold
  · rename_i wired
    rcases Bool.or_eq_true_iff.mp isTold with before | enabled
    · exact own before
    · have given := (relayEnvironment_inside rfl answered).1
      obtain rfl := Except.ok.inj given
      exact holds.booting.connected (turn.met rfl) (Bool.and_eq_true_iff.mp enabled).2
  · exact own isTold
  · exact own isTold

/-- A request makes a call outside of the check, and sends only when it has been told that the
relay is enabled. -/
theorem SendsVerified.calls
    (turn : (bootSystem lib cfg world).Turn unasked process threads position request stage call
      continued answer record later)
    (holds : BootHolds lib cfg process threads)
    (verified : SendsVerified lib cfg world process threads) :
    SendsVerified lib cfg world later (threads.set position
      ⟨request, Numera.told cfg request stage process call answer, continued answer⟩) := by
  have now := verified.enabled_told turn holds
  obtain ⟨relay, answered, rfl⟩ := turn.answered
  have present := List.mem_of_getElem? turn.found
  refine ⟨fun thread member => ?_, fun thread member isTold => ?_, fun more => ?_⟩
  · rcases List.mem_or_eq_of_mem_set member with old | rfl
    · exact verified.told thread old
    · exact (verified.told _ present).2 process answer
  · rcases List.mem_or_eq_of_mem_set member with old | rfl
    · exact verified.asked thread old isTold
    · exact now isTold
  · by_cases before : process.relay.nonce = world.nonce
    · by_cases sends : ∃ tx, call = .sendTransaction tx
      · obtain ⟨tx, same⟩ := sends
        exact verified.asked _ present ((verified.told _ present).1 tx same)
      · refine absurd ?_ more
        exact relayEnvironment_keeps (·.nonce = world.nonce) answered before
          fun given performed => (nonce_eq_of_performs performed
            fun tx same => sends ⟨tx, same⟩).trans before
    · exact verified.sent before

/-- Whatever requests ask, what is set and sponsored stands as the check has left it. -/
theorem bootHolds_of_run {records : List RelayCall}
    (run : (bootSystem lib cfg world).Run meets records process threads) :
    BootHolds lib cfg process threads := by
  refine run.together (BootHolds lib cfg) bootHolds_initial
    (fun process later threads changes held => held.changes changes)
    (fun process threads request held => ?_)
    fun process threads position request stage call continued answer record later turn held =>
      held.calls turn
  refine ⟨held.booting, held.enabled, fun thread member => ?_, fun thread member isTold => ?_,
    fun thread member resolves sent => ?_⟩
  · rcases List.mem_append.mp member with old | new
    · exact held.sponsoring thread old
    · obtain rfl := List.mem_singleton.mp new
      exact sponsored_start request
  · rcases List.mem_append.mp member with old | new
    · exact held.resolver thread old isTold
    · obtain rfl := List.mem_singleton.mp new
      cases isTold
  · rcases List.mem_append.mp member with old | new
    · exact held.sponsored thread old resolves sent
    · obtain rfl := List.mem_singleton.mp new
      cases sent

/-- Where no request asks during the check, nothing is sent before the forwarder is verified. -/
theorem sendsVerified_of_run {records : List RelayCall}
    (run : (bootSystem lib cfg world).Run unasked records process threads) :
    SendsVerified lib cfg world process threads := by
  refine run.together (SendsVerified lib cfg world) ⟨?_, ?_, fun sent => absurd rfl sent⟩
    (fun process later threads changes held => held.changes changes)
    (fun process threads request held => ?_)
    fun process threads position request stage call continued answer record later turn held => ?_
  · exact fun _ member => absurd member List.not_mem_nil
  · exact fun _ member => absurd member List.not_mem_nil
  · refine ⟨fun thread member => ?_, fun thread member isTold => ?_, held.sent⟩
    · rcases List.mem_append.mp member with old | new
      · exact held.told thread old
      · obtain rfl := List.mem_singleton.mp new
        exact told_start request
    · rcases List.mem_append.mp member with old | new
      · exact held.asked thread old isTold
      · obtain rfl := List.mem_singleton.mp new
        cases isTold
  · obtain ⟨_, before⟩ := turn.before
    exact held.calls turn (bootHolds_of_run before)

end Calls

/-- As far as the check of the forwarder may get, a run may have it get. -/
theorem run_of_reaches
    {meets : Async.System.Condition RelayCall.Answer RelayError Nat RelayRequest BootStage
      RelayProcess}
    {records : List RelayCall} {process : RelayProcess}
    {threads : List BootThread}
    {made : List BootRead} {standing task : Boot Unit} {state final : BootState}
    (path : Async.Reaches (bootEnvironment cfg.permit2) task state made standing final)
    (run : (bootSystem lib cfg world).Run meets records process threads)
    (trading : process.trading = task) (at_ : process.state = state) :
    (bootSystem lib cfg world).Run meets records
      { process.setState final with trading := standing } threads := by
  induction path generalizing process with
  | refl task state =>
      subst trading at_
      exact run
  | step first later ih =>
      subst at_
      have further := Async.System.Run.pass run (RelayProcess.Changes.trading trading first)
      have reached := ih further rfl rfl
      exact reached

end Runs

namespace SampleRelay

/-- A deployment that has everything configured. -/
def bootConfig : BootConfig :=
  { config with
    privateKey := word '5'
    httpUrl := JsString.ascii "http://localhost:8545"
    lsLmsr := address 'e'
    optimisticResolver := address '3'
    permit2 := address '2' }

/-- The forwarders are wired as they are configured. -/
def bootAnswer : (call : BootCall) → call.Answer
  | .market _ => address 'e'
  | .resolver _ => address '3'
  | .isRelayable _ _ => true
  | .getBalance => 1000000000000000000
  | .connect | .refuse | .target _ | .sponsor _ | .sleep _ => ()

def bootRespond (call : BootCall) (state : BootState) : Except CallError call.Answer × BootState :=
  (.ok (bootAnswer call), ⟨call.assigns bootConfig.permit2 state.wiring,
    state.reads ++ call.reads (.ok (bootAnswer call))⟩)

/-- How far the check has come after so many of its steps. -/
def bootStopped (steps : Nat) : Boot Unit × BootState :=
  Async.stopped bootRespond steps (RelayService.initTrading libraries bootConfig)
    ⟨{ connected := false }, []⟩

def booted (steps : Nat) : RelayProcess :=
  { RelayProcess.setState (.initial libraries bootConfig world) (bootStopped steps).2 with
    trading := (bootStopped steps).1 }

theorem boot_run (steps : Nat)
    (meets : Async.System.Condition RelayCall.Answer RelayError Nat RelayRequest BootStage
      RelayProcess) :
    (bootSystem libraries bootConfig world).Run meets [] (booted steps) [] :=
  run_of_reaches (Async.reaches_recorded bootRespond
    (fun _ _ => ⟨fun _ => ⟨_, rfl⟩, rfl, rfl⟩) steps _ _) .start rfl rfl

/-- The keeper sends the result of a market. -/
def settles : RelayRequest := .sendFromRelayer (address '3') (.finalize (address 'e') 1)

/-- A node that answers while the relay boots. -/
def respondBooting (call : RelayCall) (process : RelayProcess) :
    Except RelayError call.Answer × RelayProcess :=
  ((node.respond call process.relay).1, { process with relay := (node.respond call process.relay).2 })

end SampleRelay

open SampleRelay in
/-- **A transaction is broadcast before anything has been verified**, by the keeper, whose first
pass falls into the check. -/
theorem enabled_unverified :
    ¬ ∀ records process threads,
      (bootSystem libraries bootConfig SampleRelay.world).Run Async.System.unconstrained records
          process threads →
        EnabledVerified libraries bootConfig SampleRelay.world process threads := by
  intro claimed
  let system := bootSystem libraries bootConfig SampleRelay.world
  have played : ((system.play respondBooting (fun call _ => [call])
      (fun process _ _ call _ => RelayNode.ready call process.relay)
      (.arrive settles :: List.replicate 9 (.call 0)) ⟨[], booted 1, []⟩).map fun reached =>
        (reached.world.relay.nonce, reached.world.reads)) = some (1, []) := by decide +kernel
  obtain ⟨reached, followed, summary⟩ := Option.map_eq_some_iff.mp played
  obtain ⟨sent, unread⟩ := Prod.mk.inj summary
  have run : system.Run Async.System.unconstrained reached.records reached.world reached.threads :=
    Async.System.run_of_play system respondBooting _ _ (fun _ _ _ _ passed =>
      ⟨⟨_, node.respond_answers passed, rfl⟩, trivial⟩) _ (boot_run 1 _) followed
  have verified := (claimed _ _ _ run).sent (by rw [sent]; decide)
  rw [unread] at verified
  exact WiringCheck.not_verified_nil verified

section Runs

variable {lib : RelayLibraries} {cfg : BootConfig} {world : RelayWorld}

variable (lib cfg world) in
/-- **The relay is enabled only when its wiring is verified**, except while the check of the
forwarder is under way and has never got as far as asking for the balance: then it is enabled and
nothing has been verified. Resolutions are enabled, and sponsored, only when their forwarder is
verified, whatever requests ask; and where none asks during the check, nothing at all is sent
before. -/
theorem relay_enabled_iff {records : List RelayCall} {process : RelayProcess}
    {threads : List BootThread}
    (run : (bootSystem lib cfg world).Run Async.System.unconstrained records process threads) :
    ((process.isEnabled cfg → (tradingCheck lib cfg).Verified process.reads) ↔
        ¬ process.Checking) ∧
      (process.isResolutionEnabled cfg → (resolutionCheck lib cfg).Verified process.reads) ∧
      (∀ thread ∈ threads, thread.request.resolves = true → thread.stage.sent = true →
        (resolutionCheck lib cfg).Verified process.reads) ∧
      ((bootSystem lib cfg world).Run unasked records process threads →
        (EnabledVerified lib cfg world process threads ↔ ¬ process.Checking)) := by
  have holds := bootHolds_of_run run
  have trading : (process.isEnabled cfg → (tradingCheck lib cfg).Verified process.reads) ↔
      ¬ process.Checking := by
    constructor
    · intro verified checking
      obtain ⟨on, unverified⟩ := holds.booting.checking checking
      obtain ⟨call, next, left, -⟩ := checking
      refine unverified (verified ?_)
      rw [RelayProcess.isEnabled, holds.enabled call next left, on]
      rfl
    · exact fun settled enabled =>
        holds.booting.connected settled (Bool.and_eq_true_iff.mp enabled).2
  have resolution : process.isResolutionEnabled cfg →
      (resolutionCheck lib cfg).Verified process.reads :=
    fun enabled => holds.booting.resolver (Bool.and_eq_true_iff.mp enabled).2
  refine ⟨trading, resolution, holds.sponsored, fun quiet => ?_⟩
  constructor
  · exact fun verified => trading.mp verified.trading
  · exact fun settled => ⟨trading.mpr settled, resolution, (sendsVerified_of_run quiet).sent,
      holds.sponsored⟩

end Runs

open SampleRelay in
/-- Where the forwarder is wired as configured, the relay is enabled and verified in the end. -/
theorem relay_enabled_iff_booted :
    ∃ process, process.isEnabled bootConfig = true ∧
      EnabledVerified libraries bootConfig SampleRelay.world process [] := by
  refine ⟨booted 9, by decide +kernel,
    ((relay_enabled_iff libraries bootConfig SampleRelay.world (boot_run 9 _)).2.2.2
      (boot_run 9 unasked)).mpr ?_⟩
  rintro ⟨call, next, left, -⟩
  have settled : (booted 9).trading.outcome? = some (.ok ()) := by decide +kernel
  rw [left] at settled
  cases settled

end Numera
