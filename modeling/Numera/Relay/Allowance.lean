import Numera.Foundation.Histories
import Numera.Relay.Footprint

/-! # The allowance of an account

An account may make so many requests in a window of time. Each of them is counted before
the forwarder is asked whether the account has signed it, so that whoever names the account
uses up its allowance (`forged_request_counted`). Only what is refused by the checks before
the count can be left out of a history without the account noticing
(`unaffected_iff_uncounted`).
-/

namespace Numera

open Async.System (Event Policy)

/-! ## Decisions -/

/-- What the limit has decided about a request, once it has: whether the account has made too
many. -/
def decision (cfg : RelayConfig) (_ : RelayRequest) (limited : Option Bool) (_ : RelayWorld) :
    (call : RelayCall) → Except RelayError call.Answer → Option Bool
  | .incr (.rate _), .ok count => some (count > cfg.accountLimit)
  | _, _ => limited

/-- The services, with what the limit decides about their requests. -/
abbrev allowanceSystem (lib : RelayLibraries) (cfg : RelayConfig) (initial : RelayWorld) :=
  relaySystem lib cfg initial (fun _ => none) (decision cfg)

/-! ## Checks before the count -/

/-- A request that the free checks admit. -/
def RelayService.RequestRules.admits (cfg : RelayConfig) (rules : RelayService.RequestRules)
    (payload : RelayRequestDto) : Bool :=
  match RelayService.toContractRequest payload, rules.destination with
  | .ok request, some destination => (rules.refusal cfg destination payload request).isNone
  | _, _ => false

namespace RelayRequest

/-- The account that a request names as the one it acts for. -/
def account : RelayRequest → Option JsString
  | submit payload | submitResolution payload => some payload.request.from
  | submitPermit permit => some permit.owner
  | _ => none

def Names (account : JsString) (request : RelayRequest) : Prop :=
  request.account.map JsString.toLowerCase = some account.toLowerCase

theorem Names.isSome {account : JsString} {request : RelayRequest} (named : request.Names account) :
    request.account.isSome := by
  obtain ⟨own, here, -⟩ := Option.map_eq_some_iff.mp named
  rw [here]
  rfl

/-- A request that is counted: it passes every check before the limit of its account. -/
def counted (lib : RelayLibraries) (cfg : RelayConfig) (wiring : Wiring) : RelayRequest → Bool
  | submit payload =>
      cfg.enabled && wiring.connected &&
        (RelayService.tradingRules lib cfg wiring).admits cfg payload
  | submitResolution payload =>
      cfg.enabled && wiring.connected && wiring.resolver.any fun resolver =>
        (RelayService.resolutionRules lib cfg resolver).admits cfg payload
  | submitPermit permit =>
      cfg.enabled && wiring.connected && decide (permit.spender.toLowerCase ∈ wiring.permitSpenders)
  | _ => false

section Refused

variable {lib : RelayLibraries} {cfg : RelayConfig} {initial : RelayWorld}

/-- The forwarder's verifier rejects the request, or the simulation of its permit fails, in
whatever calls it makes. -/
def Refused (calls : (allowanceSystem lib cfg initial).Policy → Prop) : RelayRequest → Prop
  | submit _ | submitResolution _ =>
      ∀ policy, calls policy → ∀ forwarder signed world later,
        policy.respond (.verifyRelayable forwarder signed) world ≠ some (.ok true, later)
  | submitPermit _ =>
      (∀ policy, calls policy → ∀ destination data world later,
        policy.respond (.call destination data) world ≠ some (.ok (), later)) ∨
      ∀ policy, calls policy → ∀ destination data world gas later,
        policy.respond (.estimateGas destination data) world ≠ some (.ok gas, later)
  | _ => False

/-- The verifier accepts a request in whatever calls it makes, and its simulation succeeds. -/
def Valid (calls : (allowanceSystem lib cfg initial).Policy → Prop) : Prop :=
  ∀ policy, calls policy →
    (∀ forwarder signed world answer later,
      policy.respond (.verifyRelayable forwarder signed) world = some (answer, later) →
        answer = .ok true) ∧
    (∀ destination data world answer later,
      policy.respond (.call destination data) world = some (answer, later) → answer = .ok ()) ∧
    ∀ destination data world answer later,
      policy.respond (.estimateGas destination data) world = some (answer, later) →
        ∃ gas, answer = .ok gas

end Refused

end RelayRequest

/-- Whatever requests of a kind are inserted and refused, those of the account that are valid
are decided about in the same way. -/
def Unaffected (lib : RelayLibraries) (cfg : RelayConfig) (initial : RelayWorld)
    (account : JsString) (attack : RelayRequest → Prop) : Prop :=
  ∀ (inserted : Nat → Bool) (events : List (allowanceSystem lib cfg initial).Event),
    (∀ position thread, inserted position = true →
      ((allowanceSystem lib cfg initial).reach events).2[position]? = some thread →
        attack thread.request ∧
          thread.request.Refused fun policy => .calls position policy ∈ events) →
    ∀ position thread, inserted position = false →
      ((allowanceSystem lib cfg initial).reach events).2[position]? = some thread →
        thread.request.Names account →
          RelayRequest.Valid (fun policy => .calls position policy ∈ events) →
            (((allowanceSystem lib cfg initial).reach
              ((allowanceSystem lib cfg initial).without inserted events)).2[
                Async.System.kept inserted position]?).map (·.stage) = some thread.stage

/-! ## What is counted -/

section Counted

variable {lib : RelayLibraries} {cfg : RelayConfig} {wiring : Wiring}

/-- A request whose free checks fail makes no call. -/
theorem submitRequest_refused {rules : RelayService.RequestRules} {payload : RelayRequestDto}
    (refused : rules.admits cfg payload = false) :
    ∃ outcome, RelayService.submitRequest lib cfg rules payload = .done outcome := by
  unfold RelayService.RequestRules.admits at refused
  unfold RelayService.submitRequest
  cases read : RelayService.toContractRequest payload with
  | error thrown => exact ⟨_, rfl⟩
  | ok request =>
      simp only [read, Async.done_ok_bind] at refused ⊢
      cases target : rules.destination with
      | none => exact ⟨_, rfl⟩
      | some destination =>
          simp only [target] at refused ⊢
          cases message : rules.refusal cfg destination payload request with
          | none =>
              rw [message] at refused
              cases refused
          | some text => exact ⟨_, rfl⟩

/-- A request that passes its free checks is counted next. -/
theorem submitRequest_admitted {rules : RelayService.RequestRules} {payload : RelayRequestDto}
    (admitted : rules.admits cfg payload = true) :
    ∃ rest, RelayService.submitRequest lib cfg rules payload =
      .call (.incr (.rate payload.request.from.toLowerCase)) rest := by
  unfold RelayService.RequestRules.admits at admitted
  unfold RelayService.submitRequest
  cases read : RelayService.toContractRequest payload with
  | error thrown =>
      rw [read] at admitted
      cases admitted
  | ok request =>
      have signer : request.from = payload.request.from := by
        unfold RelayService.toContractRequest at read
        obtain ⟨value, -, read⟩ := bind_eq_ok read
        obtain ⟨gas, -, read⟩ := bind_eq_ok read
        obtain rfl := Except.ok.inj read
        rfl
      simp only [read, Async.done_ok_bind] at admitted ⊢
      cases target : rules.destination with
      | none =>
          rw [target] at admitted
          cases admitted
      | some destination =>
          simp only [target, Option.isNone_iff_eq_none] at admitted ⊢
          rw [admitted, ← signer]
          exact ⟨_, rfl⟩

variable (lib cfg wiring) in
/-- Whatever names an account asks for the wiring first, and does nothing more unless it is
counted. -/
theorem start_cases (request : RelayRequest) (named : request.account.isSome) :
    ∃ rest, request.start lib cfg = .call .wiring rest ∧
      if request.counted lib cfg wiring then
        ∃ account later, request.account = some account ∧
          rest (.ok wiring) = .call (.incr (.rate account.toLowerCase)) later
      else ∃ outcome, rest (.ok wiring) = .done outcome := by
  cases request with
  | submit payload =>
      refine ⟨_, rfl, ?_⟩
      change if (cfg.enabled && wiring.connected && _) = true then
        ∃ account later, _ ∧ (if (!(cfg.enabled && wiring.connected)) = true then _ else _) = _
        else ∃ outcome, (if (!(cfg.enabled && wiring.connected)) = true then _ else _) = _
      by_cases on : (cfg.enabled && wiring.connected) = true
      · rw [on, Bool.true_and, Bool.not_true, if_neg Bool.false_ne_true]
        split
        · rename_i admitted
          obtain ⟨rest, follows⟩ := submitRequest_admitted admitted
          exact ⟨_, rest, rfl, follows⟩
        · rename_i refused
          exact submitRequest_refused (Bool.eq_false_iff.mpr refused)
      · rw [Bool.eq_false_iff.mpr on, Bool.false_and, if_neg Bool.false_ne_true]
        exact ⟨_, rfl⟩
  | submitResolution payload =>
      refine ⟨_, rfl, ?_⟩
      change if (cfg.enabled && wiring.connected && _) = true then
        ∃ account later, _ ∧ (if (!(cfg.enabled && wiring.connected)) = true then _ else _) = _
        else ∃ outcome, (if (!(cfg.enabled && wiring.connected)) = true then _ else _) = _
      by_cases on : (cfg.enabled && wiring.connected) = true
      · rw [on, Bool.true_and, Bool.not_true, if_neg Bool.false_ne_true]
        cases there : wiring.resolver with
        | none => exact ⟨_, rfl⟩
        | some resolver =>
            rw [Option.any_some]
            split
            · rename_i admitted
              obtain ⟨rest, follows⟩ := submitRequest_admitted admitted
              exact ⟨_, rest, rfl, follows⟩
            · rename_i refused
              exact submitRequest_refused (Bool.eq_false_iff.mpr refused)
      · rw [Bool.eq_false_iff.mpr on, Bool.false_and, if_neg Bool.false_ne_true]
        exact ⟨_, rfl⟩
  | submitPermit permit =>
      refine ⟨_, rfl, ?_⟩
      change if (cfg.enabled && wiring.connected && _) = true then
        ∃ account later, _ ∧ (if (!(cfg.enabled && wiring.connected)) = true then _ else
          if permit.spender.toLowerCase ∉ wiring.permitSpenders then _ else _) = _
        else ∃ outcome, (if (!(cfg.enabled && wiring.connected)) = true then _ else
          if permit.spender.toLowerCase ∉ wiring.permitSpenders then _ else _) = _
      by_cases on : (cfg.enabled && wiring.connected) = true
      · rw [on, Bool.true_and, Bool.not_true, if_neg Bool.false_ne_true]
        by_cases spends : permit.spender.toLowerCase ∈ wiring.permitSpenders
        · rw [if_pos (decide_eq_true spends), if_neg (not_not_intro spends)]
          exact ⟨_, _, rfl, rfl⟩
        · rw [if_neg (by simpa using spends), if_pos spends]
          exact ⟨_, rfl⟩
      · rw [Bool.eq_false_iff.mpr on, Bool.false_and, if_neg Bool.false_ne_true]
        exact ⟨_, rfl⟩
  | _ => cases named

end Counted

/-! ## Inserted requests -/

section Inserted

variable {lib : RelayLibraries} {cfg : RelayConfig} {initial : RelayWorld}

/-- A request that has not been counted, and will not be. -/
def Uncounted (wiring : Wiring) (task : Relay Nat) : Prop :=
  (∃ outcome, task = .done outcome) ∨
    ∃ rest, task = .call .wiring rest ∧ ∃ outcome, rest (.ok wiring) = .done outcome

/-- What is not counted is left out unnoticed by every other request. -/
theorem alike_uncounted {inserted : Nat → Bool}
    (events : List (allowanceSystem lib cfg initial).Event)
    (left : ∀ position thread, inserted position = true →
      ((allowanceSystem lib cfg initial).reach events).2[position]? = some thread →
        thread.request.account.isSome ∧ thread.request.counted lib cfg initial.wiring = false) :
    Async.System.Alike inserted
      ((allowanceSystem lib cfg initial).reach
        ((allowanceSystem lib cfg initial).without inserted events))
      ((allowanceSystem lib cfg initial).reach events) := by
  have passes : ∀ world later, (allowanceSystem lib cfg initial).drift world later →
      world.wiring = initial.wiring → later.wiring = initial.wiring := by
    intro world later passed wired
    cases passed <;> exact wired
  have answers : ∀ call world answer record later,
      (allowanceSystem lib cfg initial).env call world answer record later →
        world.wiring = initial.wiring → later.wiring = initial.wiring := by
    intro call world answer record later answered wired
    exact relayEnvironment_keeps (·.wiring = initial.wiring) answered wired
      fun given performed => performed.wiring_eq.trans wired
  have silent : ∀ call continued world answer record later, world.wiring = initial.wiring →
      Uncounted initial.wiring (.call call continued) →
        (allowanceSystem lib cfg initial).env call world answer record later →
          later = world ∧ Uncounted initial.wiring (continued answer) := by
    intro call continued world answer record later wired uncounted answered
    rcases uncounted with ⟨outcome, finished⟩ | ⟨rest, same, outcome, ends⟩
    · cases finished
    · obtain ⟨rfl, rfl⟩ := Async.call.inj same
      have performed : RelayCall.wiring.Performs world answer later :=
        relayEnvironment_inside rfl answered
      obtain ⟨rfl, rfl⟩ := performed
      rw [wired]
      exact ⟨rfl, .inl ⟨outcome, ends⟩⟩
  refine Async.System.alike_without passes answers silent rfl events
    fun position thread out found => ?_
  obtain ⟨named, refused⟩ := left position thread out found
  obtain ⟨rest, starts, follows⟩ := start_cases lib cfg initial.wiring
    thread.request named
  rw [if_neg (Bool.eq_false_iff.mp refused)] at follows
  exact .inr ⟨rest, starts, follows⟩

/-- A node that is called now. -/
def RelayNode.policy (node : RelayNode) : (allowanceSystem lib cfg initial).Policy where
  respond call world := if RelayNode.ready call world then some (node.respond call world) else none
  possible := by
    intro call world answer later answered
    split at answered
    · rename_i now
      obtain ⟨rfl, rfl⟩ := Prod.mk.inj (Option.some.inj answered)
      exact ⟨_, node.respond_answers now⟩
    · cases answered

/-- A node that verifies nothing and whose simulations fail refuses whatever names an
account. -/
theorem refused_of_node {node : RelayNode} {request : RelayRequest}
    (named : request.account.isSome) (verifies : ∀ signed, node.verifies signed = false)
    (simulates : ∀ data, node.simulates data = false)
    {calls : (allowanceSystem lib cfg initial).Policy → Prop}
    (only : ∀ policy, calls policy → policy = node.policy) : request.Refused calls := by
  have verified : ∀ policy, calls policy → ∀ forwarder signed world later,
      policy.respond (.verifyRelayable forwarder signed) world ≠ some (.ok true, later) := by
    intro policy made forwarder signed world later answered
    rw [only policy made] at answered
    simp [RelayNode.policy, RelayNode.ready, RelayNode.respond, verifies] at answered
  cases request with
  | submit payload => exact verified
  | submitResolution payload => exact verified
  | submitPermit permit =>
      refine .inl fun policy made destination data world later answered => ?_
      rw [only policy made] at answered
      simp [RelayNode.policy, RelayNode.ready, RelayNode.respond, simulates] at answered
  | _ => cases named

/-- A node that verifies and simulates everything finds every request valid. -/
theorem valid_of_node {node : RelayNode} (verifies : ∀ signed, node.verifies signed = true)
    (simulates : ∀ data, node.simulates data = true)
    {calls : (allowanceSystem lib cfg initial).Policy → Prop}
    (only : ∀ policy, calls policy → policy = node.policy) : RelayRequest.Valid calls := by
  intro policy made
  rw [only policy made]
  refine ⟨fun forwarder signed world answer later answered => ?_,
    fun destination data world answer later answered => ?_,
    fun destination data world answer later answered => ?_⟩
  · simp only [RelayNode.policy, RelayNode.ready, RelayNode.respond, verifies, if_true] at answered
    exact (Prod.mk.inj (Option.some.inj answered)).1.symm
  · simp only [RelayNode.policy, RelayNode.ready, RelayNode.respond, simulates, if_true] at answered
    exact (Prod.mk.inj (Option.some.inj answered)).1.symm
  · simp only [RelayNode.policy, RelayNode.ready, RelayNode.respond, if_true] at answered
    exact ⟨_, (Prod.mk.inj (Option.some.inj answered)).1.symm⟩

/-- The limit decides about a counted request with its second call. -/
theorem advance_counted {node : RelayNode} {reached : RelayWorld × List (Async.Thread
      RelayCall.Answer RelayError Nat RelayRequest (Option Bool))} {position : Nat}
    {request : RelayRequest} {account : JsString} {stage : Option Bool}
    {rest : Except RelayError Wiring → Relay Nat} {later : Except RelayError Nat → Relay Nat}
    (found : reached.2[position]? = some ⟨request, stage, .call .wiring rest⟩)
    (follows : rest (.ok reached.1.wiring) = .call (.incr (.rate account)) later) :
    let count := (reached.1.incrby (.rate account) 1).1
    [Event.calls position node.policy, .calls position node.policy].foldl
        (allowanceSystem lib cfg initial).advance reached =
      ((reached.1.incrby (.rate account) 1).2,
        reached.2.set position ⟨request, some (count > cfg.accountLimit), later (.ok count)⟩) := by
  obtain ⟨bound, -⟩ := List.getElem?_eq_some_iff.mp found
  have first : (allowanceSystem lib cfg initial).advance reached (.calls position node.policy) =
      (reached.1, reached.2.set position ⟨request, stage, .call (.incr (.rate account)) later⟩) := by
    simp only [Async.System.advance, found]
    rw [← follows]
    rfl
  rw [List.foldl_cons, List.foldl_cons, List.foldl_nil, first]
  simp only [Async.System.advance, List.getElem?_set_self bound]
  simp only [RelayNode.policy, RelayNode.ready, RelayNode.respond, if_true, List.set_set]
  rfl

theorem incrby_counter {world : RelayWorld} {key : RedisKey} {value : Nat} (amount : Nat)
    (there : world.counters key = some ⟨value, none⟩) :
    (world.incrby key amount).1 = value + amount ∧
      (world.incrby key amount).2.counters key = some ⟨value + amount, none⟩ := by
  have live : world.counter key = some ⟨value, none⟩ := by
    simp [RelayWorld.counter, there]
  simp [RelayWorld.incrby, live, RelayWorld.setCounter]

/-- The second call of a counted request counts it. -/
theorem start_counted {account : JsString} {request : RelayRequest} (named : request.Names account)
    (counted : request.counted lib cfg initial.wiring = true) :
    ∃ rest later, request.start lib cfg = .call .wiring rest ∧
      rest (.ok initial.wiring) = .call (.incr (.rate account.toLowerCase)) later := by
  obtain ⟨rest, starts, follows⟩ := start_cases lib cfg initial.wiring request named.isSome
  rw [if_pos counted] at follows
  obtain ⟨own, later, names, follows⟩ := follows
  have same : own.toLowerCase = account.toLowerCase := by
    simpa [RelayRequest.Names, names] using named
  exact ⟨rest, later, starts, same ▸ follows⟩

/-- The two calls with which a request is counted. -/
def RelayNode.counts (node : RelayNode) (position : Nat) :
    List (allowanceSystem lib cfg initial).Event :=
  [.calls position node.policy, .calls position node.policy]

theorem advance_arrives {request : RelayRequest}
    {rest : Except RelayError Wiring → Relay Nat} (world : RelayWorld)
    (threads : List (Async.Thread RelayCall.Answer RelayError Nat RelayRequest (Option Bool)))
    (starts : request.start lib cfg = .call .wiring rest) :
    (allowanceSystem lib cfg initial).advance (world, threads) (.arrives request) =
      (world, threads ++ [⟨request, none, .call .wiring rest⟩]) := by
  rw [← starts]
  rfl

section Counted

variable {account : JsString} {own : RelayRequest} {value : Nat}

/-- A counted request is decided about by its count. -/
theorem stages_of_counted (node : RelayNode) (names : own.Names account)
    (counted : own.counted lib cfg initial.wiring = true)
    (there : initial.counters (.rate account.toLowerCase) = some ⟨value, none⟩) :
    ((allowanceSystem lib cfg initial).reach (.arrives own :: node.counts 0)).2.map (·.stage) =
      [some (decide (value + 1 > cfg.accountLimit))] := by
  obtain ⟨rest, later, starts, follows⟩ := start_counted names counted
  change List.map _ ((node.counts 0).foldl _ ((allowanceSystem lib cfg initial).advance
    (initial, []) (.arrives own))).2 = _
  rw [advance_arrives _ _ starts, RelayNode.counts, advance_counted rfl follows]
  simp [(incrby_counter 1 there).1]

/-- A request that is counted after another of its account is one further on. -/
theorem stages_of_both (node other : RelayNode) {forged : RelayRequest}
    (forged_names : forged.Names account) (own_names : own.Names account)
    (forged_counted : forged.counted lib cfg initial.wiring = true)
    (own_counted : own.counted lib cfg initial.wiring = true)
    (there : initial.counters (.rate account.toLowerCase) = some ⟨value, none⟩) :
    ((allowanceSystem lib cfg initial).reach
        (.arrives forged :: (node.counts 0 ++ .arrives own :: other.counts 1))).2.map
          (fun thread => (thread.request, thread.stage)) =
      [(forged, some (decide (value + 1 > cfg.accountLimit))),
        (own, some (decide (value + 1 + 1 > cfg.accountLimit)))] := by
  obtain ⟨forgedRest, forgedLater, forged_starts, forged_follows⟩ :=
    start_counted forged_names forged_counted
  obtain ⟨ownRest, ownLater, own_starts, own_follows⟩ := start_counted own_names own_counted
  obtain ⟨first, stored⟩ := incrby_counter 1 there
  obtain ⟨second, -⟩ := incrby_counter 1 stored
  change List.map _ ((node.counts 0 ++ Event.arrives own :: other.counts 1).foldl _
    ((allowanceSystem lib cfg initial).advance (initial, []) (.arrives forged))).2 = _
  rw [List.foldl_append, advance_arrives _ _ forged_starts, RelayNode.counts,
    advance_counted rfl forged_follows, List.foldl_cons, advance_arrives _ _ own_starts,
    RelayNode.counts, advance_counted rfl own_follows]
  simp [first, second]

end Counted

/-- Where only one request more is left of an allowance, a request that is counted and refused
takes it from the next. -/
theorem affected_of_counted {account : JsString} {forged own : RelayRequest}
    (forged_names : forged.Names account) (own_names : own.Names account)
    (forged_counted : forged.counted lib cfg initial.wiring = true)
    (own_counted : own.counted lib cfg initial.wiring = true) (limited : 0 < cfg.accountLimit)
    (almost : initial.counters (.rate account.toLowerCase) = some ⟨cfg.accountLimit - 1, none⟩)
    {attack : RelayRequest → Prop} (member : attack forged) :
    ¬ Unaffected lib cfg initial account attack := by
  let refusing : RelayNode := ⟨fun _ => false, fun _ => false, 0, ⟨0, 0⟩⟩
  let accepting : RelayNode := ⟨fun _ => true, fun _ => true, 0, ⟨0, 0⟩⟩
  let inserted : Nat → Bool := fun position => position == 0
  let events : List (allowanceSystem lib cfg initial).Event :=
    .arrives forged :: (refusing.counts 0 ++ .arrives own :: accepting.counts 1)
  -- without the forged request the limit is reached, and not exceeded
  have alone := stages_of_counted accepting own_names own_counted almost
  have after := stages_of_both refusing accepting forged_names own_names forged_counted own_counted
    almost
  rw [Nat.sub_add_cancel limited] at alone after
  have at_zero : ∀ policy, .calls 0 policy ∈ events → policy = refusing.policy := by
    simp [events, RelayNode.counts]
  have at_one : ∀ policy, .calls 1 policy ∈ events → policy = accepting.policy := by
    simp [events, RelayNode.counts]
  generalize reached : (allowanceSystem lib cfg initial).reach events = final at after
  obtain ⟨world, threads⟩ := final
  obtain ⟨attacker, others, rfl, attacked, rest⟩ := List.map_eq_cons_iff.mp after
  obtain ⟨victim, none_left, rfl, victimised, -⟩ := List.map_eq_cons_iff.mp rest
  obtain ⟨attacks, -⟩ := Prod.mk.inj attacked
  obtain ⟨owned, decided⟩ := Prod.mk.inj victimised
  intro unaffected
  have unchanged := unaffected inserted events
    (fun position thread out found => by
      obtain rfl : position = 0 := beq_iff_eq.mp out
      rw [reached] at found
      obtain rfl := Option.some.inj found
      rw [attacks]
      exact ⟨member, refused_of_node forged_names.isSome (fun _ => rfl) (fun _ => rfl) at_zero⟩)
    1 victim rfl (by rw [reached]; rfl) (owned ▸ own_names)
    (valid_of_node (fun _ => rfl) (fun _ => rfl) at_one)
  have shorter : (((allowanceSystem lib cfg initial).reach
      (.arrives own :: accepting.counts 0)).2[0]?).map (·.stage) = some victim.stage := unchanged
  rw [← List.getElem?_map, alone, decided] at shorter
  simp at shorter

/-- **The account is unaffected by exactly what is refused before it is counted.** -/
theorem unaffected_iff_uncounted (lib : RelayLibraries) (cfg : RelayConfig) (wiring : Wiring)
    (limited : 0 < cfg.accountLimit) (account : JsString) (attack : RelayRequest → Prop)
    (naming : ∀ request, attack request → request.Names account) :
    (∀ initial : RelayWorld, initial.wiring = wiring → Unaffected lib cfg initial account attack) ↔
      ∀ request, attack request → request.counted lib cfg wiring = false := by
  constructor
  · intro unaffected request member
    rw [Bool.eq_false_iff]
    intro counted
    let almost : RelayWorld := {
      wiring
      counters := fun key =>
        if key = .rate account.toLowerCase then some ⟨cfg.accountLimit - 1, none⟩ else none }
    have named := naming request member
    have affected : ¬ Unaffected lib cfg almost account attack :=
      affected_of_counted named named counted counted limited (if_pos rfl) member
    exact affected (unaffected almost rfl)
  · rintro uncounted initial rfl inserted events left position thread apart found - -
    have alike := alike_uncounted events fun place other out there =>
      have member := (left place other out there).1
      ⟨(naming other.request member).isSome, uncounted other.request member⟩
    rw [alike.others position apart, found]
    rfl

end Inserted

namespace SampleRelay

/-- A trade that an account has signed. -/
def trade (signature : JsString) : RelayRequest := .submit {
  request := {
    «from» := address '1'
    «to» := address 'e'
    value := decimalString 0
    gas := decimalString 400000
    deadline := 4102444800
    data := JsString.ascii "0x1281311d"
    signature } }

/-- A trade that is addressed to another contract. -/
def misdirected : RelayRequest := .submit {
  request := {
    «from» := address '1'
    «to» := address '9'
    value := decimalString 0
    gas := decimalString 400000
    deadline := 4102444800
    data := JsString.ascii "0x1281311d"
    signature := word '8' } }

/-- The account has made all but one of the requests it may make. -/
def almostLimited : RelayWorld :=
  { world with counters := fun key =>
      if key = .rate (address '1') then some ⟨config.accountLimit - 1, none⟩ else none }

end SampleRelay

open SampleRelay in
/-- **A request somebody else has signed is counted**, and the account's own is then refused. -/
theorem forged_request_counted :
    ¬ Unaffected libraries config almostLimited (address '1')
      (fun request => request = trade (word '8')) := by
  have forged_names : (trade (word '8')).Names (address '1') := rfl
  have own_names : (trade (word '7')).Names (address '1') := rfl
  exact affected_of_counted forged_names own_names (by decide +kernel) (by decide +kernel)
    (by decide) rfl rfl

open SampleRelay in
/-- A request to another contract is refused before it is counted. -/
theorem unaffected_iff_uncounted_misdirected :
    Unaffected libraries config SampleRelay.world (address '1')
      (fun request => request = misdirected) :=
  (unaffected_iff_uncounted libraries config SampleRelay.world.wiring (by decide) (address '1') _
    (by rintro _ rfl; rfl)).mpr (by rintro _ rfl; decide +kernel) SampleRelay.world rfl

end Numera
