import Numera.Auth.Store
import Numera.Foundation.Interleaving
import Numera.Foundation.Json

/-! # Who is an admin

`AdminAccessService` asks the contracts themselves. An account has a role if it holds it, or
`DEFAULT_ADMIN`, on one of the contracts that can grant it; a read that fails counts for
nothing, and the answer is kept in Redis for half a minute. Any number of lookups are served
at once, over contracts whose roles are granted and revoked all the time. What the cache says
true was held when its entry was written (`AccessWorld.Backed`), so an answer that is true was
true at most half a minute earlier.
-/

namespace Numera

open Async (Ends Follows System Thread)

/-! ## Roles -/

/-- `ProtocolRoleName`, in the order of the keys of `ProtocolRole`. -/
inductive ProtocolRoleName where
  | defaultAdmin
  | marketCreator
  | resolver
  | arbitrator
  | blocklist
  | pauser
  | feeManager
  | curator
  deriving DecidableEq

/-- The key of a role. -/
def ProtocolRoleName.key : ProtocolRoleName → JsString
  | defaultAdmin => JsString.ascii "DEFAULT_ADMIN"
  | marketCreator => JsString.ascii "MARKET_CREATOR"
  | resolver => JsString.ascii "RESOLVER"
  | arbitrator => JsString.ascii "ARBITRATOR"
  | blocklist => JsString.ascii "BLOCKLIST"
  | pauser => JsString.ascii "PAUSER"
  | feeManager => JsString.ascii "FEE_MANAGER"
  | curator => JsString.ascii "CURATOR"

/-- Which deployed contracts can grant a role. -/
inductive RoleContractGroup where
  | engines
  | factory
  | resolvers
  | blocklist
  | all

/-- `ROLE_SOURCE`. -/
def roleSource : ProtocolRoleName → RoleContractGroup
  | .defaultAdmin => .all
  | .marketCreator => .engines
  | .pauser => .engines
  | .feeManager => .engines
  | .resolver => .resolvers
  | .arbitrator => .resolvers
  | .blocklist => .blocklist
  | .curator => .factory

/-- The configuration: whether there is a chain client, the development allowlist, the
addresses of the contracts, and `keccak256` of the bytes of a text. -/
structure AccessConfig where
  isReady : Bool
  devAddresses : List JsString
  lsLmsr : Option JsString
  factory : Option JsString
  trustedResolver : Option JsString
  optimisticResolver : Option JsString
  blocklist : Option JsString
  keccak256 : JsString → JsString

/-- `DEFAULT_ADMIN_ROLE` is 32 zero bytes, not a hash. -/
def defaultAdminRole : JsString := JsString.ascii "0x" ++ List.replicate 64 48

/-- `ProtocolRole`. -/
def protocolRole (cfg : AccessConfig) : ProtocolRoleName → JsString
  | .defaultAdmin => defaultAdminRole
  | .marketCreator => cfg.keccak256 (JsString.ascii "MARKET_CREATOR_ROLE")
  | .resolver => cfg.keccak256 (JsString.ascii "RESOLVER_ROLE")
  | .arbitrator => cfg.keccak256 (JsString.ascii "ARBITRATOR_ROLE")
  | .blocklist => cfg.keccak256 (JsString.ascii "BLOCKLIST_ROLE")
  | .pauser => cfg.keccak256 (JsString.ascii "PAUSER_ROLE")
  | .feeManager => cfg.keccak256 (JsString.ascii "FEE_MANAGER_ROLE")
  | .curator => cfg.keccak256 (JsString.ascii "CURATOR_ROLE")

/-! ## Calls -/

inductive AccessError where
  | readFailed
  | redisFailed
  deriving DecidableEq

inductive AccessCall where
  | hasRole (contract role account : JsString)
  | get (key : JsString)
  | set (key value : JsString) (seconds : Nat)
  deriving DecidableEq

@[reducible] def AccessCall.Answer : AccessCall → Type
  | hasRole _ _ _ => Bool
  | get _ => Option JsString
  | set _ _ _ => Unit

/-- A computation of the access service. -/
abbrev Access (α : Type) : Type := Async AccessCall.Answer AccessError α

/-- Await one call. -/
def AccessCall.request (call : AccessCall) : Access call.Answer := Async.perform call

/-! ## The service -/

/-- `getJson`: nothing on a miss, on a text that does not parse, and on `null`. -/
def getJson (key : JsString) : Access (Option Json) := do
  let raw ← (AccessCall.get key).request
  return match raw.bind Json.parse with
    | some .null => none
    | parsed => parsed

/-- `setJson` of a boolean. -/
def setJson (key : JsString) (value : Bool) (ttlSeconds : Nat) : Access Unit :=
  (AccessCall.set key (Json.bool value).stringify ttlSeconds).request

/-- Whether a value of the cache counts as true; a number does when it has a digit that is
not zero before its exponent. -/
def isTruthy : Json → Bool
  | .null => false
  | .bool value => value
  | .number text =>
      (text.takeWhile fun unit => unit ≠ 69 ∧ unit ≠ 101).any fun unit => 49 ≤ unit && unit ≤ 57
  | .string text => text ≠ []
  | .array _ | .object _ => true

namespace AdminAccessService

/-- `CACHE_TTL_SECONDS`. -/
def cacheTtlSeconds : Nat := 30

variable (cfg : AccessConfig)

def contractsFor (group : RoleContractGroup) : List JsString :=
  let engines := [cfg.lsLmsr]
  let resolvers := [cfg.optimisticResolver, cfg.trustedResolver]
  let factory := [cfg.factory]
  let blocklist := [cfg.blocklist]
  let pick :=
    match group with
    | .engines => engines
    | .resolvers => resolvers
    | .factory => factory
    | .blocklist => blocklist
    | .all => engines ++ resolvers ++ factory ++ blocklist
  pick.filterMap id

def cacheKey (role : ProtocolRoleName) (account : JsString) : JsString :=
  JsString.ascii "admin:role:" ++ role.key ++ [58] ++ account

/-- The reads on one contract, none of which counts when one of them fails. -/
def readContract (role : ProtocolRoleName) (account contract : JsString) : Access Bool :=
  tryCatch (do
    if ← (AccessCall.hasRole contract (protocolRole cfg role) account).request then return true
    -- DEFAULT_ADMIN on any contract implies full operator authority there.
    else if role ≠ .defaultAdmin then
      (AccessCall.hasRole contract defaultAdminRole account).request
    else return false) fun _ => return false

/-- The loop over the contracts, left at the first grant. -/
def readContracts (role : ProtocolRoleName) (account : JsString) : List JsString → Access Bool
  | [] => return false
  | contract :: rest => do
      if ← readContract cfg role account contract then return true
      else readContracts role account rest

/-- True if the address holds the role on any contract that can grant it. -/
def hasRole (address : JsString) (role : ProtocolRoleName) : Access Bool :=
  let account := address.toLowerCase
  if cfg.isReady = false then return cfg.devAddresses.contains account
  else do
    match ← getJson (cacheKey role account) with
    | some cached => return isTruthy cached
    | none =>
        let granted ← readContracts cfg role account (contractsFor cfg (roleSource role))
        setJson (cacheKey role account) granted cacheTtlSeconds
        return granted

/-- True if the address holds any one of the listed roles. -/
def hasAnyRole (address : JsString) : List ProtocolRoleName → Access Bool
  | [] => return false
  | role :: rest => do
      if ← hasRole cfg address role then return true
      else hasAnyRole address rest

end AdminAccessService

/-! ## The world -/

/-- Which account holds which role on which contract, at every moment. -/
abbrev RoleHistory : Type := Nat → JsString → JsString → JsString → Bool

/-- The clock in milliseconds, and Redis. -/
structure AccessWorld where
  now : Nat
  cache : JsString → Option CacheEntry

namespace AccessWorld

/-- Redis `GET`: a value is there until it expires. -/
def get (world : AccessWorld) (key : JsString) : Option JsString :=
  match world.cache key with
  | none => none
  | some entry => if world.now < entry.expiresAt then some entry.value else none

/-- Redis `SET key value EX seconds`. -/
def set (world : AccessWorld) (key value : JsString) (seconds : Nat) : AccessWorld :=
  { world with
    cache := fun other =>
      if other = key then some ⟨value, world.now + seconds * 1000⟩ else world.cache other }

theorem set_cache (world : AccessWorld) (key value other : JsString) (seconds : Nat) :
    (world.set key value seconds).cache other =
      if other = key then some ⟨value, world.now + seconds * 1000⟩ else world.cache other := rfl

end AccessWorld

/-- What a call does and how it is answered. A read answers what is so on the contract at that
moment, or fails; a call to Redis may fail before or after it is performed. -/
def AccessCall.Performs (history : RoleHistory) :
    (call : AccessCall) → AccessWorld → Except AccessError call.Answer → AccessWorld → Prop
  | hasRole contract role account, world, answer, later =>
      (answer = .ok (history world.now contract role account) ∨ answer = .error .readFailed) ∧
        later = world
  | get key, world, answer, later =>
      (answer = .ok (world.get key) ∨ answer = .error .redisFailed) ∧ later = world
  | set key value seconds, world, answer, later =>
      (answer = .ok () ∧ later = world.set key value seconds) ∨
        (answer = .error .redisFailed ∧ (later = world ∨ later = world.set key value seconds))

/-- A key of the service's. -/
def IsAccessKey (key : JsString) : Prop :=
  ∃ role account, key = AdminAccessService.cacheKey role account

/-- Time passes. Entries may expire or be evicted, and other services write other keys. -/
def AccessWorld.Passes (world later : AccessWorld) : Prop :=
  world.now ≤ later.now ∧
    ∀ key, IsAccessKey key → later.cache key = world.cache key ∨ later.cache key = none

/-! ## Requests -/

/-- A lookup. -/
inductive RoleRequest where
  | hasRole (address : JsString) (role : ProtocolRoleName)
  | hasAnyRole (address : JsString) (roles : List ProtocolRoleName)

namespace RoleRequest

def start (cfg : AccessConfig) : RoleRequest → Access Bool
  | hasRole address role => AdminAccessService.hasRole cfg address role
  | hasAnyRole address roles => AdminAccessService.hasAnyRole cfg address roles

/-- The account a lookup is about. -/
def account : RoleRequest → JsString
  | hasRole address _ => address.toLowerCase
  | hasAnyRole address _ => address.toLowerCase

/-- The roles that satisfy a lookup. -/
def roles : RoleRequest → List ProtocolRoleName
  | hasRole _ role => [role]
  | hasAnyRole _ roles => roles

end RoleRequest

/-- `Object.keys(ProtocolRole)`. -/
def roleNames : List ProtocolRoleName :=
  [.defaultAdmin, .marketCreator, .resolver, .arbitrator, .blocklist, .pauser, .feeManager,
    .curator]

/-- The lookups of `rolesOf`, which are made at once: each is a request of its own. -/
def AdminAccessService.lookupsOf (address : JsString) : List RoleRequest :=
  roleNames.map (.hasRole address)

/-- `rolesOf`, of the answers to its lookups. -/
def AdminAccessService.rolesOf (answers : List Bool) : List ProtocolRoleName :=
  ((roleNames.zip answers).filter Prod.snd).map Prod.fst

/-- `rolesOf` lists the roles whose lookups answered true. -/
theorem AdminAccessService.mem_rolesOf (answer : ProtocolRoleName → Bool)
    (role : ProtocolRoleName) :
    role ∈ AdminAccessService.rolesOf (roleNames.map answer) ↔ answer role = true := by
  have listed : role ∈ roleNames := by
    cases role <;> decide
  have kept : ∀ names : List ProtocolRoleName,
      ((names.zip (names.map answer)).filter Prod.snd).map Prod.fst = names.filter answer := by
    intro names
    induction names with
    | nil => rfl
    | cons name rest ih => cases held : answer name <;> simp [held, ih]
  rw [AdminAccessService.rolesOf, kept, List.mem_filter]
  exact and_iff_right listed

/-! ## Stages -/

/-- How far a lookup has come: what its last read has answered, or the key it has found or
written to be true. -/
inductive RoleStage where
  | idle
  | read (moment : Nat) (contract role account : JsString) (held : Bool)
  | granted (key : JsString)

/-- The text of an entry counts as true. -/
def SaysTrue (text : JsString) : Prop := (Json.parse text).any isTruthy = true

instance (text : JsString) : Decidable (SaysTrue text) :=
  inferInstanceAs (Decidable (_ = true))

namespace RoleStage

/-- The stage after a call. -/
def next (world : AccessWorld) : (call : AccessCall) → Except AccessError call.Answer → RoleStage
  | .hasRole contract role account, .ok held => read world.now contract role account held
  | .hasRole contract role account, .error _ => read world.now contract role account false
  | .get key, .ok (some text) => if SaysTrue text then granted key else idle
  | .get _, _ => idle
  | .set key value _, .ok () => if SaysTrue value then granted key else idle
  | .set _ _ _, .error _ => idle

end RoleStage

variable (cfg : AccessConfig) (history : RoleHistory)

/-- The read that found a grant of the role. -/
def RoleStage.Found (account : JsString) (role : ProtocolRoleName) (contracts : List JsString)
    (stage : RoleStage) : Prop :=
  ∃ moment contract asked, stage = .read moment contract asked account true ∧
    contract ∈ contracts ∧ (asked = protocolRole cfg role ∨ asked = defaultAdminRole)

/-- A lookup writes what it has just found out. -/
def RoleStage.Allowed (account : JsString) (stage : RoleStage) : AccessCall → Prop
  | .set key value seconds => seconds = AdminAccessService.cacheTtlSeconds ∧
      ∃ role granted, key = AdminAccessService.cacheKey role account ∧
        value = (Json.bool granted).stringify ∧
        (granted = true →
          stage.Found cfg account role (AdminAccessService.contractsFor cfg (roleSource role)))
  | _ => True

/-- A lookup that answers true has found or written so for one of its roles. -/
def RoleStage.Finish (account : JsString) (roles : List ProtocolRoleName) (stage : RoleStage)
    (outcome : Except AccessError Bool) : Prop :=
  outcome = .ok true →
    ∃ role ∈ roles, stage = .granted (AdminAccessService.cacheKey role account)

/-- The lookups, over roles that come and go. -/
def accessSystem (initial : AccessWorld) :
    System AccessCall.Answer AccessError Bool RoleRequest RoleStage AccessWorld AccessCall where
  start := RoleRequest.start cfg
  arrival _ := .idle
  next _ _ world call answer := RoleStage.next world call answer
  env call world answer record later := record = [call] ∧ call.Performs history world answer later
  drift := AccessWorld.Passes
  initial := initial

/-- A write to the cache happens at the moment of the read before it. -/
def Prompt :
    System.Condition AccessCall.Answer AccessError Bool RoleRequest RoleStage AccessWorld :=
  fun world threads position call _ => ∀ thread key value seconds moment contract role account held,
    threads[position]? = some thread → call = .set key value seconds →
      thread.stage = .read moment contract role account held → moment = world.now

/-- At the moment, the account holds the role, or `DEFAULT_ADMIN`, on a contract that can
grant it. -/
def HeldAt (role : ProtocolRoleName) (account : JsString) (moment : Nat) : Prop :=
  ∃ contract ∈ AdminAccessService.contractsFor cfg (roleSource role),
    history moment contract (protocolRole cfg role) account = true ∨
      history moment contract defaultAdminRole account = true

/-- The role was held at some moment within the time to live of an entry. -/
def RecentlyHeld (role : ProtocolRoleName) (account : JsString) (answered : Nat) : Prop :=
  ∃ moment, moment ≤ answered ∧
    answered ≤ moment + AdminAccessService.cacheTtlSeconds * 1000 ∧
    HeldAt cfg history role account moment

/-- Every entry that says true expires its time to live after a moment at which the role was
held. -/
def AccessWorld.Backed (world : AccessWorld) : Prop :=
  ∀ role account entry, world.cache (AdminAccessService.cacheKey role account) = some entry →
    SaysTrue entry.value → ∃ moment ≤ world.now,
      entry.expiresAt = moment + AdminAccessService.cacheTtlSeconds * 1000 ∧
      HeldAt cfg history role account moment

/-! ## Keys -/

/-- A key names its role and its account. -/
theorem cacheKey_injective {role other : ProtocolRoleName} {account another : JsString}
    (same : AdminAccessService.cacheKey role account =
      AdminAccessService.cacheKey other another) : role = other ∧ account = another := by
  have plain (name : ProtocolRoleName) : ∀ unit ∈ name.key, decide (unit ≠ 58) = true := by
    have all : (name.key.all fun unit => decide (unit ≠ 58)) = true := by cases name <;> decide
    exact List.all_eq_true.mp all
  have named : ∀ (name : ProtocolRoleName) (rest : JsString),
      (name.key ++ 58 :: rest).takeWhile (fun unit => unit ≠ 58) = name.key := by
    intro name rest
    rw [List.takeWhile_append_of_pos (plain name), List.takeWhile_cons_of_neg (by decide),
      List.append_nil]
  simp only [AdminAccessService.cacheKey, List.append_assoc, List.append_cancel_left_eq,
    List.singleton_append] at same
  have keys : role.key = other.key := by
    rw [← named role account, same, named]
  have roles : role = other := by
    revert keys
    cases role <;> cases other <;> decide
  rw [keys, List.append_cancel_left_eq] at same
  exact ⟨roles, (List.cons.inj same).2⟩

/-- A boolean is read back as it was written. -/
theorem saysTrue_iff (granted : Bool) :
    SaysTrue (Json.bool granted).stringify ↔ granted = true := by
  cases granted <;> decide

/-! ## One lookup -/

section Follows

variable {cfg history} {account : JsString}

/-- A computation that keeps to the stages of a lookup, and ends as required. -/
abbrev AccessFollows (cfg : AccessConfig) (account : JsString) {α : Type}
    (finish : RoleStage → Except AccessError α → Prop) (stage : RoleStage) (task : Access α) :
    Prop :=
  Follows (fun _ => RoleStage.next) (RoleStage.Allowed cfg account) finish stage task

/-- The reads on a contract answer true only where the last of them did. -/
theorem readContract_follows (role : ProtocolRoleName) (contract : JsString) (stage : RoleStage) :
    AccessFollows cfg account
      (fun reached outcome => ∃ held, outcome = .ok held ∧
        (held = true → reached.Found cfg account role [contract])) stage
      (AdminAccessService.readContract cfg role account contract) := by
  refine .tryCatch (.perform_bind trivial (fun world held => ?_) fun _ _ => ?_)
  · cases held with
    | true =>
        exact ⟨true, rfl, fun _ =>
          ⟨world.now, contract, _, rfl, List.mem_singleton_self _, .inl rfl⟩⟩
    | false =>
        split
        · rename_i impossible
          cases impossible
        · split
          · refine ⟨trivial, fun world answer => ?_⟩
            cases answer with
            | error thrown => exact ⟨false, rfl, fun same => by cases same⟩
            | ok held =>
                cases held with
                | false => exact ⟨false, rfl, fun same => by cases same⟩
                | true =>
                    exact ⟨true, rfl, fun _ =>
                      ⟨world.now, contract, _, rfl, List.mem_singleton_self _, .inr rfl⟩⟩
          · exact ⟨false, rfl, fun same => by cases same⟩
  · exact ⟨false, rfl, fun same => by cases same⟩

/-- The loop answers true only where its last read found a grant. -/
theorem readContracts_follows (role : ProtocolRoleName) (contracts : List JsString)
    (stage : RoleStage) :
    AccessFollows cfg account
      (fun reached outcome => ∃ held, outcome = .ok held ∧
        (held = true → reached.Found cfg account role contracts)) stage
      (AdminAccessService.readContracts cfg role account contracts) := by
  induction contracts generalizing stage with
  | nil => exact ⟨false, rfl, fun same => by cases same⟩
  | cons contract rest ih =>
      refine .bind (.mono (readContract_follows role contract stage) ?_)
      rintro reached outcome ⟨held, rfl, found⟩
      cases held with
      | true =>
          refine ⟨true, rfl, fun _ => ?_⟩
          obtain ⟨moment, own, asked, at_, listed, right⟩ := found rfl
          rw [List.mem_singleton.mp listed] at at_
          exact ⟨moment, contract, asked, at_, List.mem_cons_self, right⟩
      | false =>
          refine .mono (ih reached) ?_
          rintro last outcome ⟨held, rfl, later⟩
          refine ⟨held, rfl, fun granted => ?_⟩
          obtain ⟨moment, own, asked, at_, listed, right⟩ := later granted
          exact ⟨moment, own, asked, at_, List.mem_cons_of_mem _ listed, right⟩

/-- `hasRole` writes what it has read, and answers true only what it has read or written. -/
theorem hasRole_follows (ready : cfg.isReady = true) (address : JsString)
    (role : ProtocolRoleName) (stage : RoleStage) :
    AccessFollows cfg address.toLowerCase
      (fun reached outcome => outcome = .ok true →
        reached = .granted (AdminAccessService.cacheKey role address.toLowerCase)) stage
      (AdminAccessService.hasRole cfg address role) := by
  unfold AdminAccessService.hasRole
  rw [if_neg (by simp [ready])]
  -- What is not in the cache is read, written and answered.
  have fresh : ∀ reached : RoleStage, AccessFollows cfg address.toLowerCase
      (fun reached outcome => outcome = .ok true →
        reached = .granted (AdminAccessService.cacheKey role address.toLowerCase)) reached
      (do
        let granted ← AdminAccessService.readContracts cfg role address.toLowerCase
          (AdminAccessService.contractsFor cfg (roleSource role))
        setJson (AdminAccessService.cacheKey role address.toLowerCase) granted
          AdminAccessService.cacheTtlSeconds
        return granted) := by
    intro reached
    refine .bind (.mono (readContracts_follows role _ reached) ?_)
    rintro last outcome ⟨granted, rfl, found⟩
    refine .perform_bind ⟨rfl, role, granted, rfl, rfl, found⟩ (fun world _ same => ?_) ?_
    · cases same
      simp only [RoleStage.next]
      exact if_pos ((saysTrue_iff true).mpr rfl)
    · intro world thrown same
      cases same
  refine .bind (.perform_bind trivial (fun world raw => ?_) fun _ _ same => by cases same)
  cases raw with
  | none => exact fresh _
  | some text =>
      cases parsed : Json.parse text with
      | none =>
          simp only [Option.bind_some, parsed]
          exact fresh _
      | some value =>
          -- What the cache holds is answered, unless it is `null`.
          have cached (truthy : isTruthy value = true) :
              RoleStage.next world (.get (AdminAccessService.cacheKey role address.toLowerCase))
                (.ok (some text)) =
              .granted (AdminAccessService.cacheKey role address.toLowerCase) := by
            simp [RoleStage.next, SaysTrue, parsed, truthy]
          cases value <;> simp only [Option.bind_some, parsed]
          case null => exact fresh _
          all_goals exact fun same => cached (Except.ok.inj same)

/-- `hasAnyRole` answers true for one of the roles it was asked about. -/
theorem hasAnyRole_follows (ready : cfg.isReady = true) (address : JsString)
    (roles : List ProtocolRoleName) (stage : RoleStage) :
    AccessFollows cfg address.toLowerCase (RoleStage.Finish address.toLowerCase roles) stage
      (AdminAccessService.hasAnyRole cfg address roles) := by
  induction roles generalizing stage with
  | nil => exact fun same => by cases same
  | cons role rest ih =>
      refine .bind (.mono (hasRole_follows ready address role stage) ?_)
      intro reached outcome found
      cases outcome with
      | error thrown => exact fun same => by cases same
      | ok held =>
          cases held with
          | true => exact fun _ => ⟨role, List.mem_cons_self, found rfl⟩
          | false =>
              refine .mono (ih reached) fun last answered ends true_ => ?_
              obtain ⟨other, listed, granted⟩ := ends true_
              exact ⟨other, List.mem_cons_of_mem _ listed, granted⟩

/-- Every lookup keeps to its stages. -/
theorem start_follows (ready : cfg.isReady = true) (request : RoleRequest) :
    AccessFollows cfg request.account (RoleStage.Finish request.account request.roles) .idle
      (request.start cfg) := by
  cases request with
  | hasRole address role =>
      refine .mono (hasRole_follows ready address role .idle) fun reached outcome found true_ => ?_
      exact ⟨role, List.mem_singleton_self role, found true_⟩
  | hasAnyRole address roles => exact hasAnyRole_follows ready address roles .idle

/-- No lookup answers true before it has asked. -/
theorem start_ne_true (ready : cfg.isReady = true) (request : RoleRequest) :
    request.start cfg ≠ .done (.ok true) := by
  intro answered
  have follows := start_follows ready request
  rw [answered] at follows
  obtain ⟨role, -, granted⟩ := follows rfl
  cases granted

end Follows

/-! ## Runs -/

section Stages

variable {history} {world later : AccessWorld} {call : AccessCall}
  {answer : Except AccessError call.Answer}

/-- What a lookup has just read true is so. -/
theorem RoleStage.next_read (performed : call.Performs history world answer later)
    {moment : Nat} {contract role account : JsString}
    (reached : RoleStage.next world call answer = .read moment contract role account true) :
    history moment contract role account = true := by
  cases call with
  | hasRole asked own subject =>
      obtain ⟨rfl | rfl, -⟩ := performed
      · obtain ⟨rfl, rfl, rfl, rfl, held⟩ := RoleStage.read.inj reached
        exact held
      · obtain ⟨-, -, -, -, held⟩ := RoleStage.read.inj reached
        cases held
  | get key =>
      obtain ⟨rfl | rfl, -⟩ := performed
      · cases found : world.get key <;> simp only [RoleStage.next, found] at reached
        · cases reached
        · split at reached <;> cases reached
      · cases reached
  | set key value seconds =>
      obtain ⟨rfl, -⟩ | ⟨rfl, -⟩ := performed
      · simp only [RoleStage.next] at reached
        split at reached <;> cases reached
      · cases reached

/-- A key is found to be true when the cache says so, or by writing it. -/
theorem RoleStage.next_granted (performed : call.Performs history world answer later)
    {key : JsString} (reached : RoleStage.next world call answer = .granted key) :
    (∃ text, world.get key = some text ∧ SaysTrue text) ∨
      ∃ value seconds, call = .set key value seconds ∧ SaysTrue value := by
  cases call with
  | hasRole asked own subject => obtain ⟨rfl | rfl, -⟩ := performed <;> cases reached
  | get asked =>
      obtain ⟨rfl | rfl, -⟩ := performed
      · cases found : world.get asked <;> simp only [RoleStage.next, found] at reached
        · cases reached
        · rename_i text
          split at reached
          · rename_i truthy
            obtain rfl := RoleStage.granted.inj reached
            exact .inl ⟨text, found, truthy⟩
          · cases reached
      · cases reached
  | set asked value seconds =>
      obtain ⟨rfl, -⟩ | ⟨rfl, -⟩ := performed
      · simp only [RoleStage.next] at reached
        split at reached
        · rename_i truthy
          obtain rfl := RoleStage.granted.inj reached
          exact .inr ⟨value, seconds, rfl, truthy⟩
        · cases reached
      · cases reached

end Stages

section Runs

variable {cfg history} {initial : AccessWorld} {records : List AccessCall} {world : AccessWorld}
  {threads : List (Thread AccessCall.Answer AccessError Bool RoleRequest RoleStage)}

/-- What a lookup has read true was so at that moment. -/
theorem read_true (run : (accessSystem cfg history initial).Run Prompt records world threads) :
    ∀ thread ∈ threads, ∀ moment contract role account,
      thread.stage = .read moment contract role account true →
        history moment contract role account = true := by
  refine run.each (fun _ thread => ∀ moment contract role account,
    thread.stage = .read moment contract role account true →
      history moment contract role account = true) ?_ (fun _ _ _ _ held => held) ?_
    (fun _ _ _ _ _ _ _ _ _ _ _ _ _ held => held)
  · intro world request moment contract role account reached
    cases reached
  · intro world threads position request stage op continued answer record later turn _ moment
      contract role account reached
    exact RoleStage.next_read turn.answered.2 reached

/-- Every lookup being served keeps to its stages. -/
theorem threads_follow (ready : cfg.isReady = true)
    (run : (accessSystem cfg history initial).Run Prompt records world threads) :
    ∀ thread ∈ threads, AccessFollows cfg thread.request.account
      (RoleStage.Finish thread.request.account thread.request.roles) thread.stage thread.task := by
  refine run.each (fun _ thread => AccessFollows cfg thread.request.account
      (RoleStage.Finish thread.request.account thread.request.roles) thread.stage thread.task)
    (fun _ request => start_follows ready request) (fun _ _ _ _ held => held) ?_
    fun _ _ _ _ _ _ _ _ _ _ _ _ _ held => held
  intro world threads position request stage op continued answer record later _ follows
  exact follows.2 world answer

/-- What a lookup writes to be true is so as it is written. -/
theorem written_true (ready : cfg.isReady = true)
    {position : Nat} {request : RoleRequest} {stage : RoleStage} {key value : JsString}
    {seconds : Nat}
    {continued : Except AccessError Unit → Access Bool} {answer : Except AccessError Unit}
    {record : List AccessCall} {later : AccessWorld}
    (turn : (accessSystem cfg history initial).Turn Prompt world threads position request stage
      (.set key value seconds) continued answer record later) (truthy : SaysTrue value) :
    seconds = AdminAccessService.cacheTtlSeconds ∧
      ∃ role, key = AdminAccessService.cacheKey role request.account ∧
        HeldAt cfg history role request.account world.now := by
  obtain ⟨_, before⟩ := turn.before
  have member := List.mem_of_getElem? turn.found
  have allowed : RoleStage.Allowed cfg request.account stage (.set key value seconds) :=
    (threads_follow ready before _ member).1
  obtain ⟨time, role, granted, rfl, rfl, found⟩ := allowed
  obtain ⟨moment, contract, asked, reached, listed, right⟩ :=
    found ((saysTrue_iff granted).mp truthy)
  have held := read_true before _ member _ _ _ _ reached
  have now := turn.met _ _ _ _ _ _ _ _ _ turn.found rfl reached
  subst now
  refine ⟨time, role, rfl, contract, listed, ?_⟩
  rcases right with rfl | rfl
  · exact .inl held
  · exact .inr held

/-- The cache says true only what was so when it was written. -/
theorem run_backed (ready : cfg.isReady = true) (backed : initial.Backed cfg history)
    (run : (accessSystem cfg history initial).Run Prompt records world threads) :
    world.Backed cfg history := by
  refine run.preserves (AccessWorld.Backed cfg history) backed ?_ ?_
  · intro world later passed backed role account entry found truthy
    rcases passed.2 _ ⟨role, account, rfl⟩ with same | gone
    · rw [same] at found
      obtain ⟨moment, past, expires, held⟩ := backed role account entry found truthy
      exact ⟨moment, past.trans passed.1, expires, held⟩
    · rw [gone] at found
      cases found
  · intro world threads position request stage op continued answer record later turn backed
    -- Only a write changes the cache.
    have written : later = world ∨ ∃ key value seconds, op = .set key value seconds ∧
        later = world.set key value seconds := by
      have performed := turn.answered.2
      cases op with
      | hasRole contract role account => exact .inl performed.2
      | get key => exact .inl performed.2
      | set key value seconds =>
          rcases performed with ⟨-, same⟩ | ⟨-, same | same⟩
          · exact .inr ⟨key, value, seconds, rfl, same⟩
          · exact .inl same
          · exact .inr ⟨key, value, seconds, rfl, same⟩
    rcases written with rfl | ⟨key, value, seconds, rfl, rfl⟩
    · exact backed
    · intro role account entry found truthy
      by_cases same : AdminAccessService.cacheKey role account = key
      · rw [AccessWorld.set_cache, if_pos same] at found
        obtain rfl := Option.some.inj found
        obtain ⟨rfl, own, named, held⟩ := written_true ready turn truthy
        obtain ⟨rfl, rfl⟩ := cacheKey_injective (same.trans named)
        exact ⟨world.now, le_refl _, rfl, held⟩
      · rw [AccessWorld.set_cache, if_neg same] at found
        exact backed role account entry found truthy

/-- What the cache says true was so within the time to live. -/
theorem AccessWorld.Backed.recent (backed : world.Backed cfg history) {role : ProtocolRoleName}
    {account text : JsString}
    (cached : world.get (AdminAccessService.cacheKey role account) = some text)
    (truthy : SaysTrue text) : RecentlyHeld cfg history role account world.now := by
  unfold AccessWorld.get at cached
  split at cached
  · cases cached
  · rename_i entry found
    split at cached
    · rename_i alive
      obtain rfl := Option.some.inj cached
      obtain ⟨moment, past, expires, held⟩ := backed role account entry found truthy
      exact ⟨moment, past, by omega, held⟩
    · cases cached

end Runs

/-! ## Lookups that find nothing cached -/

/-- A call of a lookup that finds nothing cached, whatever has happened since the last one: it
is served by Redis, and its reads on the contract succeed and find the grant there. -/
def FreshCall (history : RoleHistory) (contract asked account : JsString) :
    Async.Environment AccessCall.Answer AccessError AccessWorld AccessCall :=
  fun call world answer record later => record = [call] ∧
    ∃ reached : AccessWorld, world.now ≤ reached.now ∧
      call.Performs history reached answer later ∧
      match call, answer with
      | .hasRole other role subject, answer =>
          other = contract → answer = .ok (history reached.now other role subject) ∧
            (role = asked → subject = account → history reached.now other role subject = true)
      | .get _, answer => answer = .ok none
      | .set _ _ _, answer => answer = .ok ()

section Fresh

variable {cfg history} {contract asked account : JsString} {role : ProtocolRoleName}

/-- A read that fails on another contract is passed over. -/
theorem readContract_ends (other : JsString) (world : AccessWorld) :
    Ends (FreshCall history contract asked account) (fun outcome _ => ∃ held, outcome = .ok held)
      (AdminAccessService.readContract cfg role account other) world := by
  refine .tryCatch (.of_forall ?_)
  intro outcome final
  cases outcome with
  | ok held => exact ⟨held, rfl⟩
  | error thrown => exact ⟨false, rfl⟩

/-- The grant is found on its contract. -/
theorem readContract_finds (grants : asked = protocolRole cfg role ∨ asked = defaultAdminRole)
    (world : AccessWorld) :
    Ends (FreshCall history contract asked account) (fun outcome _ => outcome = .ok true)
      (AdminAccessService.readContract cfg role account contract) world := by
  refine .tryCatch (.bind (.perform ?_))
  rintro answer record later ⟨-, reached, -, -, served⟩
  obtain ⟨rfl, found⟩ := served rfl
  cases held : history reached.now contract (protocolRole cfg role) account with
  | true => exact rfl
  | false =>
      rcases grants with rfl | rfl
      · rw [found rfl rfl] at held
        cases held
      · have other : role ≠ .defaultAdmin := by
          rintro rfl
          rw [found rfl rfl] at held
          cases held
        simp only [Bool.false_eq_true, if_false, if_pos other]
        rintro answer record last ⟨-, again, -, -, served⟩
        obtain ⟨rfl, found⟩ := served rfl
        rw [found rfl rfl]
        exact rfl

/-- The loop comes to the contract, unless it finds a grant before. -/
theorem readContracts_finds {contracts : List JsString} (listed : contract ∈ contracts)
    (grants : asked = protocolRole cfg role ∨ asked = defaultAdminRole) (world : AccessWorld) :
    Ends (FreshCall history contract asked account) (fun outcome _ => outcome = .ok true)
      (AdminAccessService.readContracts cfg role account contracts) world := by
  induction contracts generalizing world with
  | nil => cases listed
  | cons other rest ih =>
      by_cases same : other = contract
      · subst same
        refine .bind (.mono (readContract_finds grants world) ?_)
        rintro outcome final rfl
        exact rfl
      · refine .bind (.mono (readContract_ends other world) ?_)
        rintro outcome final ⟨held, rfl⟩
        cases held with
        | true => exact rfl
        | false => exact ih ((List.mem_cons.mp listed).resolve_left (Ne.symm same)) final

/-- A lookup that finds nothing cached finds the grant. -/
theorem hasRole_finds (ready : cfg.isReady = true) {address : JsString}
    (subject : address.toLowerCase = account)
    (listed : contract ∈ AdminAccessService.contractsFor cfg (roleSource role))
    (grants : asked = protocolRole cfg role ∨ asked = defaultAdminRole) (world : AccessWorld) :
    Ends (FreshCall history contract asked account) (fun outcome _ => outcome = .ok true)
      (AdminAccessService.hasRole cfg address role) world := by
  subst subject
  unfold AdminAccessService.hasRole
  rw [if_neg (by simp [ready])]
  refine .bind (.bind (.perform ?_))
  rintro answer record later ⟨-, reached, -, -, rfl⟩
  refine .bind (.mono (readContracts_finds listed grants later) ?_)
  rintro outcome final rfl
  refine .bind (.perform ?_)
  rintro answer record last ⟨-, _, -, -, rfl⟩
  exact rfl

end Fresh

/-- **Admin authority is never invented.** Whatever is granted and revoked, whichever reads fail,
and however many lookups run at once, an answer that is true was true within the time to live
of the cache: at such a moment the account held a role that was asked about, or `DEFAULT_ADMIN`,
on a contract that can grant it. No lookup answers true without a call, and one that finds
nothing cached answers true where a grant stands on a contract whose reads succeed. -/
theorem authority_never_invented (ready : cfg.isReady = true) (initial : AccessWorld)
    (backed : initial.Backed cfg history) :
    (∀ world threads position request stage op continued answer record later,
      (accessSystem cfg history initial).Turn Prompt world threads position request stage op
        continued answer record later → continued answer = .done (.ok true) →
          ∃ role ∈ request.roles, RecentlyHeld cfg history role request.account world.now) ∧
      (∀ request : RoleRequest, request.start cfg ≠ .done (.ok true)) ∧
      ∀ (address contract asked : JsString) (role : ProtocolRoleName) (world : AccessWorld),
        contract ∈ AdminAccessService.contractsFor cfg (roleSource role) →
        (asked = protocolRole cfg role ∨ asked = defaultAdminRole) →
          Ends (FreshCall history contract asked address.toLowerCase)
            (fun outcome _ => outcome = .ok true)
            (AdminAccessService.hasRole cfg address role) world := by
  refine ⟨?_, start_ne_true ready, fun address contract asked role world listed grants =>
    hasRole_finds ready rfl listed grants world⟩
  intro world threads position request stage op continued answer record later turn answered
  obtain ⟨_, before⟩ := turn.before
  have member := List.mem_of_getElem? turn.found
  have follows := (threads_follow ready before _ member).2 world answer
  change Async.Follows _ _ _ _ (continued answer) at follows
  rw [answered] at follows
  obtain ⟨role, listed, granted⟩ : ∃ role ∈ request.roles, RoleStage.next world op answer =
      .granted (AdminAccessService.cacheKey role request.account) := follows rfl
  refine ⟨role, listed, ?_⟩
  rcases RoleStage.next_granted turn.answered.2 granted with
    ⟨text, cached, truthy⟩ | ⟨value, seconds, rfl, truthy⟩
  · exact (run_backed ready backed before).recent cached truthy
  · obtain ⟨-, own, named, held⟩ := written_true ready turn truthy
    obtain ⟨rfl, -⟩ := cacheKey_injective named
    exact ⟨world.now, le_refl _, by omega, held⟩

namespace Curated

/-- A factory whose admin curates. -/
def config : AccessConfig where
  isReady := true
  devAddresses := []
  lsLmsr := none
  factory := some (JsString.ascii "0xfac0000000000000000000000000000000000001")
  trustedResolver := none
  optimisticResolver := none
  blocklist := none
  keccak256 text :=
    if text = JsString.ascii "CURATOR_ROLE" then
      JsString.ascii "0x850d585eb7f024ccee5e68e55f2c26cc72e1e6ee456acf62135757a5eb9d4a10"
    else []

def admin : JsString := JsString.ascii "0xad00000000000000000000000000000000000001"

/-- The admin holds `DEFAULT_ADMIN` for the first ten seconds. -/
def grants : RoleHistory := fun moment _ role account =>
  decide (moment < 10000 ∧ role = defaultAdminRole ∧ account = admin)

/-- What a lookup in the fifth second has left in Redis, in the twentieth. -/
def cached : AccessWorld where
  now := 20000
  cache key :=
    if key = AdminAccessService.cacheKey .curator admin then
      some ⟨JsString.ascii "true", 35000⟩
    else none

end Curated

open Curated in
/-- A role that has been revoked is still answered for, and was held fifteen seconds before. -/
theorem authority_never_invented_cached :
    ∃ role ∈ [ProtocolRoleName.curator], RecentlyHeld config grants role admin 20000 := by
  refine (authority_never_invented config grants rfl cached ?_).1 cached [_] 0
    (.hasRole admin .curator) .idle (.get (AdminAccessService.cacheKey .curator admin)) _
    (.ok (some (JsString.ascii "true"))) [_] cached
    ⟨⟨[], .arrive .start _⟩, rfl, ⟨rfl, .inl (by decide), rfl⟩, ?_⟩ rfl
  · intro role account entry found truthy
    rw [cached] at found
    simp only at found
    split at found
    · rename_i same
      obtain ⟨rfl, rfl⟩ := cacheKey_injective same
      obtain rfl := Option.some.inj found
      exact ⟨5000, by decide, rfl, _, List.mem_singleton_self _, .inr (by decide)⟩
    · cases found
  · intro thread key value seconds moment contract role account held _ same
    cases same

end Numera
