import Numera.Auth.Service

/-! # Unlink identities

`UnlinkIdentityService` binds a user to an Unlink (shielded) address and answers
whether a user owns one; `UnlinkController` registers a user's keys with the Unlink
engine before it binds, and issues authorization tokens to the owner of an address.
They await the users in the database and the engine. Registration payloads are
forwarded as they are.
-/

namespace Numera

/-! ## Users -/

/-- The column of a user that the identity service reads and writes. -/
structure UnlinkUser where
  unlinkAddress : Option JsString := none
  deriving DecidableEq

/-- The Unlink address in the row of a user. -/
def unlinkAddressIn (table : Table JsString UnlinkUser) (userId : JsString) : Option JsString :=
  (table.find? userId).bind UnlinkUser.unlinkAddress

/-- The users, under the unique index on their Unlink addresses. -/
structure UnlinkUsers where
  table : Table JsString UnlinkUser
  unique : ∀ first second address, unlinkAddressIn table first = some address →
    unlinkAddressIn table second = some address → first = second

inductive UnlinkError where
  | conflict (message : String)
  | forbidden (message : String)
  | unavailable (message : String)
  /-- A `PrismaClientKnownRequestError`. -/
  | prisma (code : String)
  /-- An error of the Unlink engine. -/
  | engine (code : Option String)
  | rejected
  deriving DecidableEq

namespace UnlinkUsers

/-- The Unlink address of a user, if the user exists and is bound. -/
def addressOf (users : UnlinkUsers) (userId : JsString) : Option JsString :=
  unlinkAddressIn users.table userId

/-- A user other than this one has the address. -/
def Taken (users : UnlinkUsers) (userId address : JsString) : Prop :=
  ∃ row ∈ users.table.rows, row.1 ≠ userId ∧ row.2.unlinkAddress = some address

instance (users : UnlinkUsers) (userId address : JsString) :
    Decidable (users.Taken userId address) :=
  inferInstanceAs (Decidable (∃ row ∈ users.table.rows, _))

theorem taken_iff (users : UnlinkUsers) (userId address : JsString) :
    users.Taken userId address ↔ ∃ other, other ≠ userId ∧ users.addressOf other = some address := by
  constructor
  · rintro ⟨⟨other, columns⟩, present, apart, has⟩
    have found := (users.table.mem_rows_iff other columns).mp present
    exact ⟨other, apart, by rw [addressOf, unlinkAddressIn, found]; exact has⟩
  · rintro ⟨other, apart, has⟩
    obtain ⟨columns, found, has⟩ := Option.bind_eq_some_iff.mp has
    exact ⟨(other, columns), (users.table.mem_rows_iff other columns).mpr found, apart, has⟩

/-- Bind a user to an address that no other user has. -/
def bindUser (users : UnlinkUsers) (userId address : JsString)
    (free : ¬ users.Taken userId address) : UnlinkUsers where
  table := users.table.modify userId fun old => { old with unlinkAddress := some address }
  unique first second wanted ofFirst ofSecond := by
    have others : ∀ other, other ≠ userId →
        unlinkAddressIn (users.table.modify userId fun old =>
          { old with unlinkAddress := some address }) other = users.addressOf other := by
      intro other apart
      rw [unlinkAddressIn, Table.find?_modify, if_neg apart]
      rfl
    have own : ∀ found, unlinkAddressIn (users.table.modify userId fun old =>
        { old with unlinkAddress := some address }) userId = some found → found = address := by
      intro found has
      rw [unlinkAddressIn, Table.find?_modify, if_pos rfl] at has
      obtain ⟨columns, present, same⟩ := Option.bind_eq_some_iff.mp has
      obtain ⟨old, -, rfl⟩ := Option.map_eq_some_iff.mp present
      exact (Option.some.inj same).symm
    rw [taken_iff] at free
    by_cases isFirst : first = userId
    · by_cases isSecond : second = userId
      · rw [isFirst, isSecond]
      · subst isFirst
        rw [others second isSecond, own wanted ofFirst] at ofSecond
        exact absurd ⟨second, isSecond, ofSecond⟩ free
    · rw [others first isFirst] at ofFirst
      by_cases isSecond : second = userId
      · subst isSecond
        rw [own wanted ofSecond] at ofFirst
        exact absurd ⟨first, isFirst, ofFirst⟩ free
      · rw [others second isSecond] at ofSecond
        exact users.unique first second wanted ofFirst ofSecond

/-- `user.update` by identifier: it fails without the row (`P2025`), and when another user has
the address (`P2002`). -/
def updateUser (users : UnlinkUsers) (userId address : JsString) :
    Except UnlinkError Unit × UnlinkUsers :=
  if (users.table.find? userId).isNone then (.error (.prisma "P2025"), users)
  else if taken : users.Taken userId address then (.error (.prisma "P2002"), users)
  else (.ok (), users.bindUser userId address taken)

/-- The address of a user after another address has been written for some user. -/
theorem addressOf_bindUser (users : UnlinkUsers) (userId address other : JsString)
    (free : ¬ users.Taken userId address) :
    (users.bindUser userId address free).addressOf other =
      if other = userId then (users.table.find? userId).map fun _ => address
      else users.addressOf other := by
  rw [addressOf, unlinkAddressIn, bindUser, Table.find?_modify]
  split
  · cases users.table.find? userId <;> rfl
  · rfl

/-- Sign-up: a new user, who is not bound. -/
def SignsUp (users later : UnlinkUsers) : Prop :=
  ∃ userId, users.table.find? userId = none ∧ later.table = users.table.insertNew userId {}

theorem SignsUp.addressOf {users later : UnlinkUsers} (signed : users.SignsUp later)
    (userId : JsString) : later.addressOf userId = users.addressOf userId := by
  obtain ⟨fresh, absent, same⟩ := signed
  rw [UnlinkUsers.addressOf, UnlinkUsers.addressOf, unlinkAddressIn, unlinkAddressIn, same,
    Table.find?_insertNew]
  split
  · rename_i isFresh
    rw [isFresh, absent]
    rfl
  · rfl

end UnlinkUsers

/-! ## Calls -/

inductive UnlinkCall where
  | findUser (userId : JsString)
  | updateUser (userId unlinkAddress : JsString)
  | registerUser (payload : JsString)
  | issueToken (unlinkAddress : JsString) (expiresInSeconds : Nat)

/-- An authorization token and the instant at which it expires. -/
structure AuthorizationToken where
  token : JsString
  expiresAt : Nat
  deriving DecidableEq

@[reducible] def UnlinkCall.Answer : UnlinkCall → Type
  | findUser _ => Option UnlinkUser
  | updateUser _ _ => Unit
  | registerUser _ => JsString
  | issueToken _ _ => AuthorizationToken

/-- A computation of the Unlink services. -/
abbrev Unlink (α : Type) : Type := Async UnlinkCall.Answer UnlinkError α

/-- What a call does and how it is answered. The engine answers with any address and any
token. -/
def UnlinkCall.Performs :
    (call : UnlinkCall) → UnlinkUsers → Except UnlinkError call.Answer → UnlinkUsers → Prop
  | findUser userId, users, answer, later => answer = .ok (users.table.find? userId) ∧ later = users
  | updateUser userId unlinkAddress, users, answer, later =>
      (answer, later) = users.updateUser userId unlinkAddress
  | registerUser _, users, _, later => later = users
  | issueToken _ _, users, _, later => later = users

/-- Await one call of the Unlink services. -/
def UnlinkCall.request (call : UnlinkCall) : Unlink call.Answer := Async.perform call

/-! ## Identity -/

namespace UnlinkIdentityService

/-- Record an address as belonging to a user. -/
def bind (userId unlinkAddress : JsString) : Unlink Unit := do
  let user ← (UnlinkCall.findUser userId).request
  let bound := user.bind UnlinkUser.unlinkAddress
  if (truthy bound).isSome ∧ bound ≠ some unlinkAddress then
    throw (.conflict ("This account is already bound to a different Unlink address. " ++
      "That usually means a different passkey was used, or the app configuration changed."))
  else if bound = some unlinkAddress then return
  else
    tryCatch (UnlinkCall.updateUser userId unlinkAddress).request fun thrown =>
      if thrown = .prisma "P2002" then
        throw (.conflict "That Unlink address is already bound to another account.")
      else throw thrown

/-- Whether a user owns an address. -/
def owns (userId unlinkAddress : JsString) : Unlink Bool := do
  if unlinkAddress = [] then return false
  else do
    let user ← (UnlinkCall.findUser userId).request
    let bound := user.bind UnlinkUser.unlinkAddress
    return decide ((truthy bound).isSome ∧ bound = some unlinkAddress)

end UnlinkIdentityService

/-! ## The engine and the controller -/

structure UnlinkConfig where
  enabled : Bool
  tokenTtlSeconds : Nat

namespace UnlinkService

variable (cfg : UnlinkConfig)

/-- The admin client, which exists when Unlink is enabled. -/
def require : Unlink Unit :=
  if cfg.enabled then return
  else throw (.unavailable
    "Private trading is not configured on this deployment (Unlink is disabled).")

/-- Register a user's keys with the engine. -/
def register (payload : JsString) : Unlink JsString := do
  require cfg
  tryCatch (UnlinkCall.registerUser payload).request fun thrown =>
    if thrown = .engine (some "ALREADY_EXISTS") then
      throw (.conflict
        "This shielded identity is registered to a different Unlink project and cannot be used here.")
    else throw thrown

def issueAuthorizationToken (unlinkAddress : JsString) : Unlink AuthorizationToken := do
  require cfg
  (UnlinkCall.issueToken unlinkAddress cfg.tokenTtlSeconds).request

end UnlinkService

namespace UnlinkController

variable (cfg : UnlinkConfig)

def register (payload userId : JsString) : Unlink JsString := do
  let address ← UnlinkService.register cfg payload
  UnlinkIdentityService.bind userId address
  return address

def authorizationToken (unlinkAddress userId : JsString) : Unlink AuthorizationToken := do
  let owns ← UnlinkIdentityService.owns userId unlinkAddress
  if owns then UnlinkService.issueAuthorizationToken cfg unlinkAddress
  else throw (.forbidden "This session does not own that Unlink address.")

end UnlinkController

/-! ## Requests -/

inductive UnlinkRequest where
  | bind (userId unlinkAddress : JsString)
  | owns (userId unlinkAddress : JsString)
  | register (payload userId : JsString)
  | authorizationToken (unlinkAddress userId : JsString)
  deriving DecidableEq

inductive UnlinkResponse where
  | bound
  | owned (verdict : Bool)
  | registered (address : JsString)
  | token (issued : AuthorizationToken)
  deriving DecidableEq

def UnlinkRequest.start (cfg : UnlinkConfig) : UnlinkRequest → Unlink UnlinkResponse
  | bind userId unlinkAddress => do
      UnlinkIdentityService.bind userId unlinkAddress
      return .bound
  | owns userId unlinkAddress => do
      let verdict ← UnlinkIdentityService.owns userId unlinkAddress
      return .owned verdict
  | register payload userId => do
      let address ← UnlinkController.register cfg payload userId
      return .registered address
  | authorizationToken unlinkAddress userId => do
      let issued ← UnlinkController.authorizationToken cfg unlinkAddress userId
      return .token issued

/-! ## Answering at once -/

/-- Users against whom every call is performed and answered. The engine answers a payload with
itself. -/
def UnlinkCall.respond : Async.Responder UnlinkCall.Answer UnlinkError UnlinkUsers
  | findUser userId, users => (.ok (users.table.find? userId), users)
  | updateUser userId unlinkAddress, users => users.updateUser userId unlinkAddress
  | registerUser payload, users => (.ok payload, users)
  | issueToken unlinkAddress expiresInSeconds, users =>
      (.ok ⟨unlinkAddress, expiresInSeconds⟩, users)

theorem UnlinkCall.respond_performs (call : UnlinkCall) (users : UnlinkUsers) :
    call.Performs users (call.respond users).1 (call.respond users).2 := by
  cases call with
  | findUser => exact ⟨rfl, rfl⟩
  | updateUser | registerUser | issueToken => rfl

/-- **The verdict of `owns`** is whether the address is not empty and is the user's. -/
theorem UnlinkIdentityService.returns_owns (userId unlinkAddress : JsString) (users : UnlinkUsers)
    (post : Bool → UnlinkUsers → Prop) :
    Async.Returns UnlinkCall.respond (owns userId unlinkAddress) users post ↔
      post (decide (unlinkAddress ≠ [] ∧ users.addressOf userId = some unlinkAddress)) users := by
  unfold owns
  by_cases empty : unlinkAddress = []
  · simp [empty]
  · simp only [if_neg empty, UnlinkCall.request, Async.perform, Async.call_bind,
      Async.done_ok_bind, Async.pure_eq, Async.returns_call, UnlinkCall.respond,
      Async.returns_pure]
    have same : ((truthy (users.addressOf userId)).isSome ∧
        users.addressOf userId = some unlinkAddress) ↔
          (unlinkAddress ≠ [] ∧ users.addressOf userId = some unlinkAddress) := by
      refine and_congr_left fun bound => ?_
      rw [bound]
      cases unlinkAddress with
      | nil => exact absurd rfl empty
      | cons unit rest => simp [truthy]
    exact iff_of_eq (congrArg (post · users) (decide_eq_decide.mpr same))

end Numera
