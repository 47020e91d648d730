import Numera.Foundation.Async
import Numera.Foundation.Table
import Numera.Foundation.Text

/-! # The calls of the authentication services

`AuthService` and `AuthTokensService` await the users and the refresh sessions in
the database, the nonces in Redis, and the libraries that sign and verify. This
module has the tables, the calls and what each call does. Reading the clock or
drawing a random value is a call as well, so that a run may place other requests
between it and the next call; the event loop never does.
-/

namespace Numera

/-! ## Values -/

/-- The configuration the services read. -/
structure AuthConfig where
  accessSecret : JsString
  refreshSecret : JsString
  accessTtl : JsString
  refreshTtl : JsString
  nonceTtlSeconds : Nat
  chainId : Nat
  siweStatement : JsString
  url : JsString

/-- The claims of a token. An access token has an address, a refresh token has the
identifier of its session. -/
structure TokenPayload where
  sub : JsString
  addr : Option JsString := none
  jti : Option JsString := none
  type : JsString
  deriving DecidableEq

/-- The fields of a SIWE message to sign. -/
structure SiweMessage where
  address : JsString
  chainId : Nat
  domain : JsString
  uri : JsString
  nonce : JsString
  statement : JsString
  version : JsString
  issuedAt : Nat
  expirationTime : Nat

/-- The fields read from a message that was signed. -/
structure SiweFields where
  address : Option JsString := none
  nonce : Option JsString := none
  domain : Option JsString := none
  chainId : Option Nat := none
  expirationTime : Option Nat := none

/-- The libraries the services rely on: SHA-256, the claims a token carries when its
signature verifies under a secret, the EIP-55 form of an address, viem's SIWE
messages (either function may throw), the address recovered from a signature, and
the host of a URL. -/
structure AuthLibraries where
  sha256 : JsString → JsString
  payloadOf : JsString → JsString → Option TokenPayload
  getAddress : JsString → JsString
  createSiweMessage : SiweMessage → Option JsString
  parseSiweMessage : JsString → Option SiweFields
  recovered : JsString → JsString → Option JsString
  host : JsString → JsString

/-- What a request tells about its client. -/
structure RequestMeta where
  userAgent : Option JsString := none
  ip : Option JsString := none
  deriving DecidableEq

inductive AuthError where
  | unauthorized (message : String)
  | invalidAddress (value : JsString)
  | rejected
  deriving DecidableEq

/-! ## Tables -/

structure RefreshSession where
  userId : JsString
  tokenHash : JsString
  userAgent : Option JsString := none
  ip : Option JsString := none
  expiresAt : Nat
  revokedAt : Option Nat := none
  deriving DecidableEq

/-- Revoke a session unless it is revoked already. -/
def RefreshSession.revokeLive (revokedAt : Nat) (session : RefreshSession) : RefreshSession :=
  if session.revokedAt.isNone then { session with revokedAt := some revokedAt } else session

structure User where
  address : JsString
  displayName : Option JsString := none
  lastLoginAt : Option Nat := none
  deriving DecidableEq

/-- A user row with its key. -/
structure UserRow where
  id : JsString
  columns : User
  deriving DecidableEq

/-- A session row with its key and its user. -/
structure SessionRow where
  id : JsString
  columns : RefreshSession
  user : UserRow
  deriving DecidableEq

/-- A Redis value and the time at which it expires. -/
structure CacheEntry where
  value : JsString
  expiresAt : Nat

/-- The database, Redis, the clock (in milliseconds), and the nonces generated so far. -/
structure AuthWorld where
  sessions : Table JsString RefreshSession
  users : Table JsString User
  cache : JsString → Option CacheEntry
  now : Nat
  generated : List JsString

namespace AuthWorld

/-- `refreshSession.findUnique` with its user, under an identifier that may be undefined. -/
def findSession (world : AuthWorld) : Option JsString → Except AuthError (Option SessionRow)
  | none => .error .rejected
  | some id =>
      match world.sessions.find? id with
      | none => .ok none
      | some session =>
          match world.users.find? session.userId with
          | none => .error .rejected
          | some user => .ok (some ⟨id, session, session.userId, user⟩)

/-- `refreshSession.create`: the key is unique and the user exists. -/
def createSession (world : AuthWorld) (id : JsString) (session : RefreshSession) :
    Except AuthError Unit × AuthWorld :=
  if (world.sessions.find? id).isNone ∧ (world.users.find? session.userId).isSome then
    (.ok (), { world with sessions := world.sessions.insertNew id session })
  else (.error .rejected, world)

/-- `refreshSession.update`: it fails without the row. -/
def revokeSession (world : AuthWorld) (id : JsString) (revokedAt : Nat) :
    Except AuthError Unit × AuthWorld :=
  if (world.sessions.find? id).isSome then
    (.ok (), { world with
      sessions := world.sessions.modify id fun old => { old with revokedAt := some revokedAt } })
  else (.error .rejected, world)

/-- `refreshSession.updateMany` of the live sessions under an identifier. An undefined
identifier is no condition at all. -/
def revokeLive (world : AuthWorld) (id : Option JsString) (revokedAt : Nat) : AuthWorld :=
  { world with
    sessions := world.sessions.modifyWhere (fun own => id.all fun wanted => decide (own = wanted))
      (·.revokeLive revokedAt) }

/-- `refreshSession.updateMany` of the live sessions of a user. -/
def revokeLiveOf (world : AuthWorld) (userId : JsString) (revokedAt : Nat) : AuthWorld :=
  { world with
    sessions := world.sessions.map fun session =>
      if session.userId = userId then session.revokeLive revokedAt else session }

/-- `user.findUnique` by address. -/
def findUser (world : AuthWorld) (address : JsString) : Option UserRow :=
  (world.users.rows.find? fun row => decide (row.2.address = address)).map fun row =>
    ⟨row.1, row.2⟩

/-- `user.update` by address: it fails without the row. -/
def updateLastLogin (world : AuthWorld) (address : JsString) (lastLoginAt : Nat) :
    Except AuthError UserRow × AuthWorld :=
  match world.findUser address with
  | none => (.error .rejected, world)
  | some user =>
      let columns := { user.columns with lastLoginAt := some lastLoginAt }
      (.ok ⟨user.id, columns⟩, { world with users := world.users.modify user.id fun _ => columns })

/-- `user.create` under a fresh identifier: the address is unique. -/
def createUser (world : AuthWorld) (id address : JsString) :
    Except AuthError UserRow × AuthWorld :=
  if (world.findUser address).isNone ∧ (world.users.find? id).isNone then
    (.ok ⟨id, { address }⟩, { world with users := world.users.insertNew id { address } })
  else (.error .rejected, world)

/-- Redis `SET key value EX seconds`. -/
def set (world : AuthWorld) (key value : JsString) (seconds : Nat) : AuthWorld :=
  { world with
    cache := fun other =>
      if other = key then some ⟨value, world.now + seconds * 1000⟩ else world.cache other }

/-- Redis `GET`: a value is there until it expires. -/
def get (world : AuthWorld) (key : JsString) : Option JsString :=
  match world.cache key with
  | none => none
  | some entry => if world.now < entry.expiresAt then some entry.value else none

/-- Redis `DEL`. -/
def del (world : AuthWorld) (key : JsString) : AuthWorld :=
  { world with cache := fun other => if other = key then none else world.cache other }

end AuthWorld

/-! ## Calls -/

inductive AuthCall where
  | dateNow
  | randomUUID
  | generateSiweNonce
  | signAsync (payload : TokenPayload) (secret expiresIn : JsString)
  | verifyAsync (token secret : JsString)
  | recoverMessageAddress (message signature : JsString)
  | findSession (id : Option JsString)
  | createSession (id : JsString) (session : RefreshSession)
  | revokeSession (id : JsString) (revokedAt : Nat)
  | revokeLive (id : Option JsString) (revokedAt : Nat)
  | revokeLiveOf (userId : JsString) (revokedAt : Nat)
  | findUser (address : JsString)
  | updateLastLogin (address : JsString) (lastLoginAt : Nat)
  | createUser (address : JsString)
  | set (key value : JsString) (seconds : Nat)
  | get (key : JsString)
  | del (key : JsString)

@[reducible] def AuthCall.Answer : AuthCall → Type
  | dateNow => Nat
  | randomUUID => JsString
  | generateSiweNonce => JsString
  | signAsync _ _ _ => JsString
  | verifyAsync _ _ => TokenPayload
  | recoverMessageAddress _ _ => JsString
  | findSession _ => Option SessionRow
  | createSession _ _ => Unit
  | revokeSession _ _ => Unit
  | revokeLive _ _ => Unit
  | revokeLiveOf _ _ => Unit
  | findUser _ => Option UserRow
  | updateLastLogin _ _ => UserRow
  | createUser _ => UserRow
  | set _ _ _ => Unit
  | get _ => Option JsString
  | del _ => Unit

/-- A computation of the authentication services. -/
abbrev Auth (α : Type) : Type := Async AuthCall.Answer AuthError α

/-- What a call does and how it is answered. Tokens and identifiers are whatever the
library returns; a token that verifies carries the claims it was signed with; a
nonce is generated once. -/
def AuthCall.Performs (lib : AuthLibraries) :
    (call : AuthCall) → AuthWorld → Except AuthError call.Answer → AuthWorld → Prop
  | dateNow, world, answer, later => answer = .ok world.now ∧ later = world
  | randomUUID, world, _, later => later = world
  | generateSiweNonce, world, answer, later =>
      ∃ nonce, nonce ∉ world.generated ∧ answer = .ok nonce ∧
        later = { world with generated := nonce :: world.generated }
  | signAsync _ _ _, world, _, later => later = world
  | verifyAsync token secret, world, answer, later =>
      (∀ payload, answer = .ok payload → lib.payloadOf token secret = some payload) ∧ later = world
  | recoverMessageAddress message signature, world, answer, later =>
      (∀ address, answer = .ok address → lib.recovered message signature = some address) ∧
        later = world
  | findSession id, world, answer, later => answer = world.findSession id ∧ later = world
  | createSession id session, world, answer, later =>
      (answer, later) = world.createSession id session
  | revokeSession id revokedAt, world, answer, later =>
      (answer, later) = world.revokeSession id revokedAt
  | revokeLive id revokedAt, world, answer, later =>
      answer = .ok () ∧ later = world.revokeLive id revokedAt
  | revokeLiveOf userId revokedAt, world, answer, later =>
      answer = .ok () ∧ later = world.revokeLiveOf userId revokedAt
  | findUser address, world, answer, later => answer = .ok (world.findUser address) ∧ later = world
  | updateLastLogin address lastLoginAt, world, answer, later =>
      (answer, later) = world.updateLastLogin address lastLoginAt
  | createUser address, world, answer, later =>
      ∃ id, (answer, later) = world.createUser id address
  | set key value seconds, world, answer, later =>
      answer = .ok () ∧ later = world.set key value seconds
  | get key, world, answer, later => answer = .ok (world.get key) ∧ later = world
  | del key, world, answer, later => answer = .ok () ∧ later = world.del key

/-- Time passes. -/
def AuthWorld.Waits (world later : AuthWorld) : Prop :=
  ∃ now, world.now ≤ now ∧ later = { world with now }

end Numera
