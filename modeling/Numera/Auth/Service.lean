import Numera.Auth.Store
import Numera.Foundation.Interleaving

/-! # The authentication services

`AuthTokensService` issues, rotates and revokes refresh tokens; `SiweService`
builds and verifies sign-in messages; `AuthService` hands out nonces and turns a
signed message into a pair of tokens.
-/

namespace Numera

/-- Await one call of the authentication services. -/
def AuthCall.request (call : AuthCall) : Auth call.Answer := Async.perform call

/-! ## Tokens -/

structure TokenPair where
  accessToken : JsString
  refreshToken : JsString
  accessExpiresIn : JsString
  refreshExpiresIn : JsString
  deriving DecidableEq

/-- What a rotation returns. -/
structure Rotation where
  tokens : TokenPair
  userId : JsString
  address : JsString
  deriving DecidableEq

namespace AuthTokensService

/-- The kind of an access token. -/
def access : JsString := JsString.ascii "access"

/-- The kind of a refresh token. -/
def refresh : JsString := JsString.ascii "refresh"

/-- Parse a jsonwebtoken-style TTL ("30d", "900s", "12h", or raw seconds): digits,
spaces, and at most one unit. Anything else is no time at all. -/
def ttlToMs (ttl : JsString) : Nat :=
  let text := ttl.trim
  let digits := text.takeWhile JsString.isDigit
  let n := JsString.decimal digits
  if digits = [] then 0
  else
    match (text.dropWhile JsString.isDigit).dropWhile JsString.isSpace with
    | [] => n * 1000
    | [unit] =>
        if unit = 100 then n * 86400000
        else if unit = 104 then n * 3600000
        else if unit = 109 then n * 60000
        else if unit = 115 then n * 1000
        else 0
    | _ => 0

example : ttlToMs (JsString.ascii "30d") = 2592000000 := by decide

variable (lib : AuthLibraries) (cfg : AuthConfig)

def refreshExpiry : Auth Nat := do
  let now ← AuthCall.dateNow.request
  return now + ttlToMs cfg.refreshTtl

/-- Mint a new pair and persist the refresh session. -/
def issue (userId address : JsString) (requestMeta : RequestMeta) : Auth TokenPair := do
  let jti ← AuthCall.randomUUID.request
  let accessToken ← (AuthCall.signAsync { sub := userId, addr := some address, type := access }
    cfg.accessSecret cfg.accessTtl).request
  let refreshToken ← (AuthCall.signAsync { sub := userId, jti := some jti, type := refresh }
    cfg.refreshSecret cfg.refreshTtl).request
  let expiresAt ← refreshExpiry cfg
  (AuthCall.createSession jti {
    userId
    tokenHash := lib.sha256 refreshToken
    userAgent := requestMeta.userAgent.map (List.take 512)
    ip := requestMeta.ip
    expiresAt }).request
  return {
    accessToken
    refreshToken
    accessExpiresIn := cfg.accessTtl
    refreshExpiresIn := cfg.refreshTtl }

def revokeAllForUser (userId : JsString) : Auth Unit := do
  let now ← AuthCall.dateNow.request
  (AuthCall.revokeLiveOf userId now).request

/-- Revoke the presented session and mint a new one. -/
def replaceSession (session : SessionRow) (requestMeta : RequestMeta) : Auth Rotation := do
  let revokedAt ← AuthCall.dateNow.request
  (AuthCall.revokeSession session.id revokedAt).request
  let tokens ← issue lib cfg session.columns.userId session.user.columns.address requestMeta
  return { tokens, userId := session.columns.userId, address := session.user.columns.address }

/-- Verify a refresh token, ensure its session is live, then rotate: the old session
is revoked and a fresh pair issued. -/
def rotate (refreshToken : JsString) (requestMeta : RequestMeta) : Auth Rotation := do
  let payload ← tryCatch (AuthCall.verifyAsync refreshToken cfg.refreshSecret).request fun _ =>
    throw (.unauthorized "invalid or expired refresh token")
  if payload.type ≠ refresh then throw (.unauthorized "wrong token type")
  else do
    match ← (AuthCall.findSession payload.jti).request with
    | none => throw (.unauthorized "unknown session")
    | some session =>
        if session.columns.tokenHash ≠ lib.sha256 refreshToken then
          throw (.unauthorized "unknown session")
        else if session.columns.revokedAt.isSome then do
          -- token reuse after rotation: revoke every session of the user as a precaution
          revokeAllForUser session.columns.userId
          throw (.unauthorized "refresh token already used")
        else do
          let now ← AuthCall.dateNow.request
          if session.columns.expiresAt < now then throw (.unauthorized "session expired")
          else replaceSession lib cfg session requestMeta

/-- Revoke a single session by its refresh token. -/
def revoke (refreshToken : JsString) : Auth Unit := do
  let verified ← tryCatch (do
      let payload ← (AuthCall.verifyAsync refreshToken cfg.refreshSecret).request
      return some payload) fun _ =>
    -- already invalid, so that there is nothing to revoke
    return none
  match verified with
  | none => return
  | some payload =>
      let now ← AuthCall.dateNow.request
      (AuthCall.revokeLive payload.jti now).request

end AuthTokensService

/-! ## Sign-in messages -/

structure PreparedSiwe where
  message : JsString
  nonce : JsString
  expiresAt : Nat

/-- The verdict on a signed message; the address and the nonce only when it is good. -/
inductive SiweVerification where
  | ok (address nonce : JsString)
  | refused (reason : String)

/-- A field that is present and not empty. -/
def truthy (field : Option JsString) : Option JsString :=
  match field with
  | some [] => none
  | other => other

namespace SiweService

variable (lib : AuthLibraries) (cfg : AuthConfig)

def domain : JsString := lib.host cfg.url

/-- Build a fresh message and nonce for an address to sign. -/
def prepare (address : JsString) : Auth PreparedSiwe := do
  let nonce ← AuthCall.generateSiweNonce.request
  let issuedAt ← AuthCall.dateNow.request
  let expiresAt := issuedAt + cfg.nonceTtlSeconds * 1000
  match lib.createSiweMessage {
      address
      chainId := cfg.chainId
      domain := domain lib cfg
      uri := cfg.url
      nonce
      statement := cfg.siweStatement
      version := JsString.ascii "1"
      issuedAt
      expirationTime := expiresAt } with
  | none => throw .rejected
  | some message => return { message, nonce, expiresAt }

/-- Verify a signed message: the signature recovers to its address, and its domain and
chain are ours. The nonce is for the caller to check. -/
def verify (message signature : JsString) : Auth SiweVerification := do
  match lib.parseSiweMessage message with
  | none => return .refused "malformed SIWE message"
  | some fields =>
      match truthy fields.address, truthy fields.nonce with
      | none, _ => return .refused "missing address"
      | some _, none => return .refused "missing nonce"
      | some address, some nonce =>
          if fields.domain ≠ some (domain lib cfg) then return .refused "domain mismatch"
          else if fields.chainId ≠ some cfg.chainId then return .refused "chainId mismatch"
          else do
            let now ← AuthCall.dateNow.request
            if fields.expirationTime.any (· < now) then return .refused "message expired"
            else do
              let recovered ← tryCatch (do
                  let address ← (AuthCall.recoverMessageAddress message signature).request
                  return some address) fun _ => return none
              match recovered with
              | none => return .refused "invalid signature"
              | some recovered =>
                  if recovered.toLowerCase ≠ address.toLowerCase then
                    return .refused "signature does not match address"
                  else return .ok address.toLowerCase nonce

end SiweService

/-! ## Sign-in -/

/-- What `requestNonce` returns, with the instant whose ISO text it writes. -/
structure NonceResult where
  message : JsString
  nonce : JsString
  expiresAt : Nat
  deriving DecidableEq

structure AuthResult where
  isNewUser : Bool
  user : UserRow
  tokens : TokenPair
  deriving DecidableEq

namespace AuthService

variable (lib : AuthLibraries) (cfg : AuthConfig)

def nonceKey (address : JsString) : JsString := JsString.ascii "auth:nonce:" ++ address

theorem nonceKey_injective {first second : JsString} (same : nonceKey first = nonceKey second) :
    first = second := List.append_cancel_left same

/-- `normalizeAddress`. -/
def normalizeAddress (value : JsString) : Except AuthError JsString :=
  if value.isAddress then .ok value.toLowerCase else .error (.invalidAddress value)

/-- Step 1: issue a nonce and a message for the wallet to sign. -/
def requestNonce (rawAddress : JsString) : Auth NonceResult := do
  match normalizeAddress rawAddress with
  | .error thrown => throw thrown
  | .ok address =>
      let prepared ← SiweService.prepare lib cfg (lib.getAddress address)
      (AuthCall.set (nonceKey address) prepared.nonce cfg.nonceTtlSeconds).request
      return {
        message := prepared.message
        nonce := prepared.nonce
        expiresAt := prepared.expiresAt }

/-- Upsert the user of an address, first time a signup, and issue tokens. -/
def signIn (address : JsString) (requestMeta : RequestMeta) : Auth AuthResult := do
  let existing ← (AuthCall.findUser address).request
  let user ←
    if existing.isSome then do
      let now ← AuthCall.dateNow.request
      (AuthCall.updateLastLogin address now).request
    else (AuthCall.createUser address).request
  let tokens ← AuthTokensService.issue lib cfg user.id user.columns.address requestMeta
  return { isNewUser := existing.isNone, user, tokens }

/-- Step 2: verify the signature, consume the nonce, and sign the user in. -/
def verify (message signature : JsString) (requestMeta : RequestMeta) : Auth AuthResult := do
  match ← SiweService.verify lib cfg message signature with
  | .refused reason => throw (.unauthorized ("signature verification failed: " ++ reason))
  | .ok address nonce =>
      -- must match what was issued for this address
      let stored ← (AuthCall.get (nonceKey address)).request
      if truthy stored ≠ some nonce then
        throw (.unauthorized "nonce invalid, expired, or already used")
      else do
        (AuthCall.del (nonceKey address)).request
        signIn lib cfg address requestMeta

end AuthService

/-! ## Requests -/

/-- The public methods of the two services that read or write their state. -/
inductive AuthRequest where
  | requestNonce (rawAddress : JsString)
  | verify (message signature : JsString) (requestMeta : RequestMeta)
  | rotate (refreshToken : JsString) (requestMeta : RequestMeta)
  | revoke (refreshToken : JsString)
  deriving DecidableEq

inductive AuthResponse where
  | prepared (result : NonceResult)
  | authenticated (result : AuthResult)
  | rotated (result : Rotation)
  | revoked
  deriving DecidableEq

def AuthRequest.start (lib : AuthLibraries) (cfg : AuthConfig) : AuthRequest → Auth AuthResponse
  | requestNonce rawAddress => do
      let result ← AuthService.requestNonce lib cfg rawAddress
      return .prepared result
  | verify message signature requestMeta => do
      let result ← AuthService.verify lib cfg message signature requestMeta
      return .authenticated result
  | rotate refreshToken requestMeta => do
      let result ← AuthTokensService.rotate lib cfg refreshToken requestMeta
      return .rotated result
  | revoke refreshToken => do
      AuthTokensService.revoke cfg refreshToken
      return .revoked

/-- The services, their requests interleaved, against a world whose calls may fail. How
a request's stage moves is left to the property at hand. -/
def authSystem {S : Type} (lib : AuthLibraries) (cfg : AuthConfig) (initial : AuthWorld)
    (arrival : AuthRequest → S)
    (next : AuthRequest → S → AuthWorld → (call : AuthCall) →
      Except AuthError call.Answer → S) :
    Async.System AuthCall.Answer AuthError AuthResponse AuthRequest S AuthWorld AuthCall where
  start := AuthRequest.start lib cfg
  arrival
  next
  env := Async.Unreliable (AuthCall.Performs lib)
  drift := AuthWorld.Waits
  initial

/-! ## Answering at once -/

/-- A text that is longer than any of those in use. -/
def unusedText (used : List JsString) : JsString := List.replicate (used.flatten.length + 1) 97

theorem unusedText_not_mem (used : List JsString) : unusedText used ∉ used := by
  intro member
  have bound := (List.sublist_flatten_of_mem member).length_le
  rw [unusedText, List.length_replicate] at bound
  omega

/-- A world in which every call is performed and answered. -/
def AuthCall.respond (lib : AuthLibraries) : Async.Responder AuthCall.Answer AuthError AuthWorld
  | dateNow, world => (.ok world.now, world)
  | randomUUID, world => (.ok (unusedText (world.sessions.rows.map Prod.fst)), world)
  | generateSiweNonce, world =>
      let nonce := unusedText world.generated
      (.ok nonce, { world with generated := nonce :: world.generated })
  | signAsync payload _ _, world => (.ok (payload.jti.getD payload.type), world)
  | verifyAsync token secret, world =>
      (match lib.payloadOf token secret with
        | some payload => .ok payload
        | none => .error .rejected, world)
  | recoverMessageAddress message signature, world =>
      (match lib.recovered message signature with
        | some address => .ok address
        | none => .error .rejected, world)
  | findSession id, world => (world.findSession id, world)
  | createSession id session, world => world.createSession id session
  | revokeSession id revokedAt, world => world.revokeSession id revokedAt
  | revokeLive id revokedAt, world => (.ok (), world.revokeLive id revokedAt)
  | revokeLiveOf userId revokedAt, world => (.ok (), world.revokeLiveOf userId revokedAt)
  | findUser address, world => (.ok (world.findUser address), world)
  | updateLastLogin address lastLoginAt, world => world.updateLastLogin address lastLoginAt
  | createUser address, world =>
      world.createUser (unusedText (world.users.rows.map Prod.fst)) address
  | set key value seconds, world => (.ok (), world.set key value seconds)
  | get key, world => (.ok (world.get key), world)
  | del key, world => (.ok (), world.del key)

theorem AuthCall.respond_performs (lib : AuthLibraries) (call : AuthCall) (world : AuthWorld) :
    call.Performs lib world (call.respond lib world).1 (call.respond lib world).2 := by
  cases call with
  | generateSiweNonce => exact ⟨_, unusedText_not_mem _, rfl, rfl⟩
  | verifyAsync token secret =>
      refine ⟨?_, rfl⟩
      intro payload verified
      simp only [respond] at verified
      split at verified
      · rename_i carried
        rw [carried, Except.ok.inj verified]
      · cases verified
  | recoverMessageAddress message signature =>
      refine ⟨?_, rfl⟩
      intro address answered
      simp only [respond] at answered
      split at answered
      · rename_i recovered
        rw [recovered, Except.ok.inj answered]
      · cases answered
  | createUser address => exact ⟨_, rfl⟩
  | randomUUID | signAsync | createSession | revokeSession | updateLastLogin => rfl
  | dateNow | findSession | revokeLive | revokeLiveOf | findUser | set | get | del =>
      exact ⟨rfl, rfl⟩

end Numera
