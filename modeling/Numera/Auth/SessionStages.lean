import Numera.Auth.Nonces

/-! # What a request has read of a session

A rotation reads the session its token names, and a sign-in finds its user; from then on
the request creates a session for that user and for nobody else, and only a rotation that
has found its session revoked sweeps the user's sessions (`family_follows`). A request comes
to create a session for a user that was there before only by reading a live session of the
user, unless it signs the user in (`underway_before`).
-/

namespace Numera

open Async (CallsOnly Follows System Thread Unreliable)

/-! ## Stages -/

/-- What a request has read. -/
inductive FamilyStage where
  | begun
  /-- The session that its token names. -/
  | presented (id : Option JsString)
  /-- The user it will create a session for: its session was live, or it has signed in. -/
  | live (userId : JsString)
  /-- The user of its session, which was revoked. -/
  | reused (userId : JsString)
  deriving DecidableEq

/-- The stage after a call. -/
def FamilyStage.next (stage : FamilyStage) :
    (call : AuthCall) → Except AuthError call.Answer → FamilyStage
  | .verifyAsync _ _, .ok payload => presented payload.jti
  | .findSession _, .ok (some session) =>
      if session.columns.revokedAt.isSome then reused session.columns.userId
      else live session.columns.userId
  | .updateLastLogin _ _, .ok user => live user.id
  | .createUser _, .ok user => live user.id
  | _, _ => stage

/-- The user whose sessions a call has swept: `revokeAllForUser` has finished, which a rotation
calls when it has found its session revoked. -/
def AuthCall.sweeps : (call : AuthCall) → Except AuthError call.Answer → Option JsString
  | revokeLiveOf userId _, .ok _ => some userId
  | _, _ => none

/-- The identifier of the session that a call creates. -/
def AuthCall.creates : AuthCall → Option JsString
  | createSession id _ => some id
  | _ => none

variable (lib : AuthLibraries) (cfg : AuthConfig)

/-- The session that the token of a request names. -/
def AuthRequest.names : AuthRequest → Option JsString
  | rotate refreshToken _ => sessionOf lib cfg refreshToken
  | revoke refreshToken => sessionOf lib cfg refreshToken
  | _ => none

/-- The request signs the user in. -/
def AuthRequest.SignsIn (world : AuthWorld) (userId : JsString) (request : AuthRequest) : Prop :=
  ∃ user ∈ world.users.find? userId, ∃ claim ∈ request.claimed lib, user.address = claim.1

instance (world : AuthWorld) (userId : JsString) (request : AuthRequest) :
    Decidable (request.SignsIn lib world userId) := by
  unfold AuthRequest.SignsIn
  infer_instance

/-- The services, with what their requests have read. -/
abbrev familySystem (initial : AuthWorld) :
    System AuthCall.Answer AuthError AuthResponse AuthRequest FamilyStage AuthWorld AuthCall :=
  authSystem lib cfg initial (fun _ => .begun) fun _ stage _ call answer => stage.next call answer

/-- The requests under way. -/
abbrev Familiar : Type := Thread AuthCall.Answer AuthError AuthResponse AuthRequest FamilyStage

/-- The request is a sign-in of the user that has not finished, or a rotation that has read a
session of the user as live and not finished. -/
def Underway (world : AuthWorld) (userId : JsString) (thread : Familiar) : Prop :=
  thread.task.outcome? = none ∧
    (thread.stage = .live userId ∨ thread.request.SignsIn lib world userId)

instance (world : AuthWorld) (userId : JsString) (thread : Familiar) :
    Decidable (Underway lib world userId thread) := by
  unfold Underway
  infer_instance

/-- Nobody presents a token of a session that is yet to be created. -/
def Unpresented :
    System.Condition AuthCall.Answer AuthError AuthResponse AuthRequest FamilyStage AuthWorld :=
  fun _ threads _ call _ => ∀ id ∈ call.creates, ∀ thread ∈ threads,
    thread.request.names lib cfg ≠ some id

instance (world : AuthWorld) (threads : List Familiar) (position : Nat) (call : AuthCall)
    (answer : Except AuthError call.Answer) :
    Decidable (Unpresented lib cfg world threads position call answer) := by
  unfold Unpresented
  infer_instance

/-- A sweep finishes while no sign-in of the user is under way, and no rotation that has read a
session of the user as live. -/
def SweepsAlone :
    System.Condition AuthCall.Answer AuthError AuthResponse AuthRequest FamilyStage AuthWorld :=
  fun world threads _ call answer => ∀ userId ∈ call.sweeps answer, ∀ thread ∈ threads,
    ¬ Underway lib world userId thread

instance (world : AuthWorld) (threads : List Familiar) (position : Nat) (call : AuthCall)
    (answer : Except AuthError call.Answer) :
    Decidable (SweepsAlone lib world threads position call answer) := by
  unfold SweepsAlone
  infer_instance

/-- Tokens are not forged, and sweeps finish alone. -/
def SweepsUnforged :
    System.Condition AuthCall.Answer AuthError AuthResponse AuthRequest FamilyStage AuthWorld :=
  fun world threads position call answer =>
    Unpresented lib cfg world threads position call answer ∧
      SweepsAlone lib world threads position call answer

/-! ## One request -/

/-- The calls of a request at each stage. -/
def FamilyStage.Allowed (request : AuthRequest) (stage : FamilyStage) : AuthCall → Prop
  | .verifyAsync token secret => secret = cfg.refreshSecret ∧
      ((∃ requestMeta, request = .rotate token requestMeta) ∨ request = .revoke token)
  | .findSession id => stage = presented id
  | .createSession _ session => stage = live session.userId
  | .revokeLiveOf userId _ => stage = reused userId
  | .updateLastLogin address _ => ∃ nonce, request.claimed lib = some (address, nonce)
  | .createUser address => ∃ nonce, request.claimed lib = some (address, nonce)
  | _ => True

/-- The call is allowed at the stage and does not move it. -/
abbrev FamilyStage.Keeps (request : AuthRequest) (stage : FamilyStage) (call : AuthCall) : Prop :=
  stage.Allowed lib cfg request call ∧ ∀ answer, stage.next call answer = stage

/-- A computation that keeps to the stages of a request. -/
abbrev FamilyFollows {α : Type} (request : AuthRequest) (stage : FamilyStage) (task : Auth α) :
    Prop :=
  Follows (fun reached (_ : AuthWorld) call answer => reached.next call answer)
    (FamilyStage.Allowed lib cfg request) (fun _ _ => True) stage task

section Follows

variable {lib cfg} {α β : Type} {request : AuthRequest} {stage : FamilyStage}

/-- A part that keeps to the stages, and what follows it at the stage it has reached. -/
theorem family_bind {task : Auth β} {rest : β → Auth α}
    (first : Follows (fun reached (_ : AuthWorld) call answer => reached.next call answer)
      (FamilyStage.Allowed lib cfg request)
      (fun reached outcome => ∀ value, outcome = .ok value →
        FamilyFollows lib cfg request reached (rest value)) stage task) :
    FamilyFollows lib cfg request stage (task >>= rest) := by
  refine .bind (.mono first fun reached outcome follows => ?_)
  cases outcome with
  | ok value => exact follows value rfl
  | error thrown => trivial

/-- A call, and what follows its answer. -/
theorem family_call {call : AuthCall} {rest : call.Answer → Auth α}
    (allowed : stage.Allowed lib cfg request call)
    (answered : ∀ value, FamilyFollows lib cfg request (stage.next call (.ok value)) (rest value)) :
    FamilyFollows lib cfg request stage (call.request >>= rest) :=
  .perform_bind allowed (fun _ => answered) fun _ _ => trivial

/-- A request that has found its user creates a session for nobody else. -/
theorem keeps_issue (userId address : JsString) (requestMeta : RequestMeta) :
    CallsOnly (FamilyStage.Keeps lib cfg request (.live userId))
      (AuthTokensService.issue lib cfg userId address requestMeta) :=
  .bind (.perform ⟨trivial, fun _ => rfl⟩) fun _ => .bind (.perform ⟨trivial, fun _ => rfl⟩)
    fun _ => .bind (.perform ⟨trivial, fun _ => rfl⟩) fun _ =>
      .bind (.bind (.perform ⟨trivial, fun _ => rfl⟩) fun _ => trivial) fun _ =>
        .bind (.perform ⟨rfl, fun _ => rfl⟩) fun _ => trivial

theorem issue_family (userId address : JsString) (requestMeta : RequestMeta)
    (rest : TokenPair → Auth α) (ends : ∀ tokens, ∃ outcome, rest tokens = .done outcome) :
    FamilyFollows lib cfg request (.live userId)
      (AuthTokensService.issue lib cfg userId address requestMeta >>= rest) := by
  refine .neutral_bind (keeps_issue userId address requestMeta) (fun _ keeps => keeps.1)
    (fun _ keeps _ => keeps.2) (fun tokens => ?_) fun _ => trivial
  obtain ⟨outcome, finished⟩ := ends tokens
  rw [finished]
  trivial

theorem signIn_family {address nonce : JsString} (requestMeta : RequestMeta)
    (claimed : request.claimed lib = some (address, nonce)) :
    FamilyFollows lib cfg request .begun (AuthService.signIn lib cfg address requestMeta) := by
  refine family_call trivial fun existing => ?_
  cases existing with
  | none =>
      exact family_call ⟨nonce, claimed⟩ fun user =>
        issue_family user.id _ requestMeta _ fun tokens => ⟨_, rfl⟩
  | some row =>
      exact family_call trivial fun now => family_call ⟨nonce, claimed⟩ fun user =>
        issue_family user.id _ requestMeta _ fun tokens => ⟨_, rfl⟩

theorem verify_family (message signature : JsString) (requestMeta : RequestMeta) :
    FamilyFollows lib cfg (.verify message signature requestMeta) .begun
      (AuthService.verify lib cfg message signature requestMeta) := by
  refine family_bind (.mono (siwe_follows ⟨trivial, fun _ _ => rfl⟩
    (fun _ _ => ⟨trivial, fun _ _ => rfl⟩) message signature requestMeta) ?_)
  rintro _ _ ⟨rfl, claims⟩ verification rfl
  cases verification with
  | refused reason => trivial
  | ok address nonce =>
      refine family_call trivial fun found => ?_
      split
      · trivial
      · exact family_call trivial fun _ => signIn_family requestMeta (claims address nonce rfl)

/-- The checks on a session that was read, from the stage the reading has led to. -/
theorem checkSession_family (refreshToken : JsString) (id : Option JsString) (session : SessionRow)
    (requestMeta : RequestMeta) :
    FamilyFollows lib cfg request (stage.next (.findSession id) (.ok (some session)))
      (if session.columns.tokenHash ≠ lib.sha256 refreshToken then
        throw (.unauthorized "unknown session")
      else if session.columns.revokedAt.isSome then do
        AuthTokensService.revokeAllForUser session.columns.userId
        throw (.unauthorized "refresh token already used")
      else do
        let now ← AuthCall.dateNow.request
        if session.columns.expiresAt < now then throw (.unauthorized "session expired")
        else AuthTokensService.replaceSession lib cfg session requestMeta) := by
  split
  · trivial
  · split
    · rename_i revoked
      rw [show stage.next (.findSession id) (.ok (some session)) =
        .reused session.columns.userId from if_pos revoked]
      refine family_bind (.perform_bind trivial (fun _ _ => ?_) fun _ _ _ same => by cases same)
      exact ⟨rfl, fun _ _ _ _ => trivial⟩
    · rename_i current
      rw [show stage.next (.findSession id) (.ok (some session)) =
        .live session.columns.userId from if_neg current]
      refine family_call trivial fun now => ?_
      split
      · trivial
      · exact family_call trivial fun revokedAt => family_call trivial fun _ =>
          issue_family _ _ requestMeta _ fun tokens => ⟨_, rfl⟩

theorem rotate_family (refreshToken : JsString) (requestMeta : RequestMeta) :
    FamilyFollows lib cfg (.rotate refreshToken requestMeta) .begun
      (AuthTokensService.rotate lib cfg refreshToken requestMeta) := by
  refine .bind (.tryCatch ⟨⟨rfl, .inl ⟨requestMeta, rfl⟩⟩, fun _ verified => ?_⟩)
  cases verified with
  | error thrown => trivial
  | ok payload =>
      change FamilyFollows lib cfg _ (.presented payload.jti) (ite _ _ _)
      split
      · trivial
      · refine family_call rfl fun found => ?_
        cases found with
        | none => trivial
        | some session => exact checkSession_family refreshToken _ session requestMeta

theorem revoke_family (refreshToken : JsString) :
    FamilyFollows lib cfg (.revoke refreshToken) .begun
      (AuthTokensService.revoke cfg refreshToken) := by
  refine .bind (.tryCatch ⟨⟨rfl, .inr rfl⟩, fun _ verified => ?_⟩)
  cases verified with
  | error thrown => trivial
  | ok payload => exact family_call trivial fun now => ⟨trivial, fun _ _ => trivial⟩

theorem requestNonce_family (rawAddress : JsString) :
    FamilyFollows lib cfg (.requestNonce rawAddress) .begun
      (AuthService.requestNonce lib cfg rawAddress) := by
  unfold AuthService.requestNonce SiweService.prepare
  split
  · trivial
  · refine family_bind (.perform_bind trivial (fun _ nonce => .perform_bind trivial
      (fun _ issuedAt => ?_) fun _ _ _ same => by cases same) fun _ _ _ same => by cases same)
    dsimp only
    split
    · exact fun _ same => by cases same
    · exact fun prepared _ => family_call trivial fun _ => trivial

/-- Every request keeps to the stages. -/
theorem family_follows (request : AuthRequest) :
    FamilyFollows lib cfg request .begun (request.start lib cfg) := by
  have responds : ∀ {β : Type} {task : Auth β} (respond : β → AuthResponse),
      FamilyFollows lib cfg request .begun task → FamilyFollows lib cfg request .begun (do
        let result ← task
        return respond result) :=
    fun _ follows => family_bind (.mono follows fun _ _ _ _ _ => trivial)
  cases request with
  | requestNonce rawAddress => exact responds _ (requestNonce_family rawAddress)
  | verify message signature requestMeta =>
      exact responds _ (verify_family message signature requestMeta)
  | rotate refreshToken requestMeta => exact responds _ (rotate_family refreshToken requestMeta)
  | revoke refreshToken => exact responds (fun _ => .revoked) (revoke_family refreshToken)

end Follows

/-! ## Sessions and users -/

namespace AuthWorld

variable {lib : AuthLibraries} {world later : AuthWorld} {call : AuthCall}
  {answer : Except AuthError call.Answer} {id userId : JsString}

/-- The session is there, under its user. -/
def Owned (world : AuthWorld) (id userId : JsString) : Prop :=
  ∃ session, world.sessions.find? id = some session ∧ session.userId = userId

theorem Owned.performs (owned : world.Owned id userId)
    (done : call.Performs lib world answer later) : later.Owned id userId := by
  obtain ⟨session, present, rfl⟩ := owned
  obtain ⟨other, found, same, -⟩ := session_performs present done
  exact ⟨other, found, same⟩

theorem Owned.waits (owned : world.Owned id userId) (waits : world.Waits later) :
    later.Owned id userId := by
  obtain ⟨now, -, rfl⟩ := waits
  exact owned

/-- A sweep kills every session of the user. -/
theorem Owned.swept (owned : world.Owned id userId) (revokedAt : Nat) :
    (world.revokeLiveOf userId revokedAt).Revoked id := by
  obtain ⟨session, present, rfl⟩ := owned
  refine ⟨session.revokeLive revokedAt, ?_, ?_⟩
  · rw [revokeLiveOf, Table.find?_map, present, Option.map_some, if_pos rfl]
  · unfold RefreshSession.revokeLive
    cases revoked : session.revokedAt with
    | none => rfl
    | some time => simp [revoked]

/-- A session that was not there before a call has been created by it. -/
theorem created_of_performs {session : RefreshSession} (absent : world.sessions.find? id = none)
    (present : later.sessions.find? id = some session)
    (done : call.Performs lib world answer later) : call = .createSession id session := by
  have untouched : later.sessions = world.sessions → call = .createSession id session := by
    intro same
    rw [same, absent] at present
    cases present
  cases call with
  | createSession own created =>
      simp only [AuthCall.Performs, createSession] at done
      split at done
      · rw [(Prod.mk.inj done).2, Table.find?_insertNew] at present
        split at present
        · rename_i same
          subst same
          rw [absent] at present
          obtain rfl := Option.some.inj present
          rfl
        · rw [absent] at present
          cases present
      · exact untouched (by rw [(Prod.mk.inj done).2])
  | revokeSession own revokedAt =>
      simp only [AuthCall.Performs, revokeSession] at done
      split at done
      · rw [(Prod.mk.inj done).2, Table.find?_modify] at present
        split at present
        · rename_i same
          rw [← same, absent] at present
          cases present
        · rw [absent] at present
          cases present
      · exact untouched (by rw [(Prod.mk.inj done).2])
  | revokeLive wanted revokedAt =>
      rw [done.2, revokeLive, Table.find?_modifyWhere, absent] at present
      cases present
  | revokeLiveOf userId revokedAt =>
      rw [done.2, revokeLiveOf, Table.find?_map, absent] at present
      cases present
  | generateSiweNonce =>
      obtain ⟨nonce, -, -, rfl⟩ := done
      exact untouched rfl
  | updateLastLogin address lastLoginAt =>
      simp only [AuthCall.Performs, updateLastLogin] at done
      split at done <;> exact untouched (by rw [(Prod.mk.inj done).2])
  | createUser address =>
      obtain ⟨own, done⟩ := done
      simp only [createUser] at done
      split at done <;> exact untouched (by rw [(Prod.mk.inj done).2])
  | randomUUID | signAsync =>
      obtain rfl : later = world := done
      exact untouched rfl
  | _ =>
      obtain ⟨-, rfl⟩ := done
      exact untouched rfl

/-- The user has a row. -/
def Enrolled (world : AuthWorld) (userId address : JsString) : Prop :=
  ∃ user, world.users.find? userId = some user ∧ user.address = address

theorem Enrolled.waits {address : JsString} (enrolled : world.Enrolled userId address)
    (waits : world.Waits later) : later.Enrolled userId address := by
  obtain ⟨now, -, rfl⟩ := waits
  exact enrolled

/-- A user has one address. -/
theorem Enrolled.address_eq {first second : JsString} (one : world.Enrolled userId first)
    (other : world.Enrolled userId second) : first = second := by
  obtain ⟨user, found, rfl⟩ := one
  obtain ⟨same, again, rfl⟩ := other
  rw [Option.some.inj (found.symm.trans again)]

/-- The user that is found by an address has it. -/
theorem enrolled_of_findUser {address : JsString} {user : UserRow}
    (found : world.findUser address = some user) :
    world.users.find? user.id = some user.columns ∧ user.columns.address = address := by
  obtain ⟨row, matched, rfl⟩ := Option.map_eq_some_iff.mp found
  have named := List.find?_some matched
  exact ⟨(world.users.mem_rows_iff _ _).mp (List.mem_of_find?_eq_some matched),
    of_decide_eq_true named⟩

/-- **No call removes a user or changes its address.** -/
theorem Enrolled.performs {address : JsString} (enrolled : world.Enrolled userId address)
    (done : call.Performs lib world answer later) : later.Enrolled userId address := by
  have untouched : later.users = world.users → later.Enrolled userId address := by
    intro same
    rw [Enrolled, same]
    exact enrolled
  cases call with
  | updateLastLogin own lastLoginAt =>
      simp only [AuthCall.Performs, updateLastLogin] at done
      split at done
      · exact untouched (by rw [(Prod.mk.inj done).2])
      · rename_i user found
        obtain ⟨present, named⟩ := enrolled_of_findUser found
        rw [(Prod.mk.inj done).2]
        by_cases same : userId = user.id
        · subst same
          obtain rfl := enrolled.address_eq ⟨_, present, rfl⟩
          exact ⟨{ user.columns with lastLoginAt := some lastLoginAt }, by simp [present], rfl⟩
        · obtain ⟨other, there, rfl⟩ := enrolled
          exact ⟨other, by simp only [Table.find?_modify, same, ↓reduceIte, there], rfl⟩
  | createUser own =>
      obtain ⟨id, done⟩ := done
      simp only [createUser] at done
      split at done
      · rename_i fresh
        obtain ⟨other, there, rfl⟩ := enrolled
        have apart : userId ≠ id := by
          rintro rfl
          rw [there] at fresh
          cases fresh.2
        rw [(Prod.mk.inj done).2]
        exact ⟨other, by simp only [Table.find?_insertNew, apart, ↓reduceIte, there], rfl⟩
      · exact untouched (by rw [(Prod.mk.inj done).2])
  | createSession own created =>
      simp only [AuthCall.Performs, createSession] at done
      split at done <;> exact untouched (by rw [(Prod.mk.inj done).2])
  | revokeSession own revokedAt =>
      simp only [AuthCall.Performs, revokeSession] at done
      split at done <;> exact untouched (by rw [(Prod.mk.inj done).2])
  | generateSiweNonce =>
      obtain ⟨nonce, -, -, rfl⟩ := done
      exact untouched rfl
  | randomUUID | signAsync =>
      obtain rfl : later = world := done
      exact untouched rfl
  | _ =>
      obtain ⟨-, rfl⟩ := done
      exact untouched rfl

end AuthWorld

/-- A session that is there after a call was there before it, or the call has created it. -/
theorem session_answered {lib : AuthLibraries} {world later : AuthWorld} {call : AuthCall}
    {answer : Except AuthError call.Answer} {record : List AuthCall} {id : JsString}
    {session : RefreshSession}
    (answered : Unreliable (AuthCall.Performs lib) call world answer record later)
    (present : later.sessions.find? id = some session) :
    (∃ old, world.sessions.find? id = some old ∧ AuthWorld.Succeeds old session) ∨
      call = .createSession id session := by
  have performed : ∀ {given : Except AuthError call.Answer}, call.Performs lib world given later →
      (∃ old, world.sessions.find? id = some old ∧ AuthWorld.Succeeds old session) ∨
        call = .createSession id session := by
    intro given done
    cases there : world.sessions.find? id with
    | none => exact .inr (AuthWorld.created_of_performs there present done)
    | some old =>
        obtain ⟨other, found, succeeds⟩ := AuthWorld.session_performs there done
        obtain rfl := Option.some.inj (found.symm.trans present)
        exact .inl ⟨old, rfl, succeeds⟩
  cases answered with
  | performed done => exact performed done
  | refused => exact .inl ⟨session, present, rfl, fun revoked => revoked⟩
  | lost _ done => exact performed done

/-- A user that has a row keeps it, whether or not the call is answered. -/
theorem enrolled_answered {lib : AuthLibraries} {world later : AuthWorld} {call : AuthCall}
    {answer : Except AuthError call.Answer} {record : List AuthCall} {userId address : JsString}
    (answered : Unreliable (AuthCall.Performs lib) call world answer record later)
    (enrolled : world.Enrolled userId address) : later.Enrolled userId address :=
  answered.keeps enrolled fun _ _ done => enrolled.performs done

/-- A call that sweeps is the sweep of the user's sessions. -/
theorem sweeps_cases {call : AuthCall} {answer : Except AuthError call.Answer} {userId : JsString}
    (sweeps : call.sweeps answer = some userId) :
    ∃ revokedAt, call = .revokeLiveOf userId revokedAt := by
  unfold AuthCall.sweeps at sweeps
  split at sweeps
  · rename_i own revokedAt done
    obtain rfl := Option.some.inj sweeps
    exact ⟨revokedAt, rfl⟩
  · cases sweeps

/-- A call that is a finished sweep revokes the sessions of its user. -/
theorem revoked_of_swept {lib : AuthLibraries} {call : AuthCall}
    {answer : Except AuthError call.Answer} {record : List AuthCall} {world later : AuthWorld}
    {userId id : JsString}
    (answered : Unreliable (AuthCall.Performs lib) call world answer record later)
    (sweeps : call.sweeps answer = some userId) (owned : world.Owned id userId) :
    later.Revoked id := by
  unfold AuthCall.sweeps at sweeps
  split at sweeps
  · obtain rfl := Option.some.inj sweeps
    obtain ⟨-, rfl⟩ := answered.performed_of_ok
    exact owned.swept _
  · cases sweeps

/-! ## What a request knows -/

section Requests

variable {lib cfg} {request : AuthRequest} {stage : FamilyStage} {world later : AuthWorld}
  {call : AuthCall} {answer : Except AuthError call.Answer} {record : List AuthCall}
  {userId : JsString}

/-- A request signs the user in when the address it claims is the user's. -/
theorem AuthRequest.signsIn_iff : request.SignsIn lib world userId ↔
    ∃ address nonce, request.claimed lib = some (address, nonce) ∧
      world.Enrolled userId address := by
  constructor
  · rintro ⟨user, found, ⟨address, nonce⟩, claimed, rfl⟩
    exact ⟨_, nonce, claimed, user, found, rfl⟩
  · rintro ⟨address, nonce, claimed, user, found, rfl⟩
    exact ⟨user, found, _, claimed, rfl⟩

/-- A sign-in of a user that was there has been one of that user all along. -/
theorem AuthRequest.SignsIn.earlier {address : JsString} (enrolled : world.Enrolled userId address)
    (kept : later.Enrolled userId address) (signs : request.SignsIn lib later userId) :
    request.SignsIn lib world userId := by
  obtain ⟨own, nonce, claimed, other⟩ := signsIn_iff.mp signs
  obtain rfl := kept.address_eq other
  exact signsIn_iff.mpr ⟨_, nonce, claimed, enrolled⟩

/-- What a stage says of the request's token and of the world. -/
def FamilyStage.Accurate (lib : AuthLibraries) (cfg : AuthConfig) (request : AuthRequest)
    (world : AuthWorld) : FamilyStage → Prop
  | presented id => request.names lib cfg = id
  | reused userId => ∃ address, world.Enrolled userId address
  | _ => True

/-- A session that is found belongs to a user that is there. -/
theorem AuthWorld.findSession_enrolled {wanted : Option JsString} {session : SessionRow}
    (found : world.findSession wanted = .ok (some session)) :
    ∃ address, world.Enrolled session.columns.userId address := by
  cases wanted with
  | none => cases found
  | some id =>
      simp only [findSession] at found
      split at found
      · cases found
      · split at found
        · cases found
        · rename_i user there
          cases found
          exact ⟨_, user, there, rfl⟩

/-- A call of a request carries on what its stage says. -/
theorem FamilyStage.accurate_next (allowed : stage.Allowed lib cfg request call)
    (answered : Unreliable (AuthCall.Performs lib) call world answer record later)
    (accurate : stage.Accurate lib cfg request world) :
    (stage.next call answer).Accurate lib cfg request later := by
  have still : stage.Accurate lib cfg request later := by
    cases stage with
    | reused userId =>
        obtain ⟨address, enrolled⟩ := accurate
        exact ⟨address, enrolled_answered answered enrolled⟩
    | _ => exact accurate
  cases answer with
  | error thrown => cases call <;> exact still
  | ok value =>
      have done := answered.performed_of_ok
      cases call with
      | verifyAsync token secret =>
          have carries := done.1 value rfl
          obtain ⟨rfl, ⟨requestMeta, rfl⟩ | rfl⟩ := allowed
          · exact congrArg (Option.bind · TokenPayload.jti) carries
          · exact congrArg (Option.bind · TokenPayload.jti) carries
      | findSession id =>
          cases value with
          | none => exact still
          | some session =>
              simp only [next]
              split
              · obtain ⟨found, rfl⟩ := done
                exact AuthWorld.findSession_enrolled found.symm
              · trivial
      | updateLastLogin | createUser => trivial
      | _ => exact still

/-- The token of the request names no live session of the user. -/
def AuthRequest.Unread (lib : AuthLibraries) (cfg : AuthConfig) (world : AuthWorld)
    (userId : JsString) (request : AuthRequest) : Prop :=
  ∀ id session, world.sessions.find? id = some session → session.userId = userId →
    session.revokedAt = none → request.names lib cfg ≠ some id

/-- **A request comes to create a session for a user that was there only by reading a live
session of the user, unless it signs the user in.** -/
theorem underway_before {address : JsString} (allowed : stage.Allowed lib cfg request call)
    (accurate : stage.Accurate lib cfg request world)
    (answered : Unreliable (AuthCall.Performs lib) call world answer record later)
    (enrolled : world.Enrolled userId address)
    (reads : call.sweeps answer = some userId ∨ request.Unread lib cfg world userId)
    (under : stage.next call answer = .live userId ∨ request.SignsIn lib later userId) :
    stage = .live userId ∨ request.SignsIn lib world userId := by
  rcases under with entered | signs
  · cases answer with
    | error thrown => cases call <;> exact .inl entered
    | ok value =>
        have done := answered.performed_of_ok
        cases call with
        | findSession id =>
            cases value with
            | none => exact .inl entered
            | some session =>
                simp only [FamilyStage.next] at entered
                split at entered
                · cases entered
                · rename_i live
                  obtain ⟨rfl, present⟩ := AuthWorld.findSession_found done.1.symm
                  obtain rfl : stage = .presented (some session.id) := allowed
                  rcases reads with sweeps | unread
                  · cases sweeps
                  · exact absurd accurate (unread session.id session.columns present
                      (FamilyStage.live.inj entered) (Option.not_isSome_iff_eq_none.mp live))
        | updateLastLogin own lastLoginAt =>
            obtain ⟨nonce, claimed⟩ := allowed
            obtain rfl := FamilyStage.live.inj entered
            simp only [AuthCall.Performs, AuthWorld.updateLastLogin] at done
            split at done
            · cases (Prod.mk.inj done).1
            · rename_i user found
              obtain ⟨present, named⟩ := AuthWorld.enrolled_of_findUser found
              obtain rfl := Except.ok.inj (Prod.mk.inj done).1
              exact .inr (AuthRequest.signsIn_iff.mpr ⟨own, nonce, claimed, _, present, named⟩)
        | createUser own =>
            obtain ⟨id, done⟩ := done
            obtain rfl := FamilyStage.live.inj entered
            simp only [AuthWorld.createUser] at done
            split at done
            · rename_i fresh
              obtain rfl := Except.ok.inj (Prod.mk.inj done).1
              obtain ⟨user, there, -⟩ := enrolled
              rw [there] at fresh
              cases fresh.2
            · cases (Prod.mk.inj done).1
        | verifyAsync => cases entered
        | _ => exact .inl entered
  · exact .inr (signs.earlier enrolled (enrolled_answered answered enrolled))

/-- A token that names no live session of the user, or whose user a call has swept, names none
after the call, unless it names the session that the call creates. -/
theorem AuthRequest.unread_answered
    (reads : call.sweeps answer = some userId ∨ request.Unread lib cfg world userId)
    (answered : Unreliable (AuthCall.Performs lib) call world answer record later)
    (unpresented : ∀ id ∈ call.creates, request.names lib cfg ≠ some id) :
    request.Unread lib cfg later userId := by
  intro id session present owns live
  rcases session_answered answered present with ⟨old, there, same, revoked⟩ | rfl
  · rcases reads with sweeps | unread
    · obtain ⟨row, found, dead⟩ := revoked_of_swept answered sweeps ⟨old, there, same ▸ owns⟩
      obtain rfl := Option.some.inj (found.symm.trans present)
      rw [live] at dead
      cases dead
    · refine unread id old there (same ▸ owns) ?_
      by_contra dead
      have still := revoked (Option.isSome_iff_ne_none.mpr dead)
      rw [live] at still
      cases still
  · exact unpresented id rfl

end Requests

end Numera
