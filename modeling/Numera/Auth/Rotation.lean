import Numera.Auth.Service

/-! # Rotating a refresh token

A rotation reads its session, checks that it is live, and revokes it with an update
that succeeds whether or not another rotation has revoked it in between. Two
rotations that read the session before either has revoked it both return a pair of
tokens (`rotation_not_singleUse`). In every run without such a second reader at most
one does (`rotation_singleUse`): a rotation that has read its session as live and
not yet revoked it is alone, and once one has revoked it none can read it as live.
-/

namespace Numera

open Async (CallsOnly Follows System Thread Unreliable)

/-! ## Stages -/

/-- How far a rotation has come. -/
inductive RotationStage where
  | waiting
  | verified (payload : TokenPayload)
  | live (id : JsString) (expiresAt : Nat)
  | current (id : JsString)
  | rotated (id : JsString)
  | refused
  deriving DecidableEq

namespace RotationStage

/-- The session has been read as live and is yet to be revoked. -/
def pending (id : JsString) : RotationStage → Bool
  | live own _ => own = id
  | current own => own = id
  | _ => false

/-- The session has been read as live, whether or not it has been revoked since. -/
def holds (id : JsString) : RotationStage → Bool
  | rotated own => own = id
  | stage => stage.pending id

theorem holds_cases {id : JsString} {stage : RotationStage} (held : stage.holds id = true) :
    stage = .rotated id ∨ stage.pending id = true := by
  cases stage with
  | rotated own =>
      obtain rfl : own = id := of_decide_eq_true held
      exact .inl rfl
  | _ => exact .inr held

end RotationStage

/-- The session that a call reads as live for a refresh token: it is the token's and it
is not revoked. -/
def readsLive (lib : AuthLibraries) (refreshToken : JsString) :
    (call : AuthCall) → Except AuthError call.Answer → Option SessionRow
  | .findSession _, .ok (some session) =>
      if session.columns.tokenHash = lib.sha256 refreshToken ∧ session.columns.revokedAt = none then
        some session
      else none
  | _, _ => none

/-- The stage of a rotation after a call. -/
def RotationStage.next (lib : AuthLibraries) (refreshToken : JsString) :
    RotationStage → (call : AuthCall) → Except AuthError call.Answer → RotationStage
  | waiting, .verifyAsync _ _, .ok payload => verified payload
  | verified _, .findSession id, answer =>
      match readsLive lib refreshToken (.findSession id) answer with
      | some session => live session.id session.columns.expiresAt
      | none => refused
  | live id expiresAt, .dateNow, .ok now => if expiresAt < now then refused else current id
  | current id, .dateNow, .ok _ => current id
  | current id, .revokeSession _ _, .ok _ => rotated id
  | rotated id, _, _ => rotated id
  | _, _, _ => refused

variable (lib : AuthLibraries) (cfg : AuthConfig)

/-- A rejected call ends a rotation, except that it may have revoked its session. -/
theorem RotationStage.next_error (refreshToken : JsString) {stage : RotationStage}
    {call : AuthCall} (thrown : AuthError) (unrevoked : ∀ id, stage ≠ .rotated id) :
    stage.next lib refreshToken call (.error thrown) = .refused := by
  cases stage with
  | rotated id => exact absurd rfl (unrevoked id)
  | _ => cases call <;> rfl

/-- A rotation comes to hold a session only by reading it as live. -/
theorem RotationStage.holds_next {refreshToken id : JsString} {stage : RotationStage}
    {call : AuthCall} {answer : Except AuthError call.Answer} (unheld : stage.holds id = false)
    (held : (stage.next lib refreshToken call answer).holds id = true) :
    ∃ session, readsLive lib refreshToken call answer = some session ∧ session.id = id := by
  unfold RotationStage.next at held
  split at held
  · cases held
  · split at held
    · rename_i session reads
      exact ⟨session, reads, of_decide_eq_true held⟩
    · cases held
  · split at held
    · cases held
    · rw [show holds id (current _) = false from unheld] at held
      cases held
  · rw [show holds id (current _) = false from unheld] at held
    cases held
  · rw [show holds id (rotated _) = false from unheld] at held
    cases held
  · rw [unheld] at held
    cases held
  · cases held

/-- The services, with the stages of their rotations. Other requests have none. -/
def rotationSystem (initial : AuthWorld) :
    System AuthCall.Answer AuthError AuthResponse AuthRequest RotationStage AuthWorld AuthCall :=
  authSystem lib cfg initial (fun _ => .waiting) fun request stage _ call answer =>
    match request with
    | .rotate refreshToken _ => stage.next lib refreshToken call answer
    | _ => stage

/-- The rotations under way. -/
abbrev Rotating : Type := Thread AuthCall.Answer AuthError AuthResponse AuthRequest RotationStage

/-- No rotation reads a session as live while another one has read it as live and is
yet to revoke it. -/
def NoSecondReader :
    System.Condition AuthCall.Answer AuthError AuthResponse AuthRequest RotationStage AuthWorld :=
  fun _ threads position call answer =>
    ∀ thread refreshToken requestMeta session, threads[position]? = some thread →
      thread.request = .rotate refreshToken requestMeta →
      readsLive lib refreshToken call answer = some session →
      ∀ other ∈ threads, other.stage.pending session.id = false

/-! ## One rotation -/

/-- The calls of a rotation at each stage. -/
def RotationStage.Allowed (refreshToken : JsString) : RotationStage → AuthCall → Prop
  | waiting, call => call = .verifyAsync refreshToken cfg.refreshSecret
  | verified payload, call => call = .findSession payload.jti
  | live _ _, call => call = .dateNow
  | current id, call => call = .dateNow ∨ ∃ revokedAt, call = .revokeSession id revokedAt
  | rotated _, _ => True
  | refused, _ => True

/-- A rotation returns tokens only after it has revoked its session. -/
def RotationStage.Finish {α : Type} (stage : RotationStage) (outcome : Except AuthError α) : Prop :=
  ∀ result, outcome = .ok result → ∃ id, stage = .rotated id

/-- A computation that keeps to the stages of a rotation. -/
abbrev RotationFollows {α : Type} (refreshToken : JsString) (stage : RotationStage)
    (task : Auth α) : Prop :=
  Follows (fun reached (_ : AuthWorld) call answer => reached.next lib refreshToken call answer)
    (RotationStage.Allowed cfg refreshToken) RotationStage.Finish stage task

theorem RotationStage.finish_error {α : Type} (stage : RotationStage) (thrown : AuthError) :
    stage.Finish (.error thrown : Except AuthError α) := fun _ same => by cases same

/-- Once the session is revoked, nothing moves the stage. -/
theorem issue_follows (refreshToken id userId address : JsString) (requestMeta : RequestMeta) :
    RotationFollows lib cfg refreshToken (.rotated id)
      (AuthTokensService.issue lib cfg userId address requestMeta) :=
  .of_callsOnly (.unrestricted _) (fun _ _ => trivial) (fun _ _ _ _ => rfl)
    fun _ _ _ => ⟨id, rfl⟩

theorem replaceSession_follows (refreshToken : JsString) (session : SessionRow)
    (requestMeta : RequestMeta) :
    RotationFollows lib cfg refreshToken (.current session.id)
      (AuthTokensService.replaceSession lib cfg session requestMeta) := by
  refine .perform_bind (.inl rfl) (fun _ revokedAt => ?_) fun _ _ => RotationStage.finish_error _ _
  refine .perform_bind (.inr ⟨revokedAt, rfl⟩) (fun _ _ => ?_)
    fun _ _ => RotationStage.finish_error _ _
  refine .bind (Follows.mono (issue_follows lib cfg refreshToken session.id _ _ requestMeta) ?_)
  intro reached outcome finished
  cases outcome with
  | ok tokens => exact fun _ _ => finished tokens rfl
  | error thrown => exact RotationStage.finish_error _ _

/-- The checks on a session that was read, from the stage the reading has led to. -/
theorem checkSession_follows (refreshToken : JsString) (id : Option JsString) (session : SessionRow)
    (requestMeta : RequestMeta) (payload : TokenPayload) :
    RotationFollows lib cfg refreshToken
      (RotationStage.next lib refreshToken (.verified payload) (.findSession id)
        (.ok (some session)))
      (if session.columns.tokenHash ≠ lib.sha256 refreshToken then
        throw (.unauthorized "unknown session")
      else if session.columns.revokedAt.isSome then do
        AuthTokensService.revokeAllForUser session.columns.userId
        throw (.unauthorized "refresh token already used")
      else do
        let now ← AuthCall.dateNow.request
        if session.columns.expiresAt < now then throw (.unauthorized "session expired")
        else AuthTokensService.replaceSession lib cfg session requestMeta) := by
  by_cases known : session.columns.tokenHash = lib.sha256 refreshToken
  · cases revoked : session.columns.revokedAt with
    | some revokedAt =>
        simp only [RotationStage.next, readsLive, known, revoked, ne_eq, not_true_eq_false,
          ↓reduceIte, reduceCtorEq, and_false, Option.isSome_some]
        refine .bind (.of_callsOnly (.unrestricted _) (fun _ _ => trivial) (fun _ _ _ _ => rfl) ?_)
        intro outcome
        cases outcome with
        | ok done => exact RotationStage.finish_error _ _
        | error thrown => exact RotationStage.finish_error _ _
    | none =>
        simp only [RotationStage.next, readsLive, known, revoked, ne_eq, not_true_eq_false,
          ↓reduceIte, and_self, Option.isSome_none, Bool.false_eq_true]
        refine .perform_bind rfl (fun _ now => ?_) fun _ _ => RotationStage.finish_error _ _
        by_cases expired : session.columns.expiresAt < now
        · simp only [expired, ↓reduceIte]
          exact RotationStage.finish_error _ _
        · simp only [RotationStage.next, expired, ↓reduceIte]
          exact replaceSession_follows lib cfg refreshToken session requestMeta
  · simp only [known, ne_eq, not_false_eq_true, ↓reduceIte]
    exact RotationStage.finish_error _ _

theorem rotate_follows (refreshToken : JsString) (requestMeta : RequestMeta) :
    RotationFollows lib cfg refreshToken .waiting
      (AuthTokensService.rotate lib cfg refreshToken requestMeta) := by
  refine .bind (.tryCatch ⟨rfl, fun _ verified => ?_⟩)
  cases verified with
  | error thrown => exact RotationStage.finish_error _ _
  | ok payload =>
      change RotationFollows lib cfg refreshToken (.verified payload) (ite _ _ _)
      split
      · exact RotationStage.finish_error _ _
      · refine .perform_bind rfl (fun _ found => ?_) fun _ _ => RotationStage.finish_error _ _
        cases found with
        | none => exact RotationStage.finish_error _ _
        | some session => exact checkSession_follows lib cfg refreshToken _ session requestMeta payload

/-! ## The sessions -/

theorem RefreshSession.revokeLive_isSome (revokedAt : Nat) (session : RefreshSession)
    (dead : session.revokedAt.isSome) : (session.revokeLive revokedAt).revokedAt.isSome := by
  unfold RefreshSession.revokeLive
  split
  · rfl
  · exact dead

namespace AuthWorld

/-- The session has been revoked. -/
def Revoked (world : AuthWorld) (id : JsString) : Prop :=
  ∃ session, world.sessions.find? id = some session ∧ session.revokedAt.isSome

/-- Later, a session belongs to the same user and is still revoked if it was. -/
def Succeeds (session later : RefreshSession) : Prop :=
  later.userId = session.userId ∧ (session.revokedAt.isSome → later.revokedAt.isSome)

theorem Succeeds.revokeLive (revokedAt : Nat) (session : RefreshSession) :
    Succeeds session (session.revokeLive revokedAt) := by
  refine ⟨?_, RefreshSession.revokeLive_isSome revokedAt session⟩
  unfold RefreshSession.revokeLive
  split
  · rfl
  · rfl

/-- **No call removes a session, gives it to another user, or makes it live again.** -/
theorem session_performs {lib : AuthLibraries} {world later : AuthWorld} {id : JsString}
    {session : RefreshSession} {call : AuthCall} {answer : Except AuthError call.Answer}
    (present : world.sessions.find? id = some session)
    (done : call.Performs lib world answer later) :
    ∃ other, later.sessions.find? id = some other ∧ Succeeds session other := by
  have untouched : later.sessions = world.sessions →
      ∃ other, later.sessions.find? id = some other ∧ Succeeds session other := by
    intro same
    exact ⟨session, by rw [same, present], rfl, fun revoked => revoked⟩
  cases call with
  | createSession own created =>
      simp only [AuthCall.Performs, createSession] at done
      split at done
      · rename_i fresh
        have other : id ≠ own := by
          rintro rfl
          rw [present] at fresh
          cases fresh.1
        rw [(Prod.mk.inj done).2]
        exact ⟨session, by simp only [Table.find?_insertNew, other, ↓reduceIte, present], rfl,
          fun revoked => revoked⟩
      · exact untouched (by rw [(Prod.mk.inj done).2])
  | revokeSession own revokedAt =>
      simp only [AuthCall.Performs, revokeSession] at done
      split at done
      · rw [(Prod.mk.inj done).2]
        by_cases mine : id = own
        · exact ⟨{ session with revokedAt := some revokedAt }, by simp [mine, mine ▸ present], rfl,
            fun _ => rfl⟩
        · exact ⟨session, by simp only [Table.find?_modify, mine, ↓reduceIte, present], rfl,
            fun revoked => revoked⟩
      · exact untouched (by rw [(Prod.mk.inj done).2])
  | revokeLive wanted revokedAt =>
      rw [done.2]
      refine ⟨_, by rw [revokeLive, Table.find?_modifyWhere, present]; rfl, ?_⟩
      split
      · exact .revokeLive revokedAt session
      · exact ⟨rfl, fun revoked => revoked⟩
  | revokeLiveOf userId revokedAt =>
      rw [done.2]
      refine ⟨_, by rw [revokeLiveOf, Table.find?_map, present]; rfl, ?_⟩
      change Succeeds session (ite _ _ _)
      split
      · exact .revokeLive revokedAt session
      · exact ⟨rfl, fun revoked => revoked⟩
  | randomUUID => exact untouched (by rw [show later = world from done])
  | signAsync payload secret expiresIn => exact untouched (by rw [show later = world from done])
  | generateSiweNonce =>
      obtain ⟨nonce, -, -, rfl⟩ := done
      exact untouched rfl
  | updateLastLogin address lastLoginAt =>
      simp only [AuthCall.Performs, updateLastLogin] at done
      split at done
      · exact untouched (by rw [(Prod.mk.inj done).2])
      · exact untouched (by rw [(Prod.mk.inj done).2])
  | createUser address =>
      obtain ⟨own, done⟩ := done
      simp only [createUser] at done
      split at done
      · exact untouched (by rw [(Prod.mk.inj done).2])
      · exact untouched (by rw [(Prod.mk.inj done).2])
  | dateNow => exact untouched (by rw [done.2])
  | verifyAsync token secret => exact untouched (by rw [done.2])
  | recoverMessageAddress message signature => exact untouched (by rw [done.2])
  | findSession wanted => exact untouched (by rw [done.2])
  | findUser address => exact untouched (by rw [done.2])
  | set key value seconds => exact untouched (by rw [done.2]; rfl)
  | get key => exact untouched (by rw [done.2])
  | del key => exact untouched (by rw [done.2]; rfl)

theorem Revoked.performs {lib : AuthLibraries} {world later : AuthWorld} {id : JsString}
    {call : AuthCall} {answer : Except AuthError call.Answer} (revoked : world.Revoked id)
    (done : call.Performs lib world answer later) : later.Revoked id := by
  obtain ⟨session, present, dead⟩ := revoked
  obtain ⟨other, found, -, still⟩ := session_performs present done
  exact ⟨other, found, still dead⟩

theorem Revoked.waits {world later : AuthWorld} {id : JsString} (revoked : world.Revoked id)
    (waits : world.Waits later) : later.Revoked id := by
  obtain ⟨now, -, rfl⟩ := waits
  exact revoked

/-- A session that was found is the one under the identifier. -/
theorem findSession_found {world : AuthWorld} {wanted : Option JsString} {session : SessionRow}
    (found : world.findSession wanted = .ok (some session)) :
    wanted = some session.id ∧ world.sessions.find? session.id = some session.columns := by
  cases wanted with
  | none => cases found
  | some id =>
      simp only [findSession] at found
      split at found
      · cases found
      · rename_i columns present
        split at found
        · cases found
        · cases found
          exact ⟨rfl, present⟩

/-- After an update that returned, the session is revoked. -/
theorem revoked_of_update {world later : AuthWorld} {id : JsString} {revokedAt : Nat}
    (done : (Except.ok (), later) = world.revokeSession id revokedAt) : later.Revoked id := by
  simp only [revokeSession] at done
  split at done
  · rename_i present
    obtain ⟨session, found⟩ := Option.isSome_iff_exists.mp present
    rw [(Prod.mk.inj done).2]
    exact ⟨{ session with revokedAt := some revokedAt }, by simp [found], rfl⟩
  · cases (Prod.mk.inj done).1

end AuthWorld

/-! ## Runs -/

/-- The session that a refresh token names. -/
def sessionOf (refreshToken : JsString) : Option JsString :=
  (lib.payloadOf refreshToken cfg.refreshSecret).bind TokenPayload.jti

/-- What a stage says of the token, and of the world. -/
def RotationStage.Accurate (refreshToken : JsString) (world : AuthWorld) : RotationStage → Prop
  | waiting => True
  | verified payload => lib.payloadOf refreshToken cfg.refreshSecret = some payload
  | live id _ => sessionOf lib cfg refreshToken = some id
  | current id => sessionOf lib cfg refreshToken = some id
  | rotated id => sessionOf lib cfg refreshToken = some id ∧ world.Revoked id
  | refused => True

theorem RotationStage.Accurate.mono {lib : AuthLibraries} {cfg : AuthConfig}
    {refreshToken : JsString} {world later : AuthWorld} {stage : RotationStage}
    (accurate : stage.Accurate lib cfg refreshToken world)
    (kept : ∀ id, world.Revoked id → later.Revoked id) :
    stage.Accurate lib cfg refreshToken later := by
  cases stage with
  | rotated id => exact ⟨accurate.1, kept id accurate.2⟩
  | _ => exact accurate

/-- A session read as live is not revoked. -/
theorem readsLive_found {refreshToken : JsString} {call : AuthCall}
    {answer : Except AuthError call.Answer} {session : SessionRow} {world later : AuthWorld}
    {record : List AuthCall}
    (answered : Unreliable (AuthCall.Performs lib) call world answer record later)
    (reads : readsLive lib refreshToken call answer = some session) :
    call = .findSession (some session.id) ∧ ¬ world.Revoked session.id := by
  unfold readsLive at reads
  split at reads
  · rename_i wanted found
    split at reads
    · rename_i good
      cases reads
      obtain ⟨rfl, present⟩ := AuthWorld.findSession_found answered.performed_of_ok.1.symm
      refine ⟨rfl, ?_⟩
      rintro ⟨columns, stored, dead⟩
      rw [present, Option.some.injEq] at stored
      rw [← stored, good.2] at dead
      cases dead
    · cases reads
  · cases reads

/-- A call of a rotation carries on what its stage says. -/
theorem accurate_next {refreshToken : JsString} {stage : RotationStage} {call : AuthCall}
    {answer : Except AuthError call.Answer} {record : List AuthCall} {world later : AuthWorld}
    (allowed : stage.Allowed cfg refreshToken call)
    (answered : Unreliable (AuthCall.Performs lib) call world answer record later)
    (accurate : stage.Accurate lib cfg refreshToken world) :
    (stage.next lib refreshToken call answer).Accurate lib cfg refreshToken later := by
  have still : stage.Accurate lib cfg refreshToken later :=
    accurate.mono fun _ revoked => answered.keeps revoked fun _ _ done => revoked.performs done
  by_cases revoked : ∃ id, stage = .rotated id
  · obtain ⟨id, rfl⟩ := revoked
    exact still
  cases answer with
  | error thrown =>
      rw [RotationStage.next_error lib refreshToken thrown (not_exists.mp revoked)]
      trivial
  | ok value =>
      have done := answered.performed_of_ok
      cases stage with
      | waiting =>
          obtain rfl := allowed
          exact done.1 value rfl
      | verified payload =>
          obtain rfl := allowed
          simp only [RotationStage.next]
          split
          · rename_i session reads
            have named := AuthCall.findSession.inj (readsLive_found lib answered reads).1
            exact (congrArg (Option.bind · TokenPayload.jti) accurate).trans named
          · trivial
      | live id expiresAt =>
          obtain rfl := allowed
          simp only [RotationStage.next]
          split
          · trivial
          · exact still
      | current id =>
          rcases allowed with rfl | ⟨revokedAt, rfl⟩
          · exact still
          · exact ⟨still, AuthWorld.revoked_of_update done⟩
      | rotated id => exact still
      | refused => trivial

section Run

variable {lib cfg} {initial : AuthWorld} {records : List AuthCall} {world : AuthWorld}
  {threads : List Rotating}
  {meets : System.Condition AuthCall.Answer AuthError AuthResponse AuthRequest RotationStage
    AuthWorld}

/-- The calls of a request at each stage. Only rotations have rules. -/
def AuthRequest.RotationAllowed (cfg : AuthConfig) : AuthRequest → RotationStage → AuthCall → Prop
  | .rotate refreshToken _, stage, call => stage.Allowed cfg refreshToken call
  | _, _, _ => True

def AuthRequest.RotationFinish :
    AuthRequest → RotationStage → Except AuthError AuthResponse → Prop
  | .rotate _ _, stage, outcome => stage.Finish outcome
  | _, _, _ => True

/-- Every request of a run keeps to its rules. -/
theorem rotation_follows (run : (rotationSystem lib cfg initial).Run meets records world threads) :
    ∀ thread ∈ threads, Follows ((rotationSystem lib cfg initial).next thread.request)
      (thread.request.RotationAllowed cfg) thread.request.RotationFinish thread.stage
        thread.task := by
  refine run.follows fun request => ?_
  cases request with
  | rotate refreshToken requestMeta =>
      refine .bind (Follows.mono (rotate_follows lib cfg refreshToken requestMeta) ?_)
      intro reached outcome finished
      cases outcome with
      | ok result => exact fun _ _ => finished result rfl
      | error thrown => exact RotationStage.finish_error _ _
  | requestNonce | verify | revoke =>
      exact .of_callsOnly (.unrestricted _) (fun _ _ => trivial) (fun _ _ _ _ => rfl)
        fun _ => trivial

/-- What a request's stage says of the world. A request that is no rotation stays where
it was. -/
def AuthRequest.RotationAccurate (lib : AuthLibraries) (cfg : AuthConfig) (world : AuthWorld) :
    AuthRequest → RotationStage → Prop
  | .rotate refreshToken _, stage => stage.Accurate lib cfg refreshToken world
  | _, stage => stage = .waiting

theorem AuthRequest.RotationAccurate.mono {request : AuthRequest} {stage : RotationStage}
    {world later : AuthWorld} (accurate : request.RotationAccurate lib cfg world stage)
    (kept : ∀ id, world.Revoked id → later.Revoked id) :
    request.RotationAccurate lib cfg later stage := by
  cases request with
  | rotate refreshToken requestMeta => exact RotationStage.Accurate.mono accurate kept
  | requestNonce | verify | revoke => exact accurate

/-- What a request's stage says is so throughout a run. -/
theorem rotation_accurate (run : (rotationSystem lib cfg initial).Run meets records world threads) :
    ∀ thread ∈ threads, thread.request.RotationAccurate lib cfg world thread.stage := by
  refine run.each (fun world thread =>
    thread.request.RotationAccurate lib cfg world thread.stage) ?_ ?_ ?_ ?_
  · intro world request
    cases request with
    | rotate refreshToken requestMeta => trivial
    | requestNonce | verify | revoke => rfl
  · intro world later thread waits accurate
    exact accurate.mono fun _ revoked => revoked.waits waits
  · intro world threads position request stage call continued answer record later turn accurate
    obtain ⟨earlier, before⟩ := turn.before
    have allowed := (rotation_follows before _ (List.mem_of_getElem? turn.found)).1
    cases request with
    | rotate refreshToken requestMeta =>
        exact accurate_next lib cfg allowed turn.answered accurate
    | requestNonce | verify | revoke => exact accurate
  · intro world threads position request stage call continued answer record later thread turn
      member accurate
    exact accurate.mono fun _ revoked =>
      turn.answered.keeps revoked fun _ _ done => revoked.performs done

/-- A session is held by at most one rotation. -/
theorem holds_exclusive (run : (rotationSystem lib cfg initial).Run (NoSecondReader lib) records
      world threads) (id : JsString) :
    ∀ (i j : Nat) (first second : Rotating), threads[i]? = some first →
      threads[j]? = some second → first.stage.holds id = true → second.stage.holds id = true →
        i = j := by
  refine run.exclusive (fun _ stage => stage.holds id = true) (fun _ => Bool.false_ne_true) ?_
  intro world threads position request stage call continued answer record later turn outside
    inside other member within
  rw [Bool.not_eq_true] at outside
  obtain ⟨earlier, before⟩ := turn.before
  cases request with
  | rotate refreshToken requestMeta =>
      obtain ⟨session, reads, rfl⟩ := RotationStage.holds_next lib outside inside
      have unread := turn.met _ refreshToken requestMeta session turn.found rfl reads other member
      obtain ⟨-, live⟩ := readsLive_found lib turn.answered reads
      -- the other rotation has not read the session, so that it has revoked it
      have accurate := rotation_accurate before other member
      obtain ⟨otherRequest, otherStage, otherTask⟩ := other
      rcases RotationStage.holds_cases within with rfl | pending
      · cases otherRequest with
        | rotate otherToken otherMeta => exact live accurate.2
        | requestNonce | verify | revoke => cases accurate
      · rw [unread] at pending
        cases pending
  | requestNonce | verify | revoke => exact absurd inside (Bool.not_eq_true _ ▸ outside)

/-- The request is a rotation of the token that has returned a new pair. -/
def Returned (refreshToken : JsString) (thread : Rotating) : Prop :=
  ∃ requestMeta result, thread.request = .rotate refreshToken requestMeta ∧
    thread.task = .done (.ok (.rotated result))

/-- A rotation that returned holds the session of its token. -/
theorem holds_of_returned {refreshToken : JsString}
    (run : (rotationSystem lib cfg initial).Run meets records world threads) {thread : Rotating}
    (member : thread ∈ threads) (returned : Returned refreshToken thread) :
    ∃ id, sessionOf lib cfg refreshToken = some id ∧ thread.stage.holds id = true := by
  obtain ⟨requestMeta, result, rotates, finished⟩ := returned
  have follows := rotation_follows run thread member
  have accurate := rotation_accurate run thread member
  obtain ⟨request, stage, task⟩ := thread
  obtain rfl : request = _ := rotates
  obtain rfl : task = _ := finished
  obtain ⟨id, rfl⟩ := follows _ rfl
  exact ⟨id, accurate.1, decide_eq_true rfl⟩

/-- **A refresh token is single-use** in every run in which no rotation reads a session
as live while another has read it and is yet to revoke it. -/
theorem rotation_singleUse (refreshToken : JsString)
    (run : (rotationSystem lib cfg initial).Run (NoSecondReader lib) records world threads)
    (i j : Nat) (first second : Rotating) (foundFirst : threads[i]? = some first)
    (foundSecond : threads[j]? = some second) (returnedFirst : Returned refreshToken first)
    (returnedSecond : Returned refreshToken second) : i = j := by
  obtain ⟨id, named, holdsFirst⟩ :=
    holds_of_returned run (List.mem_of_getElem? foundFirst) returnedFirst
  obtain ⟨other, namedOther, holdsSecond⟩ :=
    holds_of_returned run (List.mem_of_getElem? foundSecond) returnedSecond
  obtain rfl : id = other := Option.some.inj (named.symm.trans namedOther)
  exact holds_exclusive run id i j first second foundFirst foundSecond holdsFirst holdsSecond

end Run

/-! ## Two rotations of one token -/

/-- Libraries under which every token is a refresh token of one session. -/
def oneSessionLibraries : AuthLibraries where
  sha256 := id
  payloadOf _ _ := some { sub := [1], jti := some [2], type := AuthTokensService.refresh }
  getAddress := id
  createSiweMessage _ := none
  parseSiweMessage _ := none
  recovered _ _ := none
  host := id

def oneSessionConfig : AuthConfig where
  accessSecret := []
  refreshSecret := []
  accessTtl := JsString.ascii "900s"
  refreshTtl := JsString.ascii "30d"
  nonceTtlSeconds := 300
  chainId := 1
  siweStatement := []
  url := []

/-- One user and one live session, whose token is `[3]`. -/
def oneSession : AuthWorld where
  sessions := Table.empty.insertNew [2] { userId := [1], tokenHash := [3], expiresAt := 10 }
  users := Table.empty.insertNew [1] { address := [4] }
  cache _ := none
  now := 5
  generated := []

abbrev oneSessionSystem :
    System AuthCall.Answer AuthError AuthResponse AuthRequest RotationStage AuthWorld AuthCall :=
  rotationSystem oneSessionLibraries oneSessionConfig oneSession

/-- The check of `NoSecondReader` on one call. -/
def noSecondReader (lib : AuthLibraries) (threads : List Rotating) (position : Nat)
    (call : AuthCall) (answer : Except AuthError call.Answer) : Bool :=
  match threads[position]? with
  | some ⟨.rotate refreshToken _, _, _⟩ =>
      match readsLive lib refreshToken call answer with
      | some session => threads.all fun other => !other.stage.pending session.id
      | none => true
  | _ => true

theorem noSecondReader_sound {threads : List Rotating} {position : Nat} {call : AuthCall}
    {answer : Except AuthError call.Answer} (world : AuthWorld)
    (checked : noSecondReader lib threads position call answer = true) :
    NoSecondReader lib world threads position call answer := by
  rintro ⟨request, stage, task⟩ refreshToken requestMeta session found rotates reads other member
  obtain rfl : request = _ := rotates
  simp only [noSecondReader, found, reads, List.all_eq_true, Bool.not_eq_true'] at checked
  exact checked other member

/-- Two rotations of the token, the second presented while the first is under way, and
their calls in some order. -/
def twoRotations (order : List Nat) : List (System.Move AuthRequest) :=
  .arrive (.rotate [3] {}) :: .arrive (.rotate [3] {}) :: order.map .call

/-- Both read the session, then each revokes it and issues a pair. -/
def bothRead : List Nat := [0, 1, 0, 0, 0, 1, 1, 1] ++ List.replicate 6 0 ++ List.replicate 6 1

/-- The second reads the session after the first is done. -/
def oneAfterTheOther : List Nat := List.replicate 10 0 ++ List.replicate 4 1

/-- The request and whether it has returned a new pair. -/
def Rotating.summary (thread : Rotating) : AuthRequest × Bool :=
  (thread.request,
    match thread.task.outcome? with
    | some (.ok (.rotated _)) => true
    | _ => false)

theorem returned_of_summary {thread : Rotating} {refreshToken : JsString}
    {requestMeta : RequestMeta}
    (summary : Rotating.summary thread = (.rotate refreshToken requestMeta, true)) :
    Returned refreshToken thread := by
  obtain ⟨rotates, returned⟩ := Prod.mk.inj summary
  refine ⟨requestMeta, ?_⟩
  split at returned
  · rename_i result finished
    exact ⟨result, rotates, Async.eq_done_of_outcome? finished⟩
  · cases returned


/-- **Two concurrent rotations of one token both return a new pair.** -/
theorem rotation_not_singleUse :
    ¬ ∀ records world threads,
      oneSessionSystem.Run System.unconstrained records world threads →
        ∀ (i j : Nat) (first second : Rotating), threads[i]? = some first →
          threads[j]? = some second → Returned [3] first → Returned [3] second → i = j := by
  intro singleUse
  have computed : (oneSessionSystem.play (AuthCall.respond oneSessionLibraries)
      (fun call _ => [call]) (fun _ _ _ _ _ => true) (twoRotations bothRead)
      oneSessionSystem.standing).map (fun reached => reached.threads.map Rotating.summary) =
        some [(.rotate [3] {}, true), (.rotate [3] {}, true)] := by decide +kernel
  obtain ⟨reached, played, summaries⟩ := Option.map_eq_some_iff.mp computed
  have run : oneSessionSystem.Run System.unconstrained reached.records reached.world
      reached.threads :=
    System.run_of_play oneSessionSystem _ _ _
      (fun world _ _ call _ =>
        ⟨.performed (AuthCall.respond_performs oneSessionLibraries call world), trivial⟩)
      _ .start played
  obtain ⟨first, rest, threads, firstDone, others⟩ := List.map_eq_cons_iff.mp summaries
  obtain ⟨second, none, rfl, secondDone, -⟩ := List.map_eq_cons_iff.mp others
  have same := singleUse _ _ _ run 0 1 first second (by rw [threads]; rfl) (by rw [threads]; rfl)
    (returned_of_summary firstDone) (returned_of_summary secondDone)
  cases same

/-- Presented again after it was rotated, a token is refused. -/
theorem rotation_singleUse_twice :
    ∃ records world threads first,
      oneSessionSystem.Run (NoSecondReader oneSessionLibraries) records world threads ∧
        threads.length = 2 ∧ threads[0]? = some first ∧ Returned [3] first ∧
        ∀ (j : Nat) (second : Rotating), threads[j]? = some second → Returned [3] second →
          0 = j := by
  have computed : (oneSessionSystem.play (AuthCall.respond oneSessionLibraries)
      (fun call _ => [call]) (fun _ => noSecondReader oneSessionLibraries)
      (twoRotations oneAfterTheOther) oneSessionSystem.standing).map
        (fun reached => reached.threads.map Rotating.summary) =
        some [(.rotate [3] {}, true), (.rotate [3] {}, false)] := by decide +kernel
  obtain ⟨reached, played, summaries⟩ := Option.map_eq_some_iff.mp computed
  have run : oneSessionSystem.Run (NoSecondReader oneSessionLibraries) reached.records
      reached.world reached.threads :=
    System.run_of_play oneSessionSystem _ _ _
      (fun world _ _ call passed =>
        ⟨.performed (AuthCall.respond_performs oneSessionLibraries call world),
          noSecondReader_sound oneSessionLibraries world passed⟩) _ .start played
  have both := congrArg List.length summaries
  rw [List.length_map] at both
  obtain ⟨first, rest, threads, firstDone, -⟩ := List.map_eq_cons_iff.mp summaries
  have found : reached.threads[0]? = some first := by rw [threads]; rfl
  have returned := returned_of_summary firstDone
  exact ⟨_, _, _, first, run, both, found, returned, fun j second foundSecond returnedSecond =>
    rotation_singleUse [3] run 0 j first second found foundSecond returned returnedSecond⟩

end Numera
