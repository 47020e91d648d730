import Numera.Auth.Rotation
import Numera.Foundation.Traces

/-! # Nonces and sign-ins

A nonce is stored under the address it was requested for. A sign-in reads it, compares it with
the one its message carries, and deletes it whether or not it is still there, so that two
sign-ins with one message that both read before either deletes both succeed
(`nonce_not_consumed`). In every run in which no sign-in matches a nonce that another has
matched and not yet deleted, the sign-ins that succeed belong to different requests for a nonce
of their address, each before its sign-in and within its time to live (`nonce_consumed`).
-/

namespace Numera

open Async (CallsOnly Follows Moment System Thread Unreliable)

variable (lib : AuthLibraries) (cfg : AuthConfig)

/-! ## Stages -/

/-- The address and the nonce that the message of a sign-in carries. -/
def AuthRequest.claimed : AuthRequest → Option (JsString × JsString)
  | verify message _ _ => do
      let fields ← lib.parseSiweMessage message
      let address ← truthy fields.address
      let nonce ← truthy fields.nonce
      return (address.toLowerCase, nonce)
  | _ => none

/-- How far a request for a nonce or a sign-in has come. -/
inductive NonceStage where
  | idle
  | drawn (nonce : JsString)
  | stored (nonce : JsString)
  | matched (address nonce : JsString)
  | consumed (address nonce : JsString)
  deriving DecidableEq

namespace NonceStage

/-- The stage after a call. -/
def next (request : AuthRequest) (stage : NonceStage) (_ : AuthWorld) (call : AuthCall)
    (answer : Except AuthError call.Answer) : NonceStage :=
  match call, answer, stage with
  | .generateSiweNonce, .ok nonce, _ => drawn nonce
  | .set _ _ _, _, drawn nonce => stored nonce
  | .get _, .ok found, stage =>
      match request.claimed lib with
      | some (address, nonce) => if truthy found = some nonce then matched address nonce else stage
      | none => stage
  | .del _, .ok _, matched address nonce => consumed address nonce
  | .del _, .error _, matched _ _ => idle
  | _, _, stage => stage

/-- The nonce is the request's own. -/
def Owns (nonce : JsString) (stage : NonceStage) : Prop :=
  stage = drawn nonce ∨ stage = stored nonce

/-- The nonce has been matched, and may have been deleted. -/
def Holds (address nonce : JsString) (stage : NonceStage) : Prop :=
  stage = matched address nonce ∨ stage = consumed address nonce

/-- The calls a request makes at a stage. -/
def Allowed (request : AuthRequest) (stage : NonceStage) : AuthCall → Prop
  | .generateSiweNonce => stage = idle
  | .set key value seconds =>
      stage = drawn value ∧ seconds = cfg.nonceTtlSeconds ∧ ∃ rawAddress address,
        request = .requestNonce rawAddress ∧ AuthService.normalizeAddress rawAddress = .ok address ∧
          key = AuthService.nonceKey address
  | .get key => stage = idle ∧ ∃ address nonce, request.claimed lib = some (address, nonce) ∧
      key = AuthService.nonceKey address
  | .del key => ∃ address nonce, stage = matched address nonce ∧ key = AuthService.nonceKey address
  | _ => True

/-- A sign-in succeeds only when it has deleted the nonce its message carries. -/
def Finish (request : AuthRequest) (stage : NonceStage) (outcome : Except AuthError AuthResponse) :
    Prop :=
  ∀ result, outcome = .ok (.authenticated result) → ∃ address nonce,
    request.claimed lib = some (address, nonce) ∧ stage = consumed address nonce

end NonceStage

/-- A world in which no nonce has been requested. -/
def AuthWorld.opening (sessions : Table JsString RefreshSession) (users : Table JsString User)
    (now : Nat) : AuthWorld where
  sessions
  users
  cache _ := none
  now
  generated := []

/-- The services, with the stages of their requests. -/
abbrev nonceSystem (sessions : Table JsString RefreshSession) (users : Table JsString User)
    (now : Nat) :
    System AuthCall.Answer AuthError AuthResponse AuthRequest NonceStage AuthWorld AuthCall :=
  authSystem lib cfg (.opening sessions users now) (fun _ => .idle) (NonceStage.next lib)

/-- The requests under way. -/
abbrev Signing : Type := Thread AuthCall.Answer AuthError AuthResponse AuthRequest NonceStage

/-- No sign-in matches a nonce that another has matched and not yet deleted. -/
def MatchesAlone :
    System.Condition AuthCall.Answer AuthError AuthResponse AuthRequest NonceStage AuthWorld :=
  fun world threads position call answer => ∀ thread address nonce,
    threads[position]? = some thread →
      thread.stage.next lib thread.request world call answer = .matched address nonce →
        ∀ other ∈ threads, other.stage ≠ .matched address nonce

/-! ## One request -/

/-- A call that has nothing to do with nonces. -/
def AuthCall.plain : AuthCall → Bool
  | generateSiweNonce | set _ _ _ | get _ | del _ => false
  | _ => true

theorem NonceStage.next_plain (request : AuthRequest) (stage : NonceStage) (world : AuthWorld)
    {call : AuthCall} (plain : call.plain = true) (answer : Except AuthError call.Answer) :
    stage.next lib request world call answer = stage := by
  cases call <;> first | rfl | cases plain

theorem NonceStage.allowed_plain (request : AuthRequest) (stage : NonceStage) {call : AuthCall}
    (plain : call.plain = true) : stage.Allowed lib cfg request call := by
  cases call <;> trivial

section Plain

/-- The calls have nothing to do with nonces. -/
abbrev Plain {α : Type} (task : Auth α) : Prop := task.CallsOnly fun call => call.plain = true

theorem plain_issue (userId address : JsString) (requestMeta : RequestMeta) :
    Plain (AuthTokensService.issue lib cfg userId address requestMeta) :=
  .bind (.perform rfl) fun _ => .bind (.perform rfl) fun _ => .bind (.perform rfl) fun _ =>
    .bind (.bind (.perform rfl) fun _ => trivial) fun _ => .bind (.perform rfl) fun _ => trivial

theorem plain_signIn (address : JsString) (requestMeta : RequestMeta) :
    Plain (AuthService.signIn lib cfg address requestMeta) := by
  have issued : ∀ (existing : Option UserRow) (user : UserRow), Plain (do
      let tokens ← AuthTokensService.issue lib cfg user.id user.columns.address requestMeta
      return ({ isNewUser := existing.isNone, user, tokens } : AuthResult)) :=
    fun _ _ => .bind (plain_issue lib cfg _ _ requestMeta) fun _ => trivial
  refine .bind (.perform rfl) fun existing => ?_
  cases existing with
  | none => exact .bind (.perform rfl) (issued none)
  | some row => exact .bind (.perform rfl) fun now => .bind (.perform rfl) (issued (some row))

theorem plain_rotate (refreshToken : JsString) (requestMeta : RequestMeta) :
    Plain (AuthTokensService.rotate lib cfg refreshToken requestMeta) := by
  refine .bind (.tryCatch (.perform rfl) fun _ => trivial) fun payload => ?_
  split
  · exact trivial
  · refine .bind (.perform rfl) fun found => ?_
    cases found with
    | none => exact trivial
    | some session =>
        change CallsOnly _ (if _ then _ else _)
        split
        · exact trivial
        · split
          · exact .bind (.bind (.perform rfl) fun _ => .perform rfl) fun _ => trivial
          · refine .bind (.perform rfl) fun now => ?_
            split
            · exact trivial
            · exact .bind (.perform rfl) fun _ => .bind (.perform rfl) fun _ =>
                .bind (plain_issue lib cfg _ _ requestMeta) fun _ => trivial

theorem plain_revoke (refreshToken : JsString) :
    Plain (AuthTokensService.revoke cfg refreshToken) := by
  refine .bind (.tryCatch (.bind (.perform rfl) fun _ => trivial) fun _ => trivial) fun found => ?_
  cases found with
  | none => exact trivial
  | some payload => exact .bind (.perform rfl) fun _ => .perform rfl

end Plain

/-- A computation that keeps to the stages of a request, and ends as required. -/
abbrev NonceFollows {α : Type} (request : AuthRequest)
    (finish : NonceStage → Except AuthError α → Prop) (stage : NonceStage) (task : Auth α) : Prop :=
  Follows (fun reached => reached.next lib request) (NonceStage.Allowed lib cfg request) finish
    stage task

section Follows

variable {lib cfg} {α β : Type} {request : AuthRequest}

theorem NonceStage.finish_error (stage : NonceStage) (thrown : AuthError) :
    stage.Finish lib request (.error thrown) := fun _ same => by cases same

/-- A part that has nothing to do with nonces, and what follows it. -/
theorem plain_bind {finish : NonceStage → Except AuthError α → Prop} {stage : NonceStage}
    {task : Auth β} {rest : β → Auth α} (plain : Plain task)
    (follows : ∀ value, NonceFollows lib cfg request finish stage (rest value))
    (thrown : ∀ error, finish stage (.error error)) :
    NonceFollows lib cfg request finish stage (task >>= rest) :=
  .neutral_bind plain (fun _ => stage.allowed_plain lib cfg request)
    (fun _ member world => stage.next_plain lib request world member) follows thrown

/-- A prepared message carries the nonce the request has drawn. -/
theorem prepare_follows (address : JsString) :
    NonceFollows lib cfg request
      (fun stage outcome => ∀ prepared, outcome = .ok prepared → stage = .drawn prepared.nonce)
      .idle (SiweService.prepare lib cfg address) := by
  refine .perform_bind rfl (fun _ nonce => ?_) fun _ _ _ same => by cases same
  change NonceFollows lib cfg request _ (.drawn nonce) _
  refine plain_bind (.perform rfl) (fun issuedAt => ?_) fun _ _ same => by cases same
  dsimp only
  split
  · exact fun _ same => by cases same
  · rintro prepared same
    obtain rfl := Except.ok.inj same
    rfl

theorem requestNonce_follows (rawAddress : JsString) :
    NonceFollows lib cfg (.requestNonce rawAddress)
      (NonceStage.Finish lib (.requestNonce rawAddress)) .idle
      ((AuthRequest.requestNonce rawAddress).start lib cfg) := by
  have prepared : ∀ (stage : NonceStage) (outcome : Except AuthError NonceResult),
      NonceFollows lib cfg (.requestNonce rawAddress)
        (NonceStage.Finish lib (.requestNonce rawAddress)) stage
        (Async.done outcome >>= fun result => pure (.prepared result)) := by
    rintro stage (thrown | result)
    · exact stage.finish_error thrown
    · exact fun _ same => by cases same
  refine .bind ?_
  unfold AuthService.requestNonce
  cases normalized : AuthService.normalizeAddress rawAddress with
  | error thrown => exact prepared .idle (.error thrown)
  | ok address =>
      refine .bind (.mono (prepare_follows _) fun stage outcome drawn => ?_)
      cases outcome with
      | error thrown => exact prepared stage (.error thrown)
      | ok message =>
          obtain rfl := drawn message rfl
          exact .perform_bind ⟨rfl, rfl, rawAddress, address, rfl, normalized, rfl⟩
            (fun _ _ => prepared _ (.ok _)) fun _ thrown => prepared _ (.error thrown)

/-- A good message claims its address and its nonce, and the calls that verify it move no stage
that the clock and the recovery of an address leave where it is. -/
theorem siwe_follows {S : Type} {next : S → AuthWorld → (call : AuthCall) →
      Except AuthError call.Answer → S} {allowed : S → AuthCall → Prop} {stage : S}
    (clock : allowed stage .dateNow ∧ ∀ world answer, next stage world .dateNow answer = stage)
    (recovers : ∀ message signature, allowed stage (.recoverMessageAddress message signature) ∧
      ∀ world answer, next stage world (.recoverMessageAddress message signature) answer = stage)
    (message signature : JsString) (requestMeta : RequestMeta) :
    Follows next allowed
      (fun reached outcome => reached = stage ∧
        ∀ address nonce, outcome = .ok (.ok address nonce) →
          (AuthRequest.verify message signature requestMeta).claimed lib = some (address, nonce))
      stage (SiweService.verify lib cfg message signature) := by
  have thrown : ∀ error, (stage = stage ∧ ∀ address nonce,
      (Except.error error : Except AuthError SiweVerification) = .ok (.ok address nonce) →
        (AuthRequest.verify message signature requestMeta).claimed lib = some (address, nonce)) :=
    fun _ => ⟨rfl, fun _ _ same => by cases same⟩
  have refused : ∀ reason, (stage = stage ∧ ∀ address nonce,
      (Except.ok (.refused reason) : Except AuthError SiweVerification) = .ok (.ok address nonce) →
        (AuthRequest.verify message signature requestMeta).claimed lib = some (address, nonce)) :=
    fun _ => ⟨rfl, fun _ _ same => by cases same⟩
  unfold SiweService.verify
  split
  · exact refused _
  · rename_i fields parsed
    split
    · exact refused _
    · exact refused _
    · rename_i address nonce named numbered
      split
      · exact refused _
      · split
        · exact refused _
        · refine .neutral_bind (CallsOnly.perform (rfl : (· = AuthCall.dateNow) .dateNow))
            (fun _ same => same ▸ clock.1) (fun _ same => same ▸ clock.2) (fun now => ?_) thrown
          split
          · exact refused _
          · refine .neutral_bind (.tryCatch (.bind (.perform
              (rfl : (· = AuthCall.recoverMessageAddress message signature) _)) fun _ => trivial)
                fun _ => trivial)
              (fun _ same => same ▸ (recovers message signature).1)
              (fun _ same => same ▸ (recovers message signature).2) (fun recovered => ?_) thrown
            split
            · exact refused _
            · split
              · exact refused _
              · refine ⟨rfl, fun _ _ same => ?_⟩
                obtain ⟨rfl, rfl⟩ := SiweVerification.ok.inj (Except.ok.inj same)
                simp [AuthRequest.claimed, parsed, named, numbered]

/-- A sign-in reads the nonce of its address at the start and deletes it when it matches. -/
theorem verify_follows (message signature : JsString) (requestMeta : RequestMeta) :
    NonceFollows lib cfg (.verify message signature requestMeta)
      (NonceStage.Finish lib (.verify message signature requestMeta)) .idle
      ((AuthRequest.verify message signature requestMeta).start lib cfg) := by
  have thrown : ∀ (stage : NonceStage) (error : AuthError),
      stage.Finish lib (.verify message signature requestMeta) (.error error) :=
    fun stage => stage.finish_error
  refine .bind (.bind (.mono (siwe_follows ⟨trivial, fun _ _ => rfl⟩
    (fun _ _ => ⟨trivial, fun _ _ => rfl⟩) message signature requestMeta) ?_))
  rintro stage (error | verification) ⟨rfl, claims⟩
  · exact thrown _ error
  · cases verification with
    | refused reason => exact thrown _ _
    | ok address nonce =>
        have claimed := claims address nonce rfl
        refine .perform_bind ⟨rfl, address, nonce, claimed, rfl⟩ (fun world found => ?_)
          fun _ error => thrown _ error
        change Follows _ _ _ (NonceStage.next lib _ .idle world (.get _) (.ok found))
          (if truthy found ≠ some nonce then _ else _)
        simp only [NonceStage.next, claimed]
        by_cases same : truthy found = some nonce
        · rw [if_pos same, if_neg (not_not_intro same)]
          refine .perform_bind ⟨address, nonce, rfl, rfl⟩ (fun _ _ => ?_) fun _ => thrown _
          refine .of_callsOnly (plain_signIn lib cfg address requestMeta)
            (fun _ => NonceStage.allowed_plain lib cfg _ _)
            (fun _ member world => NonceStage.next_plain lib _ _ world member) ?_
          rintro (error | result)
          · exact thrown _ error
          · exact fun _ _ => ⟨address, nonce, claimed, rfl⟩
        · rw [if_neg same, if_pos same]
          exact thrown _ _

/-- Every request keeps to the stages. -/
theorem nonce_follows (request : AuthRequest) :
    NonceFollows lib cfg request (NonceStage.Finish lib request) .idle (request.start lib cfg) := by
  cases request with
  | requestNonce rawAddress => exact requestNonce_follows rawAddress
  | verify message signature requestMeta => exact verify_follows message signature requestMeta
  | rotate refreshToken requestMeta =>
      refine plain_bind (plain_rotate lib cfg refreshToken requestMeta) (fun _ => ?_)
        fun error => NonceStage.finish_error _ error
      exact fun _ same => by cases same
  | revoke refreshToken =>
      refine plain_bind (plain_revoke cfg refreshToken) (fun _ => ?_)
        fun error => NonceStage.finish_error _ error
      exact fun _ same => by cases same

end Follows

/-! ## Redis -/

section Redis

variable {lib} {world later : AuthWorld} {call : AuthCall} {answer : Except AuthError call.Answer}

/-- Redis changes with a `SET` and a `DEL` only, and the nonces generated with a new one. -/
theorem AuthCall.Performs.nonces_cases (done : call.Performs lib world answer later) :
    (later.cache = world.cache ∧ later.generated = world.generated) ∨
      (∃ nonce, nonce ∉ world.generated ∧
        later = { world with generated := nonce :: world.generated }) ∨
      (∃ key value seconds, call = .set key value seconds ∧ later = world.set key value seconds) ∨
      ∃ key, call = .del key ∧ later = world.del key := by
  cases call with
  | generateSiweNonce =>
      obtain ⟨nonce, fresh, -, rfl⟩ := done
      exact .inr (.inl ⟨nonce, fresh, rfl⟩)
  | set key value seconds => exact .inr (.inr (.inl ⟨key, value, seconds, rfl, done.2⟩))
  | del key => exact .inr (.inr (.inr ⟨key, rfl, done.2⟩))
  | createSession id session =>
      simp only [AuthCall.Performs, AuthWorld.createSession] at done
      split at done <;> rw [(Prod.mk.inj done).2] <;> exact .inl ⟨rfl, rfl⟩
  | revokeSession id revokedAt =>
      simp only [AuthCall.Performs, AuthWorld.revokeSession] at done
      split at done <;> rw [(Prod.mk.inj done).2] <;> exact .inl ⟨rfl, rfl⟩
  | updateLastLogin address lastLoginAt =>
      simp only [AuthCall.Performs, AuthWorld.updateLastLogin] at done
      split at done <;> rw [(Prod.mk.inj done).2] <;> exact .inl ⟨rfl, rfl⟩
  | createUser address =>
      obtain ⟨id, done⟩ := done
      simp only [AuthWorld.createUser] at done
      split at done <;> rw [(Prod.mk.inj done).2] <;> exact .inl ⟨rfl, rfl⟩
  | randomUUID | signAsync =>
      obtain rfl : later = world := done
      exact .inl ⟨rfl, rfl⟩
  | _ =>
      obtain ⟨-, rfl⟩ := done
      exact .inl ⟨rfl, rfl⟩

/-- Generated nonces stay generated. -/
theorem AuthCall.Performs.generated_mono (done : call.Performs lib world answer later)
    {nonce : JsString} (member : nonce ∈ world.generated) : nonce ∈ later.generated := by
  rcases done.nonces_cases with ⟨-, same⟩ | ⟨other, -, rfl⟩ | ⟨key, value, seconds, -, rfl⟩ |
    ⟨key, -, rfl⟩
  · rwa [same]
  · exact List.mem_cons_of_mem other member
  · exact member
  · exact member

/-- What is in Redis after a call was there before, unless the call has stored it. -/
theorem AuthCall.Performs.cache_found (done : call.Performs lib world answer later)
    {key : JsString} {entry : CacheEntry} (found : later.cache key = some entry) :
    world.cache key = some entry ∨
      ∃ seconds, call = .set key entry.value seconds ∧
        entry.expiresAt = world.now + seconds * 1000 := by
  rcases done.nonces_cases with ⟨same, -⟩ | ⟨other, -, rfl⟩ | ⟨own, value, seconds, rfl, rfl⟩ |
    ⟨own, -, rfl⟩
  · rw [same] at found
    exact .inl found
  · exact .inl found
  · simp only [AuthWorld.set] at found
    split at found
    · rename_i here
      obtain rfl := Option.some.inj found
      exact .inr ⟨seconds, by rw [here], rfl⟩
    · exact .inl found
  · simp only [AuthWorld.del] at found
    split at found
    · cases found
    · exact .inl found

/-- What is in Redis after a call, answered or not. -/
theorem cache_of_answered {record : List AuthCall}
    (answered : Unreliable (AuthCall.Performs lib) call world answer record later)
    {key : JsString} {entry : CacheEntry} (found : later.cache key = some entry) :
    world.cache key = some entry ∨
      ∃ seconds, call = .set key entry.value seconds ∧
        entry.expiresAt = world.now + seconds * 1000 := by
  cases answered with
  | performed done => exact done.cache_found found
  | refused => exact .inl found
  | lost _ done => exact done.cache_found found

/-- The entry that a `GET` has read. -/
theorem AuthWorld.entry_of_get {key value : JsString} (read : world.get key = some value) :
    ∃ entry, world.cache key = some entry ∧ entry.value = value ∧ world.now < entry.expiresAt := by
  unfold AuthWorld.get at read
  split at read
  · cases read
  · rename_i entry found
    split at read
    · rename_i current
      exact ⟨entry, found, Option.some.inj read, current⟩
    · cases read

end Redis

/-! ## Stages of a run -/

/-- The nonce that a call draws. -/
def AuthCall.draws : (call : AuthCall) → Except AuthError call.Answer → Option JsString
  | generateSiweNonce, .ok nonce => some nonce
  | _, _ => none

/-- The key under which a call finds a value, and the value. -/
def AuthCall.reads :
    (call : AuthCall) → Except AuthError call.Answer → Option (JsString × JsString)
  | get key, .ok (some value) => some (key, value)
  | _, _ => none

/-- The key that a call is known to have deleted. -/
def AuthCall.deletes : (call : AuthCall) → Except AuthError call.Answer → Option JsString
  | del key, .ok _ => some key
  | _, _ => none

/-- What a call does to the stage of its request. -/
inductive NonceStage.Moves (request : AuthRequest) (stage : NonceStage) (call : AuthCall)
    (answer : Except AuthError call.Answer) : NonceStage → Prop where
  | stays : Moves request stage call answer stage
  | draws {nonce} (drawn : call.draws answer = some nonce) :
      Moves request stage call answer (.drawn nonce)
  | stores {nonce key value seconds} (before : stage = .drawn nonce)
      (stored : call = .set key value seconds) : Moves request stage call answer (.stored nonce)
  | matches {key address nonce} (read : call.reads answer = some (key, nonce))
      (claimed : request.claimed lib = some (address, nonce)) :
      Moves request stage call answer (.matched address nonce)
  | consumes {key address nonce} (before : stage = .matched address nonce)
      (deleted : call.deletes answer = some key) :
      Moves request stage call answer (.consumed address nonce)
  | fails {address nonce} (before : stage = .matched address nonce) :
      Moves request stage call answer .idle

namespace NonceStage

variable {lib} {request : AuthRequest} {stage : NonceStage} {world : AuthWorld} {call : AuthCall}
  {answer : Except AuthError call.Answer} {address nonce : JsString}

theorem truthy_eq_some {field : Option JsString} (same : truthy field = some nonce) :
    field = some nonce := by
  unfold truthy at same
  split at same
  · cases same
  · exact same

variable (lib) in
theorem moves_next (request : AuthRequest) (stage : NonceStage) (world : AuthWorld)
    (call : AuthCall) (answer : Except AuthError call.Answer) :
    Moves lib request stage call answer (stage.next lib request world call answer) := by
  cases call with
  | generateSiweNonce =>
      cases answer with
      | error thrown => exact .stays
      | ok nonce => exact .draws rfl
  | set key value seconds =>
      cases stage with
      | drawn nonce => exact .stores rfl rfl
      | _ => exact .stays
  | get key =>
      cases answer with
      | error thrown => exact .stays
      | ok found =>
          simp only [next]
          split
          · rename_i address nonce claimed
            split
            · rename_i same
              obtain rfl := truthy_eq_some same
              exact .matches rfl claimed
            · exact .stays
          · exact .stays
  | del key =>
      cases stage with
      | matched address nonce =>
          cases answer with
          | error thrown => exact .fails rfl
          | ok _ => exact .consumes rfl rfl
      | _ => cases answer <;> exact .stays
  | _ => exact .stays

namespace Moves

variable {later : NonceStage}

/-- A request comes by its nonce only by drawing it. -/
theorem owns (moves : Moves lib request stage call answer later) (owned : later.Owns nonce) :
    stage.Owns nonce ∨ call.draws answer = some nonce := by
  cases moves with
  | stays => exact .inl owned
  | draws drawn =>
      rcases owned with same | same
      · obtain rfl := NonceStage.drawn.inj same
        exact .inr drawn
      · cases same
  | stores before stored =>
      rcases owned with same | same
      · cases same
      · obtain rfl := NonceStage.stored.inj same
        exact .inl (.inl before)
  | «matches» | consumes | fails => rcases owned with same | same <;> cases same

/-- A sign-in comes to hold a nonce only by reading the one its message carries. -/
theorem holds (moves : Moves lib request stage call answer later)
    (held : later.Holds address nonce) :
    stage.Holds address nonce ∨ ∃ key, call.reads answer = some (key, nonce) ∧
      request.claimed lib = some (address, nonce) ∧ later = .matched address nonce := by
  cases moves with
  | stays => exact .inl held
  | «matches» read claimed =>
      rcases held with same | same
      · obtain ⟨rfl, rfl⟩ := NonceStage.matched.inj same
        exact .inr ⟨_, read, claimed, rfl⟩
      · cases same
  | consumes before deleted =>
      rcases held with same | same
      · cases same
      · obtain ⟨rfl, rfl⟩ := NonceStage.consumed.inj same
        exact .inl (.inl before)
  | draws | stores | fails => rcases held with same | same <;> cases same

/-- A nonce is consumed by deleting it once it has been matched. -/
theorem consumed (moves : Moves lib request stage call answer (.consumed address nonce)) :
    stage = .consumed address nonce ∨
      stage = .matched address nonce ∧ ∃ key, call.deletes answer = some key := by
  cases moves with
  | stays => exact .inl rfl
  | consumes before deleted => exact .inr ⟨before, _, deleted⟩

/-- A stored nonce is not drawn again. -/
theorem stored (moves : Moves lib request (.stored nonce) call answer later)
    (allowed : Allowed lib cfg request (.stored nonce) call) : later = .stored nonce := by
  cases moves with
  | stays => rfl
  | draws drawn =>
      cases call with
      | generateSiweNonce => cases allowed
      | _ => cases drawn
  | stores before | consumes before | fails before => cases before
  | «matches» read claimed =>
      cases call with
      | get key => cases allowed.1
      | _ => cases read

end Moves

end NonceStage

/-! ## Runs -/

section Runs

variable {lib cfg} {sessions : Table JsString RefreshSession} {users : Table JsString User}
  {now : Nat}
  {meets : System.Condition AuthCall.Answer AuthError AuthResponse AuthRequest NonceStage AuthWorld}
  {records : List AuthCall} {world : AuthWorld} {threads : List Signing}
  {moments : List (Moment AuthCall.Answer AuthError AuthRequest AuthWorld)}

theorem stage_of_run
    (run : (nonceSystem lib cfg sessions users now).Run meets records world threads) :
    ∀ thread ∈ threads, NonceFollows lib cfg thread.request (NonceStage.Finish lib thread.request)
      thread.stage thread.task := run.follows nonce_follows

/-- The caller's stage allows its call. -/
theorem allowed_of_turn {position : Nat} {request : AuthRequest} {stage : NonceStage}
    {call : AuthCall} {continued : Except AuthError call.Answer → Auth AuthResponse}
    {answer : Except AuthError call.Answer} {record : List AuthCall} {later : AuthWorld}
    (turn : (nonceSystem lib cfg sessions users now).Turn meets world threads position request stage
      call continued answer record later) : stage.Allowed lib cfg request call := by
  obtain ⟨_, before⟩ := turn.before
  exact (stage_of_run before _ (List.mem_of_getElem? turn.found)).1

/-- A nonce that a call draws is new. -/
theorem generated_of_draws {call : AuthCall} {answer : Except AuthError call.Answer}
    {record : List AuthCall} {later : AuthWorld} {nonce : JsString}
    (answered : Unreliable (AuthCall.Performs lib) call world answer record later)
    (drawn : call.draws answer = some nonce) :
    nonce ∉ world.generated ∧ nonce ∈ later.generated := by
  cases call with
  | generateSiweNonce =>
      cases answer with
      | error thrown => cases drawn
      | ok own =>
          obtain rfl := Option.some.inj drawn
          obtain ⟨given, fresh, same, rfl⟩ := answered.performed_of_ok
          obtain rfl := Except.ok.inj same
          exact ⟨fresh, List.mem_cons_self⟩
  | _ => cases drawn

theorem generated_of_answered {call : AuthCall} {answer : Except AuthError call.Answer}
    {record : List AuthCall} {later : AuthWorld} {nonce : JsString}
    (answered : Unreliable (AuthCall.Performs lib) call world answer record later)
    (member : nonce ∈ world.generated) : nonce ∈ later.generated :=
  answered.keeps member fun _ _ done => done.generated_mono member

theorem generated_of_owns
    (run : (nonceSystem lib cfg sessions users now).Run meets records world threads) :
    ∀ thread ∈ threads, ∀ nonce, thread.stage.Owns nonce → nonce ∈ world.generated := by
  refine run.each (fun world thread => ∀ nonce, thread.stage.Owns nonce → nonce ∈ world.generated)
    ?_ ?_ ?_ ?_
  · rintro world request nonce (same | same) <;> cases same
  · rintro world later thread ⟨time, -, rfl⟩ held
    exact held
  · intro world threads position request stage call continued answer record later turn held nonce
      owns
    rcases (NonceStage.moves_next lib request stage world call answer).owns owns with before | drawn
    · exact generated_of_answered turn.answered (held nonce before)
    · exact (generated_of_draws turn.answered drawn).2
  · intro world threads position request stage call continued answer record later thread turn _ held
      nonce owns
    exact generated_of_answered turn.answered (held nonce owns)

/-- A nonce is one request's own. -/
theorem owner_unique
    (run : (nonceSystem lib cfg sessions users now).Run meets records world threads)
    (nonce : JsString) :
    ∀ (i j : Nat) (first second : Signing), threads[i]? = some first → threads[j]? = some second →
      first.stage.Owns nonce → second.stage.Owns nonce → i = j := by
  refine run.exclusive (fun _ stage => stage.Owns nonce) ?_ ?_
  · rintro request (same | same) <;> cases same
  · intro world threads position request stage call continued answer record later turn without owns
      other member held
    obtain ⟨_, before⟩ := turn.before
    have moves := NonceStage.moves_next lib request stage world call answer
    rcases moves.owns owns with already | drawn
    · exact without already
    · exact (generated_of_draws turn.answered drawn).1
        (generated_of_owns before other member _ held)

end Runs

/-! ## Traces -/

/-- A moment of the services. -/
abbrev NonceMoment : Type := Moment AuthCall.Answer AuthError AuthRequest AuthWorld

section Traces

variable {lib cfg} {sessions : Table JsString RefreshSession} {users : Table JsString User}
  {now : Nat}
  {meets : System.Condition AuthCall.Answer AuthError AuthResponse AuthRequest NonceStage AuthWorld}
  {world : AuthWorld} {threads : List Signing} {moments : List NonceMoment}

/-- What is in Redis has been stored by a request. -/
theorem stored_of_cache
    (trace : (nonceSystem lib cfg sessions users now).Trace meets moments world threads) :
    ∀ key entry, world.cache key = some entry → ∃ position seconds answer before later,
      .answered position (.set key entry.value seconds) answer before later ∈ moments ∧
        entry.expiresAt = before.now + seconds * 1000 := by
  refine trace.preserves (fun moments world => ∀ key entry, world.cache key = some entry →
    ∃ position seconds answer before later,
      .answered position (.set key entry.value seconds) answer before later ∈ moments ∧
        entry.expiresAt = before.now + seconds * 1000) ?_ ?_ ?_ ?_
  · intro key entry found
    cases found
  · rintro moments world later ⟨time, -, rfl⟩ held key entry found
    obtain ⟨position, seconds, answer, before, stored, member, expires⟩ := held key entry found
    exact ⟨position, seconds, answer, before, stored, List.mem_cons_of_mem _ member, expires⟩
  · intro moments world request held key entry found
    obtain ⟨position, seconds, answer, before, stored, member, expires⟩ := held key entry found
    exact ⟨position, seconds, answer, before, stored, List.mem_cons_of_mem _ member, expires⟩
  · intro moments world threads position request stage call continued answer record later turn held
      key entry found
    rcases cache_of_answered turn.answered found with earlier | ⟨seconds, rfl, expires⟩
    · obtain ⟨other, seconds, given, before, stored, member, expires⟩ := held key entry earlier
      exact ⟨other, seconds, given, before, stored, List.mem_cons_of_mem _ member, expires⟩
    · exact ⟨position, seconds, answer, world, later, List.mem_cons_self, expires⟩

/-- What a call to store a nonce leaves its request with. -/
def Requests (cfg : AuthConfig) (call : AuthCall) (request : AuthRequest) (stage : NonceStage) :
    Prop :=
  match call with
  | .set key nonce seconds => stage = .stored nonce ∧ seconds = cfg.nonceTtlSeconds ∧
      ∃ rawAddress address, request = .requestNonce rawAddress ∧
        AuthService.normalizeAddress rawAddress = .ok address ∧ key = AuthService.nonceKey address
  | _ => True

/-- A request that has stored a nonce asked for one of its address, and the nonce is its own. -/
theorem requester_of_stored
    (trace : (nonceSystem lib cfg sessions users now).Trace meets moments world threads)
    {position seconds : Nat} {key nonce : JsString} {answer : Except AuthError Unit}
    {before later : AuthWorld}
    (member : .answered position (.set key nonce seconds) answer before later ∈ moments) :
    ∃ thread, threads[position]? = some thread ∧
      Requests cfg (.set key nonce seconds) thread.request thread.stage := by
  refine trace.marked (fun call _ => Requests cfg call) ?_ ?_ member
  · intro world threads position request stage call continued answer record later turn
    have allowed := allowed_of_turn turn
    cases call with
    | set key nonce seconds =>
        obtain ⟨rfl, lives, asked⟩ := allowed
        exact ⟨rfl, lives, asked⟩
    | _ => trivial
  · intro world threads position request stage call continued answer record later turn past _
      requested
    cases past with
    | set key nonce seconds =>
        obtain ⟨rfl, asked⟩ := requested
        exact ⟨(NonceStage.moves_next lib request _ world call answer).stored cfg
          (allowed_of_turn turn), asked⟩
    | _ => trivial

/-- A sign-in that matches a nonce has found it in Redis under its address. -/
theorem read_of_matches {position : Nat} {request : AuthRequest} {stage : NonceStage}
    {call : AuthCall} {continued : Except AuthError call.Answer → Auth AuthResponse}
    {answer : Except AuthError call.Answer} {record : List AuthCall} {later : AuthWorld}
    (turn : (nonceSystem lib cfg sessions users now).Turn meets world threads position request stage
      call continued answer record later) {key address nonce : JsString}
    (reads : call.reads answer = some (key, nonce))
    (claimed : request.claimed lib = some (address, nonce)) :
    (.answered position call answer world later : NonceMoment) =
        .answered position (.get (AuthService.nonceKey address)) (.ok (some nonce)) world later ∧
      ∃ entry, world.cache (AuthService.nonceKey address) = some entry ∧ entry.value = nonce ∧
        world.now < entry.expiresAt := by
  have allowed := allowed_of_turn turn
  cases call with
  | get own =>
      cases answer with
      | error thrown => cases reads
      | ok value =>
          cases value with
          | none => cases reads
          | some value =>
              obtain ⟨rfl, rfl⟩ := Prod.mk.inj (Option.some.inj reads)
              obtain ⟨-, address', nonce', claimed', rfl⟩ := allowed
              obtain ⟨rfl, rfl⟩ := Prod.mk.inj (Option.some.inj (claimed.symm.trans claimed'))
              obtain ⟨given, -⟩ := turn.answered.performed_of_ok
              exact ⟨rfl, AuthWorld.entry_of_get (Except.ok.inj given).symm⟩
  | _ => cases reads

/-- A sign-in that holds a nonce has read it under its address, where an earlier request had
stored it and it had not expired. -/
theorem read_of_holds
    (trace : (nonceSystem lib cfg sessions users now).Trace meets moments world threads)
    {position : Nat} {thread : Signing} (found : threads[position]? = some thread)
    {address nonce : JsString} (holds : thread.stage.Holds address nonce) :
    thread.request.claimed lib = some (address, nonce) ∧
      ∃ newer older read later, moments = newer ++ .answered position
          (.get (AuthService.nonceKey address)) (.ok (some nonce)) read later :: older ∧
        ∃ place seconds answer before stored, .answered place
            (.set (AuthService.nonceKey address) nonce seconds) answer before stored ∈ older ∧
          read.now < before.now + seconds * 1000 := by
  obtain ⟨newer, older, read, threads', stage, call, continued, answer, record, later, split,
    earlier, turn, without, within⟩ := trace.entered (fun _ stage => stage.Holds address nonce)
      (by rintro request (same | same) <;> cases same) found holds
  have moves := NonceStage.moves_next lib thread.request stage read call answer
  rcases moves.holds within with already | ⟨key, reads, claimed, -⟩
  · exact absurd already without
  · obtain ⟨same, entry, cached, rfl, current⟩ := read_of_matches turn reads claimed
    obtain ⟨place, seconds, given, before, stored, member, expires⟩ :=
      stored_of_cache earlier _ entry cached
    exact ⟨claimed, newer, older, read, later, same ▸ split, place, seconds, given, before, stored,
      member, expires ▸ current⟩

/-- A nonce that a sign-in holds has been stored already, and is not stored again. -/
theorem not_drawn_of_holds
    (run : (nonceSystem lib cfg sessions users now).Run meets records world threads)
    {thread drawer : Signing} {address nonce : JsString} (member : thread ∈ threads)
    (holds : thread.stage.Holds address nonce) (present : drawer ∈ threads) :
    drawer.stage ≠ .drawn nonce := by
  intro drawn
  obtain ⟨moments, trace⟩ := run.traced
  obtain ⟨position, found⟩ := List.mem_iff_getElem?.mp member
  obtain ⟨place, here⟩ := List.mem_iff_getElem?.mp present
  obtain ⟨-, newer, older, read, later, rfl, other, seconds, answer, before, stored, earlier, -⟩ :=
    read_of_holds trace found holds
  obtain ⟨requester, there, storing, -⟩ := requester_of_stored trace
    (List.mem_append_right _ (List.mem_cons_of_mem _ earlier))
  obtain rfl := owner_unique run nonce place other drawer requester here there (.inl drawn)
    (.inr storing)
  obtain rfl := Option.some.inj (here.symm.trans there)
  rw [storing] at drawn
  cases drawn

/-- **A nonce that has been consumed is not in Redis again.** -/
theorem consumed_gone
    (run : (nonceSystem lib cfg sessions users now).Run meets records world threads) :
    ∀ thread ∈ threads, ∀ address nonce, thread.stage = .consumed address nonce →
      ∀ entry, world.cache (AuthService.nonceKey address) = some entry → entry.value ≠ nonce := by
  refine run.each_at (fun world thread => ∀ address nonce, thread.stage = .consumed address nonce →
    ∀ entry, world.cache (AuthService.nonceKey address) = some entry → entry.value ≠ nonce)
    ?_ ?_ ?_ ?_
  · intro world request address nonce same
    cases same
  · rintro world later thread ⟨time, -, rfl⟩ gone
    exact gone
  · intro world threads position request stage call continued answer record later turn gone address
      nonce reached entry found
    have allowed := allowed_of_turn turn
    have moves := NonceStage.moves_next lib request stage world call answer
    rw [show NonceStage.next lib request stage world call answer = _ from reached] at moves
    rcases moves.consumed with rfl | ⟨rfl, key, deletes⟩
    · rcases cache_of_answered turn.answered found with earlier | ⟨seconds, rfl, -⟩
      · exact gone _ (List.mem_of_getElem? turn.found) address nonce rfl entry earlier
      · cases allowed.1
    · cases call with
      | del own =>
          cases answer with
          | error thrown => cases deletes
          | ok _ =>
              obtain ⟨_, _, same, rfl⟩ := allowed
              obtain ⟨rfl, rfl⟩ := NonceStage.matched.inj same
              obtain ⟨-, rfl⟩ := turn.answered.performed_of_ok
              simp [AuthWorld.del] at found
      | _ => cases deletes
  · intro world threads position request stage call continued answer record later turn gone other
      thread beside found address nonce consumed entry cached same
    have present := List.mem_of_getElem? found
    rcases cache_of_answered turn.answered cached with earlier | ⟨seconds, rfl, -⟩
    · exact gone thread present address nonce consumed entry earlier same
    · obtain ⟨drawn, -⟩ := allowed_of_turn turn
      obtain ⟨_, before⟩ := turn.before
      rw [same] at drawn
      exact not_drawn_of_holds before present (.inr consumed) (List.mem_of_getElem? turn.found)
        drawn

/-- Where no sign-in matches a nonce that another has matched and not yet deleted, no two hold
one. -/
theorem holder_unique
    (run : ∃ records, (nonceSystem lib cfg sessions users now).Run (MatchesAlone lib) records world
      threads) (address nonce : JsString) :
    ∀ (i j : Nat) (first second : Signing), threads[i]? = some first → threads[j]? = some second →
      first.stage.Holds address nonce → second.stage.Holds address nonce → i = j := by
  obtain ⟨records, run⟩ := run
  refine run.exclusive (fun _ stage => stage.Holds address nonce) ?_ ?_
  · rintro request (same | same) <;> cases same
  · intro world threads position request stage call continued answer record later turn without holds
      other member held
    obtain ⟨_, before⟩ := turn.before
    have moves := NonceStage.moves_next lib request stage world call answer
    rcases moves.holds holds with already | ⟨key, reads, claimed, reached⟩
    · exact without already
    · rcases held with matched | consumed
      · exact turn.met _ address nonce turn.found reached other member matched
      · obtain ⟨-, entry, cached, same, -⟩ := read_of_matches turn reads claimed
        exact consumed_gone before other member address nonce consumed entry cached same

end Traces

/-! ## Sign-ins -/

/-- The sign-in has succeeded. -/
def SignedIn (thread : Signing) : Prop :=
  ∃ result, thread.task = .done (.ok (.authenticated result))

/-- The nonce that the sign-in at one position has read was requested at another, for the same
address, before it was read and no longer ago than its time to live. -/
def Redeems (moments : List NonceMoment) (threads : List Signing) (i j : Nat) : Prop :=
  ∃ first second address nonce rawAddress, threads[i]? = some first ∧
    first.request.claimed lib = some (address, nonce) ∧ threads[j]? = some second ∧
    second.request = .requestNonce rawAddress ∧
    AuthService.normalizeAddress rawAddress = .ok address ∧
    ∃ newer older read later answer before stored,
      moments = newer ++ .answered i (.get (AuthService.nonceKey address)) (.ok (some nonce)) read
        later :: older ∧
      .answered j (.set (AuthService.nonceKey address) nonce cfg.nonceTtlSeconds) answer before
        stored ∈ older ∧
      read.now < before.now + cfg.nonceTtlSeconds * 1000

/-- Every sign-in consumes a nonce of its own, and a message signs in once. -/
structure NoncesConsumed (moments : List NonceMoment) (threads : List Signing) : Prop where
  matched : ∃ requester : Nat → Nat,
    (∀ (i : Nat) (first : Signing), threads[i]? = some first → SignedIn first →
      Redeems lib cfg moments threads i (requester i)) ∧
    ∀ (i j : Nat) (first second : Signing), threads[i]? = some first → threads[j]? = some second →
      SignedIn first → SignedIn second → requester i = requester j → i = j
  once : ∀ (i j : Nat) (first second : Signing) message signature signature' requestMeta
    requestMeta', threads[i]? = some first → threads[j]? = some second → SignedIn first →
      SignedIn second → first.request = .verify message signature requestMeta →
        second.request = .verify message signature' requestMeta' → i = j

section Redemption

variable {lib cfg} {sessions : Table JsString RefreshSession} {users : Table JsString User}
  {now : Nat} {world : AuthWorld} {threads : List Signing} {moments : List NonceMoment}
  {meets : System.Condition AuthCall.Answer AuthError AuthResponse AuthRequest NonceStage AuthWorld}

/-- A sign-in that has succeeded has consumed the nonce of its message. -/
theorem consumed_of_signedIn
    (trace : (nonceSystem lib cfg sessions users now).Trace meets moments world threads)
    {thread : Signing} (member : thread ∈ threads) (signedIn : SignedIn thread) :
    ∃ address nonce, thread.request.claimed lib = some (address, nonce) ∧
      thread.stage = .consumed address nonce := by
  obtain ⟨_, run⟩ := trace.run
  have follows := stage_of_run run thread member
  obtain ⟨request, stage, task⟩ := thread
  obtain ⟨result, rfl⟩ := signedIn
  exact follows result rfl

/-- The nonce of a sign-in that has succeeded was requested. -/
theorem redeems_of_signedIn
    (trace : (nonceSystem lib cfg sessions users now).Trace meets moments world threads)
    {i : Nat} {thread : Signing} (found : threads[i]? = some thread) (signedIn : SignedIn thread) :
    ∃ j, Redeems lib cfg moments threads i j := by
  obtain ⟨address, nonce, -, consumed⟩ :=
    consumed_of_signedIn trace (List.mem_of_getElem? found) signedIn
  obtain ⟨claimed, newer, older, read, later, split, j, seconds, answer, before, stored, earlier,
    current⟩ := read_of_holds trace found (.inr consumed)
  obtain ⟨requester, there, -, rfl, rawAddress, own, asked, normalized, key⟩ :=
    requester_of_stored trace (split ▸ List.mem_append_right _ (List.mem_cons_of_mem _ earlier))
  obtain rfl := AuthService.nonceKey_injective key
  exact ⟨j, thread, requester, address, nonce, rawAddress, found, claimed, there, asked, normalized,
    newer, older, read, later, answer, before, stored, split, earlier, current⟩

/-- Sign-ins that redeem one request's nonce carry the same address and the same nonce. -/
theorem claimed_of_redeems
    (trace : (nonceSystem lib cfg sessions users now).Trace meets moments world threads)
    {i j k : Nat} {first second : Signing} (foundFirst : threads[i]? = some first)
    (foundSecond : threads[j]? = some second) (redeemsFirst : Redeems lib cfg moments threads i k)
    (redeemsSecond : Redeems lib cfg moments threads j k) :
    first.request.claimed lib = second.request.claimed lib := by
  obtain ⟨own, requester, address, nonce, rawAddress, here, claimed, there, asked, normalized,
    newer, older, read, later, answer, before, stored, split, earlier, -⟩ := redeemsFirst
  obtain ⟨own', requester', address', nonce', rawAddress', here', claimed', there', asked',
    normalized', newer', older', read', later', answer', before', stored', split', earlier', -⟩ :=
    redeemsSecond
  obtain rfl := Option.some.inj (foundFirst.symm.trans here)
  obtain rfl := Option.some.inj (foundSecond.symm.trans here')
  obtain rfl := Option.some.inj (there.symm.trans there')
  obtain rfl := AuthRequest.requestNonce.inj (asked.symm.trans asked')
  obtain rfl := Except.ok.inj (normalized.symm.trans normalized')
  obtain ⟨thread, found, stage, -⟩ := requester_of_stored trace
    (split ▸ List.mem_append_right _ (List.mem_cons_of_mem _ earlier))
  obtain ⟨thread', found', stage', -⟩ := requester_of_stored trace
    (split' ▸ List.mem_append_right _ (List.mem_cons_of_mem _ earlier'))
  obtain rfl := Option.some.inj (found.symm.trans found')
  obtain rfl := NonceStage.stored.inj (stage.symm.trans stage')
  rw [claimed, claimed']

/-- **Every sign-in consumes its own nonce** in every run in which no sign-in matches a nonce that
another has matched and not yet deleted. -/
theorem nonce_consumed
    (trace : (nonceSystem lib cfg sessions users now).Trace (MatchesAlone lib) moments world
      threads) : NoncesConsumed lib cfg moments threads := by
  have unique : ∀ (i j : Nat) (first second : Signing), threads[i]? = some first →
      threads[j]? = some second → SignedIn first → SignedIn second →
      first.request.claimed lib = second.request.claimed lib → i = j := by
    intro i j first second foundFirst foundSecond signedFirst signedSecond same
    obtain ⟨address, nonce, claimed, consumed⟩ :=
      consumed_of_signedIn trace (List.mem_of_getElem? foundFirst) signedFirst
    obtain ⟨address', nonce', claimed', consumed'⟩ :=
      consumed_of_signedIn trace (List.mem_of_getElem? foundSecond) signedSecond
    rw [claimed, claimed'] at same
    obtain ⟨rfl, rfl⟩ := Prod.mk.inj (Option.some.inj same)
    exact holder_unique trace.run address nonce i j first second foundFirst foundSecond
      (.inr consumed) (.inr consumed')
  refine ⟨?_, ?_⟩
  · have requested : ∀ i, ∃ j, ∀ first, threads[i]? = some first → SignedIn first →
        Redeems lib cfg moments threads i j := by
      intro i
      by_cases signed : ∃ first, threads[i]? = some first ∧ SignedIn first
      · obtain ⟨first, found, signedIn⟩ := signed
        obtain ⟨j, redeems⟩ := redeems_of_signedIn trace found signedIn
        exact ⟨j, fun _ _ _ => redeems⟩
      · exact ⟨0, fun first found signedIn => absurd ⟨first, found, signedIn⟩ signed⟩
    choose requester redeems using requested
    refine ⟨requester, redeems, ?_⟩
    intro i j first second foundFirst foundSecond signedFirst signedSecond same
    refine unique i j first second foundFirst foundSecond signedFirst signedSecond ?_
    exact claimed_of_redeems trace foundFirst foundSecond (redeems i first foundFirst signedFirst)
      (same ▸ redeems j second foundSecond signedSecond)
  · intro i j first second message signature signature' requestMeta requestMeta' foundFirst
      foundSecond signedFirst signedSecond asksFirst asksSecond
    refine unique i j first second foundFirst foundSecond signedFirst signedSecond ?_
    rw [asksFirst, asksSecond]
    rfl

end Redemption

/-! ## Two sign-ins with one message -/

/-- The address that signs in. -/
def signer : JsString := JsString.ascii ("0x" ++ String.ofList (List.replicate 40 '1'))

/-- Libraries under which a message is its nonce, and every signature is the signer's. -/
def signerLibraries : AuthLibraries where
  sha256 := id
  payloadOf _ _ := none
  getAddress := id
  createSiweMessage fields := some fields.nonce
  parseSiweMessage message := some {
    address := some signer
    nonce := some message
    domain := some []
    chainId := some 1 }
  recovered _ _ := some signer
  host := id

/-- Nobody has signed up or in. -/
abbrev signerSystem :
    System AuthCall.Answer AuthError AuthResponse AuthRequest NonceStage AuthWorld AuthCall :=
  nonceSystem signerLibraries oneSessionConfig .empty .empty 5

/-- A nonce is requested and stored, and two sign-ins with the message about it make their calls in
some order. -/
def twoSignIns (order : List Nat) : List (System.Move AuthRequest) :=
  .arrive (.requestNonce signer) :: List.replicate 3 (.call 0) ++
    .arrive (.verify [97] [] {}) :: .arrive (.verify [97] [] {}) :: order.map .call

/-- Both read the nonce before either deletes it. -/
def bothMatch : List Nat :=
  List.replicate 3 1 ++ List.replicate 3 2 ++ List.replicate 8 1 ++ List.replicate 9 2

/-- The second reads after the first has signed in. -/
def oneMatches : List Nat := List.replicate 11 1 ++ List.replicate 3 2

/-- The request and whether it has signed in. -/
def Signing.summary (thread : Signing) : AuthRequest × Bool :=
  (thread.request,
    match thread.task.outcome? with
    | some (.ok (.authenticated _)) => true
    | _ => false)

theorem signedIn_of_summary {thread : Signing} {request : AuthRequest}
    (summary : thread.summary = (request, true)) : thread.request = request ∧ SignedIn thread := by
  obtain ⟨same, signed⟩ := Prod.mk.inj summary
  refine ⟨same, ?_⟩
  split at signed
  · rename_i result finished
    exact ⟨result, Async.eq_done_of_outcome? finished⟩
  · cases signed

/-- **Two sign-ins with one message both succeed** when both read the nonce before either deletes
it. -/
theorem nonce_not_consumed :
    ¬ ∀ moments world threads,
      signerSystem.Trace System.unconstrained moments world threads →
        NoncesConsumed signerLibraries oneSessionConfig moments threads := by
  intro consumed
  have computed : (signerSystem.play (AuthCall.respond signerLibraries)
      (fun call _ => [call]) (fun _ _ _ _ _ => true) (twoSignIns bothMatch)
      signerSystem.standing).map (fun reached => reached.threads.map Signing.summary) =
        some [(.requestNonce signer, false), (.verify [97] [] {}, true),
          (.verify [97] [] {}, true)] := by decide +kernel
  obtain ⟨reached, played, summaries⟩ := Option.map_eq_some_iff.mp computed
  have run : signerSystem.Run System.unconstrained reached.records reached.world
      reached.threads :=
    System.run_of_play signerSystem _ _ _
      (fun world _ _ call _ =>
        ⟨.performed (AuthCall.respond_performs signerLibraries call world), trivial⟩)
      _ .start played
  obtain ⟨moments, trace⟩ := run.traced
  obtain ⟨requester, rest, threads, -, others⟩ := List.map_eq_cons_iff.mp summaries
  obtain ⟨first, rest, rfl, firstDone, others⟩ := List.map_eq_cons_iff.mp others
  obtain ⟨second, none, rfl, secondDone, -⟩ := List.map_eq_cons_iff.mp others
  obtain ⟨firstAsks, firstSigned⟩ := signedIn_of_summary firstDone
  obtain ⟨secondAsks, secondSigned⟩ := signedIn_of_summary secondDone
  have same := (consumed _ _ _ trace).once 1 2 first second [97] [] [] {} {} (by rw [threads]; rfl)
    (by rw [threads]; rfl) firstSigned secondSigned firstAsks secondAsks
  cases same

/-- The check of `MatchesAlone` on one call. -/
def matchesAlone (world : AuthWorld) (threads : List Signing) (position : Nat) (call : AuthCall)
    (answer : Except AuthError call.Answer) : Bool :=
  match threads[position]? with
  | some thread =>
      match thread.stage.next lib thread.request world call answer with
      | .matched address nonce => threads.all fun other => other.stage ≠ .matched address nonce
      | _ => true
  | none => true

theorem matchesAlone_sound {world : AuthWorld} {threads : List Signing} {position : Nat}
    {call : AuthCall} {answer : Except AuthError call.Answer}
    (checked : matchesAlone lib world threads position call answer = true) :
    MatchesAlone lib world threads position call answer := by
  intro thread address nonce found reached other member
  simp only [matchesAlone, found, reached, List.all_eq_true, decide_eq_true_eq] at checked
  exact checked other member

/-- The second of two sign-ins with one message is refused, and the first redeems the nonce that
was requested. -/
theorem nonce_consumed_once :
    ∃ moments world threads,
      signerSystem.Trace (MatchesAlone signerLibraries) moments world threads ∧
        threads.map Signing.summary = [(.requestNonce signer, false), (.verify [97] [] {}, true),
          (.verify [97] [] {}, false)] ∧
        NoncesConsumed signerLibraries oneSessionConfig moments threads := by
  have computed : (signerSystem.play (AuthCall.respond signerLibraries)
      (fun call _ => [call]) (matchesAlone signerLibraries) (twoSignIns oneMatches)
      signerSystem.standing).map (fun reached => reached.threads.map Signing.summary) =
        some [(.requestNonce signer, false), (.verify [97] [] {}, true),
          (.verify [97] [] {}, false)] := by decide +kernel
  obtain ⟨reached, played, summaries⟩ := Option.map_eq_some_iff.mp computed
  have run : signerSystem.Run (MatchesAlone signerLibraries) reached.records reached.world
      reached.threads :=
    System.run_of_play signerSystem _ _ _
      (fun world _ _ call passed =>
        ⟨.performed (AuthCall.respond_performs signerLibraries call world),
          matchesAlone_sound signerLibraries passed⟩) _ .start played
  obtain ⟨moments, trace⟩ := run.traced
  exact ⟨moments, _, _, trace, summaries, nonce_consumed trace⟩

end Numera
