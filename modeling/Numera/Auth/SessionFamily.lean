import Numera.Auth.SessionStages

/-! # Reuse of a refresh token

A rotation that finds its session revoked revokes every live session of the user, as
far as they exist at that instant. A rotation that has read its session as live, or a
sign-in that is under way, creates its session afterwards and leaves it live
(`reuse_spares_session`). Where every sweep finishes while no such request of its user is
under way, a rotation that arrived before it and reads a session of the user later finds
that session revoked (`barred_of_swept`), so that all the sessions that were there, or
that were created by requests which had arrived, are dead from then on
(`reuse_kills_family`).
-/

namespace Numera

open Async (Moment System Unreliable arrivals)

/-! ## Moments -/

/-- One moment of the authentication services. -/
abbrev AuthMoment : Type := Moment AuthCall.Answer AuthError AuthRequest AuthWorld

/-- The session that was created, with its identifier, and the place of the request that created
it in the order of arrival. -/
def createdSession : AuthMoment → Option (Nat × JsString × RefreshSession)
  | .answered position (.createSession id session) _ before later =>
      if before.sessions.find? id = none ∧ later.sessions.find? id = some session then
        some (position, id, session)
      else none
  | _ => none

/-- The user whose sessions have been swept. -/
def sweptUser : AuthMoment → Option JsString
  | .answered _ call answer _ _ => call.sweeps answer
  | _ => none

/-- The sessions of the user have been swept since the request at some place arrived. -/
def sweptSince (userId : JsString) (position : Nat) : List AuthMoment → Prop
  | [] => False
  | moment :: earlier =>
      sweptUser moment = some userId ∧ position < arrivals earlier ∨
        sweptSince userId position earlier

instance decidableSweptSince (userId : JsString) (position : Nat) :
    (moments : List AuthMoment) → Decidable (sweptSince userId position moments)
  | [] => inferInstanceAs (Decidable False)
  | moment :: earlier =>
      have := decidableSweptSince userId position earlier
      inferInstanceAs (Decidable (sweptUser moment = some userId ∧ position < arrivals earlier ∨
        sweptSince userId position earlier))

/-- The sessions that a sweep has to kill are dead: those that were stored from the start, and
those created by requests that had arrived when their user's sessions were swept. -/
structure FamilyDead (initial world : AuthWorld) (moments : List AuthMoment) : Prop where
  stored : ∀ id session, initial.sessions.find? id = some session →
    (∃ moment ∈ moments, sweptUser moment = some session.userId) → world.Revoked id
  created : ∀ moment ∈ moments, ∀ position id session,
    createdSession moment = some (position, id, session) →
      sweptSince session.userId position moments → world.Revoked id

/-- A request that a sweep has come after had arrived. -/
theorem arrived_of_sweptSince {userId : JsString} {position : Nat} {moments : List AuthMoment}
    (swept : sweptSince userId position moments) :
    position < arrivals moments ∧ ∃ moment ∈ moments, sweptUser moment = some userId := by
  induction moments with
  | nil => exact swept.elim
  | cons moment earlier ih =>
      have grown : arrivals earlier ≤ arrivals (moment :: earlier) := by
        cases moment with
        | arrived request => exact Nat.le_succ _
        | passed | answered => exact Nat.le_refl _
      rcases swept with ⟨sweeps, bound⟩ | before
      · exact ⟨Nat.lt_of_lt_of_le bound grown, moment, List.mem_cons_self, sweeps⟩
      · obtain ⟨bound, other, member, sweeps⟩ := ih before
        exact ⟨Nat.lt_of_lt_of_le bound grown, other, List.mem_cons_of_mem _ member, sweeps⟩

/-- The session that a moment created is there after it, and its call is the creation. -/
theorem owned_of_created {position place : Nat} {call : AuthCall}
    {answer : Except AuthError call.Answer} {world later : AuthWorld} {id : JsString}
    {session : RefreshSession}
    (created : createdSession (.answered position call answer world later) =
      some (place, id, session)) :
    call = .createSession id session ∧ place = position ∧ later.Owned id session.userId := by
  unfold createdSession at created
  split at created
  · rename_i same
    split at created
    · rename_i there
      cases same
      obtain ⟨rfl, same⟩ := Prod.mk.inj (Option.some.inj created)
      obtain ⟨rfl, rfl⟩ := Prod.mk.inj same
      exact ⟨rfl, rfl, _, there.2, rfl⟩
    · cases created
  · cases created

/-! ## Traces -/

/-- The sessions of a trace are there: those that were stored from the start, and those that have
been created since. -/
structure FamilyThere (initial world : AuthWorld) (moments : List AuthMoment) : Prop where
  stored : ∀ id session, initial.sessions.find? id = some session →
    world.Owned id session.userId
  created : ∀ moment ∈ moments, ∀ position id session,
    createdSession moment = some (position, id, session) → world.Owned id session.userId

/-- What a trace keeps: the sessions, the users that were swept, and every request that arrived
before a sweep of a user. -/
structure FamilyKept (lib : AuthLibraries) (cfg : AuthConfig) (initial world : AuthWorld)
    (moments : List AuthMoment) (threads : List Familiar) : Prop where
  there : FamilyThere initial world moments
  dead : FamilyDead initial world moments
  enrolled : ∀ moment ∈ moments, ∀ userId, sweptUser moment = some userId →
    ∃ address, world.Enrolled userId address
  barred : ∀ position thread userId, threads[position]? = some thread →
    sweptSince userId position moments → ¬ Underway lib world userId thread ∧
      thread.request.Unread lib cfg world userId

section Trace

variable {lib : AuthLibraries} {cfg : AuthConfig} {initial world later : AuthWorld} {moments : List AuthMoment}
  {threads : List Familiar}

/-- A moment that creates no session leaves the others where they were. -/
theorem FamilyThere.skip {moment : AuthMoment} (family : FamilyThere initial world moments)
    (creates : createdSession moment = none)
    (kept : ∀ id userId, world.Owned id userId → later.Owned id userId) :
    FamilyThere initial later (moment :: moments) where
  stored id session present := kept _ _ (family.stored id session present)
  created other member position id session found := by
    rcases List.mem_cons.mp member with rfl | member
    · rw [creates] at found
      cases found
    · exact kept _ _ (family.created other member position id session found)

/-- A moment that sweeps nobody's sessions, and creates none, kills none and spares none. -/
theorem FamilyDead.skip {moment : AuthMoment} (dead : FamilyDead initial world moments)
    (creates : createdSession moment = none) (sweeps : sweptUser moment = none)
    (kept : ∀ id, world.Revoked id → later.Revoked id) :
    FamilyDead initial later (moment :: moments) where
  stored id session present swept := by
    obtain ⟨other, member, sweeper⟩ := swept
    rcases List.mem_cons.mp member with rfl | member
    · rw [sweeps] at sweeper
      cases sweeper
    · exact kept id (dead.stored id session present ⟨other, member, sweeper⟩)
  created other member position id session found swept := by
    rcases swept with ⟨sweeper, -⟩ | swept
    · rw [sweeps] at sweeper
      cases sweeper
    · rcases List.mem_cons.mp member with rfl | member
      · rw [creates] at found
        cases found
      · exact kept id (dead.created other member position id session found swept)

/-- A session that a moment creates is there with the others. -/
theorem FamilyThere.creates {moment : AuthMoment} {place : Nat} {id : JsString}
    {session : RefreshSession}
    (family : FamilyThere initial world moments)
    (created : createdSession moment = some (place, id, session))
    (made : later.Owned id session.userId)
    (kept : ∀ id userId, world.Owned id userId → later.Owned id userId) :
    FamilyThere initial later (moment :: moments) where
  stored other row present := kept _ _ (family.stored other row present)
  created other member position otherId row found := by
    rcases List.mem_cons.mp member with rfl | member
    · obtain ⟨rfl, rfl, rfl⟩ : place = position ∧ id = otherId ∧ session = row := by
        simpa [created] using found
      exact made
    · exact kept _ _ (family.created other member position otherId row found)

/-- A session is created by a request that no sweep of its user has come after. -/
theorem FamilyDead.creates {moment : AuthMoment} {place : Nat} {id : JsString}
    {session : RefreshSession}
    (dead : FamilyDead initial world moments)
    (created : createdSession moment = some (place, id, session))
    (sweeps : sweptUser moment = none) (unswept : ¬ sweptSince session.userId place moments)
    (kept : ∀ id, world.Revoked id → later.Revoked id) :
    FamilyDead initial later (moment :: moments) where
  stored other row present swept := by
    obtain ⟨sweep, member, sweeper⟩ := swept
    rcases List.mem_cons.mp member with rfl | member
    · rw [sweeps] at sweeper
      cases sweeper
    · exact kept other (dead.stored other row present ⟨sweep, member, sweeper⟩)
  created other member position otherId row found swept := by
    rcases swept with ⟨sweeper, -⟩ | swept
    · rw [sweeps] at sweeper
      cases sweeper
    · rcases List.mem_cons.mp member with rfl | member
      · obtain ⟨rfl, rfl, rfl⟩ : place = position ∧ id = otherId ∧ session = row := by
          simpa [created] using found
        exact absurd swept unswept
      · exact kept otherId (dead.created other member position otherId row found swept)

/-- A sweep kills the sessions of its user that are there. -/
theorem FamilyDead.sweeps {moment : AuthMoment} {userId : JsString}
    (dead : FamilyDead initial world moments) (there : FamilyThere initial world moments)
    (creates : createdSession moment = none) (sweeps : sweptUser moment = some userId)
    (killed : ∀ id, world.Owned id userId → later.Revoked id)
    (kept : ∀ id, world.Revoked id → later.Revoked id) :
    FamilyDead initial later (moment :: moments) where
  stored id row present swept := by
    obtain ⟨sweep, member, sweeper⟩ := swept
    rcases List.mem_cons.mp member with rfl | member
    · obtain rfl : userId = row.userId := Option.some.inj (sweeps.symm.trans sweeper)
      exact killed id (there.stored id row present)
    · exact kept id (dead.stored id row present ⟨sweep, member, sweeper⟩)
  created other member position id row found swept := by
    rcases List.mem_cons.mp member with rfl | member
    · rw [creates] at found
      cases found
    · rcases swept with ⟨sweeper, -⟩ | swept
      · obtain rfl : userId = row.userId := Option.some.inj (sweeps.symm.trans sweeper)
        exact killed id (there.created other member position id row found)
      · exact kept id (dead.created other member position id row found swept)

/-- One call: the session it creates is there, and a sweep kills those that are. -/
theorem family_answered {position : Nat} {call : AuthCall} {answer : Except AuthError call.Answer}
    {record : List AuthCall}
    (answered : Unreliable (AuthCall.Performs lib) call world answer record later)
    (unswept : ∀ id session, call = .createSession id session →
      ¬ sweptSince session.userId position moments)
    (there : FamilyThere initial world moments) (dead : FamilyDead initial world moments) :
    FamilyThere initial later (.answered position call answer world later :: moments) ∧
      FamilyDead initial later (.answered position call answer world later :: moments) := by
  have ownedKept : ∀ id userId, world.Owned id userId → later.Owned id userId := by
    intro id userId owned
    exact answered.keeps owned fun _ _ done => owned.performs done
  have revokedKept : ∀ id, world.Revoked id → later.Revoked id := by
    intro id revoked
    exact answered.keeps revoked fun _ _ done => revoked.performs done
  cases creates : createdSession (.answered position call answer world later) with
  | some found =>
      obtain ⟨place, id, session⟩ := found
      obtain ⟨rfl, rfl, made⟩ := owned_of_created creates
      exact ⟨there.creates creates made ownedKept,
        dead.creates creates rfl (unswept id session rfl) revokedKept⟩
  | none =>
      refine ⟨there.skip creates ownedKept, ?_⟩
      cases sweeps : call.sweeps answer with
      | none => exact dead.skip creates sweeps revokedKept
      | some userId =>
          refine dead.sweeps there creates sweeps (fun id owned => ?_) revokedKept
          exact revoked_of_swept answered sweeps owned

theorem FamilyKept.start : FamilyKept lib cfg initial initial [] [] where
  there := ⟨fun _ session present => ⟨session, present, rfl⟩,
    fun _ member => absurd member List.not_mem_nil⟩
  dead := ⟨fun _ _ _ ⟨_, member, _⟩ => absurd member List.not_mem_nil,
    fun _ member => absurd member List.not_mem_nil⟩
  enrolled _ member := absurd member List.not_mem_nil
  barred _ _ _ _ swept := swept.elim

theorem FamilyKept.passed (kept : FamilyKept lib cfg initial world moments threads)
    (waits : world.Waits later) : FamilyKept lib cfg initial later (.passed :: moments) threads where
  there := kept.there.skip rfl fun _ _ owned => owned.waits waits
  dead := kept.dead.skip rfl rfl fun _ revoked => revoked.waits waits
  enrolled moment member userId sweeps := by
    rcases List.mem_cons.mp member with rfl | member
    · cases sweeps
    · obtain ⟨address, enrolled⟩ := kept.enrolled moment member userId sweeps
      exact ⟨address, enrolled.waits waits⟩
  barred position thread userId found swept := by
    rcases swept with ⟨sweeps, -⟩ | swept
    · cases sweeps
    · obtain ⟨now, -, rfl⟩ := waits
      exact kept.barred position thread userId found swept

/-- No sweep has come after a request that arrives now. -/
theorem FamilyKept.arrived (kept : FamilyKept lib cfg initial world moments threads)
    (counted : arrivals moments = threads.length) (request : AuthRequest) :
    FamilyKept lib cfg initial world (.arrived request :: moments)
      (threads ++ [(familySystem lib cfg initial).arrived request]) where
  there := kept.there.skip rfl fun _ _ owned => owned
  dead := kept.dead.skip rfl rfl fun _ revoked => revoked
  enrolled moment member userId sweeps := by
    rcases List.mem_cons.mp member with rfl | member
    · cases sweeps
    · exact kept.enrolled moment member userId sweeps
  barred position thread userId found swept := by
    rcases swept with ⟨sweeps, -⟩ | swept
    · cases sweeps
    · have bound := (arrived_of_sweptSince swept).1
      rw [List.getElem?_append_left (counted ▸ bound)] at found
      exact kept.barred position thread userId found swept

/-- The rules a caller keeps to, and what its stage says. -/
theorem family_turn
    {meets : System.Condition AuthCall.Answer AuthError AuthResponse AuthRequest FamilyStage
      AuthWorld} {position : Nat} {request : AuthRequest} {stage : FamilyStage} {call : AuthCall}
    {continued : Except AuthError call.Answer → Auth AuthResponse}
    {answer : Except AuthError call.Answer} {record : List AuthCall}
    (turn : (familySystem lib cfg initial).Turn meets world threads position request stage call
      continued answer record later) :
    stage.Allowed lib cfg request call ∧ stage.Accurate lib cfg request world := by
  obtain ⟨records, before⟩ := turn.before
  have follows : ∀ {records world} {threads : List Familiar},
      (familySystem lib cfg initial).Run meets records world threads → ∀ thread ∈ threads,
        FamilyFollows lib cfg thread.request thread.stage thread.task :=
    fun run => run.follows family_follows
  refine ⟨(follows before _ (List.mem_of_getElem? turn.found)).1, ?_⟩
  refine before.each (fun world thread => thread.stage.Accurate lib cfg thread.request world)
    (fun _ _ => trivial) ?_ ?_ ?_ _ (List.mem_of_getElem? turn.found)
  · rintro world later ⟨request, stage, task⟩ waits accurate
    cases stage with
    | reused userId =>
        obtain ⟨address, enrolled⟩ := accurate
        exact ⟨address, enrolled.waits waits⟩
    | _ => exact accurate
  · intro world threads position request stage call continued answer record later turn accurate
    obtain ⟨records, before⟩ := turn.before
    exact FamilyStage.accurate_next (follows before _ (List.mem_of_getElem? turn.found)).1
      turn.answered accurate
  · rintro world threads position request stage call continued answer record later
      ⟨other, reached, task⟩ turn member accurate
    cases reached with
    | reused userId =>
        obtain ⟨address, enrolled⟩ := accurate
        exact ⟨address, enrolled_answered turn.answered enrolled⟩
    | _ => exact accurate

section Called

variable {position : Nat} {request : AuthRequest} {stage : FamilyStage} {call : AuthCall}
  {continued : Except AuthError call.Answer → Auth AuthResponse}
  {answer : Except AuthError call.Answer} {record : List AuthCall}
  (turn : (familySystem lib cfg initial).Turn (SweepsUnforged lib cfg) world threads position
    request stage call continued answer record later)
include turn

/-- A user whose sessions are swept has a row. -/
theorem enrolled_of_sweeps {userId : JsString} (sweeps : call.sweeps answer = some userId) :
    ∃ address, world.Enrolled userId address := by
  obtain ⟨allowed, accurate⟩ := family_turn turn
  obtain ⟨revokedAt, rfl⟩ := sweeps_cases sweeps
  obtain rfl : stage = .reused userId := allowed
  exact accurate

/-- Before a call, no request that arrived before a sweep is under way, whether it is the call's
sweep or an earlier one. -/
theorem FamilyKept.away (kept : FamilyKept lib cfg initial world moments threads)
    {place : Nat} {thread : Familiar} {userId : JsString} (found : threads[place]? = some thread)
    (swept : sweptSince userId place (.answered position call answer world later :: moments)) :
    (∃ address, world.Enrolled userId address) ∧ ¬ Underway lib world userId thread ∧
      (call.sweeps answer = some userId ∨ thread.request.Unread lib cfg world userId) := by
  rcases swept with ⟨sweeps, -⟩ | swept
  · exact ⟨enrolled_of_sweeps turn sweeps,
      turn.met.2 userId sweeps thread (List.mem_of_getElem? found), .inl sweeps⟩
  · obtain ⟨-, moment, member, sweeps⟩ := arrived_of_sweptSince swept
    obtain ⟨away, unread⟩ := kept.barred place thread userId found swept
    exact ⟨kept.enrolled moment member userId sweeps, away, .inr unread⟩

/-- A request that arrived before a sweep is not under way after the call either, which may be its
own. -/
theorem FamilyKept.barred_called (kept : FamilyKept lib cfg initial world moments threads)
    {place : Nat} {thread : Familiar} {userId : JsString}
    (found : (threads.set position ⟨request, stage.next call answer, continued answer⟩)[place]? =
      some thread)
    (swept : sweptSince userId place (.answered position call answer world later :: moments)) :
    ¬ Underway lib later userId thread ∧ thread.request.Unread lib cfg later userId := by
  obtain ⟨allowed, accurate⟩ := family_turn turn
  obtain ⟨unpresented, -⟩ := turn.met
  by_cases own : place = position
  · subst own
    obtain ⟨bound, -⟩ := List.getElem?_eq_some_iff.mp turn.found
    rw [List.getElem?_set_self bound] at found
    obtain rfl := Option.some.inj found
    obtain ⟨⟨address, enrolled⟩, away, reads⟩ := kept.away turn turn.found swept
    refine ⟨fun under => away ⟨rfl, ?_⟩, AuthRequest.unread_answered reads turn.answered
      fun id created => unpresented id created ⟨request, stage, .call call continued⟩
        (List.mem_of_getElem? turn.found)⟩
    exact underway_before allowed accurate turn.answered enrolled reads under.2
  · rw [List.getElem?_set_ne (Ne.symm own)] at found
    obtain ⟨⟨address, enrolled⟩, away, reads⟩ := kept.away turn found swept
    refine ⟨fun under => away ⟨under.1, ?_⟩, AuthRequest.unread_answered reads turn.answered
      fun id created => unpresented id created thread (List.mem_of_getElem? found)⟩
    exact under.2.imp_right fun signs =>
      signs.earlier enrolled (enrolled_answered turn.answered enrolled)

/-- One call of a request. Those that arrived before a sweep of the user, this one or an earlier
one, come by no live session of the user. -/
theorem FamilyKept.called (kept : FamilyKept lib cfg initial world moments threads) :
    FamilyKept lib cfg initial later (.answered position call answer world later :: moments)
      (threads.set position ⟨request, stage.next call answer, continued answer⟩) := by
  have unswept : ∀ id session, call = .createSession id session →
      ¬ sweptSince session.userId position moments := by
    rintro id session rfl swept
    exact (kept.barred position _ _ turn.found swept).1 ⟨rfl, .inl (family_turn turn).1⟩
  obtain ⟨there, dead⟩ := family_answered turn.answered unswept kept.there kept.dead
  refine ⟨there, dead, ?_, fun place thread userId found swept =>
    kept.barred_called turn found swept⟩
  intro moment member userId sweeps
  have enrolled : ∃ address, world.Enrolled userId address := by
    rcases List.mem_cons.mp member with rfl | member
    · exact enrolled_of_sweeps turn sweeps
    · exact kept.enrolled moment member userId sweeps
  obtain ⟨address, enrolled⟩ := enrolled
  exact ⟨address, enrolled_answered turn.answered enrolled⟩

end Called

/-- What a trace keeps, where tokens are not forged and sweeps finish alone. -/
theorem family_kept
    (trace : (familySystem lib cfg initial).Trace (SweepsUnforged lib cfg) moments world threads) :
    FamilyKept lib cfg initial world moments threads := by
  refine trace.together
    (fun moments world threads => FamilyKept lib cfg initial world moments threads) .start ?_ ?_ ?_
  · intro moments world later threads waits kept
    exact kept.passed waits
  · intro moments world threads request trace kept
    exact kept.arrived trace.arrivals_eq request
  · intro moments world threads position request stage call continued answer record later _ turn kept
    exact FamilyKept.called turn kept

/-- **A rotation that arrived before a sweep of a user is refused when it reads a session of the
user after it**: it never stands where it would create a session for that user. -/
theorem barred_of_swept
    (trace : (familySystem lib cfg initial).Trace (SweepsUnforged lib cfg) moments world threads)
    {position : Nat} {thread : Familiar} {userId : JsString}
    (found : threads[position]? = some thread) (swept : sweptSince userId position moments) :
    thread.task.outcome? = none → thread.stage ≠ .live userId :=
  fun unfinished live =>
    ((family_kept trace).barred position thread userId found swept).1 ⟨unfinished, .inl live⟩

/-- **Reuse detection kills the session family** in every trace in which tokens are not forged and
every sweep finishes while no sign-in of its user is under way, and no rotation that has read a
session of the user as live. -/
theorem reuse_kills_family
    (trace : (familySystem lib cfg initial).Trace (SweepsUnforged lib cfg) moments world threads) :
    FamilyDead initial world moments := (family_kept trace).dead

end Trace

/-! ## A rotation and a reuse of its token -/

/-- What has been reached of two rotations of one token. -/
abbrev FamilyReached : Type :=
  System.Traced AuthCall.Answer AuthError AuthResponse AuthRequest FamilyStage AuthWorld

abbrev oneFamilySystem :
    System AuthCall.Answer AuthError AuthResponse AuthRequest FamilyStage AuthWorld AuthCall :=
  familySystem oneSessionLibraries oneSessionConfig oneSession

/-- Whether nobody presents a session that is yet to be created, and whether sweeps finish alone
where that is asked for. -/
def sweepsChecked (asked : Bool) (world : AuthWorld) (threads : List Familiar) (position : Nat)
    (call : AuthCall) (answer : Except AuthError call.Answer) : Bool :=
  decide (Unpresented oneSessionLibraries oneSessionConfig world threads position call answer) &&
    (!asked || decide (SweepsAlone oneSessionLibraries world threads position call answer))

/-- Follow the two rotations in some order. -/
def rotations (asked : Bool) (order : List Nat) : Option FamilyReached :=
  oneFamilySystem.follow (AuthCall.respond oneSessionLibraries) (sweepsChecked asked)
    (twoRotations order) oneFamilySystem.untraced

theorem rotations_trace {asked : Bool} {order : List Nat} {reached : FamilyReached}
    {meets : System.Condition AuthCall.Answer AuthError AuthResponse AuthRequest FamilyStage
      AuthWorld}
    (checked : ∀ world threads position call answer,
      sweepsChecked asked world threads position call answer = true →
        meets world threads position call answer)
    (followed : rotations asked order = some reached) :
    oneFamilySystem.Trace meets reached.moments reached.world reached.threads :=
  System.trace_of_follow oneFamilySystem (AuthCall.respond oneSessionLibraries) _
    (fun call world => .performed (AuthCall.respond_performs oneSessionLibraries call world))
    checked _ .start followed

/-- The sessions that were created: by which request, whether the user's sessions have been swept
since it arrived, and whether the session is live. -/
def familySummary (reached : FamilyReached) : List (Nat × JsString × Bool × Bool) :=
  (reached.moments.filterMap createdSession).map fun created =>
    (created.1, created.2.1, decide (sweptSince created.2.2.userId created.1 reached.moments),
      (reached.world.sessions.find? created.2.1).any fun session => session.revokedAt.isNone)

/-- The first revokes its session, the second finds it revoked and sweeps, and the first creates the
new session. -/
def sweptBetween : List Nat := List.replicate 5 0 ++ List.replicate 4 1 ++ List.replicate 5 0

/-- The second sweeps after the first has created the new session. -/
def sweptAfter : List Nat := List.replicate 10 0 ++ List.replicate 4 1

/-- **A session that is created after the sweep stays live**, although its rotation was under way
when the user's sessions were swept. -/
theorem reuse_spares_session :
    ¬ ∀ moments world threads,
      oneFamilySystem.Trace (Unpresented oneSessionLibraries oneSessionConfig) moments world
        threads → FamilyDead oneSession world moments := by
  intro killed
  have computed : (rotations false sweptBetween).map familySummary =
      some [(0, [97, 97], true, true)] := by decide +kernel
  obtain ⟨reached, followed, summary⟩ := Option.map_eq_some_iff.mp computed
  have dead := killed _ _ _ (rotations_trace (fun world threads position call answer checked =>
    of_decide_eq_true (Bool.and_eq_true_iff.mp checked).1) followed)
  obtain ⟨⟨position, id, session⟩, rest, created, found, -⟩ := List.map_eq_cons_iff.mp summary
  obtain ⟨moment, member, creates⟩ := List.mem_filterMap.mp (created ▸ List.mem_cons_self)
  obtain ⟨-, -, swept, live⟩ : position = 0 ∧ id = [97, 97] ∧
      sweptSince session.userId position reached.moments ∧
        ((reached.world.sessions.find? id).any fun session => session.revokedAt.isNone) = true := by
    simpa using found
  obtain ⟨row, present, revoked⟩ := dead.created moment member position id session creates swept
  rw [present] at live
  simp [Option.isSome_iff_ne_none.mp revoked] at live

/-- The new session is dead when the token is reused after it was created. -/
theorem reuse_kills_rotated :
    ∃ moments world threads id,
      oneFamilySystem.Trace (SweepsUnforged oneSessionLibraries oneSessionConfig) moments world
        threads ∧ FamilyDead oneSession world moments ∧ world.sessions.find? id ≠ none ∧ id ≠ [2] ∧
          world.Revoked id := by
  have computed : (rotations true sweptAfter).map familySummary =
      some [(0, [97, 97], true, false)] := by decide +kernel
  obtain ⟨reached, followed, summary⟩ := Option.map_eq_some_iff.mp computed
  have trace : oneFamilySystem.Trace (SweepsUnforged oneSessionLibraries oneSessionConfig)
      reached.moments reached.world reached.threads := by
    refine rotations_trace (fun world threads position call answer checked => ?_) followed
    obtain ⟨unpresented, alone⟩ := Bool.and_eq_true_iff.mp checked
    exact ⟨of_decide_eq_true unpresented, of_decide_eq_true alone⟩
  have dead := reuse_kills_family trace
  obtain ⟨⟨position, id, session⟩, rest, created, found, -⟩ := List.map_eq_cons_iff.mp summary
  obtain ⟨moment, member, creates⟩ := List.mem_filterMap.mp (created ▸ List.mem_cons_self)
  obtain ⟨-, named, swept, -⟩ : position = 0 ∧ id = [97, 97] ∧
      sweptSince session.userId position reached.moments ∧
        ((reached.world.sessions.find? id).any fun session => session.revokedAt.isNone) = false := by
    simpa using found
  have revoked := dead.created moment member position id session creates swept
  obtain ⟨row, present, isRevoked⟩ := revoked
  exact ⟨_, _, _, id, trace, dead, by rw [present]; exact Option.some_ne_none row,
    by rw [named]; decide, row, present, isRevoked⟩

end Numera
