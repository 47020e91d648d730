import Numera.Unlink.Identity

/-! # A binding is permanent

A bind reads its user, decides, and then writes whatever the row holds by then. Two
binds that both read one user as unbound both write, and the second address replaces the
first (`bind_not_permanent`). In every run in which no bind reads a user as unbound
while another one, with a different address, has done so and is yet to write, a binding
is permanent (`bind_permanent`): the binds that have read a user as unbound agree on its
address (`unbound_agree`), so that none of them replaces another one.
-/

namespace Numera

open Async (CallsOnly Follows System Thread Unreliable)

/-! ## Stages -/

/-- How far a bind has come, with its user and its address once it is known. -/
inductive BindStage where
  | waiting
  | requested (userId unlinkAddress : JsString)
  | unbound (userId unlinkAddress : JsString)
  | bound (userId unlinkAddress : JsString)
  | refused
  deriving DecidableEq

/-- The stage to which reading its user leads a bind. -/
def BindStage.afterReading (userId unlinkAddress : JsString) (bound : Option JsString) :
    BindStage :=
  if (truthy bound).isSome ∧ bound ≠ some unlinkAddress then refused
  else if bound = some unlinkAddress then .bound userId unlinkAddress
  else unbound userId unlinkAddress

/-- The stage of a bind after a call. -/
def BindStage.next (forUser : JsString) :
    BindStage → (call : UnlinkCall) → Except UnlinkError call.Answer → BindStage
  | waiting, .registerUser _, .ok address => requested forUser address
  | requested userId unlinkAddress, .findUser _, .ok user =>
      afterReading userId unlinkAddress (user.bind UnlinkUser.unlinkAddress)
  | unbound userId unlinkAddress, .updateUser _ _, .ok _ => bound userId unlinkAddress
  | _, _, _ => refused

/-- A rejected call ends a bind. -/
theorem BindStage.next_error (forUser : JsString) (stage : BindStage) (call : UnlinkCall)
    (thrown : UnlinkError) : stage.next forUser call (.error thrown) = .refused := by
  cases stage <;> cases call <;> rfl

/-- Where a request starts. Requests that bind nobody have no stages. -/
def UnlinkRequest.arrival : UnlinkRequest → BindStage
  | bind userId unlinkAddress => .requested userId unlinkAddress
  | _ => .waiting

/-- The stage of a request after a call. -/
def UnlinkRequest.next : UnlinkRequest → BindStage → (call : UnlinkCall) →
    Except UnlinkError call.Answer → BindStage
  | bind userId _, stage, call, answer => stage.next userId call answer
  | register _ userId, stage, call, answer => stage.next userId call answer
  | owns _ _, stage, _, _ => stage
  | authorizationToken _ _, stage, _, _ => stage

/-- The Unlink services, their requests interleaved, against calls that may fail. -/
def unlinkSystem (cfg : UnlinkConfig) (initial : UnlinkUsers) :
    System UnlinkCall.Answer UnlinkError UnlinkResponse UnlinkRequest BindStage UnlinkUsers
      UnlinkCall where
  start := UnlinkRequest.start cfg
  arrival := UnlinkRequest.arrival
  next request stage _ call answer := request.next stage call answer
  env := Unreliable UnlinkCall.Performs
  drift := UnlinkUsers.SignsUp
  initial

/-- The requests under way. -/
abbrev Binding : Type := Thread UnlinkCall.Answer UnlinkError UnlinkResponse UnlinkRequest BindStage

/-- No bind reads a user as unbound while another one, with a different address, has read that
user as unbound and is yet to write. -/
def NoRivalReader :
    System.Condition UnlinkCall.Answer UnlinkError UnlinkResponse UnlinkRequest BindStage
      UnlinkUsers :=
  fun _ threads position call answer =>
    ∀ thread userId unlinkAddress, threads[position]? = some thread →
      thread.request.next thread.stage call answer = .unbound userId unlinkAddress →
      ∀ other ∈ threads, ∀ rival, other.stage = .unbound userId rival → rival = unlinkAddress

/-! ## One bind -/

/-- The calls of a bind at each stage. -/
def BindStage.Allowed : BindStage → UnlinkCall → Prop
  | waiting, call => ∃ payload, call = .registerUser payload
  | requested userId _, call => call = .findUser userId
  | unbound userId unlinkAddress, call => call = .updateUser userId unlinkAddress
  | bound _ _, _ => False
  | refused, _ => False

/-- A request that returns after it has bound a user to an address is at the stage that says
so. -/
def UnlinkRequest.Finish (request : UnlinkRequest) (stage : BindStage)
    (outcome : Except UnlinkError UnlinkResponse) : Prop :=
  match request, outcome with
  | bind userId unlinkAddress, .ok _ => stage = .bound userId unlinkAddress
  | register _ userId, .ok (.registered address) => stage = .bound userId address
  | _, _ => True

/-- The calls of a request at each stage. Only binds have rules. -/
def UnlinkRequest.Allowed : UnlinkRequest → BindStage → UnlinkCall → Prop
  | bind _ _, stage, call => stage.Allowed call
  | register _ _, stage, call => stage.Allowed call
  | owns _ _, stage, call => stage = .waiting ∧ ∀ userId address, call ≠ .updateUser userId address
  | authorizationToken _ _, stage, call =>
      stage = .waiting ∧ ∀ userId address, call ≠ .updateUser userId address

theorem bind_follows (forUser userId unlinkAddress : JsString) :
    Follows (fun stage (_ : UnlinkUsers) call answer => BindStage.next forUser stage call answer)
      BindStage.Allowed
      (fun stage outcome => ∀ done, outcome = .ok done → stage = .bound userId unlinkAddress)
      (.requested userId unlinkAddress) (UnlinkIdentityService.bind userId unlinkAddress) := by
  refine .perform_bind rfl (fun _ user => ?_) fun _ _ _ same => by cases same
  simp only [BindStage.next, BindStage.afterReading]
  generalize user.bind UnlinkUser.unlinkAddress = bound
  by_cases other : (truthy bound).isSome ∧ bound ≠ some unlinkAddress
  · simp only [if_pos other]
    exact fun _ same => by cases same
  · simp only [if_neg other]
    by_cases own : bound = some unlinkAddress
    · simp only [if_pos own]
      exact fun _ _ => rfl
    · simp only [if_neg own]
      refine .tryCatch ⟨rfl, fun _ answer => ?_⟩
      cases answer with
      | ok done => exact fun _ _ => rfl
      | error thrown =>
          change Follows _ _ _ _ (ite _ _ _)
          split
          · exact fun _ same => by cases same
          · exact fun _ same => by cases same

theorem register_follows (cfg : UnlinkConfig) (payload userId : JsString) :
    Follows (fun stage (_ : UnlinkUsers) call answer => BindStage.next userId stage call answer)
      BindStage.Allowed
      (fun stage outcome => ∀ address, outcome = .ok address → stage = .bound userId address)
      .waiting (UnlinkController.register cfg payload userId) := by
  unfold UnlinkController.register UnlinkService.register UnlinkService.require
  split
  · refine .bind (.tryCatch ⟨⟨payload, rfl⟩, fun _ answer => ?_⟩)
    cases answer with
    | ok address =>
        refine .bind (Follows.mono (bind_follows userId userId address) ?_)
        intro reached outcome finished
        cases outcome with
        | ok done =>
            intro returned same
            obtain rfl := Except.ok.inj same
            exact finished done rfl
        | error thrown => exact fun _ same => by cases same
    | error thrown =>
        change Follows _ _ _ _ (ite _ _ _)
        split
        · exact fun _ same => by cases same
        · exact fun _ same => by cases same
  · exact fun _ same => by cases same

/-- A computation that writes nothing keeps to the rules of a request that binds nobody. -/
theorem follows_of_reads {request : UnlinkRequest} {task : Unlink UnlinkResponse}
    (only : CallsOnly (fun call => ∀ userId address, call ≠ .updateUser userId address) task)
    (allowed : ∀ call, (∀ userId address, call ≠ .updateUser userId address) →
      request.Allowed .waiting call)
    (unmoved : ∀ call answer, request.next .waiting call answer = .waiting)
    (finished : ∀ outcome, request.Finish .waiting outcome) :
    Follows (fun stage (_ : UnlinkUsers) call answer => request.next stage call answer)
      request.Allowed request.Finish .waiting task :=
  .of_callsOnly only allowed (fun call _ _ answer => unmoved call answer) finished

theorem owns_reads (userId unlinkAddress : JsString) :
    CallsOnly (fun call => ∀ user address, call ≠ .updateUser user address)
      (UnlinkIdentityService.owns userId unlinkAddress) := by
  unfold UnlinkIdentityService.owns
  split
  · trivial
  · exact .bind (.perform fun _ _ => nofun) fun _ => trivial

theorem authorizationToken_reads (cfg : UnlinkConfig) (unlinkAddress userId : JsString) :
    CallsOnly (fun call => ∀ user address, call ≠ .updateUser user address)
      (UnlinkController.authorizationToken cfg unlinkAddress userId) := by
  refine .bind (owns_reads userId unlinkAddress) fun verdict => ?_
  unfold UnlinkService.issueAuthorizationToken UnlinkService.require
  split
  · refine .bind ?_ fun _ => .perform fun _ _ => nofun
    split
    · trivial
    · trivial
  · trivial

theorem request_follows (cfg : UnlinkConfig) (request : UnlinkRequest) :
    Follows (fun stage (_ : UnlinkUsers) call answer => request.next stage call answer)
      request.Allowed request.Finish request.arrival (request.start cfg) := by
  cases request with
  | bind userId unlinkAddress =>
      refine .bind (Follows.mono (bind_follows userId userId unlinkAddress) ?_)
      intro reached outcome finished
      cases outcome with
      | ok done => exact finished done rfl
      | error thrown => trivial
  | register payload userId =>
      refine .bind (Follows.mono (register_follows cfg payload userId) ?_)
      intro reached outcome finished
      cases outcome with
      | ok address => exact finished address rfl
      | error thrown => trivial
  | owns userId unlinkAddress =>
      exact follows_of_reads (.bind (owns_reads userId unlinkAddress) fun _ => trivial)
        (fun _ reads => ⟨rfl, reads⟩) (fun _ _ => rfl) fun _ => trivial
  | authorizationToken unlinkAddress userId =>
      exact follows_of_reads (.bind (authorizationToken_reads cfg unlinkAddress userId)
        fun _ => trivial) (fun _ reads => ⟨rfl, reads⟩) (fun _ _ => rfl) fun _ => trivial

/-! ## The users -/

/-- What a stage says of the users. The empty address is no address. -/
def BindStage.Accurate : BindStage → UnlinkUsers → Prop
  | unbound userId unlinkAddress, users =>
      truthy (users.addressOf userId) = none ∨ users.addressOf userId = some unlinkAddress
  | bound userId unlinkAddress, users =>
      unlinkAddress ≠ [] → users.addressOf userId = some unlinkAddress
  | _, _ => True

/-- What a stage says depends on the addresses alone. -/
theorem BindStage.Accurate.of_same {users later : UnlinkUsers} {stage : BindStage}
    (accurate : stage.Accurate users)
    (same : ∀ userId, later.addressOf userId = users.addressOf userId) :
    stage.Accurate later := by
  cases stage with
  | unbound userId unlinkAddress => simpa only [Accurate, same] using accurate
  | bound userId unlinkAddress => simpa only [Accurate, same] using accurate
  | waiting | requested | refused => trivial

/-- A call writes one user's address, if any, and only an update does. -/
theorem UnlinkCall.Performs.wrote {call : UnlinkCall} {users later : UnlinkUsers}
    {answer : Except UnlinkError call.Answer} (done : call.Performs users answer later) :
    later = users ∨ ∃ userId unlinkAddress, ∃ free : ¬ users.Taken userId unlinkAddress,
      call = .updateUser userId unlinkAddress ∧
        (users.table.find? userId).isSome ∧ later = users.bindUser userId unlinkAddress free := by
  cases call with
  | updateUser userId unlinkAddress =>
      simp only [UnlinkCall.Performs, UnlinkUsers.updateUser] at done
      split at done
      · exact .inl (Prod.mk.inj done).2
      · rename_i present
        split at done
        · exact .inl (Prod.mk.inj done).2
        · rename_i free
          exact .inr ⟨userId, unlinkAddress, free, rfl, by simpa [Option.isSome_iff_ne_none] using present,
            (Prod.mk.inj done).2⟩
  | findUser userId => exact .inl done.2
  | registerUser payload => exact .inl done
  | issueToken unlinkAddress expiresInSeconds => exact .inl done

/-- The address of a user after an update of that user that returned. -/
theorem UnlinkUsers.addressOf_updateUser {users later : UnlinkUsers} {userId unlinkAddress : JsString}
    (done : (Except.ok (), later) = users.updateUser userId unlinkAddress) :
    later.addressOf userId = some unlinkAddress := by
  unfold UnlinkUsers.updateUser at done
  split at done
  · cases (Prod.mk.inj done).1
  · rename_i present
    split at done
    · cases (Prod.mk.inj done).1
    · rw [(Prod.mk.inj done).2, UnlinkUsers.addressOf_bindUser, if_pos rfl]
      cases found : users.table.find? userId with
      | none => exact absurd (by rw [found]; rfl) present
      | some columns => rfl

/-- A stage says what is so right after the call that led to it. -/
theorem BindStage.accurate_next {users later : UnlinkUsers} {stage : BindStage} {call : UnlinkCall}
    {answer : Except UnlinkError call.Answer} {record : List UnlinkCall} (forUser : JsString)
    (allowed : stage.Allowed call)
    (answered : Unreliable UnlinkCall.Performs call users answer record later) :
    (stage.next forUser call answer).Accurate later := by
  cases answer with
  | error thrown =>
      rw [BindStage.next_error]
      trivial
  | ok value =>
      have done := answered.performed_of_ok
      cases stage with
      | waiting =>
          obtain ⟨payload, rfl⟩ := allowed
          trivial
      | requested userId unlinkAddress =>
          obtain rfl := allowed
          obtain ⟨same, rfl⟩ := done
          obtain rfl := Except.ok.inj same
          change (afterReading userId unlinkAddress (later.addressOf userId)).Accurate later
          unfold afterReading
          split
          · trivial
          · rename_i unrefused
            split
            · rename_i own
              exact fun _ => own
            · rename_i other
              refine .inl (Option.not_isSome_iff_eq_none.mp fun isSome => ?_)
              exact unrefused ⟨isSome, other⟩
      | unbound userId unlinkAddress =>
          obtain rfl := allowed
          exact fun _ => UnlinkUsers.addressOf_updateUser done
      | bound userId unlinkAddress => exact allowed.elim
      | refused => exact allowed.elim

/-- What a stage says survives a write by a bind that agrees with it. -/
theorem BindStage.Accurate.bindUser {users : UnlinkUsers} {stage : BindStage}
    {userId unlinkAddress : JsString} (free : ¬ users.Taken userId unlinkAddress)
    (present : (users.table.find? userId).isSome) (accurate : stage.Accurate users)
    (writer : (unbound userId unlinkAddress).Accurate users)
    (agree : ∀ rival, stage = .unbound userId rival → rival = unlinkAddress) :
    stage.Accurate (users.bindUser userId unlinkAddress free) := by
  have written := users.addressOf_bindUser userId unlinkAddress userId free
  obtain ⟨columns, found⟩ := Option.isSome_iff_exists.mp present
  rw [if_pos rfl, found, Option.map_some] at written
  have others : ∀ other, other ≠ userId →
      (users.bindUser userId unlinkAddress free).addressOf other = users.addressOf other := by
    intro other apart
    rw [users.addressOf_bindUser, if_neg apart]
  cases stage with
  | unbound other rival =>
      by_cases same : other = userId
      · subst same
        exact .inr (written.trans (congrArg some (agree rival rfl).symm))
      · simpa only [Accurate, others other same] using accurate
  | bound other rival =>
      intro nonempty
      by_cases same : other = userId
      · subst same
        -- the user is bound, so that the writer has that address too
        have own := accurate nonempty
        rcases writer with unbound | agreed
        · rw [own] at unbound
          cases rival with
          | nil => exact absurd rfl nonempty
          | cons unit rest => cases unbound
        · rw [written, ← agreed, own]
      · rw [others other same]
        exact accurate nonempty
  | waiting | requested | refused => trivial

/-! ## Runs -/

section Run

variable {cfg : UnlinkConfig} {initial users : UnlinkUsers} {records : List UnlinkCall}
  {threads : List Binding}

/-- Every request of a run keeps to its rules. -/
theorem unlink_follows {meets : System.Condition UnlinkCall.Answer UnlinkError UnlinkResponse
      UnlinkRequest BindStage UnlinkUsers}
    (run : (unlinkSystem cfg initial).Run meets records users threads) :
    ∀ thread ∈ threads, Follows
      (fun stage (_ : UnlinkUsers) call answer => thread.request.next stage call answer)
      thread.request.Allowed thread.request.Finish thread.stage thread.task :=
  run.follows (request_follows cfg)

/-- An update is made by a bind that has read its user as unbound. -/
theorem UnlinkRequest.writes_unbound {request : UnlinkRequest} {stage : BindStage}
    {userId unlinkAddress : JsString}
    (allowed : request.Allowed stage (.updateUser userId unlinkAddress)) :
    stage = .unbound userId unlinkAddress := by
  have bindWrites : stage.Allowed (.updateUser userId unlinkAddress) →
      stage = .unbound userId unlinkAddress := by
    intro allowed
    cases stage with
    | waiting =>
        obtain ⟨payload, same⟩ := allowed
        cases same
    | requested => cases allowed
    | unbound =>
        obtain ⟨rfl, rfl⟩ := UnlinkCall.updateUser.inj allowed
        rfl
    | bound | refused => exact allowed.elim
  cases request with
  | bind | register => exact bindWrites allowed
  | owns | authorizationToken => exact absurd rfl (allowed.2 userId unlinkAddress)

/-- The binds that have read a user as unbound agree on its address. -/
theorem unbound_agree (run : (unlinkSystem cfg initial).Run NoRivalReader records users threads) :
    ∀ (i j : Nat) (first second : Binding), i ≠ j → threads[i]? = some first →
      threads[j]? = some second → ∀ userId address rival,
        first.stage = .unbound userId address → second.stage = .unbound userId rival →
          rival = address := by
  refine run.pairwise (fun first second => ∀ userId address rival,
    first.stage = .unbound userId address → second.stage = .unbound userId rival →
      rival = address) ?_ ?_ ?_
  · intro first second agree userId address rival ofFirst ofSecond
    exact (agree userId rival address ofSecond ofFirst).symm
  · intro request thread userId address rival arrived
    cases request <;> cases arrived
  · intro users threads position request stage call continued answer record later turn other thread
      _ found _ userId address rival reached pending
    exact turn.met _ userId address turn.found reached thread (List.mem_of_getElem? found) rival
      pending

/-- What a request's stage says of the users is so throughout a run. -/
theorem bind_accurate (run : (unlinkSystem cfg initial).Run NoRivalReader records users threads) :
    ∀ thread ∈ threads, thread.stage.Accurate users := by
  refine run.each_at (fun users thread => thread.stage.Accurate users) ?_ ?_ ?_ ?_
  · intro users request
    cases request <;> trivial
  · intro users later thread signed accurate
    exact accurate.of_same signed.addressOf
  · intro users threads position request stage call continued answer record later turn all
    obtain ⟨_, before⟩ := turn.before
    have allowed := (unlink_follows before _ (List.mem_of_getElem? turn.found)).1
    cases request with
    | bind userId unlinkAddress => exact BindStage.accurate_next userId allowed turn.answered
    | register payload userId => exact BindStage.accurate_next userId allowed turn.answered
    | owns userId unlinkAddress =>
        obtain rfl : stage = .waiting := allowed.1
        trivial
    | authorizationToken unlinkAddress userId =>
        obtain rfl : stage = .waiting := allowed.1
        trivial
  · intro users threads position request stage call continued answer record later turn all other
      thread beside found
    obtain ⟨_, before⟩ := turn.before
    have accurate := all thread (List.mem_of_getElem? found)
    have allowed := (unlink_follows before _ (List.mem_of_getElem? turn.found)).1
    refine turn.answered.keeps accurate fun answer later done => ?_
    rcases done.wrote with rfl | ⟨userId, unlinkAddress, free, rfl, present, rfl⟩
    · exact accurate
    · obtain rfl : stage = .unbound userId unlinkAddress := UnlinkRequest.writes_unbound allowed
      refine accurate.bindUser free present (all _ (List.mem_of_getElem? turn.found)) ?_
      intro rival pending
      exact unbound_agree before position other _ thread (Ne.symm beside) turn.found found userId
        unlinkAddress rival rfl pending

/-- The request has bound a user to an address and has returned. -/
def Resolved (userId unlinkAddress : JsString) (thread : Binding) : Prop :=
  (thread.request = .bind userId unlinkAddress ∧ thread.task = .done (.ok .bound)) ∨
    ∃ payload, thread.request = .register payload userId ∧
      thread.task = .done (.ok (.registered unlinkAddress))

/-- The user has the address, and so owns it while no other user does. -/
structure Permanent (users : UnlinkUsers) (userId unlinkAddress : JsString) : Prop where
  bound : users.addressOf userId = some unlinkAddress
  owned : Async.Returns UnlinkCall.respond (UnlinkIdentityService.owns userId unlinkAddress) users
    fun verdict _ => verdict = true
  others : ∀ other, other ≠ userId →
    Async.Returns UnlinkCall.respond (UnlinkIdentityService.owns other unlinkAddress) users
      fun verdict _ => verdict = false

/-- A user who has an address owns it, under the unique index alone. -/
theorem permanent_of_bound {userId unlinkAddress : JsString} (nonempty : unlinkAddress ≠ [])
    (bound : users.addressOf userId = some unlinkAddress) :
    Permanent users userId unlinkAddress where
  bound := bound
  owned := by
    rw [UnlinkIdentityService.returns_owns]
    exact decide_eq_true ⟨nonempty, bound⟩
  others other apart := by
    rw [UnlinkIdentityService.returns_owns]
    exact decide_eq_false fun owned =>
      apart (users.unique other userId unlinkAddress owned.2 bound)

/-- **A binding is permanent** in every run in which no bind reads a user as unbound while
another one, with a different address, has read that user as unbound and is yet to write. A
request that has returned stays in the run, so that the statement is about every later state. -/
theorem bind_permanent (cfg : UnlinkConfig) (initial : UnlinkUsers)
    {records : List UnlinkCall} {users : UnlinkUsers} {threads : List Binding}
    (run : (unlinkSystem cfg initial).Run NoRivalReader records users threads)
    {thread : Binding} (member : thread ∈ threads) {userId unlinkAddress : JsString}
    (nonempty : unlinkAddress ≠ []) (resolved : Resolved userId unlinkAddress thread) :
    Permanent users userId unlinkAddress := by
  have follows := unlink_follows run thread member
  have accurate := bind_accurate run thread member
  obtain ⟨request, stage, task⟩ := thread
  have reached : stage = .bound userId unlinkAddress := by
    rcases resolved with ⟨rfl, rfl⟩ | ⟨payload, rfl, rfl⟩
    · exact follows
    · exact follows
  subst reached
  exact permanent_of_bound nonempty (accurate nonempty)

end Run

/-! ## Two binds of one user -/

/-- One user, who is not bound. -/
def oneUnbound : UnlinkUsers where
  table := Table.empty.insertNew [1] {}
  unique first second address ofFirst _ := by
    rw [unlinkAddressIn, Table.find?_insertNew] at ofFirst
    split at ofFirst <;> cases ofFirst

def unlinkEnabled : UnlinkConfig where
  enabled := true
  tokenTtlSeconds := 300

abbrev oneUnboundSystem :
    System UnlinkCall.Answer UnlinkError UnlinkResponse UnlinkRequest BindStage UnlinkUsers
      UnlinkCall :=
  unlinkSystem unlinkEnabled oneUnbound

/-- Two binds of the user to two addresses, and their calls in some order. -/
def twoBinds (order : List Nat) : List (System.Move UnlinkRequest) :=
  .arrive (.bind [1] [2]) :: .arrive (.bind [1] [3]) :: order.map .call

/-- The requests, whether each of them has bound its user, and the address the user has. -/
def bindSummary (reached : System.Standing UnlinkCall.Answer UnlinkError UnlinkResponse
    UnlinkRequest BindStage UnlinkUsers UnlinkCall) :
    List (UnlinkRequest × Bool) × Option JsString :=
  (reached.threads.map fun thread =>
      (thread.request, decide (thread.task.outcome? = some (.ok .bound))),
    reached.world.addressOf [1])

/-- **Two concurrent binds of one user both return, and the second address replaces the first.** -/
theorem bind_not_permanent :
    ¬ ∀ records users threads,
      oneUnboundSystem.Run System.unconstrained records users threads →
        ∀ thread ∈ threads, ∀ userId unlinkAddress, Resolved userId unlinkAddress thread →
          Permanent users userId unlinkAddress := by
  intro permanent
  have computed : (oneUnboundSystem.play UnlinkCall.respond (fun call _ => [call])
      (fun _ _ _ _ _ => true) (twoBinds [0, 1, 0, 1]) oneUnboundSystem.standing).map bindSummary =
        some ([(.bind [1] [2], true), (.bind [1] [3], true)], some [3]) := by decide +kernel
  obtain ⟨reached, played, summary⟩ := Option.map_eq_some_iff.mp computed
  have run : oneUnboundSystem.Run System.unconstrained reached.records reached.world
      reached.threads :=
    System.run_of_play oneUnboundSystem _ _ _
      (fun users _ _ call _ => ⟨.performed (call.respond_performs users), trivial⟩) _ .start played
  obtain ⟨requests, address⟩ := Prod.mk.inj summary
  obtain ⟨first, rest, threads, firstDone, -⟩ := List.map_eq_cons_iff.mp requests
  obtain ⟨asks, returned⟩ := Prod.mk.inj firstDone
  have kept := permanent _ _ _ run first (by rw [threads]; exact List.mem_cons_self) [1] [2]
    (.inl ⟨asks, Async.eq_done_of_outcome? (of_decide_eq_true returned)⟩)
  exact absurd (address.symm.trans kept.bound) (by decide)

/-- The check of `NoRivalReader` on one call. -/
def noRivalReader (threads : List Binding) (position : Nat) (call : UnlinkCall)
    (answer : Except UnlinkError call.Answer) : Bool :=
  match threads[position]? with
  | none => true
  | some thread =>
      match thread.request.next thread.stage call answer with
      | .unbound userId unlinkAddress =>
          threads.all fun other =>
            match other.stage with
            | .unbound user rival => decide (user = userId → rival = unlinkAddress)
            | _ => true
      | _ => true

theorem noRivalReader_sound {threads : List Binding} {position : Nat} {call : UnlinkCall}
    {answer : Except UnlinkError call.Answer} (users : UnlinkUsers)
    (checked : noRivalReader threads position call answer = true) :
    NoRivalReader users threads position call answer := by
  intro thread userId unlinkAddress found reached other member rival pending
  simp only [noRivalReader, found, reached, List.all_eq_true] at checked
  have agree := checked other member
  rw [pending] at agree
  exact of_decide_eq_true agree rfl

/-- A user who is bound keeps the address when another one is presented. -/
theorem bind_permanent_twice :
    ∃ records users threads, oneUnboundSystem.Run NoRivalReader records users threads ∧
      threads.map Thread.request = [.bind [1] [2], .bind [1] [3]] ∧
        Permanent users [1] [2] := by
  have computed : (oneUnboundSystem.play UnlinkCall.respond (fun call _ => [call])
      (fun _ => noRivalReader) (twoBinds [0, 0, 1]) oneUnboundSystem.standing).map bindSummary =
        some ([(.bind [1] [2], true), (.bind [1] [3], false)], some [2]) := by decide +kernel
  obtain ⟨reached, played, summary⟩ := Option.map_eq_some_iff.mp computed
  have run : oneUnboundSystem.Run NoRivalReader reached.records reached.world reached.threads :=
    System.run_of_play oneUnboundSystem _ _ _
      (fun users _ _ call passed =>
        ⟨.performed (call.respond_performs users), noRivalReader_sound users passed⟩) _ .start played
  obtain ⟨requests, -⟩ := Prod.mk.inj summary
  have asked := congrArg (List.map Prod.fst) requests
  rw [List.map_map] at asked
  obtain ⟨first, rest, threads, firstDone, -⟩ := List.map_eq_cons_iff.mp requests
  obtain ⟨asks, returned⟩ := Prod.mk.inj firstDone
  exact ⟨_, _, _, run, asked, bind_permanent unlinkEnabled oneUnbound run
    (by rw [threads]; exact List.mem_cons_self) (by decide)
    (.inl ⟨asks, Async.eq_done_of_outcome? (of_decide_eq_true returned)⟩)⟩

end Numera
