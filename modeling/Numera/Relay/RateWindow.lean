import Numera.Relay.Service

/-! # The window of an account's rate

An account's requests are counted by a counter of Redis that is given its expiry by the
request that creates it. The counts of one counter are all different, so that no more than
the limit are accepted while it lives, whatever fails (`within_limit`). A counter whose
creation is not answered, or whose expiry is refused, never expires and in the end refuses
everything (`unarmed_limit_stays`); where neither happens to an account, whoever has been
quiet for a window is accepted (`rate_limit_expires`).
-/

namespace Numera

open Async (Ends Environment System Thread)

/-! ## Counters and windows -/

/-- The relay, and how many counters each account has had. -/
structure RateWorld where
  relay : RelayWorld
  windows : JsString → Nat := fun _ => 0

namespace RateWorld

variable (world : RateWorld) (account : JsString)

/-- The window in which a request that is counted now falls. -/
def window : Nat :=
  if (world.relay.counter (.rate account)).isNone then world.windows account + 1
  else world.windows account

/-- What a request that is counted now is answered. -/
def count : Nat := (world.relay.incrby (.rate account) 1).1

/-- Count a request. -/
def incr : RateWorld where
  relay := (world.relay.incrby (.rate account) 1).2
  windows other := if other = account then world.window account else world.windows other

end RateWorld

/-- How far the check of an account's rate has come: the window and the count it was answered,
and when it ended. -/
structure RateCheck where
  counted : Option (Nat × Nat) := none
  ended : Option Nat := none

/-- A check is over when its count was refused, when it need not set the expiry, and when it has
tried to. -/
def rateCheck (account : JsString) (check : RateCheck) (world : RateWorld) :
    (call : RelayCall) → Except RelayError call.Answer → RateCheck
  | .incr _, .ok count =>
      { counted := some (world.window account.toLowerCase, count)
        ended := if count = 1 then none else some world.relay.now }
  | _, _ => { check with ended := some world.relay.now }

/-- The calls of the relay, with the windows they begin. -/
def rateEnvironment : Environment RelayCall.Answer RelayError RateWorld RelayCall :=
  fun call world answer record later =>
    relayEnvironment call world.relay answer record later.relay ∧
      later.windows = fun account =>
        if record = [.incr (.rate account)] then world.window account else world.windows account

/-- The checks of the accounts' rates, interleaved, where every call and its failures are as
allowed. -/
def rateSystem (cfg : RelayConfig) (wiring : Wiring)
    (allowed : RateWorld → (call : RelayCall) → Except RelayError call.Answer → List RelayCall →
      Prop) :
    System RelayCall.Answer RelayError Unit JsString RateCheck RateWorld RelayCall where
  start := RelayService.enforceAccountRate cfg
  arrival _ := {}
  next := rateCheck
  env call world answer record later :=
    rateEnvironment call world answer record later ∧ allowed world call answer record
  drift world later := world.relay.Changes later.relay ∧ later.windows = world.windows
  initial := { relay := { wiring } }

/-- Any command may fail. -/
abbrev anyFailure (_ : RateWorld) (call : RelayCall) (_ : Except RelayError call.Answer)
    (_ : List RelayCall) : Prop := True

/-- The command that creates the account's counter is answered if it is performed, and the one
that sets its expiry is performed. -/
def Arms (account : JsString) (world : RateWorld) :
    (call : RelayCall) → Except RelayError call.Answer → List RelayCall → Prop
  | .incr (.rate other), answer, record =>
      other = account.toLowerCase → (world.relay.counter (.rate other)).isNone → record ≠ [] →
        ∃ count, answer = .ok count
  | .expire (.rate other) _, _, record => other = account.toLowerCase → record ≠ []
  | _, _, _ => True

/-! ## The limit -/

/-- A check of an account's rate. -/
abbrev RateThread : Type :=
  Thread RelayCall.Answer RelayError Unit JsString RateCheck

namespace RateThread

variable (thread : RateThread)

/-- It checks the rate of an account. -/
def Of (account : JsString) : Prop := thread.request.toLowerCase = account.toLowerCase

instance (account : JsString) : Decidable (thread.Of account) :=
  inferInstanceAs (Decidable (_ = _))

/-- The request it was made for has been accepted. -/
def accepted : Bool :=
  match thread.task with
  | .done (.ok _) => true
  | _ => false

/-- It was counted in a window. -/
def countedIn (window : Nat) : Bool := thread.stage.counted.any fun counted => counted.1 = window

end RateThread

/-- No check of the account is being made, and none has been made for a window, except for those
that are still to begin. -/
def Quiet (cfg : RelayConfig) (account : JsString) (world : RateWorld) (threads : List RateThread) :
    Prop :=
  ∀ thread ∈ threads, thread.Of account → thread.stage = {} ∨
    ∃ ended, thread.stage.ended = some ended ∧
      ended + cfg.accountWindowSeconds * 1000 ≤ world.relay.now

/-- Every command is answered. -/
def Answering : Environment RelayCall.Answer RelayError RateWorld RelayCall :=
  fun call world answer record later =>
    rateEnvironment call world answer record later ∧ ∃ value, answer = .ok value

/-- A check accepts when every command is answered, whatever happens between them. -/
def Accepts (task : Relay Unit) : Prop :=
  ∀ world, Ends Answering (fun outcome _ => outcome = .ok ()) task world

/-- A check of an account that has been quiet for a window accepts, once it is counted. -/
def LimitExpires (cfg : RelayConfig) (account : JsString) (world : RateWorld)
    (threads : List RateThread) : Prop :=
  Quiet cfg account world threads → ∀ thread ∈ threads, thread.Of account → thread.stage = {} →
    ∀ call continued, thread.task = .call call continued → ∀ value record later,
      rateEnvironment call world (.ok value) record later → Accepts (continued (.ok value))

/-- What is accepted was counted in some window, and in each window no more than the limit. -/
def WithinLimit (cfg : RelayConfig) (account : JsString) (threads : List RateThread) : Prop :=
  (∀ thread ∈ threads, thread.accepted → ∃ window, thread.countedIn window) ∧
    ∀ window, (threads.filter fun thread =>
      thread.Of account ∧ thread.accepted ∧ thread.countedIn window).length ≤ cfg.accountLimit

/-! ## One check -/

section Checks

variable {cfg : RelayConfig} {wiring : Wiring} {account request : JsString} {check : RateCheck}
  {task : Relay Unit} {world later : RateWorld} {threads : List RateThread} {position : Nat}
  {call : RelayCall} {answer : Except RelayError call.Answer} {record records : List RelayCall}
  {continued : Except RelayError call.Answer → Relay Unit}
  {allowed : RateWorld → (call : RelayCall) → Except RelayError call.Answer → List RelayCall → Prop}

/-- What a check does once it is counted. -/
def afterCount (cfg : RelayConfig) (account : JsString) (count : Nat) : Relay Unit := do
  let _ ← (if count = 1 then
      (RelayCall.expire (.rate account.toLowerCase) cfg.accountWindowSeconds).request
    else return () : Relay Unit)
  if count > cfg.accountLimit then
    throw (.relayRejected .rateLimited
      "Too many trades from this account in a short time. Wait a moment and try again.")
  else return ()

theorem enforceAccountRate_eq (cfg : RelayConfig) (account : JsString) :
    RelayService.enforceAccountRate cfg account =
      (RelayCall.incr (.rate account.toLowerCase)).request >>= afterCount cfg account := rfl

/-- What remains of a check: all of it, the setting of the expiry, or nothing. -/
inductive RateStands (cfg : RelayConfig) (account : JsString) : RateCheck → Relay Unit → Prop where
  | arrives : RateStands cfg account {} (RelayService.enforceAccountRate cfg account)
  | counts (window : Nat) : RateStands cfg account ⟨some (window, 1), none⟩ (afterCount cfg account 1)
  | ends {counted ended outcome}
      (within : outcome = .ok () → ∃ window count,
        counted = some (window, count) ∧ count ≤ cfg.accountLimit) :
      RateStands cfg account ⟨counted, some ended⟩ (.done outcome)

/-- What one call of a check does: it is refused, counts, or sets the expiry. -/
inductive RateTurn (cfg : RelayConfig) (account : JsString) (world : RateWorld) :
    RateCheck → (call : RelayCall) → Except RelayError call.Answer → List RelayCall → RateWorld →
      Prop where
  | refused {check call error} : RateTurn cfg account world check call (.error error) [] world
  | counted {answer : Except RelayError Nat}
      (answered : answer = .ok (world.count account.toLowerCase) ∨ ∃ error, answer = .error error) :
      RateTurn cfg account world {} (.incr (.rate account.toLowerCase)) answer
        [.incr (.rate account.toLowerCase)] (world.incr account.toLowerCase)
  | armed {window : Nat} {answer : Except RelayError Unit} :
      RateTurn cfg account world ⟨some (window, 1), none⟩
        (.expire (.rate account.toLowerCase) cfg.accountWindowSeconds) answer
        [.expire (.rate account.toLowerCase) cfg.accountWindowSeconds]
        { world with
          relay := world.relay.expire (.rate account.toLowerCase) cfg.accountWindowSeconds }

/-- A check that has been counted sets the expiry if it is the first, and is over otherwise. -/
theorem rateStands_counted (window count now : Nat) :
    RateStands cfg account ⟨some (window, count), if count = 1 then none else some now⟩
      (afterCount cfg account count) := by
  by_cases first : count = 1
  · subst first
    exact .counts window
  · unfold afterCount
    rw [if_neg first, if_neg first]
    change RateStands cfg account _ (if count > cfg.accountLimit then throw _ else return ())
    split
    · exact .ends nofun
    · rename_i within
      exact .ends fun _ => ⟨window, count, rfl, Nat.le_of_not_lt within⟩

theorem afterCount_one (cfg : RelayConfig) (account : JsString) :
    afterCount cfg account 1 =
      (RelayCall.expire (.rate account.toLowerCase) cfg.accountWindowSeconds).request >>= fun _ =>
        if 1 > cfg.accountLimit then throw (.relayRejected .rateLimited
          "Too many trades from this account in a short time. Wait a moment and try again.")
        else return () := rfl

/-- A check that makes a call has not been counted, or is to set the expiry. -/
theorem RateStands.call_cases (stands : RateStands cfg account check (.call call continued)) :
    check = {} ∨ ∃ window, check = ⟨some (window, 1), none⟩ ∧
      call = .expire (.rate account.toLowerCase) cfg.accountWindowSeconds := by
  generalize remaining : Async.call call continued = task at stands
  cases stands with
  | arrives => exact .inl rfl
  | counts window =>
      rw [afterCount_one] at remaining
      cases remaining
      exact .inr ⟨window, rfl, rfl⟩
  | ends within => cases remaining

/-- Every call of a check is of one of these kinds. -/
theorem RateStands.turn (stands : RateStands cfg account check (.call call continued))
    (answered : rateEnvironment call world answer record later) :
    RateTurn cfg account world check call answer record later := by
  obtain ⟨relayed, windows⟩ := answered
  obtain ⟨relay, later⟩ := later
  cases windows
  generalize remaining : Async.call call continued = task at stands
  cases stands with
  | arrives =>
      rw [enforceAccountRate_eq] at remaining
      cases remaining
      rcases relayEnvironment_cases relayed with ⟨rfl, same, -, error, rfl⟩ | ⟨rfl, given, done, answer⟩
      · cases same
        exact .refused
      · obtain ⟨rfl, rfl⟩ := done
        have same : world.incr account.toLowerCase = ⟨(world.relay.incrby (.rate account.toLowerCase)
            1).2, fun other => if ([RelayCall.incr (.rate account.toLowerCase)] : List RelayCall) =
              [.incr (.rate other)] then world.window other else world.windows other⟩ := by
          unfold RateWorld.incr
          congr 1
          funext other
          by_cases own : other = account.toLowerCase
          · subst own
            rw [if_pos rfl, if_pos rfl]
          · rw [if_neg own, if_neg fun same => own (by simpa using same.symm)]
        rw [← same]
        refine .counted ?_
        rcases answer with answer | ⟨-, error, answer⟩
        · exact .inl answer
        · exact .inr ⟨_, answer⟩
  | counts window =>
      rw [afterCount_one] at remaining
      cases remaining
      rcases relayEnvironment_cases relayed with ⟨rfl, same, -, error, rfl⟩ | ⟨rfl, given, done, -⟩
      · cases same
        exact .refused
      · obtain ⟨-, rfl⟩ := done
        exact .armed
  | ends within => cases remaining

/-- After a call something of the check remains, or nothing. -/
theorem RateStands.next (stands : RateStands cfg account check (.call call continued))
    (answered : rateEnvironment call world answer record later) :
    RateStands cfg account (rateCheck account check world call answer) (continued answer) := by
  generalize remaining : Async.call call continued = task at stands
  cases stands with
  | arrives =>
      rw [enforceAccountRate_eq] at remaining
      cases remaining
      cases answer with
      | ok count => exact rateStands_counted _ count _
      | error error => exact .ends nofun
  | counts window =>
      rw [afterCount_one] at remaining
      cases remaining
      cases answer with
      | error error => exact .ends nofun
      | ok done =>
          change RateStands cfg account _ (if 1 > cfg.accountLimit then throw _ else return ())
          split
          · exact .ends nofun
          · rename_i within
            exact .ends fun _ => ⟨window, 1, rfl, Nat.le_of_not_lt within⟩
  | ends within => cases remaining

/-- Something or nothing remains of every check. -/
theorem rateStands (run : (rateSystem cfg wiring allowed).Run System.unconstrained records world
    threads) :
    ∀ thread ∈ threads, RateStands cfg thread.request thread.stage thread.task :=
  run.each (fun _ thread => RateStands cfg thread.request thread.stage thread.task)
    (fun _ _ => .arrives) (fun _ _ _ _ stands => stands)
    (fun _ _ _ _ _ _ _ _ _ _ turn stands => stands.next turn.answered.1)
    fun _ _ _ _ _ _ _ _ _ _ _ _ _ stands => stands

end Checks

/-! ## Within the limit -/

section Limit

variable {cfg : RelayConfig} {wiring : Wiring} {account : JsString} {world later : RateWorld}
  {threads : List RateThread} {records : List RelayCall}
  {allowed : RateWorld → (call : RelayCall) → Except RelayError call.Answer → List RelayCall → Prop}

/-- What a check was answered when it was counted. -/
def RateThread.number (thread : RateThread) : Nat := (thread.stage.counted.map Prod.snd).getD 0

/-- A check was counted in a window that is over, or by the counter that is there. -/
def RateThread.CountedBy (world : RateWorld) (thread : RateThread) : Prop :=
  ∀ window count, thread.stage.counted = some (window, count) → 1 ≤ count ∧
    (window < world.windows thread.request.toLowerCase ∨
      window = world.windows thread.request.toLowerCase ∧
        ∃ counter, world.relay.counters (.rate thread.request.toLowerCase) = some counter ∧
          count ≤ counter.value)

/-- The counter that counts a request, and the window it counts in. -/
theorem RateWorld.incr_spec (world : RateWorld) (account : JsString) :
    ∃ counter, (world.incr account).relay.counters (.rate account) = some counter ∧
      counter.value = world.count account ∧
      (world.windows account < (world.incr account).windows account ∨
        world.windows account = (world.incr account).windows account ∧
          ∃ before, world.relay.counters (.rate account) = some before ∧
            before.value < counter.value) := by
  refine ⟨_, if_pos rfl, rfl, ?_⟩
  have windows : (world.incr account).windows account = world.window account := if_pos rfl
  rw [windows]
  unfold RateWorld.window
  cases there : world.relay.counter (.rate account) with
  | none => exact .inl (Nat.lt_succ_self _)
  | some before =>
      refine .inr ⟨rfl, before, ?_, ?_⟩
      · exact (Option.filter_eq_some_iff.mp there).1
      · exact Nat.lt_succ_self _

/-- A request leaves the counters of the other accounts as they are. -/
theorem RateWorld.counters_incr (world : RateWorld) {account other : JsString}
    (apart : account ≠ other) :
    (world.incr account).relay.counters (.rate other) = world.relay.counters (.rate other) :=
  world.relay.counters_setCounter _ fun same => apart (RedisKey.rate.inj same).symm

/-- From one world to another the account's counter counts on, or the window is over. -/
def RateWorld.CountsOn (world later : RateWorld) (account : JsString) : Prop :=
  world.windows account < later.windows account ∨
    world.windows account = later.windows account ∧
      ∀ counter, world.relay.counters (.rate account) = some counter →
        ∃ after, later.relay.counters (.rate account) = some after ∧ counter.value ≤ after.value

theorem RateWorld.CountsOn.of_eq (counters : later.relay.counters = world.relay.counters)
    (windows : later.windows = world.windows) (account : JsString) :
    world.CountsOn later account := by
  refine .inr ⟨by rw [windows], fun counter there => ⟨counter, ?_, Nat.le_refl _⟩⟩
  rw [counters]
  exact there

theorem RateWorld.countsOn_incr (world : RateWorld) (account other : JsString) :
    world.CountsOn (world.incr account) other := by
  by_cases own : other = account
  · subst own
    obtain ⟨counter, there, -, outlived | ⟨same, before, earlier, more⟩⟩ := world.incr_spec other
    · exact .inl outlived
    · refine .inr ⟨same, fun held found => ⟨counter, there, ?_⟩⟩
      obtain rfl := Option.some.inj (earlier.symm.trans found)
      exact Nat.le_of_lt more
  · refine .inr ⟨(if_neg own).symm, fun counter there => ⟨counter, ?_, Nat.le_refl _⟩⟩
    exact (world.counters_incr (Ne.symm own)).trans there

/-- Every call and every change of the world counts on. -/
theorem RateTurn.countsOn {request : JsString} {check : RateCheck} {call : RelayCall}
    {answer : Except RelayError call.Answer} {record : List RelayCall}
    (turn : RateTurn cfg request world check call answer record later) (account : JsString) :
    world.CountsOn later account := by
  cases turn with
  | refused => exact .of_eq rfl rfl account
  | counted => exact world.countsOn_incr _ account
  | armed =>
      refine .inr ⟨rfl, fun counter there => ?_⟩
      unfold RelayWorld.expire
      split
      · exact ⟨counter, there, Nat.le_refl _⟩
      · rename_i live found
        by_cases own : RedisKey.rate account = .rate request.toLowerCase
        · rw [own] at there
          obtain rfl := Option.some.inj ((Option.filter_eq_some_iff.mp found).1.symm.trans there)
          exact ⟨_, if_pos own, Nat.le_refl _⟩
        · exact ⟨counter, (if_neg own).trans there, Nat.le_refl _⟩

theorem RateThread.CountedBy.mono {thread : RateThread} (counted : thread.CountedBy world)
    (on : world.CountsOn later thread.request.toLowerCase) : thread.CountedBy later := by
  intro window count has
  obtain ⟨positive, outlived | ⟨here, counter, there, below⟩⟩ := counted window count has
  · refine ⟨positive, .inl ?_⟩
    rcases on with more | ⟨same, -⟩
    · exact Nat.lt_trans outlived more
    · exact same ▸ outlived
  · refine ⟨positive, ?_⟩
    rcases on with more | ⟨same, kept⟩
    · exact .inl (here ▸ more)
    · obtain ⟨after, found, least⟩ := kept counter there
      exact .inr ⟨here.trans same, after, found, Nat.le_trans below least⟩

theorem RelayWorld.Changes.counters_eq {before after : RelayWorld} (changes : before.Changes after) :
    after.counters = before.counters := by
  cases changes <;> rfl

/-- A check that is counted has a count of its own window. -/
theorem RateTurn.counted_eq {request : JsString} {check : RateCheck} {call : RelayCall}
    {answer : Except RelayError call.Answer} {record : List RelayCall} {window count : Nat}
    (turn : RateTurn cfg request world check call answer record later)
    (has : (rateCheck request check world call answer).counted = some (window, count)) :
    check.counted = some (window, count) ∨
      later = world.incr request.toLowerCase ∧ window = later.windows request.toLowerCase ∧
        count = world.count request.toLowerCase := by
  cases turn with
  | @refused check call error =>
      cases call <;> exact .inl has
  | counted answered =>
      rcases answered with rfl | ⟨error, rfl⟩
      · cases has
        exact .inr ⟨rfl, (if_pos rfl).symm, rfl⟩
      · cases has
  | armed => exact .inl has

/-- Every count is one of a window that is over, or of the counter that is there. -/
theorem countedBy (run : (rateSystem cfg wiring allowed).Run System.unconstrained records world
    threads) :
    ∀ thread ∈ threads, thread.CountedBy world := by
  refine run.each (fun world thread => RateThread.CountedBy world thread) ?_ ?_ ?_ ?_
  · exact fun _ _ _ _ has => nomatch has
  · exact fun world later thread passed counted =>
      counted.mono (.of_eq passed.1.counters_eq passed.2 _)
  · intro world threads position request check call continued answer record later turn counted window
      count has
    obtain ⟨_, before⟩ := turn.before
    have stands := rateStands before _ (List.mem_of_getElem? turn.found)
    have made := stands.turn turn.answered.1
    rcases made.counted_eq has with already | ⟨rfl, rfl, rfl⟩
    · exact counted.mono (made.countsOn _) window count already
    · obtain ⟨counter, there, value, -⟩ := world.incr_spec request.toLowerCase
      exact ⟨Nat.succ_pos _, .inr ⟨rfl, counter, there, Nat.le_of_eq value.symm⟩⟩
  · intro world threads position request check call continued answer record later thread turn _
      counted
    obtain ⟨_, before⟩ := turn.before
    have stands := rateStands before _ (List.mem_of_getElem? turn.found)
    exact counted.mono ((stands.turn turn.answered.1).countsOn _)

/-- What is counted now has a count of its own in its window. -/
theorem RateThread.CountedBy.count_ne {thread : RateThread} (counted : thread.CountedBy world)
    (own : thread.request.toLowerCase = account) {count : Nat}
    (has : thread.stage.counted = some ((world.incr account).windows account, count)) :
    count ≠ world.count account := by
  subst own
  obtain ⟨-, place⟩ := counted _ _ has
  obtain ⟨counter, -, value, grown⟩ := world.incr_spec thread.request.toLowerCase
  rcases grown with outlived | ⟨stays, before, present, more⟩
  · rcases place with earlier | ⟨now, -⟩ <;> omega
  · rcases place with earlier | ⟨-, held, there, below⟩
    · omega
    · obtain rfl := Option.some.inj (present.symm.trans there)
      omega

/-- Two checks of one account that were counted in one window were counted apart. -/
theorem counted_apart (run : (rateSystem cfg wiring allowed).Run System.unconstrained records world
    threads) :
    ∀ (i j : Nat) (first second : RateThread), i ≠ j → threads[i]? = some first →
      threads[j]? = some second → first.request.toLowerCase = second.request.toLowerCase →
      ∀ window one other, first.stage.counted = some (window, one) →
        second.stage.counted = some (window, other) → one ≠ other := by
  refine run.pairwise (fun first second =>
    first.request.toLowerCase = second.request.toLowerCase →
      ∀ window one other, first.stage.counted = some (window, one) →
        second.stage.counted = some (window, other) → one ≠ other) ?_ ?_ ?_
  · exact fun first second apart same window one other here there =>
      (apart same.symm window other one there here).symm
  · exact fun _ _ _ _ _ _ has => nomatch has
  · intro world threads position request check call continued answer record later turn other thread
      beside found apart same window one another here there
    obtain ⟨_, before⟩ := turn.before
    have stands := rateStands before _ (List.mem_of_getElem? turn.found)
    rcases (stands.turn turn.answered.1).counted_eq here with already | ⟨rfl, rfl, rfl⟩
    · exact apart same window one another already there
    · exact ((countedBy before thread (List.mem_of_getElem? found)).count_ne same.symm there).symm

/-- No more than so many can be numbered apart from one up. -/
theorem length_le_of_numbered {α : Type} {items : List α} {number : α → Nat} {limit : Nat}
    (apart : items.Pairwise fun first second => number first ≠ number second)
    (within : ∀ item ∈ items, 1 ≤ number item ∧ number item ≤ limit) : items.length ≤ limit := by
  have distinct : (items.map number).Nodup := List.pairwise_map.mpr apart
  have inside : items.map number ⊆ List.range' 1 limit := by
    intro value member
    obtain ⟨item, present, rfl⟩ := List.mem_map.mp member
    have bounds := within item present
    exact List.mem_range'_1.mpr ⟨bounds.1, by omega⟩
  have short := distinct.length_le_of_subset inside
  rwa [List.length_map, List.length_range'] at short

/-- **No window accepts more than the limit**, whatever fails. -/
theorem within_limit (run : (rateSystem cfg wiring allowed).Run System.unconstrained records world
    threads) (account : JsString) : WithinLimit cfg account threads := by
  have has : ∀ thread ∈ threads, thread.accepted → ∃ window count,
      thread.stage.counted = some (window, count) ∧ count ≤ cfg.accountLimit := by
    intro thread member accepted
    have stands := rateStands run thread member
    unfold RateThread.accepted at accepted
    split at accepted
    · rename_i value finished
      rw [finished] at stands
      generalize thread.stage = check at stands ⊢
      generalize same : Async.done (Except.ok value) = task at stands
      cases stands with
      | arrives => cases same
      | counts window =>
          rw [afterCount_one] at same
          cases same
      | ends within => exact within (Async.done.inj same).symm
    · cases accepted
  refine ⟨fun thread member accepted => ?_, fun window => ?_⟩
  · obtain ⟨window, count, counted, -⟩ := has thread member accepted
    refine ⟨window, ?_⟩
    unfold RateThread.countedIn
    rw [counted]
    exact decide_eq_true rfl
  · have inside : ∀ thread ∈ threads.filter fun thread : RateThread =>
        decide (thread.Of account ∧ thread.accepted ∧ thread.countedIn window), thread.Of account ∧
          ∃ count, thread.stage.counted = some (window, count) ∧ 1 ≤ count ∧
            count ≤ cfg.accountLimit := by
      intro thread member
      obtain ⟨present, passes⟩ := List.mem_filter.mp member
      obtain ⟨own, accepted, counted⟩ := of_decide_eq_true passes
      obtain ⟨place, count, here, within⟩ := has thread present accepted
      unfold RateThread.countedIn at counted
      rw [here] at counted
      obtain rfl : place = window := of_decide_eq_true counted
      exact ⟨own, count, here, (countedBy run thread present _ _ here).1, within⟩
    have apart : threads.Pairwise fun first second =>
        first.Of account → second.Of account → ∀ one other,
          first.stage.counted = some (window, one) →
            second.stage.counted = some (window, other) → one ≠ other := by
      refine List.pairwise_iff_getElem.mpr fun i j bound bound' less own own' one other => ?_
      exact counted_apart run i j _ _ (Nat.ne_of_lt less) (List.getElem?_eq_getElem bound)
        (List.getElem?_eq_getElem bound') (own.trans own'.symm) window one other
    have numbered : (threads.filter fun thread : RateThread =>
        decide (thread.Of account ∧ thread.accepted ∧ thread.countedIn window)).Pairwise
          fun first second => first.number ≠ second.number := by
      refine (apart.filter _).imp_of_mem fun here there differ => ?_
      obtain ⟨own, one, counted, -⟩ := inside _ here
      obtain ⟨own', other, counted', -⟩ := inside _ there
      simp only [RateThread.number, counted, counted']
      exact differ own own' one other counted counted'
    refine length_le_of_numbered numbered fun thread member => ?_
    obtain ⟨-, count, counted, bounds⟩ := inside thread member
    simp only [RateThread.number, counted]
    exact bounds

end Limit

/-! ## Expiry -/

section Expiry

variable {cfg : RelayConfig} {wiring : Wiring} {account : JsString} {world later : RateWorld}
  {threads : List RateThread} {records : List RelayCall}

/-- The counter of an account was left by a check that has ended, to expire a window later, or by
one that has still to set its expiry. -/
def Expiring (cfg : RelayConfig) (account : JsString) (world : RateWorld)
    (threads : List RateThread) : Prop :=
  ∀ counter, world.relay.counters (.rate account.toLowerCase) = some counter →
    ∃ thread ∈ threads, thread.Of account ∧
      (counter.expiresAt = none ∧ thread.stage.counted.isSome ∧ thread.stage.ended = none ∨
        ∃ ended, thread.stage.ended = some ended ∧
          counter.expiresAt = some (ended + cfg.accountWindowSeconds * 1000))

/-- A request that is served is the caller, or still there after its call. -/
theorem caller_or_mem {caller after thread : RateThread} {position : Nat}
    (found : threads[position]? = some caller) (member : thread ∈ threads) :
    thread = caller ∨ thread ∈ threads.set position after := by
  obtain ⟨other, here⟩ := List.mem_iff_getElem?.mp member
  by_cases same : other = position
  · subst same
    exact .inl (Option.some.inj (here.symm.trans found))
  · exact .inr (List.mem_of_getElem? (by rw [List.getElem?_set_ne (Ne.symm same), here]))

/-- A counter that is not there has expired. -/
theorem expired_of_counter_eq_none {relay : RelayWorld} {key : RedisKey} {counter : Counter}
    (there : relay.counters key = some counter) (gone : relay.counter key = none) :
    ∃ expiresAt, counter.expiresAt = some expiresAt ∧ expiresAt ≤ relay.now := by
  unfold RelayWorld.counter at gone
  rw [there] at gone
  cases expires : counter.expiresAt with
  | none => simp [expires] at gone
  | some expiresAt => exact ⟨expiresAt, rfl, by simpa [expires] using gone⟩

namespace Expiring

variable {request : JsString} {check : RateCheck} {task : Relay Unit} {position : Nat}

/-- Whoever left a counter stays, unless it is the caller that is to set the expiry. -/
theorem stays (expiring : Expiring cfg account world threads) (after : RateThread)
    (found : threads[position]? = some ⟨request, check, task⟩) (pending : check.ended = none)
    {counter : Counter} (there : world.relay.counters (.rate account.toLowerCase) = some counter)
    (other : (request.toLowerCase = account.toLowerCase → check = {}) ∨ counter.expiresAt ≠ none) :
    ∃ thread ∈ threads.set position after, thread.Of account ∧
      (counter.expiresAt = none ∧ thread.stage.counted.isSome ∧ thread.stage.ended = none ∨
        ∃ ended, thread.stage.ended = some ended ∧
          counter.expiresAt = some (ended + cfg.accountWindowSeconds * 1000)) := by
  obtain ⟨thread, member, own, left⟩ := expiring counter there
  rcases caller_or_mem found member with rfl | stays
  · rcases left with ⟨unset, counted, -⟩ | ⟨ended, outlived, -⟩
    · rcases other with fresh | set
      · obtain rfl := fresh own
        cases counted
      · exact absurd unset set
    · cases pending.symm.trans outlived
  · exact ⟨thread, stays, own, left⟩

/-- The counter of another account is counted on, or set to expire. -/
theorem beside (expiring : Expiring cfg account world threads) (after : RateThread)
    (found : threads[position]? = some ⟨request, check, task⟩) (pending : check.ended = none)
    (apart : request.toLowerCase ≠ account.toLowerCase)
    (same : later.relay.counters (.rate account.toLowerCase) =
      world.relay.counters (.rate account.toLowerCase)) :
    Expiring cfg account later (threads.set position after) := by
  intro counter there
  rw [same] at there
  exact expiring.stays after found pending there (.inl fun own => absurd own apart)

/-- A request of the account is counted: a counter that is there was left by another check, and
a new one is left by this. -/
theorem counted (expiring : Expiring cfg account world threads) {answer : Except RelayError Nat}
    {continued : Relay Unit}
    (found : threads[position]? = some ⟨request, {}, task⟩)
    (own : request.toLowerCase = account.toLowerCase)
    (answered : answer = .ok (world.count request.toLowerCase) ∨ ∃ error, answer = .error error)
    (arms : Arms account world (.incr (.rate request.toLowerCase)) answer
      [.incr (.rate request.toLowerCase)]) :
    Expiring cfg account (world.incr request.toLowerCase) (threads.set position
      ⟨request, rateCheck request {} world (.incr (.rate request.toLowerCase)) answer,
        continued⟩) := by
  obtain ⟨bound, -⟩ := List.getElem?_eq_some_iff.mp found
  intro counter there
  have same : (world.incr request.toLowerCase).relay.counters (.rate account.toLowerCase) =
      some { (world.relay.counter (.rate request.toLowerCase)).getD ⟨0, none⟩ with
        value := world.count request.toLowerCase } := by
    rw [own]
    exact if_pos rfl
  obtain rfl := Option.some.inj (same.symm.trans there)
  cases live : world.relay.counter (.rate request.toLowerCase) with
  | some before =>
      have held : world.relay.counters (.rate account.toLowerCase) = some before := by
        rw [← own]
        exact (Option.filter_eq_some_iff.mp live).1
      -- counting on keeps the expiry
      have left (after : RateThread) := expiring.stays after found rfl held (.inl fun _ => rfl)
      exact left _
  | none =>
      obtain ⟨count, rfl⟩ := arms own (by rw [live]; rfl) (List.cons_ne_nil _ _)
      have first : count = 1 := by
        rcases answered with same | ⟨error, same⟩
        · rw [Except.ok.inj same]
          simp [RateWorld.count, RelayWorld.incrby, live]
        · cases same
      subst first
      exact ⟨_, List.mem_set bound _, own, .inl ⟨rfl, rfl, rfl⟩⟩

/-- The check that left the counter of the account sets its expiry, and ends. -/
theorem armed (expiring : Expiring cfg account world threads) {window : Nat}
    {answer : Except RelayError Unit} {continued : Relay Unit}
    (found : threads[position]? = some ⟨request, ⟨some (window, 1), none⟩, task⟩)
    (own : request.toLowerCase = account.toLowerCase) :
    Expiring cfg account
      { world with
        relay := world.relay.expire (.rate request.toLowerCase) cfg.accountWindowSeconds }
      (threads.set position ⟨request, rateCheck request ⟨some (window, 1), none⟩ world
        (.expire (.rate request.toLowerCase) cfg.accountWindowSeconds) answer, continued⟩) := by
  obtain ⟨bound, -⟩ := List.getElem?_eq_some_iff.mp found
  have ended : (rateCheck request ⟨some (window, 1), none⟩ world
      (.expire (.rate request.toLowerCase) cfg.accountWindowSeconds) answer).ended =
        some world.relay.now := rfl
  intro counter there
  unfold RelayWorld.expire at there
  split at there
  · -- the counter has expired in the meantime, and is as it was
    rename_i gone
    rw [own] at gone
    obtain ⟨expiresAt, set, -⟩ := expired_of_counter_eq_none there gone
    refine expiring.stays _ found rfl there (.inr ?_)
    rw [set]
    exact Option.some_ne_none _
  · rw [own] at there
    obtain rfl := Option.some.inj ((if_pos rfl).symm.trans there)
    exact ⟨_, List.mem_set bound _, own, .inr ⟨_, ended, rfl⟩⟩

end Expiring

/-- One call leaves the counter of the account so, where it is given its expiry. -/
theorem RateTurn.expiring {request : JsString} {check : RateCheck} {call : RelayCall}
    {answer : Except RelayError call.Answer} {record : List RelayCall} {position : Nat}
    {continued : Except RelayError call.Answer → Relay Unit}
    (made : RateTurn cfg request world check call answer record later)
    (stands : RateStands cfg request check (.call call continued))
    (arms : Arms account world call answer record)
    (found : threads[position]? = some ⟨request, check, .call call continued⟩)
    (expiring : Expiring cfg account world threads) :
    Expiring cfg account later (threads.set position
      ⟨request, rateCheck request check world call answer, continued answer⟩) := by
  have pending : check.ended = none := by
    rcases stands.call_cases with rfl | ⟨window, rfl, -⟩ <;> rfl
  cases made with
  | @refused check call error =>
      intro counter there
      refine expiring.stays _ found pending there (.inl fun own => ?_)
      rcases stands.call_cases with fresh | ⟨window, -, rfl⟩
      · exact fresh
      · exact absurd rfl (arms own)
  | counted answered =>
      by_cases own : request.toLowerCase = account.toLowerCase
      · exact expiring.counted found own answered arms
      · exact expiring.beside _ found pending own (world.counters_incr own)
  | armed =>
      by_cases own : request.toLowerCase = account.toLowerCase
      · exact expiring.armed found own
      · refine expiring.beside _ found pending own (world.relay.counters_expire _ fun same => ?_)
        exact own (RedisKey.rate.inj same).symm

/-- **Where every counter of an account is given its expiry**, it was left so. -/
theorem expiring (run : (rateSystem cfg wiring (Arms account)).Run System.unconstrained records world
    threads) : Expiring cfg account world threads := by
  refine run.together (Expiring cfg account) ?_ ?_ ?_ ?_
  · exact fun counter there => nomatch there
  · intro world later threads passed expiring counter there
    rw [passed.1.counters_eq] at there
    exact expiring counter there
  · intro world threads request expiring counter there
    obtain ⟨thread, member, rest⟩ := expiring counter there
    exact ⟨thread, List.mem_append_left _ member, rest⟩
  · intro world threads position request check call continued answer record later turn expiring
      counter there
    obtain ⟨_, before⟩ := turn.before
    have stands := rateStands before _ (List.mem_of_getElem? turn.found)
    have made := stands.turn turn.answered.1
    exact made.expiring stands turn.answered.2 turn.found expiring counter there

/-- The counter of an account that has been quiet for a window has expired. -/
theorem counter_of_quiet (expiring : Expiring cfg account world threads)
    (quiet : Quiet cfg account world threads) :
    world.relay.counter (.rate account.toLowerCase) = none := by
  cases live : world.relay.counter (.rate account.toLowerCase) with
  | none => rfl
  | some counter =>
      obtain ⟨there, unexpired⟩ := Option.filter_eq_some_iff.mp live
      obtain ⟨thread, member, own, left⟩ := expiring counter there
      rcases quiet thread member own with fresh | ⟨ended, outlived, past⟩
      · rw [fresh] at left
        rcases left with ⟨-, counted, -⟩ | ⟨ended, outlived, -⟩
        · cases counted
        · cases outlived
      · rcases left with ⟨-, -, pending⟩ | ⟨left, past', set⟩
        · cases pending.symm.trans outlived
        · obtain rfl := Option.some.inj (outlived.symm.trans past')
          rw [set] at unexpired
          exact absurd (of_decide_eq_true unexpired) (Nat.not_lt.mpr past)

/-- A check that was counted first accepts. -/
theorem accepts_afterCount (positive : 0 < cfg.accountLimit) (request : JsString) :
    Accepts (afterCount cfg request 1) := by
  intro world answer record later answered
  obtain ⟨-, value, rfl⟩ := answered
  change Ends Answering _ (if 1 > cfg.accountLimit then throw _ else return ()) later
  rw [if_neg (Nat.not_lt.mpr positive)]
  rfl

/-- **A rate limit expires.** In a run in which every counter of an account is given its expiry,
whoever has been quiet for a window is accepted, and no window accepts more than the limit. -/
theorem rate_limit_expires (cfg : RelayConfig) (wiring : Wiring) (account : JsString)
    (positive : 0 < cfg.accountLimit) {records : List RelayCall} {world : RateWorld}
    {threads : List RateThread}
    (run : (rateSystem cfg wiring (Arms account)).Run System.unconstrained records world threads) :
    LimitExpires cfg account world threads ∧ WithinLimit cfg account threads := by
  refine ⟨fun quiet thread member own fresh call continued same value record later answered => ?_,
    within_limit run account⟩
  have stands := rateStands run thread member
  rw [fresh, same] at stands
  generalize remaining : Async.call call continued = task at stands
  generalize check : ({} : RateCheck) = stage at stands
  cases stands with
  | counts window => cases check
  | ends within => cases check
  | arrives =>
      rw [enforceAccountRate_eq] at remaining
      cases remaining
      obtain ⟨performed, -⟩ := relayEnvironment_ok answered.1
      have first : value = 1 := by
        rw [Except.ok.inj performed, RelayWorld.incrby, show thread.request.toLowerCase =
          account.toLowerCase from own, counter_of_quiet (expiring run) quiet]
        rfl
      rw [first]
      exact accepts_afterCount positive thread.request

end Expiry

/-! ## Two checks -/

section Samples

variable (world : RateWorld) (account : JsString)

theorem rateEnvironment_refused {call : RelayCall} (external : call.external) (error : CallError) :
    rateEnvironment call world (.error (.call error)) [] world := by
  refine ⟨?_, funext fun other => (if_neg (List.cons_ne_nil _ _).symm).symm⟩
  unfold relayEnvironment
  rw [if_pos external]
  exact ⟨.refused _, fun thrown same => ⟨error, (Except.error.inj same).symm⟩⟩

theorem rateEnvironment_incr :
    rateEnvironment (.incr (.rate account)) world (.ok (world.count account))
      [.incr (.rate account)] (world.incr account) := by
  refine ⟨⟨.performed ⟨rfl, rfl⟩, nofun⟩, funext fun other => ?_⟩
  by_cases own : other = account
  · subst own
    rw [if_pos rfl]
    exact if_pos rfl
  · rw [if_neg fun same => own (by simpa using same.symm)]
    exact if_neg own

theorem rateEnvironment_expire (seconds : Nat) :
    rateEnvironment (.expire (.rate account) seconds) world (.ok ())
      [.expire (.rate account) seconds]
      { world with relay := world.relay.expire (.rate account) seconds } :=
  ⟨⟨.performed ⟨rfl, rfl⟩, nofun⟩, funext fun other => (if_neg (by simp)).symm⟩

end Samples

namespace SampleRelay

/-- One request in a minute. -/
def strict : RelayConfig := { config with accountLimit := 1 }

/-- Redis before the first request. -/
def empty : RateWorld := { relay := { wiring } }

/-- Redis after the first request of an account was counted. -/
def once : RateWorld := empty.incr (address 'c')

/-- Redis after the expiry was set as well. -/
def expiringOnce : RateWorld :=
  { once with relay := once.relay.expire (.rate (address 'c')) 60 }

/-- An hour later. -/
def anHourLater (world : RateWorld) : RateWorld :=
  { world with relay := { world.relay with now := 3600000 } }

/-- A request of the account that is still to be checked. -/
def unchecked : RateThread := ⟨address 'c', {}, RelayService.enforceAccountRate strict (address 'c')⟩

/-- One that was counted, and could not set the expiry. -/
def unarmed : RateThread :=
  ⟨address 'c', ⟨some (1, 1), some 0⟩, .done (.error (.call ⟨[], []⟩))⟩

/-- One that was accepted. -/
def armed : RateThread := ⟨address 'c', ⟨some (1, 1), some 0⟩, .done (.ok ())⟩

end SampleRelay

open SampleRelay in
/-- **A counter whose expiry is refused stays**: an account that made one request an hour ago is
refused. -/
theorem unarmed_limit_stays :
    ¬ ∀ records world threads,
      (rateSystem strict wiring anyFailure).Run System.unconstrained records world threads →
        LimitExpires strict (address 'c') world threads ∧
          WithinLimit strict (address 'c') threads := by
  intro holds
  have arrived : (rateSystem strict wiring anyFailure).Run System.unconstrained [] empty
      [unchecked] := .arrive .start (address 'c')
  have counted := arrived.call (show [unchecked][0]? = some _ from rfl)
    ⟨rateEnvironment_incr empty (address 'c'), trivial⟩ trivial
  have refused := counted.call (show [_][0]? = some _ from rfl)
    ⟨rateEnvironment_refused once rfl ⟨[], []⟩, trivial⟩ trivial
  have passed := refused.pass (show (rateSystem strict wiring anyFailure).drift _
    (anHourLater once) from ⟨.waits (Nat.zero_le _), rfl⟩)
  have again := passed.arrive (address 'c')
  have expires := (holds _ _ _ again).1
  have quiet : Quiet strict (address 'c') (anHourLater once) [unarmed, unchecked] := by
    intro thread member _
    rcases List.mem_cons.mp member with rfl | member
    · exact .inr ⟨0, rfl, by decide⟩
    · rw [List.mem_singleton.mp member]
      exact .inl rfl
  have accepts := expires quiet unchecked (List.mem_cons_of_mem _ List.mem_cons_self) rfl rfl _ _ rfl
    2 _ _ (rateEnvironment_incr (anHourLater once) (address 'c'))
  exact absurd (accepts empty) (by intro same; cases same)

open SampleRelay in
/-- An account that made one request an hour ago is accepted where its counter has expired. -/
theorem rate_limit_expires_hour :
    ∃ records threads,
      (rateSystem strict wiring (Arms (address 'c'))).Run System.unconstrained records
        (anHourLater expiringOnce) threads ∧
      Quiet strict (address 'c') (anHourLater expiringOnce) threads ∧
      unchecked ∈ threads ∧
      LimitExpires strict (address 'c') (anHourLater expiringOnce) threads ∧
      WithinLimit strict (address 'c') threads := by
  have arrived : (rateSystem strict wiring (Arms (address 'c'))).Run System.unconstrained [] empty
      [unchecked] := .arrive .start (address 'c')
  have counted := arrived.call (show [unchecked][0]? = some _ from rfl)
    ⟨rateEnvironment_incr empty (address 'c'), fun _ _ _ => ⟨_, rfl⟩⟩ trivial
  have expires := counted.call (show [_][0]? = some _ from rfl)
    ⟨rateEnvironment_expire once (address 'c') 60, fun _ => List.cons_ne_nil _ _⟩ trivial
  have passed := expires.pass (show (rateSystem strict wiring (Arms (address 'c'))).drift _
    (anHourLater expiringOnce) from ⟨.waits (Nat.zero_le _), rfl⟩)
  have again := passed.arrive (address 'c')
  have quiet : Quiet strict (address 'c') (anHourLater expiringOnce) [armed, unchecked] := by
    intro thread member _
    rcases List.mem_cons.mp member with rfl | member
    · exact .inr ⟨0, rfl, by decide⟩
    · rw [List.mem_singleton.mp member]
      exact .inl rfl
  exact ⟨_, [armed, unchecked], again, quiet, List.mem_cons_of_mem _ List.mem_cons_self,
    rate_limit_expires strict wiring (address 'c') (by decide) again⟩

end Numera
