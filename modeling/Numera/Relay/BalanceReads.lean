import Numera.Foundation.Promises
import Mathlib.Data.List.Basic

/-! # The reads of the balance

`RelayService.cachedBalance` answers from the last read for 15 seconds, and otherwise from a read
that its callers share. The cache, the shared promise and the answers are written in different
microtasks. Callers arrive between any two of them, the node answers at any time or throws at
once, and the clock never goes back. A read is in one phase at a time (`BalancePhase`), so no two
are in flight and a read leaves nothing behind; and what a promise settles with comes from the
read it belongs to (`Carried`). A caller that arrives when a read has settled still shares it
until the shared promise is cleared, however long ago that was (`shared_after_settled`).
-/

namespace Numera

open Promise (Cell Heap Microtask Reaction)

/-! ## The code -/

/-- What `getBalance` returns for a read, what `readBalance` returns, what `finally` makes of it
and the value it passes on, and what a call of `cachedBalance` returns. -/
inductive BalancePromise where
  | balance (read : Nat)
  | read (read : Nat)
  | flight (read : Nat)
  | passed (read : Nat)
  | caller (call : Nat)
  deriving DecidableEq

/-- `readBalance` after its `await`, and the handler of `finally`. -/
inductive BalanceHandler where
  | resume (read : Nat)
  | cleanup (read : Nat)

/-- What comes of `readBalance` calling `getBalance`: there is no client or no account to call it
with; it throws; it returns a promise. -/
inductive GetBalance (ε : Type) where
  | missing
  | throws (thrown : ε)
  | asks

structure BalanceRead where
  readAt : Int
  wei : Option Nat

/-- What happens: a call of `cachedBalance`, of `getBalance`, its answer, the end of
`readBalance`, and the shared promise cleared. -/
inductive BalanceEvent (ε : Type) where
  | called (call : Nat) (time : Int)
  | started (read : Nat) (time : Int)
  | answered (read : Nat) (answer : Except ε Nat)
  | settled (read : Nat) (time : Int) (wei : Option Nat)
  | cleared (read : Nat)
  deriving DecidableEq

/-- The fields of the service, its promises, the clock, the requests that have no answer, and
what has happened. -/
structure BalanceReads (ε : Type) where
  heap : Heap BalancePromise BalanceHandler ε (Option Nat) :=
    { cell _ := .pending [], queue := [] }
  now : Int
  balanceRead : Option BalanceRead := none
  balanceInFlight : Option BalancePromise := none
  outstanding : List Nat := []
  reads : Nat := 0
  calls : Nat := 0
  history : List (BalanceEvent ε) := []

namespace RelayService

/-- `BALANCE_TTL_MS`. -/
def balanceTtlMs : Int := 15000

end RelayService

namespace BalanceReads

variable {ε : Type} (state : BalanceReads ε)

/-- The end of `readBalance`: a failed read is cached too. -/
def returnBalance (read : Nat) (wei : Option Nat) : BalanceReads ε :=
  { state with
    balanceRead := some { readAt := state.now, wei }
    heap := state.heap.settle (.read read) (.ok wei)
    history := state.history ++ [.settled read state.now wei] }

/-- `readBalance`, up to its `await` or its end, which it may come to at a later time. -/
def readBalance (comes : GetBalance ε) (later : Int) : BalanceReads ε :=
  let read := state.reads
  let begun := { state with reads := read + 1 }
  match comes with
  | .asks => { begun with
      heap := begun.heap.performThen (.balance read) (.handle (.resume read) (.read read))
      outstanding := begun.outstanding ++ [read]
      history := begun.history ++ [.started read state.now] }
  | .throws thrown =>
      ({ begun with
        now := later
        history := begun.history ++ [.started read state.now, .answered read (.error thrown)] } :
        BalanceReads ε).returnBalance read none
  | .missing => ({ begun with now := later } : BalanceReads ε).returnBalance read none

/-- `this.balanceInFlight = this.readBalance().finally(…)`. -/
def beginRead (comes : GetBalance ε) (later : Int) : BalanceReads ε :=
  let read := state.reads
  let begun := state.readBalance comes later
  { begun with
    heap := begun.heap.performThen (.read read) (.handle (.cleanup read) (.flight read))
    balanceInFlight := some (.flight read) }

/-- The caller's promise follows the shared one. -/
def share (call : Nat) (inFlight : BalancePromise) : BalanceReads ε :=
  { state with heap := state.heap.resolveWith (.caller call) inFlight }

/-- The call is there. -/
def arrive : BalanceReads ε :=
  { state with
    calls := state.calls + 1
    history := state.history ++ [.called state.calls state.now] }

/-- The entry of the cache, while it is fresh. -/
def fresh? : Option BalanceRead :=
  state.balanceRead.filter fun fresh => state.now - fresh.readAt < RelayService.balanceTtlMs

/-- `cachedBalance`. -/
def cachedBalance (comes : GetBalance ε) (later : Int) : BalanceReads ε :=
  let call := state.calls
  let called := state.arrive
  match called.fresh? with
  | some fresh => { called with heap := called.heap.settle (.caller call) (.ok fresh.wei) }
  | none =>
      match called.balanceInFlight with
      | some inFlight => called.share call inFlight
      | none => (called.beginRead comes later).share call (.flight state.reads)

/-- The node answers a request. -/
def answer (read : Nat) (answer : Except ε Nat) : BalanceReads ε :=
  { state with
    outstanding := state.outstanding.erase read
    heap := state.heap.settle (.balance read) (answer.map some)
    history := state.history ++ [.answered read answer] }

/-- The handler of `finally`, whose promise then follows one with the value of the read. -/
def cleanup (read : Nat) (derived : BalancePromise) (outcome : Except ε (Option Nat)) :
    BalanceReads ε :=
  { state with
    balanceInFlight := none
    heap := (state.heap.enqueue [.react (.settle (.passed read)) outcome]).resolveWith derived
      (.passed read)
    history := state.history ++ [.cleared read] }

/-- A microtask. Where `getBalance` has failed, `readBalance` catches it. -/
def perform : Microtask BalancePromise BalanceHandler ε (Option Nat) → BalanceReads ε
  | .react (.handle (.resume read) _) outcome =>
      state.returnBalance read (outcome.toOption.getD none)
  | .react (.handle (.cleanup read) derived) outcome => state.cleanup read derived outcome
  | .react (.settle derived) outcome => { state with heap := state.heap.settle derived outcome }
  | .follow derived source => { state with heap := state.heap.performThen source (.settle derived) }

end BalanceReads

section BalanceReads

variable {ε : Type}

/-- What can happen at any time: the clock goes on, `cachedBalance` is called, the node answers,
the next microtask runs. -/
inductive BalanceReads.Step : BalanceReads ε → BalanceReads ε → Prop where
  | pass {state : BalanceReads ε} {later : Int} (forward : state.now ≤ later) :
      Step state { state with now := later }
  | call {state : BalanceReads ε} {later : Int} (forward : state.now ≤ later)
      (comes : GetBalance ε) : Step state (state.cachedBalance comes later)
  | answer {state : BalanceReads ε} {read : Nat} (waits : read ∈ state.outstanding)
      (answer : Except ε Nat) : Step state (state.answer read answer)
  | tick {state : BalanceReads ε} {task : Microtask BalancePromise BalanceHandler ε (Option Nat)}
      {rest : List (Microtask BalancePromise BalanceHandler ε (Option Nat))}
      (next : state.heap.queue = task :: rest) :
      Step state (({ state with heap := { state.heap with queue := rest } } :
        BalanceReads ε).perform task)

inductive BalanceReads.Reached : BalanceReads ε → Prop where
  | boot (now : Int) : Reached { now }
  | step {state later : BalanceReads ε} (before : Reached state)
      (step : BalanceReads.Step state later) : Reached later

/-! ## What promises carry -/

section Carried

variable (history : List (BalanceEvent ε))

/-- The call is answered by a read whose shared promise was not cleared when it was made. -/
def Joined (call read : Nat) : Prop :=
  ∃ time, .called call time ∈ history ∧
    (.cleared read ∉ history ∨ [.called call time, .cleared read].Sublist history)

/-- A read has settled with a value. -/
def SettledWith (read : Nat) (outcome : Except ε (Option Nat)) : Prop :=
  ∃ time wei, .settled read time wei ∈ history ∧ outcome = .ok wei

/-- A call has an answer: the value of a read that settled no longer ago than an entry of the cache
is fresh, or whose shared promise was cleared after the call. -/
def AnsweredWith (call : Nat) (outcome : Except ε (Option Nat)) : Prop :=
  ∃ time read settledAt wei, .called call time ∈ history ∧ .settled read settledAt wei ∈ history ∧
    outcome = .ok wei ∧ (time - settledAt < RelayService.balanceTtlMs ∨
      [.called call time, .cleared read].Sublist history)

/-- What a promise may settle with. -/
def Carried : BalancePromise → Except ε (Option Nat) → Prop
  | .balance read, outcome => ∃ answer, .answered read answer ∈ history ∧ outcome = answer.map some
  | .read read, outcome => SettledWith history read outcome
  | .flight read, outcome | .passed read, outcome =>
      .cleared read ∈ history ∧ SettledWith history read outcome
  | .caller call, outcome => AnsweredWith history call outcome

/-- The reactions a promise may have. -/
inductive Reacts : BalancePromise → Reaction BalancePromise BalanceHandler → Prop where
  | resume (read : Nat) : Reacts (.balance read) (.handle (.resume read) (.read read))
  | cleanup (read : Nat) : Reacts (.read read) (.handle (.cleanup read) (.flight read))
  | value {read : Nat} (cleared : .cleared read ∈ history) :
      Reacts (.read read) (.settle (.passed read))
  | pass (read : Nat) : Reacts (.passed read) (.settle (.flight read))
  | share {call read : Nat} (joined : Joined history call read) :
      Reacts (.flight read) (.settle (.caller call))

end Carried

/-- What comes later is later than what was there. -/
theorem sublist_pair_append {β : Type} {first second : β} {list more : List β}
    (earlier : first ∈ list) (later : second ∈ more) :
    [first, second].Sublist (list ++ more) :=
  (List.singleton_sublist.mpr earlier).append (List.singleton_sublist.mpr later)

/-- A pair in a list with one more is old, or ends in the new one. -/
theorem sublist_pair_concat {β : Type} {first second last : β} {list : List β}
    (pair : [first, second].Sublist (list ++ [last])) :
    [first, second].Sublist list ∨ first ∈ list ∧ second = last := by
  obtain ⟨left, right, split, old, new⟩ := List.sublist_append_iff.mp pair
  cases left with
  | nil =>
      obtain rfl : [first, second] = right := split
      exact absurd new.length_le (by simp)
  | cons head tail =>
      cases tail with
      | nil =>
          cases split
          exact .inr ⟨List.singleton_sublist.mp old,
            List.mem_singleton.mp (List.singleton_sublist.mp new)⟩
      | cons other others =>
          injection split with same rest
          injection rest with too rest
          subst same too
          obtain rfl : others = [] := (List.append_eq_nil_iff.mp rest.symm).1
          exact .inl old

section Grows

variable {history : List (BalanceEvent ε)} (more : List (BalanceEvent ε))

theorem Joined.grow {call read : Nat} (joined : Joined history call read) :
    Joined (history ++ more) call read := by
  obtain ⟨time, called, before | after⟩ := joined
  · refine ⟨time, List.mem_append_left _ called, ?_⟩
    by_cases new : .cleared read ∈ more
    · exact .inr (sublist_pair_append called new)
    · refine .inl fun cleared => ?_
      obtain old | now := List.mem_append.mp cleared
      · exact before old
      · exact new now
  · exact ⟨time, List.mem_append_left _ called, .inr (after.trans (List.sublist_append_left ..))⟩

theorem SettledWith.grow {read : Nat} {outcome : Except ε (Option Nat)}
    (settled : SettledWith history read outcome) : SettledWith (history ++ more) read outcome := by
  obtain ⟨time, wei, recorded, same⟩ := settled
  exact ⟨time, wei, List.mem_append_left _ recorded, same⟩

theorem Carried.grow {promise : BalancePromise} {outcome : Except ε (Option Nat)}
    (carried : Carried history promise outcome) : Carried (history ++ more) promise outcome := by
  cases promise with
  | balance read =>
      obtain ⟨answer, recorded, same⟩ := carried
      exact ⟨answer, List.mem_append_left _ recorded, same⟩
  | read read => exact SettledWith.grow more carried
  | flight read | passed read => exact ⟨List.mem_append_left _ carried.1, carried.2.grow more⟩
  | caller call =>
      obtain ⟨time, read, settledAt, wei, called, settled, same, timely⟩ := carried
      exact ⟨time, read, settledAt, wei, List.mem_append_left _ called,
        List.mem_append_left _ settled, same,
        timely.imp id fun after => after.trans (List.sublist_append_left ..)⟩

theorem Reacts.grow {promise : BalancePromise} {reaction : Reaction BalancePromise BalanceHandler}
    (reacts : Reacts history promise reaction) : Reacts (history ++ more) promise reaction := by
  cases reacts with
  | resume read => exact .resume read
  | cleanup read => exact .cleanup read
  | value cleared => exact .value (List.mem_append_left _ cleared)
  | pass read => exact .pass read
  | share joined => exact .share (joined.grow more)

/-- What is carried stays so while more happens. -/
theorem flows_grow {heap : Heap BalancePromise BalanceHandler ε (Option Nat)}
    (flows : heap.Flows (Carried history) (Reacts history)) :
    heap.Flows (Carried (history ++ more)) (Reacts (history ++ more)) :=
  flows.mono (fun _ _ carried => carried.grow more) fun _ _ reacts => reacts.grow more

end Grows

/-- A promise that settles like another one carries what that one does. -/
theorem Reacts.carried {history : List (BalanceEvent ε)} {source derived : BalancePromise}
    {outcome : Except ε (Option Nat)} (reacts : Reacts history source (.settle derived))
    (carried : Carried history source outcome) : Carried history derived outcome := by
  cases reacts with
  | value cleared => exact ⟨cleared, carried⟩
  | pass read => exact carried
  | share joined =>
      obtain ⟨cleared, settledAt, wei, settled, same⟩ := carried
      obtain ⟨time, called, before | after⟩ := joined
      · exact absurd cleared before
      · exact ⟨time, _, settledAt, wei, called, settled, same, .inr after⟩

/-! ## The phases of a read -/

/-- What the read that is in flight has come to: it waits for the node; it is to go on with the
answer, or with none; it has settled, and the shared promise is to be cleared. -/
inductive BalancePhase (ε : Type) where
  | idle
  | asked (read : Nat)
  | answered (read : Nat) (outcome : Except ε (Option Nat))
  | settled (read : Nat) (outcome : Except ε (Option Nat))

namespace BalancePhase

def read? : BalancePhase ε → Option Nat
  | idle => none
  | asked read | answered read _ | settled read _ => some read

def outstanding : BalancePhase ε → List Nat
  | asked read => [read]
  | _ => []

/-- The handlers that wait for a promise. -/
def handlers : BalancePhase ε → BalancePromise → List (Reaction BalancePromise BalanceHandler)
  | asked read, .balance other =>
      if other = read then [.handle (.resume read) (.read read)] else []
  | asked read, .read other | answered read _, .read other =>
      if other = read then [.handle (.cleanup read) (.flight read)] else []
  | _, _ => []

/-- The handler that is to be run. -/
def tasks : BalancePhase ε → List (Microtask BalancePromise BalanceHandler ε (Option Nat))
  | answered read outcome => [.react (.handle (.resume read) (.read read)) outcome]
  | settled read outcome => [.react (.handle (.cleanup read) (.flight read)) outcome]
  | _ => []

end BalancePhase

/-- The promises and the requests stand as a phase says. -/
structure Poised (heap : Heap BalancePromise BalanceHandler ε (Option Nat))
    (inFlight : Option BalancePromise) (outstanding : List Nat) (reads : Nat)
    (phase : BalancePhase ε) : Prop where
  inFlight : inFlight = phase.read?.map .flight
  outstanding : outstanding = phase.outstanding
  handlers : ∀ promise, heap.handlers promise = phase.handlers promise
  handled : heap.handled = phase.tasks
  fresh : ∀ read, reads ≤ read →
    heap.cell (.balance read) = .pending [] ∧ heap.cell (.read read) = .pending []
  known : ∀ read, phase.read? = some read → read < reads

/-- What has happened is what a phase and the cache say. -/
structure Recorded (history : List (BalanceEvent ε)) (now : Int) (balanceRead : Option BalanceRead)
    (reads calls : Nat) (phase : BalancePhase ε) : Prop where
  reads : ∀ read, reads ≤ read → .cleared read ∉ history ∧
    (∀ answer, .answered read answer ∉ history) ∧ ∀ time wei, .settled read time wei ∉ history
  calls : ∀ call time, .called call time ∈ history → call < calls
  times : ∀ call time other, .called call time ∈ history → .called call other ∈ history →
    time = other
  uncleared : ∀ read, phase.read? = some read → .cleared read ∉ history
  unanswered : ∀ read, phase = .asked read → ∀ answer, .answered read answer ∉ history
  unsettled : ∀ read, (phase = .asked read ∨ ∃ outcome, phase = .answered read outcome) →
    ∀ time wei, .settled read time wei ∉ history
  own : ∀ read outcome, phase = .answered read outcome → ∀ answer, .answered read answer ∈ history →
    outcome.toOption.getD none = answer.toOption
  failed : ∀ read answer time wei, .answered read answer ∈ history →
    .settled read time wei ∈ history → wei = answer.toOption
  given : ∀ read outcome wei, phase = .answered read outcome →
    outcome.toOption.getD none = some wei → .answered read (.ok wei) ∈ history
  read : ∀ read time wei, .settled read time (some wei) ∈ history →
    .answered read (.ok wei) ∈ history
  cached : ∀ fresh, balanceRead = some fresh → fresh.readAt ≤ now ∧
    ∃ read, .settled read fresh.readAt fresh.wei ∈ history
  last : ∀ read time wei, .settled read time wei ∈ history →
    ∃ fresh, balanceRead = some fresh ∧ time ≤ fresh.readAt
  spaced : ∀ read time wei other start,
    [.settled read time wei, .started other start].Sublist history →
      time + RelayService.balanceTtlMs ≤ start

namespace Recorded

variable {history : List (BalanceEvent ε)} {now : Int} {balanceRead : Option BalanceRead}
  {reads calls : Nat} {phase : BalancePhase ε}

theorem pass (recorded : Recorded history now balanceRead reads calls phase) {later : Int}
    (forward : now ≤ later) : Recorded history later balanceRead reads calls phase :=
  { recorded with
    cached := fun fresh own =>
      ⟨Int.le_trans (recorded.cached fresh own).1 forward, (recorded.cached fresh own).2⟩ }

/-- A pair that ends in a start of `getBalance` was there before anything else happened. -/
theorem spaced_concat (recorded : Recorded history now balanceRead reads calls phase)
    {event : BalanceEvent ε} (apart : ∀ other start, event ≠ .started other start)
    {read other : Nat} {time start : Int} {wei : Option Nat}
    (pair : [.settled read time wei, .started other start].Sublist (history ++ [event])) :
    time + RelayService.balanceTtlMs ≤ start := by
  obtain old | ⟨-, same⟩ := sublist_pair_concat pair
  · exact recorded.spaced _ _ _ _ _ old
  · exact absurd same.symm (apart other start)

theorem called (recorded : Recorded history now balanceRead reads calls phase) :
    Recorded (history ++ [.called calls now]) now balanceRead reads (calls + 1) phase where
  reads := by simpa using recorded.reads
  calls := by
    intro call time member
    obtain old | new := List.mem_append.mp member
    · exact Nat.lt_succ_of_lt (recorded.calls call time old)
    · cases List.mem_singleton.mp new
      exact Nat.lt_succ_self _
  times := by
    intro call time other member too
    obtain old | new := List.mem_append.mp member
    · obtain before | now := List.mem_append.mp too
      · exact recorded.times call time other old before
      · cases List.mem_singleton.mp now
        exact absurd (recorded.calls _ _ old) (Nat.lt_irrefl _)
    · cases List.mem_singleton.mp new
      obtain before | now := List.mem_append.mp too
      · exact absurd (recorded.calls _ _ before) (Nat.lt_irrefl _)
      · cases List.mem_singleton.mp now
        rfl
  uncleared := by simpa using recorded.uncleared
  unanswered := by simpa using recorded.unanswered
  unsettled := by simpa using recorded.unsettled
  own := by simpa using recorded.own
  failed := by simpa using recorded.failed
  given := by simpa using recorded.given
  read := by simpa using recorded.read
  cached := by simpa using recorded.cached
  last := by simpa using recorded.last
  spaced _ _ _ _ _ pair := recorded.spaced_concat (fun _ _ same => by cases same) pair

/-- `getBalance` is called once the cache is stale. -/
theorem started (recorded : Recorded history now balanceRead reads calls .idle)
    (stale : ∀ fresh, balanceRead = some fresh →
      fresh.readAt + RelayService.balanceTtlMs ≤ now) :
    Recorded (history ++ [.started reads now]) now balanceRead (reads + 1) calls
      (.asked reads) where
  reads := by
    intro read new
    simpa using recorded.reads read (by omega)
  calls := by simpa using recorded.calls
  times := by simpa using recorded.times
  uncleared := by
    intro read own
    cases own
    simpa using (recorded.reads reads (Nat.le_refl _)).1
  unanswered := by
    intro read own
    cases own
    simpa using (recorded.reads reads (Nat.le_refl _)).2.1
  unsettled := by
    rintro read (own | ⟨outcome, own⟩)
    · cases own
      simpa using (recorded.reads reads (Nat.le_refl _)).2.2
    · cases own
  own _ _ same := by cases same
  failed := by simpa using recorded.failed
  given _ _ _ same := by cases same
  read := by simpa using recorded.read
  cached := by simpa using recorded.cached
  last := by simpa using recorded.last
  spaced := by
    intro read time wei other start pair
    obtain old | ⟨settled, same⟩ := sublist_pair_concat pair
    · exact recorded.spaced _ _ _ _ _ old
    · cases same
      obtain ⟨fresh, cached, later⟩ := recorded.last read time wei settled
      have enough := stale fresh cached
      omega

/-- There is nothing to call `getBalance` with. -/
theorem missing (recorded : Recorded history now balanceRead reads calls .idle) :
    Recorded history now balanceRead (reads + 1) calls (.answered reads (.ok none)) where
  reads read new := recorded.reads read (by omega)
  calls := recorded.calls
  times := recorded.times
  uncleared := by
    intro read own
    cases own
    exact (recorded.reads reads (Nat.le_refl _)).1
  unanswered _ same := by cases same
  unsettled := by
    rintro read (own | ⟨outcome, own⟩)
    · cases own
    · cases own
      exact (recorded.reads reads (Nat.le_refl _)).2.2
  own := by
    intro read outcome same answer answered
    cases same
    exact absurd answered ((recorded.reads reads (Nat.le_refl _)).2.1 answer)
  failed := recorded.failed
  given := by
    intro read outcome wei same has
    cases same
    cases has
  read := recorded.read
  cached := recorded.cached
  last := recorded.last
  spaced := recorded.spaced

theorem answered {read : Nat}
    (recorded : Recorded history now balanceRead reads calls (.asked read)) (known : read < reads)
    (answer : Except ε Nat) :
    Recorded (history ++ [.answered read answer]) now balanceRead reads calls
      (.answered read (answer.map some)) where
  reads := by
    intro other new
    have apart : other ≠ read := by omega
    simpa [apart] using recorded.reads other new
  calls := by simpa using recorded.calls
  times := by simpa using recorded.times
  uncleared := by
    intro other own
    cases own
    simpa using recorded.uncleared read rfl
  unanswered _ same := by cases same
  unsettled := by
    rintro other (own | ⟨outcome, own⟩)
    · cases own
    · cases own
      simpa using recorded.unsettled read (.inl rfl)
  own := by
    intro other outcome same given member
    cases same
    obtain old | new := List.mem_append.mp member
    · exact absurd old (recorded.unanswered read rfl given)
    · cases List.mem_singleton.mp new
      cases answer <;> rfl
  failed := by
    intro other given time wei member settled
    have before : .settled other time wei ∈ history := by simpa using settled
    obtain old | new := List.mem_append.mp member
    · exact recorded.failed other given time wei old before
    · cases List.mem_singleton.mp new
      exact absurd before (recorded.unsettled read (.inl rfl) time wei)
  given := by
    intro other outcome wei same has
    cases same
    cases answer with
    | error thrown => cases has
    | ok value =>
        cases has
        exact List.mem_append_right _ (List.mem_singleton.mpr rfl)
  read := by
    intro other time wei settled
    exact List.mem_append_left _ (recorded.read other time wei (by simpa using settled))
  cached := by simpa using recorded.cached
  last := by simpa using recorded.last
  spaced _ _ _ _ _ pair := recorded.spaced_concat (fun _ _ same => by cases same) pair

/-- The cache has the last read. -/
theorem settled {read : Nat} {outcome : Except ε (Option Nat)}
    (recorded : Recorded history now balanceRead reads calls (.answered read outcome))
    (known : read < reads) :
    Recorded (history ++ [.settled read now (outcome.toOption.getD none)]) now
      (some { readAt := now, wei := outcome.toOption.getD none }) reads calls
      (.settled read (.ok (outcome.toOption.getD none))) where
  reads := by
    intro other new
    have apart : other ≠ read := by omega
    simpa [apart] using recorded.reads other new
  calls := by simpa using recorded.calls
  times := by simpa using recorded.times
  uncleared := by
    intro other own
    cases own
    simpa using recorded.uncleared read rfl
  unanswered _ same := by cases same
  unsettled := by
    rintro other (own | ⟨outcome, own⟩) <;> cases own
  own _ _ same := by cases same
  failed := by
    intro other given time wei member settled
    have before : .answered other given ∈ history := by simpa using member
    obtain old | new := List.mem_append.mp settled
    · exact recorded.failed other given time wei before old
    · cases List.mem_singleton.mp new
      exact recorded.own read outcome rfl given before
  given _ _ _ same := by cases same
  read := by
    intro other time wei settled
    obtain old | new := List.mem_append.mp settled
    · exact List.mem_append_left _ (recorded.read other time wei old)
    · injection List.mem_singleton.mp new with same _ has
      subst same
      exact List.mem_append_left _ (recorded.given other outcome wei rfl has.symm)
  cached := by
    intro fresh own
    cases own
    exact ⟨Int.le_refl _, read, List.mem_append_right _ (List.mem_singleton.mpr rfl)⟩
  last := by
    intro other time wei member
    refine ⟨_, rfl, ?_⟩
    obtain old | new := List.mem_append.mp member
    · obtain ⟨fresh, cached, later⟩ := recorded.last other time wei old
      exact Int.le_trans later (recorded.cached fresh cached).1
    · cases List.mem_singleton.mp new
      exact Int.le_refl _
  spaced _ _ _ _ _ pair := recorded.spaced_concat (fun _ _ same => by cases same) pair

theorem cleared {read : Nat} {outcome : Except ε (Option Nat)}
    (recorded : Recorded history now balanceRead reads calls (.settled read outcome))
    (known : read < reads) :
    Recorded (history ++ [.cleared read]) now balanceRead reads calls .idle where
  reads := by
    intro other new
    have apart : other ≠ read := by omega
    simpa [apart] using recorded.reads other new
  calls := by simpa using recorded.calls
  times := by simpa using recorded.times
  uncleared _ none := by cases none
  unanswered _ same := by cases same
  unsettled := by
    rintro other (own | ⟨outcome, own⟩) <;> cases own
  own _ _ same := by cases same
  failed := by simpa using recorded.failed
  given _ _ _ same := by cases same
  read := by simpa using recorded.read
  cached := by simpa using recorded.cached
  last := by simpa using recorded.last
  spaced _ _ _ _ _ pair := recorded.spaced_concat (fun _ _ same => by cases same) pair

end Recorded

namespace Poised

variable {heap : Heap BalancePromise BalanceHandler ε (Option Nat)}
  {inFlight : Option BalancePromise} {outstanding : List Nat} {reads : Nat} {phase : BalancePhase ε}

/-- A promise that no handler waits for. -/
inductive Plain : BalancePromise → Prop where
  | flight (read : Nat) : Plain (.flight read)
  | passed (read : Nat) : Plain (.passed read)
  | caller (call : Nat) : Plain (.caller call)

theorem Plain.apart {promise : BalancePromise} (plain : Plain promise) (read : Nat) :
    .balance read ≠ promise ∧ .read read ≠ promise := by
  cases plain <;> simp

theorem handlers_plain {promise : BalancePromise} (plain : Plain promise) (phase : BalancePhase ε) :
    phase.handlers promise = [] := by
  cases plain <;> cases phase <;> rfl

/-- Such a promise settles. -/
theorem settle (poised : Poised heap inFlight outstanding reads phase) {promise : BalancePromise}
    (plain : Plain promise) (outcome : Except ε (Option Nat)) :
    Poised (heap.settle promise outcome) inFlight outstanding reads phase := by
  refine { poised with
    handlers := fun other => ?_, handled := ?_, fresh := fun read new => ?_ }
  · rw [Heap.handlers_settle]
    split
    · rw [‹other = promise›, handlers_plain plain]
    · exact poised.handlers other
  · rw [Heap.handled_settle, poised.handlers, handlers_plain plain, poised.handled]
    exact List.append_nil _
  · rw [Heap.cell_settle_other (plain.apart read).1, Heap.cell_settle_other (plain.apart read).2]
    exact poised.fresh read new

/-- A promise follows one that is there. -/
theorem performThen (poised : Poised heap inFlight outstanding reads phase)
    {source : BalancePromise}
    (old : ∀ read, reads ≤ read → .balance read ≠ source ∧ .read read ≠ source)
    (derived : BalancePromise) :
    Poised (heap.performThen source (.settle derived)) inFlight outstanding reads phase := by
  refine { poised with
    handlers := fun other => ?_, handled := ?_, fresh := fun read new => ?_ }
  · rw [Heap.handlers_performThen_settle]
    exact poised.handlers other
  · rw [Heap.handled_performThen_settle]
    exact poised.handled
  · rw [Heap.cell_performThen_other (old read new).1, Heap.cell_performThen_other (old read new).2]
    exact poised.fresh read new

/-- A microtask that runs no handler is queued. -/
theorem enqueue (poised : Poised heap inFlight outstanding reads phase)
    {tasks : List (Microtask BalancePromise BalanceHandler ε (Option Nat))}
    (plain : tasks.filter Microtask.isHandle = []) :
    Poised (heap.enqueue tasks) inFlight outstanding reads phase := by
  refine { poised with handled := ?_ }
  rw [Heap.handled_enqueue, plain, List.append_nil]
  exact poised.handled

/-- The first microtask is taken from the queue, and runs no handler. -/
theorem rest (poised : Poised heap inFlight outstanding reads phase)
    {task : Microtask BalancePromise BalanceHandler ε (Option Nat)}
    {rest : List (Microtask BalancePromise BalanceHandler ε (Option Nat))}
    (queue : heap.queue = task :: rest) (plain : task.isHandle = false) :
    Poised { heap with queue := rest } inFlight outstanding reads phase := by
  have handled := poised.handled
  rw [Heap.handled, queue, List.filter_cons_of_neg (by simp [plain])] at handled
  exact { poised with handled }

/-- The first microtask is taken from the queue, and runs a handler. -/
theorem taken (poised : Poised heap inFlight outstanding reads phase)
    {task : Microtask BalancePromise BalanceHandler ε (Option Nat)}
    {rest : List (Microtask BalancePromise BalanceHandler ε (Option Nat))}
    (queue : heap.queue = task :: rest) (own : task.isHandle = true) :
    phase.tasks = [task] ∧
      ({ heap with queue := rest } : Heap _ _ ε (Option Nat)).handled = [] := by
  have handled := poised.handled
  rw [Heap.handled, queue, List.filter_cons_of_pos own] at handled
  have one : phase.tasks.length ≤ 1 := by cases phase <;> simp [BalancePhase.tasks]
  have none : rest.filter Microtask.isHandle = [] := by
    rw [← handled, List.length_cons] at one
    exact List.length_eq_zero_iff.mp (by omega)
  rw [none] at handled
  exact ⟨handled.symm, none⟩

/-- The node is asked. -/
theorem ask (poised : Poised heap inFlight outstanding reads .idle) :
    Poised ((heap.performThen (.balance reads) (.handle (.resume reads) (.read reads))).performThen
        (.read reads) (.handle (.cleanup reads) (.flight reads)))
      (some (.flight reads)) (outstanding ++ [reads]) (reads + 1) (.asked reads) := by
  obtain ⟨balance, read⟩ := poised.fresh reads (Nat.le_refl _)
  have second : (heap.performThen (.balance reads)
      (.handle (.resume reads) (.read reads))).cell (.read reads) = .pending [] := by
    rw [Heap.cell_performThen_other (by simp)]
    exact read
  refine ⟨rfl, ?_, fun promise => ?_, ?_, fun other new => ?_, fun other own => ?_⟩
  · rw [poised.outstanding]
    rfl
  · rw [Heap.handlers_performThen_handle second, Heap.handlers_performThen_handle balance,
      Heap.handlers_performThen_handle balance]
    simp only [poised.handlers]
    cases promise <;> simp [BalancePhase.handlers]
  · rw [Heap.handled_performThen_handle second, Heap.handled_performThen_handle balance]
    exact poised.handled
  · have apart : other ≠ reads := by omega
    rw [Heap.cell_performThen_other (by simp), Heap.cell_performThen_other (by simpa using apart),
      Heap.cell_performThen_other (by simpa using apart), Heap.cell_performThen_other (by simp)]
    exact poised.fresh other (by omega)
  · cases own
    exact Nat.lt_succ_self _

/-- A read settles at once. -/
theorem sync (poised : Poised heap inFlight outstanding reads .idle)
    (outcome : Except ε (Option Nat)) :
    Poised ((heap.settle (.read reads) outcome).performThen (.read reads)
        (.handle (.cleanup reads) (.flight reads)))
      (some (.flight reads)) outstanding (reads + 1) (.settled reads outcome) := by
  have read := (poised.fresh reads (Nat.le_refl _)).2
  rw [Heap.performThen_settled (Heap.cell_settle read outcome)]
  refine ⟨rfl, poised.outstanding, fun promise => ?_, ?_, fun other new => ?_, fun other own => ?_⟩
  · rw [Heap.handlers_enqueue, Heap.handlers_settle]
    simp only [poised.handlers]
    cases promise <;> simp [BalancePhase.handlers]
  · rw [Heap.handled_enqueue, Heap.handled_settle, poised.handled, poised.handlers]
    rfl
  · have apart : other ≠ reads := by omega
    rw [Heap.enqueue_cell, Heap.cell_settle_other (by simp),
      Heap.cell_settle_other (by simpa using apart)]
    exact poised.fresh other (by omega)
  · cases own
    exact Nat.lt_succ_self _

theorem answer {read : Nat} (poised : Poised heap inFlight outstanding reads (.asked read))
    (outcome : Except ε (Option Nat)) :
    Poised (heap.settle (.balance read) outcome) inFlight (outstanding.erase read) reads
      (.answered read outcome) := by
  refine ⟨poised.inFlight, ?_, fun promise => ?_, ?_, fun other new => ?_, poised.known⟩
  · rw [poised.outstanding]
    exact List.erase_cons_head read []
  · rw [Heap.handlers_settle]
    simp only [poised.handlers]
    cases promise <;> simp [BalancePhase.handlers]
  · rw [Heap.handled_settle, poised.handled, poised.handlers]
    simp [BalancePhase.handlers, BalancePhase.tasks]
  · have apart : other ≠ read := by
      have known := poised.known read rfl
      omega
    rw [Heap.cell_settle_other (by simpa using apart), Heap.cell_settle_other (by simp)]
    exact poised.fresh other new

/-- `readBalance` comes to its end. -/
theorem resume {read : Nat} {given : Except ε (Option Nat)}
    (poised : Poised heap inFlight outstanding reads (.answered read given))
    {rest : List (Microtask BalancePromise BalanceHandler ε (Option Nat))}
    (none : ({ heap with queue := rest } : Heap _ _ ε (Option Nat)).handled = [])
    (outcome : Except ε (Option Nat)) :
    Poised (({ heap with queue := rest } : Heap _ _ ε (Option Nat)).settle (.read read) outcome)
      inFlight outstanding reads (.settled read outcome) := by
  have handlers (promise : BalancePromise) :
      ({ heap with queue := rest } : Heap _ _ ε (Option Nat)).handlers promise = _ :=
    poised.handlers promise
  refine ⟨poised.inFlight, poised.outstanding, fun promise => ?_, ?_, fun other new => ?_,
    poised.known⟩
  · rw [Heap.handlers_settle]
    simp only [handlers]
    cases promise <;> simp [BalancePhase.handlers]
  · rw [Heap.handled_settle, none, handlers]
    simp [BalancePhase.handlers, BalancePhase.tasks]
  · have apart : other ≠ read := by
      have known := poised.known read rfl
      omega
    rw [Heap.cell_settle_other (by simp), Heap.cell_settle_other (by simpa using apart)]
    exact poised.fresh other new

/-- The shared promise is cleared. -/
theorem cleanup {read : Nat} {given : Except ε (Option Nat)}
    (poised : Poised heap inFlight outstanding reads (.settled read given))
    {rest : List (Microtask BalancePromise BalanceHandler ε (Option Nat))}
    (none : ({ heap with queue := rest } : Heap _ _ ε (Option Nat)).handled = []) :
    Poised { heap with queue := rest } Option.none outstanding reads .idle := by
  refine ⟨rfl, poised.outstanding, fun promise => ?_, none, poised.fresh, fun other own => ?_⟩
  · refine (poised.handlers promise).trans ?_
    cases promise <;> rfl
  · cases own

end Poised

/-! ## Runs -/

namespace BalanceReads

variable {state : BalanceReads ε} {phase : BalancePhase ε}

/-- The service stands as a phase says. -/
structure Stands (state : BalanceReads ε) (phase : BalancePhase ε) : Prop where
  poised : Poised state.heap state.balanceInFlight state.outstanding state.reads phase
  recorded : Recorded state.history state.now state.balanceRead state.reads state.calls phase
  flows : state.heap.Flows (Carried state.history) (Reacts state.history)

theorem fresh?_some {fresh : BalanceRead} (hit : state.fresh? = some fresh) :
    state.balanceRead = some fresh ∧ state.now - fresh.readAt < RelayService.balanceTtlMs := by
  obtain ⟨own, recent⟩ := Option.filter_eq_some_iff.mp hit
  exact ⟨own, of_decide_eq_true recent⟩

theorem fresh?_none (miss : state.fresh? = none) {fresh : BalanceRead}
    (own : state.balanceRead = some fresh) :
    fresh.readAt + RelayService.balanceTtlMs ≤ state.now := by
  rw [fresh?, own, Option.filter_some] at miss
  split at miss
  · cases miss
  · rename_i old
    have late := of_decide_eq_false (Bool.eq_false_iff.mpr old)
    omega

namespace Stands

theorem arrive (stands : state.Stands phase) : state.arrive.Stands phase :=
  ⟨stands.poised, stands.recorded.called, flows_grow _ stands.flows⟩

/-- A caller is answered from the cache. -/
theorem hit (stands : state.Stands phase) {fresh : BalanceRead} (hit : state.fresh? = some fresh)
    {call : Nat} (called : .called call state.now ∈ state.history) :
    ({ state with heap := state.heap.settle (.caller call) (.ok fresh.wei) } :
      BalanceReads ε).Stands phase := by
  obtain ⟨own, recent⟩ := fresh?_some hit
  obtain ⟨-, read, settled⟩ := stands.recorded.cached fresh own
  have carried : Carried state.history (.caller call) (.ok fresh.wei) :=
    ⟨state.now, read, fresh.readAt, fresh.wei, called, settled, rfl, .inl recent⟩
  exact ⟨stands.poised.settle (.caller call) _, stands.recorded, stands.flows.settle carried⟩

/-- A caller shares the read that is in flight. -/
theorem share (stands : state.Stands phase) {read call : Nat} (own : phase.read? = some read)
    {time : Int} (called : .called call time ∈ state.history) :
    (state.share call (.flight read)).Stands phase := by
  have joined : Joined state.history call read :=
    ⟨time, called, .inl (stands.recorded.uncleared read own)⟩
  refine ⟨stands.poised.enqueue rfl, stands.recorded, stands.flows.enqueue fun task member => ?_⟩
  rw [List.mem_singleton.mp member]
  exact Reacts.share joined

/-- A read begins. -/
theorem beginRead (stands : state.Stands .idle) (miss : state.fresh? = none)
    (comes : GetBalance ε) {later : Int} (forward : state.now ≤ later) :
    ∃ phase : BalancePhase ε, phase.read? = some state.reads ∧
      (state.beginRead comes later).Stands phase := by
  have stale (fresh : BalanceRead) (own : state.balanceRead = some fresh) :=
    fresh?_none miss own
  cases comes with
  | asks =>
      refine ⟨.asked state.reads, rfl, stands.poised.ask, stands.recorded.started stale, ?_⟩
      exact ((flows_grow _ stands.flows).performThen (.resume _)).performThen (.cleanup _)
  | missing =>
      have ended := (stands.recorded.missing.pass forward).settled (Nat.lt_succ_self _)
      refine ⟨.settled state.reads (.ok none), rfl, stands.poised.sync _, ended, ?_⟩
      refine ((flows_grow _ stands.flows).settle ?_).performThen (.cleanup _)
      exact ⟨later, none, List.mem_append_right _ (List.mem_singleton.mpr rfl), rfl⟩
  | throws thrown =>
      have failed := (stands.recorded.started stale).answered (Nat.lt_succ_self _)
        (.error thrown)
      have ended := (failed.pass forward).settled (Nat.lt_succ_self _)
      have both : state.history ++ [.started state.reads state.now] ++
          [.answered state.reads (.error thrown)] = state.history ++
            [.started state.reads state.now, .answered state.reads (.error thrown)] :=
        List.append_assoc ..
      rw [both] at ended
      refine ⟨.settled state.reads (.ok none), rfl, stands.poised.sync _, ended, ?_⟩
      refine ((flows_grow _ (flows_grow _ stands.flows)).settle ?_).performThen (.cleanup _)
      exact ⟨later, none, List.mem_append_right _ (List.mem_singleton.mpr rfl), rfl⟩

/-- What has happened stays so while a read begins. -/
theorem beginRead_history (state : BalanceReads ε) (comes : GetBalance ε) (later : Int) :
    ∃ more, (state.beginRead comes later).history = state.history ++ more := by
  cases comes with
  | asks => exact ⟨_, rfl⟩
  | missing => exact ⟨_, rfl⟩
  | throws thrown => exact ⟨_, List.append_assoc ..⟩

theorem cachedBalance (stands : state.Stands phase) (comes : GetBalance ε) {later : Int}
    (forward : state.now ≤ later) :
    ∃ phase : BalancePhase ε, (state.cachedBalance comes later).Stands phase := by
  have called : .called state.calls state.now ∈ state.arrive.history :=
    List.mem_append_right _ (List.mem_singleton.mpr rfl)
  rw [BalanceReads.cachedBalance]
  split
  · exact ⟨phase, stands.arrive.hit ‹_› called⟩
  · rename_i miss
    have inFlight := stands.poised.inFlight
    cases own : phase.read? with
    | some read =>
        rw [own] at inFlight
        have shares : state.arrive.balanceInFlight = some (.flight read) := inFlight
        rw [shares]
        exact ⟨phase, stands.arrive.share own called⟩
    | none =>
        rw [own] at inFlight
        have none : state.arrive.balanceInFlight = Option.none := inFlight
        rw [none]
        obtain rfl : phase = .idle := by
          cases phase with
          | idle => rfl
          | asked | answered | settled => cases own
        obtain ⟨begun, own, begins⟩ := stands.arrive.beginRead miss comes forward
        obtain ⟨more, grows⟩ := beginRead_history state.arrive comes later
        have still : .called state.calls state.now ∈
            (state.arrive.beginRead comes later).history := by
          rw [grows]
          exact List.mem_append_left _ called
        exact ⟨begun, begins.share own still⟩

/-- The node answers the read that is in flight. -/
theorem answer (stands : state.Stands phase) {read : Nat} (waits : read ∈ state.outstanding)
    (answer : Except ε Nat) :
    ∃ phase : BalancePhase ε, (state.answer read answer).Stands phase := by
  rw [stands.poised.outstanding] at waits
  cases phase with
  | idle | answered | settled => cases waits
  | asked own =>
      obtain rfl := List.mem_singleton.mp waits
      refine ⟨.answered read (answer.map some), stands.poised.answer _,
        stands.recorded.answered (stands.poised.known read rfl) answer, ?_⟩
      refine (flows_grow _ stands.flows).settle ?_
      exact ⟨answer, List.mem_append_right _ (List.mem_singleton.mpr rfl), rfl⟩

/-- `readBalance` goes on with the answer. -/
theorem resume {read : Nat} {outcome : Except ε (Option Nat)}
    {heap : Heap BalancePromise BalanceHandler ε (Option Nat)}
    (recorded : Recorded state.history state.now state.balanceRead state.reads state.calls
      (.answered read outcome)) (known : read < state.reads)
    (flows : heap.Flows (Carried state.history) (Reacts state.history))
    (poised : ∀ outcome, Poised (heap.settle (.read read) outcome) state.balanceInFlight
      state.outstanding state.reads (.settled read outcome)) :
    ∃ phase : BalancePhase ε, (({ state with heap } : BalanceReads ε).returnBalance read
      (outcome.toOption.getD none)).Stands phase := by
  refine ⟨.settled read (.ok (outcome.toOption.getD none)), poised _, recorded.settled known, ?_⟩
  refine (flows_grow _ flows).settle ?_
  exact ⟨state.now, _, List.mem_append_right _ (List.mem_singleton.mpr rfl), rfl⟩

/-- The shared promise is cleared, and is to pass the value on. -/
theorem cleanup {read : Nat} {outcome : Except ε (Option Nat)}
    {heap : Heap BalancePromise BalanceHandler ε (Option Nat)}
    (recorded : Recorded state.history state.now state.balanceRead state.reads state.calls
      (.settled read outcome)) (known : read < state.reads)
    (flows : heap.Flows (Carried state.history) (Reacts state.history))
    (poised : Poised heap none state.outstanding state.reads .idle)
    (carried : SettledWith state.history read outcome) :
    (({ state with heap } : BalanceReads ε).cleanup read (.flight read) outcome).Stands .idle := by
  refine ⟨(poised.enqueue rfl).enqueue rfl, recorded.cleared known,
    ((flows_grow _ flows).enqueue fun task member => ?_).enqueue fun task member => ?_⟩
  · rw [List.mem_singleton.mp member]
    exact ⟨.read read, .value (List.mem_append_right _ (List.mem_singleton.mpr rfl)),
      carried.grow _⟩
  · rw [List.mem_singleton.mp member]
    exact Reacts.pass read

/-- A microtask runs. -/
theorem perform (stands : state.Stands phase)
    {task : Microtask BalancePromise BalanceHandler ε (Option Nat)}
    {rest : List (Microtask BalancePromise BalanceHandler ε (Option Nat))}
    (next : state.heap.queue = task :: rest) :
    ∃ phase : BalancePhase ε, (({ state with heap := { state.heap with queue := rest } } :
      BalanceReads ε).perform task).Stands phase := by
  obtain ⟨fits, flows⟩ := stands.flows.rest next
  cases task with
  | follow derived source =>
      have poised := stands.poised.rest next rfl
      have reacts : Reacts state.history source (.settle derived) := fits
      have old (read : Nat) (new : state.reads ≤ read) :
          .balance read ≠ source ∧ .read read ≠ source := by
        cases reacts with
        | value cleared =>
            refine ⟨by simp, ?_⟩
            rintro ⟨rfl⟩
            exact (stands.recorded.reads read new).1 cleared
        | pass other => exact (Poised.Plain.passed other).apart read
        | share joined => exact (Poised.Plain.flight _).apart read
      exact ⟨phase, poised.performThen old derived, stands.recorded, flows.performThen fits⟩
  | react reaction outcome =>
      obtain ⟨source, reacts, carried⟩ := fits
      cases reacts with
      | resume read =>
          obtain ⟨own, none⟩ := stands.poised.taken next rfl
          cases phase with
          | idle | asked | settled => cases own
          | answered other given =>
              cases own
              exact resume stands.recorded (stands.poised.known read rfl) flows
                fun outcome => stands.poised.resume none outcome
      | cleanup read =>
          obtain ⟨own, none⟩ := stands.poised.taken next rfl
          cases phase with
          | idle | asked | answered => cases own
          | settled other given =>
              cases own
              exact ⟨.idle, cleanup stands.recorded (stands.poised.known read rfl) flows
                (stands.poised.cleanup none) carried⟩
      | value cleared =>
          have poised := stands.poised.rest next rfl
          exact ⟨phase, poised.settle (.passed _) _, stands.recorded,
            flows.settle ⟨cleared, carried⟩⟩
      | pass read =>
          have poised := stands.poised.rest next rfl
          exact ⟨phase, poised.settle (.flight read) _, stands.recorded, flows.settle carried⟩
      | share joined =>
          have poised := stands.poised.rest next rfl
          exact ⟨phase, poised.settle (.caller _) _, stands.recorded,
            flows.settle ((Reacts.share joined).carried carried)⟩

end Stands

/-- **Whatever happens, the service stands as some phase says.** -/
theorem Reached.stands {state : BalanceReads ε} (reached : Reached state) :
    ∃ phase, state.Stands phase := by
  induction reached with
  | boot now =>
      refine ⟨.idle, ⟨rfl, rfl, fun _ => rfl, rfl, fun _ _ => ⟨rfl, rfl⟩, ?_⟩, ?_, ?_⟩
      · intro read none
        cases none
      · constructor <;> simp
      · refine ⟨?_, ?_, ?_⟩
        · intro promise outcome settled
          cases settled
        · intro promise reactions pending reaction member
          cases pending
          cases member
        · intro task member
          cases member
  | step before step ih =>
      obtain ⟨phase, stands⟩ := ih
      cases step with
      | pass forward => exact ⟨phase, stands.poised, stands.recorded.pass forward, stands.flows⟩
      | call forward comes => exact stands.cachedBalance comes forward
      | answer waits answer => exact stands.answer waits answer
      | tick next => exact stands.perform next

end BalanceReads

/-! ## Single flight -/

/-- Of two things in a list, one is the earlier. -/
theorem sublist_pair_total {β : Type} {first second : β} {list : List β} (apart : first ≠ second)
    (one : first ∈ list) (other : second ∈ list) :
    [first, second].Sublist list ∨ [second, first].Sublist list := by
  obtain ⟨before, after, rfl⟩ := List.append_of_mem one
  obtain early | late := List.mem_append.mp other
  · exact .inr (sublist_pair_append early List.mem_cons_self)
  · obtain same | late := List.mem_cons.mp late
    · exact absurd same.symm apart
    · refine .inl ((List.Sublist.cons_cons first (List.singleton_sublist.mpr late)).trans ?_)
      exact List.sublist_append_right ..

/-- An answer is the value of a read that settled at most 15 seconds before the call, or after it,
or whose shared promise was cleared after it. -/
def BalanceReads.Timely (state : BalanceReads ε) (call : Nat) (time : Int)
    (outcome : Except ε (Option Nat)) : Prop :=
  ∃ read settledAt wei, .settled read settledAt wei ∈ state.history ∧ outcome = .ok wei ∧
    (time - settledAt ≤ RelayService.balanceTtlMs ∨
      [.called call time, .settled read settledAt wei].Sublist state.history ∨
      [.settled read settledAt wei, .called call time].Sublist state.history ∧
        [.called call time, .cleared read].Sublist state.history)

/-- What is promised of the reads: no two are in flight (`single`); none starts less than 15 seconds
after one has settled (`spaced`); the answers of callers are timely (`timely`); a read that fails,
or that there is nothing to make with, answers `null` (`failed`, `unread`); the promise that is
shared is that of a read that is not cleared, and when no microtask is left it is in flight
(`shared`). -/
structure BalanceReads.SingleFlight (state : BalanceReads ε) : Prop where
  single : state.outstanding.length ≤ 1
  spaced : ∀ read time wei other start,
    [.settled read time wei, .started other start].Sublist state.history →
      time + RelayService.balanceTtlMs ≤ start
  timely : ∀ call time outcome, .called call time ∈ state.history →
    state.heap.cell (.caller call) = .settled outcome → state.Timely call time outcome
  failed : ∀ read thrown time wei, .answered read (.error thrown) ∈ state.history →
    .settled read time wei ∈ state.history → wei = none
  unread : ∀ read time wei, (∀ value, .answered read (.ok value) ∉ state.history) →
    .settled read time wei ∈ state.history → wei = none
  shared : ∀ promise, state.balanceInFlight = some promise → ∃ read, promise = .flight read ∧
    .cleared read ∉ state.history ∧ (state.heap.queue = [] → read ∈ state.outstanding)

namespace BalanceReads

variable {state : BalanceReads ε} {phase : BalancePhase ε}

theorem Stands.timely (stands : state.Stands phase) {call : Nat} {time : Int}
    {outcome : Except ε (Option Nat)} (called : .called call time ∈ state.history)
    (answered : state.heap.cell (.caller call) = .settled outcome) :
    state.Timely call time outcome := by
  obtain ⟨other, read, settledAt, wei, own, settled, same, timely⟩ :=
    stands.flows.settled _ _ answered
  obtain rfl := stands.recorded.times call time other called own
  refine ⟨read, settledAt, wei, settled, same, ?_⟩
  obtain recent | cleared := timely
  · exact .inl (Int.le_of_lt recent)
  · obtain after | before := sublist_pair_total (fun same => by cases same) called settled
    · exact .inr (.inl after)
    · exact .inr (.inr ⟨before, cleared⟩)

theorem Stands.shared (stands : state.Stands phase) {promise : BalancePromise}
    (own : state.balanceInFlight = some promise) : ∃ read, promise = .flight read ∧
      .cleared read ∉ state.history ∧ (state.heap.queue = [] → read ∈ state.outstanding) := by
  obtain ⟨read, current, rfl⟩ := Option.map_eq_some_iff.mp (stands.poised.inFlight.symm.trans own)
  refine ⟨read, rfl, stands.recorded.uncleared read current, fun empty => ?_⟩
  have none : phase.tasks = [] := by
    rw [← stands.poised.handled, Heap.handled, empty]
    rfl
  rw [stands.poised.outstanding]
  cases phase with
  | idle => cases current
  | asked other =>
      cases current
      exact List.mem_singleton.mpr rfl
  | answered | settled => cases none

end BalanceReads

/-- **Balance reads are single-flight**, whoever calls and whatever the node does. -/
theorem balanceReads_singleFlight {state : BalanceReads ε} (reached : state.Reached) :
    state.SingleFlight := by
  obtain ⟨phase, stands⟩ := reached.stands
  refine ⟨?_, stands.recorded.spaced, fun call time outcome => stands.timely,
    fun read thrown time wei answered settled => ?_, fun read time wei unread settled => ?_,
    fun promise => stands.shared⟩
  · rw [stands.poised.outstanding]
    cases phase <;> simp [BalancePhase.outstanding]
  · exact stands.recorded.failed read (.error thrown) time wei answered settled
  · cases wei with
    | none => rfl
    | some value => exact absurd (stands.recorded.read read time value settled) (unread value)

/-! Runs of microtasks. -/

/-- The given number of microtasks run, as far as there are any. -/
def BalanceReads.ticks : Nat → BalanceReads ε → BalanceReads ε
  | 0, state => state
  | count + 1, state =>
      match state.heap.queue with
      | [] => state
      | task :: rest =>
          ticks count (({ state with heap := { state.heap with queue := rest } } :
            BalanceReads ε).perform task)

theorem BalanceReads.Reached.ticks {state : BalanceReads ε} (reached : state.Reached)
    (count : Nat) : (state.ticks count).Reached := by
  induction count generalizing state with
  | zero => exact reached
  | succ count ih =>
      rw [BalanceReads.ticks]
      split
      · exact reached
      · exact ih (reached.step (.tick ‹_›))

/-- Two callers share one read, and both have its value. -/
theorem balanceReads_singleFlight_burst : ∃ state : BalanceReads Unit, state.SingleFlight ∧
    state.reads = 1 ∧ state.heap.cell (.caller 0) = .settled (.ok (some 5)) ∧
      state.heap.cell (.caller 1) = .settled (.ok (some 5)) := by
  have booted : BalanceReads.Reached ({ now := 0 } : BalanceReads Unit) := .boot 0
  have first := booted.step (.call (Int.le_refl 0) .asks)
  have second := first.step (.call (Int.le_refl 0) .asks)
  have answered := second.step (.answer (List.mem_singleton.mpr rfl) (.ok 5))
  exact ⟨_, balanceReads_singleFlight (answered.ticks 9), rfl, rfl, rfl⟩

/-- A caller arrives when the read has settled and its promise is not yet cleared, 20 seconds
later by the clock. -/
theorem reached_late : ∃ state : BalanceReads Unit, state.Reached ∧
    state.heap.cell (.caller 1) = .settled (.ok (some 5)) ∧
      state.history = [.called 0 0, .started 0 0, .answered 0 (.ok 5), .settled 0 0 (some 5),
        .called 1 20000, .cleared 0] := by
  have booted : BalanceReads.Reached ({ now := 0 } : BalanceReads Unit) := .boot 0
  have called := booted.step (.call (Int.le_refl 0) .asks)
  have answered := called.step (.answer (List.mem_singleton.mpr rfl) (.ok 5))
  have waited := (answered.ticks 2).step (.pass (Int.le_of_lt (by decide : (0 : Int) < 20000)))
  have late := waited.step (.call (Int.le_refl _) .asks)
  exact ⟨_, late.ticks 9, rfl, rfl⟩

/-- It is answered with that read, which has settled neither after the call nor in the 15 seconds
before it. -/
theorem shared_after_settled : ¬ ∀ state : BalanceReads Unit, state.Reached →
    ∀ call time outcome, .called call time ∈ state.history →
      state.heap.cell (.caller call) = .settled outcome →
        ∃ read settledAt wei, .settled read settledAt wei ∈ state.history ∧ outcome = .ok wei ∧
          (time - settledAt ≤ RelayService.balanceTtlMs ∨
            [.called call time, .settled read settledAt wei].Sublist state.history) := by
  intro claim
  obtain ⟨state, reached, answered, history⟩ := reached_late
  obtain ⟨read, settledAt, wei, settled, -, timely⟩ :=
    claim state reached 1 20000 _ (by simp [history]) answered
  rw [history] at settled timely
  obtain ⟨rfl, rfl, rfl⟩ : read = 0 ∧ settledAt = 0 ∧ wei = some 5 := by simpa using settled
  obtain recent | after := timely
  · exact absurd recent (by decide)
  · exact absurd after (by decide)

end BalanceReads

end Numera
