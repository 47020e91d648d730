import Numera.Foundation.Async

/-! # Interleaved requests

A service answers any number of requests at once. Each request is a computation
of its own, and between two of its calls any other request may make some of
its calls, so that a run is one interleaving of all of them against a shared
world. Every request carries a stage, which says how far it has come and what it
has read; a stage changes only with the answers the request receives.

The rules of this module reduce a statement about runs to one about a single
call: what every call preserves holds throughout (`Run.preserves`, `Run.each`),
a request that starts by its rules keeps to them (`Run.follows`), and a region of
stages that is entered only while nobody is inside is never shared
(`Run.exclusive`).
-/

namespace Async

variable {Op : Type} {Ans : Op → Type} {ε α β ρ S σ Λ : Type}

/-! ## Stages of one computation -/

/-- The computation makes the calls allowed at its stage, whatever it has been
answered before, and finishes as the stage it has reached permits. -/
def Follows (next : S → σ → (op : Op) → Except ε (Ans op) → S) (allowed : S → Op → Prop)
    (finish : S → Except ε α → Prop) : S → Async Ans ε α → Prop
  | stage, .done outcome => finish stage outcome
  | stage, .call op continued =>
      allowed stage op ∧ ∀ world answer,
        Follows next allowed finish (next stage world op answer) (continued answer)

namespace Follows

variable {next : S → σ → (op : Op) → Except ε (Ans op) → S} {allowed : S → Op → Prop}
  {finish : S → Except ε α → Prop} {stage : S}

/-- A sequence keeps to its rules when its second part does so from every stage
in which the first may return. -/
theorem bind {task : Async Ans ε β} {rest : β → Async Ans ε α}
    (first : Follows next allowed
      (fun reached outcome =>
        match outcome with
        | .ok value => Follows next allowed finish reached (rest value)
        | .error thrown => finish reached (.error thrown)) stage task) :
    Follows next allowed finish stage (task >>= rest) := by
  induction task generalizing stage with
  | done outcome =>
      cases outcome with
      | ok value => exact first
      | error thrown => exact first
  | call op continued ih => exact ⟨first.1, fun world answer => ih answer (first.2 world answer)⟩

/-- A computation that is caught keeps to its rules when the handler does so
from every stage in which it may throw. -/
theorem tryCatch {task : Async Ans ε α} {handler : ε → Async Ans ε α}
    (body : Follows next allowed
      (fun reached outcome =>
        match outcome with
        | .ok value => finish reached (.ok value)
        | .error thrown => Follows next allowed finish reached (handler thrown)) stage task) :
    Follows next allowed finish stage (tryCatch task handler) := by
  induction task generalizing stage with
  | done outcome =>
      cases outcome with
      | ok value => exact body
      | error thrown => exact body
  | call op continued ih => exact ⟨body.1, fun world answer => ih answer (body.2 world answer)⟩

/-- A call, and what follows its answer unless it is rejected. -/
theorem perform_bind {op : Op} {rest : Ans op → Async Ans ε α} (member : allowed stage op)
    (answered : ∀ world value,
      Follows next allowed finish (next stage world op (.ok value)) (rest value))
    (rejected : ∀ world thrown, finish (next stage world op (.error thrown)) (.error thrown)) :
    Follows next allowed finish stage (Async.perform op >>= rest) := by
  refine ⟨member, fun world answer => ?_⟩
  cases answer with
  | ok value => exact answered world value
  | error thrown => exact rejected world thrown

/-- A weaker condition on the outcome. -/
theorem mono {weaker : S → Except ε α → Prop} {task : Async Ans ε α}
    (follows : Follows next allowed finish stage task)
    (implies : ∀ reached outcome, finish reached outcome → weaker reached outcome) :
    Follows next allowed weaker stage task := by
  induction task generalizing stage with
  | done outcome => exact implies stage outcome follows
  | call op continued ih =>
      exact ⟨follows.1, fun world answer => ih answer (follows.2 world answer)⟩

/-- Calls that do not move the stage leave the computation where it was. -/
theorem of_callsOnly {neutral : Op → Prop} {task : Async Ans ε α} (only : CallsOnly neutral task)
    (member : ∀ op, neutral op → allowed stage op)
    (unmoved : ∀ op, neutral op → ∀ world answer, next stage world op answer = stage)
    (finished : ∀ outcome, finish stage outcome) : Follows next allowed finish stage task := by
  induction task with
  | done outcome => exact finished outcome
  | call op continued ih =>
      refine ⟨member op only.1, fun world answer => ?_⟩
      rw [unmoved op only.1 world answer]
      exact ih answer (only.2 answer)

/-- Calls that are allowed at every stage, of a computation that may finish at every stage. -/
theorem of_always {permitted : Op → Prop} {task : Async Ans ε α} (only : CallsOnly permitted task)
    (member : ∀ reached op, permitted op → allowed reached op)
    (finished : ∀ reached outcome, finish reached outcome) :
    Follows next allowed finish stage task := by
  induction task generalizing stage with
  | done outcome => exact finished stage outcome
  | call op continued ih =>
      exact ⟨member stage op only.1, fun world answer => ih answer (only.2 answer)⟩

/-- A part that does not move the stage, and what follows it. -/
theorem neutral_bind {neutral : Op → Prop} {task : Async Ans ε β} {rest : β → Async Ans ε α}
    (only : CallsOnly neutral task) (member : ∀ op, neutral op → allowed stage op)
    (unmoved : ∀ op, neutral op → ∀ world answer, next stage world op answer = stage)
    (follows : ∀ value, Follows next allowed finish stage (rest value))
    (thrown : ∀ error, finish stage (.error error)) :
    Follows next allowed finish stage (task >>= rest) := by
  refine .bind (.of_callsOnly only member unmoved fun outcome => ?_)
  cases outcome with
  | ok value => exact follows value
  | error error => exact thrown error

end Follows

/-! ## Runs -/

/-- A request being served: the stage it has reached and what remains of it. -/
structure Thread (Ans : Op → Type) (ε α ρ S : Type) where
  request : ρ
  stage : S
  task : Async Ans ε α

/-- A service and the world it calls. The world may also change by itself
(`drift`), as when time passes. -/
structure System (Ans : Op → Type) (ε α ρ S σ Λ : Type) where
  start : ρ → Async Ans ε α
  arrival : ρ → S
  next : ρ → S → σ → (op : Op) → Except ε (Ans op) → S
  env : Environment Ans ε σ Λ
  drift : σ → σ → Prop
  initial : σ

namespace System

variable (system : System Ans ε α ρ S σ Λ)

/-- A request that has just arrived. -/
def arrived (request : ρ) : Thread Ans ε α ρ S :=
  ⟨request, system.arrival request, system.start request⟩

/-- A condition on a call and its answer, among the requests being served. -/
abbrev Condition (Ans : Op → Type) (ε α ρ S σ : Type) : Type :=
  σ → List (Thread Ans ε α ρ S) → Nat → (op : Op) → Except ε (Ans op) → Prop

/-- No condition. -/
abbrev unconstrained : Condition Ans ε α ρ S σ := fun _ _ _ _ _ => True

/-- The interleavings in which every call meets a condition: what has been
recorded of the calls, the world, and the requests in the order of their
arrival. -/
inductive Run (meets : Condition Ans ε α ρ S σ) :
    List Λ → σ → List (Thread Ans ε α ρ S) → Prop where
  | start : Run meets [] system.initial []
  | pass {records world threads later} (before : Run meets records world threads)
      (passed : system.drift world later) : Run meets records later threads
  | arrive {records world threads} (before : Run meets records world threads) (request : ρ) :
      Run meets records world (threads ++ [system.arrived request])
  | call {records world threads position request stage op continued answer record later}
      (before : Run meets records world threads)
      (found : threads[position]? = some ⟨request, stage, .call op continued⟩)
      (answered : system.env op world answer record later)
      (met : meets world threads position op answer) :
      Run meets (records ++ record) later
        (threads.set position ⟨request, system.next request stage world op answer, continued answer⟩)

/-- One call of a run, with what holds before it. -/
structure Turn (meets : Condition Ans ε α ρ S σ) (world : σ) (threads : List (Thread Ans ε α ρ S))
    (position : Nat) (request : ρ) (stage : S) (op : Op)
    (continued : Except ε (Ans op) → Async Ans ε α) (answer : Except ε (Ans op))
    (record : List Λ) (later : σ) : Prop where
  before : ∃ records, system.Run meets records world threads
  found : threads[position]? = some ⟨request, stage, .call op continued⟩
  answered : system.env op world answer record later
  met : meets world threads position op answer

namespace Run

variable {system} {meets : Condition Ans ε α ρ S σ} {records : List Λ} {world : σ}
  {threads : List (Thread Ans ε α ρ S)}

/-- What every call and every change of the world preserves, a run preserves. -/
theorem preserves (run : system.Run meets records world threads) (holds : σ → Prop)
    (initially : holds system.initial)
    (passes : ∀ world later, system.drift world later → holds world → holds later)
    (calls : ∀ world threads position request stage op continued answer record later,
      system.Turn meets world threads position request stage op continued answer record later →
        holds world → holds later) : holds world := by
  induction run with
  | start => exact initially
  | pass _ passed ih => exact passes _ _ passed ih
  | arrive _ _ ih => exact ih
  | call before found answered met ih =>
      exact calls _ _ _ _ _ _ _ _ _ _ ⟨⟨_, before⟩, found, answered, met⟩ ih

/-- What arrivals, calls and changes of the world preserve holds of the world and the requests
throughout. -/
theorem together (run : system.Run meets records world threads)
    (holds : σ → List (Thread Ans ε α ρ S) → Prop) (initially : holds system.initial [])
    (passes : ∀ world later threads, system.drift world later → holds world threads →
      holds later threads)
    (arrives : ∀ world threads request, holds world threads →
      holds world (threads ++ [system.arrived request]))
    (calls : ∀ world threads position request stage op continued answer record later,
      system.Turn meets world threads position request stage op continued answer record later →
        holds world threads → holds later (threads.set position
          ⟨request, system.next request stage world op answer, continued answer⟩)) :
    holds world threads := by
  induction run with
  | start => exact initially
  | pass _ passed ih => exact passes _ _ _ passed ih
  | arrive _ request ih => exact arrives _ _ request ih
  | call before found answered met ih =>
      exact calls _ _ _ _ _ _ _ _ _ _ ⟨⟨_, before⟩, found, answered, met⟩ ih

/-- What holds of every request on arrival, and after every call of the caller and of those
beside it, holds of every request throughout. -/
theorem each_at (run : system.Run meets records world threads)
    (holds : σ → Thread Ans ε α ρ S → Prop)
    (arrives : ∀ world request, holds world (system.arrived request))
    (passes : ∀ world later thread, system.drift world later → holds world thread →
      holds later thread)
    (calls : ∀ world threads position request stage op continued answer record later,
      system.Turn meets world threads position request stage op continued answer record later →
        (∀ thread ∈ threads, holds world thread) →
        holds later ⟨request, system.next request stage world op answer, continued answer⟩)
    (survives : ∀ world threads position request stage op continued answer record later,
      system.Turn meets world threads position request stage op continued answer record later →
        (∀ thread ∈ threads, holds world thread) → ∀ (other : Nat) (thread : Thread Ans ε α ρ S),
          other ≠ position → threads[other]? = some thread → holds later thread) :
    ∀ thread ∈ threads, holds world thread := by
  induction run with
  | start => exact fun thread member => absurd member List.not_mem_nil
  | pass _ passed ih => exact fun thread member => passes _ _ _ passed (ih thread member)
  | arrive _ request ih =>
      intro thread member
      rcases List.mem_append.mp member with old | new
      · exact ih thread old
      · obtain rfl := List.mem_singleton.mp new
        exact arrives _ request
  | @call _ _ threads position _ _ _ _ _ _ _ before found answered met ih =>
      intro thread member
      have turn := Turn.mk ⟨_, before⟩ found answered met
      obtain ⟨other, here⟩ := List.mem_iff_getElem?.mp member
      by_cases same : other = position
      · subst same
        obtain ⟨bound, -⟩ := List.getElem?_eq_some_iff.mp found
        rw [List.getElem?_set_self bound, Option.some.injEq] at here
        subst here
        exact calls _ _ _ _ _ _ _ _ _ _ turn ih
      · rw [List.getElem?_set_ne (Ne.symm same)] at here
        exact survives _ _ _ _ _ _ _ _ _ _ turn ih other thread same here

/-- What holds of a request on arrival, is kept by its own calls, and survives the
calls of others holds of every request throughout. -/
theorem each (run : system.Run meets records world threads)
    (holds : σ → Thread Ans ε α ρ S → Prop)
    (arrives : ∀ world request, holds world (system.arrived request))
    (passes : ∀ world later thread, system.drift world later → holds world thread →
      holds later thread)
    (calls : ∀ world threads position request stage op continued answer record later,
      system.Turn meets world threads position request stage op continued answer record later →
        holds world ⟨request, stage, .call op continued⟩ →
        holds later ⟨request, system.next request stage world op answer, continued answer⟩)
    (survives : ∀ world threads position request stage op continued answer record later thread,
      system.Turn meets world threads position request stage op continued answer record later →
        thread ∈ threads → holds world thread → holds later thread) :
    ∀ thread ∈ threads, holds world thread :=
  run.each_at holds arrives passes
    (fun _ _ _ _ _ _ _ _ _ _ turn all =>
      calls _ _ _ _ _ _ _ _ _ _ turn (all _ (List.mem_of_getElem? turn.found)))
    fun _ _ _ _ _ _ _ _ _ _ turn all _ thread _ found =>
      have member := List.mem_of_getElem? found
      survives _ _ _ _ _ _ _ _ _ _ thread turn member (all thread member)

/-- Every request keeps to its rules. -/
theorem follows {allowed : ρ → S → Op → Prop} {finish : ρ → S → Except ε α → Prop}
    (run : system.Run meets records world threads)
    (starts : ∀ request, Follows (system.next request) (allowed request) (finish request)
      (system.arrival request) (system.start request)) :
    ∀ thread ∈ threads, Follows (system.next thread.request) (allowed thread.request)
      (finish thread.request) thread.stage thread.task :=
  run.each (fun _ thread => Follows (system.next thread.request) (allowed thread.request)
      (finish thread.request) thread.stage thread.task)
    (fun _ request => starts request) (fun _ _ _ _ held => held)
    (fun world _ _ _ _ _ _ answer _ _ _ held => held.2 world answer)
    fun _ _ _ _ _ _ _ _ _ _ _ _ _ held => held

/-- Every call that was recorded was made by a request that may make it, and has since kept to
it. -/
theorem accounted {allowed : ρ → S → (op : Op) → Prop} {finish : ρ → S → Except ε α → Prop}
    (run : system.Run meets records world threads) (made : ρ → S → Λ → Prop)
    (starts : ∀ request, Follows (system.next request) (allowed request) (finish request)
      (system.arrival request) (system.start request))
    (calls : ∀ world threads position request stage op continued answer record later,
      system.Turn meets world threads position request stage op continued answer record later →
        allowed request stage op →
          ∀ entry ∈ record, made request (system.next request stage world op answer) entry)
    (keeps : ∀ world threads position request stage op continued answer record later,
      system.Turn meets world threads position request stage op continued answer record later →
        ∀ entry, made request stage entry →
          made request (system.next request stage world op answer) entry) :
    ∀ entry ∈ records, ∃ thread ∈ threads, made thread.request thread.stage entry := by
  induction run with
  | start => exact fun entry member => absurd member List.not_mem_nil
  | pass _ _ ih => exact ih
  | arrive _ request ih =>
      intro entry member
      obtain ⟨thread, present, own⟩ := ih entry member
      exact ⟨thread, List.mem_append_left _ present, own⟩
  | @call _ world threads position request stage op continued answer record later before found
      answered met ih =>
      obtain ⟨bound, same⟩ := List.getElem?_eq_some_iff.mp found
      have turn := Turn.mk ⟨_, before⟩ found answered met
      let after : Thread Ans ε α ρ S :=
        ⟨request, system.next request stage world op answer, continued answer⟩
      have caller : after ∈ threads.set position after := List.mem_set bound _
      intro entry member
      rcases List.mem_append.mp member with old | new
      · obtain ⟨thread, present, own⟩ := ih entry old
        obtain ⟨other, bound', rfl⟩ := List.getElem_of_mem present
        by_cases here : other = position
        · subst here
          rw [same] at own
          exact ⟨after, caller, keeps _ _ _ _ _ _ _ _ _ _ turn entry own⟩
        · refine ⟨threads[other], ?_, own⟩
          exact List.mem_of_getElem? (by rw [List.getElem?_set_ne (Ne.symm here),
            List.getElem?_eq_getElem bound'])
      · have follows := before.follows starts _ (List.mem_of_getElem? found)
        exact ⟨after, caller, calls _ _ _ _ _ _ _ _ _ _ turn follows.1 entry new⟩

/-- Every call that was recorded was made by a request that may make it. -/
theorem recorded {made : ρ → Λ → Prop} {allowed : ρ → S → (op : Op) → Prop}
    {finish : ρ → S → Except ε α → Prop} (run : system.Run meets records world threads)
    (starts : ∀ request, Follows (system.next request) (allowed request) (finish request)
      (system.arrival request) (system.start request))
    (calls : ∀ world threads position request stage op continued answer record later,
      system.Turn meets world threads position request stage op continued answer record later →
        allowed request stage op → ∀ entry ∈ record, made request entry) :
    ∀ entry ∈ records, ∃ thread ∈ threads, made thread.request entry :=
  run.accounted (fun request _ entry => made request entry) starts calls
    fun _ _ _ _ _ _ _ _ _ _ _ _ own => own

/-- What holds between a request that arrives and any other, and is kept by the calls of either,
holds between any two throughout. -/
theorem pairwise (run : system.Run meets records world threads)
    (related : Thread Ans ε α ρ S → Thread Ans ε α ρ S → Prop)
    (symmetric : ∀ first second, related first second → related second first)
    (arrives : ∀ request thread, related (system.arrived request) thread)
    (calls : ∀ world threads position request stage op continued answer record later,
      system.Turn meets world threads position request stage op continued answer record later →
        ∀ (other : Nat) (thread : Thread Ans ε α ρ S), other ≠ position →
          threads[other]? = some thread → related ⟨request, stage, .call op continued⟩ thread →
          related ⟨request, system.next request stage world op answer, continued answer⟩ thread) :
    ∀ (i j : Nat) (first second : Thread Ans ε α ρ S), i ≠ j → threads[i]? = some first →
      threads[j]? = some second → related first second := by
  induction run with
  | start => exact fun i j first second _ found => by simp at found
  | pass _ _ ih => exact ih
  | @arrive records world threads _ request ih =>
      have old : ∀ (i : Nat) (thread : Thread Ans ε α ρ S),
          (threads ++ [system.arrived request])[i]? = some thread →
            threads[i]? = some thread ∨ i = threads.length ∧ thread = system.arrived request := by
        intro i thread found
        rw [List.getElem?_append] at found
        split at found
        · exact .inl found
        · rename_i beyond
          obtain ⟨short, -⟩ := List.getElem?_eq_some_iff.mp found
          rw [List.length_singleton] at short
          exact .inr ⟨by omega, List.mem_singleton.mp (List.mem_of_getElem? found)⟩
      intro i j first second apart foundFirst foundSecond
      rcases old i first foundFirst with present | ⟨last, rfl⟩
      · rcases old j second foundSecond with beside | ⟨-, rfl⟩
        · exact ih i j first second apart present beside
        · exact symmetric _ _ (arrives request first)
      · exact arrives request second
  | @call records world threads position request stage op continued answer record later
      before found answered met ih =>
      have turn := Turn.mk ⟨_, before⟩ found answered met
      obtain ⟨bound, -⟩ := List.getElem?_eq_some_iff.mp found
      have others : ∀ (i : Nat) (thread : Thread Ans ε α ρ S), i ≠ position → (threads.set position
          ⟨request, system.next request stage world op answer, continued answer⟩)[i]? =
            some thread → threads[i]? = some thread := by
        intro i thread other foundThread
        rwa [List.getElem?_set_ne (Ne.symm other)] at foundThread
      have caller : ∀ thread, (threads.set position
          ⟨request, system.next request stage world op answer, continued answer⟩)[position]? =
            some thread → thread =
              ⟨request, system.next request stage world op answer, continued answer⟩ := by
        intro thread foundThread
        rw [List.getElem?_set_self bound, Option.some.injEq] at foundThread
        exact foundThread.symm
      have moved : ∀ (i : Nat) (thread : Thread Ans ε α ρ S), i ≠ position →
          threads[i]? = some thread →
            related ⟨request, system.next request stage world op answer, continued answer⟩
              thread := fun i thread other present =>
        calls _ _ _ _ _ _ _ _ _ _ turn i thread other present
          (ih position i _ thread (Ne.symm other) found present)
      intro i j first second apart foundFirst foundSecond
      by_cases iCalls : i = position
      · subst iCalls
        have other : j ≠ i := Ne.symm apart
        rw [caller first foundFirst]
        exact moved j second other (others j second other foundSecond)
      · by_cases jCalls : j = position
        · subst jCalls
          rw [caller second foundSecond]
          exact symmetric _ _ (moved i first iCalls (others i first iCalls foundFirst))
        · exact ih i j first second apart (others i first iCalls foundFirst)
            (others j second jCalls foundSecond)

/-- **A region that is entered only while nobody is inside is never shared.** -/
theorem exclusive_threads (run : system.Run meets records world threads)
    (inside : Thread Ans ε α ρ S → Prop)
    (outside : ∀ request, ¬ inside (system.arrived request))
    (entering : ∀ world threads position request stage op continued answer record later,
      system.Turn meets world threads position request stage op continued answer record later →
        ¬ inside ⟨request, stage, .call op continued⟩ →
        inside ⟨request, system.next request stage world op answer, continued answer⟩ →
        ∀ (other : Nat) (thread : Thread Ans ε α ρ S), other ≠ position →
          threads[other]? = some thread → ¬ inside thread) :
    ∀ (i j : Nat) (first second : Thread Ans ε α ρ S), threads[i]? = some first →
      threads[j]? = some second → inside first → inside second → i = j := by
  have alone := run.pairwise (fun first second => ¬ (inside first ∧ inside second))
    (fun _ _ apart both => apart both.symm) (fun request _ both => outside request both.1) ?_
  · intro i j first second foundFirst foundSecond insideFirst insideSecond
    by_contra apart
    exact alone i j first second apart foundFirst foundSecond ⟨insideFirst, insideSecond⟩
  · intro world threads position request stage op continued answer record later turn other thread
      beside found apart both
    by_cases already : inside ⟨request, stage, .call op continued⟩
    · exact apart ⟨already, both.2⟩
    · exact entering _ _ _ _ _ _ _ _ _ _ turn already both.1 other thread beside found both.2

/-- A region of stages that is entered only while nobody is inside is never shared. -/
theorem exclusive (run : system.Run meets records world threads) (inside : ρ → S → Prop)
    (outside : ∀ request, ¬ inside request (system.arrival request))
    (entering : ∀ world threads position request stage op continued answer record later,
      system.Turn meets world threads position request stage op continued answer record later →
        ¬ inside request stage → inside request (system.next request stage world op answer) →
        ∀ other ∈ threads, ¬ inside other.request other.stage) :
    ∀ (i j : Nat) (first second : Thread Ans ε α ρ S), threads[i]? = some first →
      threads[j]? = some second → inside first.request first.stage →
      inside second.request second.stage → i = j :=
  run.exclusive_threads (fun thread => inside thread.request thread.stage) outside
    fun _ _ _ _ _ _ _ _ _ _ turn already within _ thread _ found =>
      entering _ _ _ _ _ _ _ _ _ _ turn already within thread (List.mem_of_getElem? found)

end Run

/-! ## Lines

A request takes the next ticket of a line, enters when its ticket is served, and the next
ticket is served when it leaves. -/

/-- What the calls of a system do to a line: how many tickets have been issued and served,
which ticket a request holds, and whether it is inside. -/
structure Ticketed (meets : Condition Ans ε α ρ S σ) (issued served : σ → Nat)
    (ticket : ρ → S → Option Nat) (inside : ρ → S → Prop) : Prop where
  arrives : ∀ request, ticket request (system.arrival request) = none
  holds : ∀ request stage, inside request stage → ticket request stage ≠ none
  passes : ∀ world later, system.drift world later →
    issued later = issued world ∧ served later = served world
  issues : ∀ world threads position request stage op continued answer record later,
    system.Turn meets world threads position request stage op continued answer record later →
      issued world ≤ issued later
  takes : ∀ world threads position request stage op continued answer record later,
    system.Turn meets world threads position request stage op continued answer record later →
      ticket request (system.next request stage world op answer) = ticket request stage ∨
      ticket request (system.next request stage world op answer) = none ∨
      (ticket request stage = none ∧ issued later = issued world + 1 ∧
        ticket request (system.next request stage world op answer) = some (issued world))
  enters : ∀ world threads position request stage op continued answer record later,
    system.Turn meets world threads position request stage op continued answer record later →
      inside request (system.next request stage world op answer) → inside request stage ∨
        ticket request stage = some (served world)
  leaves : ∀ world threads position request stage op continued answer record later,
    system.Turn meets world threads position request stage op continued answer record later →
      served later = served world ∨
        (inside request stage ∧ ¬ inside request (system.next request stage world op answer))

namespace Ticketed

variable {system} {meets : Condition Ans ε α ρ S σ} {issued served : σ → Nat}
  {ticket : ρ → S → Option Nat} {inside : ρ → S → Prop} {records : List Λ} {world : σ}
  {threads : List (Thread Ans ε α ρ S)}

theorem ticket_lt (line : system.Ticketed meets issued served ticket inside)
    (run : system.Run meets records world threads) :
    ∀ thread ∈ threads, ∀ place, ticket thread.request thread.stage = some place →
      place < issued world := by
  refine run.each (fun world thread => ∀ place,
    ticket thread.request thread.stage = some place → place < issued world) ?_ ?_ ?_ ?_
  · intro world request place taken
    exact absurd ((line.arrives request).symm.trans taken) nofun
  · intro world later thread passed below place taken
    rw [(line.passes world later passed).1]
    exact below place taken
  · intro world threads position request stage op continued answer record later turn below place
      taken
    rcases line.takes _ _ _ _ _ _ _ _ _ _ turn with same | none | ⟨-, more, new⟩
    · exact Nat.lt_of_lt_of_le (below place (same.symm.trans taken))
        (line.issues _ _ _ _ _ _ _ _ _ _ turn)
    · exact absurd (none.symm.trans taken) nofun
    · obtain rfl := Option.some.inj (new.symm.trans taken)
      rw [more]
      exact Nat.lt_succ_self _
  · intro world threads position request stage op continued answer record later thread turn _ below
      place taken
    exact Nat.lt_of_lt_of_le (below place taken) (line.issues _ _ _ _ _ _ _ _ _ _ turn)

/-- No two requests hold one ticket. -/
theorem ticket_unique (line : system.Ticketed meets issued served ticket inside)
    (run : system.Run meets records world threads) (place : Nat) :
    ∀ (i j : Nat) (first second : Thread Ans ε α ρ S), threads[i]? = some first →
      threads[j]? = some second → ticket first.request first.stage = some place →
      ticket second.request second.stage = some place → i = j := by
  refine run.exclusive (fun request stage => ticket request stage = some place) ?_ ?_
  · intro request taken
    rw [line.arrives request] at taken
    cases taken
  · intro world threads position request stage op continued answer record later turn without taken
      other present held
    rcases line.takes _ _ _ _ _ _ _ _ _ _ turn with same | none | ⟨-, -, new⟩
    · exact without (same.symm.trans taken)
    · exact absurd (none.symm.trans taken) nofun
    · obtain rfl := Option.some.inj (new.symm.trans taken)
      obtain ⟨_, before⟩ := turn.before
      exact Nat.lt_irrefl _ (line.ticket_lt before other present _ held)

/-- A request inside holds the ticket that is being served. -/
theorem ticket_served (line : system.Ticketed meets issued served ticket inside)
    (run : system.Run meets records world threads) :
    ∀ thread ∈ threads, inside thread.request thread.stage →
      ticket thread.request thread.stage = some (served world) := by
  refine run.each_at (fun world thread => inside thread.request thread.stage →
    ticket thread.request thread.stage = some (served world)) ?_ ?_ ?_ ?_
  · intro world request within
    exact absurd (line.arrives request) (line.holds _ _ within)
  · intro world later thread passed held within
    rw [(line.passes world later passed).2]
    exact held within
  · intro world threads position request stage op continued answer record later turn all within
    have caller := all _ (List.mem_of_getElem? turn.found)
    have before : ticket request stage = some (served world) := by
      rcases line.enters _ _ _ _ _ _ _ _ _ _ turn within with already | taken
      · exact caller already
      · exact taken
    have still : served later = served world := by
      rcases line.leaves _ _ _ _ _ _ _ _ _ _ turn with same | ⟨-, outside⟩
      · exact same
      · exact absurd within outside
    rw [still]
    rcases line.takes _ _ _ _ _ _ _ _ _ _ turn with same | none | ⟨new, -⟩
    · exact same.trans before
    · exact absurd none (line.holds _ _ within)
    · exact absurd (new.symm.trans before) nofun
  · intro world threads position request stage op continued answer record later turn all other
      thread beside found within
    have own := all thread (List.mem_of_getElem? found) within
    rcases line.leaves _ _ _ _ _ _ _ _ _ _ turn with same | ⟨inner, -⟩
    · rw [same]
      exact own
    · obtain ⟨_, before⟩ := turn.before
      have caller := all _ (List.mem_of_getElem? turn.found) inner
      exact absurd (line.ticket_unique before _ other position thread _ found turn.found own caller)
        beside

/-- **At most one request is inside.** -/
theorem alone (line : system.Ticketed meets issued served ticket inside)
    (run : system.Run meets records world threads) (i j : Nat) (first second : Thread Ans ε α ρ S)
    (foundFirst : threads[i]? = some first) (foundSecond : threads[j]? = some second)
    (insideFirst : inside first.request first.stage)
    (insideSecond : inside second.request second.stage) : i = j :=
  line.ticket_unique run _ i j first second foundFirst foundSecond
    (line.ticket_served run first (List.mem_of_getElem? foundFirst) insideFirst)
    (line.ticket_served run second (List.mem_of_getElem? foundSecond) insideSecond)

end Ticketed

/-! ## Schedules

Against an environment that answers as a function of its state, a run is computed
from the order in which requests arrive and make their calls. -/

/-- One entry of a schedule. -/
inductive Move (ρ : Type) where
  | arrive (request : ρ)
  | call (position : Nat)

/-- What a run has reached. -/
structure Standing (Ans : Op → Type) (ε α ρ S σ Λ : Type) where
  records : List Λ
  world : σ
  threads : List (Thread Ans ε α ρ S)

/-- Before the first request. -/
def standing : Standing Ans ε α ρ S σ Λ := ⟨[], system.initial, []⟩

variable (respond : Responder Ans ε σ) (record : Op → σ → List Λ)
  (check : σ → List (Thread Ans ε α ρ S) → Nat → (op : Op) → Except ε (Ans op) → Bool)

/-- Follow a schedule. There is no result when an entry names a request that makes
no call, or when a call does not pass the check. -/
def play : List (Move ρ) → Standing Ans ε α ρ S σ Λ → Option (Standing Ans ε α ρ S σ Λ)
  | [], reached => some reached
  | .arrive request :: moves, ⟨records, world, threads⟩ =>
      play moves ⟨records, world, threads ++ [system.arrived request]⟩
  | .call position :: moves, ⟨records, world, threads⟩ =>
      match threads[position]? with
      | some ⟨request, stage, .call op continued⟩ =>
          let (answer, later) := respond op world
          if check world threads position op answer then
            play moves ⟨records ++ record op world, later, threads.set position
              ⟨request, system.next request stage world op answer, continued answer⟩⟩
          else none
      | _ => none

/-- A schedule that was followed is a run, where the environment can give the answers that pass
the check in the runs the schedule goes through. -/
theorem run_of_play_along {meets : Condition Ans ε α ρ S σ}
    (checked : ∀ records world threads position op, system.Run meets records world threads →
      check world threads position op (respond op world).1 = true →
        system.env op world (respond op world).1 (record op world) (respond op world).2 ∧
        meets world threads position op (respond op world).1)
    (moves : List (Move ρ)) {start reached : Standing Ans ε α ρ S σ Λ}
    (run : system.Run meets start.records start.world start.threads)
    (played : system.play respond record check moves start = some reached) :
    system.Run meets reached.records reached.world reached.threads := by
  induction moves generalizing start with
  | nil =>
      obtain rfl := Option.some.inj played
      exact run
  | cons move moves ih =>
      obtain ⟨records, world, threads⟩ := start
      cases move with
      | arrive request => exact ih (.arrive run request) played
      | call position =>
          simp only [play] at played
          split at played
          · rename_i request stage op continued found
            split at played
            · rename_i passed
              obtain ⟨answered, met⟩ := checked records world threads position op run passed
              exact ih (.call run found answered met) played
            · cases played
          · cases played

/-- A schedule that was followed is a run, where the environment can give the
answers that pass the check. -/
theorem run_of_play {meets : Condition Ans ε α ρ S σ}
    (checked : ∀ world threads position op,
      check world threads position op (respond op world).1 = true →
        system.env op world (respond op world).1 (record op world) (respond op world).2 ∧
        meets world threads position op (respond op world).1)
    (moves : List (Move ρ)) {start reached : Standing Ans ε α ρ S σ Λ}
    (run : system.Run meets start.records start.world start.threads)
    (played : system.play respond record check moves start = some reached) :
    system.Run meets reached.records reached.world reached.threads :=
  run_of_play_along system respond record check
    (fun _ world threads position op _ passed => checked world threads position op passed) moves run
    played

end System
end Async
