import Numera.Foundation.Interleaving

/-! # Traces

A run forgets the order in which its requests arrived and made their calls. A trace
lists what happened in a run, the newest moment first, so that a statement about what
came before what is one about a list. Every trace is one of a run (`Trace.run`), and what
each moment preserves holds of a trace and the world it leaves (`Trace.preserves`).
-/

namespace Async

variable {Op : Type} {Ans : Op → Type} {ε α ρ S σ Λ : Type}

/-- One moment of a run: the world changed by itself, a request arrived, or the call of the request
at some position was answered. -/
inductive Moment (Ans : Op → Type) (ε ρ σ : Type) where
  | passed
  | arrived (request : ρ)
  | answered (position : Nat) (op : Op) (answer : Except ε (Ans op)) (before later : σ)

/-- How many requests have arrived. -/
def arrivals : List (Moment Ans ε ρ σ) → Nat
  | [] => 0
  | .arrived _ :: earlier => arrivals earlier + 1
  | _ :: earlier => arrivals earlier

namespace System

variable (system : System Ans ε α ρ S σ Λ)

/-- What happened in a run, the newest moment first. -/
inductive Trace (meets : Condition Ans ε α ρ S σ) :
    List (Moment Ans ε ρ σ) → σ → List (Thread Ans ε α ρ S) → Prop where
  | start : Trace meets [] system.initial []
  | pass {moments world threads later} (before : Trace meets moments world threads)
      (passed : system.drift world later) : Trace meets (.passed :: moments) later threads
  | arrive {moments world threads} (before : Trace meets moments world threads) (request : ρ) :
      Trace meets (.arrived request :: moments) world (threads ++ [system.arrived request])
  | call {moments world threads position request stage op continued answer record later}
      (before : Trace meets moments world threads)
      (found : threads[position]? = some ⟨request, stage, .call op continued⟩)
      (answered : system.env op world answer record later)
      (met : meets world threads position op answer) :
      Trace meets (.answered position op answer world later :: moments) later
        (threads.set position ⟨request, system.next request stage world op answer, continued answer⟩)

namespace Trace

variable {system} {meets : Condition Ans ε α ρ S σ} {moments : List (Moment Ans ε ρ σ)} {world : σ}
  {threads : List (Thread Ans ε α ρ S)}

/-- A trace is one of a run. -/
theorem run (trace : system.Trace meets moments world threads) :
    ∃ records, system.Run meets records world threads := by
  induction trace with
  | start => exact ⟨[], .start⟩
  | pass _ passed ih =>
      obtain ⟨records, run⟩ := ih
      exact ⟨records, .pass run passed⟩
  | arrive _ request ih =>
      obtain ⟨records, run⟩ := ih
      exact ⟨records, .arrive run request⟩
  | call _ found answered met ih =>
      obtain ⟨records, run⟩ := ih
      exact ⟨_, .call run found answered met⟩

/-- What every moment preserves holds of a trace, the world it leaves and its requests. -/
theorem together (trace : system.Trace meets moments world threads)
    (holds : List (Moment Ans ε ρ σ) → σ → List (Thread Ans ε α ρ S) → Prop)
    (initially : holds [] system.initial [])
    (passes : ∀ moments world later threads, system.drift world later →
      holds moments world threads → holds (.passed :: moments) later threads)
    (arrives : ∀ moments world threads request, system.Trace meets moments world threads →
      holds moments world threads →
        holds (.arrived request :: moments) world (threads ++ [system.arrived request]))
    (calls : ∀ moments world threads position request stage op continued answer record later,
      system.Trace meets moments world threads →
      system.Turn meets world threads position request stage op continued answer record later →
        holds moments world threads → holds (.answered position op answer world later :: moments)
          later (threads.set position
            ⟨request, system.next request stage world op answer, continued answer⟩)) :
    holds moments world threads := by
  induction trace with
  | start => exact initially
  | pass _ passed ih => exact passes _ _ _ _ passed ih
  | arrive before request ih => exact arrives _ _ _ request before ih
  | call before found answered met ih =>
      exact calls _ _ _ _ _ _ _ _ _ _ _ before ⟨before.run, found, answered, met⟩ ih

/-- What every moment preserves holds of a trace and the world it leaves. -/
theorem preserves (trace : system.Trace meets moments world threads)
    (holds : List (Moment Ans ε ρ σ) → σ → Prop) (initially : holds [] system.initial)
    (passes : ∀ moments world later, system.drift world later → holds moments world →
      holds (.passed :: moments) later)
    (arrives : ∀ moments world request, holds moments world →
      holds (.arrived request :: moments) world)
    (calls : ∀ moments world threads position request stage op continued answer record later,
      system.Turn meets world threads position request stage op continued answer record later →
        holds moments world → holds (.answered position op answer world later :: moments) later) :
    holds moments world :=
  trace.together (fun moments world _ => holds moments world) initially
    (fun _ _ _ _ passed held => passes _ _ _ passed held)
    (fun _ _ _ request _ held => arrives _ _ request held)
    fun _ _ _ _ _ _ _ _ _ _ _ _ turn held => calls _ _ _ _ _ _ _ _ _ _ _ turn held

/-- Every request that has arrived is there. -/
theorem arrivals_eq (trace : system.Trace meets moments world threads) :
    arrivals moments = threads.length := by
  induction trace with
  | start => rfl
  | pass _ _ ih => exact ih
  | arrive _ request ih =>
      rw [arrivals, ih, List.length_append, List.length_singleton]
  | call _ _ _ _ ih =>
      rw [arrivals, ih, List.length_set]
      exact fun _ same => by cases same

/-- **A stage that is not reached on arrival has been entered by a call.** -/
theorem entered (trace : system.Trace meets moments world threads) (inside : ρ → S → Prop)
    (outside : ∀ request, ¬ inside request (system.arrival request)) {position : Nat}
    {thread : Thread Ans ε α ρ S} (found : threads[position]? = some thread)
    (within : inside thread.request thread.stage) :
    ∃ newer older before threads' stage op continued answer record later,
      moments = newer ++ .answered position op answer before later :: older ∧
      system.Trace meets older before threads' ∧
      system.Turn meets before threads' position thread.request stage op continued answer record
        later ∧ ¬ inside thread.request stage ∧
      inside thread.request (system.next thread.request stage before op answer) := by
  induction trace generalizing thread with
  | start => cases found
  | pass _ _ ih =>
      obtain ⟨newer, older, before, threads', stage, op, continued, answer, record, later, split,
        rest⟩ := ih found within
      exact ⟨.passed :: newer, older, before, threads', stage, op, continued, answer, record, later,
        by rw [split, List.cons_append], rest⟩
  | @arrive moments world threads earlier request ih =>
      have present : threads[position]? = some thread := by
        rw [List.getElem?_append] at found
        split at found
        · exact found
        · obtain rfl := List.mem_singleton.mp (List.mem_of_getElem? found)
          exact absurd within (outside request)
      obtain ⟨newer, older, before, threads', stage, op, continued, answer, record, later, split,
        rest⟩ := ih present within
      exact ⟨.arrived request :: newer, older, before, threads', stage, op, continued, answer,
        record, later, by rw [split, List.cons_append], rest⟩
  | @call moments world threads caller request stage op continued answer record later earlier
      here answered met ih =>
      have old : ∀ thread : Thread Ans ε α ρ S, threads[position]? = some thread →
          inside thread.request thread.stage →
          ∃ newer older before threads' stage' op' continued' answer' record' later',
            .answered caller op answer world later :: moments =
              newer ++ .answered position op' answer' before later' :: older ∧
            system.Trace meets older before threads' ∧
            system.Turn meets before threads' position thread.request stage' op' continued' answer'
              record' later' ∧ ¬ inside thread.request stage' ∧
            inside thread.request (system.next thread.request stage' before op' answer') := by
        intro thread present already
        obtain ⟨newer, older, before, threads', stage', op', continued', answer', record', later',
          split, rest⟩ := ih present already
        exact ⟨.answered caller op answer world later :: newer, older, before, threads', stage', op',
          continued', answer', record', later', by rw [split, List.cons_append], rest⟩
      by_cases own : position = caller
      · subst own
        obtain ⟨bound, -⟩ := List.getElem?_eq_some_iff.mp here
        rw [List.getElem?_set_self bound, Option.some.injEq] at found
        subst found
        by_cases already : inside request stage
        · exact old ⟨request, stage, .call op continued⟩ here already
        · exact ⟨[], moments, world, threads, stage, op, continued, answer, record, later, rfl,
            earlier, ⟨earlier.run, here, answered, met⟩, already, within⟩
      · rw [List.getElem?_set_ne (Ne.symm own)] at found
        exact old _ found within

/-- What a call leaves its caller with, and every later call keeps, its caller still has. -/
theorem marked (trace : system.Trace meets moments world threads)
    (mark : (op : Op) → Except ε (Ans op) → ρ → S → Prop)
    (marks : ∀ world threads position request stage op continued answer record later,
      system.Turn meets world threads position request stage op continued answer record later →
        mark op answer request (system.next request stage world op answer))
    (kept : ∀ world threads position request stage op continued answer record later,
      system.Turn meets world threads position request stage op continued answer record later →
        ∀ past outcome, mark past outcome request stage →
          mark past outcome request (system.next request stage world op answer))
    {position : Nat} {op : Op} {answer : Except ε (Ans op)} {before later : σ}
    (member : .answered position op answer before later ∈ moments) :
    ∃ thread, threads[position]? = some thread ∧ mark op answer thread.request thread.stage := by
  induction trace with
  | start => cases member
  | pass _ _ ih =>
      rcases List.mem_cons.mp member with same | earlier
      · cases same
      · exact ih earlier
  | @arrive moments world threads _ request ih =>
      rcases List.mem_cons.mp member with same | earlier
      · cases same
      · obtain ⟨thread, found, has⟩ := ih earlier
        obtain ⟨bound, -⟩ := List.getElem?_eq_some_iff.mp found
        exact ⟨thread, by rw [List.getElem?_append_left bound, found], has⟩
  | @call moments world threads caller request stage op' continued answer' record later' earlier
      here answered met ih =>
      have turn : system.Turn meets world threads caller request stage op' continued answer' record
          later' := ⟨earlier.run, here, answered, met⟩
      obtain ⟨bound, -⟩ := List.getElem?_eq_some_iff.mp here
      rcases List.mem_cons.mp member with same | past
      · cases same
        exact ⟨_, List.getElem?_set_self bound, marks _ _ _ _ _ _ _ _ _ _ turn⟩
      · obtain ⟨thread, found, has⟩ := ih past
        by_cases own : position = caller
        · subst own
          obtain rfl := Option.some.inj (here.symm.trans found)
          exact ⟨_, List.getElem?_set_self bound, kept _ _ _ _ _ _ _ _ _ _ turn _ _ has⟩
        · exact ⟨thread, by rw [List.getElem?_set_ne (Ne.symm own), found], has⟩

end Trace

/-- A run has a trace. -/
theorem Run.traced {system : System Ans ε α ρ S σ Λ} {meets : Condition Ans ε α ρ S σ}
    {records : List Λ} {world : σ} {threads : List (Thread Ans ε α ρ S)}
    (run : system.Run meets records world threads) :
    ∃ moments, system.Trace meets moments world threads := by
  induction run with
  | start => exact ⟨[], .start⟩
  | pass _ passed ih =>
      obtain ⟨moments, trace⟩ := ih
      exact ⟨_, .pass trace passed⟩
  | arrive _ request ih =>
      obtain ⟨moments, trace⟩ := ih
      exact ⟨_, .arrive trace request⟩
  | call _ found answered met ih =>
      obtain ⟨moments, trace⟩ := ih
      exact ⟨_, .call trace found answered met⟩

/-! ## Schedules -/

/-- What a trace has reached. -/
structure Traced (Ans : Op → Type) (ε α ρ S σ : Type) where
  moments : List (Moment Ans ε ρ σ)
  world : σ
  threads : List (Thread Ans ε α ρ S)

/-- Before the first request. -/
def untraced : Traced Ans ε α ρ S σ := ⟨[], system.initial, []⟩

variable (respond : Responder Ans ε σ)
  (check : σ → List (Thread Ans ε α ρ S) → Nat → (op : Op) → Except ε (Ans op) → Bool)

/-- Follow a schedule and keep its trace. There is no result when an entry names a request that
makes no call, or when a call does not pass the check. -/
def follow : List (Move ρ) → Traced Ans ε α ρ S σ → Option (Traced Ans ε α ρ S σ)
  | [], reached => some reached
  | .arrive request :: moves, ⟨moments, world, threads⟩ =>
      follow moves ⟨.arrived request :: moments, world, threads ++ [system.arrived request]⟩
  | .call position :: moves, ⟨moments, world, threads⟩ =>
      match threads[position]? with
      | some ⟨request, stage, .call op continued⟩ =>
          let (answer, later) := respond op world
          if check world threads position op answer then
            follow moves ⟨.answered position op answer world later :: moments, later,
              threads.set position
                ⟨request, system.next request stage world op answer, continued answer⟩⟩
          else none
      | _ => none

/-- A schedule that was followed has a trace, where the environment can give the answers and the
check is of the condition. -/
theorem trace_of_follow {record : Op → σ → List Λ} {meets : Condition Ans ε α ρ S σ}
    (answers : ∀ op world,
      system.env op world (respond op world).1 (record op world) (respond op world).2)
    (checked : ∀ world threads position op answer,
      check world threads position op answer = true → meets world threads position op answer)
    (moves : List (Move ρ)) {start reached : Traced Ans ε α ρ S σ}
    (trace : system.Trace meets start.moments start.world start.threads)
    (followed : system.follow respond check moves start = some reached) :
    system.Trace meets reached.moments reached.world reached.threads := by
  induction moves generalizing start with
  | nil =>
      obtain rfl := Option.some.inj followed
      exact trace
  | cons move moves ih =>
      obtain ⟨moments, world, threads⟩ := start
      cases move with
      | arrive request => exact ih (.arrive trace request) followed
      | call position =>
          simp only [follow] at followed
          split at followed
          · rename_i request stage op continued found
            split at followed
            · rename_i passed
              exact ih (.call trace found (answers op world) (checked _ _ _ _ _ passed)) followed
            · cases followed
          · cases followed

end System
end Async
