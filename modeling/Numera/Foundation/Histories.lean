import Mathlib.Data.List.Induction
import Mathlib.Data.Nat.Count
import Numera.Foundation.Interleaving

/-! # Histories

A history says which requests arrive, which of them makes its next call and how the
environment answers it, and how the world changes by itself, one after the other. What it
reaches is a function of the history, so that two histories can be compared which differ
in some requests only; an entry that cannot happen is passed over. Histories reach what
runs reach (`exists_history`, `exists_run`). Requests whose calls leave the world as it
is can be left out without any other request noticing (`alike_without`).
-/

namespace Async.System

variable {Op : Type} {Ans : Op → Type} {ε α ρ S σ Λ : Type} (system : System Ans ε α ρ S σ Λ)

/-- How the environment answers a call that is made now, whichever it is and whatever the world
is; there is no answer as long as it cannot be answered. -/
structure Policy where
  respond : (op : Op) → σ → Option (Except ε (Ans op) × σ)
  possible : ∀ op world answer later, respond op world = some (answer, later) →
    ∃ record, system.env op world answer record later

/-- How the world changes by itself now, whatever it is. -/
structure Passage where
  change : σ → σ
  possible : ∀ world, change world = world ∨ system.drift world (change world)

/-- An entry of a history. -/
inductive Event where
  | arrives (request : ρ)
  | calls (position : Nat) (policy : system.Policy)
  | passes (passage : system.Passage)

/-- The world and the requests after an entry. -/
def advance (reached : σ × List (Thread Ans ε α ρ S)) :
    system.Event → σ × List (Thread Ans ε α ρ S)
  | .arrives request => (reached.1, reached.2 ++ [system.arrived request])
  | .calls position policy =>
      match reached.2[position]? with
      | some ⟨request, stage, .call op continued⟩ =>
          match policy.respond op reached.1 with
          | some (answer, later) => (later, reached.2.set position
              ⟨request, system.next request stage reached.1 op answer, continued answer⟩)
          | none => reached
      | _ => reached
  | .passes passage => (passage.change reached.1, reached.2)

/-- What a history reaches. -/
def reach (events : List system.Event) : σ × List (Thread Ans ε α ρ S) :=
  events.foldl system.advance (system.initial, [])

theorem reach_append (events : List system.Event) (event : system.Event) :
    system.reach (events ++ [event]) = system.advance (system.reach events) event := by
  rw [reach, List.foldl_append]
  rfl

/-! ## Histories and runs -/

/-- What a history reaches, a run reaches. -/
theorem exists_run (events : List system.Event) :
    ∃ records, system.Run unconstrained records (system.reach events).1 (system.reach events).2 := by
  induction events using List.reverseRecOn with
  | nil => exact ⟨[], .start⟩
  | append_singleton events event ih =>
      obtain ⟨records, run⟩ := ih
      rw [reach_append]
      cases event with
      | arrives request => exact ⟨records, .arrive run request⟩
      | passes passage =>
          rcases passage.possible (system.reach events).1 with same | passed
          · refine ⟨records, ?_⟩
            change system.Run _ _ (passage.change (system.reach events).1) _
            rw [same]
            exact run
          · exact ⟨records, .pass run passed⟩
      | calls position policy =>
          simp only [advance]
          split
          · rename_i request stage op continued found
            split
            · rename_i answer later answered
              obtain ⟨record, possible⟩ := policy.possible _ _ _ _ answered
              exact ⟨_, .call run found possible trivial⟩
            · exact ⟨records, run⟩
          · exact ⟨records, run⟩

open Classical in
/-- The policy that gives one answer to one call in one world. -/
noncomputable def Policy.only {op : Op} {world later : σ} {answer : Except ε (Ans op)}
    {record : List Λ} (answered : system.env op world answer record later) : system.Policy where
  respond other before :=
    if same : op = other ∧ before = world then some (same.1 ▸ answer, later) else none
  possible := by
    intro other before given after returned
    split at returned
    · rename_i same
      obtain ⟨rfl, rfl⟩ := same
      obtain ⟨rfl, rfl⟩ := Prod.mk.inj (Option.some.inj returned)
      exact ⟨record, answered⟩
    · cases returned

open Classical in
/-- What a run reaches, a history reaches. -/
theorem exists_history {meets : Condition Ans ε α ρ S σ} {records : List Λ} {world : σ}
    {threads : List (Thread Ans ε α ρ S)} (run : system.Run meets records world threads) :
    ∃ events, system.reach events = (world, threads) := by
  induction run with
  | start => exact ⟨[], rfl⟩
  | @pass _ world _ later _ passed ih =>
      obtain ⟨events, reached⟩ := ih
      have possible : ∀ before, (if before = world then later else before) = before ∨
          system.drift before (if before = world then later else before) := by
        intro before
        split
        · rename_i same
          subst same
          exact .inr passed
        · exact .inl rfl
      refine ⟨events ++ [.passes ⟨fun before => if before = world then later else before,
        possible⟩], ?_⟩
      rw [reach_append, reached]
      simp [advance]
  | arrive _ request ih =>
      obtain ⟨events, reached⟩ := ih
      exact ⟨events ++ [.arrives request], by rw [reach_append, reached]; rfl⟩
  | @call _ _ _ position _ _ _ _ _ _ _ _ found answered _ ih =>
      obtain ⟨events, reached⟩ := ih
      refine ⟨events ++ [.calls position (.only system answered)], ?_⟩
      rw [reach_append, reached]
      simp [advance, found, Policy.only]

/-! ## Leaving requests out -/

/-- The position of a request among those that are not left out. -/
def kept (inserted : Nat → Bool) (position : Nat) : Nat :=
  Nat.count (fun other => inserted other = false) position

/-- The entries of a history about the requests that are not left out, when some requests
have arrived before it. -/
def withoutFrom (inserted : Nat → Bool) : Nat → List system.Event → List system.Event
  | _, [] => []
  | arrived, .arrives request :: events =>
      if inserted arrived then withoutFrom inserted (arrived + 1) events
      else .arrives request :: withoutFrom inserted (arrived + 1) events
  | arrived, .calls position policy :: events =>
      if inserted position then withoutFrom inserted arrived events
      else .calls (kept inserted position) policy :: withoutFrom inserted arrived events
  | arrived, .passes passage :: events => .passes passage :: withoutFrom inserted arrived events

/-- The history without the requests at some positions. -/
def without (inserted : Nat → Bool) (events : List system.Event) : List system.Event :=
  system.withoutFrom inserted 0 events

/-- The first state has the requests of the second that are not left out, and its world. -/
structure Alike (inserted : Nat → Bool) (first second : σ × List (Thread Ans ε α ρ S)) : Prop where
  world : first.1 = second.1
  length : first.2.length = kept inserted second.2.length
  others : ∀ position, inserted position = false →
    first.2[kept inserted position]? = second.2[position]?

variable {system} {inserted : Nat → Bool} {first second : σ × List (Thread Ans ε α ρ S)}

theorem kept_succ_of_left {position : Nat} (left : inserted position = true) :
    kept inserted (position + 1) = kept inserted position := by
  rw [kept, Nat.count_succ, if_neg (by simp [left]), Nat.add_zero]
  rfl

theorem kept_succ {position : Nat} (apart : inserted position = false) :
    kept inserted (position + 1) = kept inserted position + 1 := by
  rw [kept, Nat.count_succ, if_pos apart]
  rfl

theorem kept_lt {position other : Nat} (apart : inserted position = false)
    (before : position < other) : kept inserted position < kept inserted other :=
  Nat.count_strict_mono (p := fun place => inserted place = false) apart before

theorem kept_injective {position other : Nat} (apart : inserted position = false)
    (beside : inserted other = false) (same : kept inserted position = kept inserted other) :
    position = other :=
  Nat.count_injective (p := fun place => inserted place = false) apart beside same

/-- A request that arrives in both. -/
theorem Alike.arrives (alike : Alike inserted first second)
    (apart : inserted second.2.length = false) (thread : Thread Ans ε α ρ S) :
    Alike inserted (first.1, first.2 ++ [thread]) (second.1, second.2 ++ [thread]) := by
  obtain ⟨same, length, beside⟩ := alike
  refine ⟨same, ?_, fun position outside => ?_⟩
  · simp only [List.length_append, List.length_singleton]
    rw [length, kept_succ apart]
  · rcases Nat.lt_trichotomy position second.2.length with before | rfl | after
    · have here : kept inserted position < first.2.length := length ▸ kept_lt outside before
      rw [List.getElem?_append_left here, List.getElem?_append_left before]
      exact beside position outside
    · rw [← length, List.getElem?_concat_length, List.getElem?_concat_length]
    · have there : first.2.length < kept inserted position := length ▸ kept_lt apart after
      have outside_first : (first.2 ++ [thread]).length ≤ kept inserted position := by
        rw [List.length_append]
        exact there
      have outside_second : (second.2 ++ [thread]).length ≤ position := by
        rw [List.length_append]
        exact after
      rw [List.getElem?_eq_none outside_first, List.getElem?_eq_none outside_second]

/-- A request that arrives in the second only. -/
theorem Alike.inserts (alike : Alike inserted first second)
    (left : inserted second.2.length = true) (thread : Thread Ans ε α ρ S) :
    Alike inserted first (second.1, second.2 ++ [thread]) := by
  obtain ⟨same, length, beside⟩ := alike
  refine ⟨same, ?_, fun position outside => ?_⟩
  · simp only [List.length_append, List.length_singleton]
    rw [length, kept_succ_of_left left]
  · rw [beside position outside]
    rcases Nat.lt_trichotomy position second.2.length with before | rfl | after
    · rw [List.getElem?_append_left before]
    · rw [left] at outside
      cases outside
    · have outside_second : (second.2 ++ [thread]).length ≤ position := by
        rw [List.length_append]
        exact after
      rw [List.getElem?_eq_none (Nat.le_of_lt after), List.getElem?_eq_none outside_second]

/-- A call of a request that is not left out. -/
theorem Alike.calls (alike : Alike inserted first second) {position : Nat}
    (apart : inserted position = false) (policy : system.Policy) :
    Alike inserted (system.advance first (.calls (kept inserted position) policy))
      (system.advance second (.calls position policy)) := by
  obtain ⟨world, threads⟩ := first
  obtain ⟨other, others⟩ := second
  obtain ⟨same, length, beside⟩ := alike
  obtain rfl : world = other := same
  have here := beside position apart
  simp only [System.advance] at here length beside ⊢
  rw [here]
  split
  · split
    · refine ⟨rfl, by simpa using length, fun place outside => ?_⟩
      by_cases at_position : position = place
      · subst at_position
        rw [List.getElem?_set, List.getElem?_set, if_pos rfl, if_pos rfl, length]
        rename_i found _ _ _ _
        obtain ⟨bound, -⟩ := List.getElem?_eq_some_iff.mp found
        rw [if_pos (kept_lt apart bound), if_pos bound]
      · have distinct : kept inserted position ≠ kept inserted place := fun same =>
          at_position (kept_injective apart outside same)
        rw [List.getElem?_set_ne distinct, List.getElem?_set_ne at_position]
        exact beside place outside
    · exact ⟨rfl, length, beside⟩
  · exact ⟨rfl, length, beside⟩

/-- A call of a left-out request that leaves the world as it is. -/
theorem Alike.skips (alike : Alike inserted first second) {position : Nat} {policy : system.Policy}
    (left : inserted position = true)
    (silent : ∀ request stage op continued answer later,
      second.2[position]? = some ⟨request, stage, .call op continued⟩ →
        policy.respond op second.1 = some (answer, later) → later = second.1) :
    Alike inserted first (system.advance second (.calls position policy)) := by
  obtain ⟨same, length, beside⟩ := alike
  simp only [System.advance]
  split
  · rename_i request stage op continued found
    split
    · rename_i answer later answered
      refine ⟨same.trans (silent _ _ _ _ _ _ found answered).symm, by simpa using length,
        fun place apart => ?_⟩
      have distinct : position ≠ place := by
        rintro rfl
        rw [left] at apart
        cases apart
      rw [List.getElem?_set_ne distinct]
      exact beside place apart
    · exact ⟨same, length, beside⟩
  · exact ⟨same, length, beside⟩

/-- A request that has arrived stays where it is. -/
theorem advance_request (reached : σ × List (Thread Ans ε α ρ S)) (event : system.Event)
    {position : Nat} {thread : Thread Ans ε α ρ S} (found : reached.2[position]? = some thread) :
    ∃ later, (system.advance reached event).2[position]? = some later ∧
      later.request = thread.request := by
  cases event with
  | arrives request =>
      refine ⟨thread, ?_, rfl⟩
      obtain ⟨bound, -⟩ := List.getElem?_eq_some_iff.mp found
      simp only [advance]
      rw [List.getElem?_append_left bound]
      exact found
  | passes passage => exact ⟨thread, found, rfl⟩
  | calls place policy =>
      simp only [advance]
      split
      · rename_i request stage op continued here
        split
        · by_cases same : place = position
          · subst same
            obtain rfl := Option.some.inj (here.symm.trans found)
            obtain ⟨bound, -⟩ := List.getElem?_eq_some_iff.mp found
            exact ⟨_, List.getElem?_set_self bound, rfl⟩
          · exact ⟨thread, by rw [List.getElem?_set_ne same]; exact found, rfl⟩
        · exact ⟨thread, found, rfl⟩
      · exact ⟨thread, found, rfl⟩

theorem foldl_advance_request (events : List system.Event) {position : Nat}
    {thread : Thread Ans ε α ρ S} {reached : σ × List (Thread Ans ε α ρ S)}
    (found : reached.2[position]? = some thread) :
    ∃ later, (events.foldl system.advance reached).2[position]? = some later ∧
      later.request = thread.request := by
  induction events generalizing reached thread with
  | nil => exact ⟨thread, found, rfl⟩
  | cons event events ih =>
      obtain ⟨next, there, same⟩ := advance_request reached event found
      obtain ⟨later, there, again⟩ := ih there
      exact ⟨later, there, again.trans same⟩

/-- How a call may change the requests. -/
theorem advance_calls_length (reached : σ × List (Thread Ans ε α ρ S)) (position : Nat)
    (policy : system.Policy) :
    (system.advance reached (.calls position policy)).2.length = reached.2.length := by
  simp only [advance]
  split
  · split
    · exact List.length_set
    · rfl
  · rfl

section Quiet

variable {holds : σ → Prop} {quiet : Async Ans ε α → Prop}
  (passes : ∀ world later, system.drift world later → holds world → holds later)
  (answers : ∀ op world answer record later, system.env op world answer record later →
    holds world → holds later)
  (silent : ∀ op continued world answer record later, holds world → quiet (.call op continued) →
    system.env op world answer record later → later = world ∧ quiet (continued answer))

include answers in
/-- A call leaves the world as it is supposed to be. -/
theorem holds_calls {reached : σ × List (Thread Ans ε α ρ S)} (held : holds reached.1)
    (position : Nat) (policy : system.Policy) :
    holds (system.advance reached (.calls position policy)).1 := by
  simp only [advance]
  split
  · split
    · rename_i answered
      obtain ⟨record, possible⟩ := policy.possible _ _ _ _ answered
      exact answers _ _ _ _ _ possible held
    · exact held
  · exact held

include silent in
/-- Quiet requests remain quiet. -/
theorem quiet_calls {reached : σ × List (Thread Ans ε α ρ S)} (held : holds reached.1)
    (position : Nat) (policy : system.Policy)
    (quietly : ∀ place thread, inserted place = true → reached.2[place]? = some thread →
      quiet thread.task)
    (place : Nat) (thread : Thread Ans ε α ρ S) (left : inserted place = true)
    (found : (system.advance reached (.calls position policy)).2[place]? = some thread) :
    quiet thread.task := by
  simp only [advance] at found
  split at found
  · rename_i request stage op continued here
    split at found
    · rename_i answer later answered
      by_cases same : position = place
      · subst same
        obtain ⟨bound, -⟩ := List.getElem?_eq_some_iff.mp here
        obtain rfl := Option.some.inj ((List.getElem?_set_self bound).symm.trans found)
        obtain ⟨record, possible⟩ := policy.possible _ _ _ _ answered
        exact (silent _ _ _ _ _ _ held (quietly position _ left here) possible).2
      · rw [List.getElem?_set_ne same] at found
        exact quietly place thread left found
    · exact quietly place thread left found
  · exact quietly place thread left found

/-- A request that arrives and is left out is quiet when those of its history are. -/
theorem quiet_arrives {reached : σ × List (Thread Ans ε α ρ S)} {request : ρ}
    {events : List system.Event}
    (quietly : ∀ place thread, inserted place = true → reached.2[place]? = some thread →
      quiet thread.task)
    (ends : ∀ place thread, inserted place = true →
      (events.foldl system.advance (system.advance reached (.arrives request))).2[place]? =
        some thread → quiet (system.start thread.request))
    (place : Nat) (thread : Thread Ans ε α ρ S) (left : inserted place = true)
    (found : (system.advance reached (.arrives request)).2[place]? = some thread) :
    quiet thread.task := by
  have here := found
  simp only [advance] at found
  rw [List.getElem?_append] at found
  split at found
  · exact quietly place thread left found
  · obtain ⟨final, there, same⟩ := foldl_advance_request events here
    have arrived : thread = system.arrived request :=
      List.mem_singleton.mp (List.mem_of_getElem? found)
    have starts := ends place final left there
    rw [same, arrived] at starts
    rw [arrived]
    exact starts

include passes answers silent in
/-- **Requests whose calls leave the world as it is are left out unnoticed.** Quiet tasks are
those that make such calls only, where the world is as it is supposed to be. -/
theorem alike_without (initially : holds system.initial) (events : List system.Event)
    (left : ∀ position thread, inserted position = true →
      (system.reach events).2[position]? = some thread → quiet (system.start thread.request)) :
    Alike inserted (system.reach (system.without inserted events)) (system.reach events) := by
  suffices onwards : ∀ (events : List system.Event) (first second : σ × List (Thread Ans ε α ρ S)),
      Alike inserted first second → holds second.1 →
      (∀ position thread, inserted position = true → second.2[position]? = some thread →
        quiet thread.task) →
      (∀ position thread, inserted position = true →
        (events.foldl system.advance second).2[position]? = some thread →
          quiet (system.start thread.request)) →
      Alike inserted ((system.withoutFrom inserted second.2.length events).foldl system.advance first)
        (events.foldl system.advance second) from
    onwards events (system.initial, []) (system.initial, []) ⟨rfl, rfl, fun _ _ => rfl⟩ initially
      (fun _ _ _ found => by simp at found) left
  intro events
  induction events with
  | nil => exact fun _ _ alike _ _ _ => alike
  | cons event events ih =>
      intro first second alike held quietly ends
      rw [List.foldl_cons] at ends ⊢
      cases event with
      | arrives request =>
          have grown : (system.advance second (.arrives request)).2.length = second.2.length + 1 := by
            simp [advance]
          have onwards : ∀ start, Alike inserted start (system.advance second (.arrives request)) →
              Alike inserted
                ((system.withoutFrom inserted (second.2.length + 1) events).foldl system.advance start)
                (events.foldl system.advance (system.advance second (.arrives request))) := by
            intro start later
            rw [← grown]
            exact ih _ _ later held (quiet_arrives quietly ends) ends
          rw [withoutFrom]
          split
          · rename_i left
            exact onwards first (alike.inserts left _)
          · rename_i apart
            exact onwards _ (alike.arrives (Bool.eq_false_iff.mpr apart) _)
      | passes passage =>
          refine ih (passage.change first.1, first.2) (passage.change second.1, second.2)
            ⟨congrArg passage.change alike.world, alike.length, alike.others⟩ ?_ quietly ends
          change holds (passage.change second.1)
          rcases passage.possible second.1 with same | passed
          · rw [same]
            exact held
          · exact passes _ _ passed held
      | calls position policy =>
          have onwards : ∀ start,
              Alike inserted start (system.advance second (.calls position policy)) →
              Alike inserted
                ((system.withoutFrom inserted second.2.length events).foldl system.advance start)
                (events.foldl system.advance (system.advance second (.calls position policy))) := by
            intro start later
            rw [← advance_calls_length second position policy]
            exact ih _ _ later (holds_calls answers held position policy)
              (quiet_calls silent held position policy quietly) ends
          rw [withoutFrom]
          split
          · rename_i left
            refine onwards first (alike.skips left ?_)
            intro request stage op continued answer later found answered
            obtain ⟨record, possible⟩ := policy.possible _ _ _ _ answered
            exact (silent _ _ _ _ _ _ held (quietly position _ left found) possible).1
          · rename_i apart
            exact onwards _ (alike.calls (Bool.eq_false_iff.mpr apart) policy)

end Quiet

end Async.System
