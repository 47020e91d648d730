import Numera.Foundation.Async

/-! # Polling services

A service that polls makes one pass after the other. When a pass is over, whether or not
it has thrown, a timer is set for the next one, until the service is stopped. The runtime
keeps whatever timers are armed and whatever passes are under way. That there is never
more than one of them, and always one while the service runs, is a theorem
(`Poller.exclusive_of_run`), and so is that the passes follow one another
(`Poller.ordered_of_run`) and that none begins once the service is stopped
(`Poller.leads_of_stopped`).
-/

namespace Async

variable {Op : Type} {Ans : Op → Type} {ε α σ Λ : Type}

/-- What a service does in a pass, and when it makes the next. -/
structure Poller (Ans : Op → Type) (ε α : Type) where
  pass : Async Ans ε α
  /-- Whether a callback looks at the flags of the service before it begins a pass. -/
  guarded : Bool
  /-- How long to wait before the first pass, unless it begins at once. -/
  initialDelay : Option Nat
  delay : Except ε α → Nat

/-- The fields of a polling service, and what the runtime keeps for it: the armed timers,
each with its handle and its delay, the number of timers that have been set, and the
passes that are under way. -/
structure PollState (Ans : Op → Type) (ε α σ : Type) where
  started : Bool
  running : Bool
  stopped : Bool
  timer : Option Nat
  armed : List (Nat × Nat)
  handles : Nat
  passes : List (Async Ans ε α)
  world : σ

/-- A service that has been constructed. -/
def PollState.constructed (world : σ) : PollState Ans ε α σ :=
  ⟨false, false, false, none, [], 0, [], world⟩

namespace Poller

variable (poller : Poller Ans ε α)

/-- Set a timer, unless the service is stopped. -/
def schedule (delayMs : Nat) (state : PollState Ans ε α σ) : PollState Ans ε α σ :=
  if state.stopped then state
  else { state with
    timer := some state.handles
    armed := state.armed ++ [(state.handles, delayMs)]
    handles := state.handles + 1 }

/-- Begin a pass. -/
def callback (state : PollState Ans ε α σ) : PollState Ans ε α σ :=
  if poller.guarded && (state.running || state.stopped) then state
  else { state with
    running := state.running || poller.guarded
    passes := state.passes ++ [poller.pass] }

/-- A pass is over. -/
def finish (position : Nat) (outcome : Except ε α) (state : PollState Ans ε α σ) :
    PollState Ans ε α σ :=
  schedule (poller.delay outcome)
    { state with running := false, passes := state.passes.eraseIdx position }

def onModuleInit (state : PollState Ans ε α σ) : PollState Ans ε α σ :=
  match poller.initialDelay with
  | none => poller.callback { state with started := true }
  | some delayMs => schedule delayMs { state with started := true }

/-- Stop, and clear the timer whose handle the service has. -/
def onModuleDestroy (state : PollState Ans ε α σ) : PollState Ans ε α σ :=
  { state with
    stopped := true
    armed := state.armed.filter fun entry => state.timer ≠ some entry.1 }

/-- What can happen: the service is initialised, once, an armed timer fires, a call of a
pass is answered, a pass is over, the service is stopped. While a timer is waited for,
the world may change by itself. -/
inductive Step (env : Environment Ans ε σ Λ) (waits : σ → σ → Prop) :
    PollState Ans ε α σ → List Λ → PollState Ans ε α σ → Prop where
  | init {state} (fresh : state.started = false) : Step env waits state [] (poller.onModuleInit state)
  | fire {state handle delayMs later} (due : (handle, delayMs) ∈ state.armed)
      (waited : waits state.world later) :
      Step env waits state [] (poller.callback { state with
        armed := state.armed.filter fun entry => entry.1 ≠ handle
        world := later })
  | call {state position op next answer record later}
      (found : state.passes[position]? = some (.call op next))
      (answered : env op state.world answer record later) :
      Step env waits state record
        { state with passes := state.passes.set position (next answer), world := later }
  | finish {state position outcome} (found : state.passes[position]? = some (.done outcome)) :
      Step env waits state [] (poller.finish position outcome state)
  | destroy {state} : Step env waits state [] (onModuleDestroy state)

/-- Steps one after the other, with what is recorded of them. -/
inductive Run (env : Environment Ans ε σ Λ) (waits : σ → σ → Prop)
    (start : PollState Ans ε α σ) : List Λ → PollState Ans ε α σ → Prop where
  | here : Run env waits start [] start
  | step {records more state later} (before : Run env waits start records state)
      (stepped : poller.Step env waits state more later) :
      Run env waits start (records ++ more) later

variable {poller} {env : Environment Ans ε σ Λ} {waits : σ → σ → Prop}
  {state later : PollState Ans ε α σ} {records : List Λ}

/-! ## One at a time -/

/-- There is a pass under way, or a timer armed, but not both and not two; none is
missing while the service runs, and no timer is armed when it is stopped. -/
structure Exclusive (state : PollState Ans ε α σ) : Prop where
  single : state.passes.length + state.armed.length ≤ 1
  alive : state.started = true → state.stopped = false →
    state.passes.length + state.armed.length = 1
  silent : state.stopped = true → state.armed = []
  fresh : state.started = false → state.passes = [] ∧ state.armed = []
  flag : state.running = true → state.passes ≠ []
  held : ∀ entry ∈ state.armed, state.timer = some entry.1

theorem exclusive_constructed (world : σ) :
    Exclusive (PollState.constructed world : PollState Ans ε α σ) where
  single := Nat.zero_le 1
  alive started := by cases started
  silent _ := rfl
  fresh _ := ⟨rfl, rfl⟩
  flag running := by cases running
  held _ member := by cases member

/-- With nothing under way and nothing armed, setting a timer is exclusive. -/
theorem exclusive_schedule (delayMs : Nat) (started : state.started = true)
    (idle : state.passes = []) (unarmed : state.armed = []) (still : state.running = false) :
    Exclusive (schedule delayMs state) := by
  unfold schedule
  split
  · rename_i stopped
    refine ⟨by simp [idle, unarmed], fun _ running => ?_, fun _ => unarmed, fun fresh => ?_,
      fun running => ?_, ?_⟩
    · rw [stopped] at running
      cases running
    · rw [started] at fresh
      cases fresh
    · rw [still] at running
      cases running
    · simp [unarmed]
  · rename_i running
    refine ⟨by simp [idle, unarmed], fun _ _ => by simp [idle, unarmed],
      fun stopped => absurd stopped running, fun fresh => ?_, fun flagged => ?_, ?_⟩
    · rw [show state.started = false from fresh] at started
      cases started
    · rw [show state.running = true from flagged] at still
      cases still
    · simp [unarmed]

/-- With nothing under way and nothing armed, beginning a pass is exclusive. -/
theorem exclusive_callback (started : state.started = true) (idle : state.passes = [])
    (unarmed : state.armed = []) (still : state.running = false) :
    Exclusive (poller.callback state) := by
  unfold callback
  split
  · rename_i blocked
    rw [still, Bool.false_or, Bool.and_eq_true] at blocked
    refine ⟨by simp [idle, unarmed], fun _ running => ?_, fun _ => unarmed, fun fresh => ?_,
      fun running => ?_, by simp [unarmed]⟩
    · rw [blocked.2] at running
      cases running
    · rw [started] at fresh
      cases fresh
    · rw [still] at running
      cases running
  · refine ⟨by simp [idle, unarmed], fun _ _ => by simp [idle, unarmed], fun _ => unarmed,
      fun fresh => ?_, fun _ => by simp, by simp [unarmed]⟩
    rw [show state.started = false from fresh] at started
    cases started

/-- A list with a member at some position that is no longer than one. -/
theorem eq_singleton_of_getElem? {β : Type} {list : List β} {position : Nat} {item : β}
    (short : list.length ≤ 1) (found : list[position]? = some item) :
    position = 0 ∧ list = [item] := by
  obtain ⟨bound, same⟩ := List.getElem?_eq_some_iff.mp found
  match list, short with
  | [only], _ =>
      obtain rfl : position = 0 := Nat.lt_one_iff.mp bound
      exact ⟨rfl, congrArg (fun value => [value]) same⟩

/-- When a timer is armed nothing else is, and nothing is under way. -/
theorem Exclusive.of_armed (exclusive : Exclusive state) {entry : Nat × Nat}
    (due : entry ∈ state.armed) :
    state.armed = [entry] ∧ state.passes = [] ∧ state.running = false ∧ state.started = true ∧
      state.stopped = false := by
  have single := exclusive.single
  have some : 1 ≤ state.armed.length := List.length_pos_of_mem due
  have idle : state.passes = [] := List.length_eq_zero_iff.mp (by omega)
  obtain ⟨only, armed⟩ := List.length_eq_one_iff.mp (show state.armed.length = 1 by omega)
  refine ⟨?_, idle, ?_, ?_, ?_⟩
  · rw [armed] at due ⊢
    rw [List.mem_singleton.mp due]
  · cases running : state.running with
    | false => rfl
    | true => exact absurd idle (exclusive.flag running)
  · cases started : state.started with
    | true => rfl
    | false =>
        rw [(exclusive.fresh started).2] at due
        cases due
  · cases stopped : state.stopped with
    | false => rfl
    | true =>
        rw [exclusive.silent stopped] at due
        cases due

/-- When a pass is under way nothing else is, and no timer is armed. -/
theorem Exclusive.of_pass (exclusive : Exclusive state) {position : Nat} {task : Async Ans ε α}
    (found : state.passes[position]? = some task) :
    position = 0 ∧ state.passes = [task] ∧ state.armed = [] ∧ state.started = true := by
  have single := exclusive.single
  obtain ⟨rfl, passes⟩ := eq_singleton_of_getElem? (by omega) found
  rw [passes, List.length_singleton] at single
  refine ⟨rfl, passes, List.length_eq_zero_iff.mp (by omega), ?_⟩
  cases started : state.started with
  | true => rfl
  | false =>
      rw [(exclusive.fresh started).1] at passes
      cases passes

/-- **Every step keeps to one at a time.** -/
theorem exclusive_step (exclusive : Exclusive state) {more : List Λ}
    (stepped : poller.Step env waits state more later) : Exclusive later := by
  cases stepped with
  | init fresh =>
      obtain ⟨idle, unarmed⟩ := exclusive.fresh fresh
      have still : state.running = false := by
        cases running : state.running with
        | false => rfl
        | true => exact absurd idle (exclusive.flag running)
      unfold onModuleInit
      split
      · exact exclusive_callback rfl idle unarmed still
      · exact exclusive_schedule _ rfl idle unarmed still
  | fire due waited =>
      obtain ⟨armed, idle, still, started, -⟩ := exclusive.of_armed due
      exact exclusive_callback started idle (by simp [armed]) still
  | call found answered =>
      obtain ⟨rfl, passes, unarmed, started⟩ := exclusive.of_pass found
      refine ⟨by simp [passes, unarmed], fun _ _ => by simp [passes, unarmed], fun _ => unarmed,
        fun fresh => ?_, fun _ => by simp [passes], by simp [unarmed]⟩
      rw [show state.started = false from fresh] at started
      cases started
  | finish found =>
      obtain ⟨rfl, passes, unarmed, started⟩ := exclusive.of_pass found
      exact exclusive_schedule _ started (by simp [passes]) unarmed rfl
  | destroy =>
      have cleared : (onModuleDestroy state).armed = [] := by
        refine List.filter_eq_nil_iff.mpr fun entry member => ?_
        simp [exclusive.held entry member]
      have passes : (onModuleDestroy state).passes = state.passes := rfl
      have single := exclusive.single
      refine ⟨?_, fun _ running => ?_, fun _ => cleared, fun fresh =>
        ⟨(exclusive.fresh fresh).1, cleared⟩, exclusive.flag, fun entry member => ?_⟩
      · rw [cleared, passes, List.length_nil]
        omega
      · cases running
      · rw [cleared] at member
        cases member

/-- **One at a time**, in every run of a service. -/
theorem exclusive_of_run {start : σ}
    (run : poller.Run env waits (.constructed start) records state) : Exclusive state := by
  induction run with
  | here => exact exclusive_constructed start
  | step _ stepped ih => exact exclusive_step ih stepped

/-! ## One after the other -/

/-- Passes one after the other, each to its end, with what is recorded of each. -/
inductive Passes (env : Environment Ans ε σ Λ) (waits : σ → σ → Prop) (pass : Async Ans ε α)
    (start : σ) : List (List Λ) → σ → Prop where
  | here : Passes env waits pass start [] start
  | pass {ended world begun records outcome later}
      (earlier : Passes env waits pass start ended world) (waited : waits world begun)
      (path : Reaches env pass begun records (.done outcome) later) :
      Passes env waits pass start (ended ++ [records]) later

/-- What a service has done is what passes have done that are over, and then the one that
is under way, if there is one. -/
structure Ordered (poller : Poller Ans ε α) (env : Environment Ans ε σ Λ) (waits : σ → σ → Prop)
    (start : σ) (records : List Λ) (state : PollState Ans ε α σ) (ended : List (List Λ))
    (current : List Λ) (before : σ) : Prop where
  passes : Passes env waits poller.pass start ended before
  split : records = ended.flatten ++ current
  idle : state.passes = [] → current = [] ∧ state.world = before
  under : ∀ remaining ∈ state.passes, ∃ begun, waits before begun ∧
    Reaches env poller.pass begun current remaining state.world

theorem world_schedule (delayMs : Nat) : (schedule delayMs state).world = state.world := by
  unfold schedule
  split <;> rfl

theorem passes_schedule (delayMs : Nat) : (schedule delayMs state).passes = state.passes := by
  unfold schedule
  split <;> rfl

/-- Nothing is under way, and nothing has happened since. -/
theorem ordered_idle {start before : σ} {ended : List (List Λ)}
    (earlier : Passes env waits poller.pass start ended before) (idle : state.passes = [])
    (world : state.world = before) :
    Ordered poller env waits start ended.flatten state ended [] before :=
  ⟨earlier, (List.append_nil _).symm, fun _ => ⟨rfl, world⟩, by simp [idle]⟩

/-- Beginning a pass where none is under way, unless the flags forbid it. -/
theorem ordered_callback {start before : σ} {ended : List (List Λ)}
    (earlier : Passes env waits poller.pass start ended before) (idle : state.passes = [])
    (waited : waits before state.world)
    (blocked : state.running = true ∨ state.stopped = true → state.world = before) :
    Ordered poller env waits start ended.flatten (poller.callback state) ended [] before := by
  unfold callback
  split
  · rename_i flags
    rw [Bool.and_eq_true, Bool.or_eq_true] at flags
    exact ordered_idle earlier idle (blocked flags.2)
  · refine ⟨earlier, (List.append_nil _).symm, fun none => by simp at none, ?_⟩
    intro remaining member
    rw [idle, List.nil_append, List.mem_singleton] at member
    rw [member]
    exact ⟨state.world, waited, .refl _ _⟩

theorem ordered_step {start before : σ} {ended : List (List Λ)} {current more : List Λ}
    (immediate : poller.initialDelay = none → ∀ world, waits world world)
    (exclusive : Exclusive state)
    (ordered : Ordered poller env waits start records state ended current before)
    (stepped : poller.Step env waits state more later) :
    ∃ ended current before,
      Ordered poller env waits start (records ++ more) later ended current before := by
  obtain ⟨earlier, rfl, idle, under⟩ := ordered
  cases stepped with
  | init fresh =>
      obtain ⟨none, -⟩ := exclusive.fresh fresh
      obtain ⟨rfl, world⟩ := idle none
      refine ⟨ended, [], before, ?_⟩
      rw [List.append_nil, List.append_nil]
      unfold onModuleInit
      split
      · rename_i undelayed
        refine ordered_callback earlier none ?_ fun _ => world
        rw [← world]
        exact immediate undelayed _
      · refine ordered_idle earlier ?_ ?_
        · rw [passes_schedule]
          exact none
        · rw [world_schedule]
          exact world
  | @fire _ _ later due waited =>
      obtain ⟨-, none, still, -, going⟩ := exclusive.of_armed due
      obtain ⟨rfl, rfl⟩ := idle none
      refine ⟨ended, [], state.world, ?_⟩
      rw [List.append_nil, List.append_nil]
      refine ordered_callback earlier none waited ?_
      rintro (running | stopped)
      · rw [show state.running = true from running] at still
        cases still
      · rw [show state.stopped = true from stopped] at going
        cases going
  | @call _ op next answer _ after found answered =>
      obtain ⟨rfl, passes, -⟩ := exclusive.of_pass found
      obtain ⟨begun, waited, reached⟩ := under _ (List.mem_of_getElem? found)
      refine ⟨ended, current ++ more, before, earlier, List.append_assoc _ _ _,
        fun none => by simp [passes] at none, ?_⟩
      intro remaining member
      rw [passes, List.set_cons_zero, List.mem_singleton] at member
      rw [member]
      have further : Reaches env (.call op next) state.world (more ++ []) (next answer) after :=
        .step answered (.refl _ _)
      rw [List.append_nil] at further
      exact ⟨begun, waited, reached.trans further⟩
  | finish found =>
      obtain ⟨rfl, passes, -⟩ := exclusive.of_pass found
      obtain ⟨begun, waited, reached⟩ := under _ (List.mem_of_getElem? found)
      refine ⟨ended ++ [current], [], state.world, ?_⟩
      have flat : ended.flatten ++ current ++ [] = (ended ++ [current]).flatten := by simp
      rw [flat]
      refine ordered_idle (earlier.pass waited reached) ?_ (world_schedule _)
      rw [finish, passes_schedule]
      simp [passes]
  | destroy => exact ⟨ended, current, before, earlier, List.append_nil _, idle, under⟩

/-- **One after the other.** What a service does in a run is what passes do that follow
one another, each to its end, and then the one that is under way. -/
theorem ordered_of_run {start : σ}
    (immediate : poller.initialDelay = none → ∀ world, waits world world)
    (run : poller.Run env waits (.constructed start) records state) :
    ∃ ended current before, Ordered poller env waits start records state ended current before := by
  induction run with
  | here => exact ⟨[], [], start, ordered_idle .here rfl rfl⟩
  | step before stepped ih =>
      obtain ⟨ended, current, world, ordered⟩ := ih
      exact ordered_step immediate (exclusive_of_run before) ordered stepped

/-! ## No pass begins any more -/

/-- From a service that is stopped: it stays so, and what is under way was under way. -/
theorem leads_of_stopped {started : PollState Ans ε α σ} {more : List Λ}
    (exclusive : Exclusive started) (stopped : started.stopped = true)
    (careful : poller.guarded = true ∨ poller.initialDelay.isSome)
    (onward : poller.Run env waits started more later) :
    later.stopped = true ∧ later.armed = [] ∧
      ∀ remaining ∈ later.passes, ∃ task ∈ started.passes, Leads task remaining := by
  have kept : Exclusive later ∧ later.stopped = true ∧
      ∀ remaining ∈ later.passes, ∃ task ∈ started.passes, Leads task remaining := by
    induction onward with
    | here => exact ⟨exclusive, stopped, fun task member => ⟨task, member, .refl⟩⟩
    | @step records more state later _ stepped ih =>
        obtain ⟨exclusive, stopped, leads⟩ := ih
        refine ⟨exclusive_step exclusive stepped, ?_⟩
        cases stepped with
        | init fresh =>
            unfold onModuleInit callback schedule
            split
            · rename_i none
              have guarded : poller.guarded = true := by
                rcases careful with guarded | delayed
                · exact guarded
                · rw [none] at delayed
                  cases delayed
              simp only [guarded, stopped, Bool.or_true, Bool.and_self, if_true]
              exact ⟨trivial, leads⟩
            · simp only [stopped, if_true]
              exact ⟨trivial, leads⟩
        | fire due _ =>
            rw [exclusive.silent stopped] at due
            cases due
        | call found answered =>
            refine ⟨stopped, fun remaining member => ?_⟩
            rcases List.mem_or_eq_of_mem_set member with old | rfl
            · exact leads remaining old
            · obtain ⟨task, was, reached⟩ := leads _ (List.mem_of_getElem? found)
              exact ⟨task, was, reached.answer _⟩
        | finish found =>
            unfold finish schedule
            simp only [stopped, if_true]
            exact ⟨trivial, fun remaining member => leads remaining (List.mem_of_mem_eraseIdx member)⟩
        | destroy => exact ⟨rfl, leads⟩
  exact ⟨kept.2.1, kept.1.silent kept.2.1, kept.2.2⟩

/-! ## What a polling service promises -/

/-- From its construction on: never two passes at once or a timer beside a pass, always one
of them between initialisation and stop, what is done is as required, and nothing begins
after a stop. -/
structure Polls (poller : Poller Ans ε α) (env : Environment Ans ε σ Λ) (waits : σ → σ → Prop)
    (start : σ) (does : List Λ → σ → Prop) : Prop where
  single : ∀ records state, poller.Run env waits (.constructed start) records state →
    state.passes.length + state.armed.length ≤ 1
  alive : ∀ records state, poller.Run env waits (.constructed start) records state →
    state.started = true → state.stopped = false → state.passes.length + state.armed.length = 1
  does : ∀ records state, poller.Run env waits (.constructed start) records state →
    does records state.world
  silent : ∀ records state more later, poller.Run env waits (.constructed start) records state →
    state.stopped = true → poller.Run env waits state more later →
    later.armed = [] ∧ ∀ remaining ∈ later.passes, ∃ task ∈ state.passes, Leads task remaining

/-- **Polling.** It is enough to say what passes do that follow one another. -/
theorem polls {start : σ} {does : List Λ → σ → Prop}
    (careful : poller.guarded = true ∨ poller.initialDelay.isSome)
    (immediate : poller.initialDelay = none → ∀ world, waits world world)
    (between : ∀ ended world, Passes env waits poller.pass start ended world → does ended.flatten world)
    (under : ∀ ended world begun current remaining later,
      Passes env waits poller.pass start ended world → waits world begun →
      Reaches env poller.pass begun current remaining later → does (ended.flatten ++ current) later) :
    poller.Polls env waits start does where
  single _ _ run := (exclusive_of_run run).single
  alive _ _ run := (exclusive_of_run run).alive
  does _ state run := by
    obtain ⟨ended, current, before, passes, rfl, idle, reached⟩ := ordered_of_run immediate run
    cases present : state.passes with
    | nil =>
        obtain ⟨rfl, world⟩ := idle present
        rw [List.append_nil, world]
        exact between ended before passes
    | cons remaining rest =>
        obtain ⟨begun, waited, path⟩ := reached remaining (by rw [present]; exact List.mem_cons_self)
        exact under ended before begun current remaining state.world passes waited path
  silent _ _ _ _ run stopped onward :=
    (leads_of_stopped (exclusive_of_run run) stopped careful onward).2

end Poller

end Async
