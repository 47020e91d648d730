import Numera.Foundation.Promises
import Numera.Relay.Calls

/-! # The promise queues

`RelayService.enqueue` and `PoolService.exclusively` chain each job to a promise that settles
when the jobs before it are through. Jobs arrive at any time and await any number of calls.
Whatever happens, the promises stand as a line of jobs says they do (`JobLine`), in
which one job after the other is called, awaited and delivered. So the jobs run once each, in
the order of their arrival and one at a time, and every caller receives the outcome of its own
(`promiseQueue_fair`).
-/

namespace Numera

open Promise (Cell Heap Microtask Reaction)

/-! ## The code -/

/-- The promises of a queue: the resolved one it starts with, and for each job the one its
caller receives, the one the next job is chained to, and the one the job itself returns. -/
inductive QueuePromise where
  | start
  | run (job : Nat)
  | tail (job : Nat)
  | body (job : Nat)
  deriving DecidableEq

/-- The handlers of a queue: a job, and `() => undefined`. -/
inductive QueueHandler where
  | call (job : Nat)
  | ignore

inductive QueueEvent (ε α : Type) where
  | started (job : Nat)
  | finished (job : Nat) (outcome : Except ε α)

/-- A queue: its promises, the last of its chain, the jobs in the order of their arrival, those
that await a call, and what has happened. The value of a promise is `none` for `undefined`. -/
@[ext] structure PromiseQueue {Op : Type} (Ans : Op → Type) (ε α : Type) where
  heap : Heap QueuePromise QueueHandler ε (Option α)
  last : QueuePromise
  jobs : List (Async Ans ε α)
  running : List (Nat × Async Ans ε α)
  history : List (QueueEvent ε α)

namespace PromiseQueue

variable {Op : Type} {Ans : Op → Type} {ε α : Type} (queue : PromiseQueue Ans ε α)

/-- `Promise.resolve()`, before the first job. -/
def fresh : PromiseQueue Ans ε α where
  heap := {
    cell promise := if promise = .start then .settled (.ok none) else .pending []
    queue := [] }
  last := .start
  jobs := []
  running := []
  history := []

/-- `last.then(fn, fn)`, and `last = run.then(() => undefined, () => undefined)`. -/
def chain (fn : Async Ans ε α) : QueuePromise × PromiseQueue Ans ε α :=
  let job := queue.jobs.length
  let run := QueuePromise.run job
  let heap := queue.heap.performThen queue.last (.handle (.call job) run)
  let heap := heap.performThen run (.handle .ignore (.tail job))
  (run, { queue with heap, last := .tail job, jobs := queue.jobs ++ [fn] })

/-- A job goes on to its next call or to its end, where its promise settles. -/
def proceed (job : Nat) : Async Ans ε α → PromiseQueue Ans ε α
  | .done outcome => { queue with
      heap := queue.heap.settle (.body job) (outcome.map some)
      history := queue.history ++ [.finished job outcome] }
  | .call op next => { queue with running := queue.running ++ [(job, .call op next)] }

/-- A job is called, and its promise resolves the caller's. -/
def call (job : Nat) (derived : QueuePromise) : PromiseQueue Ans ε α :=
  match queue.jobs[job]? with
  | none => queue
  | some fn =>
      let started : PromiseQueue Ans ε α :=
        { queue with history := queue.history ++ [.started job] }
      let begun := started.proceed job fn
      { begun with heap := begun.heap.resolveWith derived (.body job) }

/-- A microtask. -/
def perform : Microtask QueuePromise QueueHandler ε (Option α) → PromiseQueue Ans ε α
  | .follow derived source => { queue with heap := queue.heap.performThen source (.settle derived) }
  | .react (.settle derived) outcome => { queue with heap := queue.heap.settle derived outcome }
  | .react (.handle .ignore derived) _ =>
      { queue with heap := queue.heap.settle derived (.ok none) }
  | .react (.handle (.call job) derived) _ => queue.call job derived

/-- The first microtask of the queue runs. -/
def tick : Option (PromiseQueue Ans ε α) :=
  match queue.heap.queue with
  | [] => none
  | task :: rest =>
      let taken : PromiseQueue Ans ε α := { queue with heap := { queue.heap with queue := rest } }
      some (taken.perform task)

/-- `RelayService.enqueue`, on `this.queue`. -/
def enqueue (fn : Async Ans ε α) : QueuePromise × PromiseQueue Ans ε α := queue.chain fn

/-- `PoolService.exclusively`, on `this.lock`. -/
def exclusively (fn : Async Ans ε α) : QueuePromise × PromiseQueue Ans ε α := queue.chain fn

end PromiseQueue

/-- The method that puts a job on a promise chain. -/
def Chained.method {Op : Type} {Ans : Op → Type} {ε α : Type} :
    Chained → PromiseQueue Ans ε α → Async Ans ε α → QueuePromise × PromiseQueue Ans ε α
  | queue => PromiseQueue.enqueue
  | lock => PromiseQueue.exclusively

section PromiseQueue

variable {Op : Type} {Ans : Op → Type} {ε α : Type}

/-- A queue goes on: the next microtask runs, or a call that a job awaits is answered. -/
inductive PromiseQueue.Turn : PromiseQueue Ans ε α → PromiseQueue Ans ε α → Prop where
  | tick {queue later : PromiseQueue Ans ε α} (next : queue.tick = some later) : Turn queue later
  | answer {queue : PromiseQueue Ans ε α} {position job : Nat} {op : Op}
      {next : Except ε (Ans op) → Async Ans ε α}
      (found : queue.running[position]? = some (job, .call op next)) (answer : Except ε (Ans op)) :
      Turn queue (({ queue with running := queue.running.eraseIdx position } :
        PromiseQueue Ans ε α).proceed job (next answer))

/-- What can happen at any time: a job is put on the queue, or the queue goes on. -/
inductive PromiseQueue.Step (chain : Chained) : PromiseQueue Ans ε α → PromiseQueue Ans ε α → Prop
    where
  | arrive (queue : PromiseQueue Ans ε α) (fn : Async Ans ε α) :
      Step chain queue (chain.method queue fn).2
  | turn {queue later : PromiseQueue Ans ε α} (turn : PromiseQueue.Turn queue later) :
      Step chain queue later

/-- What a queue comes to. -/
inductive PromiseQueue.Reached (chain : Chained) : PromiseQueue Ans ε α → Prop where
  | fresh : Reached chain PromiseQueue.fresh
  | step {queue later : PromiseQueue Ans ε α} (before : Reached chain queue)
      (step : PromiseQueue.Step chain queue later) : Reached chain later

/-! ## The line of jobs -/

/-- What has become of the first job that is not through: nothing, as there is none; it is to be
called; it awaits a call, and its caller's promise is to follow it or does; it has ended, and its
caller's promise is to follow it or to settle; its caller has been answered. -/
inductive JobPhase (Ans : Op → Type) (ε α : Type) where
  | idle
  | called
  | begun (task : Async Ans ε α)
  | awaited (task : Async Ans ε α)
  | ended (outcome : Except ε α)
  | returned (outcome : Except ε α)
  | delivered (outcome : Except ε α)

namespace JobPhase

/-- The job while it awaits a call. -/
def task? : JobPhase Ans ε α → Option (Async Ans ε α)
  | begun task | awaited task => some task
  | _ => none

/-- The outcome of the job, once it has ended. -/
def finished? : JobPhase Ans ε α → Option (Except ε α)
  | ended outcome | returned outcome | delivered outcome => some outcome
  | _ => none

/-- The outcome of the job, once its caller has it. -/
def delivered? : JobPhase Ans ε α → Option (Except ε α)
  | delivered outcome => some outcome
  | _ => none

/-- The caller's promise is registered on the job's. -/
def isAwaited : JobPhase Ans ε α → Bool
  | awaited _ => true
  | _ => false

/-- The microtask that goes on with a job. -/
def tasks (job : Nat) : JobPhase Ans ε α → List (Microtask QueuePromise QueueHandler ε (Option α))
  | idle | awaited _ => []
  | called => [.react (.handle (.call job) (.run job)) (.ok none)]
  | begun _ | ended _ => [.follow (.run job) (.body job)]
  | returned outcome => [.react (.settle (.run job)) (outcome.map some)]
  | delivered outcome => [.react (.handle .ignore (.tail job)) (outcome.map some)]

end JobPhase

/-- A line of jobs: in the order of their arrival, with the outcomes of those that are through. -/
structure JobLine (Ans : Op → Type) (ε α : Type) where
  jobs : List (Async Ans ε α)
  outcomes : List (Except ε α)
  phase : JobPhase Ans ε α

/-- The history of jobs that have run one after the other. -/
def turns : Nat → List (Except ε α) → List (QueueEvent ε α)
  | _, [] => []
  | job, outcome :: rest => .started job :: .finished job outcome :: turns (job + 1) rest

namespace JobLine

variable (line : JobLine Ans ε α)

/-- The job that is not through. -/
def current : Nat := line.outcomes.length

/-- The outcomes of the jobs that have ended. -/
def finished : List (Except ε α) := line.outcomes ++ line.phase.finished?.toList

/-- The outcomes that callers have. -/
def delivered : List (Except ε α) := line.outcomes ++ line.phase.delivered?.toList

/-- How a promise stands. -/
def cell : QueuePromise → Cell QueuePromise QueueHandler ε (Option α)
  | .start => .settled (.ok none)
  | .run job =>
      match line.delivered[job]? with
      | some outcome => .settled (outcome.map some)
      | none => .pending (if job < line.jobs.length then [.handle .ignore (.tail job)] else [])
  | .tail job =>
      if job < line.current then .settled (.ok none)
      else .pending (if job + 1 < line.jobs.length
        then [.handle (.call (job + 1)) (.run (job + 1))] else [])
  | .body job =>
      match line.finished[job]? with
      | some outcome => .settled (outcome.map some)
      | none => .pending (if job = line.current ∧ line.phase.isAwaited then [.settle (.run job)]
          else [])

/-- The end of the chain of some jobs. -/
def lastOf : Nat → QueuePromise
  | 0 => .start
  | before + 1 => .tail before

/-- How the queue stands. -/
def queue : PromiseQueue Ans ε α where
  heap := { cell := line.cell, queue := line.phase.tasks line.current }
  last := lastOf line.jobs.length
  jobs := line.jobs
  running := line.phase.task?.toList.map fun task => (line.current, task)
  history := turns 0 line.finished ++
    line.phase.task?.toList.map fun _ => .started line.current

end JobLine

/-! ## One step of the line -/

/-- The chain, by what registers the job on its end. -/
theorem PromiseQueue.chain_of {queue : PromiseQueue Ans ε α} {fn : Async Ans ε α}
    {middle : Heap QueuePromise QueueHandler ε (Option α)}
    (registers : queue.heap.performThen queue.last
      (.handle (.call queue.jobs.length) (.run queue.jobs.length)) = middle)
    (new : middle.cell (.run queue.jobs.length) = .pending []) :
    (queue.chain fn).2 = { queue with
      heap := middle.set (.run queue.jobs.length)
        (.pending [.handle .ignore (.tail queue.jobs.length)])
      last := .tail queue.jobs.length
      jobs := queue.jobs ++ [fn] } := by
  rw [chain]
  dsimp only
  rw [registers, Heap.performThen_pending new]
  rfl

namespace JobLine

/-- The job ends, or awaits a call, before its caller's promise is registered on its own. -/
def begin (line : JobLine Ans ε α) : Async Ans ε α → JobLine Ans ε α
  | .done outcome => { line with phase := .ended outcome }
  | .call op next => { line with phase := .begun (.call op next) }

/-- The same after it is registered. -/
def goOn (line : JobLine Ans ε α) : Async Ans ε α → JobLine Ans ε α
  | .done outcome => { line with phase := .returned outcome }
  | .call op next => { line with phase := .awaited (.call op next) }

/-- The next job is called, if there is one. -/
def advance (line : JobLine Ans ε α) (outcome : Except ε α) : JobLine Ans ε α where
  jobs := line.jobs
  outcomes := line.outcomes ++ [outcome]
  phase := if line.current + 1 < line.jobs.length then .called else .idle

def arrive (line : JobLine Ans ε α) (fn : Async Ans ε α) : JobLine Ans ε α where
  jobs := line.jobs ++ [fn]
  outcomes := line.outcomes
  phase := match line.phase with
    | .idle => .called
    | phase => phase

/-- A line stands still exactly when all jobs are through. -/
structure Valid (line : JobLine Ans ε α) : Prop where
  idle : line.phase = .idle → line.current = line.jobs.length
  busy : line.phase ≠ .idle → line.current < line.jobs.length

variable {line : JobLine Ans ε α} {job : Nat}

/-! How promises stand. -/

theorem cell_run_none (early : line.delivered.length ≤ job) : line.cell (.run job) =
    .pending (if job < line.jobs.length then [.handle .ignore (.tail job)] else []) := by
  rw [cell, List.getElem?_eq_none early]

theorem cell_run_some {outcome : Except ε α} (has : line.delivered[job]? = some outcome) :
    line.cell (.run job) = .settled (outcome.map some) := by
  rw [cell, has]

theorem cell_tail_lt (through : job < line.current) :
    line.cell (.tail job) = .settled (.ok none) := if_pos through

theorem cell_tail_ge (waiting : line.current ≤ job) : line.cell (.tail job) =
    .pending (if job + 1 < line.jobs.length
      then [.handle (.call (job + 1)) (.run (job + 1))] else []) :=
  if_neg (Nat.not_lt_of_le waiting)

theorem delivered_length : line.delivered.length ≤ line.current + 1 := by
  rw [delivered, List.length_append, current]
  cases line.phase.delivered? <;> simp

section Arrive

variable (fn : Async Ans ε α)

theorem arrive_jobs : (line.arrive fn).jobs.length = line.jobs.length + 1 := List.length_append

theorem arrive_current : (line.arrive fn).current = line.current := rfl

theorem arrive_finished : (line.arrive fn).finished = line.finished := by
  rw [finished, finished, arrive]
  cases line.phase <;> rfl

theorem arrive_delivered : (line.arrive fn).delivered = line.delivered := by
  rw [delivered, delivered, arrive]
  cases line.phase <;> rfl

theorem arrive_task? : (line.arrive fn).phase.task? = line.phase.task? := by
  rw [arrive]
  cases line.phase <;> rfl

theorem arrive_isAwaited : (line.arrive fn).phase.isAwaited = line.phase.isAwaited := by
  rw [arrive]
  cases line.phase <;> rfl

theorem cell_arrive_run (old : job ≠ line.jobs.length) :
    (line.arrive fn).cell (.run job) = line.cell (.run job) := by
  have same : job < line.jobs.length + 1 ↔ job < line.jobs.length := by omega
  simp only [cell, arrive_delivered, arrive_jobs, same]

theorem cell_arrive_tail (old : job < line.current ∨ job + 1 ≠ line.jobs.length) :
    (line.arrive fn).cell (.tail job) = line.cell (.tail job) := by
  by_cases through : job < line.current
  · simp only [cell, arrive_current, through, ↓reduceIte]
  · have same : job + 1 < line.jobs.length + 1 ↔ job + 1 < line.jobs.length := by omega
    simp only [cell, arrive_current, arrive_jobs, same]

theorem cell_arrive_body : (line.arrive fn).cell (.body job) = line.cell (.body job) := by
  rw [cell, cell, arrive_finished, arrive_isAwaited]
  rfl

end Arrive

/-- The promise a caller is to receive is new. -/
theorem delivered_le (valid : line.Valid) : line.delivered.length ≤ line.jobs.length := by
  by_cases still : line.phase = .idle
  · have through := valid.idle still
    rw [delivered, still, List.length_append]
    exact through.le
  · have busy := valid.busy still
    have bound : line.delivered.length ≤ line.current + 1 := delivered_length
    omega

/-- The promise that is new, in the line and in what it becomes. -/
theorem cell_arrive_new (valid : line.Valid) (fn : Async Ans ε α) :
    line.cell (.run line.jobs.length) = .pending [] ∧
      (line.arrive fn).cell (.run line.jobs.length) =
        .pending [.handle .ignore (.tail line.jobs.length)] := by
  have early := delivered_le valid
  constructor
  · rw [cell_run_none early, if_neg (Nat.lt_irrefl _)]
  · rw [cell_run_none (by rw [arrive_delivered]; exact early), arrive_jobs, if_pos (by omega)]

/-- What is put on the queue changes the promises only. -/
theorem queue_arrive_of (fn : Async Ans ε α)
    {heap : Heap QueuePromise QueueHandler ε (Option α)}
    (stands : heap = (line.arrive fn).queue.heap) :
    ({ line.queue with
        heap
        last := .tail line.jobs.length
        jobs := line.jobs ++ [fn] } : PromiseQueue Ans ε α) = (line.arrive fn).queue := by
  refine PromiseQueue.ext stands (congrArg lastOf (arrive_jobs fn)).symm rfl ?_ ?_
  · change _ = (line.arrive fn).phase.task?.toList.map _
    rw [arrive_task?]
    rfl
  · change _ = turns 0 (line.arrive fn).finished ++ (line.arrive fn).phase.task?.toList.map _
    rw [arrive_finished, arrive_task?]
    rfl

/-- The last promise has settled, and the job is called at once. -/
theorem queue_arrive_idle (valid : line.Valid) (still : line.phase = .idle)
    (fn : Async Ans ε α) : (line.queue.chain fn).2 = (line.arrive fn).queue := by
  have through := valid.idle still
  obtain ⟨new, registered⟩ := cell_arrive_new valid fn
  have last : line.queue.heap.cell line.queue.last = .settled (.ok none) := by
    change line.cell (lastOf line.jobs.length) = _
    cases count : line.jobs.length with
    | zero => rfl
    | succ before => exact cell_tail_lt (by omega)
  rw [PromiseQueue.chain_of (Heap.performThen_settled last _) new]
  refine queue_arrive_of fn (Heap.ext (funext fun promise => ?_) ?_)
  · change (if promise = .run line.jobs.length then _ else line.cell promise) =
      (line.arrive fn).cell promise
    cases promise with
    | start => rfl
    | run job =>
        by_cases own : job = line.jobs.length
        · subst own
          rw [if_pos rfl]
          exact registered.symm
        · rw [if_neg (by simpa using own), cell_arrive_run fn own]
    | tail job => rw [if_neg (by simp), cell_arrive_tail fn (by omega)]
    | body job => rw [if_neg (by simp), cell_arrive_body fn]
  · change line.phase.tasks line.current ++ _ = (line.arrive fn).phase.tasks line.current
    rw [arrive, still, through]
    rfl

/-- The last promise is pending, and the job is registered on it. -/
theorem queue_arrive_busy (valid : line.Valid) (still : line.phase ≠ .idle)
    (fn : Async Ans ε α) : (line.queue.chain fn).2 = (line.arrive fn).queue := by
  have busy := valid.busy still
  obtain ⟨new, registered⟩ := cell_arrive_new valid fn
  obtain ⟨before, count⟩ : ∃ before, line.jobs.length = before + 1 :=
    ⟨line.jobs.length - 1, by omega⟩
  have last : line.queue.last = .tail before := congrArg lastOf count
  have waiting : line.queue.heap.cell line.queue.last = .pending [] := by
    have pending : line.cell (.tail before) = .pending [] := by
      rw [cell_tail_ge (by omega), if_neg (by omega)]
    rw [last]
    exact pending
  have awaits : (line.arrive fn).cell (.tail before) =
      .pending [.handle (.call (before + 1)) (.run (before + 1))] := by
    rw [cell_tail_ge (by rw [arrive_current]; omega), arrive_jobs, if_pos (by omega)]
  have phase : (line.arrive fn).phase = line.phase := by
    rw [arrive]
    cases here : line.phase with
    | idle => exact absurd here still
    | _ => rfl
  have apart : (line.queue.heap.set line.queue.last (.pending ([] ++
      [.handle (.call line.jobs.length) (.run line.jobs.length)]))).cell
        (.run line.jobs.length) = .pending [] := by
    rw [last]
    exact new
  rw [PromiseQueue.chain_of (Heap.performThen_pending waiting _) apart, last]
  refine queue_arrive_of fn (Heap.ext (funext fun promise => ?_) ?_)
  · change (if promise = .run line.jobs.length then _
      else if promise = .tail before then _ else line.cell promise) =
        (line.arrive fn).cell promise
    cases promise with
    | start => rfl
    | run job =>
        by_cases own : job = line.jobs.length
        · subst own
          rw [if_pos rfl]
          exact registered.symm
        · rw [if_neg (by simpa using own), if_neg (by simp), cell_arrive_run fn own]
    | tail job =>
        by_cases own : job = before
        · subst own
          rw [if_neg (by simp), if_pos rfl, awaits, ← count]
          rfl
        · rw [if_neg (by simp), if_neg (by simpa using own), cell_arrive_tail fn (by omega)]
    | body job => rw [if_neg (by simp), if_neg (by simp), cell_arrive_body fn]
  · exact congrArg (JobPhase.tasks line.current) phase.symm

/-- What is put on the queue joins the line. -/
theorem queue_arrive (valid : line.Valid) (fn : Async Ans ε α) :
    (line.queue.chain fn).2 = (line.arrive fn).queue := by
  by_cases still : line.phase = .idle
  · exact queue_arrive_idle valid still fn
  · exact queue_arrive_busy valid still fn

/-! The promises of the job that is not through. -/

theorem getElem?_last {β : Type} (list : List β) (last : Option β) :
    (list ++ last.toList)[list.length]? = last := by
  cases last <;> simp

theorem getElem?_other {β : Type} {list : List β} (other : job ≠ list.length)
    (first second : Option β) :
    (list ++ first.toList)[job]? = (list ++ second.toList)[job]? := by
  by_cases before : job < list.length
  · rw [List.getElem?_append_left before, List.getElem?_append_left before]
  · have after (last : Option β) : (list ++ last.toList).length ≤ job := by
      rw [List.length_append]
      cases last <;> simp only [Option.toList, List.length_nil, List.length_singleton] <;> omega
    rw [List.getElem?_eq_none (after first), List.getElem?_eq_none (after second)]

theorem cell_run_current (line : JobLine Ans ε α) : line.cell (.run line.current) =
    match line.phase.delivered? with
    | some outcome => .settled (outcome.map some)
    | none => .pending (if line.current < line.jobs.length
        then [.handle .ignore (.tail line.current)] else []) := by
  have own : line.delivered[line.current]? = line.phase.delivered? := getElem?_last _ _
  rw [cell, own]

theorem cell_body_current (line : JobLine Ans ε α) : line.cell (.body line.current) =
    match line.phase.finished? with
    | some outcome => .settled (outcome.map some)
    | none => .pending (if line.phase.isAwaited then [.settle (.run line.current)] else []) := by
  have own : line.finished[line.current]? = line.phase.finished? := getElem?_last _ _
  rw [cell, own]
  cases line.phase.finished? <;> simp

/-- The other promises do not depend on the phase. -/
theorem cell_phase (phase : JobPhase Ans ε α) {promise : QueuePromise}
    (run : promise ≠ .run line.current) (body : promise ≠ .body line.current) :
    ({ line with phase } : JobLine Ans ε α).cell promise = line.cell promise := by
  cases promise with
  | start | tail => rfl
  | run job =>
      have other : job ≠ line.outcomes.length := fun same => run (congrArg _ same)
      rw [cell, cell, delivered, delivered, getElem?_other other _ line.phase.delivered?]
  | body job =>
      have other : job ≠ line.outcomes.length := fun same => body (congrArg _ same)
      simp only [cell, finished, getElem?_other other _ line.phase.finished?, current, other,
        false_and]

/-- What the microtask of a phase makes of the line. -/
def next? (line : JobLine Ans ε α) : Option (JobLine Ans ε α) :=
  match line.phase with
  | .idle | .awaited _ => none
  | .called => line.jobs[line.current]?.map line.begin
  | .begun task => some { line with phase := .awaited task }
  | .ended outcome => some { line with phase := .returned outcome }
  | .returned outcome => some { line with phase := .delivered outcome }
  | .delivered outcome => some (line.advance outcome)

/-- The queue stands as the line does with another phase. -/
theorem queue_ext {phase : JobPhase Ans ε α}
    {heap : Heap QueuePromise QueueHandler ε (Option α)}
    (run : heap.cell (.run line.current) =
      ({ line with phase } : JobLine Ans ε α).cell (.run line.current))
    (body : heap.cell (.body line.current) =
      ({ line with phase } : JobLine Ans ε α).cell (.body line.current))
    (others : ∀ promise, promise ≠ .run line.current → promise ≠ .body line.current →
      heap.cell promise = line.cell promise)
    (queued : heap.queue = phase.tasks line.current) :
    heap = ({ line with phase } : JobLine Ans ε α).queue.heap := by
  refine Heap.ext (funext fun promise => ?_) queued
  by_cases own : promise = .run line.current
  · subst own
    exact run
  · by_cases task : promise = .body line.current
    · subst task
      exact body
    · rw [others promise own task]
      exact (cell_phase phase own task).symm

/-- The promises while the next microtask runs. -/
def taken (line : JobLine Ans ε α) : Heap QueuePromise QueueHandler ε (Option α) :=
  { cell := line.cell, queue := [] }

/-- A microtask that changes promises only. -/
theorem tick_of {task : Microtask QueuePromise QueueHandler ε (Option α)}
    {heap : Heap QueuePromise QueueHandler ε (Option α)} {phase : JobPhase Ans ε α}
    (queued : line.phase.tasks line.current = [task])
    (performs : ({ line.queue with heap := line.taken } : PromiseQueue Ans ε α).perform task =
      { line.queue with heap })
    (stands : heap = ({ line with phase } : JobLine Ans ε α).queue.heap)
    (awaits : phase.task? = line.phase.task?) (ends : phase.finished? = line.phase.finished?) :
    line.queue.tick = some ({ line with phase } : JobLine Ans ε α).queue := by
  have next : line.queue.heap.queue = [task] := queued
  rw [PromiseQueue.tick, next]
  refine congrArg some (performs.trans (PromiseQueue.ext stands rfl rfl ?_ ?_))
  · simp only [queue, awaits, current]
  · simp only [queue, finished, awaits, ends, current]

/-- The promise of a caller that has no answer is as it was. -/
theorem cell_run_same {phase : JobPhase Ans ε α} (same : phase.delivered? = line.phase.delivered?) :
    line.cell (.run line.current) =
      ({ line with phase } : JobLine Ans ε α).cell (.run line.current) := by
  have own := cell_run_current ({ line with phase } : JobLine Ans ε α)
  simp only [same] at own
  exact (cell_run_current line).trans own.symm

/-- The promise of a job that has ended is as it was. -/
theorem cell_body_same {phase : JobPhase Ans ε α} (same : phase.finished? = line.phase.finished?)
    (registered : phase.isAwaited = line.phase.isAwaited) :
    line.cell (.body line.current) =
      ({ line with phase } : JobLine Ans ε α).cell (.body line.current) := by
  have own := cell_body_current ({ line with phase } : JobLine Ans ε α)
  simp only [same, registered] at own
  exact (cell_body_current line).trans own.symm

/-- The caller's promise is registered on the job's. -/
theorem tick_begun {task : Async Ans ε α} (phase : line.phase = .begun task) :
    line.queue.tick = some ({ line with phase := .awaited task } : JobLine Ans ε α).queue := by
  have body : line.taken.cell (.body line.current) = .pending [] := by
    refine (cell_body_current line).trans ?_
    rw [phase]
    rfl
  refine tick_of (by rw [phase]; rfl)
    (congrArg (fun heap => { line.queue with heap }) (Heap.performThen_pending body _))
    (queue_ext ?_ ?_ (fun promise _ other => if_neg other) rfl) (by rw [phase]; rfl)
    (by rw [phase]; rfl)
  · exact cell_run_same (by rw [phase]; rfl)
  · exact (if_pos rfl).trans
      (cell_body_current ({ line with phase := .awaited task } : JobLine Ans ε α)).symm

/-- The caller's promise finds that the job has ended. -/
theorem tick_ended {outcome : Except ε α} (phase : line.phase = .ended outcome) :
    line.queue.tick = some ({ line with phase := .returned outcome } : JobLine Ans ε α).queue := by
  have body : line.taken.cell (.body line.current) = .settled (outcome.map some) := by
    refine (cell_body_current line).trans ?_
    rw [phase]
    rfl
  refine tick_of (by rw [phase]; rfl)
    (congrArg (fun heap => { line.queue with heap }) (Heap.performThen_settled body _))
    (queue_ext ?_ ?_ (fun _ _ _ => rfl) rfl) (by rw [phase]; rfl) (by rw [phase]; rfl)
  · exact cell_run_same (by rw [phase]; rfl)
  · exact cell_body_same (by rw [phase]; rfl) (by rw [phase]; rfl)

/-- The caller is answered. -/
theorem tick_returned (valid : line.Valid) {outcome : Except ε α}
    (phase : line.phase = .returned outcome) :
    line.queue.tick =
      some ({ line with phase := .delivered outcome } : JobLine Ans ε α).queue := by
  have busy : line.current < line.jobs.length := valid.busy (by rw [phase]; intro same; cases same)
  have run : line.taken.cell (.run line.current) =
      .pending [.handle .ignore (.tail line.current)] := by
    refine (cell_run_current line).trans ?_
    rw [phase, if_pos busy]
    rfl
  have apart : QueuePromise.body line.current ≠ .run line.current := by
    intro same
    cases same
  have body : line.cell (.body line.current) =
      ({ line with phase := .delivered outcome } : JobLine Ans ε α).cell (.body line.current) :=
    cell_body_same (by rw [phase]; rfl) (by rw [phase]; rfl)
  refine tick_of (by rw [phase]; rfl)
    (congrArg (fun heap => { line.queue with heap }) (Heap.settle_pending run _))
    (queue_ext ?_ ?_ (fun promise other _ => if_neg other) rfl) (by rw [phase]; rfl)
    (by rw [phase]; rfl)
  · exact (if_pos rfl).trans
      (cell_run_current ({ line with phase := .delivered outcome } : JobLine Ans ε α)).symm
  · rw [Heap.enqueue_cell, Heap.set_cell, if_neg apart]
    exact body

/-- The job that is through has left the line. -/
theorem advance_of {outcome : Except ε α} (phase : line.phase = .delivered outcome) :
    (line.advance outcome).finished = line.finished ∧
      (line.advance outcome).delivered = line.delivered ∧
      (line.advance outcome).phase.isAwaited = line.phase.isAwaited ∧
      (line.advance outcome).phase.task? = line.phase.task? := by
  rw [finished, finished, delivered, delivered, phase, advance]
  dsimp only
  split <;> simp only [JobPhase.finished?, JobPhase.delivered?, JobPhase.isAwaited,
    JobPhase.task?, Option.toList, List.append_nil, and_self]

theorem advance_current (outcome : Except ε α) :
    (line.advance outcome).current = line.current + 1 := List.length_append

/-- The next job is called, or none is left. -/
theorem tick_delivered {outcome : Except ε α} (phase : line.phase = .delivered outcome) :
    line.queue.tick = some (line.advance outcome).queue := by
  obtain ⟨ended, answered, awaited, awaits⟩ := advance_of phase
  have count : (line.advance outcome).current = line.current + 1 := advance_current outcome
  have tail : line.taken.cell (.tail line.current) =
      .pending (if line.current + 1 < line.jobs.length
        then [.handle (.call (line.current + 1)) (.run (line.current + 1))] else []) :=
    cell_tail_ge (Nat.le_refl _)
  have next : line.queue.heap.queue = [.react (.handle .ignore (.tail line.current))
      (outcome.map some)] := by
    change line.phase.tasks line.current = _
    rw [phase]
    rfl
  have settles : ({ line.queue with heap := line.taken } : PromiseQueue Ans ε α).perform
      (.react (.handle .ignore (.tail line.current)) (outcome.map some)) = _ :=
    congrArg (fun heap => { line.queue with heap }) (Heap.settle_pending tail _)
  rw [PromiseQueue.tick, next]
  refine congrArg some (settles.trans
    (PromiseQueue.ext (Heap.ext (funext fun promise => ?_) ?_) rfl rfl ?_ ?_))
  · change (if promise = .tail line.current then _ else line.cell promise) =
      (line.advance outcome).cell promise
    cases promise with
    | start => rfl
    | run job =>
        rw [if_neg (by simp), cell, cell, answered]
        rfl
    | tail job =>
        by_cases own : job = line.current
        · subst own
          rw [if_pos rfl, cell_tail_lt (by omega)]
        · have same : job < line.current + 1 ↔ job < line.current := by omega
          rw [if_neg (by simpa using own)]
          simp only [cell, count, same]
          rfl
    | body job =>
        have still : line.phase.isAwaited = false := by rw [phase]; rfl
        rw [if_neg (by simp)]
        simp only [cell, ended, awaited, still, Bool.false_eq_true, and_false]
  · change [] ++ _ = (line.advance outcome).phase.tasks (line.advance outcome).current
    rw [count, advance]
    dsimp only
    split <;> rfl
  · change line.phase.task?.toList.map _ = (line.advance outcome).phase.task?.toList.map _
    rw [awaits, phase]
    rfl
  · change turns 0 line.finished ++ line.phase.task?.toList.map _ =
      turns 0 (line.advance outcome).finished ++ (line.advance outcome).phase.task?.toList.map _
    rw [awaits, ended, phase]
    rfl

/-! A job goes on. -/

theorem turns_append (outcomes : List (Except ε α)) (outcome : Except ε α) (job : Nat) :
    turns job (outcomes ++ [outcome]) = turns job outcomes ++
      [.started (job + outcomes.length), .finished (job + outcomes.length) outcome] := by
  induction outcomes generalizing job with
  | nil => rfl
  | cons first rest ih =>
      rw [List.cons_append, turns, turns, ih, List.length_cons, Nat.add_right_comm,
        ← Nat.add_assoc]
      rfl

/-- The queue while the job that is not through runs. -/
def underway (line : JobLine Ans ε α)
    (tasks : List (Microtask QueuePromise QueueHandler ε (Option α))) : PromiseQueue Ans ε α where
  heap := { cell := line.cell, queue := tasks }
  last := lastOf line.jobs.length
  jobs := line.jobs
  running := []
  history := turns 0 line.outcomes ++ [.started line.current]

/-- The queue as it stands but for its microtasks. -/
def queueWith (line : JobLine Ans ε α)
    (tasks : List (Microtask QueuePromise QueueHandler ε (Option α))) : PromiseQueue Ans ε α :=
  { line.queue with heap := { cell := line.cell, queue := tasks } }

theorem JobPhase.delivered?_of {phase : JobPhase Ans ε α} (waiting : phase.finished? = none) :
    phase.delivered? = none := by
  cases phase with
  | idle | called | begun | awaited => rfl
  | ended | returned | delivered => cases waiting

/-- A job that awaits another call. -/
theorem underway_call (phase : JobPhase Ans ε α) {op : Op}
    {next : Except ε (Ans op) → Async Ans ε α} (waiting : line.phase.finished? = none)
    (awaits : phase.task? = some (.call op next)) (still : phase.finished? = none)
    (registered : phase.isAwaited = line.phase.isAwaited)
    (tasks : List (Microtask QueuePromise QueueHandler ε (Option α))) :
    (line.underway tasks).proceed line.current (.call op next) =
      ({ line with phase } : JobLine Ans ε α).queueWith tasks := by
  have answered : phase.delivered? = line.phase.delivered? := by
    rw [JobPhase.delivered?_of still, JobPhase.delivered?_of waiting]
  refine PromiseQueue.ext (Heap.ext (funext fun promise => ?_) rfl) rfl rfl ?_ ?_
  · change line.cell promise = ({ line with phase } : JobLine Ans ε α).cell promise
    by_cases run : promise = .run line.current
    · subst run
      exact cell_run_same answered
    · by_cases body : promise = .body line.current
      · subst body
        exact cell_body_same (still.trans waiting.symm) registered
      · exact (cell_phase phase run body).symm
  · change [] ++ _ = phase.task?.toList.map _
    rw [awaits]
    rfl
  · change turns 0 line.outcomes ++ [.started line.current] =
      turns 0 (line.outcomes ++ phase.finished?.toList) ++ phase.task?.toList.map _
    rw [awaits, still, Option.toList, List.append_nil]
    rfl

/-- A job that ends: its promise settles. -/
theorem underway_done (phase : JobPhase Ans ε α) {outcome : Except ε α}
    (waiting : line.phase.finished? = none) (ended : phase.finished? = some outcome)
    (unanswered : phase.delivered? = none) (awaits : phase.task? = none)
    (tasks : List (Microtask QueuePromise QueueHandler ε (Option α))) :
    (line.underway tasks).proceed line.current (.done outcome) =
      ({ line with phase } : JobLine Ans ε α).queueWith (tasks ++
        if line.phase.isAwaited then [.react (.settle (.run line.current)) (outcome.map some)]
        else []) := by
  have answered : phase.delivered? = line.phase.delivered? := by
    rw [unanswered, JobPhase.delivered?_of waiting]
  have body : (line.underway tasks).heap.cell (.body line.current) =
      .pending (if line.phase.isAwaited then [.settle (.run line.current)] else []) := by
    refine (cell_body_current line).trans ?_
    rw [waiting]
  have settles : ((line.underway tasks).heap.settle (.body line.current) (outcome.map some)) = _ :=
    Heap.settle_pending body _
  rw [PromiseQueue.proceed, settles]
  refine PromiseQueue.ext (Heap.ext (funext fun promise => ?_) ?_) rfl rfl ?_ ?_
  · change (if promise = .body line.current then _ else line.cell promise) =
      ({ line with phase } : JobLine Ans ε α).cell promise
    by_cases own : promise = .body line.current
    · subst own
      have now := cell_body_current ({ line with phase } : JobLine Ans ε α)
      simp only [ended] at now
      rw [if_pos rfl]
      exact now.symm
    · rw [if_neg own]
      by_cases run : promise = .run line.current
      · subst run
        exact cell_run_same answered
      · exact (cell_phase phase run own).symm
  · change tasks ++ _ = tasks ++ _
    cases line.phase.isAwaited <;> rfl
  · change [] = phase.task?.toList.map _
    rw [awaits]
    rfl
  · change (turns 0 line.outcomes ++ [.started line.current]) ++ [.finished line.current outcome] =
      turns 0 (line.outcomes ++ phase.finished?.toList) ++ phase.task?.toList.map _
    rw [awaits, ended]
    change _ = turns 0 (line.outcomes ++ [outcome]) ++ []
    rw [turns_append, current, Nat.zero_add, List.append_nil, List.append_assoc]
    rfl

/-- The next job is called. -/
theorem tick_called {fn : Async Ans ε α} (phase : line.phase = .called)
    (found : line.jobs[line.current]? = some fn) :
    line.queue.tick = some (line.begin fn).queue := by
  have next : line.queue.heap.queue = [.react (.handle (.call line.current) (.run line.current))
      (.ok none)] := by
    change line.phase.tasks line.current = _
    rw [phase]
    rfl
  have called : ({ line.queue with heap := line.taken } : PromiseQueue Ans ε α).call line.current
      (.run line.current) =
        { (line.underway []).proceed line.current fn with
          heap := ((line.underway []).proceed line.current fn).heap.resolveWith
            (.run line.current) (.body line.current) } := by
    have same : ({ line.queue with
        heap := line.taken
        history := line.queue.history ++ [.started line.current] } : PromiseQueue Ans ε α) =
          line.underway [] := by
      rw [queue, finished, phase]
      simp [JobPhase.finished?, JobPhase.task?, underway, taken]
    rw [PromiseQueue.call]
    simp only [queue, found] at same ⊢
    rw [same]
  rw [PromiseQueue.tick, next]
  refine congrArg some (called.trans ?_)
  have waiting : line.phase.finished? = none := by rw [phase]; rfl
  cases fn with
  | done outcome =>
      have ends := underway_done (.ended outcome) waiting rfl rfl rfl []
      rw [ends, phase]
      rfl
  | call op next =>
      have goes := underway_call (.begun (.call op next)) waiting rfl rfl
        (by rw [phase]; rfl) []
      rw [goes]
      rfl

/-- At most one job awaits a call. -/
theorem running_of {position : Nat} {task : Async Ans ε α}
    (found : line.queue.running[position]? = some (job, task)) :
    position = 0 ∧ job = line.current ∧
      (line.phase = .begun task ∨ line.phase = .awaited task) := by
  have one : (line.phase.task?.toList.map fun task => (line.current, task))[position]? =
      some (job, task) := found
  cases phase : line.phase with
  | idle | called | ended | returned | delivered =>
      rw [phase] at one
      cases one
  | begun running =>
      rw [phase] at one
      cases position with
      | zero =>
          cases one
          exact ⟨rfl, rfl, .inl rfl⟩
      | succ position => cases one
  | awaited running =>
      rw [phase] at one
      cases position with
      | zero =>
          cases one
          exact ⟨rfl, rfl, .inr rfl⟩
      | succ position => cases one

/-- The queue while the job that awaited a call runs. -/
theorem underway_of {task : Async Ans ε α}
    (awaits : line.phase = .begun task ∨ line.phase = .awaited task) :
    ({ line.queue with running := line.queue.running.eraseIdx 0 } : PromiseQueue Ans ε α) =
      line.underway (line.phase.tasks line.current) := by
  have started : line.queue.history = turns 0 line.outcomes ++ [.started line.current] := by
    rw [queue, finished]
    obtain phase | phase := awaits <;> rw [phase] <;> exact congrArg (turns 0 · ++ _)
      (List.append_nil _)
  have alone : line.queue.running.eraseIdx 0 = [] := by
    rw [queue]
    obtain phase | phase := awaits <;> rw [phase] <;> rfl
  exact PromiseQueue.ext rfl rfl rfl alone started

/-- A call that the job awaits is answered while the caller's promise is to follow the job's. -/
theorem answer_begun {task : Async Ans ε α} (phase : line.phase = .begun task)
    (rest : Async Ans ε α) :
    ({ line.queue with running := line.queue.running.eraseIdx 0 } :
      PromiseQueue Ans ε α).proceed line.current rest = (line.begin rest).queue := by
  have waiting : line.phase.finished? = none := by rw [phase]; rfl
  rw [underway_of (.inl phase)]
  cases rest with
  | done outcome =>
      rw [underway_done (.ended outcome) waiting rfl rfl rfl, phase]
      rfl
  | call op next =>
      rw [underway_call (.begun (.call op next)) waiting rfl rfl (by rw [phase]; rfl),
        phase]
      rfl

/-- A call that the job awaits is answered while the caller's promise follows the job's. -/
theorem answer_awaited {task : Async Ans ε α} (phase : line.phase = .awaited task)
    (rest : Async Ans ε α) :
    ({ line.queue with running := line.queue.running.eraseIdx 0 } :
      PromiseQueue Ans ε α).proceed line.current rest = (line.goOn rest).queue := by
  have waiting : line.phase.finished? = none := by rw [phase]; rfl
  rw [underway_of (.inr phase)]
  cases rest with
  | done outcome =>
      rw [underway_done (.returned outcome) waiting rfl rfl rfl, phase]
      rfl
  | call op next =>
      rw [underway_call (.awaited (.call op next)) waiting rfl rfl (by rw [phase]; rfl),
        phase]
      rfl

/-! ## Runs of the line -/

/-- Without a microtask, nothing runs. -/
theorem tick_none (empty : line.phase.tasks line.current = []) : line.queue.tick = none := by
  have unqueued : line.queue.heap.queue = [] := empty
  rw [PromiseQueue.tick, unqueued]

/-- What the microtask of a phase makes of the queue. -/
theorem tick_line (valid : line.Valid) : line.queue.tick = line.next?.map JobLine.queue := by
  cases phase : line.phase with
  | idle =>
      rw [tick_none (by rw [phase]; rfl), next?, phase]
      rfl
  | called =>
      have busy := valid.busy (by rw [phase]; intro same; cases same)
      have found : line.jobs[line.current]? = some line.jobs[line.current] :=
        List.getElem?_eq_getElem busy
      rw [tick_called phase found, next?, phase, found]
      rfl
  | begun task =>
      rw [tick_begun phase, next?, phase]
      rfl
  | awaited task =>
      rw [tick_none (by rw [phase]; rfl), next?, phase]
      rfl
  | ended outcome =>
      rw [tick_ended phase, next?, phase]
      rfl
  | returned outcome =>
      rw [tick_returned valid phase, next?, phase]
      rfl
  | delivered outcome =>
      rw [tick_delivered phase, next?, phase]
      rfl

/-- How a line goes on. -/
inductive Turn : JobLine Ans ε α → JobLine Ans ε α → Prop where
  | next {line later : JobLine Ans ε α} (next : line.next? = some later) : Turn line later
  | begun {line : JobLine Ans ε α} {op : Op} {next : Except ε (Ans op) → Async Ans ε α}
      (phase : line.phase = .begun (.call op next)) (answer : Except ε (Ans op)) :
      Turn line (line.begin (next answer))
  | awaited {line : JobLine Ans ε α} {op : Op} {next : Except ε (Ans op) → Async Ans ε α}
      (phase : line.phase = .awaited (.call op next)) (answer : Except ε (Ans op)) :
      Turn line (line.goOn (next answer))

/-- The queue goes on as its line does. -/
theorem turn_line (valid : line.Valid) {after : PromiseQueue Ans ε α}
    (turn : PromiseQueue.Turn line.queue after) :
    ∃ later : JobLine Ans ε α, Turn line later ∧ after = later.queue := by
  generalize same : line.queue = queue at turn
  cases turn with
  | tick next =>
      rw [← same, tick_line valid] at next
      obtain ⟨later, goes, becomes⟩ := Option.map_eq_some_iff.mp next
      exact ⟨later, .next goes, becomes.symm⟩
  | answer found answer =>
      subst same
      obtain ⟨rfl, rfl, phase | phase⟩ := running_of found
      · exact ⟨_, .begun phase answer, answer_begun phase _⟩
      · exact ⟨_, .awaited phase answer, answer_awaited phase _⟩

end JobLine

/-! ## Outcomes -/

namespace JobLine

variable {line : JobLine Ans ε α} {job : Nat}

/-- A job of the line leads to what is said to remain of it. -/
def Owns (line : JobLine Ans ε α) (job : Nat) (rest : Async Ans ε α) : Prop :=
  ∃ fn, line.jobs[job]? = some fn ∧ fn.Leads rest

/-- A line whose jobs have come to what is said of them. -/
structure Lawful (line : JobLine Ans ε α) : Prop extends Valid line where
  through : ∀ job outcome, line.outcomes[job]? = some outcome → line.Owns job (.done outcome)
  ended : ∀ outcome, line.phase.finished? = some outcome → line.Owns line.current (.done outcome)
  awaits : ∀ task, line.phase.task? = some task →
    line.Owns line.current task ∧ ∃ op next, task = .call op next

theorem Lawful.arrive (lawful : line.Lawful) (fn : Async Ans ε α) : (line.arrive fn).Lawful := by
  have owned {job : Nat} {rest : Async Ans ε α} (owns : line.Owns job rest) :
      (line.arrive fn).Owns job rest := by
    obtain ⟨own, found, leads⟩ := owns
    exact ⟨own, (List.getElem?_append_left (List.getElem?_eq_some_iff.mp found).1).trans found,
      leads⟩
  have jobs : (line.arrive fn).jobs.length = line.jobs.length + 1 := arrive_jobs fn
  refine ⟨⟨fun still => ?_, fun _ => ?_⟩, fun job outcome found => owned (lawful.through _ _ found),
    fun outcome ends => owned (lawful.ended outcome ?_), fun task awaits => ?_⟩
  · rw [JobLine.arrive] at still
    split at still
    · cases still
    · exact absurd still ‹_›
  · rw [arrive_current, jobs]
    by_cases still : line.phase = .idle
    · exact Nat.lt_succ_of_le (lawful.idle still).le
    · exact Nat.lt_succ_of_lt (lawful.busy still)
  · rw [← ends, JobLine.arrive]
    cases line.phase <;> rfl
  · rw [arrive_task?] at awaits
    exact ⟨owned (lawful.awaits task awaits).1, (lawful.awaits task awaits).2⟩

theorem Owns.busy {rest : Async Ans ε α} (owns : line.Owns job rest) : job < line.jobs.length := by
  obtain ⟨fn, found, -⟩ := owns
  exact (List.getElem?_eq_some_iff.mp found).1

/-- The job that is not through has ended. -/
theorem Lawful.ends (lawful : line.Lawful) {outcome : Except ε α}
    (owns : line.Owns line.current (.done outcome)) {phase : JobPhase Ans ε α}
    (ended : phase.finished? = some outcome) (still : phase.task? = none) :
    ({ line with phase } : JobLine Ans ε α).Lawful := by
  refine ⟨⟨fun idle => ?_, fun _ => owns.busy⟩, lawful.through, fun own ends => ?_,
    fun task awaits => ?_⟩
  · obtain rfl : phase = .idle := idle
    cases ended
  · obtain rfl := Option.some.inj (ended.symm.trans ends)
    exact owns
  · cases still.symm.trans awaits

/-- It awaits a call. -/
theorem Lawful.waits (lawful : line.Lawful) {op : Op} {next : Except ε (Ans op) → Async Ans ε α}
    (owns : line.Owns line.current (.call op next)) {phase : JobPhase Ans ε α}
    (awaits : phase.task? = some (.call op next)) (still : phase.finished? = none) :
    ({ line with phase } : JobLine Ans ε α).Lawful := by
  refine ⟨⟨fun idle => ?_, fun _ => owns.busy⟩, lawful.through, fun own ends => ?_,
    fun task own => ?_⟩
  · obtain rfl : phase = .idle := idle
    cases awaits
  · cases still.symm.trans ends
  · obtain rfl := Option.some.inj (awaits.symm.trans own)
    exact ⟨owns, op, next, rfl⟩

theorem Lawful.begin (lawful : line.Lawful) {rest : Async Ans ε α}
    (owns : line.Owns line.current rest) : (line.begin rest).Lawful := by
  cases rest with
  | done outcome => exact lawful.ends owns rfl rfl
  | call op next => exact lawful.waits owns rfl rfl

theorem Lawful.goOn (lawful : line.Lawful) {rest : Async Ans ε α}
    (owns : line.Owns line.current rest) : (line.goOn rest).Lawful := by
  cases rest with
  | done outcome => exact lawful.ends owns rfl rfl
  | call op next => exact lawful.waits owns rfl rfl

/-- The outcomes of a line with one more. -/
theorem getElem?_toList {β : Type} {list : List β} {last : Option β} {value : β}
    (found : (list ++ last.toList)[job]? = some value) :
    list[job]? = some value ∨ job = list.length ∧ last = some value := by
  by_cases before : job < list.length
  · rw [List.getElem?_append_left before] at found
    exact .inl found
  · rw [List.getElem?_append_right (by omega)] at found
    cases last with
    | none => cases found
    | some value =>
        cases place : job - list.length with
        | zero =>
            rw [place] at found
            exact .inr ⟨by omega, found⟩
        | succ place =>
            rw [‹job - _ = _›] at found
            cases found

theorem Lawful.finished (lawful : line.Lawful) {outcome : Except ε α}
    (found : line.finished[job]? = some outcome) : line.Owns job (.done outcome) := by
  obtain before | ⟨rfl, ends⟩ := getElem?_toList found
  · exact lawful.through job outcome before
  · exact lawful.ended outcome ends

theorem Lawful.advance (lawful : line.Lawful) {outcome : Except ε α}
    (phase : line.phase = .delivered outcome) : (line.advance outcome).Lawful := by
  have busy : line.current < line.jobs.length :=
    lawful.busy (by rw [phase]; intro same; cases same)
  have count : (line.advance outcome).current = line.current + 1 := advance_current outcome
  have all : (line.advance outcome).outcomes = line.finished := by
    rw [JobLine.finished, phase]
    rfl
  refine ⟨⟨fun still => ?_, fun still => ?_⟩, fun job own found => ?_, fun own ends => ?_,
    fun task awaits => ?_⟩
  · rw [JobLine.advance] at still
    dsimp only at still
    split at still
    · cases still
    · rw [count]
      change line.current + 1 = line.jobs.length
      omega
  · rw [JobLine.advance] at still
    dsimp only at still
    split at still
    · rw [count]
      assumption
    · exact absurd rfl still
  · rw [all] at found
    exact lawful.finished found
  · rw [JobLine.advance] at ends
    dsimp only at ends
    split at ends <;> cases ends
  · rw [JobLine.advance] at awaits
    dsimp only at awaits
    split at awaits <;> cases awaits

/-- **Whatever a line comes to, its jobs have come to what is said of them.** -/
theorem Turn.lawful {later : JobLine Ans ε α} (turn : Turn line later) (lawful : line.Lawful) :
    later.Lawful := by
  have answered {op : Op} {next : Except ε (Ans op) → Async Ans ε α}
      (awaits : line.phase.task? = some (.call op next)) (answer : Except ε (Ans op)) :
      line.Owns line.current (next answer) := by
    obtain ⟨⟨fn, found, leads⟩, -⟩ := lawful.awaits _ awaits
    exact ⟨fn, found, leads.answer answer⟩
  cases turn with
  | begun phase answer => exact lawful.begin (answered (by rw [phase]; rfl) answer)
  | awaited phase answer => exact lawful.goOn (answered (by rw [phase]; rfl) answer)
  | next next =>
      cases phase : line.phase with
      | idle | awaited =>
          rw [next?, phase] at next
          cases next
      | called =>
          rw [next?, phase] at next
          obtain ⟨fn, found, rfl⟩ := Option.map_eq_some_iff.mp next
          exact lawful.begin ⟨fn, found, .refl⟩
      | begun task =>
          obtain ⟨owns, op, rest, rfl⟩ := lawful.awaits task (by rw [phase]; rfl)
          rw [next?, phase] at next
          cases next
          exact lawful.waits owns rfl rfl
      | ended outcome =>
          have owns := lawful.ended outcome (by rw [phase]; rfl)
          rw [next?, phase] at next
          cases next
          exact lawful.ends owns rfl rfl
      | returned outcome =>
          have owns := lawful.ended outcome (by rw [phase]; rfl)
          rw [next?, phase] at next
          cases next
          exact lawful.ends owns rfl rfl
      | delivered outcome =>
          rw [next?, phase] at next
          cases next
          exact lawful.advance phase

end JobLine

/-- Every queue stands as some line says. -/
theorem PromiseQueue.Reached.line {chain : Chained} {queue : PromiseQueue Ans ε α}
    (reached : PromiseQueue.Reached chain queue) :
    ∃ line : JobLine Ans ε α, line.Lawful ∧ queue = line.queue := by
  induction reached with
  | fresh =>
      refine ⟨⟨[], [], .idle⟩, ⟨⟨fun _ => rfl, fun still => absurd rfl still⟩,
        (fun job outcome found => by cases found), (fun outcome ends => by cases ends),
        (fun task awaits => by cases awaits)⟩, ?_⟩
      refine PromiseQueue.ext (Heap.ext (funext fun promise => ?_) rfl) rfl rfl rfl rfl
      cases promise with
      | start => rfl
      | run job => rfl
      | tail job => rfl
      | body job => simp [PromiseQueue.fresh, JobLine.queue, JobLine.cell, JobLine.finished,
          JobPhase.finished?, JobPhase.isAwaited]
  | step before step ih =>
      obtain ⟨line, lawful, rfl⟩ := ih
      cases step with
      | arrive fn =>
          refine ⟨line.arrive fn, lawful.arrive fn, ?_⟩
          rw [← JobLine.queue_arrive lawful.toValid fn]
          cases chain <;> rfl
      | turn turn =>
          obtain ⟨later, goes, becomes⟩ := JobLine.turn_line lawful.toValid turn
          exact ⟨later, goes.lawful lawful, becomes⟩

/-! ## The jobs end -/

namespace JobLine

variable {line : JobLine Ans ε α}

/-- The line goes on only finitely often. -/
def Ends (line : JobLine Ans ε α) : Prop := Acc (fun later before => Turn before later) line

theorem ends_of (each : ∀ later, Turn line later → later.Ends) : line.Ends := Acc.intro line each

/-- Without a call that is awaited, there is the microtask only. -/
theorem ends_next (silent : line.phase.task? = none)
    (each : ∀ later, line.next? = some later → later.Ends) : line.Ends := by
  refine ends_of fun later turn => ?_
  cases turn with
  | next next => exact each later next
  | begun phase answer =>
      rw [phase] at silent
      cases silent
  | awaited phase answer =>
      rw [phase] at silent
      cases silent

section OneJob

variable (after : ∀ outcome, (line.advance outcome).Ends)

include after

theorem ends_delivered (outcome : Except ε α) :
    ({ line with phase := .delivered outcome } : JobLine Ans ε α).Ends := by
  refine ends_next rfl fun later next => ?_
  cases next
  exact after outcome

theorem ends_returned (outcome : Except ε α) :
    ({ line with phase := .returned outcome } : JobLine Ans ε α).Ends := by
  refine ends_next rfl fun later next => ?_
  cases next
  exact ends_delivered after outcome

theorem ends_ended (outcome : Except ε α) :
    ({ line with phase := .ended outcome } : JobLine Ans ε α).Ends := by
  refine ends_next rfl fun later next => ?_
  cases next
  exact ends_returned after outcome

theorem ends_awaited (task : Async Ans ε α) :
    ({ line with phase := .awaited task } : JobLine Ans ε α).Ends := by
  induction task with
  | done outcome =>
      refine ends_of fun later turn => ?_
      cases turn with
      | next next => cases next
      | begun phase answer => cases phase
      | awaited phase answer => cases phase
  | call op next ih =>
      refine ends_of fun later turn => ?_
      cases turn with
      | next next => cases next
      | begun phase answer => cases phase
      | awaited phase answer =>
          cases phase
          have rest := ih answer
          cases goes : next answer with
          | done outcome => exact ends_returned after outcome
          | call op next =>
              rw [goes] at rest
              exact rest

theorem ends_begun (task : Async Ans ε α) :
    ({ line with phase := .begun task } : JobLine Ans ε α).Ends := by
  induction task with
  | done outcome =>
      refine ends_of fun later turn => ?_
      cases turn with
      | next next =>
          cases next
          exact ends_awaited after (.done outcome)
      | begun phase answer => cases phase
      | awaited phase answer => cases phase
  | call op next ih =>
      refine ends_of fun later turn => ?_
      cases turn with
      | next goes =>
          cases goes
          exact ends_awaited after (.call op next)
      | begun phase answer =>
          cases phase
          have rest := ih answer
          cases goes : next answer with
          | done outcome => exact ends_ended after outcome
          | call op next =>
              rw [goes] at rest
              exact rest
      | awaited phase answer => cases phase

/-- The job that is not through ends, and then those behind it. -/
theorem ends_job : line.Ends := by
  obtain ⟨jobs, outcomes, phase⟩ := line
  cases phase with
  | idle => exact ends_next rfl fun later next => by cases next
  | called =>
      refine ends_next rfl fun later next => ?_
      obtain ⟨fn, -, rfl⟩ := Option.map_eq_some_iff.mp next
      cases fn with
      | done outcome => exact ends_ended after outcome
      | call op rest => exact ends_begun after (.call op rest)
  | begun task => exact ends_begun after task
  | awaited task => exact ends_awaited after task
  | ended outcome => exact ends_ended after outcome
  | returned outcome => exact ends_returned after outcome
  | delivered outcome => exact ends_delivered after outcome

end OneJob

/-- Beyond its jobs, a line goes on no more than to its end. -/
theorem ends (line : JobLine Ans ε α) : line.Ends := by
  -- The induction is on the jobs that are not through.
  generalize remaining : line.jobs.length - line.current = count
  induction count generalizing line with
  | zero =>
      refine ends_job fun outcome => ?_
      have still : line.advance outcome =
          { line.advance outcome with phase := .idle } := by
        rw [advance, if_neg (by omega)]
      rw [still]
      exact ends_next rfl fun later next => by cases next
  | succ count ih =>
      refine ends_job fun outcome => ih (line.advance outcome) ?_
      rw [advance_current]
      change line.jobs.length - (line.current + 1) = count
      omega

end JobLine

/-- The queue goes on only finitely often, unless another job arrives. -/
def PromiseQueue.Ends (queue : PromiseQueue Ans ε α) : Prop :=
  Acc (fun later before => PromiseQueue.Turn before later) queue

theorem JobLine.Lawful.queue_ends {line : JobLine Ans ε α} (lawful : line.Lawful) :
    line.queue.Ends := by
  have all : line.Ends := line.ends
  induction all with
  | intro line _ ih =>
      refine Acc.intro _ fun after turn => ?_
      obtain ⟨later, goes, rfl⟩ := JobLine.turn_line lawful.toValid turn
      exact ih later goes (goes.lawful lawful)

/-! ## Fairness -/

/-- What is promised of a queue with some outcomes: its jobs have run once each, in the order
they were put on it, none before the last one had ended (`turns`); the outcomes are those of the
jobs themselves (`own`); a caller has the promise of its own job, and receives no other outcome
(`arrives`, `receives`); the queue comes to a stand, and only with all jobs through and all
callers answered (`ends`, `through`). -/
structure PromiseQueue.Fair (chain : Chained) (queue : PromiseQueue Ans ε α)
    (outcomes : List (Except ε α)) : Prop where
  turns : (queue.running = [] ∧ queue.history = turns 0 outcomes) ∨
    ∃ op next, queue.running = [(outcomes.length, .call op next)] ∧
      queue.history = turns 0 outcomes ++ [.started outcomes.length]
  own : ∀ (job : Nat) (outcome : Except ε α), outcomes[job]? = some outcome →
    ∃ fn, queue.jobs[job]? = some fn ∧ Async.Leads fn (.done outcome)
  arrives : ∀ fn, (chain.method queue fn).1 = .run queue.jobs.length ∧
    (chain.method queue fn).2.jobs = queue.jobs ++ [fn]
  receives : ∀ (job : Nat) received, queue.heap.cell (.run job) = .settled received →
    ∃ outcome, outcomes[job]? = some outcome ∧ received = outcome.map some
  ends : queue.Ends
  through : queue.tick = none → queue.running = [] → outcomes.length = queue.jobs.length ∧
    ∀ (job : Nat) outcome, outcomes[job]? = some outcome →
      queue.heap.cell (.run job) = .settled (outcome.map some)

namespace JobLine

variable {line : JobLine Ans ε α}

theorem Lawful.turns (lawful : line.Lawful) :
    (line.queue.running = [] ∧ line.queue.history = turns 0 line.finished) ∨
      ∃ op next, line.queue.running = [(line.finished.length, .call op next)] ∧
        line.queue.history = turns 0 line.finished ++ [.started line.finished.length] := by
  cases awaits : line.phase.task? with
  | none =>
      refine .inl ⟨?_, ?_⟩
      · rw [queue, awaits]
        rfl
      · rw [queue, awaits]
        exact List.append_nil _
  | some task =>
      obtain ⟨-, op, next, rfl⟩ := lawful.awaits task awaits
      have waiting : line.phase.finished? = none := by
        cases phase : line.phase with
        | begun | awaited => rfl
        | idle | called | ended | returned | delivered =>
            rw [phase] at awaits
            cases awaits
      have count : line.finished.length = line.current := by
        rw [JobLine.finished, waiting, Option.toList, List.append_nil, current]
      refine .inr ⟨op, next, ?_, ?_⟩
      · rw [count, queue, awaits]
        rfl
      · rw [count, queue, awaits]
        rfl

/-- A caller that has been answered has the outcome of its job. -/
theorem finished_of_delivered {job : Nat} {outcome : Except ε α}
    (answered : line.delivered[job]? = some outcome) : line.finished[job]? = some outcome := by
  cases phase : line.phase with
  | idle | called | begun | awaited | delivered =>
      rw [delivered, phase] at answered
      rw [JobLine.finished, phase]
      exact answered
  | ended | returned =>
      rw [delivered, phase] at answered
      have before : line.outcomes[job]? = some outcome := by
        simpa [JobPhase.delivered?] using answered
      exact (List.getElem?_append_left (List.getElem?_eq_some_iff.mp before).1).trans before

theorem receives {job : Nat} {received : Except ε (Option α)}
    (settled : line.cell (.run job) = .settled received) :
    ∃ outcome, line.finished[job]? = some outcome ∧ received = outcome.map some := by
  rw [cell] at settled
  split at settled
  · rename_i outcome answered
    cases settled
    exact ⟨outcome, finished_of_delivered answered, rfl⟩
  · cases settled

theorem Lawful.stands (lawful : line.Lawful) (still : line.queue.tick = none)
    (free : line.queue.running = []) : line.finished.length = line.jobs.length ∧
      ∀ (job : Nat) outcome, line.finished[job]? = some outcome →
        line.cell (.run job) = .settled (outcome.map some) := by
  have idle : line.phase = .idle := by
    rw [tick_line lawful.toValid, Option.map_eq_none_iff, next?] at still
    rw [queue] at free
    cases phase : line.phase with
    | idle => rfl
    | called =>
        have busy := lawful.busy (by rw [phase]; intro same; cases same)
        rw [phase, List.getElem?_eq_getElem busy] at still
        cases still
    | begun | awaited =>
        rw [phase] at free
        cases free
    | ended | returned | delivered =>
        rw [phase] at still
        cases still
  have all : line.finished = line.delivered := by
    rw [JobLine.finished, delivered, idle]
    rfl
  refine ⟨?_, fun job outcome found => ?_⟩
  · rw [JobLine.finished, idle, ← lawful.idle idle]
    exact congrArg List.length (List.append_nil line.outcomes)
  · rw [all] at found
    exact cell_run_some found

end JobLine

/-- **Every queue is fair**, whatever jobs are put on it, at whatever times, and however their
calls are answered. -/
theorem promiseQueue_fair (chain : Chained) {queue : PromiseQueue Ans ε α}
    (reached : PromiseQueue.Reached chain queue) : ∃ outcomes, queue.Fair chain outcomes := by
  obtain ⟨line, lawful, rfl⟩ := reached.line
  refine ⟨line.finished, lawful.turns, fun job outcome => lawful.finished, fun fn => ?_,
    fun job received settled => JobLine.receives settled, lawful.queue_ends, lawful.stands⟩
  cases chain <;> exact ⟨rfl, rfl⟩

/-- A job fails after a call, and another one is put on the queue before. -/
theorem promiseQueue_fair_failing :
    let fails : Async (fun _ : Unit => Unit) String Nat := .call () fun _ => .done (.error "no")
    ∃ (queue : PromiseQueue (fun _ : Unit => Unit) String Nat)
      (outcomes : List (Except String Nat)), queue.Fair .lock outcomes ∧
        queue.jobs = [fails, .done (.ok 7)] ∧
        queue.history = [.started 0, .finished 0 (.error "no")] := by
  intro fails
  have start : PromiseQueue.Reached .lock
      (PromiseQueue.fresh : PromiseQueue (fun _ : Unit => Unit) String Nat) := .fresh
  have called := (start.step (.arrive _ fails)).step (.turn (.tick rfl))
  have second := called.step (.arrive _ (.done (.ok 7)))
  have answered := second.step (.turn
    (@PromiseQueue.Turn.answer _ _ _ _ _ 0 0 () (fun _ => .done (.error "no")) rfl (.ok ())))
  obtain ⟨outcomes, fair⟩ := promiseQueue_fair .lock answered
  exact ⟨_, outcomes, fair, rfl, rfl⟩

end PromiseQueue

end Numera
