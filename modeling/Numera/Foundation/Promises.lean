import Mathlib.Tactic.Common

/-! # Promises

A promise is pending until it settles with a value or an error. Each reaction registered on it
becomes a microtask when it settles, or at once if it has settled before. Microtasks run one at
a time, in the order they were queued in. A promise that is resolved with another one follows
it: a microtask registers it there, to settle likewise. Promises are known by names, and what a
handler does is left to the program.
-/

namespace Promise

/-- What is done when a promise settles: a handler is run, whose result resolves another promise,
or another promise settles likewise. -/
inductive Reaction (P H : Type) where
  | handle (handler : H) (derived : P)
  | settle (derived : P)

/-- A promise, with the reactions it has while it is pending. -/
inductive Cell (P H ε α : Type) where
  | pending (reactions : List (Reaction P H))
  | settled (outcome : Except ε α)

inductive Microtask (P H ε α : Type) where
  | react (reaction : Reaction P H) (outcome : Except ε α)
  | follow (derived source : P)

/-- The promises, and the microtasks in their order. -/
@[ext] structure Heap (P H ε α : Type) where
  cell : P → Cell P H ε α
  queue : List (Microtask P H ε α)

namespace Heap

variable {P H ε α : Type} (heap : Heap P H ε α)

def enqueue (tasks : List (Microtask P H ε α)) : Heap P H ε α :=
  { heap with queue := heap.queue ++ tasks }

@[simp] theorem enqueue_cell (tasks : List (Microtask P H ε α)) :
    (heap.enqueue tasks).cell = heap.cell := rfl

@[simp] theorem enqueue_queue (tasks : List (Microtask P H ε α)) :
    (heap.enqueue tasks).queue = heap.queue ++ tasks := rfl

/-- Resolve a promise with another one. -/
def resolveWith (derived source : P) : Heap P H ε α := heap.enqueue [.follow derived source]

variable [DecidableEq P]

def set (promise : P) (cell : Cell P H ε α) : Heap P H ε α :=
  { heap with cell := fun other => if other = promise then cell else heap.cell other }

/-- Register a reaction. -/
def performThen (source : P) (reaction : Reaction P H) : Heap P H ε α :=
  match heap.cell source with
  | .pending reactions => heap.set source (.pending (reactions ++ [reaction]))
  | .settled outcome => heap.enqueue [.react reaction outcome]

/-- Settle a promise, unless it has settled before. -/
def settle (promise : P) (outcome : Except ε α) : Heap P H ε α :=
  match heap.cell promise with
  | .pending reactions =>
      (heap.set promise (.settled outcome)).enqueue
        (reactions.map fun reaction => .react reaction outcome)
  | .settled _ => heap

variable {heap}

@[simp] theorem set_cell (promise other : P) (cell : Cell P H ε α) :
    (heap.set promise cell).cell other = if other = promise then cell else heap.cell other := rfl

@[simp] theorem set_queue (promise : P) (cell : Cell P H ε α) :
    (heap.set promise cell).queue = heap.queue := rfl

/-- On a promise that is pending the reaction waits. -/
theorem performThen_pending {source : P} {reactions : List (Reaction P H)}
    (pending : heap.cell source = .pending reactions) (reaction : Reaction P H) :
    heap.performThen source reaction = heap.set source (.pending (reactions ++ [reaction])) := by
  rw [performThen, pending]

/-- On one that has settled it is queued at once. -/
theorem performThen_settled {source : P} {outcome : Except ε α}
    (settled : heap.cell source = .settled outcome) (reaction : Reaction P H) :
    heap.performThen source reaction = heap.enqueue [.react reaction outcome] := by
  rw [performThen, settled]

/-- The reactions are queued in the order they were registered in. -/
theorem settle_pending {promise : P} {reactions : List (Reaction P H)}
    (pending : heap.cell promise = .pending reactions) (outcome : Except ε α) :
    heap.settle promise outcome = (heap.set promise (.settled outcome)).enqueue
      (reactions.map fun reaction => .react reaction outcome) := by
  rw [settle, pending]

/-- A promise settles once. -/
theorem settle_settled {promise : P} {before : Except ε α}
    (settled : heap.cell promise = .settled before) (outcome : Except ε α) :
    heap.settle promise outcome = heap := by
  rw [settle, settled]

/-- And with the outcome it was given. -/
theorem cell_settle {promise : P} {reactions : List (Reaction P H)}
    (pending : heap.cell promise = .pending reactions) (outcome : Except ε α) :
    (heap.settle promise outcome).cell promise = .settled outcome := by
  rw [settle_pending pending, enqueue_cell, set_cell, if_pos rfl]

/-- The other promises stay as they are. -/
theorem cell_settle_other {promise other : P} (apart : other ≠ promise) (outcome : Except ε α) :
    (heap.settle promise outcome).cell other = heap.cell other := by
  cases cell : heap.cell promise with
  | pending reactions => rw [settle_pending cell, enqueue_cell, set_cell, if_neg apart]
  | settled before => rw [settle_settled cell]

/-- A reaction is registered on its own promise. -/
theorem cell_performThen_other {source other : P} (apart : other ≠ source)
    (reaction : Reaction P H) :
    (heap.performThen source reaction).cell other = heap.cell other := by
  cases cell : heap.cell source with
  | pending reactions => rw [performThen_pending cell, set_cell, if_neg apart]
  | settled outcome => rw [performThen_settled cell, enqueue_cell]

end Heap

/-! ## What promises carry -/

section Flows

variable {P H ε α : Type} {carries wider : P → Except ε α → Prop}
  {reacts more : P → Reaction P H → Prop} {heap : Heap P H ε α}

/-- A microtask runs a reaction of a promise with an outcome of that promise, or registers one on
it. -/
def Microtask.Fits (carries : P → Except ε α → Prop) (reacts : P → Reaction P H → Prop) :
    Microtask P H ε α → Prop
  | .react reaction outcome => ∃ source, reacts source reaction ∧ carries source outcome
  | .follow derived source => reacts source (.settle derived)

/-- Promises have the reactions that `reacts` allows and settle as `carries` does. -/
structure Heap.Flows (carries : P → Except ε α → Prop) (reacts : P → Reaction P H → Prop)
    (heap : Heap P H ε α) : Prop where
  settled : ∀ promise outcome, heap.cell promise = .settled outcome → carries promise outcome
  pending : ∀ promise reactions, heap.cell promise = .pending reactions →
    ∀ reaction ∈ reactions, reacts promise reaction
  queued : ∀ task ∈ heap.queue, task.Fits carries reacts

/-- What fits a narrower account fits a wider one. -/
theorem Microtask.Fits.mono {task : Microtask P H ε α} (fits : task.Fits carries reacts)
    (allows : ∀ promise outcome, carries promise outcome → wider promise outcome)
    (registers : ∀ promise reaction, reacts promise reaction → more promise reaction) :
    task.Fits wider more := by
  cases task with
  | react reaction outcome =>
      obtain ⟨source, own, carried⟩ := fits
      exact ⟨source, registers _ _ own, allows _ _ carried⟩
  | follow derived source => exact registers _ _ fits

namespace Heap.Flows

/-- And so it is with the whole heap. -/
theorem mono (flows : heap.Flows carries reacts)
    (allows : ∀ promise outcome, carries promise outcome → wider promise outcome)
    (registers : ∀ promise reaction, reacts promise reaction → more promise reaction) :
    heap.Flows wider more :=
  ⟨fun _ _ settled => allows _ _ (flows.settled _ _ settled),
    fun _ _ pending _ member => registers _ _ (flows.pending _ _ pending _ member),
    fun _ member => (flows.queued _ member).mono allows registers⟩

/-- Microtasks that fit may be queued. -/
theorem enqueue (flows : heap.Flows carries reacts) {tasks : List (Microtask P H ε α)}
    (fit : ∀ task ∈ tasks, task.Fits carries reacts) :
    (heap.enqueue tasks).Flows carries reacts := by
  refine ⟨flows.settled, flows.pending, fun task member => ?_⟩
  obtain old | new := List.mem_append.mp member
  · exact flows.queued task old
  · exact fit task new

/-- What remains when the first microtask is taken from the queue. -/
theorem rest (flows : heap.Flows carries reacts) {task : Microtask P H ε α}
    {rest : List (Microtask P H ε α)} (queue : heap.queue = task :: rest) :
    task.Fits carries reacts ∧
      ({ heap with queue := rest } : Heap P H ε α).Flows carries reacts := by
  have queued := flows.queued
  rw [queue] at queued
  exact ⟨queued task List.mem_cons_self, flows.settled, flows.pending,
    fun other member => queued other (List.mem_cons_of_mem _ member)⟩

variable [DecidableEq P]

/-- A reaction that is allowed may be registered, settled or not. -/
theorem performThen (flows : heap.Flows carries reacts) {source : P} {reaction : Reaction P H}
    (registers : reacts source reaction) :
    (heap.performThen source reaction).Flows carries reacts := by
  cases cell : heap.cell source with
  | settled outcome =>
      rw [performThen_settled cell]
      refine flows.enqueue fun task member => ?_
      rw [List.mem_singleton.mp member]
      exact ⟨source, registers, flows.settled source outcome cell⟩
  | pending reactions =>
      rw [performThen_pending cell]
      refine ⟨fun promise outcome settled => ?_, fun promise others pending other member => ?_,
        flows.queued⟩
      · rw [set_cell] at settled
        split at settled
        · cases settled
        · exact flows.settled promise outcome settled
      · rw [set_cell] at pending
        split at pending
        · rename_i same
          subst same
          cases pending
          obtain old | new := List.mem_append.mp member
          · exact flows.pending promise reactions cell other old
          · rw [List.mem_singleton.mp new]
            exact registers
        · exact flows.pending promise others pending other member

/-- A promise may settle as it carries: its reactions are queued with that outcome. -/
theorem settle (flows : heap.Flows carries reacts) {promise : P} {outcome : Except ε α}
    (carried : carries promise outcome) : (heap.settle promise outcome).Flows carries reacts := by
  cases cell : heap.cell promise with
  | settled before =>
      rw [settle_settled cell]
      exact flows
  | pending reactions =>
      rw [settle_pending cell]
      have kept : (heap.set promise (.settled outcome)).Flows carries reacts := by
        refine ⟨fun other own settled => ?_, fun other others pending => ?_, flows.queued⟩
        · rw [set_cell] at settled
          split at settled
          · rename_i same
            cases settled
            exact same ▸ carried
          · exact flows.settled other own settled
        · rw [set_cell] at pending
          split at pending
          · cases pending
          · exact flows.pending other others pending
      refine kept.enqueue fun task member => ?_
      obtain ⟨reaction, registered, rfl⟩ := List.mem_map.mp member
      exact ⟨promise, flows.pending promise reactions cell reaction registered, carried⟩

end Heap.Flows

end Flows

/-! ## Handlers -/

section Handlers

variable {P H ε α : Type}

def Reaction.isHandle : Reaction P H → Bool
  | handle _ _ => true
  | settle _ => false

def Microtask.isHandle : Microtask P H ε α → Bool
  | react reaction _ => reaction.isHandle
  | follow _ _ => false

namespace Heap

/-- The handlers registered on a promise that is pending. -/
def handlers (heap : Heap P H ε α) (promise : P) : List (Reaction P H) :=
  match heap.cell promise with
  | .pending reactions => reactions.filter Reaction.isHandle
  | .settled _ => []

/-- The handlers that are to be run. -/
def handled (heap : Heap P H ε α) : List (Microtask P H ε α) :=
  heap.queue.filter Microtask.isHandle

variable {heap : Heap P H ε α}

theorem handled_enqueue (tasks : List (Microtask P H ε α)) :
    (heap.enqueue tasks).handled = heap.handled ++ tasks.filter Microtask.isHandle :=
  List.filter_append ..

/-- What is queued waits on no promise. -/
theorem handlers_enqueue (tasks : List (Microtask P H ε α)) (promise : P) :
    (heap.enqueue tasks).handlers promise = heap.handlers promise := rfl

variable [DecidableEq P]

/-- A promise that is to settle likewise is no handler. -/
theorem handlers_performThen_settle (source derived promise : P) :
    (heap.performThen source (.settle derived)).handlers promise = heap.handlers promise := by
  cases cell : heap.cell source with
  | settled outcome => rw [performThen_settled cell, handlers_enqueue]
  | pending reactions =>
      rw [performThen_pending cell, handlers, handlers, set_cell]
      by_cases same : promise = source
      · rw [if_pos same, same, cell]
        exact (List.filter_append ..).trans (List.append_nil _)
      · rw [if_neg same]

/-- Nor is it one when it is queued. -/
theorem handled_performThen_settle (source derived : P) :
    (heap.performThen source (.settle derived)).handled = heap.handled := by
  cases cell : heap.cell source with
  | settled outcome =>
      rw [performThen_settled cell, handled_enqueue]
      exact List.append_nil _
  | pending reactions => rw [performThen_pending cell, handled, handled, set_queue]

/-- A handler waits for a promise that is pending. -/
theorem handlers_performThen_handle {source : P} {reactions : List (Reaction P H)}
    (pending : heap.cell source = .pending reactions) (handler : H) (derived promise : P) :
    (heap.performThen source (.handle handler derived)).handlers promise =
      if promise = source then heap.handlers source ++ [.handle handler derived]
      else heap.handlers promise := by
  rw [performThen_pending pending, handlers, set_cell]
  by_cases same : promise = source
  · rw [if_pos same, if_pos same, handlers, pending]
    exact List.filter_append ..
  · rw [if_neg same, if_neg same]
    rfl

/-- And so it is not to be run yet. -/
theorem handled_performThen_handle {source : P} {reactions : List (Reaction P H)}
    (pending : heap.cell source = .pending reactions) (handler : H) (derived : P) :
    (heap.performThen source (.handle handler derived)).handled = heap.handled := by
  rw [performThen_pending pending, handled, handled, set_queue]

/-- Nothing waits on a promise that has settled. -/
theorem handlers_settle (promise other : P) (outcome : Except ε α) :
    (heap.settle promise outcome).handlers other =
      if other = promise then [] else heap.handlers other := by
  cases cell : heap.cell promise with
  | settled before =>
      rw [settle_settled cell]
      split
      · rw [‹other = promise›, handlers, cell]
      · rfl
  | pending reactions =>
      rw [settle_pending cell, handlers_enqueue, handlers, set_cell]
      by_cases same : other = promise
      · rw [if_pos same, if_pos same]
      · rw [if_neg same, if_neg same]
        rfl

/-- The handlers of a promise that settles are run. -/
theorem handled_settle (promise : P) (outcome : Except ε α) :
    (heap.settle promise outcome).handled =
      heap.handled ++ (heap.handlers promise).map fun reaction => .react reaction outcome := by
  cases cell : heap.cell promise with
  | settled before =>
      rw [settle_settled cell, handlers, cell]
      exact (List.append_nil _).symm
  | pending reactions =>
      rw [settle_pending cell, handled_enqueue, handlers, cell]
      exact congrArg (heap.handled ++ ·) List.filter_map

end Heap

end Handlers

end Promise
