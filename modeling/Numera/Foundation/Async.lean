import Mathlib.Data.List.Forall2
import Mathlib.Tactic.Common

/-! # Asynchronous computations

An asynchronous function runs without interruption up to its next awaited call,
hands that call to its environment, and resumes with the answer. `Async` is the
tree of these calls: every awaited call, every answer it may receive, and the
computation that follows. A rejected call answers with an error, which ends the
computation unless it is caught.

An `Environment` says what may happen at each call, and `Reaches` collects the
partial executions of a computation against it, however far they got. Against
an environment that answers as a function of its state (`Responder`) a
computation stopped after some number of calls is computed by `stopped`.
-/

/-- An asynchronous computation over the calls `Op`: finished with an outcome,
or suspended on a call and waiting for its answer. -/
inductive Async {Op : Type} (Ans : Op → Type) (ε α : Type) : Type where
  | done (outcome : Except ε α)
  | call (op : Op) (next : Except ε (Ans op) → Async Ans ε α)

namespace Async

variable {Op : Type} {Ans : Op → Type} {ε α β γ σ Λ : Type}

/-- Sequencing: the second computation starts when the first one returns, and
never when it throws. -/
protected def bind : Async Ans ε α → (α → Async Ans ε β) → Async Ans ε β
  | .done (.ok value), rest => rest value
  | .done (.error thrown), _ => .done (.error thrown)
  | .call op next, rest => .call op fun answer => (next answer).bind rest

/-- `try`/`catch`: the handler starts when the computation throws. -/
protected def tryCatch : Async Ans ε α → (ε → Async Ans ε α) → Async Ans ε α
  | .done (.ok value), _ => .done (.ok value)
  | .done (.error thrown), handler => handler thrown
  | .call op next, handler => .call op fun answer => (next answer).tryCatch handler

instance : Monad (Async Ans ε) where
  pure value := .done (.ok value)
  bind := Async.bind

instance : MonadExcept ε (Async Ans ε) where
  throw thrown := .done (.error thrown)
  tryCatch := Async.tryCatch

/-- Await one call and return its answer, rethrowing a rejection. -/
def perform (op : Op) : Async Ans ε (Ans op) := .call op .done

@[simp] theorem pure_eq (value : α) : (pure value : Async Ans ε α) = .done (.ok value) := rfl

@[simp] theorem throw_eq (thrown : ε) :
    (throw thrown : Async Ans ε α) = .done (.error thrown) := rfl

@[simp] theorem done_ok_bind (value : α) (rest : α → Async Ans ε β) :
    (.done (.ok value) : Async Ans ε α) >>= rest = rest value := rfl

@[simp] theorem done_error_bind (thrown : ε) (rest : α → Async Ans ε β) :
    (.done (.error thrown) : Async Ans ε α) >>= rest = .done (.error thrown) := rfl

@[simp] theorem call_bind (op : Op) (next : Except ε (Ans op) → Async Ans ε α)
    (rest : α → Async Ans ε β) :
    (.call op next : Async Ans ε α) >>= rest = .call op fun answer => next answer >>= rest := rfl

protected theorem bind_assoc (task : Async Ans ε α) (first : α → Async Ans ε β)
    (second : β → Async Ans ε γ) :
    task >>= first >>= second = task >>= fun value => first value >>= second := by
  induction task with
  | done outcome => cases outcome <;> rfl
  | call op next ih =>
      change Async.call op _ = Async.call op _
      congr 1
      funext answer
      exact ih answer

protected theorem bind_pure (task : Async Ans ε α) : task >>= pure = task := by
  induction task with
  | done outcome => cases outcome <;> rfl
  | call op next ih =>
      change Async.call op _ = Async.call op _
      congr 1
      funext answer
      exact ih answer

instance : LawfulMonad (Async Ans ε) :=
  LawfulMonad.mk' _ (fun task => Async.bind_pure task) (fun _ _ => rfl) Async.bind_assoc

/-- Run a computation for every element of a list, in order. -/
def forEach : List β → (β → Async Ans ε Unit) → Async Ans ε Unit
  | [], _ => pure ()
  | first :: rest, body => do
      body first
      forEach rest body

/-- The values of a computation for every element of a list, in order. -/
def promiseAll (body : β → Async Ans ε α) : List β → Async Ans ε (List α)
  | [] => pure []
  | first :: rest => do
      let value ← body first
      let values ← promiseAll body rest
      return value :: values

/-- A handler that only throws the error on changes nothing. -/
@[simp] theorem tryCatch_throw (task : Async Ans ε α) : tryCatch task throw = task := by
  change task.tryCatch (fun thrown => .done (.error thrown)) = task
  induction task with
  | done outcome => cases outcome <;> rfl
  | call op next ih =>
      change Async.call op _ = Async.call op _
      congr 1
      funext answer
      exact ih answer

/-- What remains of a computation when some of its calls have been answered. -/
inductive Leads (task : Async Ans ε α) : Async Ans ε α → Prop where
  | refl : Leads task task
  | answer {op : Op} {next : Except ε (Ans op) → Async Ans ε α}
      (before : Leads task (.call op next)) (answer : Except ε (Ans op)) : Leads task (next answer)

/-! ## Environments -/

/-- What an environment may do with a call in a state: the answer it gives, what
is recorded of the call, and the state it leaves. -/
abbrev Environment (Ans : Op → Type) (ε σ Λ : Type) : Type :=
  (op : Op) → σ → Except ε (Ans op) → List Λ → σ → Prop

/-- The partial executions of a computation. The computation that remains is
suspended on a call that has not been answered, or finished. Stopping at any of
them is what a crash does. -/
inductive Reaches (env : Environment Ans ε σ Λ) :
    Async Ans ε α → σ → List Λ → Async Ans ε α → σ → Prop where
  | refl (task : Async Ans ε α) (state : σ) : Reaches env task state [] task state
  | step {op : Op} {next : Except ε (Ans op) → Async Ans ε α} {state middle final : σ}
      {answer : Except ε (Ans op)} {record records : List Λ} {remaining : Async Ans ε α}
      (first : env op state answer record middle)
      (later : Reaches env (next answer) middle records remaining final) :
      Reaches env (.call op next) state (record ++ records) remaining final

namespace Reaches

variable {env wider : Environment Ans ε σ Λ} {task remaining : Async Ans ε α} {state final : σ}
  {records : List Λ}

/-- An environment that may do more reaches more. -/
theorem mono (path : Reaches env task state records remaining final)
    (allowed : ∀ op before answer record later, env op before answer record later →
      wider op before answer record later) :
    Reaches wider task state records remaining final := by
  induction path with
  | refl task state => exact .refl task state
  | step first _ ih => exact .step (allowed _ _ _ _ _ first) ih

/-- What every step preserves, a partial execution preserves. -/
theorem preserves {holds : σ → Prop} (path : Reaches env task state records remaining final)
    (kept : ∀ op before answer record later, env op before answer record later →
      holds before → holds later)
    (initially : holds state) : holds final := by
  induction path with
  | refl => exact initially
  | step first _ ih => exact ih (kept _ _ _ _ _ first initially)

/-- A partial execution of a sequence stands within its first part, or that part
has returned and it stands in the second. -/
theorem bind_cases {rest : α → Async Ans ε β} {remaining : Async Ans ε β}
    (path : Reaches env (task >>= rest) state records remaining final) :
    (∃ standing, Reaches env task state records standing final ∧
        (∀ result, standing ≠ .done (.ok result)) ∧ remaining = standing >>= rest) ∨
      ∃ result middle before after, records = before ++ after ∧
        Reaches env task state before (.done (.ok result)) middle ∧
        Reaches env (rest result) middle after remaining final := by
  induction task generalizing state records with
  | done outcome =>
      cases outcome with
      | ok result => exact .inr ⟨result, state, [], records, rfl, .refl _ state, path⟩
      | error thrown =>
          cases path with
          | refl => exact .inl ⟨_, .refl _ _, (fun _ same => by cases same), rfl⟩
  | call op next ih =>
      cases path with
      | refl => exact .inl ⟨_, .refl _ _, (fun _ same => by cases same), rfl⟩
      | step first later =>
          rcases ih _ later with ⟨standing, within, unreturned, same⟩ |
            ⟨result, middle, before, after, rfl, task, continued⟩
          · exact .inl ⟨standing, .step first within, unreturned, same⟩
          · exact .inr ⟨result, middle, _ ++ before, after, (List.append_assoc _ _ _).symm,
              .step first task, continued⟩

/-- A partial execution goes on from where another stands. -/
theorem trans {standing : Async Ans ε α} {middle : σ} {later : List Λ}
    (first : Reaches env task state records standing middle)
    (second : Reaches env standing middle later remaining final) :
    Reaches env task state (records ++ later) remaining final := by
  induction first with
  | refl => exact second
  | step answered _ ih =>
      rw [List.append_assoc]
      exact .step answered (ih second)

/-- A partial execution of the first part of a sequence is one of the sequence. -/
theorem bind_left (path : Reaches env task state records remaining final)
    (rest : α → Async Ans ε β) :
    Reaches env (task >>= rest) state records (remaining >>= rest) final := by
  induction path with
  | refl => exact .refl _ _
  | step answered _ ih => exact .step answered ih

/-- A sequence that returned has run its first part to its result and then its
second. -/
theorem bind_returned {rest : α → Async Ans ε β} {value : β}
    (path : Reaches env (task >>= rest) state records (.done (.ok value)) final) :
    ∃ result middle before after, records = before ++ after ∧
      Reaches env task state before (.done (.ok result)) middle ∧
      Reaches env (rest result) middle after (.done (.ok value)) final := by
  rcases bind_cases path with ⟨standing, -, unreturned, same⟩ | returned
  · cases standing with
    | call op next => cases same
    | done outcome =>
        cases outcome with
        | ok result => exact absurd rfl (unreturned result)
        | error thrown => cases same
  · exact returned

/-- A partial execution of one call stands before it or right after it. -/
theorem perform_cases {op : Op} {standing : Async Ans ε (Ans op)}
    (path : Reaches env (perform op) state records standing final) :
    (records = [] ∧ final = state) ∨
      ∃ answer, standing = .done answer ∧ env op state answer records final := by
  cases path with
  | refl => exact .inl ⟨rfl, rfl⟩
  | step first later =>
      cases later with
      | refl =>
          rw [List.append_nil]
          exact .inr ⟨_, rfl, first⟩

/-- A call that returned is one step. -/
theorem perform_returned {op : Op} {value : Ans op}
    (path : Reaches env (perform op) state records (.done (.ok value)) final) :
    env op state (.ok value) records final := by
  cases path with
  | step first later =>
      cases later with
      | refl =>
          rw [List.append_nil]
          exact first

/-- What every round of a loop that returned carries on, the loop carries through. -/
theorem forEach_returned {items : List β} {body : β → Async Ans ε Unit} {holds : List β → σ → Prop}
    (rounds : ∀ item rest before records after, holds (item :: rest) before →
      Reaches env (body item) before records (.done (.ok ())) after → holds rest after)
    (initially : holds items state)
    (path : Reaches env (forEach items body) state records (.done (.ok ())) final) :
    holds [] final := by
  induction items generalizing state records with
  | nil =>
      cases path with
      | refl => exact initially
  | cons item rest ih =>
      obtain ⟨_, middle, before, after, -, round, later⟩ := bind_returned path
      exact ih (rounds item rest state before middle initially round) later

end Reaches

/-! ## Restricted computations -/

/-- Whatever it is answered, the computation makes only the allowed calls. -/
def CallsOnly (allowed : Op → Prop) : Async Ans ε α → Prop
  | .done _ => True
  | .call op next => allowed op ∧ ∀ answer, CallsOnly allowed (next answer)

namespace CallsOnly

variable {allowed : Op → Prop} {task : Async Ans ε α}

theorem bind {rest : α → Async Ans ε β} (first : CallsOnly allowed task)
    (second : ∀ value, CallsOnly allowed (rest value)) : CallsOnly allowed (task >>= rest) := by
  induction task with
  | done outcome =>
      cases outcome with
      | ok value => exact second value
      | error thrown => trivial
  | call op next ih => exact ⟨first.1, fun answer => ih answer (first.2 answer)⟩

/-- Calls that are allowed are allowed by a weaker condition. -/
theorem mono {wider : Op → Prop} (only : CallsOnly allowed task)
    (implies : ∀ op, allowed op → wider op) : CallsOnly wider task := by
  induction task with
  | done outcome => trivial
  | call op next ih => exact ⟨implies op only.1, fun answer => ih answer (only.2 answer)⟩

/-- Every computation makes some calls or other. -/
theorem unrestricted (task : Async Ans ε α) : CallsOnly (fun _ => True) task := by
  induction task with
  | done outcome => trivial
  | call op next ih => exact ⟨trivial, ih⟩

theorem perform {op : Op} (member : allowed op) :
    CallsOnly allowed (Async.perform op : Async Ans ε (Ans op)) :=
  ⟨member, fun _ => trivial⟩

theorem tryCatch {handler : ε → Async Ans ε α} (body : CallsOnly allowed task)
    (handled : ∀ thrown, CallsOnly allowed (handler thrown)) :
    CallsOnly allowed (tryCatch task handler) := by
  induction task with
  | done outcome =>
      cases outcome with
      | ok value => trivial
      | error thrown => exact handled thrown
  | call op next ih => exact ⟨body.1, fun answer => ih answer (body.2 answer)⟩

theorem forEach {items : List β} {body : β → Async Ans ε Unit}
    (rounds : ∀ item, CallsOnly allowed (body item)) :
    CallsOnly allowed (Async.forEach items body) := by
  induction items with
  | nil => trivial
  | cons item rest ih => exact bind (rounds item) fun _ => ih

/-- A loop whose rounds are restricted for the items of its list. -/
theorem forEach_mem {items : List β} {body : β → Async Ans ε Unit}
    (rounds : ∀ item ∈ items, CallsOnly allowed (body item)) :
    CallsOnly allowed (Async.forEach items body) := by
  induction items with
  | nil => trivial
  | cons item rest ih =>
      exact .bind (rounds item List.mem_cons_self) fun _ =>
        ih fun other member => rounds other (List.mem_cons_of_mem item member)

theorem promiseAll {items : List β} {body : β → Async Ans ε α}
    (rounds : ∀ item, CallsOnly allowed (body item)) :
    CallsOnly allowed (Async.promiseAll body items) := by
  induction items with
  | nil => trivial
  | cons item rest ih => exact bind (rounds item) fun _ => bind ih fun _ => trivial

/-- A computation whose calls leave the state alone and are not recorded does so
itself, wherever it stands. -/
theorem unobserved {env : Environment Ans ε σ Λ} {remaining : Async Ans ε α} {state final : σ}
    {records : List Λ} (only : CallsOnly allowed task)
    (silent : ∀ op before answer record after, allowed op → env op before answer record after →
      record = [] ∧ after = before)
    (path : Reaches env task state records remaining final) : records = [] ∧ final = state := by
  induction path with
  | refl => exact ⟨rfl, rfl⟩
  | step first _ ih =>
      obtain ⟨rfl, rfl⟩ := silent _ _ _ _ _ only.1 first
      exact ih (only.2 _)

end CallsOnly

/-- The values of a `promiseAll` that returned, when no part of it changes the
state. -/
theorem Reaches.promiseAll_returned {env : Environment Ans ε σ Λ} {items : List β}
    {body : β → Async Ans ε α} {holds : β → α → Prop} {state final : σ} {records : List Λ}
    {values : List α}
    (rounds : ∀ item ∈ items, ∀ value records after,
      Reaches env (body item) state records (.done (.ok value)) after →
        after = state ∧ holds item value)
    (path : Reaches env (promiseAll body items) state records (.done (.ok values)) final) :
    final = state ∧ List.Forall₂ holds items values := by
  induction items generalizing records values final with
  | nil =>
      cases path with
      | refl => exact ⟨rfl, .nil⟩
  | cons item rest ih =>
      obtain ⟨value, middle, _, _, -, first, continued⟩ := bind_returned path
      obtain ⟨others, _, _, _, -, later, returned⟩ := bind_returned continued
      obtain ⟨rfl, held⟩ := rounds item List.mem_cons_self value _ middle first
      obtain ⟨rfl, heldRest⟩ := ih (fun other member =>
        rounds other (List.mem_cons_of_mem item member)) later
      cases returned with
      | refl => exact ⟨rfl, .cons held heldRest⟩

/-! ## Outcomes

What a computation may end with is required of every way an environment may answer
it, and established along the computation: of a sequence for its first part, with what
the second requires. -/

/-- However its calls are answered, the computation ends as required, if it ends. -/
def Ends (env : Environment Ans ε σ Λ) (post : Except ε α → σ → Prop) : Async Ans ε α → σ → Prop
  | .done outcome, state => post outcome state
  | .call op next, state =>
      ∀ answer record later, env op state answer record later → Ends env post (next answer) later

namespace Ends

variable {env : Environment Ans ε σ Λ} {post : Except ε α → σ → Prop} {task : Async Ans ε α}
  {state : σ}

/-- An execution that has ended did so as required. -/
theorem outcome {records : List Λ} {result : Except ε α} {final : σ}
    (ends : Ends env post task state)
    (path : Reaches env task state records (.done result) final) : post result final := by
  generalize remaining : Async.done result = task' at path
  induction path with
  | refl task state =>
      subst remaining
      exact ends
  | step first _ ih => exact ih (ends _ _ _ first) remaining

theorem mono {weaker : Except ε α → σ → Prop} (ends : Ends env post task state)
    (implies : ∀ outcome final, post outcome final → weaker outcome final) :
    Ends env weaker task state := by
  induction task generalizing state with
  | done outcome => exact implies outcome state ends
  | call op next ih =>
      exact fun answer record later answered => ih answer (ends answer record later answered)

/-- A sequence ends as required when its first part ends in an error as required, or in a
value from which its second part ends as required. -/
theorem bind {first : Async Ans ε β} {rest : β → Async Ans ε α}
    (ends : Ends env (fun outcome final =>
      match outcome with
      | .ok value => Ends env post (rest value) final
      | .error thrown => post (.error thrown) final) first state) :
    Ends env post (first >>= rest) state := by
  induction first generalizing state with
  | done outcome => cases outcome <;> exact ends
  | call op next ih =>
      exact fun answer record later answered => ih answer (ends answer record later answered)

/-- A computation that is caught ends as required when it ends in a value as required, or in
an error from which its handler does. -/
theorem tryCatch {handler : ε → Async Ans ε α}
    (ends : Ends env (fun outcome final =>
      match outcome with
      | .ok value => post (.ok value) final
      | .error thrown => Ends env post (handler thrown) final) task state) :
    Ends env post (tryCatch task handler) state := by
  induction task generalizing state with
  | done outcome => cases outcome <;> exact ends
  | call op next ih =>
      exact fun answer record later answered => ih answer (ends answer record later answered)

theorem perform {op : Op} {post : Except ε (Ans op) → σ → Prop}
    (answered : ∀ answer record later, env op state answer record later → post answer later) :
    Ends env post (Async.perform op) state := answered

/-- A computation whose outcome does not matter. -/
theorem of_forall (always : ∀ outcome final, post outcome final) : Ends env post task state := by
  induction task generalizing state with
  | done outcome => exact always outcome state
  | call op next ih => exact fun answer record later _ => ih answer

/-- Where its first part has returned, a sequence that ends as required is at its second part,
which does so too. -/
theorem continues {first : Async Ans ε β} {rest : β → Async Ans ε α} {records : List Λ} {value : β}
    {middle : σ} (ends : Ends env post (first >>= rest) state)
    (path : Reaches env first state records (.done (.ok value)) middle) :
    Ends env post (rest value) middle := by
  generalize returned : (Async.done (.ok value) : Async Ans ε β) = remaining at path
  induction path with
  | refl task state =>
      subst returned
      exact ends
  | step answered _ ih => exact ih (ends _ _ _ answered) returned

/-- What the allowed calls preserve holds when a computation that makes no other has ended. -/
theorem of_callsOnly {allowed : Op → Prop} {holds : σ → Prop} (only : CallsOnly allowed task)
    (kept : ∀ op before answer record later, allowed op → env op before answer record later →
      holds before → holds later)
    (initially : holds state) : Ends env (fun _ final => holds final) task state := by
  induction task generalizing state with
  | done outcome => exact initially
  | call op next ih =>
      exact fun answer record later answered =>
        ih answer (only.2 answer) (kept op _ _ _ _ only.1 answered initially)

end Ends

/-- However its calls are answered, every state the computation passes through is as required,
and it ends as required, if it ends. -/
def Always (env : Environment Ans ε σ Λ) (holds : σ → Prop) (post : Except ε α → σ → Prop) :
    Async Ans ε α → σ → Prop
  | .done outcome, state => holds state ∧ post outcome state
  | .call op next, state =>
      holds state ∧ ∀ answer record later, env op state answer record later →
        Always env holds post (next answer) later

namespace Always

variable {env : Environment Ans ε σ Λ} {holds : σ → Prop} {post : Except ε α → σ → Prop}
  {task : Async Ans ε α} {state : σ}

/-- The state the computation starts from is as required. -/
theorem now (always : Always env holds post task state) : holds state := by
  cases task with
  | done outcome => exact always.1
  | call op next => exact always.1

/-- Wherever an execution stands, the state is as required. -/
theorem reached {records : List Λ} {remaining : Async Ans ε α} {final : σ}
    (always : Always env holds post task state)
    (path : Reaches env task state records remaining final) : holds final := by
  induction path with
  | refl => exact always.now
  | step first _ ih => exact ih (always.2 _ _ _ first)

theorem mono {weaker : Except ε α → σ → Prop} (always : Always env holds post task state)
    (implies : ∀ outcome final, holds final → post outcome final → weaker outcome final) :
    Always env holds weaker task state := by
  induction task generalizing state with
  | done outcome => exact ⟨always.1, implies outcome state always.1 always.2⟩
  | call op next ih =>
      exact ⟨always.1, fun answer record later answered =>
        ih answer (always.2 answer record later answered)⟩

/-- A sequence is as required when its first part is, up to an error as required or to a value
from which its second part is as required. -/
theorem bind {first : Async Ans ε β} {rest : β → Async Ans ε α}
    (always : Always env holds (fun outcome final =>
      match outcome with
      | .ok value => Always env holds post (rest value) final
      | .error thrown => post (.error thrown) final) first state) :
    Always env holds post (first >>= rest) state := by
  induction first generalizing state with
  | done outcome =>
      cases outcome with
      | ok value => exact always.2
      | error thrown => exact always
  | call op next ih =>
      exact ⟨always.1, fun answer record later answered =>
        ih answer (always.2 answer record later answered)⟩

/-- A computation that is caught is as required when it is, up to a value as required or to an
error from which its handler is as required. -/
theorem tryCatch {handler : ε → Async Ans ε α}
    (always : Always env holds (fun outcome final =>
      match outcome with
      | .ok value => post (.ok value) final
      | .error thrown => Always env holds post (handler thrown) final) task state) :
    Always env holds post (tryCatch task handler) state := by
  induction task generalizing state with
  | done outcome =>
      cases outcome with
      | ok value => exact always
      | error thrown => exact always.2
  | call op next ih =>
      exact ⟨always.1, fun answer record later answered =>
        ih answer (always.2 answer record later answered)⟩

/-- A call, and what follows its answer unless it is rejected. -/
theorem perform_bind {op : Op} {rest : Ans op → Async Ans ε α} (initially : holds state)
    (answered : ∀ value record later, env op state (.ok value) record later →
      Always env holds post (rest value) later)
    (rejected : ∀ thrown record later, env op state (.error thrown) record later →
      holds later ∧ post (.error thrown) later) :
    Always env holds post (Async.perform op >>= rest) state := by
  refine ⟨initially, fun answer record later given => ?_⟩
  cases answer with
  | ok value => exact answered value record later given
  | error thrown => exact rejected thrown record later given

/-- A loop whose rounds carry a condition on, whether or not they throw. -/
theorem forEach {items : List β} {body : β → Async Ans ε Unit} {carried : σ → Prop}
    (implied : ∀ before, carried before → holds before)
    (rounds : ∀ item ∈ items, ∀ before, carried before →
      Always env holds (fun _ after => carried after) (body item) before)
    (initially : carried state) :
    Always env holds (fun _ after => carried after) (Async.forEach items body) state := by
  induction items generalizing state with
  | nil => exact ⟨implied state initially, initially⟩
  | cons item rest ih =>
      refine bind (mono (rounds item List.mem_cons_self state initially) ?_)
      intro outcome final _ carries
      cases outcome with
      | ok done =>
          exact ih (fun other member => rounds other (List.mem_cons_of_mem item member)) carries
      | error thrown => exact carries

end Always

/-- However its calls are answered, every call the computation makes is made in a state that
permits it, and it ends as required, if it ends. -/
def Guarded (env : Environment Ans ε σ Λ) (permits : Op → σ → Prop) (post : Except ε α → σ → Prop) :
    Async Ans ε α → σ → Prop
  | .done outcome, state => post outcome state
  | .call op next, state =>
      permits op state ∧ ∀ answer record later, env op state answer record later →
        Guarded env permits post (next answer) later

namespace Guarded

variable {env : Environment Ans ε σ Λ} {permits : Op → σ → Prop} {post : Except ε α → σ → Prop}
  {task : Async Ans ε α} {state : σ}

theorem mono {weaker : Except ε α → σ → Prop} (guarded : Guarded env permits post task state)
    (implies : ∀ outcome final, post outcome final → weaker outcome final) :
    Guarded env permits weaker task state := by
  induction task generalizing state with
  | done outcome => exact implies outcome state guarded
  | call op next ih =>
      exact ⟨guarded.1, fun answer record later answered =>
        ih answer (guarded.2 answer record later answered)⟩

/-- A sequence is guarded when its first part is, up to an error as required or to a value from
which its second part is guarded. -/
theorem bind {first : Async Ans ε β} {rest : β → Async Ans ε α}
    (guarded : Guarded env permits (fun outcome final =>
      match outcome with
      | .ok value => Guarded env permits post (rest value) final
      | .error thrown => post (.error thrown) final) first state) :
    Guarded env permits post (first >>= rest) state := by
  induction first generalizing state with
  | done outcome => cases outcome <;> exact guarded
  | call op next ih =>
      exact ⟨guarded.1, fun answer record later answered =>
        ih answer (guarded.2 answer record later answered)⟩

/-- A computation that is caught is guarded when it is, up to a value as required or to an error
from which its handler is guarded. -/
theorem tryCatch {handler : ε → Async Ans ε α}
    (guarded : Guarded env permits (fun outcome final =>
      match outcome with
      | .ok value => post (.ok value) final
      | .error thrown => Guarded env permits post (handler thrown) final) task state) :
    Guarded env permits post (tryCatch task handler) state := by
  induction task generalizing state with
  | done outcome => cases outcome <;> exact guarded
  | call op next ih =>
      exact ⟨guarded.1, fun answer record later answered =>
        ih answer (guarded.2 answer record later answered)⟩

theorem perform {op : Op} {post : Except ε (Ans op) → σ → Prop} (permitted : permits op state)
    (answered : ∀ answer record later, env op state answer record later → post answer later) :
    Guarded env permits post (Async.perform op) state := ⟨permitted, answered⟩

/-- A loop whose rounds carry a condition on what is left of the list. -/
theorem forEach {items : List β} {body : β → Async Ans ε Unit} {post : Except ε Unit → σ → Prop}
    {carried : List β → σ → Prop}
    (rounds : ∀ item rest before, carried (item :: rest) before →
      Guarded env permits (fun outcome after =>
        match outcome with
        | .ok () => carried rest after
        | .error thrown => post (.error thrown) after) (body item) before)
    (finished : ∀ final, carried [] final → post (.ok ()) final) (initially : carried items state) :
    Guarded env permits post (Async.forEach items body) state := by
  induction items generalizing state with
  | nil => exact finished state initially
  | cons item rest ih =>
      refine bind ((rounds item rest state initially).mono fun outcome final carries => ?_)
      cases outcome with
      | ok done => exact ih carries
      | error thrown => exact carries

/-- A computation that makes permitted calls only, each of which keeps a condition. -/
theorem of_callsOnly {allowed : Op → Prop} (holds : σ → Prop) (only : CallsOnly allowed task)
    (permitted : ∀ op before, allowed op → holds before → permits op before)
    (kept : ∀ op before answer record later, allowed op → env op before answer record later →
      holds before → holds later) (initially : holds state) :
    Guarded env permits (fun _ final => holds final) task state := by
  induction task generalizing state with
  | done outcome => exact initially
  | call op next ih =>
      exact ⟨permitted op state only.1 initially, fun answer record later answered =>
        ih answer (only.2 answer) (kept op _ _ _ _ only.1 answered initially)⟩

/-- Wherever an execution stands, what remains of it is guarded. -/
theorem remains {records : List Λ} {remaining : Async Ans ε α} {final : σ}
    (guarded : Guarded env permits post task state)
    (path : Reaches env task state records remaining final) :
    Guarded env permits post remaining final := by
  induction path with
  | refl => exact guarded
  | step first _ ih => exact ih (guarded.2 _ _ _ first)

/-- What permitted calls keep holds wherever an execution stands. -/
theorem preserves {records : List Λ} {remaining : Async Ans ε α} {final : σ} (holds : σ → Prop)
    (guarded : Guarded env permits post task state)
    (path : Reaches env task state records remaining final)
    (kept : ∀ op before answer record later, permits op before →
      env op before answer record later → holds before → holds later)
    (initially : holds state) : holds final := by
  induction path with
  | refl => exact initially
  | step first _ ih =>
      exact ih (guarded.2 _ _ _ first) (kept _ _ _ _ _ guarded.1 first initially)

end Guarded

/-! ## Summaries -/

/-- An environment that keeps a summary of what has been recorded. -/
def Environment.summarised {τ : Type} (env : Environment Ans ε σ Λ) (next : τ → Λ → τ) :
    Environment Ans ε (σ × τ) Λ :=
  fun op before answer record later =>
    env op before.1 answer record later.1 ∧ later.2 = record.foldl next before.2

/-- The summary that is kept is the summary of the record. -/
theorem Reaches.summarised {τ : Type} {env : Environment Ans ε σ Λ} {task remaining : Async Ans ε α}
    {state final : σ} {records : List Λ} (path : Reaches env task state records remaining final)
    (next : τ → Λ → τ) (summary : τ) :
    Reaches (env.summarised next) task (state, summary) records remaining
      (final, records.foldl next summary) := by
  induction path generalizing summary with
  | refl task state => exact .refl task _
  | step first _ ih =>
      rw [List.foldl_append]
      exact .step ⟨first, rfl⟩ (ih _)

/-! ## Two levels

An environment is seen through a coarser one when each of its steps is a step of
the coarser one, after its states and its records are projected. What a
computation does against the finer environment it then does against the coarser. -/

/-- A computation against an environment, seen through a coarser one. -/
theorem Reaches.seen {τ Κ : Type} {env : Environment Ans ε σ Λ} {coarser : Environment Ans ε τ Κ}
    {task remaining : Async Ans ε α} {state final : σ} {records : List Λ} (project : σ → τ)
    (entries : Λ → List Κ)
    (steps : ∀ op before answer record after, env op before answer record after →
      coarser op (project before) answer (record.flatMap entries) (project after))
    (path : Reaches env task state records remaining final) :
    Reaches coarser task (project state) (records.flatMap entries) remaining (project final) := by
  induction path with
  | refl task state => exact .refl task _
  | step first _ ih =>
      rw [List.flatMap_append]
      exact .step (steps _ _ _ _ _ first) ih

/-- The changes a list of records stands for, one after the other. -/
inductive Changed (change : Λ → σ → σ → Prop) : List Λ → σ → σ → Prop where
  | nil (state : σ) : Changed change [] state state
  | cons {entry : Λ} {records : List Λ} {state middle final : σ} (first : change entry state middle)
      (later : Changed change records middle final) : Changed change (entry :: records) state final

theorem Changed.append {change : Λ → σ → σ → Prop} {first second : List Λ} {state middle final : σ}
    (before : Changed change first state middle) (after : Changed change second middle final) :
    Changed change (first ++ second) state final := by
  induction before with
  | nil => exact after
  | cons entry _ ih => exact .cons entry (ih after)

/-- What is recorded of a computation accounts for the change of the state, when it
does so for each step. -/
theorem Reaches.changed {τ : Type} {env : Environment Ans ε σ Λ} {change : Λ → τ → τ → Prop}
    {task remaining : Async Ans ε α} {state final : σ} {records : List Λ} (project : σ → τ)
    (steps : ∀ op before answer record after, env op before answer record after →
      Changed change record (project before) (project after))
    (path : Reaches env task state records remaining final) :
    Changed change records (project state) (project final) := by
  induction path with
  | refl task state => exact .nil _
  | step first _ ih => exact (steps _ _ _ _ _ first).append ih

/-! ## Failing calls

A service that is called performs the call and answers, refuses it without any
effect, or performs it and loses the answer. The record of a call is the call
itself when it was performed. -/

/-- An environment whose calls may fail. -/
inductive Unreliable (performs : (op : Op) → σ → Except ε (Ans op) → σ → Prop) :
    Environment Ans ε σ Op where
  | performed {op state answer final} (done : performs op state answer final) :
      Unreliable performs op state answer [op] final
  | refused {op state} (failure : ε) : Unreliable performs op state (.error failure) [] state
  | lost {op state answer final} (failure : ε) (done : performs op state answer final) :
      Unreliable performs op state (.error failure) [op] final

/-- A call that was answered with a value was performed. -/
theorem Unreliable.performed_of_ok {performs : (op : Op) → σ → Except ε (Ans op) → σ → Prop}
    {op : Op} {state final : σ} {value : Ans op} {record : List Op}
    (answered : Unreliable performs op state (.ok value) record final) :
    performs op state (.ok value) final := by
  cases answered with
  | performed done => exact done

/-- What a call preserves when it is performed holds after it. -/
theorem Unreliable.keeps {performs : (op : Op) → σ → Except ε (Ans op) → σ → Prop}
    {holds : σ → Prop} {op : Op} {state final : σ} {answer : Except ε (Ans op)} {record : List Op}
    (answered : Unreliable performs op state answer record final) (initially : holds state)
    (kept : ∀ answer later, performs op state answer later → holds later) : holds final := by
  cases answered with
  | performed done => exact kept _ _ done
  | refused => exact initially
  | lost _ done => exact kept _ _ done

/-- The environment whose calls are all performed and answered. -/
def Reliable (performs : (op : Op) → σ → Except ε (Ans op) → σ → Prop) :
    Environment Ans ε σ Op :=
  fun op state answer record final => performs op state answer final ∧ record = [op]

/-- A call that is performed and answered is one thing an unreliable environment
may do. -/
theorem Reliable.unreliable {performs : (op : Op) → σ → Except ε (Ans op) → σ → Prop} (op : Op)
    (state : σ) (answer : Except ε (Ans op)) (record : List Op) (final : σ)
    (answered : Reliable performs op state answer record final) :
    Unreliable performs op state answer record final := by
  obtain ⟨done, rfl⟩ := answered
  exact .performed done

/-! ## Deterministic environments -/

/-- An environment that answers every call at once, as a function of its own
state. -/
abbrev Responder (Ans : Op → Type) (ε σ : Type) : Type :=
  (op : Op) → σ → Except ε (Ans op) × σ

variable (respond : Responder Ans ε σ)

/-- The computation that remains when it is stopped after some number of calls,
and the state it leaves. -/
def stopped : Nat → Async Ans ε α → σ → Async Ans ε α × σ
  | 0, task, state => (task, state)
  | _ + 1, .done outcome, state => (.done outcome, state)
  | count + 1, .call op next, state =>
      stopped count (next (respond op state).1) (respond op state).2

/-- What is recorded of a computation before it is stopped after some number of
calls. -/
def recorded (record : Op → σ → List Λ) : Nat → Async Ans ε α → σ → List Λ
  | 0, _, _ => []
  | _ + 1, .done _, _ => []
  | count + 1, .call op next, state =>
      record op state ++ recorded record count (next (respond op state).1) (respond op state).2

/-- The calls a computation makes before it is stopped after some number of them. -/
def callsMade : Nat → Async Ans ε α → σ → List Op := recorded respond fun op _ => [op]

/-- The outcome of a computation, once it has one. -/
def outcome? : Async Ans ε α → Option (Except ε α)
  | .done outcome => some outcome
  | .call _ _ => none

theorem eq_done_of_outcome? {task : Async Ans ε α} {outcome : Except ε α}
    (finished : task.outcome? = some outcome) : task = .done outcome := by
  cases task with
  | done other => exact congrArg done (Option.some.inj finished)
  | call op next => cases finished

/-- Stopping a computation is a partial execution against every environment that
may answer its calls so. -/
theorem reaches_recorded {env : Environment Ans ε σ Λ} {record : Op → σ → List Λ}
    (answers : ∀ op state,
      env op state (respond op state).1 (record op state) (respond op state).2)
    (count : Nat) (task : Async Ans ε α) (state : σ) :
    Reaches env task state (recorded respond record count task state)
      (stopped respond count task state).1 (stopped respond count task state).2 := by
  induction count generalizing task state with
  | zero => exact .refl task state
  | succ count ih =>
      cases task with
      | done outcome => exact .refl _ state
      | call op next => exact .step (answers op state) (ih _ _)

/-- Stopping a computation is a partial execution in which every call made was
performed and answered. -/
theorem reaches_stopped {performs : (op : Op) → σ → Except ε (Ans op) → σ → Prop}
    (answers : ∀ op state, performs op state (respond op state).1 (respond op state).2)
    (count : Nat) (task : Async Ans ε α) (state : σ) :
    Reaches (Reliable performs) task state (callsMade respond count task state)
      (stopped respond count task state).1 (stopped respond count task state).2 :=
  reaches_recorded respond (fun op state => ⟨answers op state, rfl⟩) count task state

/-! ## Returning

Against a responder a computation has one outcome. The condition under which it returns is
found along it, call by call. -/

/-- The outcome of a computation and the state it leaves. -/
def evaluate : Async Ans ε α → σ → Except ε α × σ
  | .done outcome, state => (outcome, state)
  | .call op next, state => evaluate (next (respond op state).1) (respond op state).2

/-- The computation returns, with a value and a state as required. -/
def Returns (task : Async Ans ε α) (state : σ) (post : α → σ → Prop) : Prop :=
  ∃ value final, evaluate respond task state = (.ok value, final) ∧ post value final

/-- A sequence ends as its first part does when that throws, and as its second part otherwise. -/
theorem evaluate_bind (task : Async Ans ε β) (rest : β → Async Ans ε α) (state : σ) :
    evaluate respond (task >>= rest) state =
      match evaluate respond task state with
      | (.ok value, final) => evaluate respond (rest value) final
      | (.error thrown, final) => (.error thrown, final) := by
  induction task generalizing state with
  | done outcome => cases outcome <;> rfl
  | call op next ih => exact ih _ _

/-- What the allowed calls preserve, a computation that makes no other preserves. -/
theorem evaluate_preserves {allowed : Op → Prop} {holds : σ → Prop} {task : Async Ans ε α}
    {state : σ} (only : CallsOnly allowed task)
    (kept : ∀ op before, allowed op → holds before → holds (respond op before).2)
    (initially : holds state) : holds (evaluate respond task state).2 := by
  induction task generalizing state with
  | done outcome => exact initially
  | call op next ih => exact ih _ (only.2 _) (kept op state only.1 initially)

section Returns

variable {respond} {state : σ} {post : α → σ → Prop}

@[simp] theorem returns_pure (value : α) :
    Returns respond (.done (.ok value) : Async Ans ε α) state post ↔ post value state := by
  simp [Returns, evaluate]

@[simp] theorem returns_throw (thrown : ε) :
    ¬ Returns respond (.done (.error thrown) : Async Ans ε α) state post := by
  simp [Returns, evaluate]

@[simp] theorem returns_call (op : Op) (next : Except ε (Ans op) → Async Ans ε α) :
    Returns respond (.call op next) state post ↔
      Returns respond (next (respond op state).1) (respond op state).2 post := Iff.rfl

/-- A sequence returns when its first part does and then its second. -/
theorem returns_bind (task : Async Ans ε β) (rest : β → Async Ans ε α) :
    Returns respond (task >>= rest) state post ↔
      Returns respond task state fun value final => Returns respond (rest value) final post := by
  induction task generalizing state with
  | done outcome => cases outcome <;> simp
  | call op next ih => exact ih _

/-- What is required can be weakened. -/
theorem Returns.mono {weaker : α → σ → Prop} {task : Async Ans ε α}
    (returns : Returns respond task state post)
    (implies : ∀ value final, post value final → weaker value final) :
    Returns respond task state weaker := by
  obtain ⟨value, final, ends, required⟩ := returns
  exact ⟨value, final, ends, implies value final required⟩

/-- A computation that returns does so with what is required of its value and of the state. -/
theorem returns_iff (task : Async Ans ε α) :
    Returns respond task state post ↔ Returns respond task state (fun _ _ => True) ∧
      ∀ value final, evaluate respond task state = (.ok value, final) → post value final := by
  constructor
  · rintro ⟨value, final, ends, required⟩
    refine ⟨⟨value, final, ends, trivial⟩, fun other last again => ?_⟩
    rw [ends] at again
    obtain ⟨same, rfl⟩ := Prod.mk.inj again
    obtain rfl := Except.ok.inj same
    exact required
  · rintro ⟨⟨value, final, ends, -⟩, required⟩
    exact ⟨value, final, ends, required value final ends⟩

/-- A computation without a value returns to one state. -/
theorem returns_unit_iff (task : Async Ans ε Unit) {post : Unit → σ → Prop} :
    Returns respond task state post ↔ Returns respond task state (fun _ _ => True) ∧
      post () (evaluate respond task state).2 := by
  constructor
  · rintro ⟨value, final, ends, required⟩
    rw [ends]
    exact ⟨⟨value, final, ends, trivial⟩, required⟩
  · rintro ⟨⟨value, final, ends, -⟩, required⟩
    rw [ends] at required
    exact ⟨value, final, ends, required⟩

/-- A computation that is caught returns when it does, or throws what its handler returns from. -/
theorem returns_tryCatch (task : Async Ans ε α) (handler : ε → Async Ans ε α) :
    Returns respond (tryCatch task handler) state post ↔
      match evaluate respond task state with
      | (.ok value, final) => post value final
      | (.error thrown, final) => Returns respond (handler thrown) final post := by
  induction task generalizing state with
  | done outcome =>
      cases outcome with
      | ok value => exact returns_pure value
      | error thrown => exact Iff.rfl
  | call op next ih => exact ih _

/-- A loop returns when each of its rounds can, where no round decides about another. -/
theorem returns_forEach {items : List β} {body : β → Async Ans ε Unit} {post : Unit → σ → Prop}
    {rest : Prop} {holds : σ → Prop} {fits : β → σ → Prop} {step : β → σ → σ}
    (rounds : ∀ item ∈ items, ∀ before post, holds before →
      (Returns respond (body item) before post ↔ fits item before ∧ post () (step item before)))
    (keeps : ∀ item ∈ items, ∀ before, holds before → fits item before → holds (step item before))
    (apart : items.Pairwise fun item other => ∀ before, holds before → fits item before →
      (fits other (step item before) ↔ fits other before))
    (initially : holds state) (ends : ∀ final, holds final → (post () final ↔ rest)) :
    Returns respond (forEach items body) state post ↔ (∀ item ∈ items, fits item state) ∧ rest := by
  induction items generalizing state with
  | nil => simp [forEach, ends state initially]
  | cons item others ih =>
      obtain ⟨first, apart⟩ := List.pairwise_cons.mp apart
      have later (held : holds (step item state)) :=
        ih (fun other member => rounds other (List.mem_cons_of_mem _ member))
          (fun other member => keeps other (List.mem_cons_of_mem _ member)) apart held
      rw [forEach, returns_bind, rounds item List.mem_cons_self _ _ initially]
      constructor
      · rintro ⟨fitting, returns⟩
        have held := keeps item List.mem_cons_self _ initially fitting
        obtain ⟨all, ended⟩ := (later held).mp returns
        refine ⟨fun other member => ?_, ended⟩
        rcases List.mem_cons.mp member with rfl | member
        · exact fitting
        · exact (first other member state initially fitting).mp (all other member)
      · rintro ⟨all, ended⟩
        have fitting := all item List.mem_cons_self
        have held := keeps item List.mem_cons_self _ initially fitting
        refine ⟨fitting, (later held).mpr ⟨fun other member => ?_, ended⟩⟩
        exact (first other member state initially fitting).mpr
          (all other (List.mem_cons_of_mem _ member))

end Returns

end Async
