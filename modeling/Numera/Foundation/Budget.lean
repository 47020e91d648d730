import Mathlib.Algebra.Ring.Nat
import Numera.Foundation.Interleaving

/-! # Budgets of calls

How many calls of a kind a computation makes at most, however they are answered (`AtMost`). The
budget of a sequence is that of its parts. A request whose budget is known spends no more of
it in any run in which requests are interleaved (`System.spent_within`), and a number that only
the counted calls raise is raised by no more than that (`System.raised_within`).
-/

namespace Async

variable {Op : Type} {Ans : Op → Type} {ε α β ρ σ Λ : Type}

/-- However its calls are answered, the computation makes at most so many of those that are
counted. -/
def AtMost (counted : Op → Bool) : Async Ans ε α → Nat → Prop
  | .done _, _ => True
  | .call op next, most =>
      ∃ left, left + (counted op).toNat ≤ most ∧ ∀ answer, AtMost counted (next answer) left

namespace AtMost

variable {counted : Op → Bool} {task : Async Ans ε α} {most wider : Nat}

theorem mono (atMost : AtMost counted task most) (within : most ≤ wider) :
    AtMost counted task wider := by
  cases task with
  | done outcome => trivial
  | call op next =>
      obtain ⟨left, fits, rest⟩ := atMost
      exact ⟨left, Nat.le_trans fits within, rest⟩

/-- A computation whose calls are not counted. -/
theorem of_callsOnly {allowed : Op → Prop} (only : CallsOnly allowed task)
    (free : ∀ op, allowed op → counted op = false) : AtMost counted task 0 := by
  induction task with
  | done outcome => trivial
  | call op next ih =>
      exact ⟨0, by simp [free op only.1], fun answer => ih answer (only.2 answer)⟩

theorem perform (op : Op) : AtMost counted (Async.perform op : Async Ans ε (Ans op)) 1 :=
  ⟨0, by simpa using Bool.toNat_le _, fun _ => trivial⟩

/-- The budget of a sequence. -/
theorem bind {first : Async Ans ε β} {rest : β → Async Ans ε α} {more : Nat}
    (atMost : AtMost counted first most) (after : ∀ value, AtMost counted (rest value) more) :
    AtMost counted (first >>= rest) (most + more) := by
  induction first generalizing most with
  | done outcome =>
      cases outcome with
      | ok value => exact (after value).mono (Nat.le_add_left _ _)
      | error thrown => trivial
  | call op next ih =>
      obtain ⟨left, fits, onward⟩ := atMost
      exact ⟨left + more, by omega, fun answer => ih answer (onward answer)⟩

/-- What follows a part that is not counted. -/
theorem after {first : Async Ans ε β} {rest : β → Async Ans ε α} {allowed : Op → Prop}
    (only : CallsOnly allowed first) (free : ∀ op, allowed op → counted op = false)
    (follows : ∀ value, AtMost counted (rest value) most) :
    AtMost counted (first >>= rest) most :=
  ((of_callsOnly only free).bind follows).mono (Nat.le_of_eq (Nat.zero_add most))

/-- What is done after the counted calls. -/
theorem before {first : Async Ans ε β} {rest : β → Async Ans ε α} {allowed : Op → Prop}
    (atMost : AtMost counted first most) (only : ∀ value, CallsOnly allowed (rest value))
    (free : ∀ op, allowed op → counted op = false) : AtMost counted (first >>= rest) most :=
  atMost.bind fun value => of_callsOnly (only value) free

/-- A handler that makes no counted call. -/
theorem tryCatch {handler : ε → Async Ans ε α} {allowed : Op → Prop}
    (atMost : AtMost counted task most) (only : ∀ thrown, CallsOnly allowed (handler thrown))
    (free : ∀ op, allowed op → counted op = false) :
    AtMost counted (tryCatch task handler) most := by
  induction task generalizing most with
  | done outcome =>
      cases outcome with
      | ok value => trivial
      | error thrown => exact (of_callsOnly (only thrown) free).mono (Nat.zero_le most)
  | call op next ih =>
      obtain ⟨left, fits, onward⟩ := atMost
      exact ⟨left, fits, fun answer => ih answer (onward answer)⟩

/-- The counted calls that a computation has made, and those it may still make. -/
theorem follows {spent bound : Nat} (atMost : AtMost counted task most)
    (fits : spent + most ≤ bound) :
    Follows (fun (spent : Nat) (_ : σ) op _ => spent + (counted op).toNat)
      (fun spent op => spent + (counted op).toNat ≤ bound) (fun spent _ => spent ≤ bound) spent
      task := by
  induction task generalizing spent most with
  | done outcome => exact Nat.le_trans (Nat.le_add_right _ _) fits
  | call op next ih =>
      obtain ⟨left, within, onward⟩ := atMost
      refine ⟨by omega, fun world answer => ih answer (onward answer) ?_⟩
      dsimp only
      omega

end AtMost

/-! ## Runs -/

/-- Replacing one item of a list changes a sum by what it changes of that item. -/
theorem sum_map_set {α : Type} (amount : α → Nat) {items : List α} {position : Nat} {old : α}
    (new : α) (found : items[position]? = some old) :
    ((items.set position new).map amount).sum + amount old =
      (items.map amount).sum + amount new := by
  induction items generalizing position with
  | nil => simp at found
  | cons item rest ih =>
      cases position with
      | zero =>
          obtain rfl : item = old := by simpa using found
          simp only [List.set_cons_zero, List.map_cons, List.sum_cons]
          omega
      | succ position =>
          have later := ih (show rest[position]? = some old by simpa using found)
          simp only [List.set_cons_succ, List.map_cons, List.sum_cons]
          omega

namespace System

variable {system : System Ans ε α ρ Nat σ Λ}
  {meets : Condition Ans ε α ρ Nat σ} {records : List Λ} {world : σ}
  {threads : List (Thread Ans ε α ρ Nat)} {counted : Op → Bool} {bound : ρ → Nat}

/-- **No request makes more of the counted calls than its budget has**, whatever runs beside it
and whatever fails. -/
theorem spent_within (run : system.Run meets records world threads)
    (arrival : ∀ request, system.arrival request = 0)
    (next : ∀ request, system.next request = fun spent _ op _ => spent + (counted op).toNat)
    (starts : ∀ request, AtMost counted (system.start request) (bound request)) :
    ∀ thread ∈ threads, thread.stage ≤ bound thread.request := by
  have follows := run.follows (fun request => by
    rw [next request, arrival request]
    exact (starts request).follows (Nat.le_of_eq (Nat.zero_add _)))
  intro thread member
  have keeps := follows thread member
  cases ends : thread.task with
  | done outcome =>
      rw [ends] at keeps
      exact keeps
  | call op continued =>
      rw [ends] at keeps
      exact Nat.le_trans (Nat.le_add_right _ _) keeps.1

/-- What raises a number raises it by no more than the requests have made of the counted calls. -/
theorem raised_within (run : system.Run meets records world threads) (number : σ → Nat)
    (arrival : ∀ request, system.arrival request = 0)
    (next : ∀ request, system.next request = fun spent _ op _ => spent + (counted op).toNat)
    (passes : ∀ world later, system.drift world later → number later = number world)
    (raises : ∀ op world answer record later, system.env op world answer record later →
      number later ≤ number world + (counted op).toNat) :
    number world ≤ number system.initial + (threads.map Thread.stage).sum := by
  refine run.together (fun world threads =>
    number world ≤ number system.initial + (threads.map Thread.stage).sum)
    (Nat.le_add_right _ _) ?_ ?_ ?_
  · intro world later threads passed within
    rw [passes world later passed]
    exact within
  · intro world threads request within
    rw [List.map_append, List.sum_append, List.map_singleton, List.sum_singleton]
    change _ ≤ _ + (_ + system.arrival request)
    rw [arrival request]
    exact within
  · intro world threads position request spent op continued answer record later turn within
    have raised := raises op world answer record later turn.answered
    have moved := sum_map_set Thread.stage
      ⟨request, system.next request spent world op answer, continued answer⟩ turn.found
    rw [next request] at moved ⊢
    dsimp only at moved ⊢
    omega

end System

end Async
