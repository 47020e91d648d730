import Numera.Foundation.Async

/-! # Computations that write a journal

A computation changes the state it runs against one call at a time. Seen through
a `view` of the state its whole effect is often a list of abstract writes, its
journal, that is known before it starts: each call performs the next few writes
of it or none. A computation that keeps its journal (`Journal.Keeps`) has, at
whatever call it is stopped, performed a prefix of it, and once it has returned
the whole of it (`Journal.Keeps.reaches`).

Some recorded calls are quiet, and a quiet call performs only writes that are
still in the view they are applied to. What a stopped computation performed is
then still as long as all it called was quiet.
-/

/-- A view of a state, the abstract writes that change it, and the calls and
writes that count as changing nothing of importance. -/
structure Journal (σ Λ ν ω : Type) where
  view : σ → ν
  apply : ω → ν → ν
  quiet : Λ → Prop
  still : ω → ν → Prop

namespace Journal

open Async (Environment Reaches)

variable {Op : Type} {Ans : Op → Type} {ε α β ι σ Λ ν ω : Type}
variable (journal : Journal σ Λ ν ω)

/-- Apply a list of writes in order. -/
def replay (writes : List ω) (seen : ν) : ν :=
  writes.foldl (fun seen write => journal.apply write seen) seen

@[simp] theorem replay_nil (seen : ν) : journal.replay [] seen = seen := rfl

@[simp] theorem replay_cons (write : ω) (writes : List ω) (seen : ν) :
    journal.replay (write :: writes) seen = journal.replay writes (journal.apply write seen) := rfl

@[simp] theorem replay_append (first second : List ω) (seen : ν) :
    journal.replay (first ++ second) seen = journal.replay second (journal.replay first seen) :=
  List.foldl_append

/-- What every write of a list leaves in place is left in place by the list. -/
theorem replay_holds {holds : ν → Prop} {writes : List ω} {seen : ν}
    (step : ∀ write ∈ writes, ∀ seen, holds seen → holds (journal.apply write seen))
    (start : holds seen) : holds (journal.replay writes seen) := by
  induction writes generalizing seen with
  | nil => exact start
  | cons write rest ih =>
      refine ih (fun other member => step other (List.mem_cons_of_mem _ member)) ?_
      exact step write List.mem_cons_self seen start

/-! ## Items

A list of items, each with its own writes, which may depend on what is seen just
before it. -/

/-- The view after the writes of each item in turn. -/
def after (writesOf : ν → ι → List ω) : List ι → ν → ν
  | [], seen => seen
  | item :: rest, seen => after writesOf rest (journal.replay (writesOf seen item) seen)

/-- The writes of a list of items. -/
def written (writesOf : ν → ι → List ω) : List ι → ν → List ω
  | [], _ => []
  | item :: rest, seen =>
      writesOf seen item ++ written writesOf rest (journal.replay (writesOf seen item) seen)

theorem replay_written (writesOf : ν → ι → List ω) (items : List ι) (seen : ν) :
    journal.replay (journal.written writesOf items seen) seen =
      journal.after writesOf items seen := by
  induction items generalizing seen with
  | nil => rfl
  | cons item rest ih =>
      rw [written, replay_append, ih]
      rfl

/-- A write of a list of items is a write of one of them. -/
theorem mem_written {writesOf : ν → ι → List ω} {items : List ι} {seen : ν} {write : ω}
    (member : write ∈ journal.written writesOf items seen) :
    ∃ item ∈ items, ∃ before, write ∈ writesOf before item := by
  induction items generalizing seen with
  | nil => exact absurd member List.not_mem_nil
  | cons item rest ih =>
      rcases List.mem_append.mp member with first | later
      · exact ⟨item, List.mem_cons_self, seen, first⟩
      · obtain ⟨other, listed, before, wrote⟩ := ih later
        exact ⟨other, List.mem_cons_of_mem _ listed, before, wrote⟩

theorem after_append (writesOf : ν → ι → List ω) (first second : List ι) (seen : ν) :
    journal.after writesOf (first ++ second) seen =
      journal.after writesOf second (journal.after writesOf first seen) := by
  induction first generalizing seen with
  | nil => rfl
  | cons item rest ih => exact ih _

/-- Every write of the list is still where it is applied. -/
def Still : List ω → ν → Prop
  | [], _ => True
  | write :: writes, seen => journal.still write seen ∧ Still writes (journal.apply write seen)

theorem Still.append {journal : Journal σ Λ ν ω} {first second : List ω} {seen : ν}
    (before : journal.Still first seen)
    (after : journal.Still second (journal.replay first seen)) :
    journal.Still (first ++ second) seen := by
  induction first generalizing seen with
  | nil => exact after
  | cons write writes ih => exact ⟨before.1, ih before.2 after⟩

/-- The computation performs exactly these writes, in this order, and returns
with the postcondition; or it throws after performing some of them. -/
def Keeps (env : Environment Ans ε σ Λ) :
    Async Ans ε α → (α → ν → Prop) → σ → List ω → Prop
  | .done (.ok value), post, state, writes => writes = [] ∧ post value (journal.view state)
  | .done (.error _), _, _, _ => True
  | .call op next, post, state, writes =>
      ∀ answer record final, env op state answer record final →
        ∃ block rest, writes = block ++ rest ∧
          journal.view final = journal.replay block (journal.view state) ∧
          ((∀ entry ∈ record, journal.quiet entry) → journal.Still block (journal.view state)) ∧
          Keeps env (next answer) post final rest

variable {journal} {env : Environment Ans ε σ Λ} {task : Async Ans ε α} {state final : σ}
  {writes : List ω} {post : α → ν → Prop}

namespace Keeps

theorem pure {value : α} (holds : post value (journal.view state)) :
    journal.Keeps env (pure value : Async Ans ε α) post state [] := ⟨rfl, holds⟩

theorem throw (thrown : ε) : journal.Keeps env (throw thrown : Async Ans ε α) post state writes :=
  trivial

/-- **Sequencing.** The journal of a sequence is the journal of its first part
followed by that of its second, which may depend on what the first returned. -/
theorem bind {middle : α → ν → Prop} {rest : α → Async Ans ε β} {later : List ω}
    {post : β → ν → Prop} (first : journal.Keeps env task middle state writes)
    (second : ∀ value after, middle value (journal.view after) →
      journal.view after = journal.replay writes (journal.view state) →
      journal.Keeps env (rest value) post after later) :
    journal.Keeps env (task >>= rest) post state (writes ++ later) := by
  induction task generalizing state writes with
  | done outcome =>
      cases outcome with
      | ok value =>
          obtain ⟨rfl, holds⟩ := first
          exact second value state holds rfl
      | error thrown => trivial
  | call op next ih =>
      intro answer record after answered
      obtain ⟨block, remaining, rfl, moved, quiet, kept⟩ := first answer record after answered
      refine ⟨block, remaining ++ later, by rw [List.append_assoc], moved, quiet, ?_⟩
      refine ih answer kept fun value last holds reached => second value last holds ?_
      rw [reached, moved, replay_append]

/-- Sequencing after a computation that writes nothing. -/
theorem bind_silent {middle : α → ν → Prop} {rest : α → Async Ans ε β} {post : β → ν → Prop}
    (first : journal.Keeps env task middle state [])
    (second : ∀ value after, middle value (journal.view after) →
      journal.view after = journal.view state → journal.Keeps env (rest value) post after writes) :
    journal.Keeps env (task >>= rest) post state writes :=
  bind first second

/-- Sequencing after a computation that performs one write. -/
theorem bind_write {write : ω} {middle : α → ν → Prop} {rest : α → Async Ans ε β}
    {post : β → ν → Prop} (first : journal.Keeps env task middle state [write])
    (second : ∀ value after, middle value (journal.view after) →
      journal.view after = journal.apply write (journal.view state) →
      journal.Keeps env (rest value) post after writes) :
    journal.Keeps env (task >>= rest) post state (write :: writes) :=
  bind first second

/-- One call: every answer the environment may give comes with the call's whole
block of writes performed, or with a rejection and none of them. -/
theorem perform {op : Op} {post : Ans op → ν → Prop}
    (outcomes : ∀ answer record after, env op state answer record after →
      (∃ thrown, answer = .error thrown ∧ journal.view after = journal.view state) ∨
      (journal.view after = journal.replay writes (journal.view state) ∧
        ((∀ entry ∈ record, journal.quiet entry) → journal.Still writes (journal.view state)) ∧
        ∀ value, answer = .ok value → post value (journal.view after))) :
    journal.Keeps env (Async.perform op) post state writes := by
  intro answer record after answered
  rcases outcomes answer record after answered with ⟨thrown, rfl, same⟩ | ⟨moved, quiet, returns⟩
  · exact ⟨[], writes, rfl, same, fun _ => trivial, trivial⟩
  · refine ⟨writes, [], by rw [List.append_nil], moved, quiet, ?_⟩
    cases answer with
    | ok value => exact ⟨rfl, returns value rfl⟩
    | error thrown => trivial

/-- A computation whose calls never write anything writes nothing. -/
theorem silent {allowed : Op → Prop}
    (writesNothing : ∀ op before answer record after, allowed op →
      env op before answer record after → journal.view after = journal.view before)
    (only : task.CallsOnly allowed) : journal.Keeps env task (fun _ _ => True) state [] := by
  induction task generalizing state with
  | done outcome =>
      cases outcome with
      | ok value => exact ⟨rfl, trivial⟩
      | error thrown => trivial
  | call op next ih =>
      intro answer record after answered
      refine ⟨[], [], rfl, ?_, fun _ => trivial, ih answer (only.2 answer)⟩
      exact writesNothing op state answer record after only.1 answered

/-- A loop whose rounds write known journals writes their concatenation. -/
theorem forEach {items : List β} {body : β → Async Ans ε Unit} {round : β → List ω}
    (rounds : ∀ item ∈ items, ∀ before,
      journal.Keeps env (body item) (fun _ _ => True) before (round item)) :
    journal.Keeps env (Async.forEach items body) (fun _ _ => True) state
      (items.flatMap round) := by
  induction items generalizing state with
  | nil => exact .pure trivial
  | cons item rest ih =>
      rw [List.flatMap_cons]
      refine bind (rounds item List.mem_cons_self state) fun _ after _ _ => ?_
      exact ih fun other member => rounds other (List.mem_cons_of_mem _ member)

/-- **Where a computation stands.** Wherever a computation is stopped it has
performed a prefix of its journal, and what remains of it keeps the rest. -/
theorem reaches {records : List Λ} {remaining : Async Ans ε α}
    (keeps : journal.Keeps env task post state writes)
    (path : Reaches env task state records remaining final) :
    ∃ performed rest, writes = performed ++ rest ∧
      journal.view final = journal.replay performed (journal.view state) ∧
      ((∀ entry ∈ records, journal.quiet entry) →
        journal.Still performed (journal.view state)) ∧
      journal.Keeps env remaining post final rest := by
  induction path generalizing writes with
  | refl => exact ⟨[], writes, rfl, rfl, fun _ => trivial, keeps⟩
  | step answered _ ih =>
      obtain ⟨block, later, rfl, moved, quietBlock, kept⟩ := keeps _ _ _ answered
      obtain ⟨performed, rest, rfl, arrived, quietRest, remains⟩ := ih kept
      refine ⟨block ++ performed, rest, by rw [List.append_assoc], ?_, fun quiet => ?_, remains⟩
      · rw [arrived, moved, replay_append]
      · refine .append (quietBlock fun entry member => quiet entry ?_) ?_
        · exact List.mem_append_left _ member
        · rw [← moved]
          exact quietRest fun entry member => quiet entry (List.mem_append_right _ member)

/-- Wherever a computation is stopped, what each write of its journal leaves in place is
in place. -/
theorem reaches_holds {holds : ν → Prop} {records : List Λ} {remaining : Async Ans ε α}
    (keeps : journal.Keeps env task post state writes)
    (path : Reaches env task state records remaining final)
    (step : ∀ write ∈ writes, ∀ seen, holds seen → holds (journal.apply write seen))
    (start : holds (journal.view state)) : holds (journal.view final) := by
  obtain ⟨performed, rest, rfl, arrived, -, -⟩ := keeps.reaches path
  rw [arrived]
  exact journal.replay_holds (fun write member => step write (List.mem_append_left _ member)) start

/-- A computation that returned has performed its whole journal. -/
theorem returns {records : List Λ} {value : α} (keeps : journal.Keeps env task post state writes)
    (path : Reaches env task state records (.done (.ok value)) final) :
    journal.view final = journal.replay writes (journal.view state) ∧
      post value (journal.view final) := by
  obtain ⟨performed, rest, rfl, arrived, -, rfl, holds⟩ := keeps.reaches path
  exact ⟨by rw [arrived, List.append_nil], holds⟩

end Keeps

end Journal
