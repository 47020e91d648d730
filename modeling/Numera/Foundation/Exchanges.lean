import Numera.Foundation.Interleaving

/-! # Requests that keep a journal

The stage of a request may simply be the list of its own calls, each with the moment at
which it was made and with its answer. Of such a system it is enough to say what may be
called after which calls: whatever stands in a journal was then allowed after what stands
before it (`Journals.allowed`), was so when it was noted (`Journals.each`), and stands in
the order of time (`Journals.ordered`).
-/

namespace Async

/-- A call of a request, when it was made, and its answer. -/
structure Exchange {Op : Type} (Ans : Op → Type) (ε : Type) where
  moment : Nat
  op : Op
  answer : Except ε (Ans op)

variable {Op : Type} {Ans : Op → Type} {ε α ρ σ Λ : Type}

/-- A journal after one more call. -/
def noted (moment : σ → Nat) (stage : List (Exchange Ans ε)) (world : σ) (op : Op)
    (answer : Except ε (Ans op)) : List (Exchange Ans ε) :=
  stage ++ [⟨moment world, op, answer⟩]

/-- The stages of a system are the journals of its requests, in a world whose moments are
counted. -/
structure Journals (system : System Ans ε α ρ (List (Exchange Ans ε)) σ Λ) (moment : σ → Nat) :
    Prop where
  arrival : ∀ request, system.arrival request = []
  next : ∀ request, system.next request = noted moment
  passes : ∀ world later, system.drift world later → moment world ≤ moment later
  ticks : ∀ op world answer record later, system.env op world answer record later →
    moment world < moment later

namespace Journals

variable {system : System Ans ε α ρ (List (Exchange Ans ε)) σ Λ} {moment : σ → Nat}
  {meets : System.Condition Ans ε α ρ (List (Exchange Ans ε)) σ} {records : List Λ} {world : σ}
  {threads : List (Thread Ans ε α ρ (List (Exchange Ans ε)))}

/-- An entry of a journal that has grown by one is an old one, or the new one. -/
theorem entry_of_grown {β : Type} {stage before after : List β} {entry last : β}
    (same : stage ++ [last] = before ++ entry :: after) :
    (∃ rest, stage = before ++ entry :: rest ∧ after = rest ++ [last]) ∨
      (before = stage ∧ entry = last ∧ after = []) := by
  rcases List.eq_nil_or_concat after with rfl | ⟨rest, end_, rfl⟩
  · obtain ⟨rfl, single⟩ := List.append_inj' same rfl
    exact .inr ⟨rfl, (List.cons.inj single).1.symm, rfl⟩
  · rw [List.concat_eq_append, ← List.cons_append, ← List.append_assoc] at same
    obtain ⟨rfl, single⟩ := List.append_inj' same rfl
    obtain rfl := (List.cons.inj single).1
    exact .inl ⟨rest, rfl, List.concat_eq_append⟩

/-- What every call is when it is made, every entry of a journal is after those before it. -/
theorem each (journals : Journals system moment) (run : system.Run meets records world threads)
    (holds : ρ → List (Exchange Ans ε) → Exchange Ans ε → Prop)
    (calls : ∀ world threads position request stage op continued answer record later,
      system.Turn meets world threads position request stage op continued answer record later →
        holds request stage ⟨moment world, op, answer⟩) :
    ∀ thread ∈ threads, ∀ before entry after, thread.stage = before ++ entry :: after →
      holds thread.request before entry := by
  refine run.each (fun _ thread => ∀ before entry after, thread.stage = before ++ entry :: after →
    holds thread.request before entry) ?_ (fun _ _ _ _ held => held) ?_
    (fun _ _ _ _ _ _ _ _ _ _ _ _ _ held => held)
  · intro world request before entry after same
    rw [System.arrived, journals.arrival] at same
    exact absurd same (by simp)
  · intro world threads position request stage op continued answer record later turn held before
      entry after same
    dsimp only at same held ⊢
    rw [journals.next, noted] at same
    rcases entry_of_grown same with ⟨rest, own, -⟩ | ⟨rfl, rfl, -⟩
    · exact held before entry rest own
    · exact calls _ _ _ _ _ _ _ _ _ _ turn

/-- **Whatever stands in a journal was allowed after what stands before it.** -/
theorem allowed {permits : ρ → List (Exchange Ans ε) → Op → Prop}
    {finish : ρ → List (Exchange Ans ε) → Except ε α → Prop} (journals : Journals system moment)
    (run : system.Run meets records world threads)
    (starts : ∀ request, Follows (system.next request) (permits request) (finish request)
      (system.arrival request) (system.start request)) :
    ∀ thread ∈ threads, ∀ before entry after, thread.stage = before ++ entry :: after →
      permits thread.request before entry.op := by
  refine journals.each run (fun request before entry => permits request before entry.op) ?_
  intro world threads position request stage op continued answer record later turn
  obtain ⟨_, earlier⟩ := turn.before
  exact (earlier.follows starts _ (List.mem_of_getElem? turn.found)).1

/-- An entry stays in the journal of its request. -/
theorem stays (journals : Journals system moment) {position : Nat} {request : ρ}
    {stage : List (Exchange Ans ε)} {op : Op} {continued : Except ε (Ans op) → Async Ans ε α}
    {answer : Except ε (Ans op)} {record : List Λ} {later : σ}
    (turn : system.Turn meets world threads position request stage op continued answer record later)
    {thread : Thread Ans ε α ρ (List (Exchange Ans ε))} (member : thread ∈ threads) :
    ∃ grown ∈ threads.set position
        ⟨request, system.next request stage world op answer, continued answer⟩,
      grown.request = thread.request ∧ ∃ more, grown.stage = thread.stage ++ more := by
  obtain ⟨bound, same⟩ := List.getElem?_eq_some_iff.mp turn.found
  obtain ⟨other, bound', rfl⟩ := List.getElem_of_mem member
  by_cases here : other = position
  · subst here
    refine ⟨_, List.mem_set bound _, ?_⟩
    rw [same, journals.next]
    exact ⟨rfl, _, rfl⟩
  · refine ⟨threads[other], ?_, rfl, [], (List.append_nil _).symm⟩
    exact List.mem_of_getElem? (by rw [List.getElem?_set_ne (Ne.symm here),
      List.getElem?_eq_getElem bound'])

/-- Every call of a journal lies in the past. -/
theorem past (journals : Journals system moment) (run : system.Run meets records world threads) :
    ∀ thread ∈ threads, ∀ entry ∈ thread.stage, entry.moment < moment world := by
  refine run.each (fun world thread => ∀ entry ∈ thread.stage, entry.moment < moment world)
    ?_ ?_ ?_ ?_
  · intro world request entry member
    rw [System.arrived, journals.arrival] at member
    cases member
  · intro world later thread passed held entry member
    exact Nat.lt_of_lt_of_le (held entry member) (journals.passes world later passed)
  · intro world threads position request stage op continued answer record later turn held entry
      member
    have ticked := journals.ticks _ _ _ _ _ turn.answered
    dsimp only at member
    rw [journals.next, noted] at member
    rcases List.mem_append.mp member with old | new
    · exact Nat.lt_trans (held entry old) ticked
    · obtain rfl := List.mem_singleton.mp new
      exact ticked
  · intro world threads position request stage op continued answer record later thread turn _ held
      entry member
    exact Nat.lt_trans (held entry member) (journals.ticks _ _ _ _ _ turn.answered)

/-- A journal stands in the order of time. -/
theorem ordered (journals : Journals system moment) (run : system.Run meets records world threads) :
    ∀ thread ∈ threads, thread.stage.Pairwise fun first second => first.moment < second.moment := by
  refine run.each (fun _ thread => thread.stage.Pairwise
    fun first second => first.moment < second.moment) ?_ (fun _ _ _ _ held => held) ?_
    (fun _ _ _ _ _ _ _ _ _ _ _ _ _ held => held)
  · intro world request
    rw [System.arrived, journals.arrival]
    exact .nil
  · intro world threads position request stage op continued answer record later turn held
    obtain ⟨_, earlier⟩ := turn.before
    dsimp only
    rw [journals.next, noted]
    refine List.pairwise_append.mpr ⟨held, List.pairwise_singleton _ _, ?_⟩
    intro entry member last new
    obtain rfl := List.mem_singleton.mp new
    exact journals.past earlier _ (List.mem_of_getElem? turn.found) entry member

end Journals

end Async
