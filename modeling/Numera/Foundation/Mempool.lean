import Mathlib.Tactic.Common

/-! # Transactions in nonce order

One sender broadcasts transactions, which are mined in the order they were broadcast, each
succeeding or not. Some of them write a register when they succeed, and each admits some
values of the register only. A transaction that is broadcast while the register is settled
meets the value it was settled at whatever becomes of the transactions before it.
-/

variable {τ V : Type}

/-- The register, the transactions that are pending, oldest first, with their hashes, and the
hashes of those that were mined, with whether they succeeded. -/
structure Mempool (τ V : Type) where
  current : V
  pending : List (Nat × τ)
  mined : List (Nat × Bool)

namespace Mempool

variable (writes : τ → Option V) (admits : τ → V → Prop) (pool : Mempool τ V)

/-- How many transactions have been broadcast: the hash of the next one. -/
def nonce : Nat := pool.pending.length + pool.mined.length

def broadcast (tx : τ) : Mempool τ V :=
  { pool with pending := pool.pending ++ [(pool.nonce, tx)] }

/-- The register after a transaction. -/
def after (current : V) (tx : τ) (succeeded : Bool) : V :=
  if succeeded then (writes tx).getD current else current

/-- The oldest pending transaction is mined. -/
def mine (hash : Nat) (tx : τ) (rest : List (Nat × τ)) (succeeded : Bool) : Mempool τ V where
  current := after writes pool.current tx succeeded
  pending := rest
  mined := pool.mined ++ [(hash, succeeded)]

/-- The hashes have been given out. -/
def Bounded : Prop :=
  (∀ entry ∈ pool.pending, entry.1 < pool.nonce) ∧ ∀ entry ∈ pool.mined, entry.1 < pool.nonce

/-- The register has a value, and no pending transaction writes another. -/
def Settled (value : V) : Prop :=
  pool.current = value ∧
    ∀ entry ∈ pool.pending, ∀ written, writes entry.2 = some written → written = value

/-- A transaction that writes a value is the last one that writes: it is pending, or the
register has the value if it succeeded. -/
def Awaited (hash : Nat) (value : V) : Prop :=
  hash < pool.nonce ∧
    ((∃ earlier tx later, pool.pending = earlier ++ (hash, tx) :: later ∧
        writes tx = some value ∧ (∀ entry ∈ later, writes entry.2 = none) ∧
        (∀ entry ∈ earlier ++ later, entry.1 ≠ hash) ∧ ∀ entry ∈ pool.mined, entry.1 ≠ hash) ∨
      ((hash, true) ∈ pool.mined → pool.current = value) ∧
        ∀ entry ∈ pool.pending, entry.1 ≠ hash ∧ writes entry.2 = none)

/-- Whatever becomes of the pending transactions, each is mined at a value it admits. -/
def Meets (current : V) : List (Nat × τ) → Prop
  | [] => True
  | (_, tx) :: rest =>
      admits tx current ∧ Meets current rest ∧
        ∀ written, writes tx = some written → Meets written rest

variable {writes admits pool} {tx : τ} {value : V} {hash other : Nat} {rest : List (Nat × τ)}
  {succeeded : Bool}

theorem nonce_broadcast : (pool.broadcast tx).nonce = pool.nonce + 1 := by
  simp only [nonce, broadcast, List.length_append, List.length_singleton]
  omega

theorem nonce_mine (next : pool.pending = (hash, tx) :: rest) :
    (pool.mine writes hash tx rest succeeded).nonce = pool.nonce := by
  simp only [nonce, mine, next, List.length_append, List.length_cons, List.length_nil]
  omega

theorem after_of_silent (silent : writes tx = none) (current : V) :
    after writes current tx succeeded = current := by
  unfold after
  rw [silent]
  split <;> rfl

/-! ## What is given out -/

theorem Bounded.broadcast (bounded : pool.Bounded) : (pool.broadcast tx).Bounded := by
  unfold Bounded
  rw [nonce_broadcast]
  refine ⟨fun entry member => ?_, fun entry member => Nat.lt_succ_of_lt (bounded.2 entry member)⟩
  rcases List.mem_append.mp member with old | new
  · exact Nat.lt_succ_of_lt (bounded.1 entry old)
  · obtain rfl := List.mem_singleton.mp new
    exact Nat.lt_succ_self _

theorem Bounded.mine (bounded : pool.Bounded) (next : pool.pending = (hash, tx) :: rest) :
    (pool.mine writes hash tx rest succeeded).Bounded := by
  have pending : ∀ entry ∈ (hash, tx) :: rest, entry.1 < pool.nonce := by
    rw [← next]
    exact bounded.1
  unfold Bounded
  rw [nonce_mine next]
  refine ⟨fun entry member => pending entry (List.mem_cons_of_mem _ member), fun entry member => ?_⟩
  rcases List.mem_append.mp member with old | new
  · exact bounded.2 entry old
  · obtain rfl := List.mem_singleton.mp new
    exact pending (hash, tx) List.mem_cons_self

/-! ## A settled register -/

/-- A transaction that writes nothing else leaves the register settled. -/
theorem Settled.broadcast (settled : pool.Settled writes value)
    (same : ∀ written, writes tx = some written → written = value) :
    (pool.broadcast tx).Settled writes value := by
  refine ⟨settled.1, fun entry member => ?_⟩
  rcases List.mem_append.mp member with old | new
  · exact settled.2 entry old
  · obtain rfl := List.mem_singleton.mp new
    exact same

theorem Settled.mine (settled : pool.Settled writes value)
    (next : pool.pending = (hash, tx) :: rest) :
    (pool.mine writes hash tx rest succeeded).Settled writes value := by
  obtain ⟨current, pending⟩ := settled
  rw [next] at pending
  refine ⟨?_, fun entry member => pending entry (List.mem_cons_of_mem _ member)⟩
  unfold Mempool.mine after
  cases written : writes tx with
  | none => simp [current]
  | some update => simp [current, pending (hash, tx) List.mem_cons_self update written]

/-! ## An awaited write -/

/-- The transaction that was just broadcast is awaited. -/
theorem awaited_broadcast (bounded : pool.Bounded) (written : writes tx = some value) :
    (pool.broadcast tx).Awaited writes pool.nonce value := by
  refine ⟨by rw [nonce_broadcast]; exact Nat.lt_succ_self _, .inl ⟨pool.pending, tx, [], rfl,
    written, nofun, fun entry member => ?_, fun entry member => Nat.ne_of_lt (bounded.2 entry member)⟩⟩
  rw [List.append_nil] at member
  exact Nat.ne_of_lt (bounded.1 entry member)

/-- A transaction that writes nothing does not concern an awaited one. -/
theorem Awaited.broadcast (awaited : pool.Awaited writes hash value) (silent : writes tx = none) :
    (pool.broadcast tx).Awaited writes hash value := by
  obtain ⟨given, state⟩ := awaited
  refine ⟨by rw [nonce_broadcast]; exact Nat.lt_succ_of_lt given, ?_⟩
  rcases state with ⟨earlier, own, later, split, written, last, unique, unmined⟩ | ⟨done, rest⟩
  · refine .inl ⟨earlier, own, later ++ [(pool.nonce, tx)], ?_, written, ?_, ?_, unmined⟩
    · simp only [Mempool.broadcast, split, List.append_assoc, List.cons_append]
    · intro entry member
      rcases List.mem_append.mp member with old | new
      · exact last entry old
      · obtain rfl := List.mem_singleton.mp new
        exact silent
    · intro entry member
      rcases List.mem_append.mp member with before | after
      · exact unique entry (List.mem_append_left _ before)
      · rcases List.mem_append.mp after with old | new
        · exact unique entry (List.mem_append_right _ old)
        · obtain rfl := List.mem_singleton.mp new
          exact Nat.ne_of_gt given
  · refine .inr ⟨done, fun entry member => ?_⟩
    rcases List.mem_append.mp member with old | new
    · exact rest entry old
    · obtain rfl := List.mem_singleton.mp new
      exact ⟨Nat.ne_of_gt given, silent⟩

theorem Awaited.mine (awaited : pool.Awaited writes hash value)
    (next : pool.pending = (other, tx) :: rest) :
    (pool.mine writes other tx rest succeeded).Awaited writes hash value := by
  obtain ⟨given, state⟩ := awaited
  refine ⟨by rw [nonce_mine next]; exact given, ?_⟩
  rcases state with ⟨earlier, own, later, split, written, last, unique, unmined⟩ | ⟨done, quiet⟩
  · rw [next] at split
    cases earlier with
    | nil =>
        obtain ⟨head, rfl⟩ := List.cons.inj split
        obtain ⟨rfl, rfl⟩ := Prod.mk.inj head
        refine .inr ⟨fun member => ?_, fun entry member => ⟨unique entry member, last entry member⟩⟩
        rcases List.mem_append.mp member with old | new
        · exact absurd rfl (unmined _ old)
        · obtain rfl := (Prod.mk.inj (List.mem_singleton.mp new)).2
          simp [Mempool.mine, after, written]
    | cons first earlier =>
        obtain ⟨rfl, rfl⟩ := List.cons.inj split
        refine .inl ⟨earlier, own, later, rfl, written, last, ?_, ?_⟩
        · exact fun entry member => unique entry (List.mem_cons_of_mem _ member)
        · intro entry member
          rcases List.mem_append.mp member with old | new
          · exact unmined entry old
          · obtain rfl := List.mem_singleton.mp new
            exact unique (other, tx) List.mem_cons_self
  · rw [next] at quiet
    obtain ⟨distinct, silent⟩ := quiet (other, tx) List.mem_cons_self
    refine .inr ⟨fun member => ?_, fun entry member => quiet entry (List.mem_cons_of_mem _ member)⟩
    rcases List.mem_append.mp member with old | new
    · exact (after_of_silent silent _).trans (done old)
    · exact absurd (Prod.mk.inj (List.mem_singleton.mp new)).1.symm distinct

/-- Once an awaited transaction has succeeded, the register is settled at its value. -/
theorem Awaited.settled (awaited : pool.Awaited writes hash value)
    (succeeded : (hash, true) ∈ pool.mined) : pool.Settled writes value := by
  obtain ⟨-, ⟨earlier, own, later, split, written, last, unique, unmined⟩ | ⟨done, quiet⟩⟩ := awaited
  · exact absurd rfl (unmined _ succeeded)
  · refine ⟨done succeeded, fun entry member written update => ?_⟩
    rw [(quiet entry member).2] at update
    cases update

/-! ## Meeting what is admitted -/

theorem Meets.append {current : V} {pending : List (Nat × τ)}
    (meets : Meets writes admits current pending)
    (last : ∀ value, (current = value ∨ ∃ entry ∈ pending, writes entry.2 = some value) →
      admits tx value) : Meets writes admits current (pending ++ [(hash, tx)]) := by
  induction pending generalizing current with
  | nil => exact ⟨last current (.inl rfl), trivial, fun _ _ => trivial⟩
  | cons entry rest ih =>
      obtain ⟨admitted, unwritten, written⟩ := meets
      refine ⟨admitted, ih unwritten fun value possible => ?_, fun update same =>
        ih (written update same) fun value possible => ?_⟩
      · refine last value (possible.imp_right ?_)
        rintro ⟨other, member, writes_it⟩
        exact ⟨other, List.mem_cons_of_mem _ member, writes_it⟩
      · rcases possible with rfl | ⟨other, member, writes_it⟩
        · exact last update (.inr ⟨entry, List.mem_cons_self, same⟩)
        · exact last value (.inr ⟨other, List.mem_cons_of_mem _ member, writes_it⟩)

/-- A transaction that admits the value of a settled register can be broadcast. -/
theorem Meets.broadcast_settled (meets : Meets writes admits pool.current pool.pending)
    (settled : pool.Settled writes value) (admitted : admits tx value) :
    Meets writes admits (pool.broadcast tx).current (pool.broadcast tx).pending := by
  refine meets.append fun reached possible => ?_
  rcases possible with same | ⟨entry, member, written⟩
  · rw [← same, settled.1]
    exact admitted
  · rw [settled.2 entry member reached written]
    exact admitted

/-- One that admits every value can always be broadcast. -/
theorem Meets.broadcast (meets : Meets writes admits pool.current pool.pending)
    (indifferent : ∀ value, admits tx value) :
    Meets writes admits (pool.broadcast tx).current (pool.broadcast tx).pending :=
  meets.append fun value _ => indifferent value

/-- The next transaction is mined at a value it admits, and so are those after it. -/
theorem Meets.mine (meets : Meets writes admits pool.current pool.pending)
    (next : pool.pending = (hash, tx) :: rest) :
    admits tx pool.current ∧ Meets writes admits (pool.mine writes hash tx rest succeeded).current
      (pool.mine writes hash tx rest succeeded).pending := by
  rw [next] at meets
  obtain ⟨admitted, unwritten, written⟩ := meets
  refine ⟨admitted, ?_⟩
  change Meets writes admits (after writes pool.current tx succeeded) rest
  unfold after
  cases succeeded with
  | false => exact unwritten
  | true =>
      cases update : writes tx with
      | none => exact unwritten
      | some value => exact written value update

end Mempool
