import Numera.Foundation.Mempool
import Numera.Relay.Footprint

/-! # Withdrawals and their roots

A proof executes only while the entrypoint's association root is the one it was proved
against. A withdrawal makes it so first: it publishes its root and waits for it, unless the
root it reads is already its own. When an earlier publication is still pending at that
point, it may be mined between the read and the proof (`withdrawal_misses_root`). In every
run in which a withdrawal that reads its own root finds no other root pending, every proof
meets its root (`relayed_meets_root`): the lock lets one withdrawal at a time decide, and
what it relays is mined while the register is settled at its root.
-/

namespace Numera

open Async (CallsOnly Follows System Thread)

/-! ## Roots -/

/-- The root a withdrawal was proved against. -/
def PoolWithdrawDto.aspRoot (dto : PoolWithdrawDto) : Option Int := do
  let proof ← dto.proof
  let text ← proof.pubSignals[PoolService.aspRootSignal]?
  JsString.parseBigInt text

def RelayRequest.aspRoot : RelayRequest → Option Int
  | withdraw dto => dto.aspRoot
  | _ => none

/-- The root a transaction publishes. -/
def RelayTransaction.publishes (tx : RelayTransaction) : Option Int :=
  match tx.data with
  | .updateRoot root => some root
  | _ => none

/-- A proof meets the root it was proved against; other transactions meet any. -/
def RelayTransaction.MeetsRoot (tx : RelayTransaction) (root : Int) : Prop :=
  ∀ processooor data proof, tx.data = .relay processooor data proof →
    proof.pubSignals[PoolService.aspRootSignal]? = some root

/-- A call of the platform's own neither publishes a root nor relays a proof: only
withdrawals do. -/
def RelayRequest.PublishesNothing : RelayRequest → Prop
  | sendFromRelayer _ data => data.concernsRoot = false
  | _ => True

theorem publishes_unrelated {tx : RelayTransaction} (unrelated : tx.data.concernsRoot = false) :
    tx.publishes = none := by
  unfold RelayTransaction.publishes
  split
  · rename_i same
    rw [same] at unrelated
    cases unrelated
  · rfl

theorem meetsRoot_unrelated {tx : RelayTransaction} (unrelated : tx.data.concernsRoot = false)
    (root : Int) : tx.MeetsRoot root := by
  intro processooor data proof same
  rw [same] at unrelated
  cases unrelated

/-! ## Stages -/

/-- What a withdrawal that holds the lock knows of its root. -/
inductive RootStanding where
  | unknown
  | published (hash : Nat) (root : Int)
  | settled (root : Int)

/-- How far a withdrawal has come. Other requests stay outside. -/
inductive WithdrawalStage where
  | outside
  | waiting (place : Nat)
  | inside (place : Nat) (standing : RootStanding)

/-- What a withdrawal knows of its root after a call. -/
def RootStanding.next (request : RelayRequest) :
    RootStanding → (call : RelayCall) → Except RelayError call.Answer → RootStanding
  | unknown, .latestRoot, .ok root => if request.aspRoot = some root then settled root else unknown
  | unknown, .sendTransaction tx, .ok hash =>
      match tx.publishes with
      | some root => published hash root
      | none => unknown
  | published _ root, .waitForTransactionReceipt _, .ok .success => settled root
  | standing, _, _ => standing

namespace WithdrawalStage

/-- The stage of a withdrawal after a call. -/
def next (request : RelayRequest) :
    WithdrawalStage → (call : RelayCall) → Except RelayError call.Answer → WithdrawalStage
  | outside, .join .lock, .ok place => waiting place
  | waiting place, .turn .lock _, .ok _ => inside place .unknown
  | inside _ _, .leave .lock, _ => outside
  | inside place standing, call, answer => inside place (standing.next request call answer)
  | stage, _, _ => stage

/-- The calls a withdrawal may make: it publishes a root before it knows it, awaits the
receipt of the root it published, and relays a proof against the root it knows. -/
def allows (stage : WithdrawalStage) : RelayCall → Prop
  | .join .lock => stage = outside
  | .turn .lock place => stage = waiting place
  | .leave .lock => ∃ place standing, stage = inside place standing
  | .waitForTransactionReceipt hash => ∃ place root, stage = inside place (.published hash root)
  | .sendTransaction tx =>
      (tx.publishes ≠ none → ∃ place, stage = inside place .unknown) ∧
        ((∀ root, tx.MeetsRoot root) ∨
          ∃ place root, stage = inside place (.settled root) ∧ tx.MeetsRoot root)
  | _ => True

/-- The place a withdrawal has in the line for the lock. -/
def ticket : WithdrawalStage → Option Nat
  | outside => none
  | waiting place | inside place _ => some place

/-- A withdrawal holds the lock. -/
def Holds (stage : WithdrawalStage) : Prop := ∃ place standing, stage = inside place standing

theorem allows_unrelated {stage : WithdrawalStage} {tx : RelayTransaction}
    (unrelated : tx.data.concernsRoot = false) : stage.allows (.sendTransaction tx) :=
  ⟨fun publishes => absurd (publishes_unrelated unrelated) publishes,
    .inl (meetsRoot_unrelated unrelated)⟩

end WithdrawalStage

/-- A call that concerns neither the lock nor a root. -/
def RelayCall.apart : RelayCall → Bool
  | join chain | turn chain _ | leave chain => chain = .queue
  | waitForTransactionReceipt _ | sendTransaction _ | latestRoot => false
  | _ => true

theorem apart_of_plain (call : RelayCall) (plain : call.plain) : call.apart = true := by
  cases call <;> first | exact plain | rfl

theorem apart_of_idle (call : RelayCall) (idle : call.idle) : call.apart = true :=
  idle_of_plain apart_of_plain call idle

theorem WithdrawalStage.allows_apart {stage : WithdrawalStage} {call : RelayCall}
    (apart : call.apart = true) : stage.allows call := by
  cases call with
  | join chain | turn chain _ | leave chain =>
      cases chain with
      | queue => trivial
      | lock => cases apart
  | waitForTransactionReceipt _ | sendTransaction _ => cases apart
  | _ => trivial

theorem WithdrawalStage.next_apart (request : RelayRequest) {stage : WithdrawalStage}
    {call : RelayCall} (apart : call.apart = true) (answer : Except RelayError call.Answer) :
    stage.next request call answer = stage := by
  cases call with
  | join chain | turn chain _ | leave chain =>
      cases chain with
      | queue =>
          cases stage with
          | inside place standing => cases standing <;> rfl
          | _ => rfl
      | lock => cases apart
  | waitForTransactionReceipt _ | sendTransaction _ | latestRoot => cases apart
  | _ =>
      cases stage with
      | inside place standing => cases standing <;> rfl
      | _ => rfl

/-! ## How each request proceeds -/

/-- A part of a request keeps to the stages of a withdrawal. -/
abbrev Proceeds {α : Type} (request : RelayRequest)
    (finish : WithdrawalStage → Except RelayError α → Prop) (stage : WithdrawalStage)
    (task : Relay α) : Prop :=
  Follows (fun stage (_ : RelayWorld) call answer => WithdrawalStage.next request stage call answer)
    (fun stage call => request.PublishesNothing → stage.allows call) finish stage task

section Proceeds

variable {α β : Type} {lib : RelayLibraries} {cfg : RelayConfig} {request : RelayRequest}
  {stage : WithdrawalStage}

/-- A part that concerns neither the lock nor a root, and what follows it. -/
theorem proceeds_apart {finish : WithdrawalStage → Except RelayError α → Prop} {first : Relay β}
    {rest : β → Relay α} (only : first.CallsOnly fun call => call.apart = true)
    (follows : ∀ value, Proceeds request finish stage (rest value))
    (thrown : ∀ error, finish stage (.error error)) :
    Proceeds request finish stage (first >>= rest) :=
  .neutral_bind only (fun _ apart _ => WithdrawalStage.allows_apart apart)
    (fun _ apart _ answer => WithdrawalStage.next_apart request apart answer) follows thrown

/-- A conversion, and what follows it. -/
theorem proceeds_done {finish : WithdrawalStage → Except RelayError α → Prop}
    {value : Except RelayError β} {rest : β → Relay α}
    (follows : ∀ result, value = .ok result → Proceeds request finish stage (rest result))
    (thrown : ∀ error, finish stage (.error error)) :
    Proceeds request finish stage (Async.done value >>= rest) := by
  cases value with
  | ok result => exact follows result rfl
  | error error => exact thrown error

/-- A job on the nonce queue. -/
theorem proceeds_queue {finish : WithdrawalStage → Except RelayError α → Prop} {fn : Relay α}
    (job : Proceeds request finish stage fn)
    (thrown : ∀ error, finish stage (.error error))
    (spoils : ∀ reached outcome, finish reached outcome → ∀ error, finish reached (.error error)) :
    Proceeds request finish stage (exclusively .queue fn) := by
  refine proceeds_apart (.perform rfl) (fun place => proceeds_apart (.perform rfl) (fun _ => ?_)
    thrown) thrown
  refine .bind (.tryCatch (.bind (job.mono ?_)))
  rintro reached (error | value) finished
  · exact proceeds_apart (.perform rfl) (fun _ => finished) (spoils reached _ finished)
  · exact proceeds_apart (.perform rfl) (fun _ => finished) (spoils reached _ finished)

/-- A transaction of the relayer, which the stage allows and after which the request has the
stage that follows. -/
theorem proceeds_sendFromRelayer {finish : WithdrawalStage → Except RelayError Nat → Prop}
    {destination : JsString} {data : ContractCall}
    (may : ∀ tx, tx.data = data → request.PublishesNothing → stage.allows (.sendTransaction tx))
    (sent : ∀ tx hash, tx.data = data →
      finish (stage.next request (.sendTransaction tx) (.ok hash)) (.ok hash))
    (thrown : ∀ error, finish stage (.error error))
    (unmoved : ∀ tx error, stage.next request (.sendTransaction tx) (.error error) = stage)
    (spoils : ∀ reached outcome, finish reached outcome → ∀ error, finish reached (.error error)) :
    Proceeds request finish stage (RelayService.sendFromRelayer cfg destination data) := by
  refine proceeds_apart (.perform rfl) (fun wiring => ?_) thrown
  split
  · exact thrown _
  · refine proceeds_apart (callsOnly_enforceDailyCap apart_of_idle fun _ => rfl)
      (fun _ => proceeds_queue ?_ thrown spoils) thrown
    refine proceeds_apart (callsOnly_simulate apart_of_idle _ _ _) (fun gas => ?_) thrown
    refine proceeds_apart (callsOnly_gasFor apart_of_idle _) (fun policy => ?_) thrown
    refine .perform_bind (may _ rfl) (fun _ hash => ?_) fun _ error => ?_
    · have finished := sent _ hash rfl
      exact proceeds_apart (callsOnly_recordSpend apart_of_idle _) (fun _ => finished)
        (spoils _ _ finished)
    · rw [unmoved]
      exact thrown error

/-- A withdrawal that holds the lock publishes its root, unless it is the latest one. -/
theorem proceeds_publishAspRoot {root : Int} {place : Nat} (own : request.aspRoot = some root) :
    Proceeds request (fun reached outcome =>
        match outcome with
        | .ok _ => reached = .inside place (.settled root)
        | .error _ => reached.Holds)
      (.inside place .unknown) (PoolService.publishAspRoot lib cfg root) := by
  have holds : (WithdrawalStage.inside place .unknown).Holds := ⟨place, _, rfl⟩
  refine .perform_bind (fun _ => trivial) (fun _ current => ?_) fun _ _ => holds
  by_cases latest : current = root
  · subst latest
    have settled : (WithdrawalStage.inside place .unknown).next request .latestRoot (.ok current) =
        .inside place (.settled current) := by
      simp [WithdrawalStage.next, RootStanding.next, own]
    rw [if_pos rfl, settled]
    exact rfl
  · have unknown : (WithdrawalStage.inside place .unknown).next request .latestRoot (.ok current) =
        .inside place .unknown := by
      simp [WithdrawalStage.next, RootStanding.next, own, Ne.symm latest]
    rw [if_neg latest, unknown]
    refine proceeds_done (fun data encoded => ?_) fun _ => holds
    obtain rfl := eq_of_encoded encoded
    have sends : Proceeds request (fun reached outcome =>
        match outcome with
        | .ok hash => reached = .inside place (.published hash root)
        | .error _ => reached.Holds)
        (.inside place .unknown) (RelayService.sendFromRelayer cfg cfg.entrypoint (.updateRoot root)) := by
      refine proceeds_sendFromRelayer (fun tx same _ => ⟨fun _ => ⟨place, rfl⟩, .inl ?_⟩)
        (fun tx hash same => ?_) (fun _ => holds) (fun _ _ => rfl) ?_
      · intro _ processooor data proof relays
        rw [same] at relays
        cases relays
      · simp [WithdrawalStage.next, RootStanding.next, RelayTransaction.publishes, same]
      · rintro reached (error | hash) finished error'
        · exact finished
        · obtain rfl : reached = _ := finished
          exact ⟨_, _, rfl⟩
    refine .bind (sends.mono ?_)
    rintro reached (error | hash) finished
    · exact finished
    · obtain rfl : reached = _ := finished
      refine .bind (.tryCatch (.perform_bind (fun _ => ⟨_, _, rfl⟩) (fun _ status => ?_)
        fun _ _ => ⟨_, _, rfl⟩))
      cases status with
      | success => exact rfl
      | reverted => exact ⟨_, _, rfl⟩

/-- A withdrawal that holds the lock publishes its root and relays its proof. -/
theorem proceeds_relayProof {root : Int} {place : Nat} {data : JsString} {proof : WithdrawProof}
    (own : request.aspRoot = some root)
    (proved : proof.pubSignals[PoolService.aspRootSignal]? = some root) :
    Proceeds request (fun reached _ => reached.Holds) (.inside place .unknown)
      (PoolService.relayProof lib cfg root data proof) := by
  refine .bind ((proceeds_publishAspRoot own).mono ?_)
  rintro reached (error | ⟨⟩) finished
  · exact finished
  · obtain rfl : reached = _ := finished
    have holds : (WithdrawalStage.inside place (.settled root)).Holds := ⟨place, _, rfl⟩
    refine proceeds_done (fun call encoded => ?_) fun _ => holds
    obtain rfl := eq_of_encoded encoded
    have sends : Proceeds request (fun reached (_ : Except RelayError Nat) => reached.Holds)
        (.inside place (.settled root))
        (RelayService.sendFromRelayer cfg cfg.entrypoint (.relay cfg.entrypoint data proof)) := by
      refine proceeds_sendFromRelayer
        (fun tx same _ => ⟨fun publishes => ?_, .inr ⟨place, root, rfl, ?_⟩⟩)
        (fun _ _ _ => holds) (fun _ => holds) (fun _ _ => rfl) fun _ _ finished _ => finished
      · simp [RelayTransaction.publishes, same] at publishes
      · intro processooor data' proof' relays
        obtain ⟨-, -, rfl⟩ := ContractCall.relay.inj (same.symm.trans relays)
        exact proved
    refine .tryCatch (sends.mono ?_)
    rintro reached (error | hash) finished <;> exact finished

/-- A job with the lock. -/
theorem proceeds_lock {fn : Relay α}
    (job : ∀ place, Proceeds request (fun reached _ => reached.Holds) (.inside place .unknown) fn) :
    Proceeds request (fun _ _ => True) .outside (exclusively .lock fn) := by
  have leaves : ∀ (reached : WithdrawalStage) (result : Except RelayError α), reached.Holds →
      Proceeds request (fun _ _ => True) reached (do
        (RelayCall.leave .lock).request
        Async.done result) := by
    intro reached result holds
    exact .perform_bind (fun _ => holds) (fun _ _ => trivial) fun _ _ => trivial
  refine .perform_bind (fun _ => rfl) (fun _ place => ?_) fun _ _ => trivial
  refine .perform_bind (fun _ => rfl) (fun _ _ => ?_) fun _ _ => trivial
  refine .bind (.tryCatch (.bind ((job place).mono ?_)))
  rintro reached (error | value) holds
  · exact leaves reached _ holds
  · exact leaves reached _ holds

/-- The numbers of some texts. -/
theorem getElem?_of_mapM_bigInt {texts : List JsString} {numbers : List Int}
    (read : texts.mapM bigInt = .ok numbers) (index : Nat) :
    numbers[index]? = texts[index]?.bind JsString.parseBigInt := by
  induction texts generalizing numbers index with
  | nil =>
      obtain rfl := Except.ok.inj read
      rfl
  | cons text texts ih =>
      rw [List.mapM_cons] at read
      obtain ⟨number, first, read⟩ := bind_eq_ok read
      obtain ⟨others, rest, read⟩ := bind_eq_ok read
      obtain rfl := Except.ok.inj read
      unfold bigInt at first
      split at first
      · rename_i value parsed
        obtain rfl := Except.ok.inj first
        cases index with
        | zero => simp [parsed]
        | succ index => exact ih rest index
      · cases first

/-- The root of a body is the one among its public signals. -/
theorem aspRoot_of_signalsOf {dto : PoolWithdrawDto} {proof : WithdrawProofDto} {numbers : List Int}
    (read : PoolService.signalsOf dto = .ok (proof, numbers)) :
    numbers[PoolService.aspRootSignal]? = dto.aspRoot := by
  unfold PoolService.signalsOf at read
  split at read
  · cases read
  · rename_i own present
    obtain ⟨signals, mapped, read⟩ := bind_eq_ok read
    obtain ⟨rfl, rfl⟩ := Prod.mk.inj (Except.ok.inj read)
    rw [getElem?_of_mapM_bigInt mapped, PoolWithdrawDto.aspRoot, present]
    rfl

/-- A root that is recognised is the proof's. -/
theorem aspRootSignal_of_recognised {known numbers : List Int} {root : Int}
    (recognised : PoolService.recognised known numbers = .ok root) :
    numbers[PoolService.aspRootSignal]? = some root := by
  unfold PoolService.recognised at recognised
  split at recognised
  · rename_i signal found
    split at recognised
    · rw [found, Except.ok.inj recognised]
    · cases recognised
  · cases recognised

theorem pubSignals_of_readProof {proofDto : WithdrawProofDto} {numbers : List Int}
    {proof : WithdrawProof} (read : PoolService.readProof proofDto numbers = .ok proof) :
    proof.pubSignals = numbers := by
  unfold PoolService.readProof at read
  obtain ⟨pA, -, read⟩ := bind_eq_ok read
  obtain ⟨first, -, read⟩ := bind_eq_ok read
  obtain ⟨second, -, read⟩ := bind_eq_ok read
  obtain ⟨pC, -, read⟩ := bind_eq_ok read
  rw [← Except.ok.inj read]

theorem proceeds_withdraw (dto : PoolWithdrawDto) :
    Proceeds (.withdraw dto) (fun _ _ => True) .outside (PoolService.withdraw lib cfg dto) := by
  unfold PoolService.withdraw
  split
  · trivial
  · refine proceeds_apart (.perform rfl) (fun synced => ?_) fun _ => trivial
    split
    · trivial
    · refine proceeds_done (fun withdrawal _ => ?_) fun _ => trivial
      refine proceeds_done (fun signed signals => ?_) fun _ => trivial
      refine proceeds_apart (.perform rfl) (fun rows => ?_) fun _ => trivial
      refine proceeds_done (fun known _ => ?_) fun _ => trivial
      refine proceeds_done (fun root recognised => ?_) fun _ => trivial
      refine proceeds_done (fun proof read => ?_) fun _ => trivial
      obtain ⟨proofDto, numbers⟩ := signed
      have proved := aspRootSignal_of_recognised recognised
      have own : RelayRequest.aspRoot (.withdraw dto) = some root :=
        (aspRoot_of_signalsOf signals).symm.trans proved
      have carried := pubSignals_of_readProof read
      refine proceeds_lock fun place => proceeds_relayProof own ?_
      rw [carried]
      exact proved

/-- The other requests stay outside. -/
theorem proceeds_outside {task : Relay α}
    (only : task.CallsOnly fun call => call ≠ .join .lock ∧
      (request.PublishesNothing → WithdrawalStage.outside.allows call)) :
    Proceeds request (fun _ _ => True) .outside task := by
  refine .of_callsOnly only (fun _ made => made.2) (fun call made _ answer => ?_) fun _ => trivial
  cases call with
  | join chain =>
      cases chain with
      | queue => rfl
      | lock => exact absurd rfl made.1
  | _ => rfl

theorem proceeds_start (request : RelayRequest) :
    Proceeds request (fun _ _ => True) .outside (request.start lib cfg) := by
  have apart : ∀ call : RelayCall, call.apart = true → call ≠ .join .lock ∧
      (request.PublishesNothing → WithdrawalStage.outside.allows call) := by
    refine fun call apart => ⟨?_, fun _ => WithdrawalStage.allows_apart apart⟩
    rintro rfl
    cases apart
  have plain : ∀ call : RelayCall, call.plain = true → call ≠ .join .lock ∧
      (request.PublishesNothing → WithdrawalStage.outside.allows call) :=
    fun call plain => apart call (apart_of_plain call plain)
  have unrelated : ∀ tx : RelayTransaction, tx.data.concernsRoot = false →
      RelayCall.sendTransaction tx ≠ .join .lock ∧
        (request.PublishesNothing → WithdrawalStage.outside.allows (.sendTransaction tx)) :=
    fun tx none => ⟨nofun, fun _ => WithdrawalStage.allows_unrelated none⟩
  cases request with
  | submit payload =>
      exact proceeds_outside (callsOnly_submit plain (apart _ rfl) (fun _ => apart _ rfl)
        fun tx _ => unrelated tx)
  | submitResolution payload =>
      exact proceeds_outside (callsOnly_submitResolution plain (apart _ rfl) (fun _ => apart _ rfl)
        fun tx _ => unrelated tx)
  | submitPermit permit =>
      exact proceeds_outside (callsOnly_submitPermit plain (apart _ rfl) (fun _ => apart _ rfl)
        fun tx _ => unrelated tx)
  | sendFromRelayer destination data =>
      refine proceeds_outside (callsOnly_sendFromRelayer plain (apart _ rfl) (fun _ => apart _ rfl)
        fun tx _ same => ⟨nofun, fun nothing => WithdrawalStage.allows_unrelated ?_⟩)
      rw [same]
      exact nothing
  | withdraw dto => exact proceeds_withdraw dto
  | shield dto =>
      exact proceeds_outside (callsOnly_shield plain (apart _ rfl) (fun _ => apart _ rfl)
        fun tx _ => unrelated tx)

end Proceeds

/-! ## Runs -/

/-- The services, with the stages of their withdrawals. -/
def withdrawalSystem (lib : RelayLibraries) (cfg : RelayConfig) (initial : RelayWorld) :
    System RelayCall.Answer RelayError Nat RelayRequest WithdrawalStage RelayWorld RelayCall :=
  relaySystem lib cfg initial (fun _ => .outside) fun request stage _ call answer =>
    stage.next request call answer

/-- The requests under way. -/
abbrev Withdrawing : Type :=
  Thread RelayCall.Answer RelayError Nat RelayRequest WithdrawalStage

/-- Only withdrawals publish roots and relay proofs. -/
def OnlyPublisher (threads : List Withdrawing) : Prop :=
  ∀ thread ∈ threads, thread.request.PublishesNothing

/-- A withdrawal that reads its own root as the latest one finds no other root pending. -/
def ReadsSettled (world : RelayWorld) (threads : List Withdrawing) (position : Nat) :
    (call : RelayCall) → Except RelayError call.Answer → Prop
  | .latestRoot, .ok root =>
      ∀ thread, threads[position]? = some thread → thread.request.aspRoot = some root →
        ∀ entry ∈ world.pending, ∀ other, entry.2.publishes = some other → other = root
  | _, _ => True

/-- The condition on the calls of a run. -/
def WithdrawsSafely (world : RelayWorld) (threads : List Withdrawing) (position : Nat)
    (call : RelayCall) (answer : Except RelayError call.Answer) : Prop :=
  OnlyPublisher threads ∧ ReadsSettled world threads position call answer

section Runs

variable {lib : RelayLibraries} {cfg : RelayConfig} {initial world : RelayWorld}
  {records : List RelayCall} {threads : List Withdrawing}

/-- Every call is one the caller's stage allows. -/
theorem allows_of_turn {position : Nat} {request : RelayRequest} {stage : WithdrawalStage}
    {call : RelayCall} {continued : Except RelayError call.Answer → Relay Nat}
    {answer : Except RelayError call.Answer} {record : List RelayCall} {later : RelayWorld}
    (turn : (withdrawalSystem lib cfg initial).Turn WithdrawsSafely world threads position request
      stage call continued answer record later) : stage.allows call := by
  obtain ⟨_, before⟩ := turn.before
  have member := List.mem_of_getElem? turn.found
  have started : ∀ request : RelayRequest,
      Proceeds request (fun _ _ => True) .outside (request.start lib cfg) :=
    fun request => proceeds_start request
  have proceeds := before.follows started _ member
  exact proceeds.1 (turn.met.1 _ member)

/-- What a call does to the lock and to the caller's place in its line. -/
inductive LockStep (world later : RelayWorld) (stage next : WithdrawalStage) : Prop where
  | apart (line : later.line .lock = world.line .lock) (place : next.ticket = stage.ticket)
      (holds : next.Holds → stage.Holds)
  | join (outside : stage = .outside) (waiting : next = .waiting (world.line .lock).issued)
      (line : later.line .lock =
        { world.line .lock with issued := (world.line .lock).issued + 1 })
  | enter (waiting : stage = .waiting (world.line .lock).served)
      (inside : next = .inside (world.line .lock).served .unknown)
      (line : later.line .lock = world.line .lock)
  | leave (holds : stage.Holds) (outside : next = .outside)
      (line : later.line .lock =
        { world.line .lock with served := (world.line .lock).served + 1 })

theorem lockStep_of_turn {position : Nat} {request : RelayRequest} {stage : WithdrawalStage}
    {call : RelayCall} {continued : Except RelayError call.Answer → Relay Nat}
    {answer : Except RelayError call.Answer} {record : List RelayCall} {later : RelayWorld}
    (turn : (withdrawalSystem lib cfg initial).Turn WithdrawsSafely world threads position request
      stage call continued answer record later) :
    LockStep world later stage (stage.next request call answer) := by
  have allowed := allows_of_turn turn
  have answered : relayEnvironment call world answer record later := turn.answered
  have stays : (∀ chain, call ≠ .join chain) → (∀ chain, call ≠ .leave chain) →
      later.line .lock = world.line .lock := fun joins leaves =>
    relayEnvironment_keeps (fun reached => reached.line .lock = world.line .lock) answered rfl
      fun _ performed => congrFun (performed.line_eq joins leaves) .lock
  cases call with
  | join chain =>
      obtain ⟨rfl, rfl⟩ := relayEnvironment_inside rfl answered
      cases chain with
      | queue =>
          rw [WithdrawalStage.next_apart request rfl]
          exact .apart rfl rfl id
      | lock =>
          obtain rfl : stage = .outside := allowed
          exact .join rfl rfl rfl
  | leave chain =>
      obtain ⟨rfl, rfl⟩ := relayEnvironment_inside rfl answered
      cases chain with
      | queue =>
          rw [WithdrawalStage.next_apart request rfl]
          exact .apart rfl rfl id
      | lock =>
          obtain ⟨place, standing, rfl⟩ := allowed
          exact .leave ⟨place, standing, rfl⟩ rfl rfl
  | turn chain place =>
      obtain ⟨served, rfl, rfl⟩ := relayEnvironment_inside rfl answered
      cases chain with
      | queue =>
          rw [WithdrawalStage.next_apart request rfl]
          exact .apart rfl rfl id
      | lock =>
          obtain rfl : stage = .waiting place := allowed
          subst served
          exact .enter rfl rfl rfl
  | _ =>
      refine .apart (stays nofun nofun) ?_ ?_
      · cases stage <;> rfl
      · cases stage with
        | inside place standing => exact fun _ => ⟨place, standing, rfl⟩
        | _ => exact id

/-- The lock is a line of tickets. -/
theorem lock_ticketed (lib : RelayLibraries) (cfg : RelayConfig) (initial : RelayWorld) :
    (withdrawalSystem lib cfg initial).Ticketed WithdrawsSafely
      (fun world => (world.line .lock).issued) (fun world => (world.line .lock).served)
      (fun _ stage => stage.ticket) (fun _ stage => stage.Holds) where
  arrives _ := rfl
  holds := by
    rintro _ _ ⟨place, standing, rfl⟩
    exact nofun
  passes := by
    intro world later changes
    cases changes <;> exact ⟨rfl, rfl⟩
  issues := by
    intro world threads position request stage call continued answer record later turn
    rcases lockStep_of_turn turn with ⟨line, -⟩ | ⟨-, -, line⟩ | ⟨-, -, line⟩ | ⟨-, -, line⟩ <;>
      simp [line]
  takes := by
    intro world threads position request stage call continued answer record later turn
    change (stage.next request call answer).ticket = _ ∨ _
    rcases lockStep_of_turn turn with ⟨-, place, -⟩ | ⟨outside, next, line⟩ | ⟨waiting, next, -⟩ |
      ⟨-, next, -⟩
    · exact .inl place
    · refine .inr (.inr ⟨by rw [outside]; rfl, by rw [line], ?_⟩)
      change (stage.next request call answer).ticket = _
      rw [next]
      rfl
    · rw [next, waiting]
      exact .inl rfl
    · refine .inr (.inl ?_)
      change (stage.next request call answer).ticket = _
      rw [next]
      rfl
  enters := by
    intro world threads position request stage call continued answer record later turn held
    change (stage.next request call answer).Holds at held
    rcases lockStep_of_turn turn with ⟨-, -, holds⟩ | ⟨-, next, -⟩ | ⟨waiting, -, -⟩ | ⟨holds, -, -⟩
    · exact .inl (holds held)
    · rw [next] at held
      obtain ⟨_, _, same⟩ := held
      cases same
    · refine .inr ?_
      rw [waiting]
      rfl
    · exact .inl holds
  leaves := by
    intro world threads position request stage call continued answer record later turn
    change _ ∨ stage.Holds ∧ ¬ (stage.next request call answer).Holds
    rcases lockStep_of_turn turn with ⟨line, -, -⟩ | ⟨-, -, line⟩ | ⟨-, -, line⟩ | ⟨holds, next, -⟩
    · exact .inl (by rw [line])
    · exact .inl (by rw [line])
    · exact .inl (by rw [line])
    · refine .inr ⟨holds, ?_⟩
      rw [next]
      rintro ⟨_, _, same⟩
      cases same

/-! ## The register of roots -/

/-- The association root and the relayer's transactions. -/
def RelayWorld.pool (world : RelayWorld) : Mempool RelayTransaction Int where
  current := world.latestRoot
  pending := world.pending
  mined := world.executed.map fun mined => (mined.hash, mined.succeeded)

theorem nonce_pool (world : RelayWorld) : world.pool.nonce = world.nonce := by
  simp only [Mempool.nonce, RelayWorld.pool, RelayWorld.nonce, List.length_map]

theorem pool_broadcast (world : RelayWorld) (tx : RelayTransaction) :
    (world.broadcast tx).pool = world.pool.broadcast tx := by
  simp only [Mempool.broadcast, nonce_pool]
  rfl

theorem rootAfter_eq (root : Int) (tx : RelayTransaction) (succeeded : Bool) :
    RelayWorld.rootAfter root tx succeeded =
      Mempool.after RelayTransaction.publishes root tx succeeded := by
  obtain ⟨destination, data, gas, fee, tip⟩ := tx
  cases data <;> cases succeeded <;> rfl

/-- What changes by itself leaves the transactions alone, or mines the oldest one. -/
theorem pool_changes {later : RelayWorld} (changes : world.Changes later) :
    (later.pool = world.pool ∧ later.executed = world.executed) ∨
      ∃ hash tx rest succeeded, world.pool.pending = (hash, tx) :: rest ∧
        later.pool = world.pool.mine RelayTransaction.publishes hash tx rest succeeded ∧
        later.executed = world.executed ++ [⟨hash, tx, world.latestRoot, succeeded⟩] := by
  cases changes with
  | waits | indexes => exact .inl ⟨rfl, rfl⟩
  | mines succeeded next =>
      refine .inr ⟨_, _, _, succeeded, next, ?_, rfl⟩
      simp only [RelayWorld.pool, Mempool.mine, rootAfter_eq, List.map_append, List.map_cons,
        List.map_nil]

/-- A call leaves the transactions alone, or broadcasts one. -/
theorem pool_answered {call : RelayCall} {later : RelayWorld}
    {answer : Except RelayError call.Answer} {record : List RelayCall}
    (answered : relayEnvironment call world answer record later) :
    later.executed = world.executed ∧ (later.pool = world.pool ∨
      ∃ tx, call = .sendTransaction tx ∧ later.pool = world.pool.broadcast tx) := by
  rcases relayEnvironment_cases answered with ⟨-, rfl, -⟩ | ⟨-, given, performed, -⟩
  · exact ⟨rfl, .inl rfl⟩
  · cases call with
    | sendTransaction tx =>
        obtain ⟨-, -, rfl⟩ := performed
        exact ⟨rfl, .inr ⟨tx, rfl, pool_broadcast world tx⟩⟩
    | _ =>
        obtain ⟨root, pending, executed⟩ := performed.chain_eq nofun
        refine ⟨executed, .inl ?_⟩
        rw [RelayWorld.pool, RelayWorld.pool, root, pending, executed]

/-- Before any transaction of the relayer. -/
def RelayWorld.Fresh (world : RelayWorld) : Prop := world.pending = [] ∧ world.executed = []

theorem bounded_of_run {meets : System.Condition RelayCall.Answer RelayError Nat RelayRequest
    WithdrawalStage RelayWorld} (fresh : initial.Fresh)
    (run : (withdrawalSystem lib cfg initial).Run meets records world threads) :
    world.pool.Bounded := by
  refine run.preserves (fun reached => reached.pool.Bounded) ?_ ?_ ?_
  · change initial.pool.Bounded
    unfold Mempool.Bounded RelayWorld.pool
    rw [fresh.1, fresh.2]
    exact ⟨nofun, nofun⟩
  · intro before later changes bounded
    rcases pool_changes changes with ⟨same, -⟩ | ⟨hash, tx, rest, succeeded, next, mined, -⟩
    · rw [same]
      exact bounded
    · rw [mined]
      exact bounded.mine next
  · intro before threads position request stage call continued answer record later turn bounded
    have answered : relayEnvironment call before answer record later := turn.answered
    rcases (pool_answered answered).2 with same | ⟨tx, -, sent⟩
    · rw [same]
      exact bounded
    · rw [sent]
      exact bounded.broadcast

/-- What a withdrawal knows of its root is so. -/
def RootStanding.Sound (pool : Mempool RelayTransaction Int) : RootStanding → Prop
  | unknown => True
  | published hash root => pool.Awaited RelayTransaction.publishes hash root
  | settled root => pool.Settled RelayTransaction.publishes root

def WithdrawalStage.Sound (pool : Mempool RelayTransaction Int) : WithdrawalStage → Prop
  | inside _ standing => standing.Sound pool
  | _ => True

theorem WithdrawalStage.Sound.mine {pool : Mempool RelayTransaction Int} {stage : WithdrawalStage}
    {hash : Nat} {tx : RelayTransaction} {rest : List (Nat × RelayTransaction)} {succeeded : Bool}
    (sound : stage.Sound pool) (next : pool.pending = (hash, tx) :: rest) :
    stage.Sound (pool.mine RelayTransaction.publishes hash tx rest succeeded) := by
  cases stage with
  | inside place standing =>
      cases standing with
      | unknown => trivial
      | published hash root => exact Mempool.Awaited.mine sound next
      | settled root => exact Mempool.Settled.mine sound next
  | _ => trivial

/-- A transaction that publishes nothing changes nothing a withdrawal knows. -/
theorem WithdrawalStage.Sound.broadcast {pool : Mempool RelayTransaction Int}
    {stage : WithdrawalStage} {tx : RelayTransaction} (sound : stage.Sound pool)
    (silent : tx.publishes = none) : stage.Sound (pool.broadcast tx) := by
  cases stage with
  | inside place standing =>
      cases standing with
      | unknown => trivial
      | published hash root => exact Mempool.Awaited.broadcast sound silent
      | settled root =>
          refine Mempool.Settled.broadcast sound fun written same => ?_
          rw [silent] at same
          cases same
  | _ => trivial

theorem next_inside (request : RelayRequest) (place : Nat) (standing : RootStanding)
    {call : RelayCall} (answer : Except RelayError call.Answer) (stays : call ≠ .leave .lock) :
    (WithdrawalStage.inside place standing).next request call answer =
      .inside place (standing.next request call answer) := by
  cases call with
  | leave chain =>
      cases chain with
      | queue => rfl
      | lock => exact absurd rfl stays
  | _ => rfl

/-- What a withdrawal knows of its root after its own call is so. -/
theorem sound_next {position place : Nat} {request : RelayRequest} {standing : RootStanding}
    {call : RelayCall} {continued : Except RelayError call.Answer → Relay Nat}
    {answer : Except RelayError call.Answer} {record : List RelayCall} {later : RelayWorld}
    (fresh : initial.Fresh)
    (turn : (withdrawalSystem lib cfg initial).Turn WithdrawsSafely world threads position request
      (.inside place standing) call continued answer record later)
    (sound : standing.Sound world.pool) :
    (standing.next request call answer).Sound later.pool := by
  have allowed := allows_of_turn turn
  have answered : relayEnvironment call world answer record later := turn.answered
  obtain ⟨_, before⟩ := turn.before
  have keeps : ∀ kept : RootStanding, kept.Sound world.pool → kept = standing →
      standing ≠ .unknown → kept.Sound later.pool := by
    intro kept held same known
    rcases (pool_answered answered).2 with unchanged | ⟨tx, rfl, sent⟩
    · rw [unchanged]
      exact held
    · have silent : tx.publishes = none := by
        by_contra publishes
        obtain ⟨_, unknown⟩ := allowed.1 publishes
        exact known (WithdrawalStage.inside.inj unknown).2
      rw [sent]
      have inside : (WithdrawalStage.inside place kept).Sound (world.pool.broadcast tx) :=
        .broadcast held silent
      exact inside
  cases standing with
  | unknown =>
      cases call with
      | latestRoot =>
          rcases answer with thrown | root
          · trivial
          · change (if request.aspRoot = some root then RootStanding.settled root
              else .unknown).Sound later.pool
            split
            · rename_i own
              obtain ⟨same, rfl⟩ := relayEnvironment_ok answered
              obtain rfl := Except.ok.inj same
              exact ⟨rfl, turn.met.2 _ turn.found own⟩
            · trivial
      | sendTransaction tx =>
          rcases answer with thrown | hash
          · trivial
          · change RootStanding.Sound later.pool (match tx.publishes with
              | some root => .published hash root
              | none => .unknown)
            cases publishes : tx.publishes with
            | none => trivial
            | some root =>
                obtain ⟨-, same, rfl⟩ := relayEnvironment_ok answered
                obtain rfl := Except.ok.inj same
                rw [pool_broadcast, ← nonce_pool]
                exact Mempool.awaited_broadcast (bounded_of_run fresh before) publishes
      | _ => trivial
  | published hash root =>
      cases call with
      | waitForTransactionReceipt awaited =>
          rcases answer with thrown | status
          · exact keeps _ sound rfl nofun
          · cases status with
            | reverted => exact keeps _ sound rfl nofun
            | success =>
                obtain ⟨_, _, same⟩ := allowed
                obtain ⟨rfl, rfl⟩ := RootStanding.published.inj (WithdrawalStage.inside.inj same).2
                obtain ⟨mined, rfl⟩ := relayEnvironment_ok answered
                obtain ⟨entry, member, rfl, succeeded⟩ := mined .success rfl
                refine Mempool.Awaited.settled sound (List.mem_map.mpr ⟨entry, member, ?_⟩)
                rw [succeeded.mpr rfl]
      | _ => exact keeps _ sound rfl nofun
  | settled root => cases call <;> exact keeps _ sound rfl nofun

/-- **What every withdrawal knows of its root is so, throughout.** -/
theorem sound_of_run (fresh : initial.Fresh)
    (run : (withdrawalSystem lib cfg initial).Run WithdrawsSafely records world threads) :
    ∀ thread ∈ threads, thread.stage.Sound world.pool := by
  refine run.each_at (fun world thread => thread.stage.Sound world.pool) (fun _ _ => trivial)
    ?_ ?_ ?_
  · intro before later thread changes sound
    rcases pool_changes changes with ⟨same, -⟩ | ⟨hash, tx, rest, succeeded, next, mined, -⟩
    · rw [same]
      exact sound
    · rw [mined]
      exact sound.mine next
  · intro before threads position request stage call continued answer record later turn all
    have sound := all _ (List.mem_of_getElem? turn.found)
    change (stage.next request call answer).Sound later.pool
    by_cases leaves : call = .leave .lock ∨ ¬ stage.Holds
    · -- the caller does not hold the lock after the call, or has only just got it
      rcases lockStep_of_turn turn with ⟨-, place, holds⟩ | ⟨-, next, -⟩ | ⟨-, next, -⟩ | ⟨-, next, -⟩
      · cases reached : stage.next request call answer with
        | inside place standing =>
            have held := holds (by rw [reached]; exact ⟨_, _, rfl⟩)
            rcases leaves with rfl | outside
            · obtain ⟨place', standing', rfl⟩ := held
              cases reached
            · exact absurd held outside
        | _ => trivial
      · rw [next]
        trivial
      · rw [next]
        trivial
      · rw [next]
        trivial
    · obtain ⟨stays, held⟩ := not_or.mp leaves
      obtain ⟨place, standing, rfl⟩ := not_not.mp held
      rw [next_inside request place standing answer stays]
      exact sound_next fresh turn sound
  · intro before threads position request stage call continued answer record later turn all other
      thread beside found
    have sound := all thread (List.mem_of_getElem? found)
    have answered : relayEnvironment call before answer record later := turn.answered
    rcases (pool_answered answered).2 with same | ⟨tx, rfl, sent⟩
    · rw [same]
      exact sound
    · rw [sent]
      cases own : thread.stage with
      | inside place standing =>
          rw [own] at sound
          refine sound.broadcast ?_
          -- another withdrawal would have to hold the lock to publish a root
          by_contra publishes
          obtain ⟨place', rfl⟩ := (allows_of_turn turn).1 publishes
          obtain ⟨_, run⟩ := turn.before
          exact beside ((lock_ticketed lib cfg initial).alone run other position thread _ found
            turn.found ⟨place, standing, own⟩ ⟨place', _, rfl⟩)
      | _ => trivial

/-- **A relayed withdrawal meets its own root**, in every run in which a withdrawal that reads
its own root finds no other root pending. -/
theorem relayed_meets_root (lib : RelayLibraries) (cfg : RelayConfig) (initial : RelayWorld)
    (fresh : initial.Fresh) {records : List RelayCall} {world : RelayWorld}
    {threads : List Withdrawing}
    (run : (withdrawalSystem lib cfg initial).Run WithdrawsSafely records world threads) :
    ∀ mined ∈ world.executed, mined.tx.MeetsRoot mined.latestRoot := by
  have both : Mempool.Meets RelayTransaction.publishes RelayTransaction.MeetsRoot world.pool.current
      world.pool.pending ∧ ∀ mined ∈ world.executed, mined.tx.MeetsRoot mined.latestRoot := by
    refine run.preserves (fun reached => Mempool.Meets RelayTransaction.publishes
      RelayTransaction.MeetsRoot reached.pool.current reached.pool.pending ∧
        ∀ mined ∈ reached.executed, mined.tx.MeetsRoot mined.latestRoot) ?_ ?_ ?_
    · change Mempool.Meets _ _ initial.latestRoot initial.pending ∧ ∀ mined ∈ initial.executed, _
      rw [fresh.1, fresh.2]
      exact ⟨trivial, nofun⟩
    · rintro before later changes ⟨meets, met⟩
      rcases pool_changes changes with ⟨same, executed⟩ | ⟨hash, tx, rest, succeeded, next, mined,
        executed⟩
      · rw [same, executed]
        exact ⟨meets, met⟩
      · rw [mined, executed]
        refine ⟨(meets.mine next).2, fun entry member => ?_⟩
        rcases List.mem_append.mp member with old | new
        · exact met entry old
        · obtain rfl := List.mem_singleton.mp new
          rw [next] at meets
          exact meets.1
    · rintro before threads position request stage call continued answer record later turn
        ⟨meets, met⟩
      have answered : relayEnvironment call before answer record later := turn.answered
      obtain ⟨executed, pool⟩ := pool_answered answered
      rw [executed]
      refine ⟨?_, met⟩
      rcases pool with same | ⟨tx, rfl, sent⟩
      · rw [same]
        exact meets
      · rw [sent]
        rcases (allows_of_turn turn).2 with indifferent | ⟨place, root, rfl, own⟩
        · exact meets.broadcast indifferent
        · obtain ⟨_, earlier⟩ := turn.before
          have settled := sound_of_run fresh earlier _ (List.mem_of_getElem? turn.found)
          exact meets.broadcast_settled settled own
  exact both.2

end Runs

/-! ## A root that is mined between the read and the proof -/

namespace SampleRelay

/-- The root of two deposits. -/
def secondRoot : Nat := 7853200120776062878684798364095072458815029376092732009249414926327459813530

/-- Two deposits are indexed, and the root of the first is on chain. -/
def firstPublished : RelayWorld := { world with leaves := [deposit 1, deposit 2], latestRoot := 1 }

/-- A call of the entrypoint as it is sent. -/
def toEntrypoint (data : ContractCall) : RelayTransaction where
  «to» := address 'b'
  data
  gas := 110000
  maxFeePerGas := 100000000000
  maxPriorityFeePerGas := 2000000000

/-- The call of the entrypoint for a withdrawal. -/
def relayed (root : Nat) : ContractCall :=
  .relay (address 'b') (JsString.ascii "0x") {
    pA := [11, 12]
    pB := [[13, 14], [15, 16]]
    pC := [17, 18]
    pubSignals := [21, 22, 23, 24, 1, root, 1, 25] }

/-- Only withdrawals are made. -/
def onlyWithdrawals (threads : List Withdrawing) : Bool :=
  threads.all fun thread =>
    match thread.request with
    | .withdraw _ => true
    | _ => false

theorem onlyPublisher_of_onlyWithdrawals {threads : List Withdrawing}
    (only : onlyWithdrawals threads = true) : OnlyPublisher threads := by
  intro thread present
  have withdraws := List.all_eq_true.mp only thread present
  cases request : thread.request with
  | sendFromRelayer destination data =>
      rw [request] at withdraws
      cases withdraws
  | _ => trivial

/-- Follow a schedule of withdrawals. -/
def playWithdrawals (check : RelayCheck WithdrawalStage)
    (moves : List (System.Move RelayRequest)) : Option (RelayStanding WithdrawalStage) :=
  playRelay libraries config firstPublished (fun _ => .outside)
    (fun request stage _ call answer => stage.next request call answer) node
    (fun world threads position call answer =>
      onlyWithdrawals threads && check world threads position call answer) moves
    (withdrawalSystem libraries config firstPublished).standing

/-- The one withdrawal publishes the second root and does not see it mined; the other reads the
first root, which is its own, and relays its proof. -/
def overtaken : List (System.Move RelayRequest) :=
  [.arrive (.withdraw (withdrawal secondRoot)), .arrive (.withdraw (withdrawal 1))] ++
    List.replicate 20 (.call 0) ++ List.replicate 14 (.call 1)

/-- What remains to be mined after a schedule that has mined nothing. -/
def unminedOf (reached : RelayStanding WithdrawalStage) : Int × List (Nat × RelayTransaction) × Nat :=
  (reached.world.latestRoot, reached.world.pending, reached.world.executed.length)

end SampleRelay

open SampleRelay in
/-- **A relayed withdrawal misses its root** when another root was still pending. -/
theorem withdrawal_misses_root :
    ¬ ∀ records world threads,
      (withdrawalSystem libraries config firstPublished).Run
          (fun _ threads _ _ _ => OnlyPublisher threads) records world threads →
        ∀ mined ∈ world.executed, mined.tx.MeetsRoot mined.latestRoot := by
  intro meets
  have computed : (playWithdrawals (fun _ _ _ _ _ => true) overtaken).map unminedOf =
      some (1, [(0, toEntrypoint (.updateRoot secondRoot)), (1, toEntrypoint (relayed 1))], 0) := by
    decide +kernel
  obtain ⟨reached, played, summary⟩ := Option.map_eq_some_iff.mp computed
  obtain ⟨root, pending, executed⟩ : reached.world.latestRoot = 1 ∧
      reached.world.pending = [(0, toEntrypoint (.updateRoot secondRoot)),
        (1, toEntrypoint (relayed 1))] ∧ reached.world.executed.length = 0 := by
    simpa only [unminedOf, Prod.mk.injEq] using summary
  have run : (withdrawalSystem libraries config firstPublished).Run
      (fun _ threads _ _ _ => OnlyPublisher threads) reached.records reached.world
      reached.threads :=
    run_of_playRelay libraries config (fun _ _ _ _ _ passed =>
      onlyPublisher_of_onlyWithdrawals (Bool.and_eq_true_iff.mp passed).1) _ .start played
  have published := System.Run.pass run (.mines true pending)
  have overtaken := System.Run.pass published (.mines false rfl)
  have met := meets _ _ _ overtaken _ (List.mem_append_right _ (List.mem_singleton_self _))
    (address 'b') (JsString.ascii "0x") _ rfl
  change some (1 : Int) = some (secondRoot : Int) at met
  revert met
  decide +kernel

namespace SampleRelay

/-- A withdrawal reads its own root and relays its proof. -/
def undisturbed : List (System.Move RelayRequest) :=
  .arrive (.withdraw (withdrawal 1)) :: List.replicate 14 (.call 0)

/-- Nothing is pending when the root is read. -/
def nothingPending (world : RelayWorld) (_ : List Withdrawing) (_ : Nat) (call : RelayCall)
    (_ : Except RelayError call.Answer) : Bool :=
  match call with
  | .latestRoot => world.pending.isEmpty
  | _ => true

theorem readsSettled_of_nothingPending {threads : List Withdrawing} {position : Nat}
    {call : RelayCall} {answer : Except RelayError call.Answer} (world : RelayWorld)
    (checked : nothingPending world threads position call answer = true) :
    ReadsSettled world threads position call answer := by
  cases call with
  | latestRoot =>
      rcases answer with thrown | root
      · trivial
      · intro thread found own entry member
        rw [List.isEmpty_iff.mp checked] at member
        cases member
  | _ => trivial

end SampleRelay

open SampleRelay in
/-- A withdrawal whose root is on chain meets it. -/
theorem relayed_meets_root_undisturbed :
    ∃ records world threads, ∃ mined ∈ world.executed, mined.tx = toEntrypoint (relayed 1) ∧
      (withdrawalSystem libraries config firstPublished).Run WithdrawsSafely records world threads ∧
        mined.tx.MeetsRoot mined.latestRoot := by
  have computed : (playWithdrawals nothingPending undisturbed).map unminedOf =
      some (1, [(0, toEntrypoint (relayed 1))], 0) := by
    decide +kernel
  obtain ⟨reached, played, summary⟩ := Option.map_eq_some_iff.mp computed
  obtain ⟨-, pending, -⟩ : reached.world.latestRoot = 1 ∧
      reached.world.pending = [(0, toEntrypoint (relayed 1))] ∧
        reached.world.executed.length = 0 := by
    simpa only [unminedOf, Prod.mk.injEq] using summary
  have run : (withdrawalSystem libraries config firstPublished).Run WithdrawsSafely reached.records
      reached.world reached.threads :=
    run_of_playRelay libraries config (fun world _ _ _ _ passed =>
      ⟨onlyPublisher_of_onlyWithdrawals (Bool.and_eq_true_iff.mp passed).1,
        readsSettled_of_nothingPending world (Bool.and_eq_true_iff.mp passed).2⟩) _ .start played
  let mined : Execution := ⟨0, toEntrypoint (relayed 1), reached.world.latestRoot, true⟩
  have done := System.Run.pass run (.mines true pending)
  have last : mined ∈ reached.world.executed ++ [mined] :=
    List.mem_append_right _ (List.mem_singleton_self mined)
  exact ⟨_, _, _, mined, last, rfl, done, relayed_meets_root libraries config firstPublished
    ⟨rfl, rfl⟩ done mined last⟩

end Numera
