import Numera.Relay.Footprint

/-! # How a request sends

Every request passes the ceiling of the day before it sends, sends from the nonce queue, and
records what it spends right after. What it does besides moves no stage that is about sending.
A stage for which the ceiling and one transaction are understood (`SendingRules`) is understood
for every request (`SendingRules.start`).
-/

namespace Numera

open Async (CallsOnly Follows)

/-- A call that neither sends nor concerns the day's counter. -/
def RelayCall.besideSpend : RelayCall → Bool
  | sendTransaction _ | get _ | incrby _ _ => false
  | incr (.spend _) | expire (.spend _) _ => false
  | _ => true

section Beside

variable {cfg : RelayConfig}

theorem besideSpend_enforceAccountRate (account : JsString) :
    (RelayService.enforceAccountRate cfg account).CallsOnly
      fun call => call.besideSpend = true := by
  refine .bind (.perform rfl) fun count => .bind ?_ fun _ => ?_
  · split
    · exact .perform rfl
    · trivial
  · split <;> trivial

theorem besideSpend_gasFor (estimate : Nat) :
    (RelayService.gasFor cfg estimate).CallsOnly fun call => call.besideSpend = true := by
  unfold RelayService.gasFor
  split
  · trivial
  · exact .bind (.tryCatch (.bind (.perform rfl) fun _ => trivial) fun _ => trivial)
      fun _ => trivial

theorem besideSpend_simulate (destination : JsString) (data : ContractCall)
    (refusal : RelayError → RelayError) :
    (RelayService.simulate destination data refusal).CallsOnly
      fun call => call.besideSpend = true :=
  .tryCatch (.bind (.perform rfl) fun _ => .perform rfl) fun _ => trivial

theorem besideSpend_verifyRelayable (forwarder : JsString) (request : ContractRequest) :
    (tryCatch (RelayCall.verifyRelayable forwarder request).request fun _ => return false :
      Relay Bool).CallsOnly fun call => call.besideSpend = true :=
  .tryCatch (.perform rfl) fun _ => trivial

theorem besideSpend_receiptFor (hash : Nat) :
    (RelayService.receiptFor hash).CallsOnly fun call => call.besideSpend = true :=
  .tryCatch (.bind (.perform rfl) fun _ => trivial) fun _ => trivial

end Beside

/-! ## Stages that are about sending -/

section Sends

variable {S α β : Type}
  (next : S → RelayWorld → (call : RelayCall) → Except RelayError call.Answer → S)
  (allowed : S → RelayCall → Prop)

/-- Whatever it is answered, a part of a request keeps to the rules of its stage, and returns
at a stage as required. -/
def Sends (ends : S → Prop) (stage : S) (task : Relay α) : Prop :=
  Follows next allowed (fun reached outcome => ∀ value, outcome = .ok value → ends reached) stage
    task

/-- The rules of a stage about sending: nothing else moves it, who has passed the ceiling may
send, and who has sent may pass it again. -/
structure SendingRules (cfg : RelayConfig) (idle passed : S → Prop) : Prop where
  idle_of_passed : ∀ stage, passed stage → idle stage
  beside : ∀ stage call, idle stage → call.besideSpend = true →
    allowed stage call ∧ ∀ world answer, next stage world call answer = stage
  leaves : ∀ stage chain, allowed stage (.leave chain) ∧
    ∀ world answer, next stage world (.leave chain) answer = stage
  caps : ∀ stage, idle stage → Sends next allowed passed stage (RelayService.enforceDailyCap cfg)
  sends : ∀ stage destination data gas, passed stage →
    Sends next allowed idle stage (RelayService.sendTransaction cfg destination data gas)

variable {next allowed} {cfg : RelayConfig} {idle passed ends middle : S → Prop} {stage : S}

namespace Sends

theorem error (thrown : RelayError) :
    Sends next allowed ends stage (.done (.error thrown) : Relay α) := by
  intro value same
  cases same

theorem bind {first : Relay β} {rest : β → Relay α} (sends : Sends next allowed middle stage first)
    (follows : ∀ value reached, middle reached → Sends next allowed ends reached (rest value)) :
    Sends next allowed ends stage (first >>= rest) := by
  refine Follows.bind (Follows.mono sends ?_)
  intro reached outcome returned
  cases outcome with
  | ok value => exact follows value reached (returned value rfl)
  | error thrown => exact fun _ same => by cases same

/-- What is caught only to be thrown again. -/
theorem rethrow {task : Relay α} (refusal : RelayError)
    (sends : Sends next allowed ends stage task) :
    Sends next allowed ends stage (tryCatch task fun _ => throw refusal) := by
  refine Follows.tryCatch (Follows.mono sends ?_)
  intro reached outcome returned
  cases outcome with
  | ok value => exact returned
  | error thrown => exact fun _ same => by cases same

/-- A conversion, and what follows it. -/
theorem after_done {value : Except RelayError β} {rest : β → Relay α}
    (follows : ∀ result, Sends next allowed ends stage (rest result)) :
    Sends next allowed ends stage (Async.done value >>= rest) := by
  cases value with
  | ok result => exact follows result
  | error thrown => exact error thrown

end Sends

namespace SendingRules

variable {lib : RelayLibraries} (rules : SendingRules next allowed cfg idle passed)
include rules

/-- A part beside the sending, and what follows it at the same stage. -/
theorem after {first : Relay β} {rest : β → Relay α} (ready : idle stage)
    (only : first.CallsOnly fun call => call.besideSpend = true)
    (follows : ∀ value, Sends next allowed ends stage (rest value)) :
    Sends next allowed ends stage (first >>= rest) :=
  .neutral_bind only (fun call beside => (rules.beside stage call ready beside).1)
    (fun call beside => (rules.beside stage call ready beside).2) follows fun _ _ same => by
      cases same

/-- A job on a promise chain. -/
theorem exclusively {chain : Chained} {fn : Relay α} (ready : idle stage)
    (job : Sends next allowed ends stage fn) :
    Sends next allowed ends stage (Numera.exclusively chain fn) := by
  refine rules.after ready (.perform rfl) fun place => rules.after ready (.perform rfl) fun _ => ?_
  have through : Follows next allowed (fun reached outcome => ∃ result, outcome = .ok result ∧
      ∀ value, result = .ok value → ends reached) stage (settled fn) := by
    refine Follows.tryCatch (Follows.bind (Follows.mono job ?_))
    intro reached outcome returned
    cases outcome with
    | ok value => exact ⟨_, rfl, fun _ _ => returned value rfl⟩
    | error thrown => exact ⟨_, rfl, fun _ same => by cases same⟩
  refine Follows.bind (Follows.mono through ?_)
  rintro reached outcome ⟨result, rfl, returned⟩
  obtain ⟨may, unmoved⟩ := rules.leaves reached chain
  refine Follows.perform_bind may (fun world _ => ?_) fun _ _ _ same => by cases same
  rw [unmoved]
  exact returned

/-- A call that is simulated and sent by a request that has passed the ceiling. -/
theorem simulated (destination : JsString) (data : ContractCall)
    (refusal : RelayError → RelayError) (cleared : passed stage) :
    Sends next allowed idle stage (do
      let gas ← RelayService.simulate destination data refusal
      RelayService.sendTransaction cfg destination data gas) :=
  rules.after (rules.idle_of_passed stage cleared) (besideSpend_simulate _ _ _) fun gas =>
    rules.sends stage destination data gas cleared

theorem sendFromRelayer (ready : idle stage) (destination : JsString) (data : ContractCall) :
    Sends next allowed idle stage (RelayService.sendFromRelayer cfg destination data) := by
  refine rules.after ready (.perform rfl) fun wiring => ?_
  split
  · exact .error _
  · refine .bind (rules.caps stage ready) fun _ reached cleared => ?_
    exact rules.exclusively (rules.idle_of_passed reached cleared) (rules.simulated _ _ _ cleared)

theorem submitRequest (ready : idle stage) (requestRules : RelayService.RequestRules)
    (payload : RelayRequestDto) :
    Sends next allowed idle stage (RelayService.submitRequest lib cfg requestRules payload) := by
  refine .after_done fun signed => ?_
  split
  · exact .error _
  · split
    · exact .error _
    · refine rules.after ready (besideSpend_enforceAccountRate _) fun _ =>
        .bind (rules.caps stage ready) fun _ reached cleared => ?_
      have still := rules.idle_of_passed reached cleared
      refine rules.after still (besideSpend_verifyRelayable _ _) fun valid => ?_
      split
      · exact .error _
      · exact rules.exclusively still (.after_done fun data => rules.simulated _ data _ cleared)

theorem submitPermit (ready : idle stage) (permit : PermitRequestDto) :
    Sends next allowed idle stage (RelayService.submitPermit lib cfg permit) := by
  refine rules.after ready (.perform rfl) fun wiring => ?_
  split
  · exact .error _
  · split
    · exact .error _
    · refine rules.after ready (besideSpend_enforceAccountRate _) fun _ =>
        .bind (rules.caps stage ready) fun _ reached cleared => .after_done fun data => ?_
      exact rules.exclusively (rules.idle_of_passed reached cleared)
        (rules.simulated _ _ _ cleared)

theorem publishAspRoot (ready : idle stage) (root : Int) :
    Sends next allowed idle stage (PoolService.publishAspRoot lib cfg root) := by
  refine rules.after ready (.perform rfl) fun current => ?_
  split
  · exact fun _ _ => ready
  · refine .after_done fun data =>
      .bind (rules.sendFromRelayer ready _ _) fun hash reached still =>
        rules.after still (besideSpend_receiptFor hash) fun receipt => ?_
    split
    · exact .error _
    · exact fun _ _ => still

theorem withdraw (ready : idle stage) (dto : PoolWithdrawDto) :
    Sends next allowed idle stage (PoolService.withdraw lib cfg dto) := by
  unfold PoolService.withdraw
  split
  · exact .error _
  · refine rules.after ready (.perform rfl) fun synced => ?_
    split
    · exact .error _
    · refine .after_done fun withdrawal => .after_done fun signed =>
        rules.after ready (.perform rfl) fun rows =>
          .after_done fun known => .after_done fun root => .after_done fun proof =>
            rules.exclusively ready ?_
      exact .bind (rules.publishAspRoot ready root) fun _ reached still => .after_done fun call =>
        .rethrow _ (rules.sendFromRelayer still _ _)

theorem shield (ready : idle stage) (dto : PoolShieldDto) :
    Sends next allowed idle stage (PoolService.shield lib cfg dto) := by
  unfold PoolService.shield
  split
  · exact .error _
  · refine .after_done fun deposit => ?_
    split
    · exact .error _
    · refine rules.after ready (.perform rfl) fun now => ?_
      split
      · exact .error _
      · exact .after_done fun data => .rethrow _ (rules.sendFromRelayer ready _ _)

/-- **Every request keeps to the rules of a stage about sending.** -/
theorem start (ready : idle stage) (request : RelayRequest) :
    Sends next allowed idle stage (request.start lib cfg) := by
  cases request with
  | submit payload =>
      refine rules.after ready (.perform rfl) fun wiring => ?_
      split
      · exact .error _
      · exact rules.submitRequest ready _ _
  | submitResolution payload =>
      refine rules.after ready (.perform rfl) fun wiring => ?_
      split
      · exact .error _
      · split
        · exact .error _
        · exact rules.submitRequest ready _ _
  | submitPermit permit => exact rules.submitPermit ready permit
  | sendFromRelayer destination data => exact rules.sendFromRelayer ready destination data
  | withdraw dto => exact rules.withdraw ready dto
  | shield dto => exact rules.shield ready dto

end SendingRules

end Sends

end Numera
