import Numera.Relay.Footprint

/-! # Refusals that say nothing was sent

A request may be refused with a message that nothing was sent or spent. The requests of
the relay itself refuse so only before they broadcast. A withdrawal publishes a root
first, and it and a deposit give every error of their own transaction the same message, so
that theirs may be false: exactly when something goes wrong from the point on where the
root's receipt is awaited or the transaction itself has been broadcast
(`saysNothingSent_iff_undisturbed`).
-/

namespace Numera

open Async (Ends Environment Reaches)

/-! ## What happens during a request -/

/-- A call of a request: how it was answered, and whether it was performed. -/
structure Exchange where
  call : RelayCall
  answer : Except RelayError call.Answer
  performed : Bool

namespace Exchange

/-- A call that is answered with a value was performed, and inside the process every call
is. -/
def Possible (exchange : Exchange) : Prop :=
  match exchange.answer with
  | .ok _ => exchange.performed = true
  | .error thrown => exchange.call.external = true ∧ ∃ error, thrown = .call error

/-- A transaction was broadcast. -/
def broadcasts (exchange : Exchange) : Bool :=
  match exchange.call with
  | .sendTransaction _ => exchange.performed
  | _ => false

/-- The point from which a failure is reported as if nothing had been sent: the wait for the
receipt of a root, and the broadcast of anything but a root. -/
def commits (exchange : Exchange) : Bool :=
  match exchange.call with
  | .sendTransaction tx =>
      exchange.performed && match tx.data with
        | .updateRoot _ => false
        | _ => true
  | .waitForTransactionReceipt _ => true
  | _ => false

/-- Something went wrong: the answer is missing, except that of the fees, which have a
default, or it is one that stops a transaction. -/
def setback (cfg : RelayConfig) (exchange : Exchange) : Bool :=
  match exchange.call, exchange.answer with
  | .estimateFeesPerGas, _ => false
  | .wiring, .ok wiring => !(cfg.enabled && wiring.connected)
  | .get _, .ok spent => cfg.dailyCapWei ≤ spent.getD 0 * RelayService.gweiWei
  | .estimateGas _ _, .ok gas => cfg.maxGas < RelayService.gasLimit gas
  | .waitForTransactionReceipt _, .ok status => status ≠ .success
  | _, .ok _ => false
  | _, .error _ => true

end Exchange

/-- Whatever other requests and the world do meanwhile, and whatever fails. -/
def exchanges : Environment RelayCall.Answer RelayError Unit Exchange :=
  fun call _ answer record _ =>
    ∃ performed, record = [⟨call, answer, performed⟩] ∧
      Exchange.Possible ⟨call, answer, performed⟩

/-- Something went wrong at or after a point from which failures are reported as if nothing
had been sent. -/
def Disturbed (cfg : RelayConfig) (trace : List Exchange) : Prop :=
  ∃ before exchange after, trace = before ++ exchange :: after ∧ exchange.commits = true ∧
    ∃ later ∈ exchange :: after, later.setback cfg = true

/-- The requests that give the errors of their transactions a message of their own. -/
def RelayRequest.rewords : RelayRequest → Bool
  | withdraw _ | shield _ => true
  | _ => false

/-! ## Progress -/

/-- What has happened so far: whether a transaction was broadcast, whether failures are
reported as if none had been, and whether something has gone wrong since. -/
structure Progress where
  broadcast : Bool := false
  committed : Bool := false
  failed : Bool := false

namespace Progress

variable (cfg : RelayConfig)

def next (progress : Progress) (exchange : Exchange) : Progress :=
  let committed := progress.committed || exchange.commits
  { broadcast := progress.broadcast || exchange.broadcasts
    committed
    failed := progress.failed || (committed && exchange.setback cfg) }

/-- Something goes wrong. -/
def disturb (progress : Progress) : Progress :=
  { progress with failed := progress.failed || progress.committed }

/-- A transaction is broadcast. -/
def sent (progress : Progress) (data : ContractCall) : Progress :=
  { progress with
    broadcast := true
    committed := progress.committed || match data with
      | .updateRoot _ => false
      | _ => true }

variable {cfg} {progress : Progress} {exchange : Exchange}

theorem next_quiet (quiet : exchange.commits = false) (silent : exchange.broadcasts = false) :
    progress.next cfg exchange =
      if exchange.setback cfg = true then progress.disturb else progress := by
  unfold next disturb
  rw [quiet, silent]
  cases exchange.setback cfg <;> simp

theorem foldl_broadcast (trace : List Exchange) :
    (trace.foldl (next cfg) progress).broadcast = true ↔
      progress.broadcast = true ∨ ∃ exchange ∈ trace, exchange.broadcasts = true := by
  induction trace generalizing progress with
  | nil => simp
  | cons exchange trace ih =>
      rw [List.foldl_cons, ih]
      simp [next, or_assoc]

theorem foldl_failed (trace : List Exchange) :
    (trace.foldl (next cfg) progress).failed = true ↔
      progress.failed = true ∨
        (progress.committed = true ∧ ∃ exchange ∈ trace, exchange.setback cfg = true) ∨
          Disturbed cfg trace := by
  induction trace generalizing progress with
  | nil =>
      have none : ¬ Disturbed cfg [] := by
        rintro ⟨before, exchange, after, split, -⟩
        cases before <;> cases split
      simp [none]
  | cons exchange trace ih =>
      have disturbed_cons : Disturbed cfg (exchange :: trace) ↔
          (exchange.commits = true ∧ ∃ later ∈ exchange :: trace, later.setback cfg = true) ∨
            Disturbed cfg trace := by
        constructor
        · rintro ⟨before, point, after, split, commits, later⟩
          cases before with
          | nil =>
              obtain ⟨rfl, rfl⟩ := List.cons.inj split
              exact .inl ⟨commits, later⟩
          | cons first before =>
              obtain ⟨rfl, rfl⟩ := List.cons.inj split
              exact .inr ⟨before, point, after, rfl, commits, later⟩
        · rintro (⟨commits, later⟩ | ⟨before, point, after, rfl, commits, later⟩)
          · exact ⟨[], exchange, trace, rfl, commits, later⟩
          · exact ⟨exchange :: before, point, after, rfl, commits, later⟩
      rw [List.foldl_cons, ih, disturbed_cons]
      simp only [next, Bool.or_eq_true, Bool.and_eq_true, List.mem_cons, exists_eq_or_imp]
      grind

end Progress

/-! ## How the parts of a request end -/

/-- Whatever happens meanwhile, a part of a request ends as required of its outcome and of the
progress made. -/
def EndsWith {α : Type} (cfg : RelayConfig) (post : Except RelayError α → Progress → Prop)
    (task : Relay α) (progress : Progress) : Prop :=
  Ends (exchanges.summarised (Progress.next cfg)) (fun outcome final => post outcome final.2) task
    ((), progress)

/-- A call that neither broadcasts nor awaits a receipt. -/
def RelayCall.quiet : RelayCall → Bool
  | sendTransaction _ | waitForTransactionReceipt _ => false
  | _ => true

/-- The progress after a quiet call. -/
def Progress.quietly (cfg : RelayConfig) (progress : Progress) (call : RelayCall)
    (answer : Except RelayError call.Answer) : Progress :=
  if Exchange.setback cfg ⟨call, answer, true⟩ = true then progress.disturb else progress

theorem Progress.quietly_disturb {cfg : RelayConfig} {progress : Progress} {call : RelayCall}
    {answer : Except RelayError call.Answer}
    (setback : Exchange.setback cfg ⟨call, answer, true⟩ = true) :
    progress.quietly cfg call answer = progress.disturb := if_pos setback

theorem Progress.quietly_smooth {cfg : RelayConfig} {progress : Progress} {call : RelayCall}
    {answer : Except RelayError call.Answer}
    (smooth : Exchange.setback cfg ⟨call, answer, true⟩ = false) :
    progress.quietly cfg call answer = progress := by
  rw [quietly, smooth]
  exact if_neg Bool.false_ne_true

section Ends

variable {α β : Type} {cfg : RelayConfig} {post : Except RelayError α → Progress → Prop}
  {progress : Progress}

theorem EndsWith.bind {first : Relay β} {rest : β → Relay α}
    (ends : EndsWith cfg (fun outcome final =>
      match outcome with
      | .ok value => EndsWith cfg post (rest value) final
      | .error thrown => post (.error thrown) final) first progress) :
    EndsWith cfg post (first >>= rest) progress :=
  Ends.bind (Ends.mono ends fun outcome _ ended => by cases outcome <;> exact ended)

theorem EndsWith.tryCatch {task : Relay α} {handler : RelayError → Relay α}
    (ends : EndsWith cfg (fun outcome final =>
      match outcome with
      | .ok value => post (.ok value) final
      | .error thrown => EndsWith cfg post (handler thrown) final) task progress) :
    EndsWith cfg post (tryCatch task handler) progress :=
  Ends.tryCatch (Ends.mono ends fun outcome _ ended => by cases outcome <;> exact ended)

theorem EndsWith.value {value : α} (ended : post (.ok value) progress) :
    EndsWith cfg post (pure value) progress := ended

/-- A quiet call. -/
theorem EndsWith.quiet (call : RelayCall) {post : Except RelayError call.Answer → Progress → Prop}
    (quiet : call.quiet = true)
    (answered : ∀ value, post (.ok value) (progress.quietly cfg call (.ok value)))
    (rejected : call.external = true → ∀ error, post (.error (.call error))
      (progress.quietly cfg call (.error (.call error)))) :
    EndsWith cfg post call.request progress := by
  refine Ends.perform ?_
  rintro answer record ⟨⟨⟩, later⟩ ⟨⟨performed, rfl, possible⟩, made⟩
  obtain rfl : later = progress.quietly cfg call answer := by
    refine made.trans (Progress.next_quiet ?_ ?_)
    · cases call <;> first | rfl | cases quiet
    · cases call <;> first | rfl | cases quiet
  cases answer with
  | ok value => exact answered value
  | error thrown =>
      obtain ⟨external, error, rfl⟩ := possible
      exact rejected external error

/-- A quiet call inside the process that is never a setback. -/
theorem EndsWith.inside {call : RelayCall} {rest : call.Answer → Relay α}
    (quiet : call.quiet = true) (inside : call.external = false)
    (smooth : ∀ value, Exchange.setback cfg ⟨call, .ok value, true⟩ = false)
    (follows : ∀ value, EndsWith cfg post (rest value) progress) :
    EndsWith cfg post (call.request >>= rest) progress := by
  refine .bind (.quiet call quiet (fun value => ?_) fun external => ?_)
  · rw [Progress.quietly_smooth (smooth value)]
    exact follows value
  · rw [inside] at external
    cases external

/-- A quiet call that is a setback exactly when its answer is missing. -/
theorem EndsWith.outside {call : RelayCall} {rest : call.Answer → Relay α}
    (quiet : call.quiet = true)
    (smooth : ∀ value, Exchange.setback cfg ⟨call, .ok value, true⟩ = false)
    (spoils : ∀ thrown, Exchange.setback cfg ⟨call, .error thrown, true⟩ = true)
    (follows : ∀ value, EndsWith cfg post (rest value) progress)
    (rejected : ∀ error, post (.error (.call error)) progress.disturb) :
    EndsWith cfg post (call.request >>= rest) progress := by
  refine .bind (.quiet call quiet (fun value => ?_) fun _ error => ?_)
  · rw [Progress.quietly_smooth (smooth value)]
    exact follows value
  · rw [Progress.quietly_disturb (spoils _)]
    exact rejected error

/-- A conversion makes no progress. -/
theorem EndsWith.done {value : Except RelayError β} {rest : β → Relay α}
    (returned : ∀ result, EndsWith cfg post (rest result) progress)
    (thrown : ∀ error, value = .error error → post (.error error) progress) :
    EndsWith cfg post (Async.done value >>= rest) progress := by
  cases value with
  | ok result => exact returned result
  | error error => exact thrown error rfl

/-- A call is encoded as itself, or the encoder throws. -/
theorem EndsWith.encoded {lib : RelayLibraries} {data : ContractCall}
    {rest : ContractCall → Relay α} (encoded : EndsWith cfg post (rest data) progress)
    (thrown : post (.error (.thrown .encoding)) progress) :
    EndsWith cfg post (Async.done (encodeFunctionData lib data) >>= rest) progress := by
  unfold encodeFunctionData
  split
  · exact encoded
  · exact thrown

/-- A job on a promise chain ends as it would by itself. -/
theorem EndsWith.exclusively {chain : Chained} {fn : Relay α} (job : EndsWith cfg post fn progress) :
    EndsWith cfg post (Numera.exclusively chain fn) progress := by
  refine .inside rfl rfl (fun _ => rfl) fun place => .inside rfl rfl (fun _ => rfl) fun _ =>
    .bind (.tryCatch (.bind (Ends.mono job ?_)))
  rintro (thrown | value) final ended <;>
    exact EndsWith.inside rfl rfl (fun _ => rfl) fun _ => ended

/-- The key of the day is read inside the process. -/
theorem ends_spendKey {post : Except RelayError RedisKey → Progress → Prop}
    (read : ∀ key, post (.ok key) progress) :
    EndsWith cfg post RelayService.spendKey progress :=
  .inside rfl rfl (fun _ => rfl) fun now => read (.spend (now / 86400000))

/-- The daily cap lets a request pass, or something is wrong. -/
theorem ends_enforceDailyCap {post : Except RelayError Unit → Progress → Prop}
    (passes : post (.ok ()) progress) (refused : ∀ error, post (.error error) progress.disturb) :
    EndsWith cfg post (RelayService.enforceDailyCap cfg) progress := by
  refine .bind (.bind (ends_spendKey fun key =>
    .bind (.quiet (.get key) rfl (fun spent => ?_) ?_)))
  · change EndsWith cfg post (if spent.getD 0 * RelayService.gweiWei ≥ cfg.dailyCapWei then _ else _)
      (progress.quietly cfg (.get key) (.ok spent))
    by_cases reached : cfg.dailyCapWei ≤ spent.getD 0 * RelayService.gweiWei
    · have setback : Exchange.setback cfg ⟨.get key, .ok spent, true⟩ = true :=
        decide_eq_true reached
      rw [if_pos reached, Progress.quietly_disturb setback]
      exact refused _
    · have smooth : Exchange.setback cfg ⟨.get key, .ok spent, true⟩ = false :=
        decide_eq_false reached
      rw [if_neg reached, Progress.quietly_smooth smooth]
      exact passes
  · exact fun _ error => refused _

/-- The spend is recorded, or something is wrong. -/
theorem ends_recordSpend {post : Except RelayError Unit → Progress → Prop} {wei : Nat}
    (recorded : post (.ok ()) progress)
    (failed : ∀ error, post (.error (.call error)) progress.disturb) :
    EndsWith cfg post (RelayService.recordSpend wei) progress :=
  .bind (ends_spendKey fun key => .outside rfl (fun _ => rfl) (fun _ => rfl)
    (fun _ => .quiet (.expire key _) rfl (fun _ => recorded) fun _ => failed) failed)

/-- A policy is found for an estimate within the bounds. -/
theorem ends_gasFor {post : Except RelayError RelayService.GasPolicy → Progress → Prop}
    {estimate : Nat} (within : RelayService.gasLimit estimate ≤ cfg.maxGas)
    (found : ∀ policy, post (.ok policy) progress) :
    EndsWith cfg post (RelayService.gasFor cfg estimate) progress := by
  unfold RelayService.gasFor
  rw [if_neg (Nat.not_lt.mpr within)]
  exact .bind (.tryCatch (.bind
    (.quiet .estimateFeesPerGas rfl (fun fees => found _) fun _ error => found _)))

/-- A broadcast is refused, performed and answered, or its answer is lost. -/
theorem EndsWith.broadcast {post : Except RelayError Nat → Progress → Prop} {tx : RelayTransaction}
    (sent : ∀ hash, post (.ok hash) (progress.sent tx.data))
    (refused : ∀ error, post (.error error) progress.disturb)
    (lost : ∀ error, post (.error (.call error)) (progress.sent tx.data).disturb) :
    EndsWith cfg post (RelayCall.sendTransaction tx).request progress := by
  refine Ends.perform ?_
  rintro answer record ⟨⟨⟩, later⟩ ⟨⟨performed, rfl, possible⟩, made⟩
  obtain rfl : later = progress.next cfg ⟨.sendTransaction tx, answer, performed⟩ := made
  cases answer with
  | ok hash =>
      obtain rfl : performed = true := possible
      have next_sent : progress.next cfg ⟨.sendTransaction tx, .ok hash, true⟩ =
          progress.sent tx.data := by
        simp [Progress.next, Progress.sent, Exchange.commits, Exchange.broadcasts, Exchange.setback]
      rw [next_sent]
      exact sent hash
  | error thrown =>
      obtain ⟨-, error, rfl⟩ := possible
      cases performed with
      | true =>
          have next_lost : progress.next cfg ⟨.sendTransaction tx, .error (.call error), true⟩ =
              (progress.sent tx.data).disturb := by
            simp [Progress.next, Progress.sent, Progress.disturb, Exchange.commits,
              Exchange.broadcasts, Exchange.setback]
          rw [next_lost]
          exact lost error
      | false =>
          have next_refused : progress.next cfg ⟨.sendTransaction tx, .error (.call error), false⟩ =
              progress.disturb := by
            simp [Progress.next, Progress.disturb, Exchange.commits, Exchange.broadcasts,
              Exchange.setback]
          rw [next_refused]
          exact refused _

/-- A simulation gives an estimate beyond the bounds or within them, or something is wrong. -/
theorem ends_simulate {post : Except RelayError Nat → Progress → Prop} {destination : JsString}
    {data : ContractCall} {refusal : RelayError → RelayError}
    (beyond : ∀ gas, cfg.maxGas < RelayService.gasLimit gas → post (.ok gas) progress.disturb)
    (within : ∀ gas, RelayService.gasLimit gas ≤ cfg.maxGas → post (.ok gas) progress)
    (refused : ∀ error, post (.error error) progress.disturb) :
    EndsWith cfg post (RelayService.simulate destination data refusal) progress := by
  refine .tryCatch (.outside rfl (fun _ => rfl) (fun _ => rfl) (fun _ =>
    .quiet (.estimateGas destination data) rfl (fun gas => ?_) fun _ error => refused _)
      fun error => refused _)
  change post (.ok gas) (progress.quietly cfg (.estimateGas destination data) (.ok gas))
  by_cases exceeds : cfg.maxGas < RelayService.gasLimit gas
  · have setback : Exchange.setback cfg ⟨.estimateGas destination data, .ok gas, true⟩ = true :=
      decide_eq_true exceeds
    rw [Progress.quietly_disturb setback]
    exact beyond gas exceeds
  · have smooth : Exchange.setback cfg ⟨.estimateGas destination data, .ok gas, true⟩ = false :=
      decide_eq_false exceeds
    rw [Progress.quietly_smooth smooth]
    exact within gas (Nat.not_lt.mp exceeds)

/-- A transaction is simulated and sent: it is sent, or refused before the broadcast, or
something goes wrong after it. -/
theorem ends_simulateAndSend {post : Except RelayError Nat → Progress → Prop}
    {destination : JsString} {data : ContractCall} {refusal : RelayError → RelayError}
    (sent : ∀ hash, post (.ok hash) (progress.sent data))
    (refused : ∀ error, post (.error error) progress.disturb)
    (lost : ∀ error, post (.error (.call error)) (progress.sent data).disturb) :
    EndsWith cfg post (do
      let gas ← RelayService.simulate destination data refusal
      RelayService.sendTransaction cfg destination data gas) progress := by
  refine .bind (ends_simulate (fun gas exceeds => ?_) (fun gas within => ?_) refused)
  · refine .bind ?_
    unfold RelayService.gasFor
    rw [if_pos exceeds]
    exact refused _
  · exact .bind (ends_gasFor within fun policy => .bind (.broadcast
      (fun hash => .bind (ends_recordSpend (sent hash) lost)) refused lost))

/-- A call of the platform's own: it is sent, or refused before the broadcast, or something
goes wrong after it. -/
theorem ends_sendFromRelayer {post : Except RelayError Nat → Progress → Prop}
    {destination : JsString} {data : ContractCall}
    (sent : ∀ hash, post (.ok hash) (progress.sent data))
    (refused : ∀ error, post (.error error) progress.disturb)
    (lost : ∀ error, post (.error (.call error)) (progress.sent data).disturb) :
    EndsWith cfg post (RelayService.sendFromRelayer cfg destination data) progress := by
  refine .bind (.quiet .wiring rfl (fun wiring => ?_) fun external => nomatch external)
  change EndsWith cfg post (if (!(cfg.enabled && wiring.connected)) = true then _ else _)
    (progress.quietly cfg .wiring (.ok wiring))
  cases disabled : !(cfg.enabled && wiring.connected) with
  | true =>
      have setback : Exchange.setback cfg ⟨.wiring, .ok wiring, true⟩ = true := disabled
      rw [Progress.quietly_disturb setback]
      exact refused _
  | false =>
      have smooth : Exchange.setback cfg ⟨.wiring, .ok wiring, true⟩ = false := disabled
      rw [Progress.quietly_smooth smooth]
      exact .bind (ends_enforceDailyCap
        (.exclusively (ends_simulateAndSend sent refused lost)) refused)

/-- A part that neither broadcasts nor awaits a receipt leaves a request at its start. -/
theorem EndsWith.before_send {first : Relay β} {rest : β → Relay α}
    (only : first.CallsOnly fun call => call.quiet = true)
    (follows : ∀ value, EndsWith cfg post (rest value) {})
    (thrown : ∀ error, post (.error error) {}) : EndsWith cfg post (first >>= rest) {} := by
  have unmoved : EndsWith cfg (fun _ final => final = {}) first {} := by
    refine Ends.of_callsOnly only ?_ rfl
    rintro call ⟨⟨⟩, before⟩ answer record ⟨⟨⟩, later⟩ quiet ⟨⟨performed, rfl, possible⟩, made⟩ held
    obtain rfl : before = {} := held
    refine made.trans ((Progress.next_quiet ?_ ?_).trans ?_)
    · cases call <;> first | rfl | cases quiet
    · cases call <;> first | rfl | cases quiet
    · split <;> rfl
  refine .bind (Ends.mono unmoved ?_)
  rintro outcome ⟨⟨⟩, final⟩ held
  obtain rfl : final = {} := held
  cases outcome with
  | ok value => exact follows value
  | error error => exact thrown error

/-- A root has been broadcast and its receipt is awaited: it has been mined well, or failures
are reported as if nothing had been sent. -/
theorem ends_receiptFor {post : Except RelayError (Option ReceiptStatus) → Progress → Prop}
    {hash : Nat} (mined : post (.ok (some .success)) ⟨true, true, false⟩)
    (unseen : ∀ receipt, receipt ≠ some .success → post (.ok receipt) ⟨true, true, true⟩) :
    EndsWith cfg post (RelayService.receiptFor hash) ⟨true, false, false⟩ := by
  refine .tryCatch (.bind (Ends.perform ?_))
  rintro answer record ⟨⟨⟩, later⟩ ⟨⟨performed, rfl, possible⟩, made⟩
  obtain rfl : later = Progress.next cfg ⟨true, false, false⟩
    ⟨.waitForTransactionReceipt hash, answer, performed⟩ := made
  rcases answer with thrown | status
  · exact unseen none nofun
  · cases status with
    | success => exact mined
    | reverted => exact unseen (some .reverted) nofun

/-- A root is current, or it is published, or its publication fails before or after the
broadcast. -/
theorem ends_publishAspRoot {lib : RelayLibraries} {post : Except RelayError Unit → Progress → Prop}
    {root : Int} (current : post (.ok ()) {}) (published : post (.ok ()) ⟨true, true, false⟩)
    (refused : ∀ error, post (.error error) {})
    (lost : ∀ error, post (.error (.call error)) ⟨true, false, false⟩)
    (unseen : post (.error (.poolRejected .stale
      "The association set could not be published. Nothing was sent — try again in a moment."))
        ⟨true, true, true⟩) :
    EndsWith cfg post (PoolService.publishAspRoot lib cfg root) {} := by
  refine .outside rfl (fun _ => rfl) (fun _ => rfl) (fun latest => ?_) fun error => refused _
  split
  · exact current
  · refine .encoded (.bind (ends_sendFromRelayer (fun hash => .bind (ends_receiptFor published ?_))
      refused lost)) (refused _)
    intro receipt failed
    change EndsWith cfg post (if receipt ≠ some .success then _ else _) _
    rw [if_pos failed]
    exact unseen

end Ends

/-! ## Requests -/

/-- A request was refused with a message that nothing was sent, after a broadcast. -/
def FalseRefusal (outcome : Except RelayError Nat) (progress : Progress) : Prop :=
  ∃ thrown, outcome = .error thrown ∧ thrown.saysNothingSent = true ∧ progress.broadcast = true

theorem not_falseRefusal_start (outcome : Except RelayError Nat) : ¬ FalseRefusal outcome {} := by
  rintro ⟨thrown, -, -, broadcast⟩
  cases broadcast

theorem not_falseRefusal_sent (hash : Nat) (progress : Progress) :
    ¬ FalseRefusal (.ok hash) progress := by
  rintro ⟨thrown, same, -⟩
  cases same

theorem not_falseRefusal_call (error : CallError) (progress : Progress) :
    ¬ FalseRefusal (.error (.call error)) progress := by
  rintro ⟨thrown, same, stated, -⟩
  obtain rfl := Except.error.inj same
  cases stated

variable (lib : RelayLibraries) (cfg : RelayConfig)

/-- The relay's own requests refuse with such a message only before they broadcast. -/
abbrev Truthful (outcome : Except RelayError Nat) (progress : Progress) : Prop :=
  ¬ FalseRefusal outcome progress

theorem quiet_of_plain (call : RelayCall) (plain : call.plain) : call.quiet = true := by
  cases call <;> first | rfl | cases plain

theorem quiet_of_idle (call : RelayCall) (idle : call.idle) : call.quiet = true :=
  idle_of_plain quiet_of_plain call idle

theorem truthful_simulateAndSend {destination : JsString} {data : ContractCall}
    {refusal : RelayError → RelayError} :
    EndsWith cfg Truthful (exclusively .queue do
      let gas ← RelayService.simulate destination data refusal
      RelayService.sendTransaction cfg destination data gas) {} :=
  .exclusively (ends_simulateAndSend (fun hash => not_falseRefusal_sent hash _)
    (fun _ => not_falseRefusal_start _) fun error => not_falseRefusal_call error _)

theorem truthful_submitRequest (rules : RelayService.RequestRules) (payload : RelayRequestDto) :
    EndsWith cfg Truthful (RelayService.submitRequest lib cfg rules payload) {} := by
  refine .done (fun request => ?_) fun _ _ => not_falseRefusal_start _
  split
  · exact not_falseRefusal_start _
  · split
    · exact not_falseRefusal_start _
    · refine .before_send (callsOnly_enforceAccountRate quiet_of_idle _) (fun _ => ?_)
        fun _ => not_falseRefusal_start _
      refine .before_send (callsOnly_enforceDailyCap quiet_of_idle fun _ => rfl) (fun _ => ?_)
        fun _ => not_falseRefusal_start _
      refine .before_send (callsOnly_verifyRelayable quiet_of_plain _ _) (fun valid => ?_)
        fun _ => not_falseRefusal_start _
      split
      · exact not_falseRefusal_start _
      · exact .exclusively (.done (fun data =>
          ends_simulateAndSend (fun hash => not_falseRefusal_sent hash _)
            (fun _ => not_falseRefusal_start _) fun error => not_falseRefusal_call error _)
          fun _ _ => not_falseRefusal_start _)

theorem truthful_submitPermit (permit : PermitRequestDto) :
    EndsWith cfg Truthful (RelayService.submitPermit lib cfg permit) {} := by
  refine .before_send (.perform rfl) (fun wiring => ?_) fun _ => not_falseRefusal_start _
  split
  · exact not_falseRefusal_start _
  · split
    · exact not_falseRefusal_start _
    · refine .before_send (callsOnly_enforceAccountRate quiet_of_idle _) (fun _ => ?_)
        fun _ => not_falseRefusal_start _
      refine .before_send (callsOnly_enforceDailyCap quiet_of_idle fun _ => rfl) (fun _ => ?_)
        fun _ => not_falseRefusal_start _
      exact .done (fun data => truthful_simulateAndSend cfg) fun _ _ => not_falseRefusal_start _

/-- A withdrawal or a deposit is refused falsely exactly when something has gone wrong. -/
def FalseWhenFailed (outcome : Except RelayError Nat) (progress : Progress) : Prop :=
  FalseRefusal outcome progress ↔ progress.failed = true

theorem falseWhenFailed_of_not {outcome : Except RelayError Nat} {progress : Progress}
    (truthful : ¬ FalseRefusal outcome progress) (smooth : progress.failed = false) :
    FalseWhenFailed outcome progress :=
  iff_of_false truthful (Bool.eq_false_iff.mp smooth)

theorem falseWhenFailed_of_stated {thrown : RelayError} {progress : Progress}
    (stated : thrown.saysNothingSent = true) (broadcast : progress.broadcast = true)
    (failed : progress.failed = true) : FalseWhenFailed (.error thrown) progress :=
  iff_of_true ⟨thrown, rfl, stated, broadcast⟩ failed

theorem falseWhenFailed_start (outcome : Except RelayError Nat) : FalseWhenFailed outcome {} :=
  falseWhenFailed_of_not (not_falseRefusal_start outcome) rfl

/-- A transaction of a withdrawal or of a deposit, whose errors are given another message. -/
theorem falseWhenFailed_reworded {destination : JsString} {data : ContractCall}
    {message : String} {progress : Progress} (smooth : progress.failed = false)
    (settled : progress.committed = progress.broadcast)
    (sends : progress.sent data = ⟨true, true, progress.failed⟩)
    (stated : (RelayError.poolRejected .rejected message).saysNothingSent = true) :
    EndsWith cfg FalseWhenFailed (tryCatch
      (RelayService.sendFromRelayer cfg destination data) fun _ =>
        throw (.poolRejected .rejected message)) progress := by
  refine .tryCatch (ends_sendFromRelayer (fun hash => ?_) (fun _ => ?_) fun _ => ?_)
  · rw [sends]
    exact falseWhenFailed_of_not (not_falseRefusal_sent hash _) smooth
  · -- refused before the broadcast: what was broadcast before it, if anything, was the root
    change FalseWhenFailed _ _
    obtain ⟨broadcast, committed, failed⟩ := progress
    obtain rfl : committed = broadcast := settled
    obtain rfl : failed = false := smooth
    cases committed with
    | false => exact falseWhenFailed_start _
    | true => exact falseWhenFailed_of_stated stated rfl rfl
  · rw [sends]
    exact falseWhenFailed_of_stated stated rfl (by simp [Progress.disturb])

theorem falseWhenFailed_relayProof (root : Int) (data : JsString) (proof : WithdrawProof) :
    EndsWith cfg FalseWhenFailed (PoolService.relayProof lib cfg root data proof) {} := by
  have relays : ∀ progress : Progress, progress.failed = false →
      progress.committed = progress.broadcast → ¬ FalseRefusal (.error (.thrown .encoding)) progress →
      EndsWith cfg FalseWhenFailed (do
        let call ← Async.done (encodeFunctionData lib (.relay cfg.entrypoint data proof))
        tryCatch (RelayService.sendFromRelayer cfg cfg.entrypoint call) fun _ =>
          throw (.poolRejected .rejected
            "That withdrawal could not be submitted. Nothing was sent and nothing was spent.") :
          Relay Nat) progress := by
    intro progress smooth settled unsaid
    refine .encoded (falseWhenFailed_reworded cfg smooth settled ?_ (by decide +kernel))
      (falseWhenFailed_of_not unsaid smooth)
    simp [Progress.sent]
  refine .bind (ends_publishAspRoot ?_ ?_ (fun _ => falseWhenFailed_start _) ?_ ?_)
  · exact relays {} rfl rfl (not_falseRefusal_start _)
  · exact relays ⟨true, true, false⟩ rfl rfl fun ⟨_, same, stated, _⟩ => by
      obtain rfl := Except.error.inj same
      cases stated
  · exact fun error => falseWhenFailed_of_not (not_falseRefusal_call error _) rfl
  · exact falseWhenFailed_of_stated (by decide +kernel) rfl rfl

theorem falseWhenFailed_withdraw (dto : PoolWithdrawDto) :
    EndsWith cfg FalseWhenFailed (PoolService.withdraw lib cfg dto) {} := by
  unfold PoolService.withdraw
  split
  · exact falseWhenFailed_start _
  · refine .before_send (.perform rfl) (fun synced => ?_) fun _ => falseWhenFailed_start _
    split
    · exact falseWhenFailed_start _
    · refine .done (fun withdrawal => ?_) fun _ _ => falseWhenFailed_start _
      refine .done (fun signals => ?_) fun _ _ => falseWhenFailed_start _
      refine .before_send (.perform rfl) (fun rows => ?_) fun _ => falseWhenFailed_start _
      refine .done (fun known => ?_) fun _ _ => falseWhenFailed_start _
      refine .done (fun root => ?_) fun _ _ => falseWhenFailed_start _
      refine .done (fun proof => ?_) fun _ _ => falseWhenFailed_start _
      exact .exclusively (falseWhenFailed_relayProof lib cfg root withdrawal.data proof)

/-- Failures after the broadcast of a call that concerns no root are reported as if nothing had
been sent. -/
theorem Progress.sent_of_unrelated {data : ContractCall} (unrelated : data.concernsRoot = false)
    (progress : Progress) : progress.sent data = ⟨true, true, progress.failed⟩ := by
  cases data with
  | updateRoot root => cases unrelated
  | _ => simp [Progress.sent]

theorem falseWhenFailed_shield (dto : PoolShieldDto) :
    EndsWith cfg FalseWhenFailed (PoolService.shield lib cfg dto) {} := by
  unfold PoolService.shield
  split
  · exact falseWhenFailed_start _
  · refine .done (fun request => ?_) fun _ _ => falseWhenFailed_start _
    split
    · exact falseWhenFailed_start _
    · refine .before_send (.perform rfl) (fun now => ?_) fun _ => falseWhenFailed_start _
      split
      · exact falseWhenFailed_start _
      · cases called : PoolService.shieldCall lib dto request with
        | error thrown => exact falseWhenFailed_start _
        | ok data =>
            exact falseWhenFailed_reworded cfg rfl rfl
              (Progress.sent_of_unrelated (concernsRoot_shieldCall called) _)
              (by decide +kernel)

/-- Every request ends as its kind does. -/
theorem falseRefusal_start (request : RelayRequest) :
    EndsWith cfg (fun outcome progress =>
      FalseRefusal outcome progress ↔ request.rewords = true ∧ progress.failed = true)
      (request.start lib cfg) {} := by
  have own : ∀ {task : Relay Nat}, request.rewords = false → EndsWith cfg Truthful task {} →
      EndsWith cfg (fun outcome progress =>
        FalseRefusal outcome progress ↔ request.rewords = true ∧ progress.failed = true) task {} := by
    intro task kind ends
    refine Ends.mono ends fun outcome final truthful => iff_of_false truthful ?_
    rintro ⟨rewords, -⟩
    rw [kind] at rewords
    cases rewords
  have reworded : ∀ {task : Relay Nat}, request.rewords = true → EndsWith cfg FalseWhenFailed task {} →
      EndsWith cfg (fun outcome progress =>
        FalseRefusal outcome progress ↔ request.rewords = true ∧ progress.failed = true) task {} := by
    intro task kind ends
    exact Ends.mono ends fun outcome final agrees => agrees.trans (and_iff_right kind).symm
  cases request with
  | submit payload =>
      refine own rfl (.before_send (.perform rfl) (fun wiring => ?_)
        fun _ => not_falseRefusal_start _)
      split
      · exact not_falseRefusal_start _
      · exact truthful_submitRequest lib cfg _ payload
  | submitResolution payload =>
      refine own rfl (.before_send (.perform rfl) (fun wiring => ?_)
        fun _ => not_falseRefusal_start _)
      split
      · exact not_falseRefusal_start _
      · split
        · exact not_falseRefusal_start _
        · exact truthful_submitRequest lib cfg _ payload
  | submitPermit permit => exact own rfl (truthful_submitPermit lib cfg permit)
  | sendFromRelayer destination data =>
      exact own rfl (ends_sendFromRelayer (fun hash => not_falseRefusal_sent hash _)
        (fun _ => not_falseRefusal_start _) fun error => not_falseRefusal_call error _)
  | withdraw dto => exact reworded rfl (falseWhenFailed_withdraw lib cfg dto)
  | shield dto => exact reworded rfl (falseWhenFailed_shield lib cfg dto)

/-- **A message that nothing was sent is true**, for a withdrawal or a deposit exactly when
nothing went wrong from the wait for the root's receipt or from the broadcast of the
transaction on, and for the relay's own requests always. -/
theorem saysNothingSent_iff_undisturbed (request : RelayRequest) {trace : List Exchange}
    {outcome : Except RelayError Nat}
    (path : Reaches exchanges (request.start lib cfg) () trace (.done outcome) ()) :
    (∀ thrown, outcome = .error thrown → thrown.saysNothingSent = true →
        ∀ exchange ∈ trace, exchange.broadcasts = false) ↔
      (request.rewords = true → ¬ Disturbed cfg trace) := by
  have ended : FalseRefusal outcome (trace.foldl (Progress.next cfg) {}) ↔
      request.rewords = true ∧ (trace.foldl (Progress.next cfg) {}).failed = true :=
    (falseRefusal_start lib cfg request).outcome (path.summarised (Progress.next cfg) {})
  have broadcast : (trace.foldl (Progress.next cfg) {}).broadcast = true ↔
      ∃ exchange ∈ trace, exchange.broadcasts = true :=
    (Progress.foldl_broadcast trace).trans (or_iff_right Bool.false_ne_true)
  have failed : (trace.foldl (Progress.next cfg) {}).failed = true ↔ Disturbed cfg trace :=
    (Progress.foldl_failed trace).trans ((or_iff_right Bool.false_ne_true).trans
      (or_iff_right fun ⟨committed, _⟩ => Bool.false_ne_true committed))
  rw [failed] at ended
  rw [← not_and, ← ended]
  constructor
  · rintro silent ⟨thrown, same, stated, sent⟩
    obtain ⟨exchange, member, broadcasts⟩ := broadcast.mp sent
    rw [silent thrown same stated exchange member] at broadcasts
    cases broadcasts
  · intro truthful thrown same stated exchange member
    refine Bool.eq_false_iff.mpr fun broadcasts => truthful ⟨thrown, same, stated, ?_⟩
    exact broadcast.mpr ⟨exchange, member, broadcasts⟩

/-! ## A root that is mined late -/

/-- The answers of a node are possible ones. -/
theorem RelayNode.respond_possible (node : RelayNode) (world : RelayWorld) (call : RelayCall) :
    Exchange.Possible ⟨call, (node.respond call world).1, true⟩ := by
  cases call with
  | call destination data =>
      unfold Exchange.Possible
      cases simulated : node.simulates data <;> simp [respond, simulated, RelayCall.external]
  | waitForTransactionReceipt hash =>
      unfold Exchange.Possible
      cases found : world.executed.find? (·.hash = hash) <;> simp [respond, found, RelayCall.external]
  | _ => rfl

namespace SampleRelay

/-- One deposit is indexed, and its root is not on chain. -/
def unpublished : RelayWorld := { world with leaves := [deposit 1] }

/-- The answers to a request while nothing is mined. -/
def unmined (call : RelayCall) (_ : Unit) : Except RelayError call.Answer × Unit :=
  ((node.respond call unpublished).1, ())

/-- A withdrawal whose root is broadcast and not mined in time. -/
def unminedTrace : List Exchange :=
  Async.recorded unmined (fun call _ => [⟨call, (node.respond call unpublished).1, true⟩]) 20
    ((RelayRequest.withdraw (withdrawal 1)).start libraries config) ()

theorem unmined_path : Reaches exchanges
    ((RelayRequest.withdraw (withdrawal 1)).start libraries config) () unminedTrace
    (.done (.error (.poolRejected .stale
      "The association set could not be published. Nothing was sent — try again in a moment."))) () := by
  have path : Reaches exchanges ((RelayRequest.withdraw (withdrawal 1)).start libraries config) ()
      unminedTrace (Async.stopped unmined 20
        ((RelayRequest.withdraw (withdrawal 1)).start libraries config) ()).1 () :=
    Async.reaches_recorded unmined
      (fun call _ => ⟨true, rfl, node.respond_possible unpublished call⟩) 20 _ ()
  have stale : (Async.stopped unmined 20
      ((RelayRequest.withdraw (withdrawal 1)).start libraries config) ()).1.outcome? =
        some (.error (.poolRejected .stale
          "The association set could not be published. Nothing was sent — try again in a moment.")) := by
    decide +kernel
  rw [Async.eq_done_of_outcome? stale] at path
  exact path

theorem unmined_broadcasts : ∃ exchange ∈ unminedTrace, exchange.broadcasts = true :=
  List.any_eq_true.mp (by decide +kernel : unminedTrace.any Exchange.broadcasts = true)

end SampleRelay

open SampleRelay in
/-- **A withdrawal is refused as if nothing had been sent, and its root is mined later.** -/
theorem refused_withdrawal_sent :
    ¬ ∀ request trace outcome,
      Reaches exchanges (RelayRequest.start libraries config request) () trace (.done outcome) () →
        ∀ thrown, outcome = .error thrown → thrown.saysNothingSent = true →
          ∀ exchange ∈ trace, exchange.broadcasts = false := by
  intro truthful
  obtain ⟨exchange, member, broadcasts⟩ := unmined_broadcasts
  have silent := truthful _ _ _ unmined_path _ rfl (by decide +kernel) exchange member
  rw [silent] at broadcasts
  cases broadcasts

open SampleRelay in
/-- Something has gone wrong in that withdrawal. -/
theorem saysNothingSent_iff_undisturbed_unmined : Disturbed config unminedTrace := by
  by_contra undisturbed
  obtain ⟨exchange, member, broadcasts⟩ := unmined_broadcasts
  have silent := (saysNothingSent_iff_undisturbed libraries config (.withdraw (withdrawal 1))
    unmined_path).mpr (fun _ => undisturbed) _ rfl (by decide +kernel) exchange member
  rw [silent] at broadcasts
  cases broadcasts

end Numera
