import Mathlib.Data.List.Induction
import Numera.Chain.Registration

/-! # Resolution rows

The row of one market's bonded resolution under the logs of a run. Each log of
the resolver about the market changes the row in its own way (`rowStep`), a
proposal by writing all of it, and no other log changes it. Promises about the
row follow as far as they go. It describes the current cycle and nothing before
it. It is linked to its market by a proposal that comes after the market's
creation and by nothing else, and it is completely settled by every settlement
but an arbitration against nobody.
-/

namespace Numera

variable (market : MarketKey)

/-- The market whose resolution an event is about. -/
def Event.resolves? : Event → Option MarketKey
  | .proposed a => some (engineKey a.market a.marketId)
  | .disputed a => some (engineKey a.market a.marketId)
  | .finalized a => some (engineKey a.market a.marketId)
  | .arbitrated a => some (engineKey a.market a.marketId)
  | .slashed a => some (engineKey a.market a.marketId)
  | .proposalAbandoned engine marketId | .disputeReset engine marketId =>
      some (engineKey engine marketId)
  | _ => none

/-- A log of the resolver about the market. -/
def resolves (log : NormalizedLog) : Bool :=
  log.kind = .optimisticResolver ∧ log.event.resolves? = some market

/-- The creation of the market. -/
def creates (log : NormalizedLog) : Bool := log.event.isCreation ∧ log.concerns market

theorem creates_iff (log : NormalizedLog) :
    creates market log ↔ log.event.isCreation ∧ log.concerns market := by
  simp [creates]

theorem resolves_iff (log : NormalizedLog) :
    resolves market log ↔ log.kind = .optimisticResolver ∧ log.event.resolves? = some market := by
  simp [resolves]

/-- The row after an event about it, when a proposal would be linked to `ref`. -/
def rowStep (ref : Option MarketKey) (log : NormalizedLog) (row? : Option ResolutionProposal) :
    Option ResolutionProposal :=
  match log.event with
  | .proposed a => some (proposedRow log a ref)
  | .disputed a => row?.map (disputedUpdate a).apply
  | .finalized a => row?.map (finalizedUpdate log a).apply
  | .arbitrated a => row?.map (arbitratedUpdate a).apply
  | .slashed a => row?.map (slashedUpdate log a).apply
  | .proposalAbandoned _ _ | .disputeReset _ _ => row?.map clearedUpdate.apply
  | _ => row?

/-! ## The register under one log -/

/-- The reference a proposal about the market is given. -/
def Register.link (register : Register) : Option MarketKey :=
  (register.verdicts.find? market).map fun _ => market

/-- The market an entry makes known. -/
def Entry.admits : Entry → Option MarketKey
  | enter key _ => some key
  | _ => none

/-- The market whose resolution row an entry writes. -/
def Entry.amends : Entry → Option MarketKey
  | propose key _ | amend key _ => some key
  | _ => none

private theorem link_apply (entry : Entry) (register : Register) :
    (entry.apply register).link market =
      if entry.admits = some market then some market else register.link market := by
  cases entry with
  | enter key outcomeCount =>
      simp only [Register.link, Entry.apply, Table.find?_insertNew, Entry.admits,
        Option.some.injEq, eq_comm]
      split <;> simp
  | settle key status winner =>
      simp only [Register.link, Entry.apply, Table.find?_modify, Entry.admits]
      split
      · rename_i same
        subst same
        cases register.verdicts.find? market <;> simp
      · simp
  | _ => simp [Register.link, Entry.apply, Entry.admits]

private theorem resolution_apply {entry : Entry} (register : Register)
    (apart : entry.amends ≠ some market) :
    (entry.apply register).resolutions.find? market = register.resolutions.find? market := by
  have other : ∀ {key : MarketKey}, some key ≠ some market → market ≠ key := by
    rintro key apart rfl
    exact apart rfl
  cases entry with
  | propose key row => simp [Entry.apply, other apart]
  | amend key data => simp [Entry.apply, other apart]
  | _ => rfl

private theorem link_replay {entries : List Entry} (register : Register)
    (admitted : ∀ entry ∈ entries, entry.admits ≠ some market) :
    (registerJournal.replay entries register).link market = register.link market := by
  induction entries generalizing register with
  | nil => rfl
  | cons entry rest ih =>
      rw [Journal.replay_cons, registerJournal_apply,
        ih _ fun other member => admitted other (List.mem_cons_of_mem _ member), link_apply,
        if_neg (admitted entry List.mem_cons_self)]

private theorem resolution_replay {entries : List Entry} (register : Register)
    (apart : ∀ entry ∈ entries, entry.amends ≠ some market) :
    (registerJournal.replay entries register).resolutions.find? market =
      register.resolutions.find? market := by
  induction entries generalizing register with
  | nil => rfl
  | cons entry rest ih =>
      rw [Journal.replay_cons, registerJournal_apply,
        ih _ fun other member => apart other (List.mem_cons_of_mem _ member),
        resolution_apply market register (apart entry List.mem_cons_self)]

/-- The engine's logs write no resolution row, and only a creation admits a market. -/
private theorem engineEntries_cases {verdict? : MarketKey → Option Verdict} {log : NormalizedLog}
    {entry : Entry} (member : entry ∈ engineEntries verdict? log) :
    entry.amends = none ∧ ∀ key, entry.admits = some key →
      ∃ a, log.event = .marketCreated a ∧ log.marketKey a.marketId = key := by
  unfold engineEntries at member
  cases event : log.event with
  | marketCreated a =>
      rw [event] at member
      obtain rfl := List.mem_singleton.mp member
      exact ⟨rfl, fun key same => ⟨a, rfl, Option.some.inj same⟩⟩
  | bought a | sold a =>
      rw [event] at member
      obtain rfl := eq_of_mem_entries member
      exact ⟨rfl, fun _ same => (Option.some_ne_none _ same.symm).elim⟩
  | shorted a =>
      simp only [event] at member
      split at member
      · cases member
      · obtain ⟨leg, -, rfl⟩ := List.mem_map.mp member
        exact ⟨rfl, fun _ same => (Option.some_ne_none _ same.symm).elim⟩
  | marketResolved marketId winningOutcomeId owed surplus =>
      rw [event] at member
      obtain rfl := eq_of_mem_entries member
      exact ⟨rfl, fun _ same => (Option.some_ne_none _ same.symm).elim⟩
  | marketInvalidated marketId surplus =>
      rw [event] at member
      obtain rfl := eq_of_mem_entries member
      exact ⟨rfl, fun _ same => (Option.some_ne_none _ same.symm).elim⟩
  | redeemed marketId account amount =>
      rw [event] at member
      obtain rfl := eq_of_mem_entries member
      exact ⟨rfl, fun _ same => (Option.some_ne_none _ same.symm).elim⟩
  | _ =>
      rw [event] at member
      cases member

/-- What a resolver log enters: one entry about the market it resolves, or none. -/
private theorem resolverEntries_enter {verdict? : MarketKey → Option Verdict} {log : NormalizedLog}
    {entry : Entry} (member : entry ∈ resolverEntries verdict? log) : entry.admits = none := by
  unfold resolverEntries at member
  cases event : log.event with
  | proposed a | disputed a | finalized a | arbitrated a | slashed a =>
      rw [event] at member
      obtain rfl := List.mem_singleton.mp member
      rfl
  | proposalAbandoned engine marketId | disputeReset engine marketId =>
      rw [event] at member
      obtain rfl := List.mem_singleton.mp member
      rfl
  | _ =>
      rw [event] at member
      cases member

/-- **One log and the link.** -/
theorem link_applyLog (register : Register) (log : NormalizedLog) :
    (register.applyLogs [log]).link market =
      if creates market log then some market else register.link market := by
  change (registerJournal.replay (logEntries register.verdicts.find? log) register).link market = _
  simp only [logEntries, creates_iff, NormalizedLog.concerns]
  cases kind : log.kind with
  | lsLmsr =>
      dsimp only
      by_cases creation : ∃ a, log.event = .marketCreated a ∧ log.marketKey a.marketId = market
      · obtain ⟨a, event, rfl⟩ := creation
        simp [engineEntries, event, link_apply, Entry.admits, Event.isCreation, Event.marketId?]
      · rw [link_replay market register fun entry member same =>
          creation ((engineEntries_cases member).2 market same)]
        rw [if_neg]
        rintro ⟨isCreation, -, named⟩
        cases event : log.event with
        | marketCreated a =>
            rw [event] at named
            exact creation ⟨a, event, Option.some.inj named⟩
        | _ =>
            rw [event] at isCreation
            cases isCreation
  | optimisticResolver =>
      dsimp only
      rw [link_replay market register fun entry member same => ?_]
      · simp
      · rw [resolverEntries_enter member] at same
        cases same
  | tradingBlocklist => simp

/-- **One log and the row.** -/
theorem resolution_applyLog (register : Register) (log : NormalizedLog) :
    (register.applyLogs [log]).resolutions.find? market =
      if resolves market log then
        rowStep (register.link market) log (register.resolutions.find? market)
      else register.resolutions.find? market := by
  change (registerJournal.replay (logEntries register.verdicts.find? log)
    register).resolutions.find? market = _
  simp only [logEntries, resolves_iff]
  cases kind : log.kind with
  | lsLmsr =>
      dsimp only
      rw [resolution_replay market register fun entry member same => ?_]
      · simp
      · rw [(engineEntries_cases member).1] at same
        cases same
  | optimisticResolver =>
      dsimp only
      unfold resolverEntries rowStep
      cases event : log.event with
      | proposed a =>
          by_cases same : engineKey a.market a.marketId = market
          · subst same
            cases found : register.resolutions.find? (engineKey a.market a.marketId) <;>
              simp [Entry.apply, Event.resolves?, Register.link, found]
          · simp [Entry.apply, Event.resolves?, same, Ne.symm same]
      | disputed a =>
          by_cases same : engineKey a.market a.marketId = market
          · simp [Entry.apply, Event.resolves?, same]
          · simp [Entry.apply, Event.resolves?, same, Ne.symm same]
      | finalized a =>
          by_cases same : engineKey a.market a.marketId = market
          · simp [Entry.apply, Event.resolves?, same]
          · simp [Entry.apply, Event.resolves?, same, Ne.symm same]
      | arbitrated a =>
          by_cases same : engineKey a.market a.marketId = market
          · simp [Entry.apply, Event.resolves?, same]
          · simp [Entry.apply, Event.resolves?, same, Ne.symm same]
      | slashed a =>
          by_cases same : engineKey a.market a.marketId = market
          · simp [Entry.apply, Event.resolves?, same]
          · simp [Entry.apply, Event.resolves?, same, Ne.symm same]
      | proposalAbandoned engine marketId =>
          by_cases same : engineKey engine marketId = market
          · simp [Entry.apply, Event.resolves?, same]
          · simp [Entry.apply, Event.resolves?, same, Ne.symm same]
      | disputeReset engine marketId =>
          by_cases same : engineKey engine marketId = market
          · simp [Entry.apply, Event.resolves?, same]
          · simp [Entry.apply, Event.resolves?, same, Ne.symm same]
      | _ => simp [Event.resolves?]
  | tradingBlocklist => simp

/-- A market's row is what the logs make of it: the same logs change the same row into the
same row, when the market is known in both registers or in neither. -/
theorem resolution_applyLogs_congr (logs : List NormalizedLog) {first second : Register}
    (visible : first.link market = second.link market)
    (same : first.resolutions.find? market = second.resolutions.find? market) :
    (first.applyLogs logs).resolutions.find? market =
      (second.applyLogs logs).resolutions.find? market := by
  induction logs generalizing first second with
  | nil => exact same
  | cons log rest ih =>
      have visibleAfter : (first.applyLogs [log]).link market =
          (second.applyLogs [log]).link market := by
        rw [link_applyLog, link_applyLog, visible]
      have sameAfter : (first.applyLogs [log]).resolutions.find? market =
          (second.applyLogs [log]).resolutions.find? market := by
        rw [resolution_applyLog, resolution_applyLog, visible, same]
      exact ih visibleAfter sameAfter

/-- A row that is there is never deleted. -/
theorem isSome_resolution_applyLogs (logs : List NormalizedLog) {register : Register}
    (present : (register.resolutions.find? market).isSome) :
    ((register.applyLogs logs).resolutions.find? market).isSome := by
  induction logs generalizing register with
  | nil => exact present
  | cons log rest ih =>
      have presentAfter : ((register.applyLogs [log]).resolutions.find? market).isSome := by
        rw [resolution_applyLog]
        split
        · unfold rowStep
          split <;> simp [present]
        · exact present
      exact ih presentAfter

/-! ## The link to the market -/

/-- A log with the second property comes after one with the first. -/
def occursAfter (first second : NormalizedLog → Bool) : List NormalizedLog → Bool
  | [] => false
  | log :: rest => first log && rest.any second || occursAfter first second rest

theorem occursAfter_concat (first second : NormalizedLog → Bool) (logs : List NormalizedLog)
    (log : NormalizedLog) :
    occursAfter first second (logs ++ [log]) =
      (occursAfter first second logs || logs.any first && second log) := by
  induction logs with
  | nil => simp [occursAfter]
  | cons head rest ih =>
      simp only [List.cons_append, occursAfter, ih, List.any_append, List.any_cons, List.any_nil,
        Bool.or_false]
      cases first head <;> cases rest.any second <;> cases second log <;>
        cases occursAfter first second rest <;> simp

theorem occursAfter_of_none {first second : NormalizedLog → Bool} {logs : List NormalizedLog}
    (none : logs.any first = false) : occursAfter first second logs = false := by
  induction logs with
  | nil => rfl
  | cons log rest ih =>
      rw [List.any_cons, Bool.or_eq_false_iff] at none
      rw [occursAfter, none.1, ih none.2]
      rfl

/-- A proposal about the market. -/
def proposes (log : NormalizedLog) : Bool :=
  resolves market log && match log.event with
    | .proposed _ => true
    | _ => false

/-- A log that looks the market up to say something of its resolution: a proposal, a
dispute or a settlement. -/
def speaks (log : NormalizedLog) : Bool :=
  resolves market log && match log.event with
    | .proposed _ | .disputed _ | .finalized _ | .arbitrated _ => true
    | _ => false

/-- A proposal writes the whole row, whatever was there. -/
theorem resolution_applyLog_of_proposes {log : NormalizedLog} (proposal : proposes market log)
    (register : Register) : ∃ a, log.event = .proposed a ∧
      (register.applyLogs [log]).resolutions.find? market =
        some (proposedRow log a (register.link market)) := by
  unfold proposes at proposal
  obtain ⟨about, isProposal⟩ := Bool.and_eq_true_iff.mp proposal
  rw [resolution_applyLog, if_pos about]
  unfold rowStep
  cases event : log.event with
  | proposed a => exact ⟨a, rfl, rfl⟩
  | _ => simp [event] at isProposal

/-- Only a proposal writes the reference. -/
private theorem marketRef_rowStep (ref : Option MarketKey) {log : NormalizedLog}
    (about : resolves market log) (row? : Option ResolutionProposal) :
    (rowStep ref log row?).map ResolutionProposal.marketRef =
      if proposes market log then some ref else row?.map ResolutionProposal.marketRef := by
  unfold proposes rowStep
  rw [about, Bool.true_and]
  cases log.event <;> cases row? <;> rfl

/-- **The link after a run of logs.** The market is known once it was created, and the
row of a proposal is linked once one came after the creation. -/
theorem marketRef_applyLogs {register : Register} (unknown : register.link market = none)
    (noProposal : register.resolutions.find? market = none) (logs : List NormalizedLog) :
    ((register.applyLogs logs).link market =
        if logs.any (creates market) then some market else none) ∧
      ((register.applyLogs logs).resolutions.find? market).map ResolutionProposal.marketRef =
        if logs.any (proposes market) then
          some (if occursAfter (creates market) (proposes market) logs then some market else none)
        else none := by
  induction logs using List.reverseRecOn with
  | nil => exact ⟨unknown, by rw [show register.applyLogs [] = register from rfl, noProposal]; rfl⟩
  | append_singleton before log ih =>
      obtain ⟨link, linked⟩ := ih
      rw [Register.applyLogs_append]
      constructor
      · rw [link_applyLog, link, List.any_append, List.any_cons, List.any_nil, Bool.or_false]
        cases creates market log <;> simp
      · rw [resolution_applyLog, List.any_append, List.any_cons, List.any_nil, Bool.or_false,
          occursAfter_concat]
        by_cases about : resolves market log
        · rw [if_pos about, marketRef_rowStep market _ about, linked, link]
          by_cases proposal : proposes market log
          · -- A proposal is linked exactly when the market was created before it.
            cases created : before.any (creates market) with
            | true => simp [proposal]
            | false =>
                have never : occursAfter (creates market) (proposes market) before = false :=
                  occursAfter_of_none created
                simp [proposal, never]
          · simp [proposal]
        · have noProposal : proposes market log = false := by
            rw [proposes, Bool.not_eq_true _ |>.mp about, Bool.false_and]
          rw [if_neg about, linked, noProposal]
          simp

variable {market} {ext : Externals} {start final : Database} {logs : List NormalizedLog}

/-- **A proposal is linked by a proposal.** In every run, wherever it stands: the row of
a market that appeared before some log spoke of it is linked if and only if a proposal
came after the market's creation. -/
theorem linked_iff_reproposed (unknown : start.markets.find? market = none)
    (noProposal : start.resolutions.find? market = none) (run : Processed ext start logs final) :
    (occursAfter (creates market) (speaks market) logs →
        ∀ row, final.resolutions.find? market = some row → row.marketRef = some market) ↔
      (occursAfter (creates market) (speaks market) logs → logs.any (proposes market) →
        occursAfter (creates market) (proposes market) logs) := by
  have noLink : start.register.link market = none := by
    simp [Register.link, Database.register, unknown]
  have linked := (marketRef_applyLogs market noLink noProposal logs).2
  rw [← run.register] at linked
  change (final.resolutions.find? market).map _ = _ at linked
  refine forall_congr' fun _ => ?_
  cases found : final.resolutions.find? market with
  | none =>
      rw [found] at linked
      cases proposed : logs.any (proposes market) with
      | false => simp
      | true => simp [proposed] at linked
  | some row =>
      rw [found] at linked
      cases proposed : logs.any (proposes market) with
      | false => simp [proposed] at linked
      | true =>
          cases after : occursAfter (creates market) (proposes market) logs with
          | true =>
              simp only [proposed, after, ↓reduceIte, Option.map_some, Option.some.injEq] at linked
              simp [linked]
          | false =>
              simp only [proposed, after, ↓reduceIte, Option.map_some, Option.some.injEq] at linked
              simp [linked]

namespace Sample

def bob : JsString := JsString.ascii "0xb0"

/-- A resolver log, the `index`-th of its block. -/
def ruling (index : Nat) (event : Event) : NormalizedLog :=
  ⟨.optimisticResolver, JsString.ascii "0xf0", event, 7, JsString.ascii "0x77", index, ⟨1000⟩⟩

/-- Alice proposes outcome 0 of market 1, and Bob disputes it. -/
def proposal : Event := .proposed ⟨engine, 1, alice, 0, 25, true, 9⟩

def dispute : Event := .disputed ⟨engine, 1, bob, 1, 25, 12⟩

end Sample

open Sample in
/-- A proposal that stands when its market appears, is abandoned and made again. -/
theorem linked_of_secondProposal :
    let logs := [ruling 0 proposal, created 2, ruling 1 (.proposalAbandoned engine 1),
      ruling 2 proposal]
    ∀ row, (after logs .empty).resolutions.find? Sample.market = some row →
      row.marketRef = some Sample.market := by
  intro logs
  have run : Processed externals .empty logs (after logs .empty) :=
    .of_stopped outside 400 (by decide +kernel)
  have spoken : occursAfter (creates Sample.market) (speaks Sample.market) logs := by
    decide +kernel
  have reproposed : occursAfter (creates Sample.market) (proposes Sample.market) logs := by
    decide +kernel
  exact (linked_iff_reproposed rfl rfl run).mpr (fun _ _ => reproposed) spoken

open Sample in
/-- **A dispute does not link an early proposal.** The proposal is indexed before its
market; the dispute that follows finds the market and leaves the row unlinked. -/
theorem dispute_leaves_unlinked :
    let logs := [ruling 0 proposal, created 2, ruling 1 dispute]
    Processed externals .empty logs (after logs .empty) ∧
      occursAfter (creates Sample.market) (speaks Sample.market) logs ∧
      ((after logs .empty).resolutions.find? Sample.market).map ResolutionProposal.marketRef =
        some none := by
  refine ⟨.of_stopped outside 400 (by decide +kernel), by decide +kernel, ?_⟩
  decide +kernel

/-! ## The current cycle -/

/-- **The row describes the current cycle.** Whatever two histories have left of a market's
resolution, the same proposal and the same logs after it make the same row of it, when the
market is known at the proposal in both or in neither. -/
theorem resolution_of_currentCycle {start' final' : Database}
    {history history' further : List NormalizedLog} {proposal : NormalizedLog}
    (proposed : proposes market proposal)
    (run : Processed ext start (history ++ proposal :: further) final)
    (run' : Processed ext start' (history' ++ proposal :: further) final')
    (visible : (start.register.applyLogs history).link market =
      (start'.register.applyLogs history').link market) :
    ∃ row, final.resolutions.find? market = some row ∧
      final'.resolutions.find? market = some row := by
  have ended : final.register =
      ((start.register.applyLogs history).applyLogs [proposal]).applyLogs further := by
    rw [run.register, Register.applyLogs_append]
    rfl
  have ended' : final'.register =
      ((start'.register.applyLogs history').applyLogs [proposal]).applyLogs further := by
    rw [run'.register, Register.applyLogs_append]
    rfl
  obtain ⟨a, event, written⟩ :=
    resolution_applyLog_of_proposes market proposed (start.register.applyLogs history)
  obtain ⟨a', event', written'⟩ :=
    resolution_applyLog_of_proposes market proposed (start'.register.applyLogs history')
  obtain rfl := Event.proposed.inj (event.symm.trans event')
  have rewritten : ((start.register.applyLogs history).applyLogs [proposal]).resolutions.find?
        market =
      ((start'.register.applyLogs history').applyLogs [proposal]).resolutions.find? market := by
    rw [written, written', visible]
  have visibleAfter : ((start.register.applyLogs history).applyLogs [proposal]).link market =
      ((start'.register.applyLogs history').applyLogs [proposal]).link market := by
    rw [link_applyLog, link_applyLog, visible]
  have same := resolution_applyLogs_congr market further visibleAfter rewritten
  have present : (((start.register.applyLogs history).applyLogs [proposal]).resolutions.find?
      market).isSome := by
    rw [written]
    rfl
  obtain ⟨row, found⟩ :=
    Option.isSome_iff_exists.mp (isSome_resolution_applyLogs market further present)
  rw [← ended] at found
  rw [← ended, ← ended'] at same
  exact ⟨row, found, same.symm.trans found⟩

open Sample in
/-- A first cycle, and one after a disputed proposal was reset and another settled. -/
theorem resolution_of_secondCycle :
    let first := [created 2]
    let second := [created 2, ruling 0 proposal, ruling 1 dispute,
      ruling 2 (.disputeReset engine 1), ruling 3 proposal,
      ruling 4 (.finalized ⟨engine, 1, 0, 30⟩)]
    let cycle := [ruling 5 proposal, ruling 6 dispute]
    ∃ row, (after (first ++ cycle) .empty).resolutions.find? Sample.market = some row ∧
      (after (second ++ cycle) .empty).resolutions.find? Sample.market = some row := by
  intro first second cycle
  have run : Processed externals .empty (first ++ cycle) (after (first ++ cycle) .empty) :=
    .of_stopped outside 400 (by decide +kernel)
  have run' : Processed externals .empty (second ++ cycle) (after (second ++ cycle) .empty) :=
    .of_stopped outside 400 (by decide +kernel)
  exact resolution_of_currentCycle (by decide +kernel) run run' (by decide +kernel)

end Numera
