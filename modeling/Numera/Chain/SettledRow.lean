import Numera.Chain.Resolutions

/-! # Settled resolution rows

The row of one market's resolution against the chain's phase machine. Whatever
cycle the resolver is in, the row's phase is the machine's (`stands_of_phaseRun`).
A finalization settles the row in one write and an arbitration against a loser in
two, its own and that of the slash beside it. An arbitration against nobody comes
without a slash, and then nothing writes when and where the row was settled.
-/

namespace Numera

variable (market : MarketKey)

/-- The resolver's logs about one market, one transaction after the other, and the
phase the chain leaves it in. A slash comes with an arbitration against a loser, on
either side of it. -/
inductive PhaseRun : List NormalizedLog → ResolutionPhase → Prop where
  | start : PhaseRun [] .none
  | proposed {logs : List NormalizedLog} {log : NormalizedLog} {a : Proposed}
      (before : PhaseRun logs .none) (event : log.event = .proposed a) :
      PhaseRun (logs ++ [log]) .proposed
  | disputed {logs : List NormalizedLog} {log : NormalizedLog} {a : Disputed}
      (before : PhaseRun logs .proposed) (event : log.event = .disputed a) :
      PhaseRun (logs ++ [log]) .disputed
  | finalized {logs : List NormalizedLog} {log : NormalizedLog} {a : Finalized}
      (before : PhaseRun logs .proposed) (event : log.event = .finalized a) :
      PhaseRun (logs ++ [log]) .settled
  | abandoned {logs : List NormalizedLog} {log : NormalizedLog} {engine : JsString}
      {marketId : Nat} (before : PhaseRun logs .proposed)
      (event : log.event = .proposalAbandoned engine marketId) : PhaseRun (logs ++ [log]) .none
  | reset {logs : List NormalizedLog} {log : NormalizedLog} {engine : JsString} {marketId : Nat}
      (before : PhaseRun logs .disputed) (event : log.event = .disputeReset engine marketId) :
      PhaseRun (logs ++ [log]) .none
  | unpunished {logs : List NormalizedLog} {log : NormalizedLog} {a : Arbitrated}
      (before : PhaseRun logs .disputed) (event : log.event = .arbitrated a)
      (nobody : a.loser.toLowerCase = zeroAddress) : PhaseRun (logs ++ [log]) .settled
  | punished {logs transaction : List NormalizedLog} {arbitration slash : NormalizedLog}
      {a : Arbitrated} {s : Slashed} (before : PhaseRun logs .disputed)
      (arbitrates : arbitration.event = .arbitrated a) (slashes : slash.event = .slashed s)
      (somebody : a.loser.toLowerCase ≠ zeroAddress)
      (account : s.account.toLowerCase = a.loser.toLowerCase) (amount : s.amount = a.forfeited)
      (together : transaction = [arbitration, slash] ∨ transaction = [slash, arbitration]) :
      PhaseRun (logs ++ transaction) .settled

/-- The arbitrations among the logs. -/
def arbitrations (logs : List NormalizedLog) : List Arbitrated :=
  logs.filterMap fun log => match log.event with
    | .arbitrated a => some a
    | _ => none

/-- The row says it is settled exactly when it says when, where and how, and its
forfeit is that of the arbitration, if there was one. -/
structure CompletelySettled (arbitration : Option Arbitrated) (row : ResolutionProposal) :
    Prop where
  settled : row.phase = .settled ↔
    row.settledAt.isSome ∧ row.settledTx.isSome ∧ row.route.isSome
  forfeited : row.forfeited = ((arbitration.map fun a => (a.forfeited : Int)).getD 0)
  loser : row.loser = arbitration.bind fun a => unlessZero a.loser.toLowerCase

/-! ## The row under a run of logs -/

/-- A row apart from its link to the market. -/
def ResolutionProposal.unlinked (row : ResolutionProposal) : ResolutionProposal :=
  { row with marketRef := none }

/-- The row after logs about it. -/
def rowAfter (logs : List NormalizedLog) (row? : Option ResolutionProposal) :
    Option ResolutionProposal :=
  logs.foldl (fun row? log => rowStep none log row?) row?

@[simp] theorem rowAfter_concat (logs : List NormalizedLog) (log : NormalizedLog)
    (row? : Option ResolutionProposal) :
    rowAfter (logs ++ [log]) row? = rowStep none log (rowAfter logs row?) := by
  simp [rowAfter]

private theorem unlinked_rowStep (ref : Option MarketKey) (log : NormalizedLog)
    (row? : Option ResolutionProposal) :
    (rowStep ref log row?).map ResolutionProposal.unlinked =
      rowStep none log (row?.map ResolutionProposal.unlinked) := by
  unfold rowStep
  cases log.event <;> cases row? <;> rfl

/-- **The row after a run.** Apart from its link it is what the logs about it leave. -/
theorem unlinked_applyLogs {register : Register}
    (noRow : register.resolutions.find? market = none) (logs : List NormalizedLog) :
    ((register.applyLogs logs).resolutions.find? market).map ResolutionProposal.unlinked =
      rowAfter (logs.filter (resolves market)) none := by
  induction logs using List.reverseRecOn with
  | nil =>
      change (register.resolutions.find? market).map _ = _
      rw [noRow]
      rfl
  | append_singleton before log ih =>
      rw [Register.applyLogs_append, resolution_applyLog, List.filter_append]
      by_cases about : resolves market log
      · rw [if_pos about, unlinked_rowStep, ih, List.filter_cons_of_pos about, List.filter_nil,
          rowAfter_concat]
      · rw [if_neg about, ih, List.filter_cons_of_neg about, List.filter_nil, List.append_nil]

/-! ## The phases -/

/-- Where a row stands in a phase, after some arbitrations. -/
inductive Stands : ResolutionPhase → List Arbitrated → Option ResolutionProposal → Prop where
  | unproposed : Stands .none [] none
  | unsettled {phase : ResolutionPhase} {row : ResolutionProposal} (same : row.phase = phase)
      (open_ : phase ≠ .settled) (route : row.route = none) (settledAt : row.settledAt = none)
      (settledTx : row.settledTx = none) (forfeited : row.forfeited = 0)
      (loser : row.loser = none) : Stands phase [] (some row)
  | finalized {row : ResolutionProposal} (phase : row.phase = .settled)
      (route : row.route.isSome) (settledAt : row.settledAt.isSome)
      (settledTx : row.settledTx.isSome) (forfeited : row.forfeited = 0)
      (loser : row.loser = none) : Stands .settled [] (some row)
  | arbitrated {row : ResolutionProposal} {a : Arbitrated} (phase : row.phase = .settled)
      (route : row.route.isSome) (forfeited : row.forfeited = a.forfeited)
      (loser : row.loser = unlessZero a.loser.toLowerCase)
      (settledAt : row.settledAt.isSome = !decide (a.loser.toLowerCase = zeroAddress))
      (settledTx : row.settledTx.isSome = !decide (a.loser.toLowerCase = zeroAddress)) :
      Stands .settled [a] (some row)

private theorem Stands.phase_eq {phase : ResolutionPhase} {arbitrated : List Arbitrated}
    {row : ResolutionProposal} (stands : Stands phase arbitrated (some row)) :
    row.phase = phase := by
  cases stands with
  | unsettled same => exact same
  | finalized same => exact same
  | arbitrated same => exact same

private theorem Stands.none_of_none {arbitrated : List Arbitrated}
    {row? : Option ResolutionProposal} (stands : Stands .none arbitrated row?) :
    arbitrated = [] := by
  cases stands with
  | unproposed => rfl
  | unsettled => rfl

/-- A row in an open phase stands there without an arbitration. -/
private theorem Stands.of_open {phase : ResolutionPhase} {arbitrated : List Arbitrated}
    {row? : Option ResolutionProposal} (stands : Stands phase arbitrated row?)
    (open_ : phase ≠ .settled) (started : phase ≠ .none) :
    arbitrated = [] ∧ ∃ row, row? = some row ∧ row.phase = phase ∧ row.route = none ∧
      row.settledAt = none ∧ row.settledTx = none ∧ row.forfeited = 0 ∧ row.loser = none := by
  cases stands with
  | unproposed => exact absurd rfl started
  | unsettled same _ route settledAt settledTx forfeited loser =>
      exact ⟨rfl, _, rfl, same, route, settledAt, settledTx, forfeited, loser⟩
  | finalized => exact absurd rfl open_
  | arbitrated => exact absurd rfl open_

private theorem arbitrations_other {logs : List NormalizedLog} {log : NormalizedLog}
    (other : ∀ a, log.event ≠ .arbitrated a) :
    arbitrations (logs ++ [log]) = arbitrations logs := by
  unfold arbitrations
  rw [List.filterMap_append, List.filterMap_cons, List.filterMap_nil]
  cases event : log.event with
  | arbitrated a => exact absurd event (other a)
  | _ => simp

private theorem arbitrations_arbitrated {logs : List NormalizedLog} {log : NormalizedLog}
    {a : Arbitrated} (event : log.event = .arbitrated a) :
    arbitrations (logs ++ [log]) = arbitrations logs ++ [a] := by
  unfold arbitrations
  rw [List.filterMap_append, List.filterMap_cons, List.filterMap_nil, event]

/-- **One transaction after the other.** The row stands in the machine's phase. -/
theorem stands_of_phaseRun {logs : List NormalizedLog} {phase : ResolutionPhase}
    (machine : PhaseRun logs phase) : Stands phase (arbitrations logs) (rowAfter logs none) := by
  induction machine with
  | start => exact .unproposed
  | @proposed logs log a before event ih =>
      rw [arbitrations_other (by simp [event]), ih.none_of_none, rowAfter_concat]
      simp only [rowStep, event]
      exact .unsettled rfl (by simp) rfl rfl rfl rfl rfl
  | @disputed logs log a before event ih =>
      obtain ⟨none, row, present, -, route, settledAt, settledTx, forfeited, loser⟩ :=
        ih.of_open (by simp) (by simp)
      rw [arbitrations_other (by simp [event]), none, rowAfter_concat, present]
      simp only [rowStep, event]
      exact .unsettled rfl (by simp) route settledAt settledTx forfeited loser
  | @finalized logs log a before event ih =>
      obtain ⟨none, row, present, -, route, settledAt, settledTx, forfeited, loser⟩ :=
        ih.of_open (by simp) (by simp)
      rw [arbitrations_other (by simp [event]), none, rowAfter_concat, present]
      simp only [rowStep, event]
      exact .finalized rfl rfl rfl rfl forfeited loser
  | @abandoned logs log engine marketId before event ih =>
      obtain ⟨none, row, present, -, route, settledAt, settledTx, forfeited, loser⟩ :=
        ih.of_open (by simp) (by simp)
      rw [arbitrations_other (by simp [event]), none, rowAfter_concat, present]
      simp only [rowStep, event]
      exact .unsettled rfl (by simp) route settledAt settledTx forfeited loser
  | @reset logs log engine marketId before event ih =>
      obtain ⟨none, row, present, -, route, settledAt, settledTx, forfeited, loser⟩ :=
        ih.of_open (by simp) (by simp)
      rw [arbitrations_other (by simp [event]), none, rowAfter_concat, present]
      simp only [rowStep, event]
      exact .unsettled rfl (by simp) route settledAt settledTx forfeited loser
  | @unpunished logs log a before event nobody ih =>
      obtain ⟨none, row, present, -, -, settledAt, settledTx, -, -⟩ :=
        ih.of_open (by simp) (by simp)
      rw [arbitrations_arbitrated event, none, rowAfter_concat, present]
      simp only [rowStep, event]
      refine .arbitrated rfl rfl rfl rfl ?_ ?_
      · simp [ResolutionUpdate.apply, arbitratedUpdate, settledAt, nobody]
      · simp [ResolutionUpdate.apply, arbitratedUpdate, settledTx, nobody]
  | @punished logs transaction arbitration slash a s before arbitrates slashes somebody account
      amount together ih =>
      obtain ⟨none, row, present, -⟩ := ih.of_open (by simp) (by simp)
      have punished : unlessZero a.loser.toLowerCase = some a.loser.toLowerCase := if_neg somebody
      rcases together with rfl | rfl
      · rw [List.append_cons, arbitrations_other (by simp [slashes]),
          arbitrations_arbitrated arbitrates, none, rowAfter_concat, rowAfter_concat, present]
        simp only [rowStep, arbitrates, slashes]
        refine .arbitrated rfl rfl ?_ ?_ ?_ ?_
        · simp [ResolutionUpdate.apply, slashedUpdate, amount]
        · simp [ResolutionUpdate.apply, slashedUpdate, account, punished]
        · simp [ResolutionUpdate.apply, slashedUpdate, somebody]
        · simp [ResolutionUpdate.apply, slashedUpdate, somebody]
      · rw [List.append_cons, arbitrations_arbitrated arbitrates,
          arbitrations_other (by simp [slashes]), none, rowAfter_concat, rowAfter_concat, present]
        simp only [rowStep, arbitrates, slashes]
        refine .arbitrated rfl rfl rfl rfl ?_ ?_
        · simp [ResolutionUpdate.apply, arbitratedUpdate, slashedUpdate, somebody]
        · simp [ResolutionUpdate.apply, arbitratedUpdate, slashedUpdate, somebody]

/-- A row that stands somewhere is completely settled unless it was arbitrated against
nobody. -/
private theorem Stands.completelySettled_iff {phase : ResolutionPhase}
    {arbitrated : List Arbitrated} {row : ResolutionProposal}
    (stands : Stands phase arbitrated (some row)) :
    CompletelySettled arbitrated.getLast? row ↔
      ∀ a ∈ arbitrated, a.loser.toLowerCase ≠ zeroAddress := by
  cases stands with
  | unsettled same open_ route settledAt settledTx forfeited loser =>
      refine ⟨(fun _ a member => nomatch member), fun _ => ⟨?_, forfeited, loser⟩⟩
      rw [same, route]
      simp [open_]
  | finalized settled route settledAt settledTx forfeited loser =>
      refine ⟨(fun _ a member => nomatch member), fun _ => ⟨?_, forfeited, loser⟩⟩
      simp [settled, route, settledAt, settledTx]
  | @arbitrated _ a settled route forfeited loser settledAt settledTx =>
      constructor
      · intro complete other member
        rw [List.mem_singleton.mp member]
        have dated := (complete.settled.mp settled).1
        rw [settledAt] at dated
        simpa using dated
      · intro somebody
        have punished := somebody a List.mem_cons_self
        refine ⟨?_, forfeited, loser⟩
        simp [settled, route, settledAt, settledTx, punished]

variable {market} {ext : Externals} {start final : Database} {logs : List NormalizedLog}
  {phase : ResolutionPhase}

/-- **A settled row is completely settled unless nobody lost.** In every run whose
logs about the market follow the chain's phase machine, between any two transactions:
the row is in the machine's phase, and it is completely settled if and only if no
arbitration named the zero address as its loser. -/
theorem completelySettled_iff_somebodyLost (noRow : start.resolutions.find? market = none)
    (machine : PhaseRun (logs.filter (resolves market)) phase)
    (run : Processed ext start logs final) :
    (∀ row, final.resolutions.find? market = some row → row.phase = phase) ∧
      ((∀ row, final.resolutions.find? market = some row →
          CompletelySettled (arbitrations (logs.filter (resolves market))).getLast? row) ↔
        ∀ a ∈ arbitrations (logs.filter (resolves market)),
          a.loser.toLowerCase ≠ zeroAddress) := by
  have stands := stands_of_phaseRun machine
  have reached : (final.register.resolutions.find? market).map ResolutionProposal.unlinked =
      rowAfter (logs.filter (resolves market)) none := by
    rw [run.register]
    exact unlinked_applyLogs market noRow logs
  change (final.resolutions.find? market).map _ = _ at reached
  rw [← reached] at stands
  cases found : final.resolutions.find? market with
  | none =>
      rw [found] at stands
      refine ⟨(fun row same => nomatch same), fun _ a member => ?_, fun _ row same => nomatch same⟩
      generalize arbitrations (logs.filter (resolves market)) = arbitrated at *
      cases stands
      cases member
  | some row =>
      rw [found, Option.map_some] at stands
      have complete : CompletelySettled (arbitrations (logs.filter (resolves market))).getLast?
          row.unlinked ↔
          CompletelySettled (arbitrations (logs.filter (resolves market))).getLast? row :=
        ⟨fun ⟨settled, forfeited, loser⟩ => ⟨settled, forfeited, loser⟩,
          fun ⟨settled, forfeited, loser⟩ => ⟨settled, forfeited, loser⟩⟩
      refine ⟨fun other same => ?_, ?_⟩
      · cases same
        exact stands.phase_eq
      · rw [← stands.completelySettled_iff, complete]
        simp

namespace Sample

/-- The arbitration of the dispute over market 1, with a loser and a forfeit. -/
def arbitration (loser : JsString) (forfeited : Nat) : Event :=
  .arbitrated ⟨engine, 1, 1, loser, forfeited, 4⟩

end Sample

open Sample in
/-- A first proposal is disputed and the dispute reset; the second is arbitrated
against Alice, who is slashed beside it. -/
theorem completelySettled_of_slash :
    let logs := [created 2, ruling 0 proposal, ruling 1 dispute, ruling 2 (.disputeReset engine 1),
      ruling 3 proposal, ruling 4 dispute, ruling 5 (arbitration alice 25),
      ruling 6 (.slashed ⟨engine, 1, alice, 25⟩)]
    ∀ row, (after logs .empty).resolutions.find? Sample.market = some row →
      CompletelySettled (some ⟨engine, 1, 1, alice, 25, 4⟩) row := by
  intro logs
  have run : Processed externals .empty logs (after logs .empty) :=
    .of_stopped outside 400 (by decide +kernel)
  have first : PhaseRun [ruling 0 proposal, ruling 1 dispute, ruling 2 (.disputeReset engine 1)]
      .none := .reset (.disputed (.proposed .start rfl) rfl) rfl
  have somebody : alice.toLowerCase ≠ zeroAddress := by decide
  have machine : PhaseRun (logs.filter (resolves Sample.market)) .settled :=
    .punished (.disputed (.proposed first rfl) rfl) rfl rfl somebody rfl rfl (.inl rfl)
  refine (completelySettled_iff_somebodyLost rfl machine run).2.mpr fun a member => ?_
  rw [List.mem_singleton.mp member]
  exact somebody

open Sample in
/-- **An arbitration against nobody leaves a settled row undated.** The proposal is
overturned with nobody to punish, and the row never says when or where. -/
theorem arbitration_without_loser_undated :
    let logs := [created 2, ruling 0 proposal, ruling 1 dispute,
      ruling 2 (arbitration zeroAddress 0)]
    Processed externals .empty logs (after logs .empty) ∧
      PhaseRun (logs.filter (resolves Sample.market)) .settled ∧
      ((after logs .empty).resolutions.find? Sample.market).map (fun row =>
        (row.phase, row.settledAt, row.settledTx)) = some (.settled, none, none) := by
  refine ⟨.of_stopped outside 400 (by decide +kernel), ?_, by decide +kernel⟩
  exact .unpunished (.disputed (.proposed .start rfl) rfl) rfl (by decide)

end Numera
