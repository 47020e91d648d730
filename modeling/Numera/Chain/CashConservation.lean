import Numera.Chain.Refinement

/-! # Cash conservation in the position ledger

What an account has received in a market less what it has paid there, against
the sum of `realizedPnl - costBasis` over its positions. Every write moves the
sum by a known amount (`cash_apply`). A purchase, a sale and a short move it by
what was paid or received. A redemption moves it by the payout once for every
position row the account has in the market, and a short on a market without
another outcome does not move it at all: these are the two logs a step has to be
spared for the sum to stay exact (`Accounted`).
-/

namespace Numera

open Database (isHeldBy)

variable (market : MarketKey) (account : JsString)

/-- The sum of `realizedPnl - costBasis` over the account's positions. -/
def Ledger.cash (ledger : Ledger) : Int :=
  ledger.holdings.total (isHeldBy market account) Holding.cash

/-- What the account pays in a log: the cost of its purchases and shorts. -/
def paidIn (log : NormalizedLog) : Int :=
  match log.kind, log.event with
  | .lsLmsr, .bought a | .lsLmsr, .shorted a =>
      if log.marketKey a.marketId = market ∧ a.account.toLowerCase = account then a.amount else 0
  | _, _ => 0

/-- What the account receives in a log: the proceeds of its sales and its
redemptions. -/
def receivedIn (log : NormalizedLog) : Int :=
  match log.kind, log.event with
  | .lsLmsr, .sold a =>
      if log.marketKey a.marketId = market ∧ a.account.toLowerCase = account then a.amount else 0
  | .lsLmsr, .redeemed marketId redeemer amount =>
      if log.marketKey marketId = market ∧ redeemer.toLowerCase = account then amount else 0
  | _, _ => 0

def totalPaid (logs : List NormalizedLog) : Int := (logs.map (paidIn market account)).sum

def totalReceived (logs : List NormalizedLog) : Int := (logs.map (receivedIn market account)).sum

/-- A log the position rows account for in full. A redemption by the account finds
exactly one position row of it in the market, and a short by it has an outcome to
credit; either may move no money instead. -/
def Accounted (ledger : Ledger) (log : NormalizedLog) : Prop :=
  match log.kind, log.event with
  | .lsLmsr, .redeemed marketId redeemer amount =>
      log.marketKey marketId = market → redeemer.toLowerCase = account →
        amount = 0 ∨ ledger.holdings.count (isHeldBy market account) = 1
  | .lsLmsr, .shorted a =>
      log.marketKey a.marketId = market → a.account.toLowerCase = account →
        a.amount = 0 ∨ ledger.credits market a.outcomeId
  | _, _ => True

/-! ## What a write moves -/

/-- The amount a write moves the account's cash by. -/
def Write.cashMoved (ledger : Ledger) : Write → Int
  | buy key _ amount => if isHeldBy market account key then -amount else 0
  | sell key _ amount => if isHeldBy market account key then amount else 0
  | redeem key holder payout =>
      if key = market ∧ holder = account then
        ledger.holdings.count (isHeldBy market account) * payout
      else 0
  | _ => 0

/-- **One write.** -/
theorem cash_apply (write : Write) (ledger : Ledger) :
    (write.apply ledger).cash market account =
      ledger.cash market account + write.cashMoved market account ledger := by
  cases write with
  | buy key shares amount =>
      simp only [Ledger.cash, Write.apply, Table.total_upsert, Write.cashMoved]
      split
      · cases ledger.holdings.find? key with
        | none => simp [Holding.cash]
        | some holding => simp
      · rfl
  | sell key shares amount =>
      simp only [Ledger.cash, Write.apply, Table.total_upsert, Write.cashMoved]
      split
      · cases ledger.holdings.find? key with
        | none => simp [Holding.cash]
        | some holding => simp
      · rfl
  | redeem key holder payout =>
      simp only [Ledger.cash, Write.apply, Write.cashMoved]
      split
      · rename_i same
        obtain ⟨rfl, rfl⟩ := same
        exact Table.total_modifyWhere_same _ _ _ _ _ fun holding => Holding.cash_redeem _ _
      · rename_i other
        rw [add_zero]
        refine Table.total_modifyWhere_disjoint _ _ _ _ _ fun position held => ?_
        simp only [isHeldBy, decide_eq_true_eq, decide_eq_false_iff_not] at held ⊢
        rintro ⟨rfl, rfl⟩
        exact other ⟨held.1, held.2⟩
  | openBook _ _ => exact (add_zero _).symm
  | trade _ _ => exact (add_zero _).symm
  | movePot _ _ => exact (add_zero _).symm
  | setPot _ _ => exact (add_zero _).symm
  | moveStock _ _ _ => exact (add_zero _).symm

/-- The legs of a short carry its whole cost. -/
theorem sum_legBasis (cost count : Nat) (positive : 0 < count) :
    ((List.range count).map (EventProcessor.legBasis cost count)).sum = cost := by
  obtain ⟨last, rfl⟩ : ∃ last, count = last + 1 := ⟨count - 1, by omega⟩
  have even : (List.range last).map (EventProcessor.legBasis cost (last + 1)) =
      List.replicate last (cost / (last + 1)) := by
    rw [List.map_eq_replicate_iff.mpr, List.length_range]
    intro k member
    rw [List.mem_range] at member
    simp only [EventProcessor.legBasis]
    rw [if_neg (by omega)]
  have remainder : cost / (last + 1) * last ≤ cost := by
    calc cost / (last + 1) * last ≤ cost / (last + 1) * (last + 1) :=
          Nat.mul_le_mul_left _ (Nat.le_succ last)
      _ ≤ cost := Nat.div_mul_le_self _ _
  rw [List.range_succ, List.map_append, List.sum_append, even, List.sum_replicate_nat]
  simp only [List.map_cons, List.map_nil, List.sum_cons, List.sum_nil, EventProcessor.legBasis,
    Nat.add_sub_cancel, ↓reduceIte, add_zero]
  rw [Nat.mul_comm last]
  omega

/-- The legs of a short move the account's cash by the bases they carry. -/
private theorem cash_legs (log : NormalizedLog) (a : TradeArgs) (count : Nat)
    (legs : List (Nat × Nat)) (ledger : Ledger) :
    (ledgerJournal.replay (legs.flatMap (legWrites log a count)) ledger).cash market account =
      ledger.cash market account -
        if log.marketKey a.marketId = market ∧ a.account.toLowerCase = account then
          ((legs.map fun leg => EventProcessor.legBasis a.amount count leg.2).sum : Int)
        else 0 := by
  induction legs generalizing ledger with
  | nil => simp
  | cons leg rest ih =>
      rw [List.flatMap_cons, Journal.replay_append, ih]
      simp only [legWrites, Journal.replay_cons, Journal.replay_nil, ledgerJournal_apply,
        cash_apply, Write.cashMoved, isHeldBy, positionKey, decide_eq_true_eq]
      split
      · simp only [List.map_cons, List.sum_cons]
        push_cast
        ring
      · ring

/-- A short on a market with another outcome moves the account's cash by its cost. -/
private theorem cash_shortWrites (log : NormalizedLog) (a : TradeArgs) (outcomeCount : Nat)
    (ledger : Ledger) (credited : EventProcessor.legs outcomeCount a.outcomeId ≠ []) :
    (ledgerJournal.replay (shortWrites log a outcomeCount) ledger).cash market account =
      ledger.cash market account -
        if log.marketKey a.marketId = market ∧ a.account.toLowerCase = account then
          (a.amount : Int)
        else 0 := by
  have positive : 0 < (EventProcessor.legs outcomeCount a.outcomeId).length :=
    List.length_pos_iff.mpr credited
  have indices : ((EventProcessor.legs outcomeCount a.outcomeId).zipIdx.map fun leg =>
        EventProcessor.legBasis a.amount (EventProcessor.legs outcomeCount a.outcomeId).length
          leg.2) =
      (List.range (EventProcessor.legs outcomeCount a.outcomeId).length).map
        (EventProcessor.legBasis a.amount
          (EventProcessor.legs outcomeCount a.outcomeId).length) := by
    rw [List.range_eq_range', ← List.zipIdx_map_snd, List.map_map]
    rfl
  have whole := sum_legBasis a.amount (EventProcessor.legs outcomeCount a.outcomeId).length positive
  simp only [shortWrites]
  rw [if_neg (by omega)]
  simp only [Journal.replay_cons, Journal.replay_append, Journal.replay_nil, ledgerJournal_apply,
    cash_apply, cash_legs, Write.cashMoved, indices, whole]
  ring

/-- A short that is accounted for moves the account's cash by its cost. Where it has no outcome to
credit nothing is recorded, so nothing may have been paid. -/
private theorem cash_shorted (log : NormalizedLog) (a : TradeArgs) (ledger : Ledger) {book : Book}
    (found : ledger.books.find? (log.marketKey a.marketId) = some book)
    (accounted : log.marketKey a.marketId = market → a.account.toLowerCase = account →
      a.amount = 0 ∨ ledger.credits market a.outcomeId) :
    (ledgerJournal.replay (shortWrites log a book.outcomeCount) ledger).cash market account =
      ledger.cash market account -
        if log.marketKey a.marketId = market ∧ a.account.toLowerCase = account then
          (a.amount : Int)
        else 0 := by
  by_cases credited : EventProcessor.legs book.outcomeCount a.outcomeId = []
  · have noWrites : shortWrites log a book.outcomeCount = [] := by
      simp [shortWrites, credited]
    have free : (if log.marketKey a.marketId = market ∧ a.account.toLowerCase = account then
        (a.amount : Int) else 0) = 0 := by
      split
      · rename_i same
        rcases accounted same.1 same.2 with zero | legs
        · rw [zero]
          rfl
        · rw [same.1] at found
          exact absurd credited (Ledger.legs_of_credits legs found)
      · rfl
    rw [noWrites, free]
    simp
  · exact cash_shortWrites market account log a book.outcomeCount ledger credited

/-! ## What a log moves -/

/-- **One log.** An accounted log moves the cash of an account in a market that
exists by what the account receives in it less what it pays. -/
theorem cash_applyLog {ledger : Ledger} {log : NormalizedLog}
    (known : (ledger.books.find? market).isSome)
    (accounted : Accounted market account ledger log) :
    (ledger.applyLogs [log]).cash market account =
      ledger.cash market account + (receivedIn market account log - paidIn market account log) := by
  change (ledgerJournal.replay (logWrites ledger.books.find? log) ledger).cash market account = _
  have elsewhere : ∀ {marketId : Nat}, ledger.books.find? (log.marketKey marketId) = none →
      log.marketKey marketId ≠ market := by
    rintro marketId absent rfl
    rw [absent] at known
    cases known
  unfold logWrites engineWrites receivedIn paidIn
  unfold Accounted at accounted
  cases kind : log.kind with
  | optimisticResolver => simp
  | tradingBlocklist => simp
  | lsLmsr =>
      rw [kind] at accounted
      cases event : log.event with
      | bought a =>
          dsimp only
          cases found : ledger.books.find? (log.marketKey a.marketId) with
          | none => simp [elsewhere found]
          | some book =>
              simp only [Journal.replay_cons, Journal.replay_nil, ledgerJournal_apply, cash_apply,
                Write.cashMoved, isHeldBy, positionKey, decide_eq_true_eq]
              split <;> ring
      | sold a =>
          dsimp only
          cases found : ledger.books.find? (log.marketKey a.marketId) with
          | none => simp [elsewhere found]
          | some book =>
              simp only [Journal.replay_cons, Journal.replay_nil, ledgerJournal_apply, cash_apply,
                Write.cashMoved, isHeldBy, positionKey, decide_eq_true_eq]
              split <;> ring
      | shorted a =>
          rw [event] at accounted
          dsimp only at accounted ⊢
          cases found : ledger.books.find? (log.marketKey a.marketId) with
          | none => simp [elsewhere found]
          | some book =>
              dsimp only
              rw [cash_shorted market account log a ledger found accounted]
              ring
      | redeemed marketId redeemer amount =>
          rw [event] at accounted
          dsimp only at accounted ⊢
          cases found : ledger.books.find? (log.marketKey marketId) with
          | none => simp [elsewhere found]
          | some book =>
              simp only [Journal.replay_cons, Journal.replay_nil, ledgerJournal_apply, cash_apply,
                Write.cashMoved]
              split
              · rename_i same
                rcases accounted same.1 same.2 with zero | one
                · simp [zero]
                · rw [one]
                  push_cast
                  ring
              · ring
      | seedRedeemed marketId creator amount =>
          dsimp only
          cases found : ledger.books.find? (log.marketKey marketId) with
          | none => simp
          | some book =>
              dsimp only
              split
              · simp
              · simp [cash_apply, Write.cashMoved]
      | marketResolved marketId winningOutcomeId owed surplus =>
          dsimp only
          cases found : ledger.books.find? (log.marketKey marketId) with
          | none => simp
          | some book => simp [cash_apply, Write.cashMoved]
      | marketCreated a => simp [cash_apply, Write.cashMoved]
      | _ => simp

/-- The market stays known whatever is processed. -/
private theorem known_applyLogs {ledger : Ledger} (log : NormalizedLog)
    (known : (ledger.books.find? market).isSome) :
    ((ledger.applyLogs [log]).books.find? market).isSome := by
  obtain ⟨book, present⟩ := Option.isSome_iff_exists.mp known
  obtain ⟨later, found, -⟩ :=
    find?_replay_outcomeCount (logWrites ledger.books.find? log) present
  exact Option.isSome_iff_exists.mpr ⟨later, found⟩

/-- **A run of logs.** When every log is accounted for in the ledger it meets, the
cash moves by all that was received less all that was paid. -/
theorem cash_applyLogs {ledger : Ledger} {logs : List NormalizedLog}
    (known : (ledger.books.find? market).isSome)
    (accounted : ledger.EachLog (Accounted market account) logs) :
    (ledger.applyLogs logs).cash market account =
      ledger.cash market account +
        (totalReceived market account logs - totalPaid market account logs) := by
  induction logs generalizing ledger with
  | nil => simp [Ledger.applyLogs, totalReceived, totalPaid]
  | cons log rest ih =>
      obtain ⟨first, others⟩ := accounted
      have step := cash_applyLog market account known first
      have later := ih (known_applyLogs market log known) others
      have split : ledger.applyLogs (log :: rest) = (ledger.applyLogs [log]).applyLogs rest :=
        Ledger.applyLogs_append ledger [log] rest
      rw [split, later, step]
      simp only [totalReceived, totalPaid, List.map_cons, List.sum_cons]
      ring

/-! ## The position table -/

variable {market account} {ext : Externals} {start final : Database} {logs : List NormalizedLog}

/-- The sum of `realizedPnl - costBasis` over the account's rows of the position
table. -/
def positionCash (market : MarketKey) (account : JsString) (db : Database) : Int :=
  db.positions.total (isHeldBy market account) fun row => row.realizedPnl - row.costBasis

theorem cash_ledger (db : Database) :
    db.ledger.cash market account = positionCash market account db :=
  Table.total_map _ _ _ _

/-- **Cash is conserved while every log is accounted for.** From a database
without positions, in every run, an account's position rows in a market carry
what it received there less what it paid. -/
theorem positionCash_of_accounted (known : (start.markets.find? market).isSome)
    (noPositions : start.positions = .empty)
    (accounted : start.ledger.EachLog (Accounted market account) logs)
    (run : Processed ext start logs final) :
    positionCash market account final =
      totalReceived market account logs - totalPaid market account logs := by
  have knownBook : (start.ledger.books.find? market).isSome := by
    simpa [Database.ledger] using known
  have initially : start.ledger.cash market account = 0 := by
    rw [cash_ledger, positionCash, noPositions]
    rfl
  rw [← cash_ledger, run.ledger, cash_applyLogs market account knownBook accounted, initially]
  ring

open Sample in
/-- A purchase, a sale and a redemption of one outcome: 5 paid, 3 and 6 received. -/
theorem positionCash_of_oneOutcome :
    positionCash Sample.market alice
      (after [log 1 (.bought (trade 0 10 5)), log 2 (.sold (trade 0 4 3)),
        log 3 (.redeemed 1 alice 6)] (opened 2)) = 4 := by
  have known : ((opened 2).markets.find? Sample.market).isSome := by decide +kernel
  have oneRow : Accounted Sample.market alice
      (((opened 2).ledger.applyLogs [log 1 (.bought (trade 0 10 5))]).applyLogs
        [log 2 (.sold (trade 0 4 3))]) (log 3 (.redeemed 1 alice 6)) :=
    fun _ _ => .inr (by decide +kernel)
  have accounted : (opened 2).ledger.EachLog (Accounted Sample.market alice)
      [log 1 (.bought (trade 0 10 5)), log 2 (.sold (trade 0 4 3)),
        log 3 (.redeemed 1 alice 6)] := ⟨trivial, trivial, oneRow, trivial⟩
  have run := positionCash_of_accounted known rfl accounted
    (.of_stopped outside 400 (by decide +kernel) : Processed externals _ _ _)
  exact run.trans (by decide +kernel)

open Sample in
/-- **A redemption is counted once for every row.** Alice buys both outcomes of
market 1 for 4 and 6 and redeems 10: her two rows carry 10 more than she has. -/
theorem redemption_counted_per_row :
    let logs := [log 1 (.bought (trade 0 10 4)), log 2 (.bought (trade 1 10 6)),
      log 3 (.redeemed 1 alice 10)]
    Processed externals (opened 2) logs (after logs (opened 2)) ∧
      (opened 2).positions = .empty ∧ 0 < totalPaid Sample.market alice logs ∧
      positionCash Sample.market alice (after logs (opened 2)) ≠
        totalReceived Sample.market alice logs - totalPaid Sample.market alice logs := by
  refine ⟨.of_stopped outside 400 (by decide +kernel), rfl, by decide +kernel, ?_⟩
  decide +kernel

end Numera
