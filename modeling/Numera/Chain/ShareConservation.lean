import Mathlib.Data.List.Induction
import Numera.Chain.Refinement

/-! # Share conservation

The outstanding shares of an outcome against the position rows that hold them.
A trade log moves the shares some accounts hold of an outcome by a known amount
(`sharesMoved`), a short those of every outcome but its own. The outcome row and
the position rows are moved by different writes (`Write.stockMoved` and
`Write.heldMoved`), which agree on every log about a market that exists as long
as no account sells more than it holds.
-/

namespace Numera

variable (market : MarketKey) (index : Nat) (who : JsString → Bool)

/-- The positions of some accounts in an outcome of a market. -/
def isShareOf (key : PositionKey) : Bool :=
  key.marketRef = market ∧ key.outcomeIndex = index ∧ who key.account

theorem isShareOf_iff (key : PositionKey) :
    isShareOf market index who key ↔
      key.marketRef = market ∧ key.outcomeIndex = index ∧ who key.account := by
  simp [isShareOf]

/-- What a log moves the shares by that some accounts hold of an outcome: what they
buy, what they are credited for shorting another outcome, less what they sell. -/
def sharesMoved (log : NormalizedLog) : Int :=
  match log.kind, log.event with
  | .lsLmsr, .bought a =>
      if log.marketKey a.marketId = market ∧ a.outcomeId = index ∧ who a.account.toLowerCase then
        a.shares
      else 0
  | .lsLmsr, .sold a =>
      if log.marketKey a.marketId = market ∧ a.outcomeId = index ∧ who a.account.toLowerCase then
        -a.shares
      else 0
  | .lsLmsr, .shorted a =>
      if log.marketKey a.marketId = market ∧ a.outcomeId ≠ index ∧ who a.account.toLowerCase then
        a.shares
      else 0
  | _, _ => 0

/-- The shares of an outcome some accounts hold after a sequence of logs. -/
def sharesHeld (logs : List NormalizedLog) : Int := (logs.map (sharesMoved market index who)).sum

/-- The shares of an outcome one account holds after a sequence of logs: its net
bought plus shorted elsewhere minus sold. -/
def netShares (account : JsString) (logs : List NormalizedLog) : Int :=
  sharesHeld market index (· = account.toLowerCase) logs

/-- A sale in the market sells no more than its account holds after the logs
before it. -/
def CoveredSale (before : List NormalizedLog) (log : NormalizedLog) : Prop :=
  match log.kind, log.event with
  | .lsLmsr, .sold a =>
      log.marketKey a.marketId = market → a.shares ≤ netShares market a.outcomeId a.account before
  | _, _ => True

/-- No account ever sells more shares of an outcome of the market than it holds. -/
def NeverOversells (before : List NormalizedLog) : List NormalizedLog → Prop
  | [] => True
  | log :: rest => CoveredSale market before log ∧ NeverOversells (before ++ [log]) rest

/-! ## The shares in the ledger -/

/-- The outstanding shares of an outcome, if its market is known and has it. -/
def Ledger.stock? (ledger : Ledger) : Option Int :=
  (ledger.books.find? market).bind fun book => book.stock[index]?

/-- The shares the selected positions hold. -/
def Ledger.held (selected : PositionKey → Bool) (ledger : Ledger) : Int :=
  ledger.holdings.total selected Holding.shares

/-- What a write moves the outstanding shares of an outcome by. -/
def Write.stockMoved : Write → Int
  | moveStock key at_ shares => if key = market ∧ at_ = index then shares else 0
  | _ => 0

/-- What a write moves the shares of the selected positions by, when it sells no
more than there is. -/
def Write.heldMoved (selected : PositionKey → Bool) : Write → Int
  | buy key shares _ => if selected key then shares else 0
  | sell key shares _ => if selected key then -shares else 0
  | _ => 0

/-- A sale out of the selected positions sells no more than its position holds. -/
def Write.Covered (selected : PositionKey → Bool) (ledger : Ledger) : Write → Prop
  | sell key shares _ =>
      selected key → (shares : Int) ≤ ledger.held fun other => decide (other = key)
  | _ => True

/-! ## What a write moves -/

/-- **One write on a market that exists.** -/
private theorem stock?_apply (write : Write) {ledger : Ledger}
    (known : (ledger.books.find? market).isSome) :
    (write.apply ledger).stock? market index =
      (ledger.stock? market index).map (· + write.stockMoved market index) := by
  have unmoved : ∀ stock : Option Int, stock = stock.map (· + 0) := by
    intro stock
    cases stock <;> simp
  have modified : ∀ (key : MarketKey) (change : Book → Book),
      (∀ book, (change book).stock = book.stock) →
      Ledger.stock? market index { ledger with books := ledger.books.modify key change } =
        (ledger.stock? market index).map (· + 0) := by
    intro key change keeps
    rw [← unmoved]
    simp only [Ledger.stock?, Table.find?_modify]
    split
    · rename_i same
      subst same
      cases ledger.books.find? market <;> simp [keeps]
    · rfl
  obtain ⟨book, present⟩ := Option.isSome_iff_exists.mp known
  cases write with
  | openBook key created =>
      simp only [Write.apply, Ledger.stock?, Table.find?_insertNew, Write.stockMoved]
      rw [← unmoved]
      split
      · rename_i same
        subst same
        simp [present]
      · rfl
  | movePot key amount => exact modified key _ fun _ => rfl
  | setPot key amount => exact modified key _ fun _ => rfl
  | moveStock key at_ shares =>
      simp only [Write.apply, Ledger.stock?, Table.find?_modify, Write.stockMoved]
      by_cases same : market = key
      · subst same
        by_cases here : at_ = index
        · simp [present, here]
        · simp [present, here]
      · rw [if_neg same, if_neg fun both => same both.1.symm, ← unmoved]
  | trade _ _ => exact unmoved _
  | buy _ _ _ => exact unmoved _
  | sell _ _ _ => exact unmoved _
  | redeem _ _ _ => exact unmoved _

/-- A total over one key is the row under it. -/
theorem held_single (key : PositionKey) (ledger : Ledger) :
    ledger.held (fun other => decide (other = key)) =
      ((ledger.holdings.find? key).map Holding.shares).getD 0 :=
  Table.total_single _ _ _

/-- **One covered write.** -/
private theorem held_apply (selected : PositionKey → Bool) {write : Write} {ledger : Ledger}
    (covered : write.Covered selected ledger) :
    (write.apply ledger).held selected = ledger.held selected + write.heldMoved selected := by
  cases write with
  | buy key shares amount =>
      simp only [Ledger.held, Write.apply, Table.total_upsert, Write.heldMoved]
      split
      · cases ledger.holdings.find? key with
        | none => simp
        | some holding => simp [Holding.buy]
      · rfl
  | sell key shares amount =>
      rw [Write.Covered, held_single] at covered
      simp only [Ledger.held, Write.apply, Table.total_upsert, Write.heldMoved]
      split
      · rename_i chosen
        have enough := covered chosen
        cases found : ledger.holdings.find? key with
        | none =>
            simp only [found, Option.map_none, Option.getD_none] at enough
            simp only [Option.elim_none]
            omega
        | some holding =>
            simp only [found, Option.map_some, Option.getD_some] at enough
            have whole : holding.sold shares = shares := by
              rw [Holding.sold, if_neg (by omega)]
            simp only [Option.elim_some, Holding.sell, whole]
            ring
      · rfl
  | redeem key holder payout =>
      simp only [Ledger.held, Write.apply, Write.heldMoved, add_zero]
      exact Table.total_modifyWhere_fixed _ _ _ _ _ fun _ => rfl
  | openBook _ _ => exact (add_zero _).symm
  | trade _ _ => exact (add_zero _).symm
  | movePot _ _ => exact (add_zero _).symm
  | setPot _ _ => exact (add_zero _).symm
  | moveStock _ _ _ => exact (add_zero _).symm

/-- **Many writes on a market that exists.** -/
private theorem stock?_replay (writes : List Write) {ledger : Ledger}
    (known : (ledger.books.find? market).isSome) :
    (ledgerJournal.replay writes ledger).stock? market index =
      (ledger.stock? market index).map
        (· + (writes.map (Write.stockMoved market index)).sum) := by
  induction writes generalizing ledger with
  | nil => cases stock : ledger.stock? market index <;> simp [stock]
  | cons write rest ih =>
      obtain ⟨book, present⟩ := Option.isSome_iff_exists.mp known
      obtain ⟨later, found, -⟩ := find?_apply_outcomeCount write present
      rw [Journal.replay_cons, ledgerJournal_apply, ih (Option.isSome_iff_exists.mpr ⟨later, found⟩),
        stock?_apply market index write known, Option.map_map]
      congr 1
      funext stock
      simp only [Function.comp_apply, List.map_cons, List.sum_cons]
      ring

/-- Writes without a sale. -/
private theorem held_replay (selected : PositionKey → Bool) {writes : List Write} {ledger : Ledger}
    (covered : ∀ write ∈ writes, ∀ seen, write.Covered selected seen) :
    (ledgerJournal.replay writes ledger).held selected =
      ledger.held selected + (writes.map (Write.heldMoved selected)).sum := by
  induction writes generalizing ledger with
  | nil => simp
  | cons write rest ih =>
      rw [Journal.replay_cons, ledgerJournal_apply,
        ih fun other member => covered other (List.mem_cons_of_mem _ member),
        held_apply selected (covered write List.mem_cons_self ledger), List.map_cons,
        List.sum_cons]
      ring

/-! ## What a short moves -/

/-- Each outcome of the market but the shorted is credited once. -/
private theorem sum_legs (outcomeCount shorted : Nat) (inside : index < outcomeCount)
    (shares : Int) :
    ((EventProcessor.legs outcomeCount shorted).map fun leg =>
        if leg = index then shares else 0).sum =
      if shorted ≠ index then shares else 0 := by
  have once : ∀ legs : List Nat, legs.Nodup →
      (legs.map fun leg => if leg = index then shares else 0).sum =
        if index ∈ legs then shares else 0 := by
    intro legs distinct
    induction legs with
    | nil => rfl
    | cons leg rest ih =>
        obtain ⟨fresh, distinctRest⟩ := List.nodup_cons.mp distinct
        rw [List.map_cons, List.sum_cons, ih distinctRest]
        by_cases here : leg = index
        · subst here
          simp [fresh]
        · simp [here, Ne.symm here]
  have distinct : (EventProcessor.legs outcomeCount shorted).Nodup := List.nodup_range.filter _
  rw [once _ distinct]
  simp only [EventProcessor.legs, List.mem_filter, List.mem_range, inside, true_and,
    decide_eq_true_eq, ne_comm]

/-- A measure of writes that sees the shares of an outcome once in what a trade log
writes: in the outcome row or in the position rows of some accounts. -/
structure CountsShares (moved : Write → Int) : Prop where
  openBook : ∀ key book, moved (.openBook key book) = 0
  trade : ∀ key row, moved (.trade key row) = 0
  movePot : ∀ key amount, moved (.movePot key amount) = 0
  setPot : ∀ key amount, moved (.setPot key amount) = 0
  redeem : ∀ key account payout, moved (.redeem key account payout) = 0
  bought : ∀ (log : NormalizedLog) (a : TradeArgs) (leg : Nat) (amount : Int),
    moved (.moveStock (log.marketKey a.marketId) leg a.shares) +
        moved (.buy (positionKey log a leg) a.shares amount) =
      if log.marketKey a.marketId = market ∧ leg = index ∧ who a.account.toLowerCase then
        (a.shares : Int)
      else 0
  sold : ∀ (log : NormalizedLog) (a : TradeArgs) (leg : Nat) (amount : Int),
    moved (.moveStock (log.marketKey a.marketId) leg (-a.shares)) +
        moved (.sell (positionKey log a leg) a.shares amount) =
      if log.marketKey a.marketId = market ∧ leg = index ∧ who a.account.toLowerCase then
        -(a.shares : Int)
      else 0

theorem countsShares_stockMoved :
    CountsShares market index (fun _ => true) (Write.stockMoved market index) where
  openBook _ _ := rfl
  trade _ _ := rfl
  movePot _ _ := rfl
  setPot _ _ := rfl
  redeem _ _ _ := rfl
  bought _ _ _ _ := by simp [Write.stockMoved]
  sold _ _ _ _ := by simp [Write.stockMoved]

theorem countsShares_heldMoved :
    CountsShares market index who (Write.heldMoved (isShareOf market index who)) where
  openBook _ _ := rfl
  trade _ _ := rfl
  movePot _ _ := rfl
  setPot _ _ := rfl
  redeem _ _ _ := rfl
  bought _ _ _ _ := by
    simp only [Write.heldMoved, isShareOf_iff, positionKey, zero_add]
  sold _ _ _ _ := by
    simp only [Write.heldMoved, isShareOf_iff, positionKey, zero_add]

section Measured

variable {market index who} {moved : Write → Int} (counts : CountsShares market index who moved)
include counts

/-- The writes of the legs of a short. -/
private theorem sum_legWrites (log : NormalizedLog) (a : TradeArgs) (count : Nat)
    (legs : List Nat) (start : Nat) :
    (((legs.zipIdx start).flatMap (legWrites log a count)).map moved).sum =
      (legs.map fun leg =>
        if log.marketKey a.marketId = market ∧ leg = index ∧ who a.account.toLowerCase then
          (a.shares : Int)
        else 0).sum := by
  induction legs generalizing start with
  | nil => rfl
  | cons leg rest ih =>
      have first := counts.bought log a leg (EventProcessor.legBasis a.amount count start)
      rw [List.zipIdx_cons, List.flatMap_cons, List.map_append, List.sum_append, ih, List.map_cons,
        List.sum_cons, ← first]
      simp only [legWrites, List.map_cons, List.map_nil, List.sum_cons, List.sum_nil, add_zero]

/-- The writes of a short on the market or on another one. -/
private theorem sum_shortWrites (log : NormalizedLog) (a : TradeArgs) (outcomeCount : Nat)
    (inside : log.marketKey a.marketId = market → index < outcomeCount) :
    ((shortWrites log a outcomeCount).map moved).sum =
      if log.marketKey a.marketId = market ∧ a.outcomeId ≠ index ∧
          who a.account.toLowerCase then
        (a.shares : Int)
      else 0 := by
  have credited : ((EventProcessor.legs outcomeCount a.outcomeId).map fun leg =>
      if log.marketKey a.marketId = market ∧ leg = index ∧ who a.account.toLowerCase then
        (a.shares : Int)
      else 0).sum =
      if log.marketKey a.marketId = market ∧ a.outcomeId ≠ index ∧
          who a.account.toLowerCase then
        (a.shares : Int)
      else 0 := by
    by_cases concerned : log.marketKey a.marketId = market ∧ who a.account.toLowerCase
    · have once := sum_legs index outcomeCount a.outcomeId (inside concerned.1) a.shares
      simpa [concerned] using once
    · have none : ∀ leg : Prop,
          ¬ (log.marketKey a.marketId = market ∧ leg ∧ who a.account.toLowerCase = true) := by
        rintro leg ⟨same, -, holds⟩
        exact concerned ⟨same, holds⟩
      simp [none]
  rw [← credited]
  unfold shortWrites
  dsimp only
  split
  · rename_i none
    rw [List.length_eq_zero_iff.mp none]
    rfl
  · simp only [List.map_cons, List.map_append, List.sum_cons, List.sum_append, List.map_nil,
      List.sum_nil, counts.trade, counts.movePot, sum_legWrites counts]
    ring

/-- **One log.** On a market that exists a measure of shares sees what the log
moves. -/
private theorem sum_logWrites {ledger : Ledger} {count : Nat} (log : NormalizedLog)
    (known : (ledger.books.find? market).map Book.outcomeCount = some count)
    (inside : index < count) :
    ((logWrites ledger.books.find? log).map moved).sum = sharesMoved market index who log := by
  obtain ⟨own, present, rfl⟩ := Option.map_eq_some_iff.mp known
  have elsewhere : ∀ {marketId : Nat}, ledger.books.find? (log.marketKey marketId) = none →
      log.marketKey marketId ≠ market := by
    rintro marketId absent rfl
    rw [absent] at present
    cases present
  unfold logWrites engineWrites sharesMoved
  cases kind : log.kind with
  | optimisticResolver => rfl
  | tradingBlocklist => rfl
  | lsLmsr =>
      dsimp only
      cases event : log.event with
      | bought a =>
          dsimp only
          cases found : ledger.books.find? (log.marketKey a.marketId) with
          | none => simp [elsewhere found]
          | some book => simp [counts.trade, counts.movePot, counts.bought]
      | sold a =>
          dsimp only
          cases found : ledger.books.find? (log.marketKey a.marketId) with
          | none => simp [elsewhere found]
          | some book => simp [counts.trade, counts.movePot, counts.sold]
      | shorted a =>
          dsimp only
          cases found : ledger.books.find? (log.marketKey a.marketId) with
          | none => simp [elsewhere found]
          | some book =>
              refine sum_shortWrites counts log a book.outcomeCount fun same => ?_
              rw [same, present] at found
              cases found
              exact inside
      | marketCreated a => simp [counts.openBook]
      | marketResolved marketId winningOutcomeId owed surplus =>
          dsimp only
          cases ledger.books.find? (log.marketKey marketId) <;> simp [counts.setPot]
      | redeemed marketId redeemer amount =>
          dsimp only
          cases ledger.books.find? (log.marketKey marketId) <;>
            simp [counts.redeem, counts.movePot]
      | seedRedeemed marketId creator amount =>
          dsimp only
          cases ledger.books.find? (log.marketKey marketId) with
          | none => rfl
          | some book =>
              dsimp only
              split <;> simp [counts.movePot]
      | _ => rfl

end Measured

/-- The legs of a short sell nothing. -/
private theorem covered_shortWrites (selected : PositionKey → Bool) {log : NormalizedLog}
    {a : TradeArgs} {outcomeCount : Nat} {write : Write}
    (member : write ∈ shortWrites log a outcomeCount) (seen : Ledger) :
    write.Covered selected seen := by
  unfold shortWrites at member
  dsimp only at member
  split at member
  · cases member
  · simp only [List.mem_cons, List.mem_append, List.mem_flatMap, legWrites, List.not_mem_nil,
      or_false] at member
    rcases member with rfl | ⟨leg, -, rfl | rfl⟩ | rfl <;> trivial

/-- **One log, seen from the position rows.** A log that sells no more than there
is moves the shares held by what it moves. -/
private theorem held_applyLog {ledger : Ledger} {log : NormalizedLog} {count : Nat}
    (known : (ledger.books.find? market).map Book.outcomeCount = some count)
    (inside : index < count)
    (covered : ∀ a, log.event = .sold a → log.kind = .lsLmsr →
      log.marketKey a.marketId = market → a.outcomeId = index →
        (a.shares : Int) ≤ ledger.held fun key => decide (key = positionKey log a index)) :
    (ledger.applyLogs [log]).held (isShareOf market index who) =
      ledger.held (isShareOf market index who) + sharesMoved market index who log := by
  rw [← sum_logWrites (countsShares_heldMoved market index who) log known inside]
  change (ledgerJournal.replay (logWrites ledger.books.find? log) ledger).held _ = _
  by_cases sale : ∃ a, log.event = .sold a ∧ log.kind = .lsLmsr
  · obtain ⟨a, event, kind⟩ := sale
    cases found : ledger.books.find? (log.marketKey a.marketId) with
    | none => simp [logWrites, kind, engineWrites, event, found]
    | some book =>
        simp only [logWrites, kind, engineWrites, event, found, Journal.replay_cons,
          Journal.replay_nil, ledgerJournal_apply, List.map_cons, List.map_nil, List.sum_cons,
          List.sum_nil]
        rw [held_apply]
        · simp only [Ledger.held, Write.apply, Write.heldMoved]
          ring
        · intro chosen
          obtain ⟨same, rfl, -⟩ := (isShareOf_iff market index who _).mp chosen
          exact covered a event kind same rfl
  · refine held_replay _ fun write member seen => ?_
    unfold logWrites engineWrites at member
    cases kind : log.kind with
    | optimisticResolver => simp [kind] at member
    | tradingBlocklist => simp [kind] at member
    | lsLmsr =>
        simp only [kind] at member
        cases event : log.event with
        | sold a => exact absurd ⟨a, event, kind⟩ sale
        | shorted a =>
            simp only [event] at member
            split at member
            · cases member
            · exact covered_shortWrites _ member seen
        | _ =>
            simp only [event] at member
            repeat' split at member
            all_goals
              simp only [List.mem_cons, List.not_mem_nil, or_false] at member
            all_goals
              rcases member with rfl | rfl | rfl | rfl <;> trivial

/-- **One log, seen from the outcome row.** -/
private theorem stock?_applyLog {ledger : Ledger} {log : NormalizedLog} {count : Nat}
    (known : (ledger.books.find? market).map Book.outcomeCount = some count)
    (inside : index < count) :
    (ledger.applyLogs [log]).stock? market index =
      (ledger.stock? market index).map (· + sharesMoved market index (fun _ => true) log) := by
  have isSome : (ledger.books.find? market).isSome := by
    cases found : ledger.books.find? market with
    | none => simp [found] at known
    | some book => rfl
  rw [← sum_logWrites (countsShares_stockMoved market index) log known inside]
  exact stock?_replay market index _ isSome

/-! ## Runs -/

/-- The positions of one account in an outcome are one row. -/
theorem held_account (account : JsString) (ledger : Ledger) :
    ledger.held (isShareOf market index (· = account.toLowerCase)) =
      ledger.held fun key => decide (key = ⟨market, account.toLowerCase, index⟩) := by
  congr 1
  funext key
  obtain ⟨ref, own, outcome⟩ := key
  simp only [isShareOf, PositionKey.mk.injEq, decide_eq_true_eq]
  congr 1
  exact propext ⟨fun same => ⟨same.1, same.2.2, same.2.1⟩, fun same => ⟨same.1, same.2.2, same.2.1⟩⟩

/-- **The invariant.** The market is known with its outcomes, each outcome's
outstanding shares are the seed and what the positions hold, and any accounts hold
what the logs since the creation net to. -/
structure SharesTracked (seed : Int) (count : Nat) (earlier : List NormalizedLog)
    (ledger : Ledger) : Prop where
  known : (ledger.books.find? market).map Book.outcomeCount = some count
  stock : ∀ index < count, ledger.stock? market index =
    some (seed + ledger.held (isShareOf market index fun _ => true))
  held : ∀ index < count, ∀ who,
    ledger.held (isShareOf market index who) = sharesHeld market index who earlier

variable {market} {seed : Int} {count : Nat} {earlier logs : List NormalizedLog} {ledger : Ledger}

/-- **One log.** -/
theorem SharesTracked.step {log : NormalizedLog}
    (tracked : SharesTracked market seed count earlier ledger)
    (covered : CoveredSale market earlier log) :
    SharesTracked market seed count (earlier ++ [log]) (ledger.applyLogs [log]) := by
  have enough : ∀ index < count, ∀ a, log.event = .sold a → log.kind = .lsLmsr →
      log.marketKey a.marketId = market → a.outcomeId = index →
        (a.shares : Int) ≤ ledger.held fun key => decide (key = positionKey log a index) := by
    rintro index inside a event kind same rfl
    have holds : (a.shares : Int) ≤ netShares market a.outcomeId a.account earlier := by
      simp only [CoveredSale, kind, event] at covered
      exact covered same
    rw [netShares, ← tracked.held _ inside, held_account] at holds
    rw [positionKey, same]
    exact holds
  have moved := fun index inside who =>
    held_applyLog market index who tracked.known inside (enough index inside)
  refine ⟨?_, fun index inside => ?_, fun index inside who => ?_⟩
  · obtain ⟨book, present, same⟩ := Option.map_eq_some_iff.mp tracked.known
    obtain ⟨later, found, kept⟩ :=
      find?_replay_outcomeCount (logWrites ledger.books.find? log) present
    exact Option.map_eq_some_iff.mpr ⟨later, found, kept.trans same⟩
  · rw [stock?_applyLog market index tracked.known inside, tracked.stock index inside,
      moved index inside, Option.map_some]
    congr 1
    ring
  · rw [moved index inside, tracked.held index inside, sharesHeld, sharesHeld, List.map_append,
      List.sum_append, List.map_singleton, List.sum_singleton]

/-- **A run of logs.** -/
theorem SharesTracked.run (tracked : SharesTracked market seed count earlier ledger)
    (covered : NeverOversells market earlier logs) :
    SharesTracked market seed count (earlier ++ logs) (ledger.applyLogs logs) := by
  induction logs generalizing earlier ledger with
  | nil => simpa [Ledger.applyLogs] using tracked
  | cons log rest ih =>
      obtain ⟨first, others⟩ := covered
      have later := ih (tracked.step first) others
      rw [List.append_assoc, List.singleton_append] at later
      exact later

/-- The creation of a market that nobody has a position in yet starts it off. -/
theorem sharesTracked_created {log : NormalizedLog} {a : MarketCreated}
    (unknown : ledger.books.find? market = none)
    (noPositions : ∀ key : PositionKey, key.marketRef = market →
      ledger.holdings.find? key = none)
    (creates : log.concerns market) (event : log.event = .marketCreated a) :
    SharesTracked market a.seedPerOutcome a.outcomeCount [] (ledger.applyLogs [log]) := by
  obtain ⟨kind, named⟩ := creates
  rw [event] at named
  have key : log.marketKey a.marketId = market := Option.some.inj named
  have opened : ledger.applyLogs [log] = (Write.openBook market (openingBook a)).apply ledger := by
    change ledgerJournal.replay (logWrites ledger.books.find? log) ledger = _
    simp only [logWrites, kind, engineWrites, event, key, Journal.replay_cons,
      Journal.replay_nil, ledgerJournal_apply]
  have nobody : ∀ index who, ledger.held (isShareOf market index who) = 0 := fun index who =>
    Table.total_eq_zero _ _ _ fun own selected =>
      noPositions own ((isShareOf_iff market index who own).mp selected).1
  rw [opened]
  refine ⟨?_, fun index inside => ?_, fun index _ who => nobody index who⟩
  · simp [Write.apply, unknown, openingBook]
  · have empty := nobody index fun _ => true
    simp only [Ledger.held] at empty
    simp [Ledger.stock?, Ledger.held, Write.apply, unknown, openingBook, empty, inside]

/-! ## The outcome and position tables -/

variable {ext : Externals} {start final : Database}

/-- The shares an account holds of an outcome, none without a row. -/
def positionShares (market : MarketKey) (account : JsString) (index : Nat) (db : Database) : Int :=
  ((db.positions.find? ⟨market, account.toLowerCase, index⟩).map Position.shares).getD 0

/-- **Shares are conserved.** In every run that starts with the market's creation
and in which no account sells more than it holds, each outcome row carries the
seed and all that its position rows hold, and each position row what its account
bought, was credited for shorting elsewhere and did not sell. -/
theorem shares_conserved {creation : NormalizedLog} {a : MarketCreated}
    (unknown : start.markets.find? market = none)
    (noPositions : ∀ key : PositionKey, key.marketRef = market → start.positions.find? key = none)
    (creates : creation.concerns market) (event : creation.event = .marketCreated a)
    (neverOversells : NeverOversells market [] logs)
    (run : Processed ext start (creation :: logs) final) :
    ∃ row, final.markets.find? market = some row ∧ ∀ index < a.outcomeCount,
      row.outcomes[index]?.map Outcome.currentShares =
          some (a.seedPerOutcome +
            final.positions.total (isShareOf market index fun _ => true) Position.shares) ∧
        ∀ account, positionShares market account index final =
          netShares market index account logs := by
  have opened : SharesTracked market a.seedPerOutcome a.outcomeCount []
      (start.ledger.applyLogs [creation]) :=
    sharesTracked_created (by simp [Database.ledger, unknown])
      (fun key same => by simp [Database.ledger, noPositions key same]) creates event
  have tracked := opened.run neverOversells
  have reached : (start.ledger.applyLogs [creation]).applyLogs logs = final.ledger := run.ledger.symm
  rw [reached, List.nil_append] at tracked
  obtain ⟨known, stock, held⟩ := tracked
  cases found : final.markets.find? market with
  | none => simp [Database.ledger, found] at known
  | some row =>
      refine ⟨row, rfl, fun index inside => ⟨?_, fun account => ?_⟩⟩
      · have shown := stock index inside
        simp only [Ledger.stock?, Ledger.held, Database.ledger, Table.find?_map, found,
          Option.map_some, Option.bind_some, Market.book, List.getElem?_map,
          Table.total_map] at shown
        exact shown
      · rw [netShares, ← held index inside, held_account, held_single]
        simp only [positionShares, Database.ledger, Table.find?_map, Option.map_map]
        rfl

open Sample in
/-- A purchase, a short of the other outcome and a sale: Alice holds 9 + 3 - 4 of
outcome 0 over the 100 seeded. -/
theorem shares_of_threeTrades :
    let logs := [log 1 (.bought (trade 0 9 20)), log 2 (.shorted (trade 1 3 5)),
      log 3 (.sold (trade 0 4 6))]
    let final := after (created 2 :: logs) .empty
    ∃ row, final.markets.find? Sample.market = some row ∧ ∀ index < 2,
      row.outcomes[index]?.map Outcome.currentShares =
          some (100 + final.positions.total (isShareOf Sample.market index fun _ => true)
            Position.shares) ∧
        ∀ account, positionShares Sample.market account index final =
          netShares Sample.market index account logs := by
  intro logs final
  have run : Processed externals .empty (created 2 :: logs) final :=
    .of_stopped outside 400 (by decide +kernel)
  have covered : NeverOversells Sample.market [] logs :=
    ⟨trivial, trivial, fun _ => by decide +kernel, trivial⟩
  have creates : (created 2).concerns Sample.market := by decide +kernel
  exact shares_conserved rfl (fun _ _ => rfl) creates rfl covered run

end Numera
