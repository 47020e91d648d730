import Numera.Chain.Refinement

/-! # Writes performed twice

Writes that are still where they are performed change nothing when they are
performed a second time (`replay_replay`): what they create exists by then, and
each pot ends at the value it was last set to. A batch has the same writes in a
second pass as in the first (`batchWrites_congr`), since they depend only on the
outcome counts of the books. After a prefix of still writes the batch therefore
leads where it led before (`replay_of_opening`).
-/

namespace Numera

/-! ## Still writes performed twice -/

/-- Everything an earlier ledger has, a later one still has: its books, its
holdings as they are, its trades. -/
structure Ledger.Grows (earlier later : Ledger) : Prop where
  books : ∀ key, (earlier.books.find? key).isSome → (later.books.find? key).isSome
  holdings : ∀ key holding, earlier.holdings.find? key = some holding →
    later.holdings.find? key = some holding
  trades : ∀ key, (earlier.trades.find? key).isSome → (later.trades.find? key).isSome

theorem Ledger.Grows.refl (ledger : Ledger) : ledger.Grows ledger :=
  ⟨fun _ => id, fun _ _ => id, fun _ => id⟩

theorem Ledger.Grows.trans {first second third : Ledger} (one : first.Grows second)
    (two : second.Grows third) : first.Grows third where
  books key present := two.books key (one.books key present)
  holdings key holding found := two.holdings key holding (one.holdings key holding found)
  trades key present := two.trades key (one.trades key present)

/-- A holding without shares and basis sells nothing. -/
private theorem sell_zero (shares : Nat) : (Holding.mk 0 0 0).sell shares 0 = ⟨0, 0, 0⟩ := by
  have sold : (Holding.mk 0 0 0).sold shares = 0 := by
    unfold Holding.sold
    split
    · rfl
    · rename_i few
      change ¬ (shares : Int) > 0 at few
      omega
  simp [Holding.sell, sold, Holding.costRemoved]

private theorem buy_zero : Holding.buy 0 0 = id := by
  funext holding
  simp [Holding.buy]

private theorem redeem_zero : Holding.redeem 0 = id := by
  funext holding
  simp [Holding.redeem]

private theorem addPot_zero : (fun book : Book => { book with pot := book.pot + 0 }) = id := by
  funext book
  simp

private theorem addStock_zero (index : Nat) :
    (fun book : Book => { book with stock := book.stock.modify index (· + 0) }) = id := by
  funext book
  have same : book.stock.modify index (· + 0) = book.stock := by
    simp only [add_zero]
    exact List.modify_id index book.stock
  rw [same]
  rfl

/-- A still write removes nothing and changes no holding. -/
theorem Write.Still.grows {write : Write} {ledger : Ledger} (still : write.Still ledger) :
    ledger.Grows (write.apply ledger) := by
  have modified : ∀ (other : MarketKey) (change : Book → Book) (key : MarketKey),
      (ledger.books.find? key).isSome →
        ((ledger.books.modify other change).find? key).isSome := by
    intro other change key present
    rw [Table.find?_modify]
    split
    · rename_i same
      subst same
      simpa using present
    · exact present
  cases write with
  | openBook other book =>
      refine ⟨fun key present => ?_, fun _ _ => id, fun _ => id⟩
      simp only [Write.apply, Table.find?_insertNew]
      split
      · rfl
      · exact present
  | trade other row =>
      refine ⟨fun _ => id, fun _ _ => id, fun key present => ?_⟩
      simp only [Write.apply, Table.find?_insertNew]
      split
      · rfl
      · exact present
  | movePot other amount => exact ⟨modified other _, fun _ _ => id, fun _ => id⟩
  | setPot other amount => exact ⟨modified other _, fun _ _ => id, fun _ => id⟩
  | moveStock other index shares => exact ⟨modified other _, fun _ _ => id, fun _ => id⟩
  | buy other shares amount =>
      obtain ⟨rfl, rfl⟩ := still
      refine ⟨fun _ => id, fun key holding found => ?_, fun _ => id⟩
      simp only [Write.apply, Table.find?_upsert, buy_zero]
      split
      · rename_i same
        rw [← same, found]
        rfl
      · exact found
  | sell other shares amount =>
      refine ⟨fun _ => id, fun key holding found => ?_, fun _ => id⟩
      simp only [Write.apply, Table.find?_upsert]
      split
      · rename_i same
        subst same
        simp only [Write.Still, found] at still
        rw [found]
        exact congrArg some still
      · exact found
  | redeem other account payout =>
      have zero : payout = 0 := still
      subst zero
      refine ⟨fun _ => id, fun key holding found => ?_, fun _ => id⟩
      simpa only [Write.apply, redeem_zero, Table.modifyWhere_id] using found

theorem grows_replay {writes : List Write} {ledger : Ledger}
    (still : ledgerJournal.Still writes ledger) :
    ledger.Grows (ledgerJournal.replay writes ledger) := by
  induction writes generalizing ledger with
  | nil => exact .refl ledger
  | cons write rest ih => exact still.1.grows.trans (ih still.2)

/-- The second pass beside the first: `second` has every row the first pass will
leave in `last`, and each of its pots is the one `last` has or the one the first
pass has by now. -/
structure Ahead (last first second : Ledger) : Prop where
  holdings : second.holdings = last.holdings
  trades : second.trades = last.trades
  keys : second.books.rows.map Prod.fst = last.books.rows.map Prod.fst
  books : ∀ key, second.books.find? key = last.books.find? key ∨
    ∃ book, first.books.find? key = some book ∧
      second.books.find? key =
        (last.books.find? key).map fun other => { other with pot := book.pot }

namespace Ahead

variable {last first second : Ledger}

theorem start (last first : Ledger) : Ahead last first last :=
  ⟨rfl, rfl, rfl, fun _ => .inl rfl⟩

/-- At the end of the first pass the second one is where it was. -/
theorem finish (ahead : Ahead last last second) : second = last := by
  have books : second.books = last.books := by
    refine Table.ext_find? ahead.keys fun key => ?_
    rcases ahead.books key with same | ⟨book, found, same⟩
    · exact same
    · rw [same, found]
      rfl
  obtain ⟨secondBooks, secondHoldings, secondTrades⟩ := second
  obtain ⟨lastBooks, lastHoldings, lastTrades⟩ := last
  have holdings : secondHoldings = lastHoldings := ahead.holdings
  have trades : secondTrades = lastTrades := ahead.trades
  subst holdings trades
  exact congrArg (fun rows => Ledger.mk rows secondHoldings secondTrades) books

theorem present (ahead : Ahead last first second) {key : MarketKey}
    (known : (last.books.find? key).isSome) : (second.books.find? key).isSome := by
  rcases ahead.books key with same | ⟨book, -, same⟩
  · rw [same]
    exact known
  · rw [same, Option.isSome_map]
    exact known

/-- The first pass may do what changes none of its pots. -/
theorem left {next : Ledger} (ahead : Ahead last first second)
    (kept : ∀ key book, first.books.find? key = some book →
      ∃ later, next.books.find? key = some later ∧ later.pot = book.pot) :
    Ahead last next second := by
  refine ⟨ahead.holdings, ahead.trades, ahead.keys, fun key => ?_⟩
  rcases ahead.books key with same | ⟨book, found, same⟩
  · exact .inl same
  · obtain ⟨later, foundLater, pot⟩ := kept key book found
    exact .inr ⟨later, foundLater, by rw [same, pot]⟩

/-- Setting a pot that exists in both passes. -/
theorem setPot (ahead : Ahead last first second) {key : MarketKey} (amount : Int)
    (known : (first.books.find? key).isSome) :
    Ahead last (Write.apply (.setPot key amount) first)
      (Write.apply (.setPot key amount) second) := by
  refine ⟨ahead.holdings, ahead.trades, ?_, fun other => ?_⟩
  · exact (Table.keys_modifyWhere _ _ _).trans ahead.keys
  · simp only [Write.apply, Table.find?_modify]
    by_cases mine : other = key
    · subst mine
      obtain ⟨book, found⟩ := Option.isSome_iff_exists.mp known
      refine .inr ⟨{ book with pot := amount }, by simp [found], ?_⟩
      simp only [↓reduceIte]
      rcases ahead.books other with same | ⟨_, -, same⟩
      · rw [same]
      · rw [same, Option.map_map]
        rfl
    · simpa only [mine, ↓reduceIte] using ahead.books other

/-- **One write in both passes.** A still write keeps the second pass ahead, when
the first pass will leave what the write creates. -/
theorem step (ahead : Ahead last first second) {write : Write} (still : write.Still first)
    (grows : (write.apply first).Grows last) :
    Ahead last (write.apply first) (write.apply second) := by
  cases write with
  | setPot key amount => exact ahead.setPot amount still
  | openBook key book =>
      have absorbed : Write.apply (.openBook key book) second = second := by
        have known := ahead.present (grows.books key (by simp [Write.apply]))
        simp only [Write.apply, Table.insertNew_of_isSome _ _ _ known]
      rw [absorbed]
      refine ahead.left fun other own found => ?_
      simp only [Write.apply, Table.find?_insertNew]
      split
      · rename_i same
        rw [← same, found]
        exact ⟨own, rfl, rfl⟩
      · exact ⟨own, found, rfl⟩
  | trade key row =>
      have absorbed : Write.apply (.trade key row) second = second := by
        have known : (second.trades.find? key).isSome := by
          rw [ahead.trades]
          exact grows.trades key (by simp [Write.apply])
        simp only [Write.apply, Table.insertNew_of_isSome _ _ _ known]
      rw [absorbed]
      exact ahead.left fun other own found => ⟨own, found, rfl⟩
  | movePot key amount =>
      have zero : amount = 0 := still
      subst zero
      simpa only [Write.apply, addPot_zero, Table.modify_id] using ahead
  | moveStock key index shares =>
      have zero : shares = 0 := still
      subst zero
      simpa only [Write.apply, addStock_zero, Table.modify_id] using ahead
  | buy key shares amount =>
      obtain ⟨rfl, rfl⟩ := still
      have absorbed : Write.apply (.buy key 0 0) second = second := by
        have created : ∃ holding, (Write.apply (.buy key 0 0) first).holdings.find? key =
            some holding := by
          simp only [Write.apply, Table.find?_upsert, ↓reduceIte]
          exact ⟨_, rfl⟩
        obtain ⟨holding, found⟩ := created
        have known : second.holdings.find? key = some holding := by
          rw [ahead.holdings]
          exact grows.holdings key holding found
        simp only [Write.apply, buy_zero]
        rw [Table.upsert_eq_self _ _ _ _ (by simp) (by simp [known])]
      rw [absorbed]
      exact ahead.left fun other own found => ⟨own, found, rfl⟩
  | sell key shares amount =>
      have absorbed : Write.apply (.sell key shares amount) second = second := by
        have fixed : ∃ holding, (Write.apply (.sell key shares amount) first).holdings.find? key =
            some holding ∧ holding.sell shares amount = holding := by
          simp only [Write.apply, Table.find?_upsert, ↓reduceIte, Write.Still] at still ⊢
          cases found : first.holdings.find? key with
          | none =>
              rw [found] at still
              have zero : amount = 0 := still
              subst zero
              exact ⟨⟨0, 0, 0⟩, rfl, sell_zero shares⟩
          | some holding =>
              rw [found] at still
              have same : holding.sell shares amount = holding := still
              exact ⟨holding, congrArg some same, same⟩
        obtain ⟨holding, found, same⟩ := fixed
        have known : second.holdings.find? key = some holding := by
          rw [ahead.holdings]
          exact grows.holdings key holding found
        simp only [Write.apply]
        rw [Table.upsert_eq_self _ _ _ _ (by simp [known, same]) (by simp [known])]
      rw [absorbed]
      exact ahead.left fun other own found => ⟨own, found, rfl⟩
  | redeem key account payout =>
      have zero : payout = 0 := still
      subst zero
      simpa only [Write.apply, redeem_zero, Table.modifyWhere_id] using ahead

/-- **Both passes through a list of still writes.** -/
theorem run {writes : List Write} (ahead : Ahead last first second)
    (still : ledgerJournal.Still writes first)
    (leaves : ledgerJournal.replay writes first = last) :
    ledgerJournal.replay writes second = last := by
  induction writes generalizing first second with
  | nil =>
      have reached : first = last := leaves
      subst reached
      exact ahead.finish
  | cons write rest ih =>
      have grows : (write.apply first).Grows last := by
        rw [← leaves]
        exact grows_replay still.2
      exact ih (ahead.step still.1 grows) still.2 leaves

end Ahead

/-- Still writes performed twice leave what they leave performed once. -/
theorem replay_replay {writes : List Write} {ledger : Ledger}
    (still : ledgerJournal.Still writes ledger) :
    ledgerJournal.replay writes (ledgerJournal.replay writes ledger) =
      ledgerJournal.replay writes ledger :=
  (Ahead.start _ ledger).run still rfl

/-! ## The writes of the batch in a later pass -/

/-- The outcome count of a market's book, if it has one. -/
def Ledger.count? (ledger : Ledger) (market : MarketKey) : Option Nat :=
  (ledger.books.find? market).map Book.outcomeCount

/-- The outcome count a write opens a market's book with. -/
def Write.opens (market : MarketKey) : Write → Option Nat
  | .openBook key book => if market = key then some book.outcomeCount else none
  | _ => none

/-- The outcome count a log creates the market with. -/
def NormalizedLog.creates (market : MarketKey) (log : NormalizedLog) : Option Nat :=
  match log.kind, log.event with
  | .lsLmsr, .marketCreated a =>
      if market = log.marketKey a.marketId then some a.outcomeCount else none
  | _, _ => none

private theorem count?_modify (table : Table MarketKey Book) (key market : MarketKey)
    (change : Book → Book) (kept : ∀ book, (change book).outcomeCount = book.outcomeCount) :
    ((table.modify key change).find? market).map Book.outcomeCount =
      (table.find? market).map Book.outcomeCount := by
  rw [Table.find?_modify]
  split
  · rename_i same
    subst same
    rw [Option.map_map]
    exact congrFun (congrArg Option.map (funext kept)) _
  · rfl

theorem count?_apply (write : Write) (ledger : Ledger) (market : MarketKey) :
    (write.apply ledger).count? market = (ledger.count? market).or (write.opens market) := by
  cases write with
  | openBook key book =>
      simp only [Ledger.count?, Write.apply, Table.find?_insertNew, Write.opens]
      split
      · rename_i same
        subst same
        cases ledger.books.find? market <;> rfl
      · rw [Option.or_none]
  | movePot key amount =>
      simp only [Write.opens, Option.or_none]
      exact count?_modify _ key market _ fun _ => rfl
  | setPot key amount =>
      simp only [Write.opens, Option.or_none]
      exact count?_modify _ key market _ fun _ => rfl
  | moveStock key index shares =>
      simp only [Write.opens, Option.or_none]
      exact count?_modify _ key market _ fun _ => rfl
  | trade _ _ => exact Option.or_none.symm
  | buy _ _ _ => exact Option.or_none.symm
  | sell _ _ _ => exact Option.or_none.symm
  | redeem _ _ _ => exact Option.or_none.symm

theorem count?_replay (writes : List Write) (ledger : Ledger) (market : MarketKey) :
    (ledgerJournal.replay writes ledger).count? market =
      (ledger.count? market).or (writes.findSome? (Write.opens market)) := by
  induction writes generalizing ledger with
  | nil => exact Option.or_none.symm
  | cons write rest ih =>
      rw [Journal.replay_cons, ih, ledgerJournal_apply, count?_apply, List.findSome?_cons,
        Option.or_assoc]
      cases write.opens market <;> rfl

/-- Only the creation of the market opens its book. -/
private theorem opens_logWrites (book? : MarketKey → Option Book) (log : NormalizedLog)
    (market : MarketKey) :
    (logWrites book? log).findSome? (Write.opens market) = log.creates market := by
  have legs : ∀ (a : TradeArgs) (count : Nat) (legs : List (Nat × Nat)),
      (legs.flatMap (legWrites log a count)).findSome? (Write.opens market) = none := by
    intro a count legs
    rw [List.findSome?_eq_none_iff]
    intro write member
    obtain ⟨leg, -, within⟩ := List.mem_flatMap.mp member
    simp only [legWrites, List.mem_cons, List.not_mem_nil, or_false] at within
    rcases within with rfl | rfl <;> rfl
  unfold logWrites engineWrites NormalizedLog.creates
  cases log.kind with
  | optimisticResolver => rfl
  | tradingBlocklist => rfl
  | lsLmsr =>
      cases log.event with
      | marketCreated a =>
          simp only [List.findSome?_cons, Write.opens, List.findSome?_nil, openingBook]
          split
          · rename_i opened
            exact opened.symm
          · rename_i opened
            exact opened.symm
      | shorted a =>
          dsimp only
          cases book? (log.marketKey a.marketId) with
          | none => rfl
          | some book =>
              simp only [shortWrites]
              split
              · rfl
              · simp [List.findSome?_cons, List.findSome?_append, legs, Write.opens]
      | bought a => dsimp only; cases book? (log.marketKey a.marketId) <;> rfl
      | sold a => dsimp only; cases book? (log.marketKey a.marketId) <;> rfl
      | marketResolved marketId _ _ _ => dsimp only; cases book? (log.marketKey marketId) <;> rfl
      | redeemed marketId _ _ => dsimp only; cases book? (log.marketKey marketId) <;> rfl
      | seedRedeemed marketId _ _ =>
          dsimp only
          cases book? (log.marketKey marketId) with
          | none => rfl
          | some book =>
              dsimp only
              split <;> rfl
      | _ => rfl

private theorem opens_batchWrites (logs : List NormalizedLog) (ledger : Ledger)
    (market : MarketKey) :
    (batchWrites logs ledger).findSome? (Write.opens market) =
      logs.findSome? (NormalizedLog.creates market) := by
  induction logs generalizing ledger with
  | nil => rfl
  | cons log rest ih =>
      rw [batchWrites, List.findSome?_append, opens_logWrites, ih, List.findSome?_cons]
      cases log.creates market <;> rfl

/-- A book is only asked whether it exists and for its outcome count. -/
private theorem bookWrites_congr {book? other? : MarketKey → Option Book} {key : MarketKey}
    (equal : (book? key).map Book.outcomeCount = (other? key).map Book.outcomeCount)
    (writes : Nat → List Write) :
    (match book? key with
      | none => []
      | some book => writes book.outcomeCount) =
    (match other? key with
      | none => []
      | some book => writes book.outcomeCount) := by
  cases first : book? key with
  | none =>
      cases second : other? key with
      | none => rfl
      | some book =>
          rw [first, second] at equal
          cases equal
  | some book =>
      cases second : other? key with
      | none =>
          rw [first, second] at equal
          cases equal
      | some otherBook =>
          rw [first, second] at equal
          have counted : book.outcomeCount = otherBook.outcomeCount := Option.some.inj equal
          dsimp only
          rw [counted]

/-- The writes of a log depend on the outcome count of its market alone, and those
of a creation on nothing. -/
private theorem logWrites_congr {book? other? : MarketKey → Option Book} {log : NormalizedLog}
    (same : ∀ market, log.concerns market → ¬ log.event.isCreation →
      (book? market).map Book.outcomeCount = (other? market).map Book.outcomeCount) :
    logWrites book? log = logWrites other? log := by
  unfold logWrites
  cases kind : log.kind with
  | optimisticResolver => rfl
  | tradingBlocklist => rfl
  | lsLmsr =>
      dsimp only
      unfold engineWrites
      have counts : ∀ marketId, log.event.marketId? = some marketId → ¬ log.event.isCreation →
          (book? (log.marketKey marketId)).map Book.outcomeCount =
            (other? (log.marketKey marketId)).map Book.outcomeCount := by
        intro marketId named notCreation
        exact same _ ⟨kind, by rw [named]; rfl⟩ notCreation
      cases event : log.event with
      | marketCreated a => rfl
      | bought a =>
          exact bookWrites_congr (counts a.marketId (by rw [event]; rfl)
            (by rw [event]; simp [Event.isCreation])) (fun _ => _)
      | sold a =>
          exact bookWrites_congr (counts a.marketId (by rw [event]; rfl)
            (by rw [event]; simp [Event.isCreation])) (fun _ => _)
      | shorted a =>
          exact bookWrites_congr (counts a.marketId (by rw [event]; rfl)
            (by rw [event]; simp [Event.isCreation])) (shortWrites log a)
      | marketResolved marketId winner owed surplus =>
          exact bookWrites_congr (counts marketId (by rw [event]; rfl)
            (by rw [event]; simp [Event.isCreation])) (fun _ => _)
      | redeemed marketId account amount =>
          exact bookWrites_congr (counts marketId (by rw [event]; rfl)
            (by rw [event]; simp [Event.isCreation])) (fun _ => _)
      | seedRedeemed marketId creator amount =>
          exact bookWrites_congr (counts marketId (by rw [event]; rfl)
            (by rw [event]; simp [Event.isCreation])) (fun _ => _)
      | _ => rfl

/-- No log about a market comes before a creation of it, other creations apart. -/
def CreatedFirst (logs : List NormalizedLog) : Prop :=
  logs.Pairwise fun earlier later => ∀ market, earlier.concerns market →
    later.concerns market → later.event.isCreation → earlier.event.isCreation

/-- The outcome counts with which a pass of the batch may meet the ledger: those of
the first pass, or with the books open that the batch opens. -/
def SameOpening (logs : List NormalizedLog) (first later : Ledger) : Prop :=
  ∀ market, later.count? market = first.count? market ∨
    later.count? market =
      (first.count? market).or (logs.findSome? (NormalizedLog.creates market))

private theorem creates_of_ne_none {log : NormalizedLog} {market : MarketKey}
    (creates : log.creates market ≠ none) : log.concerns market ∧ log.event.isCreation := by
  unfold NormalizedLog.creates at creates
  cases kind : log.kind with
  | optimisticResolver => simp [kind] at creates
  | tradingBlocklist => simp [kind] at creates
  | lsLmsr =>
      cases event : log.event with
      | marketCreated a =>
          simp only [kind, event, ne_eq, ite_eq_right_iff, reduceCtorEq, imp_false,
            Decidable.not_not] at creates
          exact ⟨⟨kind, by rw [event, creates]; rfl⟩, rfl⟩
      | _ => simp [kind, event] at creates

/-- **The batch has the same writes in every pass** that meets the same outcome
counts, up to the books the batch itself opens. -/
theorem batchWrites_congr {logs : List NormalizedLog} {first later : Ledger}
    (ordered : CreatedFirst logs) (opening : SameOpening logs first later) :
    batchWrites logs later = batchWrites logs first := by
  induction logs generalizing first later with
  | nil => rfl
  | cons log rest ih =>
      obtain ⟨orderedLog, orderedRest⟩ := List.pairwise_cons.mp ordered
      have writes : logWrites later.books.find? log = logWrites first.books.find? log := by
        refine logWrites_congr fun market concerns notCreation => ?_
        have never : (log :: rest).findSome? (NormalizedLog.creates market) = none := by
          rw [List.findSome?_eq_none_iff]
          intro other member
          by_contra creates
          obtain ⟨concernsOther, creation⟩ := creates_of_ne_none creates
          rcases List.mem_cons.mp member with rfl | inRest
          · exact notCreation creation
          · exact notCreation (orderedLog other inRest market concerns concernsOther creation)
        have counts := opening market
        rw [never, Option.or_none, or_self] at counts
        exact counts
      rw [batchWrites, batchWrites, writes]
      congr 1
      refine ih orderedRest fun market => ?_
      rw [count?_replay, count?_replay, opens_logWrites]
      have counts := opening market
      rw [List.findSome?_cons] at counts
      cases created : log.creates market with
      | none =>
          rw [created] at counts
          simpa only [Option.or_none] using counts
      | some count =>
          rw [created] at counts
          left
          rcases counts with same | same
          · rw [same]
          · rw [same, Option.or_assoc, Option.or_self]

/-- A pass stopped anywhere leaves the outcome counts of its start, with some of
the books open that the batch opens. -/
theorem SameOpening.of_split {logs : List NormalizedLog} {ledger : Ledger}
    {performed rest : List Write} (split : batchWrites logs ledger = performed ++ rest) :
    SameOpening logs ledger (ledgerJournal.replay performed ledger) := by
  intro market
  rw [count?_replay]
  have opened := opens_batchWrites logs ledger market
  rw [split, List.findSome?_append] at opened
  cases before : performed.findSome? (Write.opens market) with
  | none => exact .inl Option.or_none
  | some count =>
      rw [before, Option.some_or] at opened
      exact .inr (by rw [← opened])

/-- **One failed pass.** A pass that has performed only still writes leaves a ledger
from which the batch leads where it would have led from the start. -/
theorem replay_of_opening {logs : List NormalizedLog} {ledger : Ledger}
    {performed rest : List Write} (ordered : CreatedFirst logs)
    (split : batchWrites logs ledger = performed ++ rest)
    (still : ledgerJournal.Still performed ledger) :
    (ledgerJournal.replay performed ledger).applyLogs logs = ledger.applyLogs logs := by
  have writes := batchWrites_congr ordered (.of_split split)
  calc (ledgerJournal.replay performed ledger).applyLogs logs
      = ledgerJournal.replay (performed ++ rest) (ledgerJournal.replay performed ledger) := by
        rw [← replay_batchWrites, writes, split]
    _ = ledgerJournal.replay rest (ledgerJournal.replay performed ledger) := by
        rw [Journal.replay_append, replay_replay still]
    _ = ledger.applyLogs logs := by
        rw [← Journal.replay_append, ← split, replay_batchWrites]

end Numera
