import Mathlib.Data.List.Perm.Basic
import Numera.Chain.CashConservation
import Numera.Chain.Resolutions

/-! # A short is a bundle of purchases

A short of one outcome writes to the ledger what purchases of all the others write, each for an
almost even share of the cost. The writes are the same up to their order and to the splitting of
the pot's, and they commute: what they do is a function of the keys (`Sheet`), in which the order
of the rows plays no part.
-/

namespace Numera

/-! ## Functions of a key -/

section Keys

variable {κ ρ : Type} [DecidableEq κ]

/-- Change what is under one key. -/
def atKey (key : κ) (change : Option ρ → Option ρ) (rows : κ → Option ρ) : κ → Option ρ :=
  fun other => if other = key then change (rows other) else rows other

theorem atKey_of_ne {key other : κ} (apart : other ≠ key) (change : Option ρ → Option ρ)
    (rows : κ → Option ρ) : atKey key change rows other = rows other := if_neg apart

/-- Changes that commute do so under any keys. -/
theorem atKey_comm {first second : Option ρ → Option ρ}
    (commute : ∀ row, first (second row) = second (first row)) (key other : κ)
    (rows : κ → Option ρ) :
    atKey key first (atKey other second rows) = atKey other second (atKey key first rows) := by
  funext here
  unfold atKey
  split <;> split <;> simp [commute]

theorem find?_modify_eq (table : Table κ ρ) (key : κ) (change : ρ → ρ) :
    (table.modify key change).find? = atKey key (Option.map change) table.find? := by
  funext other
  rw [Table.find?_modify, atKey]
  split
  · rename_i same
    rw [same]
  · rfl

theorem find?_upsert_eq (table : Table κ ρ) (key : κ) (create : ρ) (change : ρ → ρ) :
    (table.upsert key create change).find? =
      atKey key (fun row => some (row.elim create change)) table.find? := by
  funext other
  rw [Table.find?_upsert, atKey]
  split
  · rename_i same
    rw [same]
  · rfl

end Keys

/-! ## The ledger as a function of its keys -/

@[ext] structure Sheet where
  book : MarketKey → Option Book
  holding : PositionKey → Option Holding

def Ledger.sheet (ledger : Ledger) : Sheet := ⟨ledger.books.find?, ledger.holdings.find?⟩

namespace Book

def addPot (amount : Int) (book : Book) : Book := { book with pot := book.pot + amount }

def addStock (index : Nat) (shares : Int) (book : Book) : Book :=
  { book with stock := book.stock.modify index (· + shares) }

theorem addStock_comm (index other : Nat) (shares more : Int) (book : Book) :
    (book.addStock other more).addStock index shares =
      (book.addStock index shares).addStock other more := by
  simp only [addStock, Book.mk.injEq, true_and]
  refine List.ext_getElem? fun here => ?_
  simp only [List.getElem?_modify]
  split <;> split <;> cases book.stock[here]? <;> simp [add_right_comm]

end Book

/-- A position after a purchase, with or without a row before it. -/
def Holding.bought (shares amount : Int) (holding : Option Holding) : Option Holding :=
  some ((holding.getD ⟨0, 0, 0⟩).buy shares amount)

theorem Holding.bought_comm (shares amount more paid : Int) (holding : Option Holding) :
    bought shares amount (bought more paid holding) =
      bought more paid (bought shares amount holding) := by
  simp [bought, Holding.buy, add_right_comm]

namespace Write

/-- A write that adds to the ledger: a trade row, to a pot, to an outcome's shares or to a
position. -/
def isCredit : Write → Bool
  | trade _ _ | movePot _ _ | moveStock _ _ _ | buy _ _ _ => true
  | _ => false

/-- A credit by the keys. -/
def onSheet (sheet : Sheet) : Write → Sheet
  | movePot key amount =>
      { sheet with book := atKey key (Option.map (Book.addPot amount)) sheet.book }
  | moveStock key index shares =>
      { sheet with book := atKey key (Option.map (Book.addStock index shares)) sheet.book }
  | buy key shares amount =>
      { sheet with holding := atKey key (Holding.bought shares amount) sheet.holding }
  | _ => sheet

theorem sheet_apply {write : Write} (credit : write.isCredit) (ledger : Ledger) :
    (write.apply ledger).sheet = write.onSheet ledger.sheet := by
  cases write with
  | trade key row => rfl
  | movePot key amount =>
      simp only [apply, Ledger.sheet, onSheet, find?_modify_eq]
      rfl
  | moveStock key index shares =>
      simp only [apply, Ledger.sheet, onSheet, find?_modify_eq]
      rfl
  | buy key shares amount =>
      simp only [apply, Ledger.sheet, onSheet, find?_upsert_eq, Sheet.mk.injEq, true_and]
      congr 1
      funext holding
      cases holding <;> simp [Holding.bought, Holding.buy]
  | _ => cases credit

/-- Credits commute. -/
theorem onSheet_comm (first second : Write) (sheet : Sheet) :
    second.onSheet (first.onSheet sheet) = first.onSheet (second.onSheet sheet) := by
  have pots (amount more : Int) (book : Option Book) :
      (book.map (Book.addPot amount)).map (Book.addPot more) =
        (book.map (Book.addPot more)).map (Book.addPot amount) := by
    cases book <;> simp [Book.addPot, add_right_comm]
  have stocks (index other : Nat) (shares more : Int) (book : Option Book) :
      (book.map (Book.addStock index shares)).map (Book.addStock other more) =
        (book.map (Book.addStock other more)).map (Book.addStock index shares) := by
    cases book <;> simp [Book.addStock_comm]
  have mixed (index : Nat) (shares amount : Int) (book : Option Book) :
      (book.map (Book.addStock index shares)).map (Book.addPot amount) =
        (book.map (Book.addPot amount)).map (Book.addStock index shares) := by
    cases book <;> rfl
  cases first <;> cases second <;> simp only [onSheet] <;>
    first
    | rfl
    | rw [atKey_comm (pots _ _)]
    | rw [atKey_comm (stocks _ _ _ _)]
    | rw [atKey_comm (mixed _ _ _)]
    | rw [← atKey_comm (mixed _ _ _)]
    | rw [atKey_comm (Holding.bought_comm _ _ _ _)]

/-- What a list of credits does to the keys. -/
theorem sheet_replay {writes : List Write} (credits : ∀ write ∈ writes, write.isCredit)
    (ledger : Ledger) :
    (ledgerJournal.replay writes ledger).sheet = writes.foldl onSheet ledger.sheet := by
  induction writes generalizing ledger with
  | nil => rfl
  | cons write rest ih =>
      rw [Journal.replay_cons, List.foldl_cons, ledgerJournal_apply,
        ih fun other member => credits other (List.mem_cons_of_mem _ member),
        sheet_apply (credits write List.mem_cons_self)]

/-- The order of credits does not matter. -/
theorem foldl_onSheet_of_perm {first second : List Write} (same : first.Perm second)
    (sheet : Sheet) : first.foldl onSheet sheet = second.foldl onSheet sheet :=
  same.foldl_eq' (fun write _ other _ before => onSheet_comm write other before) sheet

/-- The parts of a payment into a pot are the payment. -/
theorem foldl_movePots (key : MarketKey) (amounts : List Nat) (sheet : Sheet) :
    (amounts.map fun (amount : Nat) => movePot key amount).foldl onSheet sheet =
      (movePot key amounts.sum).onSheet sheet := by
  induction amounts generalizing sheet with
  | nil =>
      have unchanged : Book.addPot ((0 : Nat) : Int) = id := by
        funext book
        simp [Book.addPot]
      simp only [List.map_nil, List.foldl_nil, List.sum_nil, onSheet, unchanged, Option.map_id]
      ext key' <;> simp [atKey]
  | cons amount rest ih =>
      rw [List.map_cons, List.foldl_cons, ih]
      simp only [onSheet, List.sum_cons, Sheet.mk.injEq, and_true]
      funext other
      unfold atKey
      split
      · cases sheet.book other <;> simp [Book.addPot, add_assoc]
      · rfl

end Write

/-! ## The bundle -/

/-- The share of a short's cost that the purchase of an outcome carries. -/
def bundleCost (outcomeCount shorted cost outcome : Nat) : Nat :=
  let legs := EventProcessor.legs outcomeCount shorted
  EventProcessor.legBasis cost legs.length (legs.idxOf outcome)

/-- The credits of the purchase of one outcome of the bundle. -/
def bundleWrites (short : NormalizedLog) (a : TradeArgs) (outcomeCount outcome : Nat) :
    List Write :=
  let cost := bundleCost outcomeCount a.outcomeId a.amount outcome
  [.movePot (short.marketKey a.marketId) cost,
    .moveStock (short.marketKey a.marketId) outcome a.shares,
    .buy (positionKey short a outcome) a.shares cost]

/-- The purchase of an outcome that a short was not of, for the account of the short and as many
shares. -/
structure IsPurchase (short : NormalizedLog) (a : TradeArgs) (outcome cost : Nat)
    (log : NormalizedLog) : Prop where
  kind : log.kind = .lsLmsr
  address : log.address.toLowerCase = short.address.toLowerCase
  event : ∃ account spreadWad, account.toLowerCase = a.account.toLowerCase ∧
    log.event = .bought ⟨a.marketId, account, outcome, a.shares, cost, spreadWad⟩

section Bundle

open EventProcessor (legs)

variable {outcomeCount shorted : Nat}

theorem mem_legs {outcome : Nat} :
    outcome ∈ legs outcomeCount shorted ↔ outcome < outcomeCount ∧ outcome ≠ shorted := by
  simp [legs]

theorem legs_nodup (outcomeCount shorted : Nat) : (legs outcomeCount shorted).Nodup :=
  List.nodup_range.filter _

/-- All outcomes but one. -/
theorem length_legs (inside : shorted < outcomeCount) :
    (legs outcomeCount shorted).length = outcomeCount - 1 := by
  have erased : legs outcomeCount shorted = (List.range outcomeCount).erase shorted := by
    rw [List.nodup_range.erase_eq_filter, legs]
    refine List.filter_congr fun i _ => ?_
    by_cases same : i = shorted <;> simp [same]
  rw [erased, List.length_erase_of_mem (List.mem_range.mpr inside), List.length_range]

theorem zipIdx_legs :
    (legs outcomeCount shorted).zipIdx =
      (legs outcomeCount shorted).map fun leg => (leg, (legs outcomeCount shorted).idxOf leg) := by
  refine List.ext_getElem (by simp) fun here inside _ => ?_
  rw [List.length_zipIdx] at inside
  simp [(legs_nodup outcomeCount shorted).idxOf_getElem here inside]

theorem sum_bundleCost (several : 2 ≤ outcomeCount) (inside : shorted < outcomeCount) (cost : Nat) :
    ((legs outcomeCount shorted).map (bundleCost outcomeCount shorted cost)).sum = cost := by
  have positive : 0 < (legs outcomeCount shorted).length := by
    rw [length_legs inside]
    omega
  have indices : (legs outcomeCount shorted).map (legs outcomeCount shorted).idxOf =
      List.range (legs outcomeCount shorted).length := by
    rw [List.range_eq_range', ← List.zipIdx_map_snd, zipIdx_legs, List.map_map]
    rfl
  have parts : (legs outcomeCount shorted).map (bundleCost outcomeCount shorted cost) =
      (List.range (legs outcomeCount shorted).length).map
        (EventProcessor.legBasis cost (legs outcomeCount shorted).length) := by
    rw [← indices, List.map_map]
    rfl
  rw [parts, sum_legBasis _ _ positive]

/-- The parts are even up to the remainder. -/
theorem bundleCost_lt (several : 2 ≤ outcomeCount) (inside : shorted < outcomeCount)
    (cost outcome other : Nat) :
    bundleCost outcomeCount shorted cost outcome <
      bundleCost outcomeCount shorted cost other + (outcomeCount - 1) := by
  obtain ⟨last, count⟩ : ∃ last, outcomeCount - 1 = last + 1 := ⟨outcomeCount - 2, by omega⟩
  obtain ⟨even, isEven⟩ : ∃ even, even = cost / (last + 1) := ⟨_, rfl⟩
  obtain ⟨rest, isRest⟩ : ∃ rest, rest = cost % (last + 1) := ⟨_, rfl⟩
  have division : even * last + even + rest = cost := by
    rw [isEven, isRest]
    exact Nat.div_add_mod' cost (last + 1)
  have remainder : rest < last + 1 := isRest ▸ Nat.mod_lt cost (Nat.succ_pos last)
  have parts (k : Nat) : EventProcessor.legBasis cost (last + 1) k = even ∨
      EventProcessor.legBasis cost (last + 1) k = even + rest := by
    simp only [EventProcessor.legBasis, Nat.add_sub_cancel, ← isEven]
    split
    · right
      omega
    · exact .inl rfl
  simp only [bundleCost, length_legs inside, count]
  rcases parts ((legs outcomeCount shorted).idxOf outcome) with mine | mine <;>
    rcases parts ((legs outcomeCount shorted).idxOf other) with theirs | theirs <;>
    omega

/-! ## What the logs do -/

variable {short : NormalizedLog} {a : TradeArgs} {ledger : Ledger} {book : Book}

/-- **A short.** It does to the keys what the bundle does. -/
theorem sheet_short (kind : short.kind = .lsLmsr) (event : short.event = .shorted a)
    (found : ledger.books.find? (short.marketKey a.marketId) = some book)
    (several : 2 ≤ book.outcomeCount) (inside : a.outcomeId < book.outcomeCount) :
    (ledger.applyLogs [short]).sheet =
      ((legs book.outcomeCount a.outcomeId).flatMap
        (bundleWrites short a book.outcomeCount)).foldl Write.onSheet ledger.sheet := by
  let cost := bundleCost book.outcomeCount a.outcomeId a.amount
  let pots : Nat → List Write := fun leg => [.movePot (short.marketKey a.marketId) (cost leg)]
  let credits : Nat → List Write := fun leg =>
    [.moveStock (short.marketKey a.marketId) leg a.shares,
      .buy (positionKey short a leg) a.shares (cost leg)]
  let parts := (legs book.outcomeCount a.outcomeId).flatMap credits
  have some : (legs book.outcomeCount a.outcomeId).length ≠ 0 := by
    rw [length_legs inside]
    omega
  have written : logWrites ledger.books.find? short =
      .trade (tradeKey short) (tradeRow short .short a) ::
        (parts ++ [.movePot (short.marketKey a.marketId) a.amount]) := by
    simp only [logWrites, kind, engineWrites, event, found, shortWrites, if_neg some, zipIdx_legs,
      List.flatMap_map]
    rfl
  have credit : ∀ write ∈ logWrites ledger.books.find? short, write.isCredit := by
    rw [written]
    simp only [parts, credits, List.mem_cons, List.mem_append, List.mem_flatMap, List.not_mem_nil,
      or_false]
    rintro write (rfl | ⟨leg, -, rfl | rfl⟩ | rfl) <;> rfl
  have paid : ((legs book.outcomeCount a.outcomeId).map cost).sum = a.amount :=
    sum_bundleCost several inside a.amount
  have payment (sheet : Sheet) :
      ((legs book.outcomeCount a.outcomeId).flatMap pots).foldl Write.onSheet sheet =
        (Write.movePot (short.marketKey a.marketId) a.amount).onSheet sheet := by
    rw [← paid, ← Write.foldl_movePots, List.map_map, List.map_eq_flatMap]
    rfl
  calc (ledger.applyLogs [short]).sheet
      = (ledgerJournal.replay (logWrites ledger.books.find? short) ledger).sheet := rfl
    _ = (parts ++ [Write.movePot (short.marketKey a.marketId) a.amount]).foldl Write.onSheet
          ledger.sheet := by
        rw [Write.sheet_replay credit, written]
        rfl
    _ = ([Write.movePot (short.marketKey a.marketId) a.amount] ++ parts).foldl Write.onSheet
          ledger.sheet := Write.foldl_onSheet_of_perm List.perm_append_comm _
    _ = ((legs book.outcomeCount a.outcomeId).flatMap pots ++ parts).foldl Write.onSheet
          ledger.sheet := by
        rw [List.foldl_append, List.foldl_append, payment]
        rfl
    _ = _ := Write.foldl_onSheet_of_perm (List.flatMap_append_perm _ pots credits) _

/-- A market that is known stays known. -/
theorem isSome_book_foldl (writes : List Write) {sheet : Sheet} {key : MarketKey}
    (known : (sheet.book key).isSome) : ((writes.foldl Write.onSheet sheet).book key).isSome := by
  induction writes generalizing sheet with
  | nil => exact known
  | cons write rest ih =>
      refine ih ?_
      cases write <;> simp only [Write.onSheet, atKey] <;> first | exact known | skip
      · split <;> simp [known]
      · split <;> simp [known]

/-- **The purchases.** They do to the keys what the bundle does, in their own order. -/
theorem sheet_purchases {bought : Nat → NormalizedLog} {order : List Nat}
    (known : (ledger.books.find? (short.marketKey a.marketId)).isSome)
    (each : ∀ leg ∈ order,
      IsPurchase short a leg (bundleCost outcomeCount a.outcomeId a.amount leg) (bought leg)) :
    (ledger.applyLogs (order.map bought)).sheet =
      (order.flatMap (bundleWrites short a outcomeCount)).foldl Write.onSheet ledger.sheet := by
  induction order generalizing ledger with
  | nil => rfl
  | cons leg rest ih =>
      obtain ⟨kind, address, account, spreadWad, holder, event⟩ := each leg List.mem_cons_self
      obtain ⟨book, found⟩ := Option.isSome_iff_exists.mp known
      have market : (bought leg).marketKey a.marketId = short.marketKey a.marketId := by
        rw [NormalizedLog.marketKey, address]
        rfl
      let args : TradeArgs := ⟨a.marketId, account, leg, a.shares,
        bundleCost outcomeCount a.outcomeId a.amount leg, spreadWad⟩
      have position : positionKey (bought leg) args leg = positionKey short a leg := by
        simp only [positionKey, args, market, holder]
      have written : logWrites ledger.books.find? (bought leg) =
          .trade (tradeKey (bought leg)) (tradeRow (bought leg) .buy args) ::
            bundleWrites short a outcomeCount leg := by
        simp only [logWrites, kind, engineWrites, event, market, found, bundleWrites, ← position]
        rfl
      have first : (ledgerJournal.replay (logWrites ledger.books.find? (bought leg)) ledger).sheet =
          (bundleWrites short a outcomeCount leg).foldl Write.onSheet ledger.sheet := by
        rw [Write.sheet_replay ?_, written]
        · rfl
        · rw [written]
          simp only [bundleWrites, List.mem_cons, List.not_mem_nil, or_false]
          rintro write (rfl | rfl | rfl | rfl) <;> rfl
      have knownAfter : ((ledgerJournal.replay (logWrites ledger.books.find? (bought leg))
          ledger).books.find? (short.marketKey a.marketId)).isSome := by
        change ((Ledger.sheet _).book _).isSome
        rw [first]
        exact isSome_book_foldl _ known
      rw [List.flatMap_cons, List.foldl_append, ← first]
      exact ih knownAfter fun other member => each other (List.mem_cons_of_mem _ member)

/-- The bundle leaves the shorted outcome as it was. -/
theorem shorted_untouched {order : List Nat} (others : a.outcomeId ∉ order) (sheet : Sheet)
    (account : JsString) :
    let market := short.marketKey a.marketId
    let later := (order.flatMap (bundleWrites short a outcomeCount)).foldl Write.onSheet sheet
    ((later.book market).map fun book => book.stock[a.outcomeId]?) =
        ((sheet.book market).map fun book => book.stock[a.outcomeId]?) ∧
      later.holding ⟨market, account, a.outcomeId⟩ =
        sheet.holding ⟨market, account, a.outcomeId⟩ := by
  induction order generalizing sheet with
  | nil => exact ⟨rfl, rfl⟩
  | cons leg rest ih =>
      rw [List.mem_cons, not_or] at others
      obtain ⟨apart, others⟩ := others
      obtain ⟨stock, holding⟩ :=
        ih others ((bundleWrites short a outcomeCount leg).foldl Write.onSheet sheet)
      rw [List.flatMap_cons, List.foldl_append]
      refine ⟨stock.trans ?_, holding.trans ?_⟩
      · simp only [bundleWrites, List.foldl_cons, List.foldl_nil, Write.onSheet, atKey, ↓reduceIte,
          Option.map_map]
        cases sheet.book (short.marketKey a.marketId) with
        | none => rfl
        | some book => simp [Book.addStock, Book.addPot, Ne.symm apart]
      · simp only [bundleWrites, List.foldl_cons, List.foldl_nil, Write.onSheet]
        refine atKey_of_ne ?_ _ _
        simp [positionKey, apart]

/-! ## The redemption marks -/

variable {register : Register} {verdict : Verdict}

/-- A position that is held keeps its mark, or gets a blank one. -/
theorem redeemed_holds (keys : List PositionKey) (register : Register) (key : PositionKey) :
    (registerJournal.replay (keys.map Entry.hold) register).redeemed.find? key =
      if key ∈ keys then some ((register.redeemed.find? key).getD false)
      else register.redeemed.find? key := by
  induction keys generalizing register with
  | nil => simp
  | cons held rest ih =>
      rw [List.map_cons, Journal.replay_cons, ih, registerJournal_apply]
      simp only [Entry.apply, Table.find?_insertNew, List.mem_cons]
      by_cases here : key = held
      · subst here
        simp
      · simp [here]

theorem redeemed_short (kind : short.kind = .lsLmsr) (event : short.event = .shorted a)
    (found : register.verdicts.find? (short.marketKey a.marketId) = some verdict)
    (key : PositionKey) :
    (register.applyLogs [short]).redeemed.find? key =
      if key ∈ (legs verdict.outcomeCount a.outcomeId).map (positionKey short a) then
        some ((register.redeemed.find? key).getD false)
      else register.redeemed.find? key := by
  have entered : logEntries register.verdicts.find? short =
      ((legs verdict.outcomeCount a.outcomeId).map (positionKey short a)).map Entry.hold := by
    simp only [logEntries, kind, engineEntries, event, found, List.map_map]
    rfl
  rw [← redeemed_holds, ← entered]
  rfl

theorem redeemed_purchases {bought : Nat → NormalizedLog} {order : List Nat}
    (known : (register.link (short.marketKey a.marketId)).isSome)
    (each : ∀ leg ∈ order,
      IsPurchase short a leg (bundleCost outcomeCount a.outcomeId a.amount leg) (bought leg))
    (key : PositionKey) :
    (register.applyLogs (order.map bought)).redeemed.find? key =
      if key ∈ order.map (positionKey short a) then
        some ((register.redeemed.find? key).getD false)
      else register.redeemed.find? key := by
  induction order generalizing register with
  | nil => rfl
  | cons leg rest ih =>
      obtain ⟨kind, address, account, spreadWad, holder, event⟩ := each leg List.mem_cons_self
      have market : (bought leg).marketKey a.marketId = short.marketKey a.marketId := by
        rw [NormalizedLog.marketKey, address]
        rfl
      have first : ((register.applyLogs [bought leg]).redeemed.find? key) =
          if key = positionKey short a leg then some ((register.redeemed.find? key).getD false)
          else register.redeemed.find? key := by
        have present : (register.verdicts.find? (short.marketKey a.marketId)).isSome := by
          simpa [Register.link] using known
        obtain ⟨verdict, found⟩ := Option.isSome_iff_exists.mp present
        have entered : logEntries register.verdicts.find? (bought leg) =
            [positionKey short a leg].map Entry.hold := by
          simp only [logEntries, kind, engineEntries, event, market, found, holder]
          rfl
        have held := redeemed_holds [positionKey short a leg] register key
        rw [← entered] at held
        simp only [List.mem_singleton] at held
        exact held
      have knownAfter : ((register.applyLogs [bought leg]).link (short.marketKey a.marketId)).isSome
          := by
        rw [link_applyLog]
        split
        · rfl
        · exact known
      have later := ih knownAfter fun other member => each other (List.mem_cons_of_mem _ member)
      rw [List.map_cons, ← List.singleton_append, Register.applyLogs_append, later, first]
      simp only [List.map_cons, List.mem_cons]
      by_cases here : key = positionKey short a leg
      · simp [here]
      · simp [here]

end Bundle

/-! ## The rows -/

/-- A position row is its holding and its mark. -/
theorem position_ext {first second : Option Position}
    (holdings : first.map Position.holding = second.map Position.holding)
    (marks : first.map Position.redeemed = second.map Position.redeemed) : first = second := by
  cases first with
  | none =>
      cases second with
      | none => rfl
      | some row => cases holdings
  | some row =>
      cases second with
      | none => cases holdings
      | some other =>
          obtain ⟨shares, basis, profit, redeemed⟩ := row
          simp_all [Position.holding]

section Runs

variable {ext : Externals} {start final final' : Database} {short : NormalizedLog} {a : TradeArgs}
  {row : Market} {order : List Nat} {bought : Nat → NormalizedLog}

/-- **A short is a bundle of purchases.** It changes the pot, the outcomes' shares and the
positions as purchases of the other outcomes do, in any order, each for its share of the cost.
The shares make up the cost and differ by less than the number of purchases, and the shorted
outcome stays as it was. -/
theorem short_is_bundle
    (found : start.markets.find? (short.marketKey a.marketId) = some row)
    (several : 2 ≤ row.outcomeCount) (inside : a.outcomeId < row.outcomeCount)
    (kind : short.kind = .lsLmsr) (event : short.event = .shorted a)
    (run : Processed ext start [short] final)
    (others : order.Perm (EventProcessor.legs row.outcomeCount a.outcomeId))
    (each : ∀ j ∈ order,
      IsPurchase short a j (bundleCost row.outcomeCount a.outcomeId a.amount j) (bought j))
    (run' : Processed ext start (order.map bought) final') :
    let cost := bundleCost row.outcomeCount a.outcomeId a.amount
    let market := short.marketKey a.marketId
    ((order.map cost).sum = a.amount ∧
        (∀ j ∈ order, ∀ k ∈ order, cost j < cost k + (row.outcomeCount - 1)) ∧
        (row.outcomeCount = 2 → ∀ j ∈ order, cost j = a.amount)) ∧
      ((∀ key, (final.markets.find? key).map Market.book =
          (final'.markets.find? key).map Market.book) ∧
        ∀ key, final.positions.find? key = final'.positions.find? key) ∧
      (((final.markets.find? market).map fun later =>
          (later.outcomes[a.outcomeId]?).map Outcome.currentShares) =
            some ((row.outcomes[a.outcomeId]?).map Outcome.currentShares) ∧
        ∀ account, final.positions.find? ⟨market, account, a.outcomeId⟩ =
          start.positions.find? ⟨market, account, a.outcomeId⟩) := by
  intro cost market
  have sum : (order.map cost).sum = a.amount := by
    rw [(others.map cost).sum_eq]
    exact sum_bundleCost several inside a.amount
  have known : start.ledger.books.find? market = some row.book := by
    simp [Database.ledger, market, found]
  have verdict : start.register.verdicts.find? market = some row.verdict := by
    simp [Database.register, market, found]
  have linked : (start.register.link market).isSome := by simp [Register.link, verdict]
  have shorted := sheet_short kind event known several inside
  have purchased := sheet_purchases (Option.isSome_of_eq_some known) each
  rw [← run.ledger] at shorted
  rw [← run'.ledger] at purchased
  have same : final.ledger.sheet = final'.ledger.sheet := by
    rw [shorted, purchased]
    exact (Write.foldl_onSheet_of_perm (others.flatMap_right _) _).symm
  have mine : a.outcomeId ∉ EventProcessor.legs row.outcomeCount a.outcomeId :=
    fun member => (mem_legs.mp member).2 rfl
  have marked := redeemed_short kind event verdict
  have marked' := redeemed_purchases linked each
  rw [← run.register] at marked
  rw [← run'.register] at marked'
  refine ⟨⟨sum, ?_, ?_⟩, ⟨?_, ?_⟩, ?_, ?_⟩
  · exact fun j _ k _ => bundleCost_lt several inside a.amount j k
  · -- The only purchase carries the whole cost.
    intro two j member
    have length : order.length = 1 := by
      rw [others.length_eq, length_legs inside, two]
    obtain ⟨only, rfl⟩ := List.length_eq_one_iff.mp length
    obtain rfl := List.mem_singleton.mp member
    simpa using sum
  · intro key
    have book : final.ledger.sheet.book key = final'.ledger.sheet.book key := by rw [same]
    simpa [Ledger.sheet, Database.ledger] using book
  · intro key
    refine position_ext ?_ ?_
    · have holding : final.ledger.sheet.holding key = final'.ledger.sheet.holding key := by
        rw [same]
      simpa [Ledger.sheet, Database.ledger] using holding
    · have mark : final.register.redeemed.find? key = final'.register.redeemed.find? key := by
        rw [marked, marked']
        simp only [(others.map (positionKey short a)).mem_iff]
        rfl
      simpa [Database.register] using mark
  · have untouched :
        ((final.ledger.sheet.book market).map fun book => book.stock[a.outcomeId]?) =
          (start.ledger.sheet.book market).map fun book => book.stock[a.outcomeId]? := by
      rw [shorted]
      exact (shorted_untouched mine _ a.account).1
    simpa [Ledger.sheet, Database.ledger, Market.book, market, found, Function.comp_def]
      using untouched
  · intro account
    refine position_ext ?_ ?_
    · have untouched : final.ledger.sheet.holding ⟨market, account, a.outcomeId⟩ =
          start.ledger.sheet.holding ⟨market, account, a.outcomeId⟩ := by
        rw [shorted]
        exact (shorted_untouched mine _ account).2
      simpa [Ledger.sheet, Database.ledger] using untouched
    · have blank := marked ⟨market, account, a.outcomeId⟩
      rw [if_neg] at blank
      · simpa [Database.register] using blank
      · rintro member
        obtain ⟨leg, among, same⟩ := List.mem_map.mp member
        exact mine ((PositionKey.mk.inj same).2.2 ▸ among)

end Runs

open Sample in
/-- A short of outcome 1 of three for 5: outcome 2 is bought for 3, and then outcome 0 for 2. -/
theorem short_is_bundle_ofThree :
    let shorted := after [log 1 (.shorted (trade 1 4 5))] (opened 3)
    let bought := after [log 2 (.bought (trade 2 4 3)), log 3 (.bought (trade 0 4 2))] (opened 3)
    (∀ key, (shorted.markets.find? key).map Market.book =
        (bought.markets.find? key).map Market.book) ∧
      ∀ key, shorted.positions.find? key = bought.positions.find? key := by
  intro shorted bought
  let market := (log 1 (.shorted (trade 1 4 5))).marketKey 1
  have known : ((opened 3).markets.find? market).map Market.outcomeCount = some 3 := by
    decide +kernel
  obtain ⟨row, found, count⟩ := Option.map_eq_some_iff.mp known
  have run : Processed externals (opened 3) [log 1 (.shorted (trade 1 4 5))] shorted :=
    .of_stopped outside 400 (by decide +kernel)
  let purchase (j : Nat) : NormalizedLog :=
    if j = 2 then log 2 (.bought (trade 2 4 3)) else log 3 (.bought (trade 0 4 2))
  have run' : Processed externals (opened 3) ([2, 0].map purchase) bought :=
    .of_stopped outside 400 (by decide +kernel)
  have each : ∀ j ∈ [2, 0], IsPurchase (log 1 (.shorted (trade 1 4 5))) (trade 1 4 5) j
      (bundleCost row.outcomeCount 1 5 j) (purchase j) := by
    rw [count]
    intro j member
    rcases List.mem_cons.mp member with rfl | last
    · exact ⟨rfl, rfl, alice, 0, rfl, rfl⟩
    · obtain rfl := List.mem_singleton.mp last
      exact ⟨rfl, rfl, alice, 0, rfl, rfl⟩
  have others : [2, 0].Perm (EventProcessor.legs row.outcomeCount 1) := by
    rw [count]
    decide
  have several : 2 ≤ row.outcomeCount := by omega
  have inside : 1 < row.outcomeCount := by omega
  have bundle := short_is_bundle found several inside rfl rfl run others each run'
  exact bundle.2.1

end Numera
