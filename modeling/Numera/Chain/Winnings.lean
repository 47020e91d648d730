import Numera.Api.Views
import Numera.Chain.PotConservation
import Numera.Chain.Registration
import Numera.Chain.ShareConservation

/-! # Displayed winnings

After a resolution a market owes each winning share one unit: to the accounts that
have not redeemed and, until it is redeemed, to the seed. The pot is what it owes
(`pot_settled`), because the resolution sets it to that and every redemption takes
its own part. What the portfolio displays is the same sum over the position rows
without a redemption, as long as it can read them: `markToMarket` throws on a
position of 10^21 shares or more.
-/

namespace Numera

section

variable (market : MarketKey)

def Event.trades : Event → Bool
  | .bought _ | .sold _ | .shorted _ => true
  | _ => false

/-- A trade of an outcome the market has. -/
def Event.tradesBelow (outcomeCount : Nat) : Event → Bool
  | .bought a | .sold a | .shorted a => a.outcomeId < outcomeCount
  | _ => false

/-- A redemption, by an account or of the seed. -/
def Event.redeems : Event → Bool
  | .redeemed _ _ _ | .seedRedeemed _ _ _ => true
  | _ => false

/-- An event that opens, trades or settles a market. -/
def Event.moves : Event → Bool
  | .marketCreated _ | .marketResolved _ _ _ _ | .marketInvalidated _ _ => true
  | event => event.trades || event.redeems

/-- The account a log redeems for. -/
def redeemer? (log : NormalizedLog) : Option JsString :=
  if log.concerns market then
    match log.event with
    | .redeemed _ account _ => some account.toLowerCase
    | _ => none
  else none

/-- What a log redeems of the seed. -/
def seedRedeemed? (log : NormalizedLog) : Option Nat :=
  if log.concerns market then
    match log.event with
    | .seedRedeemed _ _ amount => some amount
    | _ => none
  else none

/-- The accounts that redeem in the market, in order. -/
def redeemers (logs : List NormalizedLog) : List JsString := logs.filterMap (redeemer? market)

/-- The redemptions of the market's seed, by what they pay. -/
def seedRedemptions (logs : List NormalizedLog) : List Nat := logs.filterMap (seedRedeemed? market)

/-- The life of a market the engine resolves: its creation, trades of its outcomes in
which nobody sells more than there is, its resolution to an outcome, which owes the
outstanding shares of that outcome with the seed, and redemptions: each account once
for its shares of the outcome, and the seed at most once. Other logs come anywhere
between. -/
structure SettlesTo (a : MarketCreated) (winner owed surplus : Nat)
    (creation resolution : NormalizedLog) (trades settlement : List NormalizedLog) : Prop where
  creates : creation.concerns market
  created : creation.event = .marketCreated a
  trading : ∀ log ∈ trades, log.concerns market → log.event.moves →
    log.event.tradesBelow a.outcomeCount
  neverOversells : NeverOversells market [] trades
  resolves : resolution.concerns market
  resolved : ∃ marketId, resolution.event = .marketResolved marketId winner owed surplus
  exists_ : winner < a.outcomeCount
  owes : (owed : Int) = a.seedPerOutcome + sharesHeld market winner (fun _ => true) trades
  settling : ∀ log ∈ settlement, log.concerns market → log.event.moves → log.event.redeems
  once : (redeemers market settlement).Nodup
  paid : ∀ log ∈ settlement, log.concerns market → ∀ marketId account amount,
    log.event = .redeemed marketId account amount →
      (amount : Int) = netShares market winner account trades
  seed : seedRedemptions market settlement = [] ∨
    seedRedemptions market settlement = [a.seedPerOutcome]

/-- The part of the seed that is not redeemed yet. -/
def seedLeft (seed : Nat) (logs : List NormalizedLog) : Int :=
  if seedRedemptions market logs = [] then seed else 0

/-! ## Shares -/

variable {market} {index : Nat} {logs : List NormalizedLog}

/-- The shares a log moves belong to one account. -/
theorem sharesMoved_ofAccount (market : MarketKey) (index : Nat) (log : NormalizedLog) :
    ∃ (account : JsString) (amount : Int), ∀ who : JsString → Bool,
      sharesMoved market index who log = if who account.toLowerCase then amount else 0 := by
  have both : ∀ (chosen : Prop) [Decidable chosen] (own : Bool) (amount : Int),
      (if chosen ∧ own = true then amount else 0) =
        if own then (if chosen then amount else 0) else 0 := by
    intro chosen _ own amount
    by_cases chosen <;> cases own <;> simp [*]
  unfold sharesMoved
  split
  · rename_i a _ _
    refine ⟨a.account, if log.marketKey a.marketId = market ∧ a.outcomeId = index then a.shares
      else 0, fun who => ?_⟩
    rw [← both]
    simp only [and_assoc]
  · rename_i a _ _
    refine ⟨a.account, if log.marketKey a.marketId = market ∧ a.outcomeId = index then -a.shares
      else 0, fun who => ?_⟩
    rw [← both]
    simp only [and_assoc]
  · rename_i a _ _
    refine ⟨a.account, if log.marketKey a.marketId = market ∧ a.outcomeId ≠ index then a.shares
      else 0, fun who => ?_⟩
    rw [← both]
    simp only [and_assoc]
  · exact ⟨[], 0, fun who => by simp⟩

/-- Only a trade of the market moves its shares. -/
theorem sharesMoved_of_still {log : NormalizedLog} (who : JsString → Bool)
    (still : log.concerns market → log.event.trades = false) :
    sharesMoved market index who log = 0 := by
  have apart : ∀ marketId, log.kind = .lsLmsr → log.event.marketId? = some marketId →
      log.event.trades → log.marketKey marketId ≠ market := by
    rintro marketId kind named trades rfl
    rw [still ⟨kind, by rw [named]; rfl⟩] at trades
    cases trades
  unfold sharesMoved
  split
  · rename_i a kind event
    exact if_neg fun both => apart a.marketId kind (by rw [event]; rfl) (by rw [event]; rfl) both.1
  · rename_i a kind event
    exact if_neg fun both => apart a.marketId kind (by rw [event]; rfl) (by rw [event]; rfl) both.1
  · rename_i a kind event
    exact if_neg fun both => apart a.marketId kind (by rw [event]; rfl) (by rw [event]; rfl) both.1
  · rfl

theorem sharesHeld_of_still (who : JsString → Bool)
    (still : ∀ log ∈ logs, log.concerns market → log.event.trades = false) :
    sharesHeld market index who logs = 0 := by
  refine List.sum_eq_zero fun amount member => ?_
  obtain ⟨log, present, rfl⟩ := List.mem_map.mp member
  exact sharesMoved_of_still who (still log present)

/-- A name no account is listed under holds nothing. -/
theorem sharesHeld_of_unlisted {name : JsString}
    (unlisted : ∀ account : JsString, name ≠ account.toLowerCase) :
    sharesHeld market index (· = name) logs = 0 := by
  refine List.sum_eq_zero fun amount member => ?_
  obtain ⟨log, -, rfl⟩ := List.mem_map.mp member
  obtain ⟨account, amount, moved⟩ := sharesMoved_ofAccount market index log
  rw [moved, if_neg]
  exact fun same => unlisted account (of_decide_eq_true same).symm

/-- The shares of the accounts outside a set, when one more account joins it. -/
theorem sharesHeld_notMem_cons {account : JsString} {members : List JsString}
    (fresh : account ∉ members) :
    sharesHeld market index (fun holder => holder ∉ account :: members) logs =
      sharesHeld market index (fun holder => holder ∉ members) logs -
        sharesHeld market index (· = account) logs := by
  induction logs with
  | nil => rfl
  | cons log rest ih =>
      obtain ⟨mover, amount, moved⟩ := sharesMoved_ofAccount market index log
      simp only [sharesHeld, List.map_cons, List.sum_cons] at ih ⊢
      rw [ih, moved, moved, moved]
      by_cases own : mover.toLowerCase = account
      · subst own
        simp [fresh]
      · by_cases inside : mover.toLowerCase ∈ members
        · simp [own, inside]
        · simp [own, inside]
          ring

/-- The shares of the accounts outside a set are all shares less those inside. -/
theorem sharesHeld_notMem {members : List JsString} (distinct : members.Nodup) :
    sharesHeld market index (fun holder => holder ∉ members) logs =
      sharesHeld market index (fun _ => true) logs -
        (members.map fun account => sharesHeld market index (· = account) logs).sum := by
  induction members with
  | nil => simp
  | cons account rest ih =>
      obtain ⟨fresh, distinctRest⟩ := List.nodup_cons.mp distinct
      rw [sharesHeld_notMem_cons fresh, ih distinctRest, List.map_cons, List.sum_cons]
      ring

/-- Nobody holds less than nothing. -/
theorem netShares_nonneg {earlier : List NormalizedLog}
    (before : ∀ account index, 0 ≤ netShares market index account earlier)
    (neverOversells : NeverOversells market earlier logs) (account : JsString) (index : Nat) :
    0 ≤ netShares market index account (earlier ++ logs) := by
  induction logs generalizing earlier with
  | nil => simpa using before account index
  | cons log rest ih =>
      obtain ⟨covered, others⟩ := neverOversells
      rw [List.append_cons]
      refine ih (fun holder outcome => ?_) others
      have held := before holder outcome
      have appended : netShares market outcome holder (earlier ++ [log]) =
          netShares market outcome holder earlier +
            sharesMoved market outcome (· = holder.toLowerCase) log := by
        simp [netShares, sharesHeld]
      have credited : ∀ (chosen : Prop) [Decidable chosen] (shares : Nat),
          0 ≤ if chosen then (shares : Int) else 0 := by
        intro chosen _ shares
        split <;> omega
      rw [appended]
      unfold sharesMoved
      split
      · exact add_nonneg held (credited _ _)
      · rename_i a kind event
        split
        · rename_i own
          obtain ⟨same, rfl, who⟩ := own
          simp only [CoveredSale, kind, event] at covered
          have enough := covered same
          rw [netShares, of_decide_eq_true who] at enough
          rw [netShares] at held ⊢
          omega
        · omega
      · exact add_nonneg held (credited _ _)
      · omega

theorem neverOversells_of_still {earlier : List NormalizedLog}
    (still : ∀ log ∈ logs, log.concerns market → log.event.trades = false) :
    NeverOversells market earlier logs := by
  induction logs generalizing earlier with
  | nil => trivial
  | cons log rest ih =>
      refine ⟨?_, ih fun other member => still other (List.mem_cons_of_mem _ member)⟩
      unfold CoveredSale
      split
      · rename_i a kind event
        rintro rfl
        have sells := still log List.mem_cons_self ⟨kind, by rw [event]; rfl⟩
        rw [event] at sells
        cases sells
      · trivial

theorem neverOversells_append {earlier first second : List NormalizedLog}
    (covered : NeverOversells market earlier first)
    (later : NeverOversells market (earlier ++ first) second) :
    NeverOversells market earlier (first ++ second) := by
  induction first generalizing earlier with
  | nil => simpa using later
  | cons log rest ih =>
      refine ⟨covered.1, ih covered.2 ?_⟩
      rwa [List.append_assoc, List.singleton_append]

/-! ## The pot -/

variable {ledger : Ledger} {a : MarketCreated} {winner owed surplus : Nat}
  {creation resolution : NormalizedLog} {trades settlement : List NormalizedLog}

/-- The resolution sets the pot to what it owes. -/
private theorem pot?_resolved {log : NormalizedLog} {marketId : Nat} {book : Book}
    (known : ledger.books.find? market = some book) (concerns : log.concerns market)
    (event : log.event = .marketResolved marketId winner owed surplus) :
    (ledger.applyLogs [log]).pot? market = some (owed : Int) := by
  obtain ⟨kind, named⟩ := concerns
  rw [event] at named
  have key : log.marketKey marketId = market := Option.some.inj named
  change (ledgerJournal.replay (logWrites ledger.books.find? log) ledger).pot? market = _
  simp only [logWrites, kind, engineWrites, event, key, known, Journal.replay_cons,
    Journal.replay_nil, ledgerJournal_apply, pot?_apply, Write.onPot, ↓reduceIte]
  simp [Ledger.pot?, known]

/-- After the resolution every log moves the pot as it moves the collateral. -/
private theorem pot?_settling {held : Int} (known : ledger.pot? market = some held)
    (settling : ∀ log ∈ logs, log.concerns market → log.event.moves → log.event.redeems) :
    (ledger.applyLogs logs).pot? market = some (held + collateral market logs) := by
  induction logs generalizing ledger held with
  | nil => simpa [Ledger.applyLogs, collateral] using known
  | cons log rest ih =>
      have moved : (ledger.applyLogs [log]).pot? market =
          some (held + collateralMoved market log) := by
        by_cases concerns : log.concerns market
        · have redeems := settling log List.mem_cons_self concerns
          refine pot?_followed market known concerns ?_ ?_ ?_
          · intro creates
            cases event : log.event with
            | marketCreated _ =>
                rw [event] at redeems
                cases redeems rfl
            | _ =>
                rw [event] at creates
                cases creates
          · unfold Followed
            split
            · rename_i event
              rw [event] at redeems
              cases redeems rfl
            · rename_i event
              rw [event] at redeems
              cases redeems rfl
            · trivial
          · unfold splitsCollateral
            split
            · rename_i event
              rw [event] at redeems
              cases redeems rfl
            · rfl
        · rw [pot?_elsewhere market concerns, collateralMoved_elsewhere concerns, add_zero, known]
      have later := ih moved fun other member => settling other (List.mem_cons_of_mem _ member)
      rw [show ledger.applyLogs (log :: rest) = (ledger.applyLogs [log]).applyLogs rest from rfl,
        later]
      simp only [collateral, List.map_cons, List.sum_cons]
      congr 1
      ring

/-- The settlement pays out the shares of those who redeem and the seed. -/
private theorem collateral_settlement
    (settling : ∀ log ∈ logs, log.concerns market → log.event.moves → log.event.redeems)
    (paid : ∀ log ∈ logs, log.concerns market → ∀ marketId account amount,
      log.event = .redeemed marketId account amount →
        (amount : Int) = netShares market winner account trades) :
    collateral market logs =
      -((redeemers market logs).map fun account =>
          sharesHeld market winner (· = account) trades).sum -
        ((seedRedemptions market logs).map fun amount => (amount : Int)).sum := by
  induction logs with
  | nil => rfl
  | cons log rest ih =>
      have earlier := ih (fun other member => settling other (List.mem_cons_of_mem _ member))
        fun other member => paid other (List.mem_cons_of_mem _ member)
      have first : collateralMoved market log =
          -((redeemer? market log).elim 0 fun account =>
              sharesHeld market winner (· = account) trades) -
            (seedRedeemed? market log).elim 0 fun amount => (amount : Int) := by
        by_cases concerns : log.concerns market
        · have redeems := settling log List.mem_cons_self concerns
          have amounts := paid log List.mem_cons_self concerns
          unfold redeemer? seedRedeemed? collateralMoved
          rw [if_pos concerns, if_pos concerns, if_pos concerns.2, concerns.1]
          cases event : log.event with
          | redeemed marketId account amount =>
              simp [amounts marketId account amount event, netShares]
          | seedRedeemed marketId creator amount => simp
          | _ =>
              rw [event] at redeems
              first
                | rfl
                | cases redeems rfl
        · simp [collateralMoved_elsewhere concerns, redeemer?, seedRedeemed?, concerns]
      simp only [collateral, redeemers, seedRedemptions, List.map_cons, List.sum_cons] at earlier ⊢
      rw [first, earlier, List.filterMap_cons, List.filterMap_cons]
      cases redeemer? market log <;> cases seedRedeemed? market log <;> simp <;> ring

/-! ## The register -/

/-- What the register tells of a market: its verdict, and which accounts have
redeemed their positions, all of them in the market's outcomes. -/
structure Register.Tells (market : MarketKey) (verdict : Verdict) (redeemed : List JsString)
    (register : Register) : Prop where
  known : register.verdicts.find? market = some verdict
  flags : ∀ key flag, key.marketRef = market → register.redeemed.find? key = some flag →
    key.outcomeIndex < verdict.outcomeCount ∧ (flag = true ↔ key.account ∈ redeemed)

/-- An entry that leaves what the register tells of the market: it settles and
redeems elsewhere, and holds a position of an outcome there is before anyone
redeems. -/
def Entry.Spares (market : MarketKey) (outcomeCount : Nat) (redeemed : List JsString) :
    Entry → Prop
  | settle key _ _ | redeem key _ => key ≠ market
  | hold key => key.marketRef = market → key.outcomeIndex < outcomeCount ∧ redeemed = []
  | _ => True

variable {verdict : Verdict} {redeemed : List JsString} {register : Register}

private theorem tells_apply {entry : Entry} (tells : register.Tells market verdict redeemed)
    (spares : entry.Spares market verdict.outcomeCount redeemed) :
    (entry.apply register).Tells market verdict redeemed := by
  obtain ⟨known, flags⟩ := tells
  cases entry with
  | enter key outcomeCount =>
      refine ⟨?_, flags⟩
      simp only [Entry.apply, Table.find?_insertNew]
      split
      · rename_i same
        rw [← same, known]
        rfl
      · exact known
  | settle key status winner =>
      refine ⟨?_, flags⟩
      simp only [Entry.apply, Table.find?_modify, if_neg (Ne.symm spares)]
      exact known
  | hold own =>
      refine ⟨known, fun key flag about found => ?_⟩
      simp only [Entry.apply, Table.find?_insertNew] at found
      split at found
      · rename_i same
        subst same
        cases present : register.redeemed.find? key with
        | none =>
            rw [present] at found
            obtain rfl := Option.some.inj found
            obtain ⟨inside, rfl⟩ := spares about
            exact ⟨inside, by simp⟩
        | some old =>
            rw [present] at found
            obtain rfl := Option.some.inj found
            exact flags key old about present
      · exact flags key flag about found
  | redeem key account =>
      refine ⟨known, fun own flag about found => ?_⟩
      have apart : Database.isHeldBy key account own = false :=
        decide_eq_false fun held => spares (held.1.symm.trans about)
      simp only [Entry.apply, Table.find?_modifyWhere, apart, Bool.false_eq_true, ↓reduceIte,
        Option.map_id'] at found
      exact flags own flag about found
  | propose key row => exact ⟨known, flags⟩
  | amend key data => exact ⟨known, flags⟩

private theorem tells_replay {entries : List Entry}
    (tells : register.Tells market verdict redeemed)
    (spare : ∀ entry ∈ entries, entry.Spares market verdict.outcomeCount redeemed) :
    (registerJournal.replay entries register).Tells market verdict redeemed := by
  induction entries generalizing register with
  | nil => exact tells
  | cons entry rest ih =>
      rw [Journal.replay_cons, registerJournal_apply]
      exact ih (tells_apply tells (spare entry List.mem_cons_self))
        fun other member => spare other (List.mem_cons_of_mem _ member)

/-- The entries of a log spare the market when it does not concern it, does not move
it, or trades in it before anyone redeems. -/
private theorem spares_logEntries {verdict? : MarketKey → Option Verdict} {log : NormalizedLog}
    (known : verdict? market = some verdict)
    (trading : log.concerns market → log.event.moves →
      log.event.tradesBelow verdict.outcomeCount ∧ redeemed = []) :
    ∀ entry ∈ logEntries verdict? log,
      entry.Spares market verdict.outcomeCount redeemed := by
  intro entry member
  unfold logEntries at member
  cases kind : log.kind with
  | tradingBlocklist =>
      rw [kind] at member
      cases member
  | optimisticResolver =>
      rw [kind] at member
      unfold resolverEntries at member
      dsimp only at member
      split at member
      all_goals
        simp only [List.mem_singleton, List.not_mem_nil] at member
      all_goals
        subst member
        trivial
  | lsLmsr =>
      rw [kind] at member
      unfold engineEntries at member
      have about : ∀ marketId, log.event.marketId? = some marketId →
          log.marketKey marketId = market → log.concerns market := by
        rintro marketId named rfl
        exact ⟨kind, by rw [named]; rfl⟩
      have elsewhere : log.event.moves → log.event.tradesBelow verdict.outcomeCount = false →
          ∀ marketId, log.event.marketId? = some marketId → log.marketKey marketId ≠ market := by
        intro moves other marketId named same
        rw [(trading (about marketId named same) moves).1] at other
        cases other
      cases event : log.event with
      | marketCreated a =>
          rw [event] at member
          rw [List.mem_singleton.mp member]
          trivial
      | bought a | sold a =>
          rw [event] at member trading about
          rw [eq_of_mem_entries member]
          intro same
          obtain ⟨inside, nobody⟩ := trading (about a.marketId rfl same) rfl
          exact ⟨of_decide_eq_true inside, nobody⟩
      | shorted a =>
          rw [event] at member trading about
          dsimp only at member
          cases found : verdict? (log.marketKey a.marketId) with
          | none => simp [found] at member
          | some own =>
              rw [found] at member
              obtain ⟨leg, listed, rfl⟩ := List.mem_map.mp member
              intro same
              rw [show log.marketKey a.marketId = market from same, known] at found
              obtain rfl := Option.some.inj found
              obtain ⟨-, nobody⟩ := trading (about a.marketId rfl same) rfl
              exact ⟨List.mem_range.mp (List.mem_filter.mp listed).1, nobody⟩
      | marketResolved marketId winner owed surplus =>
          rw [event] at member elsewhere
          rw [eq_of_mem_entries member]
          exact elsewhere rfl rfl marketId rfl
      | marketInvalidated marketId surplus =>
          rw [event] at member elsewhere
          rw [eq_of_mem_entries member]
          exact elsewhere rfl rfl marketId rfl
      | redeemed marketId account amount =>
          rw [event] at member elsewhere
          rw [eq_of_mem_entries member]
          exact elsewhere rfl rfl marketId rfl
      | _ =>
          rw [event] at member
          cases member

/-- The creation makes the market known without a position. -/
private theorem tells_created {log : NormalizedLog}
    (unknown : register.verdicts.find? market = none)
    (noPositions : ∀ key : PositionKey, key.marketRef = market → register.redeemed.find? key = none)
    (creates : log.concerns market) (event : log.event = .marketCreated a) :
    (register.applyLogs [log]).Tells market ⟨a.outcomeCount, .trading, none⟩ [] := by
  obtain ⟨kind, named⟩ := creates
  rw [event] at named
  have key : log.marketKey a.marketId = market := Option.some.inj named
  have admitted : register.applyLogs [log] =
      (Entry.enter market a.outcomeCount).apply register := by
    change registerJournal.replay (logEntries register.verdicts.find? log) register = _
    simp only [logEntries, kind, engineEntries, event, key, Journal.replay_cons,
      Journal.replay_nil, registerJournal_apply]
  rw [admitted]
  refine ⟨by simp [Entry.apply, unknown], fun own flag about found => ?_⟩
  have none : register.redeemed.find? own = some flag := found
  rw [noPositions own about] at none
  cases none

/-- Trades of the market's outcomes leave its verdict, and nobody redeems. -/
private theorem tells_trading (tells : register.Tells market verdict [])
    (trading : ∀ log ∈ logs, log.concerns market → log.event.moves →
      log.event.tradesBelow verdict.outcomeCount) :
    (register.applyLogs logs).Tells market verdict [] := by
  induction logs generalizing register with
  | nil => exact tells
  | cons log rest ih =>
      refine ih (tells_replay tells (spares_logEntries tells.known fun concerns moves => ?_))
        fun other member => trading other (List.mem_cons_of_mem _ member)
      exact ⟨trading log List.mem_cons_self concerns moves, rfl⟩

/-- The resolution records its winner. -/
private theorem tells_resolved {log : NormalizedLog} {marketId : Nat}
    (tells : register.Tells market verdict redeemed) (concerns : log.concerns market)
    (event : log.event = .marketResolved marketId winner owed surplus) :
    (register.applyLogs [log]).Tells market
      ⟨verdict.outcomeCount, .resolved, some winner⟩ redeemed := by
  obtain ⟨kind, named⟩ := concerns
  rw [event] at named
  have key : log.marketKey marketId = market := Option.some.inj named
  obtain ⟨known, flags⟩ := tells
  have settled : register.applyLogs [log] =
      (Entry.settle market .resolved (some winner)).apply register := by
    change registerJournal.replay (logEntries register.verdicts.find? log) register = _
    simp only [logEntries, kind, engineEntries, event, key, known, Journal.replay_cons,
      Journal.replay_nil, registerJournal_apply]
  rw [settled]
  exact ⟨by simp [Entry.apply, known], flags⟩

/-- A redemption marks the positions of its account. -/
private theorem tells_redeemed {log : NormalizedLog} {marketId amount : Nat} {account : JsString}
    (tells : register.Tells market verdict redeemed) (concerns : log.concerns market)
    (event : log.event = .redeemed marketId account amount) :
    (register.applyLogs [log]).Tells market verdict (redeemed ++ [account.toLowerCase]) := by
  obtain ⟨kind, named⟩ := concerns
  rw [event] at named
  have key : log.marketKey marketId = market := Option.some.inj named
  obtain ⟨known, flags⟩ := tells
  have marked : register.applyLogs [log] =
      (Entry.redeem market account.toLowerCase).apply register := by
    change registerJournal.replay (logEntries register.verdicts.find? log) register = _
    simp only [logEntries, kind, engineEntries, event, key, known, Journal.replay_cons,
      Journal.replay_nil, registerJournal_apply]
  rw [marked]
  refine ⟨known, fun own flag about found => ?_⟩
  simp only [Entry.apply, Table.find?_modifyWhere] at found
  obtain ⟨old, present, rfl⟩ := Option.map_eq_some_iff.mp found
  obtain ⟨inside, told⟩ := flags own old about present
  refine ⟨inside, ?_⟩
  by_cases mine : own.account = account.toLowerCase
  · simp [Database.isHeldBy, about, mine]
  · simp [Database.isHeldBy, mine, told]

/-- The settlement marks the positions of those who redeem. -/
private theorem tells_settling (tells : register.Tells market verdict redeemed)
    (settling : ∀ log ∈ logs, log.concerns market → log.event.moves → log.event.redeems) :
    (register.applyLogs logs).Tells market verdict (redeemed ++ redeemers market logs) := by
  induction logs generalizing register redeemed with
  | nil =>
      rw [redeemers, List.filterMap_nil, List.append_nil]
      exact tells
  | cons log rest ih =>
      have others := fun other member => settling other (List.mem_cons_of_mem log member)
      have first : (register.applyLogs [log]).Tells market verdict
          (redeemed ++ (redeemer? market log).toList) := by
        by_cases redemption : ∃ marketId account amount, log.concerns market ∧
            log.event = .redeemed marketId account amount
        · obtain ⟨marketId, account, amount, concerns, event⟩ := redemption
          have own : redeemer? market log = some account.toLowerCase := by
            simp only [redeemer?, if_pos concerns, event]
          rw [own]
          exact tells_redeemed tells concerns event
        · have nobody : redeemer? market log = none := by
            unfold redeemer?
            split
            · rename_i concerns
              split
              · rename_i event
                exact absurd ⟨_, _, _, concerns, event⟩ redemption
              · rfl
            · rfl
          rw [nobody, Option.toList_none, List.append_nil]
          cases event : log.event with
          | seedRedeemed marketId creator amount =>
              have nothing : logEntries register.verdicts.find? log = [] := by
                unfold logEntries
                cases log.kind <;> simp [engineEntries, resolverEntries, event]
              change (registerJournal.replay (logEntries register.verdicts.find? log)
                register).Tells market verdict redeemed
              rw [nothing]
              exact tells
          | redeemed marketId account amount =>
              refine tells_replay tells (spares_logEntries tells.known fun concerns _ => ?_)
              exact absurd ⟨marketId, account, amount, concerns, event⟩ redemption
          | _ =>
              refine tells_replay tells (spares_logEntries tells.known fun concerns moves => ?_)
              have redeems := settling log List.mem_cons_self concerns moves
              rw [event] at redeems
              cases redeems
      have later := ih first others
      have joined : (redeemer? market log).toList ++ redeemers market rest =
          redeemers market (log :: rest) := by
        cases own : redeemer? market log <;> simp [redeemers, own]
      rwa [List.append_assoc, joined] at later

/-! ## The portfolio -/

/-- What the portfolio displays a position at, if it can be computed. -/
def displayedValue (index : Nat) (p : Position) (row : Market) : Option Int :=
  match PositionsService.markToMarket index p row row.outcomes[index]? with
  | .ok (some text) => JsString.parseBigInt text
  | _ => none

/-- The market's positions that are not marked redeemed. -/
def openPositions (market : MarketKey) (db : Database) : List (PositionKey × Position) :=
  db.positions.rows.filter fun p => p.1.marketRef = market ∧ !p.2.redeemed

/-- The sum the portfolio displays over the market's positions that are not marked
redeemed, if every one can be displayed. -/
def displayedWinnings (market : MarketKey) (db : Database) : Option Int := do
  let row ← db.markets.find? market
  let values ← (openPositions market db).mapM fun p => displayedValue p.1.outcomeIndex p.2 row
  return values.sum

/-- **Backing.** The market's pot is the sum the portfolio displays and the seed that
is not redeemed. -/
def Backed (market : MarketKey) (seed : Nat) (settlement : List NormalizedLog) (db : Database) :
    Prop :=
  ∃ row winnings, db.markets.find? market = some row ∧
    displayedWinnings market db = some winnings ∧ row.pot = winnings + seedLeft market seed settlement

/-- A position of a resolved market is displayed at its winning shares, unless its
shares print in exponential notation. -/
private theorem displayedValue_resolved {row : Market} (p : Position)
    (resolved : row.status = .resolved) (won : row.winningOutcomeId = some winner) :
    displayedValue index p row =
      if p.shares.natAbs < 10 ^ 21 then some (if index = winner then p.shares else 0) else none := by
  have zero : JsString.parseBigInt (JsString.ascii "0") = some 0 :=
    JsString.parseBigInt_ofInt 0
  unfold displayedValue PositionsService.markToMarket bigIntOf
  rw [JsString.parseBigInt_decimalToString]
  by_cases small : p.shares.natAbs < 10 ^ 21
  · rw [if_pos small, if_pos small]
    by_cases nothing : p.shares = 0
    · simp [bind, Except.bind, pure, Except.pure, nothing, zero]
    · by_cases wins : index = winner
      · simp [bind, Except.bind, pure, Except.pure, nothing, resolved, won, wins,
          JsString.parseBigInt_ofInt]
      · simp [bind, Except.bind, pure, Except.pure, nothing, resolved, won, wins, Ne.symm wins,
          zero]
  · rw [if_neg small, if_neg small]
    rfl

/-- Reading every element of a list, when some cannot be read. -/
private theorem mapM_readable {α β : Type} (readable : α → Prop) [DecidablePred readable]
    (value : α → β) (items : List α) :
    (items.mapM fun item => if readable item then some (value item) else none) =
      if ∀ item ∈ items, readable item then some (items.map value) else none := by
  induction items with
  | nil => simp
  | cons item rest ih =>
      rw [List.mapM_cons, ih]
      by_cases here : readable item
      · simp only [here, ↓reduceIte, List.forall_mem_cons, true_and, List.map_cons]
        split <;> rfl
      · simp [here]

/-- The winning shares of the open positions are the shares of the winning outcome
held outside the redeemers. -/
private theorem sum_openPositions {db : Database} {members : List JsString}
    (told : ∀ p ∈ db.positions.rows, p.1.marketRef = market →
      (p.2.redeemed = true ↔ p.1.account ∈ members)) :
    ((openPositions market db).map fun p =>
        if p.1.outcomeIndex = winner then p.2.shares else 0).sum =
      db.positions.total (isShareOf market winner fun holder => holder ∉ members)
        Position.shares := by
  unfold openPositions Table.total
  generalize db.positions.rows = rows at told
  induction rows with
  | nil => rfl
  | cons p rest ih =>
      have first := told p List.mem_cons_self
      have others := ih fun other member => told other (List.mem_cons_of_mem _ member)
      rw [List.filter_cons, List.filter_cons]
      by_cases about : p.1.marketRef = market
      · by_cases inside : p.1.account ∈ members
        · have marked := (first about).mpr inside
          simpa [isShareOf, about, inside, marked] using others
        · have unmarked : p.2.redeemed = false := by
            rw [Bool.eq_false_iff]
            exact fun marked => inside ((first about).mp marked)
          by_cases wins : p.1.outcomeIndex = winner
          · simpa [isShareOf, about, inside, unmarked, wins] using others
          · simpa [isShareOf, about, inside, unmarked, wins] using others
      · simpa [isShareOf, about] using others

/-! ## Runs -/

variable {ext : Externals} {start final : Database}

/-- The shares after the whole life of the market are those its trades moved. -/
private theorem held_of_settlesTo
    (settles : SettlesTo market a winner owed surplus creation resolution trades settlement)
    (unknown : start.markets.find? market = none)
    (noPositions : ∀ key : PositionKey, key.marketRef = market → start.positions.find? key = none)
    (run : Processed ext start (creation :: trades ++ resolution :: settlement) final)
    (inside : index < a.outcomeCount) (who : JsString → Bool) :
    final.positions.total (isShareOf market index who) Position.shares =
      sharesHeld market index who trades := by
  have still : ∀ log ∈ resolution :: settlement, log.concerns market →
      log.event.trades = false := by
    intro log member concerns
    rcases List.mem_cons.mp member with rfl | settling
    · obtain ⟨marketId, event⟩ := settles.resolved
      rw [event]
      rfl
    · have redeems := settles.settling log settling concerns
      cases event : log.event with
      | bought _ | sold _ | shorted _ =>
          rw [event] at redeems
          cases redeems rfl
      | _ => rfl
  have opened : SharesTracked market a.seedPerOutcome a.outcomeCount []
      (start.ledger.applyLogs [creation]) :=
    sharesTracked_created (by simp [Database.ledger, unknown])
      (fun key same => by simp [Database.ledger, noPositions key same]) settles.creates
      settles.created
  have tracked := opened.run
    (neverOversells_append settles.neverOversells (neverOversells_of_still still))
  have reached : (start.ledger.applyLogs [creation]).applyLogs
      (trades ++ resolution :: settlement) = final.ledger := run.ledger.symm
  rw [reached, List.nil_append] at tracked
  have held := tracked.held index inside who
  rw [sharesHeld, List.map_append, List.sum_append] at held
  have later : ((resolution :: settlement).map (sharesMoved market index who)).sum = 0 :=
    sharesHeld_of_still who still
  rw [later, add_zero] at held
  rw [sharesHeld, ← held]
  simp only [Ledger.held, Database.ledger, Table.total_map]
  rfl

/-- **What the market owes.** After the resolution the pot is the winning shares of
the accounts that have not redeemed and the seed that is not redeemed. -/
private theorem pot_settled
    (settles : SettlesTo market a winner owed surplus creation resolution trades settlement)
    (unknown : start.markets.find? market = none)
    (noPositions : ∀ key : PositionKey, key.marketRef = market → start.positions.find? key = none)
    (run : Processed ext start (creation :: trades ++ resolution :: settlement) final) :
    (final.markets.find? market).map Market.pot =
      some (sharesHeld market winner (fun holder => holder ∉ redeemers market settlement) trades +
        seedLeft market a.seedPerOutcome settlement) := by
  have opened : SharesTracked market a.seedPerOutcome a.outcomeCount []
      (start.ledger.applyLogs [creation]) :=
    sharesTracked_created (by simp [Database.ledger, unknown])
      (fun key same => by simp [Database.ledger, noPositions key same]) settles.creates
      settles.created
  obtain ⟨book, known, -⟩ := Option.map_eq_some_iff.mp (opened.run settles.neverOversells).known
  obtain ⟨marketId, event⟩ := settles.resolved
  have resolved := pot?_resolved known settles.resolves event
  have pot := pot?_settling resolved settles.settling
  have reached : (((start.ledger.applyLogs [creation]).applyLogs trades).applyLogs
      [resolution]).applyLogs settlement = final.ledger :=
    (Ledger.applyLogs_append (start.ledger.applyLogs [creation]) trades
      (resolution :: settlement)).symm.trans run.ledger.symm
  rw [reached, collateral_settlement settles.settling settles.paid, settles.owes] at pot
  have shown : final.ledger.pot? market = (final.markets.find? market).map Market.pot := by
    simp [Ledger.pot?, Database.ledger, Function.comp_def, Market.book]
  rw [← shown, pot, sharesHeld_notMem settles.once]
  congr 1
  unfold seedLeft
  rcases settles.seed with none | one
  · rw [none]
    simp
    ring
  · rw [one]
    simp
    ring

/-- What the rows of the market say after its life. -/
private theorem tells_of_settlesTo
    (settles : SettlesTo market a winner owed surplus creation resolution trades settlement)
    (unknown : start.markets.find? market = none)
    (noPositions : ∀ key : PositionKey, key.marketRef = market → start.positions.find? key = none)
    (run : Processed ext start (creation :: trades ++ resolution :: settlement) final) :
    final.register.Tells market ⟨a.outcomeCount, .resolved, some winner⟩
      (redeemers market settlement) := by
  have created : (start.register.applyLogs [creation]).Tells market
      ⟨a.outcomeCount, .trading, none⟩ [] :=
    tells_created (by simp [Database.register, unknown])
      (fun key same => by simp [Database.register, noPositions key same]) settles.creates
      settles.created
  obtain ⟨marketId, event⟩ := settles.resolved
  have settled := tells_settling
    (tells_resolved (tells_trading created settles.trading) settles.resolves event)
    settles.settling
  rw [run.register, List.cons_append, ← List.singleton_append, Register.applyLogs_append,
    Register.applyLogs_append]
  exact settled

/-- The shares under a name are those of its row. -/
private theorem total_ofName (db : Database) (name : JsString) :
    db.positions.total (isShareOf market index (· = name)) Position.shares =
      ((db.positions.find? ⟨market, name, index⟩).map Position.shares).getD 0 := by
  rw [← Table.total_single]
  congr 1
  funext key
  obtain ⟨ref, own, outcome⟩ := key
  rw [Bool.eq_iff_iff, isShareOf_iff]
  simp only [decide_eq_true_eq, PositionKey.mk.injEq]
  tauto

/-- The rows of the market say the outcomes it has and who has redeemed. -/
private theorem told_of_tells {db : Database}
    (tells : db.register.Tells market verdict redeemed) {p : PositionKey × Position}
    (member : p ∈ db.positions.rows) (about : p.1.marketRef = market) :
    p.1.outcomeIndex < verdict.outcomeCount ∧ (p.2.redeemed = true ↔ p.1.account ∈ redeemed) := by
  refine tells.flags p.1 p.2.redeemed about ?_
  have present := (db.positions.mem_rows_iff p.1 p.2).mp member
  simp [Database.register, present]

/-- The pot is backed exactly when every open position can be displayed. -/
private theorem backed_iff_open
    (settles : SettlesTo market a winner owed surplus creation resolution trades settlement)
    (unknown : start.markets.find? market = none)
    (noPositions : ∀ key : PositionKey, key.marketRef = market → start.positions.find? key = none)
    (run : Processed ext start (creation :: trades ++ resolution :: settlement) final) :
    Backed market a.seedPerOutcome settlement final ↔
      ∀ p ∈ openPositions market final, p.2.shares.natAbs < 10 ^ 21 := by
  have tells := tells_of_settlesTo settles unknown noPositions run
  have pot := pot_settled settles unknown noPositions run
  obtain ⟨row, found, shown⟩ : ∃ row, final.markets.find? market = some row ∧
      row.verdict = ⟨a.outcomeCount, .resolved, some winner⟩ := by
    have known := tells.known
    simp only [Database.register, Table.find?_map] at known
    exact Option.map_eq_some_iff.mp known
  have resolved : row.status = .resolved := congrArg Verdict.status shown
  have won : row.winningOutcomeId = some winner := congrArg Verdict.winningOutcomeId shown
  have displayed : displayedWinnings market final =
      if ∀ p ∈ openPositions market final, p.2.shares.natAbs < 10 ^ 21 then
        some (sharesHeld market winner (fun holder => holder ∉ redeemers market settlement) trades)
      else none := by
    have values := mapM_readable (fun p : PositionKey × Position => p.2.shares.natAbs < 10 ^ 21)
      (fun p => if p.1.outcomeIndex = winner then p.2.shares else 0) (openPositions market final)
    have value : ∀ p : PositionKey × Position, displayedValue p.1.outcomeIndex p.2 row =
        if p.2.shares.natAbs < 10 ^ 21 then
          some (if p.1.outcomeIndex = winner then p.2.shares else 0)
        else none := fun p => displayedValue_resolved p.2 resolved won
    unfold displayedWinnings
    simp only [found, Option.bind_eq_bind, Option.bind_some, value, values]
    rw [← held_of_settlesTo settles unknown noPositions run settles.exists_,
      ← sum_openPositions fun p member about => (told_of_tells tells member about).2]
    split <;> rfl
  rw [found, Option.map_some] at pot
  constructor
  · rintro ⟨-, winnings, -, some_, -⟩
    by_contra unreadable
    rw [displayed, if_neg unreadable] at some_
    cases some_
  · intro readable
    rw [if_pos readable] at displayed
    exact ⟨row, _, found, displayed, Option.some.inj pot⟩

/-- **Displayed winnings are backed while they can be read.** In every run of a market
that is created, traded in, resolved and redeemed from, and after every log of its
settlement, the pot backs what the portfolio displays exactly when no account that has
not redeemed is left with 10^21 shares or more of an outcome. -/
theorem backed_iff_readable
    (settles : SettlesTo market a winner owed surplus creation resolution trades settlement)
    (unknown : start.markets.find? market = none)
    (noPositions : ∀ key : PositionKey, key.marketRef = market → start.positions.find? key = none)
    (run : Processed ext start (creation :: trades ++ resolution :: settlement) final) :
    Backed market a.seedPerOutcome settlement final ↔
      ∀ account : JsString, account.toLowerCase ∉ redeemers market settlement →
        ∀ index < a.outcomeCount, netShares market index account trades < 10 ^ 21 := by
  rw [backed_iff_open settles unknown noPositions run]
  have tells := tells_of_settlesTo settles unknown noPositions run
  have shares : ∀ index < a.outcomeCount, ∀ name : JsString,
      ((final.positions.find? ⟨market, name, index⟩).map Position.shares).getD 0 =
        sharesHeld market index (· = name) trades := fun index inside name => by
    rw [← total_ofName]
    exact held_of_settlesTo settles unknown noPositions run inside _
  constructor
  · intro readable account waiting index inside
    rw [netShares, ← shares index inside]
    cases present : final.positions.find? ⟨market, account.toLowerCase, index⟩ with
    | none => exact (by decide : (0 : Int) < 10 ^ 21)
    | some p =>
        have member := (final.positions.mem_rows_iff _ p).mpr present
        have unmarked : p.redeemed = false := by
          rw [Bool.eq_false_iff]
          exact fun marked => waiting ((told_of_tells tells member rfl).2.mp marked)
        have small := readable _ (List.mem_filter.mpr ⟨member, by simp [unmarked]⟩)
        rw [Option.map_some, Option.getD_some]
        dsimp only at small
        omega
  · rintro bounded ⟨⟨ref, name, index⟩, p⟩ open_
    obtain ⟨member, selected⟩ := List.mem_filter.mp open_
    simp only [Bool.not_eq_true', decide_eq_true_eq] at selected
    obtain ⟨rfl, unmarked⟩ := selected
    obtain ⟨inside, told⟩ := told_of_tells tells member rfl
    have held := shares index inside name
    rw [(final.positions.mem_rows_iff _ p).mp member, Option.map_some, Option.getD_some] at held
    by_cases listed : ∃ account : JsString, name = account.toLowerCase
    · obtain ⟨account, rfl⟩ := listed
      have waiting : account.toLowerCase ∉ redeemers ref settlement := by
        intro redeemed
        rw [told.mpr redeemed] at unmarked
        cases unmarked
      have below := bounded account waiting index inside
      have above : 0 ≤ netShares ref index account ([] ++ trades) :=
        netShares_nonneg (fun _ _ => le_rfl) settles.neverOversells account index
      rw [List.nil_append] at above
      rw [netShares, ← held] at below above
      dsimp only
      omega
    · rw [sharesHeld_of_unlisted fun account same => listed ⟨account, same⟩] at held
      simp [held]

end

namespace Sample

/-- Alice's purchase of outcome 0. -/
def purchase (shares : Nat) : NormalizedLog := log 1 (.bought (trade 0 shares 20))

/-- The resolution to outcome 0, which owes Alice's shares and the seed. -/
def resolution (shares : Nat) : NormalizedLog := log 2 (.marketResolved 1 0 (100 + shares) 0)

/-- The database after the market's resolution, before anyone redeems. -/
def resolved (shares : Nat) : Database :=
  after [created 2, purchase shares, resolution shares] .empty

/-- What the creation of market 1 says. -/
def creation : MarketCreated := ⟨1, [], [], [], 2, 0, 9, 1, 1, 100, 100, [], []⟩

/-- The life of market 1, in which Alice buys shares of outcome 0 and it wins. -/
theorem settlesTo_purchase (shares : Nat) :
    SettlesTo market creation 0 (100 + shares) 0 (created 2) (resolution shares)
      [purchase shares] [] := by
  have own : (purchase shares).marketKey 1 = market := rfl
  have moved : sharesMoved market 0 (fun _ => true) (purchase shares) = shares := by
    simp only [purchase, log, trade] at own
    simp [sharesMoved, purchase, log, trade, own]
  exact {
    creates := ⟨rfl, rfl⟩
    created := rfl
    trading := by
      intro log member _ _
      rw [List.mem_singleton.mp member]
      rfl
    neverOversells := ⟨trivial, trivial⟩
    resolves := ⟨rfl, rfl⟩
    resolved := ⟨1, rfl⟩
    exists_ := by decide
    owes := by
      simp [sharesHeld, moved, creation]
    settling := by simp
    once := List.nodup_nil
    paid := by simp
    seed := .inl rfl }

end Sample

open Sample in
/-- Alice holds 9 winning shares: the pot of 109 backs them and the seed. -/
theorem backed_of_smallPosition : Backed Sample.market 100 [] (resolved 9) := by
  have run : Processed externals .empty (created 2 :: [purchase 9] ++ resolution 9 :: [])
      (resolved 9) := .of_stopped outside 400 (by decide +kernel)
  refine (backed_iff_readable (settlesTo_purchase 9) rfl (fun _ _ => rfl) run).mpr
    fun account _ index _ => ?_
  have few : netShares Sample.market index account [purchase 9] ≤ 9 := by
    simp only [netShares, sharesHeld, List.map_singleton, List.sum_singleton, sharesMoved,
      purchase, log, trade]
    split <;> omega
  omega

open Sample in
/-- **A large position is not displayed.** Alice holds 10^21 winning shares of market 1,
a thousand tokens of 18 decimals, and the portfolio cannot display them. -/
theorem largePosition_unbacked :
    SettlesTo Sample.market creation 0 (100 + 10 ^ 21) 0 (created 2) (resolution (10 ^ 21))
        [purchase (10 ^ 21)] [] ∧
      Processed externals .empty [created 2, purchase (10 ^ 21), resolution (10 ^ 21)]
        (resolved (10 ^ 21)) ∧
      ¬ Backed Sample.market 100 [] (resolved (10 ^ 21)) := by
  refine ⟨settlesTo_purchase _, .of_stopped outside 400 (by decide +kernel), ?_⟩
  rintro ⟨row, winnings, -, displayed, -⟩
  have unread : displayedWinnings Sample.market (resolved (10 ^ 21)) = none := by decide +kernel
  rw [unread] at displayed
  cases displayed

end Numera
