import Mathlib.Tactic.Linarith
import Numera.Chain.ShareConservation

/-! # The cost basis of a position

A sale takes off a position's basis the fraction of it that the shares sold are of the shares
held, rounded down. The rounding is to the holder's favour and less than one unit a sale
(`Holding.Sound.kept_sell`), and so it is over any number of sales (`Holding.Kept`), whatever
else is bought and sold before them.
-/

namespace Numera

open Async (Reaches)

namespace Holding

/-! ## One leg -/

/-- No shares are owed, and shares that are gone left no basis behind. -/
structure Sound (holding : Holding) : Prop where
  shares : 0 ≤ holding.shares
  costBasis : 0 ≤ holding.costBasis
  spent : holding.shares = 0 → holding.costBasis = 0

/-- What some number of sales keep of a holding's basis: at least the fraction of it that the
remaining shares are, and not a whole unit a sale more. -/
structure Kept (sales : Nat) (before after : Holding) : Prop where
  shares : after.shares ≤ before.shares
  atLeast : before.costBasis * after.shares ≤ after.costBasis * before.shares
  atMost : 0 < after.shares → after.costBasis * before.shares ≤
    before.costBasis * after.shares + sales * (before.shares - 1)

variable {holding middle after : Holding} {shares : Nat} {amount : Int}

theorem Sound.buy (sound : holding.Sound) (some : 1 ≤ shares) (paid : 0 ≤ amount) :
    (holding.buy shares amount).Sound := by
  obtain ⟨held, basis, -⟩ := sound
  refine ⟨?_, ?_, fun gone => ?_⟩
  · simp only [Holding.buy]
    omega
  · simp only [Holding.buy]
    omega
  · simp only [Holding.buy] at gone
    omega

theorem Sound.sold (sound : holding.Sound) (shares : Nat) :
    0 ≤ holding.sold shares ∧ holding.sold shares ≤ holding.shares := by
  have held := sound.shares
  unfold Holding.sold
  split <;> omega

/-- The basis removed is the sold fraction of it, rounded down. -/
theorem Sound.costRemoved (sound : holding.Sound) (held : 0 < holding.shares) (shares : Nat) :
    holding.costRemoved shares * holding.shares ≤ holding.costBasis * holding.sold shares ∧
      holding.costBasis * holding.sold shares <
        holding.costRemoved shares * holding.shares + holding.shares := by
  have product : 0 ≤ holding.costBasis * holding.sold shares :=
    Int.mul_nonneg sound.costBasis (sound.sold shares).1
  have quotient : holding.costRemoved shares =
      holding.costBasis * holding.sold shares / holding.shares := by
    rw [Holding.costRemoved, if_pos held, Int.tdiv_eq_ediv_of_nonneg product]
  rw [quotient]
  refine ⟨Int.ediv_mul_le _ held.ne', ?_⟩
  have next := Int.lt_ediv_add_one_mul_self (holding.costBasis * holding.sold shares) held
  rwa [Int.add_mul, Int.one_mul] at next

theorem Sound.sell_of_none (sound : holding.Sound) (none : holding.shares = 0) (shares : Nat)
    (amount : Int) : (holding.sell shares amount).shares = 0 ∧
      (holding.sell shares amount).costBasis = 0 := by
  have basis := sound.spent none
  have sold := sound.sold shares
  simp only [Holding.sell, Holding.costRemoved, none, basis]
  omega

theorem Sound.sell (sound : holding.Sound) (shares : Nat) (amount : Int) :
    (holding.sell shares amount).Sound := by
  obtain none | held : holding.shares = 0 ∨ 0 < holding.shares := by
    have := sound.shares
    omega
  · obtain ⟨noShares, noBasis⟩ := sound.sell_of_none none shares amount
    exact ⟨noShares.ge, noBasis.ge, fun _ => noBasis⟩
  · obtain ⟨nonneg, bounded⟩ := sound.sold shares
    obtain ⟨floor, ceiling⟩ := sound.costRemoved held shares
    have removed : holding.costRemoved shares ≤ holding.costBasis := by
      have most : holding.costBasis * holding.sold shares ≤ holding.costBasis * holding.shares :=
        Int.mul_le_mul_of_nonneg_left bounded sound.costBasis
      exact Int.le_of_mul_le_mul_right (floor.trans most) held
    refine ⟨?_, ?_, fun gone => ?_⟩
    · simp only [Holding.sell]
      omega
    · simp only [Holding.sell]
      omega
    · -- All shares are sold, so the fraction is the whole and the division is exact.
      simp only [Holding.sell] at gone ⊢
      have all : holding.sold shares = holding.shares := by omega
      rw [all] at ceiling
      have whole : holding.costBasis < holding.costRemoved shares + 1 := by
        refine Int.lt_of_mul_lt_mul_right ?_ held.le
        rw [Int.add_mul, Int.one_mul]
        exact ceiling
      omega

/-! ## Runs of sales -/

theorem Kept.refl (holding : Holding) : Kept 0 holding holding :=
  ⟨le_rfl, le_rfl, fun _ => by simp⟩

/-- A sale more can only widen the bound. -/
theorem Kept.succ {sales : Nat} (kept : Kept sales holding after) :
    Kept (sales + 1) holding after := by
  refine ⟨kept.shares, kept.atLeast, fun held => (kept.atMost held).trans ?_⟩
  have shares := kept.shares
  have unit : 0 ≤ holding.shares - 1 := by omega
  push_cast
  linarith

/-- One sale. -/
theorem Sound.kept_sell (sound : holding.Sound) (shares : Nat) (amount : Int) :
    Kept 1 holding (holding.sell shares amount) := by
  obtain none | held : holding.shares = 0 ∨ 0 < holding.shares := by
    have := sound.shares
    omega
  · obtain ⟨noShares, noBasis⟩ := sound.sell_of_none none shares amount
    exact ⟨by omega, by simp [noShares, noBasis], fun some => by omega⟩
  · obtain ⟨nonneg, bounded⟩ := sound.sold shares
    obtain ⟨floor, ceiling⟩ := sound.costRemoved held shares
    refine ⟨?_, ?_, fun _ => ?_⟩
    · simp only [Holding.sell]
      omega
    · simp only [Holding.sell]
      linarith
    · simp only [Holding.sell]
      push_cast
      linarith

/-- Another sale, after some number of them. -/
theorem Kept.sell {sales : Nat} (kept : Kept sales holding middle) (sound : middle.Sound)
    (shares : Nat) (amount : Int) : Kept (sales + 1) holding (middle.sell shares amount) := by
  have next := sound.kept_sell shares amount
  have last := sound.sell shares amount
  obtain none | held : middle.shares = 0 ∨ 0 < middle.shares := by
    have := sound.shares
    omega
  · obtain ⟨noShares, noBasis⟩ := sound.sell_of_none none shares amount
    have shares := kept.shares
    exact ⟨by omega, by simp [noShares, noBasis], fun some => by omega⟩
  · have fewer := kept.shares
    refine ⟨next.shares.trans fewer, ?_, fun remain => ?_⟩
    · refine Int.le_of_mul_le_mul_right ?_ held
      calc holding.costBasis * (middle.sell shares amount).shares * middle.shares
          = holding.costBasis * middle.shares * (middle.sell shares amount).shares := by ring
        _ ≤ middle.costBasis * holding.shares * (middle.sell shares amount).shares :=
          Int.mul_le_mul_of_nonneg_right kept.atLeast last.shares
        _ = middle.costBasis * (middle.sell shares amount).shares * holding.shares := by ring
        _ ≤ (middle.sell shares amount).costBasis * middle.shares * holding.shares :=
          Int.mul_le_mul_of_nonneg_right next.atLeast (by omega)
        _ = (middle.sell shares amount).costBasis * holding.shares * middle.shares := by ring
    · have before := kept.atMost held
      have step := next.atMost remain
      have rounding : 0 ≤ (sales : Int) * (holding.shares - 1) :=
        Int.mul_nonneg (Int.natCast_nonneg sales) (by omega)
      have rest := last.shares
      refine Int.le_of_mul_le_mul_right ?_ held
      calc (middle.sell shares amount).costBasis * holding.shares * middle.shares
          = (middle.sell shares amount).costBasis * middle.shares * holding.shares := by ring
        _ ≤ (middle.costBasis * (middle.sell shares amount).shares + (1 : Nat) * (middle.shares - 1)) *
            holding.shares := Int.mul_le_mul_of_nonneg_right step (by omega)
        _ = middle.costBasis * holding.shares * (middle.sell shares amount).shares +
            (middle.shares * holding.shares - holding.shares) := by
          push_cast
          ring
        _ ≤ (holding.costBasis * middle.shares + sales * (holding.shares - 1)) *
              (middle.sell shares amount).shares +
            (middle.shares * holding.shares - middle.shares) := by
          refine Int.add_le_add (Int.mul_le_mul_of_nonneg_right before rest) ?_
          omega
        _ = holding.costBasis * (middle.sell shares amount).shares * middle.shares +
              sales * (holding.shares - 1) * (middle.sell shares amount).shares +
            (holding.shares - 1) * middle.shares := by ring
        _ ≤ holding.costBasis * (middle.sell shares amount).shares * middle.shares +
              sales * (holding.shares - 1) * middle.shares +
            (holding.shares - 1) * middle.shares := by
          refine Int.add_le_add_right (Int.add_le_add_left ?_ _) _
          exact Int.mul_le_mul_of_nonneg_left next.shares rounding
        _ = (holding.costBasis * (middle.sell shares amount).shares +
              (sales + 1 : Nat) * (holding.shares - 1)) * middle.shares := by
          push_cast
          ring

end Holding

/-! ## Trading one position -/

/-- A trade of one outcome. -/
inductive Leg where
  | buy (shares amount : Nat)
  | sell (shares amount : Nat)
  deriving DecidableEq

namespace Leg

def isSale : Leg → Bool
  | buy _ _ => false
  | sell _ _ => true

/-- A purchase of at least one share, or a sale. -/
def proper : Leg → Bool
  | buy shares _ => 1 ≤ shares
  | sell _ _ => true

/-- `updatePosition` on the leg. -/
def update (market : MarketKey) (account : JsString) (index : Nat) : Leg → Chain Unit
  | buy shares amount =>
      EventProcessor.updatePosition market account index .buy shares amount
  | sell shares amount =>
      EventProcessor.updatePosition market account index .sell shares amount

def write (key : PositionKey) : Leg → Write
  | buy shares amount => .buy key shares amount
  | sell shares amount => .sell key shares amount

/-- The holding after the leg. -/
def change : Leg → Holding → Holding
  | buy shares amount => Holding.buy shares amount
  | sell shares amount => Holding.sell shares amount

end Leg

/-- The holding of a position, empty without a row. -/
def Ledger.holding (key : PositionKey) (ledger : Ledger) : Holding :=
  (ledger.holdings.find? key).getD ⟨0, 0, 0⟩

theorem holding_write (key : PositionKey) (leg : Leg) (ledger : Ledger) :
    ((leg.write key).apply ledger).holding key = leg.change (ledger.holding key) := by
  cases leg with
  | buy shares amount =>
      simp only [Leg.write, Leg.change, Write.apply, Ledger.holding, Table.find?_upsert, ↓reduceIte,
        Option.getD_some]
      cases ledger.holdings.find? key <;> simp [Holding.buy]
  | sell shares amount =>
      simp only [Leg.write, Leg.change, Write.apply, Ledger.holding, Table.find?_upsert, ↓reduceIte,
        Option.getD_some]
      cases ledger.holdings.find? key <;>
        simp [Holding.sell, Holding.sold, Holding.costRemoved]

theorem Holding.Sound.change {holding : Holding} {leg : Leg} (sound : holding.Sound)
    (proper : leg.proper) : (leg.change holding).Sound := by
  cases leg with
  | buy shares amount =>
      exact sound.buy (of_decide_eq_true proper) (Int.natCast_nonneg amount)
  | sell shares amount => exact sound.sell shares amount

variable (market : MarketKey) (account : JsString) (index : Nat)

/-- The legs are traded one after another on an account's position. A leg that fails ends like
any other: its calls may have been refused, or performed and their answers lost. -/
inductive Traded : Database → List Leg → Database → Prop where
  | nil (db : Database) : Traded db [] db
  | leg {db middle final : Database} {leg : Leg} {rest : List Leg} {records : List Call}
      {outcome : Except Failure Unit}
      (ended : Reaches Failing (leg.update market account index) db records (.done outcome) middle)
      (later : Traded middle rest final) : Traded db (leg :: rest) final

variable {market account index} {db start middle final : Database} {legs sales : List Leg}
  {key : PositionKey}

theorem keeps_update (leg : Leg) :
    Journal.Keeps ledgerJournal Failing (leg.update market account index) (fun _ _ => True) db
      [leg.write ⟨market, account.toLowerCase, index⟩] := by
  cases leg with
  | buy shares amount => exact keeps_buy market account index shares amount
  | sell shares amount => exact keeps_sell market account index shares amount

/-- **One leg.** However it ends, the holding is as before it or as after it. -/
theorem holding_update {leg : Leg} {records : List Call} {outcome : Except Failure Unit}
    (named : key = ⟨market, account.toLowerCase, index⟩)
    (ended : Reaches Failing (leg.update market account index) db records (.done outcome) final) :
    final.ledger.holding key = db.ledger.holding key ∨
      final.ledger.holding key = leg.change (db.ledger.holding key) := by
  subst named
  obtain ⟨performed, rest, split, moved, -, -⟩ := (keeps_update leg).reaches ended
  change final.ledger = _ at moved
  cases performed with
  | nil => exact .inl (by rw [moved]; rfl)
  | cons write writes =>
      obtain ⟨rfl, none⟩ := List.cons.inj split
      obtain ⟨rfl, -⟩ := List.append_eq_nil_iff.mp none.symm
      rw [moved]
      exact .inr (holding_write _ leg db.ledger)

/-- Trading keeps a holding sound. -/
theorem Traded.sound (traded : Traded market account index db legs final)
    (named : key = ⟨market, account.toLowerCase, index⟩) (proper : ∀ leg ∈ legs, leg.proper)
    (sound : (db.ledger.holding key).Sound) : (final.ledger.holding key).Sound := by
  induction traded with
  | nil db => exact sound
  | leg ended _ ih =>
      refine ih (fun leg member => proper leg (List.mem_cons_of_mem _ member)) ?_
      rcases holding_update named ended with same | changed
      · rw [same]
        exact sound
      · rw [changed]
        exact sound.change (proper _ List.mem_cons_self)

/-- Sales keep a holding's basis, as they add to those that did so before. -/
theorem Traded.kept {origin : Holding} {earlier : Nat}
    (traded : Traded market account index db sales final)
    (named : key = ⟨market, account.toLowerCase, index⟩) (sells : ∀ leg ∈ sales, leg.isSale)
    (sound : (db.ledger.holding key).Sound)
    (kept : Holding.Kept earlier origin (db.ledger.holding key)) :
    Holding.Kept (earlier + sales.length) origin (final.ledger.holding key) := by
  induction traded generalizing earlier with
  | nil db => exact kept
  | @leg db middle final leg rest records outcome ended _ ih =>
      have others : ∀ leg ∈ rest, leg.isSale := fun leg member =>
        sells leg (List.mem_cons_of_mem _ member)
      rw [List.length_cons, Nat.add_comm rest.length, ← Nat.add_assoc]
      rcases holding_update named ended with same | changed
      · exact ih others (by rw [same]; exact sound) (by rw [same]; exact kept.succ)
      · cases leg with
        | buy shares amount => cases sells _ List.mem_cons_self
        | sell shares amount =>
            refine ih others ?_ ?_
            · rw [changed]
              exact sound.sell shares amount
            · rw [changed]
              exact kept.sell sound shares amount

/-! ## The position's columns -/

/-- The cost basis of a position, none without a row. -/
def positionBasis (market : MarketKey) (account : JsString) (index : Nat) (db : Database) : Int :=
  ((db.positions.find? ⟨market, account.toLowerCase, index⟩).map Position.costBasis).getD 0

theorem holding_columns (db : Database) :
    (db.ledger.holding ⟨market, account.toLowerCase, index⟩).shares =
        positionShares market account index db ∧
      (db.ledger.holding ⟨market, account.toLowerCase, index⟩).costBasis =
        positionBasis market account index db := by
  simp only [Ledger.holding, Database.ledger, Table.find?_map, positionShares, positionBasis]
  cases db.positions.find? ⟨market, account.toLowerCase, index⟩ <;> exact ⟨rfl, rfl⟩

/-- **The cost basis is sound.** After any trades of a position that was not there, what is held
and what was paid for it are not negative, and nothing was paid for nothing. Sales that follow
and leave some shares keep the average basis, and add less than one unit each to the rest. -/
theorem basis_sound
    (fresh : start.positions.find? ⟨market, account.toLowerCase, index⟩ = none)
    (proper : ∀ leg ∈ legs, leg.proper) (traded : Traded market account index start legs middle) :
    let S := positionShares market account index middle
    let C := positionBasis market account index middle
    (0 ≤ S ∧ 0 ≤ C ∧ (S = 0 → C = 0)) ∧
      ∀ sales final, sales ≠ [] → (∀ leg ∈ sales, leg.isSale) →
        Traded market account index middle sales final →
        let S' := positionShares market account index final
        let c := positionBasis market account index final
        0 < S' → C * S' ≤ c * S ∧ c * S < C * S' + sales.length * S := by
  intro S C
  have empty : (start.ledger.holding ⟨market, account.toLowerCase, index⟩).Sound := by
    simp only [Ledger.holding, Database.ledger, Table.find?_map, fresh]
    exact ⟨le_rfl, le_rfl, fun _ => rfl⟩
  have sound := traded.sound rfl proper empty
  obtain ⟨shares, basis⟩ := @holding_columns market account index middle
  refine ⟨?_, fun sales final some sells sold => ?_⟩
  · obtain ⟨held, paid, spent⟩ := sound
    rw [shares] at held spent
    rw [basis] at paid spent
    exact ⟨held, paid, spent⟩
  · intro S' c remain
    obtain ⟨sharesAfter, basisAfter⟩ := @holding_columns market account index final
    obtain ⟨fewer, atLeast, atMost⟩ := sold.kept rfl sells sound (.refl _)
    rw [shares, sharesAfter] at fewer
    rw [shares, sharesAfter, basis, basisAfter] at atLeast
    rw [shares, sharesAfter, basis, basisAfter, Nat.zero_add] at atMost
    have count : 0 < (sales.length : Int) := Int.natCast_pos.mpr (List.length_pos_iff.mpr some)
    have bound : (sales.length : Int) * (S - 1) < sales.length * S :=
      Int.mul_lt_mul_of_pos_left (by omega) count
    exact ⟨atLeast, Int.lt_of_le_of_lt (atMost remain) (Int.add_lt_add_left bound _)⟩

namespace Sample

/-- The legs traded on Alice's position in outcome 0, all calls performed and answered. -/
def traded : List Leg → Database → Database
  | [], db => db
  | leg :: rest, db =>
      traded rest (Async.stopped (respond outside) 10 (leg.update Sample.market alice 0) db).2

/-- A purchase of 3 for 10, and then 1 of them is sold. -/
def bought : Database := traded [.buy 3 10] .empty

end Sample

open Sample in
/-- The two shares that remain keep a basis of 7 out of 10. -/
theorem basis_of_oneSale :
    let S := positionShares Sample.market alice 0 bought
    let C := positionBasis Sample.market alice 0 bought
    let S' := positionShares Sample.market alice 0 (traded [.sell 1 5] bought)
    let c := positionBasis Sample.market alice 0 (traded [.sell 1 5] bought)
    (0 ≤ S ∧ 0 ≤ C ∧ (S = 0 → C = 0)) ∧ C * S' ≤ c * S ∧ c * S < C * S' + 1 * S := by
  have ended (leg : Leg) (db : Database) (returned : (Async.stopped (respond outside) 10
      (leg.update Sample.market alice 0) db).1.outcome? = some (.ok ())) :
      Traded Sample.market alice 0 db [leg] (traded [leg] db) := by
    have path := Failing.reaches_stopped outside 10 (leg.update Sample.market alice 0) db
    rw [Async.eq_done_of_outcome? returned] at path
    exact .leg path (.nil _)
  have purchase := ended (.buy 3 10) .empty (by decide +kernel)
  have sale := ended (.sell 1 5) bought (by decide +kernel)
  obtain ⟨sound, kept⟩ := basis_sound rfl (by decide) purchase
  exact ⟨sound, kept [.sell 1 5] _ (by decide) (by decide) sale (by decide +kernel)⟩

end Numera
