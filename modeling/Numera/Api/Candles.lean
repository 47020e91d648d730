import Numera.Api.Views
import Numera.Chain.Refinement

/-! # Traded and recorded volume

A price point has a column for the collateral traded in its sample, a second sample of one
second adds to it, and the candles serve its sums. What is written to it is decided by the
one caller of `recordPoint`, the refresh of the prices after a batch, and that always passes
zero. So the recorded volume never moves (`Processed.volumes`), and it is the traded volume
exactly where nothing was traded.
-/

namespace Numera

open Async (Reaches forEach)
open Journal (Keeps)

/-! ## The query of the candles -/

namespace PricesService

/-- A bucket aggregated from its points, which come in the order of their times. -/
def aggregate (bucket : Date) (points : List (Date × PricePoint)) : RawCandle :=
  let prices := points.map fun point => point.2.priceWad
  { bucket
    «open» := prices.head?.getD 0
    high := prices.max?.getD 0
    low := prices.min?.getD 0
    close := prices.getLast?.getD 0
    volume := (points.map fun point => point.2.volume).sum }

/-- The points of one outcome between two times, in the order of their own. -/
def pointsBetween (db : Database) (marketRef : MarketKey) (outcome : Nat) (start stop : Date) :
    List (Date × PricePoint) :=
  let rows := db.pricePoints.rows.filter fun row =>
    row.1.marketRef = marketRef ∧ row.1.outcomeIndex = outcome ∧
      start.ms ≤ row.1.time.ms ∧ row.1.time.ms ≤ stop.ms
  (rows.map fun row => (row.1.time, row.2)).insertionSort fun first second =>
    first.1.ms ≤ second.1.ms

/-- The rows the query of `candles` answers with, `timeBucket` being the database's
`time_bucket` of the interval. -/
def candleRows (timeBucket : Date → Date) (db : Database) (marketRef : MarketKey)
    (outcome : Nat) (start stop : Date) (limit : Nat) : List RawCandle :=
  let points := pointsBetween db marketRef outcome start stop
  let buckets := (points.map fun point => timeBucket point.1).dedup.insertionSort
    fun first second => first.ms ≤ second.ms
  (buckets.take limit).map fun bucket =>
    aggregate bucket (points.filter fun point => timeBucket point.1 = bucket)

/-- The volume that the candles of some outcomes show between two times. -/
def servedVolume (timeBucket : Date → Date) (db : Database) (marketRef : MarketKey)
    (outcomes : List Nat) (start stop : Date) (limit : Nat) : Int :=
  (outcomes.map fun outcome =>
    ((candleRows timeBucket db marketRef outcome start stop limit).map RawCandle.volume).sum).sum

end PricesService

/-- The volume recorded on the price points of a market. -/
def Database.recordedVolume (db : Database) (market : MarketKey) : Int :=
  db.pricePoints.total (fun key => key.marketRef = market) PricePoint.volume

/-- The collateral that a log trades on a market. -/
def NormalizedLog.volumeOn (market : MarketKey) (log : NormalizedLog) : Nat :=
  match log.kind, log.event with
  | .lsLmsr, .bought a | .lsLmsr, .sold a | .lsLmsr, .shorted a =>
      if log.marketKey a.marketId = market then a.amount else 0
  | _, _ => 0

/-- The collateral that some logs trade on a market. -/
def tradedVolume (market : MarketKey) (logs : List NormalizedLog) : Nat :=
  (logs.map fun log => log.volumeOn market).sum

theorem tradedVolume_eq_zero_iff (market : MarketKey) (logs : List NormalizedLog) :
    tradedVolume market logs = 0 ↔ ∀ log ∈ logs, log.volumeOn market = 0 := by
  rw [tradedVolume, List.sum_eq_zero_iff_forall_eq_nat]
  exact List.forall_mem_map

/-! ## Candles over all time -/

/-- Times and a limit that leave out no point of a market. -/
structure PricesService.AllTime (db : Database) (market : MarketKey) (start stop : Date)
    (limit : Nat) : Prop where
  within : ∀ row ∈ db.pricePoints.rows, row.1.marketRef = market →
    start.ms ≤ row.1.time.ms ∧ row.1.time.ms ≤ stop.ms
  enough : db.pricePoints.rows.length ≤ limit

namespace PricesService

variable {db : Database} {market : MarketKey} {start stop : Date} {limit : Nat}

/-- The candles of one outcome over all time show what its points have recorded. -/
theorem candleVolume_eq_total (timeBucket : Date → Date) (outcome : Nat)
    (all : AllTime db market start stop limit) :
    ((candleRows timeBucket db market outcome start stop limit).map RawCandle.volume).sum =
      db.pricePoints.total (fun key => key.marketRef = market ∧ key.outcomeIndex = outcome)
        PricePoint.volume := by
  let rows := db.pricePoints.rows.filter fun row => row.1.marketRef = market ∧
    row.1.outcomeIndex = outcome ∧ start.ms ≤ row.1.time.ms ∧ row.1.time.ms ≤ stop.ms
  let points := pointsBetween db market outcome start stop
  let buckets := (points.map fun point => timeBucket point.1).dedup.insertionSort
    fun first second => first.ms ≤ second.ms
  have pointsPerm : points.Perm (rows.map fun row => (row.1.time, row.2)) :=
    List.perm_insertionSort _ _
  have bucketsPerm : buckets.Perm (points.map fun point => timeBucket point.1).dedup :=
    List.perm_insertionSort _ _
  have noneCut : buckets.take limit = buckets := by
    refine List.take_of_length_le ?_
    calc buckets.length = (points.map fun point => timeBucket point.1).dedup.length :=
          bucketsPerm.length_eq
      _ ≤ points.length := by
          rw [← List.length_map (f := fun point : Date × PricePoint => timeBucket point.1)]
          exact (List.dedup_sublist _).length_le
      _ = rows.length := by rw [pointsPerm.length_eq, List.length_map]
      _ ≤ limit := (List.length_filter_le _ _).trans all.enough
  have grouped : ∀ point ∈ points, decide (timeBucket point.1 ∈ buckets) = true := by
    intro point member
    refine decide_eq_true (bucketsPerm.mem_iff.mpr (List.mem_dedup.mpr ?_))
    exact List.mem_map_of_mem member
  have selected : rows = db.pricePoints.rows.filter fun row =>
      decide (row.1.marketRef = market ∧ row.1.outcomeIndex = outcome) := by
    refine List.filter_congr fun row member => decide_eq_decide.mpr ?_
    constructor
    · rintro ⟨own, index, -, -⟩
      exact ⟨own, index⟩
    · rintro ⟨own, index⟩
      exact ⟨own, index, all.within row member own⟩
  calc ((candleRows timeBucket db market outcome start stop limit).map RawCandle.volume).sum
      = (buckets.map fun bucket => ((points.filter fun point =>
          timeBucket point.1 = bucket).map fun point => point.2.volume).sum).sum := by
        change (((buckets.take limit).map _).map _).sum = _
        rw [noneCut, List.map_map]
        rfl
    _ = ((points.filter fun point => timeBucket point.1 ∈ buckets).map
          fun point => point.2.volume).sum :=
        List.sum_groups _ _ (bucketsPerm.nodup_iff.mpr (List.nodup_dedup _)) points
    _ = (points.map fun point => point.2.volume).sum := by
        rw [List.filter_eq_self.mpr grouped]
    _ = ((rows.map fun row => (row.1.time, row.2)).map fun point => point.2.volume).sum :=
        (pointsPerm.map _).sum_eq
    _ = _ := by
        rw [selected, List.map_map]
        rfl

end PricesService

/-! ## What is recorded -/

/-- A call that records no volume. -/
def Call.unbilled : Call → Bool
  | upsertPricePoint _ _ volume => volume = 0
  | _ => true

private theorem unbilled_of_handled (call : Call) (handled : call.handled) : call.unbilled := by
  cases call <;> first | rfl | exact handled

/-- The database seen as the volumes it has recorded, by which points they are on. -/
def volumeJournal : Journal Database Call ((PricePointKey → Bool) → Int) Empty where
  view db selected := db.pricePoints.total selected PricePoint.volume
  apply write _ := write.elim
  quiet _ := False
  still _ _ := True

private theorem volumes_effect (call : Call) (db : Database) (unbilled : call.unbilled) :
    volumeJournal.view (call.effect db) = volumeJournal.view db := by
  cases call with
  | upsertPricePoint key priceWad volume =>
      have nothing : volume = 0 := of_decide_eq_true unbilled
      funext selected
      change Table.total _ _ (Table.upsert _ _ _ _) = _
      rw [Table.total_upsert, nothing]
      cases db.pricePoints.find? key <;> simp [volumeJournal]
  | _ => rfl

/-- **No batch records a volume.** The one caller of `recordPoint` passes zero. -/
theorem EventProcessor.unbilled_processBatch (ext : Externals) (logs : List NormalizedLog) :
    (processBatch ext logs).CallsOnly fun call => call.unbilled :=
  (handled_processBatch ext logs).mono unbilled_of_handled

variable {ext : Externals} {db final : Database} {logs : List NormalizedLog}

/-- A run leaves every recorded volume as it was. -/
theorem Processed.volumes (run : Processed ext db logs final) (selected : PricePointKey → Bool) :
    final.pricePoints.total selected PricePoint.volume =
      db.pricePoints.total selected PricePoint.volume := by
  induction run with
  | nil db => rfl
  | batch returned _ ih =>
      have silent :=
        (keeps_unseen volumes_effect (EventProcessor.unbilled_processBatch _ _)).returns returned
      exact ih.trans (congrFun silent.1 selected)

/-- **Recorded volume is traded volume exactly where nothing is traded.** In every run, the
volume recorded for a market and the volume its candles show over all time both grow by what
the logs trade on it if and only if no log trades anything on it. -/
theorem recordedVolume_iff (run : Processed ext db logs final) (market : MarketKey) :
    (final.recordedVolume market - db.recordedVolume market = tradedVolume market logs ∧
      ∀ (timeBucket : Date → Date) (outcomes : List Nat) (start stop : Date) (limit : Nat),
        PricesService.AllTime db market start stop limit →
        PricesService.AllTime final market start stop limit →
        PricesService.servedVolume timeBucket final market outcomes start stop limit -
          PricesService.servedVolume timeBucket db market outcomes start stop limit =
            tradedVolume market logs) ↔
      ∀ log ∈ logs, log.volumeOn market = 0 := by
  have recorded : final.recordedVolume market - db.recordedVolume market = 0 :=
    sub_eq_zero.mpr (run.volumes _)
  rw [recorded, ← tradedVolume_eq_zero_iff]
  constructor
  · rintro ⟨grown, -⟩
    exact Int.natCast_eq_zero.mp grown.symm
  · intro nothing
    rw [nothing]
    refine ⟨rfl, fun timeBucket outcomes start stop limit before after => ?_⟩
    refine sub_eq_zero.mpr (congrArg List.sum (List.map_congr_left fun outcome _ => ?_))
    rw [PricesService.candleVolume_eq_total timeBucket outcome after,
      PricesService.candleVolume_eq_total timeBucket outcome before]
    exact run.volumes _

namespace Sample

/-- A chain client that answers with the prices of two outcomes. -/
def ready : Externals := ⟨true, fun _ => some [], fun _ => []⟩

def priced : Outside := ⟨.ok [wad / 2, wad / 2], ⟨0⟩⟩

/-- The database after some logs, with every price refresh succeeding. -/
def afterPriced (logs : List NormalizedLog) : Database :=
  (Async.stopped (respond priced) 400 (EventProcessor.processBatch ready logs) .empty).2

/-- The creation of market 1, and a purchase for 50. -/
def purchaseFor50 : List NormalizedLog := [created 2, log 1 (.bought (trade 0 70 50))]

end Sample

open Sample in
/-- A market nobody has traded on has recorded what was traded. -/
theorem recordedVolume_of_created :
    (afterPriced [created 2]).recordedVolume Sample.market - 0 =
      tradedVolume Sample.market [created 2] := by
  have run : Processed ready .empty [created 2] (afterPriced [created 2]) :=
    .of_stopped priced 400 (by decide +kernel)
  exact ((recordedVolume_iff run Sample.market).mpr (by decide)).1

open Sample in
/-- **A purchase for 50 records a volume of zero.** The refresh after it samples the price
of both outcomes, each with no volume. -/
theorem purchase_records_nothing :
    Processed ready .empty purchaseFor50 (afterPriced purchaseFor50) ∧
      tradedVolume Sample.market purchaseFor50 = 50 ∧
      (afterPriced purchaseFor50).pricePoints.rows =
        [(⟨Sample.market, 0, ⟨1000⟩⟩, ⟨wad / 2, 0⟩), (⟨Sample.market, 1, ⟨1000⟩⟩, ⟨wad / 2, 0⟩)] ∧
      (afterPriced purchaseFor50).recordedVolume Sample.market -
        Database.empty.recordedVolume Sample.market ≠ tradedVolume Sample.market purchaseFor50 := by
  have run : Processed ready .empty purchaseFor50 (afterPriced purchaseFor50) :=
    .of_stopped priced 400 (by decide +kernel)
  exact ⟨run, by decide, by decide +kernel, by decide +kernel⟩

end Numera
