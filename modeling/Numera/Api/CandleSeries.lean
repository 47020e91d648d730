import Numera.Api.Candles
import Numera.Foundation.Grouping

/-! # The candles of an outcome

The query of `PricesService.candles` groups an outcome's price points by `time_bucket`. What
it answers with is exact at every interval (`candles_exact`): the buckets ascend, each candle
shows its own points, and a wider candle is the narrower ones within it put together. The
limit keeps the oldest buckets.
-/

namespace Numera

open Grouping (labels)

/-! ## Intervals -/

inductive CandleInterval where
  | m1
  | m5
  | m15
  | h1
  | h4
  | d1
  deriving DecidableEq

/-- `INTERVAL_SQL`, in milliseconds. -/
def CandleInterval.ms : CandleInterval → Nat
  | m1 => 60000
  | m5 => 300000
  | m15 => 900000
  | h1 => 3600000
  | h4 => 14400000
  | d1 => 86400000

/-- What `time_bucket` is relied on for: later times fall into no earlier buckets, and the
buckets of one interval lie within those of a wider one. -/
structure TimeBuckets (timeBucket : CandleInterval → Date → Date) : Prop where
  ordered : ∀ interval (first second : Date), first.ms ≤ second.ms →
    (timeBucket interval first).ms ≤ (timeBucket interval second).ms
  nested : ∀ fine coarse date, CandleInterval.ms fine ≤ CandleInterval.ms coarse →
    timeBucket coarse (timeBucket fine date) = timeBucket coarse date

/-! ## Candles put together -/

/-- The candle of a bucket, from those of its parts in their order. -/
def RawCandle.merge (bucket : Date) (parts : List RawCandle) : RawCandle where
  bucket
  «open» := (parts.map RawCandle.open).head?.getD 0
  high := (parts.map RawCandle.high).max?.getD 0
  low := (parts.map RawCandle.low).min?.getD 0
  close := (parts.map RawCandle.close).getLast?.getD 0
  volume := (parts.map RawCandle.volume).sum

/-- The candles of wider buckets. -/
def RawCandle.coarsen (timeBucket : Date → Date) (rows : List RawCandle) : List RawCandle :=
  (labels Date.ms (rows.map fun row => timeBucket row.bucket)).map fun bucket =>
    .merge bucket (rows.filter fun row => timeBucket row.bucket = bucket)

/-- A candle shows some prices: it opens, closes and turns at some of them, and they lie
between its low and its high. -/
structure RawCandle.Shows (candle : RawCandle) (prices : List Int) : Prop where
  opens : candle.open ∈ prices
  closes : candle.close ∈ prices
  highest : candle.high ∈ prices
  lowest : candle.low ∈ prices
  between : ∀ price ∈ prices, candle.low ≤ price ∧ price ≤ candle.high

theorem Date.ms_injective : Function.Injective Date.ms := by
  rintro ⟨first⟩ ⟨second⟩ same
  exact congrArg Date.mk same

namespace PricesService

theorem max?_spec (list : List Int) (value : Int) :
    list.max? = some value ↔ value ∈ list ∧ ∀ other ∈ list, other ≤ value :=
  List.max?_eq_some_iff

theorem min?_spec (list : List Int) (value : Int) :
    list.min? = some value ↔ value ∈ list ∧ ∀ other ∈ list, value ≤ other :=
  List.min?_eq_some_iff

theorem max?_found (list : List Int) (nonempty : list ≠ []) : ∃ value, list.max? = some value :=
  Option.isSome_iff_exists.mp (List.isSome_max?_of_ne_nil nonempty)

theorem min?_found (list : List Int) (nonempty : list ≠ []) : ∃ value, list.min? = some value :=
  Option.isSome_iff_exists.mp (List.isSome_min?_of_ne_nil nonempty)

/-- A candle of some points shows their prices. -/
theorem shows_aggregate {points : List (Date × PricePoint)} (nonempty : points ≠ [])
    (bucket : Date) :
    (aggregate bucket points).Shows (points.map fun point => point.2.priceWad) := by
  have prices : points.map (fun point => point.2.priceWad) ≠ [] := by simpa using nonempty
  obtain ⟨high, highest⟩ := max?_found _ prices
  obtain ⟨low, lowest⟩ := min?_found _ prices
  obtain ⟨top, above⟩ := (max?_spec _ _).mp highest
  obtain ⟨bottom, below⟩ := (min?_spec _ _).mp lowest
  refine ⟨?_, ?_, ?_, ?_, fun price listed => ?_⟩
  · simp only [aggregate, List.head?_eq_some_head prices, Option.getD_some]
    exact List.head_mem prices
  · simp only [aggregate, List.getLast?_eq_some_getLast prices, Option.getD_some]
    exact List.getLast_mem prices
  · simpa only [aggregate, highest, Option.getD_some] using top
  · simpa only [aggregate, lowest, Option.getD_some] using bottom
  · simp only [aggregate, highest, lowest, Option.getD_some]
    exact ⟨below price listed, above price listed⟩

/-- **The candle of several groups is that of their candles.** -/
theorem aggregate_flatMap {groups : List Date} {points : Date → List (Date × PricePoint)}
    (nonempty : ∀ group ∈ groups, points group ≠ []) (bucket : Date) :
    aggregate bucket (groups.flatMap points) =
      .merge bucket (groups.map fun group => aggregate group (points group)) := by
  let prices := groups.map fun group => (points group).map fun point => point.2.priceWad
  have filled : ∀ list ∈ prices, list ≠ [] := by
    intro list listed
    obtain ⟨group, member, rfl⟩ := List.mem_map.mp listed
    simpa using nonempty group member
  have flat : (groups.flatMap points).map (fun point => point.2.priceWad) = prices.flatten := by
    rw [List.map_flatMap, List.flatMap_def]
  have volumes : ((groups.flatMap points).map fun point => point.2.volume).sum =
      (groups.map fun group => ((points group).map fun point => point.2.volume).sum).sum := by
    rw [List.map_flatMap, List.flatMap_def, List.sum_flatten, List.map_map]
    rfl
  have parts : ∀ column : List Int → Int,
      prices.map column = groups.map fun group =>
        column ((points group).map fun point => point.2.priceWad) :=
    fun column => List.map_map
  simp only [aggregate, RawCandle.merge, flat, volumes, List.map_map,
    Grouping.head_flatten filled, Grouping.getLast_flatten filled,
    Grouping.best_flatten filled 0 max?_spec max?_found,
    Grouping.best_flatten filled 0 min?_spec min?_found, parts]
  rfl

variable {timeBucket : CandleInterval → Date → Date} {db : Database} {marketRef : MarketKey}
  {outcome : Nat} {start stop : Date}

/-- The buckets of some points, in their order. -/
theorem candleRows_eq (bucketOf : Date → Date) (limit : Nat) :
    candleRows bucketOf db marketRef outcome start stop limit =
      ((labels Date.ms ((pointsBetween db marketRef outcome start stop).map fun point =>
        bucketOf point.1)).take limit).map fun bucket =>
          aggregate bucket ((pointsBetween db marketRef outcome start stop).filter fun point =>
            bucketOf point.1 = bucket) := rfl

/-- The points come in the order of their buckets. -/
theorem pairwise_pointsBetween (buckets : TimeBuckets timeBucket) (interval : CandleInterval) :
    (pointsBetween db marketRef outcome start stop).Pairwise fun first second =>
      (timeBucket interval first.1).ms ≤ (timeBucket interval second.1).ms := by
  have trans : IsTrans (Date × PricePoint) fun first second => first.1.ms ≤ second.1.ms :=
    ⟨fun _ _ _ => le_trans⟩
  have total : Std.Total fun first second : Date × PricePoint => first.1.ms ≤ second.1.ms :=
    ⟨fun _ _ => le_total _ _⟩
  exact (List.pairwise_insertionSort _ _).imp fun earlier => buckets.ordered interval _ _ earlier

/-- A bucket that is shown has a point. -/
theorem points_of_label {bucketOf : Date → Date} {points : List (Date × PricePoint)} {bucket : Date}
    (listed : bucket ∈ labels Date.ms (points.map fun point => bucketOf point.1)) :
    points.filter (fun point => bucketOf point.1 = bucket) ≠ [] := by
  obtain ⟨point, member, rfl⟩ := List.mem_map.mp (Grouping.mem_labels.mp listed)
  exact List.ne_nil_of_mem (List.mem_filter.mpr ⟨member, decide_eq_true rfl⟩)

/-- **A wider candle is the narrower ones within it.** -/
theorem candleRows_coarsen (buckets : TimeBuckets timeBucket) {fine coarse : CandleInterval}
    (within : fine.ms ≤ coarse.ms) {limit wide : Nat}
    (whole : (pointsBetween db marketRef outcome start stop).length ≤ wide) :
    candleRows (timeBucket coarse) db marketRef outcome start stop limit =
      (RawCandle.coarsen (timeBucket coarse)
        (candleRows (timeBucket fine) db marketRef outcome start stop wide)).take limit := by
  let points := pointsBetween db marketRef outcome start stop
  let narrow := labels Date.ms (points.map fun point => timeBucket fine point.1)
  have uncut : narrow.take wide = narrow := by
    refine List.take_of_length_le ((Grouping.length_labels_le _).trans ?_)
    rw [List.length_map]
    exact whole
  have rows : candleRows (timeBucket fine) db marketRef outcome start stop wide =
      narrow.map fun bucket => aggregate bucket (points.filter fun point =>
        timeBucket fine point.1 = bucket) := by
    rw [candleRows_eq]
    exact congrArg (List.map _) uncut
  have same : labels Date.ms (points.map fun point => timeBucket coarse point.1) =
      labels Date.ms (narrow.map fun bucket => timeBucket coarse bucket) := by
    refine Grouping.labels_congr Date.ms_injective fun key => ?_
    simp only [narrow, List.mem_map, Grouping.mem_labels]
    constructor
    · rintro ⟨point, member, rfl⟩
      exact ⟨_, ⟨point, member, rfl⟩, buckets.nested fine coarse point.1 within⟩
    · rintro ⟨_, ⟨point, member, rfl⟩, rfl⟩
      exact ⟨point, member, (buckets.nested fine coarse point.1 within).symm⟩
  rw [candleRows_eq, rows, RawCandle.coarsen, List.map_take, List.map_map]
  refine congrArg (List.take limit) ?_
  change (labels Date.ms (points.map fun point => timeBucket coarse point.1)).map _ =
    (labels Date.ms (narrow.map fun bucket => timeBucket coarse bucket)).map _
  rw [same]
  refine List.map_congr_left fun bucket _ => ?_
  have parts : points.filter (fun point => timeBucket coarse point.1 = bucket) =
      (narrow.filter fun group => timeBucket coarse group = bucket).flatMap fun group =>
        points.filter fun point => timeBucket fine point.1 = group := by
    rw [← Grouping.filter_coarser Date.ms_injective (timeBucket coarse) bucket
      (pairwise_pointsBetween buckets fine)]
    refine List.filter_congr fun point _ => ?_
    rw [buckets.nested fine coarse point.1 within]
  change aggregate bucket (points.filter fun point => timeBucket coarse point.1 = bucket) = _
  rw [parts, aggregate_flatMap, List.filter_map]
  · rfl
  · exact fun group member => points_of_label (List.mem_filter.mp member).1

end PricesService

open PricesService in
/-- **The candles are exact.** Over any database, span of time and limit, and at every interval:
the buckets ascend and there are at most as many as the limit; each candle shows the prices of
the points of its bucket; a point whose bucket is not shown is later than all that are, which
are then as many as the limit; and the candles are those of any narrower interval, taken whole
and put together. -/
theorem candles_exact {timeBucket : CandleInterval → Date → Date} (buckets : TimeBuckets timeBucket)
    (db : Database) (marketRef : MarketKey) (outcome : Nat) (start stop : Date) (limit : Nat)
    (interval : CandleInterval) :
    let points := pointsBetween db marketRef outcome start stop
    let rows := candleRows (timeBucket interval) db marketRef outcome start stop limit
    rows.length ≤ limit ∧
      rows.Pairwise (fun first second => first.bucket.ms < second.bucket.ms) ∧
      (∀ row ∈ rows, row.Shows ((points.filter fun point =>
        timeBucket interval point.1 = row.bucket).map fun point => point.2.priceWad)) ∧
      (∀ point ∈ points, (∃ row ∈ rows, row.bucket = timeBucket interval point.1) ∨
        rows.length = limit ∧ ∀ row ∈ rows, row.bucket.ms < (timeBucket interval point.1).ms) ∧
      ∀ fine wide, CandleInterval.ms fine ≤ interval.ms → points.length ≤ wide →
        rows = (RawCandle.coarsen (timeBucket interval)
          (candleRows (timeBucket fine) db marketRef outcome start stop wide)).take limit := by
  intro points rows
  let shown := labels Date.ms (points.map fun point => timeBucket interval point.1)
  have ascending : shown.Pairwise fun first second => first.ms < second.ms :=
    Grouping.pairwise_labels Date.ms_injective _
  have split : ((shown.take limit) ++ (shown.drop limit)).Pairwise fun first second =>
      first.ms < second.ms := by rwa [List.take_append_drop]
  refine ⟨?_, ?_, ?_, ?_, fun fine wide within whole => candleRows_coarsen buckets within whole⟩
  · simp [rows, candleRows_eq]
  · exact List.pairwise_map.mpr (List.pairwise_append.mp split).1
  · intro row listed
    obtain ⟨bucket, member, rfl⟩ := List.mem_map.mp listed
    exact shows_aggregate (points_of_label (List.mem_of_mem_take member)) bucket
  · intro point member
    have own : timeBucket interval point.1 ∈ shown :=
      Grouping.mem_labels.mpr (List.mem_map.mpr ⟨point, member, rfl⟩)
    rw [← List.take_append_drop limit shown] at own
    rcases List.mem_append.mp own with kept | cut
    · exact .inl ⟨_, List.mem_map.mpr ⟨_, kept, rfl⟩, rfl⟩
    · refine .inr ⟨?_, fun row listed => ?_⟩
      · have longer : limit < shown.length := by
          by_contra short
          rw [List.drop_of_length_le (not_lt.mp short)] at cut
          cases cut
        rw [show rows.length = (shown.take limit).length from List.length_map _,
          List.length_take, min_eq_left longer.le]
      · obtain ⟨bucket, within, rfl⟩ := List.mem_map.mp listed
        exact (List.pairwise_append.mp split).2.2 bucket within _ cut

/-! ## Computed candles -/

namespace SampleCandles

/-- Buckets that are counted from the epoch. -/
def timeBucket (interval : CandleInterval) (date : Date) : Date :=
  ⟨date.ms / interval.ms * interval.ms⟩

theorem timeBuckets : TimeBuckets timeBucket where
  ordered interval _ _ earlier := Nat.mul_le_mul_right _ (Nat.div_le_div_right earlier)
  nested fine coarse date within := by
    have divides : fine.ms ∣ coarse.ms := by
      cases fine <;> cases coarse <;> revert within <;> decide
    have positive : 0 < fine.ms := by cases fine <;> decide
    obtain ⟨parts, same⟩ := divides
    have merged : date.ms / fine.ms * fine.ms / coarse.ms = date.ms / coarse.ms := by
      rw [same, ← Nat.div_div_eq_div_mul, Nat.mul_div_cancel _ positive, Nat.div_div_eq_div_mul]
    simp only [timeBucket, merged]

/-- Three prices of an outcome: two in one minute, one in the next. -/
def sampled : Database :=
  let at_ (second : Nat) : PricePointKey := ⟨Sample.market, 0, ⟨1000 * second⟩⟩
  { Database.empty with
    pricePoints := ((Table.empty.insertNew (at_ 10) ⟨5, 0⟩).insertNew (at_ 50) ⟨9, 0⟩).insertNew
      (at_ 70) ⟨2, 0⟩ }

end SampleCandles

open SampleCandles PricesService in
/-- The candle of five minutes is that of its two minutes. -/
theorem candles_exact_fiveMinutes :
    (candleRows (timeBucket .m1) sampled Sample.market 0 ⟨0⟩ ⟨300000⟩ 500).map
        (fun row => (row.open, row.high, row.low, row.close)) = [(5, 9, 5, 9), (2, 2, 2, 2)] ∧
      (candleRows (timeBucket .m5) sampled Sample.market 0 ⟨0⟩ ⟨300000⟩ 500).map
        (fun row => (row.open, row.high, row.low, row.close)) = [(5, 9, 2, 2)] ∧
      candleRows (timeBucket .m5) sampled Sample.market 0 ⟨0⟩ ⟨300000⟩ 500 =
        (RawCandle.coarsen (timeBucket .m5)
          (candleRows (timeBucket .m1) sampled Sample.market 0 ⟨0⟩ ⟨300000⟩ 500)).take 500 := by
  refine ⟨by decide +kernel, by decide +kernel, ?_⟩
  exact (candles_exact timeBuckets sampled Sample.market 0 ⟨0⟩ ⟨300000⟩ 500 .m5).2.2.2.2 .m1 500
    (by decide) (by decide +kernel)

end Numera
