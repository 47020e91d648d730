import Numera.Admin.Access
import Numera.Markets.Views
import Numera.Redis.Cache

/-! # The markets service

`MarketsService` serves views of the markets, one at a time or in pages, and keeps them in
Redis for a few seconds. The processor drops what it has made stale (`invalidate`). A view
is answered as JSON, since that is what leaves the API.
-/

namespace Numera

open JsString (ascii)

/-! ## Requests -/

inductive Engine where
  | lsLmsr
  deriving DecidableEq

inductive MarketSort where
  | closeTime
  | createdAt
  | pot
  deriving DecidableEq

inductive SortOrder where
  | asc
  | desc
  deriving DecidableEq

structure ListMarketsDto where
  limit : Nat := 25
  offset : Nat := 0
  status : Option MarketStatus := none
  engine : Option Engine := none
  category : Option JsString := none
  search : Option JsString := none
  openOnly : Option Bool := none
  sort : MarketSort := .createdAt
  order : SortOrder := .desc

def Engine.name : Engine → JsString
  | lsLmsr => ascii "LS_LMSR"

def MarketSort.name : MarketSort → JsString
  | closeTime => ascii "closeTime"
  | createdAt => ascii "createdAt"
  | pot => ascii "pot"

def SortOrder.name : SortOrder → JsString
  | asc => ascii "asc"
  | desc => ascii "desc"

/-- A member that `JSON.stringify` leaves out when the value is `undefined`. -/
def optionalMember (name : String) (value : Option Json) : List (JsString × Json) :=
  (value.map (member name)).toList

/-- The query as `JSON.stringify` writes it, in the order in which the class declares its
fields. -/
def ListMarketsDto.toJson (dto : ListMarketsDto) : Json := .object <|
  [member "limit" (.ofNat dto.limit), member "offset" (.ofNat dto.offset)] ++
  optionalMember "status" (dto.status.map fun status => .string status.name) ++
  optionalMember "engine" (dto.engine.map fun engine => .string engine.name) ++
  optionalMember "category" (dto.category.map .string) ++
  optionalMember "search" (dto.search.map .string) ++
  optionalMember "openOnly" (dto.openOnly.map .bool) ++
  [member "sort" (.string dto.sort.name), member "order" (.string dto.order.name)]

/-! ## Queries -/

/-- A market as it is queried, with its outcomes and its resolution. -/
structure MarketRow where
  key : MarketKey
  market : Market
  resolution : Option ResolutionProposal
  createdAt : Date

/-- `Prisma.MarketWhereInput`, as far as it is used. -/
structure MarketWhere where
  status : Option MarketStatus
  engine : Option Engine
  categoryKey : Option JsString
  titleContains : Option JsString
  closesAfter : Option Date

inductive MarketsQuery where
  | dateNow
  /-- `findMany` and `count`, in one transaction. -/
  | findMany (where_ : MarketWhere) (sort : MarketSort) (order : SortOrder) (skip take : Nat)
  | findUnique (id : JsString)

@[reducible] def MarketsQuery.Rows : MarketsQuery → Type
  | dateNow => Date
  | findMany _ _ _ _ _ => List MarketRow × Nat
  | findUnique _ => Option MarketRow

inductive MarketsError where
  | redisFailed
  | databaseFailed
  | notFound
  /-- An iteration of `SCAN` that is still going on. -/
  | scanning

/-- A computation of the service. -/
abbrev Markets (α : Type) : Type := Async (RedisAnswer MarketsQuery.Rows) MarketsError α

/-- Await one query. -/
def MarketsQuery.request (query : MarketsQuery) : Markets query.Rows :=
  Async.perform (.inr query : RedisCommand ⊕ MarketsQuery)

/-- The configuration, `formatUnits`, and the `id` of a market's row. -/
structure MarketsConfig where
  collateralDecimals : Nat
  formatUnits : Int → Nat → JsString
  idOf : MarketKey → JsString

/-! ## The service -/

namespace MarketsService

/-- `LIST_TTL`. -/
def listTtl : Nat := 3

/-- `DETAIL_TTL`. -/
def detailTtl : Nat := 2

def listKey (dto : ListMarketsDto) : JsString :=
  ascii "cache:markets:list:" ++ dto.toJson.stringify

def detailKey (id : JsString) : JsString := ascii "cache:markets:detail:" ++ id

def listPattern : JsString := ascii "cache:markets:list:*"

/-- The filter of a list; `openOnly` overrides `status`. -/
def whereOf (dto : ListMarketsDto) (now : Option Date) : MarketWhere where
  status := if dto.openOnly = some true then some .trading else dto.status
  engine := dto.engine
  categoryKey := dto.category.filter (· ≠ [])
  titleContains := dto.search.filter (· ≠ [])
  closesAfter := now

variable (cfg : MarketsConfig)

/-- What the serializer makes of a row. -/
def render (now : Date) (row : MarketRow) : Json :=
  (MarketSerializer.market cfg.formatUnits now cfg.collateralDecimals row.key row.market
    row.resolution row.createdAt).toJson cfg.idOf

/-- `paginate`. -/
def paginate (items : List Json) (total : Nat) (dto : ListMarketsDto) : Json := .object [
  member "items" (.array items),
  member "total" (.ofNat total),
  member "limit" (.ofNat dto.limit),
  member "offset" (.ofNat dto.offset)]

/-- A page of views. The serializer reads the clock for each row anew; as it awaits nothing in
between, one reading is taken to stand for all of them. -/
def list (dto : ListMarketsDto) : Markets Json :=
  RedisService.wrap (listKey dto) listTtl do
    let asked ←
      if dto.openOnly = some true then some <$> MarketsQuery.dateNow.request else pure none
    let (rows, total) ←
      (MarketsQuery.findMany (whereOf dto asked) dto.sort dto.order dto.offset dto.limit).request
    let now ← MarketsQuery.dateNow.request
    return paginate (rows.map (render cfg now)) total dto

/-- A market that is read from the database and cached. -/
def readById (id : JsString) : Markets Json := do
  match ← (MarketsQuery.findUnique id).request with
  | none => throw .notFound
  | some row =>
      let now ← MarketsQuery.dateNow.request
      let view := render cfg now row
      RedisService.setJson (detailKey id) view (some detailTtl)
      return view

def getById (id : JsString) : Markets Json := do
  match ← RedisService.getJson (detailKey id) with
  | some cached => if isTruthy cached then return cached else readById cfg id
  | none => readById cfg id

/-- The first of the two computations that `invalidate` starts at once. -/
def invalidateDetail (marketRef : JsString) : Markets Unit :=
  RedisService.del [detailKey marketRef]

/-- The second one, as far as some number of rounds of its loop. -/
def invalidateLists (rounds : Nat) : Markets Unit :=
  RedisService.delPattern .scanning rounds listPattern

end MarketsService

/-! ## Keys -/

section Members

open Json

theorem wellFormed_members {members more : List (JsString × Json)}
    (first : ∀ value ∈ members.map Prod.snd, value.WellFormed)
    (second : ∀ value ∈ more.map Prod.snd, value.WellFormed) :
    ∀ value ∈ (members ++ more).map Prod.snd, value.WellFormed := by
  intro value listed
  rw [List.map_append] at listed
  exact (List.mem_append.mp listed).elim (first value) (second value)

theorem wellFormed_optionalMember (name : String) {α : Type} {render : α → Json}
    (formed : ∀ value, (render value).WellFormed) (value : Option α) :
    ∀ item ∈ (optionalMember name (value.map render)).map Prod.snd, item.WellFormed := by
  cases value with
  | none => exact fun item none => absurd none List.not_mem_nil
  | some value =>
      intro item listed
      obtain rfl := List.mem_singleton.mp listed
      exact formed value

theorem ListMarketsDto.wellFormed_toJson (dto : ListMarketsDto) : dto.toJson.WellFormed := by
  refine wellFormed_object (wellFormed_members (wellFormed_members (wellFormed_members
    (wellFormed_members (wellFormed_members (wellFormed_members ?_
      (wellFormed_optionalMember _ (fun status => wellFormed_string (MarketStatus.name status)) _))
      (wellFormed_optionalMember _ (fun engine => wellFormed_string (Engine.name engine)) _))
      (wellFormed_optionalMember _ wellFormed_string _))
      (wellFormed_optionalMember _ wellFormed_string _))
      (wellFormed_optionalMember _ wellFormed_bool _)) ?_)
  · simp only [List.map_cons, List.map_nil, member, List.forall_mem_cons]
    exact ⟨wellFormed_ofNat _, wellFormed_ofNat _, List.forall_mem_nil _⟩
  · simp only [List.map_cons, List.map_nil, member, List.forall_mem_cons]
    exact ⟨trivial, trivial, List.forall_mem_nil _⟩

/-- A member is found under its name, before or after one that may be left out. -/
theorem lookup_optionalMember {name : String} {value : Option Json} {key : JsString}
    {rest : List (JsString × Json)} :
    (optionalMember name value ++ rest).lookup key =
      if key = ascii name then value.or (rest.lookup key) else rest.lookup key := by
  cases value with
  | none => simp [optionalMember]
  | some value =>
      rw [optionalMember, Option.map_some, Option.toList_some, List.singleton_append, member,
        List.lookup_cons]
      by_cases same : key = ascii name
      · simp [same]
      · rw [if_neg same, beq_false_of_ne same]

theorem lookup_member {name : String} {value : Json} {key : JsString}
    {rest : List (JsString × Json)} :
    (member name value :: rest).lookup key =
      if key = ascii name then some value else rest.lookup key := by
  rw [member, List.lookup_cons]
  by_cases same : key = ascii name
  · simp [same]
  · rw [if_neg same, beq_false_of_ne same]

theorem MarketStatus.name_injective : Function.Injective MarketStatus.name := by
  intro first second
  cases first <;> cases second <;> decide

theorem MarketSort.name_injective : Function.Injective MarketSort.name := by
  intro first second
  cases first <;> cases second <;> decide

theorem SortOrder.name_injective : Function.Injective SortOrder.name := by
  intro first second
  cases first <;> cases second <;> decide

/-- **A query is known by what is written of it.** -/
theorem ListMarketsDto.toJson_injective {first second : ListMarketsDto}
    (same : first.toJson = second.toJson) : first = second := by
  have looked := fun key : String =>
    congrArg (fun members => List.lookup (ascii key) members) (Json.object.inj same)
  have limit := looked "limit"
  have offset := looked "offset"
  have status := looked "status"
  have category := looked "category"
  have search := looked "search"
  have openOnly := looked "openOnly"
  have sort := looked "sort"
  have order := looked "order"
  have engine := looked "engine"
  simp +decide only [lookup_member, lookup_optionalMember, List.append_assoc, List.cons_append,
    List.nil_append, if_true, if_false, Option.some.injEq, List.lookup_nil, Option.or_none,
    Json.string.injEq] at limit offset status category search openOnly sort order engine
  obtain ⟨⟩ := first
  obtain ⟨⟩ := second
  dsimp only at *
  obtain rfl := Json.ofNat_injective limit
  obtain rfl := Json.ofNat_injective offset
  obtain rfl := MarketSort.name_injective sort
  obtain rfl := SortOrder.name_injective order
  obtain rfl := Option.map_injective (fun _ _ => Json.string.inj) category
  obtain rfl := Option.map_injective (fun _ _ => Json.string.inj) search
  obtain rfl := Option.map_injective (fun _ _ => Json.bool.inj) openOnly
  obtain rfl := Option.map_injective (fun _ _ same => MarketStatus.name_injective
    (Json.string.inj same)) status
  obtain rfl := Option.map_injective (fun (first second : Engine) _ => by
    cases first
    cases second
    rfl) engine
  rfl

end Members

namespace MarketsService

/-- The key of a list names its query. -/
theorem listKey_injective {first second : ListMarketsDto} (same : listKey first = listKey second) :
    first = second :=
  ListMarketsDto.toJson_injective (Json.stringify_injective_of_wellFormed first.wellFormed_toJson
    second.wellFormed_toJson (List.append_cancel_left same))

theorem detailKey_injective {first second : JsString} (same : detailKey first = detailKey second) :
    first = second :=
  List.append_cancel_left same

theorem prefix_listKey (dto : ListMarketsDto) : ascii "cache:markets:list:" <+: listKey dto :=
  List.prefix_append _ _

/-- No market's key is a list's. -/
theorem not_prefix_detailKey (id : JsString) : ¬ ascii "cache:markets:list:" <+: detailKey id := by
  intro within
  have own : ascii "cache:markets:detail:" <+: detailKey id := List.prefix_append _ _
  exact absurd (List.prefix_of_prefix_length_le within own (by decide)) (by decide)

theorem globMatches_listPattern {key : JsString} :
    JsString.globMatches listPattern key = true ↔ ascii "cache:markets:list:" <+: key :=
  JsString.globMatches_star (ascii "cache:markets:list:") (by decide) key

end MarketsService

end Numera
