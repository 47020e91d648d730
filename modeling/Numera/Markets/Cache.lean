import Numera.Markets.Service

/-! # Views from the cache

Any number of views are served at once, while the markets change and the processor
invalidates what it changes. A view is what its request would have shown of the database
at some moment (`views_served`): one the request itself read it at, or one at which the
cached view was computed, which was written at most its time to live ago, and not before
any invalidation that has been completed began. So what is served after an invalidation can
be older than it only where a view was on its way to the cache as it began.
-/

namespace Numera

open Async (Exchange Follows Journals System Thread noted)
open JsString (ascii)

/-! ## The database -/

/-- How things stand at each moment: the time by Redis's clock and by the service's, and the
rows of the database; and whether a title contains a text, whatever the case. -/
structure MarketsHistory where
  clock : Nat → Nat
  monotone : Monotone clock
  wall : Nat → Date
  rows : Nat → List MarketRow
  contains : JsString → JsString → Bool

def MarketWhere.admits (contains : JsString → JsString → Bool) (where_ : MarketWhere)
    (row : MarketRow) : Bool :=
  where_.status.all (fun status => row.market.status = status) &&
    where_.engine.all (fun engine => Engine.lsLmsr = engine) &&
    where_.categoryKey.all (fun key => row.market.categoryKey = some key) &&
    where_.titleContains.all (fun text => contains row.market.title text) &&
    where_.closesAfter.all fun date => date.ms < row.market.closeTime.ms

def MarketSort.valueOf : MarketSort → MarketRow → Int
  | closeTime, row => row.market.closeTime.ms
  | createdAt, row => row.createdAt.ms
  | pot, row => row.market.pot

def SortOrder.Sorted (order : SortOrder) (value : MarketRow → Int) (rows : List MarketRow) : Prop :=
  match order with
  | asc => rows.Pairwise fun first second => value first ≤ value second
  | desc => rows.Pairwise fun first second => value second ≤ value first

/-- A page of the rows that a filter admits, in some arrangement that is sorted, and their
number. The two queries of `$transaction` are taken to see one state of the database, although
they may see two where it is committed to in between. -/
def MarketsHistory.Page (history : MarketsHistory) (moment : Nat) (where_ : MarketWhere)
    (sort : MarketSort) (order : SortOrder) (skip take : Nat) (found : List MarketRow × Nat) :
    Prop :=
  ∃ sorted : List MarketRow,
    sorted.Perm ((history.rows moment).filter (where_.admits history.contains)) ∧
    order.Sorted sort.valueOf sorted ∧ found = ((sorted.drop skip).take take, sorted.length)

/-- The row of an `id`, whose letters may be of any case. -/
def MarketsHistory.findUnique (cfg : MarketsConfig) (history : MarketsHistory) (moment : Nat)
    (id : JsString) : Option MarketRow :=
  (history.rows moment).find? fun row => cfg.idOf row.key = id.toLowerCase

variable (cfg : MarketsConfig) (history : MarketsHistory)

/-- What a query is answered at a moment. -/
def MarketsQuery.Replies (moment : Nat) :
    (query : MarketsQuery) → Except MarketsError query.Rows → Prop
  | dateNow, answer => answer = .ok (history.wall moment)
  | findUnique id, answer =>
      answer = .ok (history.findUnique cfg moment id) ∨ answer = .error .databaseFailed
  | findMany where_ sort order skip take, answer =>
      (∃ found, answer = .ok found ∧ history.Page moment where_ sort order skip take found) ∨
        answer = .error .databaseFailed

/-! ## The system -/

/-- The moments that have passed, and what is in Redis. -/
structure MarketsWorld where
  moment : Nat
  keys : RedisKeys

/-- What may be asked of the service; an invalidation asks for its two parts at once. -/
inductive MarketsRequest where
  | getById (id : JsString)
  | list (dto : ListMarketsDto)
  | invalidateDetail (marketRef : JsString)
  | invalidateLists (rounds : Nat)

def MarketsRequest.start : MarketsRequest → Markets (Option Json)
  | getById id => do return some (← MarketsService.getById cfg id)
  | list dto => do return some (← MarketsService.list cfg dto)
  | invalidateDetail marketRef => do
      MarketsService.invalidateDetail marketRef
      return none
  | invalidateLists rounds => do
      MarketsService.invalidateLists rounds
      return none

/-- The keys that only the service writes. -/
def ownsMarketKey (key : JsString) : Prop := ascii "cache:markets:" <+: key

/-- The requests for views and their invalidations, beside the processor. -/
def marketsSystem : System (RedisAnswer MarketsQuery.Rows) MarketsError (Option Json) MarketsRequest
    (List (Exchange (RedisAnswer MarketsQuery.Rows) MarketsError)) MarketsWorld Unit where
  start := MarketsRequest.start cfg
  arrival _ := []
  next _ := noted MarketsWorld.moment
  env op world answer record later := record = [] ∧ later.moment = world.moment + 1 ∧
    match op, answer with
    | .inl command, answer =>
        command.Performs history.clock world.moment world.keys answer later.keys
    | .inr query, answer =>
        query.Replies cfg history world.moment answer ∧ later.keys = world.keys
  drift world later := world.moment ≤ later.moment ∧ ∀ key, ownsMarketKey key →
    later.keys key = world.keys key ∨ later.keys key = none
  initial := ⟨0, fun _ => none⟩

/-- `SCAN` keeps its promise. -/
abbrev MarketsScans : System.Condition (RedisAnswer MarketsQuery.Rows) MarketsError (Option Json)
    MarketsRequest (List (Exchange (RedisAnswer MarketsQuery.Rows) MarketsError)) MarketsWorld :=
  ScanComplete history.clock MarketsWorld.moment MarketsWorld.keys

theorem marketsSystem_served : ServedByRedis (marketsSystem cfg history) history.clock ownsMarketKey
    MarketsWorld.moment MarketsWorld.keys where
  monotone := history.monotone
  journals :=
    { arrival := fun _ => rfl
      next := fun _ => rfl
      passes := fun _ _ passed => passed.1
      ticks := by
        rintro op world answer record later ⟨-, ticked, -⟩
        rw [ticked]
        exact Nat.lt_succ_self _ }
  initial _ _ := rfl
  passes _ _ passed := passed.2
  commands _ _ _ _ _ answered := answered.2.2
  queries _ _ _ _ _ answered := answered.2.2.2

/-! ## What is shown -/

/-- What the request shows of the database as it stood at a moment, rendered before
another. -/
def MarketsRequest.Shows (read until_ : Nat) (json : Json) : MarketsRequest → Prop
  | getById id => ∃ row rendered, history.findUnique cfg read id = some row ∧
      read < rendered ∧ rendered < until_ ∧
      json = MarketsService.render cfg (history.wall rendered) row
  | list dto => ∃ now found rendered,
      (if dto.openOnly = some true then ∃ asked < read, now = some (history.wall asked)
        else now = none) ∧
      history.Page read (MarketsService.whereOf dto now) dto.sort dto.order dto.offset dto.limit
        found ∧
      read < rendered ∧ rendered < until_ ∧
      json = MarketsService.paginate
        (found.1.map (MarketsService.render cfg (history.wall rendered))) found.2 dto
  | _ => False

/-- The key a view is kept under, and for how long. -/
def MarketsRequest.cached : MarketsRequest → Option (JsString × Nat)
  | getById id => some (MarketsService.detailKey id, MarketsService.detailTtl)
  | list dto => some (MarketsService.listKey dto, MarketsService.listTtl)
  | _ => none

/-- The keys that an invalidation drops. -/
def MarketsRequest.Drops (key : JsString) : MarketsRequest → Prop
  | invalidateDetail marketRef => key = MarketsService.detailKey marketRef
  | invalidateLists _ => ascii "cache:markets:list:" <+: key
  | _ => False

/-! ## One request -/

/-- The journal of a request of the service. -/
abbrev MarketsJournal : Type := List (Exchange (RedisAnswer MarketsQuery.Rows) MarketsError)

/-- The journal of a request that has found nothing in the cache, and has read and rendered
what it shows. -/
def MarketsRequest.Backs (stage : MarketsJournal) (json : Json) : MarketsRequest → Prop
  | getById id => ∃ asked raw read row rendered now,
      stage = [⟨asked, .inl (.get (MarketsService.detailKey id)), .ok raw⟩,
        ⟨read, .inr (.findUnique id), .ok (some row)⟩, ⟨rendered, .inr .dateNow, .ok now⟩] ∧
      json = MarketsService.render cfg now row
  | list dto => ∃ asked raw opening date read found rendered now,
      stage = ⟨asked, .inl (.get (MarketsService.listKey dto)), .ok raw⟩ :: opening ++
        [⟨read, .inr (.findMany (MarketsService.whereOf dto date) dto.sort dto.order dto.offset
          dto.limit), .ok found⟩, ⟨rendered, .inr .dateNow, .ok now⟩] ∧
      (if dto.openOnly = some true then ∃ opened time, date = some time ∧
          opening = [⟨opened, .inr .dateNow, .ok time⟩]
        else date = none ∧ opening = []) ∧
      json = MarketsService.paginate (found.1.map (MarketsService.render cfg now)) found.2 dto
  | _ => False

/-- The calls of a request for a view: it looks into the cache first, and writes what it has
read. -/
def MarketsRequest.ViewPermits (request : MarketsRequest) (stage : MarketsJournal) :
    RedisCommand ⊕ MarketsQuery → Prop
  | .inl (.get key) => stage = [] ∧ ∃ ttl, request.cached = some (key, ttl)
  | .inl (.set key value seconds) => ∃ ttl json, request.cached = some (key, ttl) ∧
      seconds = some ttl ∧ value = json.stringify ∧ request.Backs cfg stage json
  | .inl _ => False
  | .inr _ => True

def MarketsRequest.Permits (stage : MarketsJournal) (op : RedisCommand ⊕ MarketsQuery) :
    MarketsRequest → Prop
  | invalidateDetail marketRef =>
      stage = [] ∧ op = .inl (.del [MarketsService.detailKey marketRef])
  | invalidateLists _ => SweepPermits MarketsService.listPattern stage op
  | request => request.ViewPermits cfg stage op

/-- A view is what was found in the cache, or what was read and written there. -/
def MarketsRequest.ViewFinish (request : MarketsRequest) (stage : MarketsJournal) (json : Json) :
    Prop :=
  ∃ key ttl, request.cached = some (key, ttl) ∧
    ((∃ asked text, stage = [⟨asked, .inl (.get key), .ok (some text)⟩] ∧
        Json.parse text = some json) ∨
      ∃ before written, stage =
          before ++ [⟨written, .inl (.set key json.stringify (some ttl)), .ok ()⟩] ∧
        request.Backs cfg before json)

def MarketsRequest.Finish (stage : MarketsJournal) (outcome : Except MarketsError (Option Json)) :
    MarketsRequest → Prop
  | invalidateDetail marketRef => ∀ answer, outcome = .ok answer → answer = none ∧ ∃ began,
      stage = [⟨began, .inl (.del [MarketsService.detailKey marketRef]), .ok ()⟩]
  | invalidateLists _ => ∀ answer, outcome = .ok answer → answer = none ∧
      ∃ began, Swept MarketsService.listPattern began stage
  | request => ∀ answer, outcome = .ok answer →
      ∃ json, answer = some json ∧ request.ViewFinish cfg stage json

/-- A request for a view that keeps to its calls. -/
abbrev FollowsView (request : MarketsRequest) (stage : MarketsJournal) (task : Markets Json) : Prop :=
  Follows (noted MarketsWorld.moment) (request.ViewPermits cfg)
    (fun stage outcome => ∀ json, outcome = .ok json → request.ViewFinish cfg stage json) stage task

section Follows

variable {cfg}

theorem readById_follows (id : JsString) (asked : Nat) (raw : Option JsString) :
    FollowsView cfg (.getById id)
      [⟨asked, .inl (.get (MarketsService.detailKey id)), .ok raw⟩]
      (MarketsService.readById cfg id) := by
  refine .perform_bind trivial (fun first row => ?_) fun _ _ _ same => by cases same
  cases row with
  | none => exact fun _ same => by cases same
  | some row =>
      refine .perform_bind trivial (fun second now => ?_) fun _ _ _ same => by cases same
      have backs : (MarketsRequest.getById id).Backs cfg
          [⟨asked, .inl (.get (MarketsService.detailKey id)), .ok raw⟩,
            ⟨first.moment, .inr (.findUnique id), .ok (some row)⟩,
            ⟨second.moment, .inr .dateNow, .ok now⟩] (MarketsService.render cfg now row) :=
        ⟨asked, raw, _, row, _, now, rfl, rfl⟩
      refine .perform_bind ⟨_, _, rfl, rfl, rfl, backs⟩ (fun third _ => ?_)
        fun _ _ _ same => by cases same
      intro json same
      obtain rfl := Except.ok.inj same
      exact ⟨_, _, rfl, .inr ⟨_, third.moment, rfl, backs⟩⟩

theorem getById_follows (id : JsString) :
    FollowsView cfg (.getById id) [] (MarketsService.getById cfg id) := by
  refine .bind (.perform_bind ⟨rfl, _, rfl⟩ (fun world raw => ?_) fun _ _ _ same => by cases same)
  cases raw with
  | none => exact readById_follows id world.moment none
  | some text =>
      cases parsed : Json.parse text with
      | none =>
          simp only [Option.bind_some, parsed]
          exact readById_follows id world.moment (some text)
      | some value =>
          have cached : ∀ json, (.ok value : Except MarketsError Json) = .ok json →
              (MarketsRequest.getById id).ViewFinish cfg [⟨world.moment,
                .inl (.get (MarketsService.detailKey id)), .ok (some text)⟩] json := by
            intro json same
            obtain rfl := Except.ok.inj same
            exact ⟨_, _, rfl, .inl ⟨_, text, rfl, parsed⟩⟩
          -- Anything but `null` may be answered as it is.
          cases value <;> simp only [Option.bind_some, parsed]
          case null => exact readById_follows id world.moment (some text)
          all_goals
            change FollowsView _ _ _ (if _ then _ else _)
            split
            · exact cached
            · exact readById_follows id world.moment (some text)

/-- What a list shows is read, rendered and written. -/
theorem wrap_follows (dto : ListMarketsDto) (asked : Nat) (raw : Option JsString) :
    FollowsView cfg (.list dto) [⟨asked, .inl (.get (MarketsService.listKey dto)), .ok raw⟩]
      (do
        let fresh ← (do
          let asked ←
            if dto.openOnly = some true then some <$> MarketsQuery.dateNow.request else pure none
          let (rows, total) ← (MarketsQuery.findMany (MarketsService.whereOf dto asked) dto.sort
            dto.order dto.offset dto.limit).request
          let now ← MarketsQuery.dateNow.request
          return MarketsService.paginate (rows.map (MarketsService.render cfg now)) total dto :
          Markets Json)
        RedisService.setJson (MarketsService.listKey dto) fresh (some MarketsService.listTtl)
        return fresh) := by
  -- From the moment the filter is known.
  have queried : ∀ (opening : MarketsJournal) (date : Option Date),
      (if dto.openOnly = some true then ∃ opened time, date = some time ∧
          opening = [⟨opened, .inr .dateNow, .ok time⟩]
        else date = none ∧ opening = []) →
      FollowsView cfg (.list dto)
        (⟨asked, .inl (.get (MarketsService.listKey dto)), .ok raw⟩ :: opening)
        (do
          let fresh ← (do
            let (rows, total) ← (MarketsQuery.findMany (MarketsService.whereOf dto date) dto.sort
              dto.order dto.offset dto.limit).request
            let now ← MarketsQuery.dateNow.request
            return MarketsService.paginate (rows.map (MarketsService.render cfg now)) total dto :
            Markets Json)
          RedisService.setJson (MarketsService.listKey dto) fresh (some MarketsService.listTtl)
          return fresh) := by
    intro opening date filtered
    refine .bind (.perform_bind trivial (fun first found => ?_) fun _ _ _ same => by cases same)
    refine .perform_bind trivial (fun second now => ?_) fun _ _ _ same => by cases same
    have backs : (MarketsRequest.list dto).Backs cfg
        (⟨asked, .inl (.get (MarketsService.listKey dto)), .ok raw⟩ :: opening ++
          [⟨first.moment, .inr (.findMany (MarketsService.whereOf dto date) dto.sort dto.order
            dto.offset dto.limit), .ok found⟩, ⟨second.moment, .inr .dateNow, .ok now⟩])
        (MarketsService.paginate (found.1.map (MarketsService.render cfg now)) found.2 dto) :=
      ⟨asked, raw, opening, date, first.moment, found, second.moment, now, rfl, filtered, rfl⟩
    have noted : noted MarketsWorld.moment (noted MarketsWorld.moment
        (⟨asked, .inl (.get (MarketsService.listKey dto)), .ok raw⟩ :: opening) first
          (.inr (.findMany (MarketsService.whereOf dto date) dto.sort dto.order dto.offset dto.limit))
          (.ok found)) second (.inr .dateNow) (.ok now) =
        ⟨asked, .inl (.get (MarketsService.listKey dto)), .ok raw⟩ :: opening ++
          [⟨first.moment, .inr (.findMany (MarketsService.whereOf dto date) dto.sort dto.order
            dto.offset dto.limit), .ok found⟩, ⟨second.moment, .inr .dateNow, .ok now⟩] := by
      simp [Async.noted]
    rw [noted]
    refine .perform_bind ⟨_, _, rfl, rfl, rfl, backs⟩ (fun third _ => ?_)
      fun _ _ _ same => by cases same
    intro json same
    obtain rfl := Except.ok.inj same
    exact ⟨_, _, rfl, .inr ⟨_, third.moment, rfl, backs⟩⟩
  by_cases open_ : dto.openOnly = some true
  · simp only [if_pos open_]
    refine ⟨trivial, fun world answer => ?_⟩
    cases answer with
    | error thrown => exact fun _ same => by cases same
    | ok time =>
        exact queried [⟨world.moment, .inr .dateNow, .ok time⟩] (some time)
          (by rw [if_pos open_]; exact ⟨world.moment, time, rfl, rfl⟩)
  · simp only [if_neg open_]
    exact queried [] none (by rw [if_neg open_]; exact ⟨rfl, rfl⟩)

theorem list_follows (dto : ListMarketsDto) :
    FollowsView cfg (.list dto) [] (MarketsService.list cfg dto) := by
  refine .bind (.perform_bind ⟨rfl, _, rfl⟩ (fun world raw => ?_) fun _ _ _ same => by cases same)
  cases raw with
  | none => exact wrap_follows dto world.moment none
  | some text =>
      cases parsed : Json.parse text with
      | none =>
          simp only [Option.bind_some, parsed]
          exact wrap_follows dto world.moment (some text)
      | some value =>
          have cached : ∀ json, (.ok value : Except MarketsError Json) = .ok json →
              (MarketsRequest.list dto).ViewFinish cfg [⟨world.moment,
                .inl (.get (MarketsService.listKey dto)), .ok (some text)⟩] json := by
            intro json same
            obtain rfl := Except.ok.inj same
            exact ⟨_, _, rfl, .inl ⟨_, text, rfl, parsed⟩⟩
          cases value <;> simp only [Option.bind_some, parsed]
          case null => exact wrap_follows dto world.moment (some text)
          all_goals exact cached

/-- **Every request keeps to its calls.** -/
theorem MarketsRequest.start_follows (request : MarketsRequest) :
    Follows (noted MarketsWorld.moment) (fun stage op => request.Permits cfg stage op)
      (fun stage outcome => request.Finish cfg stage outcome) [] (request.start cfg) := by
  have view : ∀ task : Markets Json, FollowsView cfg request [] task →
      Follows (noted MarketsWorld.moment) (request.ViewPermits cfg)
        (fun stage outcome => ∀ answer, outcome = .ok answer →
          ∃ json, answer = some json ∧ request.ViewFinish cfg stage json) []
        (do return some (← task)) := by
    intro task follows
    refine .bind (.mono follows fun stage outcome finish => ?_)
    cases outcome with
    | error thrown => exact fun _ same => by cases same
    | ok json =>
        intro answer same
        obtain rfl := Except.ok.inj same
        exact ⟨json, rfl, finish json rfl⟩
  cases request with
  | getById id => exact view _ (getById_follows id)
  | list dto => exact view _ (list_follows dto)
  | invalidateDetail marketRef =>
      refine .perform_bind ⟨rfl, rfl⟩ (fun world _ => ?_) fun _ _ _ same => by cases same
      intro answer same
      obtain rfl := Except.ok.inj same
      exact ⟨rfl, world.moment, rfl⟩
  | invalidateLists rounds =>
      refine .bind (.mono (delPattern_follows _ rounds _) fun stage outcome swept => ?_)
      cases outcome with
      | error thrown => exact fun _ same => by cases same
      | ok done =>
          intro answer same
          obtain rfl := Except.ok.inj same
          exact ⟨rfl, swept rfl⟩

end Follows

/-! ## Answers -/

/-- The request has read the database itself, after it looked into the cache. -/
def MarketsRequest.ReadItself (request : MarketsRequest) (stage : MarketsJournal)
    (world : MarketsWorld) (json : Json) : Prop :=
  ∃ asked read, (stage.head?).map Exchange.moment = some asked ∧ asked < read ∧
    request.Shows cfg history read world.moment json

/-- The view was in the cache. It had been written by an equal request, less than its time to
live ago, and after any invalidation that is completed had begun. -/
def MarketsRequest.FoundCached (request : MarketsRequest) (world : MarketsWorld)
    (threads : List (Thread (RedisAnswer MarketsQuery.Rows) MarketsError (Option Json)
      MarketsRequest MarketsJournal)) (json : Json) : Prop :=
  ∃ key ttl read written, request.cached = some (key, ttl) ∧
    request.Shows cfg history read written json ∧
    (∃ filler ∈ threads, filler.request = request ∧ ∃ answer,
      ⟨written, .inl (.set key json.stringify (some ttl)), answer⟩ ∈ filler.stage) ∧
    written < world.moment ∧
    history.clock world.moment < history.clock written + 1000 * ttl ∧
    ∀ drop ∈ threads, drop.task = .done (.ok none) → drop.request.Drops key →
      ∃ began, (drop.stage.head?).map Exchange.moment = some began ∧ began ≤ written

/-! ## Runs -/

section Runs

variable {cfg history} {records : List Unit} {world : MarketsWorld}
  {threads : List (Thread (RedisAnswer MarketsQuery.Rows) MarketsError (Option Json) MarketsRequest
    MarketsJournal)}

/-- What a query was answered was so at its moment. -/
theorem replies_of_journal
    (run : (marketsSystem cfg history).Run (MarketsScans history) records world threads)
    {thread : Thread (RedisAnswer MarketsQuery.Rows) MarketsError (Option Json) MarketsRequest
      MarketsJournal} (member : thread ∈ threads) {moment : Nat} {query : MarketsQuery}
    {answer : Except MarketsError query.Rows}
    (noted : (⟨moment, .inr query, answer⟩ : Exchange (RedisAnswer MarketsQuery.Rows) MarketsError) ∈
      thread.stage) : query.Replies cfg history moment answer := by
  obtain ⟨before, after, stage⟩ := List.append_of_mem noted
  refine (marketsSystem_served cfg history).journals.each run (fun _ _ entry =>
    ∀ moment query (answer : Except MarketsError (MarketsQuery.Rows query)),
      entry = ⟨moment, .inr query, answer⟩ → query.Replies cfg history moment answer) ?_
    thread member before _ after stage moment query answer rfl
  intro world threads position request stage op continued answer record later turn moment query
    given same
  cases same
  exact turn.answered.2.2.1

/-- **What a request has rendered is what it shows of the database.** -/
theorem shows_of_backs
    (run : (marketsSystem cfg history).Run (MarketsScans history) records world threads)
    {thread : Thread (RedisAnswer MarketsQuery.Rows) MarketsError (Option Json) MarketsRequest
      MarketsJournal} (member : thread ∈ threads) {before after : MarketsJournal} {json : Json}
    {until_ : Nat} (stage : thread.stage = before ++ after)
    (backs : thread.request.Backs cfg before json)
    (past : ∀ entry ∈ before, entry.moment < until_) :
    ∃ asked read, (before.head?).map Exchange.moment = some asked ∧ asked < read ∧
      thread.request.Shows cfg history read until_ json := by
  have ordered := (marketsSystem_served cfg history).journals.ordered run thread member
  rw [stage] at ordered
  replace ordered := (List.pairwise_append.mp ordered).1
  have replied : ∀ moment query (answer : Except MarketsError (MarketsQuery.Rows query)),
      (⟨moment, .inr query, answer⟩ : Exchange (RedisAnswer MarketsQuery.Rows) MarketsError) ∈
        before → query.Replies cfg history moment answer := fun moment query answer noted =>
    replies_of_journal run member (by rw [stage]; exact List.mem_append_left _ noted)
  cases request : thread.request with
  | getById id =>
      rw [request] at backs
      obtain ⟨asked, raw, read, row, rendered, now, rfl, rfl⟩ := backs
      simp only [List.pairwise_cons, List.forall_mem_cons] at ordered
      have looked : (MarketsQuery.findUnique id).Replies cfg history read (.ok (some row)) :=
        replied _ _ _ (by simp)
      have timed : MarketsQuery.dateNow.Replies cfg history rendered (.ok now) :=
        replied _ _ _ (by simp)
      refine ⟨asked, read, rfl, ordered.1.1, row, rendered, ?_, ordered.2.1.1,
        past ⟨rendered, .inr .dateNow, .ok now⟩ (by simp), ?_⟩
      · rcases looked with found | failed
        · exact (Except.ok.inj found).symm
        · cases failed
      · rw [Except.ok.inj timed]
  | list dto =>
      rw [request] at backs
      obtain ⟨asked, raw, opening, date, read, found, rendered, now, rfl, filtered, rfl⟩ := backs
      have firstLast := List.pairwise_append.mp ordered
      have last := firstLast.2.1
      simp only [List.pairwise_cons, List.forall_mem_cons] at last
      have looked : (MarketsQuery.findMany (MarketsService.whereOf dto date) dto.sort dto.order
          dto.offset dto.limit).Replies cfg history read (.ok found) := replied _ _ _ (by simp)
      have timed : MarketsQuery.dateNow.Replies cfg history rendered (.ok now) :=
        replied _ _ _ (by simp)
      refine ⟨asked, read, rfl, firstLast.2.2 _ List.mem_cons_self _ List.mem_cons_self, date,
        found, rendered, ?_, ?_, last.1.1, past ⟨rendered, .inr .dateNow, .ok now⟩ (by simp), ?_⟩
      · split at filtered
        · rename_i open_
          obtain ⟨opened, time, rfl, rfl⟩ := filtered
          rw [if_pos open_]
          have opening : MarketsQuery.dateNow.Replies cfg history opened (.ok time) :=
            replied _ _ _ (by simp)
          refine ⟨opened, firstLast.2.2 ⟨opened, .inr .dateNow, .ok time⟩ (by simp) _
            List.mem_cons_self, ?_⟩
          rw [Except.ok.inj opening]
        · rename_i shut
          rw [if_neg shut]
          exact filtered.1
      · rcases looked with ⟨page, same, shown⟩ | failed
        · rw [Except.ok.inj same]
          exact shown
        · cases failed
      · rw [Except.ok.inj timed]
  | invalidateDetail marketRef =>
      rw [request] at backs
      exact backs.elim
  | invalidateLists rounds =>
      rw [request] at backs
      exact backs.elim

/-! ### Keys -/

/-- A view's key names its request. -/
theorem cached_injective {first second : MarketsRequest} {key : JsString} {ttl other : Nat}
    (cachedFirst : first.cached = some (key, ttl)) (cachedSecond : second.cached = some (key, other)) :
    first = second := by
  cases first <;> cases cachedFirst <;> cases second <;>
    simp only [MarketsRequest.cached, Option.some.injEq, Prod.mk.injEq, reduceCtorEq] at cachedSecond
  · rw [MarketsService.detailKey_injective cachedSecond.1]
  · exact absurd (cachedSecond.1 ▸ MarketsService.prefix_listKey _)
      (MarketsService.not_prefix_detailKey _)
  · exact absurd (cachedSecond.1 ▸ MarketsService.prefix_listKey _)
      (MarketsService.not_prefix_detailKey _)
  · rw [MarketsService.listKey_injective cachedSecond.1]

theorem owns_cached {request : MarketsRequest} {key : JsString} {ttl : Nat}
    (cached : request.cached = some (key, ttl)) : ownsMarketKey key := by
  cases request <;> cases cached
  · exact ⟨ascii "detail:" ++ _, rfl⟩
  · exact ⟨ascii "list:" ++ _, rfl⟩

theorem owns_dropped {request : MarketsRequest} {key : JsString} (drops : request.Drops key) :
    ownsMarketKey key := by
  cases request with
  | invalidateDetail marketRef =>
      obtain rfl := drops
      exact ⟨ascii "detail:" ++ marketRef, rfl⟩
  | invalidateLists _ =>
      obtain ⟨rest, rfl⟩ := drops
      exact ⟨ascii "list:" ++ rest, rfl⟩
  | getById _ | list _ => exact drops.elim

/-- What is cached is read back as it was computed. -/
theorem wellFormed_of_backs {request : MarketsRequest} {stage : MarketsJournal} {json : Json}
    (backs : request.Backs cfg stage json) : json.WellFormed := by
  cases request with
  | getById id =>
      obtain ⟨_, _, _, _, _, _, -, rfl⟩ := backs
      exact MarketView.wellFormed_toJson _ _
  | list dto =>
      obtain ⟨_, _, _, _, _, found, _, now, -, -, rfl⟩ := backs
      have items : (Json.array (found.1.map (MarketsService.render cfg now))).WellFormed := by
        refine Json.wellFormed_array fun item listed => ?_
        obtain ⟨row, -, rfl⟩ := List.mem_map.mp listed
        exact MarketView.wellFormed_toJson _ _
      refine Json.wellFormed_object ?_
      simp only [List.map_cons, List.map_nil, member, List.forall_mem_cons]
      exact ⟨items, Json.wellFormed_ofNat _, Json.wellFormed_ofNat _, Json.wellFormed_ofNat _,
        List.forall_mem_nil _⟩
  | invalidateDetail _ | invalidateLists _ => exact backs.elim

/-! ### Invalidations -/

/-- **What a completed invalidation drops is younger than its beginning.** -/
theorem younger_of_completed
    (run : (marketsSystem cfg history).Run (MarketsScans history) records world threads)
    {drop : Thread (RedisAnswer MarketsQuery.Rows) MarketsError (Option Json) MarketsRequest
      MarketsJournal} (member : drop ∈ threads) (completed : drop.task = .done (.ok none))
    {key : JsString} (drops : drop.request.Drops key) :
    ∃ began, (drop.stage.head?).map Exchange.moment = some began ∧
      ∀ entry, world.keys.find? history.clock world.moment key = some entry →
        began ≤ entry.written := by
  have served := marketsSystem_served cfg history
  have finished : drop.request.Finish cfg drop.stage (.ok none) := by
    have follows := run.follows (fun request => request.start_follows) drop member
    rw [completed] at follows
    exact follows
  have mine := owns_dropped drops
  have written : ∀ began, world.keys.Younger history.clock world.moment began key →
      ∀ entry, world.keys.find? history.clock world.moment key = some entry →
        began ≤ entry.written := fun began younger entry found =>
    Nat.le_trans (younger entry found)
      (served.written run key entry mine (RedisKeys.find?_eq_some.mp found).1).1
  cases request : drop.request with
  | invalidateDetail marketRef =>
      rw [request] at finished drops
      obtain rfl := drops
      obtain ⟨-, began, stage⟩ := finished none rfl
      refine ⟨began, by rw [stage]; rfl, written began ?_⟩
      exact served.deleted run drop member began _ _ (by rw [stage]; exact List.mem_singleton_self _)
        (List.mem_singleton_self _) mine
  | invalidateLists rounds =>
      rw [request] at finished drops
      obtain ⟨-, began, swept⟩ := finished none rfl
      obtain ⟨before, after, ended, stage, -⟩ := id swept
      refine ⟨began, by rw [stage]; rfl, written began ?_⟩
      exact served.swept run member swept mine (MarketsService.globMatches_listPattern.mpr drops)
  | getById _ | list _ =>
      rw [request] at drops
      exact drops.elim

/-! ### Views -/

theorem foundCached
    (run : (marketsSystem cfg history).Run (MarketsScans history) records world threads)
    {request : MarketsRequest} {key : JsString} {ttl : Nat} (cached : request.cached = some (key, ttl))
    {entry : RedisEntry} (found : world.keys.find? history.clock world.moment key = some entry)
    {json : Json} (parsed : Json.parse entry.value = some json) :
    request.FoundCached cfg history world threads json := by
  have served := marketsSystem_served cfg history
  obtain ⟨present, alive⟩ := RedisKeys.find?_eq_some.mp found
  obtain ⟨-, filler, member, before, after, seconds, answer, stage, expires⟩ :=
    served.written run key entry (owns_cached cached) present
  have permitted := served.journals.allowed run (fun request => request.start_follows) filler member
    before _ after stage
  -- Only a request for a view writes, under its own key.
  obtain ⟨own, fresh, cachedFiller, rfl, value, backs⟩ : filler.request.ViewPermits cfg before
      (.inl (.set key entry.value seconds)) := by
    cases request : filler.request with
    | getById _ | list _ =>
        rw [request] at permitted
        exact permitted
    | invalidateDetail _ =>
        rw [request] at permitted
        cases permitted.2
    | invalidateLists _ =>
        rw [request] at permitted
        exact permitted.elim
  obtain rfl := cached_injective cachedFiller cached
  obtain ⟨-, rfl⟩ := Prod.mk.inj (Option.some.inj (cachedFiller.symm.trans cached))
  have same : fresh = json := by
    rw [value, Json.parse_stringify_of_wellFormed fresh (wellFormed_of_backs backs)] at parsed
    exact Option.some.inj parsed
  subst same
  have noted : (⟨entry.written, .inl (.set key entry.value (some own)), answer⟩ :
      Exchange (RedisAnswer MarketsQuery.Rows) MarketsError) ∈ filler.stage := by
    rw [stage]
    exact List.mem_append_right _ List.mem_cons_self
  have ordered := served.journals.ordered run filler member
  rw [stage] at ordered
  obtain ⟨asked, read, -, -, shows⟩ := shows_of_backs run member stage backs fun earlier listed =>
    (List.pairwise_append.mp ordered).2.2 earlier listed _ List.mem_cons_self
  rw [expires] at alive
  refine ⟨key, own, read, entry.written, cached, shows,
    ⟨filler, member, rfl, answer, value ▸ noted⟩, served.journals.past run filler member _ noted,
    alive _ rfl, fun drop among completed drops => ?_⟩
  obtain ⟨began, first, younger⟩ := younger_of_completed run among completed drops
  exact ⟨began, first, younger entry found⟩

/-- What `SCAN` comes to for a sweep is a list's. -/
theorem prefix_of_cameTo
    (run : (marketsSystem cfg history).Run (MarketsScans history) records world threads)
    {thread : Thread (RedisAnswer MarketsQuery.Rows) MarketsError (Option Json) MarketsRequest
      MarketsJournal} (member : thread ∈ threads) {key : JsString} (came : CameTo thread.stage key) :
    ascii "cache:markets:list:" <+: key := by
  have served := marketsSystem_served cfg history
  obtain ⟨moment, names, noted, listed⟩ := came
  obtain ⟨before, after, stage⟩ := List.append_of_mem noted
  -- Only a sweep asks for keys, and it has opened its stream before.
  have opened : ∃ began, (⟨began, .inl (.scanStream MarketsService.listPattern 200), .ok ()⟩ :
      Exchange (RedisAnswer MarketsQuery.Rows) MarketsError) ∈ before := by
    have permitted := served.journals.allowed run (fun request => request.start_follows) thread
      member before _ after stage
    cases request : thread.request with
    | invalidateLists _ =>
        rw [request] at permitted
        exact permitted
    | invalidateDetail _ =>
        rw [request] at permitted
        cases permitted.2
    | getById _ | list _ =>
        rw [request] at permitted
        exact permitted.elim
  obtain ⟨began, opening⟩ := opened
  refine MarketsService.globMatches_listPattern.mp ?_
  refine served.journals.each run (fun _ before entry => ∀ began moment names,
    (⟨began, .inl (.scanStream MarketsService.listPattern 200), .ok ()⟩ :
      Exchange (RedisAnswer MarketsQuery.Rows) MarketsError) ∈ before →
    entry = ⟨moment, .inl .nextKeys, .ok (some names)⟩ → ∀ key ∈ names,
      JsString.globMatches MarketsService.listPattern key = true) ?_ thread member before _ after stage
    began moment names opening rfl key listed
  intro world threads position request stage op continued answer record later turn began moment names
    opening same
  exact (turn.met _ began _ 200 turn.found opening).1 names (by cases same; rfl)

end Runs

/-! ## A computed run -/

namespace SampleMarkets

def ref : JsString := ascii "0f8fad5b-d9cb-469f-a165-70867728950e"

def config : MarketsConfig := ⟨6, fun value _ => JsString.ofInt value, fun _ => ref⟩

/-- A market right after its creation. -/
def row : MarketRow where
  key := ⟨ascii "0xe0", 1⟩
  market := {
    collateral := ascii "0xc0", resolver := ascii "0xd0", startTime := ⟨0⟩, closeTime := ⟨9000⟩
    outcomeCount := 2, categoryKey := none, metadataHash := [], creator := ascii "0xa0", alpha := 1
    sStar := 1, seed := 100, pot := 100, title := [], description := [], resolutionRules := []
    imageUrl := none, createdBlock := 7, createdTx := [], outcomes := [] }
  resolution := none
  createdAt := ⟨0⟩

/-- A millisecond passes with every call, and nothing changes in the database. -/
def steady : MarketsHistory := ⟨fun moment => moment, monotone_id, fun _ => ⟨1000⟩, fun _ => [row],
  fun _ _ => false⟩

/-- Every call is answered; the one stream comes to the one list that is cached. -/
def answer : Async.Responder (RedisAnswer MarketsQuery.Rows) MarketsError MarketsWorld
  | .inl command, world =>
      (.ok (match command with
        | .get key => (world.keys.find? steady.clock world.moment key).map RedisEntry.value
        | .set _ _ _ | .del _ | .scanStream _ _ => ()
        | .nextKeys => if world.moment = 14 then some [MarketsService.listKey {}] else none),
        ⟨world.moment + 1, command.effect steady.clock world.moment world.keys⟩)
  | .inr .dateNow, world => (.ok (steady.wall world.moment), ⟨world.moment + 1, world.keys⟩)
  | .inr (.findUnique own), world =>
      (.ok (steady.findUnique config world.moment own), ⟨world.moment + 1, world.keys⟩)
  | .inr (.findMany where_ _ _ skip take), world =>
      let found := (steady.rows world.moment).filter (where_.admits steady.contains)
      (.ok ((found.drop skip).take take, found.length), ⟨world.moment + 1, world.keys⟩)

/-- Whether an iteration has come to a key. -/
def comesTo (stage : MarketsJournal) (key : JsString) : Bool :=
  stage.any fun
    | ⟨_, .inl .nextKeys, .ok (some names)⟩ => decide (key ∈ names)
    | _ => false

theorem cameTo_of_comesTo {stage : MarketsJournal} {key : JsString}
    (comes : comesTo stage key = true) : CameTo stage key := by
  obtain ⟨entry, member, listed⟩ := List.any_eq_true.mp comes
  split at listed
  · rename_i moment names
    exact ⟨moment, names, member, of_decide_eq_true listed⟩
  · cases listed

/-- What a stream comes to matches, and when it ends it has come to all that matches and was ever
written. -/
def scanned (_ : MarketsWorld)
    (threads : List (Thread (RedisAnswer MarketsQuery.Rows) MarketsError (Option Json) MarketsRequest
      MarketsJournal)) (position : Nat) (op : RedisCommand ⊕ MarketsQuery)
    (answer : Except MarketsError (RedisAnswer MarketsQuery.Rows op)) : Bool :=
  (threads[position]?).all fun thread => thread.stage.all fun entry =>
    match entry.op with
    | .inl (.scanStream pattern _) => decide (pattern = MarketsService.listPattern) &&
        match op, answer with
        | .inl .nextKeys, .ok (some names) => names.all (JsString.globMatches pattern)
        | .inl .nextKeys, .ok none => threads.all fun other => other.stage.all fun written =>
            match written.op with
            | .inl (.set key _ _) => !JsString.globMatches pattern key || comesTo thread.stage key
            | _ => true
        | _, _ => true
    | _ => true

/-- `SCAN` keeps its promise where that is so. -/
theorem scans_of_scanned {records : List Unit} {world : MarketsWorld}
    {threads : List (Thread (RedisAnswer MarketsQuery.Rows) MarketsError (Option Json) MarketsRequest
      MarketsJournal)} {position : Nat} {op : RedisCommand ⊕ MarketsQuery}
    {answer : Except MarketsError (RedisAnswer MarketsQuery.Rows op)}
    (run : (marketsSystem config steady).Run (MarketsScans steady) records world threads)
    (passed : scanned world threads position op answer = true) :
    MarketsScans steady world threads position op answer := by
  intro thread began pattern count found opened
  unfold scanned at passed
  rw [found, Option.all_some, List.all_eq_true] at passed
  obtain ⟨listed, comes⟩ := Bool.and_eq_true_iff.mp (passed _ opened)
  obtain rfl : pattern = MarketsService.listPattern := of_decide_eq_true listed
  constructor
  · intro names same key among
    cases same
    exact List.all_eq_true.mp comes key among
  · intro same key entry matched cached _
    cases same
    have mine : ownsMarketKey key :=
      List.IsPrefix.trans ⟨ascii "list:", rfl⟩ (MarketsService.globMatches_listPattern.mp matched)
    obtain ⟨-, writer, member, before, after, seconds, given, stage, -⟩ :=
      (marketsSystem_served config steady).written run key entry mine
        (RedisKeys.find?_eq_some.mp cached).1
    have noted := List.all_eq_true.mp (List.all_eq_true.mp comes writer member) _
      (by rw [stage]; exact List.mem_append_right _ List.mem_cons_self)
    rcases Bool.or_eq_true_iff.mp noted with other | came
    · rw [matched] at other
      cases other
    · exact cameTo_of_comesTo came

/-- A view is computed and cached, dropped, and computed and cached again; and so is a list, which
a sweep drops. -/
def moves : List (System.Move MarketsRequest) :=
  .arrive (.getById ref) :: List.replicate 4 (.call 0) ++
    .arrive (.invalidateDetail ref) :: .call 1 ::
    .arrive (.getById ref) :: List.replicate 4 (.call 2) ++
    .arrive (.list {}) :: List.replicate 4 (.call 3) ++
    .arrive (.invalidateLists 3) :: List.replicate 4 (.call 4) ++
    .arrive (.list {}) :: List.replicate 4 (.call 5)

/-- What the moves lead to. -/
def reached : Option (System.Standing (RedisAnswer MarketsQuery.Rows) MarketsError (Option Json)
    MarketsRequest MarketsJournal MarketsWorld Unit) :=
  (marketsSystem config steady).play answer (fun _ _ => []) scanned moves
    (marketsSystem config steady).standing

theorem run_of_reached {standing : System.Standing (RedisAnswer MarketsQuery.Rows) MarketsError
    (Option Json) MarketsRequest MarketsJournal MarketsWorld Unit} (played : reached = some standing) :
    (marketsSystem config steady).Run (MarketsScans steady) standing.records standing.world
      standing.threads := by
  refine System.run_of_play_along _ answer (fun _ _ => []) scanned ?_ moves System.Run.start played
  intro records world threads position op run passed
  refine ⟨⟨rfl, ?_, ?_⟩, scans_of_scanned run passed⟩
  · rcases op with command | ⟨⟩ | ⟨⟩ | ⟨⟩ <;> rfl
  · rcases op with command | query
    · refine .inl ⟨_, rfl, ?_, rfl⟩
      cases command <;> first | rfl | trivial
    · cases query with
      | dateNow => exact ⟨rfl, rfl⟩
      | findUnique own => exact ⟨.inl rfl, rfl⟩
      | findMany where_ sort order skip take =>
          refine ⟨.inl ⟨_, rfl, _, .refl _, ?_, rfl⟩, rfl⟩
          have one : [row].filter (where_.admits steady.contains) = [] ∨
              [row].filter (where_.admits steady.contains) = [row] := by
            cases admitted : where_.admits steady.contains row <;> simp [admitted]
          change order.Sorted _ ([row].filter _)
          rcases one with none | one
          · rw [none]
            cases order <;> exact .nil
          · rw [one]
            cases order <;> exact List.pairwise_singleton _ _

/-- A key that a request drops, when it began, and whether it is completed. -/
def dropping (thread : Thread (RedisAnswer MarketsQuery.Rows) MarketsError (Option Json)
    MarketsRequest MarketsJournal) : Option JsString × Option Nat × Bool :=
  (match thread.request with
    | .invalidateDetail marketRef => some (MarketsService.detailKey marketRef)
    | .invalidateLists _ => some (MarketsService.listKey {})
    | _ => none,
  (thread.stage.head?).map Exchange.moment,
  match thread.task with
    | .done (.ok none) => true
    | _ => false)

/-- A request for a market that is cached returns what it finds. -/
theorem getById_found (own : JsString) : ∃ continued,
    (MarketsRequest.getById own).start config =
      .call (.inl (.get (MarketsService.detailKey own))) continued ∧
    ∀ text members, Json.parse text = some (.object members) →
      continued (.ok (some text)) = .done (.ok (some (.object members))) := by
  refine ⟨_, rfl, fun text members parsed => ?_⟩
  simp only [Async.bind, Async.pure_eq, Option.bind_some, parsed]
  rfl

end SampleMarkets

/-- **A view is what its request shows of the database.** Whenever a request returns a view, it
has read the database itself after it looked into the cache, or it has found a view there that
an equal request had computed: written less than its time to live ago, and not before any
invalidation of it began that is completed. -/
theorem views_served (cfg : MarketsConfig) (history : MarketsHistory) {world : MarketsWorld}
    {threads : List (Thread (RedisAnswer MarketsQuery.Rows) MarketsError (Option Json) MarketsRequest
      MarketsJournal)} {position : Nat} {request : MarketsRequest} {stage : MarketsJournal}
    {op : RedisCommand ⊕ MarketsQuery}
    {answer : Except MarketsError (RedisAnswer MarketsQuery.Rows op)}
    {continued : Except MarketsError (RedisAnswer MarketsQuery.Rows op) → Markets (Option Json)}
    {record : List Unit} {later : MarketsWorld} {json : Json}
    (turn : (marketsSystem cfg history).Turn (MarketsScans history) world threads position request
      stage op continued answer record later)
    (returned : continued answer = .done (.ok (some json))) :
    request.ReadItself cfg history stage world json ∨
      request.FoundCached cfg history world threads json := by
  obtain ⟨_, earlier⟩ := turn.before
  have caller := List.mem_of_getElem? turn.found
  have finished : request.Finish cfg (noted MarketsWorld.moment stage world op answer)
      (.ok (some json)) := by
    have follows := (earlier.follows (fun request => request.start_follows) _ caller).2 world answer
    change Follows _ _ _ _ (continued answer) at follows
    rw [returned] at follows
    exact follows
  have view : request.ViewFinish cfg (noted MarketsWorld.moment stage world op answer) json := by
    cases request with
    | getById _ | list _ =>
        obtain ⟨_, same, view⟩ := finished _ rfl
        obtain rfl := Option.some.inj same
        exact view
    | invalidateDetail _ | invalidateLists _ => cases (finished _ rfl).1
  obtain ⟨key, ttl, cached, ⟨asked, text, journal, parsed⟩ | ⟨before, written, journal, backs⟩⟩ := view
  · have first : stage ++ [⟨world.moment, op, answer⟩] =
        [] ++ [⟨asked, .inl (.get key), .ok (some text)⟩] := journal
    obtain ⟨rfl, entry⟩ := List.append_inj' first rfl
    cases List.singleton_injective entry
    refine .inr ?_
    rcases turn.answered.2.2 with ⟨reply, same, replied, -⟩ | ⟨⟨_, failed⟩, -⟩
    · obtain rfl := Except.ok.inj same
      obtain ⟨entry, found, rfl⟩ := Option.map_eq_some_iff.mp replied.symm
      exact foundCached earlier cached found parsed
    · cases failed
  · obtain ⟨rfl, -⟩ := List.append_inj' journal rfl
    exact .inl (shows_of_backs earlier caller (List.append_nil _).symm backs
      ((marketsSystem_served cfg history).journals.past earlier _ caller))

open SampleMarkets in
/-- A view that was computed again after an invalidation is served from the cache. -/
theorem views_served_again : ∃ standing, reached = some standing ∧
    (MarketsRequest.getById ref).FoundCached config steady standing.world
      (standing.threads ++ [(marketsSystem config steady).arrived (.getById ref)])
      (MarketsService.render config ⟨1000⟩ row) := by
  have played : reached.map (fun standing =>
      (standing.world.keys.find? steady.clock standing.world.moment
        (MarketsService.detailKey ref)).map RedisEntry.value) =
      some (some (MarketsService.render config ⟨1000⟩ row).stringify) := by decide +kernel
  obtain ⟨standing, same, cached⟩ := Option.map_eq_some_iff.mp played
  have parsed := Json.parse_stringify_of_wellFormed (MarketsService.render config ⟨1000⟩ row)
    (MarketView.wellFormed_toJson _ _)
  obtain ⟨continued, starts, returns⟩ := getById_found ref
  have turn : (marketsSystem config steady).Turn (MarketsScans steady) standing.world
      (standing.threads ++ [(marketsSystem config steady).arrived (.getById ref)])
      standing.threads.length (.getById ref) [] (.inl (.get (MarketsService.detailKey ref))) continued
      (.ok (some (MarketsService.render config ⟨1000⟩ row).stringify)) []
      ⟨standing.world.moment + 1, standing.world.keys⟩ :=
    ⟨⟨_, .arrive (run_of_reached same) _⟩,
      by rw [List.getElem?_concat_length, ← starts]; rfl, ⟨rfl, rfl, .inl ⟨_, rfl, cached.symm, rfl⟩⟩, by
        intro thread began pattern count found opened
        rw [List.getElem?_concat_length] at found
        obtain rfl := Option.some.inj found
        exact absurd opened List.not_mem_nil⟩
  refine ⟨standing, same, (views_served config steady turn (returns _ _ parsed)).resolve_left ?_⟩
  · rintro ⟨_, _, none, -⟩
    cases none

/-- **An invalidation drops what it should, and nothing else.** Once one is completed, what is
found under a key that it drops was written after it had begun; and of the keys that it does not
drop, its calls leave what is under them as it is. -/
theorem invalidation_exact (cfg : MarketsConfig) (history : MarketsHistory) {records : List Unit}
    {world : MarketsWorld}
    {threads : List (Thread (RedisAnswer MarketsQuery.Rows) MarketsError (Option Json) MarketsRequest
      MarketsJournal)}
    (run : (marketsSystem cfg history).Run (MarketsScans history) records world threads) :
    (∀ drop ∈ threads, drop.task = .done (.ok none) → ∀ key, drop.request.Drops key →
      ∃ began, (drop.stage.head?).map Exchange.moment = some began ∧
        ∀ entry, world.keys.find? history.clock world.moment key = some entry →
          began ≤ entry.written) ∧
      ∀ position request stage op continued answer record later,
        (marketsSystem cfg history).Turn (MarketsScans history) world threads position request stage
          op continued answer record later →
        request.cached = none → ∀ key, ¬ request.Drops key → later.keys key = world.keys key := by
  refine ⟨fun drop member completed key drops => younger_of_completed run member completed drops, ?_⟩
  intro position request stage op continued answer record later turn invalidates key spared
  obtain ⟨_, earlier⟩ := turn.before
  have caller := List.mem_of_getElem? turn.found
  have permitted : request.Permits cfg stage op :=
    (earlier.follows (fun request => request.start_follows) _ caller).1
  cases op with
  | inr query => rw [turn.answered.2.2.2]
  | inl command =>
      have unmoved : command.effect history.clock world.moment world.keys key = world.keys key := by
        cases request with
        | getById _ | list _ => cases invalidates
        | invalidateDetail marketRef =>
            cases permitted.2
            exact if_neg fun listed => spared (List.mem_singleton.mp listed)
        | invalidateLists rounds =>
            cases command with
            | get _ | set _ _ _ => exact permitted.elim
            | scanStream _ _ | nextKeys => rfl
            | del names =>
                exact if_neg fun listed => spared (prefix_of_cameTo earlier caller (permitted key listed))
      rcases turn.answered.2.2 with ⟨-, -, -, same⟩ | ⟨-, same | same⟩
      · rw [same, unmoved]
      · rw [same]
      · rw [same, unmoved]

open SampleMarkets in
/-- What is found in that run, of the market and of the list, was written after it was
invalidated. -/
theorem invalidation_exact_again : ∃ standing, reached = some standing ∧
    (∃ entry, standing.world.keys.find? steady.clock standing.world.moment
        (MarketsService.detailKey ref) = some entry ∧ 4 ≤ entry.written) ∧
      ∃ entry, standing.world.keys.find? steady.clock standing.world.moment
        (MarketsService.listKey {}) = some entry ∧ 13 ≤ entry.written := by
  have detail : reached.map (fun standing => (standing.threads[1]?).map dropping) =
      some (some (some (MarketsService.detailKey ref), some 4, true)) := by decide +kernel
  have list : reached.map (fun standing => (standing.threads[4]?).map dropping) =
      some (some (some (MarketsService.listKey {}), some 13, true)) := by decide +kernel
  have filled : reached.map (fun standing =>
      ((standing.world.keys.find? steady.clock standing.world.moment
          (MarketsService.detailKey ref)).isSome,
        (standing.world.keys.find? steady.clock standing.world.moment
          (MarketsService.listKey {})).isSome)) = some (true, true) := by decide +kernel
  obtain ⟨standing, same, detail⟩ := Option.map_eq_some_iff.mp detail
  rw [same, Option.map_some, Option.some.injEq] at list
  rw [same, Option.map_some, Option.some.injEq, Prod.mk.injEq] at filled
  have younger : ∀ (position : Nat) (key : JsString) (began : Nat),
      (standing.threads[position]?).map dropping = some (some key, some began, true) →
        (standing.world.keys.find? steady.clock standing.world.moment key).isSome = true →
          ∃ entry, standing.world.keys.find? steady.clock standing.world.moment key = some entry ∧
            began ≤ entry.written := by
    intro position key began summary present
    obtain ⟨entry, found⟩ := Option.isSome_iff_exists.mp present
    obtain ⟨⟨request, stage, task⟩, listed, facts⟩ := Option.map_eq_some_iff.mp summary
    simp only [dropping, Prod.mk.injEq] at facts
    obtain ⟨asks, first, ended⟩ := facts
    have completed : task = .done (.ok none) := by
      split at ended
      · rfl
      · cases ended
    have drops : request.Drops key := by
      split at asks
      · obtain rfl := Option.some.inj asks
        rfl
      · obtain rfl := Option.some.inj asks
        exact ⟨_, rfl⟩
      · cases asks
    obtain ⟨began', head, younger⟩ := (invalidation_exact config steady (run_of_reached same)).1 _
      (List.mem_of_getElem? listed) completed _ drops
    obtain rfl := Option.some.inj (first.symm.trans head)
    exact ⟨entry, found, younger entry found⟩
  exact ⟨standing, same, younger 1 _ 4 detail filled.1, younger 4 _ 13 list filled.2⟩

end Numera
