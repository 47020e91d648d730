import Mathlib.Order.Monotone.Defs
import Numera.Foundation.Exchanges
import Numera.Foundation.Json

/-! # The cache in Redis

`RedisService` keeps JSON texts under keys that expire. A service that calls Redis beside
other things makes calls of `RedisCommand ⊕ Query`, and any number of its requests run at
once. What stands under a key was written by one of them (`ServedByRedis.written`). What
a request has deleted is gone, and so is all that `delPattern` has come across, which is
all that matches and was there when it began, because `SCAN` passes over no key that is
there throughout (`ServedByRedis.deleted`, `ServedByRedis.swept`): what stands there
afterwards is younger than the deletion.
-/

namespace Numera

open Async (Exchange Follows Journals System Thread noted)

/-! ## Commands -/

/-- A command of the `client` connection. `scanStream` starts an iteration of `SCAN`, and
`nextKeys` awaits the keys it comes to next, nothing once it has ended. -/
inductive RedisCommand where
  | get (key : JsString)
  | set (key value : JsString) (seconds : Option Nat)
  | del (keys : List JsString)
  | scanStream (pattern : JsString) (count : Nat)
  | nextKeys
  deriving DecidableEq

@[reducible] def RedisCommand.Answer : RedisCommand → Type
  | get _ => Option JsString
  | set _ _ _ => Unit
  | del _ => Unit
  | scanStream _ _ => Unit
  | nextKeys => Option (List JsString)

/-- What the calls of a service are answered that makes its own queries beside commands. -/
abbrev RedisAnswer {Query : Type} (Rows : Query → Type) : RedisCommand ⊕ Query → Type :=
  Sum.elim RedisCommand.Answer Rows

section Service

variable {Query : Type} {Rows : Query → Type} {ε : Type}

/-- Await one command. -/
def RedisCommand.request (command : RedisCommand) :
    Async (RedisAnswer Rows) ε command.Answer :=
  Async.perform (.inl command : RedisCommand ⊕ Query)

namespace RedisService

/-- Nothing on a miss, on a text that does not parse, and on `null`. -/
def getJson (key : JsString) : Async (RedisAnswer Rows) ε (Option Json) := do
  let raw ← (RedisCommand.get key).request
  return match raw.bind Json.parse with
    | some .null => none
    | parsed => parsed

def setJson (key : JsString) (value : Json) (ttlSeconds : Option Nat) :
    Async (RedisAnswer Rows) ε Unit :=
  (RedisCommand.set key value.stringify (ttlSeconds.filter fun seconds => 0 < seconds)).request

def del (keys : List JsString) : Async (RedisAnswer Rows) ε Unit :=
  if keys ≠ [] then (RedisCommand.del keys).request else pure ()

/-- The cached value, or else a fresh one, which is cached. -/
def wrap (key : JsString) (ttlSeconds : Nat) (factory : Async (RedisAnswer Rows) ε Json) :
    Async (RedisAnswer Rows) ε Json := do
  match ← getJson key with
  | some cached => return cached
  | none =>
      let fresh ← factory
      setJson key fresh (some ttlSeconds)
      return fresh

/-- The rounds of the loop of `delPattern`, with the keys that are still to be deleted. A
stream that has not ended after some number of rounds is left unfinished. -/
def deleteKeys (unfinished : ε) : Nat → List JsString → Async (RedisAnswer Rows) ε Unit
  | 0, _ => throw unfinished
  | rounds + 1, batch => do
      match ← RedisCommand.nextKeys.request with
      | some keys =>
          if 500 ≤ (batch ++ keys).length then
            (RedisCommand.del (batch ++ keys)).request
            deleteKeys unfinished rounds []
          else deleteKeys unfinished rounds (batch ++ keys)
      | none => if batch ≠ [] then (RedisCommand.del batch).request else pure ()

def delPattern (unfinished : ε) (rounds : Nat) (pattern : JsString) :
    Async (RedisAnswer Rows) ε Unit := do
  (RedisCommand.scanStream pattern 200).request
  deleteKeys unfinished rounds []

end RedisService

end Service

/-! ## Keys -/

/-- What stands under a key, since when there has been something, and when it was
written. -/
structure RedisEntry where
  value : JsString
  expiresAt : Option Nat
  since : Nat
  written : Nat

abbrev RedisKeys : Type := JsString → Option RedisEntry

section Keys

variable (clock : Nat → Nat)

/-- What is found under a key at a moment, unless it has expired. -/
def RedisKeys.find? (keys : RedisKeys) (moment : Nat) (key : JsString) : Option RedisEntry :=
  (keys key).filter fun entry => entry.expiresAt.all fun time => clock moment < time

/-- The keys after a command that is performed at a moment. -/
def RedisCommand.effect (moment : Nat) : RedisCommand → RedisKeys → RedisKeys
  | set key value seconds, keys => fun other =>
      if other = key then some {
        value
        expiresAt := seconds.map fun seconds => clock moment + 1000 * seconds
        since := ((keys.find? clock moment key).map RedisEntry.since).getD moment
        written := moment }
      else keys other
  | del names, keys => fun other => if other ∈ names then none else keys other
  | _, keys => keys

/-- The reply to a command. Of what an iteration comes to, nothing is said here. -/
def RedisCommand.Replies (moment : Nat) (keys : RedisKeys) :
    (command : RedisCommand) → command.Answer → Prop
  | get key, raw => raw = (keys.find? clock moment key).map RedisEntry.value
  | _, _ => True

/-- A command is performed and answered, or it fails, performed or not. -/
def RedisCommand.Performs {ε : Type} (moment : Nat) (command : RedisCommand) (keys : RedisKeys)
    (answer : Except ε command.Answer) (later : RedisKeys) : Prop :=
  (∃ reply, answer = .ok reply ∧ command.Replies clock moment keys reply ∧
      later = command.effect clock moment keys) ∨
    (∃ thrown, answer = .error thrown) ∧ (later = keys ∨ later = command.effect clock moment keys)

/-- There has not been anything under a key throughout since some moment. -/
def RedisKeys.Younger (keys : RedisKeys) (moment began : Nat) (key : JsString) : Prop :=
  ∀ entry, keys.find? clock moment key = some entry → began ≤ entry.since

variable {clock} {keys later : RedisKeys} {moment began : Nat} {key : JsString}

theorem RedisKeys.find?_eq_some {entry : RedisEntry} :
    keys.find? clock moment key = some entry ↔
      keys key = some entry ∧ ∀ time ∈ entry.expiresAt, clock moment < time := by
  rw [RedisKeys.find?, Option.filter_eq_some_iff, Option.all_eq_true]
  simp

/-- Time passes, and what stands under the key may go. -/
theorem RedisKeys.Younger.pass {next : Nat} (monotone : Monotone clock)
    (younger : keys.Younger clock moment began key) (onward : moment ≤ next)
    (kept : later key = keys key ∨ later key = none) : later.Younger clock next began key := by
  intro entry found
  obtain ⟨present, alive⟩ := RedisKeys.find?_eq_some.mp found
  rcases kept with same | gone
  · refine younger entry (RedisKeys.find?_eq_some.mpr ⟨same ▸ present, fun time expires => ?_⟩)
    exact Nat.lt_of_le_of_lt (monotone onward) (alive time expires)
  · rw [gone] at present
    cases present

/-- A command leaves what is younger, or what is written now. -/
theorem RedisKeys.Younger.effect (younger : keys.Younger clock moment began key)
    (past : began ≤ moment) (command : RedisCommand) :
    (command.effect clock moment keys).Younger clock moment began key := by
  intro entry found
  obtain ⟨present, alive⟩ := RedisKeys.find?_eq_some.mp found
  cases command with
  | set name value seconds =>
      simp only [RedisCommand.effect] at present
      split at present
      · rename_i same
        subst same
        obtain rfl := Option.some.inj present
        cases old : keys.find? clock moment key with
        | none => exact past
        | some entry => exact younger entry old
      · exact younger entry (RedisKeys.find?_eq_some.mpr ⟨present, alive⟩)
  | del names =>
      simp only [RedisCommand.effect] at present
      split at present
      · cases present
      · exact younger entry (RedisKeys.find?_eq_some.mpr ⟨present, alive⟩)
  | get _ | scanStream _ _ | nextKeys => exact younger entry found

theorem RedisKeys.Younger.performs {ε : Type} {command : RedisCommand}
    {answer : Except ε command.Answer} (younger : keys.Younger clock moment began key)
    (past : began ≤ moment) (performs : command.Performs clock moment keys answer later) :
    later.Younger clock moment began key := by
  rcases performs with ⟨_, -, -, rfl⟩ | ⟨-, rfl | rfl⟩
  · exact younger.effect past command
  · exact younger
  · exact younger.effect past command

/-- Nothing that was there is left of what is deleted. -/
theorem RedisKeys.younger_del {names : List JsString} (member : key ∈ names) :
    ((RedisCommand.del names).effect clock moment keys).Younger clock moment began key := by
  intro entry found
  obtain ⟨present, -⟩ := RedisKeys.find?_eq_some.mp found
  simp only [RedisCommand.effect, if_pos member] at present
  cases present

end Keys

/-! ## Services -/

section Served

variable {Query : Type} {Rows : Query → Type} {ε α ρ σ Λ : Type}

/-- A key is among those an iteration has come to. -/
def CameTo (stage : List (Exchange (RedisAnswer Rows) ε)) (key : JsString) : Prop :=
  ∃ moment names, (⟨moment, .inl .nextKeys, .ok (some names)⟩ : Exchange (RedisAnswer Rows) ε) ∈
    stage ∧ key ∈ names

/-- What `SCAN` guarantees. An iteration comes to keys that match, and has come to all that
match and were there from its start to its end. -/
def ScanComplete (clock : Nat → Nat) (moment : σ → Nat) (keys : σ → RedisKeys) :
    System.Condition (RedisAnswer Rows) ε α ρ (List (Exchange (RedisAnswer Rows) ε)) σ :=
  fun world threads position op answer => ∀ thread began pattern count,
    threads[position]? = some thread →
    (⟨began, .inl (.scanStream pattern count), .ok ()⟩ : Exchange (RedisAnswer Rows) ε) ∈
      thread.stage →
    (∀ names, (⟨moment world, op, answer⟩ : Exchange (RedisAnswer Rows) ε) =
        ⟨moment world, .inl .nextKeys, .ok (some names)⟩ →
      ∀ key ∈ names, JsString.globMatches pattern key = true) ∧
    ((⟨moment world, op, answer⟩ : Exchange (RedisAnswer Rows) ε) =
        ⟨moment world, .inl .nextKeys, .ok none⟩ →
      ∀ key entry, JsString.globMatches pattern key = true →
        (keys world).find? clock (moment world) key = some entry → entry.since < began →
          CameTo thread.stage key)

/-- A service whose requests keep journals is served by one Redis, in which nobody else
writes under its own keys. -/
structure ServedByRedis
    (system : System (RedisAnswer Rows) ε α ρ (List (Exchange (RedisAnswer Rows) ε)) σ Λ)
    (clock : Nat → Nat) (own : JsString → Prop) (moment : σ → Nat) (keys : σ → RedisKeys) :
    Prop where
  monotone : Monotone clock
  journals : Journals system moment
  initial : ∀ key, own key → keys system.initial key = none
  passes : ∀ world later, system.drift world later → ∀ key, own key →
    keys later key = keys world key ∨ keys later key = none
  commands : ∀ command world answer record later, system.env (.inl command) world answer record later →
    command.Performs clock (moment world) (keys world) answer (keys later)
  queries : ∀ query world answer record later, system.env (.inr query) world answer record later →
    keys later = keys world

/-- An iteration over all that matches, with everything it has come to deleted. -/
def Swept (pattern : JsString) (began : Nat) (stage : List (Exchange (RedisAnswer Rows) ε)) : Prop :=
  ∃ before after ended, stage = ⟨began, .inl (.scanStream pattern 200), .ok ()⟩ :: before ++
      ⟨ended, .inl .nextKeys, .ok none⟩ :: after ∧
    ∀ key, CameTo before key → ∃ moment names,
      (⟨moment, .inl (.del names), .ok ()⟩ : Exchange (RedisAnswer Rows) ε) ∈ before ++ after ∧
        key ∈ names

/-! ### One sweep -/

section Sweep

variable {moment : σ → Nat} {stage : List (Exchange (RedisAnswer Rows) ε)}

theorem cameTo_append {more : List (Exchange (RedisAnswer Rows) ε)} {key : JsString} :
    CameTo (stage ++ more) key ↔ CameTo stage key ∨ CameTo more key := by
  constructor
  · rintro ⟨when, names, came, listed⟩
    exact (List.mem_append.mp came).imp (fun first => ⟨when, names, first, listed⟩)
      fun second => ⟨when, names, second, listed⟩
  · rintro (⟨when, names, came, listed⟩ | ⟨when, names, came, listed⟩)
    · exact ⟨when, names, List.mem_append_left _ came, listed⟩
    · exact ⟨when, names, List.mem_append_right _ came, listed⟩

theorem cameTo_singleton {when : Nat} {op : RedisCommand ⊕ Query}
    {answer : Except ε (RedisAnswer Rows op)} {key : JsString}
    (came : CameTo [(⟨when, op, answer⟩ : Exchange (RedisAnswer Rows) ε)] key) :
    ∃ names, key ∈ names ∧ (⟨when, op, answer⟩ : Exchange (RedisAnswer Rows) ε) =
      ⟨when, .inl .nextKeys, .ok (some names)⟩ := by
  obtain ⟨_, names, same, listed⟩ := came
  cases List.mem_singleton.mp same
  exact ⟨names, listed, rfl⟩

/-- The calls of `delPattern`: it opens one stream, and deletes only what it came to. -/
def SweepPermits (pattern : JsString) (stage : List (Exchange (RedisAnswer Rows) ε)) :
    RedisCommand ⊕ Query → Prop
  | .inl (.scanStream other count) => stage = [] ∧ other = pattern ∧ count = 200
  | .inl .nextKeys => ∃ began,
      (⟨began, .inl (.scanStream pattern 200), .ok ()⟩ : Exchange (RedisAnswer Rows) ε) ∈ stage
  | .inl (.del names) => ∀ key ∈ names, CameTo stage key
  | _ => False

/-- What the iteration has come to is still to be deleted, or has been. -/
def Gathered (batch : List JsString) (before : List (Exchange (RedisAnswer Rows) ε)) : Prop :=
  ∀ key, CameTo before key → key ∈ batch ∨ ∃ when names,
    (⟨when, .inl (.del names), .ok ()⟩ : Exchange (RedisAnswer Rows) ε) ∈ before ∧ key ∈ names

theorem Gathered.deleted {batch : List JsString} {when : Nat}
    (gathered : Gathered batch stage) :
    Gathered [] (stage ++ [(⟨when, .inl (.del batch), .ok ()⟩ : Exchange (RedisAnswer Rows) ε)]) := by
  intro key came
  rcases cameTo_append.mp came with old | new
  · refine .inr ?_
    rcases gathered key old with waiting | ⟨then_, names, gone, listed⟩
    · exact ⟨when, batch, List.mem_append_right _ (List.mem_singleton_self _), waiting⟩
    · exact ⟨then_, names, List.mem_append_left _ gone, listed⟩
  · obtain ⟨names, -, same⟩ := cameTo_singleton new
    cases same

theorem Gathered.grow {batch names : List JsString} {when : Nat}
    (gathered : Gathered batch stage) :
    Gathered (batch ++ names)
      (stage ++ [(⟨when, .inl .nextKeys, .ok (some names)⟩ : Exchange (RedisAnswer Rows) ε)]) := by
  intro key came
  rcases cameTo_append.mp came with old | new
  · rcases gathered key old with waiting | ⟨then_, gone, deleted, listed⟩
    · exact .inl (List.mem_append_left _ waiting)
    · exact .inr ⟨then_, gone, List.mem_append_left _ deleted, listed⟩
  · obtain ⟨others, listed, same⟩ := cameTo_singleton new
    cases same
    exact .inl (List.mem_append_right _ listed)

/-- The loop deletes what it comes to, and returns when all of it is deleted. -/
theorem deleteKeys_follows {unfinished : ε} {pattern : JsString} (began rounds : Nat)
    {batch : List JsString} {before : List (Exchange (RedisAnswer Rows) ε)}
    (gathered : Gathered batch before) (owned : ∀ key ∈ batch, CameTo before key) :
    Follows (noted moment) (SweepPermits pattern)
      (fun stage outcome => outcome = .ok () → Swept pattern began stage)
      (⟨began, .inl (.scanStream pattern 200), .ok ()⟩ :: before)
      (RedisService.deleteKeys unfinished rounds batch) := by
  induction rounds generalizing batch before with
  | zero => exact fun same => by cases same
  | succ rounds ih =>
      refine .perform_bind ⟨began, List.mem_cons_self⟩ (fun world reply => ?_)
        fun _ _ same => by cases same
      cases reply with
      | some names =>
          have grown : Gathered (batch ++ names) (before ++ [⟨moment world, .inl .nextKeys,
              .ok (some names)⟩]) := gathered.grow
          have ownedAll : ∀ key ∈ batch ++ names, CameTo (before ++ [⟨moment world, .inl .nextKeys,
              .ok (some names)⟩]) key := by
            intro key member
            refine cameTo_append.mpr ((List.mem_append.mp member).imp (owned key) fun listed => ?_)
            exact ⟨moment world, names, List.mem_singleton_self _, listed⟩
          dsimp only
          split
          · refine .perform_bind (fun key member => ?_) (fun later _ => ?_)
              fun _ _ same => by cases same
            · obtain ⟨when, others, came, listed⟩ := ownedAll key member
              exact ⟨when, others, List.mem_cons_of_mem _ came, listed⟩
            · exact ih grown.deleted fun key none => absurd none List.not_mem_nil
          · exact ih grown ownedAll
      | none =>
          -- Nothing comes after the last keys but the deletion of those that are left.
          have ended : ∀ after : List (Exchange (RedisAnswer Rows) ε),
              (∀ key ∈ batch, ∃ when names,
                (⟨when, .inl (.del names), .ok ()⟩ : Exchange (RedisAnswer Rows) ε) ∈ after ∧
                  key ∈ names) →
              Swept pattern began (⟨began, .inl (.scanStream pattern 200), .ok ()⟩ :: before ++
                ⟨moment world, .inl .nextKeys, .ok none⟩ :: after) := by
            intro after left
            refine ⟨before, after, moment world, rfl, fun key came => ?_⟩
            rcases gathered key came with waiting | ⟨when, names, gone, listed⟩
            · obtain ⟨when, names, gone, listed⟩ := left key waiting
              exact ⟨when, names, List.mem_append_right _ gone, listed⟩
            · exact ⟨when, names, List.mem_append_left _ gone, listed⟩
          change Follows (noted moment) (SweepPermits pattern) _ _
            (if batch ≠ [] then (RedisCommand.del batch).request else pure ())
          split
          · refine ⟨fun key member => ?_, fun later answer same => ?_⟩
            · obtain ⟨when, names, came, listed⟩ := owned key member
              exact ⟨when, names, List.mem_append_left _ (List.mem_cons_of_mem _ came), listed⟩
            · obtain rfl : answer = .ok () := same
              have swept := ended [⟨moment later, .inl (.del batch), .ok ()⟩] fun key member =>
                ⟨moment later, batch, List.mem_singleton_self _, member⟩
              simpa [noted] using swept
          · rename_i empty
            intro _
            obtain rfl := not_not.mp empty
            have swept := ended [] fun key none => absurd none List.not_mem_nil
            simpa [noted] using swept

/-- **A sweep that has returned has deleted all that it came to.** -/
theorem delPattern_follows (unfinished : ε) (rounds : Nat) (pattern : JsString) :
    Follows (noted moment) (SweepPermits pattern)
      (fun stage outcome => outcome = .ok () → ∃ began, Swept pattern began stage) []
      (RedisService.delPattern unfinished rounds pattern : Async (RedisAnswer Rows) ε Unit) := by
  refine .perform_bind ⟨rfl, rfl, rfl⟩ (fun world _ => ?_) fun _ _ same => by cases same
  refine .mono (deleteKeys_follows (moment world) rounds ?_ ?_)
    fun stage outcome swept same => ⟨moment world, swept same⟩
  · rintro key ⟨_, _, none, -⟩
    cases none
  · exact fun key none => absurd none List.not_mem_nil

end Sweep

namespace ServedByRedis

variable {system : System (RedisAnswer Rows) ε α ρ (List (Exchange (RedisAnswer Rows) ε)) σ Λ}
  {clock : Nat → Nat} {own : JsString → Prop} {moment : σ → Nat} {keys : σ → RedisKeys}
  {meets : System.Condition (RedisAnswer Rows) ε α ρ (List (Exchange (RedisAnswer Rows) ε)) σ}
  {records : List Λ} {world : σ}
  {threads : List (Thread (RedisAnswer Rows) ε α ρ (List (Exchange (RedisAnswer Rows) ε)))}

section Turns

variable {position : Nat} {request : ρ} {stage : List (Exchange (RedisAnswer Rows) ε)}
  {op : RedisCommand ⊕ Query} {answer : Except ε (RedisAnswer Rows op)}
  {continued : Except ε (RedisAnswer Rows op) → Async (RedisAnswer Rows) ε α} {record : List Λ}
  {later : σ} {began : Nat} {key : JsString}

/-- What stands under a key is written now, or stood there before. -/
theorem entry_cases (served : ServedByRedis system clock own moment keys)
    (turn : system.Turn meets world threads position request stage op continued answer record later)
    {entry : RedisEntry} (found : keys later key = some entry) :
    keys world key = some entry ∨ ∃ value seconds, op = .inl (.set key value seconds) ∧
      entry = {
        value
        expiresAt := seconds.map fun seconds => clock (moment world) + 1000 * seconds
        since := (((keys world).find? clock (moment world) key).map RedisEntry.since).getD
          (moment world)
        written := moment world } := by
  cases op with
  | inr query => exact .inl (served.queries _ _ _ _ _ turn.answered ▸ found)
  | inl command =>
      have performed : keys later = keys world ∨
          keys later = command.effect clock (moment world) (keys world) := by
        rcases served.commands _ _ _ _ _ turn.answered with ⟨-, -, -, same⟩ | ⟨-, same | same⟩
        · exact .inr same
        · exact .inl same
        · exact .inr same
      rcases performed with same | effect
      · exact .inl (same ▸ found)
      · rw [effect] at found
        cases command with
        | set name value seconds =>
            simp only [RedisCommand.effect] at found
            split at found
            · rename_i here
              subst here
              exact .inr ⟨value, seconds, rfl, (Option.some.inj found).symm⟩
            · exact .inl found
        | del names =>
            simp only [RedisCommand.effect] at found
            split at found
            · cases found
            · exact .inl found
        | get _ | scanStream _ _ | nextKeys => exact .inl found

theorem younger_turn (served : ServedByRedis system clock own moment keys)
    (turn : system.Turn meets world threads position request stage op continued answer record later)
    (past : began ≤ moment world) (younger : (keys world).Younger clock (moment world) began key) :
    (keys later).Younger clock (moment later) began key := by
  have onward := Nat.le_of_lt (served.journals.ticks _ _ _ _ _ turn.answered)
  cases op with
  | inr query =>
      refine younger.pass served.monotone onward (.inl ?_)
      rw [served.queries _ _ _ _ _ turn.answered]
  | inl command =>
      exact (younger.performs past (served.commands _ _ _ _ _ turn.answered)).pass served.monotone
        onward (.inl rfl)

end Turns

theorem younger_pass (served : ServedByRedis system clock own moment keys) {later : σ}
    {began : Nat} {key : JsString} (mine : own key) (passed : system.drift world later)
    (younger : (keys world).Younger clock (moment world) began key) :
    (keys later).Younger clock (moment later) began key :=
  younger.pass served.monotone (served.journals.passes _ _ passed) (served.passes _ _ passed key mine)

/-- **What stands under a key was written by a request**, and something has stood there at most
since then. -/
theorem written (served : ServedByRedis system clock own moment keys)
    (run : system.Run meets records world threads) :
    ∀ key entry, own key → keys world key = some entry →
      entry.since ≤ entry.written ∧ ∃ thread ∈ threads, ∃ before after seconds answer,
        thread.stage = before ++ ⟨entry.written, .inl (.set key entry.value seconds), answer⟩ ::
          after ∧
        entry.expiresAt = seconds.map fun seconds => clock entry.written + 1000 * seconds := by
  refine run.together (fun world threads => ∀ key entry, own key → keys world key = some entry →
    entry.since ≤ entry.written ∧ ∃ thread ∈ threads, ∃ before after seconds answer,
      thread.stage = before ++ ⟨entry.written, .inl (.set key entry.value seconds), answer⟩ ::
        after ∧
      entry.expiresAt = seconds.map fun seconds => clock entry.written + 1000 * seconds) ?_ ?_ ?_ ?_
  · intro key entry mine found
    rw [served.initial key mine] at found
    cases found
  · intro world later threads passed held key entry mine found
    rcases served.passes _ _ passed key mine with same | gone
    · exact held key entry mine (same ▸ found)
    · rw [gone] at found
      cases found
  · intro world threads request held key entry mine found
    obtain ⟨order, thread, member, noted⟩ := held key entry mine found
    exact ⟨order, thread, List.mem_append_left _ member, noted⟩
  · intro world threads position request stage op continued answer record later turn held key entry
      mine found
    obtain ⟨_, earlier⟩ := turn.before
    rcases served.entry_cases turn found with old | ⟨value, seconds, rfl, rfl⟩
    · obtain ⟨order, thread, member, before, after, seconds, answer, stands, expires⟩ :=
        held key entry mine old
      obtain ⟨grown, among, -, more, stage⟩ := served.journals.stays turn member
      refine ⟨order, grown, among, before, after ++ more, seconds, answer, ?_, expires⟩
      rw [stage, stands, List.append_assoc, List.cons_append]
    · refine ⟨?_, _, List.mem_set (List.getElem?_eq_some_iff.mp turn.found).1 _, stage, [], seconds,
        answer, ?_, rfl⟩
      · cases old : (keys world).find? clock (moment world) key with
        | none => exact le_refl _
        | some entry =>
            obtain ⟨order, thread, member, before, after, _, _, stands, -⟩ :=
              held key entry mine (RedisKeys.find?_eq_some.mp old).1
            have past := served.journals.past earlier thread member _
              (by rw [stands]; exact List.mem_append_right _ List.mem_cons_self)
            exact Nat.le_of_lt (Nat.lt_of_le_of_lt order past)
      · rw [served.journals.next]
        rfl

/-- **What stands under a key that a request has deleted is younger.** -/
theorem deleted (served : ServedByRedis system clock own moment keys)
    (run : system.Run meets records world threads) :
    ∀ thread ∈ threads, ∀ when names key,
      (⟨when, .inl (.del names), .ok ()⟩ : Exchange (RedisAnswer Rows) ε) ∈ thread.stage →
        key ∈ names → own key → (keys world).Younger clock (moment world) when key := by
  refine run.each_at (fun world thread => ∀ when names key,
    (⟨when, .inl (.del names), .ok ()⟩ : Exchange (RedisAnswer Rows) ε) ∈ thread.stage →
      key ∈ names → own key → (keys world).Younger clock (moment world) when key) ?_ ?_ ?_ ?_
  · intro world request when names key member
    rw [System.arrived, served.journals.arrival] at member
    cases member
  · intro world later thread passed held when names key member listed mine
    exact served.younger_pass mine passed (held when names key member listed mine)
  · intro world threads position request stage op continued answer record later turn held when names
      key member listed mine
    obtain ⟨_, earlier⟩ := turn.before
    have caller := List.mem_of_getElem? turn.found
    dsimp only at member
    rw [served.journals.next] at member
    rcases List.mem_append.mp member with old | new
    · exact served.younger_turn turn (Nat.le_of_lt (served.journals.past earlier _ caller _ old))
        (held _ caller when names key old listed mine)
    · cases List.mem_singleton.mp new
      have onward := Nat.le_of_lt (served.journals.ticks _ _ _ _ _ turn.answered)
      rcases served.commands _ _ _ _ _ turn.answered with ⟨-, -, -, effect⟩ | ⟨⟨_, failed⟩, -⟩
      · refine RedisKeys.Younger.pass served.monotone ?_ onward (.inl rfl)
        rw [effect]
        exact RedisKeys.younger_del listed
      · cases failed
  · intro world threads position request stage op continued answer record later turn held other
      thread _ found when names key member listed mine
    obtain ⟨_, earlier⟩ := turn.before
    have beside := List.mem_of_getElem? found
    exact served.younger_turn turn (Nat.le_of_lt (served.journals.past earlier _ beside _ member))
      (held _ beside when names key member listed mine)

/-- What stands under a key that an iteration has passed over is younger than its start. -/
theorem scanned (served : ServedByRedis system clock own moment keys)
    (run : system.Run (ScanComplete clock moment keys) records world threads) :
    ∀ thread ∈ threads, ∀ before after ended,
      thread.stage = before ++ ⟨ended, .inl .nextKeys, .ok none⟩ :: after →
      ∀ began pattern count,
        (⟨began, .inl (.scanStream pattern count), .ok ()⟩ : Exchange (RedisAnswer Rows) ε) ∈ before →
        ∀ key, own key → JsString.globMatches pattern key = true →
          CameTo before key ∨ (keys world).Younger clock (moment world) began key := by
  refine run.each_at (fun world thread => ∀ before after ended,
    thread.stage = before ++ ⟨ended, .inl .nextKeys, .ok none⟩ :: after →
    ∀ began pattern count,
      (⟨began, .inl (.scanStream pattern count), .ok ()⟩ : Exchange (RedisAnswer Rows) ε) ∈ before →
      ∀ key, own key → JsString.globMatches pattern key = true →
        CameTo before key ∨ (keys world).Younger clock (moment world) began key) ?_ ?_ ?_ ?_
  · intro world request before after ended same
    rw [System.arrived, served.journals.arrival] at same
    exact absurd same (by simp)
  · intro world later thread passed held before after ended same began pattern count opened key mine
      matched
    exact (held before after ended same began pattern count opened key mine matched).imp id
      (served.younger_pass mine passed)
  · intro world threads position request stage op continued answer record later turn held before
      after ended same began pattern count opened key mine matched
    obtain ⟨_, earlier⟩ := turn.before
    have caller := List.mem_of_getElem? turn.found
    dsimp only at same
    rw [served.journals.next] at same
    rcases Journals.entry_of_grown same with ⟨rest, old, -⟩ | ⟨rfl, new, -⟩
    · have past := served.journals.past earlier _ caller ⟨began, _, _⟩
        (by rw [old]; exact List.mem_append_left _ opened)
      exact (held _ caller before rest ended old began pattern count opened key mine matched).imp id
        (served.younger_turn turn (Nat.le_of_lt past))
    · have past := served.journals.past earlier _ caller ⟨began, _, _⟩ opened
      obtain ⟨-, complete⟩ := turn.met _ began pattern count turn.found opened
      by_cases came : CameTo before key
      · exact .inl came
      · refine .inr (served.younger_turn turn (Nat.le_of_lt past) fun entry found => ?_)
        by_contra older
        cases new
        exact came (complete rfl key entry matched found (Nat.lt_of_not_le older))
  · intro world threads position request stage op continued answer record later turn held other
      thread _ found before after ended same began pattern count opened key mine matched
    obtain ⟨_, earlier⟩ := turn.before
    have beside := List.mem_of_getElem? found
    have past := served.journals.past earlier _ beside ⟨began, _, _⟩
      (by rw [same]; exact List.mem_append_left _ opened)
    exact (held _ beside before after ended same began pattern count opened key mine matched).imp id
      (served.younger_turn turn (Nat.le_of_lt past))

/-- **What matches and stands there after a sweep is younger than its beginning.** -/
theorem swept (served : ServedByRedis system clock own moment keys)
    (run : system.Run (ScanComplete clock moment keys) records world threads)
    {thread : Thread (RedisAnswer Rows) ε α ρ (List (Exchange (RedisAnswer Rows) ε))}
    (member : thread ∈ threads) {pattern key : JsString} {began : Nat}
    (swept : Swept pattern began thread.stage) (mine : own key)
    (matched : JsString.globMatches pattern key = true) :
    (keys world).Younger clock (moment world) began key := by
  obtain ⟨before, after, ended, stage, cleared⟩ := swept
  rcases served.scanned run thread member _ after ended stage began pattern 200 List.mem_cons_self key
    mine matched with ⟨when, names, came, listed⟩ | younger
  · obtain ⟨deletion, gone, removed, among⟩ := cleared key
      ⟨when, names, (List.mem_cons.mp came).resolve_left nofun, listed⟩
    have noted : (⟨deletion, .inl (.del gone), .ok ()⟩ : Exchange (RedisAnswer Rows) ε) ∈
        before ++ ⟨ended, .inl .nextKeys, .ok none⟩ :: after := by
      rcases List.mem_append.mp removed with first | second
      · exact List.mem_append_left _ first
      · exact List.mem_append_right _ (List.mem_cons_of_mem _ second)
    have ordered := served.journals.ordered run thread member
    rw [stage, List.cons_append] at ordered
    have later := (List.pairwise_cons.mp ordered).1 _ noted
    have younger := served.deleted run thread member deletion gone key
      (by rw [stage, List.cons_append]; exact List.mem_cons_of_mem _ noted) among mine
    exact fun entry found => Nat.le_trans (Nat.le_of_lt later) (younger entry found)
  · exact younger

end ServedByRedis

end Served

end Numera
