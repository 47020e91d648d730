import Numera.Foundation.Text
import Mathlib.Data.List.Basic
import Mathlib.Logic.Function.Basic
import Mathlib.Logic.Relation

/-! # Subscriptions

`RedisService.subscribe` and `pSubscribe` keep a set of handlers for each topic, and subscribe the
connection to a topic when they make its set. The unsubscribe function they return takes the
handler from the set it was added to, and with the last handler it forgets the topic and
unsubscribes the connection. The sets, the registry and the connection change at different times,
while other calls are made: so a subscription is lost when a set that was made for nothing is
joined, when one that is awaited or has been replaced is emptied, or when a handler is shared
(`subscription_lost`). In runs without these, every subscription is kept
(`subscriptions_kept`).
-/

namespace Numera

/-! ## The code -/

/-- A channel or a pattern. The service has a registry for each kind. -/
inductive Topic where
  | channel (name : JsString)
  | pattern (name : JsString)
  deriving DecidableEq

/-- What a call of `subscribe` has come to: it awaits the command; the command was performed, or
failed; the call has returned its unsubscribe function; that was called; the call has thrown. -/
inductive SubscribePhase where
  | asked
  | replied (performed : Bool)
  | resolved
  | released
  | rejected
  deriving DecidableEq

/-- A call of `subscribe`, and the set it has found or made. -/
structure Subscription (H : Type) where
  handler : H
  set : Nat
  phase : SubscribePhase

/-- What the connection is to do about a topic. -/
inductive SubscriberCommand where
  | subscribe (call : Nat)
  | unsubscribe
  deriving DecidableEq

/-- What there is of a topic: the set in the registry, the sets that were made for it and their
members, whether the connection is subscribed to it, the commands in flight in their order, and the
calls of `subscribe`. -/
structure TopicState (H : Type) where
  registered : Option Nat := none
  sets : Nat := 0
  members : Nat → List H := fun _ => []
  subscribed : Bool := false
  commands : List SubscriberCommand := []
  calls : List (Subscription H) := []

/-- The topics of the service, whose registries are maps. -/
abbrev RedisSubscriptions (H : Type) : Type := Topic → TopicState H

namespace TopicState

variable {H : Type} (state : TopicState H)

/-- The handlers that are called for a message. -/
def dispatch : List H :=
  match state.registered with
  | none => []
  | some set => state.members set

/-- A call comes to a phase. -/
def enter (call : Nat) (phase : SubscribePhase) : TopicState H :=
  { state with calls := state.calls.modify call fun own => { own with phase } }

variable [DecidableEq H]

/-- `set.add(handler)`. -/
def add (set : Nat) (handler : H) : TopicState H :=
  let old := state.members set
  { state with
    members := Function.update state.members set
      (if handler ∈ old then old else old ++ [handler]) }

/-- `set.delete(handler)`. -/
def delete (set : Nat) (handler : H) : TopicState H :=
  { state with
    members := Function.update state.members set
      ((state.members set).filter fun other => other ≠ handler) }

/-- `subscribe`, up to its `await` or its end. -/
def subscribe (handler : H) : TopicState H :=
  match state.registered with
  | none =>
      { state with
        registered := some state.sets
        sets := state.sets + 1
        members := Function.update state.members state.sets []
        commands := state.commands ++ [.subscribe state.calls.length]
        calls := state.calls ++ [{ handler, set := state.sets, phase := .asked }] }
  | some set =>
      let added := state.add set handler
      { added with calls := state.calls ++ [{ handler, set, phase := .resolved }] }

/-- A call of the unsubscribe function, up to its `await` or its end. -/
def unsubscribe (call : Nat) (own : Subscription H) : TopicState H :=
  let released := (state.delete own.set own.handler).enter call .released
  if released.members own.set = [] then
    { released with registered := none, commands := released.commands ++ [.unsubscribe] }
  else released

end TopicState

namespace RedisService

variable {H : Type} [DecidableEq H] (state : RedisSubscriptions H)

def subscribe (channel : JsString) (handler : H) : RedisSubscriptions H :=
  Function.update state (.channel channel) ((state (.channel channel)).subscribe handler)

def pSubscribe (pattern : JsString) (handler : H) : RedisSubscriptions H :=
  Function.update state (.pattern pattern) ((state (.pattern pattern)).subscribe handler)

end RedisService

/-- What happens to a topic. -/
inductive TopicEvent (H : Type) where
  | subscribe (handler : H)
  | resume (call : Nat)
  | unsubscribe (call : Nat)
  | perform
  | fail

section Subscriptions

variable {H : Type}

section Events

variable [DecidableEq H]

/-- What else happens to a topic: a call of `subscribe` goes on, an unsubscribe function is called,
also again, and the first command in flight is performed, or fails without being performed. -/
inductive TopicState.Step : TopicState H → TopicEvent H → TopicState H → Prop where
  | resolve {state : TopicState H} {call : Nat} {own : Subscription H}
      (found : state.calls[call]? = some own) (replied : own.phase = .replied true) :
      Step state (.resume call) ((state.add own.set own.handler).enter call .resolved)
  | reject {state : TopicState H} {call : Nat} {own : Subscription H}
      (found : state.calls[call]? = some own) (replied : own.phase = .replied false) :
      Step state (.resume call) (state.enter call .rejected)
  | unsubscribe {state : TopicState H} {call : Nat} {own : Subscription H}
      (found : state.calls[call]? = some own)
      (returned : own.phase = .resolved ∨ own.phase = .released) :
      Step state (.unsubscribe call) (state.unsubscribe call own)
  | performSubscribe {state : TopicState H} {call : Nat} {rest : List SubscriberCommand}
      (next : state.commands = .subscribe call :: rest) :
      Step state .perform
        (({ state with subscribed := true, commands := rest } : TopicState H).enter call
          (.replied true))
  | performUnsubscribe {state : TopicState H} {rest : List SubscriberCommand}
      (next : state.commands = .unsubscribe :: rest) :
      Step state .perform { state with subscribed := false, commands := rest }
  | failSubscribe {state : TopicState H} {call : Nat} {rest : List SubscriberCommand}
      (next : state.commands = .subscribe call :: rest) :
      Step state .fail
        (({ state with commands := rest } : TopicState H).enter call (.replied false))
  | failUnsubscribe {state : TopicState H} {rest : List SubscriberCommand}
      (next : state.commands = .unsubscribe :: rest) :
      Step state .fail { state with commands := rest }

/-- What the service comes to by events that a condition allows. -/
inductive RedisSubscriptions.Reached (allows : TopicState H → TopicEvent H → Prop) :
    RedisSubscriptions H → Prop where
  | boot : Reached allows fun _ => {}
  | subscribe {state : RedisSubscriptions H} (before : Reached allows state) (channel : JsString)
      (handler : H) (allowed : allows (state (.channel channel)) (.subscribe handler)) :
      Reached allows (RedisService.subscribe state channel handler)
  | pSubscribe {state : RedisSubscriptions H} (before : Reached allows state) (pattern : JsString)
      (handler : H) (allowed : allows (state (.pattern pattern)) (.subscribe handler)) :
      Reached allows (RedisService.pSubscribe state pattern handler)
  | step {state : RedisSubscriptions H} (before : Reached allows state) (topic : Topic)
      {event : TopicEvent H} {later : TopicState H} (allowed : allows (state topic) event)
      (step : TopicState.Step (state topic) event later) :
      Reached allows (Function.update state topic later)

end Events

/-- What a topic comes to, as long as nobody subscribes to it. -/
abbrev TopicState.Leads [DecidableEq H] : TopicState H → TopicState H → Prop :=
  Relation.ReflTransGen fun state later => ∃ event, TopicState.Step state event later

/-! ## Subscriptions that are kept -/

/-- A call of `subscribe` that waits, and whose command has not failed. -/
def Subscription.Hopeful (own : Subscription H) : Prop :=
  own.phase = .asked ∨ own.phase = .replied true

/-- What is promised of a topic: a handler whose subscription has returned and is not released is
called for messages, and the connection is subscribed (`kept`); without handlers, commands in
flight and calls that wait for one, it is not (`quiet`). -/
structure TopicState.Kept (state : TopicState H) : Prop where
  kept : ∀ (call : Nat) own, state.calls[call]? = some own → own.phase = .resolved →
    own.handler ∈ state.dispatch ∧ state.subscribed = true
  quiet : state.dispatch = [] → state.commands = [] →
    (∀ (call : Nat) own, state.calls[call]? = some own → ¬ own.Hopeful) →
    state.subscribed = false

/-- When an event does no harm. A set that is found is joined while the connection is subscribed and
stays so. An unsubscribe function does not take the handler of another subscription to its set, and
where it leaves its set empty, the set in the registry is without handlers too and no call waits for
its command. And a command does not fail as the last one in flight while the connection is
subscribed, unless there is a handler. -/
def TopicState.Allows [DecidableEq H] (state : TopicState H) : TopicEvent H → Prop
  | .subscribe _ => ∀ set, state.registered = some set →
      state.subscribed = true ∧ .unsubscribe ∉ state.commands
  | .unsubscribe call => ∀ own, state.calls[call]? = some own →
      (∀ (other : Nat) another, state.calls[other]? = some another → other ≠ call →
        another.phase = .resolved → another.set = own.set → another.handler ≠ own.handler) ∧
      ((state.delete own.set own.handler).members own.set = [] →
        (state.delete own.set own.handler).dispatch = [] ∧
          ∀ (other : Nat) another, state.calls[other]? = some another → ¬ another.Hopeful)
  | .fail => state.subscribed = true → state.commands.length = 1 → state.dispatch ≠ []
  | .resume _ | .perform => True

/-! ## The invariant -/

/-- A subscription holds the connection: it is there, or is to be there. -/
def Subscription.Holds (own : Subscription H) : Prop :=
  own.phase = .resolved ∨ own.phase = .replied true

theorem Subscription.Holds.placed {own : Subscription H} (holds : own.Holds) :
    own.phase = .resolved ∨ own.Hopeful := holds.imp id .inr

theorem Subscription.not_released {own : Subscription H}
    (placed : own.phase = .resolved ∨ own.Hopeful) : own.phase ≠ .released := by
  intro released
  obtain resolved | asked | replied := placed
  · cases released.symm.trans resolved
  · cases released.symm.trans asked
  · cases released.symm.trans replied

/-- A topic where only the call that made the registered set may wait, behind commands that
unsubscribe the connection. -/
structure TopicState.Sound (state : TopicState H) (count : Nat) (waiting : Option Nat) : Prop where
  commands : state.commands = List.replicate count .unsubscribe ++ waiting.toList.map .subscribe
  asked : ∀ call, waiting = some call ↔
    ∃ own, state.calls[call]? = some own ∧ own.phase = .asked
  placed : ∀ (call : Nat) own, state.calls[call]? = some own →
    own.phase = .resolved ∨ own.Hopeful → state.registered = some own.set
  firm : ∀ (call : Nat) own, state.calls[call]? = some own → own.Holds →
    count = 0 ∧ state.subscribed = true
  single : ∀ (call : Nat) own (other : Nat) another, state.calls[call]? = some own →
    state.calls[other]? = some another → own.Hopeful → another.Hopeful → call = other
  joined : ∀ (call : Nat) own, state.calls[call]? = some own → own.phase = .resolved →
    own.handler ∈ state.members own.set
  members : ∀ set, ∀ handler ∈ state.members set, ∃ (call : Nat) (own : Subscription H),
    state.calls[call]? = some own ∧ own.phase = .resolved ∧ own.set = set ∧ own.handler = handler
  rest : state.subscribed = true → count = 0 → waiting = none →
    ∃ (call : Nat) (own : Subscription H), state.calls[call]? = some own ∧ own.Holds

namespace TopicState

variable {state : TopicState H} {count : Nat} {waiting : Option Nat} {call : Nat}

/-! The calls, and the members of the sets. -/

theorem dispatch_of {set : Nat} (registered : state.registered = some set) :
    state.dispatch = state.members set := by
  rw [dispatch, registered]

theorem getElem?_concat {calls : List (Subscription H)} {new own : Subscription H}
    (found : (calls ++ [new])[call]? = some own) :
    calls[call]? = some own ∨ call = calls.length ∧ own = new := by
  by_cases old : call < calls.length
  · rw [List.getElem?_append_left old] at found
    exact .inl found
  · rw [List.getElem?_append_right (by omega), List.getElem?_singleton] at found
    split at found
    · exact .inr ⟨by omega, (Option.some.inj found).symm⟩
    · cases found

theorem enter_self {phase : SubscribePhase} {own : Subscription H}
    (found : state.calls[call]? = some own) :
    (state.enter call phase).calls[call]? = some { own with phase } := by
  simp [enter, found]

theorem enter_other {phase : SubscribePhase} {other : Nat} (apart : other ≠ call) :
    (state.enter call phase).calls[other]? = state.calls[other]? := by
  simp [enter, apart.symm]

theorem enter_cases {phase : SubscribePhase} {other : Nat} {own : Subscription H}
    (found : (state.enter call phase).calls[other]? = some own) :
    other ≠ call ∧ state.calls[other]? = some own ∨
      other = call ∧ ∃ before, state.calls[call]? = some before ∧ own = { before with phase } := by
  by_cases same : other = call
  · subst same
    refine .inr ⟨rfl, ?_⟩
    simp only [enter, List.getElem?_modify, ↓reduceIte, Option.map_eq_map,
      Option.map_eq_some_iff] at found
    obtain ⟨before, was, rfl⟩ := found
    exact ⟨before, was, rfl⟩
  · rw [enter_other same] at found
    exact .inl ⟨same, found⟩

/-- A call in another phase stays as it is. -/
theorem enter_keep {phase : SubscribePhase} {other : Nat} {own another : Subscription H}
    (found : state.calls[call]? = some own) (there : state.calls[other]? = some another)
    (apart : another.phase ≠ own.phase) :
    (state.enter call phase).calls[other]? = some another := by
  refine (enter_other ?_).trans there
  rintro rfl
  cases found.symm.trans there
  exact apart rfl

/-- No call begins to wait or ends it. -/
theorem asked_enter {phase : SubscribePhase} {other : Nat} {own : Subscription H}
    (found : state.calls[call]? = some own) (before : own.phase ≠ .asked) (after : phase ≠ .asked) :
    (∃ another, state.calls[other]? = some another ∧ another.phase = .asked) ↔
      ∃ another, (state.enter call phase).calls[other]? = some another ∧
        another.phase = .asked := by
  constructor
  · rintro ⟨another, there, asked⟩
    refine ⟨another, enter_keep found there ?_, asked⟩
    rw [asked]
    exact before.symm
  · rintro ⟨another, there, asked⟩
    obtain ⟨-, old⟩ | ⟨-, old, -, rfl⟩ := enter_cases there
    · exact ⟨another, old, asked⟩
    · exact absurd asked after

namespace Sound

/-- No other call begins to wait. -/
theorem single_enter (sound : state.Sound count waiting) {phase : SubscribePhase}
    {own : Subscription H} (found : state.calls[call]? = some own)
    (goes : ({ own with phase } : Subscription H).Hopeful → own.Hopeful)
    {first second : Nat} {one two : Subscription H}
    (there : (state.enter call phase).calls[first]? = some one)
    (too : (state.enter call phase).calls[second]? = some two) (hopeful : one.Hopeful)
    (also : two.Hopeful) : first = second := by
  have before {other : Nat} {another : Subscription H}
      (there : (state.enter call phase).calls[other]? = some another) (hopeful : another.Hopeful) :
      ∃ another, state.calls[other]? = some another ∧ another.Hopeful := by
    obtain ⟨-, old⟩ | ⟨rfl, was, old, rfl⟩ := enter_cases there
    · exact ⟨another, old, hopeful⟩
    · cases found.symm.trans old
      exact ⟨own, found, goes hopeful⟩
  obtain ⟨_, old, was⟩ := before there hopeful
  obtain ⟨_, before, were⟩ := before too also
  exact sound.single _ _ _ _ old before was were

/-- Without a registered set, no call waits and none is there. -/
theorem none_placed (sound : state.Sound count waiting) (unregistered : state.registered = none)
    {own : Subscription H} (found : state.calls[call]? = some own) :
    ¬ (own.phase = .resolved ∨ own.Hopeful) := by
  intro placed
  have registered := sound.placed call own found placed
  rw [unregistered] at registered
  cases registered

theorem waiting_none (sound : state.Sound count waiting)
    (hopeless : ∀ (call : Nat) own, state.calls[call]? = some own → ¬ own.Hopeful) :
    waiting = none := by
  cases waits : waiting with
  | none => rfl
  | some call =>
      obtain ⟨own, found, asked⟩ := (sound.asked call).mp waits
      exact absurd (.inl asked) (hopeless call own found)

end Sound

variable [DecidableEq H]

theorem mem_add {set other : Nat} {handler one : H} :
    one ∈ (state.add set handler).members other ↔
      one ∈ state.members other ∨ other = set ∧ one = handler := by
  by_cases same : other = set
  · subst same
    change one ∈ Function.update state.members other _ other ↔ _
    rw [Function.update_self]
    split
    · constructor
      · exact .inl
      · rintro (old | ⟨-, rfl⟩)
        · exact old
        · assumption
    · simp
  · simp [add, same]

theorem mem_delete {set other : Nat} {handler one : H} :
    one ∈ (state.delete set handler).members other ↔
      one ∈ state.members other ∧ (other = set → one ≠ handler) := by
  by_cases same : other = set
  · subst same
    simp [delete]
  · simp [delete, same]

namespace Sound

/-- A set is made for the topic. -/
theorem subscribe_new (sound : state.Sound count waiting) (unregistered : state.registered = none)
    (handler : H) : (state.subscribe handler).Sound count (some state.calls.length) := by
  have still : waiting = none :=
    sound.waiting_none fun call own found hopeful =>
      sound.none_placed unregistered found (.inr hopeful)
  rw [TopicState.subscribe, unregistered]
  dsimp only
  refine ⟨?_, fun call => ?_, fun call own found placed => ?_, fun call own found holds => ?_,
    fun call own other another found there hopeful too => ?_, fun call own found resolved => ?_,
    fun set one member => ?_, fun _ _ none => by cases none⟩
  · change state.commands ++ _ = _
    rw [sound.commands, still]
    exact congrArg (· ++ _) (List.append_nil _)
  · constructor
    · intro same
      cases same
      exact ⟨_, List.getElem?_concat_length .., rfl⟩
    · rintro ⟨own, found, asked⟩
      obtain old | ⟨rfl, -⟩ := getElem?_concat found
      · exact absurd (.inr (.inl asked)) (sound.none_placed unregistered old)
      · rfl
  · obtain old | ⟨rfl, rfl⟩ := getElem?_concat found
    · exact absurd placed (sound.none_placed unregistered old)
    · rfl
  · obtain old | ⟨rfl, rfl⟩ := getElem?_concat found
    · exact absurd holds.placed (sound.none_placed unregistered old)
    · obtain resolved | replied := holds
      · cases resolved
      · cases replied
  · obtain old | ⟨rfl, -⟩ := getElem?_concat found
    · exact absurd (.inr hopeful) (sound.none_placed unregistered old)
    · obtain old | ⟨rfl, -⟩ := getElem?_concat there
      · exact absurd (.inr too) (sound.none_placed unregistered old)
      · rfl
  · obtain old | ⟨rfl, rfl⟩ := getElem?_concat found
    · exact absurd (.inl resolved) (sound.none_placed unregistered old)
    · cases resolved
  · change one ∈ Function.update state.members state.sets [] set at member
    by_cases same : set = state.sets
    · subst same
      rw [Function.update_self] at member
      cases member
    · rw [Function.update_of_ne same] at member
      obtain ⟨call, own, found, resolved, -⟩ := sound.members set one member
      exact absurd (.inl resolved) (sound.none_placed unregistered found)

/-- The registered set is joined while the connection is subscribed. -/
theorem subscribe_join (sound : state.Sound count waiting) {set : Nat}
    (registered : state.registered = some set) (subscribed : state.subscribed = true)
    (stays : .unsubscribe ∉ state.commands) (handler : H) :
    (state.subscribe handler).Sound count waiting := by
  have none : count = 0 := by
    cases count with
    | zero => rfl
    | succ count =>
        refine absurd ?_ stays
        rw [sound.commands]
        exact List.mem_append_left _ List.mem_cons_self
  have hopeless : ¬ ({ handler, set, phase := .resolved } : Subscription H).Hopeful := by
    rintro (asked | replied)
    · cases asked
    · cases replied
  rw [TopicState.subscribe, registered]
  dsimp only
  refine ⟨sound.commands, fun call => ?_, fun call own found placed => ?_,
    fun call own found holds => ?_, fun call own other another found there hopeful too => ?_,
    fun call own found resolved => ?_, fun other one member => ?_, fun _ _ _ => ?_⟩
  · refine (sound.asked call).trans ?_
    constructor
    · rintro ⟨own, found, asked⟩
      exact ⟨own, (List.getElem?_append_left (List.getElem?_eq_some_iff.mp found).1).trans found,
        asked⟩
    · rintro ⟨own, found, asked⟩
      obtain old | ⟨rfl, rfl⟩ := getElem?_concat found
      · exact ⟨own, old, asked⟩
      · cases asked
  · obtain old | ⟨rfl, rfl⟩ := getElem?_concat found
    · exact sound.placed call own old placed
    · exact registered
  · exact ⟨none, subscribed⟩
  · obtain old | ⟨-, rfl⟩ := getElem?_concat found
    · obtain before | ⟨-, rfl⟩ := getElem?_concat there
      · exact sound.single call own other another old before hopeful too
      · exact absurd too hopeless
    · exact absurd hopeful hopeless
  · obtain old | ⟨rfl, rfl⟩ := getElem?_concat found
    · exact mem_add.mpr (.inl (sound.joined call own old resolved))
    · exact mem_add.mpr (.inr ⟨rfl, rfl⟩)
  · obtain old | ⟨rfl, rfl⟩ := mem_add.mp member
    · obtain ⟨call, own, found, there⟩ := sound.members other one old
      exact ⟨call, own,
        (List.getElem?_append_left (List.getElem?_eq_some_iff.mp found).1).trans found, there⟩
    · exact ⟨_, _, List.getElem?_concat_length .., rfl, rfl, rfl⟩
  · exact ⟨_, _, List.getElem?_concat_length .., .inl rfl⟩

/-- A call goes on as its command was performed. -/
theorem resolve (sound : state.Sound count waiting) {own : Subscription H}
    (found : state.calls[call]? = some own) (replied : own.phase = .replied true) :
    ((state.add own.set own.handler).enter call .resolved).Sound count waiting := by
  have kept : (state.add own.set own.handler).calls[call]? = some own := found
  obtain ⟨none, subscribed⟩ := sound.firm call own found (.inr replied)
  refine ⟨sound.commands, fun other => (sound.asked other).trans (asked_enter kept ?_ ?_),
    fun other another there placed => ?_, fun other another there holds => ⟨none, subscribed⟩,
    fun _ _ _ _ there too => sound.single_enter found (fun _ => .inr replied) there too,
    fun other another there resolved => ?_, fun set one member => ?_,
    fun _ _ _ => ⟨call, _, enter_self kept, .inl rfl⟩⟩
  · rw [replied]
    decide
  · decide
  · obtain ⟨-, old⟩ | ⟨rfl, before, old, rfl⟩ := enter_cases there
    · exact sound.placed other another old placed
    · cases found.symm.trans old
      exact sound.placed _ own found (.inr (.inr replied))
  · obtain ⟨-, old⟩ | ⟨rfl, before, old, rfl⟩ := enter_cases there
    · exact mem_add.mpr (.inl (sound.joined other another old resolved))
    · cases found.symm.trans old
      exact mem_add.mpr (.inr ⟨rfl, rfl⟩)
  · obtain old | ⟨rfl, rfl⟩ := mem_add.mp member
    · obtain ⟨other, another, there, resolved, rest⟩ := sound.members set one old
      refine ⟨other, another, enter_keep kept there ?_, resolved, rest⟩
      rw [resolved, replied]
      decide
    · exact ⟨call, _, enter_self kept, rfl, rfl, rfl⟩

omit [DecidableEq H] in
/-- A call goes on as its command has failed. -/
theorem reject (sound : state.Sound count waiting) {own : Subscription H}
    (found : state.calls[call]? = some own) (replied : own.phase = .replied false) :
    (state.enter call .rejected).Sound count waiting := by
  refine ⟨sound.commands, fun other => (sound.asked other).trans (asked_enter found ?_ ?_),
    fun other another there placed => ?_, fun other another there holds => ?_,
    fun _ _ _ _ there too => sound.single_enter found (fun hopeful => ?_) there too,
    fun other another there resolved => ?_, fun set one member => ?_,
    fun subscribed none still => ?_⟩
  · rw [replied]
    decide
  · decide
  · obtain ⟨-, old⟩ | ⟨rfl, before, old, rfl⟩ := enter_cases there
    · exact sound.placed other another old placed
    · obtain resolved | asked | replied := placed
      · cases resolved
      · cases asked
      · cases replied
  · obtain ⟨-, old⟩ | ⟨rfl, before, old, rfl⟩ := enter_cases there
    · exact sound.firm other another old holds
    · obtain resolved | replied := holds
      · cases resolved
      · cases replied
  · obtain asked | replied := hopeful
    · cases asked
    · cases replied
  · obtain ⟨-, old⟩ | ⟨rfl, before, old, rfl⟩ := enter_cases there
    · exact sound.joined other another old resolved
    · cases resolved
  · obtain ⟨other, another, there, resolved, rest⟩ := sound.members set one member
    refine ⟨other, another, enter_keep found there ?_, resolved, rest⟩
    rw [resolved, replied]
    decide
  · obtain ⟨other, another, there, holds⟩ := sound.rest subscribed none still
    refine ⟨other, another, enter_keep found there ?_, holds⟩
    rw [replied]
    obtain resolved | replied := holds
    · rw [resolved]
      decide
    · rw [replied]
      decide

/-! An unsubscribe function is called. -/

section Released

variable {own : Subscription H} (sound : state.Sound count waiting)
  (found : state.calls[call]? = some own)
  (alone : ∀ (other : Nat) another, state.calls[other]? = some another → other ≠ call →
    another.phase = .resolved → another.set = own.set → another.handler ≠ own.handler)

omit alone sound in
/-- The subscriptions that remain are those of the other calls. -/
theorem released_other {other : Nat} {another : Subscription H}
    (there : ((state.delete own.set own.handler).enter call .released).calls[other]? =
      some another) (placed : another.phase = .resolved ∨ another.Hopeful) :
    other ≠ call ∧ state.calls[other]? = some another := by
  obtain old | ⟨rfl, before, old, rfl⟩ := enter_cases there
  · exact old
  · exact absurd rfl (Subscription.not_released placed)

include sound alone in
/-- Their handlers stay. -/
theorem released_joined {other : Nat} {another : Subscription H}
    (there : ((state.delete own.set own.handler).enter call .released).calls[other]? =
      some another) (resolved : another.phase = .resolved) :
    another.handler ∈ (state.delete own.set own.handler).members another.set := by
  obtain ⟨apart, old⟩ := released_other there (.inl resolved)
  exact mem_delete.mpr ⟨sound.joined other another old resolved,
    alone other another old apart resolved⟩

include sound found in
/-- The handlers that stay are theirs. -/
theorem released_members {set : Nat} {one : H}
    (member : one ∈ (state.delete own.set own.handler).members set) :
    ∃ (other : Nat) (another : Subscription H),
      ((state.delete own.set own.handler).enter call .released).calls[other]? = some another ∧
        another.phase = .resolved ∧ another.set = set ∧ another.handler = one := by
  obtain ⟨old, fits⟩ := mem_delete.mp member
  obtain ⟨other, another, there, resolved, rfl, rfl⟩ := sound.members set one old
  have apart : other ≠ call := by
    rintro rfl
    cases found.symm.trans there
    exact fits rfl rfl
  exact ⟨other, another, (enter_other apart).trans there, resolved, rfl, rfl⟩

include sound found alone in
/-- The set is left with handlers. -/
theorem unsubscribe_some (returned : own.phase = .resolved ∨ own.phase = .released)
    (stays : (state.delete own.set own.handler).members own.set ≠ []) :
    ((state.delete own.set own.handler).enter call .released).Sound count waiting := by
  have kept : (state.delete own.set own.handler).calls[call]? = some own := found
  have before : own.phase ≠ .asked := by
    obtain resolved | released := returned
    · rw [resolved]
      decide
    · rw [released]
      decide
  refine ⟨sound.commands,
    fun other => (sound.asked other).trans (asked_enter kept before (by decide)),
    fun other another there placed => ?_, fun other another there holds => ?_,
    fun _ _ _ _ there too => sound.single_enter found (fun hopeful => ?_) there too,
    fun _ _ there resolved => sound.released_joined alone there resolved,
    fun _ _ member => sound.released_members found member, fun _ _ _ => ?_⟩
  · obtain ⟨-, old⟩ := released_other there placed
    exact sound.placed other another old placed
  · obtain ⟨-, old⟩ := released_other there holds.placed
    exact sound.firm other another old holds
  · obtain asked | replied := hopeful
    · cases asked
    · cases replied
  · obtain ⟨one, member⟩ := List.exists_mem_of_ne_nil _ stays
    obtain ⟨other, another, there, resolved, -⟩ := sound.released_members found member
    exact ⟨other, another, there, .inl resolved⟩

include sound found alone in
/-- No handler is left, there or in the registry. -/
theorem unsubscribe_none (none : (state.delete own.set own.handler).dispatch = [])
    (hopeless : ∀ (other : Nat) another, state.calls[other]? = some another → ¬ another.Hopeful) :
    ({ (state.delete own.set own.handler).enter call .released with
        registered := Option.none
        commands := state.commands ++ [.unsubscribe] } : TopicState H).Sound (count + 1)
      Option.none := by
  -- A subscription that remains would have its handler in the registered set.
  have gone (other : Nat) (another : Subscription H)
      (there : ((state.delete own.set own.handler).enter call .released).calls[other]? =
        some another) : ¬ (another.phase = .resolved ∨ another.Hopeful) := by
    intro placed
    obtain ⟨-, old⟩ := released_other there placed
    obtain resolved | hopeful := placed
    · have has := sound.released_joined alone there resolved
      have registered : (state.delete own.set own.handler).registered = some another.set :=
        sound.placed other another old (.inl resolved)
      rw [dispatch_of registered] at none
      rw [none] at has
      cases has
    · exact hopeless other another old hopeful
  refine ⟨?_, fun other => ⟨(fun none => by cases none), ?_⟩,
    fun other another there placed => absurd placed (gone other another there),
    fun other another there holds => absurd holds.placed (gone other another there),
    fun other another _ _ there _ hopeful _ => absurd (.inr hopeful) (gone other another there),
    fun _ _ there resolved => sound.released_joined alone there resolved,
    fun _ _ member => sound.released_members found member, fun _ none _ => by cases none⟩
  · change state.commands ++ _ = _
    rw [sound.commands, sound.waiting_none hopeless, List.replicate_succ']
    simp only [Option.toList, List.map_nil, List.append_nil]
  · rintro ⟨another, there, asked⟩
    exact absurd (.inr (.inl asked)) (gone other another there)

include sound found alone in
theorem unsubscribe (returned : own.phase = .resolved ∨ own.phase = .released)
    (last : (state.delete own.set own.handler).members own.set = [] →
      (state.delete own.set own.handler).dispatch = [] ∧
        ∀ (other : Nat) another, state.calls[other]? = some another → ¬ another.Hopeful) :
    ∃ count waiting, (state.unsubscribe call own).Sound count waiting := by
  rw [TopicState.unsubscribe]
  split
  · rename_i empty
    obtain ⟨none, hopeless⟩ := last empty
    exact ⟨_, _, sound.unsubscribe_none found alone none hopeless⟩
  · rename_i stays
    exact ⟨_, _, sound.unsubscribe_some found alone returned stays⟩

end Released

omit [DecidableEq H] in
/-- The commands in flight, when the first one is to subscribe the connection. -/
theorem next_subscribe (sound : state.Sound count waiting) {rest : List SubscriberCommand}
    (next : state.commands = .subscribe call :: rest) :
    count = 0 ∧ waiting = some call ∧ rest = [] := by
  have all := sound.commands.symm.trans next
  cases count with
  | zero =>
      cases waiting with
      | none => cases all
      | some waits =>
          injection all with same none
          cases same
          exact ⟨rfl, rfl, none.symm⟩
  | succ count =>
      rw [List.replicate_succ] at all
      injection all with same
      cases same

omit [DecidableEq H] in
/-- The commands in flight, when the first one is to unsubscribe it. -/
theorem next_unsubscribe (sound : state.Sound count waiting) {rest : List SubscriberCommand}
    (next : state.commands = .unsubscribe :: rest) :
    ∃ fewer, count = fewer + 1 ∧
      rest = List.replicate fewer .unsubscribe ++ waiting.toList.map .subscribe := by
  have all := sound.commands.symm.trans next
  cases count with
  | zero =>
      cases waiting with
      | none => cases all
      | some waits =>
          injection all with same
          cases same
  | succ fewer =>
      rw [List.replicate_succ] at all
      injection all with _ same
      exact ⟨fewer, rfl, same.symm⟩

omit [DecidableEq H] in
/-- The command that a call waits for is performed, or fails. -/
theorem reply (sound : state.Sound count waiting) {rest : List SubscriberCommand}
    (next : state.commands = .subscribe call :: rest) {performed subscribed : Bool}
    (stays : ∀ (call : Nat) own, state.calls[call]? = some own → own.Holds → subscribed = true)
    (takes : performed = true → subscribed = true)
    (held : performed = false → subscribed = true →
      ∃ (call : Nat) (own : Subscription H), state.calls[call]? = some own ∧ own.Holds) :
    (({ state with subscribed, commands := rest } : TopicState H).enter call
      (.replied performed)).Sound 0 none := by
  obtain ⟨rfl, waits, rfl⟩ := sound.next_subscribe next
  obtain ⟨own, found, asked⟩ := (sound.asked call).mp waits
  have kept : ({ state with subscribed, commands := [] } : TopicState H).calls[call]? = some own :=
    found
  refine ⟨rfl, fun other => ?_, fun other another there placed => ?_,
    fun other another there holds => ⟨rfl, ?_⟩,
    fun _ _ _ _ there too => sound.single_enter found (fun _ => .inl asked) there too,
    fun other another there resolved => ?_, fun set one member => ?_, fun now _ _ => ?_⟩
  · constructor
    · intro none
      cases none
    · rintro ⟨another, there, still⟩
      obtain ⟨apart, old⟩ | ⟨-, before, -, rfl⟩ := enter_cases there
      · have same := (sound.asked other).mpr ⟨another, old, still⟩
        rw [waits] at same
        exact absurd (Option.some.inj same).symm apart
      · cases still
  · obtain ⟨-, old⟩ | ⟨rfl, before, old, rfl⟩ := enter_cases there
    · exact sound.placed other another old placed
    · cases found.symm.trans old
      exact sound.placed _ own found (.inr (.inl asked))
  · obtain ⟨-, old⟩ | ⟨rfl, before, old, rfl⟩ := enter_cases there
    · exact stays other another old holds
    · obtain resolved | replied := holds
      · cases resolved
      · cases replied
        exact takes rfl
  · obtain ⟨-, old⟩ | ⟨rfl, before, old, rfl⟩ := enter_cases there
    · exact sound.joined other another old resolved
    · cases resolved
  · obtain ⟨other, another, there, resolved, own⟩ := sound.members set one member
    refine ⟨other, another, enter_keep kept there ?_, resolved, own⟩
    rw [resolved, asked]
    decide
  · cases performed with
    | true => exact ⟨call, _, enter_self kept, .inr rfl⟩
    | false =>
        obtain ⟨other, another, there, holds⟩ := held rfl now
        refine ⟨other, another, enter_keep kept there ?_, holds⟩
        rw [asked]
        obtain resolved | replied := holds
        · rw [resolved]
          decide
        · rw [replied]
          decide

omit [DecidableEq H] in
/-- No subscription holds the connection while a command is to unsubscribe it. -/
theorem unheld (sound : state.Sound count waiting) {rest : List SubscriberCommand}
    (next : state.commands = .unsubscribe :: rest) {own : Subscription H}
    (found : state.calls[call]? = some own) : ¬ own.Holds := by
  intro holds
  obtain ⟨fewer, same, -⟩ := sound.next_unsubscribe next
  have none := (sound.firm call own found holds).1
  omega

omit [DecidableEq H] in
/-- The connection is unsubscribed, or stays subscribed as another command follows. -/
theorem drop (sound : state.Sound count waiting) {rest : List SubscriberCommand}
    (next : state.commands = .unsubscribe :: rest) {subscribed : Bool}
    (followed : subscribed = true → rest ≠ []) :
    ∃ fewer, ({ state with subscribed, commands := rest } : TopicState H).Sound fewer waiting := by
  obtain ⟨fewer, same, remain⟩ := sound.next_unsubscribe next
  refine ⟨fewer, remain, sound.asked, sound.placed,
    fun call own found holds => absurd holds (sound.unheld next found), sound.single,
    sound.joined, sound.members,
    fun now none still => absurd ?_ (followed now)⟩
  rw [remain, none, still]
  rfl

/-- What does no harm keeps a topic sound. -/
theorem step (sound : state.Sound count waiting) {event : TopicEvent H} {later : TopicState H}
    (allowed : state.Allows event) (step : TopicState.Step state event later) :
    ∃ count waiting, later.Sound count waiting := by
  have holder (has : state.dispatch ≠ []) :
      ∃ (call : Nat) (own : Subscription H), state.calls[call]? = some own ∧ own.Holds := by
    obtain ⟨handler, member⟩ := List.exists_mem_of_ne_nil _ has
    rw [dispatch] at member
    split at member
    · cases member
    · obtain ⟨call, own, found, resolved, -⟩ := sound.members _ handler member
      exact ⟨call, own, found, .inl resolved⟩
  cases step with
  | resolve found replied => exact ⟨_, _, sound.resolve found replied⟩
  | reject found replied => exact ⟨_, _, sound.reject found replied⟩
  | unsubscribe found returned =>
      obtain ⟨alone, last⟩ := allowed _ found
      exact sound.unsubscribe found alone returned last
  | performSubscribe next =>
      exact ⟨0, none, sound.reply next (fun _ _ _ _ => rfl) (fun _ => rfl)
        (fun failed => by cases failed)⟩
  | failSubscribe next =>
      refine ⟨0, none, sound.reply next (fun call own found holds => (sound.firm call own found
        holds).2) (fun performed => by cases performed) fun _ subscribed => ?_⟩
      obtain ⟨-, -, rfl⟩ := sound.next_subscribe next
      exact holder (allowed subscribed (congrArg List.length next))
  | performUnsubscribe next =>
      obtain ⟨fewer, drops⟩ := sound.drop next (fun now => absurd now Bool.false_ne_true)
      exact ⟨fewer, waiting, drops⟩
  | failUnsubscribe next =>
      rename_i rest
      have followed (subscribed : state.subscribed = true) : rest ≠ [] := by
        intro none
        have one : state.commands.length = 1 := by
          rw [next, none]
          rfl
        obtain ⟨call, own, found, holds⟩ := holder (allowed subscribed one)
        exact sound.unheld next found holds
      obtain ⟨fewer, drops⟩ := sound.drop next followed
      exact ⟨fewer, waiting, drops⟩

theorem subscribe (sound : state.Sound count waiting) (handler : H)
    (allowed : state.Allows (.subscribe handler)) :
    ∃ count waiting, (state.subscribe handler).Sound count waiting := by
  cases registered : state.registered with
  | none => exact ⟨_, _, sound.subscribe_new registered handler⟩
  | some set =>
      obtain ⟨subscribed, stays⟩ := allowed set registered
      exact ⟨_, _, sound.subscribe_join registered subscribed stays handler⟩

omit [DecidableEq H] in
/-- A sound topic keeps what is promised. -/
theorem kept (sound : state.Sound count waiting) : state.Kept := by
  have called (call : Nat) (own : Subscription H) (found : state.calls[call]? = some own)
      (resolved : own.phase = .resolved) : own.handler ∈ state.dispatch := by
    rw [dispatch_of (sound.placed call own found (.inl resolved))]
    exact sound.joined call own found resolved
  refine ⟨fun call own found resolved => ⟨called call own found resolved,
    (sound.firm call own found (.inl resolved)).2⟩, fun quiet still idle => ?_⟩
  have none : count = 0 ∧ waiting = Option.none := by
    have all := sound.commands.symm.trans still
    obtain ⟨few, unasked⟩ := List.append_eq_nil_iff.mp all
    refine ⟨(List.replicate_eq_nil_iff _).mp few, ?_⟩
    cases waiting with
    | none => rfl
    | some call => cases unasked
  by_contra not
  obtain ⟨call, own, found, resolved | replied⟩ :=
    sound.rest (Bool.not_eq_false _ ▸ not) none.1 none.2
  · have has := called call own found resolved
    rw [quiet] at has
    cases has
  · exact idle call own found (.inr replied)

/-! ## Harm -/

omit [DecidableEq H] in
theorem lost {own : Subscription H} (found : state.calls[call]? = some own)
    (resolved : own.phase = .resolved)
    (gone : own.handler ∉ state.dispatch ∨ state.subscribed = false) : ¬ state.Kept := by
  intro kept
  obtain ⟨called, subscribed⟩ := kept.kept call own found resolved
  obtain missing | unsubscribed := gone
  · exact missing called
  · exact Bool.false_ne_true (unsubscribed.symm.trans subscribed)

omit [DecidableEq H] in
theorem dispatch_none (unregistered : state.registered = none) (handler : H) :
    handler ∉ state.dispatch := by
  rw [dispatch, unregistered]
  exact List.not_mem_nil

/-- A call whose command was performed goes on without a registered set. -/
theorem lost_replied (unregistered : state.registered = none) {own : Subscription H}
    (found : state.calls[call]? = some own) (replied : own.phase = .replied true) :
    ∃ final, Leads state final ∧ ¬ final.Kept := by
  have kept : (state.add own.set own.handler).calls[call]? = some own := found
  have registered : ((state.add own.set own.handler).enter call .resolved).registered = none :=
    unregistered
  exact ⟨_, .single ⟨_, .resolve found replied⟩,
    lost (enter_self kept) rfl (.inl (dispatch_none registered _))⟩

/-- A call that waits has its command performed without a registered set. -/
theorem lost_asked (unregistered : state.registered = none) {own : Subscription H}
    (found : state.calls[call]? = some own) {rest : List SubscriberCommand}
    (commands : state.commands = List.replicate count .unsubscribe ++ .subscribe call :: rest) :
    ∃ final, Leads state final ∧ ¬ final.Kept := by
  induction count generalizing state with
  | zero =>
      have step : TopicState.Step state .perform _ := .performSubscribe commands
      have kept : ({ state with subscribed := true, commands := rest } :
          TopicState H).calls[call]? = some own := found
      have registered : (({ state with subscribed := true, commands := rest } :
          TopicState H).enter call (.replied true)).registered = none := unregistered
      obtain ⟨final, leads, gone⟩ := lost_replied registered (enter_self kept) rfl
      exact ⟨final, .head ⟨_, step⟩ leads, gone⟩
  | succ count ih =>
      have step : TopicState.Step state .perform _ := .performUnsubscribe commands
      have unsubscribed := @ih { state with
        subscribed := false
        commands := List.replicate count .unsubscribe ++ .subscribe call :: rest }
      obtain ⟨final, leads, gone⟩ := unsubscribed unregistered found rfl
      exact ⟨final, .head ⟨_, step⟩ leads, gone⟩

/-- A set is joined while the connection is not subscribed, or does not stay so. -/
theorem harm_subscribe (sound : state.Sound count waiting) {handler : H}
    (harm : ¬ state.Allows (.subscribe handler)) :
    ∃ final, Leads (state.subscribe handler) final ∧ ¬ final.Kept := by
  obtain ⟨set, harm⟩ := not_forall.mp harm
  obtain ⟨registered, harm⟩ := Classical.not_imp.mp harm
  rw [TopicState.subscribe, registered]
  dsimp only
  have found : (state.calls ++ [{ handler, set, phase := .resolved }])[state.calls.length]? =
      some { handler, set, phase := .resolved } := List.getElem?_concat_length ..
  cases subscribed : state.subscribed with
  | false => exact ⟨_, .refl, lost found rfl (.inr subscribed)⟩
  | true =>
      have drops : .unsubscribe ∈ state.commands := by
        by_contra stays
        exact harm ⟨subscribed, stays⟩
      cases count with
      | zero =>
          rw [sound.commands] at drops
          cases waiting <;> simp at drops
      | succ fewer =>
          exact ⟨_, .single ⟨.perform, .performUnsubscribe sound.commands⟩,
            lost found rfl (.inr rfl)⟩

theorem unsubscribe_other {own : Subscription H} {other : Nat} (apart : other ≠ call) :
    (state.unsubscribe call own).calls[other]? = state.calls[other]? := by
  rw [TopicState.unsubscribe]
  split <;> exact enter_other apart

theorem unsubscribe_empty {own : Subscription H}
    (empty : (state.delete own.set own.handler).members own.set = []) :
    (state.unsubscribe call own).registered = none ∧
      (state.unsubscribe call own).commands = state.commands ++ [.unsubscribe] := by
  rw [TopicState.unsubscribe]
  split
  · exact ⟨rfl, rfl⟩
  · exact absurd empty ‹_›

theorem unsubscribe_dispatch {own : Subscription H} {handler : H}
    (called : handler ∈ (state.unsubscribe call own).dispatch) :
    handler ∈ (state.delete own.set own.handler).dispatch := by
  rw [TopicState.unsubscribe] at called
  split at called
  · cases called
  · exact called

/-- The handler of another subscription is taken. -/
theorem lost_shared (sound : state.Sound count waiting) {own : Subscription H} {other : Nat}
    {another : Subscription H} (there : state.calls[other]? = some another) (apart : other ≠ call)
    (resolved : another.phase = .resolved) (set : another.set = own.set)
    (handler : another.handler = own.handler) : ¬ (state.unsubscribe call own).Kept := by
  refine lost ((unsubscribe_other apart).trans there) resolved (.inl fun called => ?_)
  have registered : (state.delete own.set own.handler).registered = some own.set := by
    rw [← set]
    exact sound.placed other another there (.inl resolved)
  have stays := unsubscribe_dispatch called
  rw [dispatch_of registered] at stays
  exact (mem_delete.mp stays).2 rfl handler

/-- The set in the registry is forgotten, or was and is awaited. -/
theorem lost_registered (sound : state.Sound count waiting) {own : Subscription H}
    (found : state.calls[call]? = some own)
    (returned : own.phase = .resolved ∨ own.phase = .released)
    (empty : (state.delete own.set own.handler).members own.set = [])
    (harm : ¬ ((state.delete own.set own.handler).dispatch = [] ∧
      ∀ (other : Nat) another, state.calls[other]? = some another → ¬ another.Hopeful)) :
    ∃ final, Leads (state.unsubscribe call own) final ∧ ¬ final.Kept := by
  obtain ⟨unregistered, commands⟩ : (state.unsubscribe call own).registered = none ∧
      (state.unsubscribe call own).commands = state.commands ++ [.unsubscribe] :=
    unsubscribe_empty empty
  by_cases quiet : (state.delete own.set own.handler).dispatch = []
  · have waits : ∃ (other : Nat) (another : Subscription H),
        state.calls[other]? = some another ∧ another.Hopeful := by
      by_contra hopeless
      exact harm ⟨quiet, fun other another there hopeful =>
        hopeless ⟨other, another, there, hopeful⟩⟩
    obtain ⟨other, another, there, hopeful⟩ := waits
    have apart : other ≠ call := by
      rintro rfl
      cases found.symm.trans there
      obtain asked | replied := hopeful
      · rw [asked] at returned
        cases returned <;> contradiction
      · rw [replied] at returned
        cases returned <;> contradiction
    have still : (state.unsubscribe call own).calls[other]? = some another :=
      (unsubscribe_other apart).trans there
    obtain asked | replied := hopeful
    · have next : (state.unsubscribe call own).commands =
          List.replicate count .unsubscribe ++ .subscribe other :: [.unsubscribe] := by
        rw [commands, sound.commands, (sound.asked other).mpr ⟨another, there, asked⟩,
          List.append_assoc]
        rfl
      exact lost_asked unregistered still next
    · exact lost_replied unregistered still replied
  · obtain ⟨handler, called⟩ := List.exists_mem_of_ne_nil _ quiet
    have registered : ∃ set, state.registered = some set ∧
        handler ∈ (state.delete own.set own.handler).members set := by
      rw [dispatch] at called
      split at called
      · cases called
      · exact ⟨_, ‹_›, called⟩
    obtain ⟨set, -, member⟩ := registered
    obtain ⟨other, another, there, resolved, rfl, -⟩ :=
      sound.members set handler (mem_delete.mp member).1
    have apart : other ≠ call := by
      rintro rfl
      cases found.symm.trans there
      rw [empty] at member
      cases member
    exact ⟨_, .refl, lost ((unsubscribe_other apart).trans there) resolved
      (.inl (dispatch_none unregistered _))⟩

theorem harm_unsubscribe (sound : state.Sound count waiting) {own : Subscription H}
    (found : state.calls[call]? = some own)
    (returned : own.phase = .resolved ∨ own.phase = .released)
    (harm : ¬ state.Allows (.unsubscribe call)) :
    ∃ final, Leads (state.unsubscribe call own) final ∧ ¬ final.Kept := by
  obtain ⟨_, harm⟩ := not_forall.mp harm
  obtain ⟨there, harm⟩ := Classical.not_imp.mp harm
  cases found.symm.trans there
  obtain shared | harm := not_and_or.mp harm
  · push Not at shared
    obtain ⟨other, another, there, apart, resolved, set, handler⟩ := shared
    exact ⟨_, .refl, sound.lost_shared there apart resolved set handler⟩
  · obtain ⟨empty, harm⟩ := Classical.not_imp.mp harm
    exact sound.lost_registered found returned empty harm

omit [DecidableEq H] in
/-- The last command fails while the connection is subscribed without a handler. -/
theorem lost_quiet (quiet : state.dispatch = []) (still : state.commands = [])
    (hopeless : ∀ (call : Nat) own, state.calls[call]? = some own → ¬ own.Hopeful)
    (subscribed : state.subscribed = true) : ¬ state.Kept := by
  intro kept
  exact Bool.false_ne_true ((kept.quiet quiet still hopeless).symm.trans subscribed)

theorem harm_fail (sound : state.Sound count waiting) {later : TopicState H}
    (step : TopicState.Step state .fail later) (harm : ¬ state.Allows .fail) : ¬ later.Kept := by
  obtain ⟨subscribed, harm⟩ := Classical.not_imp.mp harm
  obtain ⟨one, harm⟩ := Classical.not_imp.mp harm
  have quiet : state.dispatch = [] := not_not.mp harm
  cases step with
  | failSubscribe next =>
      obtain ⟨-, waits, rfl⟩ := sound.next_subscribe next
      obtain ⟨own, found, asked⟩ := (sound.asked _).mp waits
      refine lost_quiet quiet rfl (fun other another there hopeful => ?_) subscribed
      obtain ⟨apart, old⟩ | ⟨-, before, -, rfl⟩ := enter_cases there
      · exact apart (sound.single _ _ _ _ old found hopeful (.inl asked))
      · obtain asked | replied := hopeful
        · cases asked
        · cases replied
  | failUnsubscribe next =>
      obtain ⟨fewer, same, remain⟩ := sound.next_unsubscribe next
      rw [next, List.length_cons, remain] at one
      have none : waiting = Option.none := by
        cases waiting with
        | none => rfl
        | some waits => simp at one
      refine lost_quiet quiet ?_ (fun other another there hopeful => ?_) subscribed
      · exact remain.trans (List.length_eq_zero_iff.mp (by omega))
      · obtain asked | replied := hopeful
        · have waits := (sound.asked other).mpr ⟨another, there, asked⟩
          rw [none] at waits
          cases waits
        · exact sound.unheld next there (.inr replied)

/-- **Every harm loses a subscription, or leaves the connection subscribed for nothing**: what the
topic has become, or can come to. -/
theorem harm (sound : state.Sound count waiting) {event : TopicEvent H} {later : TopicState H}
    (step : TopicState.Step state event later) (harm : ¬ state.Allows event) :
    ∃ final, Leads later final ∧ ¬ final.Kept := by
  cases step with
  | resolve | reject | performSubscribe | performUnsubscribe => exact absurd trivial harm
  | unsubscribe found returned => exact sound.harm_unsubscribe found returned harm
  | failSubscribe next => exact ⟨_, .refl, sound.harm_fail (.failSubscribe next) harm⟩
  | failUnsubscribe next => exact ⟨_, .refl, sound.harm_fail (.failUnsubscribe next) harm⟩

end Sound

end TopicState

/-- What keeps one topic sound keeps them all. -/
theorem RedisSubscriptions.sound_update {state : RedisSubscriptions H}
    (sound : ∀ topic, ∃ count waiting, (state topic).Sound count waiting) (topic : Topic)
    {later : TopicState H} (own : ∃ count waiting, later.Sound count waiting) (other : Topic) :
    ∃ count waiting, (Function.update state topic later other).Sound count waiting := by
  by_cases same : other = topic
  · subst same
    rw [Function.update_self]
    exact own
  · rw [Function.update_of_ne same]
    exact sound other

variable [DecidableEq H]

/-- Without harm, every topic is sound. -/
theorem RedisSubscriptions.Reached.sound {state : RedisSubscriptions H}
    (reached : RedisSubscriptions.Reached TopicState.Allows state) (topic : Topic) :
    ∃ count waiting, (state topic).Sound count waiting := by
  induction reached generalizing topic with
  | boot => exact ⟨0, none, by constructor <;> simp⟩
  | subscribe before channel handler allowed ih =>
      obtain ⟨count, waiting, sound⟩ := ih (.channel channel)
      exact RedisSubscriptions.sound_update ih _ (sound.subscribe handler allowed) topic
  | pSubscribe before pattern handler allowed ih =>
      obtain ⟨count, waiting, sound⟩ := ih (.pattern pattern)
      exact RedisSubscriptions.sound_update ih _ (sound.subscribe handler allowed) topic
  | step before own allowed step ih =>
      obtain ⟨count, waiting, sound⟩ := ih own
      exact RedisSubscriptions.sound_update ih _ (sound.step allowed step) topic

/-- **Subscriptions are kept in every run without harm**, on every channel and pattern. And no
other run will do: after the first event that does harm, a topic is not as promised, or can come
to that without another call of `subscribe`. -/
theorem subscriptions_kept {state : RedisSubscriptions H}
    (reached : RedisSubscriptions.Reached TopicState.Allows state) (topic : Topic) :
    (state topic).Kept ∧
      (∀ handler, ¬ (state topic).Allows (.subscribe handler) →
        ∃ final, TopicState.Leads ((state topic).subscribe handler) final ∧ ¬ final.Kept) ∧
      ∀ event later, TopicState.Step (state topic) event later → ¬ (state topic).Allows event →
        ∃ final, TopicState.Leads later final ∧ ¬ final.Kept := by
  obtain ⟨count, waiting, sound⟩ := reached.sound topic
  exact ⟨sound.kept, fun handler => sound.harm_subscribe, fun event later => sound.harm⟩

/-- A pattern is subscribed to, and its handler is called. -/
theorem subscriptions_kept_pattern : ∃ state : RedisSubscriptions Nat,
    (state (.pattern [114, 116])).Kept ∧ (state (.pattern [114, 116])).dispatch = [7] := by
  have booted : RedisSubscriptions.Reached TopicState.Allows
      (fun _ => {} : RedisSubscriptions Nat) := .boot
  have asked := booted.pSubscribe [114, 116] 7 (fun set none => by cases none)
  have performed := asked.step (.pattern [114, 116])
    (show TopicState.Allows _ .perform from trivial) (.performSubscribe rfl)
  have resolved := performed.step (.pattern [114, 116])
    (show TopicState.Allows _ (.resume 0) from trivial) (.resolve rfl rfl)
  exact ⟨_, (subscriptions_kept resolved (.pattern [114, 116])).1, rfl⟩

/-- The command of the first call fails and leaves its set in the registry. The second one finds
it, and returns without a subscribed connection. -/
theorem subscription_lost : ¬ ∀ state : RedisSubscriptions Nat,
    state.Reached (fun _ _ => True) → ∀ topic, (state topic).Kept := by
  intro claim
  have booted : RedisSubscriptions.Reached (fun _ _ => True)
      (fun _ => {} : RedisSubscriptions Nat) := .boot
  have asked := booted.subscribe [114, 116] 7 trivial
  have failed := asked.step (.channel [114, 116]) trivial (.failSubscribe rfl)
  have rejected := failed.step (.channel [114, 116]) trivial
    (@TopicState.Step.reject _ _ _ 0 _ rfl rfl)
  have joined := rejected.subscribe [114, 116] 8 trivial
  have kept := (claim _ joined (.channel [114, 116])).kept 1 ⟨8, 0, .resolved⟩ rfl rfl
  exact absurd kept.2 Bool.false_ne_true

end Subscriptions

end Numera
