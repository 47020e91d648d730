import Numera.Chain.Database
import Numera.Foundation.Json
import Numera.Realtime.Channels
import Mathlib.Logic.Function.Basic

/-! # The realtime gateway

Every backend instance subscribes to the same two patterns and relays what Redis
pushes to it to the clients that are in the room of its channel at that moment. A run
is a list of events: publications, which Redis pushes to every instance that is
subscribed, and what happens at one instance. Whatever happens, no client is sent a
publication twice or out of order, or one of a room it has not joined
(`received_once_inOrder`). While an instance keeps its connection and a client its
room, what the client has received on it and what is still in flight account for
every publication, and for a market's room these are the messages about the market
(`market_stream_exact`).
-/

namespace Numera

open JsString (ascii)

/-! ## The gateway -/

/-- A message on a Redis channel. -/
structure Publication where
  channel : JsString
  message : JsString

/-- What a client is sent of a message: the value it parses to, or its text. -/
inductive Payload where
  | value (json : Json)
  | text (message : JsString)

/-- An event sent to a room. -/
structure Emission where
  room : JsString
  event : JsString
  payload : Payload

/-- The patterns of a gateway. -/
inductive GatewayPattern where
  | market
  | global
  deriving DecidableEq

def GatewayPattern.text : GatewayPattern → JsString
  | market => marketChannelPattern
  | global => globalChannelPattern

/-- One instance: the patterns its connection is subscribed to, those its registry has
the handler for, what Redis has pushed to it under which pattern, and for each of its
clients the rooms it is in and what it was sent. -/
structure RealtimeGateway (C : Type) where
  subscribed : GatewayPattern → Bool := fun _ => false
  bridged : GatewayPattern → Bool := fun _ => false
  inFlight : List (GatewayPattern × Publication) := []
  rooms : C → List JsString := fun _ => []
  received : C → List Emission := fun _ => []

/-- The answer to a client's message. -/
inductive GatewayReply where
  | joined (room : JsString)
  | done
  | refused
  deriving DecidableEq

/-- The payload a message is relayed with. -/
def Publication.payload (publication : Publication) : Payload :=
  match Json.parse publication.message with
  | some json => .value json
  | none => .text publication.message

/-- What is emitted of a publication, if its channel is read. -/
def Publication.emission (publication : Publication) : Option Emission :=
  (parseChannel publication.channel).map fun (room, event) =>
    ⟨room, event, publication.payload⟩

namespace RealtimeGateway

variable {C : Type} (gateway : RealtimeGateway C)

/-- Redis pushes a publication once for every pattern that matches its channel. -/
def push (publication : Publication) : RealtimeGateway C :=
  let patterns := [GatewayPattern.market, .global].filter fun pattern =>
    gateway.subscribed pattern && pattern.text.globMatches publication.channel
  { gateway with
    inFlight := gateway.inFlight ++ patterns.map fun pattern => (pattern, publication) }

/-- `server.to(room).emit(event, payload)`. -/
def emit (emission : Emission) : RealtimeGateway C :=
  { gateway with
    received := fun client =>
      if emission.room ∈ gateway.rooms client then gateway.received client ++ [emission]
      else gateway.received client }

def relay (publication : Publication) : RealtimeGateway C :=
  match publication.emission with
  | some emission => gateway.emit emission
  | none => gateway

/-- The next push arrives. Without a handler for its pattern it is dropped. -/
def deliver : RealtimeGateway C :=
  match gateway.inFlight with
  | [] => gateway
  | (pattern, publication) :: rest =>
      let arrived := { gateway with inFlight := rest }
      if gateway.bridged pattern then arrived.relay publication else arrived

variable [DecidableEq C]

def join (client : C) (room : JsString) : RealtimeGateway C :=
  { gateway with
    rooms := Function.update gateway.rooms client
      (if room ∈ gateway.rooms client then gateway.rooms client
        else gateway.rooms client ++ [room]) }

def leave (client : C) (room : JsString) : RealtimeGateway C :=
  { gateway with
    rooms := Function.update gateway.rooms client
      ((gateway.rooms client).filter fun other => other ≠ room) }

/-- `subscribe`: a reference is refused unless it is a UUID, and the room is named as the
client spelled it. -/
def onSubscribe (client : C) : Option JsString → GatewayReply × RealtimeGateway C
  | some marketRef =>
      if isUuid marketRef then
        (.joined (marketRoom marketRef), gateway.join client (marketRoom marketRef))
      else (.refused, gateway)
  | none => (.refused, gateway)

/-- `unsubscribe`. The empty reference counts as none. -/
def onUnsubscribe (client : C) : Option JsString → GatewayReply × RealtimeGateway C
  | some (unit :: rest) => (.done, gateway.leave client (marketRoom (unit :: rest)))
  | _ => (.done, gateway)

def onSubscribeGlobal (client : C) : GatewayReply × RealtimeGateway C :=
  (.joined globalRoom, gateway.join client globalRoom)

/-- A socket that disconnects has left its rooms. -/
def disconnect (client : C) : RealtimeGateway C :=
  { gateway with rooms := Function.update gateway.rooms client [] }

end RealtimeGateway

/-- What happens at an instance: its connection is subscribed to a pattern and the
handler registered (`afterInit`, or the connection after a drop); a push arrives; the
connection drops, with some of what was pushed; the module is destroyed; a client
sends a message or disconnects. -/
inductive GatewayEvent (C : Type) where
  | psubscribed (pattern : GatewayPattern)
  | bridged (pattern : GatewayPattern)
  | arrived
  | dropped (kept : Nat)
  | destroyed
  | subscribe (client : C) (marketRef : Option JsString)
  | unsubscribe (client : C) (marketRef : Option JsString)
  | subscribeGlobal (client : C)
  | disconnected (client : C)

section Events

variable {ι C : Type} [DecidableEq ι] [DecidableEq C]

def RealtimeGateway.after (gateway : RealtimeGateway C) : GatewayEvent C → RealtimeGateway C
  | .psubscribed pattern =>
      { gateway with subscribed := Function.update gateway.subscribed pattern true }
  | .bridged pattern => { gateway with bridged := Function.update gateway.bridged pattern true }
  | .arrived => gateway.deliver
  | .dropped kept =>
      { gateway with subscribed := fun _ => false, inFlight := gateway.inFlight.take kept }
  | .destroyed => { gateway with subscribed := fun _ => false, bridged := fun _ => false }
  | .subscribe client marketRef => (gateway.onSubscribe client marketRef).2
  | .unsubscribe client marketRef => (gateway.onUnsubscribe client marketRef).2
  | .subscribeGlobal client => (gateway.onSubscribeGlobal client).2
  | .disconnected client => gateway.disconnect client

/-- A publication, or an event at an instance. -/
inductive RealtimeStep (ι C : Type) where
  | published (publication : Publication)
  | happened (instanceId : ι) (event : GatewayEvent C)

/-- The instances after a step. Each client is connected to one of them. -/
def realtimeStep (gateways : ι → RealtimeGateway C) : RealtimeStep ι C → ι → RealtimeGateway C
  | .published publication => fun own => (gateways own).push publication
  | .happened own event => Function.update gateways own ((gateways own).after event)

def realtimeRun (gateways : ι → RealtimeGateway C) (steps : List (RealtimeStep ι C)) :
    ι → RealtimeGateway C :=
  steps.foldl realtimeStep gateways

def RealtimeStep.publication? : RealtimeStep ι C → Option Publication
  | published publication => some publication
  | happened _ _ => none

/-- What the publications of a run are emitted as. -/
def emissions (steps : List (RealtimeStep ι C)) : List Emission :=
  (steps.filterMap RealtimeStep.publication?).filterMap Publication.emission

/-! ## What is pushed -/

/-- What is in flight to an instance, as it will be emitted. -/
def RealtimeGateway.flying (gateway : RealtimeGateway C) : List Emission :=
  gateway.inFlight.filterMap fun entry => entry.2.emission

omit [DecidableEq C] in
/-- A publication is pushed at most once, and once when the connection is subscribed. -/
theorem RealtimeGateway.flying_push (gateway : RealtimeGateway C) (publication : Publication) :
    ∃ added, (gateway.push publication).flying = gateway.flying ++ added ∧
      added.Sublist publication.emission.toList ∧
      ((∀ pattern, gateway.subscribed pattern = true) → added = publication.emission.toList) := by
  refine ⟨([GatewayPattern.market, .global].filter fun pattern =>
    gateway.subscribed pattern && pattern.text.globMatches publication.channel).filterMap
      fun _ => publication.emission, ?_, ?_⟩
  · simp only [flying, push, List.filterMap_append, List.filterMap_map]
    rfl
  · cases emitted : publication.emission with
    | none => simp
    | some emission =>
        have parsed : ∃ found, parseChannel publication.channel = some found :=
          ⟨_, (Option.map_eq_some_iff.mp emitted).choose_spec.1⟩
        obtain ⟨found, parsed⟩ := parsed
        -- exactly one of the patterns matches the channel
        have one : ∀ subscribed : GatewayPattern → Bool,
            ([GatewayPattern.market, .global].filter fun pattern =>
              subscribed pattern && pattern.text.globMatches publication.channel) =
                if marketChannelPattern.globMatches publication.channel then
                  if subscribed .market then [.market] else []
                else if subscribed .global then [.global] else [] := by
          intro subscribed
          by_cases market : marketChannelPattern.globMatches publication.channel = true
          · have global := one_pattern market
            simp only [List.filter_cons, GatewayPattern.text, market, global, Bool.and_true,
              Bool.and_false, ↓reduceIte, Bool.false_eq_true, List.filter_nil]
          · have global := (patterns_of_parsed parsed).resolve_left market
            simp only [List.filter_cons, GatewayPattern.text, market, global, Bool.and_true,
              Bool.and_false, ↓reduceIte, Bool.false_eq_true, List.filter_nil]
        rw [one]
        constructor
        · split <;> split <;> simp
        · intro subscribed
          simp only [subscribed, ↓reduceIte]
          split <;> rfl

/-- The next push is taken, and sent to a client or not. -/
inductive RealtimeGateway.Delivered (gateway : RealtimeGateway C) (client : C) :
    RealtimeGateway C → Prop where
  | idle : Delivered gateway client gateway
  | unseen {later : RealtimeGateway C} (flying : later.flying.Sublist gateway.flying)
      (received : later.received client = gateway.received client)
      (exact : (∀ pattern, gateway.bridged pattern = true) → later.flying = gateway.flying) :
      Delivered gateway client later
  | emitted {later : RealtimeGateway C} {emission : Emission}
      (flying : gateway.flying = emission :: later.flying)
      (received : later.received client =
        if emission.room ∈ gateway.rooms client then gateway.received client ++ [emission]
        else gateway.received client) :
      Delivered gateway client later

omit [DecidableEq C] in
theorem RealtimeGateway.delivered (gateway : RealtimeGateway C) (client : C) :
    gateway.Delivered client gateway.deliver := by
  unfold deliver
  split
  · exact .idle
  · rename_i pattern publication rest pushed
    dsimp only
    have flying : gateway.flying = publication.emission.toList ++ rest.filterMap fun entry =>
        entry.2.emission := by
      rw [RealtimeGateway.flying, pushed, List.filterMap_cons]
      cases publication.emission <;> rfl
    split
    · unfold relay
      cases emitted : publication.emission with
      | none =>
          rw [emitted] at flying
          exact .unseen (by rw [flying]; exact .refl _) rfl fun _ => flying.symm
      | some emission =>
          rw [emitted] at flying
          exact .emitted flying rfl
    · rename_i unbridged
      refine .unseen ?_ rfl fun bridged => absurd (bridged pattern) unbridged
      rw [flying]
      exact List.sublist_append_right _ _

omit [DecidableEq C] in
/-- An arrival changes neither the connection nor a room. -/
theorem RealtimeGateway.deliver_keeps (gateway : RealtimeGateway C) :
    gateway.deliver.subscribed = gateway.subscribed ∧
      gateway.deliver.bridged = gateway.bridged ∧ gateway.deliver.rooms = gateway.rooms := by
  unfold deliver relay emit
  repeat' split
  all_goals exact ⟨rfl, rfl, rfl⟩

/-- A request to join a room is refused, or the client is let in. -/
theorem RealtimeGateway.after_subscribe (gateway : RealtimeGateway C) (client : C)
    (marketRef : Option JsString) :
    gateway.after (.subscribe client marketRef) = gateway ∨
      ∃ named, marketRef = some named ∧ isUuid named = true ∧
        gateway.after (.subscribe client marketRef) = gateway.join client (marketRoom named) := by
  cases marketRef with
  | none => exact .inl rfl
  | some named =>
      by_cases uuid : isUuid named = true
      · exact .inr ⟨named, rfl, uuid, by simp [after, onSubscribe, uuid]⟩
      · exact .inl (by simp [after, onSubscribe, uuid])

/-- A request to leave a room names none, or the client leaves it. -/
theorem RealtimeGateway.after_unsubscribe (gateway : RealtimeGateway C) (client : C)
    (marketRef : Option JsString) :
    gateway.after (.unsubscribe client marketRef) = gateway ∨
      ∃ named, marketRef = some named ∧
        gateway.after (.unsubscribe client marketRef) = gateway.leave client (marketRoom named) := by
  cases marketRef with
  | none => exact .inl rfl
  | some named =>
      cases named with
      | nil => exact .inl rfl
      | cons unit rest => exact .inr ⟨unit :: rest, rfl, rfl⟩

theorem RealtimeGateway.mem_join {gateway : RealtimeGateway C} {client other : C}
    {asked room : JsString} :
    room ∈ (gateway.join other asked).rooms client ↔
      room ∈ gateway.rooms client ∨ (client = other ∧ room = asked) := by
  unfold join
  by_cases own : client = other
  · subst own
    simp only [Function.update_self, true_and]
    split
    · rename_i within
      exact ⟨.inl, fun joined => joined.elim id fun same => same ▸ within⟩
    · rw [List.mem_append, List.mem_singleton]
  · simp [own]

theorem RealtimeGateway.mem_leave {gateway : RealtimeGateway C} {client other : C}
    {left room : JsString} :
    room ∈ (gateway.leave other left).rooms client ↔
      room ∈ gateway.rooms client ∧ (client = other → room ≠ left) := by
  unfold leave
  by_cases own : client = other
  · subst own
    simp
  · simp [own]

/-! ## Whatever happens -/

/-- A client of an instance asked for a room, and was let in. -/
def Joins (steps : List (RealtimeStep ι C)) (own : ι) (client : C) (room : JsString) : Prop :=
  (∃ marketRef, .happened own (.subscribe client (some marketRef)) ∈ steps ∧
    isUuid marketRef = true ∧ room = marketRoom marketRef) ∨
  (.happened own (.subscribeGlobal client) ∈ steps ∧ room = globalRoom)

/-- What holds of an instance after a run. -/
structure RealtimeGateway.Faithful (gateway : RealtimeGateway C) (steps : List (RealtimeStep ι C))
    (own : ι) (client : C) : Prop where
  ordered : (gateway.received client ++ gateway.flying).Sublist (emissions steps)
  rooms : ∀ room ∈ gateway.rooms client, Joins steps own client room
  asked : ∀ emission ∈ gateway.received client, Joins steps own client emission.room

omit [DecidableEq ι] [DecidableEq C] in
private theorem Joins.later {steps : List (RealtimeStep ι C)} {own : ι} {client : C}
    {room : JsString} (joins : Joins steps own client room) (step : RealtimeStep ι C) :
    Joins (steps ++ [step]) own client room := by
  rcases joins with ⟨marketRef, member, uuid, named⟩ | ⟨member, named⟩
  · exact .inl ⟨marketRef, List.mem_append_left _ member, uuid, named⟩
  · exact .inr ⟨List.mem_append_left _ member, named⟩

omit [DecidableEq ι] [DecidableEq C] in
private theorem emissions_append (steps : List (RealtimeStep ι C)) (step : RealtimeStep ι C) :
    emissions (steps ++ [step]) = emissions steps ++
      (step.publication?.bind Publication.emission).toList := by
  unfold emissions
  rw [List.filterMap_append, List.filterMap_append]
  cases step with
  | published publication => cases emitted : publication.emission <;> simp [RealtimeStep.publication?, emitted]
  | happened own event => rfl

omit [DecidableEq ι] [DecidableEq C] in
/-- What keeps what an instance has in flight and has sent, and joins no room that was
not asked for. -/
private theorem RealtimeGateway.Faithful.same {gateway later : RealtimeGateway C}
    {steps : List (RealtimeStep ι C)} {own : ι} {client : C} {step : RealtimeStep ι C}
    (faithful : gateway.Faithful steps own client)
    (flying : later.flying.Sublist gateway.flying)
    (received : later.received client = gateway.received client)
    (rooms : ∀ room ∈ later.rooms client, room ∈ gateway.rooms client ∨
      Joins (steps ++ [step]) own client room) :
    later.Faithful (steps ++ [step]) own client where
  ordered := by
    rw [received, emissions_append]
    exact ((flying.append_left _).trans faithful.ordered).trans (List.sublist_append_left _ _)
  rooms room member := (rooms room member).elim (fun old => (faithful.rooms room old).later step) id
  asked emission member := (faithful.asked emission (received ▸ member)).later step

omit [DecidableEq ι] in
private theorem RealtimeGateway.Faithful.after {gateway : RealtimeGateway C}
    {steps : List (RealtimeStep ι C)} {own : ι} {client : C} (event : GatewayEvent C)
    (faithful : gateway.Faithful steps own client) :
    (gateway.after event).Faithful (steps ++ [.happened own event]) own client := by
  have last : RealtimeStep.happened own event ∈ steps ++ [.happened own event] := by simp
  cases event with
  | psubscribed pattern => exact faithful.same (.refl _) rfl fun _ => .inl
  | bridged pattern => exact faithful.same (.refl _) rfl fun _ => .inl
  | dropped kept =>
      exact faithful.same ((List.take_sublist _ _).filterMap _) rfl fun _ => .inl
  | destroyed => exact faithful.same (.refl _) rfl fun _ => .inl
  | disconnected other =>
      refine faithful.same (.refl _) rfl fun room member => .inl ?_
      by_cases same : client = other
      · subst same
        simp [RealtimeGateway.after, RealtimeGateway.disconnect] at member
      · simpa [RealtimeGateway.after, RealtimeGateway.disconnect, same] using member
  | unsubscribe other marketRef =>
      rcases gateway.after_unsubscribe other marketRef with same | ⟨named, -, left⟩
      · rw [same]
        exact faithful.same (.refl _) rfl fun _ => .inl
      · rw [left]
        exact faithful.same (.refl _) rfl fun room member =>
          .inl (RealtimeGateway.mem_leave.mp member).1
  | subscribeGlobal other =>
      refine faithful.same (.refl _) rfl fun room member => ?_
      refine (RealtimeGateway.mem_join.mp member).imp_right fun joined => ?_
      obtain ⟨rfl, rfl⟩ := joined
      exact .inr ⟨last, rfl⟩
  | subscribe other marketRef =>
      rcases gateway.after_subscribe other marketRef with same | ⟨named, rfl, uuid, entered⟩
      · rw [same]
        exact faithful.same (.refl _) rfl fun _ => .inl
      · rw [entered]
        refine faithful.same (.refl _) rfl fun room member => ?_
        refine (RealtimeGateway.mem_join.mp member).imp_right fun joined => ?_
        obtain ⟨rfl, rfl⟩ := joined
        exact .inl ⟨named, last, uuid, rfl⟩
  | arrived =>
      have arrival := gateway.delivered client
      change (gateway.deliver).Faithful _ own client
      generalize reached : gateway.deliver = later at arrival
      have sameRooms : later.rooms = gateway.rooms := reached ▸ gateway.deliver_keeps.2.2
      cases arrival with
      | idle => exact faithful.same (.refl _) rfl fun _ => .inl
      | unseen flying received _ =>
          exact faithful.same flying received fun _ member => .inl (sameRooms ▸ member)
      | @emitted _ emission flying received =>
          refine ⟨?_, fun room member => ?_, fun sent member => ?_⟩
          · rw [emissions_append]
            refine List.Sublist.trans ?_ (List.sublist_append_left _ _)
            refine List.Sublist.trans ?_ faithful.ordered
            rw [received, flying]
            split
            · rw [List.append_assoc]
              exact .refl _
            · exact (List.sublist_cons_self _ _).append_left _
          · exact (faithful.rooms room (sameRooms ▸ member)).later _
          · rw [received] at member
            split at member
            · rename_i inRoom
              rcases List.mem_append.mp member with old | new
              · exact (faithful.asked sent old).later _
              · rw [List.mem_singleton.mp new]
                exact (faithful.rooms _ inRoom).later _
            · exact (faithful.asked sent member).later _

/-- **Once, in order, and only what was asked for.** In every run, whatever instances,
connections and clients do, what a client has been sent is a part of what was published,
each publication at most once and in the order of publication, and all of it is of rooms
the client has asked for and was let into. -/
theorem received_once_inOrder (steps : List (RealtimeStep ι C)) (own : ι) (client : C) :
    ((realtimeRun (fun _ => {}) steps own).received client).Sublist (emissions steps) ∧
      ∀ emission ∈ (realtimeRun (fun _ => {}) steps own).received client,
        Joins steps own client emission.room := by
  have faithful : (realtimeRun (fun _ => {}) steps own).Faithful steps own client := by
    induction steps using List.reverseRecOn with
    | nil => exact ⟨.refl _, fun _ member => (nomatch member), fun _ member => (nomatch member)⟩
    | append_singleton steps step ih =>
        have next : realtimeRun (fun _ => {}) (steps ++ [step]) =
            realtimeStep (realtimeRun (fun _ => {}) steps) step := by
          simp [realtimeRun]
        rw [next]
        cases step with
        | published publication =>
            obtain ⟨added, flying, sublist, -⟩ :=
              (realtimeRun (fun _ => {}) steps own).flying_push publication
            refine ⟨?_, fun room member => (ih.rooms room member).later _,
              fun emission member => (ih.asked emission member).later _⟩
            have pushed : (realtimeStep (realtimeRun (fun _ => {}) steps) (.published publication)
                own).flying = (realtimeRun (fun _ => {}) steps own).flying ++ added := flying
            rw [emissions_append, pushed, ← List.append_assoc]
            exact ih.ordered.append sublist
        | happened other event =>
            by_cases same : own = other
            · subst same
              simpa [realtimeStep] using ih.after event
            · have kept : realtimeStep (realtimeRun (fun _ => {}) steps) (.happened other event) own =
                  realtimeRun (fun _ => {}) steps own := by
                simp [realtimeStep, same]
              rw [kept]
              exact ih.same (.refl _) rfl fun _ => .inl
  exact ⟨(List.sublist_append_left _ _).trans faithful.ordered, faithful.asked⟩

/-! ## While the connection and the room last -/

/-- An event that neither interrupts the connection nor takes a client out of a room. -/
def GatewayEvent.Keeps (client : C) (room : JsString) : GatewayEvent C → Prop
  | .dropped _ | .destroyed => False
  | .unsubscribe other (some marketRef) => other = client → marketRoom marketRef ≠ room
  | .disconnected other => other ≠ client
  | _ => True

/-- A step that does neither at an instance. -/
def RealtimeStep.Keeps (own : ι) (client : C) (room : JsString) : RealtimeStep ι C → Prop
  | published _ => True
  | happened other event => other = own → event.Keeps client room

/-- The instance is connected, and the client is in the room. -/
structure RealtimeGateway.Streams (gateway : RealtimeGateway C) (client : C) (room : JsString) :
    Prop where
  subscribed : ∀ pattern, gateway.subscribed pattern = true
  bridged : ∀ pattern, gateway.bridged pattern = true
  inRoom : room ∈ gateway.rooms client

/-- What a client was sent on a room and what is in flight to it. -/
def RealtimeGateway.stream (gateway : RealtimeGateway C) (client : C) (room : JsString) :
    List Emission :=
  (gateway.received client ++ gateway.flying).filter fun emission => emission.room = room

/-- An event that keeps the connection and the room keeps the stream. -/
private theorem RealtimeGateway.Streams.after {gateway : RealtimeGateway C} {client : C}
    {room : JsString} {event : GatewayEvent C} (streams : gateway.Streams client room)
    (keeps : event.Keeps client room) :
    (gateway.after event).Streams client room ∧
      (gateway.after event).stream client room = gateway.stream client room := by
  obtain ⟨subscribed, bridged, inRoom⟩ := streams
  have set : ∀ (handled : GatewayPattern → Bool) (pattern : GatewayPattern),
      (∀ other, handled other = true) → Function.update handled pattern true = handled := by
    intro handled pattern all
    rw [← all pattern, Function.update_eq_self]
  have joined : ∀ other asked, room ∈ (gateway.join other asked).rooms client :=
    fun other asked => mem_join.mpr (.inl inRoom)
  cases event with
  | psubscribed pattern =>
      have same : gateway.after (.psubscribed pattern) = gateway := by
        simp only [RealtimeGateway.after, set _ _ subscribed]
      rw [same]
      exact ⟨⟨subscribed, bridged, inRoom⟩, rfl⟩
  | bridged pattern =>
      have same : gateway.after (.bridged pattern) = gateway := by
        simp only [RealtimeGateway.after, set _ _ bridged]
      rw [same]
      exact ⟨⟨subscribed, bridged, inRoom⟩, rfl⟩
  | dropped kept => exact keeps.elim
  | destroyed => exact keeps.elim
  | subscribe other marketRef =>
      rcases gateway.after_subscribe other marketRef with same | ⟨named, -, -, entered⟩
      · rw [same]
        exact ⟨⟨subscribed, bridged, inRoom⟩, rfl⟩
      · rw [entered]
        exact ⟨⟨subscribed, bridged, joined _ _⟩, rfl⟩
  | subscribeGlobal other => exact ⟨⟨subscribed, bridged, joined _ _⟩, rfl⟩
  | disconnected other =>
      refine ⟨⟨subscribed, bridged, ?_⟩, rfl⟩
      have apart : client ≠ other := Ne.symm keeps
      simpa [RealtimeGateway.after, RealtimeGateway.disconnect, apart] using inRoom
  | unsubscribe other marketRef =>
      rcases gateway.after_unsubscribe other marketRef with same | ⟨named, rfl, left⟩
      · rw [same]
        exact ⟨⟨subscribed, bridged, inRoom⟩, rfl⟩
      · rw [left]
        refine ⟨⟨subscribed, bridged, mem_leave.mpr ⟨inRoom, fun own => ?_⟩⟩, rfl⟩
        exact Ne.symm (keeps own.symm)
  | arrived =>
      have arrival := gateway.delivered client
      change (gateway.deliver).Streams client room ∧ _
      have kept := gateway.deliver_keeps
      refine ⟨⟨kept.1 ▸ subscribed, kept.2.1 ▸ bridged, kept.2.2 ▸ inRoom⟩, ?_⟩
      change (gateway.deliver).stream client room = _
      generalize gateway.deliver = later at arrival
      unfold stream
      cases arrival with
      | idle => rfl
      | unseen _ received exact => rw [received, exact bridged]
      | @emitted _ emission flying received =>
          rw [received, flying]
          by_cases mine : emission.room = room
          · rw [if_pos (mine ▸ inRoom), List.append_assoc]
            rfl
          · -- a message of another room is not of the stream
            split
            · simp [List.filter_append, mine]
            · simp [List.filter_append, mine]

/-- **Nothing is lost and nothing added.** While an instance keeps its connection and a
client its room, the stream of the room grows by exactly what is published to it. -/
theorem stream_of_run {gateways : ι → RealtimeGateway C} {steps : List (RealtimeStep ι C)} {own : ι}
    {client : C} {room : JsString} (streams : (gateways own).Streams client room)
    (keeps : ∀ step ∈ steps, step.Keeps own client room) :
    (realtimeRun gateways steps own).stream client room =
      (gateways own).stream client room ++
        (emissions steps).filter fun emission => emission.room = room := by
  induction steps generalizing gateways with
  | nil => exact (List.append_nil _).symm
  | cons step rest ih =>
      have keepsRest := fun other member => keeps other (List.mem_cons_of_mem step member)
      change (realtimeRun (realtimeStep gateways step) rest own).stream client room = _
      cases step with
      | published publication =>
          obtain ⟨added, flying, -, exact⟩ := (gateways own).flying_push publication
          rw [exact streams.subscribed] at flying
          have kept : ((gateways own).push publication).Streams client room :=
            ⟨streams.subscribed, streams.bridged, streams.inRoom⟩
          rw [ih kept keepsRest]
          have pushed : ((gateways own).push publication).stream client room =
              (gateways own).stream client room ++
                publication.emission.toList.filter fun emission => emission.room = room := by
            simp only [RealtimeGateway.stream, flying, ← List.filter_append, List.append_assoc]
            rfl
          have first : emissions (.published publication :: rest : List (RealtimeStep ι C)) =
              publication.emission.toList ++ emissions rest := by
            unfold emissions
            simp only [List.filterMap_cons, RealtimeStep.publication?]
            cases publication.emission <;> rfl
          change RealtimeGateway.stream ((gateways own).push publication) client room ++ _ = _
          rw [pushed, first, List.filter_append, List.append_assoc]
      | happened other event =>
          have first : emissions (.happened other event :: rest : List (RealtimeStep ι C)) =
              emissions rest := rfl
          rw [first]
          by_cases same : own = other
          · subst same
            obtain ⟨kept, stream⟩ := streams.after (keeps _ List.mem_cons_self rfl)
            have here : realtimeStep gateways (.happened own event) own = (gateways own).after event := by
              simp [realtimeStep]
            rw [ih (by rw [here]; exact kept) keepsRest, here, stream]
          · have there : realtimeStep gateways (.happened other event) own = gateways own := by
              simp [realtimeStep, same]
            rw [ih (by rw [there]; exact streams) keepsRest, there]

/-! ## The messages of a market -/

/-- The event a message is published under. -/
def RealtimeData.event : RealtimeData → RealtimeEvent
  | marketCreated _ _ _ => .marketCreated
  | trade _ _ _ _ _ _ _ _ _ => .trade
  | marketStatus _ _ => .marketStatus
  | resolution _ _ => .resolution
  | price _ => .price

/-- The publication of a message of the event processor, under the reference of the
market's row and with the message's text. -/
def RealtimeMessage.publication (idOf : MarketKey → JsString)
    (stringify : RealtimeMessage → JsString) (message : RealtimeMessage) : Publication where
  channel :=
    match message.marketRef with
    | some ref => marketChannel (idOf ref) message.data.event
    | none => globalChannel message.data.event
  message := stringify message

/-- What a message is relayed as. -/
theorem RealtimeMessage.emission {idOf : MarketKey → JsString} {message : RealtimeMessage}
    (uuids : ∀ ref, message.marketRef = some ref → isUuid (idOf ref) = true)
    (stringify : RealtimeMessage → JsString) :
    (message.publication idOf stringify).emission =
      some ⟨(message.marketRef.map fun ref => marketRoom (idOf ref)).getD globalRoom,
        message.data.event.name, (message.publication idOf stringify).payload⟩ := by
  unfold Publication.emission publication
  cases about : message.marketRef with
  | none =>
      dsimp only
      rw [parseChannel_globalChannel]
      rfl
  | some ref =>
      dsimp only
      rw [parseChannel_marketChannel (plain_of_isUuid (uuids ref about))]
      rfl

/-- **A market's stream is its messages.** While an instance keeps its connection and a
client the room of a market, what the client is sent on it and what is still in flight
are exactly the messages about that market, each once, in the order of publication,
under the name of its event. -/
theorem market_stream_exact {gateways : ι → RealtimeGateway C} {steps : List (RealtimeStep ι C)}
    {own : ι} {client : C} {idOf : MarketKey → JsString} {stringify : RealtimeMessage → JsString}
    {messages : List RealtimeMessage} {key : MarketKey}
    (uuids : ∀ message ∈ messages, ∀ ref, message.marketRef = some ref → isUuid (idOf ref) = true)
    (distinct : ∀ message ∈ messages, ∀ ref, message.marketRef = some ref →
      idOf ref = idOf key → ref = key)
    (streams : (gateways own).Streams client (marketRoom (idOf key)))
    (keeps : ∀ step ∈ steps, step.Keeps own client (marketRoom (idOf key)))
    (published : steps.filterMap RealtimeStep.publication? =
      messages.map (RealtimeMessage.publication idOf stringify)) :
    (realtimeRun gateways steps own).stream client (marketRoom (idOf key)) =
      (gateways own).stream client (marketRoom (idOf key)) ++
        (messages.filter fun message => message.marketRef = some key).map fun message =>
          ⟨marketRoom (idOf key), message.data.event.name,
            (message.publication idOf stringify).payload⟩ := by
  rw [stream_of_run streams keeps]
  congr 1
  have sent : emissions steps = messages.map fun message =>
      ⟨(message.marketRef.map fun ref => marketRoom (idOf ref)).getD globalRoom,
        message.data.event.name, (message.publication idOf stringify).payload⟩ := by
    unfold emissions
    rw [published, List.filterMap_map, ← List.filterMap_eq_map]
    exact List.filterMap_congr fun message member =>
      RealtimeMessage.emission (uuids message member) stringify
  rw [sent, List.filter_map]
  have about : ∀ message ∈ messages,
      ((message.marketRef.map fun ref => marketRoom (idOf ref)).getD globalRoom =
        marketRoom (idOf key) ↔ message.marketRef = some key) := by
    intro message member
    cases mine : message.marketRef with
    | none => simp [globalRoom_ne_marketRoom]
    | some ref =>
        simp only [Option.map_some, Option.getD_some, Option.some.injEq]
        exact ⟨fun same => distinct message member ref mine (marketRoom_injective same),
          fun same => by rw [same]⟩
  have chosen : messages.filter ((fun emission : Emission => decide (emission.room =
      marketRoom (idOf key))) ∘ fun message => ⟨(message.marketRef.map fun ref =>
        marketRoom (idOf ref)).getD globalRoom, message.data.event.name,
        (message.publication idOf stringify).payload⟩) =
      messages.filter fun message => message.marketRef = some key :=
    List.filter_congr fun message member => decide_eq_decide.mpr (about message member)
  rw [chosen]
  refine List.map_congr_left fun message member => ?_
  obtain ⟨listed, mine⟩ := List.mem_filter.mp member
  rw [(about message listed).mpr (of_decide_eq_true mine)]

end Events

namespace Sample

/-- The identifiers of market 1 and of the others. -/
def idOf (key : MarketKey) : JsString :=
  if key.marketId = 1 then ascii "0b1c2d3e-0000-4000-8000-00000000a001"
  else ascii "0b1c2d3e-0000-4000-8000-00000000b002"

def firstMarket : MarketKey := ⟨ascii "0xe0", 1⟩

/-- Prices of two markets, and the status of the first. -/
def news : List RealtimeMessage :=
  [⟨some firstMarket, .price [1, 2], ⟨0⟩⟩, ⟨some ⟨ascii "0xe0", 2⟩, .price [3], ⟨0⟩⟩,
    ⟨some firstMarket, .marketStatus .invalid none, ⟨0⟩⟩]

/-- The messages are published, two arrive, and the client asks for another market. -/
def newsSteps : List (RealtimeStep Nat Nat) :=
  news.map (fun message => .published (message.publication idOf fun _ => ascii "null")) ++
    [.happened 0 .arrived, .happened 0 (.subscribe 7 (some (idOf ⟨[], 2⟩))), .happened 0 .arrived]

/-- Client 7 of instance 0 is in the room of market 1. -/
def watching (_ : Nat) : RealtimeGateway Nat where
  subscribed _ := true
  bridged _ := true
  rooms _ := [marketRoom (idOf firstMarket)]

end Sample

open Sample in
/-- One price has been sent to the client, and the status is in flight. -/
theorem market_stream_news :
    (realtimeRun watching newsSteps 0).stream 7 (marketRoom (idOf firstMarket)) =
      (watching 0).stream 7 (marketRoom (idOf firstMarket)) ++
        (news.filter fun message => message.marketRef = some firstMarket).map fun message =>
          ⟨marketRoom (idOf firstMarket), message.data.event.name,
            (message.publication idOf fun _ => ascii "null").payload⟩ := by
  refine market_stream_exact ?_ ?_ ⟨fun _ => rfl, fun _ => rfl, List.mem_singleton.mpr rfl⟩ ?_ rfl
  · intro message _ ref _
    unfold idOf
    split <;> decide +kernel
  · intro message listed ref mine same
    have refs : ref = firstMarket ∨ ref = ⟨ascii "0xe0", 2⟩ := by
      simp only [news, List.mem_cons, List.not_mem_nil, or_false] at listed
      rcases listed with rfl | rfl | rfl
      · exact .inl (Option.some.inj mine).symm
      · exact .inr (Option.some.inj mine).symm
      · exact .inl (Option.some.inj mine).symm
    rcases refs with rfl | rfl
    · rfl
    · exact absurd same (by decide)
  · intro step member
    simp only [newsSteps, news, List.map_cons, List.map_nil, List.cons_append, List.nil_append,
      List.mem_cons, List.not_mem_nil, or_false] at member
    rcases member with rfl | rfl | rfl | rfl | rfl | rfl
    all_goals first | trivial | exact fun _ => trivial

end Numera
