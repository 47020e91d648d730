import Numera.Foundation.Text

/-! # Realtime channels

The names that the indexer, which publishes to Redis, and the gateway, which relays
to its clients, have in common: channels, rooms and patterns. A channel is read back
as the room and the event it was made of (`parseChannel_marketChannel`), a channel
that is read at all is matched by one of the two patterns of the gateway, and no
channel is matched by both (`patterns_of_parsed`, `one_pattern`).
-/

namespace Numera

open JsString (ascii)

inductive RealtimeEvent where
  | trade
  | price
  | marketStatus
  | marketCreated
  | resolution
  deriving DecidableEq

def RealtimeEvent.name : RealtimeEvent → JsString
  | trade => ascii "trade"
  | price => ascii "price"
  | marketStatus => ascii "market_status"
  | marketCreated => ascii "market_created"
  | resolution => ascii "resolution"

/-- Redis channel for a per-market event stream. -/
def marketChannel (marketRef : JsString) (event : RealtimeEvent) : JsString :=
  ascii "rt:market:" ++ marketRef ++ ascii ":" ++ event.name

/-- Redis channel for global events. -/
def globalChannel (event : RealtimeEvent) : JsString := ascii "rt:global:" ++ event.name

/-- The room a client joins to receive a market's stream. -/
def marketRoom (marketRef : JsString) : JsString := ascii "market:" ++ marketRef

def globalRoom : JsString := ascii "global"

def marketChannelPattern : JsString := ascii "rt:market:*"

def globalChannelPattern : JsString := ascii "rt:global:*"

/-- The room and the event name of a channel, if it is one of these. -/
def parseChannel (channel : JsString) : Option (JsString × JsString) :=
  let parts := channel.splitOn 58
  match parts with
  | rt :: kind :: rest =>
      if rt ≠ ascii "rt" then none
      else if kind = ascii "market" ∧ parts.length ≥ 4 then
        some (marketRoom (rest.headD []), [58].intercalate rest.tail)
      else if kind = ascii "global" ∧ parts.length ≥ 3 then
        some (globalRoom, [58].intercalate rest)
      else none
  | _ => none

/-- `isUuid`: hexadecimal digits of either case, in groups of 8, 4, 4, 4 and 12. -/
def isUuid (text : JsString) : Bool :=
  match text.splitOn 45 with
  | [a, b, c, d, e] =>
      [a, b, c, d, e].all (fun group => group.all JsString.isHexDigit) && a.length == 8 &&
        b.length == 4 && c.length == 4 && d.length == 4 && e.length == 12
  | _ => false

/-! ## Reading channels back -/

theorem marketRoom_injective {first second : JsString} (same : marketRoom first = marketRoom second) :
    first = second := List.append_cancel_left same

theorem globalRoom_ne_marketRoom (marketRef : JsString) : globalRoom ≠ marketRoom marketRef := by
  intro same
  have first : globalRoom.head? = some 109 := by rw [same]; rfl
  exact absurd first (by decide)

theorem RealtimeEvent.plain (event : RealtimeEvent) : 58 ∉ event.name := by
  cases event <;> decide

theorem splitOn_marketChannel {marketRef : JsString} (plain : 58 ∉ marketRef)
    (event : RealtimeEvent) :
    (marketChannel marketRef event).splitOn 58 =
      [ascii "rt", ascii "market", marketRef, event.name] := by
  have joined : marketChannel marketRef event =
      [58].intercalate [ascii "rt", ascii "market", marketRef, event.name] := by
    simp [marketChannel, List.intercalate, ascii]
  rw [joined]
  refine List.splitOn_intercalate 58 ?_ (by simp)
  simp only [List.mem_cons, List.not_mem_nil, or_false, forall_eq_or_imp, forall_eq]
  exact ⟨by decide, by decide, plain, event.plain⟩

/-- **A market's channel is read back** as the market's room and the event. -/
theorem parseChannel_marketChannel {marketRef : JsString} (plain : 58 ∉ marketRef)
    (event : RealtimeEvent) :
    parseChannel (marketChannel marketRef event) = some (marketRoom marketRef, event.name) := by
  unfold parseChannel
  rw [splitOn_marketChannel plain]
  simp [List.intercalate]

theorem parseChannel_globalChannel (event : RealtimeEvent) :
    parseChannel (globalChannel event) = some (globalRoom, event.name) := by
  cases event <;> decide

/-- A reference of a market has no colon in it. -/
theorem plain_of_isUuid {text : JsString} (uuid : isUuid text = true) : 58 ∉ text := by
  unfold isUuid at uuid
  split at uuid
  · rename_i a b c d e parts
    simp only [Bool.and_eq_true] at uuid
    have digits := List.all_eq_true.mp uuid.1.1.1.1.1
    have group : ∀ part ∈ [a, b, c, d, e], 58 ∉ part := fun part listed member =>
      absurd (List.all_eq_true.mp (digits part listed) 58 member) (by decide)
    have joined : [45].intercalate (text.splitOn 45) = text := List.intercalate_splitOn 45
    rw [← joined, parts]
    simp only [List.mem_cons, List.not_mem_nil, or_false, forall_eq_or_imp, forall_eq] at group
    simp [List.intercalate, group]
  · cases uuid

/-! ## Patterns -/

theorem matches_marketChannelPattern {channel : JsString} :
    JsString.globMatches marketChannelPattern channel = true ↔ ascii "rt:market:" <+: channel :=
  JsString.globMatches_star (ascii "rt:market:") (by decide) channel

theorem matches_globalChannelPattern {channel : JsString} :
    JsString.globMatches globalChannelPattern channel = true ↔ ascii "rt:global:" <+: channel :=
  JsString.globMatches_star (ascii "rt:global:") (by decide) channel

/-- **No channel is matched by both patterns**, so none is pushed to a gateway twice. -/
theorem one_pattern {channel : JsString}
    (market : JsString.globMatches marketChannelPattern channel = true) :
    JsString.globMatches globalChannelPattern channel = false := by
  by_contra both
  have first := matches_marketChannelPattern.mp market
  have second := matches_globalChannelPattern.mp (by simpa using both)
  have same := (List.prefix_of_prefix_length_le first second (by decide)).eq_of_length (by decide)
  exact absurd same (by decide)

/-- **A channel that is read is matched by a pattern.** -/
theorem patterns_of_parsed {channel : JsString} {found : JsString × JsString}
    (parsed : parseChannel channel = some found) :
    JsString.globMatches marketChannelPattern channel = true ∨
      JsString.globMatches globalChannelPattern channel = true := by
  have joined : [58].intercalate (channel.splitOn 58) = channel := List.intercalate_splitOn 58
  unfold parseChannel at parsed
  dsimp only at parsed
  split at parsed
  · rename_i rt kind rest parts
    rw [parts] at joined parsed
    split at parsed
    · cases parsed
    · rename_i isRt
      have begins : rt = ascii "rt" := not_not.mp isRt
      split at parsed
      · rename_i market
        obtain ⟨rfl, long⟩ := market
        left
        cases rest with
        | nil => simp at long
        | cons third others =>
            rw [matches_marketChannelPattern, ← joined, begins]
            exact ⟨[58].intercalate (third :: others), by simp [List.intercalate, ascii]⟩
      · split at parsed
        · rename_i global
          obtain ⟨rfl, long⟩ := global
          right
          cases rest with
          | nil => simp at long
          | cons third others =>
              rw [matches_globalChannelPattern, ← joined, begins]
              exact ⟨[58].intercalate (third :: others), by simp [List.intercalate, ascii]⟩
        · cases parsed
  · cases parsed

end Numera
