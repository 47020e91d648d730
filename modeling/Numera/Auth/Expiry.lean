import Mathlib.Data.List.DropRight
import Numera.Auth.Rotation
import Numera.Chain.Log
import Numera.Foundation.Decimal
import Numera.Foundation.Doubles

/-! # When a refresh session expires

`issue` signs the refresh token with the configured TTL, which the JWT library reads in the
grammar of `ms`, and writes a session row whose expiry its own `ttlToMs` reads from the same
text. The two readings agree on digits under one of the units `s`, `m`, `h` and `d`. Digits
alone are milliseconds to the one and seconds to the other, and whatever else `ms` reads is no
time at all to `ttlToMs`.
-/

namespace Numera

open Async (Reaches)

/-! ## The JWT library

The grammar `^(-?(?:\d+)?\.?\d+) *(unit)?$`, whatever the case of the unit. Numbers are doubles: what
`parseFloat` reads, and every product, quotient and sum, is rounded. A text that is read has at
most a hundred characters, so that nothing overflows or underflows. -/

namespace Ms

/-- The milliseconds in a unit. -/
def unitOf (name : JsString) : Option ℚ :=
  if name ∈ ["years", "year", "yrs", "yr", "y"].map JsString.ascii then some 31557600000
  else if name ∈ ["weeks", "week", "w"].map JsString.ascii then some 604800000
  else if name ∈ ["days", "day", "d"].map JsString.ascii then some 86400000
  else if name ∈ ["hours", "hour", "hrs", "hr", "h"].map JsString.ascii then some 3600000
  else if name ∈ ["minutes", "minute", "mins", "min", "m"].map JsString.ascii then some 60000
  else if name ∈ ["seconds", "second", "secs", "sec", "s"].map JsString.ascii then some 1000
  else if name ∈ ["milliseconds", "millisecond", "msecs", "msec", "ms"].map JsString.ascii then
    some 1
  else if name = [] then some 1
  else none

/-- `parseFloat` of `(?:\d+)?\.?\d+`, and what follows it. -/
def number (text : JsString) : Option (ℚ × JsString) :=
  let whole := text.takeWhile JsString.isDigit
  match text.dropWhile JsString.isDigit with
  | 46 :: more =>
      let fraction := more.takeWhile JsString.isDigit
      if fraction = [] then none
      else some (Double.round (JsString.decimal whole +
          JsString.decimal fraction / 10 ^ fraction.length),
        more.dropWhile JsString.isDigit)
  | rest => if whole = [] then none else some (Double.round (JsString.decimal whole), rest)

/-- What follows a number: spaces and a unit. -/
def scale (rest : JsString) : Option ℚ :=
  unitOf (JsString.toLowerCase (rest.dropWhile (· = 32)))

/-- `ms(text)`: the milliseconds a text stands for. -/
def parse (text : JsString) : Option ℚ :=
  if text = [] ∨ 100 < text.length then none
  else
    let negative := text.head? = some 45
    (number (if negative then text.tail else text)).bind fun (value, rest) =>
      (scale rest).map fun unit => Double.round ((if negative then -value else value) * unit)

end Ms

/-- `Math.floor(timestamp + milliseconds / 1000)`. -/
def expiryOf (timestamp : Nat) (milliseconds : ℚ) : Int :=
  ⌊Double.round (timestamp + Double.round (milliseconds / 1000))⌋

/-- The `exp` of a token that is signed at an instant, in seconds, if the library accepts its
`expiresIn`. -/
def jwtExp (now : Nat) (expiresIn : JsString) : Option Int :=
  (Ms.parse expiresIn).map (expiryOf (now / 1000))

/-! ## Issuing at an instant -/

/-- A session row that is created has an expiry that its column can hold. Up to there the doubles
that `refreshExpiry` computes with are exact. -/
def AuthCall.dated : AuthCall → Prop
  | createSession _ session => session.expiresAt ≤ lastDate
  | _ => True

/-- Calls that are performed without time passing. A row with an expiry beyond is refused. -/
def Instant (lib : AuthLibraries) :
    Async.Environment AuthCall.Answer AuthError AuthWorld AuthCall :=
  fun call world answer record later =>
    record = [call] ∧
      ((call.dated ∧ call.Performs lib world answer later) ∨
        ∃ thrown, answer = .error thrown ∧ later = world)

/-- The session rows that `issue` creates and the refresh tokens it signs at the same instant
expire within two seconds of each other, and a row never before its token. -/
def ExpireTogether (lib : AuthLibraries) (cfg : AuthConfig) : Prop :=
  ∀ (userId address : JsString) (requestMeta : RequestMeta) (world later : AuthWorld)
    (records : List AuthCall) (tokens : TokenPair),
    Reaches (Instant lib) (AuthTokensService.issue lib cfg userId address requestMeta) world
      records (.done (.ok tokens)) later →
    ∀ id session, world.sessions.find? id = none → later.sessions.find? id = some session →
      ∀ exp, jwtExp world.now cfg.refreshTtl = some exp →
        |(session.expiresAt : Int) - exp * 1000| ≤ 2000 ∧
          ∀ instant : Nat, session.expiresAt < instant → exp ≤ (instant / 1000 : Nat)

/-! ## Reading the text -/

open JsString (isDigit isSpace decimal)

private theorem dropWhile_eq_self {text : JsString} (holds : UInt16 → Bool)
    (head : ∀ unit ∈ text.head?, holds unit = false) : text.dropWhile holds = text := by
  cases text with
  | nil => rfl
  | cons unit rest => rw [List.dropWhile_cons_of_neg (by simp [head unit rfl])]

/-- White space at the end is behind what is filled. -/
private theorem rdropWhile_append {solid : JsString} (rest : JsString)
    (filled : ∀ unit ∈ solid, isSpace unit = false) :
    (solid ++ rest).rdropWhile isSpace = solid ++ rest.rdropWhile isSpace := by
  have ends : solid.reverse.dropWhile isSpace = solid.reverse := by
    refine dropWhile_eq_self isSpace fun unit member => ?_
    exact filled unit (List.mem_reverse.mp (List.mem_of_head? member))
  rw [List.rdropWhile, List.reverse_append, List.dropWhile_append, ends]
  by_cases blank : (rest.reverse.dropWhile isSpace).isEmpty
  · rw [if_pos blank, List.rdropWhile, List.isEmpty_iff.mp blank]
    simp
  · rw [if_neg blank, List.reverse_append, List.reverse_reverse, List.rdropWhile]

/-- Text that begins without white space is only trimmed behind what it begins with. -/
private theorem trim_append {solid : JsString} (rest : JsString) (some_ : solid ≠ [])
    (filled : ∀ unit ∈ solid, isSpace unit = false) :
    JsString.trim (solid ++ rest) = solid ++ rest.rdropWhile isSpace := by
  have begins : (solid ++ rest).dropWhile isSpace = solid ++ rest := by
    refine dropWhile_eq_self isSpace fun unit member => ?_
    rw [List.head?_append_of_ne_nil _ some_] at member
    exact filled unit (List.mem_of_head? member)
  change ((solid ++ rest).dropWhile isSpace).rdropWhile isSpace = _
  rw [begins, rdropWhile_append rest filled]

/-- Behind the spaces of a text without other white space. -/
private theorem dropWhile_rdropWhile {rest tail : JsString}
    (spaces : rest.dropWhile (· = 32) = tail) (filled : ∀ unit ∈ tail, isSpace unit = false) :
    (rest.rdropWhile isSpace).dropWhile isSpace = tail := by
  obtain ⟨blanks, blank, rfl⟩ : ∃ blanks : JsString, (∀ unit ∈ blanks, isSpace unit = true) ∧
      rest = blanks ++ tail := by
    refine ⟨rest.takeWhile (· = 32), fun unit member => ?_, ?_⟩
    · have space := List.mem_takeWhile_imp (p := fun unit => decide (unit = 32)) member
      rw [of_decide_eq_true space]
      rfl
    · rw [← spaces, List.takeWhile_append_dropWhile]
  have behind : tail.dropWhile isSpace = tail :=
    dropWhile_eq_self isSpace fun unit member => filled unit (List.mem_of_head? member)
  cases tail with
  | nil =>
      have nothing : (blanks ++ []).rdropWhile isSpace = [] := by
        rw [List.append_nil]
        exact List.rdropWhile_eq_nil_iff.mpr blank
      rw [nothing]
      rfl
  | cons unit more =>
      have kept : (blanks ++ unit :: more).rdropWhile isSpace = blanks ++ unit :: more := by
        refine List.rdropWhile_eq_self_iff.mpr fun nonempty => ?_
        rw [List.getLast_append_of_ne_nil _ (List.cons_ne_nil unit more),
          filled _ (List.getLast_mem _)]
        exact Bool.false_ne_true
      rw [kept, List.dropWhile_append_of_pos blank, behind]

/-- What follows the leading digits of a text and spaces. -/
def unitText (text : JsString) : JsString := (text.dropWhile isDigit).dropWhile (· = 32)

namespace AuthTokensService

/-- The milliseconds `ttlToMs` counts for each unit. -/
def factor : JsString → Nat
  | [] => 1000
  | [unit] =>
      if unit = 100 then 86400000
      else if unit = 104 then 3600000
      else if unit = 109 then 60000
      else if unit = 115 then 1000
      else 0
  | _ => 0

/-- `ttlToMs` of a text that begins with digits. -/
private theorem ttlToMs_of_digits {text : JsString} (digits : text.takeWhile isDigit ≠ []) :
    ttlToMs text = decimal (text.takeWhile isDigit) *
      factor (((text.dropWhile isDigit).rdropWhile isSpace).dropWhile isSpace) := by
  have solid : ∀ unit ∈ text.takeWhile isDigit, isSpace unit = false := fun unit member =>
    JsString.isSpace_of_isDigit (List.mem_takeWhile_imp member)
  have trimmed := trim_append (text.dropWhile isDigit) digits solid
  rw [List.takeWhile_append_dropWhile] at trimmed
  -- Nothing that follows the digits begins with one.
  have behind : ∀ unit ∈ ((text.dropWhile isDigit).rdropWhile isSpace).head?,
      isDigit unit = false := by
    intro unit member
    obtain ⟨trailing, whole⟩ := List.rdropWhile_prefix isSpace (text.dropWhile isDigit)
    have first : (text.dropWhile isDigit).head? = some unit := by
      rw [← whole, List.head?_append, member]
      rfl
    have other := List.head?_dropWhile_not isDigit text
    rw [first] at other
    exact other
  have stops := dropWhile_eq_self isDigit behind
  have begins : JsString.trim text = text.takeWhile isDigit ++
      (text.dropWhile isDigit).rdropWhile isSpace := trimmed
  have leading : (JsString.trim text).takeWhile isDigit = text.takeWhile isDigit := by
    have nothing : ((text.dropWhile isDigit).rdropWhile isSpace).takeWhile isDigit = [] := by
      have rejoined := List.takeWhile_append_dropWhile (p := isDigit)
        (l := (text.dropWhile isDigit).rdropWhile isSpace)
      rw [stops] at rejoined
      exact List.append_left_eq_self.mp rejoined
    rw [begins, List.takeWhile_append_of_pos fun unit member => List.mem_takeWhile_imp member,
      nothing, List.append_nil]
  have trailing : (JsString.trim text).dropWhile isDigit =
      (text.dropWhile isDigit).rdropWhile isSpace := by
    rw [begins, List.dropWhile_append_of_pos fun unit member => List.mem_takeWhile_imp member,
      stops]
  unfold ttlToMs
  simp only [leading, trailing, if_neg digits]
  generalize ((text.dropWhile isDigit).rdropWhile isSpace).dropWhile isSpace = tail
  rcases tail with _ | ⟨unit, _ | ⟨second, more⟩⟩
  · rfl
  · simp only [factor]
    split_ifs <;> rfl
  · rfl

/-- Digits, spaces, and what `ms` takes for a unit or for none. -/
theorem ttlToMs_of_unit {text : JsString} (digits : text.takeWhile isDigit ≠ [])
    (filled : ∀ unit ∈ unitText text, isSpace unit = false) :
    ttlToMs text = decimal (text.takeWhile isDigit) * factor (unitText text) := by
  rw [ttlToMs_of_digits digits, dropWhile_rdropWhile rfl filled]
  rfl

/-- Digits and a fraction: no time at all. -/
theorem ttlToMs_of_fraction {text more : JsString} (digits : text.takeWhile isDigit ≠ [])
    (point : text.dropWhile isDigit = 46 :: more) : ttlToMs text = 0 := by
  have dot : ∀ unit ∈ [(46 : UInt16)], isSpace unit = false := by
    intro unit member
    rw [List.mem_singleton.mp member]
    decide
  have kept : ((46 :: more).rdropWhile isSpace).dropWhile isSpace =
      46 :: more.rdropWhile isSpace := by
    have solid := rdropWhile_append more dot
    rw [List.singleton_append] at solid
    rw [solid]
    rfl
  rw [ttlToMs_of_digits digits, point, kept]
  cases more.rdropWhile isSpace <;> rfl

/-- A text that begins with neither a digit nor white space: no time at all. -/
theorem ttlToMs_of_head {text : JsString} (solid : ∀ unit ∈ text.head?, isSpace unit = false)
    (noDigits : text.takeWhile isDigit = []) : ttlToMs text = 0 := by
  cases text with
  | nil => rfl
  | cons unit more =>
      have filled : ∀ other ∈ [unit], isSpace other = false := by
        intro other member
        rw [List.mem_singleton.mp member]
        exact solid unit rfl
      have trimmed := trim_append more (List.cons_ne_nil unit []) filled
      have other : isDigit unit = false := by
        by_contra digit
        rw [List.takeWhile_cons_of_pos (Bool.of_not_eq_false digit)] at noDigits
        exact List.cons_ne_nil _ _ noDigits
      rw [List.singleton_append] at trimmed
      unfold ttlToMs
      simp only [trimmed, List.singleton_append, List.takeWhile_cons, other, Bool.false_eq_true,
        ↓reduceIte]

end AuthTokensService

/-! ## What the library accepts -/

namespace Ms

private theorem isSpace_lowerUnit {unit : UInt16} (space : isSpace unit = true) :
    JsString.lowerUnit unit = unit := by
  unfold JsString.lowerUnit
  split
  · rename_i letter
    exfalso
    revert space
    simp only [isSpace, Bool.or_eq_true, Bool.and_eq_true, decide_eq_true_eq, beq_iff_eq]
    intro space
    obtain ⟨low, high⟩ := letter
    rw [UInt16.le_iff_toNat_le] at low high
    simp only [UInt16.le_iff_toNat_le, ← UInt16.toNat_inj] at space
    simp at low high space
    omega
  · rfl

/-- The names of units have no white space. -/
theorem filled_of_unitOf {tail : JsString} {unit : ℚ}
    (known : unitOf (JsString.toLowerCase tail) = some unit) :
    ∀ other ∈ tail, isSpace other = false := by
  have plain {names : List JsString} {name : JsString}
      (solid : (names.all fun name => name.all fun other => !isSpace other) = true)
      (present : name ∈ names) (other : UInt16) (member : other ∈ name) :
      isSpace other = false := by
    have own := List.all_eq_true.mp (List.all_eq_true.mp solid name present) other member
    exact Bool.not_eq_true' _ ▸ own
  have lower : ∀ other ∈ JsString.toLowerCase tail, isSpace other = false := by
    generalize JsString.toLowerCase tail = name at known
    unfold unitOf at known
    split_ifs at known with year week day hour minute second milli none
    · exact plain (by decide) year
    · exact plain (by decide) week
    · exact plain (by decide) day
    · exact plain (by decide) hour
    · exact plain (by decide) minute
    · exact plain (by decide) second
    · exact plain (by decide) milli
    · rw [none]
      exact fun other member => absurd member List.not_mem_nil
  intro other member
  by_contra space
  have held := lower _ (List.mem_map_of_mem (f := JsString.lowerUnit) member)
  rw [isSpace_lowerUnit (Bool.of_not_eq_false space)] at held
  exact space held

/-- The units both readings have. -/
theorem unitOf_shared {tail : JsString} (shared : tail ∈ ["s", "m", "h", "d"].map JsString.ascii) :
    unitOf (JsString.toLowerCase tail) = some (AuthTokensService.factor tail : ℚ) ∧
      1000 ∣ AuthTokensService.factor tail := by
  revert tail
  decide +kernel

/-- Each of the units both readings have is some time. -/
theorem factor_pos_of_shared {tail : JsString}
    (shared : tail ∈ ["s", "m", "h", "d"].map JsString.ascii) :
    0 < AuthTokensService.factor tail := by
  revert tail
  decide +kernel

/-- `ttlToMs` counts the units that both readings have, and no unit as seconds. -/
theorem factor_eq_zero {tail : JsString} (some_ : tail ≠ [])
    (other : tail ∉ ["s", "m", "h", "d"].map JsString.ascii) :
    AuthTokensService.factor tail = 0 := by
  rcases tail with _ | ⟨unit, _ | ⟨second, more⟩⟩
  · exact absurd rfl some_
  · simp only [AuthTokensService.factor]
    split_ifs with day hour minute second
    · exact absurd (day ▸ by decide) other
    · exact absurd (hour ▸ by decide) other
    · exact absurd (minute ▸ by decide) other
    · exact absurd (second ▸ by decide) other
    · rfl
  · rfl

variable {text : JsString} {duration : ℚ}

private theorem parse_eq (accepted : parse text = some duration) :
    ∃ value rest unit, number (if text.head? = some 45 then text.tail else text) =
        some (value, rest) ∧ scale rest = some unit ∧
        duration = Double.round ((if text.head? = some 45 then -value else value) * unit) := by
  unfold parse at accepted
  split at accepted
  · cases accepted
  · obtain ⟨⟨value, rest⟩, read, scaled⟩ := Option.bind_eq_some_iff.mp accepted
    obtain ⟨unit, known, same⟩ := Option.map_eq_some_iff.mp scaled
    exact ⟨value, rest, unit, read, known, same.symm⟩

/-- What is accepted begins without white space. -/
theorem solid_of_parse (accepted : parse text = some duration) :
    ∀ unit ∈ text.head?, isSpace unit = false := by
  obtain ⟨value, rest, unit, read, -, -⟩ := parse_eq accepted
  intro first member
  by_cases negative : text.head? = some 45
  · rw [negative] at member
    cases member
    decide
  · rw [if_neg negative] at read
    cases text with
    | nil => cases member
    | cons own more =>
        cases member
        by_cases digit : isDigit first
        · exact JsString.isSpace_of_isDigit digit
        · have skipped : (first :: more).dropWhile isDigit = first :: more :=
            List.dropWhile_cons_of_neg digit
          have nothing : (first :: more).takeWhile isDigit = [] :=
            List.takeWhile_cons_of_neg digit
          unfold number at read
          rw [skipped, nothing] at read
          split at read
          · rename_i point
            cases point
            decide
          · simp at read

/-- What is accepted and begins with digits goes on with a fraction or with a unit. -/
theorem unit_of_parse (accepted : parse text = some duration)
    (digits : text.takeWhile isDigit ≠ []) :
    (∃ more, text.dropWhile isDigit = 46 :: more) ∨
      ∃ unit, unitOf (JsString.toLowerCase (unitText text)) = some unit ∧
        duration = Double.round (Double.round (decimal (text.takeWhile isDigit)) * unit) := by
  obtain ⟨value, rest, unit, read, known, same⟩ := parse_eq accepted
  have positive : text.head? ≠ some 45 := by
    intro negative
    cases text with
    | nil => cases negative
    | cons own more =>
        cases negative
        exact digits rfl
  rw [if_neg positive] at read same
  unfold number at read
  dsimp only at read
  split at read
  · rename_i more point
    exact .inl ⟨more, point⟩
  · rw [if_neg digits] at read
    cases read
    exact .inr ⟨unit, known, same⟩

end Ms

/-! ## The run of `issue` -/

variable {lib : AuthLibraries} {cfg : AuthConfig} {world later : AuthWorld}
  {records : List AuthCall} {tokens : TokenPair} {userId address : JsString}
  {requestMeta : RequestMeta}

private theorem performed_of_returned {call : AuthCall} {value : call.Answer}
    (path : Reaches (Instant lib) call.request world records (.done (.ok value)) later) :
    call.dated ∧ call.Performs lib world (.ok value) later := by
  rcases (Reaches.perform_returned path).2 with performed | ⟨thrown, same, -⟩
  · exact performed
  · cases same

/-- **What `issue` stores.** A row it has created expires the configured time after the
instant, and its column can hold the expiry. -/
theorem expiresAt_of_issue
    (path : Reaches (Instant lib) (AuthTokensService.issue lib cfg userId address requestMeta)
      world records (.done (.ok tokens)) later) {id : JsString} {session : RefreshSession}
    (fresh : world.sessions.find? id = none) (stored : later.sessions.find? id = some session) :
    session.expiresAt = world.now + AuthTokensService.ttlToMs cfg.refreshTtl ∧
      session.expiresAt ≤ lastDate := by
  obtain ⟨jti, _, _, _, -, drawn, path⟩ := Reaches.bind_returned path
  obtain ⟨accessToken, _, _, _, -, signed, path⟩ := Reaches.bind_returned path
  obtain ⟨refreshToken, _, _, _, -, refreshed, path⟩ := Reaches.bind_returned path
  obtain ⟨expiresAt, _, _, _, -, expiry, path⟩ := Reaches.bind_returned path
  obtain ⟨_, _, _, _, -, created, returned⟩ := Reaches.bind_returned path
  obtain ⟨now, _, _, _, -, read, added⟩ := Reaches.bind_returned expiry
  obtain ⟨-, rfl⟩ := performed_of_returned drawn
  obtain ⟨-, rfl⟩ := performed_of_returned signed
  obtain ⟨-, rfl⟩ := performed_of_returned refreshed
  obtain ⟨-, clock, rfl⟩ := performed_of_returned read
  cases clock
  cases added
  cases returned
  obtain ⟨dated, written⟩ := performed_of_returned created
  change (Except.ok (), later) = AuthWorld.createSession _ _ _ at written
  unfold AuthWorld.createSession at written
  split at written
  · cases written
    simp only [Table.find?_insertNew] at stored
    split at stored
    · rename_i own
      rw [← own, fresh] at stored
      cases stored
      exact ⟨rfl, dated⟩
    · rw [fresh] at stored
      cases stored
  · cases written

/-- One user without sessions. -/
def oneUser (now : Nat) : AuthWorld where
  sessions := .empty
  users := Table.empty.insertNew [1] { address := [4] }
  cache _ := none
  now := now
  generated := []

/-- Issuing succeeds at every instant from which the configured time leads to a storable date. -/
theorem issue_oneUser (lib : AuthLibraries) (cfg : AuthConfig) {now : Nat}
    (date : now + AuthTokensService.ttlToMs cfg.refreshTtl ≤ lastDate) :
    ∃ records tokens later session,
      Reaches (Instant lib) (AuthTokensService.issue lib cfg [1] [4] {}) (oneUser now) records
        (.done (.ok tokens)) later ∧ later.sessions.find? [2] = some session := by
  let session : RefreshSession := {
    userId := [1]
    tokenHash := lib.sha256 [3]
    expiresAt := now + AuthTokensService.ttlToMs cfg.refreshTtl }
  let later : AuthWorld :=
    { oneUser now with sessions := (oneUser now).sessions.insertNew [2] session }
  have drawn : Instant lib .randomUUID (oneUser now) (.ok [2]) [.randomUUID] (oneUser now) :=
    ⟨rfl, .inl ⟨trivial, rfl⟩⟩
  have signed (payload : TokenPayload) (secret expiresIn : JsString) :
      Instant lib (.signAsync payload secret expiresIn) (oneUser now) (.ok [3])
        [.signAsync payload secret expiresIn] (oneUser now) :=
    ⟨rfl, .inl ⟨trivial, rfl⟩⟩
  have read : Instant lib .dateNow (oneUser now) (.ok now) [.dateNow] (oneUser now) :=
    ⟨rfl, .inl ⟨trivial, rfl, rfl⟩⟩
  have created : Instant lib (.createSession [2] session) (oneUser now) (.ok ())
      [.createSession [2] session] later :=
    ⟨rfl, .inl ⟨date, rfl⟩⟩
  exact ⟨_, _, later, session, .step drawn (.step (signed _ _ _) (.step (signed _ _ _)
    (.step read (.step created (.refl _ _))))), rfl⟩

/-! ## Agreement -/

/-- What the row counts and what the token counts agree, from every instant that leads to a
storable date. -/
def Agree (counted : Nat) (duration : ℚ) : Prop :=
  ∀ now, now + counted ≤ lastDate →
    |((now + counted : Nat) : Int) - expiryOf (now / 1000) duration * 1000| ≤ 2000 ∧
      ∀ instant : Nat, now + counted < instant →
        expiryOf (now / 1000) duration ≤ (instant / 1000 : Nat)

/-- Both expiries of a configured text, without the services. -/
theorem expireTogether_iff_agree {duration : ℚ}
    (accepted : Ms.parse cfg.refreshTtl = some duration) :
    ExpireTogether lib cfg ↔ Agree (AuthTokensService.ttlToMs cfg.refreshTtl) duration := by
  have signed (now : Nat) :
      jwtExp now cfg.refreshTtl = some (expiryOf (now / 1000) duration) := by
    rw [jwtExp, accepted, Option.map_some]
  constructor
  · intro together now date
    obtain ⟨records, tokens, later, session, path, stored⟩ := issue_oneUser lib cfg date
    have expiry := (expiresAt_of_issue path rfl stored).1
    have agrees := together _ _ _ _ _ _ _ path [2] session rfl stored _ (signed now)
    rw [expiry] at agrees
    exact agrees
  · intro agree userId address requestMeta world later records tokens path id session fresh stored
      exp written
    obtain ⟨expiry, date⟩ := expiresAt_of_issue path fresh stored
    rw [signed] at written
    cases written
    rw [expiry] at date ⊢
    exact agree world.now date

/-! ## The library's sum -/

section Sums

variable {timestamp seconds : Nat} {milliseconds : ℚ}

/-- Whole seconds are added exactly. -/
theorem expiryOf_seconds (small : timestamp + seconds ≤ 2 ^ 53) :
    expiryOf timestamp ((seconds * 1000 : Nat) : ℚ) = timestamp + seconds := by
  have quotient : (((seconds * 1000 : Nat) : ℚ) / 1000) = (seconds : ℚ) := by
    push_cast
    exact mul_div_cancel_right₀ _ (by norm_num)
  have sum : (timestamp : ℚ) + seconds = ((timestamp + seconds : Nat) : ℚ) := by push_cast; rfl
  rw [expiryOf, quotient, Double.round_natCast (by omega), sum, Double.round_natCast small,
    Int.floor_natCast]
  push_cast
  rfl

/-- What is at most half a second over some seconds does not reach the next. -/
theorem expiryOf_le (small : timestamp + seconds < 2 ^ 52)
    (most : milliseconds / 1000 ≤ seconds + 1 / 2) :
    expiryOf timestamp milliseconds ≤ timestamp + seconds := by
  have half (count : Nat) (few : count < 2 ^ 52) : Double.Exact (count + 1 / 2) := by
    refine ⟨2 * count + 1, -1, ?_, ?_⟩
    · rw [abs_of_nonneg (by omega)]
      omega
    · push_cast
      rw [zpow_neg_one]
      ring
  have rounded := Double.round_le (half seconds (by omega)) most
  have sum := Double.round_le (half (timestamp + seconds) small)
    (x := timestamp + Double.round (milliseconds / 1000)) (by push_cast; linarith)
  have below : expiryOf timestamp milliseconds < timestamp + seconds + 1 := by
    refine Int.floor_lt.mpr (sum.trans_lt ?_)
    push_cast
    linarith
  omega

/-- What is not negative is not before the instant. -/
theorem le_expiryOf (small : timestamp ≤ 2 ^ 53) (nonneg : 0 ≤ milliseconds) :
    timestamp ≤ expiryOf timestamp milliseconds := by
  have quotient : 0 ≤ Double.round (milliseconds / 1000) :=
    Double.le_round ⟨0, 0, by decide, by simp⟩ (by positivity)
  have exact : Double.Exact ((timestamp : ℤ) : ℚ) := Double.exact_intCast (by
    rw [abs_of_nonneg (Int.natCast_nonneg timestamp)]
    exact_mod_cast small)
  refine Int.le_floor.mpr (Double.le_round exact ?_)
  push_cast
  linarith

/-- The sum of an instant and at least minus a second is at most a second before it. -/
theorem pred_le_expiryOf (small : timestamp ≤ 2 ^ 53)
    (least : -1 ≤ Double.round (milliseconds / 1000)) :
    (timestamp : Int) - 1 ≤ expiryOf timestamp milliseconds := by
  have exact : Double.Exact (((timestamp : ℤ) - 1 : ℤ) : ℚ) := Double.exact_intCast (by
    rw [abs_le]
    omega)
  refine Int.le_floor.mpr (Double.le_round exact ?_)
  push_cast
  linarith

/-- From the instant 0 on nothing is lost. -/
theorem expiryOf_zero (milliseconds : ℚ) :
    expiryOf 0 milliseconds = ⌊Double.round (milliseconds / 1000)⌋ := by
  rw [expiryOf, Nat.cast_zero, zero_add, Double.round_eq_self (Double.exact_round _)]

/-- Up to the year 9999 a sum of less than a second, by at least half a unit of the last digit, is
not rounded up to it. -/
theorem expiryOf_le_of_lt (small : timestamp < 2 ^ 38)
    (most : Double.round (milliseconds / 1000) < 65535 / 65536) :
    expiryOf timestamp milliseconds ≤ timestamp := by
  -- The last double before the next second.
  have exact : Double.Exact (timestamp + 1 - 1 / 32768) := by
    refine ⟨(timestamp + 1) * 32768 - 1, -15, ?_, ?_⟩
    · rw [abs_of_nonneg (by omega)]
      omega
    · push_cast
      norm_num
      ring
  have near := Double.round_nearest (timestamp + Double.round (milliseconds / 1000)) exact
  have below : Double.round (timestamp + Double.round (milliseconds / 1000)) < timestamp + 1 := by
    rcases le_or_gt (timestamp + Double.round (milliseconds / 1000) : ℚ)
      (timestamp + 1 - 1 / 32768) with under | above
    · exact (Double.round_le exact under).trans_lt (by linarith)
    · rw [abs_sub_comm (timestamp + 1 - 1 / 32768 : ℚ), abs_of_pos (sub_pos.mpr above)] at near
      linarith [(abs_le.mp near).2]
  have floor : expiryOf timestamp milliseconds < timestamp + 1 := by
    refine Int.floor_lt.mpr (below.trans_eq ?_)
    push_cast
    rfl
  omega

/-- In the year 6325 it is. -/
theorem lt_expiryOf_of_le (least : 65535 / 65536 ≤ Double.round (milliseconds / 1000)) :
    2 ^ 37 < expiryOf (2 ^ 37) milliseconds := by
  have next : Double.Exact (((2 ^ 37 + 1 : ℤ)) : ℚ) := Double.exact_intCast (by decide)
  have reached : (((2 ^ 37 + 1 : ℤ)) : ℚ) ≤
      Double.round (((2 ^ 37 : Nat) : ℚ) + Double.round (milliseconds / 1000)) := by
    rcases le_or_gt 1 (Double.round (milliseconds / 1000)) with second | part
    · refine Double.le_round next ?_
      push_cast
      linarith
    · have low : (2 : ℚ) ^ (37 : ℤ) ≤ ((2 ^ 37 : Nat) : ℚ) + Double.round (milliseconds / 1000) := by
        norm_num
        linarith
      have high : ((2 ^ 37 : Nat) : ℚ) + Double.round (milliseconds / 1000) < 2 ^ (37 + 1 : ℤ) := by
        norm_num
        linarith
      rw [Double.round_eq_of_bounds low high]
      -- The sum lies halfway to the next second or beyond, after an odd number of last digits.
      have scaled : (((2 ^ 37 : Nat) : ℚ) + Double.round (milliseconds / 1000)) /
          2 ^ ((37 : ℤ) - 52) = 2 ^ 52 + Double.round (milliseconds / 1000) * 2 ^ 15 := by
        norm_num
        ring
      have floor : ⌊(2 ^ 52 + Double.round (milliseconds / 1000) * 2 ^ 15 : ℚ)⌋ =
          2 ^ 52 + 2 ^ 15 - 1 := by
        rw [Int.floor_eq_iff]
        push_cast
        constructor <;> linarith
      rw [scaled, Double.roundEven_of_odd (by rw [floor]; decide) (by rw [floor]; push_cast; linarith),
        floor]
      norm_num
  have floor := Int.le_floor.mpr reached
  change (2 ^ 37 + 1 : ℤ) ≤ expiryOf (2 ^ 37) milliseconds at floor
  omega

end Sums

/-! ## Agreeing counts -/

/-- Whole seconds that both count. -/
theorem agree_seconds (seconds : Nat) : Agree (seconds * 1000) ((seconds * 1000 : Nat) : ℚ) := by
  intro now date
  unfold lastDate at date
  rw [expiryOf_seconds (by omega)]
  refine ⟨?_, fun instant later => ?_⟩
  · rw [abs_le]
    omega
  · omega

/-- A number from two on that is seconds to the row and milliseconds to the token. -/
theorem not_agree_of_two_le {number : Nat} (many : 2 ≤ number) (few : number ≤ 253402300799) :
    ¬ Agree (number * 1000) number := by
  intro agree
  by_cases two : number = 2
  · -- Two seconds against two milliseconds, at the end of a second.
    subst two
    have sooner := @expiryOf_le (999 / 1000) 0 (2 : Nat) (by decide) (by norm_num)
    have apart := abs_le.mp (agree 999 (by decide)).1
    push_cast at sooner apart
    omega
  · have three : (3 : ℚ) ≤ number := by exact_mod_cast (by omega : 3 ≤ number)
    have sooner := @expiryOf_le (0 / 1000) (number - 3) number (by omega) (by
      push_cast [Nat.cast_sub (by omega : 3 ≤ number)]
      linarith)
    have apart := abs_le.mp (agree 0 (by unfold lastDate; omega)).1
    push_cast at sooner apart
    omega

/-- At most one second against at most one millisecond. -/
theorem agree_of_le_one {number : Nat} (one : number ≤ 1) : Agree (number * 1000) number := by
  intro now date
  unfold lastDate at date
  have late := @expiryOf_le (now / 1000) 0 number (by omega) (by
    have few : (number : ℚ) ≤ 1 := by exact_mod_cast one
    push_cast
    linarith)
  have early := @le_expiryOf (now / 1000) number (by omega) (Nat.cast_nonneg _)
  push_cast at late
  refine ⟨abs_le.mpr ?_, fun instant later => ?_⟩
  · omega
  · omega

/-- A number that is seconds to the row and, as far as dates go, milliseconds to the token. -/
theorem agree_bare_iff {number : Nat} {duration : ℚ}
    (read : number ≤ lastDate → duration = number) :
    Agree (number * 1000) duration ↔ number ≤ 1 ∨ 253402300799 < number := by
  constructor
  · intro agree
    by_contra between
    rw [not_or, Nat.not_le, Nat.not_lt] at between
    obtain ⟨many, few⟩ := between
    obtain rfl := read (few.trans (by decide))
    exact not_agree_of_two_le many few agree
  · rintro (one | large)
    · obtain rfl := read (one.trans (by decide))
      exact agree_of_le_one one
    · -- No date follows.
      intro now date
      unfold lastDate at date
      omega

/-- No time at all to the row. -/
theorem agree_zero_iff {duration : ℚ} :
    Agree 0 duration ↔
      -1 ≤ Double.round (duration / 1000) ∧ Double.round (duration / 1000) < 65535 / 65536 := by
  constructor
  · intro agree
    constructor
    · have late := abs_le.mp (agree 999 (by decide)).1
      have floor : -1 ≤ expiryOf 0 duration := by
        simp only [Nat.reduceDiv] at late
        push_cast at late
        omega
      rw [expiryOf_zero] at floor
      exact_mod_cast Int.le_floor.mp floor
    · by_contra full
      have above := lt_expiryOf_of_le (not_lt.mp full)
      have early := (agree (2 ^ 37 * 1000) (by decide)).2 (2 ^ 37 * 1000 + 1) (by omega)
      rw [Nat.mul_div_cancel _ (by decide)] at early
      omega
  · rintro ⟨least, most⟩ now date
    unfold lastDate at date
    have early := @pred_le_expiryOf (now / 1000) _ (by omega) least
    have late := @expiryOf_le_of_lt (now / 1000) _ (by omega) most
    refine ⟨abs_le.mpr ?_, fun instant later => ?_⟩
    · omega
    · omega

/-! ## The kinds of text -/

/-- Digits, spaces and one of the units that both readings have. -/
def SharedUnit (ttl : JsString) : Prop :=
  ttl.takeWhile isDigit ≠ [] ∧ unitText ttl ∈ ["s", "m", "h", "d"].map JsString.ascii

/-- Digits alone, up to spaces behind them. -/
def NoUnit (ttl : JsString) : Prop := ttl.takeWhile isDigit ≠ [] ∧ unitText ttl = []

section Readings

open AuthTokensService (ttlToMs)

variable {ttl : JsString} {duration : ℚ} (accepted : Ms.parse ttl = some duration)
include accepted

/-- A shared unit is counted alike, in whole seconds, as far as dates go. -/
theorem seconds_of_sharedUnit (shared : SharedUnit ttl) (date : ttlToMs ttl ≤ lastDate) :
    ∃ seconds : Nat, ttlToMs ttl = seconds * 1000 ∧ duration = ((seconds * 1000 : Nat) : ℚ) := by
  obtain ⟨digits, unit⟩ := shared
  obtain ⟨known, ⟨thousand, split⟩⟩ := Ms.unitOf_shared unit
  have counted := AuthTokensService.ttlToMs_of_unit digits (Ms.filled_of_unitOf known)
  have product : ttlToMs ttl = decimal (ttl.takeWhile isDigit) * thousand * 1000 := by
    rw [counted, split]
    ring
  refine ⟨decimal (ttl.takeWhile isDigit) * thousand, product, ?_⟩
  rcases Ms.unit_of_parse accepted digits with ⟨more, point⟩ | ⟨value, read, same⟩
  · -- A fraction is no unit.
    have text : unitText ttl = 46 :: more := by
      rw [unitText, point]
      rfl
    rw [text] at unit
    simp [JsString.ascii] at unit
  · rw [known] at read
    cases read
    have positive : 0 < AuthTokensService.factor (unitText ttl) :=
      Ms.factor_pos_of_shared unit
    have few : decimal (ttl.takeWhile isDigit) ≤ lastDate := by
      rw [counted] at date
      exact (Nat.le_mul_of_pos_right _ positive).trans date
    unfold lastDate at few date
    rw [same, Double.round_natCast (by omega), ← Nat.cast_mul, ← counted, product]
    exact Double.round_natCast (by omega)

/-- Digits alone are seconds here and milliseconds there. -/
theorem bare_of_noUnit (bare : NoUnit ttl) :
    ttlToMs ttl = decimal (ttl.takeWhile isDigit) * 1000 ∧
      (decimal (ttl.takeWhile isDigit) ≤ lastDate →
        duration = decimal (ttl.takeWhile isDigit)) := by
  obtain ⟨digits, none⟩ := bare
  have blank : ∀ unit ∈ unitText ttl, isSpace unit = false := by
    rw [none]
    exact fun unit member => absurd member List.not_mem_nil
  refine ⟨by rw [AuthTokensService.ttlToMs_of_unit digits blank, none]; rfl, fun few => ?_⟩
  rcases Ms.unit_of_parse accepted digits with ⟨more, point⟩ | ⟨value, read, same⟩
  · have text : unitText ttl = 46 :: more := by
      rw [unitText, point]
      rfl
    rw [text] at none
    cases none
  · rw [none] at read
    have one : value = 1 := (Option.some.inj read).symm
    unfold lastDate at few
    have exact := @Double.round_natCast (decimal (ttl.takeWhile isDigit)) (by omega)
    rw [same, one, mul_one, exact, exact]

/-- Everything else that is accepted is no time at all to `ttlToMs`. -/
theorem ttlToMs_of_neither (unshared : ¬ SharedUnit ttl) (some_ : ¬ NoUnit ttl) :
    ttlToMs ttl = 0 := by
  by_cases digits : ttl.takeWhile isDigit = []
  · exact AuthTokensService.ttlToMs_of_head (Ms.solid_of_parse accepted) digits
  · rcases Ms.unit_of_parse accepted digits with ⟨more, point⟩ | ⟨value, read, -⟩
    · exact AuthTokensService.ttlToMs_of_fraction digits point
    · rw [AuthTokensService.ttlToMs_of_unit digits (Ms.filled_of_unitOf read),
        Ms.factor_eq_zero (fun none => some_ ⟨digits, none⟩) fun unit => unshared ⟨digits, unit⟩,
        Nat.mul_zero]

end Readings

/-- **When a session row and its refresh token expire together.** For every TTL the JWT
library accepts, they do so if and only if it is digits under a unit that both readings have;
or digits alone of at most one, or of so many seconds that no storable date follows; or anything
else that the library reads, in doubles, as at least minus a second and less than a second by more
than half of what the last digit of an instant in the year 9999 counts. -/
theorem expireTogether_iff (lib : AuthLibraries) (cfg : AuthConfig) {duration : ℚ}
    (accepted : Ms.parse cfg.refreshTtl = some duration) :
    ExpireTogether lib cfg ↔
      SharedUnit cfg.refreshTtl ∨
      (NoUnit cfg.refreshTtl ∧ (decimal (cfg.refreshTtl.takeWhile isDigit) ≤ 1 ∨
        253402300799 < decimal (cfg.refreshTtl.takeWhile isDigit))) ∨
      (¬ SharedUnit cfg.refreshTtl ∧ ¬ NoUnit cfg.refreshTtl ∧
        -1 ≤ Double.round (duration / 1000) ∧ Double.round (duration / 1000) < 65535 / 65536) := by
  rw [expireTogether_iff_agree accepted]
  by_cases shared : SharedUnit cfg.refreshTtl
  · refine iff_of_true ?_ (.inl shared)
    intro now date
    obtain ⟨seconds, counted, rfl⟩ := seconds_of_sharedUnit accepted shared
      ((Nat.le_add_left _ _).trans date)
    rw [counted] at date ⊢
    exact agree_seconds seconds now date
  by_cases bare : NoUnit cfg.refreshTtl
  · obtain ⟨counted, read⟩ := bare_of_noUnit accepted bare
    rw [counted, agree_bare_iff read]
    simp only [shared, bare, false_or, true_and, not_true_eq_false, false_and, not_false_eq_true,
      or_false]
  · rw [ttlToMs_of_neither accepted shared bare, agree_zero_iff]
    simp only [shared, bare, false_or, false_and, not_false_eq_true, true_and]

-- Less than a second, and a second to the library.
example : Ms.parse (JsString.ascii "0.99999999999999999s") = some 1000 := by decide +kernel

/-- The configuration of one session, with another refresh TTL. -/
def refreshing (ttl : String) : AuthConfig :=
  { oneSessionConfig with refreshTtl := JsString.ascii ttl }

/-- The default of thirty days is read alike. -/
theorem expireTogether_thirtyDays : ExpireTogether oneSessionLibraries (refreshing "30d") := by
  have accepted : Ms.parse (refreshing "30d").refreshTtl = some 2592000000 := by decide +kernel
  exact (expireTogether_iff oneSessionLibraries (refreshing "30d") accepted).mpr
    (.inl ⟨by decide, by decide⟩)

/-- **Two weeks are no time at all.** The library accepts the text and dates the token two
weeks ahead; the session row that is stored with it expires at once. -/
theorem twoWeeks_expire_apart :
    jwtExp 0 (refreshing "2w").refreshTtl = some 1209600 ∧
      AuthTokensService.ttlToMs (refreshing "2w").refreshTtl = 0 ∧
      ¬ ExpireTogether oneSessionLibraries (refreshing "2w") := by
  have accepted : Ms.parse (refreshing "2w").refreshTtl = some 1209600000 := by decide +kernel
  have none : AuthTokensService.ttlToMs (refreshing "2w").refreshTtl = 0 := by decide
  have signed : jwtExp 0 (refreshing "2w").refreshTtl = some 1209600 := by decide +kernel
  refine ⟨signed, none, fun together => ?_⟩
  obtain ⟨records, tokens, later, session, path, stored⟩ :=
    issue_oneUser oneSessionLibraries (refreshing "2w") (by decide : 0 + _ ≤ lastDate)
  have expiry := (expiresAt_of_issue path rfl stored).1
  have apart := abs_le.mp (together _ _ _ _ _ _ _ path [2] session rfl stored _ signed).1
  rw [expiry, none] at apart
  exact absurd apart.1 (by decide)

end Numera
