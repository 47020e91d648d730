import Mathlib.Tactic.Common
import Numera.Foundation.Decimal

/-! # JSON

`JSON.parse` and `JSON.stringify` over strings of UTF-16 code units. A number is
kept as the text it was written with. Values whose numbers are written as numbers are
(`Json.WellFormed`) are read back exactly as they were written
(`Json.parse_stringify_of_wellFormed`), so writing them is injective. Those made of
strings, `null` and arrays of these (`Json.Plain`) are among them.
-/

inductive Json where
  | null
  | bool (value : Bool)
  | number (text : JsString)
  | string (text : JsString)
  | array (items : List Json)
  | object (members : List (JsString × Json))

namespace Json

/-! ## Writing -/

/-- A lower-case hexadecimal digit. -/
def hexDigit (value : Nat) : UInt16 :=
  if value < 10 then UInt16.ofNat (48 + value) else UInt16.ofNat (87 + value)

/-- `\u` and the four hexadecimal digits of a code unit. -/
def unicodeEscape (unit : UInt16) : JsString :=
  [92, 117, hexDigit (unit.toNat / 4096 % 16), hexDigit (unit.toNat / 256 % 16),
    hexDigit (unit.toNat / 16 % 16), hexDigit (unit.toNat % 16)]

/-- A code unit that is not half of a surrogate pair, as it is written in a string. -/
def quoteUnit (unit : UInt16) : JsString :=
  if unit = 8 then [92, 98]
  else if unit = 9 then [92, 116]
  else if unit = 10 then [92, 110]
  else if unit = 12 then [92, 102]
  else if unit = 13 then [92, 114]
  else if unit = 34 then [92, 34]
  else if unit = 92 then [92, 92]
  else if unit < 32 ∨ JsString.isHigh unit ∨ JsString.isLow unit then unicodeEscape unit
  else [unit]

/-- The characters of a string and its closing quote. A surrogate pair is written
as it is, a surrogate on its own as an escape. -/
def quoteUnits : JsString → JsString
  | [] => [34]
  | unit :: rest =>
      match rest with
      | [] => quoteUnit unit ++ [34]
      | second :: after =>
          if JsString.isHigh unit ∧ JsString.isLow second then
            unit :: second :: quoteUnits after
          else quoteUnit unit ++ quoteUnits (second :: after)

/-- A quoted string. -/
def quote (text : JsString) : JsString := 34 :: quoteUnits text

mutual

/-- `JSON.stringify` without indentation. -/
def stringify : Json → JsString
  | null => JsString.ascii "null"
  | bool true => JsString.ascii "true"
  | bool false => JsString.ascii "false"
  | number text => text
  | string text => quote text
  | array [] => [91, 93]
  | array (first :: rest) => 91 :: (stringify first ++ stringifyItems rest)
  | object [] => [123, 125]
  | object ((name, first) :: rest) =>
      123 :: (quote name ++ 58 :: (stringify first ++ stringifyMembers rest))

/-- The items after the first, each after a comma, and the closing bracket. -/
def stringifyItems : List Json → JsString
  | [] => [93]
  | item :: rest => 44 :: (stringify item ++ stringifyItems rest)

/-- The members after the first, each after a comma, and the closing brace. -/
def stringifyMembers : List (JsString × Json) → JsString
  | [] => [125]
  | (name, value) :: rest =>
      44 :: (quote name ++ 58 :: (stringify value ++ stringifyMembers rest))

end

/-! ## Reading -/

/-- Space, tab, line feed and carriage return. -/
def isSpace (unit : UInt16) : Bool := unit = 32 || unit = 9 || unit = 10 || unit = 13

def skipSpace (text : JsString) : JsString := text.dropWhile isSpace

def isDigit (unit : UInt16) : Bool := 48 ≤ unit && unit ≤ 57

/-- The value of a hexadecimal digit. -/
def hexValue? (unit : UInt16) : Option Nat :=
  if 48 ≤ unit ∧ unit ≤ 57 then some (unit.toNat - 48)
  else if 97 ≤ unit ∧ unit ≤ 102 then some (unit.toNat - 87)
  else if 65 ≤ unit ∧ unit ≤ 70 then some (unit.toNat - 55)
  else none

/-- The code unit four hexadecimal digits stand for. -/
def unicodeUnit? (first second third fourth : UInt16) : Option UInt16 := do
  let first ← hexValue? first
  let second ← hexValue? second
  let third ← hexValue? third
  let fourth ← hexValue? fourth
  some (UInt16.ofNat (first * 4096 + second * 256 + third * 16 + fourth))

/-- The code unit a one-character escape stands for. -/
def unescape? (unit : UInt16) : Option UInt16 :=
  if unit = 34 ∨ unit = 92 ∨ unit = 47 then some unit
  else if unit = 98 then some 8
  else if unit = 102 then some 12
  else if unit = 110 then some 10
  else if unit = 114 then some 13
  else if unit = 116 then some 9
  else none

/-- The string up to its closing quote, and the text after it. -/
def parseChars : JsString → Option (JsString × JsString)
  | [] => none
  | unit :: rest =>
      if unit = 34 then some ([], rest)
      else if unit = 92 then
        match rest with
        | [] => none
        | 117 :: first :: second :: third :: fourth :: after => do
            let unit ← unicodeUnit? first second third fourth
            let (text, remaining) ← parseChars after
            some (unit :: text, remaining)
        | escaped :: after => do
            let unit ← unescape? escaped
            let (text, remaining) ← parseChars after
            some (unit :: text, remaining)
      else if unit < 32 then none
      else do
        let (text, remaining) ← parseChars rest
        some (unit :: text, remaining)

/-- One or more digits. -/
def parseDigits (text : JsString) : Option (JsString × JsString) :=
  match text.takeWhile isDigit with
  | [] => none
  | digits => some (digits, text.dropWhile isDigit)

/-- The whole part of a number: a zero, or digits that do not start with one. -/
def parseWhole : JsString → Option (JsString × JsString)
  | 48 :: rest => some ([48], rest)
  | text => parseDigits text

/-- The fraction of a number, if it has one. -/
def parseFraction : JsString → Option (JsString × JsString)
  | 46 :: rest => (parseDigits rest).map fun (digits, rest) => (46 :: digits, rest)
  | text => some ([], text)

/-- The exponent of a number, if it has one. -/
def parseExponent : JsString → Option (JsString × JsString)
  | [] => some ([], [])
  | mark :: rest =>
      if mark = 101 ∨ mark = 69 then
        match rest with
        | [] => none
        | sign :: digits =>
            if sign = 43 ∨ sign = 45 then
              (parseDigits digits).map fun (digits, rest) => (mark :: sign :: digits, rest)
            else (parseDigits (sign :: digits)).map fun (digits, rest) => (mark :: digits, rest)
      else some ([], mark :: rest)

def parseNumber (text : JsString) : Option (Json × JsString) := do
  let (sign, rest) := match text with
    | 45 :: rest => ([45], rest)
    | text => (([] : JsString), text)
  let (whole, rest) ← parseWhole rest
  let (fraction, rest) ← parseFraction rest
  let (exponent, rest) ← parseExponent rest
  some (number (sign ++ whole ++ fraction ++ exponent), rest)

/-- `null`, `true` and `false`. -/
def parseLiteral (text : JsString) : Option (Json × JsString) :=
  match text with
  | 110 :: 117 :: 108 :: 108 :: rest => some (null, rest)
  | 116 :: 114 :: 117 :: 101 :: rest => some (bool true, rest)
  | 102 :: 97 :: 108 :: 115 :: 101 :: rest => some (bool false, rest)
  | text => parseNumber text

mutual

/-- The value at the start of the text, and the text after it. Each nested call
takes one unit of fuel; twice the length of the text is enough. -/
def parseValue : Nat → JsString → Option (Json × JsString)
  | 0, _ => none
  | fuel + 1, text =>
      match skipSpace text with
      | [] => none
      | unit :: rest =>
          if unit = 34 then (parseChars rest).map fun (text, rest) => (string text, rest)
          else if unit = 91 then
            match skipSpace rest with
            | 93 :: after => some (array [], after)
            | items => (parseItems fuel items).map fun (items, rest) => (array items, rest)
          else if unit = 123 then
            match skipSpace rest with
            | 125 :: after => some (object [], after)
            | members => (parseMembers fuel members).map fun (members, rest) =>
                (object members, rest)
          else parseLiteral (unit :: rest)

/-- One or more items separated by commas, up to the closing bracket. -/
def parseItems : Nat → JsString → Option (List Json × JsString)
  | 0, _ => none
  | fuel + 1, text => do
      let (item, rest) ← parseValue fuel text
      match skipSpace rest with
      | 44 :: after => do
          let (items, remaining) ← parseItems fuel after
          some (item :: items, remaining)
      | 93 :: after => some ([item], after)
      | _ => none

/-- One or more members separated by commas, up to the closing brace. -/
def parseMembers : Nat → JsString → Option (List (JsString × Json) × JsString)
  | 0, _ => none
  | fuel + 1, text => do
      let (name, rest) ← match skipSpace text with
        | 34 :: chars => parseChars chars
        | _ => none
      let (value, rest) ← match skipSpace rest with
        | 58 :: after => parseValue fuel after
        | _ => none
      match skipSpace rest with
      | 44 :: after => do
          let (members, remaining) ← parseMembers fuel after
          some ((name, value) :: members, remaining)
      | 125 :: after => some ([(name, value)], after)
      | _ => none

end

/-- `JSON.parse`, which throws on a text that is not one JSON value. -/
def parse (text : JsString) : Option Json :=
  match parseValue (2 * text.length) text with
  | some (value, rest) => if skipSpace rest = [] then some value else none
  | none => none

/-! ## Reading back what was written -/

private theorem hexValue?_hexDigit : ∀ value < 16, hexValue? (hexDigit value) = some value := by
  decide

private theorem unicodeUnit?_digits (unit : UInt16) :
    unicodeUnit? (hexDigit (unit.toNat / 4096 % 16)) (hexDigit (unit.toNat / 256 % 16))
      (hexDigit (unit.toNat / 16 % 16)) (hexDigit (unit.toNat % 16)) = some unit := by
  have digit : ∀ value : Nat, hexValue? (hexDigit (value % 16)) = some (value % 16) :=
    fun value => hexValue?_hexDigit _ (Nat.mod_lt _ (by decide))
  have bound : unit.toNat < 65536 := unit.toNat_lt
  have value : unit.toNat / 4096 % 16 * 4096 + unit.toNat / 256 % 16 * 256 +
      unit.toNat / 16 % 16 * 16 + unit.toNat % 16 = unit.toNat := by omega
  simp only [unicodeUnit?, digit, Option.bind_eq_bind, Option.bind_some, value,
    UInt16.ofNat_toNat]

private theorem parseChars_plain {unit : UInt16} (text : JsString) (notQuote : unit ≠ 34)
    (notBackslash : unit ≠ 92) (printable : ¬ unit < 32) :
    parseChars (unit :: text) = (parseChars text).map fun (read, rest) => (unit :: read, rest) := by
  rw [parseChars.eq_def]
  simp only [notQuote, notBackslash, printable, ↓reduceIte]
  cases parseChars text <;> rfl

private theorem parseChars_escape {unit escaped : UInt16} (text : JsString)
    (plain : escaped ≠ 117) (names : unescape? escaped = some unit) :
    parseChars (92 :: escaped :: text) =
      (parseChars text).map fun (read, rest) => (unit :: read, rest) := by
  have notQuote : (92 : UInt16) ≠ 34 := by decide
  rw [parseChars]
  · simp only [notQuote, ↓reduceIte, names]
    cases parseChars text <;> rfl
  · intro _ _ _ _ _ unicode
    exact absurd unicode plain

private theorem parseChars_unicodeEscape (unit : UInt16) (text : JsString) :
    parseChars (unicodeEscape unit ++ text) =
      (parseChars text).map fun (read, rest) => (unit :: read, rest) := by
  have notQuote : (92 : UInt16) ≠ 34 := by decide
  simp only [unicodeEscape, List.cons_append, List.nil_append]
  rw [parseChars]
  simp only [notQuote, ↓reduceIte, unicodeUnit?_digits]
  cases parseChars text <;> rfl

/-- A written code unit is read back. -/
private theorem parseChars_quoteUnit (unit : UInt16) (text : JsString) :
    parseChars (quoteUnit unit ++ text) =
      (parseChars text).map fun (read, rest) => (unit :: read, rest) := by
  unfold quoteUnit
  split_ifs with backspace tab newline formFeed carriageReturn quote backslash escaped
  · subst backspace
    exact parseChars_escape text (by decide) (by decide)
  · subst tab
    exact parseChars_escape text (by decide) (by decide)
  · subst newline
    exact parseChars_escape text (by decide) (by decide)
  · subst formFeed
    exact parseChars_escape text (by decide) (by decide)
  · subst carriageReturn
    exact parseChars_escape text (by decide) (by decide)
  · subst quote
    exact parseChars_escape text (by decide) (by decide)
  · subst backslash
    exact parseChars_escape text (by decide) (by decide)
  · exact parseChars_unicodeEscape unit text
  · have printable : ¬ unit < 32 := fun control => escaped (.inl control)
    exact parseChars_plain text quote backslash printable

/-- A surrogate is neither a quote, nor a backslash, nor a control character. -/
private theorem parseChars_surrogate {unit : UInt16} (text : JsString) (high : 0xD800 ≤ unit) :
    parseChars (unit :: text) = (parseChars text).map fun (read, rest) => (unit :: read, rest) :=
  parseChars_plain text (by grind) (by grind) (by grind)

private theorem parseChars_quote (rest : JsString) : parseChars (34 :: rest) = some ([], rest) := by
  rw [parseChars.eq_def]
  rfl

/-- A written string is read back up to its closing quote. -/
private theorem parseChars_quoteUnits (text rest : JsString) :
    parseChars (quoteUnits text ++ rest) = some (text, rest) := by
  induction text using quoteUnits.induct with
  | case1 => exact parseChars_quote rest
  | case2 unit =>
      rw [quoteUnits, List.append_assoc, parseChars_quoteUnit, List.singleton_append,
        parseChars_quote]
      rfl
  | case3 unit second after paired ih =>
      have highUnit : 0xD800 ≤ unit := by
        have high := paired.1
        simp only [JsString.isHigh, Bool.and_eq_true, decide_eq_true_eq] at high
        exact high.1
      have lowUnit : 0xD800 ≤ second := by
        have low := paired.2
        simp only [JsString.isLow, Bool.and_eq_true, decide_eq_true_eq] at low
        grind
      simp only [quoteUnits, paired, and_self, ↓reduceIte, List.cons_append]
      rw [parseChars_surrogate _ highUnit, parseChars_surrogate _ lowUnit, ih]
      rfl
  | case4 unit second after single ih =>
      simp only [quoteUnits, single, ↓reduceIte, List.append_assoc]
      rw [parseChars_quoteUnit, ih]
      rfl

mutual

/-- Values made of `null`, strings and arrays of these. -/
def Plain : Json → Prop
  | null => True
  | string _ => True
  | array items => AllPlain items
  | _ => False

/-- Every item is plain. -/
def AllPlain : List Json → Prop
  | [] => True
  | item :: rest => Plain item ∧ AllPlain rest

end

/-! ### Numbers -/

/-- The text of a number. -/
def IsNumber (text : JsString) : Prop := parseNumber text = some (number text, [])

instance (text : JsString) : Decidable (IsNumber text) :=
  match found : parseNumber text with
  | some (number other, []) =>
      if same : other = text then .isTrue (by rw [IsNumber, found, same])
      else .isFalse (by simp [IsNumber, found, same])
  | none => .isFalse (by simp [IsNumber, found])
  | some (number _, _ :: _) => .isFalse (by simp [IsNumber, found])
  | some (null, _) | some (bool _, _) | some (string _, _) | some (array _, _)
  | some (object _, _) => .isFalse (by simp [IsNumber, found])

/-- What may stand after a value: nothing, a comma, a bracket or a brace. -/
def Delimits (rest : JsString) : Prop :=
  rest = [] ∨ ∃ unit after, rest = unit :: after ∧ (unit = 44 ∨ unit = 93 ∨ unit = 125)

section Numbers

variable {text read left rest : JsString}

private theorem parseDigits_append (digits : parseDigits text = some (read, left))
    (delimits : Delimits rest) : parseDigits (text ++ rest) = some (read, left ++ rest) := by
  have stops : rest.takeWhile isDigit = [] ∧ rest.dropWhile isDigit = rest := by
    rcases delimits with rfl | ⟨unit, after, rfl, rfl | rfl | rfl⟩ <;> exact ⟨rfl, rfl⟩
  have taken : (text ++ rest).takeWhile isDigit = text.takeWhile isDigit ∧
      (text ++ rest).dropWhile isDigit = text.dropWhile isDigit ++ rest := by
    clear digits
    induction text with
    | nil => exact stops
    | cons unit text ih => cases digit : isDigit unit <;> simp [digit, ih]
  unfold parseDigits at digits ⊢
  rw [taken.1, taken.2]
  split at digits
  · cases digits
  · obtain ⟨rfl, rfl⟩ := Prod.mk.inj (Option.some.inj digits)
    rfl

private theorem parseWhole_append (whole : parseWhole text = some (read, left))
    (delimits : Delimits rest) : parseWhole (text ++ rest) = some (read, left ++ rest) := by
  unfold parseWhole at whole
  split at whole
  · obtain ⟨rfl, rfl⟩ := Prod.mk.inj (Option.some.inj whole)
    rfl
  · rename_i other
    cases text with
    | nil => cases whole
    | cons unit text =>
        rw [List.cons_append, parseWhole]
        · exact parseDigits_append whole delimits
        · rintro after ⟨rfl, -⟩
          exact other text rfl

private theorem parseFraction_append (fraction : parseFraction text = some (read, left))
    (delimits : Delimits rest) : parseFraction (text ++ rest) = some (read, left ++ rest) := by
  unfold parseFraction at fraction
  split at fraction
  · obtain ⟨⟨digits, after⟩, found, same⟩ := Option.map_eq_some_iff.mp fraction
    obtain ⟨rfl, rfl⟩ := Prod.mk.inj same
    rw [List.cons_append, parseFraction, parseDigits_append found delimits]
    rfl
  · rename_i other
    obtain ⟨rfl, rfl⟩ := Prod.mk.inj (Option.some.inj fraction)
    rw [parseFraction]
    intro after same
    cases text with
    | nil =>
        rcases delimits with rfl | ⟨unit, tail, rfl, rfl | rfl | rfl⟩ <;> cases same
    | cons unit text =>
        obtain ⟨rfl, -⟩ := List.cons.inj same
        exact other text rfl

private theorem parseExponent_append (exponent : parseExponent text = some (read, left))
    (delimits : Delimits rest) : parseExponent (text ++ rest) = some (read, left ++ rest) := by
  cases text with
  | nil =>
      obtain ⟨rfl, rfl⟩ := Prod.mk.inj (Option.some.inj exponent)
      rcases delimits with rfl | ⟨unit, tail, rfl, rfl | rfl | rfl⟩ <;> rfl
  | cons mark text =>
      simp only [parseExponent, List.cons_append] at exponent ⊢
      split at exponent
      · rename_i marks
        rw [if_pos marks]
        cases text with
        | nil => cases exponent
        | cons sign digits =>
            simp only [List.cons_append] at exponent ⊢
            split at exponent
            · rename_i signed
              obtain ⟨⟨read, after⟩, found, same⟩ := Option.map_eq_some_iff.mp exponent
              obtain ⟨rfl, rfl⟩ := Prod.mk.inj same
              rw [if_pos signed, parseDigits_append found delimits]
              rfl
            · rename_i unsigned
              obtain ⟨⟨read, after⟩, found, same⟩ := Option.map_eq_some_iff.mp exponent
              obtain ⟨rfl, rfl⟩ := Prod.mk.inj same
              rw [if_neg unsigned, ← List.cons_append, parseDigits_append found delimits]
              rfl
      · rename_i unmarked
        obtain ⟨rfl, rfl⟩ := Prod.mk.inj (Option.some.inj exponent)
        rw [if_neg unmarked]
        rfl

/-- A number is read up to what delimits it. -/
private theorem parseNumber_append (isNumber : IsNumber text) (delimits : Delimits rest) :
    parseNumber (text ++ rest) = some (number text, rest) := by
  have signed : ∀ sign digits : JsString, text = sign ++ digits →
      (do
        let (whole, left) ← parseWhole digits
        let (fraction, left) ← parseFraction left
        let (exponent, left) ← parseExponent left
        some (number (sign ++ whole ++ fraction ++ exponent), left)) = some (number text, []) →
      (do
        let (whole, left) ← parseWhole (digits ++ rest)
        let (fraction, left) ← parseFraction left
        let (exponent, left) ← parseExponent left
        some (number (sign ++ whole ++ fraction ++ exponent), left)) =
          some (number text, rest) := by
    intro sign digits _ parsed
    simp only [Option.bind_eq_bind, Option.bind_eq_some_iff] at parsed
    obtain ⟨⟨whole, first⟩, foundWhole, ⟨fraction, second⟩, foundFraction, ⟨exponent, third⟩,
      foundExponent, same⟩ := parsed
    obtain ⟨same, rfl⟩ := Prod.mk.inj (Option.some.inj same)
    have joined := number.inj same
    simp [parseWhole_append foundWhole delimits, parseFraction_append foundFraction delimits,
      parseExponent_append foundExponent delimits, ← joined]
  unfold IsNumber parseNumber at isNumber
  cases text with
  | nil => cases isNumber
  | cons unit text =>
      by_cases minus : unit = 45
      · subst minus
        exact signed [45] text rfl isNumber
      · have plain : ∀ after : JsString, parseNumber (unit :: after) = (do
            let (whole, left) ← parseWhole (unit :: after)
            let (fraction, left) ← parseFraction left
            let (exponent, left) ← parseExponent left
            some (number ([] ++ whole ++ fraction ++ exponent), left)) := by
          intro after
          unfold parseNumber
          split
          rename_i sign digits found
          split at found
          · rename_i heq
            exact absurd (List.cons.inj heq).1 minus
          · obtain ⟨rfl, rfl⟩ := Prod.mk.inj found
            rfl
        rw [List.cons_append, plain]
        refine signed [] (unit :: text) rfl ?_
        rw [← plain]
        exact isNumber

/-- A number starts with a minus sign or a digit. -/
private theorem number_head (isNumber : IsNumber text) :
    ∃ unit rest, text = unit :: rest ∧ (unit = 45 ∨ isDigit unit = true) := by
  unfold IsNumber parseNumber at isNumber
  cases text with
  | nil => cases isNumber
  | cons unit text =>
      refine ⟨unit, text, rfl, ?_⟩
      by_contra other
      obtain ⟨minus, digit⟩ := not_or.mp other
      have none : parseWhole (unit :: text) = none := by
        rw [parseWhole]
        · simp [parseDigits, digit]
        · rintro _ ⟨rfl, -⟩
          exact digit rfl
      split at isNumber
      rename_i sign digits found
      split at found
      · rename_i heq
        exact minus (List.cons.inj heq).1
      · obtain ⟨rfl, rfl⟩ := Prod.mk.inj found
        rw [none] at isNumber
        cases isNumber

end Numbers

/-! ### Values -/

mutual

/-- Values whose numbers are written as numbers are. -/
def WellFormed : Json → Prop
  | null | bool _ | string _ => True
  | number text => IsNumber text
  | array items => AllWellFormed items
  | object members => MembersWellFormed members

def AllWellFormed : List Json → Prop
  | [] => True
  | item :: rest => WellFormed item ∧ AllWellFormed rest

def MembersWellFormed : List (JsString × Json) → Prop
  | [] => True
  | (_, value) :: rest => WellFormed value ∧ MembersWellFormed rest

end

mutual

theorem WellFormed.of_plain : ∀ {value : Json}, value.Plain → value.WellFormed
  | null, _ | string _, _ => trivial
  | array items, plain => (AllWellFormed.of_plain plain : AllWellFormed items)

theorem AllWellFormed.of_plain : ∀ {items : List Json}, AllPlain items → AllWellFormed items
  | [], _ => trivial
  | _ :: _, plain => ⟨.of_plain plain.1, .of_plain plain.2⟩

end

/-- A written value starts with neither a space nor a closing bracket. -/
private theorem stringify_head {value : Json} (formed : value.WellFormed) :
    ∃ first rest, stringify value = first :: rest ∧ isSpace first = false ∧ first ≠ 93 := by
  cases value with
  | null => exact ⟨110, _, rfl, by decide, by decide⟩
  | bool value => cases value <;> exact ⟨_, _, rfl, by decide, by decide⟩
  | string text => exact ⟨34, _, rfl, by decide, by decide⟩
  | array items => cases items <;> exact ⟨91, _, rfl, by decide, by decide⟩
  | object members => cases members <;> exact ⟨123, _, rfl, by decide, by decide⟩
  | number text =>
      obtain ⟨unit, rest, rfl, rfl | digit⟩ := number_head formed
      · exact ⟨45, rest, rfl, by decide, by decide⟩
      · refine ⟨unit, rest, rfl, ?_, ?_⟩
        · unfold isDigit at digit
          unfold isSpace
          grind
        · rintro rfl
          cases digit

/-- A written array is opened and, unless it is empty, read item by item. -/
private theorem parseValue_items {first : Json} (formed : first.WellFormed) (fuel : Nat)
    (rest : JsString) :
    parseValue (fuel + 1) (91 :: (stringify first ++ rest)) =
      (parseItems fuel (stringify first ++ rest)).map fun (items, rest) => (array items, rest) := by
  obtain ⟨unit, after, written, solid, open_⟩ := stringify_head formed
  rw [written, List.cons_append, parseValue]
  change (match skipSpace (unit :: (after ++ rest)) with
    | 93 :: after => some (array [], after)
    | items => (parseItems fuel items).map fun (items, rest) => (array items, rest)) = _
  have kept : skipSpace (unit :: (after ++ rest)) = unit :: (after ++ rest) := by
    simp [skipSpace, solid]
  rw [kept]
  split
  · rename_i heq
    injection heq with head
    exact absurd head open_
  · rfl

private theorem delimits_items (items : List Json) (rest : JsString) :
    Delimits (stringifyItems items ++ rest) := by
  cases items <;> exact .inr ⟨_, _, rfl, by decide⟩

private theorem delimits_members (members : List (JsString × Json)) (rest : JsString) :
    Delimits (stringifyMembers members ++ rest) := by
  rcases members with _ | ⟨⟨name, value⟩, members⟩ <;> exact .inr ⟨_, _, rfl, by decide⟩

/-- A number is read where a value is expected. -/
private theorem parseValue_number {text rest : JsString} (isNumber : IsNumber text)
    (delimits : Delimits rest) (fuel : Nat) :
    parseValue (fuel + 1) (text ++ rest) = some (number text, rest) := by
  have read := parseNumber_append isNumber delimits
  obtain ⟨unit, after, rfl, head⟩ := number_head isNumber
  have solid : isSpace unit = false ∧ unit ≠ 34 ∧ unit ≠ 91 ∧ unit ≠ 123 ∧ unit ≠ 110 ∧
      unit ≠ 116 ∧ unit ≠ 102 := by
    unfold isDigit at head
    refine ⟨?_, ?_, ?_, ?_, ?_, ?_, ?_⟩
    · unfold isSpace
      grind
    all_goals grind
  obtain ⟨space, quote, bracket, brace, n, t, f⟩ := solid
  rw [List.cons_append] at read ⊢
  rw [parseValue]
  have kept : skipSpace (unit :: (after ++ rest)) = unit :: (after ++ rest) := by
    simp [skipSpace, space]
  simp only [kept, quote, bracket, brace, ↓reduceIte]
  rw [parseLiteral]
  · exact read
  · exact fun _ same => n (List.cons.inj same).1
  · exact fun _ same => t (List.cons.inj same).1
  · exact fun _ same => f (List.cons.inj same).1

mutual

/-- A written value is read back from the start of a text. -/
private theorem parseValue_stringify : ∀ (value : Json) (fuel : Nat) (rest : JsString),
    value.WellFormed → Delimits rest → 2 * (stringify value).length ≤ fuel →
    parseValue fuel (stringify value ++ rest) = some (value, rest)
  | null, fuel, rest, _, _, enough => by
      obtain ⟨fuel, rfl⟩ : ∃ less, fuel = less + 1 := ⟨fuel - 1, by
        simp [stringify, JsString.ascii] at enough; omega⟩
      rfl
  | bool value, fuel, rest, _, _, enough => by
      obtain ⟨fuel, rfl⟩ : ∃ less, fuel = less + 1 := ⟨fuel - 1, by
        cases value <;> simp [stringify, JsString.ascii] at enough <;> omega⟩
      cases value <;> rfl
  | number text, fuel, rest, formed, delimits, enough => by
      obtain ⟨fuel, rfl⟩ : ∃ less, fuel = less + 1 := ⟨fuel - 1, by
        obtain ⟨unit, after, rfl, -⟩ := number_head formed
        simp [stringify] at enough; omega⟩
      exact parseValue_number formed delimits fuel
  | string text, fuel, rest, _, _, enough => by
      obtain ⟨fuel, rfl⟩ : ∃ less, fuel = less + 1 := ⟨fuel - 1, by
        simp [stringify, quote] at enough; omega⟩
      rw [stringify, quote, List.cons_append, parseValue]
      change (parseChars (quoteUnits text ++ rest)).map _ = _
      rw [parseChars_quoteUnits]
      rfl
  | array [], fuel, rest, _, _, enough => by
      obtain ⟨fuel, rfl⟩ : ∃ less, fuel = less + 1 := ⟨fuel - 1, by
        simp [stringify] at enough; omega⟩
      rfl
  | array (first :: items), fuel, rest, formed, _, enough => by
      simp only [stringify, List.length_cons] at enough
      obtain ⟨fuel, rfl⟩ : ∃ less, fuel = less + 1 := ⟨fuel - 1, by omega⟩
      have read := parseItems_stringifyItems first items fuel rest formed (by omega)
      simp only [stringify, List.cons_append, List.append_assoc]
      rw [parseValue_items formed.1, read]
      rfl
  | object [], fuel, rest, _, _, enough => by
      obtain ⟨fuel, rfl⟩ : ∃ less, fuel = less + 1 := ⟨fuel - 1, by
        simp [stringify] at enough; omega⟩
      rfl
  | object ((name, first) :: members), fuel, rest, formed, _, enough => by
      simp only [stringify, List.length_cons] at enough
      obtain ⟨fuel, rfl⟩ : ∃ less, fuel = less + 1 := ⟨fuel - 1, by omega⟩
      have read := parseMembers_stringifyMembers name first members fuel rest formed (by
        simp only [List.length_append, List.length_cons] at enough ⊢; omega)
      simp only [stringify, List.cons_append, List.append_assoc]
      rw [parseValue]
      change ((parseMembers fuel (quote name ++ 58 :: (stringify first ++
        (stringifyMembers members ++ rest)))).map _) = _
      rw [read]
      rfl
termination_by value => sizeOf value

/-- Written items are read back up to the closing bracket. -/
private theorem parseItems_stringifyItems : ∀ (first : Json) (items : List Json) (fuel : Nat)
    (rest : JsString), AllWellFormed (first :: items) →
    2 * (stringify first ++ stringifyItems items).length ≤ fuel →
    parseItems fuel (stringify first ++ (stringifyItems items ++ rest)) =
      some (first :: items, rest)
  | first, [], fuel, rest, formed, enough => by
      simp only [stringifyItems, List.length_append, List.length_cons, List.length_nil] at enough
      obtain ⟨fuel, rfl⟩ : ∃ less, fuel = less + 1 := ⟨fuel - 1, by omega⟩
      rw [parseItems, parseValue_stringify first fuel _ formed.1 (delimits_items [] rest) (by omega)]
      rfl
  | first, second :: items, fuel, rest, formed, enough => by
      simp only [stringifyItems, List.length_append, List.length_cons] at enough
      obtain ⟨fuel, rfl⟩ : ∃ less, fuel = less + 1 := ⟨fuel - 1, by omega⟩
      rw [parseItems, parseValue_stringify first fuel _ formed.1
        (delimits_items (second :: items) rest) (by omega)]
      simp only [stringifyItems, List.cons_append, List.append_assoc, Option.bind_eq_bind,
        Option.bind_some]
      have comma : ∀ text : JsString, skipSpace (44 :: text) = 44 :: text := fun _ => rfl
      rw [comma]
      have read := parseItems_stringifyItems second items fuel rest formed.2 (by
        simp only [List.length_append]; omega)
      simp only [read, Option.bind_some]
termination_by first items => sizeOf first + sizeOf items + 1

/-- Written members are read back up to the closing brace. -/
private theorem parseMembers_stringifyMembers : ∀ (name : JsString) (first : Json)
    (members : List (JsString × Json)) (fuel : Nat) (rest : JsString),
    MembersWellFormed ((name, first) :: members) →
    2 * (quote name ++ 58 :: (stringify first ++ stringifyMembers members)).length ≤ fuel →
    parseMembers fuel (quote name ++ 58 :: (stringify first ++ (stringifyMembers members ++ rest))) =
      some ((name, first) :: members, rest)
  | name, first, [], fuel, rest, formed, enough => by
      simp only [stringifyMembers, quote, List.length_append, List.length_cons,
        List.length_nil] at enough
      obtain ⟨fuel, rfl⟩ : ∃ less, fuel = less + 1 := ⟨fuel - 1, by omega⟩
      rw [parseMembers]
      change (do
        let (name, rest) ← parseChars (quoteUnits name ++ 58 :: (stringify first ++
          (stringifyMembers [] ++ rest)))
        let (value, rest) ← match skipSpace rest with
          | 58 :: after => parseValue fuel after
          | _ => none
        match skipSpace rest with
        | 44 :: after => do
            let (members, remaining) ← parseMembers fuel after
            some ((name, value) :: members, remaining)
        | 125 :: after => some ([(name, value)], after)
        | _ => none) = _
      rw [parseChars_quoteUnits]
      change (do
        let (value, rest) ← parseValue fuel (stringify first ++ (stringifyMembers [] ++ rest))
        match skipSpace rest with
        | 44 :: after => do
            let (members, remaining) ← parseMembers fuel after
            some ((name, value) :: members, remaining)
        | 125 :: after => some ([(name, value)], after)
        | _ => none) = _
      rw [parseValue_stringify first fuel _ formed.1 (delimits_members [] rest) (by omega)]
      rfl
  | name, first, (next, second) :: members, fuel, rest, formed, enough => by
      simp only [stringifyMembers, quote, List.length_append, List.length_cons] at enough
      obtain ⟨fuel, rfl⟩ : ∃ less, fuel = less + 1 := ⟨fuel - 1, by omega⟩
      have read := parseMembers_stringifyMembers next second members fuel rest formed.2 (by
        simp only [quote, List.length_append, List.length_cons]; omega)
      rw [parseMembers]
      change (do
        let (name, rest) ← parseChars (quoteUnits name ++ 58 :: (stringify first ++
          (stringifyMembers ((next, second) :: members) ++ rest)))
        let (value, rest) ← match skipSpace rest with
          | 58 :: after => parseValue fuel after
          | _ => none
        match skipSpace rest with
        | 44 :: after => do
            let (members, remaining) ← parseMembers fuel after
            some ((name, value) :: members, remaining)
        | 125 :: after => some ([(name, value)], after)
        | _ => none) = _
      rw [parseChars_quoteUnits]
      change (do
        let (value, rest) ← parseValue fuel (stringify first ++
          (stringifyMembers ((next, second) :: members) ++ rest))
        match skipSpace rest with
        | 44 :: after => do
            let (members, remaining) ← parseMembers fuel after
            some ((name, value) :: members, remaining)
        | 125 :: after => some ([(name, value)], after)
        | _ => none) = _
      rw [parseValue_stringify first fuel _ formed.1
        (delimits_members ((next, second) :: members) rest) (by omega)]
      simp only [stringifyMembers, List.cons_append, List.append_assoc, Option.bind_eq_bind,
        Option.bind_some]
      have comma : ∀ text : JsString, skipSpace (44 :: text) = 44 :: text := fun _ => rfl
      rw [comma]
      simp only [read, Option.bind_some]
termination_by _ first members => sizeOf first + sizeOf members + 1

end

/-- **Round trip.** A written value is read back exactly. -/
theorem parse_stringify_of_wellFormed (value : Json) (formed : value.WellFormed) :
    parse (stringify value) = some value := by
  have read := parseValue_stringify value (2 * (stringify value).length) [] formed (.inl rfl)
    (Nat.le_refl _)
  rw [List.append_nil] at read
  simp [parse, read, skipSpace]

/-- A written plain value is read back exactly. -/
theorem parse_stringify (value : Json) (plain : value.Plain) :
    parse (stringify value) = some value :=
  parse_stringify_of_wellFormed value (.of_plain plain)

/-- Two values that are written alike are the same. -/
theorem stringify_injective_of_wellFormed {first second : Json} (formedFirst : first.WellFormed)
    (formedSecond : second.WellFormed) (same : stringify first = stringify second) :
    first = second := by
  have read := parse_stringify_of_wellFormed first formedFirst
  rw [same, parse_stringify_of_wellFormed second formedSecond] at read
  exact (Option.some.inj read).symm

/-- Two plain values that are written alike are the same. -/
theorem stringify_injective {first second : Json} (plainFirst : first.Plain)
    (plainSecond : second.Plain) (same : stringify first = stringify second) :
    first = second :=
  stringify_injective_of_wellFormed (.of_plain plainFirst) (.of_plain plainSecond) same

/-! ### Whole numbers -/

/-- `JSON.stringify` of a whole number. -/
def ofNat (value : Nat) : Json := number (JsString.ofNat value)

theorem isNumber_ofNat (value : Nat) : IsNumber (JsString.ofNat value) := by
  have whole : parseWhole (JsString.ofNat value) = some (JsString.ofNat value, []) := by
    obtain ⟨first, rest, printed, small, zero, -⟩ := JsString.ofNat_eq_map value
    have digits : ∀ unit ∈ (first :: rest).map JsString.digitUnit, isDigit unit = true := by
      intro unit member
      obtain ⟨digit, listed, rfl⟩ := List.mem_map.mp member
      exact JsString.isDigit_digitUnit (small digit listed)
    rw [printed]
    by_cases leading : first = 0
    · obtain ⟨rfl, -⟩ := zero leading
      subst leading
      rfl
    · have nonzero : JsString.digitUnit first ≠ 48 := by
        have bound := small first List.mem_cons_self
        interval_cases first <;> first | exact absurd rfl leading | decide
      have all : ((first :: rest).map JsString.digitUnit).takeWhile isDigit =
          (first :: rest).map JsString.digitUnit := by
        have taken : ((first :: rest).map JsString.digitUnit ++ []).takeWhile isDigit =
            (first :: rest).map JsString.digitUnit ++ [].takeWhile isDigit :=
          List.takeWhile_append_of_pos digits
        rwa [List.append_nil, List.takeWhile_nil, List.append_nil] at taken
      have none : ((first :: rest).map JsString.digitUnit).dropWhile isDigit = [] := by
        have left := List.takeWhile_append_dropWhile (p := isDigit)
          (l := (first :: rest).map JsString.digitUnit)
        rwa [all, List.append_right_eq_self] at left
      rw [parseWhole]
      · unfold parseDigits
        rw [all, none]
        rfl
      · exact fun _ same => nonzero (List.cons.inj same).1
  have signless : ∀ rest, JsString.ofNat value ≠ 45 :: rest := by
    intro rest same
    have minus : (45 : UInt16) ∈ JsString.ofNat value := by
      rw [same]
      exact List.mem_cons_self
    exact absurd (JsString.isDigit_of_mem_ofNat minus) (by decide)
  unfold IsNumber parseNumber
  split
  rename_i sign digits found
  split at found
  · rename_i rest same
    exact absurd same (signless rest)
  · obtain ⟨rfl, rfl⟩ := Prod.mk.inj found
    rw [whole]
    simp [parseFraction, parseExponent]

theorem wellFormed_ofNat (value : Nat) : (ofNat value).WellFormed := isNumber_ofNat value

theorem ofNat_injective {first second : Nat} (same : ofNat first = ofNat second) :
    first = second := by
  have printed := JsString.numeral_ofNat first
  rw [number.inj same, JsString.numeral_ofNat] at printed
  exact (Option.some.inj printed).symm

/-! ### Composed values -/

/-- A value that may be `null`. -/
def orNull {α : Type} (render : α → Json) : Option α → Json
  | some value => render value
  | none => null

section Composed

theorem wellFormed_string (text : JsString) : (string text).WellFormed := trivial

theorem wellFormed_bool (value : Bool) : (bool value).WellFormed := trivial

theorem wellFormed_orNull {α : Type} {render : α → Json}
    (formed : ∀ value, (render value).WellFormed) (value : Option α) :
    (orNull render value).WellFormed := by
  cases value with
  | none => trivial
  | some value => exact formed value

theorem wellFormed_array {items : List Json} (formed : ∀ item ∈ items, item.WellFormed) :
    (array items).WellFormed := by
  change AllWellFormed items
  induction items with
  | nil => trivial
  | cons item rest ih =>
      exact ⟨formed item List.mem_cons_self,
        ih fun other listed => formed other (List.mem_cons_of_mem item listed)⟩

theorem wellFormed_object {members : List (JsString × Json)}
    (formed : ∀ value ∈ members.map Prod.snd, WellFormed value) : (object members).WellFormed := by
  change MembersWellFormed members
  induction members with
  | nil => trivial
  | cons first rest ih =>
      exact ⟨formed first.2 List.mem_cons_self,
        ih fun other listed => formed other (List.mem_cons_of_mem _ listed)⟩

end Composed

end Json
