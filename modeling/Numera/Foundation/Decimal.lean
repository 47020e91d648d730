import Mathlib.Data.Nat.Digits.Lemmas
import Mathlib.Tactic.Ring
import Numera.Foundation.Text

/-! # Integers as JavaScript text

An integer is printed in plain digits (`JsString.ofInt`) or, by a decimal's
`toString` once it has 22 digits, in exponent notation (`decimalToString`), and
`parseBigInt` reads text back as the global `BigInt` does. Plain digits are read
back as the integer they print; exponent notation is not read at all.
-/

namespace JsString

/-- The code unit of a decimal digit. -/
def digitUnit (digit : Nat) : UInt16 := UInt16.ofNat (48 + digit)

/-- The decimal digits of a number. -/
def ofNat (number : Nat) : JsString :=
  if number = 0 then [48] else (Nat.digits 10 number).reverse.map digitUnit

/-- The minus sign of a negative integer. -/
def sign (value : Int) : JsString := if value < 0 then [45] else []

/-- `bigint.toString()`, and `decimal.toFixed(0)` of an integer: plain digits. -/
def ofInt (value : Int) : JsString := sign value ++ ofNat value.natAbs

/-- Digits in exponent notation: the first digit, the others up to the last that is
not zero after a point, and the exponent. -/
def exponential (digits : JsString) : JsString :=
  match (digits.reverse.dropWhile (· = 48)).reverse with
  | [] => []
  | first :: rest =>
      first :: (if rest = [] then [] else 46 :: rest) ++ [101, 43] ++ ofNat (digits.length - 1)

/-- `decimal.toString()` of an integer: from 10^21 on in exponent notation. -/
def decimalToString (value : Int) : JsString :=
  if value.natAbs < 10 ^ 21 then ofInt value else sign value ++ exponential (ofNat value.natAbs)

/-! ## Reading -/

/-- The value of digits in a base, each read by `digit?`. -/
def numeral (base : Nat) (digit? : UInt16 → Option Nat) (digits : JsString) : Option Nat :=
  if digits = [] then none
  else digits.foldlM (fun number unit => (digit? unit).map (number * base + ·)) 0

def decimalDigit? (unit : UInt16) : Option Nat :=
  if isDigit unit then some (unit.toNat - 48) else none

def hexDigit? (unit : UInt16) : Option Nat :=
  if isDigit unit then some (unit.toNat - 48)
  else if 97 ≤ unit ∧ unit ≤ 102 then some (unit.toNat - 87)
  else if 65 ≤ unit ∧ unit ≤ 70 then some (unit.toNat - 55)
  else none

/-- Digits below a base of at most ten. -/
def lowDigit? (base : Nat) (unit : UInt16) : Option Nat :=
  (decimalDigit? unit).filter (· < base)

/-- `BigInt(text)`: white space around an integer literal is skipped and no text at
all is zero; what is not a literal throws. -/
def parseBigInt (text : JsString) : Option Int :=
  match trim text with
  | [] => some 0
  | 48 :: 120 :: digits | 48 :: 88 :: digits => (numeral 16 hexDigit? digits).map Int.ofNat
  | 48 :: 111 :: digits | 48 :: 79 :: digits => (numeral 8 (lowDigit? 8) digits).map Int.ofNat
  | 48 :: 98 :: digits | 48 :: 66 :: digits => (numeral 2 (lowDigit? 2) digits).map Int.ofNat
  | 45 :: digits => (numeral 10 decimalDigit? digits).map fun number : Nat => -(number : Int)
  | 43 :: digits => (numeral 10 decimalDigit? digits).map Int.ofNat
  | digits => (numeral 10 decimalDigit? digits).map Int.ofNat

/-! ## Plain digits -/

theorem isDigit_digitUnit {digit : Nat} (small : digit < 10) : isDigit (digitUnit digit) := by
  interval_cases digit <;> decide

theorem decimalDigit?_digitUnit {digit : Nat} (small : digit < 10) :
    decimalDigit? (digitUnit digit) = some digit := by
  interval_cases digit <;> decide

/-- A number is printed digit by digit, without a leading zero. -/
theorem ofNat_eq_map (number : Nat) :
    ∃ first rest, ofNat number = (first :: rest).map digitUnit ∧
      (∀ digit ∈ first :: rest, digit < 10) ∧ (first = 0 → rest = [] ∧ number = 0) ∧
      (first :: rest).foldl (fun sum digit => sum * 10 + digit) 0 = number := by
  by_cases zero : number = 0
  · subst zero
    exact ⟨0, [], rfl, by simp, fun _ => ⟨rfl, rfl⟩, rfl⟩
  · have some_ : Nat.digits 10 number ≠ [] := Nat.digits_ne_nil_iff_ne_zero.mpr zero
    obtain ⟨first, rest, reversed⟩ := List.exists_cons_of_ne_nil
      (fun none => some_ (List.reverse_eq_nil_iff.mp none) :
        (Nat.digits 10 number).reverse ≠ [])
    refine ⟨first, rest, by rw [ofNat, if_neg zero, reversed], ?_, ?_, ?_⟩
    · intro digit member
      rw [← reversed, List.mem_reverse] at member
      exact Nat.digits_lt_base (by decide) member
    · rintro rfl
      have last : (Nat.digits 10 number).getLast some_ = 0 := by
        have head := congrArg List.head? reversed
        rw [List.head?_reverse, List.getLast?_eq_some_getLast some_] at head
        exact Option.some.inj head
      exact absurd last (Nat.getLast_digit_ne_zero 10 zero)
    · rw [← reversed, List.foldl_reverse]
      have value := Nat.ofDigits_digits 10 number
      rw [Nat.ofDigits_eq_foldr] at value
      simpa [add_comm, mul_comm] using value

/-- The digits of a number printed by `toString`. -/
theorem ascii_toString (number : Nat) : ascii (toString number) = ofNat number := by
  have printed : ∀ digit < 10, UInt16.ofNat (Nat.digitChar digit).toNat = digitUnit digit := by
    decide
  have digits : ascii (toString number) =
      (Nat.toDigits 10 number).map fun char => UInt16.ofNat char.toNat := by
    rw [ascii, Nat.toString_eq_ofList_toDigits, String.toList_ofList]
  rw [digits]
  clear digits
  induction number using Nat.strongRecOn with
  | ind number ih =>
      rw [Nat.toDigits_eq_if (by decide)]
      by_cases small : number < 10
      · rw [if_pos small, List.map_singleton, printed number small]
        interval_cases number <;> rfl
      · have quotient : number / 10 ≠ 0 := by omega
        have split : Nat.digits 10 number = number % 10 :: Nat.digits 10 (number / 10) :=
          Nat.digits_def' (by decide) (by omega)
        have earlier := ih (number / 10) (by omega)
        rw [ofNat, if_neg quotient] at earlier
        rw [if_neg small, List.map_append, earlier, ofNat, if_neg (by omega), split,
          List.reverse_cons, List.map_append, List.map_singleton, List.map_singleton,
          printed _ (Nat.mod_lt _ (by decide))]

/-- Digits that are printed are read back. -/
private theorem foldlM_map_digitUnit {digits : List Nat} (small : ∀ digit ∈ digits, digit < 10)
    (number : Nat) :
    (digits.map digitUnit).foldlM
        (fun number unit => (decimalDigit? unit).map (number * 10 + ·)) number =
      some (digits.foldl (fun sum digit => sum * 10 + digit) number) := by
  induction digits generalizing number with
  | nil => rfl
  | cons digit rest ih =>
      rw [List.map_cons, List.foldlM_cons, decimalDigit?_digitUnit (small digit List.mem_cons_self)]
      exact ih (fun other member => small other (List.mem_cons_of_mem _ member)) _

theorem numeral_ofNat (number : Nat) : numeral 10 decimalDigit? (ofNat number) = some number := by
  obtain ⟨first, rest, printed, small, -, value⟩ := ofNat_eq_map number
  rw [printed, numeral, if_neg (by simp), foldlM_map_digitUnit small, value]

/-! ## Reading integers back -/

theorem trim_eq_self {text : JsString} (head : ∀ unit ∈ text.head?, isSpace unit = false)
    (last : ∀ unit ∈ text.getLast?, isSpace unit = false) : trim text = text := by
  have kept : ∀ list : JsString, (∀ unit ∈ list.head?, isSpace unit = false) →
      list.dropWhile isSpace = list := by
    intro list starts
    cases list with
    | nil => rfl
    | cons unit rest =>
        rw [List.dropWhile_cons_of_neg]
        simpa using starts unit rfl
  rw [trim, kept text head, kept text.reverse, List.reverse_reverse]
  simpa using last

theorem isSpace_of_isDigit {unit : UInt16} (digit : isDigit unit) : isSpace unit = false := by
  have bounds : 48 ≤ unit.toNat ∧ unit.toNat ≤ 57 := by
    simpa [isDigit, UInt16.le_iff_toNat_le] using digit
  simp only [isSpace, Bool.or_eq_false_iff, Bool.and_eq_false_iff, decide_eq_false_iff_not,
    beq_eq_false_iff_ne, ne_eq, UInt16.le_iff_toNat_le, ← UInt16.toNat_inj, UInt16.reduceToNat]
  omega

/-- Text that starts with a digit and no base prefix is read as decimal digits. -/
private theorem parseBigInt_of_digit {text rest : JsString} {first : UInt16}
    (trimmed : trim text = first :: rest) (digit : isDigit first)
    (noPrefix : first = 48 → ∀ unit ∈ rest.head?, isDigit unit) :
    parseBigInt text = (numeral 10 decimalDigit? (first :: rest)).map Int.ofNat := by
  have apart : ∀ {base : UInt16} {digits : JsString}, isDigit base = false →
      first :: rest ≠ 48 :: base :: digits := by
    intro base digits other same
    obtain ⟨rfl, rfl⟩ := List.cons.inj same
    exact Bool.false_ne_true (other.symm.trans (noPrefix rfl base rfl))
  have unsigned : ∀ {unit : UInt16} {digits : JsString}, isDigit unit = false →
      first :: rest ≠ unit :: digits := by
    intro unit digits other same
    obtain ⟨rfl, -⟩ := List.cons.inj same
    rw [digit] at other
    cases other
  unfold parseBigInt
  rw [trimmed]
  split
  · contradiction
  · exact absurd ‹_› (apart (by decide))
  · exact absurd ‹_› (apart (by decide))
  · exact absurd ‹_› (apart (by decide))
  · exact absurd ‹_› (apart (by decide))
  · exact absurd ‹_› (apart (by decide))
  · exact absurd ‹_› (apart (by decide))
  · exact absurd ‹_› (unsigned (by decide))
  · exact absurd ‹_› (unsigned (by decide))
  · rfl

/-- Text after a minus sign is read as decimal digits. -/
private theorem parseBigInt_of_minus {text digits : JsString} (trimmed : trim text = 45 :: digits) :
    parseBigInt text = (numeral 10 decimalDigit? digits).map fun number : Nat => -(number : Int) := by
  unfold parseBigInt
  rw [trimmed]
  rfl

theorem isDigit_of_mem_ofNat {number : Nat} {unit : UInt16} (member : unit ∈ ofNat number) :
    isDigit unit := by
  obtain ⟨first, rest, printed, small, -⟩ := ofNat_eq_map number
  rw [printed] at member
  obtain ⟨digit, held, rfl⟩ := List.mem_map.mp member
  exact isDigit_digitUnit (small digit held)

theorem ofNat_ne_nil (number : Nat) : ofNat number ≠ [] := by
  obtain ⟨first, rest, printed, -⟩ := ofNat_eq_map number
  simp [printed]

/-- Text that ends in a printed number does not end in white space. -/
private theorem isSpace_getLast (text : JsString) (number : Nat) :
    ∀ unit ∈ (text ++ ofNat number).getLast?, isSpace unit = false := by
  intro unit member
  rw [List.getLast?_append_of_ne_nil _ (ofNat_ne_nil number)] at member
  exact isSpace_of_isDigit (isDigit_of_mem_ofNat (List.mem_of_getLast? member))

/-- Digits are a numeral. -/
theorem numeral_of_digits {digits : JsString} (some_ : digits ≠ [])
    (digit : ∀ unit ∈ digits, isDigit unit) : ∃ number, numeral 10 decimalDigit? digits = some number := by
  have reads : ∀ (number : Nat), ∃ value, digits.foldlM
      (fun number unit => (decimalDigit? unit).map (number * 10 + ·)) number = some value := by
    clear some_
    induction digits with
    | nil => exact fun number => ⟨number, rfl⟩
    | cons unit rest ih =>
        intro number
        rw [List.foldlM_cons, decimalDigit?, if_pos (digit unit List.mem_cons_self)]
        exact ih (fun other member => digit other (List.mem_cons_of_mem _ member)) _
  obtain ⟨value, read⟩ := reads 0
  exact ⟨value, by rw [numeral, if_neg some_, read]⟩

/-- **Digits are read**, with or without leading zeros. -/
theorem parseBigInt_of_digits {text : JsString} (some_ : text ≠ [])
    (digits : ∀ unit ∈ text, isDigit unit) : ∃ number : Nat, parseBigInt text = some number := by
  obtain ⟨first, rest, rfl⟩ := List.exists_cons_of_ne_nil some_
  have space : ∀ unit ∈ first :: rest, isSpace unit = false := fun unit member =>
    isSpace_of_isDigit (digits unit member)
  have trimmed : trim (first :: rest) = first :: rest :=
    trim_eq_self (fun unit member => space unit (List.mem_of_head? member))
      fun unit member => space unit (List.mem_of_getLast? member)
  obtain ⟨number, read⟩ := numeral_of_digits some_ digits
  refine ⟨number, ?_⟩
  rw [parseBigInt_of_digit trimmed (digits first List.mem_cons_self) fun _ unit member =>
    digits unit (List.mem_cons_of_mem _ (List.mem_of_head? member)), read]
  rfl

/-- **Plain digits survive.** -/
theorem parseBigInt_ofInt (value : Int) : parseBigInt (ofInt value) = some value := by
  have trimmed : trim (ofInt value) = ofInt value := by
    refine trim_eq_self ?_ (isSpace_getLast _ _)
    intro unit member
    unfold ofInt sign at member
    split at member
    · cases member
      decide
    · exact isSpace_of_isDigit (isDigit_of_mem_ofNat (List.mem_of_head? member))
  by_cases negative : value < 0
  · rw [ofInt, sign, if_pos negative, List.singleton_append] at trimmed ⊢
    rw [parseBigInt_of_minus trimmed, numeral_ofNat]
    simp only [Option.map_some, Option.some.injEq]
    omega
  · rw [ofInt, sign, if_neg negative, List.nil_append] at trimmed ⊢
    obtain ⟨first, rest, printed, small, zero, -⟩ := ofNat_eq_map value.natAbs
    have noPrefix : digitUnit first = 48 → ∀ unit ∈ (rest.map digitUnit).head?, isDigit unit := by
      intro same unit member
      have isZero : first = 0 := by
        have read := decimalDigit?_digitUnit (small first List.mem_cons_self)
        rw [same] at read
        exact (Option.some.inj read).symm
      rw [(zero isZero).1] at member
      cases member
    have read := parseBigInt_of_digit (trimmed.trans printed)
      (isDigit_digitUnit (small first List.mem_cons_self)) noPrefix
    rw [read, ← List.map_cons, ← printed, numeral_ofNat]
    simp only [Option.map_some, Option.some.injEq]
    exact Int.natAbs_of_nonneg (by omega)

/-! ## Exponent notation -/

/-- A unit that is no digit spoils a numeral. -/
private theorem numeral_eq_none {digits : JsString} {unit : UInt16} (member : unit ∈ digits)
    (bad : isDigit unit = false) : numeral 10 decimalDigit? digits = none := by
  have spoiled : ∀ number, digits.foldlM
      (fun number unit => (decimalDigit? unit).map (number * 10 + ·)) number = none := by
    induction digits with
    | nil => cases member
    | cons first rest ih =>
        intro number
        rw [List.foldlM_cons]
        rcases List.mem_cons.mp member with rfl | later
        · simp [decimalDigit?, bad]
        · cases (decimalDigit? first).map (number * 10 + ·) with
          | none => rfl
          | some next => exact ih later next
  rw [numeral, if_neg (List.ne_nil_of_mem member), spoiled]

/-- Exponent notation starts with a digit that is not zero, has an `e`, and ends with
the exponent. -/
theorem exponential_ofNat {number : Nat} (positive : number ≠ 0) :
    ∃ first middle, exponential (ofNat number) =
        first :: middle ++ [101, 43] ++ ofNat ((ofNat number).length - 1) ∧
      isDigit first ∧ first ≠ 48 := by
  obtain ⟨first, rest, printed, small, zero, -⟩ := ofNat_eq_map number
  have leading : digitUnit first ≠ 48 := by
    intro same
    have read := decimalDigit?_digitUnit (small first List.mem_cons_self)
    rw [same] at read
    exact positive (zero (Option.some.inj read).symm).2
  have kept : ∃ others, ((ofNat number).reverse.dropWhile (· = 48)).reverse =
      digitUnit first :: others := by
    rw [printed, List.map_cons, List.reverse_cons, List.dropWhile_append]
    split
    · exact ⟨[], by simp [leading]⟩
    · exact ⟨_, by rw [List.reverse_append]; rfl⟩
  obtain ⟨others, significant⟩ := kept
  refine ⟨digitUnit first, if others = [] then [] else 46 :: others, ?_,
    isDigit_digitUnit (small first List.mem_cons_self), leading⟩
  rw [exponential, significant]

/-- **Exponent notation is not read.** -/
theorem parseBigInt_exponential {value : Int} (positive : value ≠ 0) :
    parseBigInt (sign value ++ exponential (ofNat value.natAbs)) = none := by
  obtain ⟨first, middle, printed, digit, notZero⟩ :=
    exponential_ofNat (Int.natAbs_ne_zero.mpr positive)
  have hasE : (101 : UInt16) ∈ exponential (ofNat value.natAbs) := by
    rw [printed]
    simp
  have trimmed : trim (sign value ++ exponential (ofNat value.natAbs)) =
      sign value ++ exponential (ofNat value.natAbs) := by
    rw [printed]
    refine trim_eq_self ?_ ?_
    · intro unit member
      unfold sign at member
      split at member
      · cases member
        decide
      · cases member
        exact isSpace_of_isDigit digit
    · rw [← List.append_assoc]
      exact isSpace_getLast _ _
  by_cases negative : value < 0
  · rw [sign, if_pos negative, List.singleton_append] at trimmed ⊢
    rw [parseBigInt_of_minus trimmed, numeral_eq_none hasE (by decide)]
    rfl
  · rw [sign, if_neg negative, List.nil_append] at trimmed ⊢
    have start : exponential (ofNat value.natAbs) =
        first :: (middle ++ [101, 43] ++ ofNat ((ofNat value.natAbs).length - 1)) := by
      rw [printed]
      simp
    rw [parseBigInt_of_digit (trimmed.trans start) digit fun same => absurd same notZero, ← start,
      numeral_eq_none hasE (by decide)]
    rfl

/-- **The two notations.** A decimal's text is read back as the decimal below 10^21,
and not at all from there on. -/
theorem parseBigInt_decimalToString (value : Int) :
    parseBigInt (decimalToString value) = if value.natAbs < 10 ^ 21 then some value else none := by
  unfold decimalToString
  split
  · exact parseBigInt_ofInt value
  · rename_i large
    refine parseBigInt_exponential ?_
    rintro rfl
    exact large (by decide)

/-- A decimal's text is its plain digits below 10^21 and only there. -/
theorem decimalToString_eq_ofInt (value : Int) :
    decimalToString value = ofInt value ↔ value.natAbs < 10 ^ 21 := by
  constructor
  · intro same
    by_contra large
    have unread := parseBigInt_decimalToString value
    rw [if_neg large, same, parseBigInt_ofInt] at unread
    cases unread
  · intro small
    rw [decimalToString, if_pos small]

end JsString
