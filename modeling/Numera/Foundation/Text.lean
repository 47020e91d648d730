import Mathlib.Data.List.Infix
import Mathlib.Tactic.Common

/-! # JavaScript strings

A JavaScript string is a sequence of UTF-16 code units, paired or not. The
strings whose case is changed here are hexadecimal, so only the ASCII letters
have one.
-/

/-- A sequence of UTF-16 code units. -/
abbrev JsString : Type := List UInt16

instance : LawfulBEq JsString := inferInstanceAs (LawfulBEq (List UInt16))

namespace JsString

/-- The string of an ASCII literal. -/
def ascii (text : String) : JsString := text.toList.map fun char => UInt16.ofNat char.toNat

/-- The lower-case form of a code unit. -/
def lowerUnit (unit : UInt16) : UInt16 := if 65 ≤ unit ∧ unit ≤ 90 then unit + 32 else unit

/-- `String.prototype.toLowerCase` on ASCII text. -/
def toLowerCase (text : JsString) : JsString := text.map lowerUnit

theorem lowerUnit_lowerUnit (unit : UInt16) : lowerUnit (lowerUnit unit) = lowerUnit unit := by
  unfold lowerUnit
  split
  · grind
  · rfl

@[simp] theorem toLowerCase_toLowerCase (text : JsString) :
    text.toLowerCase.toLowerCase = text.toLowerCase := by
  simp [toLowerCase, Function.comp_def, lowerUnit_lowerUnit]

/-- The code units of `\d`. -/
def isDigit (unit : UInt16) : Bool := 48 ≤ unit && unit ≤ 57

/-- The code units of `[0-9a-fA-F]`. -/
def isHexDigit (unit : UInt16) : Bool :=
  isDigit unit || (97 ≤ unit && unit ≤ 102) || (65 ≤ unit && unit ≤ 70)

/-- The code units of `\s`. -/
def isSpace (unit : UInt16) : Bool :=
  (9 ≤ unit && unit ≤ 13) || unit == 32 || unit == 160 || unit == 0x1680 ||
    (0x2000 ≤ unit && unit ≤ 0x200A) || unit == 0x2028 || unit == 0x2029 || unit == 0x202F ||
    unit == 0x205F || unit == 0x3000 || unit == 0xFEFF

/-- `String.prototype.trim`. -/
def trim (text : JsString) : JsString :=
  ((text.dropWhile isSpace).reverse.dropWhile isSpace).reverse

/-- The number written by decimal digits. -/
def decimal (digits : JsString) : Nat :=
  digits.foldl (fun number unit => number * 10 + (unit.toNat - 48)) 0

/-- `isAddress(value, { strict: false })`: `0x` and 40 hexadecimal digits of any case. -/
def isAddress : JsString → Bool
  | 48 :: 120 :: digits => digits.length == 40 && digits.all isHexDigit
  | _ => false

/-- The first unit of a surrogate pair. -/
def isHigh (unit : UInt16) : Bool := 0xD800 ≤ unit && unit ≤ 0xDBFF

/-- The second unit of a surrogate pair. -/
def isLow (unit : UInt16) : Bool := 0xDC00 ≤ unit && unit ≤ 0xDFFF

/-- Every surrogate is half of a pair, so that the string has a UTF-8 encoding. -/
def wellFormed : JsString → Bool
  | [] => true
  | unit :: rest =>
      if isHigh unit then
        match rest with
        | second :: after => isLow second && wellFormed after
        | [] => false
      else !isLow unit && wellFormed rest

/-! ## Patterns -/

/-- Redis' glob matching, for patterns without a special character other than `*`. -/
def globMatches : JsString → JsString → Bool
  | [] => List.isEmpty
  | unit :: pattern =>
      if unit = 42 then fun text => text.tails.any (globMatches pattern)
      else fun text =>
        match text with
        | [] => false
        | first :: rest => unit == first && globMatches pattern rest

/-- A pattern that ends in its only `*` matches what begins with the text before it. -/
theorem globMatches_star (literal : JsString) (plain : 42 ∉ literal) (text : JsString) :
    globMatches (literal ++ [42]) text = true ↔ literal <+: text := by
  induction literal generalizing text with
  | nil => simp [globMatches, List.mem_tails]
  | cons unit rest ih =>
      obtain ⟨other, plainRest⟩ := not_or.mp (mt List.mem_cons.mpr plain)
      rw [List.cons_append, globMatches, if_neg (Ne.symm other)]
      cases text with
      | nil => simp
      | cons first later =>
          rw [List.cons_prefix_cons, Bool.and_eq_true, beq_iff_eq, ih plainRest]

end JsString
