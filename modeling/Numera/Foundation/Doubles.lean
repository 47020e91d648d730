import Mathlib.Data.Int.Log
import Mathlib.Data.Rat.Floor
import Mathlib.Tactic.Linarith

/-! # Double-precision numbers

A rational is rounded to the nearest number of at most 53 binary digits, and of two that are
equally near to the even one. Exponents have no bounds here, so this is the rounding of doubles
wherever nothing overflows or underflows. No double is nearer than the one that is rounded to
(`round_nearest`), and so doubles stay as they are and bounds that are doubles are kept.
-/

namespace Double

/-- A number of at most 53 binary digits. -/
def Exact (x : ℚ) : Prop := ∃ digits exponent : ℤ, |digits| ≤ 2 ^ 53 ∧ x = digits * 2 ^ exponent

/-- The nearest integer, of two the even one. -/
def roundEven (x : ℚ) : ℤ :=
  if x - ⌊x⌋ < 1 / 2 then ⌊x⌋
  else if 1 / 2 < x - ⌊x⌋ then ⌊x⌋ + 1
  else if ⌊x⌋ % 2 = 0 then ⌊x⌋ else ⌊x⌋ + 1

/-- What the last of the 53 digits of a positive number counts. -/
def lastDigit (x : ℚ) : ℚ := 2 ^ (Int.log 2 x - 52)

def roundPositive (x : ℚ) : ℚ := roundEven (x / lastDigit x) * lastDigit x

/-- The nearest double. -/
def round (x : ℚ) : ℚ := if x < 0 then -roundPositive (-x) else roundPositive x

/-! ## The nearest integer -/

theorem roundEven_nearest (x : ℚ) (other : ℤ) : |(roundEven x : ℚ) - x| ≤ |other - x| := by
  have low : (⌊x⌋ : ℚ) ≤ x := Int.floor_le x
  have high : x < ⌊x⌋ + 1 := Int.lt_floor_add_one x
  have near : |(roundEven x : ℚ) - x| ≤ x - ⌊x⌋ ∧ |(roundEven x : ℚ) - x| ≤ ⌊x⌋ + 1 - x := by
    unfold roundEven
    split_ifs with below above even
    · rw [abs_le, abs_le]
      exact ⟨⟨by linarith, by linarith⟩, by linarith, by linarith⟩
    · push_cast
      rw [abs_le, abs_le]
      exact ⟨⟨by linarith, by linarith⟩, by linarith, by linarith⟩
    · rw [abs_le, abs_le]
      exact ⟨⟨by linarith, by linarith⟩, by linarith, by linarith⟩
    · push_cast
      rw [abs_le, abs_le]
      exact ⟨⟨by linarith, by linarith⟩, by linarith, by linarith⟩
  rcases le_or_gt other ⌊x⌋ with under | above
  · have far : (other : ℚ) ≤ ⌊x⌋ := Int.cast_le.mpr under
    calc |(roundEven x : ℚ) - x| ≤ x - ⌊x⌋ := near.1
      _ ≤ -(other - x) := by linarith
      _ ≤ |other - x| := neg_le_abs _
  · have far : (⌊x⌋ : ℚ) + 1 ≤ other := by exact_mod_cast above
    calc |(roundEven x : ℚ) - x| ≤ ⌊x⌋ + 1 - x := near.2
      _ ≤ other - x := by linarith
      _ ≤ |other - x| := le_abs_self _

theorem roundEven_le {x : ℚ} {bound : ℤ} (le : x ≤ bound) : roundEven x ≤ bound := by
  have near := roundEven_nearest x bound
  rw [abs_of_nonneg (sub_nonneg.mpr le)] at near
  have upper := (abs_le.mp near).2
  exact_mod_cast (by linarith : (roundEven x : ℚ) ≤ bound)

theorem le_roundEven {x : ℚ} {bound : ℤ} (le : bound ≤ x) : bound ≤ roundEven x := by
  have near := roundEven_nearest x bound
  rw [abs_sub_comm (bound : ℚ), abs_of_nonneg (sub_nonneg.mpr le)] at near
  have lower := (abs_le.mp near).1
  exact_mod_cast (by linarith : (bound : ℚ) ≤ roundEven x)

/-- Halfway from an odd integer to the next the next one is taken. -/
theorem roundEven_of_odd {x : ℚ} (odd : ⌊x⌋ % 2 = 1) (half : 1 / 2 ≤ x - ⌊x⌋) :
    roundEven x = ⌊x⌋ + 1 := by
  unfold roundEven
  rw [if_neg (not_lt.mpr half), if_neg (by omega : ¬ ⌊x⌋ % 2 = 0), ite_self]

/-! ## The nearest double -/

section Positive

variable {x : ℚ} (positive : 0 < x)

theorem lastDigit_pos (x : ℚ) : 0 < lastDigit x := zpow_pos two_pos _

/-- A power of two in units of the last digit. -/
theorem zpow_log_eq (x : ℚ) : (2 : ℚ) ^ Int.log 2 x = ((2 ^ 52 : ℤ) : ℚ) * lastDigit x := by
  rw [lastDigit, zpow_sub₀ two_ne_zero]
  norm_num
  ring

include positive in
/-- A number has 53 digits up to its last. -/
theorem scaled_bounds : ((2 ^ 52 : ℤ) : ℚ) ≤ x / lastDigit x ∧ x / lastDigit x < ((2 ^ 53 : ℤ) : ℚ) := by
  have unit := lastDigit_pos x
  have low : (2 : ℚ) ^ Int.log 2 x ≤ x := Int.zpow_log_le_self (by decide) positive
  have high : x < (2 : ℚ) ^ (Int.log 2 x + 1) := Int.lt_zpow_succ_log_self (by decide) x
  rw [zpow_add₀ two_ne_zero, zpow_log_eq] at high
  rw [zpow_log_eq] at low
  constructor
  · exact (le_div_iff₀ unit).mpr low
  · refine (div_lt_iff₀ unit).mpr (high.trans_eq ?_)
    push_cast
    ring

include positive in
theorem exact_roundPositive : Exact (roundPositive x) := by
  obtain ⟨low, high⟩ := scaled_bounds positive
  refine ⟨roundEven (x / lastDigit x), Int.log 2 x - 52, ?_, rfl⟩
  have lower := le_roundEven low
  have upper := roundEven_le high.le
  rw [abs_of_nonneg (by omega)]
  exact upper

/-- A double is whole in units of the last digit, or lies below the power of two. -/
theorem whole_or_below {other : ℚ} (exact : Exact other) (x : ℚ) :
    (∃ whole : ℤ, other = whole * lastDigit x) ∨ other ≤ 2 ^ Int.log 2 x := by
  obtain ⟨digits, exponent, short, rfl⟩ := exact
  rcases le_or_gt (Int.log 2 x - 52) exponent with coarse | fine
  · refine .inl ⟨digits * 2 ^ (exponent - (Int.log 2 x - 52)).toNat, ?_⟩
    have split : exponent = (exponent - (Int.log 2 x - 52)).toNat + (Int.log 2 x - 52) := by omega
    rw [lastDigit]
    push_cast
    rw [mul_assoc, ← zpow_natCast, ← zpow_add₀ two_ne_zero, ← split]
  · refine .inr ?_
    have few : (digits : ℚ) ≤ 2 ^ (53 : ℤ) := by
      exact_mod_cast (le_abs_self digits).trans short
    calc (digits : ℚ) * 2 ^ exponent ≤ 2 ^ (53 : ℤ) * 2 ^ exponent :=
          mul_le_mul_of_nonneg_right few (zpow_nonneg two_pos.le _)
      _ = 2 ^ (53 + exponent) := (zpow_add₀ two_ne_zero _ _).symm
      _ ≤ 2 ^ Int.log 2 x := zpow_le_zpow_right₀ one_le_two (by omega)

/-- Among the numbers that are whole in units of the last digit none is nearer. -/
theorem roundPositive_nearest_whole (x : ℚ) (whole : ℤ) :
    |roundPositive x - x| ≤ |whole * lastDigit x - x| := by
  have unit := lastDigit_pos x
  have scaled (value : ℚ) :
      |value * lastDigit x - x| = |value - x / lastDigit x| * lastDigit x := by
    rw [← abs_of_pos unit, ← abs_mul, abs_of_pos unit, sub_mul, div_mul_cancel₀ _ unit.ne']
  rw [roundPositive, scaled, scaled]
  exact mul_le_mul_of_nonneg_right (roundEven_nearest _ whole) unit.le

include positive in
theorem roundPositive_nearest {other : ℚ} (exact : Exact other) :
    |roundPositive x - x| ≤ |other - x| := by
  rcases whole_or_below exact x with ⟨whole, rfl⟩ | below
  · exact roundPositive_nearest_whole x whole
  · have low : (2 : ℚ) ^ Int.log 2 x ≤ x := Int.zpow_log_le_self (by decide) positive
    have near := roundPositive_nearest_whole x (2 ^ 52)
    rw [← zpow_log_eq, abs_sub_comm _ x, abs_sub_comm _ x,
      abs_of_nonneg (sub_nonneg.mpr low)] at near
    calc |roundPositive x - x| = |x - roundPositive x| := abs_sub_comm _ _
      _ ≤ x - 2 ^ Int.log 2 x := near
      _ ≤ -(other - x) := by linarith
      _ ≤ |other - x| := neg_le_abs _

end Positive

theorem Exact.neg {x : ℚ} (exact : Exact x) : Exact (-x) := by
  obtain ⟨digits, exponent, short, rfl⟩ := exact
  exact ⟨-digits, exponent, by rwa [abs_neg], by push_cast; ring⟩

theorem exact_intCast {value : ℤ} (small : |value| ≤ 2 ^ 53) : Exact value :=
  ⟨value, 0, small, by simp⟩

@[simp] theorem round_zero : round 0 = 0 := by
  have nothing : roundEven 0 = 0 := by decide +kernel
  simp [round, roundPositive, nothing]

/-- **No double is nearer.** -/
theorem round_nearest (x : ℚ) {other : ℚ} (exact : Exact other) : |round x - x| ≤ |other - x| := by
  rcases lt_trichotomy x 0 with negative | rfl | positive
  · have near := roundPositive_nearest (neg_pos.mpr negative) exact.neg
    rw [round, if_pos negative]
    rw [← abs_neg, ← abs_neg (other - x)]
    convert near using 2 <;> ring
  · rw [round_zero, sub_self, abs_zero]
    exact abs_nonneg _
  · rw [round, if_neg (not_lt.mpr positive.le)]
    exact roundPositive_nearest positive exact

theorem exact_round (x : ℚ) : Exact (round x) := by
  rcases lt_trichotomy x 0 with negative | rfl | positive
  · rw [round, if_pos negative]
    exact (exact_roundPositive (neg_pos.mpr negative)).neg
  · rw [round_zero]
    exact ⟨0, 0, by decide, by simp⟩
  · rw [round, if_neg (not_lt.mpr positive.le)]
    exact exact_roundPositive positive

/-- A double is rounded to itself. -/
theorem round_eq_self {x : ℚ} (exact : Exact x) : round x = x := by
  have near := round_nearest x exact
  rw [sub_self, abs_zero, abs_nonpos_iff, sub_eq_zero] at near
  exact near

theorem le_round {x bound : ℚ} (exact : Exact bound) (le : bound ≤ x) : bound ≤ round x := by
  have near := round_nearest x exact
  rw [abs_sub_comm bound, abs_of_nonneg (sub_nonneg.mpr le)] at near
  linarith [(abs_le.mp near).1]

theorem round_le {x bound : ℚ} (exact : Exact bound) (le : x ≤ bound) : round x ≤ bound := by
  have near := round_nearest x exact
  rw [abs_of_nonneg (sub_nonneg.mpr le)] at near
  linarith [(abs_le.mp near).2]

theorem round_natCast {value : ℕ} (small : value ≤ 2 ^ 53) : round value = value := by
  refine round_eq_self (@exact_intCast (value : ℤ) ?_)
  rw [abs_of_nonneg (Int.natCast_nonneg value)]
  exact_mod_cast small

/-- What is rounded between two powers of two. -/
theorem round_eq_of_bounds {x : ℚ} {exponent : ℤ} (low : 2 ^ exponent ≤ x)
    (high : x < 2 ^ (exponent + 1)) :
    round x = roundEven (x / 2 ^ (exponent - 52)) * 2 ^ (exponent - 52) := by
  have positive : 0 < x := lt_of_lt_of_le (zpow_pos two_pos _) low
  have place : Int.log 2 x = exponent := by
    have under : exponent ≤ Int.log 2 x :=
      (Int.zpow_le_iff_le_log (by decide) positive).mp (by exact_mod_cast low)
    have above : Int.log 2 x < exponent + 1 :=
      (Int.lt_zpow_iff_log_lt (by decide) positive).mp (by exact_mod_cast high)
    omega
  rw [round, if_neg (not_lt.mpr positive.le), roundPositive, lastDigit, place]

end Double
