/-
# The order of numbers

`<` on finite numbers is the order of their values, and two numbers of one value
are strictly equal: a decimal in lowest form is determined by its value
(`Decimal.value_injective`).
-/

import NewtonDB.Js.Number
import Mathlib.Data.Rat.Cast.Order
import Mathlib.Algebra.Order.Field.Power

namespace NewtonDB

namespace Decimal

/-- The value of a decimal. -/
def value (d : Decimal) : ℚ := d.digits * 10 ^ d.exponent

/-- A decimal has a digit that counts. -/
theorem digits_pos (d : Decimal) : 0 < d.digits :=
  Nat.pos_of_ne_zero fun h => d.lowest (by rw [h])

/-- A decimal stands for a positive number. -/
theorem value_pos (d : Decimal) : 0 < d.value :=
  mul_pos (Nat.cast_pos.2 d.digits_pos) (zpow_pos (by norm_num) _)

/-- The value with the power of ten shifted by `m`. -/
theorem value_shift (d : Decimal) {m : ℤ} (h : m ≤ d.exponent) :
    d.value = ((d.digits * 10 ^ (d.exponent - m).toNat : ℕ) : ℚ) * 10 ^ m := by
  have hexp : d.exponent = ((d.exponent - m).toNat : ℤ) + m := by omega
  unfold value
  conv_lhs => rw [hexp, zpow_add₀ (by norm_num), zpow_natCast]
  push_cast
  ring

/-- **The comparison of decimals is that of their values.**  The exponents are compared first,
and the digits where they are the same. -/
theorem lt_iff (a b : Decimal) : a.lt b ↔ a.value < b.value := by
  have hpos : (0 : ℚ) < 10 ^ min a.exponent b.exponent := zpow_pos (by norm_num) _
  rw [a.value_shift (min_le_left ..), b.value_shift (min_le_right a.exponent b.exponent),
    mul_lt_mul_iff_of_pos_right hpos, Nat.cast_lt, lt, decide_eq_true_eq]

/-- **A decimal in lowest form is determined by its value.**  Neither ends in a zero, so that
the exponents are the same, and then the digits. -/
theorem value_injective {a b : Decimal} (h : a.value = b.value) : a = b := by
  -- the larger exponent would make the digits of the other a multiple of ten
  have key : ∀ {a b : Decimal}, a.value = b.value → a.exponent ≤ b.exponent →
      a.exponent = b.exponent := by
    intro a b h hle
    by_contra hne
    have hpos : (0 : ℚ) < 10 ^ a.exponent := zpow_pos (by norm_num) _
    rw [b.value_shift hle, value] at h
    have hnat : a.digits = b.digits * 10 ^ (b.exponent - a.exponent).toNat :=
      Nat.cast_injective (R := ℚ) (mul_right_cancel₀ hpos.ne' h)
    obtain ⟨k, hk⟩ : ∃ k, (b.exponent - a.exponent).toNat = k + 1 :=
      ⟨(b.exponent - a.exponent).toNat - 1, by omega⟩
    apply a.lowest
    rw [hnat, hk, pow_succ, ← mul_assoc, Nat.mul_mod_left]
  have hexp : a.exponent = b.exponent := by
    rcases le_total a.exponent b.exponent with hle | hle
    · exact key h hle
    · exact (key h.symm hle).symm
  have hpos : (0 : ℚ) < 10 ^ b.exponent := zpow_pos (by norm_num) _
  rw [value, value, hexp] at h
  exact Decimal.ext (Nat.cast_injective (R := ℚ) (mul_right_cancel₀ hpos.ne' h)) hexp

end Decimal

namespace FiniteNumber

/-- The value of a number. -/
def value : FiniteNumber → ℚ
  | .zero _ => 0
  | .nonzero false d => d.value
  | .nonzero true d => -d.value

/-- **`<` is the order of the values.**  Signs decide first, and among negative numbers the
order is turned round. -/
theorem lt_iff (x y : FiniteNumber) : x.lt y ↔ x.value < y.value := by
  match x, y with
  | .zero _, .zero _ => simp [lt, value]
  | .zero _, .nonzero false d => simpa [lt, value] using d.value_pos
  | .zero _, .nonzero true d => simpa [lt, value] using d.value_pos.le
  | .nonzero false d, .zero _ => simpa [lt, value] using d.value_pos.le
  | .nonzero true d, .zero _ => simpa [lt, value] using d.value_pos
  | .nonzero true a, .nonzero false b =>
      have ha := a.value_pos
      have hb := b.value_pos
      simp only [lt, value, true_iff]
      linarith
  | .nonzero false a, .nonzero true b =>
      have ha := a.value_pos
      have hb := b.value_pos
      simp only [lt, value, Bool.false_eq_true, false_iff, not_lt]
      linarith
  | .nonzero false a, .nonzero false b => exact a.lt_iff b
  | .nonzero true a, .nonzero true b => simpa [lt, value] using b.lt_iff a

/-- **Strictly equal numbers are those of one value.**  Both zeros have the value zero.  Two
numbers in lowest form have the same value only when their digits and exponents agree. -/
theorem same_iff (x y : FiniteNumber) : x.same y ↔ x.value = y.value := by
  match x, y with
  | .zero _, .zero _ => simp [same, value]
  | .zero _, .nonzero false d => simpa [same, value] using d.value_pos.ne
  | .zero _, .nonzero true d => simpa [same, value] using d.value_pos.ne'
  | .nonzero false d, .zero _ => simpa [same, value] using d.value_pos.ne'
  | .nonzero true d, .zero _ => simpa [same, value] using d.value_pos.ne'
  | .nonzero true a, .nonzero false b =>
      have ha := a.value_pos
      have hb := b.value_pos
      simp only [same, value, Bool.and_eq_true, beq_iff_eq, Bool.true_eq_false, false_and,
        false_iff]
      linarith
  | .nonzero false a, .nonzero true b =>
      have ha := a.value_pos
      have hb := b.value_pos
      simp only [same, value, Bool.and_eq_true, beq_iff_eq, Bool.false_eq_true, false_and,
        false_iff]
      linarith
  | .nonzero false a, .nonzero false b =>
      simpa [same, value] using ⟨congrArg _, fun h => Decimal.value_injective h⟩
  | .nonzero true a, .nonzero true b =>
      simpa [same, value] using ⟨congrArg _, fun h => Decimal.value_injective h⟩

end FiniteNumber

end NewtonDB
