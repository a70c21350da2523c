import Mathlib.Data.Int.Log
import Mathlib.Data.Rat.Floor
import Mathlib.Tactic.FieldSimp
import Mathlib.Tactic.Linarith
import Mathlib.Tactic.NormNum
import Mathlib.Tactic.Positivity
import Mathlib.Tactic.Ring
import TableFilter.Number.Binary64

/-!
# Rounding to floating-point numbers

What `Binary64.ofRatio` makes of a quotient, as rational numbers.

* `Binary64.magnitude` is the rational number that a finite value is, without its sign, and
  `Binary64.IsProper` the range of mantissas and exponents.
* A quotient is rounded by at most half a unit of its last place (`ofRatio_spec`), which is
  `2 ^ -53` of the quotient itself unless that is tiny (`magnitude_ofRatio_le`).
* The result is finite below half a unit past the greatest finite value (`isFinite_ofRatio`), and an
  infinity from `2 ^ 1024` on (`ofRatio_of_le`).
-/

namespace TableFilter.Number

theorem log_eq_of_le_of_lt {b : ℕ} (hb : 1 < b) {r : ℚ} {k : ℤ} (hlow : (b : ℚ) ^ k ≤ r)
    (hhigh : r < (b : ℚ) ^ (k + 1)) : Int.log b r = k := by
  have hr : 0 < r := lt_of_lt_of_le (zpow_pos (by positivity) k) hlow
  have h₁ := (Int.zpow_le_iff_le_log hb hr).1 hlow
  have h₂ := (Int.lt_zpow_iff_log_lt hb hr).1 hhigh
  omega

namespace Binary64

/-- The rational number that a finite value is, without its sign. -/
def magnitude : Binary64 → ℚ
  | .finite _ m e => m * 2 ^ e
  | _ => 0

/-- Whether the mantissa and the exponent of a finite value are in range. -/
def IsProper : Binary64 → Prop
  | .finite _ m e => m < 2 ^ 53 ∧ -1074 ≤ e ∧ e ≤ 971
  | _ => True

variable {num den : ℕ}

/-- The positive quotient that a mantissa and an exponent are. -/
theorem ratio_spec (m : ℕ) (e : ℤ) : 0 < (ratio m e).2 ∧
    ((ratio m e).1 : ℚ) / (ratio m e).2 = m * 2 ^ e := by
  unfold ratio
  split
  · next he =>
    obtain ⟨n, rfl⟩ := Int.eq_ofNat_of_zero_le he
    refine ⟨one_pos, ?_⟩
    simp
  · next he =>
    obtain ⟨n, rfl⟩ : ∃ n : ℕ, e = -n := ⟨(-e).toNat, by omega⟩
    refine ⟨Nat.pow_pos two_pos, ?_⟩
    rw [zpow_neg, zpow_natCast, ← div_eq_mul_inv]
    simp

/-! ### Nearest whole numbers -/

theorem roundDiv_cases (tie : Tie) (num den : ℕ) :
    roundDiv tie num den = num / den ∧ 2 * (num % den) ≤ den ∨
      roundDiv tie num den = num / den + 1 ∧ den ≤ 2 * (num % den) := by
  unfold roundDiv
  dsimp only
  split
  · next h => exact .inl ⟨rfl, h.le⟩
  next hlow =>
    split
    · next h => exact .inr ⟨rfl, h.le⟩
    next hhigh =>
      have htie : 2 * (num % den) = den := by omega
      cases tie with
      | even =>
        dsimp only
        split
        · exact .inl ⟨rfl, htie.le⟩
        · exact .inr ⟨rfl, htie.ge⟩
      | up => exact .inr ⟨rfl, htie.ge⟩

/-- The nearest whole number is at most one half away. -/
theorem abs_roundDiv_sub_le (tie : Tie) (num : ℕ) (h : 0 < den) :
    |(roundDiv tie num den : ℚ) - num / den| ≤ 1 / 2 := by
  have hden : (0 : ℚ) < den := by exact_mod_cast h
  have hsplit : (num : ℚ) / den = (num / den : ℕ) + (num % den : ℕ) / den := by
    rw [div_eq_iff hden.ne', add_mul, div_mul_cancel₀ _ hden.ne']
    exact_mod_cast (Nat.div_add_mod' num den).symm
  have hmod : ((num % den : ℕ) : ℚ) / den ≤ 1 := by
    rw [div_le_one hden]
    exact_mod_cast (Nat.mod_lt num h).le
  have hnonneg : (0 : ℚ) ≤ (num % den : ℕ) / den := by positivity
  rw [hsplit, abs_le]
  rcases roundDiv_cases tie num den with ⟨heq, hr⟩ | ⟨heq, hr⟩
  · have hhalf : ((num % den : ℕ) : ℚ) / den ≤ 1 / 2 := by
      rw [div_le_div_iff₀ hden two_pos]
      exact_mod_cast (by omega : num % den * 2 ≤ 1 * den)
    rw [heq]
    constructor <;> linarith
  · have hhalf : (1 : ℚ) / 2 ≤ ((num % den : ℕ) : ℚ) / den := by
      rw [div_le_div_iff₀ two_pos hden]
      exact_mod_cast (by omega : 1 * den ≤ num % den * 2)
    rw [heq, Nat.cast_add, Nat.cast_one]
    constructor <;> linarith

theorem abs_roundScaled_sub_le (num : ℕ) (h : 0 < den) (e : ℤ) :
    |(roundScaled num den e : ℚ) - num / den / 2 ^ e| ≤ 1 / 2 := by
  unfold roundScaled
  split
  · next he =>
    obtain ⟨n, rfl⟩ := Int.eq_ofNat_of_zero_le he
    have hscaled : 0 < den * 2 ^ n := by positivity
    have hround := abs_roundDiv_sub_le .even num hscaled
    rw [Nat.cast_mul, ← div_div] at hround
    simpa using hround
  · next he =>
    obtain ⟨n, rfl⟩ : ∃ n : ℕ, e = -n := ⟨(-e).toNat, by omega⟩
    have hround := abs_roundDiv_sub_le .even (num * 2 ^ n) h
    have hscale : (num : ℚ) / den / 2 ^ (-(n : ℤ)) = (num * 2 ^ n : ℕ) / den := by
      rw [zpow_neg, zpow_natCast, div_inv_eq_mul]
      push_cast
      ring
    rw [hscale]
    simpa using hround

/-! ### The last place -/

theorem reaches_eq_true_iff (hden : 0 < den) (k : ℤ) :
    reaches num den k = true ↔ (2 : ℚ) ^ k ≤ num / den := by
  have hd : (0 : ℚ) < den := by exact_mod_cast hden
  unfold reaches
  split
  · next hk =>
    obtain ⟨n, rfl⟩ := Int.eq_ofNat_of_zero_le hk
    rw [decide_eq_true_iff, le_div_iff₀ hd, zpow_natCast, mul_comm]
    exact_mod_cast Iff.rfl
  · next hk =>
    obtain ⟨n, rfl⟩ : ∃ n : ℕ, k = -n := ⟨(-k).toNat, by omega⟩
    rw [decide_eq_true_iff, zpow_neg, zpow_natCast, ← one_div, div_le_div_iff₀ (by positivity) hd]
    simp only [neg_neg, Int.toNat_natCast, one_mul]
    exact_mod_cast Iff.rfl

/-- A quotient lies within one place of what the lengths of its parts say. -/
theorem zpow_le_div_lt (hnum : 0 < num) (hden : 0 < den) :
    (2 : ℚ) ^ ((num.log2 : ℤ) - den.log2 - 1) ≤ num / den ∧
      (num : ℚ) / den < 2 ^ ((num.log2 : ℤ) - den.log2 + 1) := by
  have hd : (0 : ℚ) < den := by exact_mod_cast hden
  have hlow : (2 : ℚ) ^ (num.log2 : ℤ) ≤ num := by exact_mod_cast Nat.log2_self_le hnum.ne'
  have hhigh : (num : ℚ) < 2 ^ ((num.log2 : ℤ) + 1) := by exact_mod_cast Nat.lt_log2_self
  have hlow' : (2 : ℚ) ^ (den.log2 : ℤ) ≤ den := by exact_mod_cast Nat.log2_self_le hden.ne'
  have hhigh' : (den : ℚ) < 2 ^ ((den.log2 : ℤ) + 1) := by exact_mod_cast Nat.lt_log2_self
  constructor
  · rw [sub_sub, zpow_sub₀ two_ne_zero]
    exact div_le_div₀ (by positivity) hlow hd hhigh'.le
  · rw [sub_add_eq_add_sub, zpow_sub₀ two_ne_zero]
    exact div_lt_div₀ hhigh hlow' (zpow_nonneg two_pos.le _) (zpow_pos two_pos _)

/-- The exponent of the last place, from the logarithm of the quotient. -/
theorem unitExponent_eq (hnum : 0 < num) (hden : 0 < den) :
    unitExponent num den = max (Int.log 2 ((num : ℚ) / den) - 52) (-1074) := by
  obtain ⟨hlow, hhigh⟩ := zpow_le_div_lt hnum hden
  unfold unitExponent
  dsimp only
  split
  · next h =>
    rw [reaches_eq_true_iff hden] at h
    rw [log_eq_of_le_of_lt one_lt_two h hhigh]
  · next h =>
    rw [reaches_eq_true_iff hden, not_le] at h
    rw [log_eq_of_le_of_lt one_lt_two hlow (by simpa using h)]

/-! ### Rounded quotients -/

/-- The scaled quotient has at most 53 bits, and so has what it is rounded to. -/
theorem roundScaled_le (hnum : 0 < num) (hden : 0 < den) :
    roundScaled num den (unitExponent num den) ≤ 2 ^ 53 := by
  have hround := abs_roundScaled_sub_le num hden (unitExponent num den)
  have hlog := Int.lt_zpow_succ_log_self (b := 2) one_lt_two ((num : ℚ) / den)
  have hle : Int.log 2 ((num : ℚ) / den) + 1 ≤ 53 + unitExponent num den := by
    rw [unitExponent_eq hnum hden]
    omega
  generalize unitExponent num den = e at *
  have hscaled : (num : ℚ) / den / 2 ^ e < 2 ^ 53 := by
    rw [div_lt_iff₀ (zpow_pos two_pos e)]
    calc (num : ℚ) / den < 2 ^ (Int.log 2 ((num : ℚ) / den) + 1) := hlog
      _ ≤ 2 ^ (53 + e) := zpow_le_zpow_right₀ one_le_two hle
      _ = 2 ^ 53 * 2 ^ e := zpow_add₀ two_ne_zero 53 e
  have hlt : (roundScaled num den e : ℚ) < 2 ^ 53 + 1 := by
    have := (abs_le.1 hround).2
    linarith
  exact Nat.lt_succ_iff.1 (by exact_mod_cast hlt)

/-- **What a positive quotient is rounded to:** a mantissa of at most 53 bits with an exponent that is
that of the last place, or the next one under the least mantissa of 53 bits; off by at most half a
unit of the last place. -/
theorem ofRatio_spec (negative : Bool) (hnum : 0 < num) (hden : 0 < den) :
    ∃ (m : ℕ) (e : ℤ), ofRatio negative num den = pack negative m e ∧ m < 2 ^ 53 ∧
      (e = unitExponent num den ∨ e = unitExponent num den + 1 ∧ m = 2 ^ 52) ∧
      |(m : ℚ) * 2 ^ e - num / den| ≤ 2 ^ unitExponent num den / 2 := by
  have hle := roundScaled_le hnum hden
  have hround := abs_roundScaled_sub_le num hden (unitExponent num den)
  unfold ofRatio
  rw [if_neg hnum.ne']
  dsimp only
  generalize unitExponent num den = e at *
  generalize roundScaled num den e = m at *
  have hpos : (0 : ℚ) < 2 ^ e := zpow_pos two_pos e
  have herror : |(m : ℚ) * 2 ^ e - num / den| ≤ 2 ^ e / 2 := by
    have hscale : (m : ℚ) * 2 ^ e - num / den = 2 ^ e * (m - num / den / 2 ^ e) := by
      field_simp
    rw [hscale, abs_mul, abs_of_pos hpos]
    linarith [mul_le_mul_of_nonneg_left hround hpos.le]
  split
  · next hm =>
    refine ⟨2 ^ 52, e + 1, rfl, by norm_num, .inr ⟨rfl, rfl⟩, ?_⟩
    have hsame : ((2 ^ 52 : ℕ) : ℚ) * 2 ^ (e + 1) = m * 2 ^ e := by
      rw [hm, zpow_add_one₀ two_ne_zero]
      push_cast
      ring
    rwa [hsame]
  · next hm => exact ⟨m, e, rfl, lt_of_le_of_ne hle hm, .inl rfl, herror⟩

theorem isProper_zero (negative : Bool) : (zero negative).IsProper :=
  ⟨by norm_num, le_refl _, by norm_num⟩

theorem isProper_ofRatio (negative : Bool) (num : ℕ) (hden : 0 < den) :
    (ofRatio negative num den).IsProper := by
  rcases Nat.eq_zero_or_pos num with rfl | hnum
  · rw [ofRatio, if_pos rfl]
    exact isProper_zero negative
  · obtain ⟨m, e, heq, hm, he, -⟩ := ofRatio_spec negative hnum hden
    have hleast : -1074 ≤ unitExponent num den := by
      rw [unitExponent_eq hnum hden]
      exact le_max_right _ _
    rw [heq, pack]
    split
    · trivial
    · exact ⟨hm, by omega, by omega⟩

/-- **A quotient short of half a unit past the greatest finite value is rounded to a finite one.** -/
theorem isFinite_ofRatio (negative : Bool) (hden : 0 < den)
    (h : (num : ℚ) / den < (2 ^ 54 - 1) * 2 ^ 970) : (ofRatio negative num den).isFinite = true := by
  rcases Nat.eq_zero_or_pos num with rfl | hnum
  · rw [ofRatio, if_pos rfl]
    rfl
  obtain ⟨m, e, heq, -, he, herror⟩ := ofRatio_spec negative hnum hden
  have hunit : unitExponent num den ≤ 971 := by
    have hpos : (0 : ℚ) < num / den := by positivity
    have hlt : (num : ℚ) / den < ((2 : ℕ) : ℚ) ^ (1024 : ℤ) := by
      have hpow : ((2 : ℕ) : ℚ) ^ (1024 : ℤ) = 2 ^ 54 * 2 ^ 970 := by
        rw [← pow_add]
        exact zpow_natCast 2 1024
      rw [hpow]
      exact h.trans (mul_lt_mul_of_pos_right (sub_lt_self _ one_pos) (pow_pos two_pos _))
    have hlog := (Int.lt_zpow_iff_log_lt one_lt_two hpos).1 hlt
    rw [unitExponent_eq hnum hden]
    omega
  -- Only the next exponent is too great, and then the quotient was not short of that value.
  have hexponent : e ≤ 971 := by
    rcases he with rfl | ⟨rfl, rfl⟩
    · exact hunit
    · by_contra hgreat
      have hsame : unitExponent num den = 971 := by omega
      have h971 : (2 : ℚ) ^ (971 : ℤ) = 2 * 2 ^ 970 := (zpow_natCast 2 971).trans (pow_succ' 2 970)
      rw [hsame, zpow_add_one₀ two_ne_zero, h971] at herror
      generalize (2 : ℚ) ^ 970 = p at h herror
      have habove := (abs_le.1 herror).2
      push_cast at habove
      linarith
  rw [heq, pack, if_neg (by omega)]
  rfl

/-- **From `2 ^ 1024` on there are no finite values.** -/
theorem ofRatio_of_le (negative : Bool) (hden : 0 < den) (h : (2 : ℚ) ^ (1024 : ℤ) ≤ num / den) :
    ofRatio negative num den = .infinite negative := by
  have hpos : (0 : ℚ) < num / den := lt_of_lt_of_le (zpow_pos two_pos _) h
  have hnum : 0 < num := by
    rcases Nat.eq_zero_or_pos num with rfl | hnum
    · simp at hpos
    · exact hnum
  obtain ⟨m, e, heq, -, he, -⟩ := ofRatio_spec negative hnum hden
  have hlog := (Int.zpow_le_iff_le_log (b := 2) one_lt_two hpos).1 h
  rw [unitExponent_eq hnum hden] at he
  rw [heq, pack, if_pos (by omega)]

/-- A quotient of at least one is exceeded by at most the part `2 ^ -53` of it. -/
theorem magnitude_ofRatio_le (negative : Bool) (hden : 0 < den) (h : 1 ≤ (num : ℚ) / den) :
    (ofRatio negative num den).magnitude ≤ num / den * (1 + 1 / 2 ^ 53) := by
  have hpos : (0 : ℚ) < num / den := lt_of_lt_of_le one_pos h
  have hnum : 0 < num := by
    rcases Nat.eq_zero_or_pos num with rfl | hnum
    · simp at hpos
    · exact hnum
  obtain ⟨m, e, heq, -, -, herror⟩ := ofRatio_spec negative hnum hden
  -- The unit of the last place is that part of the quotient, or less.
  have hunit : (2 : ℚ) ^ unitExponent num den / 2 ≤ num / den * (1 / 2 ^ 53) := by
    have hlog : 0 ≤ Int.log 2 ((num : ℚ) / den) :=
      (Int.zpow_le_iff_le_log (b := 2) one_lt_two hpos).1 (by simpa using h)
    have hself := Int.zpow_log_le_self (b := 2) one_lt_two hpos
    rw [unitExponent_eq hnum hden, max_eq_left (by omega), zpow_sub₀ two_ne_zero]
    push_cast at hself
    calc _ = (2 : ℚ) ^ Int.log 2 ((num : ℚ) / den) * (1 / 2 ^ 53) := by
          norm_num
          ring
      _ ≤ _ := mul_le_mul_of_nonneg_right hself (by norm_num)
  have hbelow := (abs_le.1 herror).2
  have hvalue : (m : ℚ) * 2 ^ e ≤ num / den * (1 + 1 / 2 ^ 53) := by linarith
  rw [heq, pack]
  split
  · exact (mul_pos hpos (by norm_num)).le
  · exact hvalue

theorem isProper_ofDecimal (negative : Bool) (digits : ℕ) (p : ℤ) :
    (ofDecimal negative digits p).IsProper := by
  unfold ofDecimal
  dsimp only
  split
  · exact isProper_zero negative
  split
  · trivial
  split
  · exact isProper_zero negative
  split
  · exact isProper_ofRatio negative _ one_pos
  · exact isProper_ofRatio negative _ (Nat.pow_pos (by norm_num))

/-- The mantissa and the exponent of a value that is read from a text are in range. -/
theorem isProper_of_ofText? {s : String} {x : Binary64} (h : ofText? s = some x) : x.IsProper := by
  have hnamed {negative : Bool} {cs : List Char} (h : named? negative cs = some x) :
      x.IsProper := by
    unfold named? at h
    dsimp only at h
    split at h
    · cases h
      trivial
    split at h
    · cases h
      trivial
    · cases h
  have hunsigned {negative : Bool} {cs : List Char} (h : unsigned? negative cs = some x) :
      x.IsProper := by
    obtain ⟨-, h⟩ := Option.ite_none_left_eq_some.1 h
    obtain ⟨e, -, rfl⟩ := Option.map_eq_some_iff.1 h
    exact isProper_ofDecimal _ _ _
  unfold ofText? at h
  dsimp only at h
  rcases Option.or_eq_some_iff.1 h with h | ⟨-, h⟩
  · exact hnamed h
  · exact hunsigned h

end Binary64

end TableFilter.Number
