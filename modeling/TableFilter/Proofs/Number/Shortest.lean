import Mathlib.Algebra.Order.Floor.Semifield
import TableFilter.Number.Shortest
import TableFilter.Proofs.Number.Digits
import TableFilter.Proofs.Number.Rounding

/-!
# The shortest decimal of a value

What is written for a positive value is close to it, whether or not it is the shortest that reads
back.

* `Decimal.lead_eq`: the power of the leading digit is the decimal logarithm.
* `Decimal.written_shortest`: the digits are not zero, at most seventeen (or the first number of
  eighteen), and exceed the value by one unit at most. They read back as the value, unless no grid of
  seventeen digits has a point that does.
* `Decimal.shortest_bounded`: only seven decimals that are written lie above
  `1.797693134862315e308`, close to the greatest finite value.
-/

namespace TableFilter.Number

/-! ### Digits -/

theorem digits_bounds (n : ℕ) (h : 0 < n) :
    10 ^ ((digits n).length - 1) ≤ n ∧ n < 10 ^ (digits n).length := by
  fun_induction digits n with
  | case1 n hn =>
    simp only [List.length_singleton]
    omega
  | case2 n hn ih =>
    obtain ⟨hlow, hhigh⟩ := ih (by omega)
    obtain ⟨k, hk⟩ : ∃ k, (digits (n / 10)).length = k + 1 :=
      Nat.exists_eq_succ_of_ne_zero (List.length_pos_iff.2 (digits_ne_nil (n / 10))).ne'
    rw [hk] at hlow hhigh
    rw [List.length_append, List.length_singleton, hk]
    simp only [Nat.add_sub_cancel, pow_succ] at *
    omega

theorem digitCount_eq (n : ℕ) : digitCount n = (digits n).length := by
  rw [digitCount, natText_eq_map, List.length_map]

theorem digitCount_pos (n : ℕ) : 0 < digitCount n :=
  digitCount_eq n ▸ List.length_pos_iff.2 (digits_ne_nil n)

theorem digitCount_bounds {n : ℕ} (h : 0 < n) :
    10 ^ (digitCount n - 1) ≤ n ∧ n < 10 ^ digitCount n :=
  digitCount_eq n ▸ digits_bounds n h

namespace Decimal

variable {num den : ℕ}

/-! ### The leading digit -/

/-- **The power of the leading digit is the decimal logarithm.** -/
theorem lead_eq (hnum : 0 < num) (hden : 0 < den) :
    lead num den = Int.log 10 ((num : ℚ) / den) := by
  have hn : (0 : ℚ) < num := by exact_mod_cast hnum
  have hd : (0 : ℚ) < den := by exact_mod_cast hden
  symm
  unfold lead
  split
  · next h =>
    obtain ⟨hlow, hhigh⟩ := digitCount_bounds (Nat.div_pos h hden)
    obtain ⟨k, hk⟩ := Nat.exists_eq_succ_of_ne_zero (digitCount_pos (num / den)).ne'
    rw [hk, Nat.succ_eq_add_one] at hlow hhigh ⊢
    rw [Nat.add_sub_cancel, Nat.le_div_iff_mul_le hden] at hlow
    rw [Nat.div_lt_iff_lt_mul hden] at hhigh
    have hexp : ((k + 1 : ℕ) : ℤ) - 1 = k := by omega
    rw [hexp]
    refine log_eq_of_le_of_lt (by norm_num) ?_ ?_
    · rw [zpow_natCast, le_div_iff₀ hd]
      exact_mod_cast hlow
    · rw [div_lt_iff₀ hd]
      exact_mod_cast hhigh
  · next h =>
    have hle : num ≤ den := (not_le.1 h).le
    obtain ⟨hlow, hhigh⟩ := digitCount_bounds (Nat.div_pos hle hnum)
    obtain ⟨k, hk⟩ := Nat.exists_eq_succ_of_ne_zero (digitCount_pos (den / num)).ne'
    dsimp only
    rw [hk, Nat.succ_eq_add_one] at hlow hhigh ⊢
    rw [Nat.add_sub_cancel, Nat.le_div_iff_mul_le hnum] at hlow
    rw [Nat.div_lt_iff_lt_mul hnum] at hhigh
    have hpow (j : ℕ) : ((10 : ℕ) : ℚ) ^ (-(j : ℤ)) = 1 / 10 ^ j := by
      rw [zpow_neg, zpow_natCast, one_div]
      norm_num
    have hexp : -(((k + 1 : ℕ) : ℤ) - 1) = -(k : ℤ) := by omega
    rw [Nat.add_sub_cancel, hexp]
    split
    · next hreach =>
      refine log_eq_of_le_of_lt (by norm_num) ?_ ?_
      · rw [hpow, div_le_div_iff₀ (by positivity) hd, one_mul]
        exact_mod_cast hreach
      · have hle : (num : ℚ) / den ≤ 1 / 10 ^ k := by
          rw [div_le_div_iff₀ hd (by positivity), one_mul, mul_comm]
          exact_mod_cast hlow
        rw [zpow_add_one₀ (by norm_num), hpow]
        exact hle.trans_lt (lt_mul_of_one_lt_right (by positivity) (by norm_num))
    · next hreach =>
      refine log_eq_of_le_of_lt (by norm_num) ?_ ?_
      · rw [hpow, div_le_div_iff₀ (by positivity) hd, one_mul, mul_comm]
        exact_mod_cast hhigh.le
      · have hexp : -((k + 1 : ℕ) : ℤ) + 1 = -(k : ℤ) := by omega
        rw [hexp, hpow, div_lt_div_iff₀ hd (by positivity), one_mul]
        exact_mod_cast not_le.1 hreach

/-! ### The grids -/

/-- A quotient in units of a power of ten. -/
theorem inUnits_spec (num : ℕ) (hden : 0 < den) (p : ℤ) :
    0 < (inUnits num den p).2 ∧
      ((inUnits num den p).1 : ℚ) / (inUnits num den p).2 = num / den / 10 ^ p := by
  unfold inUnits
  split
  · next hp =>
    obtain ⟨n, rfl⟩ := Int.eq_ofNat_of_zero_le hp
    refine ⟨Nat.mul_pos hden (Nat.pow_pos (by norm_num)), ?_⟩
    rw [div_div]
    simp
  · next hp =>
    obtain ⟨n, rfl⟩ : ∃ n : ℕ, p = -n := ⟨(-p).toNat, by omega⟩
    refine ⟨hden, ?_⟩
    rw [zpow_neg, zpow_natCast, div_inv_eq_mul]
    simp only [neg_neg, Int.toNat_natCast, Nat.pow_eq]
    push_cast
    ring

/-- The whole number of units below a quotient. -/
theorem below_bounds (num : ℕ) (hden : 0 < den) (p : ℤ) :
    (((inUnits num den p).1 / (inUnits num den p).2 : ℕ) : ℚ) ≤ num / den / 10 ^ p ∧
      (num : ℚ) / den / 10 ^ p < ((inUnits num den p).1 / (inUnits num den p).2 : ℕ) + 1 := by
  obtain ⟨hpos, heq⟩ := inUnits_spec num hden p
  rw [← heq, ← Nat.floor_div_eq_div (K := ℚ)]
  exact ⟨Nat.floor_le (by positivity), Nat.lt_floor_add_one _⟩

/-- The point of a grid that is written is next to the value and reads back as it. -/
theorem onGrid?_eq_some {tie : Tie} {value : Binary64} {p : ℤ} {d : Decimal}
    (h : onGrid? tie value num den p = some d) :
    d.exponent = p ∧ Binary64.ofDecimal false d.digits p = value ∧
      (d.digits = (inUnits num den p).1 / (inUnits num den p).2 ∨
        d.digits = (inUnits num den p).1 / (inUnits num den p).2 + 1) := by
  unfold onGrid? at h
  dsimp only at h
  split at h
  · next hlow hhigh =>
    cases h
    rcases Binary64.roundDiv_cases tie (inUnits num den p).1 (inUnits num den p).2 with
      ⟨heq, -⟩ | ⟨heq, -⟩
    · exact ⟨rfl, by rw [heq]; simpa using hlow, .inl heq⟩
    · exact ⟨rfl, by rw [heq]; simpa using hhigh, .inr heq⟩
  · next hlow hhigh =>
    cases h
    exact ⟨rfl, by simpa using hlow, .inl rfl⟩
  · next hlow hhigh =>
    cases h
    exact ⟨rfl, by simpa using hhigh, .inr rfl⟩
  · cases h

/-! ### What is written -/

/-- What is known of the decimal that is written for a positive value: it is on a grid of at most
seventeen digits, next to the value, and reads back as it unless the grid is the finest. -/
structure Written (m : ℕ) (e : ℤ) (d : Decimal) : Prop where
  digits_pos : 0 < d.digits
  digits_le : d.digits ≤ 10 ^ 17
  grid : Int.log 10 ((m : ℚ) * 2 ^ e) - 16 ≤ d.exponent
  near : (d.digits : ℚ) * 10 ^ d.exponent ≤ m * 2 ^ e + 10 ^ d.exponent
  reads : Binary64.ofDecimal false d.digits d.exponent = .finite false m e ∨
    d.exponent = Int.log 10 ((m : ℚ) * 2 ^ e) - 16

/-- A point next to the value on a grid of at most seventeen digits. -/
theorem near_of_grid (hden : 0 < den) {p : ℤ}
    (hp : Int.log 10 ((num : ℚ) / den) - 16 ≤ p) {digits : ℕ}
    (h : digits = (inUnits num den p).1 / (inUnits num den p).2 ∨
      digits = (inUnits num den p).1 / (inUnits num den p).2 + 1) :
    digits ≤ 10 ^ 17 ∧ (digits : ℚ) * 10 ^ p ≤ num / den + 10 ^ p := by
  obtain ⟨hlow, -⟩ := below_bounds num hden p
  generalize (inUnits num den p).1 / (inUnits num den p).2 = below at h hlow
  have hunit : (0 : ℚ) < 10 ^ p := zpow_pos (by norm_num) p
  have hle : digits ≤ below + 1 := by omega
  have hle' : (digits : ℚ) ≤ below + 1 := by exact_mod_cast hle
  -- There are at most seventeen places from the leading digit to the unit of the grid.
  have hplaces : (num : ℚ) / den / 10 ^ p < 10 ^ 17 := by
    have hlog := Int.lt_zpow_succ_log_self (b := 10) (by norm_num) ((num : ℚ) / den)
    rw [div_lt_iff₀ hunit]
    calc (num : ℚ) / den < 10 ^ (Int.log 10 ((num : ℚ) / den) + 1) := hlog
      _ ≤ 10 ^ (17 + p) := zpow_le_zpow_right₀ (by norm_num) (by omega)
      _ = 10 ^ 17 * 10 ^ p := zpow_add₀ (by norm_num) 17 p
  constructor
  · have hbelow : below < 10 ^ 17 := by exact_mod_cast hlow.trans_lt hplaces
    omega
  · rw [le_div_iff₀ hunit] at hlow
    calc (digits : ℚ) * 10 ^ p ≤ (below + 1) * 10 ^ p := mul_le_mul_of_nonneg_right hle' hunit.le
      _ ≤ num / den + 10 ^ p := by linarith

/-- There is a whole unit below the value on the finest grid of seventeen digits. -/
theorem below_finest_pos (hnum : 0 < num) (hden : 0 < den) :
    0 < (inUnits num den (Int.log 10 ((num : ℚ) / den) - 16)).1 /
      (inUnits num den (Int.log 10 ((num : ℚ) / den) - 16)).2 := by
  have hvalue : (0 : ℚ) < num / den :=
    div_pos (by exact_mod_cast hnum) (by exact_mod_cast hden)
  have hleast : (10 : ℚ) ^ (16 : ℤ) ≤ num / den / 10 ^ (Int.log 10 ((num : ℚ) / den) - 16) := by
    rw [le_div_iff₀ (zpow_pos (by norm_num) _), ← zpow_add₀ (by norm_num), add_sub_cancel]
    exact Int.zpow_log_le_self (b := 10) (by norm_num) hvalue
  have hbelow := (below_bounds num hden (Int.log 10 ((num : ℚ) / den) - 16)).2
  generalize (inUnits num den (Int.log 10 ((num : ℚ) / den) - 16)).1 /
    (inUnits num den (Int.log 10 ((num : ℚ) / den) - 16)).2 = below at *
  have hpos : (1 : ℚ) < below + 1 := lt_of_le_of_lt (le_trans (by norm_num) hleast) hbelow
  exact Nat.lt_of_succ_lt_succ (by exact_mod_cast hpos)

theorem ofDecimal_zero (negative : Bool) (p : ℤ) :
    Binary64.ofDecimal negative 0 p = Binary64.zero negative := rfl

/-- **What is written is close to the value,** on whichever grid it is found. -/
theorem written_shortest (tie : Tie) {m : ℕ} (hm : 0 < m) (e : ℤ) :
    Written m e (shortest tie m e) := by
  obtain ⟨hden, hq⟩ := Binary64.ratio_spec m e
  have hnum : 0 < (Binary64.ratio m e).1 := by
    refine Nat.pos_of_ne_zero fun hzero => ?_
    have hvalue : (0 : ℚ) < m * 2 ^ e := mul_pos (by exact_mod_cast hm) (zpow_pos two_pos e)
    rw [← hq, hzero, Nat.cast_zero, zero_div] at hvalue
    exact hvalue.false
  unfold shortest
  dsimp only
  rw [lead_eq hnum hden]
  generalize (Binary64.ratio m e).1 = num at *
  generalize (Binary64.ratio m e).2 = den at *
  split
  · next d hd =>
    obtain ⟨p, hp, hgrid⟩ := List.exists_of_findSome?_eq_some hd
    obtain ⟨n, hn, rfl⟩ := List.mem_map.1 hp
    rw [List.mem_range] at hn
    obtain ⟨hexp, hreads, hnext⟩ := onGrid?_eq_some hgrid
    obtain ⟨hle, hnear⟩ := near_of_grid hden (by omega) hnext
    rw [hq] at hnear hexp
    rw [hq, ← hexp] at hreads
    rw [← hexp] at hnear
    refine ⟨Nat.pos_of_ne_zero fun hzero => ?_, hle, by omega, hnear, .inl hreads⟩
    -- The digit zero reads back as zero, which the value is not.
    rw [hzero, ofDecimal_zero, Binary64.zero] at hreads
    injection hreads with _ hmantissa _
    omega
  · have hbelow := below_finest_pos hnum hden
    have hnext := Binary64.roundDiv_cases tie
      (inUnits num den (Int.log 10 ((num : ℚ) / den) - 16)).1
      (inUnits num den (Int.log 10 ((num : ℚ) / den) - 16)).2
    obtain ⟨hle, hnear⟩ := near_of_grid hden (le_refl _) (hnext.imp (·.1) (·.1))
    rw [hq] at hbelow hnext hle hnear ⊢
    refine ⟨?_, hle, le_refl _, hnear, .inr rfl⟩
    dsimp only
    rcases hnext with ⟨heq, -⟩ | ⟨heq, -⟩ <;> omega

/-! ### The greatest decimals -/

/-- **No decimal from `2 ^ 1024` on reads back as a finite value.** -/
theorem ofDecimal_of_le (negative : Bool) {digits p : ℕ} (h : 2 ^ 1024 ≤ digits * 10 ^ p) :
    Binary64.ofDecimal negative digits p = .infinite negative := by
  have hdigits : digits ≠ 0 := by
    rintro rfl
    rw [Nat.zero_mul] at h
    exact Nat.not_succ_le_zero _ ((Nat.two_pow_pos _).trans_le h)
  unfold Binary64.ofDecimal
  dsimp only
  rw [if_neg hdigits]
  split
  · rfl
  · rw [if_neg (by omega), if_pos (by omega), Int.toNat_natCast]
    refine Binary64.ofRatio_of_le negative one_pos ?_
    rw [Nat.cast_one, div_one]
    exact_mod_cast h

/-- Between the last two values there is no decimal of seventeen digits but one. -/
theorem eq_greatest {m : ℕ} (hm : m < 2 ^ 53) {e : ℤ} (he : e ≤ 971)
    (h : (17976931348623157 * 10 ^ 292 : ℕ) ≤ (m : ℚ) * 2 ^ e) : m = 2 ^ 53 - 1 ∧ e = 971 := by
  have hgreat : (((2 ^ 53 - 2) * 2 ^ 971 : ℕ) : ℚ) < m * 2 ^ e := by
    refine lt_of_lt_of_le ?_ h
    have hnat : (2 ^ 53 - 2) * 2 ^ 971 < 17976931348623157 * 10 ^ 292 := by decide +kernel
    exact_mod_cast hnat
  obtain rfl : e = 971 := by
    by_contra hne
    have hpow : (2 : ℚ) ^ e ≤ 2 ^ (970 : ℕ) := by
      rw [← zpow_natCast]
      exact zpow_le_zpow_right₀ one_le_two (by omega)
    have hm' : (m : ℚ) ≤ 2 ^ 53 := by exact_mod_cast hm.le
    have hle : (m : ℚ) * 2 ^ e ≤ (2 ^ 53 * 2 ^ 970 : ℕ) := by
      rw [Nat.cast_mul, Nat.cast_pow, Nat.cast_pow]
      exact mul_le_mul hm' hpow (zpow_nonneg two_pos.le e) (by norm_num)
    have hnat : 2 ^ 53 * 2 ^ 970 ≤ (2 ^ 53 - 2) * 2 ^ 971 := by decide +kernel
    have hlt := hgreat.trans_le hle
    exact (Nat.cast_lt.1 hlt).not_ge hnat
  refine ⟨?_, rfl⟩
  have hlt : (2 ^ 53 - 2) * 2 ^ 971 < m * 2 ^ 971 := by exact_mod_cast hgreat
  have := Nat.lt_of_mul_lt_mul_right hlt
  omega

section

variable {m : ℕ} {e : ℤ} {d : Decimal}

theorem value_le_greatest (hm : m < 2 ^ 53) (he : e ≤ 971) :
    (m : ℚ) * 2 ^ e ≤ ((2 ^ 53 - 1) * 2 ^ 971 : ℕ) := by
  have hm' : (m : ℚ) ≤ (2 ^ 53 - 1 : ℕ) := by exact_mod_cast Nat.le_sub_one_of_lt hm
  have hpow : (2 : ℚ) ^ e ≤ 2 ^ 971 := by
    rw [← zpow_natCast]
    exact zpow_le_zpow_right₀ one_le_two he
  rw [Nat.cast_mul, Nat.cast_pow]
  exact mul_le_mul hm' hpow (zpow_nonneg two_pos.le e) (Nat.cast_nonneg _)

theorem log_value_le (hpos : 0 < m) (hm : m < 2 ^ 53) (he : e ≤ 971) :
    Int.log 10 ((m : ℚ) * 2 ^ e) ≤ 308 := by
  have hvalue : (0 : ℚ) < m * 2 ^ e := mul_pos (by exact_mod_cast hpos) (zpow_pos two_pos e)
  have hlt : (m : ℚ) * 2 ^ e < ((10 : ℕ) : ℚ) ^ (309 : ℤ) := by
    refine (value_le_greatest hm he).trans_lt ?_
    have hnat : (2 ^ 53 - 1) * 2 ^ 971 < 10 ^ 309 := by decide +kernel
    exact_mod_cast hnat
  have := (Int.lt_zpow_iff_log_lt (by norm_num) hvalue).1 hlt
  omega

/-- On a grid finer than `10 ^ 292` there are no greater values than `10 ^ 308`. -/
theorem Written.le_of_fine (h : Written m e d) (hd : d.exponent ≤ 291) :
    (d.digits : ℚ) * 10 ^ d.exponent ≤ 1797693134862315 * 10 ^ 293 := by
  have hgrid := h.grid
  have hten : (1 : ℚ) ≤ 10 := by norm_num
  have hq : (m : ℚ) * 2 ^ e ≤ 10 ^ (308 : ℤ) :=
    (Int.lt_zpow_succ_log_self (b := 10) (by norm_num) _).le.trans
      (zpow_le_zpow_right₀ hten (by omega))
  have hunit : (10 : ℚ) ^ d.exponent ≤ 10 ^ (291 : ℤ) := zpow_le_zpow_right₀ hten hd
  have hnat : 10 ^ 308 + 10 ^ 291 ≤ 1797693134862315 * 10 ^ 293 := by decide +kernel
  refine (h.near.trans (add_le_add hq hunit)).trans ?_
  exact_mod_cast hnat

/-- On a grid coarser than `10 ^ 292` a decimal reads back as the value, and so it is below the
infinity. -/
theorem Written.le_of_coarse (h : Written m e d) (hlog : Int.log 10 ((m : ℚ) * 2 ^ e) ≤ 308)
    (hd : 293 ≤ d.exponent) :
    (d.digits : ℚ) * 10 ^ d.exponent ≤ 1797693134862315 * 10 ^ 293 := by
  obtain ⟨p, hp⟩ : ∃ p : ℕ, d.exponent = ↑(p + 293) := ⟨(d.exponent - 293).toNat, by omega⟩
  have hreads := h.reads.resolve_right (by omega)
  rw [hp] at hreads ⊢
  have hlt : d.digits * 10 ^ p < 1797693134862316 := by
    by_contra hge
    have hnat : 2 ^ 1024 ≤ 1797693134862316 * 10 ^ 293 := by decide +kernel
    have hgreat := hnat.trans (Nat.mul_le_mul_right (10 ^ 293) (not_lt.1 hge))
    rw [mul_assoc, ← pow_add] at hgreat
    rw [ofDecimal_of_le false hgreat] at hreads
    cases hreads
  have hle : d.digits * 10 ^ (p + 293) ≤ 1797693134862315 * 10 ^ 293 := by
    rw [pow_add, ← mul_assoc]
    exact Nat.mul_le_mul_right _ (Nat.le_of_lt_succ hlt)
  exact_mod_cast hle

/-- On the grid of `10 ^ 292` no more is written than one unit beyond the greatest value. -/
theorem Written.digits_le_of_eq (h : Written m e d) (hm : m < 2 ^ 53) (he : e ≤ 971)
    (hd : d.exponent = 292) : d.digits ≤ 17976931348623158 := by
  have hnear := h.near
  rw [hd] at hnear
  have hle : d.digits * 10 ^ 292 ≤ (2 ^ 53 - 1) * 2 ^ 971 + 10 ^ 292 := by
    have := hnear.trans (add_le_add_left (value_le_greatest hm he) _)
    exact_mod_cast this
  refine Nat.le_of_lt_succ (Nat.lt_of_mul_lt_mul_right (a := 10 ^ 292) (hle.trans_lt ?_))
  decide +kernel

end

/-- That unit beyond the greatest value is not written for it: there is a closer decimal. -/
theorem shortest_digits_ne {m : ℕ} (hpos : 0 < m) (hm : m < 2 ^ 53) {e : ℤ} (he : e ≤ 971)
    (hexp : (shortest .even m e).exponent = 292) :
    (shortest .even m e).digits ≠ 17976931348623158 := by
  intro hdigits
  have hnear := (written_shortest .even hpos e).near
  rw [hexp, hdigits] at hnear
  have hvalue : (17976931348623157 * 10 ^ 292 : ℕ) ≤ (m : ℚ) * 2 ^ e := by
    rw [Nat.cast_succ, add_mul, one_mul] at hnear
    rw [Nat.cast_mul, Nat.cast_pow]
    exact le_of_add_le_add_right hnear
  obtain ⟨rfl, rfl⟩ := eq_greatest hm he hvalue
  exact absurd hdigits (by decide +kernel)

/-- **Only seven decimals that are written lie above `1.797693134862315e308`.** -/
theorem shortest_bounded {m : ℕ} (hpos : 0 < m) (hm : m < 2 ^ 53) {e : ℤ} (he : e ≤ 971) :
    ((shortest .even m e).digits : ℚ) * 10 ^ (shortest .even m e).exponent ≤
        1797693134862315 * 10 ^ 293 ∨
      (shortest .even m e).exponent = 292 ∧ 17976931348623151 ≤ (shortest .even m e).digits ∧
        (shortest .even m e).digits ≤ 17976931348623157 := by
  have hwritten := written_shortest .even hpos e
  obtain hfine | hsame | hcoarse : (shortest .even m e).exponent ≤ 291 ∨
      (shortest .even m e).exponent = 292 ∨ 293 ≤ (shortest .even m e).exponent := by omega
  · exact .inl (hwritten.le_of_fine hfine)
  · have hle := hwritten.digits_le_of_eq hm he hsame
    have hne := shortest_digits_ne hpos hm he hsame
    obtain hbelow | habove : (shortest .even m e).digits ≤ 17976931348623150 ∨
        17976931348623151 ≤ (shortest .even m e).digits := by omega
    · left
      have hnat : 17976931348623150 * 10 ^ 292 ≤ 1797693134862315 * 10 ^ 293 := by decide +kernel
      have := (Nat.mul_le_mul_right (10 ^ 292) hbelow).trans hnat
      rw [hsame]
      exact_mod_cast this
    · exact .inr ⟨hsame, habove, by omega⟩
  · exact .inl (hwritten.le_of_coarse (log_value_le hpos hm he) hcoarse)

end Decimal

end TableFilter.Number
