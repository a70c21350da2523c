import Mathlib.Data.Int.Log
import TableFilter.Proofs.Number.Digits
import TableFilter.Proofs.Number.Rounding
import TableFilter.Proofs.Number.Shortest

/-!
# Whole numbers as floating-point numbers

* A whole number below `2 ^ 53` is a floating-point number: rounding leaves it as it is
  (`Binary64.toInt?_ofRatio`).
* `IsIntegerLiteral` are the texts of whole numbers, with a sign or without and with any zeros in
  front. Such a text reads as its number, as long as that is below `2 ^ 53`
  (`IsIntegerLiteral.ofText?`).
-/

namespace TableFilter.Number

/-- The literals of whole numbers, with what they denote: decimal digits, at least one, behind a sign
or none. -/
inductive IsIntegerLiteral : List Char → ℤ → Prop
  | unsigned {ds : List ℕ} (hne : ds ≠ []) (hds : ∀ d ∈ ds, d < 10) :
      IsIntegerLiteral (ds.map Nat.digitChar) (ofDigits 10 ds)
  | plus {ds : List ℕ} (hne : ds ≠ []) (hds : ∀ d ∈ ds, d < 10) :
      IsIntegerLiteral ('+' :: ds.map Nat.digitChar) (ofDigits 10 ds)
  | minus {ds : List ℕ} (hne : ds ≠ []) (hds : ∀ d ∈ ds, d < 10) :
      IsIntegerLiteral ('-' :: ds.map Nat.digitChar) (-(ofDigits 10 ds))

namespace Binary64

/-! ### Exact values -/

variable {n : ℕ}

theorem roundDiv_one (tie : Tie) (n : ℕ) : roundDiv tie n 1 = n := by
  simp [roundDiv, Nat.mod_one]

/-- **A positive whole number below `2 ^ 53` is rounded to itself:** its mantissa is shifted until it
has all of its 53 bits. -/
theorem ofRatio_whole (negative : Bool) (hpos : 0 < n) (h : n < 2 ^ 53) :
    ofRatio negative n 1 =
      .finite negative (n * 2 ^ (52 - Nat.log 2 n)) (-(52 - Nat.log 2 n : ℕ)) := by
  have hlog : Nat.log 2 n < 53 := Nat.log_lt_of_lt_pow hpos.ne' h
  have hunit : unitExponent n 1 = -(52 - Nat.log 2 n : ℕ) := by
    rw [unitExponent_eq hpos one_pos, Nat.cast_one, div_one, Int.log_natCast]
    omega
  have hround : roundScaled n 1 (-(52 - Nat.log 2 n : ℕ)) = n * 2 ^ (52 - Nat.log 2 n) := by
    unfold roundScaled
    split
    · next hnonneg =>
      have hzero : 52 - Nat.log 2 n = 0 := by omega
      rw [hzero, pow_zero, mul_one]
      exact roundDiv_one .even n
    · rw [neg_neg, Int.toNat_natCast]
      exact roundDiv_one .even _
  have hbits : n * 2 ^ (52 - Nat.log 2 n) < 2 ^ 53 := by
    calc n * 2 ^ (52 - Nat.log 2 n)
        < 2 ^ (Nat.log 2 n + 1) * 2 ^ (52 - Nat.log 2 n) :=
          Nat.mul_lt_mul_of_pos_right (Nat.lt_pow_succ_log_self one_lt_two n) (by positivity)
      _ = 2 ^ 53 := by rw [← pow_add]; congr 1; omega
  unfold ofRatio
  dsimp only
  rw [if_neg hpos.ne', hunit, hround, Nat.pow_eq, if_neg hbits.ne, pack, if_neg (by omega)]

/-- **Below `2 ^ 53` rounding leaves a whole number as it is.** -/
theorem toInt?_ofRatio (negative : Bool) (h : n < 2 ^ 53) :
    (ofRatio negative n 1).toInt? = some (if negative then -(n : ℤ) else n) := by
  rcases Nat.eq_zero_or_pos n with rfl | hpos
  · cases negative <;> decide +kernel
  rw [ofRatio_whole negative hpos h]
  generalize 52 - Nat.log 2 n = j
  have hratio : ratio (n * 2 ^ j) (-(j : ℤ)) = (n * 2 ^ j, 2 ^ j) := by
    unfold ratio
    split
    · next hnonneg =>
      obtain rfl : j = 0 := by omega
      simp
    · rw [neg_neg, Int.toNat_natCast, Nat.pow_eq]
  unfold toInt?
  dsimp only
  rw [hratio, if_pos (Nat.mul_mod_left n _), Nat.mul_div_cancel n (by positivity)]

theorem isFinite_of_toInt? {x : Binary64} {i : ℤ} (h : x.toInt? = some i) : x.isFinite = true := by
  cases x with
  | finite => rfl
  | nan | infinite => cases h

/-! ### Literals -/

/-- A number below `2 ^ 53` has too few digits to be out of range. -/
theorem ofDecimal_whole (negative : Bool) (h : n < 2 ^ 53) :
    ofDecimal negative n 0 = ofRatio negative n 1 := by
  unfold ofDecimal
  dsimp only
  split
  · next hzero => rw [ofRatio, if_pos hzero]
  next hne =>
    have hcount : digitCount n ≤ 16 := by
      by_contra hlong
      have hlow := (digitCount_bounds (Nat.pos_of_ne_zero hne)).1
      have hpow : 10 ^ 16 ≤ 10 ^ (digitCount n - 1) := Nat.pow_le_pow_right (by decide) (by omega)
      omega
    rw [if_neg (by omega), if_neg (by omega), if_pos le_rfl]
    simp

/-- A digit is no sign, and no letter that a name of a value begins with. -/
theorem digitChar_spec {d : ℕ} (h : d < 10) :
    d.digitChar ≠ '-' ∧ d.digitChar ≠ '+' ∧
      d.digitChar.toLower ≠ 'i' ∧ d.digitChar.toLower ≠ 'n' := by
  revert d
  decide

variable {ds : List ℕ} (hne : ds ≠ []) (hds : ∀ d ∈ ds, d < 10)
include hne hds

/-- Digits are no name of a value. -/
theorem named?_digits (negative : Bool) : named? negative (ds.map Nat.digitChar) = none := by
  obtain ⟨d, es, rfl⟩ := List.exists_cons_of_ne_nil hne
  obtain ⟨-, -, hi, hn⟩ := digitChar_spec (hds d List.mem_cons_self)
  have hname {s : String} (hs : String.ofList (((d :: es).map Nat.digitChar).map Char.toLower) = s) :
      s.toList.head? = some d.digitChar.toLower := by
    rw [← hs, String.toList_ofList]
    rfl
  unfold named?
  dsimp only
  rw [if_neg, if_neg]
  · intro hs
    exact hn (Option.some.inj (hname hs)).symm
  · rintro (hs | hs)
    · exact hi (Option.some.inj (hname hs)).symm
    · exact hi (Option.some.inj (hname hs)).symm

/-- Digits read as the value of the number they denote. -/
theorem unsigned?_digits (negative : Bool) :
    unsigned? negative (ds.map Nat.digitChar) = some (ofDecimal negative (ofDigits 10 ds) 0) := by
  have htake : takeDigits (ds.map Nat.digitChar) = (ds, []) := by
    simpa using @takeDigits_map ds [] hds nofun
  simp [unsigned?, htake, hne, exponent?]

/-- **Behind a sign or none, digits read as the whole number they denote,** if it is below
`2 ^ 53`. -/
theorem reads_digits (negative : Bool) (h : ofDigits 10 ds < 2 ^ 53) :
    ∃ x, (named? negative (ds.map Nat.digitChar)).or (unsigned? negative (ds.map Nat.digitChar)) =
        some x ∧
      x.isFinite = true ∧
      x.toInt? = some (if negative then -(ofDigits 10 ds : ℤ) else ofDigits 10 ds) := by
  have hvalue := toInt?_ofRatio negative h
  refine ⟨ofRatio negative (ofDigits 10 ds) 1, ?_, isFinite_of_toInt? hvalue, hvalue⟩
  rw [named?_digits hne hds, Option.none_or, unsigned?_digits hne hds, ofDecimal_whole negative h]

end Binary64

open Binary64

/-- **The literal of a whole number reads as that number,** if it is below `2 ^ 53`. -/
theorem IsIntegerLiteral.ofText? {s : String} {n : ℤ} (h : IsIntegerLiteral s.toList n)
    (hn : |n| < 2 ^ 53) :
    ∃ x, Binary64.ofText? s = some x ∧ x.isFinite = true ∧ x.toInt? = some n := by
  unfold Binary64.ofText?
  dsimp only
  generalize s.toList = cs at h
  cases h with
  | @unsigned ds hne hds =>
    obtain ⟨d, es, rfl⟩ := List.exists_cons_of_ne_nil hne
    obtain ⟨hminus, hplus, -, -⟩ := digitChar_spec (hds d List.mem_cons_self)
    rw [Nat.abs_cast] at hn
    split
    · next r heq => exact absurd (List.cons.inj heq).1 hminus
    · next r heq => exact absurd (List.cons.inj heq).1 hplus
    · exact reads_digits hne hds false (by exact_mod_cast hn)
  | @plus ds hne hds =>
    rw [Nat.abs_cast] at hn
    exact reads_digits hne hds false (by exact_mod_cast hn)
  | @minus ds hne hds =>
    rw [abs_neg, Nat.abs_cast] at hn
    exact reads_digits hne hds true (by exact_mod_cast hn)

end TableFilter.Number
