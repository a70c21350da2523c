import TableFilter.Proofs.Json.Numerals
import TableFilter.Proofs.Number.Shortest

/-!
# Floating-point numbers written as literals

A finite floating-point number is written as a literal that denotes a floating-point number again
(`Numeral.exists_chars_eq_text`), though not always the same one: the digits of a literal and the
power of ten are rounded before they are multiplied.

* The product is finite for what is written (`Numeral.scaled?_shortest`): up to
  `1.797693134862315e308` two roundings do not go too far, and the seven decimals above it that can
  be written are looked at one by one.
* `Numeral.plain` and `Numeral.scientific` are the literals of the two layouts.
* `Json.Number.reread` is the number that the text of a number denotes
  (`Json.Number.IsStored.exists_literal`). Whole numbers of 64 bits are read as themselves
  (`Json.Number.reread_of_isWord`).
-/

namespace TableFilter.Json

open TableFilter.Number

namespace Numeral

/-! ### Scaling -/

theorem scaled?_of_neg (digits : Nat) {e : Int} (h : e < 0) : (scaled? digits e).isSome = true := by
  rw [scaled?]
  dsimp only
  rw [if_pos h]
  rfl

/-- A quotient that is rounded to a finite value, with what is known of the value. -/
theorem ofRatio_eq_finite {num : Nat} (h : 1 ≤ num)
    (hlt : (num : ℚ) < (2 ^ 54 - 1) * 2 ^ 970) :
    ∃ s m e, Binary64.ofRatio false num 1 = .finite s m e ∧
      (m : ℚ) * 2 ^ e ≤ num * (1 + 1 / 2 ^ 53) := by
  have hone : (num : ℚ) / (1 : ℕ) = num := by rw [Nat.cast_one, div_one]
  have hfinite := Binary64.isFinite_ofRatio false one_pos (hone.symm ▸ hlt)
  have hmagnitude := Binary64.magnitude_ofRatio_le false one_pos
    (hone.symm ▸ (by exact_mod_cast h : (1 : ℚ) ≤ num))
  rw [hone] at hmagnitude
  cases hx : Binary64.ofRatio false num 1 with
  | finite s m e =>
    rw [hx] at hmagnitude
    exact ⟨s, m, e, rfl, hmagnitude⟩
  | nan | infinite s =>
    rw [hx] at hfinite
    cases hfinite

/-- Two roundings do not take `1.797693134862315e308` beyond the greatest finite value. -/
theorem greatest_scaled_lt : ((1797693134862315 * 10 ^ 293 : ℕ) : ℚ) *
    ((1 + 1 / 2 ^ 53) * (1 + 1 / 2 ^ 53)) < (2 ^ 54 - 1) * 2 ^ 970 := by
  have hnat : 1797693134862315 * 10 ^ 293 * (2 ^ 53 + 1) ^ 2 <
      18014398509481983 * 2 ^ 970 * 2 ^ 106 := by decide +kernel
  have hparts : (1 + 1 / 2 ^ 53 : ℚ) * (1 + 1 / 2 ^ 53) = (2 ^ 53 + 1) ^ 2 / 2 ^ 106 := by norm_num
  have hlast : (2 ^ 54 - 1 : ℚ) = 18014398509481983 := by norm_num
  rw [hparts, hlast, ← mul_div_assoc, div_lt_iff₀ (by positivity)]
  exact_mod_cast hnat

/-- **Up to `1.797693134862315e308` the rounded product of digits and a power of ten is finite.** -/
theorem scaled?_of_le {digits k : Nat}
    (h : digits * 10 ^ k ≤ 1797693134862315 * 10 ^ 293) : (scaled? digits k).isSome = true := by
  unfold scaled?
  dsimp only
  rw [if_neg (by omega)]
  rcases Nat.eq_zero_or_pos digits with rfl | hdigits
  · rfl
  have hpow : 0 < 10 ^ k := Nat.pow_pos (by decide)
  have hvalue : ((digits * 10 ^ k : ℕ) : ℚ) * ((1 + 1 / 2 ^ 53) * (1 + 1 / 2 ^ 53)) <
      (2 ^ 54 - 1) * 2 ^ 970 :=
    lt_of_le_of_lt (mul_le_mul_of_nonneg_right (Nat.cast_le.2 h) (by positivity)) greatest_scaled_lt
  have hpart {n : ℕ} (hn : n ≤ digits * 10 ^ k) : (n : ℚ) < (2 ^ 54 - 1) * 2 ^ 970 :=
    lt_of_le_of_lt ((Nat.cast_le.2 hn).trans
      (le_mul_of_one_le_right (Nat.cast_nonneg _) (by norm_num))) hvalue
  obtain ⟨s, m, e, hx, hm⟩ := ofRatio_eq_finite hdigits (hpart (Nat.le_mul_of_pos_right _ hpow))
  obtain ⟨t, m', e', hy, hm'⟩ := ofRatio_eq_finite hpow (hpart (Nat.le_mul_of_pos_left _ hdigits))
  have hk : ¬(308 : Int) < k := by
    intro hk
    have hle : 10 ^ 309 ≤ 10 ^ k := pow_le_pow_right₀ (by decide) (Int.ofNat_lt.1 hk)
    have hlt : 1797693134862315 * 10 ^ 293 < 10 ^ 309 := by decide +kernel
    exact ((Nat.le_mul_of_pos_left (10 ^ k) hdigits).trans h).not_gt (hlt.trans_le hle)
  have hfinite : (scaleUp (.finite s m e) k).isFinite = true := by
    obtain ⟨hd, hq⟩ := Binary64.ratio_spec m e
    obtain ⟨hd', hq'⟩ := Binary64.ratio_spec m' e'
    rw [scaleUp, power, Nat.pow_eq, hy]
    change (Binary64.ofRatio s ((Binary64.ratio m e).1 * (Binary64.ratio m' e').1)
      ((Binary64.ratio m e).2 * (Binary64.ratio m' e').2)).isFinite = true
    refine Binary64.isFinite_ofRatio s (Nat.mul_pos hd hd') (lt_of_le_of_lt ?_ hvalue)
    rw [Nat.cast_mul, Nat.cast_mul, mul_div_mul_comm, hq, hq', Nat.cast_mul]
    calc (m : ℚ) * 2 ^ e * (m' * 2 ^ e')
        ≤ digits * (1 + 1 / 2 ^ 53) * ((10 ^ k : ℕ) * (1 + 1 / 2 ^ 53)) :=
          mul_le_mul hm hm' (mul_nonneg (Nat.cast_nonneg _) (zpow_nonneg two_pos.le _))
            (mul_nonneg (Nat.cast_nonneg _) (by norm_num))
      _ = digits * (10 ^ k : ℕ) * ((1 + 1 / 2 ^ 53) * (1 + 1 / 2 ^ 53)) := by ring
  rw [hx, if_neg hk, Int.toNat_natCast, if_pos hfinite]
  split <;> rfl

/-- The seven greatest decimals that are written are read as finite values too. -/
theorem scaled?_greatest :
    ∀ n ∈ List.range 7, (scaled? (17976931348623151 + n) 292).isSome = true := by
  decide +kernel

/-- **What is written for a value scales to a finite one,** with trailing zeros or without. -/
theorem scaled?_shortest {m : Nat} (hm : 0 < m) (hm' : m < 2 ^ 53) {e : Int} (he : e ≤ 971)
    {digits k : Nat} (h : (Decimal.shortest .even m e).digits = digits * 10 ^ k) :
    (scaled? digits ((Decimal.shortest .even m e).exponent + k)).isSome = true := by
  rcases lt_or_ge ((Decimal.shortest .even m e).exponent + k) 0 with hneg | hnonneg
  · exact scaled?_of_neg digits hneg
  obtain ⟨j, hj⟩ := Int.eq_ofNat_of_zero_le hnonneg
  rw [hj]
  rcases Decimal.shortest_bounded hm hm' he with hle | ⟨hexp, hleast, hmost⟩
  · refine scaled?_of_le ?_
    have hten : ((10 : ℕ) : ℚ) = 10 := by norm_num
    rw [h, Nat.cast_mul, Nat.cast_pow, mul_assoc, hten, ← zpow_natCast,
      ← zpow_add₀ (by norm_num), add_comm (k : Int), hj, zpow_natCast] at hle
    exact_mod_cast hle
  · -- No trailing zero is left out of these.
    obtain rfl : k = 0 := by
      rcases Nat.eq_zero_or_eq_succ_pred k with hk | hk
      · exact hk
      · rw [hk, pow_succ, ← mul_assoc] at h
        omega
    rw [pow_zero, mul_one] at h
    obtain rfl : j = 292 := by omega
    have hdigits := scaled?_greatest (digits - 17976931348623151) (List.mem_range.2 (by omega))
    rwa [show 17976931348623151 + (digits - 17976931348623151) = digits by omega] at hdigits

/-! ### Layouts -/

/-- Whether a literal denotes a floating-point number. -/
structure IsReal (n : Numeral) : Prop extends n.IsWritten where
  marked : n.fraction ≠ [] ∨ n.exponent ≠ none
  fits : n.decimal.digits < wordLimit
  inRange : (scaled? n.decimal.digits n.decimal.exponent).isSome = true

theorem IsReal.value? {n : Numeral} (h : n.IsReal) : ∃ x, n.value? = some (.real x) := by
  obtain ⟨y, hy⟩ := Option.isSome_iff_exists.1 h.inRange
  rw [value?_of_marked h.marked h.fits, hy]
  exact ⟨_, rfl⟩

/-- Digits as they stand in front of an exponent or a fraction. -/
structure IsRow (ds : List Nat) : Prop where
  ne_nil : ds ≠ []
  lead : ∀ es, ds ≠ 0 :: es
  lt : ∀ d ∈ ds, d < 10

/-- The literal of digits with the point at its place. -/
def plain (negative : Bool) (ds : List Nat) (e : Int) : Numeral :=
  let point : Int := ds.length + e
  if 0 ≤ e then ⟨negative, ds ++ List.replicate e.toNat 0, [0], none⟩
  else if 0 < point then ⟨negative, ds.take point.toNat, ds.drop point.toNat, none⟩
  else ⟨negative, [0], List.replicate (-point).toNat 0 ++ ds, none⟩

/-- The literal of digits with one before the point and an exponent. -/
def scientific (negative : Bool) (ds : List Nat) (power : Int) : Numeral :=
  ⟨negative, ds.take 1, ds.drop 1, some power⟩

theorem fractionChars_of_ne_nil {ds : List Nat} (h : ds ≠ []) :
    fractionChars ds = '.' :: ds.map Nat.digitChar := by
  obtain ⟨d, ds, rfl⟩ := List.exists_cons_of_ne_nil h
  rfl

theorem chars_plain (negative : Bool) {ds : List Nat} (hne : ds ≠ []) (e : Int) :
    (plain negative ds e).chars = (if negative then ['-'] else []) ++
      Layout.data.plain (ds.map Nat.digitChar) e := by
  have hfraction : fractionChars [0] = ['.', '0'] := rfl
  unfold plain Layout.plain
  simp only [List.length_map]
  split
  · simp [chars, hfraction, exponentChars, Layout.data]
  split
  · next he hpoint =>
    have hdrop : ds.drop (ds.length + e).toNat ≠ [] := by
      rw [ne_eq, List.drop_eq_nil_iff]
      omega
    simp [chars, fractionChars_of_ne_nil hdrop, exponentChars]
  · generalize (-(ds.length + e)).toNat = k
    have happend : List.replicate k 0 ++ ds ≠ [] := by simp [hne]
    simp [chars, fractionChars_of_ne_nil happend, exponentChars]

theorem chars_scientific (negative : Bool) (ds : List Nat) (power : Int) :
    (scientific negative ds power).chars = (if negative then ['-'] else []) ++
      Layout.scientific (ds.map Nat.digitChar) power := by
  unfold scientific Layout.scientific
  rw [← List.map_drop, ← List.map_take]
  cases ds.drop 1 <;> simp [chars, fractionChars, exponentChars]

theorem decimal_scientific (negative : Bool) {ds : List Nat} (hne : ds ≠ []) (e : Int) :
    (scientific negative ds (ds.length + e - 1)).decimal = ⟨ofDigits 10 ds, e⟩ := by
  have hlen : 0 < ds.length := List.length_pos_iff.2 hne
  unfold decimal scientific
  rw [List.take_append_drop, Option.getD_some, List.length_drop]
  congr 1
  omega

theorem isReal_scientific (negative : Bool) {ds : List Nat} (h : IsRow ds) {e : Int}
    (hfits : ofDigits 10 ds < wordLimit) (hrange : (scaled? (ofDigits 10 ds) e).isSome = true) :
    (scientific negative ds (ds.length + e - 1)).IsReal := by
  have hdecimal := decimal_scientific negative h.ne_nil e
  refine ⟨⟨?_, ?_, ?_, ?_⟩, .inr nofun, ?_, ?_⟩
  · simp [scientific, h.ne_nil]
  · intro es hes
    obtain ⟨d, ds, rfl⟩ := List.exists_cons_of_ne_nil h.ne_nil
    cases hes
    rfl
  · exact fun d hd => h.lt d (List.mem_of_mem_take hd)
  · exact fun d hd => h.lt d (List.mem_of_mem_drop hd)
  · rwa [hdecimal]
  · rwa [hdecimal]

/-- A literal with a fraction and without an exponent is always in range. -/
theorem isReal_of_fraction (negative : Bool) {whole fraction : List Nat} (hwhole : whole ≠ [])
    (hlead : ∀ ds, whole = 0 :: ds → ds = []) (hfraction : fraction ≠ [])
    (hlt : ∀ d ∈ whole ++ fraction, d < 10) (hfits : ofDigits 10 (whole ++ fraction) < wordLimit) :
    (⟨negative, whole, fraction, none⟩ : Numeral).IsReal := by
  rw [List.forall_mem_append] at hlt
  refine ⟨⟨hwhole, hlead, hlt.1, hlt.2⟩, .inl hfraction, hfits, scaled?_of_neg _ ?_⟩
  have hlen := List.length_pos_iff.2 hfraction
  simp only [decimal, Option.getD_none]
  omega

theorem isReal_plain (negative : Bool) {ds : List Nat} (h : IsRow ds) {e : Int}
    (hfits : ofDigits 10 ds < wordLimit) (hplaces : ds.length + e ≤ 16) :
    (plain negative ds e).IsReal := by
  have hzeros (k : Nat) : ∀ d ∈ List.replicate k 0, d < 10 := by
    intro d hd
    rw [List.eq_of_mem_replicate hd]
    decide
  unfold plain
  dsimp only
  split
  · next he =>
    have hlt : ∀ d ∈ ds ++ List.replicate e.toNat 0, d < 10 :=
      List.forall_mem_append.2 ⟨h.lt, hzeros _⟩
    refine isReal_of_fraction negative (by simp [h.ne_nil]) (fun es hes => ?_)
      (List.cons_ne_nil _ _) (List.forall_mem_append.2 ⟨hlt, by decide⟩) ?_
    · obtain ⟨d, ds, rfl⟩ := List.exists_cons_of_ne_nil h.ne_nil
      exact absurd (congrArg (· :: ds) (List.cons.inj hes).1) (h.lead ds)
    · -- A zero is put behind at most sixteen digits.
      have hvalue := ofDigits_lt hlt
      rw [List.length_append, List.length_replicate] at hvalue
      have hpow : 10 ^ (ds.length + e.toNat) ≤ 10 ^ 16 :=
        Nat.pow_le_pow_right (by decide) (by omega)
      rw [ofDigits_append]
      change _ * 10 ^ 1 + 0 < 2 ^ 64
      omega
  have hsplit := List.take_append_drop (ds.length + e).toNat ds
  split
  · next he hpoint =>
    refine isReal_of_fraction negative ?_ (fun es hes => ?_) ?_ (by rw [hsplit]; exact h.lt)
      (by rwa [hsplit])
    · rw [ne_eq, List.take_eq_nil_iff]
      rintro (hzero | hnil)
      · omega
      · exact h.ne_nil hnil
    · rw [hes, List.cons_append] at hsplit
      exact absurd hsplit.symm (h.lead _)
    · rw [ne_eq, List.drop_eq_nil_iff]
      omega
  · refine isReal_of_fraction negative (List.cons_ne_nil _ _) ?_ (by simp [h.ne_nil])
      (List.forall_mem_append.2 ⟨by decide, List.forall_mem_append.2 ⟨hzeros _, h.lt⟩⟩) ?_
    · rintro _ ⟨⟩
      rfl
    · rwa [ofDigits_append, ofDigits_append, ofDigits_replicate, Nat.zero_mul,
        Nat.zero_add, show ofDigits 10 [0] = 0 from rfl, Nat.zero_mul, Nat.zero_add]

theorem digitChar_ne_zero : ∀ d < 10, 0 < d → (d.digitChar == '0') = false := by
  decide

/-- Digits that are not all zero, parted from the zeros behind them. -/
theorem exists_kept {ds : List Nat} (hlt : ∀ d ∈ ds, d < 10) (hne : ofDigits 10 ds ≠ 0) :
    ∃ es k, ds = es ++ List.replicate k 0 ∧ es ≠ [] ∧
      ((ds.map Nat.digitChar).reverse.dropWhile (· == '0')).reverse = es.map Nat.digitChar := by
  induction ds using List.reverseRecOn with
  | nil => exact absurd rfl hne
  | append_singleton ds d ih =>
    rw [List.forall_mem_append] at hlt
    have hd := hlt.2 d (List.mem_singleton_self d)
    rcases Nat.eq_zero_or_pos d with rfl | hpos
    · obtain ⟨es, k, rfl, hes, hkept⟩ := ih hlt.1 (by
        intro hzero
        rw [ofDigits_append, hzero] at hne
        exact hne rfl)
      refine ⟨es, k + 1, by rw [List.replicate_succ', List.append_assoc], hes, ?_⟩
      rw [List.map_append, List.reverse_append]
      exact hkept
    · refine ⟨ds ++ [d], 0, (List.append_nil _).symm, by simp, ?_⟩
      have hchar : (d.digitChar == '0') = false := digitChar_ne_zero d hd hpos
      rw [List.map_append, List.reverse_append, List.map_singleton, List.reverse_singleton,
        List.singleton_append, List.dropWhile_cons, hchar]
      simp

theorem significant_eq {d : Decimal} (h : 0 < d.digits) :
    ∃ ds k, Layout.significant d = (ds.map Nat.digitChar, d.exponent + (k : Nat)) ∧ IsRow ds ∧
      d.digits = ofDigits 10 ds * 10 ^ k := by
  have hlt : ∀ x ∈ digits d.digits, x < 10 := fun x hx => lt_of_mem_digits hx
  obtain ⟨ds, k, hsplit, hne, hkept⟩ :=
    exists_kept hlt (by rw [ofDigits_digits]; exact h.ne')
  rw [hsplit] at hlt
  refine ⟨ds, k, ?_, ⟨hne, fun es hes => ?_, (List.forall_mem_append.1 hlt).1⟩, ?_⟩
  · unfold Layout.significant
    dsimp only
    rw [natText_eq_map, hkept, hsplit]
    simp
  · rw [hes, List.cons_append] at hsplit
    exact h.ne' (eq_zero_of_digits hsplit).1
  · have hvalue := ofDigits_digits d.digits
    rw [hsplit, ofDigits_append, ofDigits_replicate, List.length_replicate, Nat.add_zero] at hvalue
    exact hvalue.symm

/-- **The text of a finite value is that of a literal that denotes a floating-point number.** -/
theorem exists_chars_eq_text {x : Binary64} (hfinite : x.isFinite = true) (hproper : x.IsProper) :
    ∃ n : Numeral, n.IsReal ∧ Layout.data.text x = n.chars := by
  cases x with
  | nan | infinite s => cases hfinite
  | finite s m e =>
    obtain ⟨hm, -, he⟩ := hproper
    rcases Nat.eq_zero_or_pos m with rfl | hpos
    · refine ⟨⟨s, [0], [0], none⟩, ?_, by cases s <;> rfl⟩
      exact isReal_of_fraction s (by decide) (by rintro _ ⟨⟩; rfl) (by decide) (by decide)
        (by decide)
    have hwritten := Decimal.written_shortest .even hpos e
    obtain ⟨ds, k, hsignificant, hrow, hdigits⟩ := significant_eq hwritten.digits_pos
    have hfits : ofDigits 10 ds < wordLimit := by
      have hle : ofDigits 10 ds ≤ 10 ^ 17 :=
        (Nat.le_mul_of_pos_right _ (Nat.pow_pos (by decide))).trans
          (hdigits.symm.trans_le hwritten.digits_le)
      exact hle.trans_lt (by decide)
    have htext : Layout.data.text (.finite s m e) = (if s then ['-'] else []) ++
        Layout.data.decimal (Decimal.shortest .even m e) := by
      rw [Layout.text, if_neg hpos.ne']
      rfl
    have hscaled := scaled?_shortest hpos hm he hdigits
    rw [htext, Layout.decimal, hsignificant]
    dsimp only
    rw [show Layout.data.positional = some (-5, 15) from rfl, List.length_map]
    generalize (Decimal.shortest .even m e).exponent + (k : Int) = power at *
    by_cases hplain : -5 ≤ ds.length + power - 1 ∧ ds.length + power - 1 ≤ 15
    · refine ⟨plain s ds power, isReal_plain s hrow hfits (by omega), ?_⟩
      rw [chars_plain s hrow.ne_nil]
      exact congrArg _ (if_pos hplain)
    · refine ⟨_, isReal_scientific s hrow hfits hscaled, ?_⟩
      rw [chars_scientific]
      exact congrArg _ (if_neg hplain)

end Numeral

/-! ### Numbers -/

/-- Whether a number is one that JSON data holds: a whole one that fits 64 bits, or a finite
floating-point number. -/
def Number.IsStored : Json.Number → Prop
  | .integer n => (Json.Number.integer n).IsWord
  | .real x => x.isFinite = true ∧ x.IsProper

/-- The number that the text of a number denotes. -/
def Number.reread (n : Json.Number) : Json.Number :=
  match readNumeral n.text with
  | .ok (literal, _) => literal.value?.getD n
  | .error _ => n

theorem Number.IsWord.isStored {n : Json.Number} (h : n.IsWord) : n.IsStored := by
  cases n with
  | integer n => exact h
  | real x => exact absurd h id

theorem Number.reread_eq {n : Json.Number} {literal : Numeral} (h : literal.IsWritten)
    (htext : n.text = literal.chars) : n.reread = literal.value?.getD n := by
  have hread := readNumeral_chars h delimited_nil
  rw [List.append_nil, ← htext] at hread
  rw [reread, hread]

/-- Whole numbers are read as themselves. -/
theorem Number.reread_of_isWord {n : Json.Number} (h : n.IsWord) : n.reread = n := by
  cases n with
  | integer n =>
    have htext : (integer n).text = (Numeral.ofInt n).chars := (Numeral.chars_ofInt n).symm
    rw [reread_eq (Numeral.isWritten_ofInt n) htext, Numeral.value?_ofInt h, Option.getD_some]
  | real x => exact absurd h id

/-- **The text of a number is a literal, which denotes a number again.** -/
theorem Number.IsStored.exists_literal {n : Json.Number} (h : n.IsStored) :
    ∃ literal : Numeral, literal.IsWritten ∧ n.text = literal.chars ∧
      literal.value? = some n.reread := by
  cases n with
  | integer n =>
    refine ⟨.ofInt n, Numeral.isWritten_ofInt n, (Numeral.chars_ofInt n).symm, ?_⟩
    have hword : (integer n).IsWord := h
    rw [reread_of_isWord hword, Numeral.value?_ofInt hword]
  | real x =>
    obtain ⟨literal, hreal, htext⟩ := Numeral.exists_chars_eq_text h.1 h.2
    change (real x).text = literal.chars at htext
    obtain ⟨y, hy⟩ := hreal.value?
    refine ⟨literal, hreal.toIsWritten, htext, ?_⟩
    rw [reread_eq hreal.toIsWritten htext, hy, Option.getD_some]

end TableFilter.Json
