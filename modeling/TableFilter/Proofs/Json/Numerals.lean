import TableFilter.Json.Reading
import TableFilter.Proofs.Number.Digits

/-!
# Number literals read back

* `Numeral.chars` is the text of a literal. A literal that is `Numeral.IsWritten` is read back in
  front of any text that is `Delimited` (`readNumeral_chars`).
* A literal with a fraction or an exponent denotes its digits, scaled by a power of ten
  (`Numeral.value?_of_marked`).
* A whole number of 64 bits (`Json.Number.IsWord`) is written as the literal of its digits, which
  denotes it (`Numeral.value?_ofInt`).
-/

namespace TableFilter.Json

open TableFilter.Number

/-! ### What follows a number -/

/-- Whether a text is at its end or goes on with what may follow a value. -/
def Delimited (rest : List Char) : Prop := ∀ c ∈ rest.head?, c ∈ [',', ']', '\x7d']

theorem delimited_nil : Delimited [] := fun _ h => nomatch h

theorem delimited_cons {c : Char} (h : c ∈ [',', ']', '\x7d']) (cs : List Char) :
    Delimited (c :: cs) := by
  rintro _ ⟨⟩
  exact h

theorem Delimited.noDigit {rest : List Char} (h : Delimited rest) : NoDigit rest := by
  have hall : [',', ']', '\x7d'].all (fun c => digit? c = none) = true := by decide
  exact fun c hc => of_decide_eq_true (List.all_eq_true.1 hall c (h c hc))

/-! ### Literals in a text -/

namespace Numeral

/-- The fraction of a literal with its point, unless there is none. -/
def fractionChars : List Nat → List Char
  | [] => []
  | d :: ds => '.' :: (d :: ds).map Nat.digitChar

/-- The exponent of a literal with its mark and its sign, unless there is none. -/
def exponentChars : Option Int → List Char
  | none => []
  | some e => 'e' :: (if e < 0 then '-' else '+') :: natText e.natAbs

/-- The text of a literal. -/
def chars (n : Numeral) : List Char :=
  (if n.negative then ['-'] else []) ++ (n.whole.map Nat.digitChar ++
    (fractionChars n.fraction ++ exponentChars n.exponent))

/-- Whether a literal has decimal digits, at least one before the point, and no zero in front of
others there. -/
structure IsWritten (n : Numeral) : Prop where
  whole_ne_nil : n.whole ≠ []
  whole_lead : ∀ ds, n.whole = 0 :: ds → ds = []
  whole_lt : ∀ d ∈ n.whole, d < 10
  fraction_lt : ∀ d ∈ n.fraction, d < 10

end Numeral

section

variable {rest : List Char} {ds : List Nat}

open Numeral

theorem readExponent_chars (e : Option Int) (h : Delimited rest) :
    readExponent (exponentChars e ++ rest) = .ok (e, rest) := by
  cases e with
  | none =>
    cases rest with
    | nil => rfl
    | cons c cs =>
      have hc : ¬(c = 'e' ∨ c = 'E') := by
        rintro (rfl | rfl) <;> exact absurd (h _ rfl) (by decide)
      exact if_neg hc
  | some e =>
    have hread := takeDigits_natText e.natAbs h.noDigit
    obtain ⟨d, ds, hdigits⟩ := List.exists_cons_of_ne_nil (digits_ne_nil e.natAbs)
    have hvalue : ofDigits 10 (d :: ds) = e.natAbs := hdigits ▸ ofDigits_digits e.natAbs
    rw [hdigits] at hread
    by_cases he : e < 0
    · have habs : -(e.natAbs : Int) = e := by omega
      simp only [exponentChars, if_pos he, List.cons_append, readExponent, true_or, if_true, hread,
        hvalue, habs]
    · have habs : (e.natAbs : Int) = e := by omega
      simp only [exponentChars, if_neg he, List.cons_append, readExponent, true_or, if_true, hread,
        hvalue, Bool.false_eq_true, if_false, habs]

theorem noDigit_exponentChars (e : Option Int) (h : Delimited rest) :
    NoDigit (exponentChars e ++ rest) := by
  cases e with
  | none => exact h.noDigit
  | some e =>
    rintro _ ⟨⟩
    decide

theorem readFraction_chars (hds : ∀ d ∈ ds, d < 10) (e : Option Int) (h : Delimited rest) :
    readFraction (fractionChars ds ++ (exponentChars e ++ rest)) =
      .ok (ds, exponentChars e ++ rest) := by
  cases ds with
  | nil =>
    have hpoint (cs : List Char) : exponentChars e ++ rest ≠ '.' :: cs := by
      intro heq
      cases e with
      | none => exact absurd (h '.' (by rw [← List.nil_append rest]; exact heq ▸ rfl)) (by decide)
      | some e => exact absurd (List.cons.inj heq).1 (by decide)
    unfold readFraction
    split
    · next cs heq => exact absurd heq (hpoint cs)
    · rfl
  | cons d ds =>
    rw [fractionChars, List.cons_append, readFraction,
      takeDigits_map hds (noDigit_exponentChars e h)]

theorem noDigit_fractionChars (ds : List Nat) (e : Option Int) (h : Delimited rest) :
    NoDigit (fractionChars ds ++ (exponentChars e ++ rest)) := by
  cases ds with
  | nil => exact noDigit_exponentChars e h
  | cons d ds =>
    rintro _ ⟨⟩
    decide

theorem readWhole_map (hne : ds ≠ []) (hlead : ∀ es, ds = 0 :: es → es = [])
    (hds : ∀ d ∈ ds, d < 10) (h : NoDigit rest) :
    readWhole (ds.map Nat.digitChar ++ rest) = .ok (ds, rest) := by
  rw [readWhole, takeDigits_map hds h]
  split
  · next he => exact absurd (congrArg Prod.fst he) hne
  · next he => exact absurd (hlead _ (congrArg Prod.fst he)) (List.cons_ne_nil _ _)
  · next he => rw [← he]

/-- **A literal is read back in front of any delimited text.** -/
theorem readNumeral_chars {n : Numeral} (h : n.IsWritten) (hrest : Delimited rest) :
    readNumeral (n.chars ++ rest) = .ok (n, rest) := by
  obtain ⟨negative, whole, fraction, exponent⟩ := n
  obtain ⟨hne, hlead, hwhole, hfraction⟩ := h
  have hread := readWhole_map hne hlead hwhole (noDigit_fractionChars fraction exponent hrest)
  have hread' := readFraction_chars hfraction exponent hrest
  have hread'' := readExponent_chars exponent hrest
  unfold readNumeral Numeral.chars
  simp only [List.append_assoc]
  cases negative with
  | true =>
    simp only [if_pos, List.singleton_append]
    rw [hread]
    simp only [bind, Except.bind, hread', hread'']
    rfl
  | false =>
    -- A digit is no sign.
    have hsign (r : List Char) :
        whole.map Nat.digitChar ++ (fractionChars fraction ++ (exponentChars exponent ++ rest)) ≠
          '-' :: r := by
      obtain ⟨d, ds, rfl⟩ := List.exists_cons_of_ne_nil hne
      intro heq
      have hdigit := digit?_digitChar (hwhole d List.mem_cons_self)
      rw [(List.cons.inj heq).1] at hdigit
      exact absurd hdigit (by simp [digit?])
    rw [if_neg Bool.false_ne_true, List.nil_append]
    split
    · next r heq => exact absurd heq (hsign r)
    · rw [hread]
      simp only [bind, Except.bind, hread', hread'']
      rfl

end

/-! ### The value of a literal -/

namespace Numeral

/-- The number that a literal denotes in decimal, without its sign. -/
def decimal (n : Numeral) : Decimal :=
  ⟨ofDigits 10 (n.whole ++ n.fraction), n.exponent.getD 0 - n.fraction.length⟩

theorem le_shifted_add (n k d : Nat) : n ≤ n * 10 ^ k + d :=
  (Nat.le_mul_of_pos_right n (Nat.pow_pos (by decide))).trans (Nat.le_add_right _ d)

/-- Digits that fit 64 bits are gathered whole. -/
theorem gather_eq {n : Nat} {ds : List Nat}
    (h : n * 10 ^ ds.length + ofDigits 10 ds < wordLimit) :
    gather n ds = (n * 10 ^ ds.length + ofDigits 10 ds, 0) := by
  induction ds generalizing n with
  | nil => simp [gather, ofDigits]
  | cons d ds ih =>
    have hstep : n * 10 ^ (d :: ds).length + ofDigits 10 (d :: ds) =
        (10 * n + d) * 10 ^ ds.length + ofDigits 10 ds := by
      rw [ofDigits_cons, List.length_cons, pow_succ]
      ring
    rw [hstep] at h ⊢
    rw [gather, if_pos ((le_shifted_add _ _ _).trans_lt h), ih h]

/-- **A literal with a fraction or an exponent denotes its digits scaled,** if they fit 64 bits. -/
theorem value?_of_marked {n : Numeral} (hmark : n.fraction ≠ [] ∨ n.exponent ≠ none)
    (hfits : n.decimal.digits < wordLimit) :
    n.value? = (scaled? n.decimal.digits n.decimal.exponent).map fun x =>
      .real (if n.negative then x.neg else x) := by
  have hint : n.integer? = none := by
    unfold integer?
    rw [if_neg]
    rw [Bool.and_eq_true, List.isEmpty_iff, Option.isNone_iff_eq_none]
    exact fun h => hmark.elim (· h.1) (· h.2)
  have hdigits : n.decimal.digits =
      ofDigits 10 n.whole * 10 ^ n.fraction.length + ofDigits 10 n.fraction :=
    ofDigits_append n.whole n.fraction
  rw [hdigits] at hfits ⊢
  have hfraction := gather_eq hfits
  have hwhole : gather 0 n.whole = (ofDigits 10 n.whole, 0) := by
    have hle := (le_shifted_add (ofDigits 10 n.whole) n.fraction.length _).trans_lt hfits
    have hzero : 0 * 10 ^ n.whole.length + ofDigits 10 n.whole = ofDigits 10 n.whole := by
      rw [Nat.zero_mul, Nat.zero_add]
    have hgather := gather_eq (hzero.trans_lt hle)
    rwa [hzero] at hgather
  have hexponent : ((0 : Nat) : Int) - ((n.fraction.length : Int) - ((0 : Nat) : Int)) +
      n.exponent.getD 0 = n.decimal.exponent := by
    rw [decimal]
    push_cast
    ring
  rw [value?, hint]
  dsimp only
  rw [real?, hwhole]
  dsimp only
  rw [hfraction]
  dsimp only
  rw [hexponent, Option.map_map]
  rfl

end Numeral

/-! ### Whole numbers -/

/-- Whether a number is a whole one that fits 64 bits, with a sign or without. -/
def Number.IsWord : Json.Number → Prop
  | .integer n => -2 ^ 63 ≤ n ∧ n < 2 ^ 64
  | .real _ => False

instance : DecidablePred Number.IsWord
  | .integer n => inferInstanceAs (Decidable (-2 ^ 63 ≤ n ∧ n < 2 ^ 64))
  | .real _ => inferInstanceAs (Decidable False)

/-- A whole number as a literal. -/
def Numeral.ofInt : Int → Numeral
  | .ofNat n => ⟨false, digits n, [], none⟩
  | .negSucc n => ⟨true, digits (n + 1), [], none⟩

theorem Numeral.value?_ofInt {n : Int} (h : (Json.Number.integer n).IsWord) :
    (Numeral.ofInt n).value? = some (.integer n) := by
  obtain ⟨hlow, hhigh⟩ := h
  have hint : (Numeral.ofInt n).integer? = some n := by
    cases n with
    | ofNat m =>
      have hm : m < wordLimit := by
        change m < 2 ^ 64
        simp only [Int.ofNat_eq_natCast] at hhigh
        omega
      simp [Numeral.ofInt, integer?, ofDigits_digits, hm]
    | negSucc m =>
      have hm : ¬(m + 1 = 0 ∨ Nat.pow 2 63 < m + 1) := by
        rw [Nat.pow_eq]
        omega
      simp only [Numeral.ofInt, integer?, ofDigits_digits, if_neg hm]
      rfl
  rw [value?, hint]

theorem Numeral.chars_ofInt (n : Int) : (Numeral.ofInt n).chars = intText n := by
  cases n <;> simp [Numeral.ofInt, Numeral.chars, Numeral.fractionChars, Numeral.exponentChars,
    intText, natText_eq_map]

theorem Numeral.isWritten_ofInt (n : Int) : (Numeral.ofInt n).IsWritten := by
  have hdigits (negative : Bool) (m : Nat) :
      (⟨negative, digits m, [], none⟩ : Numeral).IsWritten :=
    ⟨digits_ne_nil m, fun _ h => (eq_zero_of_digits h).2, fun _ h => lt_of_mem_digits h, nofun⟩
  cases n <;> exact hdigits _ _

end TableFilter.Json
