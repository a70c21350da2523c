import Mathlib.Data.List.Induction
import Mathlib.Tactic.Ring
import TableFilter.Number.Natural

/-!
# Decimal digits read back

`Number.digits` is the row of digits that `Number.natText` writes. It denotes the number
(`ofDigits_digits`), has no superfluous zero in front (`eq_zero_of_digits`), and `takeDigits` finds
it in front of any text that goes on without a digit (`takeDigits_natText`).
-/

namespace TableFilter.Number

/-- The decimal digits of a number, the most significant one first. Zero has one digit. -/
def digits (n : Nat) : List Nat :=
  if n < 10 then [n] else digits (n / 10) ++ [n % 10]

theorem natText_of_lt {n : Nat} (h : n < 10) : natText n = [n.digitChar] :=
  Nat.toDigits_of_lt_base h

theorem natText_of_le {n : Nat} (h : 10 ≤ n) :
    natText n = natText (n / 10) ++ [(n % 10).digitChar] := by
  have hlast := natText_of_lt (Nat.mod_lt n (show 0 < 10 by decide))
  rw [← hlast]
  unfold natText
  rw [Nat.toDigits_append_toDigits (by decide) (by omega) (Nat.mod_lt n (by decide)),
    Nat.div_add_mod]

theorem natText_eq_map (n : Nat) : natText n = (digits n).map Nat.digitChar := by
  fun_induction digits n with
  | case1 n h => exact natText_of_lt h
  | case2 n h ih => rw [natText_of_le (by omega), ih, List.map_append, List.map_singleton]

theorem digits_ne_nil (n : Nat) : digits n ≠ [] := by
  unfold digits
  split <;> simp

theorem lt_of_mem_digits {n d : Nat} (h : d ∈ digits n) : d < 10 := by
  fun_induction digits n with
  | case1 n hn => rwa [List.mem_singleton.1 h]
  | case2 n hn ih =>
    rcases List.mem_append.1 h with hd | hd
    · exact ih hd
    · rw [List.mem_singleton.1 hd]
      exact Nat.mod_lt n (by decide)

/-- **The digits of a number denote it.** -/
theorem ofDigits_digits (n : Nat) : ofDigits 10 (digits n) = n := by
  fun_induction digits n with
  | case1 n h => simp [ofDigits]
  | case2 n h ih =>
    unfold ofDigits at ih ⊢
    rw [List.foldl_append, ih]
    exact Nat.div_add_mod n 10

/-- Only zero begins with the digit zero, and it has no other. -/
theorem eq_zero_of_digits {n : Nat} {ds : List Nat} (h : digits n = 0 :: ds) :
    n = 0 ∧ ds = [] := by
  fun_induction digits n generalizing ds with
  | case1 n hn =>
    rw [List.cons.injEq] at h
    exact ⟨h.1, h.2.symm⟩
  | case2 n hn ih =>
    obtain ⟨d, es, hd⟩ := List.exists_cons_of_ne_nil (digits_ne_nil (n / 10))
    rw [hd, List.cons_append, List.cons.injEq] at h
    have := (ih (hd.trans (by rw [h.1]))).1
    omega

/-! ### Rows of digits -/

theorem ofDigits_cons (d : Nat) (ds : List Nat) :
    ofDigits 10 (d :: ds) = d * 10 ^ ds.length + ofDigits 10 ds := by
  have hfold (n : Nat) :
      ds.foldl (fun n d => 10 * n + d) n = n * 10 ^ ds.length + ofDigits 10 ds := by
    unfold ofDigits
    induction ds generalizing n with
    | nil => simp
    | cons e ds ih =>
      rw [List.foldl_cons, ih, List.foldl_cons, ih (10 * 0 + e), List.length_cons, pow_succ]
      ring
  rw [← hfold, ofDigits, List.foldl_cons, Nat.mul_zero, Nat.zero_add]

theorem ofDigits_append (ds es : List Nat) :
    ofDigits 10 (ds ++ es) = ofDigits 10 ds * 10 ^ es.length + ofDigits 10 es := by
  induction ds with
  | nil => simp [ofDigits]
  | cons d ds ih =>
    rw [List.cons_append, ofDigits_cons, ih, ofDigits_cons, List.length_append, pow_add]
    ring

theorem ofDigits_replicate (k : Nat) : ofDigits 10 (List.replicate k 0) = 0 := by
  induction k with
  | zero => rfl
  | succ k ih => rw [List.replicate_succ', ofDigits_append, ih]; rfl

theorem ofDigits_lt {ds : List Nat} (h : ∀ d ∈ ds, d < 10) : ofDigits 10 ds < 10 ^ ds.length := by
  induction ds using List.reverseRecOn with
  | nil => exact one_pos
  | append_singleton ds d ih =>
    rw [List.forall_mem_append] at h
    have hd := h.2 d (List.mem_singleton_self d)
    have hlt := ih h.1
    rw [ofDigits_append, List.length_append, List.length_singleton, pow_succ]
    change _ * 10 ^ 1 + (10 * 0 + d) < _
    omega

/-! ### Reading -/

/-- Whether the text goes on without a digit. -/
def NoDigit (rest : List Char) : Prop := ∀ c ∈ rest.head?, digit? c = none

theorem digit?_digitChar {d : Nat} (h : d < 10) : digit? d.digitChar = some d := by
  revert d
  decide

/-- The digits that are taken stand in front of the rest. -/
theorem takeDigits_spec (cs : List Char) :
    ∃ front, cs = front ++ (takeDigits cs).2 ∧ front.length = (takeDigits cs).1.length ∧
      ∀ c ∈ front, digit? c ≠ none := by
  induction cs with
  | nil => exact ⟨[], rfl, rfl, by simp⟩
  | cons c cs ih =>
    rw [takeDigits]
    split
    · next d hd =>
      obtain ⟨front, heq, hlength, hfront⟩ := ih
      refine ⟨c :: front, congrArg (c :: ·) heq, congrArg Nat.succ hlength, ?_⟩
      exact List.forall_mem_cons.2 ⟨by simp [hd], hfront⟩
    · exact ⟨[], rfl, rfl, by simp⟩

theorem takeDigits_of_noDigit {rest : List Char} (h : NoDigit rest) :
    takeDigits rest = ([], rest) := by
  cases rest with
  | nil => rfl
  | cons c cs => rw [takeDigits, h c rfl]

theorem takeDigits_map {ds : List Nat} {rest : List Char} (hds : ∀ d ∈ ds, d < 10)
    (hrest : NoDigit rest) : takeDigits (ds.map Nat.digitChar ++ rest) = (ds, rest) := by
  induction ds with
  | nil => exact takeDigits_of_noDigit hrest
  | cons d ds ih =>
    rw [List.forall_mem_cons] at hds
    rw [List.map_cons, List.cons_append, takeDigits, digit?_digitChar hds.1, ih hds.2]

/-- **The digits of a number are found in front of any text that goes on without one.** -/
theorem takeDigits_natText (n : Nat) {rest : List Char} (h : NoDigit rest) :
    takeDigits (natText n ++ rest) = (digits n, rest) := by
  rw [natText_eq_map]
  exact takeDigits_map (fun d hd => lt_of_mem_digits hd) h

/-- The text of a natural number begins with a digit. -/
theorem natText_eq_cons (n : Nat) : ∃ d ds, d < 10 ∧ natText n = d.digitChar :: ds := by
  obtain ⟨d, ds, hd⟩ := List.exists_cons_of_ne_nil (digits_ne_nil n)
  refine ⟨d, ds.map Nat.digitChar, lt_of_mem_digits (hd ▸ List.mem_cons_self), ?_⟩
  rw [natText_eq_map, hd, List.map_cons]

end TableFilter.Number
