import TableFilter.Proofs.Condition.Return
import TableFilter.Proofs.Number.Whole

/-!
# Amounts of balances

The amount of a balance is entered as text, compares as a number and comes back as text.

* `Operator.tabled` is the operator table: what each operator asks of a name and a scalar
  (`Operator.fragment_eq_tabled`), and `Operator.recovered` what comes back of it.
* The literal of a whole number below `2 ^ 53`, blanks around it or not, is that integer in the
  document, whatever its sign and its leading zeros. It comes back in its one decimal form.
* A text that is no finite number is matched as it stands, and no other text is
  (`Condition.fragment?_balance`).
-/

namespace TableFilter

/-! ### The operator table -/

namespace Operator

/-- What an operator asks of a name and a scalar. Of a range there is a table entry only for its two
bounds; with a single scalar it is equality. -/
def tabled (op : Operator) (name : String) (value : Scalar) : Document :=
  match op with
  | eq | isBetween | unknown => .leaf .equal [(name, value)]
  | ne => .not (.leaf .equal [(name, value)])
  | lt => .leaf (.compare .lt) [(name, value)]
  | lte => .leaf (.compare .lte) [(name, value)]
  | gt => .leaf (.compare .gt) [(name, value)]
  | gte => .leaf (.compare .gte) [(name, value)]
  | isEmpty => .not (.leaf .present [(name, .bool true)])
  | isNotEmpty => .leaf .present [(name, .bool true)]

theorem fragment_eq_tabled (op : Operator) (name : String) (value : Scalar) :
    op.fragment name value = op.tabled name value := by
  cases op <;> rfl

/-- The condition that comes back of an operator with a scalar of a text: a comparison by order as one
of numbers, and anything else as the equality of a text. -/
def recovered (op : Operator) (name text : String) : Condition :=
  if op.isOrdering then ⟨name, .number, op, .text text⟩ else ⟨name, .text, .eq, .text text⟩

variable {op : Operator} (hop : op.isPresence = false) {name : String} {value : Scalar}
include hop

theorem ofDocument_tabled :
    Conditions.ofDocument (op.tabled name value) = ⟨[op.recovered name value.text], .and⟩ := by
  cases op with
  | isEmpty | isNotEmpty => cases hop
  | eq | ne | lt | lte | gt | gte | isBetween | unknown => rfl

/-- Only equality with a scalar is a leaf that asks for it. -/
theorem eq_of_tabled {other : Scalar} (h : op.tabled name value = .leaf .equal [(name, other)]) :
    value = other := by
  cases op with
  | isEmpty | isNotEmpty => cases hop
  | ne | lt | lte | gt | gte => cases h
  | eq | isBetween | unknown =>
    cases h
    rfl

end Operator

/-! ### Whole amounts -/

/-- A number whose exact value is a whole one below `2 ^ 53` is that integer as a scalar. -/
theorem Scalar.ofReal_of_toInt? {x : Number.Binary64} {n : ℤ} (h : x.toInt? = some n)
    (hn : |n| < 2 ^ 53) : ofReal x = .number (.integer n) := by
  unfold ofReal
  rw [h]
  dsimp only
  rw [Nat.pow_eq, if_pos]
  rw [Int.abs_eq_natAbs] at hn
  exact_mod_cast hn

/-- An integer as filter text is its decimal text. -/
theorem Scalar.text_integer (n : ℤ) : (Scalar.number (.integer n)).text = toString n := by
  cases n with
  | ofNat n => rfl
  | negSucc n =>
    change String.ofList ('-' :: Nat.toDigits 10 (n + 1)) = "-" ++ Nat.repr (n + 1)
    rw [← List.singleton_append, String.ofList_append]
    rfl

theorem Scalar.ofReal_ne_string (x : Number.Binary64) (s : String) : ofReal x ≠ .string s := by
  unfold ofReal
  split
  · split <;> nofun
  · split <;> nofun

/-! ### Balances -/

section

open Number (IsIntegerLiteral)
open Number.Binary64 (ofText?)

variable {asset amount : String} {op : Operator} (hop : op.isPresence = false)
include hop

/-- **The amount of a balance that is an integer literal compares as that integer.** -/
theorem Operator.balanceFragment_of_isIntegerLiteral {n : ℤ}
    (h : IsIntegerLiteral (Text.trim amount).toList n) (hn : |n| < 2 ^ 53) :
    op.balanceFragment asset amount =
      op.tabled ("balance[" ++ asset ++ "]") (.number (.integer n)) := by
  obtain ⟨x, hx, hfinite, hvalue⟩ := h.ofText? hn
  unfold balanceFragment
  dsimp only
  rw [hop, if_neg Bool.false_ne_true, hx]
  dsimp only
  rw [if_pos hfinite, fragment_eq_tabled, Scalar.ofReal_of_toInt? hvalue hn]

/-- **The amount of a balance is matched as it stands exactly if it reads as no finite number.** -/
theorem Operator.balanceFragment_eq_text_iff :
    op.balanceFragment asset amount = .leaf .equal [("balance[" ++ asset ++ "]", .string amount)] ↔
      ∀ x, ofText? (Text.trim amount) = some x → x.isFinite = false := by
  unfold balanceFragment
  dsimp only
  rw [hop, if_neg Bool.false_ne_true]
  split
  · next x hx =>
    rw [hx]
    split
    · next hfinite =>
      rw [fragment_eq_tabled]
      refine ⟨fun h => absurd (eq_of_tabled hop h) (Scalar.ofReal_ne_string x amount), fun h => ?_⟩
      rw [h x rfl] at hfinite
      cases hfinite
    · next hfinite =>
      refine ⟨fun _ y hy => ?_, fun _ => rfl⟩
      cases hy
      exact Bool.eq_false_iff.2 hfinite
  · next hx =>
    rw [hx]
    exact ⟨fun _ _ => nofun, fun _ => rfl⟩

/-- **What becomes of the amount of a balance** under any operator that is known and asks for no
presence. If the amount, without the blanks around it, is the literal of an integer of less than 53
bits, the fragment is the entry of the operator table for the balance and that integer, and it comes
back, from the document and from its text, as a condition with the decimal text of the integer. The
fragment matches the amount as it stands, blanks included, exactly if the amount reads as no finite
number. -/
theorem Condition.fragment?_balance (field : String) (hknown : op ≠ .unknown) :
    let c : Condition := ⟨field, .balanceByAsset, op, .pair asset amount⟩
    let name := "balance[" ++ asset ++ "]"
    (∀ n : ℤ, IsIntegerLiteral (Text.trim amount).toList n → |n| < 2 ^ 53 →
      ∃ d, c.fragment? = some d ∧ d = op.tabled name (.number (.integer n)) ∧
        Conditions.ofDocument d = ⟨[op.recovered name (toString n)], .and⟩ ∧
        Conditions.ofText d.text = ⟨[op.recovered name (toString n)], .and⟩) ∧
      (c.fragment? = some (.leaf .equal [(name, .string amount)]) ↔
        ∀ x, ofText? (Text.trim amount) = some x → x.isFinite = false) := by
  intro c name
  have hfragment : c.fragment? = some (op.balanceFragment asset amount) :=
    if_neg (not_or.2 ⟨hknown, nofun⟩)
  refine ⟨fun n hn hsmall => ?_, ?_⟩
  · have htabled : op.balanceFragment asset amount = op.tabled name (.number (.integer n)) :=
      Operator.balanceFragment_of_isIntegerLiteral hop hn hsmall
    rw [htabled] at hfragment
    have hback : Conditions.ofDocument (op.tabled name (.number (.integer n))) =
        ⟨[op.recovered name (toString n)], .and⟩ := by
      rw [Operator.ofDocument_tabled hop, Scalar.text_integer]
    have hword : (op.tabled name (.number (.integer n))).IsWord := by
      have hn : (Json.Number.integer n).IsWord := by
        rw [abs_lt] at hsmall
        constructor <;> omega
      rw [← Operator.fragment_eq_tabled]
      exact Operator.hasAll_fragment (fun _ => trivial) op name (.inr hn)
    refine ⟨_, hfragment, rfl, hback, ?_⟩
    rw [Conditions.ofText_fragment_text hfragment, Document.reread_of_isWord hword, hback]
  · rw [hfragment, Option.some.injEq]
    exact Operator.balanceFragment_eq_text_iff hop

end

/-- A debt that is spelled with blanks and zeros compares as the integer, and an infinite one is
matched as it is spelled. -/
theorem Condition.fragment?_balance_debt :
    let debt : Condition := ⟨"balance", .balanceByAsset, .gte, .pair "USD" " -007 "⟩
    let infinite : Condition := ⟨"balance", .balanceByAsset, .lt, .pair "USD" " -Inf "⟩
    Number.IsIntegerLiteral (Text.trim " -007 ").toList (-7) ∧
      (∃ d, debt.fragment? = some d ∧
        d = .leaf (.compare .gte) [("balance[USD]", .number (.integer (-7)))] ∧
        Conditions.ofText d.text = ⟨[⟨"balance[USD]", .number, .gte, .text "-7"⟩], .and⟩) ∧
      infinite.fragment? = some (.leaf .equal [("balance[USD]", .string " -Inf ")]) := by
  intro debt infinite
  have hchars : (Text.trim " -007 ").toList = '-' :: [0, 0, 7].map Nat.digitChar := by
    decide +kernel
  have hliteral : Number.IsIntegerLiteral (Text.trim " -007 ").toList (-7) := by
    rw [hchars]
    exact .minus (by decide) (by decide)
  have hread : Number.Binary64.ofText? (Text.trim " -Inf ") = some (.infinite true) := by
    decide +kernel
  obtain ⟨hwhole, -⟩ := @fragment?_balance "USD" " -007 " .gte rfl "balance" nofun
  obtain ⟨d, hd, htabled, -, hback⟩ := hwhole (-7) hliteral (by decide)
  obtain ⟨-, htext⟩ := @fragment?_balance "USD" " -Inf " .lt rfl "balance" nofun
  refine ⟨hliteral, ⟨d, hd, htabled, hback⟩, htext.2 fun x hx => ?_⟩
  rw [hread] at hx
  cases hx
  rfl

end TableFilter
