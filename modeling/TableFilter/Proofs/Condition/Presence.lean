import TableFilter.Proofs.Condition.Scalars
import TableFilter.Condition.Checked

/-!
# Conditions of presence

The operators `isEmpty` and `isNotEmpty` take no value: a registry admits them with a value of any
shape, and it is passed over.

* `Operator.presenceTest` is the document that they ask for, and `Condition.asked` the name that is
  asked about: `balance[key]` for a balance under a key, and otherwise the field.
* Every variant comes to that document, in its own way (`Condition.fragment?_of_presence`), save for
  the ones that do not look at the operator. Of these a date range still compiles to the bounds in its
  value, or to nothing where it has none (`Condition.fragment?_of_dates`).
-/

namespace TableFilter

/-- The test of presence that an operator asks for, negated for `isEmpty`. -/
def Operator.presenceTest (op : Operator) (name : String) : Document :=
  let present := Document.leaf .present [(name, .bool true)]
  if op = .isEmpty then .not present else present

/-- The key of a pair. -/
def Value.key? : Value → Option String
  | pair key _ => some key
  | _ => none

/-- The name that a condition asks about: the balance of an asset, or its field. -/
def Condition.asked (c : Condition) : String :=
  match c.variant, c.value.key? with
  | .balanceByAsset, some key => "balance[" ++ key ++ "]"
  | _, _ => c.field

/-! ### The operator table -/

namespace Operator

variable {op : Operator} (h : op.isPresence = true)
include h

theorem fragment_of_presence (name : String) (scalar : Scalar) :
    op.fragment name scalar = op.presenceTest name := by
  cases op with
  | isEmpty | isNotEmpty => rfl
  | eq | ne | lt | lte | gt | gte | isBetween | unknown => cases h

theorem fragmentOf_of_presence (scalar : String → Scalar) (name : String) (value : Value) :
    op.fragmentOf scalar name value = op.presenceTest name := by
  have hrange : ¬op.isRange = true := by
    cases op with
    | isEmpty | isNotEmpty => nofun
    | eq | ne | lt | lte | gt | gte | isBetween | unknown => cases h
  unfold fragmentOf
  rw [if_neg hrange, fragment_of_presence h]

/-- The amount of a balance is passed over. -/
theorem balanceFragment_of_presence (asset amount : String) :
    op.balanceFragment asset amount = op.presenceTest ("balance[" ++ asset ++ "]") := by
  rw [balanceFragment, if_pos h, fragment_of_presence h]

theorem ne_unknown_of_presence : op ≠ .unknown := fun hop => by
  rw [hop] at h
  cases h

end Operator

/-! ### Conditions -/

namespace Condition

variable {c : Condition}

/-- **Every variant that looks at its operator compiles to the test of presence.** -/
theorem fragment?_of_presence (hop : c.operator.isPresence = true) (hm : c.variant ≠ .metadata)
    (hu : c.variant ≠ .unknown) (hd : c.variant ≠ .dateRange) :
    c.fragment? = some (c.operator.presenceTest c.asked) := by
  obtain ⟨field, variant, op, value⟩ := c
  have hknown : ¬(op = .unknown ∨ variant = .unknown) :=
    not_or.2 ⟨Operator.ne_unknown_of_presence hop, hu⟩
  rw [fragment?, if_neg hknown]
  cases variant with
  | boolean =>
    exact congrArg some (Operator.fragmentOf_of_presence hop _ field value)
  | multiSelect =>
    exact (if_pos hop).trans (congrArg some (Operator.fragmentOf_of_presence hop _ field value))
  | balanceByAsset =>
    cases value with
    | pair key amount => exact congrArg some (Operator.balanceFragment_of_presence hop key amount)
    | text | list => exact congrArg some (Operator.fragmentOf_of_presence hop _ field _)
  | text | number | date | select | slider =>
    exact congrArg some (Operator.fragmentOf_of_presence hop _ field value)
  | metadata => exact absurd rfl hm
  | dateRange => exact absurd rfl hd
  | unknown => exact absurd rfl hu

/-- A date range compiles to the bounds in its value, whatever its operator. -/
theorem fragment?_of_dates (hop : c.operator ≠ .unknown) (hd : c.variant = .dateRange) :
    c.fragment? = (DateRange.ofText? c.value.toParam).bind (·.fragment? c.field) := by
  obtain ⟨field, variant, op, value⟩ := c
  obtain rfl : variant = .dateRange := hd
  exact if_neg (not_or.2 ⟨hop, nofun⟩)

/-- The bounds of a date range are no test of presence. -/
theorem fragment?_ne_presenceTest (hop : c.operator ≠ .unknown) (hd : c.variant = .dateRange)
    (op : Operator) (name : String) : c.fragment? ≠ some (op.presenceTest name) := by
  intro h
  rw [fragment?_of_dates hop hd] at h
  obtain ⟨r, -, hr⟩ := Option.bind_eq_some_iff.1 h
  have hall : (op.presenceTest name).HasAll fun s => s ≠ .bool true :=
    DateRange.hasAll_of_fragment? (fun _ hs => by cases hs) hr
  have hleaf : [(name, Scalar.bool true)] ∈ (op.presenceTest name).leaves := by
    unfold Operator.presenceTest
    dsimp only
    split <;> exact List.mem_singleton_self _
  exact hall _ hleaf _ (List.mem_singleton_self _) rfl

end Condition

namespace Registry

variable {r : Registry} {field : String} {operator : Option Operator} {value : Value}
  {c : Condition}

/-- **An operator of presence is admitted with every value, if with one.** -/
theorem condition_of_presence (h : r.condition field operator value = .ok c)
    (hop : c.operator.isPresence = true) (v : Value) :
    r.condition field operator v = .ok { c with value := v } := by
  unfold condition at h ⊢
  split at h
  · next config _ =>
    obtain ⟨rfl, hallows, -⟩ := FieldConfig.condition_eq_ok_iff.1 h
    refine FieldConfig.condition_eq_ok_iff.2 ⟨rfl, hallows, fun shape hshape => ?_⟩
    rw [Shape.expected?, if_pos hop] at hshape
    cases hshape
  · cases h

/-- **Which conditions of presence compile to the test of presence.** A condition that a registry
admits under `isEmpty` or `isNotEmpty`, on a field that is neither metadata nor unknown, does so
exactly if the field is no date range. Then the registry admits every other value as well, and as
long as the key of a balance stays the fragment is the same. A date range compiles to the bounds that
its value holds, and to nothing if there are none. -/
theorem fragment?_eq_presenceTest_iff (h : r.condition field operator value = .ok c)
    (hop : c.operator.isPresence = true) (hm : c.variant ≠ .metadata) (hu : c.variant ≠ .unknown) :
    (c.fragment? = some (c.operator.presenceTest c.asked) ↔ c.variant ≠ .dateRange) ∧
      (∀ v, r.condition field operator v = .ok { c with value := v }) ∧
      (c.variant ≠ .dateRange → ∀ v : Value, v.key? = value.key? →
        ({ c with value := v } : Condition).fragment? = c.fragment?) ∧
      (c.variant = .dateRange →
        c.fragment? = (DateRange.ofText? value.toParam).bind (·.fragment? field)) := by
  have hknown := Operator.ne_unknown_of_presence hop
  obtain ⟨config, -, hc⟩ := eq_of_condition h
  have hvalue : c.value = value := congrArg Condition.value hc
  have hfield : c.field = field := congrArg Condition.field hc
  refine ⟨⟨fun htest hd => ?_, fun hd => Condition.fragment?_of_presence hop hm hu hd⟩,
    condition_of_presence h hop, fun hd v hv => ?_, fun hd => ?_⟩
  · exact Condition.fragment?_ne_presenceTest hknown hd _ _ htest
  · have hasked : ({ c with value := v } : Condition).asked = c.asked := by
      unfold Condition.asked
      dsimp only
      rw [hv, hvalue]
    rw [Condition.fragment?_of_presence (c := { c with value := v }) hop hm hu hd, hasked,
      Condition.fragment?_of_presence hop hm hu hd]
  · rw [Condition.fragment?_of_dates hknown hd, hvalue, hfield]

/-- An empty choice of tags is still asked about. -/
theorem fragment?_eq_presenceTest_tags :
    let tags := { FieldConfig.plain "Tags" .multiSelect with operators := some [.isEmpty] }
    let r : Registry := ⟨[("tags", tags)]⟩
    let c : Condition := ⟨"tags", .multiSelect, .isEmpty, .list []⟩
    r.condition "tags" none (.list []) = .ok c ∧
      c.fragment? = some (.not (.leaf .present [("tags", .bool true)])) := by
  intro tags r c
  have h : r.condition "tags" none (.list []) = .ok c := by decide
  exact ⟨h, (fragment?_eq_presenceTest_iff h rfl nofun nofun).1.2 nofun⟩

/-- A period that is to be empty is not asked about, or is asked about by the bounds that its value
happens to hold. -/
theorem presence_of_dates_dropped :
    let period := { FieldConfig.plain "Period" .dateRange with operators := some [.isEmpty] }
    let r : Registry := ⟨[("period", period)]⟩
    let c : Condition := ⟨"period", .dateRange, .isEmpty, .text ""⟩
    let dated : Condition :=
      ⟨"period", .dateRange, .isEmpty, .text "\x7b\"from\":\"2024-03-01\"\x7d"⟩
    r.validated = .ok r ∧
      r.condition "period" (some .isEmpty) c.value = .ok c ∧ c.fragment? = none ∧
      r.condition "period" (some .isEmpty) dated.value = .ok dated ∧
      dated.fragment?.map Document.text =
        some "\x7b\"$gte\":\x7b\"period\":\"2024-03-01\"\x7d\x7d" := by
  exact ⟨by decide, by decide, by decide +kernel, by decide, by decide +kernel⟩

end Registry

end TableFilter
