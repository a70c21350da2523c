import TableFilter.Condition.Spec
import TableFilter.Proofs.Value

/-!
# Conditions read back from one text

A condition is written `field:operator:value`, with its value as a parameter (`Condition.spec`). The
first two colons of the text are those between its parts as long as the field holds none, so what is
read is the same field and operator, with the value that these give to the parameter
(`Registry.ofSpec_spec`). It remains to say which values come back: under a range the parameter is
cut at every comma, and otherwise it is read as the variant reads parameters
(`Value.ofSpec_toParam_iff`). A condition that a registry has admitted is admitted again, so the
conditions that come back are those whose values do (`Registry.ofSpec_spec_iff`).
-/

namespace TableFilter

namespace Condition

variable {c : Condition}

/-- The text that writes a condition. -/
def spec (c : Condition) : String := c.field ++ ":" ++ c.operator.name ++ ":" ++ c.value.toParam

theorem colon_notMem_name (op : Operator) : ':' ∉ op.name.toList := by
  cases op <;> decide

/-- The parts come apart where they were joined. -/
theorem specParts?_spec (h : ':' ∉ c.field.toList) :
    specParts? c.spec = some (c.field, c.operator.name, c.value.toParam) := by
  have hchars : c.spec.toList =
      c.field.toList ++ ':' :: (c.operator.name.toList ++ ':' :: c.value.toParam.toList) := by
    simp [spec]
  rw [specParts?, hchars, Text.cutFirst_append h]
  simp only [Option.bind_eq_bind, Option.bind_some, Option.pure_def,
    Text.cutFirst_append (colon_notMem_name c.operator), String.ofList_toList]

theorem specOperator_name (spec : String) {op : Operator} (h : op ≠ .unknown) :
    specOperator spec op.name = .ok (some op) := by
  cases op <;> first | rfl | exact absurd rfl h

end Condition

/-- **The value that a text gives back.** Under a range, unless the variant is itself one of ranges,
it is the value that was written exactly if that is a list, not an empty one, whose items hold no
comma; otherwise exactly if it is what the variant reads from its parameter. -/
theorem Value.ofSpec_toParam_iff {v : Variant} {op : Operator} {value : Value} :
    ofSpec v op value.toParam = value ↔
      if op = .isBetween ∧ v ≠ .dateRange then
        ∃ items, value = .list items ∧ items ≠ [] ∧ ∀ s ∈ items, ',' ∉ s.toList
      else ofParam v value.toParam = value := by
  have hrange : (op.isRange && decide (v ≠ .dateRange)) = true ↔
      op = .isBetween ∧ v ≠ .dateRange := by
    cases op <;> simp [Operator.isRange]
  rw [ofSpec]
  by_cases h : op = .isBetween ∧ v ≠ .dateRange
  · rw [if_pos (hrange.2 h), if_pos h]
    constructor
    · intro heq
      refine ⟨_, heq.symm, Text.split_join_iff.1 ?_⟩
      exact congrArg (Text.split ',') (congrArg toParam heq)
    · rintro ⟨items, rfl, hitems⟩
      exact congrArg list (Text.split_join_iff.2 hitems)
  · rw [if_neg fun hr => h (hrange.1 hr), if_neg h]

namespace Registry

variable {r : Registry} {c : Condition} {field : String} {operator : Option Operator}
  {value : Value}

/-- What a registry has admitted it admits again, with the operator given. -/
theorem condition_self (h : r.condition field operator value = .ok c) :
    r.condition c.field (some c.operator) c.value = .ok c := by
  obtain ⟨config, hconfig, rfl⟩ := eq_of_condition h
  rw [condition, hconfig] at h ⊢
  exact h

/-- **What is read of a written condition:** the same field and operator, with the value that these
give to the parameter, if the registry admits it. -/
theorem ofSpec_spec {config : FieldConfig} (hfield : ':' ∉ c.field.toList)
    (hop : c.operator ≠ .unknown) (hconfig : r.get? c.field = some config) :
    r.ofSpec c.spec =
      match r.condition c.field (some c.operator)
        (.ofSpec config.variant c.operator c.value.toParam) with
      | .ok d => .ok d
      | .error e => .error (.filter e) := by
  rw [ofSpec, Condition.specParts?_spec hfield]
  dsimp only
  rw [hconfig, Condition.specOperator_name _ hop]
  rfl

/-- **The conditions that come back.** Let a registry have admitted a condition with a known
operator, on a field whose name holds no colon. Its text is read as this condition exactly if, under
a range on a variant that is not itself one of ranges, the value is a list, not an empty one, whose
items hold no comma; and otherwise exactly if the variant reads the value from its parameter. -/
theorem ofSpec_spec_iff (h : r.condition field operator value = .ok c)
    (hop : c.operator ≠ .unknown) (hfield : ':' ∉ field.toList) :
    r.ofSpec (field ++ ":" ++ c.operator.name ++ ":" ++ c.value.toParam) = .ok c ↔
      if c.operator = .isBetween ∧ c.variant ≠ .dateRange then
        ∃ items, c.value = .list items ∧ items ≠ [] ∧ ∀ s ∈ items, ',' ∉ s.toList
      else Value.ofParam c.variant c.value.toParam = c.value := by
  have hagain := condition_self h
  obtain ⟨config, hconfig, rfl⟩ := eq_of_condition h
  have hread := ofSpec_spec hfield hop hconfig
  rw [Condition.spec] at hread
  rw [hread, ← Value.ofSpec_toParam_iff]
  constructor
  · intro hc
    split at hc
    · next d hd =>
      cases hc
      obtain ⟨config', -, hd⟩ := eq_of_condition hd
      exact (congrArg Condition.value hd).symm
    · cases hc
  · intro hvalue
    rw [hvalue, hagain]

/-- Bounds come back from between their comma, and a text with a comma comes back where no range is
asked for. -/
theorem ofSpec_spec_iff_bounds :
    let r : Registry := ⟨[("amount", .plain "Amount" .number), ("note", .plain "Note" .text)]⟩
    r.condition "amount" (some .isBetween) (.list ["1", ""]) =
        .ok ⟨"amount", .number, .isBetween, .list ["1", ""]⟩ ∧
      r.ofSpec "amount:isBetween:1," = .ok ⟨"amount", .number, .isBetween, .list ["1", ""]⟩ ∧
      r.condition "amount" (some .isBetween) (.list []) =
        .ok ⟨"amount", .number, .isBetween, .list []⟩ ∧
      r.ofSpec "amount:isBetween:" ≠ .ok ⟨"amount", .number, .isBetween, .list []⟩ := by
  intro r
  have hbounds : r.condition "amount" (some .isBetween) (.list ["1", ""]) =
      .ok ⟨"amount", .number, .isBetween, .list ["1", ""]⟩ := rfl
  have hnone : r.condition "amount" (some .isBetween) (.list []) =
      .ok ⟨"amount", .number, .isBetween, .list []⟩ := rfl
  refine ⟨hbounds, (ofSpec_spec_iff hbounds (by decide) (by decide)).2 ?_, hnone, fun h => ?_⟩
  · exact ⟨["1", ""], rfl, by decide, by decide⟩
  · obtain ⟨items, hitems, hne, -⟩ := (ofSpec_spec_iff hnone (by decide) (by decide)).1 h
    cases hitems
    exact hne rfl

end Registry

end TableFilter
