import TableFilter.Condition.Basic
import TableFilter.Field.Registry

/-!
# Conditions that fit a registry

* `Shape.expected?` is the shape that a value must have under a variant and an operator;
* `Registry.condition` builds a condition on a declared field, with the field's default operator
  when none is given;
* `Condition.updated` changes the operator or the value of a condition and checks it again, against
  the configuration that its field has now.
-/

namespace TableFilter

/-- Why a condition, or the change of one, was refused. -/
inductive FilterError where
  | unknownField (field : String)
  | operatorNotAllowed (field : String) (variant : Variant) (operator : Operator)
  | valueShape (field : String) (expected actual : Shape)
  | unknownInstance
  deriving DecidableEq, Repr

/-- The message about a refused condition. -/
def FilterError.message : FilterError → String
  | .unknownField field => "unknown filter field '" ++ field ++ "'"
  | .operatorNotAllowed field variant operator =>
    "operator '" ++ operator.name ++ "' is not allowed for field '" ++ field ++ "' ("
      ++ variant.name ++ ")"
  | .valueShape field expected actual =>
    "field '" ++ field ++ "' expects a " ++ expected.name ++ " value, got " ++ actual.name
  | .unknownInstance => "no active filter with this instance id"

/-- The shape that a value must have; under a presence operator any will do. -/
def Shape.expected? (variant : Variant) (operator : Operator) : Option Shape :=
  if operator.isPresence then none
  else if variant.isKeyed then some .pair
  else if variant.isMulti || (operator.isRange && variant ≠ .dateRange) then some .list
  else some .text

/-- Whether a configuration admits an operator with a value. -/
def FieldConfig.check (config : FieldConfig) (field : String) (operator : Operator)
    (value : Value) : Except FilterError Unit :=
  if config.allows operator then
    match Shape.expected? config.variant operator with
    | some expected =>
      if expected = value.shape then .ok () else .error (.valueShape field expected value.shape)
    | none => .ok ()
  else .error (.operatorNotAllowed field config.variant operator)

/-- A checked condition on a field of a configuration. -/
def FieldConfig.condition (config : FieldConfig) (field : String) (operator : Operator)
    (value : Value) : Except FilterError Condition :=
  match config.check field operator value with
  | .ok () => .ok ⟨field, config.variant, operator, value⟩
  | .error e => .error e

/-- A condition on a field of the registry, with the field's default operator unless one is
given. -/
def Registry.condition (r : Registry) (field : String) (operator : Option Operator)
    (value : Value) : Except FilterError Condition :=
  match r.get? field with
  | some config => config.condition field (operator.getD config.defaultOperator) value
  | none => .error (.unknownField field)

/-- The condition with another operator or value. -/
def Condition.updated (c : Condition) (r : Registry) (operator : Option Operator)
    (value : Option Value) : Except FilterError Condition :=
  match r.get? c.field with
  | some config => config.condition c.field (operator.getD c.operator) (value.getD c.value)
  | none => .error (.unknownField c.field)

/-! ### What was admitted -/

/-- A configuration admits what was asked for, if the operator is in force and the value has the
shape that these expect. -/
theorem FieldConfig.condition_eq_ok_iff {config : FieldConfig} {field : String}
    {operator : Operator} {value : Value} {c : Condition} :
    config.condition field operator value = .ok c ↔
      c = ⟨field, config.variant, operator, value⟩ ∧ config.allows operator = true ∧
        ∀ shape, Shape.expected? config.variant operator = some shape → value.shape = shape := by
  unfold condition check
  cases config.allows operator with
  | false => simp
  | true =>
    cases Shape.expected? config.variant operator with
    | none => simp [eq_comm]
    | some shape =>
      by_cases hshape : shape = value.shape
      · simp [hshape, eq_comm]
      · simp [hshape, Ne.symm hshape]

/-- A condition that is admitted is the one that was asked for. -/
theorem FieldConfig.eq_of_condition {config : FieldConfig} {field : String} {operator : Operator}
    {value : Value} {c : Condition} (h : config.condition field operator value = .ok c) :
    c = ⟨field, config.variant, operator, value⟩ := (condition_eq_ok_iff.1 h).1

/-- What a registry admits is the condition that was asked for, with the default operator of its
field where none was given. -/
theorem Registry.eq_of_condition {r : Registry} {field : String} {operator : Option Operator}
    {value : Value} {c : Condition} (h : r.condition field operator value = .ok c) :
    ∃ config, r.get? field = some config ∧
      c = ⟨field, config.variant, operator.getD config.defaultOperator, value⟩ := by
  unfold condition at h
  split at h
  · next config hconfig => exact ⟨config, hconfig, FieldConfig.eq_of_condition h⟩
  · cases h

/-- A change of a condition that is admitted is the one that was asked for. -/
theorem Condition.eq_of_updated {c d : Condition} {r : Registry} {operator : Option Operator}
    {value : Option Value} (h : c.updated r operator value = .ok d) :
    ∃ config, r.get? c.field = some config ∧
      d = ⟨c.field, config.variant, operator.getD c.operator, value.getD c.value⟩ := by
  unfold updated at h
  split at h
  · next config hconfig => exact ⟨config, hconfig, FieldConfig.eq_of_condition h⟩
  · cases h

end TableFilter
