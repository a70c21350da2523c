import TableFilter.Condition.Checked

/-!
# Conditions written as one text

A condition may be written `field:operator:value`. An empty operator is the field's default one, and
the value keeps every further colon. A range operator takes its bounds between commas; any other value
is read like a navigation parameter.
-/

namespace TableFilter

/-- Why a text is no condition. -/
inductive SpecError where
  | notSpec (spec : String)
  | unknownField (field : String)
  | unknownOperator (name spec : String)
  | filter (e : FilterError)
  deriving DecidableEq, Repr

/-- The message about a text that is no condition. -/
def SpecError.message : SpecError → String
  | .notSpec spec => "filter '" ++ spec ++ "' is not field:operator:value"
  | .unknownField field => "unknown field '" ++ field ++ "'"
  | .unknownOperator name spec => "unknown operator '" ++ name ++ "' in '" ++ spec ++ "'"
  | .filter e => e.message

/-- The three parts of a text. -/
def Condition.specParts? (spec : String) : Option (String × String × String) := do
  let (field, rest) ← Text.cutFirst ':' spec.toList
  let (operator, value) ← Text.cutFirst ':' rest
  return (String.ofList field, String.ofList operator, String.ofList value)

/-- The operator of a part; the empty part gives none. -/
def Condition.specOperator (spec name : String) : Except SpecError (Option Operator) :=
  if name.isEmpty then .ok none
  else match Operator.ofName name with
    | .unknown => .error (.unknownOperator name spec)
    | op => .ok (some op)

/-- The value of a part, in the shape that a variant and an operator expect. -/
def Value.ofSpec (variant : Variant) (operator : Operator) (raw : String) : Value :=
  if operator.isRange && variant ≠ .dateRange then .list (Text.split ',' raw)
  else .ofParam variant raw

/-- The condition that a text writes, on a field of the registry. -/
def Registry.ofSpec (r : Registry) (spec : String) : Except SpecError Condition :=
  match Condition.specParts? spec with
  | none => .error (.notSpec spec)
  | some (field, name, raw) =>
    match r.get? field with
    | none => .error (.unknownField field)
    | some config => do
      let operator ← Condition.specOperator spec name
      let value := Value.ofSpec config.variant (operator.getD config.defaultOperator) raw
      match r.condition field operator value with
      | .ok c => .ok c
      | .error e => .error (.filter e)

end TableFilter
