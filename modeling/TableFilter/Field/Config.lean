import TableFilter.Json.Entries
import TableFilter.Number.Shortest
import TableFilter.Variant

/-!
# Field configuration

What is fixed about one filter field of a table: its label and variant, which operators it allows,
the options to choose from, slider bounds, and the navigation parameter of its own if it has one.

* `FieldConfig.resolvedOperators` are the operators in force, the override if it is not empty and
  otherwise those of the variant;
* `FieldConfig.problem?` is the first thing that is wrong with a configuration;
* `FieldConfig.ofEntries?` and `FieldConfig.entries` read and write the configuration as data.
-/

namespace TableFilter

open Number (Binary64)
open Data (string? real? members? choice? required? optional?)
open Json (optionalEntry)

/-- One option of a field to choose from. -/
structure SelectOption where
  value : String
  label : String
  deriving DecidableEq, Repr

/-- The configuration of one field. -/
structure FieldConfig where
  label : String
  variant : Variant
  operators : Option (List Operator)
  options : List SelectOption
  min : Option Binary64
  max : Option Binary64
  step : Option Binary64
  param : Option String
  deriving DecidableEq, Repr

/-- What can be wrong with the configuration of a field. -/
inductive FieldProblem where
  | noOperators
  | reversedBounds (min max : Binary64)
  | badStep (step : Binary64)
  deriving DecidableEq, Repr

/-- The message about the configuration of a field. -/
def FieldProblem.message (field : String) : FieldProblem → String
  | .noOperators => "field '" ++ field ++ "' declares an empty operator list"
  | .reversedBounds min max =>
    "field '" ++ field ++ "' has invalid slider bounds: min "
      ++ String.ofList (Number.Layout.message.text min) ++ " is greater than max "
      ++ String.ofList (Number.Layout.message.text max)
  | .badStep step =>
    "field '" ++ field ++ "' has invalid slider bounds: step must be positive, got "
      ++ String.ofList (Number.Layout.message.text step)

namespace FieldConfig

/-- A configuration with the variant's operators and nothing else. -/
def plain (label : String) (variant : Variant) : FieldConfig :=
  ⟨label, variant, none, [], none, none, none, none⟩

/-- The first operator in force, with which new filters start. -/
def defaultOperator (c : FieldConfig) : Operator :=
  match c.operators with
  | some (op :: _) => op
  | _ => c.variant.defaultOperator

/-- The operators in force. -/
def resolvedOperators (c : FieldConfig) : List Operator :=
  match c.operators with
  | some (op :: ops) => op :: ops
  | _ => c.variant.operators

/-- Whether an operator is in force. -/
def allows (c : FieldConfig) (op : Operator) : Bool := c.resolvedOperators.contains op

/-- The bounds in the wrong order, if they are. -/
def boundsProblem? (c : FieldConfig) : Option FieldProblem :=
  match c.min, c.max with
  | some min, some max => if max.lt min then some (.reversedBounds min max) else none
  | _, _ => none

/-- A step that is not a finite positive number, if there is one. -/
def stepProblem? (c : FieldConfig) : Option FieldProblem :=
  match c.step with
  | some step => if step.isPositive && step.isFinite then none else some (.badStep step)
  | none => none

/-- The first thing wrong with the configuration: operators before bounds before the step. -/
def problem? (c : FieldConfig) : Option FieldProblem :=
  if c.operators = some [] then some .noOperators
  else c.boundsProblem?.or c.stepProblem?

theorem defaultOperator_mem_resolvedOperators (c : FieldConfig) :
    c.defaultOperator ∈ c.resolvedOperators := by
  unfold defaultOperator resolvedOperators
  split <;> simp [Variant.operators]

/-! ### Reading -/

variable {δ : Type} [Data δ]

/-- An option as data: an object, or its two texts in an array. -/
def option? (d : δ) : Option SelectOption :=
  match Data.fields? ["value", "label"] d with
  | some entries => do
    let value ← required? string? "value" entries
    let label ← required? string? "label" entries
    return ⟨value, label⟩
  | none =>
    match members? string? d with
    | some [value, label] => some ⟨value, label⟩
    | _ => none

/-- The options of a field; absent ones are none, but null is no list. -/
def options? (entries : List (String × δ)) : Option (List SelectOption) :=
  match Keyed.once? "options" entries with
  | some none => some []
  | some (some value) => members? option? value
  | none => none

/-- The configuration of a field as data; entries of other keys are ignored. -/
def ofEntries? (entries : List (String × δ)) : Option FieldConfig := do
  let label ← required? string? "label" entries
  let variant ← required? (choice? Variant.ofName Variant.ofIndex) "variant" entries
  let operators ←
    optional? (members? (choice? Operator.ofName Operator.ofIndex)) "operators" entries
  let options ← options? entries
  let min ← optional? real? "min" entries
  let max ← optional? real? "max" entries
  let step ← optional? real? "step" entries
  let param ← optional? string? "standaloneParam" entries
  return ⟨label, variant, operators, options, min, max, step, param⟩

/-! ### Writing -/

/-- An option as data. -/
def optionEntry (o : SelectOption) : Json :=
  .object [("value", .string o.value), ("label", .string o.label)]

/-- The configuration as entries; what is absent or empty is left out. -/
def entries (c : FieldConfig) : List (String × Json) :=
  [("label", .string c.label), ("variant", .string c.variant.name)]
    ++ optionalEntry "operators" (fun ops => .array (ops.map fun op => .string op.name)) c.operators
    ++ (if c.options.isEmpty then [] else [("options", .array (c.options.map optionEntry))])
    ++ optionalEntry "min" Json.ofReal c.min
    ++ optionalEntry "max" Json.ofReal c.max
    ++ optionalEntry "step" Json.ofReal c.step
    ++ optionalEntry "standaloneParam" .string c.param

end FieldConfig

end TableFilter
