import TableFilter.Value

/-!
# Conditions

A condition is what one filter asks: a field, its variant, an operator and a value. It says nothing
about the place of the filter in a table; two filters may carry the same condition.
-/

namespace TableFilter

/-- What one filter asks of a field. -/
structure Condition where
  field : String
  variant : Variant
  operator : Operator
  value : Value
  deriving DecidableEq, Repr

/-- A list of conditions with their join. -/
structure Conditions where
  conditions : List Condition
  join : Join
  deriving DecidableEq, Repr

end TableFilter
