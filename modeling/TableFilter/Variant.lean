import TableFilter.Operator

/-!
# Variants of filter fields

The variant of a field is its kind of data. It decides the operators that a filter on the field may
carry and the shape of its value.

| variant | operators |
| --- | --- |
| `text`, `select` | `eq ne isEmpty isNotEmpty` |
| `number` | `eq ne gt gte lt lte isBetween isEmpty isNotEmpty` |
| `boolean`, `multiSelect` | `eq ne` |
| `date`, `slider` | `eq gt gte lt lte isBetween` |
| `dateRange` | `isBetween` |
| `balanceByAsset` | `eq ne gt gte lt lte` |
| `metadata`, `unknown` | `eq` |
-/

namespace TableFilter

/-- The kind of data of a filter field. -/
inductive Variant where
  | text
  | number
  | boolean
  | date
  | dateRange
  | select
  | multiSelect
  | metadata
  | balanceByAsset
  | slider
  | unknown
  deriving DecidableEq, Repr

namespace Variant

/-- Every variant. -/
def all : List Variant :=
  [text, number, boolean, date, dateRange, select, multiSelect, metadata, balanceByAsset, slider,
    unknown]

/-- The name of a variant. -/
def name : Variant → String
  | text => "text"
  | number => "number"
  | boolean => "boolean"
  | date => "date"
  | dateRange => "dateRange"
  | select => "select"
  | multiSelect => "multiSelect"
  | metadata => "metadata"
  | balanceByAsset => "balanceByAsset"
  | slider => "slider"
  | unknown => "unknown"

/-- The variant of a name; a name that is no variant's is the variant `unknown`. -/
def ofName (s : String) : Variant := (all.find? fun v => v.name == s).getD unknown

/-- The variant of a number, counted in the order of all variants; a number beyond them is the
variant `unknown`. -/
def ofIndex (n : Nat) : Variant := all[n]?.getD unknown

/-- The first operator of a variant, with which new filters start. -/
def defaultOperator : Variant → Operator
  | dateRange => .isBetween
  | _ => .eq

/-- The operators of a variant after the first. -/
def moreOperators : Variant → List Operator
  | text | select => [.ne, .isEmpty, .isNotEmpty]
  | number => [.ne, .gt, .gte, .lt, .lte, .isBetween, .isEmpty, .isNotEmpty]
  | boolean | multiSelect => [.ne]
  | date | slider => [.gt, .gte, .lt, .lte, .isBetween]
  | dateRange => []
  | balanceByAsset => [.ne, .gt, .gte, .lt, .lte]
  | metadata | unknown => []

/-- The operators of a variant. -/
def operators (v : Variant) : List Operator := v.defaultOperator :: v.moreOperators

/-- Whether the values of a variant are pairs of a key and a value. -/
def isKeyed : Variant → Bool
  | metadata | balanceByAsset => true
  | _ => false

/-- Whether the values of a variant are lists under every operator. -/
def isMulti : Variant → Bool
  | multiSelect => true
  | _ => false

theorem ofName_name (v : Variant) : ofName v.name = v := by
  cases v <;> decide

theorem unknown_notMem_operators (v : Variant) : Operator.unknown ∉ v.operators := by
  cases v <;> decide

end Variant

end TableFilter
