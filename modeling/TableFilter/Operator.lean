/-!
# Filter operators and joins

* `Operator` is the comparison of one filter. `Operator.ofName` never fails: a name that is no
  operator's is the operator `unknown`.
* `Join` is how the filters of a table combine.
-/

namespace TableFilter

/-- The comparison of one filter. -/
inductive Operator where
  | eq
  | ne
  | lt
  | lte
  | gt
  | gte
  | isEmpty
  | isNotEmpty
  | isBetween
  | unknown
  deriving DecidableEq, Repr

namespace Operator

/-- Every operator but `unknown`, in display order. -/
def all : List Operator := [eq, ne, lt, lte, gt, gte, isEmpty, isNotEmpty, isBetween]

/-- The name of an operator. -/
def name : Operator → String
  | eq => "eq"
  | ne => "ne"
  | lt => "lt"
  | lte => "lte"
  | gt => "gt"
  | gte => "gte"
  | isEmpty => "isEmpty"
  | isNotEmpty => "isNotEmpty"
  | isBetween => "isBetween"
  | unknown => "unknown"

/-- The operator of a name. -/
def ofName (s : String) : Operator := (all.find? fun op => op.name == s).getD unknown

/-- The operator of a number, counted in display order; a number beyond them is the operator
`unknown`. -/
def ofIndex (n : Nat) : Operator := all[n]?.getD unknown

/-- Whether the operator compares by order. -/
def isOrdering : Operator → Bool
  | lt | lte | gt | gte => true
  | _ => false

/-- Whether the operator asks for presence and takes no value. -/
def isPresence : Operator → Bool
  | isEmpty | isNotEmpty => true
  | _ => false

/-- Whether the operator takes two bounds. -/
def isRange : Operator → Bool
  | isBetween => true
  | _ => false

theorem ofName_name (op : Operator) : ofName op.name = op := by
  cases op <;> decide

theorem mem_all_iff {op : Operator} : op ∈ all ↔ op ≠ unknown := by
  cases op <;> decide

end Operator

/-- How the filters of a table combine: every one must match, or at least one. -/
inductive Join where
  | and
  | or
  deriving DecidableEq, Repr

namespace Join

/-- The name of a join. -/
def name : Join → String
  | and => "and"
  | or => "or"

/-- The join of a name, if it is one's. -/
def ofName? (s : String) : Option Join :=
  if s = "and" then some and else if s = "or" then some or else none

/-- The message about a name that is no join's. -/
def unknownMessage (s : String) : String := "unknown join operator '" ++ s ++ "'"

theorem ofName?_name (j : Join) : ofName? j.name = some j := by
  cases j <;> decide

end Join

end TableFilter
