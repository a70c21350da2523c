import TableFilter.Calendar.Timestamp
import TableFilter.Condition.Basic
import TableFilter.Condition.DateRange
import TableFilter.Document.Text
import TableFilter.Field.Registry
import TableFilter.Text.Blank

/-!
# The query document of conditions

Each condition compiles to a fragment of the query, and the fragments of a table combine under its
join.

* `Condition.fragment?` is the fragment of one condition. A condition may constrain nothing: a choice
  of several options with none chosen, or a date range without bounds.
* An unknown operator or variant compiles to equality.
* A metadata pair asks for `metadata[key]`, a balance pair for `balance[key]`, whose amount is a
  number if it reads as one.
* `Conditions.document` leaves out the fields that have a navigation parameter of their own;
  `Conditions.text` is its text, empty when nothing constrains the query.
-/

namespace TableFilter

/-! ### Scalars -/

/-- A text of a boolean field as a scalar. -/
def Scalar.ofBooleanText (s : String) : Scalar :=
  if s = "true" then .bool true else if s = "false" then .bool false else .string s

/-- The text that a value compares with: for a pair its value, without the key. -/
def Value.compared : Value → String
  | .pair _ value => value
  | v => v.toParam

/-- The options that a value chooses. -/
def Value.chosen : Value → List String
  | .list items => items.filter (!·.isEmpty)
  | .text s => if s.isEmpty then [] else [s]
  | .pair _ value => if value.isEmpty then [] else [value]

/-! ### Fragments -/

/-- The fragment of an operator that compares a field with one scalar. -/
def Operator.fragment (op : Operator) (field : String) (scalar : Scalar) : Document :=
  match Comparison.ofOperator? op with
  | some c => .compare c field scalar
  | none =>
    match op with
    | .ne => .not (.equal field scalar)
    | .isEmpty => .not (.present field)
    | .isNotEmpty => .present field
    | _ => .equal field scalar

/-- The fragment of an operator with a value. Two bounds make a range; a range operator with any
other value is equality with its parameter text. -/
def Operator.fragmentOf (op : Operator) (scalar : String → Scalar) (field : String)
    (value : Value) : Document :=
  if op.isRange then
    match value with
    | .list [low, high] =>
      .all [.compare .gte field (scalar low), .compare .lte field (scalar high)]
    | v => .equal field (scalar v.toParam)
  else op.fragment field (scalar value.compared)

/-- The fragment of a balance: the amount is a number if it reads as a finite one, and otherwise it
is matched as it stands, whatever the operator. -/
def Operator.balanceFragment (op : Operator) (asset amount : String) : Document :=
  let field := "balance[" ++ asset ++ "]"
  if op.isPresence then op.fragment field .null
  else match Number.Binary64.ofText? (Text.trim amount) with
    | some x =>
      if x.isFinite then op.fragment field (.ofReal x) else .equal field (.string amount)
    | none => .equal field (.string amount)

/-- The fragment of a date range, unless it has no bounds. The range ends with the day of its
second bound. -/
def DateRange.fragment? (field : String) (r : DateRange) : Option Document :=
  let low := (filled? r.start).map fun s => Document.compare .gte field (.string s)
  let high := (filled? r.stop).map fun s =>
    Document.compare .lte field (.string (Calendar.endOfDay s))
  match low.toList ++ high.toList with
  | [] => none
  | bounds => some (.combine .and bounds)

/-- The fragment of a choice of options, unless none is chosen. -/
def Operator.choiceFragment? (op : Operator) (field : String) (value : Value) : Option Document :=
  match value.chosen with
  | [] => none
  | options =>
    let choice := Document.combine .or (options.map fun s => .equal field (.string s))
    some (if op = .ne then .not choice else choice)

namespace Condition

/-- The fragment of a condition, unless it constrains nothing. -/
def fragment? (c : Condition) : Option Document :=
  if c.operator = .unknown ∨ c.variant = .unknown then
    some (.equal c.field (.string c.value.compared))
  else match c.variant, c.value with
    | .boolean, v => some (c.operator.fragmentOf Scalar.ofBooleanText c.field v)
    | .metadata, .pair key value => some (.equal ("metadata[" ++ key ++ "]") (.string value))
    | .balanceByAsset, .pair key value => some (c.operator.balanceFragment key value)
    | .dateRange, v => (DateRange.ofText? v.toParam).bind (·.fragment? c.field)
    | .multiSelect, v =>
      if c.operator.isPresence then some (c.operator.fragmentOf .string c.field v)
      else c.operator.choiceFragment? c.field v
    | _, v => some (c.operator.fragmentOf .string c.field v)

end Condition

/-! ### Documents -/

namespace Conditions

/-- The fragments of the conditions that fold into the query, in order. -/
def fragments (r : Registry) (cs : List Condition) : List Document :=
  (cs.filter fun c => !r.isStandalone c.field).filterMap Condition.fragment?

/-- The query document of conditions. -/
def document (cs : Conditions) (r : Registry) : Document :=
  .combine cs.join (fragments r cs.conditions)

/-- The text of the query document, empty when nothing constrains the query. -/
def text (cs : Conditions) (r : Registry) : String :=
  let d := cs.document r
  if d.isEmpty then "" else d.text

end Conditions

end TableFilter
