import TableFilter.Json.Basic

/-!
# Scalars

The right-hand side of an entry of a query document: null, a boolean, a number or a string.

* `Scalar.ofReal` makes a number of a floating-point value, a whole one if it is exact;
* `Scalar.text` is the scalar as filter text.
-/

namespace TableFilter

/-- The right-hand side of an entry. -/
inductive Scalar where
  | null
  | bool (b : Bool)
  | number (n : Json.Number)
  | string (s : String)
  deriving DecidableEq, Repr

namespace Scalar

/-- A floating-point value as a scalar. Below `2 ^ 53` every whole value is exact and becomes an
integer; a value that is not finite becomes null. -/
def ofReal (x : Number.Binary64) : Scalar :=
  match x.toInt? with
  | some n =>
    if n.natAbs < Nat.pow 2 53 then .number (.integer n) else .number (.real x)
  | none => if x.isFinite then .number (.real x) else .null

/-- The scalar that data stands for; arrays and objects are none. -/
def ofJson? : Json → Option Scalar
  | .null => some .null
  | .bool b => some (.bool b)
  | .number n => some (.number n)
  | .string s => some (.string s)
  | .array _ => none
  | .object _ => none

/-- The scalar as data. -/
def toJson : Scalar → Json
  | .null => .null
  | .bool b => .bool b
  | .number n => .number n
  | .string s => .string s

/-- Whether the scalar asks for presence: it is true, not zero or not empty. -/
def isTruthy : Scalar → Bool
  | .null => false
  | .bool b => b
  | .number (.integer n) => n != 0
  | .number (.real x) => !x.isZero
  | .string s => !s.isEmpty

/-- The scalar as filter text. -/
def text : Scalar → String
  | .null => ""
  | .bool b => if b then "true" else "false"
  | .number n => String.ofList n.text
  | .string s => s

theorem ofJson?_toJson (s : Scalar) : ofJson? s.toJson = some s := by
  cases s <;> rfl

end Scalar

end TableFilter
