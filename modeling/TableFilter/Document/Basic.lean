import TableFilter.Operator
import TableFilter.Scalar

/-!
# Query documents

The query that a table sends for its rows. A document is empty, a leaf, a negation, or documents of
which all or any must match.

* A leaf is one `Test` with fields and scalars; every one of its fields must pass the test.
* `Document.combine` joins documents without wrapping a single one.
* `Document.hasAny` says whether an alternative occurs anywhere.
-/

namespace TableFilter

/-- The comparison of a leaf by order, or by being different. -/
inductive Comparison where
  | lt
  | lte
  | gt
  | gte
  | ne
  deriving DecidableEq, Repr

namespace Comparison

/-- Every comparison. -/
def all : List Comparison := [lt, lte, gt, gte, ne]

/-- The key of a comparison in a document's text. -/
def key : Comparison → String
  | lt => "$lt"
  | lte => "$lte"
  | gt => "$gt"
  | gte => "$gte"
  | ne => "$ne"

/-- The comparison of a key. -/
def ofKey? (s : String) : Option Comparison := all.find? fun c => c.key == s

/-- The comparison of an ordering operator; other operators have none. -/
def ofOperator? : Operator → Option Comparison
  | .lt => some lt
  | .lte => some lte
  | .gt => some gt
  | .gte => some gte
  | _ => none

/-- The filter operator of a comparison. -/
def operator : Comparison → Operator
  | lt => .lt
  | lte => .lte
  | gt => .gt
  | gte => .gte
  | ne => .ne

theorem ofKey?_key (c : Comparison) : ofKey? c.key = some c := by
  cases c <;> decide

theorem ofOperator?_eq_some {op : Operator} {c : Comparison} (h : ofOperator? op = some c) :
    c.operator = op := by
  cases op <;> cases h <;> rfl

end Comparison

/-- What a leaf asks of its fields: the scalar as value, presence, or a comparison. -/
inductive Test where
  | equal
  | present
  | compare (c : Comparison)
  deriving DecidableEq, Repr

namespace Test

/-- The key of a test in a document's text. -/
def key : Test → String
  | equal => "$match"
  | present => "$exists"
  | compare c => c.key

/-- The test of a key. -/
def ofKey? (s : String) : Option Test :=
  if s = "$match" then some equal
  else if s = "$exists" then some present
  else (Comparison.ofKey? s).map compare

theorem ofKey?_key (t : Test) : ofKey? t.key = some t := by
  cases t with
  | equal => decide
  | present => decide
  | compare c => cases c <;> decide

end Test

/-- A query document. -/
inductive Document where
  | empty
  | leaf (test : Test) (fields : List (String × Scalar))
  | not (inner : Document)
  | all (children : List Document)
  | any (children : List Document)
  deriving Repr, BEq, Inhabited

namespace Document

/-- The leaf that asks for one field to have a value. -/
def equal (field : String) (value : Scalar) : Document := leaf .equal [(field, value)]

/-- The leaf that asks for one field to be present. -/
def present (field : String) : Document := leaf .present [(field, .bool true)]

/-- The leaf that compares one field. -/
def compare (c : Comparison) (field : String) (value : Scalar) : Document :=
  leaf (.compare c) [(field, value)]

/-- Whether the document is the empty one. -/
def isEmpty : Document → Bool
  | empty => true
  | _ => false

/-- The documents as one: none are the empty document, one is itself, several are wrapped. -/
def combine (join : Join) : List Document → Document
  | [] => empty
  | [d] => d
  | ds => match join with
    | .and => all ds
    | .or => any ds

mutual

/-- Whether an alternative occurs in the document. -/
def hasAny : Document → Bool
  | any _ => true
  | all children => someHasAny children
  | not inner => inner.hasAny
  | empty => false
  | leaf .. => false

/-- Whether an alternative occurs in one of the documents. -/
def someHasAny : List Document → Bool
  | [] => false
  | d :: ds => d.hasAny || someHasAny ds

end

end Document

end TableFilter
