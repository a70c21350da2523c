import TableFilter.Condition.Basic
import TableFilter.Document.Text
import TableFilter.Text.Blank

/-!
# Conditions of a query document

* A leaf gives one condition for each of its fields, in order: equality and presence give text
  conditions, a comparison gives a number condition.
* A negation gives the conditions of what it negates, and a conjunction or alternative those of its
  members one after the other.
* The join is `or` exactly when an alternative occurs anywhere.
* `Conditions.ofText` never fails: a text that is no document gives no conditions.
-/

namespace TableFilter

/-- The condition of one field of a leaf. -/
def Test.condition (test : Test) (field : String) (value : Scalar) : Condition :=
  match test with
  | .equal => ⟨field, .text, .eq, .text value.text⟩
  | .compare c => ⟨field, .number, c.operator, .text value.text⟩
  | .present => ⟨field, .text, if value.isTruthy then .isNotEmpty else .isEmpty, .text ""⟩

namespace Document

mutual

/-- The conditions of a document, in order. -/
def conditions : Document → List Condition
  | empty => []
  | leaf test fields => fields.map fun (field, value) => test.condition field value
  | not inner => inner.conditions
  | all children => conditionsOf children
  | any children => conditionsOf children

/-- The conditions of documents, one after the other. -/
def conditionsOf : List Document → List Condition
  | [] => []
  | d :: ds => d.conditions ++ conditionsOf ds

end

end Document

/-- The conditions of a document with their join. -/
def Conditions.ofDocument (d : Document) : Conditions :=
  ⟨d.conditions, if d.hasAny then .or else .and⟩

/-- The conditions of a text; blank text and text that is no document give none. -/
def Conditions.ofText (s : String) : Conditions :=
  if (Text.trim s).isEmpty then ⟨[], .and⟩
  else match Document.parse s with
    | .ok d => ofDocument d
    | .error _ => ⟨[], .and⟩

end TableFilter
