import TableFilter.Data
import TableFilter.Json.Basic

/-!
# Entries of JSON data

* JSON is a format of `Data`: the entries of an object are named, and so are alternatives;
* `optionalEntry` writes an entry that is left out when there is nothing to write.
-/

namespace TableFilter.Json

/-! ### Reading -/

/-- Whether the value is null. -/
def isNull : Json → Bool
  | .null => true
  | _ => false

/-- The text of a string. -/
def string? : Json → Option String
  | .string s => some s
  | _ => none

/-- The value of a number. -/
def real? : Json → Option TableFilter.Number.Binary64
  | .number n => some n.toReal
  | _ => none

/-- The items of an array. -/
def items? : Json → Option (List Json)
  | .array items => some items
  | _ => none

/-- The entries of an object. -/
def entries? : Json → Option (List (String × Json))
  | .object entries => some entries
  | _ => none

/-- The name of an alternative: a string, or an object with the name as its only key and nothing to
it. -/
def name? : Json → Option String
  | .string s => some s
  | .object [(s, .null)] => some s
  | .object [(s, .object [])] => some s
  | _ => none

instance : Data Json where
  isNull := isNull
  string? := string?
  real? := real?
  items? := items?
  fields? := fun _ => entries?
  choice? := fun ofName _ j => j.name?.map ofName

/-! ### Writing -/

/-- An entry that is left out when there is nothing to write. -/
def optionalEntry {α : Type} (key : String) (write : α → Json) : Option α → List (String × Json)
  | some a => [(key, write a)]
  | none => []

end TableFilter.Json
