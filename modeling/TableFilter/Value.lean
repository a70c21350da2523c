import TableFilter.Json.Entries
import TableFilter.Text.Pieces
import TableFilter.Variant

/-!
# Filter values

What a user has entered into a filter: a text, a list of texts, or a text under a key.

* `Value.toParam` writes a value as a bare navigation parameter, `Value.ofParam` reads it back into
  the shape that a variant expects;
* `Value.ofJson?` reads a value from data, `Value.toJson` writes it.
-/

namespace TableFilter

/-- The value of a filter. -/
inductive Value where
  | text (s : String)
  | list (items : List String)
  | pair (key value : String)
  deriving DecidableEq, Repr

/-- The shape of a value. -/
inductive Shape where
  | text
  | list
  | pair
  deriving DecidableEq, Repr

/-- The name of a shape in messages. -/
def Shape.name : Shape → String
  | .text => "text"
  | .list => "list"
  | .pair => "pair"

namespace Value

/-- The shape of a value. -/
def shape : Value → Shape
  | text _ => .text
  | list _ => .list
  | pair .. => .pair

/-- The text of a text value. -/
def text? : Value → Option String
  | text s => some s
  | _ => none

/-- The items of a list value. -/
def items? : Value → Option (List String)
  | list items => some items
  | _ => none

/-- Whether nothing has been entered. -/
def isBlank : Value → Bool
  | text s => s.isEmpty
  | list items => items.all String.isEmpty
  | pair key value => key.isEmpty && value.isEmpty

/-- The value as a bare parameter: items stand between commas, a key and its value around a
colon. -/
def toParam : Value → String
  | text s => s
  | list items => Text.join ',' items
  | pair key value => key ++ ":" ++ value

/-- The value that a bare parameter stands for. -/
def ofParam (v : Variant) (raw : String) : Value :=
  if v.isMulti then list ((Text.split ',' raw).filter (!·.isEmpty))
  else if v.isKeyed then
    match Text.cutFirst ':' raw.toList with
    | some (key, value) => pair (String.ofList key) (String.ofList value)
    | none => text raw
  else text raw

/-! ### Data -/

/-- The value as data. -/
def toJson : Value → Json
  | text s => .string s
  | list items => .array (items.map .string)
  | pair key value => .object [("key", .string key), ("value", .string value)]

/-- The value that data stands for: a string, an array of strings, or an object with the strings
`key` and `value`, each given once. -/
def ofJson? : Json → Option Value
  | .string s => some (text s)
  | .array items => (items.mapM Json.string?).map list
  | .object entries => do
    let key ← Data.required? Json.string? "key" entries
    let value ← Data.required? Json.string? "value" entries
    return pair key value
  | _ => none

end Value

end TableFilter
