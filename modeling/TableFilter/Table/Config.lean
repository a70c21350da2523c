import TableFilter.Field.Registry
import TableFilter.Text.Blank

/-!
# Table configuration

A table has an id, the navigation parameter that holds its compiled query, and its filter fields.

* `Table.key` is that parameter, the table's id unless another is given;
* `Table.ownKeys` are all the parameters of the table: its key and those of its fields;
* `Table.checked` refuses a blank id, and a field whose parameter is the table's key.
-/

namespace TableFilter

/-- The configuration of a table. -/
structure Table where
  id : String
  queryKey : Option String
  fields : Registry
  deriving DecidableEq, Repr

/-- What can be wrong with a table whose fields are sound. -/
inductive TableProblem where
  | emptyId
  | keyConflict (key field : String)
  deriving DecidableEq, Repr

/-- The message about a table. -/
def TableProblem.message : TableProblem → String
  | .emptyId => "table config has an empty table_id"
  | .keyConflict key field =>
    "field '" ++ field ++ "' uses standalone parameter '" ++ key
      ++ "', which is the table's query key"

namespace Table

/-- The parameter of the compiled query. -/
def key (t : Table) : String := t.queryKey.getD t.id

/-- The table, unless something is wrong with it. -/
def checked (t : Table) : Except TableProblem Table :=
  if (Text.trim t.id).isEmpty then .error .emptyId
  else match t.fields.params.find? fun p => p.2 == t.key with
    | some (field, _) => .error (.keyConflict t.key field)
    | none => .ok t

/-- The table as data. -/
def toJson (t : Table) : Json :=
  .object ([("table_id", .string t.id)] ++ Json.optionalEntry "query_key" .string t.queryKey
    ++ [("fields", t.fields.toJson)])

/-- The text of the table as data. -/
def text (t : Table) : String := t.toJson.text

end Table

end TableFilter
