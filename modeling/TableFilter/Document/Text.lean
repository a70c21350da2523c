import TableFilter.Document.Basic
import TableFilter.Json.Reading

/-!
# Query documents as JSON

* `Document.ofEntries` reads an object whose entries are sorted. Reading is tolerant: an entry whose
  key is unknown or whose value is of the wrong kind is left out, and so are the members of a list
  that are no objects and the fields of a leaf that hold no scalar. An object with several entries
  is all of them together.
* `Document.parse` reads a text; only a text that is no JSON, or no object, is refused.
* `Document.text` writes a document with the fields of a leaf sorted and each field once,
  `Document.literal` writes them in their order, repeats included.
-/

namespace TableFilter

/-- Why a text is no query document. -/
inductive DocumentError where
  | json (fault : Json.Fault)
  | notObject (value : Json)

/-- The kind of a value in messages. -/
def Json.kind : Json → String
  | .null => "null"
  | .bool _ => "a boolean"
  | .number _ => "a number"
  | .string _ => "a string"
  | .array _ => "an array"
  | .object _ => "an object"

/-- The message about a value that is no document. -/
def Document.notObjectMessage (value : Json) : String :=
  "query document must be a JSON object, got " ++ value.kind

namespace Document

/-! ### Reading -/

/-- The fields of a leaf; entries that hold no scalar are left out. -/
def readFields (entries : List (String × Json)) : List (String × Scalar) :=
  entries.filterMap fun (field, value) => (Scalar.ofJson? value).map fun s => (field, s)

mutual

/-- The document of one entry, unless the entry is to be left out. -/
def ofEntry? (key : String) : Json → Option Document
  | .object entries =>
    match Test.ofKey? key with
    | some test => some (leaf test (readFields entries))
    | none => if key = "$not" then some (not (combine .and (ofEntries entries))) else none
  | .array items =>
    if key = "$and" then some (all (ofItems items))
    else if key = "$or" then some (any (ofItems items))
    else none
  | _ => none

/-- The documents of the entries of an object. -/
def ofEntries : List (String × Json) → List Document
  | [] => []
  | (key, value) :: rest =>
    match ofEntry? key value with
    | some d => d :: ofEntries rest
    | none => ofEntries rest

/-- The documents of the members of a list; members that are no objects are left out. -/
def ofItems : List Json → List Document
  | [] => []
  | .object entries :: rest => combine .and (ofEntries entries) :: ofItems rest
  | _ :: rest => ofItems rest

end

/-- The document of an object with sorted entries. -/
def ofObject (entries : List (String × Json)) : Document := combine .and (ofEntries entries)

/-- The document of a value with sorted objects, which must be an object itself. -/
def ofJson : Json → Except DocumentError Document
  | .object entries => .ok (ofObject entries)
  | value => .error (.notObject value)

/-- The document of a text. -/
def parse (s : String) : Except DocumentError Document :=
  match Json.parse s with
  | .ok value => ofJson value.sorted
  | .error fault => .error (.json fault)

/-! ### Writing -/

/-- The fields of a leaf as data, in their order. -/
def fieldEntries (fields : List (String × Scalar)) : List (String × Json) :=
  fields.map fun (field, value) => (field, value.toJson)

mutual

/-- The document as data, the fields of its leaves in their order. -/
def toLiteral : Document → Json
  | empty => .object []
  | leaf test fields => .object [(test.key, .object (fieldEntries fields))]
  | not inner => .object [("$not", inner.toLiteral)]
  | all children => .object [("$and", .array (toLiterals children))]
  | any children => .object [("$or", .array (toLiterals children))]

/-- The documents as data. -/
def toLiterals : List Document → List Json
  | [] => []
  | d :: ds => d.toLiteral :: toLiterals ds

end

/-- The document as data with sorted objects. -/
def toJson (d : Document) : Json := d.toLiteral.sorted

/-- The text of a document, the fields of its leaves sorted and each once. -/
def text (d : Document) : String := d.toJson.text

/-- The text of a document, the fields of its leaves in their order. -/
def literal (d : Document) : String := d.toLiteral.text

end Document

end TableFilter
