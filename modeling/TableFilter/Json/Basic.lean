import TableFilter.Number.Shortest

/-!
# JSON values

* `Json` is a value with the entries of its objects as they are written, repeats included;
* `Json.sorted` is the canonical form of free-form data: the entries of every object in the order of
  their keys, a repeated key keeping its last value. Keys compare by code points, which is the order
  of their UTF-8 octets;
* `Json.text` writes a value without blanks, `Json.indented` with one entry a line.
-/

namespace TableFilter

/-- A number of JSON data: a whole number of at most 64 bits, or a floating-point number. -/
inductive Json.Number where
  | integer (n : Int)
  | real (x : Number.Binary64)
  deriving DecidableEq, Repr

/-- A JSON value. -/
inductive Json where
  | null
  | bool (b : Bool)
  | number (n : Json.Number)
  | string (s : String)
  | array (items : List Json)
  | object (entries : List (String × Json))
  deriving Repr, BEq, Inhabited

namespace Json

/-- The value of a number as a floating-point number. -/
def Number.toReal : Json.Number → TableFilter.Number.Binary64
  | .integer n => .ofInt n
  | .real x => x

/-- The text of a number. -/
def Number.text : Json.Number → List Char
  | .integer n => TableFilter.Number.intText n
  | .real x => TableFilter.Number.Layout.data.text x

/-- A floating-point number as data; one that is not finite has no form and is null. -/
def ofReal (x : TableFilter.Number.Binary64) : Json :=
  if x.isFinite then .number (.real x) else .null

/-! ### Sorted objects -/

/-- A table with an entry put at its place, instead of an entry of the same key if there is one. -/
def insertSorted {α : Type} (key : String) (value : α) : List (String × α) → List (String × α)
  | [] => [(key, value)]
  | (k, v) :: rest =>
    if key < k then (key, value) :: (k, v) :: rest
    else if key = k then (key, value) :: rest
    else (k, v) :: insertSorted key value rest

/-- The entries in the order of their keys, each key once with its last value. -/
def sortEntries {α : Type} (entries : List (String × α)) : List (String × α) :=
  entries.foldl (fun table entry => insertSorted entry.1 entry.2 table) []

mutual

/-- The value with the entries of every object sorted. -/
def sorted : Json → Json
  | .array items => .array (sortedItems items)
  | .object entries => .object (sortEntries (sortedValues entries))
  | j => j

/-- The items, sorted one by one. -/
def sortedItems : List Json → List Json
  | [] => []
  | j :: js => j.sorted :: sortedItems js

/-- The entries with sorted values. -/
def sortedValues : List (String × Json) → List (String × Json)
  | [] => []
  | (key, j) :: rest => (key, j.sorted) :: sortedValues rest

end

/-! ### Writing -/

/-- One character inside quotation marks: the mark, the backslash and the controls below U+0020 are
escaped, every other character stands for itself. -/
def escape (c : Char) : List Char :=
  if c = '"' then ['\\', '"']
  else if c = '\\' then ['\\', '\\']
  else if c.toNat = 8 then ['\\', 'b']
  else if c.toNat = 12 then ['\\', 'f']
  else if c = '\n' then ['\\', 'n']
  else if c = '\r' then ['\\', 'r']
  else if c = '\t' then ['\\', 't']
  else if c.toNat < 32 then
    ['\\', 'u', '0', '0', Nat.digitChar (c.toNat / 16), Nat.digitChar (c.toNat % 16)]
  else [c]

/-- A string in quotation marks. -/
def quoted (s : String) : List Char := '"' :: s.toList.flatMap escape ++ ['"']

mutual

/-- The characters of a value, without blanks. -/
def chars : Json → List Char
  | .null => "null".toList
  | .bool b => (if b then "true" else "false").toList
  | .number n => n.text
  | .string s => quoted s
  | .array items => '[' :: itemChars items ++ [']']
  | .object entries => '\x7b' :: entryChars entries ++ ['\x7d']

/-- The items of an array, with commas between. -/
def itemChars : List Json → List Char
  | [] => []
  | [j] => j.chars
  | j :: k :: js => j.chars ++ ',' :: itemChars (k :: js)

/-- The entries of an object, with commas between. -/
def entryChars : List (String × Json) → List Char
  | [] => []
  | [(key, j)] => quoted key ++ ':' :: j.chars
  | (key, j) :: e :: es => quoted key ++ ':' :: j.chars ++ ',' :: entryChars (e :: es)

end

/-- The text of a value, without blanks. -/
def text (j : Json) : String := String.ofList j.chars

/-- A new line with an indentation. -/
def newLine (indent : Nat) : List Char := '\n' :: List.replicate (2 * indent) ' '

mutual

/-- The characters of a value with one item or entry a line, two more blanks at each depth. -/
def indentedChars (indent : Nat) : Json → List Char
  | .array [] => ['[', ']']
  | .array (j :: js) =>
    '[' :: indentedItems (indent + 1) (j :: js) ++ newLine indent ++ [']']
  | .object [] => ['\x7b', '\x7d']
  | .object (e :: es) =>
    '\x7b' :: indentedEntries (indent + 1) (e :: es) ++ newLine indent ++ ['\x7d']
  | .null => "null".toList
  | .bool b => (if b then "true" else "false").toList
  | .number n => n.text
  | .string s => quoted s

/-- The items of an array, each on its line. -/
def indentedItems (indent : Nat) : List Json → List Char
  | [] => []
  | [j] => newLine indent ++ j.indentedChars indent
  | j :: k :: js => newLine indent ++ j.indentedChars indent ++ ',' :: indentedItems indent (k :: js)

/-- The entries of an object, each on its line. -/
def indentedEntries (indent : Nat) : List (String × Json) → List Char
  | [] => []
  | [(key, j)] => newLine indent ++ quoted key ++ ':' :: ' ' :: j.indentedChars indent
  | (key, j) :: e :: es =>
    newLine indent ++ quoted key ++ ':' :: ' ' :: j.indentedChars indent
      ++ ',' :: indentedEntries indent (e :: es)

end

/-- The text of a value with one item or entry a line. -/
def indented (j : Json) : String := String.ofList (j.indentedChars 0)

end Json

end TableFilter
