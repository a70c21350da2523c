import TableFilter.Field.Reading
import TableFilter.Table.Config
import TableFilter.Text.Pieces

/-!
# Tables from files

A table is an object with the entries `table_id`, `query_key` and `fields`; other entries are passed
over, and one of the three given twice spoils the table.

* `Table.parseJson` and `Table.parseYaml` read a text; both validate the fields first and the table
  as a whole afterwards.
* `Table.ofFile` goes by the extension of the file's name, which is decided before the file is read.
-/

namespace TableFilter

open Json (Reading Fault DecodeError)

/-- Why a table could not be had. -/
inductive TableError where
  | json (e : DecodeError RegistryProblem)
  | yaml
  | unsupportedFormat
  | unreadable
  | problem (p : TableProblem)

/-! ### JSON -/

namespace Table

/-- The table of entries, given what was found before. -/
def decodeEntries (depth : Nat) (id : Option String) (key : Option (Option String))
    (fields : Option Registry) :
    List (Except Fault String × Reading) → Except (DecodeError RegistryProblem) Table
  | [] =>
    match id, fields with
    | some id, some fields => .ok ⟨id, key.getD none, fields⟩
    | _, _ => .error .shape
  | (.error f, _) :: _ => .error (.fault f)
  | (.ok name, v) :: rest =>
    if name = "table_id" then
      match id with
      | some _ => .error .shape
      | none => do
        let i ← v.decodeString
        decodeEntries depth (some i) key fields rest
    else if name = "query_key" then
      match key with
      | some _ => .error .shape
      | none => do
        let k ← v.decodeOptionalString
        decodeEntries depth id (some k) fields rest
    else if name = "fields" then
      match fields with
      | some _ => .error .shape
      | none => do
        let r ← Registry.decode depth v
        decodeEntries depth id key (some r) rest
    else
      match v.skip with
      | .ok () => decodeEntries depth id key fields rest
      | .error f => .error (.fault f)

/-- The table of what was read. -/
def decode (depth : Nat) : Reading → Except (DecodeError RegistryProblem) Table
  | .object entries => decodeEntries (depth - 1) none none none entries
  | v => .error v.mismatch

/-- The table of a JSON text, as it is written. -/
def ofJsonText (s : String) : Except (DecodeError RegistryProblem) Table :=
  let (reading, trailing) := Json.read s
  Json.finished trailing (decode Json.maxDepth reading)

/-- A table that was read, unless something is wrong with it. -/
def accept (t : Table) : Except TableError Table :=
  match t.checked with
  | .ok t => .ok t
  | .error p => .error (.problem p)

/-- The table of a JSON text. -/
def parseJson (s : String) : Except TableError Table :=
  match ofJsonText s with
  | .ok t => t.accept
  | .error e => .error (.json e)

end Table

/-! ### YAML -/

namespace Table

/-- The table of a mapping, as it is written. -/
def ofYaml? (depth : Nat) (node : Yaml.Node) : Option Table := do
  let entries ← node.entries?
  let id ← Keyed.once? "table_id" entries
  let id ← id
  let id ← id.text?
  let key ← Keyed.once? "query_key" entries
  let key ← (key.getD .empty).optionalText?
  let fields ← Keyed.once? "fields" entries
  let fields ← fields
  let fields ← Registry.ofYaml? (depth - 1) fields
  return ⟨id, key, fields⟩

/-- The table of a YAML text. -/
def parseYaml (s : String) : Except TableError Table :=
  match (Yaml.Node.parse? s).bind (ofYaml? Yaml.maxDepth) with
  | some t => t.accept
  | none => .error .yaml

/-! ### Files -/

/-- The last part of a path; parts that name the directory itself do not count. -/
def fileName? (path : String) : Option (List Char) :=
  let parts := (Text.pieces '/' path.toList).filter fun p => p ≠ [] && p ≠ ['.']
  match parts.getLast? with
  | some name => if name = ['.', '.'] then none else some name
  | none => none

/-- What follows the last point of a file's name; a point that begins the name does not count. -/
def extension? (path : String) : Option String := do
  let name ← fileName? path
  match Text.cutFirst '.' name.reverse with
  | some (ending, before) =>
    if before.isEmpty then none else some (String.ofList (ending.reverse.map Char.toLower))
  | none => none

/-- The table of a file, whose text `read` gives. -/
def ofFile (read : String → Option String) (path : String) : Except TableError Table :=
  let parse : Option (String → Except TableError Table) :=
    match extension? path with
    | some "yaml" => some parseYaml
    | some "yml" => some parseYaml
    | some "json" => some parseJson
    | _ => none
  match parse with
  | none => .error .unsupportedFormat
  | some parse =>
    match read path with
    | some text => parse text
    | none => .error .unreadable

end Table

end TableFilter
