import TableFilter.Field.Registry
import TableFilter.Json.Decode
import TableFilter.Yaml.Datum

/-!
# Registries from texts

A registry is the list of its fields, each an object with the field's id among the entries of its
configuration. A field that is given twice keeps its first place and its last configuration. The
registry is validated as soon as the list has been read.

* `Registry.parse` reads a JSON text, `Registry.parseYaml?` a YAML text.

In YAML the id is the text of a scalar, whatever its type; the entries of the configuration are
typed.
-/

namespace TableFilter

open Json (Reading Fault DecodeError)

/-! ### JSON -/

/-- The id and the configuration of a field, from the entries that remain; `others` are the entries
read before. -/
def FieldConfig.decodeEntries (depth : Nat) (id : Option String) (others : List (String × Json)) :
    List (Except Fault String × Reading) →
      Except (DecodeError RegistryProblem) (String × FieldConfig)
  | [] =>
    match id, ofEntries? others with
    | some id, some config => .ok (id, config)
    | _, _ => .error .shape
  | (.error f, _) :: _ => .error (.fault f)
  | (.ok key, v) :: rest =>
    if key = "id" then
      match id with
      | some _ => .error .shape
      | none => do
        let i ← v.decodeString
        decodeEntries depth (some i) others rest
    else do
      let j ← v.decodeJson depth
      decodeEntries depth id (others ++ [(key, j)]) rest

/-- The id and the configuration of a field. -/
def FieldConfig.decode (depth : Nat) :
    Reading → Except (DecodeError RegistryProblem) (String × FieldConfig)
  | .object entries => decodeEntries (depth - 1) none [] entries
  | v => .error v.mismatch

/-- A registry that is nested in `127 - depth` containers. -/
def Registry.decode (depth : Nat) : Reading → Except (DecodeError RegistryProblem) Registry
  | .array items => do
    let declarations ← items.mapM (FieldConfig.decode (depth - 1))
    match (ofList declarations).validated with
    | .ok r => .ok r
    | .error problem => .error (.invalid problem)
  | v => .error v.mismatch

/-- The registry of a JSON text. -/
def Registry.parse (s : String) : Except (DecodeError RegistryProblem) Registry :=
  let (reading, trailing) := Json.read s
  Json.finished trailing (decode Json.maxDepth reading)

/-! ### YAML -/

/-- The id and the configuration of a field, in whose entries `depth` collections may be nested. -/
def FieldConfig.ofYaml? (depth : Nat) (node : Yaml.Node) : Option (String × FieldConfig) := do
  let entries ← node.entries?
  let id ← Keyed.once? "id" entries
  let id ← id
  let id ← id.text?
  let others ← (entries.filter (·.1 ≠ "id")).mapM fun (key, n) => (n.datum? depth).map (key, ·)
  let config ← ofEntries? others
  return (id, config)

/-- A registry that may nest `depth` collections. -/
def Registry.ofYaml? (depth : Nat) (node : Yaml.Node) : Option Registry := do
  let items ← node.items?
  let declarations ← items.mapM (FieldConfig.ofYaml? (depth - 2))
  (ofList declarations).validated.toOption

/-- The registry of a YAML text. -/
def Registry.parseYaml? (s : String) : Option Registry :=
  (Yaml.Node.parse? s).bind (ofYaml? Yaml.maxDepth)

end TableFilter
