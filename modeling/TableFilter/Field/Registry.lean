import TableFilter.Field.Config
import TableFilter.Keyed

/-!
# Field registries

The filter fields of a table in the order of their declaration, one configuration for each.

* `Registry.declare` adds a field, or replaces its configuration in place;
* `Registry.problem?` is the first thing wrong: the problem of the first field that has one, and
  otherwise the first parameter that two fields share;
* `Registry.params` lists the fields with a navigation parameter of their own.
-/

namespace TableFilter

/-- The fields of a table with their configurations. -/
structure Registry where
  fields : List (String × FieldConfig)
  deriving DecidableEq, Repr

/-- What can be wrong with a registry. -/
inductive RegistryProblem where
  | field (id : String) (problem : FieldProblem)
  | sharedParam (param first second : String)
  deriving DecidableEq, Repr

/-- The message about a registry. -/
def RegistryProblem.message : RegistryProblem → String
  | .field id problem => problem.message id
  | .sharedParam param first second =>
    "standalone parameter '" ++ param ++ "' is used by both '" ++ first ++ "' and '" ++ second ++ "'"

namespace Registry

/-- The registry without fields. -/
def empty : Registry := ⟨[]⟩

/-- The registry with a field declared, at its place if it is declared already. -/
def declare (r : Registry) (id : String) (config : FieldConfig) : Registry :=
  ⟨Keyed.put id config r.fields⟩

/-- The registry of a list of declarations. -/
def ofList (declarations : List (String × FieldConfig)) : Registry := ⟨Keyed.ofList declarations⟩

/-- The configuration of a field. -/
def get? (r : Registry) (id : String) : Option FieldConfig := r.fields.lookup id

/-- Whether a field is declared. -/
def contains (r : Registry) (id : String) : Bool := (r.get? id).isSome

/-- The fields with a parameter of their own, with the parameter, in order. -/
def params (r : Registry) : List (String × String) :=
  r.fields.filterMap fun (id, config) => config.param.map fun p => (id, p)

/-- The parameter of a field's own. -/
def param? (r : Registry) (id : String) : Option String := (r.get? id).bind (·.param)

/-- Whether a field has a parameter of its own and so stands outside the compiled query. -/
def isStandalone (r : Registry) (id : String) : Bool := (r.param? id).isSome

/-! ### Validation -/

/-- The first field with a problem of its own. -/
def fieldProblem? (r : Registry) : Option RegistryProblem :=
  r.fields.findSome? fun (id, config) => config.problem?.map (.field id)

/-- The first parameter that an earlier field uses already; `seen` are the fields before. -/
def sharedParam? (seen : List (String × String)) :
    List (String × String) → Option RegistryProblem
  | [] => none
  | (id, param) :: rest =>
    match seen.find? fun s => s.2 == param with
    | some (first, _) => some (.sharedParam param first id)
    | none => sharedParam? (seen ++ [(id, param)]) rest

/-- The first thing wrong with the registry. -/
def problem? (r : Registry) : Option RegistryProblem :=
  r.fieldProblem?.or (sharedParam? [] r.params)

/-- The registry, unless something is wrong with it. -/
def validated (r : Registry) : Except RegistryProblem Registry :=
  match r.problem? with
  | some problem => .error problem
  | none => .ok r

/-! ### Data -/

/-- The registry as data: the list of its fields. -/
def toJson (r : Registry) : Json :=
  .array (r.fields.map fun (id, config) => .object (("id", .string id) :: config.entries))

/-- The text of the registry as data. -/
def text (r : Registry) : String := r.toJson.text

end Registry

end TableFilter
