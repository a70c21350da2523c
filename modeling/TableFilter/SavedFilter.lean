import TableFilter.Text.Blank

/-!
# Saved filters

A saved filter is the navigation text of a table under a name.

* `SavedFilters.list`, `SavedFilters.find?` and `SavedFilters.save` read and write the saved filters
  in their order; saving under a name that is taken replaces that entry at its place.
* `SavedFilters.validate` checks the name that a user has entered: blanks around it are dropped, it
  must not be empty, longer than a hundred characters, or taken. `SavedFilters.submit` saves under a
  name that passes.
-/

namespace TableFilter

/-- The navigation text of a table under a name. -/
structure SavedFilter where
  name : String
  params : String
  table : String
  deriving DecidableEq, Repr

/-- What can be wrong with the name of a filter to save. -/
inductive NameProblem where
  | empty
  | tooLong
  | taken (name : String)
  deriving DecidableEq, Repr

/-- The longest name in characters. -/
def maxNameLength : Nat := 100

/-- The message about a name. -/
def NameProblem.message : NameProblem → String
  | .empty => "name is required"
  | .tooLong => "name must be at most 100 characters"
  | .taken name => "a saved filter named '" ++ name ++ "' already exists"

/-- The message about a name with all its problems. -/
def NameProblem.summary (problems : List NameProblem) : String :=
  "invalid saved filter: " ++ "; ".intercalate (problems.map message)

/-- The saved filters of all tables, in order. -/
structure SavedFilters where
  entries : List SavedFilter
  deriving DecidableEq, Repr

namespace SavedFilters

/-- No saved filters. -/
def empty : SavedFilters := ⟨[]⟩

/-- The saved filters of a table. -/
def list (s : SavedFilters) (table : String) : List SavedFilter :=
  s.entries.filter fun f => f.table == table

/-- The first saved filter of a name. -/
def find? (s : SavedFilters) (name : String) : Option SavedFilter :=
  s.entries.find? fun f => f.name == name

/-- Whether a name is taken. -/
def isTaken (s : SavedFilters) (name : String) : Bool := (s.find? name).isSome

/-- The entries with one saved, at the place of the first of its name. -/
def saveIn (f : SavedFilter) : List SavedFilter → List SavedFilter
  | [] => [f]
  | g :: gs => if g.name = f.name then f :: gs else g :: saveIn f gs

/-- The saved filters with one saved. -/
def save (s : SavedFilters) (f : SavedFilter) : SavedFilters := ⟨saveIn f s.entries⟩

/-- The problems of a name without blanks around it. -/
def problems (s : SavedFilters) (name : String) : List NameProblem :=
  if name.isEmpty then [.empty]
  else (if maxNameLength < name.length then [.tooLong] else [])
    ++ (if s.isTaken name then [.taken name] else [])

/-- The name to save under, or all that is wrong with it. -/
def validate (s : SavedFilters) (entered : String) : Except (List NameProblem) String :=
  let name := Text.trim entered
  match s.problems name with
  | [] => .ok name
  | problems => .error problems

/-- The filter saved under an entered name, if the name passes. -/
def submit (s : SavedFilters) (entered params table : String) :
    Except (List NameProblem) SavedFilter × SavedFilters :=
  match s.validate entered with
  | .ok name => let f := ⟨name, params, table⟩; (.ok f, s.save f)
  | .error problems => (.error problems, s)

end SavedFilters

end TableFilter
