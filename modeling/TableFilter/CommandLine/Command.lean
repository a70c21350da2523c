import TableFilter.CommandLine.Arguments
import TableFilter.Condition.Spec
import TableFilter.Synchronizer
import TableFilter.Table.Reading

/-!
# Commands

* `compile` compiles conditions into the query document and merges the table's parameters into a
  navigation text;
* `decompile` lists the conditions of a query document, and never fails;
* `hydrate` lists the conditions that a table takes from a navigation text.

`Command.read` reads the arguments; `Command.run` gives the output, or why there is none.
-/

namespace TableFilter.CommandLine

/-- What is to be done. -/
inductive Command where
  | compile (config : String) (join : Join) (base : String) (specs : List String)
  | decompile (document : String) (json : Bool)
  | hydrate (config : String) (query : String) (json : Bool)
  deriving DecidableEq, Repr

/-- Why a command has no output. -/
inductive CommandError where
  | table (e : TableError)
  | spec (e : SpecError)

/-! ### Arguments -/

/-- An option that names a file, which must not be the empty name. -/
def configOption : Opt :=
  ⟨"config", some 'c', false, true, fun s => if s.isEmpty then some .missingValue else none⟩

/-- The option that names a join. -/
def joinOption : Opt :=
  ⟨"join", some 'j', false, false, fun s => if (Join.ofName? s).isSome then none else some .badValue⟩

/-- The option that gives a navigation text. -/
def baseOption : Opt := ⟨"base", none, false, false, fun _ => none⟩

/-- The switch for JSON output. -/
def jsonOption : Opt := ⟨"json", none, true, false, fun _ => none⟩

namespace Command

/-- The `compile` command of its arguments. -/
def readCompile (args : List String) : Except UsageError Command := do
  let p ← Grammar.read ⟨[configOption, joinOption, baseOption], 0, none⟩ args
  return compile ((p.value? "config").getD "") (((p.value? "join").bind Join.ofName?).getD .and)
    ((p.value? "base").getD "") p.positional

/-- The `decompile` command of its arguments. -/
def readDecompile (args : List String) : Except UsageError Command := do
  let p ← Grammar.read ⟨[jsonOption], 1, some 1⟩ args
  return decompile (p.positional.headD "") (p.has "json")

/-- The `hydrate` command of its arguments. -/
def readHydrate (args : List String) : Except UsageError Command := do
  let p ← Grammar.read ⟨[configOption, jsonOption], 1, some 1⟩ args
  return hydrate ((p.value? "config").getD "") (p.positional.headD "") (p.has "json")

/-- The names of the commands. -/
def names : List String := ["compile", "decompile", "hydrate", "help"]

/-- The request for help on a command, or on none. -/
def helpOn : List String → UsageError
  | [] => .help
  | [name] => if names.contains name then .help else .unknownCommand
  | _ :: _ :: _ => .unknownCommand

/-- An argument that stands where a command should. -/
def readOther (ended : Bool) (a : String) : UsageError :=
  match ended, long? a.toList, short? a.toList with
  | true, _, _ => if names.contains a then .unknownArgument else .unknownCommand
  | false, some cs, _ =>
    match Text.cutFirst '=' cs with
    | some (name, _) =>
      if name = "help".toList ∨ name = "version".toList then .surplusValue else .unknownArgument
    | none =>
      if cs = "help".toList then .help
      else if cs = "version".toList then .version
      else .unknownArgument
  | false, none, some (c :: _) =>
    if c = 'h' then .help else if c = 'V' then .version else .unknownArgument
  | false, none, _ => .unknownCommand

/-- The command of the arguments. -/
def read : List String → Except UsageError Command
  | [] => .error .helpForNothing
  | "compile" :: args => readCompile args
  | "decompile" :: args => readDecompile args
  | "hydrate" :: args => readHydrate args
  | "help" :: args => .error (helpOn args)
  | ["--"] => .error .helpForNothing
  | "--" :: a :: _ => .error (readOther true a)
  | a :: _ => .error (readOther false a)

/-! ### Output -/

/-- A condition as one line of text. -/
def line (c : Condition) : String :=
  "\t".intercalate [c.field, c.variant.name, c.operator.name, c.value.toParam] ++ "\n"

/-- A condition as data, its entries sorted. -/
def entry (c : Condition) : Json :=
  Json.sorted <| .object [("field", .string c.field), ("variant", .string c.variant.name),
    ("operator", .string c.operator.name), ("value", c.value.toJson)]

/-- The output that lists conditions with their join. -/
def listing (cs : Conditions) (json : Bool) : String :=
  if json then
    Json.indented (.object [("filters", .array (cs.conditions.map entry)),
      ("join", .string cs.join.name)]) ++ "\n"
  else "join: " ++ cs.join.name ++ "\n" ++ String.join (cs.conditions.map line)

/-- The synchronizer of a table after its hydration from a navigation text. -/
def hydrated (t : Table) (query : String) : Synchronizer × CountedHistory :=
  let (s, nav, _) := Synchronizer.fresh .counted t (CountedHistory.start query)
  (s, nav)

/-- The output of compiling conditions for a table. -/
def compiled (t : Table) (base : String) (cs : Conditions) : String :=
  let (s, nav) := hydrated t base
  let (s, nav, _) := s.exchange .counted nav (s.store.replace cs).2
  let document := (s.output.get? t.key).getD ""
  (if document.isEmpty then "\x7b\x7d" else document) ++ "\n" ++ Access.counted.read nav ++ "\n"

/-- The conditions of texts, or the first mistake. -/
def readSpecs (r : Registry) : List String → Except SpecError (List Condition)
  | [] => .ok []
  | spec :: specs => do
    let c ← r.ofSpec spec
    let cs ← readSpecs r specs
    return c :: cs

/-- The table of a file, whose text `file` gives. -/
def table (file : String → Option String) (path : String) : Except CommandError Table :=
  match Table.ofFile file path with
  | .ok t => .ok t
  | .error e => .error (.table e)

/-- The output of a command; `file` gives the text of a file. -/
def run (file : String → Option String) : Command → Except CommandError String
  | compile config join base specs => do
    let t ← table file config
    match readSpecs t.fields specs with
    | .ok cs => return compiled t base ⟨cs, join⟩
    | .error e => .error (.spec e)
  | decompile document json => .ok (listing (.ofText document) json)
  | hydrate config query json => do
    let t ← table file config
    return listing (hydrated t query).1.store.conditions json

end Command

end TableFilter.CommandLine
