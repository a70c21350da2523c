import TableFilter.Text.Pieces

/-!
# Command-line arguments

A command takes options and positional arguments, which mix freely.

* `--name value`, `--name=value`, `-n value`, `-nvalue` and `-n=value` give an option its value; a
  switch takes none. Every option may be given once. `--` ends the options.
* An option that waits for its value takes the next argument, unless that looks like an option.
* A value is checked when the next argument has been looked at, so that an argument that is no option
  of the command counts before a bad value in front of it.
* `Grammar.read` gives the arguments by name, or the first mistake.
-/

namespace TableFilter.CommandLine

/-- Why arguments are not run: a mistake, or a request for information. -/
inductive UsageError where
  | missingArgument
  | unknownArgument
  | unknownCommand
  | missingValue
  | badValue
  | repeatedOption
  | surplusValue
  | help
  | version
  | helpForNothing
  deriving DecidableEq, Repr

/-- An option of a command; `check` gives the mistake in a value, and a switch takes no value. -/
structure Opt where
  name : String
  letter : Option Char
  isSwitch : Bool
  required : Bool
  check : String → Option UsageError

/-- The options of a command, and how many positional arguments it takes at least and at most. -/
structure Grammar where
  options : List Opt
  least : Nat
  most : Option Nat

/-- What has been read: options with their values, positional arguments, and the option that was
last begun, with its value if that is there. -/
structure Progress where
  given : List (String × String)
  positional : List String
  pending : Option (Opt × Option String)

namespace Progress

/-- Nothing read. -/
def start : Progress := ⟨[], [], none⟩

/-- Whether an option has been given. -/
def has (p : Progress) (name : String) : Bool := p.given.any fun g => g.1 == name

/-- An option with its value, unless it is given twice or the value is bad. -/
def give (p : Progress) (o : Opt) (value : String) : Except UsageError Progress :=
  if p.has o.name then .error .repeatedOption
  else match o.check value with
    | some e => .error e
    | none => .ok { p with given := p.given ++ [(o.name, value)] }

/-- The option that was last begun, finished. -/
def resolve (p : Progress) : Except UsageError Progress :=
  match p.pending with
  | none => .ok p
  | some (_, none) => .error .missingValue
  | some (o, some value) => { p with pending := none }.give o value

end Progress

/-- Whether an argument looks like an option with a long name. -/
def long? : List Char → Option (List Char)
  | '-' :: '-' :: cs => some cs
  | _ => none

/-- Whether an argument looks like options with letters. -/
def short? : List Char → Option (List Char)
  | '-' :: c :: cs => some (c :: cs)
  | _ => none

namespace Grammar

/-- An option that begins, with its value if that is attached. -/
def begin (p : Progress) (o : Opt) (attached : Option String) : Except UsageError Progress :=
  if o.isSwitch then
    match attached with
    | some _ => .error .surplusValue
    | none => do
      let p ← p.resolve
      p.give o ""
  else do
    let p ← p.resolve
    match attached with
    | some value => p.give o value
    | none => .ok { p with pending := some (o, none) }

/-- An argument with a long name. -/
def readLong (g : Grammar) (p : Progress) (cs : List Char) : Except UsageError Progress :=
  let (name, attached) := match Text.cutFirst '=' cs with
    | some (name, value) => (String.ofList name, some (String.ofList value))
    | none => (String.ofList cs, none)
  if name = "help" then
    match attached with
    | some _ => .error .surplusValue
    | none => do
      let _ ← p.resolve
      .error .help
  else match g.options.find? fun o => o.name == name with
    | some o => begin p o attached
    | none => .error .unknownArgument

/-- Options by their letters; the first that takes a value takes what follows it. -/
def readShort (g : Grammar) (p : Progress) : List Char → Except UsageError Progress
  | [] => .ok p
  | c :: cs =>
    if c = 'h' then do
      let _ ← p.resolve
      .error .help
    else match g.options.find? fun o => o.letter == some c with
      | none => .error .unknownArgument
      | some o =>
        if o.isSwitch then do
          let p ← begin p o none
          readShort g p cs
        else match cs with
          | [] => begin p o none
          | '=' :: value => begin p o (some (String.ofList value))
          | value => begin p o (some (String.ofList value))

/-- A positional argument, unless there are enough. -/
def readPositional (g : Grammar) (p : Progress) (a : String) : Except UsageError Progress :=
  if g.most.all fun most => p.positional.length < most then do
    let p ← p.resolve
    .ok { p with pending := none, positional := p.positional ++ [a] }
  else .error .unknownArgument

/-- The arguments, one after the other; after `--` all are positional. -/
def readFrom (g : Grammar) (ended : Bool) (p : Progress) :
    List String → Except UsageError Progress
  | [] => p.resolve
  | a :: rest =>
    if ended then do
      let p ← g.readPositional p a
      readFrom g true p rest
    else if a = "--" then readFrom g true p rest
    else match long? a.toList, short? a.toList, p.pending with
      | some cs, _, _ => do
        let p ← g.readLong p cs
        readFrom g false p rest
      | none, some cs, _ => do
        let p ← g.readShort p cs
        readFrom g false p rest
      | none, none, some (o, none) =>
        readFrom g false { p with pending := some (o, some a) } rest
      | none, none, _ => do
        let p ← g.readPositional p a
        readFrom g false p rest

/-- The arguments of a command. -/
def read (g : Grammar) (args : List String) : Except UsageError Progress := do
  let p ← g.readFrom false .start args
  if p.positional.length < g.least || g.options.any fun o => o.required && !p.has o.name then
    .error .missingArgument
  else .ok p

end Grammar

namespace Progress

/-- The value of an option. -/
def value? (p : Progress) (name : String) : Option String := p.given.lookup name

end Progress

end TableFilter.CommandLine
