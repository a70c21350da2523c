import TableFilter.CommandLine.Command

/-!
# The command line program

Reads the arguments, gives the command the text of the file it names, and prints its output.
-/

namespace TableFilter.CommandLine

/-- The words for arguments that are not run. -/
def UsageError.message : UsageError → String
  | missingArgument => "a required argument is missing"
  | unknownArgument => "unexpected argument"
  | unknownCommand => "unrecognized command"
  | missingValue => "an option lacks its value"
  | badValue => "invalid value"
  | repeatedOption => "an option is given twice"
  | surplusValue => "a switch takes no value"
  | help => "usage: compile | decompile | hydrate"
  | version => "0.3.0"
  | helpForNothing => "usage: compile | decompile | hydrate"

/-- The words for a command without output. -/
def CommandError.message : CommandError → String
  | spec e => e.message
  | table (.problem p) => p.message
  | table (.json (.invalid p)) => p.message
  | table (.json _) => "invalid table config JSON"
  | table .yaml => "invalid table config YAML"
  | table .unsupportedFormat => "unsupported table config format"
  | table .unreadable => "cannot read the table config"

/-- The file that a command names. -/
def Command.path? : Command → Option String
  | compile config .. => some config
  | hydrate config .. => some config
  | decompile .. => none

/-- The text of a file, if it can be read. -/
def fileText (path : String) : IO (Option String) := do
  try
    let text ← IO.FS.readFile path
    return some text
  catch _ => return none

end TableFilter.CommandLine

open TableFilter.CommandLine in
/-- Runs the command of the arguments. -/
def main (args : List String) : IO UInt32 := do
  match Command.read args with
  | .error e =>
    IO.eprintln e.message
    return if e = .help ∨ e = .version then 0 else 2
  | .ok command =>
    let text ← match command.path? with
      | some path => fileText path
      | none => pure none
    match command.run fun _ => text with
    | .ok output =>
      IO.print output
      return 0
    | .error e =>
      IO.eprintln e.message
      return 1
