import TableFilter.Json.Reading

/-!
# Date ranges

The value of a date range is a text: an object with the optional entries `from` and `to`, or an array
of at most these two. Each is a string or null. Other entries are passed over, whatever they hold; an
entry given twice spoils the range.
-/

namespace TableFilter

/-- The bounds of a date range. -/
structure DateRange where
  start : Option String
  stop : Option String
  deriving DecidableEq, Repr

namespace DateRange

open Json (Reading Fault)

/-- A bound: a string, or null for none. -/
def bound? : Reading → Option (Option String)
  | .null => some none
  | .string (.ok s) => some (some s)
  | _ => none

/-- The bounds of entries, given those found before. -/
def ofEntries? (start stop : Option (Option String)) :
    List (Except Fault String × Reading) → Option DateRange
  | [] => some ⟨start.getD none, stop.getD none⟩
  | (.error _, _) :: _ => none
  | (.ok key, v) :: rest =>
    if key = "from" then
      match start, bound? v with
      | none, some b => ofEntries? (some b) stop rest
      | _, _ => none
    else if key = "to" then
      match stop, bound? v with
      | none, some b => ofEntries? start (some b) rest
      | _, _ => none
    else match v.skip with
      | .ok () => ofEntries? start stop rest
      | .error _ => none

/-- The bounds of what was read. -/
def ofReading? : Reading → Option DateRange
  | .object entries => ofEntries? none none entries
  | .array [] => some ⟨none, none⟩
  | .array [a] => (bound? a).map fun a => ⟨a, none⟩
  | .array [a, b] => do
    let a ← bound? a
    let b ← bound? b
    return ⟨a, b⟩
  | _ => none

/-- The bounds that a text holds. -/
def ofText? (s : String) : Option DateRange :=
  match Json.read s with
  | (reading, none) => ofReading? reading
  | (_, some _) => none

/-- A bound that is not empty. -/
def filled? : Option String → Option String
  | some s => if s.isEmpty then none else some s
  | none => none

end DateRange

end TableFilter
