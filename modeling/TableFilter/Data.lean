import TableFilter.Keyed
import TableFilter.Number.Binary64

/-!
# Data

Configuration is written in more than one format. `Data` is what its readers ask of a value,
whatever the format:

* `string?`, `real?` and `items?` give the content of a value of the kind that is wanted;
* `fields?` gives the entries of an object with known names, `choice?` one of several alternatives.
  A format may name them or count them.

`required?` and `optional?` read an entry, the latter taking null for absence.
-/

namespace TableFilter

open Number (Binary64)

/-- A format of data. -/
class Data (δ : Type) where
  /-- Whether a value is null. -/
  isNull : δ → Bool
  /-- The text of a string. -/
  string? : δ → Option String
  /-- The value of a number. -/
  real? : δ → Option Binary64
  /-- The items of an array. -/
  items? : δ → Option (List δ)
  /-- The entries of an object whose entries have the given names, in this order where they are
  counted. -/
  fields? : List String → δ → Option (List (String × δ))
  /-- One of several alternatives, from its name or its number. -/
  choice? : {α : Type} → (String → α) → (Nat → α) → δ → Option α

namespace Data

variable {δ α : Type} [Data δ]

/-- The members of an array. -/
def members? (member? : δ → Option α) (d : δ) : Option (List α) := (items? d).bind (·.mapM member?)

/-- The value of an entry that must be given. -/
def required? (read? : δ → Option α) (key : String) (entries : List (String × δ)) : Option α :=
  match Keyed.once? key entries with
  | some (some value) => read? value
  | _ => none

/-- The value of an entry that may be absent or null. -/
def optional? (read? : δ → Option α) (key : String) (entries : List (String × δ)) :
    Option (Option α) :=
  match Keyed.once? key entries with
  | some none => some none
  | some (some value) => if isNull value then some none else (read? value).map some
  | none => none

end Data

end TableFilter
