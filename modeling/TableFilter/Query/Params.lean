import TableFilter.Query.Patch
import TableFilter.Text.FormEncoding

/-!
# Navigation parameters

The parameters of a navigation text, in order and with repeats.

* `Params.parse` reads a text, with or without a leading question mark, and `Params.text` writes it;
* `Params.get?` is the first value of a key and `Params.value` the same with the empty value for an
  absent key: it is the value that the parameter shows;
* `Params.apply` makes the changes of a patch. A key is set at its first place and stands once; every
  other pair stays where it is.
-/

namespace TableFilter

/-- The parameters of a navigation text. -/
structure Params where
  pairs : List (String × String)
  deriving DecidableEq, Repr

/-- A text without the question mark it may begin with. -/
def withoutMark (s : String) : String :=
  match s.toList with
  | '?' :: cs => String.ofList cs
  | _ => s

namespace Params

/-- No parameters. -/
def empty : Params := ⟨[]⟩

/-- The parameters of a text. -/
def parse (s : String) : Params := ⟨Text.Form.readPairs (withoutMark s).toList⟩

/-- The text of the parameters, without a question mark. -/
def text (p : Params) : String := String.ofList (Text.Form.writePairs p.pairs)

/-- The first value of a key. -/
def get? (p : Params) (key : String) : Option String := p.pairs.lookup key

/-- Whether a key occurs. -/
def contains (p : Params) (key : String) : Bool := (p.get? key).isSome

/-- The value that a key shows: its first one, or the empty one. -/
def value (p : Params) (key : String) : String := (p.get? key).getD ""

/-- The pairs with the first occurrence of a key set and later ones dropped, or with the key
appended. -/
def setIn (key value : String) : List (String × String) → List (String × String)
  | [] => [(key, value)]
  | (k, v) :: rest =>
    if k = key then (k, value) :: rest.filter (·.1 ≠ key) else (k, v) :: setIn key value rest

/-- The parameters with a key set. -/
def set (p : Params) (key value : String) : Params := ⟨setIn key value p.pairs⟩

/-- The parameters without a key. -/
def remove (p : Params) (key : String) : Params := ⟨p.pairs.filter (·.1 ≠ key)⟩

/-- The parameters with one change made: the empty value removes the key. -/
def change (p : Params) (entry : String × String) : Params :=
  if entry.2.isEmpty then p.remove entry.1 else p.set entry.1 entry.2

/-- The parameters with the changes of a patch made. -/
def apply (p : Params) (patch : Patch) : Params := patch.entries.foldl change p

/-- Whether the parameters show every value of a patch. -/
def shows (p : Params) (patch : Patch) : Bool :=
  patch.entries.all fun entry => p.value entry.1 == entry.2

end Params

end TableFilter
