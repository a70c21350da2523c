import TableFilter.Keyed

/-!
# Parameter patches

A patch says which navigation parameters to change: each key it mentions gets a value, and the empty
value clears the key. Keys stand in the order in which they were first set, each once.

* `Patch.get?` is the view of a patch: what it says of a key;
* `Patch.sorted` are its entries in the order of their keys, and `Patch.content` is the patch without
  its order: patches that say the same of every key have the same content.
-/

namespace TableFilter

/-- Changes to navigation parameters. -/
structure Patch where
  entries : List (String × String)
  deriving DecidableEq, Repr

namespace Patch

/-- The patch that changes nothing. -/
def empty : Patch := ⟨[]⟩

/-- The patch with a key set, at its place if it is mentioned already. -/
def set (p : Patch) (key value : String) : Patch := ⟨Keyed.put key value p.entries⟩

/-- The patch of pairs that are set one after the other. -/
def ofList (pairs : List (String × String)) : Patch :=
  pairs.foldl (fun p pair => p.set pair.1 pair.2) empty

/-- What the patch says of a key. -/
def get? (p : Patch) (key : String) : Option String := p.entries.lookup key

/-- Whether the patch mentions a key. -/
def contains (p : Patch) (key : String) : Bool := (p.get? key).isSome

theorem get?_set (p : Patch) (key value k : String) :
    (p.set key value).get? k = if k = key then some value else p.get? k :=
  Keyed.lookup_put key k value p.entries

/-! ### Content -/

/-- Whether one pair comes before another: by key, then by value. -/
def pairBefore (a b : String × String) : Bool := a.1 < b.1 || (a.1 == b.1 && a.2 ≤ b.2)

/-- A sorted list with a pair put at its place. -/
def insertPair (pair : String × String) : List (String × String) → List (String × String)
  | [] => [pair]
  | p :: ps => if pairBefore pair p then pair :: p :: ps else p :: insertPair pair ps

/-- The entries in the order of their keys. -/
def sorted (p : Patch) : List (String × String) := p.entries.foldr insertPair []

end Patch

/-- What a patch says, whatever the order in which it was set. -/
structure Patch.Content where
  sorted : List (String × String)
  deriving DecidableEq, Repr

/-- The content of a patch. -/
def Patch.content (p : Patch) : Patch.Content := ⟨p.sorted⟩

end TableFilter
