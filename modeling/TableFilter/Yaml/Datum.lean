import TableFilter.Data
import TableFilter.Yaml.Node

/-!
# YAML data

* `Datum` is a node whose scalars have types;
* `Datum.ofPlain?` gives a plain scalar its type, by the rules of the core schema: null, booleans,
  whole numbers in base ten, sixteen, eight or two, decimal numbers, infinities and not-a-number. A
  whole number of more than 64 bits is refused, unless it is beyond 128 bits as well, when it counts
  as a decimal number or as text;
* `Node.datum?` gives a node its types;
* YAML is a format of `Data`, in which entries and alternatives are named or counted from zero.
-/

namespace TableFilter.Yaml

open TableFilter.Number (Binary64)

/-- A node with types. A whole number without a minus sign is a `natural` one, with a minus sign a
`signed` one, the zero of each being its own. -/
inductive Datum where
  | null
  | bool (b : Bool)
  | natural (n : Nat)
  | signed (n : Int)
  | real (x : Binary64)
  | string (s : String)
  | sequence (items : List Datum)
  | mapping (entries : List (Datum × Datum))
  deriving Repr, Inhabited

namespace Datum

/-! ### Types of plain scalars -/

/-- Whether a plain scalar is null. -/
def isNullText (s : String) : Bool := ["", "~", "null", "Null", "NULL"].contains s

/-- The boolean that a plain scalar stands for. -/
def bool? (s : String) : Option Bool :=
  if ["true", "True", "TRUE"].contains s then some true
  else if ["false", "False", "FALSE"].contains s then some false
  else none

/-- A row of digits of a base as a number. -/
def digits? (base : Nat) (cs : List Char) : Option Nat :=
  let digit? (c : Char) : Option Nat :=
    (Number.hexDigit? c).bind fun d => if d < base then some d else none
  match cs.mapM digit? with
  | some [] => none
  | some ds => some (Number.ofDigits base ds)
  | none => none

/-- The digits of a whole number without its sign, in base ten or in the base that is marked. -/
def magnitude? : List Char → Option Nat
  | '0' :: 'x' :: cs => digits? 16 cs
  | '0' :: 'o' :: cs => digits? 8 cs
  | '0' :: 'b' :: cs => digits? 2 cs
  | cs => digits? 10 cs

/-- Whether a text is a row of digits, with or without a sign, that begins with a needless zero.
Such a text is no number. -/
def isPadded (cs : List Char) : Bool :=
  let cs := match cs with
    | '-' :: r => r
    | '+' :: r => r
    | r => r
  match cs with
  | '0' :: d :: ds => (d :: ds).all fun c => (Number.digit? c).isSome
  | _ => false

/-- The floating-point number that a plain scalar stands for. Infinities are written with a point in
front, and only they may have a sign. -/
def real? (cs : List Char) : Option Binary64 :=
  let decimal? (cs : List Char) : Option Binary64 :=
    (Binary64.ofText? (String.ofList cs)).filter (·.isFinite)
  let isInfinity (cs : List Char) : Bool := [".inf", ".Inf", ".INF"].contains (String.ofList cs)
  match cs with
  | '+' :: '+' :: _ => none
  | '+' :: '-' :: _ => none
  | '+' :: r => if isInfinity r then some (.infinite false) else decimal? r
  | '-' :: r => if isInfinity r then some (.infinite true) else decimal? cs
  | cs =>
    if isInfinity cs then some (.infinite false)
    else if [".nan", ".NaN", ".NAN"].contains (String.ofList cs) then some .nan
    else decimal? cs

/-- A plain scalar that is no whole number in range: a decimal number or text. -/
def ofDecimal (s : String) : Datum :=
  match real? s.toList with
  | some x => .real x
  | none => .string s

/-- A whole number without a minus sign. -/
def ofNatural? (s : String) (n : Nat) : Option Datum :=
  if n < Nat.pow 2 64 then some (.natural n)
  else if n < Nat.pow 2 128 then none
  else some (ofDecimal s)

/-- A whole number with a minus sign. -/
def ofNegative? (s : String) (n : Nat) : Option Datum :=
  if n ≤ Nat.pow 2 63 then some (.signed (-n))
  else if n ≤ Nat.pow 2 127 then none
  else some (ofDecimal s)

/-- The value of a plain scalar that is neither null nor a boolean. -/
def ofNumeral? (s : String) : Option Datum :=
  if isPadded s.toList then some (.string s)
  else match s.toList with
    | '-' :: cs =>
      match magnitude? cs with
      | some n => ofNegative? s n
      | none => some (ofDecimal s)
    | '+' :: cs =>
      match magnitude? cs with
      | some n => ofNatural? s n
      | none => some (ofDecimal s)
    | cs =>
      match magnitude? cs with
      | some n => ofNatural? s n
      | none => some (ofDecimal s)

/-- The value of a plain scalar; there is none for some whole numbers of more than 64 bits. -/
def ofPlain? (s : String) : Option Datum :=
  if isNullText s then some .null
  else match bool? s with
    | some b => some (.bool b)
    | none => ofNumeral? s

end Datum

/-! ### Types of nodes -/

namespace Node

mutual

/-- A node with types, of which at most `depth` collections may be nested. -/
def datum? (depth : Nat) : Node → Option Datum
  | scalar s plain => if plain then Datum.ofPlain? s else some (.string s)
  | sequence items =>
    match depth with
    | 0 => none
    | d + 1 => (itemData? d items).map .sequence
  | mapping entries =>
    match depth with
    | 0 => none
    | d + 1 => (entryData? d entries).map .mapping

/-- Items with types. -/
def itemData? (depth : Nat) : List Node → Option (List Datum)
  | [] => some []
  | n :: ns => do
    let d ← n.datum? depth
    let ds ← itemData? depth ns
    return d :: ds

/-- Entries with types. -/
def entryData? (depth : Nat) : List (Node × Node) → Option (List (Datum × Datum))
  | [] => some []
  | (k, v) :: es => do
    let k ← k.datum? depth
    let v ← v.datum? depth
    let es ← entryData? depth es
    return (k, v) :: es

end

/-- The text of a scalar, or nothing for null. -/
def optionalText? : Node → Option (Option String)
  | scalar s plain => some (if plain && Datum.isNullText s then none else some s)
  | _ => none

end Node

/-! ### Access -/

namespace Datum

/-- Whether the value is null. -/
def isNull : Datum → Bool
  | null => true
  | _ => false

/-- The text of a string. -/
def string? : Datum → Option String
  | string s => some s
  | _ => none

/-- The value of a number. -/
def number? : Datum → Option Binary64
  | natural n => some (.ofInt n)
  | signed n => some (.ofInt n)
  | real x => some x
  | _ => none

/-- The items of a sequence. -/
def items? : Datum → Option (List Datum)
  | sequence items => some items
  | _ => none

/-- The name that a key gives to an entry: itself, or the one that it counts to. A number beyond the
names gives none, and other keys are refused. -/
def name? (names : List String) : Datum → Option (Option String)
  | string s => some (some s)
  | natural n => some names[n]?
  | _ => none

/-- The named entries of a mapping. -/
def fields? (names : List String) : Datum → Option (List (String × Datum))
  | mapping entries => do
    let named ← entries.mapM fun (k, v) => (k.name? names).map fun name => (name, v)
    return named.filterMap fun (name, v) => name.map (·, v)
  | _ => none

/-- One of several alternatives: its name, or a mapping with its name or number as the only key and
nothing to it. -/
def choice? {α : Type} (ofName : String → α) (ofIndex : Nat → α) : Datum → Option α
  | string s => some (ofName s)
  | mapping [(string s, null)] => some (ofName s)
  | mapping [(string s, mapping [])] => some (ofName s)
  | mapping [(natural n, null)] => some (ofIndex n)
  | mapping [(natural n, mapping [])] => some (ofIndex n)
  | _ => none

instance : Data Datum where
  isNull := isNull
  string? := string?
  real? := number?
  items? := items?
  fields? := fields?
  choice? := choice?

end Datum

/-- The number of collections that may be nested in data. -/
def maxDepth : Nat := 128

end TableFilter.Yaml
