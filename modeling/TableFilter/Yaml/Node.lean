import TableFilter.Yaml.Token

/-!
# Nodes of a YAML text

The content of a text: scalars, sequences and mappings, whose keys may be any nodes.

* `Node.ofTokens?` reads the one document of a list of tokens. An entry without a value, an item
  without content and a document without any are the empty scalar;
* `Node.parse?` reads a text.

The first argument of a reading function is a bound on the number of nested steps.
-/

namespace TableFilter.Yaml

/-- The content of a text. A scalar that is not quoted is plain. -/
inductive Node where
  | scalar (text : String) (plain : Bool)
  | sequence (items : List Node)
  | mapping (entries : List (Node × Node))
  deriving Repr, Inhabited

namespace Node

/-- What stands where nothing is written. -/
def empty : Node := .scalar "" true

/-- Where a node stands. Block collections may not stand in flow collections, and a sequence without
an indentation of its own stands in entries of block mappings only. -/
inductive Place where
  | flow
  | item
  | entry
  deriving DecidableEq, Repr

/-- Whether one of several tokens comes next. -/
def isNext (ts : List Token) (stops : List Token) : Bool := ts.head?.any stops.contains

mutual

/-- A node. -/
def read : Nat → Place → List Token → Option (Node × List Token)
  | 0, _, _ => none
  | fuel + 1, place, ts =>
    match ts with
    | .scalar text plain :: ts => some (.scalar text plain, ts)
    | .openSequence :: ts => (readFlowItems fuel true ts).map fun (ns, ts) => (.sequence ns, ts)
    | .openMapping :: ts => (readFlowEntries fuel true ts).map fun (es, ts) => (.mapping es, ts)
    | .blockSequence :: ts =>
      if place = .flow then none
      else (readItems fuel ts).map fun (ns, ts) => (.sequence ns, ts)
    | .blockMapping :: ts =>
      if place = .flow then none
      else (readEntries fuel ts).map fun (es, ts) => (.mapping es, ts)
    | .item :: _ =>
      if place = .entry then (readEntryItems fuel ts).map fun (ns, ts) => (.sequence ns, ts)
      else none
    | _ => none

/-- A node, empty if one of several tokens comes next. -/
def readUnless (stops : List Token) : Nat → Place → List Token → Option (Node × List Token)
  | 0, _, _ => none
  | fuel + 1, place, ts => if isNext ts stops then some (empty, ts) else read fuel place ts

/-- The value after a colon, empty if there is no colon. -/
def readValue (stops : List Token) : Nat → Place → List Token → Option (Node × List Token)
  | 0, _, _ => none
  | fuel + 1, place, ts =>
    match ts with
    | .value :: ts => readUnless stops fuel place ts
    | ts => some (empty, ts)

/-- The items of a block sequence. -/
def readItems : Nat → List Token → Option (List Node × List Token)
  | 0, _ => none
  | fuel + 1, ts =>
    match ts with
    | .item :: ts => do
      let (n, ts) ← readUnless [.item, .blockEnd] fuel .item ts
      let (ns, ts) ← readItems fuel ts
      return (n :: ns, ts)
    | .blockEnd :: ts => some ([], ts)
    | _ => none

/-- The items of a sequence in an entry, without an end of its own. -/
def readEntryItems : Nat → List Token → Option (List Node × List Token)
  | 0, _ => none
  | fuel + 1, ts =>
    match ts with
    | .item :: ts => do
      let (n, ts) ← readUnless [.item, .key, .value, .blockEnd] fuel .item ts
      let (ns, ts) ← readEntryItems fuel ts
      return (n :: ns, ts)
    | ts => some ([], ts)

/-- The entries of a block mapping. -/
def readEntries : Nat → List Token → Option (List (Node × Node) × List Token)
  | 0, _ => none
  | fuel + 1, ts =>
    match ts with
    | .key :: ts => do
      let stops : List Token := [.key, .value, .blockEnd]
      let (k, ts) ← readUnless stops fuel .entry ts
      let (v, ts) ← readValue stops fuel .entry ts
      let (es, ts) ← readEntries fuel ts
      return ((k, v) :: es, ts)
    | .blockEnd :: ts => some ([], ts)
    | _ => none

/-- The items of a flow sequence; before each but the first comes a comma. -/
def readFlowItems : Nat → Bool → List Token → Option (List Node × List Token)
  | 0, _, _ => none
  | fuel + 1, first, ts =>
    match first, ts with
    | _, .closeSequence :: ts => some ([], ts)
    | false, .comma :: .closeSequence :: ts => some ([], ts)
    | false, .comma :: ts => readFurtherItems fuel ts
    | false, _ => none
    | true, ts => readFurtherItems fuel ts

/-- An item of a flow sequence and those after it. -/
def readFurtherItems : Nat → List Token → Option (List Node × List Token)
  | 0, _ => none
  | fuel + 1, ts => do
    let (n, ts) ← readFlowItem fuel ts
    let (ns, ts) ← readFlowItems fuel false ts
    return (n :: ns, ts)

/-- An item of a flow sequence. A key makes it a mapping of one entry; an empty key takes up the
token after it. -/
def readFlowItem : Nat → List Token → Option (Node × List Token)
  | 0, _ => none
  | fuel + 1, ts =>
    match ts with
    | .key :: ts => do
      let (k, ts) ←
        if isNext ts [.value, .comma, .closeSequence] then some (empty, ts.drop 1)
        else read fuel .flow ts
      let (v, ts) ← readValue [.comma, .closeSequence] fuel .flow ts
      return (.mapping [(k, v)], ts)
    | ts => read fuel .flow ts

/-- The entries of a flow mapping; before each but the first comes a comma. -/
def readFlowEntries : Nat → Bool → List Token → Option (List (Node × Node) × List Token)
  | 0, _, _ => none
  | fuel + 1, first, ts =>
    match first, ts with
    | _, .closeMapping :: ts => some ([], ts)
    | false, .comma :: .closeMapping :: ts => some ([], ts)
    | false, .comma :: ts => readFurtherEntries fuel ts
    | false, _ => none
    | true, ts => readFurtherEntries fuel ts

/-- An entry of a flow mapping and those after it. -/
def readFurtherEntries : Nat → List Token → Option (List (Node × Node) × List Token)
  | 0, _ => none
  | fuel + 1, ts => do
    let (e, ts) ← readFlowEntry fuel ts
    let (es, ts) ← readFlowEntries fuel false ts
    return (e :: es, ts)

/-- An entry of a flow mapping. A node without a key mark has no value. -/
def readFlowEntry : Nat → List Token → Option ((Node × Node) × List Token)
  | 0, _ => none
  | fuel + 1, ts =>
    match ts with
    | .key :: ts => do
      let (k, ts) ← readUnless [.value, .comma, .closeMapping] fuel .flow ts
      let (v, ts) ← readValue [.comma, .closeMapping] fuel .flow ts
      return ((k, v), ts)
    | ts => (read fuel .flow ts).map fun (k, ts) => ((k, empty), ts)

end

/-- The content of the one document of a list of tokens, after which only ends may be marked. -/
def ofTokens? (ts : List Token) : Option Node :=
  let fuel := 6 * ts.length + 6
  let content : Option (Node × List Token) :=
    match ts with
    | [] => some (empty, [])
    | [.documentStart] => some (empty, [])
    | .documentStart :: ts => readUnless [.documentStart, .documentEnd] fuel .item ts
    | ts => read fuel .item ts
  match content with
  | some (n, rest) => if rest.all (· == .documentEnd) then some n else none
  | none => none

/-- The content of a text. -/
def parse? (s : String) : Option Node := (tokens? s).bind ofTokens?

/-! ### Parts of nodes -/

/-- The text of a scalar, whatever its type. -/
def text? : Node → Option String
  | scalar s _ => some s
  | _ => none

/-- The items of a sequence; an empty plain scalar is the empty one. -/
def items? : Node → Option (List Node)
  | scalar s plain => if plain && s.isEmpty then some [] else none
  | sequence items => some items
  | mapping _ => none

/-- The entries of a mapping, whose keys must be scalars. -/
def entries? : Node → Option (List (String × Node))
  | mapping entries => entries.mapM fun (k, v) => k.text?.map (·, v)
  | _ => none

end Node

end TableFilter.Yaml
