import TableFilter.Yaml.Scalar

/-!
# Tokens of a YAML text

The marks and scalars of a text in order. Block collections have no closing marks, and a mapping is
known as one only at its first colon. Both are made explicit: `tokens?` gives a list in which
collections are bracketed by their start and end, and every key has a `key` in front.

* `Candidate` is a place where a key may have begun: a scalar or a flow collection after which a
  colon can still come on the same line, at most 1024 characters later;
* `Lexer` is the state between two tokens: the open block collections by their columns, the open
  flow collections, and the candidate of each;
* `Lexer.read` reads one token.

Anchors, aliases, tags, block scalars and directives are not read.
-/

namespace TableFilter.Yaml

/-- A mark or a scalar. Of the collections, those with `open` and `close` are flow collections. -/
inductive Token where
  | documentStart
  | documentEnd
  | blockSequence
  | blockMapping
  | blockEnd
  | openSequence
  | closeSequence
  | openMapping
  | closeMapping
  | comma
  | item
  | key
  | value
  | scalar (text : String) (plain : Bool)
  deriving DecidableEq, Repr

/-- A place where a key may have begun. What begins at the column of an open block collection must
turn out to be a key. -/
structure Candidate where
  /-- The number of tokens before it. -/
  position : Nat
  line : Nat
  column : Nat
  required : Bool
  deriving DecidableEq, Repr

/-- Whether a colon at a place is too late for the key. -/
def Candidate.isStale (line column : Nat) (k : Candidate) : Bool :=
  k.line < line || k.column + 1024 < column

/-- The state between two tokens. -/
structure Lexer where
  /-- The tokens so far, the last one first. -/
  tokens : List Token
  /-- The number of tokens. -/
  count : Nat
  /-- The candidate in the innermost flow collection, or outside of all. -/
  candidate : Option Candidate
  /-- The candidates further out, one for each open flow collection. -/
  outer : List (Option Candidate)
  /-- The columns of the open block collections, the innermost first. -/
  columns : List Nat
  /-- Whether a key may begin next. -/
  keyAllowed : Bool

namespace Lexer

/-- The state at the beginning of a text. -/
def start : Lexer := ⟨[], 0, none, [], [], true⟩

/-- Whether a flow collection is open. -/
def inFlow (s : Lexer) : Bool := !s.outer.isEmpty

/-- The column of the innermost block collection. -/
def indent (s : Lexer) : Int :=
  match s.columns with
  | [] => -1
  | k :: _ => k

/-- The state after one more token. -/
def push (t : Token) (s : Lexer) : Lexer := { s with tokens := t :: s.tokens, count := s.count + 1 }

/-! ### Indentation -/

/-- The state with the block collections closed that lie to the right of a column. -/
def dedent (column : Int) (s : Lexer) : Lexer :=
  if s.inFlow then s
  else
    let closed := (s.columns.takeWhile fun (k : Nat) => column < k).length
    { s with
      tokens := List.replicate closed .blockEnd ++ s.tokens
      count := s.count + closed
      columns := s.columns.drop closed }

/-- The state with a block collection that begins at a column, `before` the last tokens, unless the
innermost one does or a flow collection is open. -/
def openBlock (t : Token) (column before : Nat) (s : Lexer) : Lexer :=
  if !s.inFlow && s.indent < column then
    { s with
      tokens := s.tokens.take before ++ t :: s.tokens.drop before
      count := s.count + 1
      columns := column :: s.columns }
  else s

/-! ### Keys -/

/-- The state without the innermost candidate, which must not be a required key. -/
def dropCandidate (s : Lexer) : Option Lexer :=
  if s.candidate.any (·.required) then none else some { s with candidate := none }

/-- The state with a candidate that begins at a cell, if a key may begin there. -/
def addCandidate (c : Cell) (s : Lexer) : Option Lexer :=
  if s.keyAllowed then do
    let s ← s.dropCandidate
    return { s with
      candidate := some ⟨s.count, c.line, c.column, !s.inFlow && s.indent == c.column⟩ }
  else some s

/-- The state without the candidates that a colon at a place is too late for. -/
def dropStale (line column : Nat) (s : Lexer) : Option Lexer :=
  let isLate (k : Candidate) : Bool := k.isStale line column
  if (s.candidate :: s.outer).any (·.any fun k => isLate k && k.required) then none
  else some { s with
    candidate := s.candidate.filter (!isLate ·)
    outer := s.outer.map (·.filter (!isLate ·)) }

/-- The state with the candidate, if there is one, as a key before a colon. Otherwise the colon, or
the question mark, has an empty key or an explicit one. -/
def beginEntry (c : Cell) (s : Lexer) : Option Lexer :=
  match s.candidate with
  | some k =>
    let since := s.count - k.position
    let marked := { s with
      tokens := s.tokens.take since ++ Token.key :: s.tokens.drop since
      count := s.count + 1
      candidate := none
      keyAllowed := false }
    some (marked.openBlock .blockMapping k.column (since + 1))
  | none =>
    if s.inFlow then some { s with keyAllowed := false }
    else if s.keyAllowed then some (s.openBlock .blockMapping c.column 0)
    else none

/-! ### Marks -/

/-- The state after the mark of a document. -/
def readDocumentMark (t : Token) (s : Lexer) : Option Lexer := do
  let s ← (s.dedent (-1)).dropCandidate
  return { s.push t with keyAllowed := false }

/-- The state after the mark that opens a flow collection. -/
def openFlow (t : Token) (c : Cell) (s : Lexer) : Option Lexer := do
  let s ← s.addCandidate c
  return { s.push t with candidate := none, outer := s.candidate :: s.outer, keyAllowed := true }

/-- The state after the mark that closes a flow collection. -/
def closeFlow (t : Token) (s : Lexer) : Option Lexer := do
  let s ← s.dropCandidate
  return { s.push t with
    candidate := s.outer.head?.join
    outer := s.outer.tail
    keyAllowed := false }

/-- The state after a comma. -/
def readComma (s : Lexer) : Option Lexer := do
  let s ← s.dropCandidate
  return { s.push .comma with keyAllowed := true }

/-- The state after the dash of an item. -/
def readItem (c : Cell) (s : Lexer) : Option Lexer :=
  if s.inFlow || s.keyAllowed then do
    let s ← (s.openBlock .blockSequence c.column 0).dropCandidate
    return { s.push .item with keyAllowed := true }
  else none

/-- The state after the question mark of a key. -/
def readKey (c : Cell) (s : Lexer) : Option Lexer :=
  if s.inFlow || s.keyAllowed then do
    let s ← (s.openBlock .blockMapping c.column 0).dropCandidate
    return { s.push .key with keyAllowed := !s.inFlow }
  else none

/-- The state after the colon of a value. -/
def readValue (c : Cell) (s : Lexer) : Option Lexer := (s.beginEntry c).map (push .value)

/-- The state after a scalar that begins at a cell. -/
def readScalar (c : Cell) (text : List Char) (isPlain broken : Bool) (s : Lexer) :
    Option Lexer := do
  let s ← s.addCandidate c
  return { s.push (.scalar (String.ofList text) isPlain) with keyAllowed := broken }

/-! ### Texts -/

/-- The rest after blanks, comments and line ends, and whether a key may begin there. A new line
allows one outside of flow collections, and where one may begin a tab must not stand. -/
def skipGap (flow : Bool) : Bool → List Cell → Bool × List Cell
  | keyAllowed, [] => (keyAllowed, [])
  | keyAllowed, c :: cs =>
    if c.char = ' ' ∨ c.char = '\ufeff' ∧ c.column = 0 ∨ c.char = '\t' ∧ (flow ∨ !keyAllowed) then
      skipGap flow keyAllowed cs
    else if c.isBreak then skipGap flow (keyAllowed || !flow) cs
    else if c.char = '#' then skipGap flow keyAllowed (cs.dropWhile (!·.isBreak))
    else (keyAllowed, c :: cs)
termination_by _ cs => cs.length
decreasing_by
  · simp
  · simp
  · exact Nat.lt_succ_of_le (List.dropWhile_sublist _).length_le

/-- The state after one token, which begins at a cell, and what follows. -/
def read (c : Cell) (cs : List Cell) (s : Lexer) : Option (Lexer × List Cell) :=
  if isDocumentMark '-' (c :: cs) then (s.readDocumentMark .documentStart).map (·, cs.drop 2)
  else if isDocumentMark '.' (c :: cs) then (s.readDocumentMark .documentEnd).map (·, cs.drop 2)
  else if c.char = '[' then (s.openFlow .openSequence c).map (·, cs)
  else if c.char = '\x7b' then (s.openFlow .openMapping c).map (·, cs)
  else if c.char = ']' then (s.closeFlow .closeSequence).map (·, cs)
  else if c.char = '\x7d' then (s.closeFlow .closeMapping).map (·, cs)
  else if c.char = ',' then s.readComma.map (·, cs)
  else if c.char = '-' ∧ atSpace cs then (s.readItem c).map (·, cs)
  else if c.char = '?' ∧ (s.inFlow || atSpace cs) then (s.readKey c).map (·, cs)
  else if c.char = ':' ∧ (s.inFlow || atSpace cs) then (s.readValue c).map (·, cs)
  else if c.char = '\x27' then do
    let (text, rest) ← singleQuoted [] cs
    (s.readScalar c text false false).map (·, rest)
  else if c.char = '"' then do
    let (text, rest) ← doubleQuoted false [] cs
    (s.readScalar c text false false).map (·, rest)
  else if startsPlain s.inFlow c cs then do
    let (text, broken, rest) ← plain s.inFlow (s.indent + 1).toNat [] (c :: cs)
    (s.readScalar c text true broken).map (·, rest)
  else none

/-- The tokens at the end of a text. -/
def finish (s : Lexer) : Option (List Token) := do
  let s ← (s.dedent (-1)).dropCandidate
  return s.tokens.reverse

/-- The tokens of cells. The first argument is a bound on their number. -/
def run : Nat → List Cell → Lexer → Option (List Token)
  | 0, _, _ => none
  | fuel + 1, cs, s =>
    let (keyAllowed, cs) := skipGap s.inFlow s.keyAllowed cs
    let s := { s with keyAllowed := keyAllowed }
    match cs with
    | [] => s.finish
    | c :: cs => do
      let s ← s.dropStale c.line c.column
      let (s, rest) ← (s.dedent c.column).read c cs
      run fuel rest s

end Lexer

/-- The tokens of a text. -/
def tokens? (s : String) : Option (List Token) :=
  if s.toList.all isAllowed then
    let cs := cells s
    Lexer.run (cs.length + 1) cs .start
  else none

end TableFilter.Yaml
