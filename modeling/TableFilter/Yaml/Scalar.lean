import TableFilter.Number.Natural
import TableFilter.Yaml.Cell

/-!
# Scalars of a YAML text

* `folded` is what the blanks and line ends between two words of a scalar stand for: a single line
  end is a blank, and of several each but the first is a line end;
* `plain` reads a scalar without marks, which ends before a colon that a space follows, before a
  comment, at a lesser indentation, and inside flow collections at their marks;
* `singleQuoted` and `doubleQuoted` read a scalar after its opening mark.

The first argument of a reader holds the spaces since the last word.
-/

namespace TableFilter.Yaml

/-- The text of the spaces between two words. A separator that ends the first line stays. -/
def folded (gap : List Cell) : List Char :=
  match gap.filter Cell.isBreak with
  | [] => gap.map (·.char)
  | [b] => if b.char = '\n' then [' '] else [b.char]
  | b :: bs => (if b.char = '\n' then bs else b :: bs).map (·.char)

/-- Whether a line ends in a gap. -/
def isBroken (gap : List Cell) : Bool := gap.any Cell.isBreak

/-! ### Plain scalars -/

/-- Whether a plain scalar may begin with the cell. -/
def startsPlain (flow : Bool) (c : Cell) (cs : List Cell) : Bool :=
  if c.char = '-' then !(cs.head?.any Cell.isBlank)
  else if c.char = '?' ∨ c.char = ':' then !flow && !atSpace cs
  else !c.isSpace && !c.isFlowMark && !"#&*!|>'\"%@\x60".toList.contains c.char

/-- Whether a plain scalar ends before a word that a gap precedes. -/
def endsBefore (flow : Bool) (indent : Nat) (c : Cell) (cs : List Cell) : Bool :=
  (!flow && c.column < indent) || c.char = '#' || atDocumentMark (c :: cs)

/-- Whether a plain scalar ends at the cell, in a word or before one. -/
def endsAt (flow : Bool) (c : Cell) (cs : List Cell) : Bool :=
  (c.char = ':' && atSpace cs) || (flow && c.isFlowMark)

/-- Whether the cell is a colon that a flow mark follows directly, which is refused. -/
def isClash (c : Cell) (cs : List Cell) : Bool :=
  c.char = ':' && (cs.head?.any fun d => d.isFlowMark || d.char = '?')

/-- A plain scalar whose lines are indented at least to a column: its text, whether a line ended
after its last word, and what follows. Tabs must not stand for the indentation. -/
def plain (flow : Bool) (indent : Nat) :
    List Cell → List Cell → Option (List Char × Bool × List Cell)
  | gap, [] => some ([], isBroken gap, [])
  | gap, c :: cs =>
    if c.isSpace then
      if c.char = '\t' ∧ c.column < indent ∧ isBroken gap then none
      else plain flow indent (gap ++ [c]) cs
    else if (!gap.isEmpty && endsBefore flow indent c cs) || endsAt flow c cs then
      some ([], isBroken gap, c :: cs)
    else if flow && isClash c cs then none
    else (plain flow indent [] cs).map fun (text, broken, rest) =>
      (folded gap ++ c.char :: text, broken, rest)

/-! ### Quoted scalars -/

/-- A single-quoted scalar. Its mark is written twice inside. -/
def singleQuoted : List Cell → List Cell → Option (List Char × List Cell)
  | _, [] => none
  | gap, c :: cs =>
    if c.isSpace then singleQuoted (gap ++ [c]) cs
    else if atDocumentMark (c :: cs) then none
    else if c.char = '\x27' then
      match cs with
      | [] => some (folded gap, [])
      | d :: cs =>
        if d.char = '\x27' then
          (singleQuoted [] cs).map fun (text, rest) => (folded gap ++ '\x27' :: text, rest)
        else some (folded gap, d :: cs)
    else (singleQuoted [] cs).map fun (text, rest) => (folded gap ++ c.char :: text, rest)

/-- The character of an escape by its letter. -/
def escaped? (c : Char) : Option Char :=
  match c with
  | '0' => some '\x00'
  | 'a' => some '\x07'
  | 'b' => some '\x08'
  | 't' => some '\t'
  | '\t' => some '\t'
  | 'n' => some '\n'
  | 'v' => some '\x0b'
  | 'f' => some '\x0c'
  | 'r' => some '\r'
  | 'e' => some '\x1b'
  | ' ' => some ' '
  | '"' => some '"'
  | '/' => some '/'
  | '\\' => some '\\'
  | 'N' => some '\u0085'
  | '_' => some '\u00a0'
  | 'L' => some '\u2028'
  | 'P' => some '\u2029'
  | _ => none

/-- The number of digits after an escape letter that takes a code point. -/
def codeLength (c : Char) : Nat :=
  match c with
  | 'x' => 2
  | 'u' => 4
  | 'U' => 8
  | _ => 0

/-- The character of a code point of a number of digits. -/
def code? (count : Nat) (cs : List Cell) : Option Char := do
  let digits ← (cs.take count).mapM fun c => Number.hexDigit? c.char
  let n := Number.ofDigits 16 digits
  if digits.length = count ∧ n.isValidChar then some (Char.ofNat n) else none

/-- What spaces after an escaped line end stand for: blanks fall away, further line ends stay. -/
def afterEscape (gap : List Cell) : List Char := (gap.filter Cell.isBreak).map (·.char)

/-- A double-quoted scalar; `escaped` says whether an escaped line end comes before the gap. -/
def doubleQuoted (escaped : Bool) (gap : List Cell) :
    List Cell → Option (List Char × List Cell)
  | [] => none
  | c :: cs =>
    let spaces := if escaped then afterEscape gap else folded gap
    let more (char : Char) : List Char × List Cell → List Char × List Cell :=
      fun (text, rest) => (spaces ++ char :: text, rest)
    if c.isSpace then doubleQuoted escaped (gap ++ [c]) cs
    else if atDocumentMark (c :: cs) then none
    else if c.char = '"' then some (spaces, cs)
    else if c.char = '\\' then
      match cs with
      | [] => none
      | d :: cs =>
        if d.isBreak then
          (doubleQuoted true [] cs).map fun (text, rest) => (spaces ++ text, rest)
        else
          let count := codeLength d.char
          match if count = 0 then escaped? d.char else code? count cs with
          | some char => (doubleQuoted false [] (cs.drop count)).map (more char)
          | none => none
    else (doubleQuoted false [] cs).map (more c.char)
termination_by cs => cs.length
decreasing_by all_goals simp +zetaDelta; try omega

end TableFilter.Yaml
