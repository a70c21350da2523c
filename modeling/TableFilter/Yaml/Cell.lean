/-!
# Characters of a YAML text

A text is read as a row of `Cell`s, characters with their line and column, so that the indentation
of what comes next is at hand.

* `isAllowed` are the characters that a text may hold, in comments too;
* `cells` is the row of a text. A line ends at a line feed, a carriage return, the two together, or
  U+0085, each of which is one `\n`, and also at U+2028 and U+2029, which stay as they are;
* `isDocumentMark` recognises `---` and `...` on a line of their own.
-/

namespace TableFilter.Yaml

/-- A character with its place. -/
structure Cell where
  char : Char
  line : Nat
  column : Nat
  deriving DecidableEq, Repr

/-- Whether a text may hold the character: controls other than tabs and line ends are refused. -/
def isAllowed (c : Char) : Bool :=
  let n := c.toNat
  n == 0x09 || n == 0x0A || n == 0x0D || (0x20 ≤ n && n ≤ 0x7E) || n == 0x85
    || (0xA0 ≤ n && n ≤ 0xFFFD) || 0x10000 ≤ n

/-- The characters that end a line and stay as they are. -/
def isSeparator (c : Char) : Bool := c.toNat == 0x2028 || c.toNat == 0x2029

/-- The cells of a text that begins at a place. -/
def cellsFrom (line column : Nat) : List Char → List Cell
  | [] => []
  | '\r' :: '\n' :: cs => ⟨'\n', line, column⟩ :: cellsFrom (line + 1) 0 cs
  | c :: cs =>
    if c = '\n' ∨ c = '\r' ∨ c.toNat = 0x85 then ⟨'\n', line, column⟩ :: cellsFrom (line + 1) 0 cs
    else if isSeparator c then ⟨c, line, column⟩ :: cellsFrom (line + 1) 0 cs
    else ⟨c, line, column⟩ :: cellsFrom line (column + 1) cs

/-- The cells of a text. -/
def cells (s : String) : List Cell := cellsFrom 0 0 s.toList

namespace Cell

/-- A blank within a line. -/
def isBlank (c : Cell) : Bool := c.char = ' ' ∨ c.char = '\t'

/-- The end of a line. -/
def isBreak (c : Cell) : Bool := c.char = '\n' || isSeparator c.char

/-- A blank or the end of a line. -/
def isSpace (c : Cell) : Bool := c.isBlank || c.isBreak

/-- The marks that open, close and part flow collections. -/
def isFlowMark (c : Cell) : Bool := ",[]\x7b\x7d".toList.contains c.char

end Cell

/-- Whether a blank, a line end or the end of the text comes next. -/
def atSpace : List Cell → Bool
  | [] => true
  | c :: _ => c.isSpace

/-- Whether a mark of a document comes next: three times the character at the beginning of a line. -/
def isDocumentMark (mark : Char) : List Cell → Bool
  | a :: b :: c :: rest =>
    a.column == 0 && a.char == mark && b.char == mark && c.char == mark && atSpace rest
  | _ => false

/-- Whether the beginning or the end of a document is marked next. -/
def atDocumentMark (cs : List Cell) : Bool := isDocumentMark '-' cs || isDocumentMark '.' cs

end TableFilter.Yaml
