import TableFilter.Json.Numeral

/-!
# Reading JSON text

A text is read as far as it is well formed, and what was read is kept: whoever decodes it sees the
values in the order of the text and meets the fault, if there is one, at its place. So a value of the
wrong shape that stands before a fault is what counts.

* `Fault` says why reading stopped: the text was at its end, or a character could not stand there;
* `Reading` is a value as far as it could be read;
* `read` reads one value and what must be blank after it;
* `Reading.toJson` is the value that was read, or the first fault in it. It holds the rules a reader
  may pass over in a value it ignores: numbers in range, paired surrogate escapes, nesting.

Every fault is kept twice, as a reader meets it that wants the value and as one that skips it.
-/

namespace TableFilter.Json

/-- Why a text could not be read further. -/
inductive Fault where
  | ended
  | malformed
  deriving DecidableEq, Repr

/-- A fault, for a reader that wants the value and for one that skips it. -/
structure Break where
  wanted : Fault
  skipped : Fault
  deriving DecidableEq, Repr

/-- The same fault for every reader. -/
def Break.same (f : Fault) : Break := ⟨f, f⟩

/-- A value as far as it could be read. A string holds its text or the fault in its escapes; an
object holds its entries in the order of the text. -/
inductive Reading where
  | null
  | bool (b : Bool)
  | number (n : Numeral)
  | string (s : Except Fault String)
  | array (items : List Reading)
  | object (entries : List (Except Fault String × Reading))
  | broken (b : Break)
  deriving Inhabited

/-- The characters after leading blanks, line ends and tabs. -/
def skipBlanks : List Char → List Char
  | [] => []
  | c :: cs => if c = ' ' ∨ c = '\n' ∨ c = '\t' ∨ c = '\r' then skipBlanks cs else c :: cs

/-- The fault of a character that cannot stand where it does, or of the end of the text. -/
def faultAt : List Char → Fault
  | [] => .ended
  | _ :: _ => .malformed

/-! ### Strings -/

/-- A part of a string: a character, or a unit of 16 bits written as an escape. -/
inductive Piece where
  | char (c : Char)
  | unit (n : Nat)
  deriving DecidableEq

/-- A unit written with four digits of base sixteen. -/
def unit? (a b c d : Char) : Option Nat := do
  let a ← TableFilter.Number.hexDigit? a
  let b ← TableFilter.Number.hexDigit? b
  let c ← TableFilter.Number.hexDigit? c
  let d ← TableFilter.Number.hexDigit? d
  return ((a * 16 + b) * 16 + c) * 16 + d

/-- The character that an escape of one letter stands for. -/
def escaped? (c : Char) : Option Char :=
  if c = '"' ∨ c = '\\' ∨ c = '/' then some c
  else if c = 'b' then some '\x08'
  else if c = 'f' then some '\x0c'
  else if c = 'n' then some '\n'
  else if c = 'r' then some '\r'
  else if c = 't' then some '\t'
  else none

/-- The fault of four digits that are missing, before the rest of the text. A rest of fewer than
four octets is too short for them, whatever it holds. -/
def missingUnit (cs : List Char) : Fault :=
  if (String.ofList cs).utf8ByteSize < 4 then .ended else .malformed

/-- The parts of a string up to its closing mark, and what follows it or the fault. -/
def pieces : List Char → List Piece × Except Fault (List Char)
  | [] => ([], .error .ended)
  | '"' :: cs => ([], .ok cs)
  | '\\' :: 'u' :: a :: b :: c :: d :: cs =>
    match unit? a b c d with
    | some n => let (ps, rest) := pieces cs; (.unit n :: ps, rest)
    | none => ([], .error .malformed)
  | '\\' :: 'u' :: cs => ([], .error (missingUnit cs))
  | '\\' :: c :: cs =>
    match escaped? c with
    | some e => let (ps, rest) := pieces cs; (.char e :: ps, rest)
    | none => ([], .error .malformed)
  | '\\' :: [] => ([], .error .ended)
  | c :: cs =>
    if c.toNat < 32 then ([], .error .malformed)
    else let (ps, rest) := pieces cs; (.char c :: ps, rest)

/-- Whether a unit is the first half of a pair. -/
def isHigh (n : Nat) : Bool := 0xD800 ≤ n && n < 0xDC00

/-- Whether a unit is the second half of a pair. -/
def isLow (n : Nat) : Bool := 0xDC00 ≤ n && n < 0xE000

/-- The text of parts that are followed by the closing mark or a fault. Two halves make one
character, and a half on its own is a fault. -/
def assemble (stop : Except Fault Unit) : List Piece → Except Fault (List Char)
  | [] => stop.map fun _ => []
  | .char c :: ps => (assemble stop ps).map (c :: ·)
  | [.unit n] =>
    if isHigh n then match stop with
      | .error f => .error f
      | .ok _ => .error .malformed
    else if isLow n then .error .malformed
    else stop.map fun _ => [Char.ofNat n]
  | .unit n :: .unit m :: ps =>
    if isHigh n then
      if isLow m then
        (assemble stop ps).map (Char.ofNat (0x10000 + (n - 0xD800) * 1024 + (m - 0xDC00)) :: ·)
      else .error .malformed
    else if isLow n then .error .malformed
    else (assemble stop (.unit m :: ps)).map (Char.ofNat n :: ·)
  | .unit n :: .char c :: ps =>
    if isHigh n || isLow n then .error .malformed
    else (assemble stop (.char c :: ps)).map (Char.ofNat n :: ·)

/-- A string after its opening mark: its text or the fault in it, with what follows; or the break
that stops reading. -/
def readString (cs : List Char) : Except Break (Except Fault String × List Char) :=
  match pieces cs with
  | (ps, .ok rest) => .ok ((assemble (.ok ()) ps).map String.ofList, rest)
  | (ps, .error f) =>
    match assemble (.error f) ps with
    | .ok _ => .error (.same f)
    | .error g => .error ⟨g, f⟩

/-! ### Numbers -/

/-- The break where a digit is missing: at the end of the text a reader that skips the value finds
it malformed. -/
def missingDigit (cs : List Char) : Break := ⟨faultAt cs, .malformed⟩

/-- The digits before the point: one zero alone, or digits that do not begin with one. -/
def readWhole (cs : List Char) : Except Break (List Nat × List Char) :=
  match TableFilter.Number.takeDigits cs with
  | ([], _) => .error (missingDigit cs)
  | (0 :: _ :: _, _) => .error (.same .malformed)
  | (ds, rest) => .ok (ds, rest)

/-- The digits after the point, none if there is no point. -/
def readFraction : List Char → Except Break (List Nat × List Char)
  | '.' :: cs =>
    match TableFilter.Number.takeDigits cs with
    | ([], _) => .error (missingDigit cs)
    | (ds, rest) => .ok (ds, rest)
  | cs => .ok ([], cs)

/-- The exponent, if there is a mark. -/
def readExponent : List Char → Except Break (Option Int × List Char)
  | [] => .ok (none, [])
  | c :: cs =>
    if c = 'e' ∨ c = 'E' then
      let (negative, digits) := match cs with
        | '+' :: r => (false, r)
        | '-' :: r => (true, r)
        | r => (false, r)
      match TableFilter.Number.takeDigits digits with
      | ([], _) => .error (missingDigit digits)
      | (ds, rest) =>
        let n : Int := (TableFilter.Number.ofDigits 10 ds : Nat)
        .ok (some (if negative then -n else n), rest)
    else .ok (none, c :: cs)

/-- A number literal. -/
def readNumeral (cs : List Char) : Except Break (Numeral × List Char) := do
  let (negative, digits) := match cs with
    | '-' :: r => (true, r)
    | r => (false, r)
  let (whole, rest) ← readWhole digits
  let (fraction, rest) ← readFraction rest
  let (exponent, rest) ← readExponent rest
  return (⟨negative, whole, fraction, exponent⟩, rest)

/-! ### Values -/

/-- A value that is a fixed word, of which the first letter has been read. -/
def readWord (value : Reading) : List Char → List Char → Reading × Option (List Char)
  | [], cs => (value, some cs)
  | _ :: _, [] => (.broken (.same .ended), none)
  | w :: ws, c :: cs =>
    if w = c then readWord value ws cs else (.broken (.same .malformed), none)

mutual

/-- A value, and what follows it unless reading stopped inside. The first argument is a bound on
the number of nested steps. -/
def readValue : Nat → List Char → Reading × Option (List Char)
  | 0, _ => (.broken (.same .ended), none)
  | fuel + 1, cs =>
    match skipBlanks cs with
    | [] => (.broken (.same .ended), none)
    | '"' :: r =>
      match readString r with
      | .ok (s, rest) => (.string s, some rest)
      | .error b => (.broken b, none)
    | '[' :: r =>
      match skipBlanks r with
      | ']' :: rest => (.array [], some rest)
      | r => let (items, rest) := readItems fuel r; (.array items, rest)
    | '\x7b' :: r =>
      match skipBlanks r with
      | '\x7d' :: rest => (.object [], some rest)
      | r => let (entries, rest) := readEntries fuel r; (.object entries, rest)
    | 'n' :: r => readWord .null ['u', 'l', 'l'] r
    | 't' :: r => readWord (.bool true) ['r', 'u', 'e'] r
    | 'f' :: r => readWord (.bool false) ['a', 'l', 's', 'e'] r
    | c :: r =>
      if c = '-' ∨ (TableFilter.Number.digit? c).isSome then
        match readNumeral (c :: r) with
        | .ok (n, rest) => (.number n, some rest)
        | .error b => (.broken b, none)
      else (.broken (.same .malformed), none)

/-- The items of an array up to its closing bracket. -/
def readItems : Nat → List Char → List Reading × Option (List Char)
  | 0, _ => ([.broken (.same .ended)], none)
  | fuel + 1, cs =>
    match readValue fuel cs with
    | (v, none) => ([v], none)
    | (v, some r) =>
      match skipBlanks r with
      | ',' :: r => let (vs, rest) := readItems fuel r; (v :: vs, rest)
      | ']' :: rest => ([v], some rest)
      | r => ([v, .broken (.same (faultAt r))], none)

/-- The entries of an object up to its closing brace. -/
def readEntries : Nat → List Char → List (Except Fault String × Reading) × Option (List Char)
  | 0, _ => ([(.error .ended, .broken (.same .ended))], none)
  | fuel + 1, cs =>
    match skipBlanks cs with
    | '"' :: r =>
      match readString r with
      | .error b => ([(.error b.wanted, .broken b)], none)
      | .ok (key, r) =>
        match skipBlanks r with
        | ':' :: r =>
          match readValue fuel r with
          | (v, none) => ([(key, v)], none)
          | (v, some r) =>
            match skipBlanks r with
            | ',' :: r => let (es, rest) := readEntries fuel r; ((key, v) :: es, rest)
            | '\x7d' :: rest => ([(key, v)], some rest)
            | r =>
              ([(key, v), (.error (faultAt r), .broken (.same (faultAt r)))], none)
        | r => ([(key, .broken (.same (faultAt r)))], none)
    | r => ([(.error (faultAt r), .broken (.same (faultAt r)))], none)

end

/-- A text as one value, and the fault of what follows it: only blanks may. -/
def read (s : String) : Reading × Option Fault :=
  match readValue (2 * s.toList.length + 2) s.toList with
  | (v, none) => (v, none)
  | (v, some rest) => (v, if (skipBlanks rest).isEmpty then none else some .malformed)

/-! ### What was read -/

namespace Reading

mutual

/-- The value that was read, or the first fault in it. At most `depth` containers may be nested. -/
def toJson (depth : Nat) : Reading → Except Fault Json
  | .null => .ok .null
  | .bool b => .ok (.bool b)
  | .number n =>
    match n.value? with
    | some v => .ok (.number v)
    | none => .error .malformed
  | .string s => s.map .string
  | .array items =>
    match depth with
    | 0 => .error .malformed
    | d + 1 => (toItems d items).map .array
  | .object entries =>
    match depth with
    | 0 => .error .malformed
    | d + 1 => (toEntries d entries).map .object
  | .broken b => .error b.wanted

/-- The items that were read, or the first fault in them. -/
def toItems (depth : Nat) : List Reading → Except Fault (List Json)
  | [] => .ok []
  | v :: vs => do
    let j ← toJson depth v
    let js ← toItems depth vs
    return j :: js

/-- The entries that were read, or the first fault in them. -/
def toEntries (depth : Nat) :
    List (Except Fault String × Reading) → Except Fault (List (String × Json))
  | [] => .ok []
  | (key, v) :: es => do
    let k ← key
    let j ← toJson depth v
    let rest ← toEntries depth es
    return (k, j) :: rest

end

mutual

/-- The fault that a reader meets that skips the value, if there is one. -/
def skip : Reading → Except Fault Unit
  | .array items => skipItems items
  | .object entries => skipEntries entries
  | .broken b => .error b.skipped
  | _ => .ok ()

/-- The fault in skipped items. -/
def skipItems : List Reading → Except Fault Unit
  | [] => .ok ()
  | v :: vs => do
    skip v
    skipItems vs

/-- The fault in skipped entries. -/
def skipEntries : List (Except Fault String × Reading) → Except Fault Unit
  | [] => .ok ()
  | (_, v) :: es => do
    skip v
    skipEntries es

end

end Reading

/-- The number of containers that may be nested. -/
def maxDepth : Nat := 127

/-- A text as a value, its entries as they are written. -/
def parse (s : String) : Except Fault Json :=
  let (reading, trailing) := read s
  match reading.toJson maxDepth, trailing with
  | .ok _, some f => .error f
  | r, _ => r

end TableFilter.Json
