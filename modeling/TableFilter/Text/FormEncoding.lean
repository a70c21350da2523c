import TableFilter.Number.Natural
import TableFilter.Text.Pieces
import TableFilter.Text.Utf8

/-!
# Form encoding of key and value pairs

The text form of a list of pairs in a navigation address: pairs stand between `&`, a key and its
value between the first `=`.

* In writing, letters, digits and `* - . _` stand for themselves, a space is `+`, and every other
  octet of the UTF-8 form is `%` with two upper-case digits.
* In reading, `+` is a space and `%` with two digits of either case is the octet; a `%` without them
  stands for itself. Empty pairs are skipped, and a pair without `=` has the empty value.
-/

namespace TableFilter.Text.Form

/-- The characters that are written as they are. -/
def isPlain (n : Nat) : Bool :=
  (48 ≤ n && n ≤ 57) || (65 ≤ n && n ≤ 90) || (97 ≤ n && n ≤ 122)
    || n == 42 || n == 45 || n == 46 || n == 95

/-- One octet in writing. -/
def escape (b : Nat) : List Char :=
  if isPlain b then [Char.ofNat b]
  else if b = 32 then ['+']
  else ['%', Number.hexChar (b / 16), Number.hexChar (b % 16)]

/-- A key or a value in writing. -/
def encode (cs : List Char) : List Char := (cs.flatMap Utf8.encode).flatMap escape

/-- The octets that a written key or value stands for. -/
def octets : List Char → List Nat
  | [] => []
  | '%' :: h :: l :: cs =>
    match Number.hexDigit? h, Number.hexDigit? l with
    | some a, some b => (a * 16 + b) :: octets cs
    | _, _ => 37 :: octets (h :: l :: cs)
  | c :: cs => (if c = '+' then [32] else Utf8.encode c) ++ octets cs

/-- The key or value that a text stands for. -/
def decode (cs : List Char) : List Char := Utf8.decode (octets cs)

/-- One pair in reading. -/
def readPair (cs : List Char) : String × String :=
  let (key, value) := (cutFirst '=' cs).getD (cs, [])
  (String.ofList (decode key), String.ofList (decode value))

/-- The pairs that a text stands for. -/
def readPairs (cs : List Char) : List (String × String) :=
  ((pieces '&' cs).filter (!·.isEmpty)).map readPair

/-- One pair in writing. -/
def writePair (pair : String × String) : List Char :=
  encode pair.1.toList ++ '=' :: encode pair.2.toList

/-- The text of a list of pairs. -/
def writePairs (pairs : List (String × String)) : List Char :=
  joined '&' (pairs.map writePair)

end TableFilter.Text.Form
