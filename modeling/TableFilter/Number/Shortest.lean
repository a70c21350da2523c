import TableFilter.Number.Binary64

/-!
# The shortest decimal text of a floating-point number

A finite value is written with the fewest decimal digits that read back as it.

* `Decimal` is a digit row with a power of ten; `shortest` finds it by trying the two neighbours of
  the value on the grid of one digit, of two digits, and so on up to seventeen, in exact arithmetic.
  Of two neighbours that read back the nearer one wins, and of two equally near ones the one that the
  layout prefers;
* `Layout` says how the digits are set out: which scientific exponents are written positionally,
  whether a whole number keeps a fraction digit, and where ties go;
* `text` puts the two together.
-/

namespace TableFilter.Number

/-- The number `digits * 10 ^ exponent`. -/
structure Decimal where
  digits : Nat
  exponent : Int
  deriving DecidableEq, Repr

namespace Decimal

/-- The power of ten of the leading digit of a positive quotient. -/
def lead (num den : Nat) : Int :=
  if den ≤ num then (digitCount (num / den) : Int) - 1
  else
    let k := digitCount (den / num)
    if den ≤ num * Nat.pow 10 (k - 1) then -((k : Int) - 1) else -(k : Int)

/-- A quotient measured in units of `10 ^ p`. -/
def inUnits (num den : Nat) (p : Int) : Nat × Nat :=
  if 0 ≤ p then (num, den * Nat.pow 10 p.toNat) else (num * Nat.pow 10 (-p).toNat, den)

/-- The nearest point of the grid `10 ^ p` that reads back as the value, if one of the two points
next to the value does. -/
def onGrid? (tie : Tie) (value : Binary64) (num den : Nat) (p : Int) : Option Decimal :=
  let (n, d) := inUnits num den p
  let below := n / d
  let readsBack (digits : Nat) : Bool := Binary64.ofDecimal false digits p == value
  match readsBack below, readsBack (below + 1) with
  | true, true => some ⟨Binary64.roundDiv tie n d, p⟩
  | true, false => some ⟨below, p⟩
  | false, true => some ⟨below + 1, p⟩
  | false, false => none

/-- The decimal of fewest digits that reads back as `mantissa * 2 ^ exponent`. -/
def shortest (tie : Tie) (mantissa : Nat) (exponent : Int) : Decimal :=
  let (num, den) := Binary64.ratio mantissa exponent
  let k := lead num den
  let grids := (List.range 17).map fun n : Nat => k - (n : Int)
  match grids.findSome? (onGrid? tie (.finite false mantissa exponent) num den) with
  | some d => d
  | none => let (n, d) := inUnits num den (k - 16); ⟨Binary64.roundDiv tie n d, k - 16⟩

end Decimal

/-- How decimal digits are set out. -/
structure Layout where
  /-- The scientific exponents from the first up to the second are written positionally; with none
  given, all are. -/
  positional : Option (Int × Int)
  /-- Whether a whole number written positionally ends in `.0`. -/
  fractionDigit : Bool
  /-- Which of two equally near decimals of the same length is written. -/
  tie : Tie

namespace Layout

/-- The digits of a number without its trailing zeros, with the place after its last digit. -/
def significant (d : Decimal) : List Char × Int :=
  let ds := natText d.digits
  let kept := (ds.reverse.dropWhile (· == '0')).reverse
  (kept, d.exponent + ((ds.length : Int) - (kept.length : Int)))

/-- Digits with the point at its place. -/
def plain (layout : Layout) (digits : List Char) (exponent : Int) : List Char :=
  let point : Int := digits.length + exponent
  if 0 ≤ exponent then
    digits ++ List.replicate exponent.toNat '0' ++ (if layout.fractionDigit then ['.', '0'] else [])
  else if 0 < point then
    digits.take point.toNat ++ '.' :: digits.drop point.toNat
  else
    '0' :: '.' :: List.replicate (-point).toNat '0' ++ digits

/-- One digit before the point and a signed exponent. -/
def scientific (digits : List Char) (power : Int) : List Char :=
  let fraction := match digits.drop 1 with
    | [] => []
    | ds => '.' :: ds
  let sign := if power < 0 then '-' else '+'
  digits.take 1 ++ fraction ++ 'e' :: sign :: natText power.natAbs

/-- A positive decimal in this layout. -/
def decimal (layout : Layout) (d : Decimal) : List Char :=
  let (digits, exponent) := significant d
  let power : Int := digits.length + exponent - 1
  match layout.positional with
  | none => layout.plain digits exponent
  | some (least, most) =>
    if least ≤ power ∧ power ≤ most then layout.plain digits exponent
    else scientific digits power

/-- The text of a value in this layout. -/
def text (layout : Layout) : Binary64 → List Char
  | .nan => "NaN".toList
  | .infinite s => (if s then "-inf" else "inf").toList
  | .finite s m e =>
    let sign := if s then ['-'] else []
    if m = 0 then sign ++ layout.plain ['0'] 0
    else sign ++ layout.decimal (Decimal.shortest layout.tie m e)

end Layout

/-- The layout of messages: no exponent, no fraction on a whole number, and ties away from zero. -/
def Layout.message : Layout := ⟨none, false, .up⟩

/-- The layout of data: positional from `0.00001` up to sixteen whole digits, with a fraction digit
throughout, and scientific outside that range. Ties go to the even digit. -/
def Layout.data : Layout := ⟨some (-5, 15), true, .even⟩

end TableFilter.Number
