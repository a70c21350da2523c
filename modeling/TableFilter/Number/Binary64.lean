import TableFilter.Number.Natural

/-!
# Binary floating-point numbers of 64 bits

A value is not-a-number, an infinity, or `± mantissa * 2 ^ exponent`. The finite values are kept in
one form: the mantissa has at most 53 bits, the exponent is at least `-1074`, and a mantissa of
fewer than 53 bits goes with the least exponent.

* `ofRatio` rounds a quotient of natural numbers to the nearest value, ties to the even mantissa;
  every other operation is an exact quotient that goes through it;
* `ofDecimal` rounds `digits * 10 ^ exponent`;
* `ofText?` reads a decimal literal, an infinity or a not-a-number.
-/

namespace TableFilter.Number

/-- Which of two equally near magnitudes is taken: the even one, or the greater one. -/
inductive Tie where
  | even
  | up
  deriving DecidableEq, Repr

/-- A binary floating-point number of 64 bits. -/
inductive Binary64 where
  | nan
  | infinite (negative : Bool)
  | finite (negative : Bool) (mantissa : Nat) (exponent : Int)
  deriving DecidableEq, Repr

namespace Binary64

/-! ### Rounding -/

/-- The whole number nearest to a quotient; of two equally near ones the one that `tie` says. -/
def roundDiv (tie : Tie) (num den : Nat) : Nat :=
  let q := num / den
  let r := num % den
  if 2 * r < den then q
  else if den < 2 * r then q + 1
  else match tie with
    | .even => if q % 2 = 0 then q else q + 1
    | .up => q + 1

/-- The whole number nearest to `num / den / 2 ^ e`, ties to the even one. -/
def roundScaled (num den : Nat) (e : Int) : Nat :=
  if 0 ≤ e then roundDiv .even num (den * Nat.pow 2 e.toNat)
  else roundDiv .even (num * Nat.pow 2 (-e).toNat) den

/-- Whether `2 ^ k ≤ num / den`. -/
def reaches (num den : Nat) (k : Int) : Bool :=
  if 0 ≤ k then den * Nat.pow 2 k.toNat ≤ num else den ≤ num * Nat.pow 2 (-k).toNat

/-- The exponent of the last place of the values around a positive quotient. -/
def unitExponent (num den : Nat) : Int :=
  let k : Int := (num.log2 : Int) - (den.log2 : Int)
  let lead := if reaches num den k then k else k - 1
  max (lead - 52) (-1074)

/-- A finite value, or the infinity when the exponent is too large for one. -/
def pack (negative : Bool) (mantissa : Nat) (exponent : Int) : Binary64 :=
  if 971 < exponent then .infinite negative else .finite negative mantissa exponent

/-- The zero of a sign. -/
def zero (negative : Bool) : Binary64 := .finite negative 0 (-1074)

/-- The value nearest to `± num / den`; ties go to the even mantissa. -/
def ofRatio (negative : Bool) (num den : Nat) : Binary64 :=
  if num = 0 then zero negative
  else
    let e := unitExponent num den
    let m := roundScaled num den e
    if m = Nat.pow 2 53 then pack negative (Nat.pow 2 52) (e + 1) else pack negative m e

/-- The value nearest to `± digits * 10 ^ exponent`. Numbers far outside the range are decided by
their number of digits, so that no huge power is formed. -/
def ofDecimal (negative : Bool) (digits : Nat) (exponent : Int) : Binary64 :=
  let magnitude : Int := (digitCount digits : Int) + exponent
  if digits = 0 then zero negative
  else if 310 < magnitude then .infinite negative
  else if magnitude < -330 then zero negative
  else if 0 ≤ exponent then ofRatio negative (digits * Nat.pow 10 exponent.toNat) 1
  else ofRatio negative digits (Nat.pow 10 (-exponent).toNat)

/-- The value nearest to a whole number. -/
def ofInt (n : Int) : Binary64 := ofRatio (n < 0) n.natAbs 1

/-! ### Exact views -/

/-- The magnitude of a finite value as a quotient. -/
def ratio (mantissa : Nat) (exponent : Int) : Nat × Nat :=
  if 0 ≤ exponent then (mantissa * Nat.pow 2 exponent.toNat, 1)
  else (mantissa, Nat.pow 2 (-exponent).toNat)

/-- Whether the value is neither an infinity nor not-a-number. -/
def isFinite : Binary64 → Bool
  | .finite .. => true
  | _ => false

/-- Whether the value is one of the two zeros. -/
def isZero : Binary64 → Bool
  | .finite _ m _ => m == 0
  | _ => false

/-- The value with the other sign. -/
def neg : Binary64 → Binary64
  | .nan => .nan
  | .infinite s => .infinite !s
  | .finite s m e => .finite (!s) m e

/-- The whole number that a value is, if it is one. -/
def toInt? : Binary64 → Option Int
  | .finite s m e =>
    let (num, den) := ratio m e
    if num % den = 0 then
      let n : Int := (num / den : Nat)
      some (if s then -n else n)
    else none
  | _ => none

/-- The product of a finite value and a quotient, rounded; other values stay. -/
def timesRatio (x : Binary64) (num den : Nat) : Binary64 :=
  match x with
  | .finite s m e => let (n, d) := ratio m e; ofRatio s (n * num) (d * den)
  | x => x

/-! ### Order -/

/-- A finite value as a whole number of units `2 ^ -1074`. -/
def units (negative : Bool) (mantissa : Nat) (exponent : Int) : Int :=
  let n : Int := (mantissa * Nat.pow 2 (exponent + 1074).toNat : Nat)
  if negative then -n else n

/-- Whether one value is less than another; never for not-a-number. -/
def lt : Binary64 → Binary64 → Bool
  | .nan, _ => false
  | _, .nan => false
  | .infinite s, .infinite t => s && !t
  | .infinite s, .finite .. => s
  | .finite .., .infinite t => !t
  | .finite s m e, .finite t n f => units s m e < units t n f

/-- Whether the value is above zero. -/
def isPositive (x : Binary64) : Bool := lt (zero false) x

/-! ### Reading -/

/-- A text that is one of the names of a value, whatever the case of its letters. -/
def named? (negative : Bool) (cs : List Char) : Option Binary64 :=
  let name := String.ofList (cs.map Char.toLower)
  if name = "inf" ∨ name = "infinity" then some (.infinite negative)
  else if name = "nan" then some .nan
  else none

/-- An exponent mark with its digits, which must end the text; no mark is the exponent zero. -/
def exponent? : List Char → Option Int
  | [] => some 0
  | c :: cs =>
    if c = 'e' ∨ c = 'E' then
      let (negative, digits) := match cs with
        | '-' :: r => (true, r)
        | '+' :: r => (false, r)
        | r => (false, r)
      match takeDigits digits with
      | ([], _) => none
      | (ds, []) =>
        let n : Int := (ofDigits 10 ds : Nat)
        some (if negative then -n else n)
      | _ => none
    else none

/-- A decimal literal without its sign: digits on at least one side of an optional point, then an
optional exponent. -/
def unsigned? (negative : Bool) (cs : List Char) : Option Binary64 :=
  let (whole, rest) := takeDigits cs
  let (fraction, rest) := match rest with
    | '.' :: r => takeDigits r
    | r => ([], r)
  if whole.isEmpty && fraction.isEmpty then none
  else (exponent? rest).map fun e =>
    ofDecimal negative (ofDigits 10 (whole ++ fraction)) (e - fraction.length)

/-- The number that a text denotes: an optional sign before a decimal literal, `inf`, `infinity` or
`nan`. Nothing may surround it. -/
def ofText? (s : String) : Option Binary64 :=
  let (negative, cs) := match s.toList with
    | '-' :: r => (true, r)
    | '+' :: r => (false, r)
    | r => (false, r)
  (named? negative cs).or (unsigned? negative cs)

end Binary64

end TableFilter.Number
