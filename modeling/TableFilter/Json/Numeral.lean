import TableFilter.Json.Basic

/-!
# Number literals of JSON text

* `Numeral` is a literal as it stands in a text: sign, digits before and after the point, exponent;
* `Numeral.value?` is the number it denotes. A whole literal that fits 64 bits is that integer. Any
  other literal is a floating-point number: the leading digits that fit 64 bits are rounded first and
  then multiplied or divided by a rounded power of ten, so that a long literal may come out one unit
  away from the nearest value. A literal beyond the greatest finite value denotes nothing.
-/

namespace TableFilter.Json

open TableFilter.Number (Binary64)

/-- A number literal. -/
structure Numeral where
  negative : Bool
  whole : List Nat
  fraction : List Nat
  exponent : Option Int
  deriving DecidableEq, Repr

namespace Numeral

/-- The first number that does not fit 64 bits. -/
def wordLimit : Nat := Nat.pow 2 64

/-- Digits appended to a number as long as it fits 64 bits, with the count of those left out. -/
def gather (n : Nat) : List Nat → Nat × Nat
  | [] => (n, 0)
  | d :: ds => if 10 * n + d < wordLimit then gather (10 * n + d) ds else (n, ds.length + 1)

/-- A power of ten as a floating-point number. -/
def power (k : Nat) : Binary64 := Binary64.ofRatio false (Nat.pow 10 k) 1

/-- A value multiplied by a power of ten, one rounding each for the power and the product. -/
def scaleUp (x : Binary64) (k : Nat) : Binary64 :=
  match power k with
  | .finite _ m e => let (num, den) := Binary64.ratio m e; x.timesRatio num den
  | _ => x

/-- A value divided by a power of ten. -/
def scaleDown (x : Binary64) (k : Nat) : Binary64 :=
  match power k with
  | .finite _ m e => let (num, den) := Binary64.ratio m e; x.timesRatio den num
  | _ => x

/-- A value divided by `10 ^ k`, by `10 ^ 308` at a time until it vanishes or the rest is small. -/
def scaleDownBy (x : Binary64) (k : Nat) : Binary64 :=
  if h : k ≤ 308 then scaleDown x k
  else if x.isZero then x
  else scaleDownBy (scaleDown x 308) (k - 308)
termination_by k
decreasing_by omega

/-- The value of `significand * 10 ^ exponent`, if it is finite. -/
def scaled? (significand : Nat) (exponent : Int) : Option Binary64 :=
  let x := Binary64.ofRatio false significand 1
  if exponent < 0 then some (scaleDownBy x exponent.natAbs)
  else if x.isZero then some x
  else if 308 < exponent then none
  else
    let y := scaleUp x exponent.toNat
    if y.isFinite then some y else none

/-- The floating-point number of a literal, if it is finite. -/
def real? (n : Numeral) : Option Binary64 :=
  let (significand, dropped) := gather 0 n.whole
  let (significand, ignored) := gather significand n.fraction
  let exponent : Int := (dropped : Int) - ((n.fraction.length : Int) - (ignored : Int))
  (scaled? significand (exponent + n.exponent.getD 0)).map fun x =>
    if n.negative then x.neg else x

/-- The integer of a whole literal that fits 64 bits; there is no negative zero. -/
def integer? (n : Numeral) : Option Int :=
  if n.fraction.isEmpty && n.exponent.isNone then
    let m := TableFilter.Number.ofDigits 10 n.whole
    if n.negative then
      if m = 0 ∨ Nat.pow 2 63 < m then none else some (-(m : Int))
    else if m < wordLimit then some (m : Int) else none
  else none

/-- The number that a literal denotes, if it is in range. -/
def value? (n : Numeral) : Option Json.Number :=
  match n.integer? with
  | some i => some (.integer i)
  | none => n.real?.map .real

end Numeral

end TableFilter.Json
