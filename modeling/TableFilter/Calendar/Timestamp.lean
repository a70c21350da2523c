import TableFilter.Calendar.Date
import TableFilter.Text.Blank

/-!
# Reading dates and timestamps, and the end of a day

* `Timestamp.ofText?` reads `YYYY-MM-DD`, a separator, `HH:MM:SS`, an optional fraction and an
  offset from universal time; `Timestamp.utcDate` is its day in universal time;
* `Date.ofText?` reads a bare date, more freely: blanks may stand before each number, the year may
  have fewer than four digits or a sign and any number of them;
* `endOfDay` is the last millisecond of the day, in universal time, that a text names; any other
  text stays as it is.
-/

namespace TableFilter.Calendar

/-! ### Parts -/

/-- A number of exactly two digits. -/
def twoDigits : List Char → Option (Nat × List Char)
  | a :: b :: cs => do
    let a ← Number.digit? a
    let b ← Number.digit? b
    return (10 * a + b, cs)
  | _ => none

/-- The text after a character that must come first. -/
def after (c : Char) : List Char → Option (List Char)
  | d :: cs => if c = d then some cs else none
  | [] => none

/-- The text after the separator of a date and a time of day. -/
def afterSeparator : List Char → Option (List Char)
  | c :: cs => if c = 'T' ∨ c = 't' ∨ c = ' ' then some cs else none
  | [] => none

/-- Whether a sign is the negative one. -/
def negative? (sign : Char) : Option Bool :=
  if sign = '+' then some false
  else if sign = '-' ∨ sign = '\u2212' then some true
  else none

/-- At least one and at most a number of digits, after blanks. -/
def someDigits (most : Nat) (cs : List Char) : Option (Nat × List Char) :=
  let cs := cs.dropWhile Text.isBlank
  let (ds, _) := Number.takeDigits (cs.take most)
  if ds.isEmpty then none else some (Number.ofDigits 10 ds, cs.drop ds.length)

/-! ### Timestamps -/

/-- A date with a time of day, at an offset of minutes east of universal time. -/
structure Timestamp where
  date : Date
  hour : Nat
  minute : Nat
  second : Nat
  offset : Int
  deriving DecidableEq, Repr

/-- A date of four, two and two digits with hyphens between, whether or not it exists. -/
def fullDate? (cs : List Char) : Option (Date × List Char) := do
  let (century, cs) ← twoDigits cs
  let (year, cs) ← twoDigits cs
  let cs ← after '-' cs
  let (month, cs) ← twoDigits cs
  let cs ← after '-' cs
  let (day, cs) ← twoDigits cs
  return (⟨(100 * century + year : Nat), month, day⟩, cs)

/-- An hour, a minute and a second of two digits each with colons between. -/
def clock? (cs : List Char) : Option ((Nat × Nat × Nat) × List Char) := do
  let (hour, cs) ← twoDigits cs
  let cs ← after ':' cs
  let (minute, cs) ← twoDigits cs
  let cs ← after ':' cs
  let (second, cs) ← twoDigits cs
  return ((hour, minute, second), cs)

/-- A fraction of a second: a point with digits, or nothing. -/
def afterFraction : List Char → Option (List Char)
  | '.' :: cs =>
    match Number.takeDigits cs with
    | ([], _) => none
    | (_, rest) => some rest
  | cs => some cs

/-- An offset from universal time, which must end the text. -/
def offset? : List Char → Option Int
  | ['Z'] => some 0
  | ['z'] => some 0
  | sign :: cs => do
    let negative ← negative? sign
    let (hours, cs) ← twoDigits cs
    let cs ← after ':' cs
    let (minutes, cs) ← twoDigits cs
    if cs.isEmpty && hours ≤ 23 && minutes < 60 then
      let east : Int := (hours * 60 + minutes : Nat)
      some (if negative then -east else east)
    else none
  | [] => none

namespace Timestamp

/-- Whether the date and the time of day exist; a second may be a leap second. -/
def isValid (t : Timestamp) : Bool :=
  t.date.isValid && t.hour ≤ 23 && t.minute ≤ 59 && t.second ≤ 60

/-- The timestamp that a text stands for. -/
def ofText? (s : String) : Option Timestamp := do
  let (date, cs) ← fullDate? s.toList
  let cs ← afterSeparator cs
  let ((hour, minute, second), cs) ← clock? cs
  let cs ← afterFraction cs
  let offset ← offset? cs
  let t : Timestamp := ⟨date, hour, minute, second, offset⟩
  if t.isValid then some t else none

/-- The day in universal time. -/
def utcDate (t : Timestamp) : Date :=
  let minutes : Int := (t.hour * 60 + t.minute : Nat) - t.offset
  if minutes < 0 then t.date.previous
  else if 1440 ≤ minutes then t.date.next
  else t.date

end Timestamp

/-! ### Bare dates -/

/-- The years that a bare date may have. -/
def yearInRange (year : Int) : Bool := -262143 ≤ year && year ≤ 262142

/-- The digits of a year after its sign, as many as there are. -/
def signedYear? (negative : Bool) (cs : List Char) : Option (Int × List Char) :=
  let (ds, rest) := Number.takeDigits cs
  if ds.isEmpty then none
  else
    let n : Int := (Number.ofDigits 10 ds : Nat)
    some (if negative then -n else n, rest)

/-- A year after blanks: one to four digits, or a sign and any number of digits. -/
def year? (cs : List Char) : Option (Int × List Char) :=
  match cs.dropWhile Text.isBlank with
  | '-' :: rest => signedYear? true rest
  | '+' :: rest => signedYear? false rest
  | rest => (someDigits 4 rest).map fun (n, rest) => ((n : Int), rest)

/-- The bare date that a text stands for. -/
def Date.ofText? (s : String) : Option Date := do
  let (year, cs) ← year? s.toList
  let cs ← after '-' cs
  let (month, cs) ← someDigits 2 cs
  let cs ← after '-' cs
  let (day, cs) ← someDigits 2 cs
  let d : Date := ⟨year, month, day⟩
  if cs.isEmpty && yearInRange year && d.isValid then some d else none

/-! ### The end of a day -/

/-- The day that a text names, in universal time. -/
def day? (s : String) : Option Date :=
  match Timestamp.ofText? s with
  | some t => some t.utcDate
  | none => Date.ofText? s

/-- The last millisecond of a day as a timestamp. -/
def Date.endText (d : Date) : String := String.ofList (d.text ++ "T23:59:59.999Z".toList)

/-- The end of the day that a text names; a text that names none stays as it is. -/
def endOfDay (s : String) : String :=
  match day? s with
  | some d => d.endText
  | none => s

end TableFilter.Calendar
