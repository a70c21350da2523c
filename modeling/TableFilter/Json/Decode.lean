import TableFilter.Json.Reading

/-!
# Decoding JSON text

Reading a text as a value of another type can fail in three ways, and the first failure in the order
of the text counts.

* `DecodeError` is a fault of the text, a value of the wrong shape, or a value of the right shape
  that breaks a rule of its type;
* `Reading.decodeString` and its companions decode what was read of a text, in its order;
* `decode` reads a whole text through its value as data.
-/

namespace TableFilter.Json

/-- Why a text could not be decoded; `ε` is what a value of the right shape can break. -/
inductive DecodeError (ε : Type) where
  | fault (f : Fault)
  | shape
  | invalid (reason : ε)
  deriving DecidableEq

variable {ε α : Type}

namespace Reading

/-- The failure of a value that is not of the shape that is wanted. -/
def mismatch : Reading → DecodeError ε
  | .broken b => .fault b.wanted
  | .number n => if n.value?.isSome then .shape else .fault .malformed
  | .string (.error f) => .fault f
  | _ => .shape

/-- A string. -/
def decodeString : Reading → Except (DecodeError ε) String
  | .string (.ok s) => .ok s
  | v => .error v.mismatch

/-- A string or null. -/
def decodeOptionalString : Reading → Except (DecodeError ε) (Option String)
  | .null => .ok none
  | v => v.decodeString.map some

/-- A value as data, of which at most `depth` containers may be nested. -/
def decodeJson (depth : Nat) (v : Reading) : Except (DecodeError ε) Json :=
  match v.toJson depth with
  | .ok j => .ok j
  | .error f => .error (.fault f)

end Reading

/-- A decoded value, unless something that is not blank follows it. -/
def finished (trailing : Option Fault) : Except (DecodeError ε) α → Except (DecodeError ε) α
  | .ok a =>
    match trailing with
    | none => .ok a
    | some f => .error (.fault f)
  | .error e => .error e

/-- A text read as data and then taken as a value of another type. -/
def decode (ofJson? : Json → Option α) (s : String) : Except (DecodeError ε) α :=
  let (reading, trailing) := read s
  finished trailing <| do
    let j ← reading.decodeJson maxDepth
    match ofJson? j with
    | some a => .ok a
    | none => .error .shape

end TableFilter.Json
