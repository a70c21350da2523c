import Mathlib.Data.List.Forall2
import TableFilter.Json.Decode

/-!
# Decoding that succeeds

* A computation that gave a result did so in each of its steps (`bind_eq_ok`, `mapM_eq_ok_iff`).
* Where what was read of a text is known to be some value, its parts are known to be the parts of
  the value (`Json.Reading.gives_of_toJson`), whatever type they are decoded as.
-/

namespace TableFilter

/-- A computation that gave a result went through its first step. -/
theorem bind_eq_ok {ε α β : Type} {x : Except ε α} {f : α → Except ε β} {b : β}
    (h : (do let a ← x; f a) = .ok b) : ∃ a, x = .ok a ∧ f a = .ok b := by
  cases x with
  | error e => cases h
  | ok a => exact ⟨a, rfl, h⟩

theorem ok_of_toOption {ε α : Type} {x : Except ε α} {a : α} (h : x.toOption = some a) :
    x = .ok a := by
  cases x with
  | error e => cases h
  | ok b => exact congrArg Except.ok (Option.some.inj h)

/-- A list gives results exactly if its members do, one by one. -/
theorem mapM_eq_ok_iff {ε α β : Type} {f : α → Except ε β} {as : List α} {bs : List β} :
    as.mapM f = .ok bs ↔ List.Forall₂ (fun a b => f a = .ok b) as bs := by
  induction as generalizing bs with
  | nil => cases bs <;> simp [pure, Except.pure]
  | cons a as ih =>
    rw [List.mapM_cons]
    cases hfirst : f a with
    | error e => cases bs <;> simp [bind, Except.bind, hfirst]
    | ok b =>
      cases hrest : as.mapM f with
      | error e => cases bs <;> simp [bind, Except.bind, ← ih, hrest, hfirst]
      | ok cs => cases bs <;> simp [bind, Except.bind, pure, Except.pure, ← ih, hrest, hfirst]

theorem Json.ok_of_finished {ε α : Type} {trailing : Option Fault}
    {x : Except (DecodeError ε) α} {a : α} (h : finished trailing x = .ok a) : x = .ok a := by
  cases x with
  | error e => cases h
  | ok b => cases trailing <;> cases h; rfl

namespace Json.Reading

/-- **What a value was read from.** Strings, numbers and containers were read as such, and the parts
of a container are the parts of what was read, one level further in. -/
inductive Gives : Nat → Reading → Json → Prop
  | null (depth : Nat) : Gives depth .null .null
  | bool (depth : Nat) (b : Bool) : Gives depth (.bool b) (.bool b)
  | number (depth : Nat) {n : Numeral} {v : Json.Number} (h : n.value? = some v) :
      Gives depth (.number n) (.number v)
  | string (depth : Nat) (s : String) : Gives depth (.string (.ok s)) (.string s)
  | array (depth : Nat) {vs : List Reading} {js : List Json}
      (h : List.Forall₂ (fun v j => v.toJson depth = .ok j) vs js) :
      Gives (depth + 1) (.array vs) (.array js)
  | object (depth : Nat) {rs : List (Except Fault String × Reading)} {es : List (String × Json)}
      (h : List.Forall₂ (fun r e => r.1 = .ok e.1 ∧ r.2.toJson depth = .ok e.2) rs es) :
      Gives (depth + 1) (.object rs) (.object es)

theorem toItems_eq_ok {depth : Nat} {vs : List Reading} {js : List Json}
    (h : toItems depth vs = .ok js) : List.Forall₂ (fun v j => v.toJson depth = .ok j) vs js := by
  induction vs generalizing js with
  | nil =>
    cases h
    exact .nil
  | cons v vs ih =>
    rw [toItems] at h
    obtain ⟨j, hj, h⟩ := bind_eq_ok h
    obtain ⟨rest, hrest, h⟩ := bind_eq_ok h
    cases h
    exact .cons hj (ih hrest)

theorem toEntries_eq_ok {depth : Nat} {rs : List (Except Fault String × Reading)}
    {es : List (String × Json)} (h : toEntries depth rs = .ok es) :
    List.Forall₂ (fun r e => r.1 = .ok e.1 ∧ r.2.toJson depth = .ok e.2) rs es := by
  induction rs generalizing es with
  | nil =>
    cases h
    exact .nil
  | cons r rs ih =>
    obtain ⟨key, v⟩ := r
    rw [toEntries] at h
    obtain ⟨k, hk, h⟩ := bind_eq_ok h
    obtain ⟨j, hj, h⟩ := bind_eq_ok h
    obtain ⟨rest, hrest, h⟩ := bind_eq_ok h
    cases h
    exact .cons ⟨hk, hj⟩ (ih hrest)

theorem gives_of_toJson {depth : Nat} {v : Reading} {j : Json} (h : v.toJson depth = .ok j) :
    Gives depth v j := by
  cases v with
  | null =>
    cases h
    exact .null depth
  | bool b =>
    cases h
    exact .bool depth b
  | number n =>
    rw [toJson] at h
    split at h
    · next v hv =>
      cases h
      exact .number depth hv
    · cases h
  | string s =>
    cases s with
    | error f => cases h
    | ok s =>
      cases h
      exact .string depth s
  | array items =>
    cases depth with
    | zero => cases h
    | succ d =>
      rw [toJson] at h
      cases hitems : toItems d items with
      | error f => rw [hitems] at h; cases h
      | ok js =>
        rw [hitems] at h
        cases h
        exact .array d (toItems_eq_ok hitems)
  | object entries =>
    cases depth with
    | zero => cases h
    | succ d =>
      rw [toJson] at h
      cases hentries : toEntries d entries with
      | error f => rw [hentries] at h; cases h
      | ok es =>
        rw [hentries] at h
        cases h
        exact .object d (toEntries_eq_ok hentries)
  | broken b => cases h

end Json.Reading

end TableFilter
