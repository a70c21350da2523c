import TableFilter.Condition.Checked

/-!
# Filter stores

The active filters of one table view, in order, with their join. A filter is a condition with an
instance id; the store gives the ids out and never gives one twice.

* `Store.add`, `Store.update` and `Store.remove` refuse what does not fit and then leave the store
  as it was;
* the revision counts the changes: it grows by one when the conditions or the join change and not
  otherwise;
* `Store.replace` installs new filters with new ids even where their conditions are the same.
-/

namespace TableFilter

/-- An active filter. -/
structure Filter where
  id : Nat
  condition : Condition
  deriving DecidableEq, Repr

/-- The active filters of a table view. -/
structure Store where
  registry : Registry
  filters : List Filter
  join : Join
  revision : Nat
  nextId : Nat
  deriving DecidableEq, Repr

namespace Store

/-- The store without filters. -/
def empty (registry : Registry) : Store := ⟨registry, [], .and, 0, 1⟩

/-- The conditions of the filters, in order. -/
def conditions (s : Store) : Conditions := ⟨s.filters.map (·.condition), s.join⟩

/-- The filter of an id. -/
def get? (s : Store) (id : Nat) : Option Filter := s.filters.find? fun f => f.id == id

/-- The first filter on a field. -/
def find? (s : Store) (field : String) : Option Filter :=
  s.filters.find? fun f => f.condition.field == field

/-- The store with one more change counted. -/
def bump (s : Store) : Store := { s with revision := s.revision + 1 }

/-- The store with a condition appended, and the id of its filter. -/
def push (s : Store) (c : Condition) : Nat × Store :=
  (s.nextId,
    bump { s with filters := s.filters ++ [⟨s.nextId, c⟩], nextId := s.nextId + 1 })

/-- The store with a checked condition appended. -/
def add (s : Store) (field : String) (operator : Option Operator) (value : Value) :
    Except FilterError Nat × Store :=
  match s.registry.condition field operator value with
  | .ok c => let (id, s) := s.push c; (.ok id, s)
  | .error e => (.error e, s)

/-- Filters with the condition of one id exchanged. -/
def exchange (id : Nat) (c : Condition) (filters : List Filter) : List Filter :=
  filters.map fun f => if f.id = id then { f with condition := c } else f

/-- The store with the operator or the value of a filter changed; whether the condition changed. -/
def update (s : Store) (id : Nat) (operator : Option Operator) (value : Option Value) :
    Except FilterError Bool × Store :=
  match s.get? id with
  | none => (.error .unknownInstance, s)
  | some f =>
    match f.condition.updated s.registry operator value with
    | .error e => (.error e, s)
    | .ok c =>
      if c = f.condition then (.ok false, s)
      else (.ok true, bump { s with filters := exchange id c s.filters })

/-- The store without a filter, and the filter. -/
def remove (s : Store) (id : Nat) : Except FilterError Filter × Store :=
  match s.get? id with
  | none => (.error .unknownInstance, s)
  | some f => (.ok f, bump { s with filters := s.filters.filter (·.id ≠ id) })

/-- The store with a join; whether it changed. -/
def setJoin (s : Store) (join : Join) : Bool × Store :=
  if s.join = join then (false, s) else (true, bump { s with join := join })

/-- Conditions as filters with the ids from a number on. -/
def number : Nat → List Condition → List Filter
  | _, [] => []
  | id, c :: cs => ⟨id, c⟩ :: number (id + 1) cs

/-- The store with other filters and join; whether the conditions or the join changed. -/
def replace (s : Store) (cs : Conditions) : Bool × Store :=
  let filled := { s with
    filters := number s.nextId cs.conditions
    join := cs.join
    nextId := s.nextId + cs.conditions.length }
  if s.conditions = cs then (false, filled) else (true, filled.bump)

/-- The store without filters, joined by `and`; whether it changed. -/
def clear (s : Store) : Bool × Store := s.replace ⟨[], .and⟩

end Store

end TableFilter
