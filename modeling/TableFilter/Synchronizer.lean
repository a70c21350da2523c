import TableFilter.Condition.Fragment
import TableFilter.Document.Conditions
import TableFilter.Navigation.Access
import TableFilter.SavedFilter
import TableFilter.Store
import TableFilter.Table.Config

/-!
# Synchronizers

A synchronizer keeps the filter store of one table and the navigation in step.

* **Hydration** fills the store, once, from the navigation or from a saved filter.
* **Outbound**: after a change of the store its *output* is written: the compiled query under the
  table's key and, for each field with a parameter of its own, the value of its first filter.
* **Inbound**: after a change of the navigation the fields with their own parameters follow it; the
  compiled query is not read again.

A step of a synchronizer decides what to do from the text that the navigation shows, and leaves the
doing to whoever holds the navigation: a `Turn` says whether to write, and what to note as committed
afterwards. Two guards keep a table from answering itself: the content of the last committed output,
and the navigation text seen after it.
-/

namespace TableFilter

/-- What a synchronizer is doing: it emits from the start of a write until the write has returned. -/
inductive Phase where
  | idle
  | emitting
  deriving DecidableEq, Repr

/-- The outcome of an outbound step: navigation was written, the output was committed before, or
navigation showed the output already. -/
inductive Emission where
  | written
  | unchanged
  | adopted
  deriving DecidableEq, Repr

/-- The store of a table with what it knows of the navigation. -/
structure Synchronizer where
  table : String
  key : String
  store : Store
  phase : Phase
  committed : Option Patch.Content
  snapshot : Option String
  hydrated : Bool
  deriving DecidableEq, Repr

/-- What is left to do in the navigation: nothing; to note that it shows a patch already; or to
write a patch. The content is what is committed then. -/
inductive Turn where
  | unchanged
  | adopt (content : Patch.Content)
  | write (patch : Patch) (content : Patch.Content)
  deriving DecidableEq, Repr

namespace Synchronizer

/-- A synchronizer with an empty store that has seen nothing. -/
def new (table key : String) (registry : Registry) : Synchronizer :=
  ⟨table, key, .empty registry, .idle, none, none, false⟩

/-- The synchronizer of a table. -/
def ofTable (t : Table) : Synchronizer := new t.id t.key t.fields

/-! ### Output -/

/-- The parameter text of the first filter on a field, empty if there is none. -/
def paramText (store : Store) (field : String) : String :=
  match store.find? field with
  | some f => f.condition.value.toParam
  | none => ""

/-- The compiled query and the parameters of the fields that have their own. -/
def output (s : Synchronizer) : Patch :=
  s.store.registry.params.foldl (fun p (field, param) => p.set param (paramText s.store field))
    (Patch.empty.set s.key (s.store.conditions.text s.store.registry))

/-- All the parameters of the table. -/
def ownKeys (s : Synchronizer) : List String := s.key :: s.store.registry.params.map (·.2)

/-- What it takes to have the navigation show a patch. -/
def turn (query : String) (patch : Patch) (content : Patch.Content) : Turn :=
  if (Params.parse query).shows patch then .adopt content else .write patch content

/-- What it takes to have the navigation show the output. -/
def outbound (s : Synchronizer) (query : String) : Turn :=
  let patch := s.output
  if s.committed = some patch.content then .unchanged else turn query patch patch.content

/-- The synchronizer after its turn, when the navigation reads `query`. -/
def commit (s : Synchronizer) (content : Patch.Content) (query : String) : Synchronizer :=
  { s with phase := .idle, committed := some content, snapshot := some query }

/-! ### Hydration -/

/-- The condition that a parameter of a field's own stands for, if the registry admits it. -/
def paramCondition? (r : Registry) (field raw : String) : Option Condition :=
  match r.get? field with
  | some config => (r.condition field none (.ofParam config.variant raw)).toOption
  | none => none

/-- The conditions that parameters stand for: those of the compiled query, then one for each field
with a parameter of its own that is not empty. -/
def readConditions (r : Registry) (key : String) (params : Params) : Conditions :=
  let query := Conditions.ofText (params.value key)
  let own := r.params.filterMap fun (field, param) =>
    let raw := params.value param
    if raw.isEmpty then none else paramCondition? r field raw
  { query with conditions := query.conditions ++ own }

/-- The synchronizer with its store filled from parameters. -/
def populate (s : Synchronizer) (params : Params) : Synchronizer :=
  { s with store := (s.store.replace (readConditions s.store.registry s.key params)).2 }

/-- The synchronizer with the filters of a saved filter, and its turn: the saved parameters are
written, and parameters of the table that are not among them are cleared. -/
def load (s : Synchronizer) (saved : SavedFilter) (query : String) : Synchronizer × Turn :=
  let params := Params.parse saved.params
  let s := { s with hydrated := true }.populate params
  let missing := s.ownKeys.filter fun key => !params.contains key
  let patch := missing.foldl (fun p key => p.set key "") (Patch.ofList params.pairs)
  (s, turn query patch s.output.content)

/-- The first filling of the store, from a saved filter if one is given and otherwise from the
navigation; later ones do nothing. -/
def hydrate (s : Synchronizer) (saved : Option SavedFilter) (query : String) :
    Synchronizer × Option Turn :=
  if s.hydrated then (s, none)
  else match saved with
    | some f => let (s, t) := s.load f query; (s, some t)
    | none =>
      let s := { s with hydrated := true }.populate (Params.parse query)
      (s, some (s.outbound query))

/-- The synchronizer without filters, and its turn: every parameter of the table is cleared. -/
def reset (s : Synchronizer) (query : String) : Synchronizer × Turn :=
  let s := { s with store := s.store.clear.2 }
  let patch := Patch.ofList (s.ownKeys.map fun key => (key, ""))
  (s, turn query patch patch.content)

/-! ### Inbound -/

/-- The store after the parameter of one field has been read, and whether it changed. An empty value
removes the field's first filter; any other is taken as its value or, where there is no filter, as a
new one. A value that the registry does not admit is ignored. -/
def follow (store : Store) (field raw : String) : Store × Bool :=
  match store.find? field with
  | some f =>
    if raw.isEmpty then ((store.remove f.id).2, true)
    else match store.registry.get? field with
      | none => (store, false)
      | some config =>
        let incoming := Value.ofParam config.variant raw
        if incoming = f.condition.value then (store, false)
        else match store.update f.id none (some incoming) with
          | (.ok changed, store) => (store, changed)
          | (.error _, store) => (store, false)
  | none =>
    if raw.isEmpty then (store, false)
    else match paramCondition? store.registry field raw with
      | some c => ((store.push c).2, true)
      | none => (store, false)

/-- The store after the parameters of all fields with their own have been read. -/
def followAll (params : Params) : List (String × String) → Store × Bool → Store × Bool
  | [], r => r
  | (field, param) :: rest, (store, changed) =>
    let (store, c) := follow store field (params.value param)
    followAll params rest (store, changed || c)

/-- The store reconciled with the parameters of the navigation, and whether it changed. -/
def reconcile (store : Store) (params : Params) : Store × Bool :=
  followAll params store.registry.params (store, false)

/-- The answer to a change of the navigation; no turn when the text is the one seen last, or when it
changes nothing in the store. -/
def inbound (s : Synchronizer) (query : String) : Synchronizer × Option Turn :=
  if s.phase ≠ .idle then (s, none)
  else if s.snapshot = some query then (s, none)
  else
    let (store, changed) := reconcile s.store (Params.parse query)
    let s := { s with store := store, snapshot := some query }
    (s, if changed then some (s.outbound query) else none)

/-! ### Turns in a navigation -/

/-- The turn made in a navigation that nobody else watches. -/
def perform {ν : Type} (access : Access ν) (s : Synchronizer) (n : ν) :
    Turn → Synchronizer × ν × Emission
  | .unchanged => (s, n, .unchanged)
  | .adopt content => (s.commit content (access.read n), n, .adopted)
  | .write patch content =>
    let n := access.write n patch
    (s.commit content (access.read n), n, .written)

/-- The turn made, if there is one. -/
def performSome {ν : Type} (access : Access ν) (s : Synchronizer) (n : ν) :
    Option Turn → Synchronizer × ν × Option Emission
  | none => (s, n, none)
  | some t => let (s, n, e) := s.perform access n t; (s, n, some e)

/-- A fresh synchronizer of a table, hydrated from a navigation without a saved filter. -/
def fresh {ν : Type} (access : Access ν) (t : Table) (n : ν) : Synchronizer × ν × Option Emission :=
  let (s, turn) := (ofTable t).hydrate none (access.read n)
  s.performSome access n turn

/-- The store exchanged, and the output synchronized. -/
def exchange {ν : Type} (access : Access ν) (s : Synchronizer) (n : ν) (store : Store) :
    Synchronizer × ν × Emission :=
  let s := { s with store := store }
  s.perform access n (s.outbound (access.read n))

end Synchronizer

end TableFilter
