import TableFilter.Synchronizer

/-!
# Sessions

A session is everything that lives on one navigation: its history, the mounted views of tables, the
saved filters, and whoever listens to changes.

* A `View` is a mounted table: its synchronizer, whether a change of the navigation came while it was
  writing and still waits to be answered, and how often it has written.
* An `Observer` notes each change it hears of in the log, and may act a number of times: write,
  navigate, or subscribe and drop other observers.
* `Session.listeners` are those who are told of a change, in the order of their registration.
-/

namespace TableFilter

/-- A mounted table. The number of its writes is kept for whoever asks; no step depends on it. -/
structure View where
  name : String
  sync : Synchronizer
  pending : Bool
  lastExternal : Option Emission
  writes : Nat
  deriving DecidableEq, Repr

/-- What an observer does when it hears of a change. -/
inductive Action where
  | write (patch : Patch)
  | navigate (query : String)
  | drop (name : String)
  | subscribe (name : String)
  deriving DecidableEq, Repr

/-- Who notes changes in the log, and acts on the first few of them. -/
structure Observer where
  name : String
  action : Option Action
  uses : Nat
  deriving DecidableEq, Repr

/-- Who is told of a change, by number. -/
inductive Listener where
  | view (id : Nat)
  | observer (id : Nat)
  deriving DecidableEq, Repr

/-- One navigation with all that lives on it. -/
structure Session where
  navigation : CountedHistory
  saved : SavedFilters
  views : List (Nat × View)
  observers : List (Nat × Observer)
  listeners : List Listener
  nextId : Nat
  log : List String
  deriving DecidableEq, Repr

/-- The view of a table, not yet hydrated. -/
def View.ofTable (name : String) (table : Table) : View := ⟨name, .ofTable table, false, none, 0⟩

/-- Whether the view is writing; a change that comes then has to wait. -/
def View.isBusy (v : View) : Bool := v.sync.phase = .emitting

namespace Session

/-- The session of a navigation at one entry. -/
def start (query : String) : Session := ⟨.start query, .empty, [], [], [], 1, []⟩

/-- The text of the current entry. -/
def query (s : Session) : String := s.navigation.history.current

/-- A table with the value of a number changed. -/
def alter {α : Type} (n : Nat) (f : α → α) (table : List (Nat × α)) : List (Nat × α) :=
  table.map fun (m, a) => if m = n then (m, f a) else (m, a)

/-- The view of a number. -/
def view? (s : Session) (n : Nat) : Option View := s.views.lookup n

/-- The session with a view changed. -/
def alterView (s : Session) (n : Nat) (f : View → View) : Session :=
  { s with views := alter n f s.views }

/-- The session with a view exchanged. -/
def setView (s : Session) (n : Nat) (v : View) : Session := s.alterView n fun _ => v

/-- The observer of a number. -/
def observer? (s : Session) (n : Nat) : Option Observer := s.observers.lookup n

/-- The mounted view of a name, with its number. -/
def named? (s : Session) (name : String) : Option (Nat × View) :=
  s.views.find? fun v => v.2.name == name

/-- Whether a listener is an observer of a name. -/
def isObserver (s : Session) (name : String) : Listener → Bool
  | .view _ => false
  | .observer n =>
    match s.observer? n with
    | some o => o.name == name
    | none => false

/-- The session with its history changed. -/
def setHistory (s : Session) (h : History) : Session :=
  { s with navigation := { s.navigation with history := h } }

/-- The session with a patch written to the navigation. -/
def written (s : Session) (patch : Patch) : Session :=
  { s with navigation := s.navigation.write patch }

/-- The session without the observers of a name among its listeners. -/
def drop (s : Session) (name : String) : Session :=
  { s with listeners := s.listeners.filter fun l => !s.isObserver name l }

/-- The session with an observer registered; an earlier one of its name is dropped. -/
def subscribe (s : Session) (o : Observer) : Session :=
  let s := s.drop o.name
  { s with
    observers := s.observers ++ [(s.nextId, o)]
    listeners := s.listeners ++ [.observer s.nextId]
    nextId := s.nextId + 1 }

end Session

end TableFilter
