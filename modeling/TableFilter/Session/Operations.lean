import TableFilter.Navigation.Watched
import TableFilter.Session.Cascade

/-!
# Operations on a session

What the host does to the navigation, and what users do in mounted views. Every operation ends when
the cascade that it has set off has ended.

* A view hydrates before it listens, so it is not told of the writes of its own hydration.
* A view that is mounted under a name in use takes the place of the earlier one, which still hears
  the hydration.
* A refused change of a view is followed by an outbound step all the same.
-/

namespace TableFilter.Session

/-! ### The navigation -/

/-- Every listener told, and all that follows. -/
def publish (s : Session) : Session := (publish? s.bound s).getD s

/-- The navigation of a session, watched by its views and observers. -/
def watched : Watched Session where
  navigation := navigation
  exchange s n := { s with navigation := n }
  navigation_exchange _ _ := rfl
  tell := publish

/-- A new entry. -/
def navigate (s : Session) (query : String) : Session := watched.navigate s query

/-- One entry back; whether there was one. -/
def back (s : Session) : Bool × Session := watched.back s

/-- One entry forward; whether there was one. -/
def forward (s : Session) : Bool × Session := watched.forward s

/-- A patch to the current entry. -/
def write (s : Session) (patch : Patch) : Session := watched.write s patch

theorem back_eq (s : Session) :
    s.back = match s.navigation.history.back? with
      | some h => (true, (s.setHistory h).publish)
      | none => (false, s) := rfl

theorem forward_eq (s : Session) :
    s.forward = match s.navigation.history.forward? with
      | some h => (true, (s.setHistory h).publish)
      | none => (false, s) := rfl

/-! ### Views -/

/-- A step of a view's synchronizer, its turn made and later changes answered. -/
def step? (s : Session) (n : Nat) (f : Synchronizer → String → Synchronizer × Turn) :
    Option (Session × Emission) := do
  let v ← s.view? n
  let (sync, turn) := f v.sync s.query
  let (t, e) ← carry (publish? s.bound) s n { v with sync := sync } turn
  let t ← settle? s.bound t n
  return (t, e)

/-- A step of a view's synchronizer. -/
def step (s : Session) (n : Nat) (f : Synchronizer → String → Synchronizer × Turn) :
    Session × Emission :=
  (s.step? n f).getD (s, .unchanged)

/-- A change of a view's store, followed by an outbound step. -/
def change {α : Type} (s : Session) (n : Nat) (v : View) (f : Store → α × Store) :
    α × Session × Emission :=
  let (result, store) := f v.sync.store
  (result, s.step n fun sync query =>
    let sync := { sync with store := store }
    (sync, sync.outbound query))

/-- A filter added in a view. -/
def add (s : Session) (n : Nat) (v : View) (field : String) (operator : Option Operator)
    (value : Value) : Except FilterError (Nat × Emission) × Session :=
  match s.change n v fun store => store.add field operator value with
  | (.ok id, s, e) => (.ok (id, e), s)
  | (.error e, s, _) => (.error e, s)

/-- A filter of a view changed. -/
def update (s : Session) (n : Nat) (v : View) (id : Nat) (operator : Option Operator)
    (value : Option Value) : Except FilterError Emission × Session :=
  match s.change n v fun store => store.update id operator value with
  | (.ok _, s, e) => (.ok e, s)
  | (.error e, s, _) => (.error e, s)

/-- A filter of a view removed. -/
def remove (s : Session) (n : Nat) (v : View) (id : Nat) :
    Except FilterError Emission × Session :=
  match s.change n v fun store => store.remove id with
  | (.ok _, s, e) => (.ok e, s)
  | (.error e, s, _) => (.error e, s)

/-- The join of a view set. -/
def setJoin (s : Session) (n : Nat) (v : View) (join : Join) : Session × Emission :=
  (s.change n v fun store => store.setJoin join).2

/-- A view without filters. -/
def reset (s : Session) (n : Nat) : Session × Emission :=
  s.step n Synchronizer.reset

/-- A view with the filters of a saved filter. -/
def load (s : Session) (n : Nat) (saved : SavedFilter) : Session × Emission :=
  s.step n fun sync query => sync.load saved query

/-- The navigation of a view saved under an entered name. -/
def saveAs (s : Session) (v : View) (entered : String) :
    Except (List NameProblem) SavedFilter × Session :=
  let (result, saved) := s.saved.submit entered s.query v.sync.table
  (result, { s with saved := saved })

/-! ### Mounting -/

/-- The session without some of its views. -/
def dismiss (s : Session) (gone : Nat → View → Bool) : Session :=
  let listeners := (s.views.filter fun (n, v) => gone n v).map fun (n, _) => Listener.view n
  { s with
    views := s.views.filter fun (n, v) => !gone n v
    listeners := s.listeners.filter fun l => !listeners.contains l }

/-- A view unmounted; nothing happens if there is none of the name. -/
def unmount (s : Session) (name : String) : Session := s.dismiss fun _ v => v.name == name

/-- A table mounted as one more view, hydrated from a saved filter if one is given. -/
def attach (s : Session) (name : String) (table : Table) (saved : Option SavedFilter) : Session :=
  let n := s.nextId
  let s := { s with views := s.views ++ [(n, View.ofTable name table)], nextId := n + 1 }
  let (s, _) := s.step n fun sync query =>
    let (sync, turn) := sync.hydrate saved query
    (sync, turn.getD .unchanged)
  { s with listeners := s.listeners ++ [Listener.view n] }

/-- A table mounted as the view of a name. -/
def mount (s : Session) (name : String) (table : Table) (saved : Option SavedFilter) : Session :=
  (s.attach name table saved).dismiss fun m v => v.name == name && m ≠ s.nextId

/-! ### Observers -/

/-- An observer dropped; whether there was one of the name. -/
def unsubscribe (s : Session) (name : String) : Bool × Session :=
  (s.listeners.any (s.isObserver name), s.drop name)

end TableFilter.Session
