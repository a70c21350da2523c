import TableFilter.Session.Basic

/-!
# Notification cascades

A change of the navigation is told to every listener that was registered when it came, in order.
Listeners answer by changing the navigation again, and that change is told to all in the midst of the
first.

* A view that is told of a change while it is writing marks the change as pending; when the write has
  returned it answers once more, for as long as a change is pending.
* An observer is told even if it was dropped after the telling began, and a listener registered
  meanwhile is not.
* `Session.tell?` bounds the nesting of a cascade. It gives no session when the bound does not
  suffice; `Session.bound` is the one that is used.
-/

namespace TableFilter.Session

/-- A turn of a view made in the navigation, with the outcome. The view is busy while the others are
told of its write. -/
def carry (publish : Session → Option Session) (s : Session) (n : Nat) (v : View) :
    Turn → Option (Session × Emission)
  | .unchanged => some (s.setView n v, .unchanged)
  | .adopt content => some (s.setView n { v with sync := v.sync.commit content s.query }, .adopted)
  | .write patch content => do
    let busy := { v with sync := { v.sync with phase := .emitting }, writes := v.writes + 1 }
    let s ← publish ((s.setView n busy).written patch)
    return (s.alterView n fun v => { v with sync := v.sync.commit content s.query }, .written)

/-- The answer of a view to a change, its outcome noted if there is one. -/
def react (publish : Session → Option Session) (s : Session) (n : Nat) (v : View) :
    Option Session :=
  match v.sync.inbound s.query with
  | (sync, none) => some (s.setView n { v with sync := sync })
  | (sync, some turn) => do
    let (s, e) ← carry publish s n { v with sync := sync } turn
    return s.alterView n fun v => { v with lastExternal := some e }

/-- What an observer does. -/
def act (publish : Session → Option Session) (s : Session) : Action → Option Session
  | .write patch => publish (s.written patch)
  | .navigate query => publish (s.setHistory (s.navigation.history.navigate query))
  | .drop name => some (s.drop name)
  | .subscribe name => some (s.subscribe ⟨name, none, 0⟩)

/-- One listener told of a change, with all that follows from it. -/
def tell? : Nat → Session → Listener → Option Session
  | 0, _, _ => none
  | fuel + 1, s, .view n =>
    match s.view? n with
    | none => some s
    | some v =>
      if v.isBusy then some (s.setView n { v with pending := true })
      else do
        let s ← react (fun s => s.listeners.foldlM (tell? fuel) s) s n v
        match s.view? n with
        | none => return s
        | some v =>
          if v.pending then tell? fuel (s.setView n { v with pending := false }) (.view n)
          else return s
  | fuel + 1, s, .observer n =>
    match s.observer? n with
    | none => some s
    | some o =>
      let s := { s with log := s.log ++ [o.name] }
      match o.action, o.uses with
      | some a, uses + 1 =>
        act (fun s => s.listeners.foldlM (tell? fuel) s)
          { s with observers := alter n (fun o => { o with uses := uses }) s.observers } a
      | _, _ => some s

/-- Every listener told of a change. -/
def publish? (fuel : Nat) (s : Session) : Option Session := s.listeners.foldlM (tell? fuel) s

/-- A view's answers to the changes that came while it was writing. -/
def settle? (fuel : Nat) (s : Session) (n : Nat) : Option Session :=
  match s.view? n with
  | none => some s
  | some v =>
    if v.pending then tell? fuel (s.setView n { v with pending := false }) (.view n) else some s

/-- The number of times that observers may still act. -/
def uses (s : Session) : Nat := s.observers.foldr (fun o k => o.2.uses + k) 0

/-- The bound on the nesting of a cascade: a change inside a change is the write of a view that was
not writing, or an act of an observer, which has one use less afterwards. -/
def bound (s : Session) : Nat := s.views.length + s.uses + 1

end TableFilter.Session
