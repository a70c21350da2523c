import TableFilter.Navigation.Access

/-!
# Watched navigations

A navigation is watched inside a state of any kind, which holds it together with whatever the
listeners keep. A change is made first and then told, and telling it may change the state in turn.

* `Watched.navigate` and `Watched.write` are always made;
* `Watched.back` and `Watched.forward` say whether there was an entry to go to. Where there is none,
  nobody is told.
-/

namespace TableFilter

/-- How a navigation is read and exchanged in a state, and how a change of it is told to all who
listen, with everything that follows. -/
structure Watched (σ : Type) where
  navigation : σ → CountedHistory
  exchange : σ → CountedHistory → σ
  navigation_exchange : ∀ s n, navigation (exchange s n) = n
  tell : σ → σ

namespace Watched

variable {σ : Type} (w : Watched σ)

/-- The history of the navigation. -/
def history (s : σ) : History := (w.navigation s).history

/-- The history exchanged and the change told. -/
def move (s : σ) (h : History) : σ := w.tell (w.exchange s { w.navigation s with history := h })

/-- A new entry. -/
def navigate (s : σ) (query : String) : σ := w.move s ((w.history s).navigate query)

/-- One entry back; whether there was one. -/
def back (s : σ) : Bool × σ :=
  match (w.history s).back? with
  | some h => (true, w.move s h)
  | none => (false, s)

/-- One entry forward; whether there was one. -/
def forward (s : σ) : Bool × σ :=
  match (w.history s).forward? with
  | some h => (true, w.move s h)
  | none => (false, s)

/-- A patch to the current entry. -/
def write (s : σ) (patch : Patch) : σ := w.tell (w.exchange s ((w.navigation s).write patch))

end Watched

end TableFilter
