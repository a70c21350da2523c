import TableFilter.Navigation.History

/-!
# Access to a navigation

What a table view does with a navigation: it reads the current text and writes patches.

* `Access.counted` writes into a history and counts the writes;
* `Access.fixed` counts the writes and keeps its text, which only its host changes.
-/

namespace TableFilter

/-- How a navigation of type `ν` is read and written. -/
structure Access (ν : Type) where
  read : ν → String
  write : ν → Patch → ν

/-- A history with the number of writes so far. -/
structure CountedHistory where
  history : History
  writes : Nat
  deriving DecidableEq, Repr

/-- A text with the number of writes that it has ignored. -/
structure FixedText where
  text : String
  writes : Nat
  deriving DecidableEq, Repr

namespace CountedHistory

/-- The history of one entry, not yet written. -/
def start (query : String) : CountedHistory := ⟨.start query, 0⟩

/-- The navigation with a patch written. -/
def write (n : CountedHistory) (patch : Patch) : CountedHistory :=
  ⟨n.history.write patch, n.writes + 1⟩

end CountedHistory

namespace Access

/-- Access to a history. -/
def counted : Access CountedHistory := ⟨fun n => n.history.current, CountedHistory.write⟩

/-- Access to a text that no write changes. -/
def fixed : Access FixedText := ⟨fun n => n.text, fun n _ => { n with writes := n.writes + 1 }⟩

end Access

end TableFilter
