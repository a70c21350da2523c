import TableFilter.Query.Params

/-!
# Navigation history

A history is the list of all entries, the oldest first, with the index of the current one.

* `History.navigate` goes to a new entry and drops the ones after the current one, `History.back?`
  and `History.forward?` move the index by one where there is an entry;
* `History.write` changes the parameters of the current entry in place.
-/

namespace TableFilter

/-- The entries of a navigation with the index of the current one. -/
structure History where
  entries : List String
  index : Nat
  index_lt : index < entries.length
  deriving DecidableEq, Repr

namespace History

/-- The history of one entry. -/
def start (query : String) : History := ⟨[withoutMark query], 0, Nat.one_pos⟩

/-- The number of entries. -/
def length (h : History) : Nat := h.entries.length

/-- The text of the current entry. -/
def current (h : History) : String := h.entries.get ⟨h.index, h.index_lt⟩

/-- The parameters of the current entry. -/
def params (h : History) : Params := .parse h.current

/-- A new entry after the current one; the entries that came after it are dropped. -/
def navigate (h : History) (query : String) : History :=
  let entries := h.entries.take (h.index + 1) ++ [withoutMark query]
  ⟨entries, entries.length - 1, Nat.sub_one_lt (by simp [entries])⟩

/-- One entry back, unless the current one is the first. -/
def back? (h : History) : Option History :=
  if h.index = 0 then none
  else some ⟨h.entries, h.index - 1, Nat.lt_of_le_of_lt (Nat.sub_le _ _) h.index_lt⟩

/-- One entry forward, unless the current one is the last. -/
def forward? (h : History) : Option History :=
  if hlast : h.entries.length ≤ h.index + 1 then none
  else some ⟨h.entries, h.index + 1, Nat.lt_of_not_le hlast⟩

/-- The history with a patch made to the current entry. -/
def write (h : History) (patch : Patch) : History :=
  ⟨h.entries.set h.index (h.params.apply patch).text, h.index,
    by rw [List.length_set]; exact h.index_lt⟩

end History

end TableFilter
