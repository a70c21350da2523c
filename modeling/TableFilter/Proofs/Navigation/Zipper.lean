import TableFilter.Navigation.History

/-!
# Histories as zippers

A history keeps its entries in one list and the current one by its index. A `Zipper` is the current
entry between two stacks, of the entries before and of those after it, the nearest on top. Every
move of a history is one of its zipper (`History.zipper_move?`):

* a navigation pushes the current entry on the stack of those before and drops those after;
* a step back or forward takes the top of one stack and pushes the current entry on the other, and
  there is none exactly if that stack is empty (`Zipper.move?_eq_none_iff`);
* a write touches no entry but the current one.
-/

namespace TableFilter

/-! ### Zippers -/

/-- The current entry of a navigation between the entries before and after it, the nearest first. -/
structure Zipper where
  past : List String
  current : String
  future : List String
  deriving DecidableEq, Repr

/-- What can be done to a navigation. -/
inductive Move where
  | navigate (query : String)
  | back
  | forward
  | write (patch : Patch)
  deriving DecidableEq, Repr

namespace Zipper

/-- The zipper with a patch made to the current entry. -/
def write (z : Zipper) (patch : Patch) : Zipper :=
  { z with current := ((Params.parse z.current).apply patch).text }

/-- The zipper after a move, if it has the entry to move to. -/
def move? (z : Zipper) : Move → Option Zipper
  | .navigate query => some ⟨z.current :: z.past, withoutMark query, []⟩
  | .back =>
    match z.past with
    | [] => none
    | entry :: rest => some ⟨rest, entry, z.current :: z.future⟩
  | .forward =>
    match z.future with
    | [] => none
    | entry :: rest => some ⟨z.current :: z.past, entry, rest⟩
  | .write patch => some (z.write patch)

/-- **Only a step to an empty stack is refused.** -/
theorem move?_eq_none_iff {z : Zipper} {m : Move} :
    z.move? m = none ↔ m = .back ∧ z.past = [] ∨ m = .forward ∧ z.future = [] := by
  obtain ⟨past, current, future⟩ := z
  cases m with
  | navigate query => simp [move?]
  | back => cases past <;> simp [move?]
  | forward => cases future <;> simp [move?]
  | write patch => simp [move?]

end Zipper

/-! ### The zipper of a history -/

namespace History

/-- The entries before the current one, the nearest first. -/
def past (h : History) : List String := (h.entries.take h.index).reverse

/-- The entries after the current one, the nearest first. -/
def future (h : History) : List String := h.entries.drop (h.index + 1)

/-- The history around its current entry. -/
def zipper (h : History) : Zipper := ⟨h.past, h.current, h.future⟩

variable {h k : History}

theorem entries_eq (h : History) : h.entries = h.past.reverse ++ h.current :: h.future := by
  have hdrop : h.entries.drop h.index = h.current :: h.future :=
    List.drop_eq_getElem_cons h.index_lt
  rw [past, List.reverse_reverse, ← hdrop, List.take_append_drop]

theorem length_past (h : History) : h.past.length = h.index := by
  rw [past, List.length_reverse, List.length_take, Nat.min_eq_left (Nat.le_of_lt h.index_lt)]

theorem length_eq (h : History) : h.length = h.past.length + 1 + h.future.length := by
  rw [length, h.entries_eq, List.length_append, List.length_reverse, List.length_cons]
  omega

/-- The zipper at a place of a list. -/
theorem zipper_eq {before after : List String} {entry : String}
    (hentries : h.entries = before ++ entry :: after) (hindex : h.index = before.length) :
    h.zipper = ⟨before.reverse, entry, after⟩ := by
  have hpast : h.past = before.reverse := by rw [past, hentries, hindex, List.take_left]
  have hsame := h.entries_eq.symm.trans hentries
  rw [hpast, List.reverse_reverse, List.append_cancel_left_eq, List.cons.injEq] at hsame
  rw [zipper, hpast, hsame.1, hsame.2]

/-- **A history is given by its zipper.** -/
theorem zipper_injective (hzipper : h.zipper = k.zipper) : h = k := by
  obtain ⟨hpast, hcurrent, hfuture⟩ := Zipper.mk.inj hzipper
  have hentries : h.entries = k.entries := by
    rw [h.entries_eq, k.entries_eq, hpast, hcurrent, hfuture]
  have hindex : h.index = k.index := by rw [← h.length_past, hpast, k.length_past]
  cases h
  cases k
  cases hentries
  cases hindex
  rfl

/-! ### Moves -/

theorem zipper_navigate (h : History) (query : String) :
    (h.navigate query).zipper = ⟨h.current :: h.past, withoutMark query, []⟩ := by
  have htake : h.entries.take (h.index + 1) = h.past.reverse ++ [h.current] := by
    rw [past, List.reverse_reverse]
    exact List.take_succ_eq_append_getElem h.index_lt
  have hentries : (h.navigate query).entries =
      (h.past.reverse ++ [h.current]) ++ withoutMark query :: [] := by
    rw [← htake]
    rfl
  have hindex : (h.navigate query).index = (h.past.reverse ++ [h.current]).length := by
    change (h.navigate query).entries.length - 1 = _
    rw [hentries, List.length_append, List.length_singleton, Nat.add_sub_cancel]
  rw [zipper_eq hentries hindex, List.reverse_append, List.reverse_reverse]
  rfl

theorem zipper_write (h : History) (patch : Patch) :
    (h.write patch).zipper = h.zipper.write patch := by
  have hentries : (h.write patch).entries =
      h.past.reverse ++ (h.params.apply patch).text :: h.future := by
    change h.entries.set h.index _ = _
    rw [h.entries_eq, ← h.length_past, ← List.length_reverse, List.set_append_right _ _ Nat.le.refl,
      Nat.sub_self, List.set_cons_zero]
  have hindex : (h.write patch).index = h.past.reverse.length := by
    rw [List.length_reverse, length_past]
    rfl
  rw [zipper_eq hentries hindex, List.reverse_reverse]
  rfl

theorem zipper_back? (h : History) : h.back?.map zipper = h.zipper.move? .back := by
  have hlength := h.length_past
  have hentries := h.entries_eq
  rw [back?, Zipper.move?]
  cases hpast : h.past with
  | nil =>
    rw [hpast, List.length_nil] at hlength
    rw [if_pos hlength.symm, show h.zipper.past = [] from hpast]
    rfl
  | cons entry rest =>
    rw [hpast, List.length_cons] at hlength
    rw [hpast, List.reverse_cons, List.append_assoc, List.singleton_append] at hentries
    rw [if_neg (by omega), show h.zipper.past = entry :: rest from hpast]
    have hindex : h.index - 1 = rest.reverse.length := by
      rw [List.length_reverse]
      exact (Nat.eq_sub_of_add_eq hlength).symm
    have hback := zipper_eq (h := ⟨h.entries, h.index - 1,
      Nat.lt_of_le_of_lt (Nat.sub_le _ _) h.index_lt⟩) hentries hindex
    rw [List.reverse_reverse] at hback
    exact congrArg some hback

theorem zipper_forward? (h : History) : h.forward?.map zipper = h.zipper.move? .forward := by
  have hlength := h.length_eq
  have hentries := h.entries_eq
  rw [length_past, length] at hlength
  rw [forward?, Zipper.move?]
  cases hfuture : h.future with
  | nil =>
    rw [hfuture, List.length_nil] at hlength
    rw [dif_pos (Nat.le_of_eq hlength), show h.zipper.future = [] from hfuture]
    rfl
  | cons entry rest =>
    rw [hfuture, List.length_cons] at hlength
    rw [hfuture, ← List.singleton_append, ← List.append_assoc] at hentries
    have hnext : h.index + 1 < h.entries.length := by omega
    rw [dif_neg (Nat.not_le_of_lt hnext), show h.zipper.future = entry :: rest from hfuture]
    have hindex : h.index + 1 = (h.past.reverse ++ [h.current]).length := by
      rw [List.length_append, List.length_reverse, length_past]
      rfl
    have hforward := zipper_eq (h := ⟨h.entries, h.index + 1, hnext⟩) hentries hindex
    rw [List.reverse_append, List.reverse_reverse] at hforward
    exact congrArg some hforward

/-- A step forward undoes a step back. -/
theorem forward?_of_back? (hback : h.back? = some k) : k.forward? = some h := by
  unfold back? at hback
  split at hback
  · cases hback
  · next hfirst =>
    cases hback
    have hindex : h.index - 1 + 1 = h.index := Nat.succ_pred_eq_of_ne_zero hfirst
    have hlast := h.index_lt
    simp only [forward?, hindex]
    rw [dif_neg (Nat.not_le_of_lt hlast)]

/-- A step back undoes a step forward. -/
theorem back?_of_forward? (hforward : h.forward? = some k) : k.back? = some h := by
  unfold forward? at hforward
  split at hforward
  · cases hforward
  · cases hforward
    rw [back?, if_neg (Nat.succ_ne_zero _)]
    rfl

theorem past_write (h : History) (patch : Patch) : (h.write patch).past = h.past :=
  congrArg Zipper.past (h.zipper_write patch)

theorem future_write (h : History) (patch : Patch) : (h.write patch).future = h.future :=
  congrArg Zipper.future (h.zipper_write patch)

theorem current_write (h : History) (patch : Patch) :
    (h.write patch).current = (h.params.apply patch).text :=
  congrArg Zipper.current (h.zipper_write patch)

theorem current_navigate (h : History) (query : String) :
    (h.navigate query).current = withoutMark query :=
  congrArg Zipper.current (h.zipper_navigate query)

end History

end TableFilter
