import TableFilter.Session.Operations

/-!
# The views of a session

Views stand in a table under their numbers, and every step of a session changes that table at one
number. The table is seen through two functions only: which numbers there are, in order
(`Session.ids`), and what stands under a number (`Session.view?`).
-/

namespace TableFilter.Session

/-! ### Tables -/

section Alter

variable {α : Type} {n m : Nat} {f : α → α} {table : List (Nat × α)}

theorem lookup_alter :
    (alter n f table).lookup m = if m = n then (table.lookup m).map f else table.lookup m := by
  induction table with
  | nil => simp [alter]
  | cons e rest ih =>
    obtain ⟨i, a⟩ := e
    change (alter n f rest).lookup m = _ at ih
    by_cases hi : i = n
    · subst hi
      by_cases hm : m = i
      · subst hm; simp [alter]
      · rw [if_neg hm] at ih
        simpa [alter, Keyed.lookup_cons_pair, hm] using ih
    · by_cases hm : m = i
      · subst hm; simp [alter, hi]
      · simpa [alter, Keyed.lookup_cons_pair, hi, hm] using ih

theorem keys_alter : (alter n f table).map (·.1) = table.map (·.1) := by
  rw [alter, List.map_map]
  refine List.map_congr_left fun e _ => ?_
  simp only [Function.comp_apply]
  split <;> rfl

/-- What stands under a number already may be put there again. -/
theorem alter_eq_self {a : α} (h : (table.map (·.1)).Nodup) (ha : table.lookup n = some a) :
    alter n (fun _ => a) table = table := by
  refine (List.map_congr_left fun e he => ?_).trans (List.map_id table)
  obtain ⟨i, b⟩ := e
  by_cases hi : i = n
  · subst hi
    have hb := Keyed.lookup_eq_some_of_mem h he
    rw [ha, Option.some.injEq] at hb
    simp [hb]
  · simp [hi]

theorem alter_alter {g : α → α} : alter n g (alter n f table) = alter n (g ∘ f) table := by
  rw [alter, alter, alter, List.map_map]
  refine List.map_congr_left fun e _ => ?_
  by_cases hi : e.1 = n <;> simp [hi]

theorem lookup_append_single {i : Nat} {a : α} (h : i ∉ table.map (·.1)) :
    (table ++ [(i, a)]).lookup n = if n = i then some a else table.lookup n := by
  induction table with
  | nil => simp [Keyed.lookup_cons_pair]
  | cons e rest ih =>
    obtain ⟨j, b⟩ := e
    rw [List.map_cons, List.mem_cons, not_or] at h
    rw [List.cons_append, Keyed.lookup_cons_pair, Keyed.lookup_cons_pair, ih h.2]
    by_cases hj : n = j
    · subst hj; simp [Ne.symm h.1]
    · simp [hj]

end Alter

/-! ### Sessions -/

/-- The numbers of the views, in order. -/
def ids (s : Session) : List Nat := s.views.map (·.1)

variable {s : Session} {n m : Nat} {v : View} {f : View → View}

@[simp] theorem ids_alterView : (s.alterView n f).ids = s.ids := keys_alter

@[simp] theorem ids_setView : (s.setView n v).ids = s.ids := ids_alterView

theorem view?_alterView :
    (s.alterView n f).view? m = if m = n then (s.view? m).map f else s.view? m :=
  lookup_alter

theorem view?_alterView_self {w : View} (h : s.view? n = some w) :
    (s.alterView n f).view? n = some (f w) := by
  rw [view?_alterView, if_pos rfl, h]; rfl

theorem view?_alterView_of_ne (h : m ≠ n) : (s.alterView n f).view? m = s.view? m := by
  rw [view?_alterView, if_neg h]

theorem view?_setView_self {w : View} (h : s.view? n = some w) :
    (s.setView n v).view? n = some v :=
  view?_alterView_self h

theorem view?_setView_of_ne (h : m ≠ n) : (s.setView n v).view? m = s.view? m :=
  view?_alterView_of_ne h

/-- What stands in a session with a view exchanged: that view, or one that stood there before. -/
theorem view?_setView_cases {w x : View} (h : (s.setView n w).view? m = some x) :
    m = n ∧ x = w ∨ m ≠ n ∧ s.view? m = some x := by
  rw [setView, view?_alterView] at h
  split at h
  · next hm =>
    obtain ⟨y, -, rfl⟩ := Option.map_eq_some_iff.1 h
    exact .inl ⟨hm, rfl⟩
  · next hm => exact .inr ⟨hm, h⟩

theorem setView_eq_self (h : s.ids.Nodup) (hv : s.view? n = some v) : s.setView n v = s := by
  have hviews : alter n (fun _ => v) s.views = s.views := alter_eq_self h hv
  rw [setView, alterView, hviews]

theorem alterView_setView {w : View} : (s.setView n w).alterView n f = s.setView n (f w) := by
  simp only [setView, alterView, alter_alter]
  rfl

theorem alterView_eq_setView (h : s.ids.Nodup) (hv : s.view? n = some v) :
    s.alterView n f = s.setView n (f v) := by
  rw [← alterView_setView, setView_eq_self h hv]

theorem setView_alterView {w : View} : (s.alterView n f).setView n w = s.setView n w := by
  simp only [setView, alterView, alter_alter]
  rfl

theorem mem_ids_iff : n ∈ s.ids ↔ ∃ v, s.view? n = some v := by
  rw [← Option.isSome_iff_exists]
  exact Keyed.lookup_isSome_iff.symm

theorem mem_views_iff (h : s.ids.Nodup) : (n, v) ∈ s.views ↔ s.view? n = some v :=
  ⟨Keyed.lookup_eq_some_of_mem h, Keyed.mem_of_lookup_eq_some⟩

end TableFilter.Session
