import TableFilter.Proofs.Session.Foreign
import TableFilter.Proofs.Session.Loading

/-!
# Resetting a view

A reset does not ask what was committed before: it has the navigation show the empty value for every
parameter of the table, whatever it shows.

* A step of the only view of a navigation is its turn made where nobody else watches
  (`Session.Stepped.alone`), so a reset can be followed in the synchronizer alone
  (`Synchronizer.perform_reset`).
* Afterwards there is nothing left to clear for another reset, and nothing left to read for a table
  that is hydrated there (`Session.cleared_by_reset`).
-/

namespace TableFilter

/-- A store without conditions that is joined by `and` is empty. -/
theorem Store.empty_of_conditions {store : Store} (h : store.conditions = ⟨[], .and⟩) :
    store.filters = [] ∧ store.join = .and :=
  ⟨List.map_eq_nil_iff.1 (congrArg Conditions.conditions h), congrArg Conditions.join h⟩

/-! ### Navigations without a table's parameters -/

namespace Synchronizer

variable {s : Synchronizer} {n : CountedHistory} {p : Params} {t : Turn} {k : String}

theorem get?_output_of_filters_nil (h : s.store.filters = []) (k : String) :
    s.output.get? k = if k ∈ s.ownKeys then some "" else none := by
  rw [output_of_filters_nil h, Patch.ofList, List.foldl_map]
  exact Patch.get?_foldl_clear s.ownKeys Patch.empty k

/-- **A table without filters is shown where none of its parameters has a value.** -/
theorem shows_output_of_filters_nil (h : s.store.filters = []) :
    p.shows s.output = true ↔ ∀ k ∈ s.ownKeys, p.value k = "" := by
  rw [Params.shows_iff (nodup_output s)]
  constructor
  · intro hshows k hk
    exact hshows k "" (by rw [get?_output_of_filters_nil h, if_pos hk])
  · intro hempty k v hk
    rw [get?_output_of_filters_nil h] at hk
    split at hk
    · next hown => exact (hempty k hown).trans (Option.some.inj hk)
    · cases hk

/-- A reset clears the parameters of the table and writes once at most. -/
theorem perform_reset {u : Synchronizer} {m : CountedHistory} {e : Emission}
    (h : (s.reset n.history.current).1.perform .counted n (s.reset n.history.current).2 =
      (u, m, e)) :
    u.store.filters = [] ∧ u.store.join = .and ∧ u.scope = s.scope ∧
      (∀ k ∈ s.ownKeys, m.history.params.value k = "") ∧
      n.history.SameOutside s.ownKeys m.history ∧ m.writes ≤ n.writes + 1 := by
  have hscope : (s.reset n.history.current).1.scope = s.scope :=
    congrArg (Prod.mk s.key) s.store.registry_clear
  obtain ⟨hshows, hsame, hwrites⟩ :=
    perform_of_presents (reset_presents s n.history.current) (turn_ne_unchanged _ _)
  have hstore := store_perform .counted (s.reset n.history.current).1 n
    (s.reset n.history.current).2
  have hkept := scope_perform .counted (s.reset n.history.current).1 n
    (s.reset n.history.current).2
  rw [shows_output_of_filters_nil (filters_clear s.store)] at hshows
  rw [ownKeys_congr hscope] at hshows hsame
  rw [h] at hshows hsame hwrites hstore hkept
  have hcleared : u.store.conditions = ⟨[], .and⟩ :=
    (congrArg Store.conditions hstore).trans (Store.conditions_replace s.store ⟨[], .and⟩)
  obtain ⟨hfilters, hjoin⟩ := Store.empty_of_conditions hcleared
  exact ⟨hfilters, hjoin, hkept.trans hscope, hshows, hsame, hwrites⟩

/-- **A reset of a table whose parameters have no value writes nothing.** -/
theorem reset_of_empty {query : String}
    (h : ∀ k ∈ s.ownKeys, (Params.parse query).value k = "") :
    ∃ content, (s.reset query).2 = .adopt content := by
  have hscope : (s.reset query).1.scope = s.scope :=
    congrArg (Prod.mk s.key) s.store.registry_clear
  have hshows : (Params.parse query).shows (s.reset query).1.output = true := by
    rw [shows_output_of_filters_nil (filters_clear s.store), ownKeys_congr hscope]
    exact h
  rw [output_of_filters_nil (filters_clear s.store)] at hshows
  exact ⟨_, if_pos hshows⟩

end Synchronizer

namespace Table

variable {t : Table} {p : Params}

/-- Where the parameters of a table have no value it reads no conditions. -/
theorem conditions_of_empty (h : ∀ k ∈ t.key :: t.fields.params.map (·.2), p.value k = "") :
    t.conditions p = ⟨[], .and⟩ := by
  rw [List.forall_mem_cons] at h
  have hown : t.ownConditions p = [] := by
    rw [ownConditions, List.filterMap_eq_nil_iff]
    intro e he
    rw [h.2 e.2 (List.mem_map_of_mem he)]
    rfl
  rw [conditions_eq, h.1, hown]
  rfl

/-- **A table hydrated where its parameters have no value is empty and writes nothing.** -/
theorem fresh_of_empty (ht : t.IsAccepted) {n : CountedHistory}
    (h : ∀ k ∈ t.key :: t.fields.params.map (·.2), n.history.params.value k = "") :
    ∃ fresh, Synchronizer.fresh .counted t n = (fresh, n, some .adopted) ∧
      fresh.store.filters = [] ∧ fresh.store.join = .and := by
  have hconditions := (Synchronizer.conditions_fresh t n).trans (conditions_of_empty h)
  have hshows : t.Shows n.history.params (t.conditions n.history.params) := by
    rw [conditions_of_empty h]
    rw [List.forall_mem_cons] at h
    exact ⟨h.1.trans (Synchronizer.text_nil t.fields .and).symm,
      fun e he => h.2 e.2 (List.mem_map_of_mem he)⟩
  have hstill := Synchronizer.fresh_of_shows ht hshows
  cases hfresh : Synchronizer.fresh .counted t n with
  | mk fresh rest =>
    rw [hfresh] at hconditions hstill
    obtain rfl : rest = (n, some .adopted) := hstill
    exact ⟨fresh, rfl, Store.empty_of_conditions hconditions⟩

end Table

/-! ### The only view -/

namespace Session

variable {s t : Session} {n : Nat} {v x : View} {e : Emission} {turn : Turn} {as : List Answer}

/-- **A step of the only view is its turn made where nobody else watches.** -/
theorem Stepped.alone (h : Stepped s n x turn as t e) (hlisteners : s.listeners = [.view n])
    (hv : s.view? n = some v) :
    ∃ w, t.view? n = some w ∧
      x.sync.perform .counted s.navigation turn = (w.sync, t.navigation, e) := by
  cases h with
  | unchanged => exact ⟨x, view?_setView_self hv, rfl⟩
  | adopted content => exact ⟨_, view?_setView_self hv, rfl⟩
  | @written u patch content _ htold =>
    have hwriting : ((s.setView n x.writing).written patch).view? n = some x.writing :=
      view?_setView_self hv
    rw [hlisteners] at htold
    obtain ⟨-, rfl⟩ := (htold.of_busy hwriting (View.isBusy_writing _)).of_nil
    exact ⟨_, view?_setView_self (view?_setView_self hwriting), rfl⟩

/-- **A reset clears what its table owns, from any state.** After any operations on a new navigation
that leave one view mounted, a reset leaves that view without filters and joined by `and`; each of
its parameters shows the empty value, all other pairs of the navigation and its other entries are as
they were, and there was one write at most. Another reset finds the parameters empty and writes
nothing, and so does a table hydrated there anew, which reads no filters. -/
theorem cleared_by_reset {table : Table} (ht : table.IsAccepted) (query : String)
    (ops : List Operation) (hids : ((start query).runs ops).ids = [n])
    (hv : ((start query).runs ops).view? n = some v)
    (hscope : v.sync.scope = (table.key, table.fields)) :
    let before := (start query).runs ops
    let after := (before.reset n).1
    let again := after.reset n
    (∃ w, after.view? n = some w ∧ w.sync.store.filters = [] ∧ w.sync.store.join = .and) ∧
      (∀ k ∈ v.sync.ownKeys, after.params.value k = "") ∧
      before.navigation.history.SameOutside v.sync.ownKeys after.navigation.history ∧
      after.navigation.writes ≤ before.navigation.writes + 1 ∧
      again.2 = .adopted ∧ again.1.navigation = after.navigation ∧
      ∃ fresh,
        Synchronizer.fresh .counted table after.navigation =
          (fresh, after.navigation, some .adopted) ∧
        fresh.store.filters = [] ∧ fresh.store.join = .and := by
  intro before after again
  have hs : before.AtRest := atRest_runs (atRest_start query) ops
  have hlisteners : before.listeners = [.view n] := by rw [hs.listeners, hids]; rfl
  obtain ⟨as, t, e, hrun, hstep, hstepped⟩ := hs.stepped_request hv .reset
  have hafter : after = t := congrArg Prod.fst hstep
  obtain ⟨w, hw, hperform⟩ := hstepped.alone hlisteners hv
  obtain ⟨hfilters, hjoin, hkept, hempty, hsame, hwrites⟩ :=
    Synchronizer.perform_reset (n := before.navigation) hperform
  rw [← hafter] at hw hempty hsame hwrites
  -- The parameters are empty now for the view itself and for whoever comes next.
  have hrest : after.AtRest := by
    obtain ⟨u, hu, hc⟩ := perform?_atRest hs (.request n .reset)
    rw [hafter, ← hrun, run_eq_of_perform? hu]
    exact hc.atRest
  have hown : w.sync.ownKeys = v.sync.ownKeys := Synchronizer.ownKeys_congr hkept
  have hagain : again.2 = .adopted ∧ again.1.navigation = after.navigation := by
    obtain ⟨bs, u, o, -, hstep', hstepped'⟩ := hrest.stepped_request hw .reset
    obtain ⟨content, hturn⟩ : ∃ content, (w.sync.reset after.query).2 = .adopt content :=
      Synchronizer.reset_of_empty (by rw [hown]; exact hempty)
    rw [show again = (u, o) from hstep']
    rw [show Request.step .reset = Synchronizer.reset from rfl, hturn] at hstepped'
    cases hstepped'
    exact ⟨rfl, rfl⟩
  have hkeys : v.sync.ownKeys = table.key :: table.fields.params.map (·.2) := by
    obtain ⟨hkey, hfields⟩ : v.sync.key = table.key ∧ v.sync.store.registry = table.fields :=
      Prod.mk.inj hscope
    rw [Synchronizer.ownKeys, hkey, hfields]
  exact ⟨⟨w, hw, hfilters, hjoin⟩, hempty, hsame, hwrites, hagain.1, hagain.2,
    Table.fresh_of_empty ht (by rw [← hkeys]; exact hempty)⟩

/-- Owners that the host has repeated, and a query that it has made up, are cleared between the
pages. -/
theorem cleared_by_reset_drifted :
    let owner := { FieldConfig.plain "Owner" .text with param := some "owner" }
    let t : Table := ⟨"orders", none, ⟨[("status", .plain "Status" .text), ("owner", owner)]⟩⟩
    let text := "page=2&owner=ann&owner=eve&orders=x&page=3"
    let before := (start "owner=ann").runs [.mount "orders" t none,
      .request 1 (.add "status" none (.text "open")), .navigate text]
    t.IsAccepted ∧ before.query = text ∧
      before.navigation.history.SameOutside ["orders", "owner"]
        (before.reset 1).1.navigation.history ∧
      (before.reset 1).1.params.value "owner" = "" ∧
      ((before.reset 1).1.reset 1).2 = .adopted := by
  intro owner t text before
  have ht : t.IsAccepted := ⟨by decide, by decide, by decide⟩
  have hids : before.ids = [1] := by decide +kernel
  have hview : (before.view? 1).map (fun v => v.sync.scope) = some ("orders", t.fields) := by
    decide +kernel
  obtain ⟨v, hv, hscope⟩ := Option.map_eq_some_iff.1 hview
  obtain ⟨hkey, hfields⟩ : v.sync.key = "orders" ∧ v.sync.store.registry = t.fields :=
    Prod.mk.inj hscope
  have hown : v.sync.ownKeys = ["orders", "owner"] := by
    rw [Synchronizer.ownKeys, hkey, hfields]
    decide
  obtain ⟨-, hempty, hsame, -, hagain, -⟩ := cleared_by_reset ht "owner=ann" _ hids hv hscope
  rw [hown] at hempty hsame
  unfold before
  exact ⟨ht, by decide +kernel, hsame, hempty "owner" (by decide), hagain⟩

end Session

end TableFilter
