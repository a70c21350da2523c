import TableFilter.Proofs.Session.Clearing

/-!
# Replacing the filters of a view

A load in the only view of a navigation replaces its filters by saved ones, and leaves nothing of
what the view showed before.

* A turn to have the navigation show a patch is one write at most, and changes no pairs but those of
  the keys in the patch (`Synchronizer.perform_turn`).
* Those of a load are the parameters of the table and the keys of the saved text
  (`Synchronizer.get?_loadedPatch_eq`).
* A table that is hydrated where the saved text is read, in whatever navigation, reads the same
  conditions (`Synchronizer.conditions_fresh_of_read`).
-/

namespace TableFilter

namespace Synchronizer

variable {s : Synchronizer} {n : CountedHistory} {patch : Patch} {keys : List String}

/-! ### The patch of a load -/

/-- The patch of a load speaks of the parameters of the table and of the saved ones only. -/
theorem mem_of_mem_loadedPatch {p : Params} {e : String × String}
    (h : e ∈ (s.loadedPatch p).entries) : e.1 ∈ s.ownKeys ++ p.pairs.map (·.1) := by
  have hget : (s.loadedPatch p).get? e.1 = some e.2 :=
    Keyed.lookup_eq_some_of_mem (nodup_loadedPatch s p) h
  rw [get?_loadedPatch_eq] at hget
  split at hget
  · next hown => exact List.mem_append_left _ hown.1
  · have hmem := List.mem_reverse.1 (Keyed.mem_of_lookup_eq_some hget)
    exact List.mem_append_right _ (List.mem_map_of_mem hmem)

/-! ### Turns made where nobody else watches -/

/-- **A turn to have the navigation show a patch is one write at most,** after which the navigation
shows the patch and is otherwise as it was. -/
theorem perform_turn (s : Synchronizer) (n : CountedHistory) (content : Patch.Content)
    (hpatch : (patch.entries.map (·.1)).Nodup)
    (hkeys : ∀ e ∈ patch.entries, e.1 ∈ keys) :
    let after := (s.perform .counted n (turn n.history.current patch content)).2.1
    after.history.params.shows patch = true ∧ n.history.SameOutside keys after.history ∧
      after.writes ≤ n.writes + 1 := by
  by_cases hshows : (Params.parse n.history.current).shows patch = true
  · rw [turn, if_pos hshows]
    exact ⟨hshows, History.sameOutside_refl _ _, Nat.le_succ _⟩
  · rw [turn, if_neg hshows]
    refine ⟨?_, History.sameOutside_write hkeys _, le_rfl⟩
    change (n.history.write patch).params.shows patch = true
    rw [History.params_write]
    exact Params.shows_apply hpatch n.history.params

theorem conditions_filled (s : Synchronizer) (query : String) :
    (s.filled query).store.conditions =
      readConditions s.store.registry s.key (Params.parse query) :=
  Store.conditions_replace s.store _

/-- A load that is made where nobody else watches. -/
theorem perform_load {saved : SavedFilter} {p : Params} (hp : Params.parse saved.params = p)
    {u : Synchronizer} {m : CountedHistory} {e : Emission}
    (h : (s.load saved n.history.current).1.perform .counted n
      (s.load saved n.history.current).2 = (u, m, e)) :
    u.store.conditions = readConditions s.store.registry s.key p ∧
      (∀ k ∈ s.ownKeys, p.contains k = false → m.history.params.value k = "") ∧
      (∀ k, p.contains k = true → m.history.params.value k = p.last k) ∧
      n.history.SameOutside (s.ownKeys ++ p.pairs.map (·.1)) m.history ∧
      m.writes ≤ n.writes + 1 := by
  rw [load_eq, hp] at h
  have hconditions := conditions_filled s saved.params
  rw [hp] at hconditions
  have hown : (s.filled saved.params).ownKeys = s.ownKeys :=
    ownKeys_congr (s.scope_filled saved.params)
  generalize s.filled saved.params = filled at h hconditions hown
  have hpatch := nodup_loadedPatch filled p
  obtain ⟨hshows, hsame, hwrites⟩ := filled.perform_turn n filled.output.content hpatch
    fun _ => mem_of_mem_loadedPatch
  have hstore := store_perform .counted filled n
    (turn n.history.current (filled.loadedPatch p) filled.output.content)
  dsimp only at h
  rw [h] at hshows hsame hwrites hstore
  rw [Params.shows_iff hpatch] at hshows
  rw [hown] at hsame
  refine ⟨(congrArg Store.conditions hstore).trans hconditions, fun k hk hnot => ?_,
    fun k hk => hshows k _ (get?_loadedPatch_of_contains filled hk), hsame, hwrites⟩
  rw [← Params.last_of_not_contains hnot]
  exact hshows k _ (get?_loadedPatch (hown ▸ hk) p)

/-- **What a fresh synchronizer reads depends on the text of the navigation only,** whichever way
that is read and written. -/
theorem conditions_fresh_of_read {ν : Type} (access : Access ν) (t : Table) (n : ν) :
    (fresh access t n).1.store.conditions = t.conditions (Params.parse (access.read n)) := by
  rw [fresh, hydrate_ambient rfl]
  dsimp only
  rw [store_performSome, conditions_filled]
  rfl

end Synchronizer

/-! ### The only view -/

namespace Session

variable {n : Nat} {v : View}

/-- **A load replaces what the only view shows.** After any operations on a new navigation that
leave one view mounted, a load writes once at most. Parameters of the table that are not among the
saved ones then show the empty value and the saved ones their last value; all other pairs of the
navigation and its other entries are as they were. The conditions and the join of the view are those
of the table hydrated anew in any navigation that reads the saved text. -/
theorem replaced_by_load (table : Table) (query : String) (ops : List Operation)
    (saved : SavedFilter) (hids : ((start query).runs ops).ids = [n])
    (hv : ((start query).runs ops).view? n = some v)
    (hscope : v.sync.scope = (table.key, table.fields)) :
    let before := (start query).runs ops
    let after := (before.load n saved).1
    let p := Params.parse saved.params
    after.navigation.writes ≤ before.navigation.writes + 1 ∧
      (∀ k ∈ v.sync.ownKeys, p.contains k = false → after.params.value k = "") ∧
      (∀ k, p.contains k = true → after.params.value k = p.last k) ∧
      before.navigation.history.SameOutside (v.sync.ownKeys ++ p.pairs.map (·.1))
        after.navigation.history ∧
      ∃ w, after.view? n = some w ∧
        ∀ (ν : Type) (access : Access ν) (m : ν), access.read m = saved.params →
          w.sync.store.conditions =
            (Synchronizer.fresh access table m).1.store.conditions := by
  intro before after p
  have hs : before.AtRest := atRest_runs (atRest_start query) ops
  have hlisteners : before.listeners = [.view n] := by rw [hs.listeners, hids]; rfl
  obtain ⟨as, t, e, -, hstep, hstepped⟩ := hs.stepped_request hv (.load saved)
  have hafter : after = t := congrArg Prod.fst hstep
  obtain ⟨w, hw, hperform⟩ := hstepped.alone hlisteners hv
  obtain ⟨hconditions, hmissing, hsaved, hsame, hwrites⟩ :=
    Synchronizer.perform_load rfl (n := before.navigation) hperform
  obtain ⟨hkey, hfields⟩ : v.sync.key = table.key ∧ v.sync.store.registry = table.fields :=
    Prod.mk.inj hscope
  rw [hkey, hfields] at hconditions
  rw [hafter]
  refine ⟨hwrites, hmissing, hsaved, hsame, w, hw, fun ν access m hread => ?_⟩
  rw [Synchronizer.conditions_fresh_of_read, hread]
  exact hconditions

/-- A filter on the status is loaded where an owner was chosen: the owner is cleared, the page stays,
and what the table does not know of the saved text is taken over. -/
theorem replaced_by_load_status :
    let owner := { FieldConfig.plain "Owner" .text with param := some "owner" }
    let t : Table := ⟨"orders", none, ⟨[("status", .plain "Status" .text), ("owner", owner)]⟩⟩
    let opened : Conditions := ⟨[⟨"status", .text, .eq, .text "open"⟩], .and⟩
    let saved : SavedFilter :=
      ⟨"mine", "orders=%7B%22$match%22:%7B%22status%22:%22open%22%7D%7D&view=wide", "orders"⟩
    let before := (start "page=2").runs [.mount "orders" t none,
      .request 1 (.add "status" none (.text "closed")), .navigate "owner=eve&page=3"]
    let after := (before.load 1 saved).1
    t.IsAccepted ∧ before.params.value "owner" = "eve" ∧ after.params.value "owner" = "" ∧
      after.params.value "view" = "wide" ∧
      before.navigation.history.SameOutside ["orders", "owner", "orders", "view"]
        after.navigation.history ∧
      ∃ w, after.view? 1 = some w ∧ w.sync.store.conditions =
          (Synchronizer.fresh .fixed t ⟨saved.params, 0⟩).1.store.conditions ∧
        w.sync.store.conditions = opened := by
  intro owner t opened saved before after
  have hids : before.ids = [1] := by decide +kernel
  have hview : (before.view? 1).map (fun v => v.sync.scope) = some ("orders", t.fields) := by
    decide +kernel
  obtain ⟨v, hv, hscope⟩ := Option.map_eq_some_iff.1 hview
  obtain ⟨hkey, hfields⟩ : v.sync.key = "orders" ∧ v.sync.store.registry = t.fields :=
    Prod.mk.inj hscope
  have hown : v.sync.ownKeys = ["orders", "owner"] := by
    rw [Synchronizer.ownKeys, hkey, hfields]
    decide
  have hkeys : (Params.parse saved.params).pairs.map (·.1) = ["orders", "view"] := by
    decide +kernel
  obtain ⟨-, hmissing, hsaved, hsame, w, hw, hfresh⟩ :=
    replaced_by_load t "page=2" _ saved hids hv hscope
  rw [hown, hkeys] at hsame
  have hconditions := hfresh FixedText .fixed ⟨saved.params, 0⟩ rfl
  have hread : w.sync.store.conditions = opened := by
    have hquery : (Params.parse saved.params).value t.key = opened.text t.fields := by
      decide +kernel
    have hown : t.ownConditions (Params.parse saved.params) = [] := by decide +kernel
    rw [hconditions, Synchronizer.conditions_fresh_of_read]
    change t.conditions (Params.parse saved.params) = opened
    rw [Table.conditions_eq, hquery, hown, Conditions.ofText_text (by decide)]
    rfl
  have hview : after.params.value "view" = "wide" :=
    (hsaved "view" (by decide +kernel)).trans (by decide +kernel)
  unfold after before
  exact ⟨⟨by decide, by decide, by decide⟩, by decide +kernel,
    hmissing "owner" (by rw [hown]; decide) (by decide +kernel), hview, hsame, w, hw, hconditions,
    hread⟩

end Session

end TableFilter
