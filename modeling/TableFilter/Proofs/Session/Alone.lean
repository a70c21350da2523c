import TableFilter.Proofs.Session.Stores

/-!
# A view alone on its navigation

Where a single view is mounted, a cascade is its one answer: the store is reconciled with the new
text, and the navigation is left as it is or shows the view's output afterwards (`Told.alone`). So
what becomes of the filters on a field whose parameter is gone can be said exactly: the first of
them is removed and the later ones stay, and the field is without a filter, and its parameter
without a value, just if there was one filter at most (`navigate_empty_iff`).
-/

namespace TableFilter.Session

variable {s t u : Session} {n : Nat} {v w : View} {ls : List Listener} {as : List Answer}

/-- **The only view answers once.** Its store follows the text, and the navigation is as it was or
shows the output. -/
theorem Told.alone (h : Told s s.listeners as t) (hlisteners : s.listeners = [.view n])
    (hv : s.view? n = some v) (hb : v.isBusy = false) :
    ∃ w, t.view? n = some w ∧ w.sync.store = (v.sync.inbound s.query).1.store ∧
      (t.params = s.params ∨ t.params.shows w.sync.output = true) := by
  rw [hlisteners] at h
  cases hstill : v.still? s.query with
  | some r =>
    obtain ⟨bs, -, hlater⟩ := h.of_still hv hb hstill
    obtain ⟨-, rfl⟩ := hlater.of_nil
    exact ⟨r.1, view?_setView_self hv, View.store_still? hstill, .inl rfl⟩
  | none =>
    obtain ⟨sync, patch, content, hin⟩ := still?_eq_none hstill
    obtain ⟨u, w, inner, bs, -, hinner, hw, hlater⟩ := h.of_wrote hv hb hin
    obtain ⟨rfl, -, -⟩ := inbound_write hin
    obtain ⟨-, rfl⟩ := hlater.of_nil
    -- Nobody but the view itself is told of its write, and it is writing.
    have hwriting : ((s.setView n { v with sync := sync }.writing).written sync.output).view? n =
        some { v with sync := sync }.writing := view?_setView_self hv
    rw [hlisteners] at hinner
    obtain ⟨-, rfl⟩ := (hinner.of_busy hwriting (View.isBusy_writing _)).of_nil
    subst hw
    refine ⟨_, view?_setView_self (view?_setView_self hwriting), by rw [hin]; rfl, .inr ?_⟩
    have hshown := Params.shows_apply (Synchronizer.nodup_output sync) s.params
    rw [← params_written] at hshown
    exact hshown

/-- What a view at rest makes of a text that it has not seen. -/
theorem store_inbound (hv : v.Settled s.query) {query : String} (hq : query ≠ s.query) :
    (v.sync.inbound query).1.store =
      (Synchronizer.reconcile v.sync.store (Params.parse query)).1 := by
  have hunseen : v.sync.snapshot ≠ some query := fun h =>
    hq (Option.some.inj (h.symm.trans hv.seen))
  unfold Synchronizer.inbound
  rw [if_neg (fun hne => hne hv.idle), if_neg hunseen]

/-- A navigation of the host is answered by the only view. -/
theorem AtRest.navigate_alone (hs : s.AtRest) (hids : s.ids = [n]) (hv : s.view? n = some v)
    {query : String} (hq : withoutMark query ≠ s.query) :
    ∃ w, (s.run (.navigate query)).view? n = some w ∧
      w.sync.store =
        (Synchronizer.reconcile v.sync.store (Params.parse (withoutMark query))).1 ∧
      ((s.run (.navigate query)).params = Params.parse (withoutMark query) ∨
        (s.run (.navigate query)).params.shows w.sync.output = true) := by
  have hlisteners : s.listeners = [.view n] := by rw [hs.listeners, hids]; rfl
  obtain ⟨as, htold⟩ :=
    hs.told_publish { s.navigation with history := s.navigation.history.navigate query }
  obtain ⟨w, hw, hstore, hparams⟩ :=
    htold.alone hlisteners hv (hs.settled n v hv).isBusy_eq_false
  refine ⟨w, hw, ?_, hparams.imp_left fun h => h.trans (params_navigate s query)⟩
  rw [← store_inbound (hs.settled n v hv) hq, ← query_navigate s query]
  exact hstore

/-- **Navigating to a text without a field's parameter removes the first filter on the field.** The
field is then without a filter and its parameter without a value, just if the view held one filter
on it at most. -/
theorem navigate_empty_iff {t : Table} (ht : t.IsAccepted) (start : String) (ops : List Operation)
    (hids : ((Session.start start).runs ops).ids = [n])
    (hv : ((Session.start start).runs ops).view? n = some v)
    (hfields : v.sync.store.registry = t.fields) {field param : String}
    (hparam : (field, param) ∈ t.fields.params) {query : String}
    (hq : withoutMark query ≠ ((Session.start start).runs ops).query)
    (hempty : (Params.parse (withoutMark query)).value param = "") :
    let after := ((Session.start start).runs ops).run (.navigate query)
    ∃ w, after.view? n = some w ∧ w.sync.store.on field = (v.sync.store.on field).tail ∧
      (w.sync.store.find? field = none ∧ after.params.value param = "" ↔
        (v.sync.store.on field).length ≤ 1) := by
  intro after
  have hs : ((Session.start start).runs ops).AtRest := atRest_runs (atRest_start start) ops
  have hnumbered : v.sync.store.Numbered :=
    stores_after_runs Store.kept_numbered start ops n v hv
  obtain ⟨w, hw, hstore, hparams⟩ := hs.navigate_alone hids hv hq
  have hon : w.sync.store.on field = (v.sync.store.on field).tail := by
    rw [hstore]
    exact Synchronizer.on_reconcile hnumbered (hfields ▸ ht.ids) (hfields ▸ hparam) hempty
  have hfind : w.sync.store.find? field = none ↔ (v.sync.store.on field).length ≤ 1 := by
    rw [← Store.head?_on, hon, List.head?_eq_none_iff, ← List.length_eq_zero_iff,
      List.length_tail]
    omega
  refine ⟨w, hw, hon, fun h => hfind.1 h.1, fun h => ⟨hfind.2 h, ?_⟩⟩
  rcases hparams with hsame | hshown
  · exact (congrArg (·.value param) hsame).trans hempty
  -- What has been written is the empty text of a field without filters.
  · have hwfields : w.sync.store.registry = t.fields := by
      rw [hstore, Synchronizer.registry_reconcile, hfields]
    have hget : w.sync.output.get? param = some (Synchronizer.paramText w.sync.store field) :=
      Synchronizer.get?_output_param (hwfields ▸ Registry.nodup_params ht.validated)
        (hwfields ▸ hparam)
    rw [(Params.shows_iff (Synchronizer.nodup_output w.sync) _).1 hshown param _ hget,
      Synchronizer.paramText, hfind.2 h]

/-- The only filter on the owner goes when the host navigates to a text without an owner. -/
theorem navigate_empty_iff_one_owner :
    let owner := { FieldConfig.plain "Owner" .text with param := some "owner" }
    let t : Table := ⟨"orders", none, ⟨[("owner", owner)]⟩⟩
    let s := (start "").runs [.mount "orders" t none, .request 1 (.add "owner" none (.text "ann"))]
    let after := s.run (.navigate "page=2")
    t.IsAccepted ∧ s.query = "owner=ann" ∧
      ∃ w, after.view? 1 = some w ∧ w.sync.store.find? "owner" = none ∧
        after.params.value "owner" = "" := by
  intro owner t s after
  have ht : t.IsAccepted := ⟨by decide, by decide, by decide⟩
  have hquery : s.query = "owner=ann" := by decide +kernel
  obtain ⟨v, hv⟩ : ∃ v, s.view? 1 = some v := Option.isSome_iff_exists.1 (by decide +kernel)
  have hview : (s.view? 1).map
      (fun v => (v.sync.store.registry, (v.sync.store.on "owner").length)) =
        some (t.fields, 1) := by decide +kernel
  rw [hv, Option.map_some, Option.some.injEq, Prod.mk.injEq] at hview
  have hparam : ("owner", "owner") ∈ t.fields.params := by decide
  have hq : withoutMark "page=2" ≠ s.query := by rw [hquery]; decide
  obtain ⟨w, hw, -, hiff⟩ := navigate_empty_iff ht "" _ (by decide +kernel) hv hview.1 hparam hq
    (by decide +kernel)
  obtain ⟨hnone, hgone⟩ := hiff.2 hview.2.le
  exact ⟨ht, hquery, w, hw, hnone, hgone⟩

/-- Of two filters on the owner the second stays, and it is written to the navigation again. -/
theorem navigate_empty_two_owners :
    let owner := { FieldConfig.plain "Owner" .text with param := some "owner" }
    let t : Table := ⟨"orders", none, ⟨[("owner", owner)]⟩⟩
    let s := (start "").runs [.mount "orders" t none, .request 1 (.add "owner" none (.text "ann")),
      .request 1 (.add "owner" none (.text "bob"))]
    let after := s.run (.navigate "page=2")
    t.IsAccepted ∧ s.query = "owner=ann" ∧ after.query = "page=2&owner=bob" ∧
      (after.view? 1).map (fun w => (w.sync.store.find? "owner").map (·.condition.value)) =
        some (some (.text "bob")) := by
  intro owner t s after
  exact ⟨⟨by decide, by decide, by decide⟩, by decide +kernel⟩

end TableFilter.Session
