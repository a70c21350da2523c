import TableFilter.Proofs.Session.Alone
import TableFilter.Proofs.Session.Echo

/-!
# Navigating elsewhere

The host may navigate to a text in which only the parameters of others differ. A view compares what
it reads there with the filters that it holds, not with what it has read or written before, so its
own filters are left alone only where they reflect the text already, or where the text is one that
the field does not take (`Store.Unmoved`).

* Following a parameter either leaves the store as it was or counts one more change
  (`Synchronizer.follow_spec`), and so does reconciling with all of them
  (`Synchronizer.reconcile_spec`).
* So the only view of a navigation is undisturbed exactly if no parameter of its own moves its store
  (`Session.navigate_elsewhere_iff`), as none does where each first filter is shown and has a value
  that is read back.
-/

namespace TableFilter

/-! ### Texts that move a store -/

namespace Store

variable {s : Store} {field raw : String} {config : FieldConfig}

/-- What the store makes of a value on a field: the condition of the first filter with the value
changed, or a new condition where there is no filter on the field. -/
def taken (s : Store) (field : String) (value : Value) : Except FilterError Condition :=
  match s.find? field with
  | some f => f.condition.updated s.registry none (some value)
  | none => s.registry.condition field none value

/-- Whether the store takes the value that a parameter's text stands for. -/
def Takes (s : Store) (field raw : String) : Prop :=
  ∃ config c, s.registry.get? field = some config ∧
    s.taken field (.ofParam config.variant raw) = .ok c

theorem not_takes_of_none (hconfig : s.registry.get? field = none) : ¬s.Takes field raw := by
  rintro ⟨config, c, hsome, -⟩
  rw [hconfig] at hsome
  cases hsome

theorem takes_iff (hconfig : s.registry.get? field = some config) :
    s.Takes field raw ↔ ∃ c, s.taken field (.ofParam config.variant raw) = .ok c := by
  constructor
  · rintro ⟨other, c, hother, htaken⟩
    rw [hconfig, Option.some.injEq] at hother
    exact ⟨c, hother ▸ htaken⟩
  · rintro ⟨c, htaken⟩
    exact ⟨config, c, hconfig, htaken⟩

/-- Whether a parameter's text leaves the store as it is: the store has the value already, or the
text is not empty and stands for a value that the store does not take. -/
def Unmoved (s : Store) (field raw : String) : Prop :=
  s.Reflects field raw ∨ raw ≠ "" ∧ ¬s.Takes field raw

/-- Whether parameters show the first filter on each field that has one of its own, by a text from
which the value of that filter is read back. -/
def ReadBack (s : Store) (p : Params) : Prop :=
  ∀ e ∈ s.registry.params, p.value e.2 = Synchronizer.paramText s e.1 ∧
    ∃ config, s.registry.get? e.1 = some config ∧ ∀ f, s.find? e.1 = some f →
      f.condition.value.toParam ≠ "" ∧ f.condition.value.IsReadable config.variant

/-- Parameters from which the filters are read back leave the store as it is. -/
theorem ReadBack.unmoved {p : Params} (h : s.ReadBack p) :
    ∀ e ∈ s.registry.params, s.Unmoved e.1 (p.value e.2) := by
  intro e he
  obtain ⟨htext, config, hconfig, hread⟩ := h e he
  refine .inl ?_
  rw [htext]
  unfold Reflects Synchronizer.paramText
  cases hf : s.find? e.1 with
  | none => rfl
  | some f =>
    obtain ⟨hne, hreadable⟩ := hread f hf
    dsimp only
    rw [if_neg (by simpa using hne), hconfig, Option.map_some, Option.map_some,
      Value.ofParam_toParam hreadable]

end Store

/-! ### Following the parameters -/

namespace Synchronizer

variable {store : Store} {field raw : String} {f : Filter} {params : Params}
  {fields : List (String × String)}

/-- What a parameter comes to where its field has a filter. -/
theorem follow_spec_of_some (h : store.Numbered) (hf : store.find? field = some f) (raw : String) :
    store.Unmoved field raw ∧ follow store field raw = (store, false) ∨
      ¬store.Unmoved field raw ∧ store.revision < (follow store field raw).1.revision := by
  obtain ⟨hmem, -⟩ := Store.find?_eq_some hf
  have hget : store.get? f.id = some f := h.get?_id hmem
  by_cases hraw : raw = ""
  · subst hraw
    right
    constructor
    · rintro (hreflects | ⟨hne, -⟩)
      · simp [Store.Reflects, hf] at hreflects
      · exact hne rfl
    · simp [follow, hf, Store.remove, hget, Store.bump]
  have hempty : raw.isEmpty = false := by simpa using hraw
  cases hconfig : store.registry.get? field with
  | none =>
    left
    exact ⟨.inr ⟨hraw, Store.not_takes_of_none hconfig⟩,
      by simp [follow, hf, hempty, hconfig]⟩
  | some config =>
    by_cases hsame : Value.ofParam config.variant raw = f.condition.value
    · left
      exact ⟨.inl (by simp [Store.Reflects, hf, hempty, hconfig, hsame]),
        by simp [follow, hf, hempty, hconfig, hsame]⟩
    have hreflects : ¬store.Reflects field raw := by
      simpa [Store.Reflects, hf, hempty, hconfig] using Ne.symm hsame
    have htakes : store.Takes field raw ↔ ∃ c, f.condition.updated store.registry none
        (some (.ofParam config.variant raw)) = .ok c := by
      rw [Store.takes_iff hconfig, Store.taken, hf]
    cases hupdated : f.condition.updated store.registry none
        (some (.ofParam config.variant raw)) with
    | error e =>
      left
      refine ⟨.inr ⟨hraw, ?_⟩,
        by simp [follow, hf, hempty, hconfig, hsame, Store.update, hget, hupdated]⟩
      rw [htakes, hupdated]
      rintro ⟨c, htaken⟩
      cases htaken
    | ok c =>
      right
      have hne : c ≠ f.condition := by
        obtain ⟨other, -, rfl⟩ := Condition.eq_of_updated hupdated
        exact fun h => hsame (congrArg Condition.value h)
      constructor
      · rintro (hyes | ⟨-, hnot⟩)
        · exact hreflects hyes
        · exact hnot (htakes.2 ⟨c, hupdated⟩)
      · simp [follow, hf, hempty, hconfig, hsame, Store.update, hget, hupdated, hne, Store.bump]

/-- What a parameter comes to where its field has no filter. -/
theorem follow_spec_of_none (hf : store.find? field = none) (raw : String) :
    store.Unmoved field raw ∧ follow store field raw = (store, false) ∨
      ¬store.Unmoved field raw ∧ store.revision < (follow store field raw).1.revision := by
  by_cases hraw : raw = ""
  · subst hraw
    left
    exact ⟨.inl (by simp [Store.Reflects, hf]), by simp [follow, hf]⟩
  have hempty : raw.isEmpty = false := by simpa using hraw
  cases hread : paramCondition? store.registry field raw with
  | none =>
    left
    refine ⟨.inr ⟨hraw, ?_⟩, by simp [follow, hf, hempty, hread]⟩
    rintro ⟨config, c, hconfig, htaken⟩
    rw [Store.taken, hf] at htaken
    simp [paramCondition?, hconfig, htaken, Except.toOption] at hread
  | some c =>
    obtain ⟨-, config, hconfig, hc⟩ := Registry.paramCondition?_eq_some hread
    right
    constructor
    · rintro (hreflects | ⟨-, hnot⟩)
      · simp [Store.Reflects, hf, hempty, hconfig] at hreflects
      · exact hnot ⟨config, c, hconfig, by rw [Store.taken, hf]; exact hc⟩
    · simp [follow, hf, hempty, hread, Store.push, Store.bump]

/-- **Following a parameter leaves the store as it was, or counts one more change,** and the latter
exactly if the text moves the store. -/
theorem follow_spec (h : store.Numbered) (field raw : String) :
    store.Unmoved field raw ∧ follow store field raw = (store, false) ∨
      ¬store.Unmoved field raw ∧ store.revision < (follow store field raw).1.revision := by
  cases hf : store.find? field with
  | some f => exact follow_spec_of_some h hf raw
  | none => exact follow_spec_of_none hf raw

theorem revision_followAll (h : store.Numbered) (changed : Bool) :
    store.revision ≤ (followAll params fields (store, changed)).1.revision := by
  induction fields generalizing store changed with
  | nil => exact le_rfl
  | cons e rest ih =>
    have hnext := ih (kept_follow Store.kept_numbered h e.1 (params.value e.2))
      (changed || (follow store e.1 (params.value e.2)).2)
    rw [followAll_cons]
    rcases follow_spec h e.1 (params.value e.2) with ⟨-, hsame⟩ | ⟨-, hmore⟩
    · rwa [hsame] at hnext ⊢
    · exact hmore.le.trans hnext

/-- **The parameters leave a store as it was if none of them moves it,** and count a change of it
otherwise. -/
theorem followAll_spec (h : store.Numbered) (changed : Bool) :
    (∀ e ∈ fields, store.Unmoved e.1 (params.value e.2)) ∧
        followAll params fields (store, changed) = (store, changed) ∨
      (∃ e ∈ fields, ¬store.Unmoved e.1 (params.value e.2)) ∧
        store.revision < (followAll params fields (store, changed)).1.revision := by
  induction fields generalizing changed with
  | nil => exact .inl ⟨fun e he => absurd he List.not_mem_nil, rfl⟩
  | cons e rest ih =>
    rw [followAll_cons]
    rcases follow_spec h e.1 (params.value e.2) with ⟨hunmoved, hsame⟩ | ⟨hmoved, hmore⟩
    · rw [hsame]
      simp only [Bool.or_false]
      rcases ih changed with ⟨hrest, hkept⟩ | ⟨⟨d, hd, hmoved⟩, hmore⟩
      · exact .inl ⟨List.forall_mem_cons.2 ⟨hunmoved, hrest⟩, hkept⟩
      · exact .inr ⟨⟨d, List.mem_cons_of_mem _ hd, hmoved⟩, hmore⟩
    · exact .inr ⟨⟨e, List.mem_cons_self, hmoved⟩, hmore.trans_le
        (revision_followAll (kept_follow Store.kept_numbered h e.1 (params.value e.2)) _)⟩

theorem reconcile_spec (h : store.Numbered) (params : Params) :
    (∀ e ∈ store.registry.params, store.Unmoved e.1 (params.value e.2)) ∧
        reconcile store params = (store, false) ∨
      (∃ e ∈ store.registry.params, ¬store.Unmoved e.1 (params.value e.2)) ∧
        store.revision < (reconcile store params).1.revision :=
  followAll_spec h false

end Synchronizer

/-! ### The only view -/

namespace Session

/-- What a navigation of the host leaves as it was: the store of a view with its ids, join and
revision, and all of the navigation but the new entry. -/
structure Undisturbed (s t : Session) (n : Nat) (query : String) : Prop where
  store : (t.view? n).map (·.sync.store) = (s.view? n).map (·.sync.store)
  history : t.navigation.history = s.navigation.history.navigate query
  writes : t.navigation.writes = s.navigation.writes

variable {s t : Session} {n : Nat} {v w : View} {as : List Answer}

/-- A change to which the only view has nothing to say leaves the session, but for what that view
has noted. -/
theorem Told.alone_still (h : Told s s.listeners as t) (hlisteners : s.listeners = [.view n])
    (hv : s.view? n = some v) (hb : v.isBusy = false) (hw : v.still? s.query = some (w, none)) :
    t = s.setView n w := by
  rw [hlisteners] at h
  obtain ⟨bs, -, hlater⟩ := h.of_still hv hb hw
  exact hlater.of_nil.2

/-- A view at rest whose store no parameter moves has nothing to say. -/
theorem still?_of_unmoved (hv : v.Settled s.query) (h : v.sync.store.Numbered) (query : String)
    (hunmoved : query = s.query ∨ ∀ e ∈ v.sync.store.registry.params,
      v.sync.store.Unmoved e.1 ((Params.parse query).value e.2)) :
    ∃ w, v.still? query = some (w, none) ∧ w.sync.store = v.sync.store := by
  by_cases hseen : v.sync.snapshot = some query
  · exact ⟨v, by rw [View.still?, Synchronizer.inbound_of_seen hseen], rfl⟩
  have hne : query ≠ s.query := fun h => hseen (h ▸ hv.seen)
  obtain ⟨-, hsame⟩ | ⟨⟨e, he, hmoved⟩, -⟩ :=
    Synchronizer.reconcile_spec h (Params.parse query)
  · refine ⟨{ v with sync := { v.sync with snapshot := some query } }, ?_, rfl⟩
    rw [View.still?, Synchronizer.inbound, if_neg fun h => h hv.idle, if_neg hseen, hsame]
    rfl
  · exact absurd (hunmoved.resolve_left hne e he) hmoved

/-- **A view alone on its navigation is undisturbed exactly if no parameter of its own moves its
store.** After any operations on a new navigation that leave one view mounted, let the host navigate
to a text in which the fields' own parameters of that view read as before. Nothing but the new entry
comes of it exactly if the text is the same as before, or if each of those parameters either is
reflected in the store already or has a text that the store does not take. This is so where the
navigation shows the first filter of each field by a text from which its value is read back. -/
theorem navigate_elsewhere_iff (start : String) (ops : List Operation)
    (hids : ((Session.start start).runs ops).ids = [n])
    (hv : ((Session.start start).runs ops).view? n = some v) {query : String}
    (hsame : ∀ e ∈ v.sync.store.registry.params, (Params.parse (withoutMark query)).value e.2 =
      ((Session.start start).runs ops).params.value e.2) :
    let before := (Session.start start).runs ops
    let after := before.run (.navigate query)
    let store := v.sync.store
    (before.Undisturbed after n query ↔ withoutMark query = before.query ∨
      ∀ e ∈ store.registry.params, store.Unmoved e.1 (before.params.value e.2)) ∧
    (store.ReadBack before.params → before.Undisturbed after n query) := by
  intro before after store
  have hs : before.AtRest := atRest_runs (atRest_start start) ops
  have hset : v.Settled before.query := hs.settled n v hv
  have hnumbered : store.Numbered := stores_after_runs Store.kept_numbered start ops n v hv
  have hlisteners : before.listeners = [.view n] := by rw [hs.listeners, hids]; rfl
  have hundisturbed (h : withoutMark query = before.query ∨
      ∀ e ∈ store.registry.params, store.Unmoved e.1 (before.params.value e.2)) :
      before.Undisturbed after n query := by
    obtain ⟨as, htold⟩ := hs.told_publish
      { before.navigation with history := before.navigation.history.navigate query }
    obtain ⟨w, hw, hstore⟩ := still?_of_unmoved hset hnumbered (withoutMark query)
      (h.imp_right fun h e he => by rw [hsame e he]; exact h e he)
    have hstill := (congrArg v.still? (before.query_navigate query)).trans hw
    have hafter : after = _ := htold.alone_still hlisteners hv hset.isBusy_eq_false hstill
    have hself : after.view? n = some w := by
      rw [hafter]
      exact view?_setView_self hv
    refine ⟨?_, by rw [hafter]; rfl, by rw [hafter]; rfl⟩
    rw [hself, hv]
    exact congrArg some hstore
  refine ⟨⟨fun h => ?_, hundisturbed⟩, fun h => hundisturbed (.inr h.unmoved)⟩
  by_contra hmoved
  rw [not_or] at hmoved
  obtain ⟨w, hw, hstore, -⟩ := hs.navigate_alone hids hv hmoved.1
  have hkept : w.sync.store = store := by
    have := h.store
    rwa [show after.view? n = some w from hw, hv, Option.map_some, Option.map_some,
      Option.some.injEq] at this
  obtain ⟨hall, -⟩ | ⟨-, hmore⟩ :=
    Synchronizer.reconcile_spec hnumbered (Params.parse (withoutMark query))
  · exact hmoved.2 fun e he => hsame e he ▸ hall e he
  · rw [← hstore, hkept] at hmore
    exact lt_irrefl _ hmore

/-- The owner stays as it is when the host adds a page. -/
theorem navigate_elsewhere_iff_page :
    let owner := { FieldConfig.plain "Owner" .text with param := some "owner" }
    let t : Table := ⟨"orders", none, ⟨[("owner", owner)]⟩⟩
    let before := (start "").runs [.mount "orders" t none,
      .request 1 (.add "owner" none (.text "ann"))]
    let after := before.run (.navigate "page=2&owner=ann")
    t.IsAccepted ∧ before.query = "owner=ann" ∧
      before.Undisturbed after 1 "page=2&owner=ann" := by
  intro owner t before after
  obtain ⟨v, hv⟩ : ∃ v, before.view? 1 = some v := Option.isSome_iff_exists.1 (by decide +kernel)
  have hview : (before.view? 1).map (fun v => (v.sync.store.registry.params,
      decide (v.sync.store.Reflects "owner" (before.params.value "owner")))) =
        some ([("owner", "owner")], true) := by decide +kernel
  rw [hv, Option.map_some, Option.some.injEq, Prod.mk.injEq] at hview
  obtain ⟨hparams, hreflects⟩ := hview
  have hsame : ∀ e ∈ v.sync.store.registry.params,
      (Params.parse (withoutMark "page=2&owner=ann")).value e.2 = before.params.value e.2 := by
    rw [hparams, List.forall_mem_singleton]
    decide +kernel
  have hunmoved : ∀ e ∈ v.sync.store.registry.params,
      v.sync.store.Unmoved e.1 (before.params.value e.2) := by
    rw [hparams, List.forall_mem_singleton]
    exact .inl (of_decide_eq_true hreflects)
  have hiff := (navigate_elsewhere_iff "" _ (by decide +kernel) hv hsame).1
  exact ⟨⟨by decide, by decide, by decide⟩, by decide +kernel, hiff.2 (.inr hunmoved)⟩

/-- A filter for orders without an owner and a list of tags with an empty item: when the host adds a
page, the first is removed and the second loses the item, and the navigation is written once more,
though both parameters read as before. -/
theorem navigate_elsewhere_disturbed :
    let owner := { FieldConfig.plain "Owner" .text with param := some "owner" }
    let tags := { FieldConfig.plain "Tags" .multiSelect with param := some "tags" }
    let t : Table := ⟨"orders", none, ⟨[("owner", owner), ("tags", tags)]⟩⟩
    let before := (start "").runs [.mount "orders" t none,
      .request 1 (.add "owner" (some .isEmpty) (.text "")),
      .request 1 (.add "tags" none (.list ["p", "", "q"]))]
    let after := before.run (.navigate "tags=p,,q&page=2")
    t.IsAccepted ∧ (∀ k ∈ (Synchronizer.ofTable t).ownKeys,
        (Params.parse "tags=p,,q&page=2").value k = before.params.value k) ∧
      (before.view? 1).map (fun v => v.sync.store.filters.map (·.condition.value)) =
        some [.text "", .list ["p", "", "q"]] ∧
      (after.view? 1).map (fun w => w.sync.store.filters.map (·.condition.value)) =
        some [.list ["p", "q"]] ∧
      after.query = "tags=p%2Cq&page=2" ∧
      after.navigation.writes = before.navigation.writes + 1 := by
  intro owner tags t before after
  exact ⟨⟨by decide, by decide, by decide⟩, by decide +kernel⟩

end Session

end TableFilter
