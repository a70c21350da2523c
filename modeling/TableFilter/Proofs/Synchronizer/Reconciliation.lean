import TableFilter.Proofs.Session.Undisturbed
import TableFilter.Proofs.Store.Edits

/-!
# What reconciling changes

Reconciling follows the parameters one after the other, and each of them may shift the filters that
the next one looks for. What it comes to is put together from two views of a step.

* Over the whole store a step carries filters over, in their order and with at most another value,
  and appends new ones (`Store.CarriedTo`), and steps compose.
* On one field only its own parameter counts (`Synchronizer.on_followAll_of_mem`). There it is
  known which filter may go (`Followed.of_gone`), which may come (`Followed.of_new`), that a
  value that is taken is had (`Followed.reflects`), and that a change is one of the conditions
  (`Followed.conditions_ne`).

So what is kept, removed, appended and said of a change can be told from the store and the
parameters before (`Synchronizer.reconcile_edited`).
-/

namespace TableFilter

/-- What a filter is known by: its id, its field and its operator. -/
def Filter.identity (f : Filter) : Nat × String × Operator :=
  (f.id, f.condition.field, f.condition.operator)

variable {f : Filter} {c : Condition} {field raw : String}

/-! ### Filters carried over -/

namespace Store

variable {s t u : Store}

/-- A store with the filters of another one carried over: the join is the same, those that are left
are in their order and are known by what they were, and new ones, with new ids, come after them. -/
structure CarriedTo (s t : Store) : Prop where
  join : t.join = s.join
  nextId : s.nextId ≤ t.nextId
  filters : ∃ kept added, t.filters = kept ++ added ∧
    (kept.map Filter.identity).Sublist (s.filters.map Filter.identity) ∧
    ∀ f ∈ added, s.nextId ≤ f.id

theorem CarriedTo.of_sublist (hjoin : t.join = s.join) (hid : t.nextId = s.nextId)
    (h : (t.filters.map Filter.identity).Sublist (s.filters.map Filter.identity)) :
    s.CarriedTo t :=
  ⟨hjoin, hid.ge, t.filters, [], (List.append_nil _).symm, h,
    fun _ hf => absurd hf List.not_mem_nil⟩

theorem carriedTo_refl (s : Store) : s.CarriedTo s := .of_sublist rfl rfl (.refl _)

theorem CarriedTo.trans (h : s.CarriedTo t) (h' : t.CarriedTo u) : s.CarriedTo u := by
  obtain ⟨kept, added, hfilters, hkept, hadded⟩ := h.filters
  obtain ⟨kept', added', hfilters', hkept', hadded'⟩ := h'.filters
  -- What the second store keeps it has kept of the first one or of what was added to that.
  rw [hfilters, List.map_append, List.sublist_append_iff] at hkept'
  obtain ⟨old, new, hsplit, hold, hnew⟩ := hkept'
  obtain ⟨olds, news, rfl, rfl, rfl⟩ := List.map_eq_append_iff.1 hsplit
  refine ⟨h'.join.trans h.join, h.nextId.trans h'.nextId, olds, news ++ added', ?_,
    hold.trans hkept, fun f hf => ?_⟩
  · rw [hfilters', List.append_assoc]
  rcases List.mem_append.1 hf with hf | hf
  · obtain ⟨g, hg, hidentity⟩ := List.mem_map.1 (hnew.subset (List.mem_map_of_mem hf))
    exact (hadded g hg).trans (congrArg Prod.fst hidentity).le
  · exact h.nextId.trans (hadded' f hf)

/-- A filter that is left is known by what it was. -/
theorem CarriedTo.identity_eq (h : s.CarriedTo t) (hs : s.Numbered) {g : Filter}
    (hf : f ∈ s.filters) (hg : g ∈ t.filters) (hid : g.id = f.id) : g.identity = f.identity := by
  obtain ⟨kept, added, hfilters, hkept, hadded⟩ := h.filters
  rw [hfilters, List.mem_append] at hg
  rcases hg with hg | hg
  · obtain ⟨e, he, hidentity⟩ := List.mem_map.1 (hkept.subset (List.mem_map_of_mem hg))
    have hsame : e.id = f.id := (congrArg Prod.fst hidentity).trans hid
    rw [← hidentity, hs.eq_of_id he hf hsame]
  · exact absurd (hid ▸ hadded g hg) (Nat.not_le.2 (hs.below f hf))

theorem carriedTo_remove (s : Store) (id : Nat) : s.CarriedTo (s.remove id).2 := by
  rcases s.remove_cases id with hsame | hremoved
  · rw [hsame]
    exact carriedTo_refl s
  · rw [hremoved]
    exact .of_sublist rfl rfl (List.filter_sublist.map _)

theorem carriedTo_push (s : Store) (c : Condition) : s.CarriedTo (s.push c).2 :=
  ⟨rfl, Nat.le_succ _, s.filters, [⟨s.nextId, c⟩], rfl, .refl _,
    List.forall_mem_singleton.2 le_rfl⟩

/-- A filter that is given another value is known by what it was. -/
theorem carriedTo_exchange (hs : s.Numbered) (hf : f ∈ s.filters)
    (hc : Filter.identity ⟨f.id, c⟩ = f.identity) :
    s.CarriedTo (bump { s with filters := exchange f.id c s.filters }) := by
  have hmap : (exchange f.id c s.filters).map Filter.identity =
      s.filters.map Filter.identity := by
    rw [exchange, List.map_map]
    refine List.map_congr_left fun g hg => ?_
    rw [Function.comp_apply]
    split
    · next hid =>
      obtain rfl := hs.eq_of_id hg hf hid
      exact hc
    · rfl
  exact .of_sublist rfl rfl (hmap ▸ .refl (exchange f.id c s.filters |>.map Filter.identity))

theorem mem_on (hf : f ∈ s.filters) : f ∈ s.on f.condition.field :=
  List.mem_filter.2 ⟨hf, beq_self_eq_true _⟩

theorem ids_on_subset (field : String) : (s.on field).map (·.id) ⊆ s.filters.map (·.id) :=
  (List.filter_sublist.map _).subset

/-- Whether a value is taken depends on the filters on the field only. -/
theorem takes_congr (hregistry : t.registry = s.registry) (hon : t.on field = s.on field) :
    t.Takes field raw ↔ s.Takes field raw := by
  unfold Takes taken
  rw [hregistry, ← head?_on, hon, head?_on]

theorem reflects_congr (hregistry : t.registry = s.registry) (hon : t.on field = s.on field) :
    t.Reflects field raw ↔ s.Reflects field raw := by
  unfold Reflects
  rw [hregistry, ← head?_on, hon, head?_on]

/-- The conditions on a field are those of its filters. -/
theorem conditions_on (s : Store) (field : String) :
    (s.on field).map (·.condition) = s.conditions.conditions.filter (·.field == field) := by
  rw [on, conditions, List.filter_map]
  rfl

end Store

/-! ### One parameter -/

namespace Synchronizer

open Store

variable {s t : Store} {changed : Bool} {p : Params} {param : String}
  {fields : List (String × String)}

namespace Followed

/-- What comes to a filter whose value is changed. -/
theorem exchanged {config : FieldConfig} (hs : s.Numbered) (hf : s.find? field = some f)
    (h : s.update f.id none (some (.ofParam config.variant raw)) = (.ok true, t)) :
    ∃ c, f.condition.updated s.registry none (some (.ofParam config.variant raw)) = .ok c ∧
      c ≠ f.condition ∧ s.CarriedTo t ∧
      t.on field = Store.exchange f.id c (s.on field) := by
  obtain ⟨hmem, -⟩ := find?_eq_some hf
  obtain ⟨c, hc, hne, rfl⟩ := update_eq_changed hs hmem h
  have hidentity : Filter.identity ⟨f.id, c⟩ = f.identity := by
    obtain ⟨config, -, heq⟩ := Condition.eq_of_updated hc
    rw [heq]
    rfl
  exact ⟨c, hc, hne, carriedTo_exchange hs hmem hidentity,
    on_exchange hs hmem (Condition.field_updated hc) field⟩

theorem carriedTo (h : Followed s field raw t changed) (hs : s.Numbered) : s.CarriedTo t := by
  cases h with
  | left => exact carriedTo_refl s
  | removed => exact carriedTo_remove s _
  | updated hf hraw hconfig h =>
    obtain ⟨c, -, -, hcarried, -⟩ := exchanged hs hf h
    exact hcarried
  | appended => exact carriedTo_push s _

/-- A value that the store does not take leaves the store. -/
theorem of_not_takes (h : Followed s field raw t changed) (hs : s.Numbered) (hraw : raw ≠ "")
    (htakes : ¬s.Takes field raw) : t = s := by
  cases h with
  | left => rfl
  | removed hf hempty => exact absurd hempty hraw
  | @updated f config t hf _ hconfig h =>
    obtain ⟨c, hc, -⟩ := exchanged hs hf h
    exact absurd ⟨config, c, hconfig, by rw [taken, hf]; exact hc⟩ htakes
  | @appended config c hf _ hconfig h =>
    exact absurd ⟨config, c, hconfig, by rw [taken, hf]; exact h⟩ htakes

/-- A store with a filter of the value that a text stands for reflects it. -/
theorem reflects_of_find? {config : FieldConfig} (hraw : raw ≠ "")
    (hconfig : t.registry.get? field = some config) (hf : t.find? field = some f)
    (hvalue : f.condition.value = .ofParam config.variant raw) : t.Reflects field raw := by
  rw [Reflects, hf, hconfig, if_neg (by simpa using hraw), Option.map_some, Option.map_some, hvalue]

/-- **A value that the store takes is had afterwards.** -/
theorem reflects (h : Followed s field raw t true) (hs : s.Numbered) (hraw : raw ≠ "") :
    t.Reflects field raw := by
  cases h with
  | removed hf hempty => exact absurd hempty hraw
  | @updated f config t hf _ hconfig h =>
    have hregistry := congrArg Prod.snd h ▸ registry_update s f.id none _
    obtain ⟨c, hc, -, -, hon⟩ := exchanged hs hf h
    refine reflects_of_find? (f := ⟨f.id, c⟩) hraw (hregistry.symm ▸ hconfig) ?_ ?_
    · rw [← head?_on, hon, on_eq_cons hf, Store.exchange, List.map_cons, if_pos rfl,
        List.head?_cons]
    · obtain ⟨other, -, rfl⟩ := Condition.eq_of_updated hc
      rfl
  | @appended config c hf _ hconfig h =>
    obtain ⟨rfl, hvalue⟩ := Registry.condition_eq_ok h
    refine reflects_of_find? (f := ⟨s.nextId, c⟩) hraw hconfig ?_ hvalue
    rw [← head?_on, on_push_self, on_eq_nil hf, List.nil_append, List.head?_cons]

/-- **Only the first filter on the field may go, and only if the value is empty.** -/
theorem of_gone (h : Followed s field raw t changed) (hs : s.Numbered) (hf : f ∈ s.on field)
    (hgone : f.id ∉ (t.on field).map (·.id)) : s.find? field = some f ∧ raw = "" := by
  cases h with
  | left => exact absurd (List.mem_map_of_mem hf) hgone
  | @removed g hg hraw =>
    rw [on_remove_first hs hg] at hgone
    rw [on_eq_cons hg, List.mem_cons] at hf
    rcases hf with rfl | hf
    · exact ⟨hg, hraw⟩
    · exact absurd (List.mem_map_of_mem hf) hgone
  | updated hg hraw hconfig h =>
    obtain ⟨c, -, -, -, hon⟩ := exchanged hs hg h
    rw [hon, ids_exchange] at hgone
    exact absurd (List.mem_map_of_mem hf) hgone
  | appended hg =>
    rw [on_eq_nil hg] at hf
    cases hf

/-- **A filter comes only where there was none,** under the default operator and as the registry
admits it. -/
theorem of_new (h : Followed s field raw t changed) (hs : s.Numbered) (hf : f ∈ t.on field)
    (hnew : f.id ∉ (s.on field).map (·.id)) :
    s.on field = [] ∧ t.on field = [f] ∧ raw ≠ "" ∧
      ∃ config, s.registry.get? field = some config ∧
        s.registry.condition field none (.ofParam config.variant raw) = .ok f.condition := by
  cases h with
  | left => exact absurd (List.mem_map_of_mem hf) hnew
  | removed hg =>
    rw [on_remove_first hs hg] at hf
    exact absurd (List.mem_map_of_mem (List.mem_of_mem_tail hf)) hnew
  | updated hg hraw hconfig h =>
    obtain ⟨c, -, -, -, hon⟩ := exchanged hs hg h
    have hid := List.mem_map_of_mem (f := (·.id)) hf
    rw [hon, ids_exchange] at hid
    exact absurd hid hnew
  | @appended config c hg hraw hconfig h =>
    obtain rfl := (Registry.condition_eq_ok h).1
    rw [on_push_self, on_eq_nil hg, List.nil_append] at hf ⊢
    obtain rfl := List.mem_singleton.1 hf
    exact ⟨rfl, rfl, hraw, config, hconfig, h⟩

/-- **A change is one of the conditions on the field.** -/
theorem conditions_ne (h : Followed s field raw t true) (hs : s.Numbered) :
    (t.on field).map (·.condition) ≠ (s.on field).map (·.condition) := by
  intro heq
  cases h with
  | removed hf =>
    rw [on_remove_first hs hf, on_eq_cons hf, List.tail_cons] at heq
    simpa using congrArg List.length heq
  | updated hf hraw hconfig h =>
    obtain ⟨c, -, hne, -, hon⟩ := exchanged hs hf h
    rw [hon] at heq
    exact map_condition_exchange_ne (List.mem_of_mem_head? (head?_on s field ▸ hf)) hne heq
  | @appended config c hf hraw hconfig h =>
    obtain rfl := (Registry.condition_eq_ok h).1
    rw [on_push_self] at heq
    simpa using congrArg List.length heq

end Followed

/-! ### All parameters -/

theorem carriedTo_followAll (hs : s.Numbered) (changed : Bool) :
    s.CarriedTo (followAll p fields (s, changed)).1 := by
  induction fields generalizing s changed with
  | nil => exact carriedTo_refl s
  | cons e rest ih =>
    have hstep := followed_follow s e.1 (p.value e.2)
    exact (hstep.carriedTo hs).trans (ih (hstep.kept kept_numbered hs) _)

/-- **What is said of a change is so on one of the fields.** -/
theorem followAll_changed (hs : s.Numbered) (hfields : (fields.map (·.1)).Nodup)
    (h : (followAll p fields (s, changed)).2 = true) :
    changed = true ∨ ∃ e ∈ fields, ((followAll p fields (s, changed)).1.on e.1).map (·.condition) ≠
      (s.on e.1).map (·.condition) := by
  induction fields generalizing s changed with
  | nil => exact .inl h
  | cons e rest ih =>
    rw [List.map_cons, List.nodup_cons] at hfields
    have hstep := followed_follow s e.1 (p.value e.2)
    have hnext := hstep.kept kept_numbered hs
    rw [followAll_cons] at h ⊢
    rcases ih hnext hfields.2 h with hchanged | ⟨g, hg, hne⟩
    · rw [Bool.or_eq_true] at hchanged
      refine hchanged.imp_right fun hmade => ⟨e, List.mem_cons_self, ?_⟩
      rw [on_followAll_of_notMem hnext hfields.1]
      exact (hmade ▸ hstep).conditions_ne hs
    · have hother : e.1 ≠ g.1 := fun he =>
        hfields.1 (he ▸ List.mem_map_of_mem (f := (·.1)) hg)
      refine .inr ⟨g, List.mem_cons_of_mem _ hg, ?_⟩
      rwa [hstep.on_of_ne hs hother] at hne

theorem followAll_congr {q : Params} (h : ∀ e ∈ fields, q.value e.2 = p.value e.2)
    (r : Store × Bool) : followAll q fields r = followAll p fields r := by
  induction fields generalizing r with
  | nil => rfl
  | cons e rest ih =>
    rw [List.forall_mem_cons] at h
    obtain ⟨store, changed⟩ := r
    rw [followAll_cons, followAll_cons, h.1]
    exact ih h.2 _

/-- **What is said of a change is so of the conditions.** -/
theorem reconcile_changed_iff (hs : s.Numbered) (hfields : (s.registry.fields.map (·.1)).Nodup) :
    (reconcile s p).2 = true ↔
      (reconcile s p).1.conditions.conditions ≠ s.conditions.conditions := by
  constructor
  · intro hchanged heq
    obtain hfalse | ⟨e, -, hne⟩ :=
      followAll_changed hs (Registry.nodup_fields_params hfields) hchanged
    · cases hfalse
    · rw [← reconcile, conditions_on, conditions_on, heq] at hne
      exact hne rfl
  · intro hne
    by_contra hunchanged
    rw [reconcile_eq_of_unchanged (by simpa using hunchanged)] at hne
    exact hne rfl

/-- **The filters on a field stay, or are reconciled with its parameter alone.** -/
theorem reconcile_cases (hs : s.Numbered) (hfields : (s.registry.fields.map (·.1)).Nodup)
    (p : Params) (field : String) :
    (reconcile s p).1.on field = s.on field ∨
      ∃ param before after changed, (field, param) ∈ s.registry.params ∧
        Followed before field (p.value param) after changed ∧ before.Numbered ∧
        before.registry = s.registry ∧ before.on field = s.on field ∧
        (reconcile s p).1.on field = after.on field := by
  by_cases hmem : field ∈ s.registry.params.map (·.1)
  · obtain ⟨⟨_, param⟩, hparam, rfl⟩ := List.mem_map.1 hmem
    obtain ⟨before, hnumbered, hregistry, hon, hafter⟩ :=
      on_followAll_of_mem p hs (Registry.nodup_fields_params hfields) hparam false
    exact .inr ⟨param, before, _, _, hparam, followed_follow before _ (p.value param), hnumbered,
      hregistry, hon, hafter⟩
  · exact .inl (on_followAll_of_notMem hs hmem false)

/-- **A filter goes exactly if it is the first one on its field and the parameter is empty.** -/
theorem gone_of_reconcile_iff (hs : s.Numbered) (hfields : (s.registry.fields.map (·.1)).Nodup)
    (hf : f ∈ s.filters) :
    f.id ∉ (reconcile s p).1.filters.map (·.id) ↔
      s.find? f.condition.field = some f ∧
        ∃ param, (f.condition.field, param) ∈ s.registry.params ∧ p.value param = "" := by
  constructor
  · intro hgone
    have hon := mem_on hf
    replace hgone := fun h => hgone (ids_on_subset f.condition.field h)
    obtain hsame | ⟨param, before, after, _, hparam, h, hnumbered, -, hbefore, hafter⟩ :=
      reconcile_cases hs hfields p f.condition.field
    · rw [hsame] at hgone
      exact absurd (List.mem_map_of_mem hon) hgone
    · rw [hafter] at hgone
      obtain ⟨hfirst, hempty⟩ := h.of_gone hnumbered (hbefore ▸ hon) hgone
      rw [← head?_on, hbefore, head?_on] at hfirst
      exact ⟨hfirst, param, hparam, hempty⟩
  · rintro ⟨hfirst, param, hparam, hempty⟩ hleft
    obtain ⟨g, hg, hid⟩ := List.mem_map.1 hleft
    have hidentity := (carriedTo_followAll hs false).identity_eq hs hf hg hid
    have hfield : g.condition.field = f.condition.field :=
      congrArg (fun i => i.2.1) hidentity
    -- The filters that are left on the field are the later ones, which have other ids.
    have hlater := mem_on hg
    rw [hfield, on_reconcile hs hfields hparam hempty] at hlater
    have hnodup : ((s.on f.condition.field).map (·.id)).Nodup :=
      hs.nodup.sublist (List.filter_sublist.map _)
    rw [on_eq_cons hfirst, List.map_cons, List.nodup_cons] at hnodup
    exact hnodup.1 (hid ▸ List.mem_map_of_mem hlater)

/-- A filter comes only where there was none, for a parameter that is not empty and as the registry
admits it. -/
theorem new_of_reconcile (hs : s.Numbered) (hfields : (s.registry.fields.map (·.1)).Nodup)
    (hf : f ∈ (reconcile s p).1.filters) (hnew : f.id ∉ s.filters.map (·.id)) :
    s.on f.condition.field = [] ∧ (reconcile s p).1.on f.condition.field = [f] ∧
      ∃ param config, (f.condition.field, param) ∈ s.registry.params ∧ p.value param ≠ "" ∧
        s.registry.get? f.condition.field = some config ∧
        f.condition.operator = config.defaultOperator ∧
        s.registry.condition f.condition.field none
          (.ofParam config.variant (p.value param)) = .ok f.condition := by
  have hon := mem_on hf
  replace hnew := fun h => hnew (ids_on_subset f.condition.field h)
  obtain hsame | ⟨param, before, after, _, hparam, h, hnumbered, hregistry, hbefore, hafter⟩ :=
    reconcile_cases hs hfields p f.condition.field
  · rw [hsame] at hon
    exact absurd (List.mem_map_of_mem hon) hnew
  · rw [hafter] at hon
    rw [← hbefore] at hnew
    obtain ⟨hnone, hone, hraw, config, hconfig, hc⟩ := h.of_new hnumbered hon hnew
    rw [hregistry] at hconfig hc
    refine ⟨hbefore ▸ hnone, hafter.trans hone, param, config, hparam, hraw, hconfig, ?_, hc⟩
    rw [Registry.condition, hconfig] at hc
    exact congrArg Condition.operator (FieldConfig.eq_of_condition hc)

/-- Where a value is not taken the filters on the field stay. -/
theorem on_reconcile_of_not_takes (hs : s.Numbered)
    (hfields : (s.registry.fields.map (·.1)).Nodup) (hparam : (field, param) ∈ s.registry.params)
    (hraw : p.value param ≠ "") (htakes : ¬s.Takes field (p.value param)) :
    (reconcile s p).1.on field = s.on field := by
  obtain ⟨before, hnumbered, hregistry, hbefore, hafter⟩ :=
    on_followAll_of_mem p hs (Registry.nodup_fields_params hfields) hparam false
  rw [← takes_congr hregistry hbefore] at htakes
  have hstep := followed_follow before field (p.value param)
  rw [reconcile, hafter, hstep.of_not_takes hnumbered hraw htakes, hbefore]

/-- A value that is taken is had afterwards. -/
theorem reflects_of_takes (hs : s.Numbered) (hfields : (s.registry.fields.map (·.1)).Nodup)
    (hparam : (field, param) ∈ s.registry.params) (hraw : p.value param ≠ "")
    (htakes : s.Takes field (p.value param)) :
    (reconcile s p).1.Reflects field (p.value param) := by
  obtain ⟨before, hnumbered, hregistry, hbefore, hafter⟩ :=
    on_followAll_of_mem p hs (Registry.nodup_fields_params hfields) hparam false
  rw [← takes_congr hregistry hbefore] at htakes
  have hsame : (reconcile s p).1.registry = (follow before field (p.value param)).1.registry := by
    rw [registry_reconcile, registry_follow, hregistry]
  rw [reflects_congr hsame hafter]
  have hstep := followed_follow before field (p.value param)
  rcases follow_spec hnumbered field (p.value param) with ⟨hunmoved, hkept⟩ | ⟨-, hmore⟩
  · rw [hkept]
    exact hunmoved.resolve_right fun h => h.2 htakes
  · cases hchanged : (follow before field (p.value param)).2 with
    | true => exact (hchanged ▸ hstep).reflects hnumbered hraw
    | false => exact absurd hmore (by rw [follow_eq_of_unchanged hchanged]; exact lt_irrefl _)

/-- **What reconciling changes,** for all stores that edits lead to. The join, the filters on the
fields of the compiled query, and the order and the identity of the filters that are left stay. A
filter goes exactly if it is the first one on its field and the parameter is empty. A filter comes
only on a field with a parameter and without filters, under the default operator and as the registry
admits it. A value that is taken is had afterwards, and where it is not taken the filters on the
field stay. The compiled query is not read, and a change is reported exactly if the conditions are
other ones afterwards. -/
theorem reconcile_edited {table : Table} (ht : table.IsAccepted) (es : List Edit) (p : Params) :
    let s := (Store.empty table.fields).edits es
    let t := (reconcile s p).1
    s.CarriedTo t ∧
      (∀ field, table.fields.isStandalone field = false → t.on field = s.on field) ∧
      (∀ f ∈ s.filters, ∀ g ∈ t.filters, g.id = f.id → g.identity = f.identity) ∧
      (∀ f ∈ s.filters, f.id ∉ t.filters.map (·.id) ↔
        s.find? f.condition.field = some f ∧
          ∃ param, (f.condition.field, param) ∈ table.fields.params ∧ p.value param = "") ∧
      (∀ f ∈ t.filters, f.id ∉ s.filters.map (·.id) →
        s.on f.condition.field = [] ∧ t.on f.condition.field = [f] ∧
        ∃ param config, (f.condition.field, param) ∈ table.fields.params ∧ p.value param ≠ "" ∧
          table.fields.get? f.condition.field = some config ∧
          f.condition.operator = config.defaultOperator ∧
          table.fields.condition f.condition.field none
            (.ofParam config.variant (p.value param)) = .ok f.condition) ∧
      (∀ field param, (field, param) ∈ table.fields.params → p.value param ≠ "" →
        (s.Takes field (p.value param) → t.Reflects field (p.value param)) ∧
        (¬s.Takes field (p.value param) → t.on field = s.on field)) ∧
      (∀ q : Params, (∀ k ≠ table.key, q.value k = p.value k) → reconcile s q = reconcile s p) ∧
      ((reconcile s p).2 = true ↔ t.conditions.conditions ≠ s.conditions.conditions) := by
  intro s t
  have hs : s.Numbered := kept_numbered.edits (numbered_empty table.fields) es
  have hregistry : s.registry = table.fields := registry_edits _ es
  have hids : (s.registry.fields.map (·.1)).Nodup := hregistry ▸ ht.ids
  have hcarried : s.CarriedTo t := carriedTo_followAll hs false
  have hkeys := ht.nodup_keys
  rw [← hregistry] at hkeys ⊢
  refine ⟨hcarried, fun field hfield => ?_, fun f hf g hg hid => hcarried.identity_eq hs hf hg hid,
    fun f hf => gone_of_reconcile_iff hs hids hf, fun f hf hnew => new_of_reconcile hs hids hf hnew,
    fun field param hparam hraw => ⟨reflects_of_takes hs hids hparam hraw,
      on_reconcile_of_not_takes hs hids hparam hraw⟩,
    fun q hq => followAll_congr (fun e he => hq e.2 ?_) _, reconcile_changed_iff hs hids⟩
  · obtain hsame | ⟨param, -, -, -, hparam, -⟩ := reconcile_cases hs hids p field
    · exact hsame
    · rw [Registry.isStandalone_of_mem_params hids hparam] at hfield
      cases hfield
  · rintro hkey
    exact (List.nodup_cons.1 hkeys).1 (hkey ▸ List.mem_map_of_mem he)

/-- Two owners, a range of amounts and a status; the host takes the owner away, asks for one amount,
and adds tags: the first owner goes, the range and the status stay, and the tags come last. -/
theorem reconcile_edited_orders :
    let owner := { FieldConfig.plain "Owner" .text with param := some "owner" }
    let amount := { FieldConfig.plain "Amount" .number with param := some "amount" }
    let tags := { FieldConfig.plain "Tags" .multiSelect with param := some "tags" }
    let table : Table := ⟨"orders", none, ⟨[("status", .plain "Status" .text), ("owner", owner),
      ("amount", amount), ("tags", tags)]⟩⟩
    let s := (Store.empty table.fields).edits [.add "owner" none (.text "ann"),
      .add "amount" (some .isBetween) (.list ["1", "5"]), .add "owner" none (.text "bob"),
      .add "status" none (.text "open")]
    let p := Params.parse "orders=x&amount=7&tags=a,b"
    let t := (reconcile s p).1
    table.IsAccepted ∧ t.on "status" = s.on "status" ∧ t.on "amount" = s.on "amount" ∧
      reconcile s (p.change ("orders", "y")) = reconcile s p ∧
      (reconcile s p).2 = true ∧ t.filters.map (·.id) = [2, 3, 4, 5] := by
  intro owner amount tags table s p t
  have ht : table.IsAccepted := ⟨by decide, by decide, by decide⟩
  obtain ⟨-, hcompiled, -, -, -, hvalues, hquery, hchanged⟩ := reconcile_edited ht _ p
  have htakes : ¬s.Takes "amount" (p.value "amount") := by
    have hconfig : s.registry.get? "amount" = some amount := by decide +kernel
    rw [takes_iff hconfig]
    rintro ⟨c, hc⟩
    have hnone : (s.taken "amount" (.ofParam .number (p.value "amount"))).toOption = none := by
      decide +kernel
    rw [show s.taken "amount" (.ofParam .number (p.value "amount")) = .ok c from hc] at hnone
    cases hnone
  refine ⟨ht, hcompiled "status" rfl,
    (hvalues "amount" "amount" (by decide) (by decide +kernel)).2 htakes,
    hquery _ fun k hk => ?_, hchanged.2 (by decide +kernel), by decide +kernel⟩
  exact (Params.value_change p ("orders", "y") k).trans (if_neg hk)

end Synchronizer

end TableFilter
