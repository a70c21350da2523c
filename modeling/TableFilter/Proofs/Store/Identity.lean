import Mathlib.Data.List.Nodup
import TableFilter.Proofs.Synchronizer.Output

/-!
# The filters of a store

Filters go by their ids: the ids of a store are distinct and below the next one to be given out
(`Store.Numbered`), and every operation keeps them so (`Store.kept_numbered`) and leaves the fields
alone. Hence a change of one filter leaves the filters on other fields alone
(`Store.on_update_of_ne`, `Store.on_remove_of_ne`), and removing the first filter on a field leaves
the later ones on it (`Store.on_remove_first`).
-/

namespace TableFilter

theorem Condition.field_updated {c d : Condition} {r : Registry} {operator : Option Operator}
    {value : Option Value} (h : c.updated r operator value = .ok d) : d.field = c.field := by
  obtain ⟨config, -, rfl⟩ := eq_of_updated h
  rfl

namespace Store

/-- A property of stores that the operations keep. -/
structure Kept (P : Store → Prop) : Prop where
  empty : ∀ r, P (.empty r)
  push : ∀ s c, P s → P (s.push c).2
  update : ∀ s id operator value, P s → P (s.update id operator value).2
  remove : ∀ s id, P s → P (s.remove id).2
  setJoin : ∀ s join, P s → P (s.setJoin join).2
  replace : ∀ s cs, P s → P (s.replace cs).2

/-- The ids of the filters are distinct, and the next one is not among them. -/
structure Numbered (s : Store) : Prop where
  nodup : (s.filters.map (·.id)).Nodup
  below : ∀ f ∈ s.filters, f.id < s.nextId

/-- The filters on a field, in order. -/
def on (s : Store) (field : String) : List Filter :=
  s.filters.filter fun f => f.condition.field == field

variable {s : Store} {f g : Filter} {c : Condition} {id : Nat} {field : String}
  {operator : Option Operator} {value : Option Value}

/-- The first filter on a field. -/
theorem head?_on (s : Store) (field : String) : (s.on field).head? = s.find? field :=
  List.head?_filter

theorem get?_eq_some (h : s.get? id = some f) : f ∈ s.filters ∧ f.id = id :=
  ⟨List.mem_of_find?_eq_some h, by simpa using List.find?_some h⟩

theorem find?_eq_some (h : s.find? field = some f) : f ∈ s.filters ∧ f.condition.field = field :=
  ⟨List.mem_of_find?_eq_some h, by simpa using List.find?_some h⟩

/-- No two filters have the same id. -/
theorem Numbered.eq_of_id (h : s.Numbered) (hf : f ∈ s.filters) (hg : g ∈ s.filters)
    (he : f.id = g.id) : f = g :=
  List.inj_on_of_nodup_map h.nodup hf hg he

theorem Numbered.get?_id (h : s.Numbered) (hf : f ∈ s.filters) : s.get? f.id = some f := by
  cases hg : s.get? f.id with
  | none =>
    rw [get?, List.find?_eq_none] at hg
    exact absurd (beq_self_eq_true f.id) (hg f hf)
  | some g =>
    obtain ⟨hmem, hid⟩ := get?_eq_some hg
    rw [h.eq_of_id hmem hf hid]

/-! ### What the operations come to -/

/-- A change of a filter is refused, or changes nothing, or exchanges its condition for one on the
same field. -/
theorem update_cases (s : Store) (id : Nat) (operator : Option Operator) (value : Option Value) :
    (s.update id operator value).2 = s ∨
      ∃ f c, s.get? id = some f ∧ c.field = f.condition.field ∧
        (s.update id operator value).2 = bump { s with filters := exchange id c s.filters } := by
  unfold update
  split
  · exact .inl rfl
  · next f hf =>
    split
    · exact .inl rfl
    · next c hc =>
      split
      · exact .inl rfl
      · exact .inr ⟨f, c, hf, Condition.field_updated hc, rfl⟩

/-- A change of a filter leaves the store unless it says that there was one. -/
theorem update_eq_self (h : (s.update id operator value).1 ≠ .ok true) :
    (s.update id operator value).2 = s := by
  unfold update at h ⊢
  split
  · rfl
  · next f hf =>
    rw [hf] at h
    dsimp only at h ⊢
    split
    · rfl
    · next c hc =>
      rw [hc] at h
      split
      · rfl
      · next hne => exact absurd (congrArg Prod.fst (if_neg hne)) h

/-- A change that there was exchanges the condition of the filter for the changed one. -/
theorem update_eq_changed {t : Store} (hs : s.Numbered) (hf : f ∈ s.filters)
    (h : s.update f.id operator value = (.ok true, t)) :
    ∃ c, f.condition.updated s.registry operator value = .ok c ∧ c ≠ f.condition ∧
      t = bump { s with filters := exchange f.id c s.filters } := by
  rw [update, hs.get?_id hf] at h
  dsimp only at h
  split at h
  · cases h
  · next c hc =>
    split at h
    · cases h
    · next hne =>
      cases h
      exact ⟨c, hc, hne, rfl⟩

theorem remove_of_mem (h : s.Numbered) (hf : f ∈ s.filters) :
    (s.remove f.id).2 = bump { s with filters := s.filters.filter (·.id ≠ f.id) } := by
  rw [remove, h.get?_id hf]

theorem remove_cases (s : Store) (id : Nat) :
    (s.remove id).2 = s ∨
      (s.remove id).2 = bump { s with filters := s.filters.filter (·.id ≠ id) } := by
  unfold remove
  split
  · exact .inl rfl
  · exact .inr rfl

theorem ids_exchange (id : Nat) (c : Condition) (filters : List Filter) :
    (exchange id c filters).map (·.id) = filters.map (·.id) := by
  rw [exchange, List.map_map]
  refine List.map_congr_left fun f _ => ?_
  simp only [Function.comp_apply]
  split <;> rfl

theorem ids_number (id : Nat) (cs : List Condition) :
    (number id cs).map (·.id) = List.range' id cs.length := by
  induction cs generalizing id with
  | nil => rfl
  | cons c cs ih => rw [number, List.map_cons, ih, List.length_cons, List.range'_succ]

/-- A condition exchanged for another one is a change of the conditions. -/
theorem map_condition_exchange_ne {filters : List Filter} (hf : f ∈ filters)
    (hne : c ≠ f.condition) :
    (exchange f.id c filters).map (·.condition) ≠ filters.map (·.condition) := by
  intro heq
  rw [exchange, List.map_map, List.map_inj_left] at heq
  have hc := heq f hf
  rw [Function.comp_apply, if_pos rfl] at hc
  exact hne hc

/-! ### Fields stay -/

section Fields

variable (s)

@[simp] theorem registry_push (c : Condition) : (s.push c).2.registry = s.registry := rfl

@[simp] theorem registry_add (field : String) (operator : Option Operator) (value : Value) :
    (s.add field operator value).2.registry = s.registry := by
  unfold add
  split <;> rfl

@[simp] theorem registry_update (id : Nat) (operator : Option Operator) (value : Option Value) :
    (s.update id operator value).2.registry = s.registry := by
  unfold update
  split
  · rfl
  split
  · rfl
  split <;> rfl

@[simp] theorem registry_remove (id : Nat) : (s.remove id).2.registry = s.registry := by
  unfold remove
  split <;> rfl

@[simp] theorem registry_setJoin (join : Join) : (s.setJoin join).2.registry = s.registry := by
  unfold setJoin
  split <;> rfl

@[simp] theorem registry_clear : s.clear.2.registry = s.registry := registry_replace s _

end Fields

/-! ### Ids stay distinct -/

theorem numbered_empty (r : Registry) : (empty r).Numbered :=
  ⟨List.nodup_nil, fun _ hf => (List.not_mem_nil hf).elim⟩

theorem Numbered.push (h : s.Numbered) (c : Condition) : (s.push c).2.Numbered where
  nodup := by
    change ((s.filters ++ [Filter.mk s.nextId c]).map Filter.id).Nodup
    rw [List.map_append, List.nodup_append]
    refine ⟨h.nodup, List.nodup_singleton _, fun a ha b hb => ?_⟩
    obtain ⟨f, hf, rfl⟩ := List.mem_map.1 ha
    rw [List.mem_singleton.1 hb]
    exact Nat.ne_of_lt (h.below f hf)
  below := fun f hf => by
    change f.id < s.nextId + 1
    rcases List.mem_append.1 hf with hf | hf
    · exact Nat.lt_succ_of_lt (h.below f hf)
    · rw [List.mem_singleton.1 hf]
      exact Nat.lt_succ_self _

/-- Filters of the same ids are as well numbered. -/
theorem Numbered.of_ids {filters : List Filter} (h : s.Numbered)
    (hids : filters.map (·.id) = s.filters.map (·.id)) :
    (bump { s with filters := filters }).Numbered where
  nodup := hids ▸ h.nodup
  below := fun f hf => by
    have hmem : f.id ∈ s.filters.map (·.id) := hids ▸ List.mem_map_of_mem hf
    obtain ⟨g, hg, hid⟩ := List.mem_map.1 hmem
    exact hid ▸ h.below g hg

theorem Numbered.update (h : s.Numbered) (id : Nat) (operator : Option Operator)
    (value : Option Value) : (s.update id operator value).2.Numbered := by
  rcases s.update_cases id operator value with hsame | ⟨f, c, -, -, hchanged⟩
  · rwa [hsame]
  · rw [hchanged]
    exact h.of_ids (ids_exchange id c s.filters)

theorem Numbered.remove (h : s.Numbered) (id : Nat) : (s.remove id).2.Numbered := by
  rcases s.remove_cases id with hsame | hremoved
  · rwa [hsame]
  · rw [hremoved]
    exact ⟨h.nodup.sublist (List.filter_sublist.map _),
      fun f hf => h.below f (List.mem_of_mem_filter hf)⟩

theorem Numbered.setJoin (h : s.Numbered) (join : Join) : (s.setJoin join).2.Numbered := by
  unfold Store.setJoin
  split
  · exact h
  · exact ⟨h.nodup, h.below⟩

/-- New filters have new ids, whatever those of the old ones. -/
theorem numbered_replace (s : Store) (cs : Conditions) : (s.replace cs).2.Numbered := by
  have hfilled : Numbered { s with
      filters := number s.nextId cs.conditions
      join := cs.join
      nextId := s.nextId + cs.conditions.length } := by
    refine ⟨?_, fun f hf => ?_⟩
    · rw [ids_number]
      exact List.nodup_range'
    · have hmem : f.id ∈ (number s.nextId cs.conditions).map (·.id) := List.mem_map_of_mem hf
      rw [ids_number, List.mem_range'_1] at hmem
      exact hmem.2
  unfold replace
  dsimp only
  split
  · exact hfilled
  · exact ⟨hfilled.nodup, hfilled.below⟩

/-- **Every operation keeps the ids distinct.** -/
theorem kept_numbered : Kept Numbered where
  empty := numbered_empty
  push := fun _ c h => h.push c
  update := fun _ id operator value h => h.update id operator value
  remove := fun _ id h => h.remove id
  setJoin := fun _ join h => h.setJoin join
  replace := fun s cs _ => s.numbered_replace cs

theorem Kept.add {P : Store → Prop} (hP : Kept P) (h : P s) (field : String)
    (operator : Option Operator) (value : Value) : P (s.add field operator value).2 := by
  unfold Store.add
  split
  · next c _ => exact hP.push s c h
  · exact h

/-! ### Filters on one field -/

theorem on_eq_nil (hf : s.find? field = none) : s.on field = [] := by
  rwa [← List.head?_eq_none_iff, head?_on]

theorem on_eq_cons (hf : s.find? field = some f) : s.on field = f :: (s.on field).tail := by
  rw [← head?_on, List.head?_eq_some_iff] at hf
  obtain ⟨rest, hrest⟩ := hf
  rw [hrest, List.tail_cons]

theorem on_push_self (s : Store) (c : Condition) :
    (s.push c).2.on c.field = s.on c.field ++ [⟨s.nextId, c⟩] := by
  change (s.filters ++ [Filter.mk s.nextId c]).filter _ = _
  rw [List.filter_append, List.filter_cons_of_pos (by simp), List.filter_nil]
  rfl

theorem on_push_of_ne (h : c.field ≠ field) : (s.push c).2.on field = s.on field := by
  change (s.filters ++ [Filter.mk s.nextId c]).filter _ = s.filters.filter _
  rw [List.filter_append, List.filter_cons_of_neg (by simpa using h), List.filter_nil,
    List.append_nil]

/-- Exchanging a condition for one on its field exchanges it among the filters on any field. -/
theorem on_exchange (hs : s.Numbered) (hf : f ∈ s.filters) (hc : c.field = f.condition.field)
    (field : String) :
    (bump { s with filters := exchange f.id c s.filters }).on field =
      exchange f.id c (s.on field) := by
  change (exchange f.id c s.filters).filter _ = exchange f.id c (s.filters.filter _)
  rw [exchange, exchange, List.filter_map]
  refine congrArg (List.map _) (List.filter_congr fun g hg => ?_)
  rw [Function.comp_apply]
  split
  · next hid => rw [hs.eq_of_id hg hf hid, hc]
  · rfl

/-- Exchanging a condition for one on its field leaves the filters on other fields alone. -/
theorem on_update_of_ne (h : s.Numbered) (hf : f ∈ s.filters) (hne : f.condition.field ≠ field) :
    (s.update f.id operator value).2.on field = s.on field := by
  rcases s.update_cases f.id operator value with hsame | ⟨g, c, hg, hfield, hchanged⟩
  · rw [hsame]
  · obtain rfl : f = g := by
      rw [h.get?_id hf] at hg
      exact Option.some.inj hg
    rw [hchanged, on_exchange h hf hfield]
    refine (List.map_congr_left fun g hg => ?_).trans (List.map_id _)
    obtain ⟨hmem, hon⟩ := List.mem_filter.1 hg
    split
    · next hid =>
      rw [h.eq_of_id hmem hf hid] at hon
      exact absurd (by simpa using hon) hne
    · rfl

/-- Removing a filter leaves the filters on other fields alone. -/
theorem on_remove_of_ne (h : s.Numbered) (hf : f ∈ s.filters) (hne : f.condition.field ≠ field) :
    (s.remove f.id).2.on field = s.on field := by
  rw [remove_of_mem h hf]
  change (s.filters.filter _).filter _ = s.filters.filter _
  rw [List.filter_filter]
  refine List.filter_congr fun g hg => ?_
  by_cases hid : g.id = f.id
  · rw [h.eq_of_id hg hf hid]
    simp [hne]
  · simp [hid]

/-- **Removing the first filter on a field leaves the later ones on it.** -/
theorem on_remove_first (h : s.Numbered) (hf : s.find? field = some f) :
    (s.remove f.id).2.on field = (s.on field).tail := by
  obtain ⟨hmem, -⟩ := find?_eq_some hf
  have hon := on_eq_cons hf
  have hnodup : ((s.on field).map (·.id)).Nodup :=
    h.nodup.sublist (List.filter_sublist.map _)
  rw [hon, List.map_cons, List.nodup_cons] at hnodup
  rw [remove_of_mem h hmem]
  change (s.filters.filter _).filter _ = (s.on field).tail
  rw [List.filter_comm]
  change (s.on field).filter _ = _
  rw [hon, List.filter_cons_of_neg (by simp), List.tail_cons, List.filter_eq_self]
  intro g hg
  have hne : g.id ≠ f.id := fun he => hnodup.1 (he ▸ List.mem_map_of_mem hg)
  simpa using hne

end Store

end TableFilter
