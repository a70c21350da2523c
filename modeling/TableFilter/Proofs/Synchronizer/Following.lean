import TableFilter.Proofs.Store.Identity
import TableFilter.Proofs.Synchronizer.Settling

/-!
# How a store follows the parameters

Reading the parameter of one field makes at most one change in the store, and that on a filter on
the field (`Synchronizer.Followed`). So the parameters of a table are followed independently
(`Synchronizer.on_followAll_of_mem`): where a field's parameter is empty, the first filter on the
field goes and the later ones stay (`Synchronizer.on_reconcile`).
-/

namespace TableFilter.Synchronizer

variable {store : Store} {field param raw : String}

/-- What following a parameter can come to: nothing; the first filter on the field removed, as the
value is empty; that filter's value changed; or a first filter on the field appended. -/
inductive Followed (s : Store) (field raw : String) : Store → Bool → Prop
  | left (h : raw = "" → s.find? field = none) : Followed s field raw s false
  | removed {f : Filter} (hf : s.find? field = some f) (hraw : raw = "") :
      Followed s field raw (s.remove f.id).2 true
  | updated {f : Filter} {config : FieldConfig} {t : Store} (hf : s.find? field = some f)
      (hraw : raw ≠ "") (hconfig : s.registry.get? field = some config)
      (h : s.update f.id none (some (.ofParam config.variant raw)) = (.ok true, t)) :
      Followed s field raw t true
  | appended {config : FieldConfig} {c : Condition} (hf : s.find? field = none) (hraw : raw ≠ "")
      (hconfig : s.registry.get? field = some config)
      (h : s.registry.condition field none (.ofParam config.variant raw) = .ok c) :
      Followed s field raw (s.push c).2 true

/-- **What following a parameter comes to,** with what it says of a change. -/
theorem followed_follow (store : Store) (field raw : String) :
    Followed store field raw (follow store field raw).1 (follow store field raw).2 := by
  by_cases hraw : raw = ""
  · subst hraw
    cases hf : store.find? field with
    | some f => simpa [follow, hf] using Followed.removed hf rfl
    | none => simpa [follow, hf] using Followed.left fun _ => hf
  have hempty : raw.isEmpty = false := by simpa using hraw
  have hleft : Followed store field raw store false := .left fun h => absurd h hraw
  cases hf : store.find? field with
  | none =>
    cases hc : paramCondition? store.registry field raw with
    | none => simpa [follow, hf, hempty, hc] using hleft
    | some c =>
      obtain ⟨-, config, hconfig, h⟩ := Registry.paramCondition?_eq_some hc
      simpa [follow, hf, hempty, hc] using Followed.appended hf hraw hconfig h
  | some f =>
    cases hconfig : store.registry.get? field with
    | none => simpa [follow, hf, hempty, hconfig] using hleft
    | some config =>
      simp only [follow, hf, hempty, hconfig, Bool.false_eq_true, if_false]
      split
      · exact hleft
      · cases hupdate : store.update f.id none (some (.ofParam config.variant raw)) with
        | mk result t =>
          have hkept : result ≠ .ok true → t = store := by
            simpa only [hupdate] using
              @Store.update_eq_self store f.id none (some (.ofParam config.variant raw))
          match result with
          | .ok true => exact .updated hf hraw hconfig hupdate
          | .ok false | .error e =>
            obtain rfl := hkept (by simp)
            exact hleft

namespace Followed

variable {t : Store} {changed : Bool}

theorem kept {P : Store → Prop} (h : Followed store field raw t changed) (hP : Store.Kept P)
    (hs : P store) : P t := by
  cases h with
  | left => exact hs
  | removed => exact hP.remove store _ hs
  | updated hf hraw hconfig h =>
    obtain rfl : _ = t := congrArg Prod.snd h
    exact hP.update store _ _ _ hs
  | appended => exact hP.push store _ hs

/-- Following the parameter of one field leaves the filters on the others alone. -/
theorem on_of_ne {other : String} (h : Followed store other raw t changed) (hs : store.Numbered)
    (hne : other ≠ field) : t.on field = store.on field := by
  cases h with
  | left => rfl
  | removed hf =>
    obtain ⟨hmem, hfield⟩ := Store.find?_eq_some hf
    exact Store.on_remove_of_ne hs hmem (hfield ▸ hne)
  | updated hf hraw hconfig h =>
    obtain ⟨hmem, hfield⟩ := Store.find?_eq_some hf
    obtain rfl : _ = t := congrArg Prod.snd h
    exact Store.on_update_of_ne hs hmem (hfield ▸ hne)
  | appended hf hraw hconfig h =>
    exact Store.on_push_of_ne ((Registry.condition_eq_ok h).1 ▸ hne)

end Followed

theorem kept_follow {P : Store → Prop} (hP : Store.Kept P) (h : P store) (field raw : String) :
    P (follow store field raw).1 := (followed_follow store field raw).kept hP h

theorem kept_followAll {P : Store → Prop} (hP : Store.Kept P) (h : P store) (params : Params)
    (fields : List (String × String)) (changed : Bool) :
    P (followAll params fields (store, changed)).1 := by
  induction fields generalizing store changed with
  | nil => exact h
  | cons e rest ih => exact ih (kept_follow hP h e.1 (params.value e.2)) _

/-- What the operations of a store keep is kept when the store follows the navigation. -/
theorem kept_reconcile {P : Store → Prop} (hP : Store.Kept P) (h : P store) (params : Params) :
    P (reconcile store params).1 :=
  kept_followAll hP h params store.registry.params false

@[simp] theorem registry_follow (store : Store) (field raw : String) :
    (follow store field raw).1.registry = store.registry := by
  have hfollowed := followed_follow store field raw
  generalize (follow store field raw).1 = t, (follow store field raw).2 = changed at hfollowed ⊢
  cases hfollowed with
  | left | appended => rfl
  | removed => exact Store.registry_remove store _
  | updated hf hraw hconfig h =>
    obtain rfl : _ = t := congrArg Prod.snd h
    exact Store.registry_update store _ _ _

/-- Following an empty parameter removes the first filter on its field. -/
theorem on_follow_empty (h : store.Numbered) (field : String) :
    (follow store field "").1.on field = (store.on field).tail := by
  have hfollowed := followed_follow store field ""
  generalize (follow store field "").1 = t, (follow store field "").2 = changed at hfollowed ⊢
  cases hfollowed with
  | left hnone => rw [Store.on_eq_nil (hnone rfl), List.tail_nil]
  | removed hf => exact Store.on_remove_first h hf
  | updated hf hne | appended hf hne => exact absurd rfl hne

theorem followAll_cons (params : Params) (e : String × String) (rest : List (String × String))
    (store : Store) (changed : Bool) :
    followAll params (e :: rest) (store, changed) =
      followAll params rest ((follow store e.1 (params.value e.2)).1,
        changed || (follow store e.1 (params.value e.2)).2) := rfl

theorem registry_followAll (params : Params) (fields : List (String × String))
    (r : Store × Bool) : (followAll params fields r).1.registry = r.1.registry := by
  induction fields generalizing r with
  | nil => rfl
  | cons e rest ih => exact (ih _).trans (registry_follow r.1 e.1 (params.value e.2))

@[simp] theorem registry_reconcile (store : Store) (params : Params) :
    (reconcile store params).1.registry = store.registry :=
  registry_followAll params store.registry.params (store, false)

theorem on_followAll_of_notMem {params : Params} {fields : List (String × String)}
    (h : store.Numbered) (hf : field ∉ fields.map (·.1)) (changed : Bool) :
    (followAll params fields (store, changed)).1.on field = store.on field := by
  induction fields generalizing store changed with
  | nil => rfl
  | cons e rest ih =>
    rw [List.map_cons, List.mem_cons, not_or] at hf
    rw [followAll_cons, ih (kept_follow Store.kept_numbered h e.1 (params.value e.2)) hf.2]
    exact (followed_follow store e.1 _).on_of_ne h (Ne.symm hf.1)

/-- **Where the parameters of several fields are followed each has its own effect:** it is followed
in a store that has the filters on its field as they were, and nobody changes them afterwards. -/
theorem on_followAll_of_mem (params : Params) {fields : List (String × String)}
    (h : store.Numbered) (hfields : (fields.map (·.1)).Nodup) (hf : (field, param) ∈ fields)
    (changed : Bool) :
    ∃ s : Store, s.Numbered ∧ s.registry = store.registry ∧ s.on field = store.on field ∧
      (followAll params fields (store, changed)).1.on field =
        (follow s field (params.value param)).1.on field := by
  induction fields generalizing store changed with
  | nil => cases hf
  | cons e rest ih =>
    rw [List.map_cons, List.nodup_cons] at hfields
    have hnext := kept_follow Store.kept_numbered h e.1 (params.value e.2)
    rcases List.mem_cons.1 hf with rfl | hrest
    · exact ⟨store, h, rfl, rfl, on_followAll_of_notMem hnext hfields.1 _⟩
    · have hne : e.1 ≠ field := fun he =>
        hfields.1 (he ▸ List.mem_map_of_mem (f := (·.1)) hrest)
      obtain ⟨s, hs, hregistry, hon, hafter⟩ := ih hnext hfields.2 hrest
        (changed || (follow store e.1 (params.value e.2)).2)
      exact ⟨s, hs, hregistry.trans (registry_follow store e.1 _),
        hon.trans ((followed_follow store e.1 _).on_of_ne h hne), hafter⟩

/-- **Reconciling with an empty parameter takes the first filter on its field away,** and no other
on it. -/
theorem on_reconcile (h : store.Numbered) {params : Params}
    (hfields : (store.registry.fields.map (·.1)).Nodup)
    (hparam : (field, param) ∈ store.registry.params) (hempty : params.value param = "") :
    (reconcile store params).1.on field = (store.on field).tail := by
  obtain ⟨s, hs, -, hon, hafter⟩ :=
    on_followAll_of_mem params h (Registry.nodup_fields_params hfields) hparam false
  rw [reconcile, hafter, hempty, on_follow_empty hs, hon]

end TableFilter.Synchronizer
