import TableFilter.Proofs.Synchronizer.Commitment
import TableFilter.Proofs.Table.Accepted

/-!
# What an output shows

The output of a table is a patch. Whether parameters show it is a matter of the conditions in the
store alone (`Synchronizer.shows_output_iff`): under the table's key they must show what the
conditions compile to, and under the parameter of a field's own what the first condition on it says.
-/

namespace TableFilter

namespace Conditions

/-- The parameter text that conditions give to a field: that of the first one on it. -/
def paramText (cs : Conditions) (field : String) : String :=
  match cs.conditions.find? fun c => c.field == field with
  | some c => c.value.toParam
  | none => ""

end Conditions

namespace Table

/-- Whether the parameters show what conditions say. -/
structure Shows (t : Table) (p : Params) (cs : Conditions) : Prop where
  key : p.value t.key = cs.text t.fields
  own : ∀ e ∈ t.fields.params, p.value e.2 = cs.paramText e.1

end Table

/-! ### What the output shows -/

namespace Store

theorem map_condition_number (id : Nat) (cs : List Condition) :
    (number id cs).map (·.condition) = cs := by
  induction cs generalizing id with
  | nil => rfl
  | cons c cs ih => rw [number, List.map_cons, ih]

theorem conditions_replace (s : Store) (cs : Conditions) : (s.replace cs).2.conditions = cs := by
  have hfilled : (number s.nextId cs.conditions).map (·.condition) = cs.conditions :=
    map_condition_number s.nextId cs.conditions
  unfold replace
  dsimp only
  split <;> rw [conditions] <;> exact congrArg (Conditions.mk · cs.join) hfilled

theorem registry_replace (s : Store) (cs : Conditions) :
    (s.replace cs).2.registry = s.registry := by
  unfold replace
  dsimp only
  split <;> rfl

end Store

namespace Synchronizer

theorem paramText_eq (store : Store) (field : String) :
    paramText store field = store.conditions.paramText field := by
  rw [paramText, Conditions.paramText, Store.conditions, Store.find?, List.find?_map]
  unfold Function.comp
  cases store.filters.find? fun f => f.condition.field == field <;> rfl

theorem find?_param {params : List (String × String)} (h : (params.map (·.2)).Nodup)
    {e : String × String} (he : e ∈ params) : params.find? (fun f => f.2 == e.2) = some e := by
  induction params with
  | nil => cases he
  | cons f rest ih =>
    rw [List.map_cons, List.nodup_cons] at h
    rw [List.find?_cons]
    rcases List.mem_cons.1 he with rfl | hr
    · rw [beq_self_eq_true]
    · have hne : f.2 ≠ e.2 := fun heq => h.1 (heq ▸ List.mem_map_of_mem hr)
      rw [beq_false_of_ne hne]
      exact ih h.2 hr

theorem get?_foldl_set {params : List (String × String)} (h : (params.map (·.2)).Nodup)
    (f : String → String) (base : Patch) (k : String) :
    (params.foldl (fun p e => p.set e.2 (f e.1)) base).get? k =
      match params.find? fun e => e.2 == k with
      | some e => some (f e.1)
      | none => base.get? k := by
  induction params generalizing base with
  | nil => rfl
  | cons e rest ih =>
    rw [List.map_cons, List.nodup_cons] at h
    rw [List.foldl_cons, ih h.2, List.find?_cons, Patch.get?_set]
    by_cases hk : e.2 = k
    · have hnone : rest.find? (fun e => e.2 == k) = none := by
        rw [List.find?_eq_none]
        intro g hg hkey
        exact h.1 (List.mem_map.2 ⟨g, hg, (by simpa using hkey : g.2 = k).trans hk.symm⟩)
      rw [hnone, if_pos hk.symm, beq_iff_eq.2 hk]
    · rw [if_neg (Ne.symm hk), beq_false_of_ne hk]

theorem nodup_output (s : Synchronizer) : (s.output.entries.map (·.1)).Nodup :=
  Patch.nodup_foldl_set s.store.registry.params (fun e => (e.2, paramText s.store e.1))
    (Keyed.nodup_keys_put List.nodup_nil)

/-- What an output says of the parameter of a field's own. -/
theorem get?_output_param {s : Synchronizer} (h : (s.store.registry.params.map (·.2)).Nodup)
    {e : String × String} (he : e ∈ s.store.registry.params) :
    s.output.get? e.2 = some (paramText s.store e.1) := by
  rw [output, get?_foldl_set h, find?_param h he]

variable {t : Table}

/-- **Parameters show the output of a table exactly when they show its conditions.** -/
theorem shows_output_iff (ht : t.IsAccepted) {s : Synchronizer} (hkey : s.key = t.key)
    (hfields : s.store.registry = t.fields) (p : Params) :
    p.shows s.output = true ↔ t.Shows p s.store.conditions := by
  have hkeys := List.nodup_cons.1 ht.nodup_keys
  have hget (k : String) : s.output.get? k =
      match t.fields.params.find? fun e => e.2 == k with
      | some e => some (s.store.conditions.paramText e.1)
      | none => if k = t.key then some (s.store.conditions.text t.fields) else none := by
    rw [output, hfields, hkey]
    simp only [paramText_eq]
    rw [get?_foldl_set hkeys.2, Patch.get?_set]
    rfl
  rw [Params.shows_iff s.nodup_output]
  constructor
  · intro hshows
    refine ⟨hshows _ _ ?_, fun e he => hshows _ _ ?_⟩
    -- The key of the query is no field's parameter, so what was set first has stayed.
    · have hnone : t.fields.params.find? (fun e => e.2 == t.key) = none := by
        rw [List.find?_eq_none]
        intro e he hk
        exact hkeys.1 (List.mem_map.2 ⟨e, he, by simpa using hk⟩)
      rw [hget, hnone]
      exact if_pos rfl
    · rw [hget, find?_param hkeys.2 he]
  · intro hshows k v hk
    rw [hget] at hk
    split at hk
    · next e he =>
      cases hk
      have hparam : e.2 = k := by simpa using List.find?_some he
      exact hparam ▸ hshows.own e (List.mem_of_find?_eq_some he)
    · split at hk
      · next hkey =>
        cases hk
        rw [hkey]
        exact hshows.key
      · cases hk

end Synchronizer

end TableFilter
