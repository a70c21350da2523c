import TableFilter.Proofs.Store.Identity
import TableFilter.Proofs.Synchronizer.Ownership

/-!
# Edits of a store

What the operations of a store have in common, over whole runs of them. What an edit can come to is
said once (`Store.Edited`); everything else is read off that.

* The revision counts the changes: it grows by one where the conditions or the join are other ones
  afterwards, and the reply says the same (`Edited.revision_eq`, `Edited.reply_changed`). New ids
  are no change.
* What is asked of one filter leaves the others and their order alone (`onlyAt_exchange`), and what
  the store admits fits the fields (`Registry.Admits`).
* A refused edit leaves the store (`edit_of_refused`).
-/

namespace TableFilter

/-! ### What fits the fields -/

/-- A condition fits the fields: it has the variant of its field, an operator in force there, and a
value of the shape that these expect. -/
structure FieldConfig.Admits (config : FieldConfig) (c : Condition) : Prop where
  variant : c.variant = config.variant
  operator : config.allows c.operator = true
  shape : ∀ shape, Shape.expected? c.variant c.operator = some shape → c.value.shape = shape

/-- A condition is on a declared field and fits it. -/
def Registry.Admits (r : Registry) (c : Condition) : Prop :=
  ∃ config, r.get? c.field = some config ∧ config.Admits c

theorem FieldConfig.admits_of_condition {config : FieldConfig} {field : String}
    {operator : Operator} {value : Value} {c : Condition}
    (h : config.condition field operator value = .ok c) : config.Admits c := by
  obtain ⟨rfl, hallows, hshape⟩ := condition_eq_ok_iff.1 h
  exact ⟨rfl, hallows, hshape⟩

/-- What a registry admits is what it was asked for, and fits. -/
theorem Registry.admits_of_condition {r : Registry} {field : String} {operator : Option Operator}
    {value : Value} {c : Condition} (h : r.condition field operator value = .ok c) :
    r.Admits c ∧ c.field = field ∧ c.value = value ∧ ∀ op ∈ operator, c.operator = op := by
  unfold condition at h
  split at h
  · next config hconfig =>
    have hadmits := FieldConfig.admits_of_condition h
    obtain rfl := FieldConfig.eq_of_condition h
    refine ⟨⟨config, hconfig, hadmits⟩, rfl, rfl, fun op hop => ?_⟩
    rw [Option.mem_def.1 hop, Option.getD_some]
  · cases h

theorem Condition.admits_of_updated {c d : Condition} {r : Registry} {operator : Option Operator}
    {value : Option Value} (h : c.updated r operator value = .ok d) : r.Admits d := by
  obtain ⟨config, hconfig, rfl⟩ := eq_of_updated h
  unfold updated at h
  rw [hconfig] at h
  exact ⟨config, hconfig, FieldConfig.admits_of_condition h⟩

/-! ### Edits -/

/-- What can be done to a store. -/
inductive Edit where
  | add (field : String) (operator : Option Operator) (value : Value)
  | push (c : Condition)
  | update (id : Nat) (operator : Option Operator) (value : Option Value)
  | remove (id : Nat)
  | setJoin (join : Join)
  | replace (cs : Conditions)
  | clear
  deriving DecidableEq, Repr

/-- What a store replies to an edit: the id of a new filter, whether something changed, the filter
that is gone, or an error. -/
inductive Reply where
  | added (id : Nat)
  | changed (changed : Bool)
  | removed (f : Filter)
  | refused (e : FilterError)
  deriving DecidableEq, Repr

/-- A result as a reply. -/
def Reply.ofResult {α : Type} (reply : α → Reply) : Except FilterError α → Reply
  | .ok a => reply a
  | .error e => .refused e

namespace Store

/-- The reply to an edit, and the store after it. -/
def edit (s : Store) : Edit → Reply × Store
  | .add field operator value =>
    let (result, t) := s.add field operator value
    (.ofResult .added result, t)
  | .push c => let (id, t) := s.push c; (.added id, t)
  | .update id operator value =>
    let (result, t) := s.update id operator value
    (.ofResult .changed result, t)
  | .remove id => let (result, t) := s.remove id; (.ofResult .removed result, t)
  | .setJoin join => let (changed, t) := s.setJoin join; (.changed changed, t)
  | .replace cs => let (changed, t) := s.replace cs; (.changed changed, t)
  | .clear => let (changed, t) := s.clear; (.changed changed, t)

/-- The store after edits. -/
def edits (s : Store) (es : List Edit) : Store := es.foldl (fun s e => (s.edit e).2) s

/-- What an edit can come to. -/
inductive Edited (s : Store) : Edit → Reply → Store → Prop
  | unfitting {field : String} {operator : Option Operator} {value : Value} {error : FilterError}
      (h : s.registry.condition field operator value = .error error) :
      Edited s (.add field operator value) (.refused error) s
  | added {field : String} {operator : Option Operator} {value : Value} {c : Condition}
      (h : s.registry.condition field operator value = .ok c) :
      Edited s (.add field operator value) (.added s.nextId) (s.push c).2
  | pushed (c : Condition) : Edited s (.push c) (.added s.nextId) (s.push c).2
  | unknown {id : Nat} {operator : Option Operator} {value : Option Value}
      (h : s.get? id = none) : Edited s (.update id operator value) (.refused .unknownInstance) s
  | misfit {id : Nat} {operator : Option Operator} {value : Option Value} {f : Filter}
      {error : FilterError} (hf : s.get? id = some f)
      (h : f.condition.updated s.registry operator value = .error error) :
      Edited s (.update id operator value) (.refused error) s
  | kept {id : Nat} {operator : Option Operator} {value : Option Value} {f : Filter}
      (hf : s.get? id = some f)
      (h : f.condition.updated s.registry operator value = .ok f.condition) :
      Edited s (.update id operator value) (.changed false) s
  | updated {id : Nat} {operator : Option Operator} {value : Option Value} {f : Filter}
      {c : Condition} (hf : s.get? id = some f)
      (h : f.condition.updated s.registry operator value = .ok c) (hne : c ≠ f.condition) :
      Edited s (.update id operator value) (.changed true)
        (bump { s with filters := exchange id c s.filters })
  | missing {id : Nat} (h : s.get? id = none) :
      Edited s (.remove id) (.refused .unknownInstance) s
  | removed {id : Nat} {f : Filter} (hf : s.get? id = some f) :
      Edited s (.remove id) (.removed f)
        (bump { s with filters := s.filters.filter (·.id ≠ id) })
  | joined {join : Join} (h : s.join = join) : Edited s (.setJoin join) (.changed false) s
  | rejoined {join : Join} (h : s.join ≠ join) :
      Edited s (.setJoin join) (.changed true) (bump { s with join := join })
  | replaced (cs : Conditions) :
      Edited s (.replace cs) (.changed (s.replace cs).1) (s.replace cs).2
  | cleared : Edited s .clear (.changed s.clear.1) s.clear.2

variable {s t : Store} {e : Edit} {reply : Reply} {id : Nat} {c : Condition} {f : Filter}

theorem edited_edit (s : Store) (e : Edit) : s.Edited e (s.edit e).1 (s.edit e).2 := by
  cases e with
  | add field operator value =>
    simp only [edit, add]
    split
    · next hc => exact .added hc
    · next hc => exact .unfitting hc
  | push c => exact .pushed c
  | update id operator value =>
    simp only [edit, update]
    split
    · next hf => exact .unknown hf
    next f hf =>
      split
      · next hc => exact .misfit hf hc
      next c hc =>
        split
        · next heq => exact .kept hf (heq ▸ hc)
        · next hne => exact .updated hf hc hne
  | remove id =>
    simp only [edit, remove]
    split
    · next hf => exact .missing hf
    · next f hf => exact .removed hf
  | setJoin join =>
    simp only [edit, setJoin]
    split
    · next h => exact .joined h
    · next h => exact .rejoined h
  | replace cs => exact .replaced cs
  | clear => exact .cleared

/-! ### What operations keep, edits keep -/

theorem Kept.edit {P : Store → Prop} (hP : Kept P) (h : P s) (e : Edit) : P (s.edit e).2 := by
  cases e with
  | add field operator value => exact hP.add h field operator value
  | push c => exact hP.push s c h
  | update id operator value => exact hP.update s id operator value h
  | remove id => exact hP.remove s id h
  | setJoin join => exact hP.setJoin s join h
  | replace cs => exact hP.replace s cs h
  | clear => exact hP.replace s _ h

theorem Kept.edits {P : Store → Prop} (hP : Kept P) (h : P s) (es : List Edit) :
    P (s.edits es) := by
  induction es generalizing s with
  | nil => exact h
  | cons e es ih => exact ih (hP.edit h e)

theorem Edited.registry (h : s.Edited e reply t) : t.registry = s.registry := by
  cases h with
  | replaced cs => exact registry_replace s cs
  | cleared => exact registry_clear s
  | _ => rfl

theorem registry_edits (s : Store) (es : List Edit) : (s.edits es).registry = s.registry := by
  induction es generalizing s with
  | nil => rfl
  | cons e es ih => exact (ih _).trans (edited_edit s e).registry

/-! ### Changes are counted -/

theorem mem_exchange (hf : f ∈ s.filters) : (Filter.mk f.id c) ∈ exchange f.id c s.filters := by
  rw [exchange]
  exact List.mem_map.2 ⟨f, hf, by rw [if_pos rfl]⟩

/-- A condition exchanged for another one is a change of the conditions. -/
theorem conditions_exchange_ne (hf : s.get? id = some f) (hne : c ≠ f.condition) :
    (bump { s with filters := exchange id c s.filters }).conditions ≠ s.conditions := by
  obtain ⟨hmem, rfl⟩ := get?_eq_some hf
  exact fun heq => map_condition_exchange_ne hmem hne (congrArg Conditions.conditions heq)

/-- A filter removed is a change of the conditions. -/
theorem conditions_filter_ne (hf : s.get? id = some f) :
    (bump { s with filters := s.filters.filter (·.id ≠ id) }).conditions ≠ s.conditions := by
  obtain ⟨hmem, hid⟩ := get?_eq_some hf
  intro heq
  have hlen := congrArg (fun cs => cs.conditions.length) heq
  dsimp only [conditions, bump] at hlen
  rw [List.length_map, List.length_map, List.length_filter_eq_length_iff] at hlen
  have hkept := hlen f hmem
  simp [hid] at hkept

theorem conditions_push_ne (s : Store) (c : Condition) :
    (s.push c).2.conditions ≠ s.conditions := by
  intro heq
  have hlen := congrArg (fun cs => cs.conditions.length) heq
  simp [conditions, push, bump] at hlen

theorem revision_replace (s : Store) (cs : Conditions) :
    (s.replace cs).2.revision = s.revision + if cs = s.conditions then 0 else 1 := by
  unfold replace
  dsimp only
  by_cases h : s.conditions = cs
  · rw [if_pos h, if_pos h.symm]
    rfl
  · rw [if_neg h, if_neg (Ne.symm h)]
    rfl

theorem fst_replace (s : Store) (cs : Conditions) :
    (s.replace cs).1 = true ↔ cs ≠ s.conditions := by
  unfold replace
  dsimp only
  split
  · next h => simp [h]
  · next h => simp [Ne.symm h]

/-- **The revision counts the changes of the conditions and of the join,** and only these. -/
theorem Edited.revision_eq (h : s.Edited e reply t) :
    t.revision = s.revision + if t.conditions = s.conditions then 0 else 1 := by
  cases h with
  | unfitting | unknown | misfit | missing | kept | joined => rw [if_pos rfl, Nat.add_zero]
  | added h => rw [if_neg (conditions_push_ne s _)]; rfl
  | pushed c => rw [if_neg (conditions_push_ne s c)]; rfl
  | updated hf h hne => rw [if_neg (conditions_exchange_ne hf hne)]; rfl
  | removed hf => rw [if_neg (conditions_filter_ne hf)]; rfl
  | rejoined hne =>
    rw [if_neg fun heq => hne (congrArg Conditions.join heq).symm]
    rfl
  | replaced cs => rw [conditions_replace, revision_replace]
  | cleared => rw [clear, conditions_replace, revision_replace]

/-- What a store says of a change is so. -/
theorem Edited.reply_changed {changed : Bool} (h : s.Edited e (.changed changed) t) :
    changed = true ↔ t.conditions ≠ s.conditions := by
  cases h with
  | kept | joined => simp
  | updated hf h hne => simp [conditions_exchange_ne hf hne]
  | rejoined hne =>
    have hother : (bump { s with join := _ }).conditions ≠ s.conditions :=
      fun heq => hne (congrArg Conditions.join heq).symm
    simp [hother]
  | replaced cs => rw [conditions_replace, fst_replace]
  | cleared => rw [clear, conditions_replace, fst_replace]

/-! ### What one edit does -/

theorem Edited.of_refused {error : FilterError} (h : s.Edited e (.refused error) t) : t = s := by
  cases h <;> rfl

/-- **An edit that is refused leaves the store.** -/
theorem edit_of_refused {error : FilterError} (h : (s.edit e).1 = .refused error) :
    (s.edit e).2 = s :=
  (h ▸ edited_edit s e).of_refused

/-- Filters in the same order with the same ids and fields, where only the filter of one id may have
another condition. -/
def OnlyAt (id : Nat) : List Filter → List Filter → Prop :=
  List.Forall₂ fun f g =>
    g.id = f.id ∧ g.condition.field = f.condition.field ∧ (f.id ≠ id → g = f)

theorem onlyAt_refl (id : Nat) (filters : List Filter) : OnlyAt id filters filters :=
  List.forall₂_same.2 fun _ _ => ⟨rfl, rfl, fun _ => rfl⟩

theorem onlyAt_exchange (hs : s.Numbered) (hf : s.get? id = some f)
    (hfield : c.field = f.condition.field) : OnlyAt id s.filters (exchange id c s.filters) := by
  obtain ⟨hmem, rfl⟩ := get?_eq_some hf
  rw [OnlyAt, exchange, List.forall₂_map_right_iff, List.forall₂_same]
  intro g hg
  split
  · next hid =>
    obtain rfl := hs.eq_of_id hg hmem hid
    exact ⟨rfl, hfield, fun hne => absurd rfl hne⟩
  · exact ⟨rfl, rfl, fun _ => rfl⟩

/-- Exchanging a condition for itself is no change. -/
theorem exchange_self (hs : s.Numbered) (hf : s.get? id = some f) :
    exchange id f.condition s.filters = s.filters := by
  obtain ⟨hmem, rfl⟩ := get?_eq_some hf
  refine (List.map_congr_left fun g hg => ?_).trans (List.map_id s.filters)
  split
  · next hid =>
    obtain rfl := hs.eq_of_id hg hmem hid
    rfl
  · rfl

/-- What an edit does when it is not refused: a filter comes last, one filter is changed or goes, the
join is set, or all is exchanged. An `update` that is refused leaves the filters, and so does a
`remove`. -/
def Effect (s : Store) : Edit → Reply → Store → Prop
  | .add field operator value, reply, t => ∀ id, reply = .added id →
      ∃ c, s.registry.Admits c ∧ c.field = field ∧ c.value = value ∧
        (∀ op ∈ operator, c.operator = op) ∧ t.filters = s.filters ++ [⟨id, c⟩] ∧ t.join = s.join
  | .push c, reply, t =>
      ∃ id, reply = .added id ∧ t.filters = s.filters ++ [⟨id, c⟩] ∧ t.join = s.join
  | .update id operator value, reply, t =>
      t.join = s.join ∧ OnlyAt id s.filters t.filters ∧ ∀ changed, reply = .changed changed →
        ∃ f ∈ s.filters, ∃ g ∈ t.filters, f.id = id ∧ g.id = id ∧ s.registry.Admits g.condition ∧
          g.condition.operator = operator.getD f.condition.operator ∧
          g.condition.value = value.getD f.condition.value
  | .remove id, reply, t =>
      t.join = s.join ∧ t.filters = s.filters.filter (·.id ≠ id) ∧
        ∀ f, reply = .removed f → f ∈ s.filters ∧ f.id = id
  | .setJoin join, _, t => t.filters = s.filters ∧ t.join = join
  | .replace cs, _, t => t.conditions = cs
  | .clear, _, t => t.conditions = ⟨[], .and⟩

theorem effect_update (hs : s.Numbered) (hf : s.get? id = some f) {operator : Option Operator}
    {value : Option Value} (h : f.condition.updated s.registry operator value = .ok c)
    (hfilters : t.filters = exchange id c s.filters) (hjoin : t.join = s.join) (changed : Bool) :
    s.Effect (.update id operator value) (.changed changed) t := by
  have hfield := Condition.field_updated h
  refine ⟨hjoin, hfilters ▸ onlyAt_exchange hs hf hfield, fun _ _ => ?_⟩
  obtain ⟨hmem, rfl⟩ := get?_eq_some hf
  have hg : Filter.mk f.id c ∈ t.filters := by
    rw [hfilters]
    exact mem_exchange hmem
  obtain ⟨config, -, hc⟩ := Condition.eq_of_updated h
  exact ⟨f, hmem, _, hg, rfl, rfl, Condition.admits_of_updated h,
    congrArg Condition.operator hc, congrArg Condition.value hc⟩

theorem Edited.effect (hs : s.Numbered) (h : s.Edited e reply t) : s.Effect e reply t := by
  cases h with
  | unfitting h => rintro _ ⟨⟩
  | added h =>
    intro id hid
    obtain rfl := Reply.added.inj hid
    obtain ⟨hadmits, hfield, hvalue, hoperator⟩ := Registry.admits_of_condition h
    exact ⟨_, hadmits, hfield, hvalue, hoperator, rfl, rfl⟩
  | pushed c => exact ⟨_, rfl, rfl, rfl⟩
  | unknown | misfit =>
    refine ⟨rfl, onlyAt_refl _ _, ?_⟩
    rintro _ ⟨⟩
  | kept hf h => exact effect_update hs hf h (exchange_self hs hf).symm rfl false
  | updated hf h hne =>
    refine effect_update hs hf h ?_ ?_ true
    · rfl
    · rfl
  | missing h =>
    rw [get?, List.find?_eq_none] at h
    refine ⟨rfl, (List.filter_eq_self.2 fun f hf => ?_).symm, ?_⟩
    · simpa using h f hf
    · rintro _ ⟨⟩
  | removed hf =>
    refine ⟨rfl, rfl, fun f hremoved => ?_⟩
    obtain rfl := Reply.removed.inj hremoved
    exact get?_eq_some hf
  | joined h => exact ⟨rfl, h⟩
  | rejoined h => exact ⟨rfl, rfl⟩
  | replaced cs => exact conditions_replace s cs
  | cleared => exact conditions_replace s _

/-- **What every edit does, after any others.** The ids of the filters are distinct; the revision
grows by one if the conditions or the join change and otherwise not at all, and where the reply
speaks of a change it says whether there was one; an edit that is refused leaves the store; and an
edit that is not refused does what was asked for, to the filter that was named and no other, with a
condition that fits the fields. -/
theorem edit_of_edits (r : Registry) (es : List Edit) (e : Edit) :
    let s := (empty r).edits es
    let reply := (s.edit e).1
    let t := (s.edit e).2
    (s.filters.map (·.id)).Nodup ∧ (t.filters.map (·.id)).Nodup ∧
      s.registry = r ∧ t.registry = r ∧
      t.revision = s.revision + (if t.conditions = s.conditions then 0 else 1) ∧
      (∀ changed, reply = .changed changed → (changed = true ↔ t.conditions ≠ s.conditions)) ∧
      (∀ error, reply = .refused error → t = s) ∧
      s.Effect e reply t := by
  intro s reply t
  have hedited : s.Edited e reply t := edited_edit s e
  have hs : s.Numbered := kept_numbered.edits (numbered_empty r) es
  have hr : s.registry = r := registry_edits (empty r) es
  refine ⟨hs.nodup, (kept_numbered.edit hs e).nodup, hr, hedited.registry.trans hr,
    hedited.revision_eq, fun changed h => ?_, fun error h => ?_, hedited.effect hs⟩
  · exact (h ▸ hedited).reply_changed
  · exact edit_of_refused h

end Store

end TableFilter
