import TableFilter.Proofs.Synchronizer.Settling

/-!
# A table opened again

A view that holds one filter, on a field with a parameter of its own, leaves a navigation in which
no other parameter of the table has a value (`Table.shows_single_iff`). A fresh synchronizer reads
one filter from it, with the value that the field's variant reads from the parameter
(`Table.conditions_of_single`), and it writes nothing just where that value is written as it was
read. An operator that looks at the value admits only one shape of it, so such a filter comes back
as it was, unless it is a list on a field that takes single values
(`Value.IsSeparable.isReadable`). The operators of presence admit any shape, and the value comes
back in the shape of the variant (`Synchronizer.fresh_single`).
-/

namespace TableFilter

/-! ### Values that a user enters -/

/-- Keyed variants take single values. -/
theorem Variant.isMulti_of_isKeyed {v : Variant} (h : v.isKeyed = true) : v.isMulti = false := by
  cases v <;> first | rfl | cases h

namespace Shape

variable {v : Variant} {operator : Operator}

/-- Every operator but those of presence expects a shape. -/
theorem exists_expected? (v : Variant) (h : operator.isPresence = false) :
    ∃ shape, expected? v operator = some shape := by
  unfold expected?
  rw [if_neg (by simp [h])]
  split_ifs <;> exact ⟨_, rfl⟩

/-- An operator that expects a shape expects pairs of a keyed variant only, and texts only of one
that takes single values. -/
theorem expected?_spec {shape : Shape} (h : expected? v operator = some shape) :
    (shape = .pair ↔ v.isKeyed = true) ∧ (shape = .text → v.isMulti = false) := by
  unfold expected? at h
  split_ifs at h with _ hkeyed hlist
  · cases h
    simp [hkeyed]
  · cases h
    simp [hkeyed]
  · cases h
    rw [Bool.or_eq_true, not_or] at hlist
    simpa [hkeyed] using hlist.1

end Shape

namespace Value

/-- Whether the separators of parameters keep the parts of a value apart: no item of a list is empty
or holds a comma, and the key of a pair holds no colon. -/
def IsSeparable : Value → Prop
  | text _ => True
  | list items => ∀ s ∈ items, s.isEmpty = false ∧ ',' ∉ s.toList
  | pair key _ => ':' ∉ key.toList

variable {value : Value} {v : Variant} {operator : Operator}

/-- The parameter of a value that is not blank is not empty. -/
theorem toParam_ne_empty (hblank : value.isBlank = false) (h : value.IsSeparable) :
    value.toParam ≠ "" := by
  cases value with
  | text s => simpa [isBlank, toParam] using hblank
  | list items =>
    cases items with
    | nil => cases hblank
    | cons s rest =>
      obtain ⟨hs, -⟩ := h s List.mem_cons_self
      have hchars : s.toList ≠ [] := by simpa using hs
      rw [toParam, Text.join, ne_eq, ← String.toList_inj, String.toList_ofList]
      cases rest with
      | nil => simpa [Text.joined] using hchars
      | cons r rest => simp [Text.joined]
  | pair key text =>
    rw [toParam, ne_eq, ← String.toList_inj]
    simp

/-- **A value of the shape that an operator expects is read back,** unless it is a list on a field
that takes single values. -/
theorem IsSeparable.isReadable (h : value.IsSeparable)
    (hshape : Shape.expected? v operator = some value.shape)
    (hlist : value.shape = .list → v.isMulti = true) : value.IsReadable v := by
  obtain ⟨hpair, htext⟩ := Shape.expected?_spec hshape
  cases value with
  | text s => exact ⟨htext rfl, fun hkeyed => by cases hpair.2 hkeyed⟩
  | list items => exact ⟨hlist rfl, h⟩
  | pair key text => exact ⟨Variant.isMulti_of_isKeyed (hpair.1 rfl), hpair.1 rfl, h⟩

end Value

/-! ### Conditions on fields with a parameter of their own -/

namespace Registry

variable {r : Registry} {field : String} {config : FieldConfig} {value other : Value}
  {c : Condition}

/-- What a registry admits under the default operator of a field. -/
theorem condition_default_eq_ok_iff (hconfig : r.get? field = some config) :
    r.condition field none value = .ok c ↔
      c = ⟨field, config.variant, config.defaultOperator, value⟩ ∧
        config.allows config.defaultOperator = true ∧
        ∀ shape, Shape.expected? config.variant config.defaultOperator = some shape →
          value.shape = shape := by
  rw [condition, hconfig]
  exact FieldConfig.condition_eq_ok_iff

end Registry

namespace Conditions

/-- Conditions on fields with their own parameters stand outside the query. -/
theorem text_of_standalone {cs : Conditions} {r : Registry}
    (h : ∀ c ∈ cs.conditions, r.isStandalone c.field = true) : cs.text r = "" := by
  have hnone : cs.conditions.filter (fun c => !r.isStandalone c.field) = [] := by
    rw [List.filter_eq_nil_iff]
    intro c hc
    simp [h c hc]
  have hsame : cs.document r = (⟨[], cs.join⟩ : Conditions).document r := by
    rw [document, document, fragments, hnone]
    rfl
  rw [text_congr hsame]
  rfl

end Conditions

namespace Table

variable {t : Table} {p : Params} {cs : Conditions} {c d : Condition} {param : String}

/-- **What shows a single condition on a field with its own parameter:** that parameter has the text
of the value, and the others of the table have none. -/
theorem shows_single_iff (ht : t.IsAccepted) (hparam : (c.field, param) ∈ t.fields.params)
    (hcs : cs.conditions = [c]) :
    t.Shows p cs ↔ p.value t.key = "" ∧ p.value param = c.value.toParam ∧
      ∀ e ∈ t.fields.params, e ≠ (c.field, param) → p.value e.2 = "" := by
  have hstand : t.fields.isStandalone c.field = true :=
    Registry.isStandalone_of_mem_params ht.ids hparam
  have htext : cs.text t.fields = "" := by
    refine Conditions.text_of_standalone fun d hd => ?_
    rw [hcs, List.mem_singleton] at hd
    rwa [hd]
  have hself : cs.paramText c.field = c.value.toParam := by
    rw [Conditions.paramText, hcs, List.find?_cons_of_pos (by simp)]
  have hother {field : String} (hne : field ≠ c.field) : cs.paramText field = "" := by
    rw [Conditions.paramText, hcs, List.find?_cons_of_neg (by simpa using Ne.symm hne)]
    rfl
  constructor
  · intro h
    refine ⟨h.key.trans htext, (h.own _ hparam).trans hself, fun e he hne => ?_⟩
    rw [h.own e he]
    refine hother fun hfield => hne ?_
    exact List.inj_on_of_nodup_map (Registry.nodup_fields_params ht.ids) he hparam hfield
  · rintro ⟨hkey, hvalue, hothers⟩
    refine ⟨hkey.trans htext.symm, fun e he => ?_⟩
    by_cases hsame : e = (c.field, param)
    · rw [hsame, hvalue, hself]
    · rw [hothers e he hsame]
      refine (hother fun hfield => hsame ?_).symm
      exact List.inj_on_of_nodup_map (Registry.nodup_fields_params ht.ids) he hparam hfield

theorem filterMap_eq_toList {α β : Type} {l : List α} {f : α → Option β} (hl : l.Nodup) {a : α}
    (ha : a ∈ l) (hf : ∀ b ∈ l, b ≠ a → f b = none) : l.filterMap f = (f a).toList := by
  induction l with
  | nil => cases ha
  | cons b rest ih =>
    rw [List.nodup_cons] at hl
    rw [List.filterMap_cons]
    rcases List.mem_cons.1 ha with rfl | ha
    · have hrest : rest.filterMap f = [] := by
        rw [List.filterMap_eq_nil_iff]
        exact fun b hb => hf b (List.mem_cons_of_mem _ hb) fun he => hl.1 (he ▸ hb)
      rw [hrest]
      cases f a <;> rfl
    · rw [hf b List.mem_cons_self fun he => hl.1 (he ▸ ha)]
      exact ih hl.2 ha fun b hb => hf b (List.mem_cons_of_mem _ hb)

/-- **A table reads one condition where only one of its fields' own parameters has a value.** -/
theorem conditions_of_single (ht : t.IsAccepted) {field : String}
    (hparam : (field, param) ∈ t.fields.params) (hkey : p.value t.key = "")
    (hothers : ∀ e ∈ t.fields.params, e ≠ (field, param) → p.value e.2 = "")
    (hne : p.value param ≠ "")
    (hread : Synchronizer.paramCondition? t.fields field (p.value param) = some d) :
    (t.conditions p).conditions = [d] := by
  have hquery : (Conditions.ofText "").conditions = [] := rfl
  have hnodup : t.fields.params.Nodup := (Registry.nodup_fields_params ht.ids).of_map _
  rw [conditions_conditions, hkey, hquery, List.nil_append, ownConditions,
    filterMap_eq_toList hnodup hparam fun e he hother => ?_]
  · rw [Registry.ownCondition?, if_neg (by simpa using hne), hread]
    rfl
  · rw [hothers e he hother]
    rfl

end Table

/-! ### Hydration -/

namespace Synchronizer

variable {t : Table} {field param : String} {config : FieldConfig} {c : Condition} {value : Value}

/-- A fresh synchronizer leaves a navigation alone exactly if it shows what is read from it. -/
theorem fresh_eq_adopted_iff (ht : t.IsAccepted) (n : CountedHistory) :
    (fresh .counted t n).2 = (n, some .adopted) ↔
      t.Shows n.history.params (t.conditions n.history.params) := by
  constructor
  · intro h
    by_contra hnot
    rw [fresh_eq, outbound_filledFrom,
      if_neg fun hshows => hnot ((shows_output_filledFrom ht n _).1 hshows)] at h
    exact absurd (congrArg Prod.snd h) (by simp [performSome, perform])
  · exact fresh_of_shows ht

/-- **A filter alone on its field comes back from the navigation that shows it.** Let a field with a
parameter of its own admit a value under its default operator, a value that is not blank and whose
parts the separators of parameters keep apart, and let a navigation show the output of a table that
holds this filter only. A fresh synchronizer then has exactly one filter, on the same field, with
the same operator and the value that is read from the parameter. That is the value entered exactly
if it has the form that the field's variant reads, and nothing is written exactly if it is written
as the value entered. So the filter comes back as it was, without a write, under every operator but
the two of presence, for which the value is of no account. Lists that are admitted for a range only
are not spoken of. -/
theorem fresh_single (ht : t.IsAccepted) (hparam : (field, param) ∈ t.fields.params)
    (hconfig : t.fields.get? field = some config)
    (hadmitted : t.fields.condition field none value = .ok c) (hblank : value.isBlank = false)
    (hparts : value.IsSeparable)
    (hlist : value.shape = .list →
      config.variant.isMulti = true ∨ config.defaultOperator.isPresence = true)
    {u : Synchronizer} (hkey : u.key = t.key) (hfields : u.store.registry = t.fields)
    (hstore : u.store.conditions.conditions = [c]) {n : CountedHistory}
    (hshown : n.history.params.shows u.output = true) :
    let read := Value.ofParam config.variant value.toParam
    let first := fresh .counted t n
    first.1.store.conditions.conditions = [{ c with value := read }] ∧
      (read = value ↔ value.IsReadable config.variant) ∧
      (first.2 = (n, some .adopted) ↔ read.toParam = value.toParam) ∧
      (config.defaultOperator.isPresence = false →
        first.1.store.conditions.conditions = [c] ∧ first.2 = (n, some .adopted)) := by
  intro read first
  obtain ⟨rfl, hallows, hshape⟩ := (Registry.condition_default_eq_ok_iff hconfig).1 hadmitted
  have hback (hpresence : config.defaultOperator.isPresence = false) : read = value := by
    obtain ⟨shape, hexpected⟩ := Shape.exists_expected? config.variant hpresence
    refine Value.ofParam_toParam (hparts.isReadable
      (hexpected.trans (congrArg some (hshape shape hexpected).symm)) fun h => ?_)
    exact (hlist h).resolve_right (by simp [hpresence])
  -- What is read is admitted: it is the value itself, or its shape does not matter.
  have hread : t.fields.condition field none read =
      .ok ⟨field, config.variant, config.defaultOperator, read⟩ := by
    refine (Registry.condition_default_eq_ok_iff hconfig).2 ⟨rfl, hallows, ?_⟩
    intro shape hexpected
    cases hpresence : config.defaultOperator.isPresence with
    | true => simp [Shape.expected?, hpresence] at hexpected
    | false => exact hback hpresence ▸ hshape shape hexpected
  obtain ⟨hquery, hown, hothers⟩ := (Table.shows_single_iff ht hparam hstore).1
    ((shows_output_iff ht hkey hfields _).1 hshown)
  have hconditions : (t.conditions n.history.params).conditions =
      [⟨field, config.variant, config.defaultOperator, read⟩] := by
    refine Table.conditions_of_single ht hparam hquery hothers ?_ ?_
    · rw [hown]
      exact Value.toParam_ne_empty hblank hparts
    · rw [hown, paramCondition?, hconfig]
      dsimp only
      rw [hread]
      rfl
  have hfirst : first.1.store.conditions.conditions =
      [⟨field, config.variant, config.defaultOperator, read⟩] := by
    rw [← hconditions, ← conditions_fresh]
  have hadopted : first.2 = (n, some .adopted) ↔ read.toParam = value.toParam := by
    rw [fresh_eq_adopted_iff ht, Table.shows_single_iff ht hparam hconditions, hown]
    constructor
    · exact fun h => h.2.1.symm
    · exact fun h => ⟨hquery, h.symm, hothers⟩
  refine ⟨hfirst, Value.ofParam_toParam_iff, hadopted, fun hpresence => ?_⟩
  rw [hfirst, hadopted, hback hpresence]
  exact ⟨rfl, rfl⟩

/-- A label with a key and a value comes back as it was. -/
theorem fresh_single_label :
    let label := { FieldConfig.plain "Label" .metadata with param := some "label" }
    let t : Table := ⟨"orders", none, ⟨[("label", label), ("status", .plain "Status" .text)]⟩⟩
    let u := { ofTable t with
      store := ((Store.empty t.fields).add "label" none (.pair "tier" "gold:1")).2 }
    let n := (CountedHistory.start "page=2").write u.output
    t.IsAccepted ∧ n.history.current = "page=2&label=tier%3Agold%3A1" ∧
      (fresh .counted t n).1.store.conditions.conditions =
        [⟨"label", .metadata, .eq, .pair "tier" "gold:1"⟩] ∧
      (fresh .counted t n).2 = (n, some .adopted) := by
  intro label t u n
  have ht : t.IsAccepted := ⟨by decide, by decide, by decide⟩
  have hparam : ("label", "label") ∈ t.fields.params := by decide
  have hconfig : t.fields.get? "label" = some label := by decide
  have hadmitted : t.fields.condition "label" none (.pair "tier" "gold:1") =
      .ok ⟨"label", .metadata, .eq, .pair "tier" "gold:1"⟩ := by decide
  have hparts : (Value.pair "tier" "gold:1").IsSeparable := by
    unfold Value.IsSeparable
    decide
  have hstore : u.store.conditions.conditions =
      [⟨"label", .metadata, .eq, .pair "tier" "gold:1"⟩] := by decide
  have hshown : n.history.params.shows u.output = true := by decide +kernel
  obtain ⟨-, -, -, hback⟩ := fresh_single ht hparam hconfig hadmitted (by decide) hparts
    (fun h => by cases h) rfl rfl hstore hshown
  exact ⟨ht, by decide +kernel, hback (by decide)⟩

/-- Two lists on fields that take single values. Under an operator of presence the list comes back
as a text; the one that is admitted for a range is lost, and its parameter is cleared. -/
theorem fresh_single_lists :
    let owner := { FieldConfig.plain "Owner" .text with
      operators := some [.isEmpty, .isNotEmpty], param := some "owner" }
    let amount := { FieldConfig.plain "Amount" .number with
      operators := some [.isBetween], param := some "amount" }
    let t : Table := ⟨"orders", none, ⟨[("owner", owner), ("amount", amount)]⟩⟩
    let added (field : String) (value : Value) := (Store.empty t.fields).add field none value
    let shown (field : String) (value : Value) :=
      (CountedHistory.start "").write { ofTable t with store := (added field value).2 }.output
    let first (field : String) (value : Value) := fresh .counted t (shown field value)
    t.IsAccepted ∧ (added "owner" (.list ["ann", "bob"])).1 = .ok 1 ∧
      (first "owner" (.list ["ann", "bob"])).1.store.conditions.conditions =
        [⟨"owner", .text, .isEmpty, .text "ann,bob"⟩] ∧
      (added "amount" (.list ["1", "9"])).1 = .ok 1 ∧
      (first "amount" (.list ["1", "9"])).1.store.filters = [] ∧
      (first "amount" (.list ["1", "9"])).2.1.history.current = "" ∧
      (first "amount" (.list ["1", "9"])).2.2 = some .written := by
  intro owner amount t added shown first
  exact ⟨⟨by decide, by decide, by decide⟩, by decide +kernel⟩

end Synchronizer

end TableFilter
