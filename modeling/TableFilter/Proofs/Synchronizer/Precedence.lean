import TableFilter.Proofs.Synchronizer.Settling

/-!
# Which value a hydration keeps

A field with a parameter of its own may be tested by the compiled query as well. The conditions of
the query are read first, so the first filter on the field is theirs where the query has one
(`Synchronizer.find?_fresh`), and it is the first filter that is written under the parameter. Where
the query says nothing about the field, a value that the field admits and that is written as it was
read is kept, in the store and in the navigation (`Synchronizer.standalone_fresh`).
-/

namespace TableFilter

/-- The condition of the first filter on a field. -/
theorem Store.condition_find? (s : Store) (field : String) :
    (s.find? field).map (·.condition) =
      s.conditions.conditions.find? fun c => c.field == field := by
  rw [Store.find?, Store.conditions, List.find?_map]
  rfl

namespace Synchronizer

variable {t : Table} {field param : String} {config : FieldConfig} {c : Condition}

/-- **After a hydration the first filter on a field is that of the query,** or else that of the
field's parameter. -/
theorem find?_fresh (ht : t.IsAccepted) (n : CountedHistory)
    (hparam : (field, param) ∈ t.fields.params) :
    ((fresh .counted t n).1.store.find? field).map (·.condition) =
      ((Conditions.ofText (n.history.params.value t.key)).conditions.find?
        fun c => c.field == field).or
          (t.fields.ownCondition? field (n.history.params.value param)) := by
  rw [Store.condition_find?, conditions_fresh, Table.find?_conditions ht n.history.params hparam]

/-- After a hydration the navigation shows the value of the first filter under the parameter. -/
theorem value_fresh (ht : t.IsAccepted) (n : CountedHistory)
    (hparam : (field, param) ∈ t.fields.params) :
    (fresh .counted t n).2.1.history.params.value param =
      ((((fresh .counted t n).1.store.find? field).map (·.condition)).map
        (·.value.toParam)).getD "" := by
  rw [(shows_fresh ht n).own _ hparam, Store.condition_find?, conditions_fresh,
    Conditions.paramText]
  cases (t.conditions n.history.params).conditions.find? fun c => c.field == field <;> rfl

/-- **A hydration keeps the parameter of a field's own,** if the field admits the value under its
default operator and writes it as it was read, and if the query has no condition on the field. Where
the query has one, the first of them stands in the store and in the navigation. -/
theorem standalone_fresh (ht : t.IsAccepted) (n : CountedHistory)
    (hparam : (field, param) ∈ t.fields.params) (hconfig : t.fields.get? field = some config)
    (hne : n.history.params.value param ≠ "")
    (hadmitted : t.fields.condition field none
      (.ofParam config.variant (n.history.params.value param)) = .ok c)
    (hwritten : (Value.ofParam config.variant (n.history.params.value param)).toParam =
      n.history.params.value param) :
    let raw := n.history.params.value param
    let compiled := (Conditions.ofText (n.history.params.value t.key)).conditions.find?
      fun c => c.field == field
    let first := ((fresh .counted t n).1.store.find? field).map (·.condition)
    let after := (fresh .counted t n).2.1.history.params
    (compiled = none →
      first.map (·.value) = some (.ofParam config.variant raw) ∧ after.value param = raw) ∧
    ∀ d, compiled = some d → first = some d ∧ after.value param = d.value.toParam := by
  dsimp only
  have hown : t.fields.ownCondition? field (n.history.params.value param) = some c := by
    rw [Registry.ownCondition?, if_neg (by simpa using hne), paramCondition?, hconfig]
    dsimp only
    rw [hadmitted]
    rfl
  obtain ⟨-, hvalue⟩ := Registry.condition_eq_ok hadmitted
  have hfirst := find?_fresh ht n hparam
  have hafter := value_fresh ht n hparam
  rw [hown] at hfirst
  refine ⟨fun hnone => ?_, fun d hd => ?_⟩
  · rw [hnone, Option.none_or] at hfirst
    rw [hafter, hfirst]
    exact ⟨congrArg some hvalue, (congrArg Value.toParam hvalue).trans hwritten⟩
  · rw [hd, Option.some_or] at hfirst
    rw [hafter, hfirst]
    exact ⟨rfl, rfl⟩

/-- The owner is kept where the query asks for a status only. -/
theorem standalone_fresh_owner :
    let owner := { FieldConfig.plain "Owner" .text with param := some "owner" }
    let t : Table := ⟨"orders", none, ⟨[("status", .plain "Status" .text), ("owner", owner)]⟩⟩
    let n :=
      CountedHistory.start "orders=%7B%22$match%22:%7B%22status%22:%22open%22%7D%7D&owner=ann"
    t.IsAccepted ∧
      (((fresh .counted t n).1.store.find? "owner").map (·.condition)).map (·.value) =
        some (.text "ann") ∧
      (fresh .counted t n).2.1.history.params.value "owner" = "ann" := by
  intro owner t n
  have ht : t.IsAccepted := ⟨by decide, by decide, by decide⟩
  have hparam : ("owner", "owner") ∈ t.fields.params := by decide
  have hconfig : t.fields.get? "owner" = some owner := by decide
  have hraw : n.history.params.value "owner" = "ann" := by decide +kernel
  have hread : Value.ofParam owner.variant "ann" = .text "ann" := by decide
  have hadmitted : t.fields.condition "owner" none
      (.ofParam owner.variant (n.history.params.value "owner")) =
        .ok ⟨"owner", .text, .eq, .text "ann"⟩ := by rw [hraw, hread]; decide
  have hkept := (standalone_fresh ht n hparam hconfig (by rw [hraw]; decide) hadmitted
    (by rw [hraw, hread]; rfl)).1 (by decide +kernel)
  rw [hraw, hread] at hkept
  exact ⟨ht, hkept⟩

/-- A query that asks for the owner itself overrules the parameter: the store's first filter is the
query's, and the navigation no longer shows the value that was entered. -/
theorem standalone_fresh_overruled :
    let owner := { FieldConfig.plain "Owner" .text with param := some "owner" }
    let t : Table := ⟨"orders", none, ⟨[("owner", owner)]⟩⟩
    let n := CountedHistory.start "orders=%7B%22$match%22:%7B%22owner%22:%22bob%22%7D%7D&owner=ann"
    let after := fresh .counted t n
    t.IsAccepted ∧ n.history.params.value "owner" = "ann" ∧
      t.fields.condition "owner" none (.ofParam owner.variant "ann") =
        .ok ⟨"owner", .text, .eq, .text "ann"⟩ ∧
      (Value.ofParam owner.variant "ann").toParam = "ann" ∧
      (after.1.store.find? "owner").map (·.condition.value) = some (.text "bob") ∧
      after.2.1.history.params.value "owner" = "bob" := by
  intro owner t n after
  exact ⟨⟨by decide, by decide, by decide⟩, by decide +kernel⟩

end Synchronizer

end TableFilter
