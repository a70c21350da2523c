import TableFilter.Proofs.Field.Validation
import TableFilter.Proofs.Json.Decoding
import TableFilter.Proofs.Query.Params
import TableFilter.Table.Reading

/-!
# Accepted tables

A table is accepted when its fields and the table as a whole have passed their checks and no field
is declared twice. Every table that is read from a file is (`isAccepted_of_ofFile`), whichever way
it is written (`isAccepted_of_parseJson`, `isAccepted_of_parseYaml`). What it gives is that the
parameters of the table are apart: no two fields share one, and none is the key of the compiled
query (`IsAccepted.nodup_keys`).
-/

namespace TableFilter

/-- A table that has passed all checks. -/
structure Table.IsAccepted (t : Table) : Prop where
  checked : t.checked = .ok t
  validated : t.fields.validated = .ok t.fields
  ids : (t.fields.fields.map (·.1)).Nodup

namespace Registry

variable {r : Registry}

theorem nodup_params (h : r.validated = .ok r) : (r.params.map (·.2)).Nodup :=
  (paramsApart_iff r.fields).1 ((problem?_eq_none_iff r).1 (validated_eq_ok_iff.1 h).1).2

theorem nodup_fields_params (h : (r.fields.map (·.1)).Nodup) : (r.params.map (·.1)).Nodup := by
  unfold List.Nodup at h ⊢
  rw [List.pairwise_map] at h ⊢
  refine h.filterMap _ fun e f hne p hp q hq => ?_
  obtain ⟨a, -, rfl⟩ := Option.map_eq_some_iff.1 hp
  obtain ⟨b, -, rfl⟩ := Option.map_eq_some_iff.1 hq
  exact hne

theorem param?_of_mem_params (h : (r.fields.map (·.1)).Nodup) {field param : String}
    (hp : (field, param) ∈ r.params) : r.param? field = some param := by
  obtain ⟨config, hconfig, hparam⟩ := mem_params hp
  rw [param?, get?, Keyed.lookup_eq_some_of_mem h hconfig]
  exact hparam

theorem isStandalone_of_mem_params (h : (r.fields.map (·.1)).Nodup) {field param : String}
    (hp : (field, param) ∈ r.params) : r.isStandalone field = true := by
  rw [isStandalone, param?_of_mem_params h hp]
  rfl

/-- A registry that was validated came through unchanged. -/
theorem eq_of_validated {r s : Registry} (h : r.validated = .ok s) : s = r :=
  (validated_eq_ok_iff.1 h).2

theorem nodup_ids_ofList (declarations : List (String × FieldConfig)) :
    ((ofList declarations).fields.map (·.1)).Nodup := Keyed.nodup_keys_ofList declarations

/-- What a registry owes to having been read: it is validated and declares no field twice. -/
def IsRead (r : Registry) : Prop := r.validated = .ok r ∧ (r.fields.map (·.1)).Nodup

theorem isRead_of_validated {declarations : List (String × FieldConfig)}
    (h : (ofList declarations).validated = .ok r) : r.IsRead := by
  obtain rfl := eq_of_validated h
  exact ⟨h, nodup_ids_ofList declarations⟩

/-- The fields of a registry that is decoded are those that were decoded, put one after the
other. -/
theorem ofList_of_decode {depth : Nat} {v : Json.Reading} (h : decode depth v = .ok r) :
    ∃ items declarations, v = .array items ∧
      List.Forall₂ (fun item d => FieldConfig.decode (depth - 1) item = .ok d) items declarations ∧
      (ofList declarations).validated = .ok r := by
  unfold decode at h
  split at h
  · next items =>
    obtain ⟨declarations, hdeclarations, h⟩ := bind_eq_ok h
    split at h
    · next hr =>
      cases h
      exact ⟨items, declarations, rfl, mapM_eq_ok_iff.1 hdeclarations, hr⟩
    · cases h
  · cases h

theorem isRead_of_decode {depth : Nat} {v : Json.Reading} (h : decode depth v = .ok r) :
    r.IsRead := by
  obtain ⟨items, declarations, -, -, hvalidated⟩ := ofList_of_decode h
  exact isRead_of_validated hvalidated

theorem isRead_of_ofYaml? {depth : Nat} {node : Yaml.Node} (h : ofYaml? depth node = some r) :
    r.IsRead := by
  unfold ofYaml? at h
  simp only [bind, Option.bind_eq_some_iff] at h
  obtain ⟨items, -, declarations, -, h⟩ := h
  cases hr : (ofList declarations).validated with
  | error problem => rw [hr] at h; cases h
  | ok s =>
    rw [hr] at h
    cases h
    exact isRead_of_validated hr

end Registry

namespace Table

variable {t : Table}

theorem IsAccepted.nodup_keys (h : t.IsAccepted) :
    (t.key :: t.fields.params.map (·.2)).Nodup := by
  refine List.nodup_cons.2 ⟨fun hmem => ?_, Registry.nodup_params h.validated⟩
  obtain ⟨p, hp, hkey⟩ := List.mem_map.1 hmem
  have hchecked := h.checked
  unfold Table.checked at hchecked
  split at hchecked
  · cases hchecked
  split at hchecked
  · cases hchecked
  · next hnone =>
    rw [List.find?_eq_none] at hnone
    exact hnone p hp (by simpa using hkey)

/-! ### Tables that were read -/

/-- A table that is accepted came through unchanged. -/
theorem checked_of_accept {u : Table} (h : u.accept = .ok t) : u = t ∧ t.checked = .ok t := by
  have hsame : u.checked = .ok t := by
    unfold accept at h
    split at h
    · next heq => rw [heq, Except.ok.inj h]
    · cases h
  have htu : u = t := by
    unfold checked at hsame
    split at hsame
    · cases hsame
    split at hsame
    · cases hsame
    · exact Except.ok.inj hsame
  exact ⟨htu, htu ▸ hsame⟩

theorem isAccepted_of_accept {u : Table} (hread : u.fields.IsRead) (h : u.accept = .ok t) :
    t.IsAccepted := by
  obtain ⟨rfl, hchecked⟩ := checked_of_accept h
  exact ⟨hchecked, hread.1, hread.2⟩

/-- The fields of a table were decoded by themselves. -/
theorem decoded_fields_of_decodeEntries {depth : Nat} {id : Option String}
    {key : Option (Option String)} {fields : Option Registry}
    {entries : List (Except Json.Fault String × Json.Reading)}
    (hfields : ∀ r ∈ fields, ∃ v, Registry.decode depth v = .ok r)
    (h : decodeEntries depth id key fields entries = .ok t) :
    ∃ v, Registry.decode depth v = .ok t.fields := by
  induction entries generalizing id key fields with
  | nil =>
    unfold decodeEntries at h
    split at h
    · cases h
      exact hfields _ rfl
    · cases h
  | cons e rest ih =>
    obtain ⟨name, v⟩ := e
    cases name with
    | error f => cases h
    | ok name =>
      unfold decodeEntries at h
      split at h
      · split at h
        · cases h
        · obtain ⟨i, -, h⟩ := bind_eq_ok h
          exact ih hfields h
      split at h
      · split at h
        · cases h
        · obtain ⟨k, -, h⟩ := bind_eq_ok h
          exact ih hfields h
      split at h
      · split at h
        · cases h
        · obtain ⟨r, hr, h⟩ := bind_eq_ok h
          refine ih (fun s hs => ?_) h
          cases hs
          exact ⟨v, hr⟩
      · split at h
        · exact ih hfields h
        · cases h

/-- The fields of a table that is read from a JSON text were decoded by themselves. -/
theorem decoded_fields {s : String} (h : parseJson s = .ok t) :
    ∃ depth v, Registry.decode depth v = .ok t.fields := by
  unfold parseJson at h
  split at h
  · next u hu =>
    obtain ⟨rfl, -⟩ := checked_of_accept h
    have hdecoded := Json.ok_of_finished hu
    unfold decode at hdecoded
    split at hdecoded
    · exact ⟨_, decoded_fields_of_decodeEntries (fun r hr => by cases hr) hdecoded⟩
    · cases hdecoded
  · cases h

/-- **Every table that is read from a JSON text is accepted.** -/
theorem isAccepted_of_parseJson {s : String} (h : parseJson s = .ok t) : t.IsAccepted := by
  obtain ⟨depth, v, hfields⟩ := decoded_fields h
  have hread := Registry.isRead_of_decode hfields
  unfold parseJson at h
  split at h
  · obtain ⟨rfl, hchecked⟩ := checked_of_accept h
    exact ⟨hchecked, hread.1, hread.2⟩
  · cases h

/-- **Every table that is read from a YAML text is accepted.** -/
theorem isAccepted_of_parseYaml {s : String} (h : parseYaml s = .ok t) : t.IsAccepted := by
  unfold parseYaml at h
  split at h
  · next u hu =>
    refine isAccepted_of_accept ?_ h
    obtain ⟨node, -, hu⟩ := Option.bind_eq_some_iff.1 hu
    unfold ofYaml? at hu
    simp only [bind, Option.bind_eq_some_iff] at hu
    -- the fields are read last
    obtain ⟨entries, -, id, -, id', -, text, -, key, -, key', -, fields, -, node', -, r, hr,
      hu⟩ := hu
    cases hu
    exact Registry.isRead_of_ofYaml? hr
  · cases h

/-- **Every table that is read from a file is accepted.** -/
theorem isAccepted_of_ofFile {file : String → Option String} {path : String}
    (h : ofFile file path = .ok t) : t.IsAccepted := by
  unfold ofFile at h
  dsimp only at h
  split at h
  · cases h
  · next parse hparse =>
    split at h
    · -- the extension has chosen one of the two readings
      split at hparse
      all_goals cases hparse
      · exact isAccepted_of_parseYaml h
      · exact isAccepted_of_parseYaml h
      · exact isAccepted_of_parseJson h
    · cases h

end Table

end TableFilter
