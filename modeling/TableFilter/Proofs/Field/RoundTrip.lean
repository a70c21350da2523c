import TableFilter.Field.Reading
import TableFilter.Proofs.Json.Decoding
import TableFilter.Proofs.Json.Literals
import TableFilter.Proofs.Json.RoundTrip

/-!
# Fields read back

A configuration is read back from its entries (`FieldConfig.ofEntries?_entries`), and with its id
from what was read of its text (`FieldConfig.decode_of_toJson`).
-/

namespace TableFilter

open Number (Binary64)
open Data (string? real? members? choice? required? optional?)
open Json (optionalEntry Reading Fault DecodeError)

/-! ### Entries that may be left out -/

section

variable {α β : Type} {key k : String} {entries : List (String × Json)} {write : α → Json}
  {read? : Json → Option α} {o : Option α}

theorem filter_optionalEntry (key k : String) (write : α → Json) (o : Option α) :
    (optionalEntry key write o).filter (·.1 = k) =
      if key = k then optionalEntry key write o else [] := by
  cases o with
  | none => simp [optionalEntry]
  | some a => by_cases h : key = k <;> simp [optionalEntry, h]

theorem required?_eq (value : Json) (hentries : entries.filter (·.1 = key) = [(key, value)]) :
    required? read? key entries = read? value := by
  rw [required?, Keyed.once?, hentries]

theorem optional?_eq_some (write : α → Json)
    (hentries : entries.filter (·.1 = key) = optionalEntry key write o)
    (h : ∀ a ∈ o, (write a).isNull = false ∧ read? (write a) = some a) :
    optional? read? key entries = some o := by
  unfold optional? Keyed.once?
  rw [hentries]
  cases o with
  | none => rfl
  | some a =>
    obtain ⟨hnull, hread⟩ := h a rfl
    change (if (write a).isNull then _ else _) = _
    rw [hnull, hread]
    rfl

theorem members?_map {as : List α} (h : ∀ a ∈ as, read? (write a) = some a) :
    members? read? (Json.array (as.map write)) = some as := by
  change (as.map write).mapM read? = some as
  induction as with
  | nil => rfl
  | cons a as ih =>
    rw [List.forall_mem_cons] at h
    rw [List.map_cons, List.mapM_cons, h.1, ih h.2]
    rfl

end

namespace FieldConfig

variable {c : FieldConfig} {id : String} {depth : Nat} {v : Reading}

/-- The slider bounds and the step of a field. -/
def bounds (c : FieldConfig) : List Binary64 := c.min.toList ++ c.max.toList ++ c.step.toList

/-! ### Entries -/

theorem ofReal_of_finite {x : Binary64} (h : x.isFinite = true) :
    Json.ofReal x = .number (.real x) := if_pos h

theorem option?_optionEntry (o : SelectOption) : option? (optionEntry o) = some o := by
  obtain ⟨value, label⟩ := o
  rfl

/-- The options as something that may be absent: there is no entry for none. -/
def givenOptions (c : FieldConfig) : Option (List SelectOption) :=
  if c.options.isEmpty then none else some c.options

/-- The entries of a configuration: two that are always there, and optional ones. -/
theorem entries_eq (c : FieldConfig) : c.entries =
    [("label", .string c.label), ("variant", .string c.variant.name)]
      ++ optionalEntry "operators" (fun ops => .array (ops.map fun op => .string op.name))
        c.operators
      ++ optionalEntry "options" (fun os => .array (os.map optionEntry)) c.givenOptions
      ++ optionalEntry "min" Json.ofReal c.min
      ++ optionalEntry "max" Json.ofReal c.max
      ++ optionalEntry "step" Json.ofReal c.step
      ++ optionalEntry "standaloneParam" .string c.param := by
  unfold entries givenOptions
  split <;> rfl

/-- **A configuration is read back from its entries,** if its numbers have a form. -/
theorem ofEntries?_entries (h : ∀ x ∈ c.bounds, x.isFinite = true) :
    ofEntries? c.entries = some c := by
  have hlabel : required? string? "label" c.entries = some c.label :=
    required?_eq (.string c.label) (by simp [entries_eq, filter_optionalEntry])
  have hvariant : required? (choice? Variant.ofName Variant.ofIndex) "variant" c.entries =
      some c.variant :=
    (required?_eq (.string c.variant.name) (by simp [entries_eq, filter_optionalEntry])).trans
      (congrArg some (Variant.ofName_name c.variant))
  have hoperators : optional? (members? (choice? Operator.ofName Operator.ofIndex)) "operators"
      c.entries = some c.operators := by
    refine optional?_eq_some (fun ops => .array (ops.map fun op => .string op.name))
      (by simp [entries_eq, filter_optionalEntry]) fun ops _ => ⟨rfl, members?_map fun op _ => ?_⟩
    exact congrArg some (Operator.ofName_name op)
  have hoptions : options? c.entries = some c.options := by
    have hentries : c.entries.filter (·.1 = "options") = optionalEntry "options"
        (fun os => .array (os.map optionEntry)) c.givenOptions := by
      simp [entries_eq, filter_optionalEntry]
    rw [options?, Keyed.once?, hentries, givenOptions]
    cases hgiven : c.options with
    | nil => rfl
    | cons o os => exact members?_map fun o _ => option?_optionEntry o
  have hreal (key : String) (o : Option Binary64) (ho : ∀ x ∈ o, x ∈ c.bounds)
      (hentries : c.entries.filter (·.1 = key) = optionalEntry key Json.ofReal o) :
      optional? real? key c.entries = some o := by
    refine optional?_eq_some _ hentries fun x hx => ?_
    rw [ofReal_of_finite (h x (ho x hx))]
    exact ⟨rfl, rfl⟩
  have hmin : optional? real? "min" c.entries = some c.min :=
    hreal "min" c.min (by simp +contextual [bounds]) (by simp [entries_eq, filter_optionalEntry])
  have hmax : optional? real? "max" c.entries = some c.max :=
    hreal "max" c.max (by simp +contextual [bounds]) (by simp [entries_eq, filter_optionalEntry])
  have hstep : optional? real? "step" c.entries = some c.step :=
    hreal "step" c.step (by simp +contextual [bounds]) (by simp [entries_eq, filter_optionalEntry])
  have hparam : optional? string? "standaloneParam" c.entries = some c.param :=
    optional?_eq_some .string (by simp [entries_eq, filter_optionalEntry])
      fun p _ => ⟨rfl, rfl⟩
  rw [ofEntries?, hlabel, hvariant, hoperators, hoptions, hmin, hmax, hstep, hparam]
  rfl

theorem id_notMem_entries (c : FieldConfig) : "id" ∉ c.entries.map (·.1) := by
  have hnone : c.entries.filter (·.1 = "id") = [] := by
    simp [entries_eq, filter_optionalEntry]
  rw [List.filter_eq_nil_iff] at hnone
  intro hmem
  obtain ⟨e, he, hid⟩ := List.mem_map.1 hmem
  exact hnone e he (by simpa using hid)

/-- Entries that are not the id are decoded as they are. -/
theorem decodeEntries_of_forall₂ {rs : List (Except Fault String × Reading)}
    {others entries : List (String × Json)}
    (h : List.Forall₂ (fun r e => r.1 = .ok e.1 ∧ r.2.toJson depth = .ok e.2) rs entries)
    (hid : "id" ∉ entries.map (·.1)) (hc : ofEntries? (others ++ entries) = some c) :
    decodeEntries depth (some id) others rs = .ok (id, c) := by
  induction h generalizing others with
  | nil =>
    rw [List.append_nil] at hc
    simp only [decodeEntries, hc]
  | @cons r e rs entries hr _ ih =>
    obtain ⟨key, v⟩ := r
    obtain ⟨rfl, hv⟩ := hr
    rw [List.map_cons, List.mem_cons, not_or] at hid
    rw [decodeEntries, if_neg (Ne.symm hid.1), Reading.decodeJson, hv]
    exact ih hid.2 (by rwa [List.append_assoc, List.singleton_append])

/-- **A field is read back** from what was read of its text. -/
theorem decode_of_toJson (hc : ∀ x ∈ c.bounds, x.isFinite = true)
    (hv : v.toJson depth = .ok (.object (("id", .string id) :: c.entries))) :
    decode depth v = .ok (id, c) := by
  cases Reading.gives_of_toJson hv with
  | object d h =>
    obtain ⟨⟨key, w⟩, rs, ⟨rfl, hw⟩, hrest, rfl⟩ := List.forall₂_cons_right_iff.1 h
    cases Reading.gives_of_toJson hw
    rw [decode, Nat.add_sub_cancel, decodeEntries, if_pos rfl]
    exact decodeEntries_of_forall₂ hrest (id_notMem_entries c) (ofEntries?_entries hc)

/-! ### Numbers that were read -/

end FieldConfig

end TableFilter
