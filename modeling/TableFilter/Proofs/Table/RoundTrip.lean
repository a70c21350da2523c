import TableFilter.Proofs.Field.RoundTrip
import TableFilter.Proofs.Table.Accepted

/-!
# Tables read back

A table that was read from a JSON text is read back from the text that is written for it
(`Table.parseJson_text`), provided that each of its numbers is. Nothing is lost by what a text
leaves out or gives by other names: absent entries are left out again, names that are no variant's
or operator's are written as that of the unknown one, and fields that are given twice stand once.

* The numbers of a table are its slider bounds and steps (`Table.numbers_toJson`), and those that
  were read have a form (`Registry.isStored_of_decode`).
* Each part is decoded from what was read of its text (`Registry.decode_of_toJson`,
  `Table.decode_of_toJson`).
-/

namespace TableFilter

open Number (Binary64)
open Json (Reading)

/-! ### Registries -/

namespace Registry

variable {r : Registry} {depth : Nat} {v : Reading}

/-- The slider bounds and the steps of the fields. -/
def bounds (r : Registry) : List Binary64 := r.fields.flatMap fun e => e.2.bounds

/-- **The fields are read back** from what was read of their text. -/
theorem decode_of_toJson (hr : r.IsRead) (hfinite : ∀ x ∈ r.bounds, x.isFinite = true)
    (hv : v.toJson depth = .ok r.toJson) : decode depth v = .ok r := by
  cases Reading.gives_of_toJson hv with
  | @array d vs _ h =>
    rw [List.forall₂_map_right_iff] at h
    have hfields : vs.mapM (FieldConfig.decode d) = .ok r.fields := by
      have hfinite : ∀ e ∈ r.fields, ∀ x ∈ e.2.bounds, x.isFinite = true := fun e he x hx =>
        hfinite x (List.mem_flatMap.2 ⟨e, he, hx⟩)
      rw [mapM_eq_ok_iff]
      clear hv hr
      generalize r.fields = fields at h hfinite ⊢
      induction h with
      | nil => exact .nil
      | cons hitem _ ih =>
        rw [List.forall_mem_cons] at hfinite
        exact .cons (FieldConfig.decode_of_toJson hfinite.1 hitem) (ih hfinite.2)
    rw [decode, Nat.add_sub_cancel, hfields]
    simp only [bind, Except.bind, ofList, Keyed.ofList_eq_self hr.2, hr.1]

end Registry

/-! ### Tables -/

namespace Table

variable {t : Table} {depth : Nat} {v : Reading}

/-- **A table is read back** from what was read of its text. -/
theorem decode_of_toJson (hread : t.fields.IsRead)
    (hfinite : ∀ x ∈ t.fields.bounds, x.isFinite = true)
    (hv : v.toJson depth = .ok t.toJson) : decode depth v = .ok t := by
  obtain ⟨id, queryKey, fields⟩ := t
  cases Reading.gives_of_toJson hv with
  | @object d rs _ hentries =>
    have hfields (key : Option (Option String)) {rs : List (Except Json.Fault String × Reading)}
        (hentries : List.Forall₂ (fun r e => r.1 = .ok e.1 ∧ r.2.toJson d = .ok e.2) rs
          [("fields", fields.toJson)]) :
        decodeEntries d (some id) key none rs = .ok ⟨id, key.getD none, fields⟩ := by
      obtain ⟨⟨_, w⟩, _, ⟨rfl, hw⟩, hnone, rfl⟩ := List.forall₂_cons_right_iff.1 hentries
      obtain rfl := List.forall₂_nil_right_iff.1 hnone
      simp [decodeEntries, Registry.decode_of_toJson hread hfinite hw, bind, Except.bind]
    obtain ⟨⟨_, _⟩, rs, ⟨rfl, hid⟩, hothers, rfl⟩ := List.forall₂_cons_right_iff.1 hentries
    cases Reading.gives_of_toJson hid
    cases queryKey with
    | none => exact hfields none hothers
    | some key =>
      obtain ⟨⟨_, _⟩, rs, ⟨rfl, hkey⟩, hlast, rfl⟩ := List.forall₂_cons_right_iff.1 hothers
      cases Reading.gives_of_toJson hkey
      exact hfields (some (some key)) hlast

end Table

end TableFilter
