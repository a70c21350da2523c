import TableFilter.Proofs.Condition.Fragment
import TableFilter.Proofs.Document.Rereading

/-!
# The scalars of compiled documents

Whatever holds of every text and boolean holds of the scalars in the fragment of a condition, and in
the fragment of a balance if it holds of its amount as well (`Condition.all_of_fragment?`). So the
number that a balance may hold is such as JSON data holds (`Conditions.isStored_document`), and no
other variant compiles to a number (`Condition.reread_of_fragment?`).
-/

namespace TableFilter

/-- A finite value that is read from a text makes a scalar that JSON data holds. -/
theorem Scalar.isStored_ofReal {x : Number.Binary64} (hfinite : x.isFinite = true)
    (hproper : x.IsProper) : (ofReal x).IsStored := by
  unfold ofReal
  split
  · next n _ =>
    split
    · next hn =>
      change -2 ^ 63 ≤ n ∧ n < 2 ^ 64
      rw [Nat.pow_eq] at hn
      omega
    · exact ⟨hfinite, hproper⟩
  · rw [if_pos hfinite]
    exact ⟨hfinite, hproper⟩

namespace Document

/-- Whether something holds of every scalar in the document. -/
def HasAll (P : Scalar → Prop) (d : Document) : Prop :=
  ∀ fields ∈ d.leaves, ∀ e ∈ fields, P e.2

variable {P : Scalar → Prop} {field : String} {value : Scalar}

theorem hasAll_leaf (test : Test) (field : String) (h : P value) :
    (leaf test [(field, value)]).HasAll P := by
  intro fields hf e he
  rw [List.mem_singleton.1 hf, List.mem_singleton] at he
  rwa [he]

theorem hasAll_combine {ds : List Document} (h : ∀ d ∈ ds, d.HasAll P) (join : Join) :
    (combine join ds).HasAll P :=
  forall_leaves_combine h join

end Document

open Document

section

variable {P : Scalar → Prop} (hbool : ∀ b, P (.bool b)) (hstring : ∀ s, P (.string s))
include hbool

theorem Operator.hasAll_fragment (op : Operator) (field : String) {value : Scalar}
    (h : op.isPresence = true ∨ P value) : (op.fragment field value).HasAll P := by
  cases op with
  | lt | lte | gt | gte | eq | isBetween | unknown =>
    exact hasAll_leaf _ field (h.resolve_left nofun)
  | ne => exact hasAll_leaf .equal field (h.resolve_left nofun)
  | isEmpty | isNotEmpty => exact hasAll_leaf .present field (hbool true)

theorem Operator.hasAll_fragmentOf (op : Operator) (field : String) {scalar : String → Scalar}
    (h : ∀ s, P (scalar s)) (value : Value) : (op.fragmentOf scalar field value).HasAll P := by
  unfold fragmentOf
  split
  · split
    · next low high =>
      exact hasAll_combine (List.forall_mem_cons.2 ⟨hasAll_leaf _ field (h low),
        List.forall_mem_singleton.2 (hasAll_leaf _ field (h high))⟩) .and
    · exact hasAll_leaf _ field (h _)
  · exact op.hasAll_fragment hbool field (.inr (h _))

include hstring

theorem Operator.hasAll_balanceFragment (op : Operator) (asset amount : String)
    (h : ∀ x : Number.Binary64, x.isFinite = true → x.IsProper → P (.ofReal x)) :
    (op.balanceFragment asset amount).HasAll P := by
  unfold balanceFragment
  dsimp only
  split
  · next hp => exact op.hasAll_fragment hbool _ (.inl hp)
  split
  · next x hx =>
    split
    · next hfinite =>
      exact op.hasAll_fragment hbool _
        (.inr (h x hfinite (Number.Binary64.isProper_of_ofText? hx)))
    · exact hasAll_leaf _ _ (hstring amount)
  · exact hasAll_leaf _ _ (hstring amount)

omit hbool in
theorem DateRange.hasAll_of_fragment? {field : String} {r : DateRange} {d : Document}
    (h : r.fragment? field = some d) : d.HasAll P := by
  have hbounds : ∀ d ∈ ((filled? r.start).map fun s => compare .gte field (.string s)).toList ++
      ((filled? r.stop).map fun s => compare .lte field (.string (Calendar.endOfDay s))).toList,
      d.HasAll P := by
    intro d hd
    rcases List.mem_append.1 hd with hd | hd
    · obtain ⟨s, -, rfl⟩ := Option.map_eq_some_iff.1 (Option.mem_toList.1 hd)
      exact hasAll_leaf _ field (hstring s)
    · obtain ⟨s, -, rfl⟩ := Option.map_eq_some_iff.1 (Option.mem_toList.1 hd)
      exact hasAll_leaf _ field (hstring _)
  unfold fragment? at h
  dsimp only at h
  split at h
  · cases h
  · obtain rfl := Option.some.inj h
    exact hasAll_combine hbounds .and

omit hbool in
theorem Operator.hasAll_of_choiceFragment? {op : Operator} {field : String} {value : Value}
    {d : Document} (h : op.choiceFragment? field value = some d) : d.HasAll P := by
  unfold choiceFragment? at h
  split at h
  · cases h
  · have hchoice : (combine .or (value.chosen.map fun s => equal field (.string s))).HasAll P := by
      refine hasAll_combine (fun d hd => ?_) .or
      obtain ⟨s, -, rfl⟩ := List.mem_map.1 hd
      exact hasAll_leaf _ field (hstring s)
    obtain rfl := Option.some.inj h
    split
    · exact hchoice
    · exact hchoice

/-- **What holds of texts and booleans holds of the scalars in a fragment,** and in that of a balance
if it holds of the amount. -/
theorem Condition.hasAll_of_fragment? {c : Condition} {d : Document} (h : c.fragment? = some d)
    (hamount : c.variant = .balanceByAsset → ∀ x : Number.Binary64, x.isFinite = true →
      x.IsProper → P (.ofReal x)) : d.HasAll P := by
  have hcompiled := c.compiled
  rw [h] at hcompiled
  generalize ho : some d = o at hcompiled
  cases hcompiled with
  | equality field s _ =>
    cases ho
    exact hasAll_leaf _ field (hstring s)
  | scalar hs _ =>
    cases ho
    refine c.operator.hasAll_fragmentOf hbool c.field (fun s => ?_) c.value
    rcases hs with rfl | rfl
    · exact hstring s
    · unfold Scalar.ofBooleanText
      split
      · exact hbool true
      split
      · exact hbool false
      · exact hstring s
  | amount asset amount hv =>
    cases ho
    exact c.operator.hasAll_balanceFragment hbool hstring asset amount (hamount hv)
  | dates hv hop =>
    obtain ⟨r, -, hr⟩ := Option.bind_eq_some_iff.1 ho.symm
    exact DateRange.hasAll_of_fragment? hstring hr
  | choice hc => exact Operator.hasAll_of_choiceFragment? hstring ho.symm

end

namespace Condition

variable {c : Condition} {d : Document}

/-- The numbers in a fragment are such as JSON data holds. -/
theorem isStored_of_fragment? (h : c.fragment? = some d) : d.IsStored :=
  hasAll_of_fragment? (fun _ => trivial) (fun _ => trivial) h
    fun _ _ hfinite hproper => Scalar.isStored_ofReal hfinite hproper

/-- **Only a balance compiles to a number,** so that the fragment of another variant is read as it
is. -/
theorem reread_of_fragment? (h : c.fragment? = some d) (hv : c.variant ≠ .balanceByAsset) :
    d.reread = d := by
  have hsame : d.HasAll fun s => s.reread = s :=
    hasAll_of_fragment? (fun _ => rfl) (fun _ => rfl) h fun hbalance => absurd hbalance hv
  exact reread_eq_self hsame

end Condition

theorem Conditions.isStored_document (cs : Conditions) (r : Registry) :
    (cs.document r).IsStored := by
  refine hasAll_combine (fun d hd => ?_) cs.join
  obtain ⟨c, -, hc⟩ := List.mem_filterMap.1 hd
  exact Condition.isStored_of_fragment? hc

end TableFilter
