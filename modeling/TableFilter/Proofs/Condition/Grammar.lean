import TableFilter.Condition.Fragment

/-!
# The grammar of compiled documents

The documents that conditions compile to, whatever the conditions are: checked or not, of any
variant and operator and with a value of any shape.

* `Condition.Compiled` says once what a condition can compile to, by the way on which it comes
  about.
* `Document.IsFragmentOn` is the grammar of one fragment, all of whose leaves test the same field
  (`Condition.isFragmentOn_of_fragment?`), and `Document.IsJoined` the grammar of a document of
  fragments.
* A condition without a fragment has chosen nothing, or is a date range without bounds
  (`Condition.fragment?_eq_none_iff`).
-/

namespace TableFilter

/-! ### What a condition can compile to -/

/-- Whether a condition makes a choice of options: its variant is that of several options, and its
operator is known and does not ask for presence. -/
structure Condition.IsChoice (c : Condition) : Prop where
  variant : c.variant = .multiSelect
  known : c.operator ≠ .unknown
  presence : c.operator.isPresence = false

/-- What a condition can compile to, by the ways on which it comes about. -/
inductive Condition.Compiled (c : Condition) : Option Document → Prop
  | equality (field s : String) (hc : ¬c.IsChoice) : Compiled c (some (.equal field (.string s)))
  | scalar {scalar : String → Scalar} (h : scalar = .string ∨ scalar = .ofBooleanText)
      (hc : ¬c.IsChoice) : Compiled c (some (c.operator.fragmentOf scalar c.field c.value))
  | amount (asset amount : String) (hv : c.variant = .balanceByAsset) :
      Compiled c (some (c.operator.balanceFragment asset amount))
  | dates (hv : c.variant = .dateRange) (hop : c.operator ≠ .unknown) :
      Compiled c ((DateRange.ofText? c.value.toParam).bind (·.fragment? c.field))
  | choice (hc : c.IsChoice) : Compiled c (c.operator.choiceFragment? c.field c.value)

theorem Scalar.ofBooleanText_ne_null (s : String) : ofBooleanText s ≠ .null := by
  unfold ofBooleanText
  split
  · nofun
  split
  · nofun
  · nofun

/-- A finite value is not null as a scalar. -/
theorem Scalar.ofReal_ne_null {x : Number.Binary64} (h : x.isFinite = true) : ofReal x ≠ .null := by
  unfold ofReal
  split
  · split
    · nofun
    · nofun
  · rw [if_pos h]
    nofun

theorem Condition.compiled (c : Condition) : c.Compiled c.fragment? := by
  unfold fragment?
  split
  · next h =>
    refine .equality _ _ fun hc => ?_
    rcases h with h | h
    · exact hc.known h
    · rw [hc.variant] at h
      cases h
  next h =>
    rw [not_or] at h
    have hne {variant : Variant} (hv : c.variant = variant) (hm : variant ≠ .multiSelect) :
        ¬c.IsChoice := fun hc => hm (hv.symm.trans hc.variant)
    split
    · next hv => exact .scalar (.inr rfl) (hne hv nofun)
    · next hv _ => exact .equality _ _ (hne hv nofun)
    · next hv _ => exact .amount _ _ hv
    · next hv => exact .dates hv h.1
    · next hv =>
      split
      · next hp => exact .scalar (.inl rfl) fun hc => by simp [hc.presence] at hp
      · next hp => exact .choice ⟨hv, h.1, by simpa using hp⟩
    · next _ _ hv _ _ => exact .scalar (.inl rfl) fun hc => hv hc.variant

/-! ### Fragments -/

namespace Document

/-- A leaf that tests one field: a value, presence, or a comparison by order. -/
inductive IsLeafOn (field : String) : Document → Prop
  | equal {value : Scalar} (h : value ≠ .null) : IsLeafOn field (.equal field value)
  | present : IsLeafOn field (.present field)
  | compare {c : Comparison} {value : Scalar} (hc : c ≠ .ne) (h : value ≠ .null) :
      IsLeafOn field (.compare c field value)

/-- A fragment whose leaves all test one field: a leaf, the negation of one that is no comparison,
two bounds, or a choice of several values and its negation. -/
inductive IsFragmentOn (field : String) : Document → Prop
  | leaf {d : Document} (h : d.IsLeafOn field) : IsFragmentOn field d
  | notEqual {value : Scalar} (h : value ≠ .null) : IsFragmentOn field (.not (.equal field value))
  | notPresent : IsFragmentOn field (.not (.present field))
  | bounds {low high : Scalar} (hlow : low ≠ .null) (hhigh : high ≠ .null) :
      IsFragmentOn field (.all [.compare .gte field low, .compare .lte field high])
  | choice {values : List Scalar} (hlen : 2 ≤ values.length) (h : ∀ v ∈ values, v ≠ .null) :
      IsFragmentOn field (.any (values.map (.equal field)))
  | notChoice {values : List Scalar} (hlen : 2 ≤ values.length) (h : ∀ v ∈ values, v ≠ .null) :
      IsFragmentOn field (.not (.any (values.map (.equal field))))

variable {field : String} {d : Document}

theorem isFragmentOn_equal (field s : String) :
    (Document.equal field (.string s)).IsFragmentOn field :=
  .leaf (.equal nofun)

theorem combine_of_two_le {ds : List Document} (h : 2 ≤ ds.length) (join : Join) :
    combine join ds = match join with
      | .and => all ds
      | .or => any ds := by
  match ds, h with
  | _ :: _ :: _, _ => rfl

theorem length_cases {α : Type} (xs : List α) : xs = [] ∨ (∃ x, xs = [x]) ∨ 2 ≤ xs.length := by
  match xs with
  | [] => exact .inl rfl
  | [x] => exact .inr (.inl ⟨x, rfl⟩)
  | x :: y :: zs => exact .inr (.inr (by simp))

/-- Values to choose from are a fragment, and so is the negation of their choice. -/
theorem isFragmentOn_choice (field : String) {values : List Scalar} (hne : values ≠ [])
    (h : ∀ v ∈ values, v ≠ .null) :
    (combine .or (values.map (.equal field))).IsFragmentOn field ∧
      (not (combine .or (values.map (.equal field)))).IsFragmentOn field := by
  rcases length_cases values with rfl | ⟨v, rfl⟩ | hlen
  · exact absurd rfl hne
  · have hv := h v (List.mem_singleton_self v)
    exact ⟨.leaf (.equal hv), .notEqual hv⟩
  · rw [combine_of_two_le ((List.length_map _).symm ▸ hlen)]
    exact ⟨.choice hlen h, .notChoice hlen h⟩

end Document

open Document

namespace Operator

variable (op : Operator) {field : String}

theorem isFragmentOn_fragment {scalar : Scalar} (h : op.isPresence = true ∨ scalar ≠ .null) :
    (op.fragment field scalar).IsFragmentOn field := by
  cases op with
  | lt | lte | gt | gte => exact .leaf (.compare (by decide) (h.resolve_left nofun))
  | eq | isBetween | unknown => exact .leaf (.equal (h.resolve_left nofun))
  | ne => exact .notEqual (h.resolve_left nofun)
  | isEmpty => exact .notPresent
  | isNotEmpty => exact .leaf .present

theorem isFragmentOn_fragmentOf {scalar : String → Scalar} (h : ∀ s, scalar s ≠ .null)
    (value : Value) : (op.fragmentOf scalar field value).IsFragmentOn field := by
  unfold fragmentOf
  split
  · split
    · next low high => exact .bounds (h low) (h high)
    · next v => exact .leaf (.equal (h _))
  · exact op.isFragmentOn_fragment (.inr (h _))

theorem isFragmentOn_balanceFragment (asset amount : String) :
    (op.balanceFragment asset amount).IsFragmentOn ("balance[" ++ asset ++ "]") := by
  unfold balanceFragment
  dsimp only
  split
  · next hp => exact op.isFragmentOn_fragment (.inl hp)
  split
  · split
    · next hx => exact op.isFragmentOn_fragment (.inr (Scalar.ofReal_ne_null hx))
    · exact isFragmentOn_equal _ _
  · exact isFragmentOn_equal _ _

theorem isFragmentOn_of_choiceFragment? {op : Operator} {value : Value} {d : Document}
    (h : op.choiceFragment? field value = some d) : d.IsFragmentOn field := by
  unfold choiceFragment? at h
  split at h
  · cases h
  · next hne =>
    have hvalues : value.chosen.map Scalar.string ≠ [] := fun h => hne (List.map_eq_nil_iff.1 h)
    have hnull : ∀ v ∈ value.chosen.map Scalar.string, v ≠ .null := by
      intro v hv
      obtain ⟨s, -, rfl⟩ := List.mem_map.1 hv
      nofun
    have hchoice := isFragmentOn_choice field hvalues hnull
    rw [List.map_map] at hchoice
    obtain rfl := Option.some.inj h
    split
    · exact hchoice.2
    · exact hchoice.1

theorem choiceFragment?_eq_none_iff {op : Operator} {value : Value} :
    op.choiceFragment? field value = none ↔ value.chosen = [] := by
  unfold choiceFragment?
  split
  · next h => simp [h]
  · next h => simpa using h

end Operator

namespace DateRange

variable {field : String} {r : DateRange}

theorem isFragmentOn_of_fragment? {d : Document} (h : r.fragment? field = some d) :
    d.IsFragmentOn field := by
  unfold fragment? at h
  cases hlow : filled? r.start <;> cases hhigh : filled? r.stop <;>
    simp only [hlow, hhigh, Option.map_none, Option.map_some, Option.toList_none,
      Option.toList_some, List.nil_append, List.append_nil, List.singleton_append] at h <;> cases h
  · exact .leaf (.compare (by decide) nofun)
  · exact .leaf (.compare (by decide) nofun)
  · exact .bounds nofun nofun

theorem fragment?_eq_none_iff :
    r.fragment? field = none ↔ filled? r.start = none ∧ filled? r.stop = none := by
  unfold fragment?
  cases filled? r.start <;> cases filled? r.stop <;> simp

end DateRange

namespace Condition

variable {c : Condition} {d : Document}

/-- **A condition compiles to a fragment on one field.** -/
theorem isFragmentOn_of_fragment? (h : c.fragment? = some d) : ∃ field, d.IsFragmentOn field := by
  have hcompiled := c.compiled
  rw [h] at hcompiled
  generalize ho : some d = o at hcompiled
  cases hcompiled with
  | equality field s _ =>
    cases ho
    exact ⟨_, isFragmentOn_equal field s⟩
  | scalar hs _ =>
    cases ho
    refine ⟨_, c.operator.isFragmentOn_fragmentOf (fun s => ?_) c.value⟩
    rcases hs with rfl | rfl
    · nofun
    · exact Scalar.ofBooleanText_ne_null s
  | amount asset amount _ =>
    cases ho
    exact ⟨_, c.operator.isFragmentOn_balanceFragment asset amount⟩
  | dates hv hop =>
    obtain ⟨r, -, hr⟩ := Option.bind_eq_some_iff.1 ho.symm
    exact ⟨_, DateRange.isFragmentOn_of_fragment? hr⟩
  | choice hc => exact ⟨_, Operator.isFragmentOn_of_choiceFragment? ho.symm⟩

theorem fragment?_of_isChoice (h : c.IsChoice) :
    c.fragment? = c.operator.choiceFragment? c.field c.value := by
  have hknown : ¬(c.operator = .unknown ∨ c.variant = .unknown) := by
    rw [h.variant]
    exact fun hor => hor.elim h.known nofun
  unfold fragment?
  rw [if_neg hknown, h.variant]
  dsimp only
  rw [h.presence, if_neg Bool.false_ne_true]

/-- **A condition has no fragment exactly if it is a choice with nothing chosen or a date range
without bounds,** be it that the value is no range at all. -/
theorem fragment?_eq_none_iff (c : Condition) :
    c.fragment? = none ↔ c.IsChoice ∧ c.value.chosen = [] ∨
      (c.variant = .dateRange ∧ c.operator ≠ .unknown ∧
        ∀ r, DateRange.ofText? c.value.toParam = some r →
          DateRange.filled? r.start = none ∧ DateRange.filled? r.stop = none) := by
  constructor
  · intro h
    have hcompiled := c.compiled
    rw [h] at hcompiled
    generalize ho : (none : Option Document) = o at hcompiled
    cases hcompiled with
    | equality | scalar | amount => cases ho
    | dates hv hop =>
      refine .inr ⟨hv, hop, fun r hr => ?_⟩
      rw [hr, Option.bind_some] at ho
      exact DateRange.fragment?_eq_none_iff.1 ho.symm
    | choice hc => exact .inl ⟨hc, Operator.choiceFragment?_eq_none_iff.1 ho.symm⟩
  · rintro (⟨hc, hchosen⟩ | ⟨hv, hop, hr⟩)
    · rw [fragment?_of_isChoice hc]
      exact Operator.choiceFragment?_eq_none_iff.2 hchosen
    · have hknown : ¬(c.operator = .unknown ∨ c.variant = .unknown) := by
        rw [hv]
        exact fun hor => hor.elim hop nofun
      unfold fragment?
      rw [if_neg hknown, hv]
      dsimp only
      cases hrange : DateRange.ofText? c.value.toParam with
      | none => rfl
      | some r => exact DateRange.fragment?_eq_none_iff.2 (hr r hrange)

end Condition

/-! ### Documents of fragments -/

namespace Document

/-- A document of fragments under a join: none, one, or two and more of them wrapped. -/
inductive IsJoined (join : Join) : Document → Prop
  | empty : IsJoined join .empty
  | single {field : String} {d : Document} (h : d.IsFragmentOn field) : IsJoined join d
  | several {ds : List Document} (hlen : 2 ≤ ds.length)
      (h : ∀ d ∈ ds, ∃ field, d.IsFragmentOn field) :
      IsJoined join (match join with
        | .and => all ds
        | .or => any ds)

/-- A document with no empty one in it, all of whose leaves have one entry: no null, the scalar true
for presence, and no comparison by being different. -/
inductive IsSound : Document → Prop
  | leaf {test : Test} {field : String} {value : Scalar} (hnull : value ≠ .null)
      (hpresent : test = .present → value = .bool true) (hne : test ≠ .compare .ne) :
      IsSound (.leaf test [(field, value)])
  | not {d : Document} (h : d.IsSound) : IsSound (.not d)
  | all {ds : List Document} (h : ∀ d ∈ ds, d.IsSound) : IsSound (.all ds)
  | any {ds : List Document} (h : ∀ d ∈ ds, d.IsSound) : IsSound (.any ds)

variable {field : String} {d : Document} {join : Join}

theorem IsLeafOn.isSound (h : d.IsLeafOn field) : d.IsSound := by
  cases h with
  | equal h => exact .leaf h nofun nofun
  | present => exact .leaf nofun (fun _ => rfl) nofun
  | compare hc h => exact .leaf h nofun fun heq => hc (Test.compare.inj heq)

theorem isSound_choice {values : List Scalar} (h : ∀ v ∈ values, v ≠ .null) :
    ∀ d ∈ values.map (Document.equal field), d.IsSound := by
  intro d hd
  obtain ⟨v, hv, rfl⟩ := List.mem_map.1 hd
  exact IsLeafOn.isSound (.equal (h v hv))

theorem IsFragmentOn.isSound (h : d.IsFragmentOn field) : d.IsSound := by
  cases h with
  | leaf h => exact h.isSound
  | notEqual h => exact .not (IsLeafOn.isSound (.equal h))
  | notPresent => exact .not (IsLeafOn.isSound .present)
  | bounds hlow hhigh =>
    refine .all (List.forall_mem_cons.2 ⟨IsLeafOn.isSound (.compare (by decide) hlow), ?_⟩)
    exact List.forall_mem_singleton.2 (IsLeafOn.isSound (.compare (by decide) hhigh))
  | choice _ h => exact .any (isSound_choice h)
  | notChoice _ h => exact .not (.any (isSound_choice h))

theorem IsJoined.isSound (h : d.IsJoined join) (hne : d ≠ .empty) : d.IsSound := by
  cases h with
  | empty => exact absurd rfl hne
  | single h => exact h.isSound
  | several hlen h =>
    have hall : ∀ d ∈ _, IsSound d := fun d hd => (h d hd).choose_spec.isSound
    cases join with
    | and => exact .all hall
    | or => exact .any hall

theorem isJoined_combine {ds : List Document} (h : ∀ d ∈ ds, ∃ field, d.IsFragmentOn field) :
    (combine join ds).IsJoined join := by
  rcases length_cases ds with rfl | ⟨d, rfl⟩ | hlen
  · exact .empty
  · obtain ⟨field, hd⟩ := h d (List.mem_singleton_self d)
    exact .single hd
  · rw [combine_of_two_le hlen]
    exact .several hlen h

theorem combine_eq_empty_iff {ds : List Document} (h : ∀ d ∈ ds, d ≠ .empty) :
    combine join ds = .empty ↔ ds = [] := by
  rcases length_cases ds with rfl | ⟨d, rfl⟩ | hlen
  · exact iff_of_true rfl rfl
  · exact iff_of_false (h d (List.mem_singleton_self d)) nofun
  · rw [combine_of_two_le hlen]
    refine iff_of_false ?_ (by rintro rfl; cases hlen)
    cases join <;> nofun

/-- Every document has a text. -/
theorem text_ne_empty (d : Document) : d.text ≠ "" := by
  have hobject : ∃ entries, d.toJson = .object entries := by
    cases d <;> exact ⟨_, rfl⟩
  obtain ⟨entries, hd⟩ := hobject
  rw [text, hd, Json.text]
  intro h
  have hlist := congrArg String.toList h
  rw [String.toList_ofList] at hlist
  cases hlist

end Document

namespace Conditions

theorem isFragmentOn_of_mem {r : Registry} {cs : List Condition} {d : Document}
    (h : d ∈ fragments r cs) : ∃ field, d.IsFragmentOn field := by
  obtain ⟨c, -, hc⟩ := List.mem_filterMap.1 h
  exact Condition.isFragmentOn_of_fragment? hc

theorem document_eq_empty_iff (cs : Conditions) (r : Registry) :
    cs.document r = .empty ↔ fragments r cs.conditions = [] := by
  refine combine_eq_empty_iff fun d hd => ?_
  obtain ⟨field, hfragment⟩ := isFragmentOn_of_mem hd
  rintro rfl
  cases hfragment.isSound

theorem text_eq_empty_iff (cs : Conditions) (r : Registry) :
    cs.text r = "" ↔ cs.document r = .empty := by
  have hempty : (cs.document r).isEmpty = true ↔ cs.document r = .empty := by
    cases cs.document r <;> simp [Document.isEmpty]
  rw [← hempty, text]
  split
  · next h => exact iff_of_true rfl h
  · next h => exact iff_of_false (text_ne_empty _) h

/-- **Compiled documents follow a grammar,** whatever the conditions are. The document is empty
exactly if no condition that folds into the query has a fragment, and exactly then its text is empty.
Otherwise it is one fragment, or several of them under the join; and nowhere in it is there an empty
document, a leaf without a single entry, a null, a presence that is not asked for by true, or a
comparison by being different. A condition lacks a fragment only if it is a choice with nothing
chosen, or a date range whose value is none or has no bound. -/
theorem document_grammar (cs : Conditions) (r : Registry) :
    (cs.document r).IsJoined cs.join ∧
      (cs.document r = .empty ↔ fragments r cs.conditions = []) ∧
      (cs.text r = "" ↔ cs.document r = .empty) ∧
      (cs.document r ≠ .empty → (cs.document r).IsSound) ∧
      (∀ d ∈ fragments r cs.conditions, ∃ field, d.IsFragmentOn field) ∧
      ∀ c ∈ cs.conditions, r.isStandalone c.field = false →
        (c.fragment? = none ↔ c.IsChoice ∧ c.value.chosen = [] ∨
          (c.variant = .dateRange ∧ c.operator ≠ .unknown ∧
            ∀ range, DateRange.ofText? c.value.toParam = some range →
              DateRange.filled? range.start = none ∧ DateRange.filled? range.stop = none)) := by
  have hjoined : (cs.document r).IsJoined cs.join :=
    isJoined_combine fun _ hd => isFragmentOn_of_mem hd
  exact ⟨hjoined, cs.document_eq_empty_iff r, cs.text_eq_empty_iff r, hjoined.isSound,
    fun _ hd => isFragmentOn_of_mem hd, fun c _ _ => c.fragment?_eq_none_iff⟩

end Conditions

end TableFilter
