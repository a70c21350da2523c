import TableFilter.Proofs.Condition.Recovery

/-!
# Conditions compiled and read back

The text that conditions compile to gives back what the texts of their fragments give one by one
(`Conditions.ofText_text_concatenates`). Nothing is lost, repeated or moved, and the join is an
alternative exactly if the conditions were joined by one or a choice makes one. Only a floating-point
amount of a balance may come back as a neighbour of itself, as the reader of JSON rounds twice.

* `Condition.subject` is what a condition asks about, without its value.
* `Document.hasAny_combine` and `Condition.hasAny_of_fragment?` say where an alternative can occur
  (`Conditions.exists_hasAny_iff`).
-/

namespace TableFilter

/-- What a condition asks about: its field, variant and operator. -/
def Condition.subject (c : Condition) : String × Variant × Operator :=
  (c.field, c.variant, c.operator)

/-! ### Conditions of documents -/

namespace Document

theorem conditions_combine (join : Join) (ds : List Document) :
    (combine join ds).conditions = ds.flatMap conditions := by
  rw [conditions_eq, questions_combine, List.map_flatMap]
  exact List.flatMap_congr fun d _ => d.conditions_eq.symm

/-- The conditions of a sound document are some, and exchanging its numbers does not change what they
ask about. -/
theorem IsSound.conditions_reread {d : Document} (h : d.IsSound) :
    d.reread.conditions.map Condition.subject = d.conditions.map Condition.subject := by
  have hlist {ds : List Document}
      (ih : ∀ d ∈ ds, d.reread.conditions.map Condition.subject =
        d.conditions.map Condition.subject) :
      (conditionsOf (rereads ds)).map Condition.subject =
        (conditionsOf ds).map Condition.subject := by
    rw [conditionsOf_eq, conditionsOf_eq, rereads_eq, List.flatMap_map, List.map_flatMap,
      List.map_flatMap]
    exact List.flatMap_congr ih
  induction h with
  | @leaf test field value _ hpresent _ =>
    cases test with
    | equal | compare c => rfl
    | present =>
      obtain rfl := hpresent rfl
      rfl
  | not h ih => exact ih
  | all h ih => exact hlist ih
  | any h ih => exact hlist ih

theorem IsFragmentOn.conditions_ne_nil {field : String} {d : Document} (h : d.IsFragmentOn field) :
    d.conditions ≠ [] := by
  have hchoice {values : List Scalar} (hlen : 2 ≤ values.length) :
      conditionsOf (values.map (.equal field)) ≠ [] := by
    obtain ⟨v, vs, rfl⟩ := List.exists_cons_of_length_pos (by omega : 0 < values.length)
    exact List.cons_ne_nil _ _
  cases h with
  | leaf h => cases h <;> exact List.cons_ne_nil _ _
  | notEqual _ | notPresent | bounds _ _ => exact List.cons_ne_nil _ _
  | choice hlen _ | notChoice hlen _ => exact hchoice hlen

/-! ### Alternatives -/

theorem someHasAny_iff (ds : List Document) : someHasAny ds = true ↔ ∃ d ∈ ds, d.hasAny = true := by
  induction ds with
  | nil => simp [someHasAny]
  | cons d ds ih => simp [someHasAny, ih]

/-- **An alternative occurs in joined documents** if they are joined by one, or if it occurs in one of
them. -/
theorem hasAny_combine (join : Join) (ds : List Document) :
    (combine join ds).hasAny = true ↔
      join = .or ∧ 2 ≤ ds.length ∨ ∃ d ∈ ds, d.hasAny = true := by
  rcases length_cases ds with rfl | ⟨d, rfl⟩ | hlen
  · simp [combine, hasAny]
  · simp [combine]
  · rw [combine_of_two_le hlen]
    cases join with
    | and => simp [hasAny, someHasAny_iff]
    | or => simp [hasAny, hlen]

end Document

open Document

theorem Value.two_le_length_chosen_iff (v : Value) : 2 ≤ v.chosen.length ↔
    ∃ items, v = .list items ∧ 2 ≤ (items.filter (!·.isEmpty)).length := by
  cases v with
  | list items => simp [chosen]
  | text s | pair key value =>
    refine iff_of_false ?_ (by simp)
    unfold chosen
    dsimp only
    split <;> simp

namespace Operator

theorem hasAny_fragment (op : Operator) (field : String) (value : Scalar) :
    (op.fragment field value).hasAny = false := by
  cases op <;> rfl

theorem hasAny_fragmentOf (op : Operator) (scalar : String → Scalar) (field : String)
    (value : Value) : (op.fragmentOf scalar field value).hasAny = false := by
  unfold fragmentOf
  split
  · split <;> rfl
  · exact op.hasAny_fragment _ _

theorem hasAny_balanceFragment (op : Operator) (asset amount : String) :
    (op.balanceFragment asset amount).hasAny = false := by
  unfold balanceFragment
  dsimp only
  split
  · exact op.hasAny_fragment _ _
  split
  · split
    · exact op.hasAny_fragment _ _
    · rfl
  · rfl

theorem hasAny_of_choiceFragment? {op : Operator} {field : String} {value : Value} {d : Document}
    (h : op.choiceFragment? field value = some d) :
    d.hasAny = true ↔ 2 ≤ value.chosen.length := by
  have hchoice : (combine .or (value.chosen.map fun s => equal field (.string s))).hasAny = true ↔
      2 ≤ value.chosen.length := by
    have hnone : ¬∃ d ∈ value.chosen.map fun s => equal field (.string s), d.hasAny = true := by
      rintro ⟨d, hd, hany⟩
      obtain ⟨s, -, rfl⟩ := List.mem_map.1 hd
      cases hany
    rw [hasAny_combine, or_iff_left hnone, List.length_map]
    exact and_iff_right rfl
  unfold choiceFragment? at h
  split at h
  · cases h
  · obtain rfl := Option.some.inj h
    split
    · exact hchoice
    · exact hchoice

end Operator

theorem DateRange.hasAny_of_fragment? {field : String} {r : DateRange} {d : Document}
    (h : r.fragment? field = some d) : d.hasAny = false := by
  unfold fragment? at h
  cases hlow : filled? r.start <;> cases hhigh : filled? r.stop <;>
    simp only [hlow, hhigh, Option.map_none, Option.map_some, Option.toList_none,
      Option.toList_some, List.nil_append, List.append_nil, List.singleton_append] at h <;> cases h
  · rfl
  · rfl
  · rfl

namespace Condition

variable {c : Condition} {d : Document}

/-- **An alternative occurs in a fragment** exactly if it is a choice of several options. -/
theorem hasAny_of_fragment? (h : c.fragment? = some d) :
    d.hasAny = true ↔ c.IsChoice ∧
      ∃ items, c.value = .list items ∧ 2 ≤ (items.filter (!·.isEmpty)).length := by
  rw [← Value.two_le_length_chosen_iff]
  have hcompiled := c.compiled
  rw [h] at hcompiled
  generalize ho : some d = o at hcompiled
  have hfalse (hany : d.hasAny = false) (hc : ¬c.IsChoice) :
      d.hasAny = true ↔ c.IsChoice ∧ 2 ≤ c.value.chosen.length := by
    simp [hany, hc]
  cases hcompiled with
  | equality field s hc =>
    cases ho
    exact hfalse rfl hc
  | scalar _ hc =>
    cases ho
    exact hfalse (c.operator.hasAny_fragmentOf _ _ _) hc
  | amount asset amount hv =>
    cases ho
    refine hfalse (c.operator.hasAny_balanceFragment _ _) fun hc => ?_
    exact absurd (hv.symm.trans hc.variant) nofun
  | dates hv hop =>
    obtain ⟨r, -, hr⟩ := Option.bind_eq_some_iff.1 ho.symm
    refine hfalse (DateRange.hasAny_of_fragment? hr) fun hc => ?_
    exact absurd (hv.symm.trans hc.variant) nofun
  | choice hc =>
    rw [Operator.hasAny_of_choiceFragment? ho.symm]
    simp [hc]

/-- A fragment whose floating-point numbers are read as themselves is itself read so. -/
theorem reread_of_reals (h : c.fragment? = some d)
    (hreals : d.HasAll fun s => ∀ x, s = .number (.real x) → s.reread = s) : d.reread = d := by
  refine reread_eq_self fun fields hf e he => ?_
  have hstored := isStored_of_fragment? h fields hf e he
  have hreal := hreals fields hf e he
  cases hs : e.2 with
  | number n =>
    cases n with
    | integer n =>
      rw [hs] at hstored
      exact congrArg Scalar.number (Json.Number.reread_of_isWord (n := .integer n) hstored)
    | real x => exact hs ▸ hreal x hs
  | _ => rfl

/-- The conditions that a text field and a number field are compared by come back as they are. -/
theorem conditions_of_text {s : String} (hs : c.value = .text s)
    (hc : c.variant = .text ∧ c.operator = .eq ∨
      c.variant = .number ∧ c.operator ∈ [.lt, .lte, .gt, .gte]) :
    ∃ d, c.fragment? = some d ∧ d.conditions = [c] := by
  obtain ⟨field, variant, operator, value⟩ := c
  obtain rfl : value = .text s := hs
  rcases hc with ⟨hv, hop⟩ | ⟨hv, hop⟩
  · obtain rfl : variant = .text := hv
    obtain rfl : operator = .eq := hop
    exact ⟨_, rfl, rfl⟩
  · obtain rfl : variant = .number := hv
    simp only [List.mem_cons, List.not_mem_nil, or_false] at hop
    rcases hop with rfl | rfl | rfl | rfl <;> exact ⟨_, rfl, rfl⟩

end Condition

namespace Conditions

/-- The text of a fragment gives the conditions of the fragment with its numbers exchanged. -/
theorem ofText_fragment_text {c : Condition} {d : Document} (h : c.fragment? = some d) :
    ofText d.text = ofDocument d.reread :=
  have hfragment := Condition.isFragment_of_fragment? h
  ofText_document_text hfragment.inOrder (Condition.isStored_of_fragment? h)
    (hfragment.nesting_le.trans (by decide))

/-- **An alternative occurs in a fragment of a query** exactly if a condition that folds into it is a
choice of several options. -/
theorem exists_hasAny_iff (r : Registry) (cs : List Condition) :
    (∃ d ∈ fragments r cs, d.hasAny = true) ↔
      ∃ c ∈ cs, r.isStandalone c.field = false ∧ c.IsChoice ∧
        ∃ items, c.value = .list items ∧ 2 ≤ (items.filter (!·.isEmpty)).length := by
  constructor
  · rintro ⟨d, hd, hany⟩
    obtain ⟨c, hmem, hc⟩ := List.mem_filterMap.1 hd
    rw [List.mem_filter, Bool.not_eq_true'] at hmem
    exact ⟨c, hmem.1, hmem.2, (Condition.hasAny_of_fragment? hc).1 hany⟩
  · rintro ⟨c, hmem, hown, hc, items, hitems, hlen⟩
    -- Several options are chosen, so there is a fragment.
    have hsome : c.fragment? ≠ none := by
      rw [Condition.fragment?_of_isChoice hc, ne_eq, Operator.choiceFragment?_eq_none_iff]
      intro hnil
      have htwo := c.value.two_le_length_chosen_iff.2 ⟨items, hitems, hlen⟩
      rw [hnil] at htwo
      cases htwo
    obtain ⟨d, hd⟩ := Option.ne_none_iff_exists'.1 hsome
    have hkept : c ∈ cs.filter fun c => !r.isStandalone c.field :=
      List.mem_filter.2 ⟨hmem, by simp [hown]⟩
    exact ⟨d, List.mem_filterMap.2 ⟨c, hkept, hd⟩,
      (Condition.hasAny_of_fragment? hd).2 ⟨hc, items, hitems, hlen⟩⟩

theorem join_ofDocument_eq_or_iff (d : Document) : (ofDocument d).join = .or ↔ d.hasAny = true := by
  unfold ofDocument
  cases d.hasAny <;> simp

/-- **What compiled conditions give back.** The text of conditions gives what the texts of their
fragments give, one after the other. The text of a fragment gives the conditions of the fragment with
its floating-point numbers exchanged for the ones that their texts denote: one condition at least,
and all of them but for their values. Nothing is exchanged if the fragment is not that of a balance
or its floating-point numbers are read as themselves. Equality of a text and comparison of a number
by order come back as they are. The join is an alternative if two fragments or more were joined so,
or if a choice among the conditions that fold into the query has several options. -/
theorem ofText_text_concatenates (cs : Conditions) (r : Registry) :
    (ofText (cs.text r)).conditions =
        (fragments r cs.conditions).flatMap (fun d => (ofText d.text).conditions) ∧
      (∀ (c : Condition) (d : Document), c.fragment? = some d →
        ofText d.text = ofDocument d.reread ∧ (ofDocument d).conditions ≠ [] ∧
        (ofDocument d.reread).conditions.map Condition.subject =
          (ofDocument d).conditions.map Condition.subject ∧
        (c.variant ≠ .balanceByAsset ∨
          d.HasAll (fun s => ∀ x, s = .number (.real x) → s.reread = s) → d.reread = d)) ∧
      (∀ (c : Condition) (s : String), c.value = .text s → (c.variant = .text ∧ c.operator = .eq ∨
          c.variant = .number ∧ c.operator ∈ [.lt, .lte, .gt, .gte]) →
        ∃ d, c.fragment? = some d ∧ (ofText d.text).conditions = [c]) ∧
      ((ofText (cs.text r)).join = .or ↔
        cs.join = .or ∧ 2 ≤ (fragments r cs.conditions).length ∨
          ∃ c ∈ cs.conditions, r.isStandalone c.field = false ∧ c.IsChoice ∧
            ∃ items, c.value = .list items ∧ 2 ≤ (items.filter (!·.isEmpty)).length) := by
  rw [ofText_text_eq_reread]
  refine ⟨?_, fun c d hd => ?_, fun c s hs hc => ?_, ?_⟩
  · rw [document, reread_combine]
    refine (conditions_combine _ _).trans ((List.flatMap_map _ _ _).trans ?_)
    refine List.flatMap_congr fun d hd => ?_
    obtain ⟨c, -, hc⟩ := List.mem_filterMap.1 hd
    rw [ofText_fragment_text hc]
    rfl
  · obtain ⟨field, hfragment⟩ := Condition.isFragmentOn_of_fragment? hd
    refine ⟨ofText_fragment_text hd, hfragment.conditions_ne_nil,
      hfragment.isSound.conditions_reread, ?_⟩
    rintro (hv | hreals)
    · exact Condition.reread_of_fragment? hd hv
    · exact Condition.reread_of_reals hd hreals
  · obtain ⟨d, hd, hconditions⟩ := Condition.conditions_of_text hs hc
    have hv : c.variant ≠ .balanceByAsset := by
      rcases hc with ⟨hv, -⟩ | ⟨hv, -⟩ <;> rw [hv] <;> decide
    refine ⟨d, hd, ?_⟩
    rw [ofText_fragment_text hd, Condition.reread_of_fragment? hd hv]
    exact hconditions
  · rw [join_ofDocument_eq_or_iff, hasAny_reread, document, hasAny_combine, exists_hasAny_iff]

/-- The amount `1e-23` comes back as the next value, as a power of ten is divided by: its fragment
alone gives it as it is. -/
theorem ofText_text_neighbour :
    let cs : Conditions := ⟨[⟨"balance", .balanceByAsset, .eq, .pair "USD" "1e-23"⟩], .and⟩
    (ofText (cs.text .empty)).conditions =
        [⟨"balance[USD]", .text, .eq, .text "1.0000000000000001e-23"⟩] ∧
      (fragments .empty cs.conditions).flatMap (fun d => (ofDocument d).conditions) =
        [⟨"balance[USD]", .text, .eq, .text "1e-23"⟩] ∧
      (ofText (cs.text .empty)).conditions ≠
        (fragments .empty cs.conditions).flatMap (fun d => (ofDocument d).conditions) := by
  decide +kernel

end Conditions

end TableFilter
