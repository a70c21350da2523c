import TableFilter.Proofs.Condition.Recovery

/-!
# Conditions that survive a reload

Conditions compile to a text, and the text gives conditions again, though not the same ones.
Compiling those gives the first text again exactly when nothing was lost on the way
(`Conditions.text_ofText_text_iff`): every fragment is *plain*, or a single one bundles plain tests.
-/

namespace TableFilter

namespace Document

/-- Whether the document is a test of a field that the compiled query keeps, and the test reads the
same after a reload: its scalar is a text, or it asks for presence. -/
def IsPlain (r : Registry) : Document → Prop
  | leaf .equal [(field, .string _)] => r.isStandalone field = false
  | leaf (.compare _) [(field, .string _)] => r.isStandalone field = false
  | leaf .present [(field, .bool true)] => r.isStandalone field = false
  | _ => False

/-- A plain test has one question, on a field of the compiled query, and is what its condition
compiles to. -/
theorem IsPlain.questions {r : Registry} {d : Document} (h : d.IsPlain r) (htest : d.IsTest) :
    ∃ q, d.questions = [q] ∧ r.isStandalone q.field = false ∧ q.recovered = d := by
  obtain ⟨test, field, value, rfl, hne, -⟩ := htest.eq_leaf
  refine ⟨⟨test, field, value⟩, rfl, ?_⟩
  unfold IsPlain at h
  split at h
  · next heq =>
    cases heq
    exact ⟨h, rfl⟩
  · next c f s heq =>
    cases heq
    refine ⟨h, ?_⟩
    cases c with
    | ne => exact absurd rfl hne
    | _ => rfl
  · next heq =>
    cases heq
    exact ⟨h, rfl⟩
  · exact absurd h id

theorem IsTest.isPlain_recovered {r : Registry} {d : Document} (h : d.IsTest) {q : Question}
    (hq : q ∈ d.questions) (hown : r.isStandalone q.field = false) : q.recovered.IsPlain r := by
  obtain ⟨test, field, value, rfl, hne, hpresent⟩ := h.eq_leaf
  obtain rfl := List.mem_singleton.1 hq
  cases test with
  | equal => exact hown
  | compare c =>
    cases c with
    | ne => exact absurd rfl hne
    | _ => exact hown
  | present =>
    obtain rfl := hpresent rfl
    exact hown

theorem IsFragment.isPlain_recovered {r : Registry} {d : Document} (h : d.IsFragment) {q : Question}
    (hq : q ∈ d.questions) (hown : r.isStandalone q.field = false) : q.recovered.IsPlain r := by
  have htests {ds : List Document} (h : ∀ d ∈ ds, d.IsTest) (hq : q ∈ questionsOf ds) :
      q.recovered.IsPlain r := by
    rw [questionsOf_eq] at hq
    obtain ⟨d, hd, hq⟩ := List.mem_flatMap.1 hq
    exact (h d hd).isPlain_recovered hq hown
  cases h with
  | test h => exact h.isPlain_recovered hq hown
  | notTest h => exact h.isPlain_recovered hq hown
  | all _ h => exact htests h hq
  | any _ h => exact htests h hq
  | notAny _ h => exact htests h hq

theorem IsPlain.eq_leaf {r : Registry} {d : Document} (h : d.IsPlain r) :
    ∃ test field value, d = leaf test [(field, value)] ∧ ∀ n, value ≠ .number n := by
  unfold IsPlain at h
  split at h
  · exact ⟨_, _, _, rfl, fun _ => nofun⟩
  · exact ⟨_, _, _, rfl, fun _ => nofun⟩
  · exact ⟨_, _, _, rfl, fun _ => nofun⟩
  · exact absurd h id

theorem IsPlain.noNumbers {r : Registry} {d : Document} (h : d.IsPlain r) : d.NoNumbers := by
  obtain ⟨test, field, value, rfl, hvalue⟩ := h.eq_leaf
  exact noNumbers_singleton rfl hvalue

end Document

namespace Conditions

open Document

theorem recovered_plain {r : Registry} {ds : List Document} (h : ∀ d ∈ ds, d.IsPlain r)
    (htests : ∀ d ∈ ds, d.IsTest) :
    ((ds.flatMap questions).filter fun q => !r.isStandalone q.field).map Question.recovered =
      ds := by
  induction ds with
  | nil => rfl
  | cons d ds ih =>
    rw [List.forall_mem_cons] at h htests
    obtain ⟨q, hq, hown, hd⟩ := h.1.questions htests.1
    rw [List.flatMap_cons, hq, List.singleton_append, List.filter_cons, hown, Bool.not_false,
      if_pos rfl, List.map_cons, hd, ih h.2 htests.2]

theorem someHasAny_plain {r : Registry} {ds : List Document} (h : ∀ d ∈ ds, d.IsPlain r) :
    someHasAny ds = false := by
  induction ds with
  | nil => rfl
  | cons d ds ih =>
    rw [List.forall_mem_cons] at h
    obtain ⟨test, field, value, rfl, -⟩ := h.1.eq_leaf
    rw [someHasAny, ih h.2]
    rfl

/-- The conditions of plain tests compile to these tests again. -/
theorem document_plain {r : Registry} {ds : List Document} (h : ∀ d ∈ ds, d.IsPlain r)
    (htests : ∀ d ∈ ds, d.IsTest) (join : Join) :
    (ofDocument (combine join ds)).document r = combine join ds := by
  rw [document_ofDocument, questions_combine, recovered_plain h htests]
  rcases length_cases ds with rfl | ⟨d, rfl⟩ | hlen
  · rfl
  · rfl
  · cases join with
    | and =>
      rw [combine_of_two_le hlen .and]
      dsimp only
      rw [hasAny, someHasAny_plain h, combine_of_two_le hlen]
      rfl
    | or =>
      rw [combine_of_two_le hlen .or]
      dsimp only
      rw [hasAny, combine_of_two_le hlen]
      rfl

/-- Conditions that compile to plain tests survive a reload. -/
theorem text_of_plain {cs : Conditions} {r : Registry} {ds : List Document} {j : Join}
    (hdoc : cs.document r = combine j ds) (h : ∀ d ∈ ds, d.IsPlain r)
    (htests : ∀ d ∈ ds, d.IsTest) : (ofText (cs.text r)).text r = cs.text r := by
  have hword : (cs.document r).IsWord := by
    rw [hdoc]
    exact (noNumbers_combine (fun d hd => (h d hd).noNumbers) j).isWord
  have hagain : (ofText (cs.text r)).document r = cs.document r := by
    rw [ofText_text hword, hdoc, document_plain h htests j]
  exact text_congr hagain

/-- The conditions that a compiled document gives compile to plain tests. -/
theorem isPlain_of_ofDocument {cs : Conditions} {r : Registry} {d : Document}
    (h : d ∈ fragments r (ofDocument (cs.document r)).conditions) : d.IsPlain r := by
  rw [conditions_ofDocument, fragments_questions] at h
  obtain ⟨q, hq, rfl⟩ := List.mem_map.1 h
  rw [List.mem_filter, Bool.not_eq_true', document, questions_combine] at hq
  obtain ⟨fragment, hf, hq'⟩ := List.mem_flatMap.1 hq.1
  exact (isFragment_of_mem hf).isPlain_recovered hq' hq.2

/-- Conditions that survive a reload compile to the plain tests of their document. -/
theorem plain_of_text {cs : Conditions} {r : Registry}
    (h : (ofText (cs.text r)).text r = cs.text r) :
    ∃ join ds, cs.document r = combine join ds ∧ ∀ d ∈ ds, d.IsPlain r := by
  have hnumbers := noNumbers_document_ofText (cs.text r) r
  have hdoc := document_eq_of_text_eq hnumbers.numbers_eq_nil h.symm
  have hword : (cs.document r).IsWord := by
    rw [hdoc]
    exact hnumbers.isWord
  rw [ofText_text hword] at hdoc
  exact ⟨_, _, hdoc, fun d hd => isPlain_of_ofDocument hd⟩

/-- Conditions that survive a reload have plain fragments only, or a single one that bundles plain
tests. -/
theorem plain_or_bundle_of_text {cs : Conditions} {r : Registry}
    (h : (ofText (cs.text r)).text r = cs.text r) :
    (∀ d ∈ fragments r cs.conditions, d.IsPlain r) ∨
      ∃ ds, (fragments r cs.conditions = [.all ds] ∨ fragments r cs.conditions = [.any ds]) ∧
        ∀ d ∈ ds, d.IsPlain r := by
  obtain ⟨join, ds, hdoc, hplain⟩ := plain_of_text h
  rw [document] at hdoc
  rcases length_cases (fragments r cs.conditions) with hnil | ⟨f, hone⟩ | hmany
  · exact .inl fun d hd => absurd (hnil ▸ hd) List.not_mem_nil
  -- A single fragment is the whole document, and may itself be what the others would be bundled in.
  · have hf : f.IsFragment := isFragment_of_mem (hone ▸ List.mem_singleton_self f)
    rw [hone] at hdoc ⊢
    rcases length_cases ds with rfl | ⟨d, rfl⟩ | hlen
    · obtain rfl : f = .empty := hdoc
      cases hf with
      | test h => exact absurd h id
    · obtain rfl : f = d := hdoc
      exact .inl hplain
    · rw [combine_of_two_le hlen] at hdoc
      refine .inr ⟨ds, ?_, hplain⟩
      cases join with
      | and => exact .inl (congrArg (fun d => [d]) hdoc)
      | or => exact .inr (congrArg (fun d => [d]) hdoc)
  -- Several fragments are bundled, and so are the plain tests; then they are the same ones.
  · rw [combine_of_two_le hmany] at hdoc
    refine .inl ?_
    rcases length_cases ds with rfl | ⟨d, rfl⟩ | hlen
    · cases hj : cs.join <;> rw [hj] at hdoc <;> cases hdoc
    · obtain ⟨test, field, value, rfl, -⟩ := (hplain d (List.mem_singleton_self d)).eq_leaf
      cases hj : cs.join <;> rw [hj] at hdoc <;> cases hdoc
    · rw [combine_of_two_le hlen] at hdoc
      have hsame : fragments r cs.conditions = ds := by
        cases hj : cs.join <;> cases join <;> rw [hj] at hdoc <;> cases hdoc <;> rfl
      exact hsame ▸ hplain

/-- Conditions with plain fragments only survive a reload. -/
theorem text_of_plain_fragments {cs : Conditions} {r : Registry}
    (h : ∀ d ∈ fragments r cs.conditions, d.IsPlain r) :
    (ofText (cs.text r)).text r = cs.text r := by
  refine text_of_plain rfl h fun d hd => ?_
  have hshape := isFragment_of_mem hd
  obtain ⟨test, field, value, rfl, -⟩ := (h d hd).eq_leaf
  cases hshape with
  | test h => exact h

/-- **When conditions survive a reload.** The text of conditions is compiled from what it gives back
exactly when every fragment is a plain test, or there is a single fragment which asks for all or any
of several plain tests. -/
theorem text_ofText_text_iff (cs : Conditions) (r : Registry) :
    (ofText (cs.text r)).text r = cs.text r ↔
      (∀ d ∈ fragments r cs.conditions, d.IsPlain r) ∨
        ∃ ds, (fragments r cs.conditions = [.all ds] ∨ fragments r cs.conditions = [.any ds]) ∧
          ∀ d ∈ ds, d.IsPlain r := by
  refine ⟨plain_or_bundle_of_text, ?_⟩
  rintro (h | ⟨ds, hone | hone, h⟩)
  · exact text_of_plain_fragments h
  · have hd := isFragment_of_mem (hone ▸ List.mem_singleton_self _)
    cases hd with
    | test h => exact absurd h id
    | all hlen htests =>
      refine text_of_plain (j := .and) ?_ h htests
      rw [document, hone, combine_of_two_le hlen]
      rfl
  · have hd := isFragment_of_mem (hone ▸ List.mem_singleton_self _)
    cases hd with
    | test h => exact absurd h id
    | any hlen htests =>
      refine text_of_plain (j := .or) ?_ h htests
      rw [document, hone, combine_of_two_le hlen]
      rfl

/-! ### Conditions that were read -/

/-- **Reading a text back loses something once only.** -/
theorem text_ofText_twice (s : String) (r : Registry) :
    (ofText ((ofText ((ofText s).text r)).text r)).text r =
      (ofText ((ofText s).text r)).text r := by
  refine text_of_plain_fragments fun d hd => ?_
  rw [ofText_text_ofText s r] at hd
  exact isPlain_of_ofDocument hd

/-- A compiled text gives no conditions on the fields that stand outside the query. -/
theorem isStandalone_of_mem_ofText {s : String} {r : Registry} {c : Condition}
    (h : c ∈ (ofText ((ofText s).text r)).conditions) : r.isStandalone c.field = false := by
  obtain ⟨qs, hqs⟩ := conditions_ofText s
  rw [ofText_text_ofText, conditions_ofDocument] at h
  obtain ⟨again, hagain, rfl⟩ := List.mem_map.1 h
  rw [document, questions_combine, hqs, fragments_questions, List.mem_flatMap] at hagain
  obtain ⟨d, hd, hagain⟩ := hagain
  obtain ⟨q, hq, rfl⟩ := List.mem_map.1 hd
  obtain ⟨one, hone, hfield⟩ := q.questions_recovered
  rw [hone, List.mem_singleton] at hagain
  rw [again.field_condition, hagain, hfield]
  simpa using (List.mem_filter.1 hq).2

/-- The condition of a question compiles to a plain test unless it asks for being different or
absent. -/
theorem isPlain_recovered_iff {r : Registry} {q : Question}
    (hown : r.isStandalone q.field = false) :
    q.recovered.IsPlain r ↔ q.condition.operator ≠ .ne ∧ q.condition.operator ≠ .isEmpty := by
  obtain ⟨test, field, value⟩ := q
  cases test with
  | equal => exact ⟨fun _ => ⟨nofun, nofun⟩, fun _ => hown⟩
  | compare c =>
    cases c with
    | ne => exact ⟨fun h => absurd h id, fun h => absurd rfl h.1⟩
    | _ => exact ⟨fun _ => ⟨nofun, nofun⟩, fun _ => hown⟩
  | present =>
    unfold Question.recovered Question.condition Test.condition
    dsimp only
    split
    · exact ⟨fun _ => ⟨nofun, nofun⟩, fun _ => hown⟩
    · exact ⟨fun h => absurd h id, fun h => absurd rfl h.2⟩

theorem recovered_ne_bundle (q : Question) (ds : List Document) :
    q.recovered ≠ .all ds ∧ q.recovered ≠ .any ds := by
  obtain ⟨test, value, -, h | h⟩ := q.recovered_eq <;> rw [h]
  · exact ⟨nofun, nofun⟩
  · exact ⟨nofun, nofun⟩

/-- **What a text gives survives a reload exactly when nothing in the query is asked to be different
or absent.** -/
theorem text_ofText_ofText_iff (s : String) (r : Registry) :
    (ofText ((ofText s).text r)).text r = (ofText s).text r ↔
      ∀ c ∈ (ofText s).conditions, r.isStandalone c.field = false →
        c.operator ≠ .ne ∧ c.operator ≠ .isEmpty := by
  obtain ⟨qs, hqs⟩ := conditions_ofText s
  have hfragments := fragments_questions r qs
  rw [← hqs] at hfragments
  constructor
  · intro h c hc hown
    rw [hqs] at hc
    obtain ⟨q, hq, rfl⟩ := List.mem_map.1 hc
    rw [q.field_condition] at hown
    have hmem : q.recovered ∈ fragments r (ofText s).conditions := by
      rw [hfragments]
      exact List.mem_map_of_mem (List.mem_filter.2 ⟨hq, by rw [hown]; rfl⟩)
    -- A bundle is no condition's fragment here, so that only plain ones remain.
    rcases plain_or_bundle_of_text h with hplain | ⟨ds, hone | hone, -⟩
    · exact (isPlain_recovered_iff hown).1 (hplain _ hmem)
    · rw [hone, List.mem_singleton] at hmem
      exact absurd hmem (recovered_ne_bundle q ds).1
    · rw [hone, List.mem_singleton] at hmem
      exact absurd hmem (recovered_ne_bundle q ds).2
  · intro h
    refine text_of_plain_fragments fun d hd => ?_
    rw [hfragments] at hd
    obtain ⟨q, hq, rfl⟩ := List.mem_map.1 hd
    obtain ⟨hq, hown⟩ := List.mem_filter.1 hq
    have hown : r.isStandalone q.field = false := by simpa using hown
    refine (isPlain_recovered_iff hown).2 (h q.condition ?_ (by rw [q.field_condition, hown]))
    rw [hqs]
    exact List.mem_map_of_mem hq

end Conditions

end TableFilter
